import Mathlib.Data.List.Nodup
import Mathlib.Logic.Function.Basic

/-!
# Doubly linked lists

Nodes with a pointer to the next and to the previous one, and a head pointer. A node is put in
at the front and taken out from anywhere.
-/

namespace FreeLwip.Linked

variable {α : Type*}

structure Links (α : Type*) where
  head : Option α
  next : α → Option α
  prev : α → Option α

/-- The nodes reached from `h`, when `p` is the one before. -/
def Chain (next prev : α → Option α) : Option α → Option α → List α → Prop
  | _, h, [] => h = none
  | p, h, x :: xs => h = some x ∧ prev x = p ∧ Chain next prev (some x) (next x) xs

structure Links.Holds (l : Links α) (xs : List α) : Prop where
  chain : Chain l.next l.prev none l.head xs
  nodup : xs.Nodup

variable {next prev next' prev' : α → Option α}

theorem Chain.congr {p h : Option α} {xs : List α} (hc : Chain next prev p h xs)
    (hnext : ∀ x ∈ xs, next' x = next x) (hprev : ∀ x ∈ xs, prev' x = prev x) :
    Chain next' prev' p h xs := by
  induction xs generalizing p h with
  | nil => exact hc
  | cons x xs ih =>
    obtain ⟨hh, hp, hrest⟩ := hc
    refine ⟨hh, by rw [hprev x List.mem_cons_self, hp], ?_⟩
    rw [hnext x List.mem_cons_self]
    exact ih hrest (fun y hy => hnext y (List.mem_cons_of_mem _ hy))
      fun y hy => hprev y (List.mem_cons_of_mem _ hy)

theorem Chain.head_eq {p h : Option α} {xs : List α} (hc : Chain next prev p h xs) :
    h = xs.head? := by
  cases xs with
  | nil => exact hc
  | cons y ys => exact hc.1

theorem Chain.unique {p p' h : Option α} {xs ys : List α} (hx : Chain next prev p h xs)
    (hy : Chain next prev p' h ys) : xs = ys := by
  induction xs generalizing p p' h ys with
  | nil =>
    cases ys with
    | nil => rfl
    | cons y ys => cases hx.symm.trans hy.1
  | cons x xs ih =>
    obtain ⟨rfl, -, hxs⟩ := hx
    cases ys with
    | nil => cases hy
    | cons y ys =>
      obtain ⟨hxy, -, hys⟩ := hy
      cases hxy
      rw [ih hxs hys]

theorem Chain.head_mem {p : Option α} {x : α} {xs : List α}
    (hc : Chain next prev p (some x) xs) : x ∈ xs := by
  cases xs with
  | nil => cases hc
  | cons y ys =>
    obtain ⟨hh, -⟩ := hc
    cases hh
    exact List.mem_cons_self

theorem Chain.next_mem {p h : Option α} {x y : α} {xs : List α} (hc : Chain next prev p h xs)
    (hx : x ∈ xs) (hy : next x = some y) : y ∈ xs := by
  induction xs generalizing p h with
  | nil => cases hx
  | cons z zs ih =>
    obtain ⟨hh, hp, hrest⟩ := hc
    rcases List.mem_cons.mp hx with rfl | hx
    · rw [hy] at hrest
      exact List.mem_cons_of_mem _ hrest.head_mem
    · exact List.mem_cons_of_mem _ (ih hrest hx)

theorem Chain.prev_cases {p h : Option α} {x : α} {xs : List α} (hc : Chain next prev p h xs)
    (hx : x ∈ xs) : (h = some x ∧ prev x = p) ∨ ∃ y ∈ xs, next y = some x ∧ prev x = some y := by
  induction xs generalizing p h with
  | nil => cases hx
  | cons z zs ih =>
    obtain ⟨hh, hp, hrest⟩ := hc
    rcases List.mem_cons.mp hx with rfl | hx
    · exact .inl ⟨hh, hp⟩
    · rcases ih hrest hx with ⟨hfirst, hprev⟩ | ⟨y, hy, hnext, hprev⟩
      · exact .inr ⟨z, List.mem_cons_self, hfirst, hprev⟩
      · exact .inr ⟨y, List.mem_cons_of_mem _ hy, hnext, hprev⟩

theorem Chain.prev_of_next {p h : Option α} {x y : α} {xs : List α} (hc : Chain next prev p h xs)
    (hy : y ∈ xs) (hnext : next y = some x) : prev x = some y := by
  induction xs generalizing p h with
  | nil => cases hy
  | cons z zs ih =>
    obtain ⟨-, -, hrest⟩ := hc
    rcases List.mem_cons.mp hy with rfl | hy
    · rw [hnext] at hrest
      cases zs with
      | nil => cases hrest
      | cons w ws =>
        obtain ⟨hw, hprev, -⟩ := hrest
        cases hw
        exact hprev
    · exact ih hrest hy

theorem Chain.next_ne_self {p h : Option α} {x : α} {xs : List α} (hc : Chain next prev p h xs)
    (hnodup : xs.Nodup) (hx : x ∈ xs) : next x ≠ some x := by
  induction xs generalizing p h with
  | nil => cases hx
  | cons z zs ih =>
    obtain ⟨-, -, hrest⟩ := hc
    obtain ⟨hz, hzs⟩ := List.nodup_cons.mp hnodup
    rcases List.mem_cons.mp hx with rfl | hx
    · intro heq
      rw [heq] at hrest
      exact hz hrest.head_mem
    · exact ih hrest hzs hx

theorem Chain.erase [DecidableEq α] {p h : Option α} {x : α} {xs : List α}
    (hc : Chain next prev p h xs) (hnodup : xs.Nodup) (hx : x ∈ xs)
    (hnext : ∀ y ∈ xs, next' y = if next y = some x then next x else next y)
    (hprev : ∀ y ∈ xs, prev' y = if next x = some y then prev x else prev y) :
    Chain next' prev' p (if h = some x then next x else h) (xs.erase x) := by
  induction xs generalizing p h with
  | nil => cases hx
  | cons z zs ih =>
    obtain ⟨rfl, hp, hrest⟩ := hc
    obtain ⟨hz, hzs⟩ := List.nodup_cons.mp hnodup
    by_cases hzx : z = x
    · subst hzx
      rw [List.erase_cons_head, if_pos rfl]
      cases zs with
      | nil => exact hrest
      | cons y ys =>
        obtain ⟨hy, hpy, hys⟩ := hrest
        have hkeep : ∀ w ∈ y :: ys, next' w = next w := by
          intro w hw
          rw [hnext w (List.mem_cons_of_mem _ hw), if_neg]
          intro hwz
          have hchain : Chain next prev (some z) (some y) (y :: ys) := ⟨rfl, hpy, hys⟩
          exact hz (hchain.next_mem hw hwz)
        refine ⟨hy, ?_, ?_⟩
        · rw [hprev y (by simp), if_pos hy, hp]
        · rw [hkeep y List.mem_cons_self]
          refine hys.congr (fun w hw => hkeep w (List.mem_cons_of_mem _ hw)) fun w hw => ?_
          rw [hprev w (by simp [hw]), if_neg]
          rw [hy]
          intro heq
          cases heq
          exact (List.nodup_cons.mp hzs).1 hw
    · have hxzs : x ∈ zs := (List.mem_cons.mp hx).resolve_left (Ne.symm hzx)
      rw [List.erase_cons_tail (by simpa using hzx), if_neg (by simpa using hzx)]
      refine ⟨rfl, ?_, ?_⟩
      · rw [hprev z List.mem_cons_self, if_neg, hp]
        intro hxz
        exact hz (hrest.next_mem hxzs hxz)
      · rw [hnext z List.mem_cons_self]
        exact ih hrest hzs hxzs (fun y hy => hnext y (List.mem_cons_of_mem _ hy))
          fun y hy => hprev y (List.mem_cons_of_mem _ hy)

/-! ## The nodes after a node -/

/-- The part of the list behind `x`. -/
def after [DecidableEq α] (x : α) : List α → List α
  | [] => []
  | y :: ys => if y = x then ys else after x ys

section After

variable [DecidableEq α] {x y : α} {xs ys : List α}

theorem after_cons_self : after x (x :: xs) = xs :=
  if_pos rfl

theorem after_cons_of_ne (h : y ≠ x) : after x (y :: xs) = after x xs :=
  if_neg h

theorem mem_of_mem_after (h : y ∈ after x xs) : y ∈ xs := by
  induction xs with
  | nil => exact h
  | cons z zs ih =>
    unfold after at h
    split at h
    · exact List.mem_cons_of_mem _ h
    · exact List.mem_cons_of_mem _ (ih h)

theorem after_of_after_eq_cons (hnodup : xs.Nodup) (h : after x xs = y :: ys) :
    after y xs = ys := by
  induction xs with
  | nil => cases h
  | cons z zs ih =>
    obtain ⟨hz, hzs⟩ := List.nodup_cons.mp hnodup
    have hy : y ∈ zs := by
      unfold after at h
      split at h
      · rw [h]
        exact List.mem_cons_self
      · apply mem_of_mem_after (x := x)
        rw [h]
        exact List.mem_cons_self
    have hzy : z ≠ y := by
      rintro rfl
      exact hz hy
    rw [after_cons_of_ne hzy]
    unfold after at h
    split at h
    · rw [h, after_cons_self]
    · exact ih hzs h

theorem Chain.next_eq {p h : Option α} (hc : Chain next prev p h xs) (hx : x ∈ xs) :
    next x = (after x xs).head? := by
  induction xs generalizing p h with
  | nil => cases hx
  | cons z zs ih =>
    obtain ⟨-, -, hrest⟩ := hc
    by_cases hzx : z = x
    · subst hzx
      rw [after_cons_self]
      exact hrest.head_eq
    · rw [after_cons_of_ne hzx]
      exact ih hrest ((List.mem_cons.mp hx).resolve_left (Ne.symm hzx))

end After

namespace Links

variable {l : Links α} {xs : List α} {x : α}

theorem Holds.unique {ys : List α} (hx : l.Holds xs) (hy : l.Holds ys) : xs = ys :=
  hx.chain.unique hy.chain

theorem Holds.head_mem (h : l.Holds xs) (hx : l.head = some x) : x ∈ xs := by
  have hc := h.chain
  rw [hx] at hc
  exact hc.head_mem

theorem Holds.next_mem (h : l.Holds xs) {y : α} (hx : x ∈ xs) (hy : l.next x = some y) :
    y ∈ xs :=
  h.chain.next_mem hx hy

theorem Holds.head_eq (h : l.Holds xs) : l.head = xs.head? :=
  h.chain.head_eq

variable [DecidableEq α]

theorem Holds.next_eq (h : l.Holds xs) (hx : x ∈ xs) : l.next x = (after x xs).head? :=
  h.chain.next_eq hx

/-- `x` is put in before the head. -/
def push (l : Links α) (x : α) : Links α where
  head := some x
  next := Function.update l.next x l.head
  prev :=
    match l.head with
    | some y => Function.update (Function.update l.prev x none) y (some x)
    | none => Function.update l.prev x none

/-- The neighbours of `x` are linked to each other. -/
def unlink (l : Links α) (x : α) : Links α :=
  let prev :=
    match l.next x with
    | some y => Function.update l.prev y (l.prev x)
    | none => l.prev
  if l.head = some x then
    { head := l.next x, next := l.next, prev := prev }
  else
    match prev x with
    | some z => { head := l.head, next := Function.update l.next z (l.next x), prev := prev }
    | none => { head := l.head, next := l.next, prev := prev }

theorem Holds.push (h : l.Holds xs) (hx : x ∉ xs) : (l.push x).Holds (x :: xs) := by
  have hne : ∀ y ∈ xs, y ≠ x := by
    rintro y hy rfl
    exact hx hy
  refine ⟨?_, List.nodup_cons.mpr ⟨hx, h.nodup⟩⟩
  cases xs with
  | nil =>
    have hnil : l.head = none := h.chain
    simp only [Links.push, hnil]
    exact ⟨rfl, Function.update_self .., Function.update_self ..⟩
  | cons y ys =>
    obtain ⟨hhead, hp, hrest⟩ := h.chain
    have hyx := hne y List.mem_cons_self
    have hynot : ∀ z ∈ ys, z ≠ y := by
      rintro z hz rfl
      exact (List.nodup_cons.mp h.nodup).1 hz
    simp only [Links.push, hhead]
    refine ⟨rfl, ?_, ?_, ?_, ?_⟩
    · rw [Function.update_of_ne hyx.symm, Function.update_self]
    · rw [Function.update_self]
    · rw [Function.update_self]
    · rw [Function.update_of_ne hyx]
      refine hrest.congr (fun z hz => ?_) fun z hz => ?_
      · rw [Function.update_of_ne (hne z (List.mem_cons_of_mem _ hz))]
      · rw [Function.update_of_ne (hynot z hz),
          Function.update_of_ne (hne z (List.mem_cons_of_mem _ hz))]

theorem Holds.unlink (h : l.Holds xs) (hx : x ∈ xs) : (l.unlink x).Holds (xs.erase x) := by
  refine ⟨?_, h.nodup.erase x⟩
  have hc := h.chain
  -- The first write of `unlink` is to the node after `x`, so `x` keeps its own pointers.
  obtain ⟨prev', hprev', hself⟩ : ∃ prev', (∀ y, prev' y = if l.next x = some y then l.prev x
      else l.prev y) ∧ prev' x = l.prev x :=
    ⟨fun y => if l.next x = some y then l.prev x else l.prev y, fun _ => rfl,
      if_neg (hc.next_ne_self h.nodup hx)⟩
  have hwrite : (match l.next x with
      | some y => Function.update l.prev y (l.prev x)
      | none => l.prev) = prev' := by
    funext y
    rw [hprev' y]
    cases hy : l.next x with
    | none => simp
    | some z =>
      simp only [Function.update_apply, Option.some.injEq, eq_comm (a := y)]
  unfold Links.unlink
  simp only [hwrite, hself]
  by_cases hhead : l.head = some x
  · have hfirst : l.prev x = none := by
      rw [hhead] at hc
      cases xs with
      | nil => cases hc
      | cons y ys =>
        obtain ⟨hy, hprev, -⟩ := hc
        cases hy
        exact hprev
    have herase : Chain l.next prev' none (if l.head = some x then l.next x else l.head)
        (xs.erase x) := by
      refine hc.erase h.nodup hx (fun y hy => ?_) fun y _ => hprev' y
      rw [if_neg]
      intro hyx
      have hback := hc.prev_of_next hy hyx
      rw [hfirst] at hback
      cases hback
    rw [if_pos hhead] at herase ⊢
    exact herase
  · obtain ⟨z, hz, hnextz, hprevx⟩ := (hc.prev_cases hx).resolve_left fun hfirst => hhead hfirst.1
    rw [if_neg hhead, hprevx]
    have herase : Chain (Function.update l.next z (l.next x)) prev' none
        (if l.head = some x then l.next x else l.head) (xs.erase x) := by
      refine hc.erase h.nodup hx (fun y hy => ?_) fun y _ => hprev' y
      by_cases hyz : y = z
      · rw [hyz, Function.update_self, if_pos hnextz]
      · rw [Function.update_of_ne hyz, if_neg]
        intro hyx
        have hback := hc.prev_of_next hy hyx
        rw [hprevx] at hback
        exact hyz (Option.some.inj hback).symm
    rw [if_neg hhead] at herase
    exact herase

end Links

end FreeLwip.Linked
