import Mathlib.Data.List.Basic
import Mathlib.Logic.Function.Basic

/-!
# Singly linked lists

Nodes with a pointer to the next one, and a head pointer. A search that has passed a node can
move the one behind it to the front.
-/

namespace FreeLwip.Singly

variable {α : Type*}

structure SList (α : Type*) where
  head : Option α
  next : α → Option α

/-- The pointers lead from `h` through the nodes to `t`. -/
def Segment (next : α → Option α) : Option α → List α → Option α → Prop
  | h, [], t => h = t
  | h, x :: xs, t => h = some x ∧ Segment next (next x) xs t

structure SList.Holds (l : SList α) (xs : List α) : Prop where
  segment : Segment l.next l.head xs none
  nodup : xs.Nodup

variable {next next' : α → Option α} {h t m : Option α} {xs ys : List α}

theorem Segment.congr (hs : Segment next h xs t) (hnext : ∀ x ∈ xs, next' x = next x) :
    Segment next' h xs t := by
  induction xs generalizing h with
  | nil => exact hs
  | cons x xs ih =>
    obtain ⟨hx, hrest⟩ := hs
    refine ⟨hx, ?_⟩
    rw [hnext x List.mem_cons_self]
    exact ih hrest fun y hy => hnext y (List.mem_cons_of_mem _ hy)

theorem segment_append :
    Segment next h (xs ++ ys) t ↔ ∃ m, Segment next h xs m ∧ Segment next m ys t := by
  induction xs generalizing h with
  | nil => simp [Segment]
  | cons x xs ih => simp only [List.cons_append, Segment, ih, and_assoc, exists_and_left]

/-- The nodes from `h` on, at most `fuel` of them. -/
def walk (next : α → Option α) : Nat → Option α → List α
  | 0, _ => []
  | _ + 1, none => []
  | fuel + 1, some x => x :: walk next fuel (next x)

theorem Segment.walk_eq (hs : Segment next h xs none) {fuel : Nat} (hfuel : xs.length ≤ fuel) :
    walk next fuel h = xs := by
  induction xs generalizing h fuel with
  | nil =>
    rw [Segment] at hs
    subst hs
    cases fuel <;> rfl
  | cons x xs ih =>
    obtain ⟨rfl, hrest⟩ := hs
    cases fuel with
    | zero => cases hfuel
    | succ fuel => rw [walk, ih hrest (Nat.le_of_succ_le_succ hfuel)]

theorem Segment.head_eq (hs : Segment next h xs none) : h = xs.head? := by
  cases xs with
  | nil => exact hs
  | cons x xs => exact hs.1

theorem Segment.mem_of_reach {x : α} (hs : Segment next h xs (some x))
    (ht : Segment next h ys none) : x ∈ ys := by
  induction xs generalizing h ys with
  | nil =>
    rw [Segment] at hs
    cases ys with
    | nil =>
      rw [hs] at ht
      cases ht
    | cons y ys =>
      cases hs.symm.trans ht.1
      exact List.mem_cons_self
  | cons z xs ih =>
    obtain ⟨rfl, hrest⟩ := hs
    cases ys with
    | nil => cases ht
    | cons y ys =>
      cases ht.1
      exact List.mem_cons_of_mem _ (ih hrest ht.2)

namespace SList

variable [DecidableEq α] {l : SList α} {p x : α}

/-- The node `x` behind `p` is moved to the front. -/
def moveToFront (l : SList α) (p x : α) : SList α where
  head := some x
  next := Function.update (Function.update l.next p (l.next x)) x l.head

theorem Holds.moveToFront (h : l.Holds (xs ++ p :: x :: ys)) :
    (l.moveToFront p x).Holds (x :: (xs ++ p :: ys)) := by
  have hperm : (x :: (xs ++ p :: ys)).Perm (xs ++ p :: x :: ys) := by
    refine (List.perm_middle.symm.trans ?_)
    exact (List.Perm.swap p x ys).append_left xs
  have hnodup := hperm.nodup_iff.mpr h.nodup
  refine ⟨?_, hnodup⟩
  obtain ⟨m, hxs, hrest⟩ := segment_append.mp h.segment
  obtain ⟨rfl, hx, hys⟩ := hrest
  obtain ⟨hxnot, hrestnodup⟩ := List.nodup_cons.mp hnodup
  have hne : ∀ y ∈ xs ++ p :: ys, y ≠ x := by
    rintro y hy rfl
    exact hxnot hy
  have hp : ∀ y ∈ xs ++ ys, y ≠ p := by
    rintro y hy rfl
    exact (List.nodup_cons.mp (List.perm_middle.nodup_iff.mp hrestnodup)).1 hy
  refine ⟨rfl, ?_⟩
  simp only [SList.moveToFront, Function.update_self]
  -- Only the pointers of `p` and `x` are written.
  refine segment_append.mpr ⟨some p, hxs.congr fun y hy => ?_, rfl, ?_⟩
  · rw [Function.update_of_ne (hne y (by simp [hy])), Function.update_of_ne (hp y (by simp [hy]))]
  · rw [Function.update_of_ne (hne p (by simp)), Function.update_self]
    refine hys.congr fun y hy => ?_
    rw [Function.update_of_ne (hne y (by simp [hy])), Function.update_of_ne (hp y (by simp [hy]))]

omit [DecidableEq α] in
theorem Holds.unique (hx : l.Holds xs) (hy : l.Holds ys) : xs = ys := by
  have hx' := hx.segment.walk_eq (Nat.le_max_left xs.length ys.length)
  have hy' := hy.segment.walk_eq (Nat.le_max_right xs.length ys.length)
  exact hx'.symm.trans hy'

omit [DecidableEq α] in
theorem Holds.next_concat (h : l.Holds (xs ++ [x])) :
    (∀ y ∈ xs, (l.next y).isSome = true) ∧ l.next x = none := by
  obtain ⟨hnodup, hs⟩ := h
  generalize l.head = m at hnodup
  clear hs
  induction xs generalizing m with
  | nil => exact ⟨by simp, hnodup.2⟩
  | cons y ys ih =>
    obtain ⟨-, hrest⟩ := hnodup
    have hnext := ih _ hrest
    refine ⟨List.forall_mem_cons.mpr ⟨?_, hnext.1⟩, hnext.2⟩
    rw [hrest.head_eq]
    cases ys <;> rfl

/-- A node is put in at the front. -/
def push (l : SList α) (x : α) : SList α where
  head := some x
  next := Function.update l.next x l.head

theorem Holds.push (h : l.Holds xs) (hx : x ∉ xs) : (l.push x).Holds (x :: xs) := by
  refine ⟨⟨rfl, ?_⟩, List.nodup_cons.mpr ⟨hx, h.nodup⟩⟩
  simp only [SList.push, Function.update_self]
  refine h.segment.congr fun y hy => Function.update_of_ne ?_ _ _
  rintro rfl
  exact hx hy

theorem Holds.update_next (h : l.Holds xs) (hx : x ∉ xs) (m : Option α) :
    SList.Holds { l with next := Function.update l.next x m } xs := by
  refine ⟨h.segment.congr fun y hy => Function.update_of_ne ?_ _ _, h.nodup⟩
  rintro rfl
  exact hx hy

/-- A node is taken out, when `prev` is the one in front of it. -/
def unlink (l : SList α) (x : α) (prev : Option α) : SList α :=
  if l.head = some x then { l with head := l.next x }
  else
    match prev with
    | some prev => { l with next := Function.update l.next prev (l.next x) }
    | none => l

theorem Holds.unlink (h : l.Holds (xs ++ x :: ys)) : (l.unlink x xs.getLast?).Holds (xs ++ ys) := by
  obtain ⟨hnot, hnodup⟩ := List.nodup_cons.mp (List.perm_middle.nodup_iff.mp h.nodup)
  refine ⟨?_, hnodup⟩
  obtain ⟨m, hxs, rfl, hys⟩ := segment_append.mp h.segment
  unfold SList.unlink
  rcases List.eq_nil_or_concat xs with rfl | ⟨xs, p, rfl⟩
  · rw [Segment] at hxs
    rw [if_pos hxs]
    exact hys
  · rw [List.concat_eq_append] at *
    have hhead : l.head ≠ some x := by
      intro heq
      rw [heq] at hxs
      cases xs with
      | nil =>
        cases hxs.1
        exact hnot (by simp)
      | cons y xs =>
        cases hxs.1
        exact hnot (by simp)
    rw [if_neg hhead, List.getLast?_concat]
    obtain ⟨k, hk, rfl, -⟩ := segment_append.mp hxs
    have hp : ∀ y ∈ xs ++ ys, y ≠ p := by
      rintro y hy rfl
      rw [List.append_assoc] at hnodup
      exact (List.nodup_cons.mp (List.perm_middle.nodup_iff.mp hnodup)).1 hy
    -- Only the pointer of `p` is written.
    rw [List.append_assoc]
    refine segment_append.mpr ⟨some p, hk.congr fun y hy => ?_, rfl, ?_⟩
    · exact Function.update_of_ne (hp y (by simp [hy])) _ _
    · simp only [Function.update_self]
      exact hys.congr fun y hy => Function.update_of_ne (hp y (by simp [hy])) _ _

end SList

end FreeLwip.Singly
