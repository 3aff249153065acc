import FreeLwip.Api.Table
import FreeLwip.Lib.TaskCount
import FreeLwip.Lib.Run

/-!
# The count of waiting selects (`sockets.c`)

The two loops of `lwip_select` over its sets, against the calls that create and close sockets.
LWIP_ASSERT is compiled out: what `tryget_socket` returns is used as it is.
-/

namespace FreeLwip.Api.Waiting

open Run TaskCount

/-- The arguments of a call of `lwip_select`. -/
structure Sets where
  readset : Int → Bool
  writeset : Int → Bool
  exceptset : Int → Bool
  maxfdp1 : Int

def Sets.selects (sets : Sets) (fd : Int) : Bool :=
  sets.readset fd || sets.writeset fd || sets.exceptset fd

/-- The loops come to the descriptor of entry `i`, and it is in one of the sets. -/
def Sets.Contains (sets : Sets) (i : Nat) : Prop :=
  lwipSocketOffset + i < sets.maxfdp1 ∧ sets.selects (lwipSocketOffset + i) = true

instance (sets : Sets) (i : Nat) : Decidable (sets.Contains i) :=
  inferInstanceAs (Decidable (_ ∧ _))

/-- What a task does. -/
inductive Pc
  | idle
  -- In `lwip_select`: the marking loop, before and after `tryget_socket`; the second scan and the
  -- semaphore; the loop that takes the marks back.
  | mark (sets : Sets) (fd : Int)
  | increase (sets : Sets) (fd : Int) (sock : Option Nat)
  | asleep (sets : Sets)
  | unmark (sets : Sets) (fd : Int)
  | decrease (sets : Sets) (fd : Int) (sock : Option Nat)
  -- In `alloc_socket`: the loop, and an entry whose fields are to be set.
  | alloc (c : ConnId) (type : NetconnType) (accepted : Bool) (i : Nat)
  | reset (type : NetconnType) (accepted : Bool) (i : Nat)
  -- In `lwip_close`, with the entry that `get_socket` has found.
  | free (i : Nat)

structure State (Task : Type*) where
  sockets : Sockets
  pc : Task → Pc
  -- The history: the sockets that `alloc_socket` has made, and the uses of NULL.
  opened : Nat → Bool
  nullUses : Nat

variable {Task : Type*}

def init : State Task where
  sockets _ := LwipSock.zero
  pc _ := .idle
  opened _ := false
  nullUses := 0

namespace State

def setSock (s : State Task) (i : Nat) (sock : LwipSock) : State Task :=
  { s with sockets := Function.update s.sockets i sock }

/-- `sock->select_waiting` changes by `n`. -/
def addWaiting (s : State Task) (sock : Option Nat) (n : Int) : State Task :=
  match sock with
  | none => { s with nullUses := s.nullUses + 1 }
  | some i => s.setSock i { s.sockets i with selectWaiting := (s.sockets i).selectWaiting + n }

variable [DecidableEq Task]

def setPc (s : State Task) (τ : Task) (pc : Pc) : State Task :=
  { s with pc := Function.update s.pc τ pc }

/-- The next step of a task that is in a call. -/
def turn (s : State Task) (τ : Task) : Pc → Option (State Task)
  | .idle => none
  | .mark sets fd =>
    some (s.setPc τ
      (if fd < sets.maxfdp1 then
        if sets.selects fd then .increase sets fd (trygetSocket s.sockets fd)
        else .mark sets (fd + 1)
      else
        .asleep sets))
  | .increase sets fd sock => some ((s.addWaiting sock 1).setPc τ (.mark sets (fd + 1)))
  | .asleep sets => some (s.setPc τ (.unmark sets lwipSocketOffset))
  | .unmark sets fd =>
    some (s.setPc τ
      (if fd < sets.maxfdp1 then
        if sets.selects fd then .decrease sets fd (trygetSocket s.sockets fd)
        else .unmark sets (fd + 1)
      else
        .idle))
  | .decrease sets fd sock => some ((s.addWaiting sock (-1)).setPc τ (.unmark sets (fd + 1)))
  | .alloc c type accepted i =>
    if i < numSockets then
      if (s.sockets i).conn.isNone then
        some ((s.setSock i { s.sockets i with conn := some c }).setPc τ (.reset type accepted i))
      else
        some (s.setPc τ (.alloc c type accepted (i + 1)))
    else
      some (s.setPc τ .idle)
  | .reset type accepted i =>
    some { (s.setSock i ((s.sockets i).reset type accepted)).setPc τ .idle with
      opened := Function.update s.opened i true }
  | .free i =>
    some { (s.setSock i { s.sockets i with conn := none }).setPc τ .idle with
      opened := Function.update s.opened i false }

end State

inductive Action (Task : Type*)
  /-- `lwip_select` finds nothing, and comes to its first loop. -/
  | select (τ : Task) (sets : Sets)
  /-- `lwip_socket` or `lwip_accept` has a connection. -/
  | create (τ : Task) (c : ConnId) (type : NetconnType) (accepted : Bool)
  | close (τ : Task) (fd : Int)
  | turn (τ : Task)

def Pc.isIdle : Pc → Bool
  | .idle => true
  | _ => false

def step [DecidableEq Task] (s : State Task) : Action Task → Option (State Task)
  | .select τ sets =>
    if (s.pc τ).isIdle then some (s.setPc τ (.mark sets lwipSocketOffset)) else none
  | .create τ c type accepted =>
    if (s.pc τ).isIdle then some (s.setPc τ (.alloc c type accepted 0)) else none
  | .close τ fd =>
    if (s.pc τ).isIdle then
      match getSocket s.sockets fd with
      | none => some s
      | some i => some (s.setPc τ (.free i))
    else
      none
  | .turn τ => s.turn τ (s.pc τ)

/-! ## What a step can be -/

section Moves

variable [DecidableEq Task] {s t : State Task} {τ : Task}

inductive Moves (s : State Task) : Action Task → State Task → Prop
  | select {τ : Task} {sets : Sets} (idle : (s.pc τ).isIdle = true) :
      Moves s (.select τ sets) (s.setPc τ (.mark sets lwipSocketOffset))
  | create {τ : Task} {c : ConnId} {type : NetconnType} {accepted : Bool}
      (idle : (s.pc τ).isIdle = true) :
      Moves s (.create τ c type accepted) (s.setPc τ (.alloc c type accepted 0))
  | closeNone {τ : Task} {fd : Int} : Moves s (.close τ fd) s
  | close {τ : Task} {fd : Int} {i : Nat} (idle : (s.pc τ).isIdle = true) :
      Moves s (.close τ fd) (s.setPc τ (.free i))
  | mark {τ : Task} {sets : Sets} {fd : Int} (stands : s.pc τ = .mark sets fd) :
      Moves s (.turn τ) (s.setPc τ (if fd < sets.maxfdp1 then
        if sets.selects fd then .increase sets fd (trygetSocket s.sockets fd)
        else .mark sets (fd + 1) else .asleep sets))
  | increase {τ : Task} {sets : Sets} {fd : Int} {sock : Option Nat}
      (stands : s.pc τ = .increase sets fd sock) :
      Moves s (.turn τ) ((s.addWaiting sock 1).setPc τ (.mark sets (fd + 1)))
  | wakes {τ : Task} {sets : Sets} (stands : s.pc τ = .asleep sets) :
      Moves s (.turn τ) (s.setPc τ (.unmark sets lwipSocketOffset))
  | unmark {τ : Task} {sets : Sets} {fd : Int} (stands : s.pc τ = .unmark sets fd) :
      Moves s (.turn τ) (s.setPc τ (if fd < sets.maxfdp1 then
        if sets.selects fd then .decrease sets fd (trygetSocket s.sockets fd)
        else .unmark sets (fd + 1) else .idle))
  | decrease {τ : Task} {sets : Sets} {fd : Int} {sock : Option Nat}
      (stands : s.pc τ = .decrease sets fd sock) :
      Moves s (.turn τ) ((s.addWaiting sock (-1)).setPc τ (.unmark sets (fd + 1)))
  | claim {τ : Task} {c : ConnId} {type : NetconnType} {accepted : Bool} {i : Nat}
      (stands : s.pc τ = .alloc c type accepted i) (inTable : i < numSockets)
      (free : (s.sockets i).conn = none) :
      Moves s (.turn τ) ((s.setSock i { s.sockets i with conn := some c }).setPc τ
        (.reset type accepted i))
  | pass {τ : Task} {c : ConnId} {type : NetconnType} {accepted : Bool} {i : Nat}
      (stands : s.pc τ = .alloc c type accepted i) :
      Moves s (.turn τ) (s.setPc τ (.alloc c type accepted (i + 1)))
  | full {τ : Task} {c : ConnId} {type : NetconnType} {accepted : Bool} {i : Nat}
      (stands : s.pc τ = .alloc c type accepted i) : Moves s (.turn τ) (s.setPc τ .idle)
  | reset {τ : Task} {type : NetconnType} {accepted : Bool} {i : Nat}
      (stands : s.pc τ = .reset type accepted i) :
      Moves s (.turn τ) { (s.setSock i ((s.sockets i).reset type accepted)).setPc τ .idle with
        opened := Function.update s.opened i true }
  | free {τ : Task} {i : Nat} (stands : s.pc τ = .free i) :
      Moves s (.turn τ) { (s.setSock i { s.sockets i with conn := none }).setPc τ .idle with
        opened := Function.update s.opened i false }

theorem moves_of_turn (h : s.turn τ (s.pc τ) = some t) : Moves s (.turn τ) t := by
  cases hpc : s.pc τ <;> rw [hpc] at h
  case idle => cases h
  case alloc c type accepted i =>
    simp only [State.turn] at h
    split at h
    · next hi =>
      split at h
      · next hfree =>
        cases h
        exact .claim hpc hi (Option.isNone_iff_eq_none.mp hfree)
      · cases h
        exact .pass hpc
    · cases h
      exact .full hpc
  all_goals cases h
  case mark => exact .mark hpc
  case increase => exact .increase hpc
  case asleep => exact .wakes hpc
  case unmark => exact .unmark hpc
  case decrease => exact .decrease hpc
  case reset => exact .reset hpc
  case free => exact .free hpc

theorem moves_of_step {a : Action Task} (h : step s a = some t) : Moves s a t := by
  cases a with
  | select τ sets =>
    simp only [step, Option.ite_none_right_eq_some, Option.some.injEq] at h
    obtain ⟨hidle, rfl⟩ := h
    exact .select hidle
  | create τ c type accepted =>
    simp only [step, Option.ite_none_right_eq_some, Option.some.injEq] at h
    obtain ⟨hidle, rfl⟩ := h
    exact .create hidle
  | close τ fd =>
    simp only [step, Option.ite_none_right_eq_some] at h
    obtain ⟨hidle, h⟩ := h
    split at h
    · cases h
      exact .closeNone
    · cases h
      exact .close hidle
  | turn τ => exact moves_of_turn h

end Moves

/-! ## Marks -/

/-- The call has counted itself in at entry `i`, and not out again. -/
def Pc.Marked (i : Nat) : Pc → Prop
  | .mark sets fd => sets.Contains i ∧ lwipSocketOffset + i < fd
  | .increase sets fd _ => sets.Contains i ∧ lwipSocketOffset + i < fd
  | .asleep sets => sets.Contains i
  | .unmark sets fd => sets.Contains i ∧ fd ≤ lwipSocketOffset + i
  | .decrease sets fd _ => sets.Contains i ∧ fd ≤ lwipSocketOffset + i
  | _ => False

instance (i : Nat) : DecidablePred (Pc.Marked i)
  | .idle => inferInstanceAs (Decidable False)
  | .mark _ _ => inferInstanceAs (Decidable (_ ∧ _))
  | .increase _ _ _ => inferInstanceAs (Decidable (_ ∧ _))
  | .asleep sets => inferInstanceAs (Decidable (sets.Contains i))
  | .unmark _ _ => inferInstanceAs (Decidable (_ ∧ _))
  | .decrease _ _ _ => inferInstanceAs (Decidable (_ ∧ _))
  | .alloc _ _ _ _ => inferInstanceAs (Decidable False)
  | .reset _ _ _ => inferInstanceAs (Decidable False)
  | .free _ => inferInstanceAs (Decidable False)

/-- It has counted itself in, or is about to. -/
def Pc.Watches (i : Nat) : Pc → Prop
  | .increase sets fd sock => Pc.Marked i (.increase sets fd sock) ∨ sock = some i
  | pc => pc.Marked i

instance (i : Nat) : DecidablePred (Pc.Watches i)
  | .increase sets fd sock =>
    inferInstanceAs (Decidable (Pc.Marked i (.increase sets fd sock) ∨ sock = some i))
  | .idle => inferInstanceAs (Decidable (Pc.Marked i .idle))
  | .mark sets fd => inferInstanceAs (Decidable (Pc.Marked i (.mark sets fd)))
  | .asleep sets => inferInstanceAs (Decidable (Pc.Marked i (.asleep sets)))
  | .unmark sets fd => inferInstanceAs (Decidable (Pc.Marked i (.unmark sets fd)))
  | .decrease sets fd sock => inferInstanceAs (Decidable (Pc.Marked i (.decrease sets fd sock)))
  | .alloc c type accepted j => inferInstanceAs (Decidable (Pc.Marked i (.alloc c type accepted j)))
  | .reset type accepted j => inferInstanceAs (Decidable (Pc.Marked i (.reset type accepted j)))
  | .free j => inferInstanceAs (Decidable (Pc.Marked i (.free j)))

/-- It sleeps, and the descriptor of entry `i` is in its sets. -/
def Pc.SleepsOn (i : Nat) : Pc → Prop
  | .asleep sets => sets.Contains i
  | _ => False

instance (i : Nat) : DecidablePred (Pc.SleepsOn i)
  | .asleep sets => inferInstanceAs (Decidable (sets.Contains i))
  | .idle => inferInstanceAs (Decidable False)
  | .mark _ _ => inferInstanceAs (Decidable False)
  | .increase _ _ _ => inferInstanceAs (Decidable False)
  | .unmark _ _ => inferInstanceAs (Decidable False)
  | .decrease _ _ _ => inferInstanceAs (Decidable False)
  | .alloc _ _ _ _ => inferInstanceAs (Decidable False)
  | .reset _ _ _ => inferInstanceAs (Decidable False)
  | .free _ => inferInstanceAs (Decidable False)

/-- It is inside one of the two loops. -/
def Pc.InLoop : Pc → Prop
  | .mark _ _ | .increase _ _ _ | .unmark _ _ | .decrease _ _ _ => True
  | _ => False

/-- The entry whose fields it is about to set. -/
def Pc.resets : Pc → Option Nat
  | .reset _ _ i => some i
  | _ => none

def PcOk (s : State Task) : Pc → Prop
  | .mark _ fd => lwipSocketOffset ≤ fd
  | .increase sets fd sock =>
    ∃ i : Nat, sock = some i ∧ fd = lwipSocketOffset + i ∧ sets.Contains i ∧ s.opened i = true
  | .unmark _ fd => lwipSocketOffset ≤ fd
  | .decrease sets fd sock =>
    ∃ i : Nat, sock = some i ∧ fd = lwipSocketOffset + i ∧ sets.Contains i
  | .reset _ _ i => (s.sockets i).conn ≠ none ∧ s.opened i = false
  | _ => True

/-- Marks are on open sockets, and each socket has as many as its count says. -/
structure WaitingInv [Fintype Task] (s : State Task) : Prop where
  bound : ∀ i, (s.sockets i).conn ≠ none → i < numSockets
  opened : ∀ i, s.opened i = true → (s.sockets i).conn ≠ none
  marked : ∀ τ i, (s.pc τ).Marked i → s.opened i = true
  waiting : ∀ i, s.opened i = true →
    (s.sockets i).selectWaiting = count (Pc.Marked i) s.pc
  pc : ∀ τ, PcOk s (s.pc τ)
  resets : ∀ τ σ i, (s.pc τ).resets = some i → (s.pc σ).resets = some i → τ = σ
  nullUses : s.nullUses = 0

/-- A select only looks up open sockets when it marks; and the entry of a closed socket is
freed when no select has marked it, and no call is about to set its fields. -/
def PcCareful (s : State Task) : Pc → Prop
  | .mark sets fd => fd < sets.maxfdp1 → sets.selects fd = true →
    s.opened (fd - lwipSocketOffset).toNat = true
  | .free i => ∀ σ, ¬ (s.pc σ).Watches i ∧ (s.pc σ).resets ≠ some i
  | _ => True

def Careful (s : State Task) : Action Task → Prop
  | .turn τ => PcCareful s (s.pc τ)
  | _ => True

instance [Fintype Task] (s : State Task) : (pc : Pc) → Decidable (PcCareful s pc)
  | .mark _ _ => inferInstanceAs (Decidable (_ → _ → _))
  | .free _ => inferInstanceAs (Decidable (∀ _, _))
  | .idle => inferInstanceAs (Decidable True)
  | .increase _ _ _ => inferInstanceAs (Decidable True)
  | .asleep _ => inferInstanceAs (Decidable True)
  | .unmark _ _ => inferInstanceAs (Decidable True)
  | .decrease _ _ _ => inferInstanceAs (Decidable True)
  | .alloc _ _ _ _ => inferInstanceAs (Decidable True)
  | .reset _ _ _ => inferInstanceAs (Decidable True)

instance [Fintype Task] (s : State Task) : (a : Action Task) → Decidable (Careful s a)
  | .turn τ => inferInstanceAs (Decidable (PcCareful s (s.pc τ)))
  | .select _ _ => inferInstanceAs (Decidable True)
  | .create _ _ _ _ => inferInstanceAs (Decidable True)
  | .close _ _ => inferInstanceAs (Decidable True)

section Invariant

variable {s t : State Task} {τ : Task} {i : Nat} {pc : Pc} {sets : Sets} {fd : Int}

/-! ### How the loops mark -/

theorem marked_mark_skip (hsel : sets.selects fd = false) :
    Pc.Marked i (.mark sets (fd + 1)) ↔ Pc.Marked i (.mark sets fd) := by
  unfold Pc.Marked
  refine and_congr_right fun hcont => ⟨fun hlt => ?_, fun hlt => by omega⟩
  have hne : lwipSocketOffset + (i : Int) ≠ fd := by
    rintro rfl
    rw [hcont.2] at hsel
    cases hsel
  omega

theorem marked_mark_end (hend : ¬ fd < sets.maxfdp1) :
    Pc.Marked i (.asleep sets) ↔ Pc.Marked i (.mark sets fd) := by
  unfold Pc.Marked
  refine ⟨fun hcont => ⟨hcont, ?_⟩, And.left⟩
  have := hcont.1
  omega

theorem marked_mark_succ (j : Nat) :
    Pc.Marked j (.mark sets (lwipSocketOffset + i + 1)) ↔
      (sets.Contains j ∧ j = i) ∨ Pc.Marked j (.mark sets (lwipSocketOffset + i)) := by
  unfold Pc.Marked
  rw [← and_or_left]
  refine and_congr_right fun _ => ?_
  omega

theorem marked_unmark_start : Pc.Marked i (.unmark sets lwipSocketOffset) ↔
    Pc.Marked i (.asleep sets) := by
  unfold Pc.Marked
  exact and_iff_left (by omega)

theorem marked_unmark_skip (hsel : sets.selects fd = false) :
    Pc.Marked i (.unmark sets (fd + 1)) ↔ Pc.Marked i (.unmark sets fd) := by
  unfold Pc.Marked
  refine and_congr_right fun hcont => ⟨fun hle => by omega, fun hle => ?_⟩
  have hne : lwipSocketOffset + (i : Int) ≠ fd := by
    rintro rfl
    rw [hcont.2] at hsel
    cases hsel
  omega

theorem marked_unmark_end (hend : ¬ fd < sets.maxfdp1) :
    Pc.Marked i .idle ↔ Pc.Marked i (.unmark sets fd) := by
  unfold Pc.Marked
  refine iff_of_false id fun hcont => ?_
  have := hcont.1.1
  have := hcont.2
  omega

theorem marked_unmark_succ (j : Nat) :
    Pc.Marked j (.unmark sets (lwipSocketOffset + i)) ↔
      (sets.Contains j ∧ j = i) ∨ Pc.Marked j (.unmark sets (lwipSocketOffset + i + 1)) := by
  unfold Pc.Marked
  rw [← and_or_left]
  refine and_congr_right fun _ => ?_
  omega

theorem Pc.Marked.watches (h : pc.Marked i) : pc.Watches i := by
  cases pc <;> first | exact h | exact .inl h

/-! ### What a step does to the counts -/

theorem pcOk_setPc [DecidableEq Task] {pc' : Pc} : PcOk (s.setPc τ pc) pc' ↔ PcOk s pc' := by
  cases pc' <;> rfl

theorem PcOk.mono (h : PcOk s pc) (hopened : ∀ i, pc.Watches i → s.opened i = true →
      t.opened i = true)
    (hresets : ∀ i, pc.resets = some i → (s.sockets i).conn ≠ none → s.opened i = false →
      (t.sockets i).conn ≠ none ∧ t.opened i = false) : PcOk t pc := by
  cases pc with
  | increase sets fd sock =>
    obtain ⟨i, rfl, hfd, hcont, hopen⟩ := h
    exact ⟨i, rfl, hfd, hcont, hopened i (.inr rfl) hopen⟩
  | reset type accepted i => exact hresets i rfl h.1 h.2
  | mark sets fd => exact h
  | unmark sets fd => exact h
  | decrease sets fd sock => exact h
  | idle => trivial
  | asleep sets => trivial
  | alloc c type accepted i => trivial
  | free i => trivial

variable [Fintype Task]

theorem init_inv : WaitingInv (init : State Task) where
  bound _ h := absurd rfl h
  opened _ h := by simp [init] at h
  marked _ _ h := h.elim
  waiting _ h := by simp [init] at h
  pc _ := trivial
  resets _ _ _ h := by simp [init, Pc.resets] at h
  nullUses := rfl

variable [DecidableEq Task]

namespace WaitingInv

theorem resets_update (h : WaitingInv s)
    (hresets : ∀ i, pc.resets = some i → ∀ σ ≠ τ, (s.pc σ).resets ≠ some i) :
    ∀ σ₁ σ₂ i, (Function.update s.pc τ pc σ₁).resets = some i →
      (Function.update s.pc τ pc σ₂).resets = some i → σ₁ = σ₂ := by
  intro σ₁ σ₂ i h₁ h₂
  obtain ⟨heq₁, hr₁⟩ | ⟨hne₁, hr₁⟩ := update_cases (fun pc : Pc => pc.resets = some i) h₁
  · obtain ⟨heq₂, -⟩ | ⟨hne₂, hr₂⟩ := update_cases (fun pc : Pc => pc.resets = some i) h₂
    · exact heq₁.trans heq₂.symm
    · exact absurd hr₂ (hresets i hr₁ σ₂ hne₂)
  · obtain ⟨-, hr₂⟩ | ⟨-, hr₂⟩ := update_cases (fun pc : Pc => pc.resets = some i) h₂
    · exact absurd hr₁ (hresets i hr₂ σ₁ hne₁)
    · exact h.resets σ₁ σ₂ i hr₁ hr₂

theorem setPc (h : WaitingInv s) (hpc : PcOk s pc)
    (hmarked : ∀ i, pc.Marked i ↔ (s.pc τ).Marked i) (hresets : pc.resets = none) :
    WaitingInv (s.setPc τ pc) := by
  constructor
  case bound => exact h.bound
  case opened => exact h.opened
  case nullUses => exact h.nullUses
  case marked =>
    intro σ i hσ
    obtain ⟨-, hm⟩ | ⟨-, hm⟩ := update_cases (Pc.Marked i) hσ
    · exact h.marked τ i ((hmarked i).mp hm)
    · exact h.marked σ i hm
  case waiting =>
    intro i hi
    refine (h.waiting i hi).trans ?_
    exact congrArg Nat.cast (count_update_of_iff (hmarked i)).symm
  case pc =>
    intro σ
    rw [pcOk_setPc]
    by_cases hσ : σ = τ
    · subst hσ
      simpa [State.setPc] using hpc
    · simpa [State.setPc, hσ] using h.pc σ
  case resets => exact h.resets_update fun i hi => by rw [hresets] at hi; cases hi

theorem addWaiting {n : Int} (h : WaitingInv s) (hpc : PcOk s pc) (hopen : s.opened i = true)
    (hother : ∀ j ≠ i, (pc.Marked j ↔ (s.pc τ).Marked j))
    (hcount : (count (Pc.Marked i) (Function.update s.pc τ pc) : Int) =
      count (Pc.Marked i) s.pc + n) (hresets : pc.resets = none) :
    WaitingInv ((s.addWaiting (some i) n).setPc τ pc) := by
  have hconn : ∀ j, (((s.addWaiting (some i) n).setPc τ pc).sockets j).conn =
      (s.sockets j).conn := by
    intro j
    by_cases hj : j = i <;> simp [State.addWaiting, State.setSock, State.setPc, hj]
  have hmarked : ∀ σ j, (Function.update s.pc τ pc σ).Marked j → s.opened j = true := by
    intro σ j hσ
    by_cases hj : j = i
    · exact hj ▸ hopen
    · obtain ⟨-, hm⟩ | ⟨-, hm⟩ := update_cases (Pc.Marked j) hσ
      · exact h.marked τ j ((hother j hj).mp hm)
      · exact h.marked σ j hm
  constructor
  case nullUses => exact h.nullUses
  case bound => exact fun j hj => h.bound j (hconn j ▸ hj)
  case opened => exact fun j hj => (hconn j).symm ▸ h.opened j hj
  case marked => exact hmarked
  case waiting =>
    intro j hj
    by_cases hji : j = i
    · subst hji
      have := h.waiting j hj
      simp only [State.addWaiting, State.setSock, State.setPc, Function.update_self] at hcount ⊢
      omega
    · have hsame := h.waiting j hj
      simp only [State.addWaiting, State.setSock, State.setPc, Function.update_of_ne hji]
      rw [hsame, count_update_of_iff (hother j hji)]
  case pc =>
    intro σ
    have hσ : PcOk s (Function.update s.pc τ pc σ) := by
      by_cases hσ : σ = τ
      · subst hσ
        simpa using hpc
      · simpa [hσ] using h.pc σ
    exact hσ.mono (fun _ _ => id) fun j _ hj hr => ⟨(hconn j).symm ▸ hj, hr⟩
  case resets => exact h.resets_update fun j hj => by rw [hresets] at hj; cases hj

theorem claim {c : ConnId} {type : NetconnType} {accepted : Bool} (h : WaitingInv s)
    (hidle : ∀ j, ¬ (s.pc τ).Marked j) (hi : i < numSockets) (hfree : (s.sockets i).conn = none) :
    WaitingInv ((s.setSock i { s.sockets i with conn := some c }).setPc τ
      (.reset type accepted i)) := by
  have hnot : s.opened i = false := Bool.eq_false_iff.mpr fun ho => h.opened i ho hfree
  have hkeep : ∀ j ≠ i, (s.setSock i { s.sockets i with conn := some c }).sockets j =
      s.sockets j := fun j hj => Function.update_of_ne hj _ _
  have hself : ((s.setSock i { s.sockets i with conn := some c }).sockets i).conn = some c := by
    simp [State.setSock]
  have hnotmarked : ∀ j, Pc.Marked j (.reset type accepted i) ↔ (s.pc τ).Marked j := fun j =>
    iff_of_false id (hidle j)
  constructor
  case nullUses => exact h.nullUses
  case bound =>
    intro j hj
    by_cases hji : j = i
    · exact hji ▸ hi
    · exact h.bound j (by rwa [← hkeep j hji])
  case opened =>
    intro j hj
    have hji : j ≠ i := by
      rintro rfl
      rw [show s.opened j = true from hj] at hnot
      cases hnot
    exact (congrArg LwipSock.conn (hkeep j hji)).trans_ne (h.opened j hj)
  case marked =>
    intro σ j hσ
    obtain ⟨-, hm⟩ | ⟨-, hm⟩ := update_cases (Pc.Marked j) hσ
    · exact hm.elim
    · exact h.marked σ j hm
  case waiting =>
    intro j hj
    refine Eq.trans ?_ ((h.waiting j hj).trans (congrArg Nat.cast
      (count_update_of_iff (hnotmarked j)).symm))
    by_cases hji : j = i <;> simp [State.setSock, State.setPc, hji]
  case pc =>
    intro σ
    rw [pcOk_setPc]
    by_cases hσ : σ = τ
    · subst hσ
      simp only [State.setPc, Function.update_self]
      exact ⟨by simp [hself], hnot⟩
    · simp only [State.setPc, Function.update_of_ne hσ]
      refine (h.pc σ).mono (fun _ _ => id) fun j _ hj hr => ⟨?_, hr⟩
      by_cases hji : j = i
      · subst hji
        simp [hself]
      · exact (congrArg LwipSock.conn (hkeep j hji)).trans_ne hj
  case resets =>
    refine h.resets_update fun j hj σ _ hσ => ?_
    obtain rfl : i = j := Option.some.inj hj
    have hok := h.pc σ
    cases hpc : s.pc σ <;> rw [hpc] at hσ hok <;> cases hσ
    exact hok.1 hfree

theorem resetEntry {type : NetconnType} {accepted : Bool} (h : WaitingInv s)
    (hpc : s.pc τ = .reset type accepted i) :
    WaitingInv { (s.setSock i ((s.sockets i).reset type accepted)).setPc τ .idle with
      opened := Function.update s.opened i true } := by
  obtain ⟨hconn, hnot⟩ : PcOk s (.reset type accepted i) := hpc ▸ h.pc τ
  have hkeep : ∀ j ≠ i, (s.setSock i ((s.sockets i).reset type accepted)).sockets j =
      s.sockets j := fun j hj => Function.update_of_ne hj _ _
  have hsame : ∀ j, ((s.setSock i ((s.sockets i).reset type accepted)).sockets j).conn =
      (s.sockets j).conn := by
    intro j
    by_cases hji : j = i <;> simp [State.setSock, hji]
  have hopened : ∀ j, s.opened j = true → Function.update s.opened i true j = true := by
    intro j hj
    by_cases hji : j = i <;> simp [hji, hj]
  have hunmarked : ∀ j, Pc.Marked j .idle ↔ (s.pc τ).Marked j := fun j => by
    rw [hpc]
    exact iff_of_false id id
  constructor
  case nullUses => exact h.nullUses
  case bound => exact fun j hj => h.bound j (hsame j ▸ hj)
  case opened =>
    intro j hj
    refine (hsame j).trans_ne ?_
    by_cases hji : j = i
    · exact hji ▸ hconn
    · exact h.opened j (by simpa [hji] using hj)
  case marked =>
    intro σ j hσ
    obtain ⟨-, hm⟩ | ⟨-, hm⟩ := update_cases (Pc.Marked j) hσ
    · exact hm.elim
    · exact hopened j (h.marked σ j hm)
  case waiting =>
    intro j hj
    have hcount := count_update_of_iff (hunmarked j)
    by_cases hji : j = i
    · subst hji
      have hzero : count (Pc.Marked j) s.pc = 0 := by
        refine count_eq_zero.mpr fun σ hσ => ?_
        rw [h.marked σ j hσ] at hnot
        cases hnot
      simp only [State.setSock, State.setPc, Function.update_self, hcount, hzero]
      rfl
    · refine (congrArg LwipSock.selectWaiting (hkeep j hji)).trans ?_
      refine (h.waiting j (by simpa [hji] using hj)).trans ?_
      exact congrArg Nat.cast hcount.symm
  case pc =>
    intro σ
    have hσ : PcOk s (Function.update s.pc τ .idle σ) := by
      by_cases hσ : σ = τ
      · simp [hσ, PcOk]
      · simpa [hσ] using h.pc σ
    refine hσ.mono (fun j _ => hopened j) fun j hj hj' hr => ⟨(hsame j).trans_ne hj', ?_⟩
    have hji : j ≠ i := by
      rintro rfl
      obtain ⟨-, hσ'⟩ | ⟨hne, hσ'⟩ := update_cases (fun pc : Pc => pc.resets = some j) hj
      · cases hσ'
      · exact hne (h.resets σ τ j hσ' (by rw [hpc]; rfl))
    simpa [hji] using hr
  case resets => exact h.resets_update fun j hj => by cases hj

theorem free (h : WaitingInv s) (hpc : s.pc τ = .free i)
    (hcareful : ∀ σ, ¬ (s.pc σ).Watches i ∧ (s.pc σ).resets ≠ some i) :
    WaitingInv { (s.setSock i { s.sockets i with conn := none }).setPc τ .idle with
      opened := Function.update s.opened i false } := by
  have hkeep : ∀ j ≠ i, (s.setSock i { s.sockets i with conn := none }).sockets j =
      s.sockets j := fun j hj => Function.update_of_ne hj _ _
  have hself : ((s.setSock i { s.sockets i with conn := none }).sockets i).conn = none := by
    simp [State.setSock]
  have hopen : ∀ j, Function.update s.opened i false j = true → j ≠ i ∧ s.opened j = true := by
    intro j hj
    have hji : j ≠ i := by
      rintro rfl
      simp at hj
    exact ⟨hji, by simpa [hji] using hj⟩
  have hunmarked : ∀ j, Pc.Marked j .idle ↔ (s.pc τ).Marked j := fun j => by
    rw [hpc]
    exact iff_of_false id id
  constructor
  case nullUses => exact h.nullUses
  case bound =>
    intro j hj
    have hji : j ≠ i := by
      rintro rfl
      exact hj hself
    exact h.bound j (by rwa [← hkeep j hji])
  case opened =>
    intro j hj
    obtain ⟨hji, hj⟩ := hopen j hj
    exact (congrArg LwipSock.conn (hkeep j hji)).trans_ne (h.opened j hj)
  case marked =>
    intro σ j hσ
    obtain ⟨-, hm⟩ | ⟨-, hm⟩ := update_cases (Pc.Marked j) hσ
    · exact hm.elim
    · have hji : j ≠ i := by
        rintro rfl
        exact (hcareful σ).1 hm.watches
      simpa [hji] using h.marked σ j hm
  case waiting =>
    intro j hj
    obtain ⟨hji, hj⟩ := hopen j hj
    refine (congrArg LwipSock.selectWaiting (hkeep j hji)).trans ((h.waiting j hj).trans ?_)
    exact congrArg Nat.cast (count_update_of_iff (hunmarked j)).symm
  case pc =>
    intro σ
    by_cases hσ : σ = τ
    · simp [hσ, State.setPc, PcOk]
    · simp only [State.setPc, Function.update_of_ne hσ]
      refine (h.pc σ).mono (fun j hj ho => ?_) fun j hj hj' hr => ?_
      · have hji : j ≠ i := by
          rintro rfl
          exact (hcareful σ).1 hj
        simpa [hji] using ho
      · have hji : j ≠ i := by
          rintro rfl
          exact (hcareful σ).2 hj
        exact ⟨(congrArg LwipSock.conn (hkeep j hji)).trans_ne hj', by simpa [hji] using hr⟩
  case resets => exact h.resets_update fun j hj => by cases hj

omit [DecidableEq Task] in
theorem trygetSocket_open {fd : Int} (h : WaitingInv s) (hfd : lwipSocketOffset ≤ fd)
    (hopen : ∀ i : Nat, fd = lwipSocketOffset + i → s.opened i = true) :
    ∃ i : Nat, trygetSocket s.sockets fd = some i ∧ fd = lwipSocketOffset + i ∧
      s.opened i = true := by
  obtain ⟨i, rfl⟩ : ∃ i : Nat, fd = lwipSocketOffset + i :=
    ⟨(fd - lwipSocketOffset).toNat, by omega⟩
  have hi := hopen i rfl
  have hconn := h.opened i hi
  exact ⟨i, getSocket_offset (h.bound i hconn) hconn, rfl, hi⟩

theorem mark (h : WaitingInv s) (hpc : s.pc τ = .mark sets fd)
    (hcareful : PcCareful s (.mark sets fd)) :
    WaitingInv (s.setPc τ (if fd < sets.maxfdp1 then
      if sets.selects fd then .increase sets fd (trygetSocket s.sockets fd)
      else .mark sets (fd + 1) else .asleep sets)) := by
  have hfd : lwipSocketOffset ≤ fd := by
    have hok : PcOk s (.mark sets fd) := hpc ▸ h.pc τ
    exact hok
  split
  · next hlt =>
    split
    · next hsel =>
      obtain ⟨i, hget, rfl, hopen⟩ := h.trygetSocket_open hfd (by
        rintro i rfl
        have := hcareful hlt hsel
        rwa [add_sub_cancel_left, Int.toNat_natCast] at this)
      refine h.setPc ⟨i, hget, rfl, ⟨hlt, hsel⟩, hopen⟩ (fun j => ?_) rfl
      rw [hpc]
      exact Iff.rfl
    · next hsel =>
      refine h.setPc (Int.le_add_one hfd) (fun j => ?_) rfl
      rw [hpc]
      exact marked_mark_skip (Bool.eq_false_iff.mpr hsel)
  · next hend =>
    refine h.setPc trivial (fun j => ?_) rfl
    rw [hpc]
    exact marked_mark_end hend

theorem unmark (h : WaitingInv s) (hpc : s.pc τ = .unmark sets fd) :
    WaitingInv (s.setPc τ (if fd < sets.maxfdp1 then
      if sets.selects fd then .decrease sets fd (trygetSocket s.sockets fd)
      else .unmark sets (fd + 1) else .idle)) := by
  have hfd : lwipSocketOffset ≤ fd := by
    have hok : PcOk s (.unmark sets fd) := hpc ▸ h.pc τ
    exact hok
  split
  · next hlt =>
    split
    · next hsel =>
      obtain ⟨i, hget, rfl, -⟩ := h.trygetSocket_open hfd (by
        rintro i rfl
        refine h.marked τ i ?_
        rw [hpc]
        exact ⟨⟨hlt, hsel⟩, le_refl _⟩)
      refine h.setPc ⟨i, hget, rfl, hlt, hsel⟩ (fun j => ?_) rfl
      rw [hpc]
      exact Iff.rfl
    · next hsel =>
      refine h.setPc (Int.le_add_one hfd) (fun j => ?_) rfl
      rw [hpc]
      exact marked_unmark_skip (Bool.eq_false_iff.mpr hsel)
  · next hend =>
    refine h.setPc trivial (fun j => ?_) rfl
    rw [hpc]
    exact marked_unmark_end hend

theorem increase {sock : Option Nat} (h : WaitingInv s) (hpc : s.pc τ = .increase sets fd sock) :
    WaitingInv ((s.addWaiting sock 1).setPc τ (.mark sets (fd + 1))) := by
  have hok := h.pc τ
  rw [hpc] at hok
  obtain ⟨i, rfl, rfl, hcont, hopen⟩ := hok
  have hmarked : ∀ j, Pc.Marked j (.mark sets (lwipSocketOffset + i + 1)) ↔
      (sets.Contains j ∧ j = i) ∨ (s.pc τ).Marked j := by
    intro j
    rw [hpc]
    exact marked_mark_succ j
  have hnot : ¬ (s.pc τ).Marked i := by
    rw [hpc]
    exact fun hm => absurd hm.2 (Int.lt_irrefl _)
  refine h.addWaiting (Int.le_add_one (by omega)) hopen (fun j hj => ?_) ?_ rfl
  · rw [hmarked]
    exact or_iff_right fun hji => hj hji.2
  · rw [count_update_enter hnot ((hmarked i).mpr (.inl ⟨hcont, rfl⟩)), Nat.cast_succ]

theorem decrease {sock : Option Nat} (h : WaitingInv s) (hpc : s.pc τ = .decrease sets fd sock) :
    WaitingInv ((s.addWaiting sock (-1)).setPc τ (.unmark sets (fd + 1))) := by
  have hok := h.pc τ
  rw [hpc] at hok
  obtain ⟨i, rfl, rfl, hcont⟩ := hok
  have hmarked : ∀ j, (s.pc τ).Marked j ↔ (sets.Contains j ∧ j = i) ∨
      Pc.Marked j (.unmark sets (lwipSocketOffset + i + 1)) := by
    intro j
    rw [hpc]
    exact marked_unmark_succ j
  have hnot : ¬ Pc.Marked i (.unmark sets (lwipSocketOffset + i + 1)) := fun hm => by
    have := hm.2
    omega
  have hin : (s.pc τ).Marked i := (hmarked i).mpr (.inl ⟨hcont, rfl⟩)
  refine h.addWaiting (Int.le_add_one (by omega)) (h.marked τ i hin) (fun j hj => ?_) ?_ rfl
  · rw [hmarked]
    exact (or_iff_right fun hji => hj hji.2).symm
  · rw [← count_update_leave hin hnot, Nat.cast_succ]
    omega

end WaitingInv

theorem not_marked_of_isIdle (h : pc.isIdle = true) (i : Nat) : ¬ pc.Marked i := by
  cases pc <;> first | exact id | cases h

theorem step_inv {a : Action Task} (h : WaitingInv s) (hstep : step s a = some t)
    (hcareful : Careful s a) : WaitingInv t := by
  have hunmarked : ∀ {τ : Task} {pc : Pc}, s.pc τ = pc → (∀ i, ¬ pc.Marked i) →
      ∀ i, ¬ (s.pc τ).Marked i := fun hpc hnot i => hpc ▸ hnot i
  cases moves_of_step hstep with
  | select hidle =>
    refine h.setPc (le_refl lwipSocketOffset) (fun i => iff_of_false (fun hm => ?_)
      (not_marked_of_isIdle hidle i)) rfl
    have := hm.2
    omega
  | create hidle =>
    exact h.setPc trivial (fun i => iff_of_false id (not_marked_of_isIdle hidle i)) rfl
  | closeNone => exact h
  | close hidle =>
    exact h.setPc trivial (fun i => iff_of_false id (not_marked_of_isIdle hidle i)) rfl
  | mark hpc => exact h.mark hpc (hpc ▸ hcareful)
  | increase hpc => exact h.increase hpc
  | wakes hpc =>
    exact h.setPc (le_refl lwipSocketOffset) (fun i => hpc ▸ marked_unmark_start) rfl
  | unmark hpc => exact h.unmark hpc
  | decrease hpc => exact h.decrease hpc
  | claim hpc hi hfree => exact h.claim (hunmarked hpc fun _ => id) hi hfree
  | pass hpc | full hpc =>
    exact h.setPc trivial (fun i => iff_of_false id (hunmarked hpc (fun _ => id) i)) rfl
  | reset hpc => exact h.resetEntry hpc
  | free hpc =>
    have hcare : PcCareful s (s.pc _) := hcareful
    rw [hpc] at hcare
    exact h.free hpc hcare

/-! ### Every interleaving -/

/-- NULL has not been used; and when no select is inside its loops, the count of each open
socket is the number of selects that sleep on it. -/
structure SelectWaitingExact (s : State Task) : Prop where
  nullUses : s.nullUses = 0
  exact : (∀ τ, ¬ (s.pc τ).InLoop) → ∀ i, s.opened i = true →
    (s.sockets i).selectWaiting = count (Pc.SleepsOn i) s.pc ∧ 0 ≤ (s.sockets i).selectWaiting ∧
      ((∃ τ, (s.pc τ).SleepsOn i) → (s.sockets i).selectWaiting ≠ 0)

theorem marked_iff_sleepsOn (h : ¬ pc.InLoop) : pc.Marked i ↔ pc.SleepsOn i := by
  cases pc <;> first | exact Iff.rfl | exact absurd trivial h

omit [DecidableEq Task] in
theorem WaitingInv.exact (h : WaitingInv s) : SelectWaitingExact s where
  nullUses := h.nullUses
  exact hloop i hi := by
    have hcount : (s.sockets i).selectWaiting = count (Pc.SleepsOn i) s.pc :=
      (h.waiting i hi).trans (congrArg Nat.cast
        (count_congr fun τ => marked_iff_sleepsOn (hloop τ)))
    refine ⟨hcount, by omega, fun ⟨τ, hτ⟩ => ?_⟩
    have := count_pos hτ
    omega

end Invariant

end FreeLwip.Api.Waiting
