import Mathlib.Algebra.Order.BigOperators.Group.Finset
import FreeLwip.Api.Waiting

/-!
# Marks that are lost (`sockets.c`)

After each step that is not careful the run can go on to a use of NULL, or to a wrong count.
-/

namespace FreeLwip.Api.Waiting

open Run TaskCount

variable {Task : Type*} [Fintype Task] [DecidableEq Task]

/-- The run can go on to a use of NULL or a wrong count. -/
def GoesWrong (s : State Task) : Prop :=
  ∃ bs u, run step s bs = some u ∧ ¬ SelectWaitingExact u

section Wrong

variable {s t : State Task}

theorem GoesWrong.of_run {as : List (Action Task)} (hrun : run step s as = some t)
    (h : GoesWrong t) : GoesWrong s := by
  obtain ⟨bs, u, hu, hwrong⟩ := h
  exact ⟨as ++ bs, u, by rw [run_append, hrun, Option.bind_some, hu], hwrong⟩

theorem GoesWrong.of_step {a : Action Task} (hstep : step s a = some t) (h : GoesWrong t) :
    GoesWrong s :=
  .of_run (run_cons_some.mpr ⟨t, hstep, run_nil t⟩) h

theorem goesWrong_of_nullUses (h : s.nullUses ≠ 0) : GoesWrong s :=
  ⟨[], s, rfl, fun hexact => h hexact.nullUses⟩

end Wrong

/-! ## Out of the loops -/

/-- The turns that are left in the loop, or more. -/
def Pc.left : Pc → Nat
  | .mark sets fd | .unmark sets fd => 3 * (sets.maxfdp1 - fd).toNat + 1
  | .increase sets fd _ | .decrease sets fd _ => 3 * (sets.maxfdp1 - (fd + 1)).toNat + 2
  | _ => 0

def State.left (s : State Task) : Nat :=
  ∑ τ, (s.pc τ).left

theorem left_lt {s t : State Task} {τ : Task} {pc : Pc}
    (hpc : t.pc = Function.update s.pc τ pc) (h : pc.left < (s.pc τ).left) : t.left < s.left := by
  refine Finset.sum_lt_sum (fun σ _ => ?_) ⟨τ, Finset.mem_univ τ, ?_⟩
  · by_cases hσ : σ = τ
    · subst hσ
      simpa [hpc] using h.le
    · simp [hpc, hσ]
  · simpa [hpc] using h

/-- What a loop has looked up is the entry of its descriptor. -/
def Pc.Keeps : Pc → Prop
  | .mark _ fd | .unmark _ fd => lwipSocketOffset ≤ fd
  | .increase sets fd sock | .decrease sets fd sock =>
    fd < sets.maxfdp1 ∧ sets.selects fd = true ∧ lwipSocketOffset ≤ fd ∧
      ∀ i, sock = some i → fd = lwipSocketOffset + i
  | _ => True

omit [Fintype Task] [DecidableEq Task] in
theorem PcOk.keeps {s : State Task} {pc : Pc} (h : PcOk s pc) : pc.Keeps := by
  cases pc with
  | mark sets fd => exact h
  | unmark sets fd => exact h
  | increase sets fd sock =>
    obtain ⟨i, rfl, rfl, hcont, -⟩ := h
    exact ⟨hcont.1, hcont.2, by omega, fun j hj => by rw [Option.some.inj hj]⟩
  | decrease sets fd sock =>
    obtain ⟨i, rfl, rfl, hcont⟩ := h
    exact ⟨hcont.1, hcont.2, by omega, fun j hj => by rw [Option.some.inj hj]⟩
  | _ => trivial

/-- The count of the open socket `i` is `n` below the number of selects that have marked it. -/
structure Short (s : State Task) (i : Nat) (n : Int) : Prop where
  bound : i < numSockets
  conn : (s.sockets i).conn ≠ none
  opened : s.opened i = true
  waiting : (s.sockets i).selectWaiting + n = count (Pc.Marked i) s.pc
  loops : ∀ τ, (s.pc τ).Keeps

namespace Short

variable {s : State Task} {τ : Task} {i : Nat} {n : Int} {pc : Pc} {sets : Sets} {fd : Int}

theorem keeps_update (h : Short s i n) (hpc : pc.Keeps) (σ : Task) :
    (Function.update s.pc τ pc σ).Keeps := by
  by_cases hσ : σ = τ
  · simpa [hσ] using hpc
  · simpa [hσ] using h.loops σ

theorem setPc (h : Short s i n) (hpc : pc.Keeps) (hmarked : pc.Marked i ↔ (s.pc τ).Marked i) :
    Short (s.setPc τ pc) i n where
  bound := h.bound
  conn := h.conn
  opened := h.opened
  waiting := h.waiting.trans (congrArg Nat.cast (count_update_of_iff hmarked).symm)
  loops := h.keeps_update hpc

theorem addWaiting (h : Short s i n) (hpc : pc.Keeps) {j : Nat} {d : Int}
    (hcount : (count (Pc.Marked i) (Function.update s.pc τ pc) : Int) =
      count (Pc.Marked i) s.pc + if j = i then d else 0) :
    Short ((s.addWaiting (some j) d).setPc τ pc) i n where
  bound := h.bound
  conn := by
    have hconn : ((s.addWaiting (some j) d).sockets i).conn = (s.sockets i).conn := by
      by_cases hij : i = j <;> simp [State.addWaiting, State.setSock, hij]
    exact hconn.trans_ne h.conn
  opened := h.opened
  waiting := by
    refine Eq.trans ?_ hcount.symm
    rw [← h.waiting]
    by_cases hij : j = i
    · subst hij
      simp only [State.addWaiting, State.setSock, State.setPc, Function.update_self, if_true]
      omega
    · simp only [State.addWaiting, State.setSock, State.setPc, Function.update_of_ne (Ne.symm hij),
        if_neg hij]
      omega
  loops := h.keeps_update hpc

omit [Fintype Task] [DecidableEq Task] in
theorem tryget_keeps (hfd : lwipSocketOffset ≤ fd) (hlt : fd < sets.maxfdp1)
    (hsel : sets.selects fd = true) :
    Pc.Keeps (.increase sets fd (trygetSocket s.sockets fd)) :=
  ⟨hlt, hsel, hfd, fun _ hj => (getSocket_eq_some.mp hj).1⟩

omit [DecidableEq Task] in
theorem keeps (h : Short s i n) (hpc : s.pc τ = pc) : pc.Keeps :=
  hpc ▸ h.loops τ

theorem mark_turn (h : Short s i n) (hpc : s.pc τ = .mark sets fd) :
    Short (s.setPc τ (if fd < sets.maxfdp1 then
      if sets.selects fd then .increase sets fd (trygetSocket s.sockets fd)
      else .mark sets (fd + 1) else .asleep sets)) i n := by
  have hfd : lwipSocketOffset ≤ fd := h.keeps hpc
  split
  · next hlt =>
    split
    · next hsel =>
      refine h.setPc (tryget_keeps hfd hlt hsel) ?_
      rw [hpc]
      exact Iff.rfl
    · next hsel =>
      refine h.setPc (Int.le_add_one hfd) ?_
      rw [hpc]
      exact marked_mark_skip (Bool.eq_false_iff.mpr hsel)
  · next hend =>
    refine h.setPc trivial ?_
    rw [hpc]
    exact marked_mark_end hend

theorem unmark_turn (h : Short s i n) (hpc : s.pc τ = .unmark sets fd) :
    Short (s.setPc τ (if fd < sets.maxfdp1 then
      if sets.selects fd then .decrease sets fd (trygetSocket s.sockets fd)
      else .unmark sets (fd + 1) else .idle)) i n := by
  have hfd : lwipSocketOffset ≤ fd := h.keeps hpc
  split
  · next hlt =>
    split
    · next hsel =>
      refine h.setPc (tryget_keeps hfd hlt hsel) ?_
      rw [hpc]
      exact Iff.rfl
    · next hsel =>
      refine h.setPc (Int.le_add_one hfd) ?_
      rw [hpc]
      exact marked_unmark_skip (Bool.eq_false_iff.mpr hsel)
  · next hend =>
    refine h.setPc trivial ?_
    rw [hpc]
    exact marked_unmark_end hend

theorem increase_turn {j : Nat} (h : Short s i n) (hpc : s.pc τ = .increase sets fd (some j)) :
    Short ((s.addWaiting (some j) 1).setPc τ (.mark sets (fd + 1))) i n := by
  obtain ⟨hlt, hsel, hfd, hj⟩ := h.keeps hpc
  obtain rfl := hj j rfl
  have hnext : Pc.Keeps (.mark sets (lwipSocketOffset + j + 1)) := Int.le_add_one hfd
  have hmarked : Pc.Marked i (.mark sets (lwipSocketOffset + j + 1)) ↔
      (sets.Contains i ∧ i = j) ∨ (s.pc τ).Marked i := by
    rw [hpc]
    exact marked_mark_succ i
  refine h.addWaiting hnext ?_
  by_cases hji : j = i
  · subst hji
    have hnot : ¬ (s.pc τ).Marked j := by
      rw [hpc]
      exact fun hm => absurd hm.2 (Int.lt_irrefl _)
    rw [if_pos rfl, count_update_enter hnot (hmarked.mpr (.inl ⟨⟨hlt, hsel⟩, rfl⟩)), Nat.cast_succ]
  · have hsame := hmarked.trans (or_iff_right fun hi => hji hi.2.symm)
    rw [if_neg hji, count_update_of_iff hsame, add_zero]

theorem decrease_turn {j : Nat} (h : Short s i n) (hpc : s.pc τ = .decrease sets fd (some j)) :
    Short ((s.addWaiting (some j) (-1)).setPc τ (.unmark sets (fd + 1))) i n := by
  obtain ⟨hlt, hsel, hfd, hj⟩ := h.keeps hpc
  obtain rfl := hj j rfl
  have hnext : Pc.Keeps (.unmark sets (lwipSocketOffset + j + 1)) := Int.le_add_one hfd
  have hmarked : (s.pc τ).Marked i ↔
      (sets.Contains i ∧ i = j) ∨ Pc.Marked i (.unmark sets (lwipSocketOffset + j + 1)) := by
    rw [hpc]
    exact marked_unmark_succ i
  refine h.addWaiting hnext ?_
  by_cases hji : j = i
  · subst hji
    have hnot : ¬ Pc.Marked j (.unmark sets (lwipSocketOffset + j + 1)) := fun hm => by
      have := hm.2
      omega
    rw [if_pos rfl, ← count_update_leave (hmarked.mpr (.inl ⟨⟨hlt, hsel⟩, rfl⟩)) hnot,
      Nat.cast_succ]
    omega
  · have hsame := hmarked.trans (or_iff_right fun hi => hji hi.2.symm)
    rw [if_neg hji, count_update_of_iff hsame.symm, add_zero]

theorem turn (h : Short s i n) (hloop : (s.pc τ).InLoop) :
    ∃ t, step s (.turn τ) = some t ∧ t.left < s.left ∧ (t.nullUses ≠ 0 ∨ Short t i n) := by
  cases hpc : s.pc τ with
  | mark sets fd =>
    refine ⟨_, by simp only [step, hpc, State.turn], left_lt rfl ?_, .inr (h.mark_turn hpc)⟩
    rw [hpc]
    split_ifs <;> simp only [Pc.left] <;> omega
  | unmark sets fd =>
    refine ⟨_, by simp only [step, hpc, State.turn], left_lt rfl ?_, .inr (h.unmark_turn hpc)⟩
    rw [hpc]
    split_ifs <;> simp only [Pc.left] <;> omega
  | increase sets fd sock =>
    cases sock with
    | none =>
      refine ⟨(s.addWaiting none 1).setPc τ (.mark sets (fd + 1)),
        by simp only [step, hpc, State.turn], left_lt rfl ?_, .inl (Nat.succ_ne_zero _)⟩
      rw [hpc]
      simp only [Pc.left]
      omega
    | some j =>
      refine ⟨_, by simp only [step, hpc, State.turn], left_lt rfl ?_, .inr (h.increase_turn hpc)⟩
      rw [hpc]
      simp only [Pc.left]
      omega
  | decrease sets fd sock =>
    cases sock with
    | none =>
      refine ⟨(s.addWaiting none (-1)).setPc τ (.unmark sets (fd + 1)),
        by simp only [step, hpc, State.turn], left_lt rfl ?_, .inl (Nat.succ_ne_zero _)⟩
      rw [hpc]
      simp only [Pc.left]
      omega
    | some j =>
      refine ⟨_, by simp only [step, hpc, State.turn], left_lt rfl ?_, .inr (h.decrease_turn hpc)⟩
      rw [hpc]
      simp only [Pc.left]
      omega
  | _ =>
    rw [hpc] at hloop
    exact hloop.elim

theorem goesWrong (h : Short s i n) (hn : n ≠ 0) : GoesWrong s := by
  induction hk : s.left using Nat.strong_induction_on generalizing s with
  | _ k ih =>
  by_cases hloop : ∃ τ, (s.pc τ).InLoop
  · obtain ⟨τ, hτ⟩ := hloop
    obtain ⟨t, hstep, hless, hnull | hshort⟩ := h.turn hτ
    · exact .of_step hstep (goesWrong_of_nullUses hnull)
    · exact .of_step hstep (ih t.left (hk ▸ hless) hshort rfl)
  · refine ⟨[], s, rfl, fun hexact => hn ?_⟩
    have hwaits := (hexact.exact (fun τ hτ => hloop ⟨τ, hτ⟩) i h.opened).1
    have hcount : count (Pc.Marked i) s.pc = count (Pc.SleepsOn i) s.pc :=
      count_congr fun τ => marked_iff_sleepsOn fun hτ => hloop ⟨τ, hτ⟩
    have hwaiting := h.waiting
    rw [hcount] at hwaiting
    omega

end Short

/-! ## A task takes the entry -/

section Reuse

variable {s t : State Task} {τ : Task} {i : Nat} {c : ConnId} {type : NetconnType}
  {accepted : Bool}

omit [Fintype Task] in
theorem setPc_setPc (pc pc' : Pc) : (s.setPc τ pc).setPc τ pc' = s.setPc τ pc' := by
  simp [State.setPc]

omit [Fintype Task] in
theorem alloc_passes {j k : Nat} (hτ : s.pc τ = .alloc c type accepted j) (hk : j + k ≤ numSockets)
    (hused : ∀ m, j ≤ m → m < j + k → (s.sockets m).conn ≠ none) :
    ∃ bs, run step s bs = some (s.setPc τ (.alloc c type accepted (j + k))) := by
  induction k with
  | zero => exact ⟨[], by simp [State.setPc, ← hτ]⟩
  | succ k ih =>
    obtain ⟨bs, hbs⟩ := ih (by omega) fun m hm hm' => hused m hm (by omega)
    have hconn := hused (j + k) (by omega) (by omega)
    refine ⟨bs ++ [.turn τ], ?_⟩
    rw [run_append, hbs, Option.bind_some]
    have hturn : step (s.setPc τ (.alloc c type accepted (j + k))) (.turn τ) =
        some (s.setPc τ (.alloc c type accepted (j + k + 1))) := by
      have hlt : j + k < numSockets := by omega
      simp [step, State.turn, State.setPc, hlt, hconn]
    exact run_cons_some.mpr ⟨_, hturn, rfl⟩

/-- A new socket is in entry `i`. -/
def State.taken (s : State Task) (i : Nat) : State Task :=
  { s.setSock i ({ s.sockets i with conn := some 0 }.reset .raw false) with
    opened := Function.update s.opened i true }

omit [Fintype Task] in
theorem take_first (hτ : s.pc τ = .idle) (hi : i < numSockets) (hfree : (s.sockets i).conn = none)
    (hused : ∀ j < i, (s.sockets j).conn ≠ none) : ∃ bs, run step s bs = some (s.taken i) := by
  have hcreate : step s (.create τ 0 .raw false) = some (s.setPc τ (.alloc 0 .raw false 0)) := by
    simp [step, hτ, Pc.isIdle]
  have hstart : (s.setPc τ (.alloc 0 .raw false 0)).pc τ = .alloc 0 .raw false 0 :=
    Function.update_self ..
  obtain ⟨bs, hbs⟩ := alloc_passes hstart (k := i) (by omega) fun m _ hm => hused m (by omega)
  rw [setPc_setPc, Nat.zero_add] at hbs
  have hclaim : step (s.setPc τ (.alloc 0 .raw false i)) (.turn τ) =
      some ((s.setSock i { s.sockets i with conn := some 0 }).setPc τ (.reset .raw false i)) := by
    simp [step, State.turn, State.setPc, State.setSock, hi, hfree]
  have hreset : step ((s.setSock i { s.sockets i with conn := some 0 }).setPc τ
      (.reset .raw false i)) (.turn τ) = some (s.taken i) := by
    simp [step, State.turn, State.setPc, State.setSock, State.taken, ← hτ]
  refine ⟨.create τ 0 .raw false :: (bs ++ [.turn τ, .turn τ]),
    run_cons_some.mpr ⟨_, hcreate, ?_⟩⟩
  rw [run_append, hbs, Option.bind_some]
  exact run_cons_some.mpr ⟨_, hclaim, run_cons_some.mpr ⟨_, hreset, run_nil _⟩⟩

/-- An idle task has made sockets up to entry `i`. -/
structure Taken (s t : State Task) (i : Nat) : Prop where
  pc : t.pc = s.pc
  conn : (t.sockets i).conn ≠ none
  opened : t.opened i = true
  waiting : (t.sockets i).selectWaiting = 0

omit [Fintype Task] [DecidableEq Task] in
theorem taken_taken (s : State Task) (i : Nat) : Taken s (s.taken i) i where
  pc := rfl
  conn := by simp [State.taken, State.setSock]
  opened := by simp [State.taken]
  waiting := by simp [State.taken, State.setSock, LwipSock.reset]

omit [Fintype Task] in
theorem take (hτ : s.pc τ = .idle) (hi : i < numSockets) (hfree : (s.sockets i).conn = none)
    {k : Nat} (hk : k ≤ i) (hused : ∀ j < k, (s.sockets j).conn ≠ none) :
    ∃ bs t, run step s bs = some t ∧ Taken s t i := by
  induction hd : i - k generalizing s k with
  | zero =>
    obtain rfl : k = i := by omega
    obtain ⟨bs, hbs⟩ := take_first hτ hi hfree hused
    exact ⟨bs, _, hbs, taken_taken s k⟩
  | succ d ih =>
    by_cases hconn : (s.sockets k).conn = none
    · obtain ⟨bs, hbs⟩ := take_first hτ (by omega) hconn hused
      have hkeep : ∀ j ≠ k, (s.taken k).sockets j = s.sockets j :=
        fun j hj => Function.update_of_ne hj _ _
      have hnext : ∀ j < k + 1, ((s.taken k).sockets j).conn ≠ none := by
        intro j hj
        by_cases hjk : j = k
        · exact hjk ▸ (taken_taken s k).conn
        · rw [hkeep j hjk]
          exact hused j (by omega)
      have hfree' : ((s.taken k).sockets i).conn = none := by rwa [hkeep i (by omega)]
      obtain ⟨bs', t, ht, htaken⟩ := ih (s := s.taken k) hτ hfree' (by omega) hnext (by omega)
      refine ⟨bs ++ bs', t, ?_, { htaken with pc := htaken.pc }⟩
      rw [run_append, hbs, Option.bind_some, ht]
    · refine ih hτ hfree (by omega) (k := k + 1) (fun j hj => ?_) (by omega)
      by_cases hjk : j = k
      · exact hjk ▸ hconn
      · exact hused j (by omega)

/-- The entry has a new owner, and marks of the old one are left. -/
theorem Taken.goesWrong (h : Taken s t i) (hi : i < numSockets) (hkeeps : ∀ σ, (s.pc σ).Keeps)
    {σ : Task} (hσ : (s.pc σ).Marked i) : GoesWrong t := by
  have hshort : Short t i (count (Pc.Marked i) t.pc) :=
    { bound := hi
      conn := h.conn
      opened := h.opened
      waiting := by rw [h.waiting, zero_add]
      loops := h.pc ▸ hkeeps }
  have hpos : 0 < count (Pc.Marked i) t.pc := count_pos (a := σ) (h.pc ▸ hσ)
  exact hshort.goesWrong (by omega)

end Reuse

/-! ## What is not careful -/

section Careless

variable {s t : State Task} {τ σ : Task} {i : Nat} {sets : Sets} {fd : Int}

/-- An entry that has a connection is an open socket, or a task is about to set its fields. -/
def Claimed (s : State Task) : Prop :=
  ∀ i, (s.sockets i).conn ≠ none → s.opened i = false → ∃ τ, (s.pc τ).resets = some i

omit [Fintype Task] in
theorem Claimed.move {pc : Pc} (h : Claimed s) (hpc : t.pc = Function.update s.pc τ pc)
    (hmove : ∀ i, (t.sockets i).conn ≠ none → t.opened i = false → pc.resets = some i ∨
      ((s.sockets i).conn ≠ none ∧ s.opened i = false ∧ (s.pc τ).resets ≠ some i)) :
    Claimed t := by
  intro i hconn hopen
  rw [hpc]
  obtain hself | ⟨hconn', hopen', hnot⟩ := hmove i hconn hopen
  · exact ⟨τ, by rwa [Function.update_self]⟩
  · obtain ⟨σ, hσ⟩ := h i hconn' hopen'
    have hne : σ ≠ τ := fun heq => hnot (heq ▸ hσ)
    exact ⟨σ, by rwa [Function.update_of_ne hne]⟩

omit [Fintype Task] in
theorem Claimed.setPc {pc : Pc} (h : Claimed s) (hτ : (s.pc τ).resets = none) :
    Claimed (s.setPc τ pc) :=
  h.move rfl fun _ hconn hopen => .inr ⟨hconn, hopen, by simp [hτ]⟩

omit [Fintype Task] in
theorem Claimed.addWaiting {pc : Pc} (h : Claimed s) (hτ : (s.pc τ).resets = none)
    (sock : Option Nat) (n : Int) : Claimed ((s.addWaiting sock n).setPc τ pc) := by
  cases sock with
  | none => exact h.move rfl fun _ hconn hopen => .inr ⟨hconn, hopen, by simp [hτ]⟩
  | some j =>
    refine h.move rfl fun i hconn hopen => .inr ⟨fun hnone => hconn ?_, hopen, by simp [hτ]⟩
    by_cases hij : i = j
    · subst hij
      simpa [State.addWaiting, State.setSock, State.setPc] using hnone
    · simpa [State.addWaiting, State.setSock, State.setPc, hij] using hnone

omit [Fintype Task] in
theorem resets_of_isIdle {pc : Pc} (h : pc.isIdle = true) : pc.resets = none := by
  cases pc <;> first | rfl | cases h

omit [Fintype Task] [DecidableEq Task] in
theorem exists_of_resets {pc : Pc} (h : pc.resets = some i) :
    ∃ type accepted, pc = .reset type accepted i := by
  cases pc <;> cases h
  exact ⟨_, _, rfl⟩

omit [Fintype Task] in
theorem claimed_step {a : Action Task} (h : Claimed s) (hstep : step s a = some t) :
    Claimed t := by
  have hnone : ∀ {τ : Task} {pc : Pc}, s.pc τ = pc → pc.resets = none →
      (s.pc τ).resets = none := fun hpc hpc' => hpc ▸ hpc'
  cases moves_of_step hstep with
  | select hidle | create hidle | close hidle => exact h.setPc (resets_of_isIdle hidle)
  | closeNone => exact h
  | mark hpc | wakes hpc | unmark hpc | pass hpc | full hpc => exact h.setPc (hnone hpc rfl)
  | increase hpc | decrease hpc => exact h.addWaiting (hnone hpc rfl) _ _
  | @claim τ c type accepted j hpc =>
    refine h.move rfl fun i hconn hopen => ?_
    by_cases hij : i = j
    · exact .inl (congrArg some hij.symm)
    · refine .inr ⟨?_, hopen, by simp [hpc, Pc.resets]⟩
      simpa [State.setSock, State.setPc, hij] using hconn
  | @reset τ type accepted j hpc =>
    refine h.move rfl fun i hconn hopen => ?_
    have hij : i ≠ j := by
      rintro rfl
      simp at hopen
    refine .inr ⟨?_, by simpa [hij] using hopen, by simpa [hpc, Pc.resets] using Ne.symm hij⟩
    simpa [State.setSock, State.setPc, hij] using hconn
  | @free τ j hpc =>
    refine h.move rfl fun i hconn hopen => ?_
    have hij : i ≠ j := by
      rintro rfl
      simp [State.setSock, State.setPc] at hconn
    refine .inr ⟨?_, by simpa [hij] using hopen, by simp [hpc, Pc.resets]⟩
    simpa [State.setSock, State.setPc, hij] using hconn

theorem goesWrong_of_reset {type : NetconnType} {accepted : Bool}
    (hσ : s.pc σ = .reset type accepted i) (hi : i < numSockets)
    (hconn : (s.sockets i).conn ≠ none) (hkeeps : ∀ τ, (s.pc τ).Keeps)
    (hτ : (s.pc τ).Marked i) : GoesWrong s := by
  have hne : τ ≠ σ := by
    rintro rfl
    rw [hσ] at hτ
    exact hτ.elim
  refine .of_step (a := .turn σ) (t := { (s.setSock i ((s.sockets i).reset type accepted)).setPc σ
    .idle with opened := Function.update s.opened i true }) (by simp only [step, hσ, State.turn]) ?_
  have hpos : 0 < count (Pc.Marked i) (Function.update s.pc σ .idle) :=
    count_pos (a := τ) (by rwa [Function.update_of_ne hne])
  refine Short.goesWrong (i := i) (n := count (Pc.Marked i) (Function.update s.pc σ .idle))
    ⟨hi, ?_, Function.update_self .., ?_, fun ρ => ?_⟩ (by omega)
  · simpa [State.setSock, State.setPc] using hconn
  · simp [State.setSock, State.setPc, LwipSock.reset]
  · by_cases hρ : ρ = σ
    · simp [State.setPc, hρ, Pc.Keeps]
    · simpa [State.setPc, State.setSock, hρ] using hkeeps ρ

theorem goesWrong_of_freed (hτ : s.pc τ = .idle) (hi : i < numSockets)
    (hfree : (s.sockets i).conn = none) (hkeeps : ∀ τ, (s.pc τ).Keeps)
    (hσ : (s.pc σ).Marked i) : GoesWrong s := by
  obtain ⟨bs, t, ht, htaken⟩ := take hτ hi hfree (Nat.zero_le i) fun j hj => absurd hj (by omega)
  exact .of_run ht (htaken.goesWrong hi hkeeps hσ)

def readable (fd : Int) : Sets where
  readset := (· == fd)
  writeset _ := false
  exceptset _ := false
  maxfdp1 := fd + 1

omit [Fintype Task] in
theorem mark_passes (hτ : s.pc τ = .idle) {k : Nat} (hk : k ≤ i) :
    ∃ bs, run step s bs =
      some (s.setPc τ (.mark (readable (lwipSocketOffset + i)) (lwipSocketOffset + k))) := by
  induction k with
  | zero =>
    refine ⟨[.select τ (readable (lwipSocketOffset + i))], ?_⟩
    simp [run_cons, step, hτ, Pc.isIdle]
  | succ k ih =>
    obtain ⟨bs, hbs⟩ := ih (by omega)
    refine ⟨bs ++ [.turn τ], ?_⟩
    rw [run_append, hbs, Option.bind_some]
    refine run_cons_some.mpr ⟨_, ?_, run_nil _⟩
    have hlt : lwipSocketOffset + (k : Int) < (readable (lwipSocketOffset + i)).maxfdp1 := by
      simp only [readable]
      omega
    have hskip : (readable (lwipSocketOffset + i)).selects (lwipSocketOffset + k) = false := by
      simp only [readable, Sets.selects, Bool.or_false, beq_eq_false_iff_ne]
      omega
    simp only [step, State.turn, State.setPc, Function.update_self, if_pos hlt, hskip,
      Function.update_idem, Bool.false_eq_true, if_false, Nat.cast_succ, add_assoc]

omit [Fintype Task] in
theorem marks (hτ : s.pc τ = .idle) (hi : i < numSockets) (hconn : (s.sockets i).conn ≠ none) :
    ∃ bs t, run step s bs = some t ∧ (t.pc τ).Marked i ∧ (∀ σ ≠ τ, t.pc σ = s.pc σ) ∧
      (t.pc τ).Keeps ∧ (t.sockets i).conn ≠ none := by
  obtain ⟨bs, hbs⟩ := mark_passes hτ (le_refl i)
  have hcont : (readable (lwipSocketOffset + i)).Contains i := by
    simp [Sets.Contains, readable, Sets.selects]
  have hmark : step (s.setPc τ (.mark (readable (lwipSocketOffset + i)) (lwipSocketOffset + i)))
      (.turn τ) = some (s.setPc τ (.increase (readable (lwipSocketOffset + i))
        (lwipSocketOffset + i) (some i))) := by
    simp only [step, State.turn, State.setPc, Function.update_self, if_pos hcont.1, hcont.2,
      Function.update_idem, if_true, trygetSocket_eq, getSocket_offset hi hconn]
  have hcount : step (s.setPc τ (.increase (readable (lwipSocketOffset + i))
      (lwipSocketOffset + i) (some i))) (.turn τ) =
      some ((s.addWaiting (some i) 1).setPc τ (.mark (readable (lwipSocketOffset + i))
        (lwipSocketOffset + i + 1))) := by
    simp [step, State.turn, State.setPc, State.addWaiting, State.setSock]
  refine ⟨bs ++ [.turn τ, .turn τ], (s.addWaiting (some i) 1).setPc τ
    (.mark (readable (lwipSocketOffset + i)) (lwipSocketOffset + i + 1)), ?_, ?_,
    fun σ hσ => Function.update_of_ne hσ _ _, ?_, ?_⟩
  · rw [run_append, hbs, Option.bind_some]
    exact run_cons_some.mpr ⟨_, hmark, run_cons_some.mpr ⟨_, hcount, run_nil _⟩⟩
  · simp only [State.setPc, Function.update_self]
    exact ⟨hcont, by omega⟩
  · simp only [State.setPc, Function.update_self, Pc.Keeps]
    omega
  · simpa [State.addWaiting, State.setSock, State.setPc] using hconn

theorem mark_goesWrong (h : WaitingInv s) (hclaimed : Claimed s) (hpc : s.pc τ = .mark sets fd)
    (hcareless : ¬ PcCareful s (.mark sets fd)) (hstep : step s (.turn τ) = some t) :
    GoesWrong t := by
  simp only [PcCareful, not_forall, Bool.not_eq_true] at hcareless
  obtain ⟨hlt, hsel, hopen⟩ := hcareless
  simp only [step, hpc, State.turn, if_pos hlt, hsel, if_true, Option.some.injEq] at hstep
  subst hstep
  have hfd : lwipSocketOffset ≤ fd := by
    have hok := (h.pc τ).keeps
    rwa [hpc] at hok
  cases hget : trygetSocket s.sockets fd with
  | none =>
    refine .of_step (a := .turn τ) (t := (s.addWaiting none 1).setPc τ (.mark sets (fd + 1))) ?_
      (goesWrong_of_nullUses (Nat.succ_ne_zero _))
    simp [step, State.turn, State.setPc, State.addWaiting]
  | some i =>
    obtain ⟨rfl, hi, hconn⟩ := getSocket_eq_some.mp hget
    rw [add_sub_cancel_left, Int.toNat_natCast] at hopen
    obtain ⟨σ, hσ⟩ := hclaimed i hconn hopen
    have hne : σ ≠ τ := by
      rintro rfl
      rw [hpc] at hσ
      cases hσ
    refine .of_step (a := .turn τ) (t := (s.addWaiting (some i) 1).setPc τ
      (.mark sets (lwipSocketOffset + i + 1))) ?_ ?_
    · simp [step, State.turn, State.setPc, State.addWaiting, State.setSock]
    · obtain ⟨type, accepted, hpcσ⟩ := exists_of_resets hσ
      refine goesWrong_of_reset (τ := τ) ((Function.update_of_ne hne _ _).trans hpcσ) hi ?_
        (fun ρ => ?_) ?_
      · simpa [State.addWaiting, State.setSock, State.setPc] using hconn
      · by_cases hρ : ρ = τ
        · simp only [State.setPc, hρ, Function.update_self, Pc.Keeps]
          omega
        · simpa [State.setPc, State.addWaiting, State.setSock, hρ] using (h.pc ρ).keeps
      · simp only [State.setPc, Function.update_self]
        exact ⟨⟨hlt, hsel⟩, by omega⟩

omit [Fintype Task] [DecidableEq Task] in
theorem Pc.Watches.marked_or {pc : Pc} (h : pc.Watches i) :
    pc.Marked i ∨ ∃ sets fd, pc = .increase sets fd (some i) := by
  cases pc with
  | increase sets fd sock => exact h.imp_right fun hsock => ⟨sets, fd, by rw [hsock]⟩
  | _ => exact .inl h

theorem free_goesWrong (h : WaitingInv s) (hpc : s.pc τ = .free i)
    (hcareless : ¬ PcCareful s (.free i)) (hstep : step s (.turn τ) = some t) : GoesWrong t := by
  simp only [PcCareful, not_forall, not_and_or, not_not] at hcareless
  obtain ⟨σ, hσ⟩ := hcareless
  simp only [step, hpc, State.turn, Option.some.injEq] at hstep
  subst hstep
  set t : State Task := { (s.setSock i { s.sockets i with conn := none }).setPc τ .idle with
    opened := Function.update s.opened i false } with ht
  have hidle : t.pc τ = .idle := Function.update_self ..
  have hpcs : ∀ ρ ≠ τ, t.pc ρ = s.pc ρ := fun ρ hρ => Function.update_of_ne hρ _ _
  have hfree : (t.sockets i).conn = none := by simp [ht, State.setSock, State.setPc]
  have hkeeps : ∀ ρ, (t.pc ρ).Keeps := by
    intro ρ
    by_cases hρ : ρ = τ
    · rw [hρ, hidle]
      trivial
    · rw [hpcs ρ hρ]
      exact (h.pc ρ).keeps
  have hne : σ ≠ τ := by
    rintro rfl
    rw [hpc] at hσ
    exact hσ.elim id fun hσ => by cases hσ
  rw [← hpcs σ hne] at hσ
  obtain hwatches | hresets := hσ
  · obtain hmarked | ⟨sets, fd, hpcσ⟩ := hwatches.marked_or
    · have hi : i < numSockets := h.bound i (h.opened i (h.marked σ i (hpcs σ hne ▸ hmarked)))
      exact goesWrong_of_freed hidle hi hfree hkeeps hmarked
    · -- It has looked up the entry, and counts itself in after all.
      have hok := h.pc σ
      rw [← hpcs σ hne, hpcσ] at hok
      obtain ⟨j, hj, rfl, hcont, hopen⟩ := hok
      obtain rfl := Option.some.inj hj
      have hi : i < numSockets := h.bound i (h.opened i hopen)
      refine .of_step (a := .turn σ) (t := (t.addWaiting (some i) 1).setPc σ
        (.mark sets (lwipSocketOffset + i + 1))) (by simp only [step, hpcσ, State.turn]) ?_
      refine goesWrong_of_freed (τ := τ) (σ := σ) (i := i)
        ((Function.update_of_ne hne.symm _ _).trans hidle) hi ?_ (fun ρ => ?_) ?_
      · simpa [State.addWaiting, State.setSock, State.setPc] using hfree
      · by_cases hρ : ρ = σ
        · simp only [State.setPc, hρ, Function.update_self, Pc.Keeps]
          omega
        · simpa [State.setPc, State.addWaiting, State.setSock, hρ] using hkeeps ρ
      · simp only [State.setPc, Function.update_self]
        exact ⟨hcont, by omega⟩
  · -- A new socket gets the entry, and a select marks it before the old owner's fields are set.
    obtain ⟨type, accepted, hpcσ⟩ := exists_of_resets hresets
    have hi : i < numSockets := by
      have hok := h.pc σ
      rw [← hpcs σ hne, hpcσ] at hok
      exact h.bound i hok.1
    obtain ⟨bs, u, hu, htaken⟩ := take hidle hi hfree (Nat.zero_le i) fun j hj =>
      absurd hj (by omega)
    have huτ : u.pc τ = .idle := htaken.pc ▸ hidle
    obtain ⟨bs', v, hv, hmarked, hothers, hself, hconn⟩ := marks huτ hi htaken.conn
    have hreset : v.pc σ = .reset type accepted i := by rw [hothers σ hne, htaken.pc, hpcσ]
    refine .of_run hu (.of_run hv (goesWrong_of_reset hreset hi hconn (fun ρ => ?_) hmarked))
    by_cases hρ : ρ = τ
    · exact hρ ▸ hself
    · rw [hothers ρ hρ, htaken.pc]
      exact hkeeps ρ

theorem careless_goesWrong {a : Action Task} (h : WaitingInv s) (hclaimed : Claimed s)
    (hstep : step s a = some t) (hcareless : ¬ Careful s a) : GoesWrong t := by
  cases a with
  | turn τ =>
    simp only [Careful] at hcareless
    cases hpc : s.pc τ with
    | mark sets fd => exact mark_goesWrong h hclaimed hpc (hpc ▸ hcareless) hstep
    | free i => exact free_goesWrong h hpc (hpc ▸ hcareless) hstep
    | _ =>
      rw [hpc] at hcareless
      exact absurd trivial hcareless
  | _ => exact absurd trivial hcareless

/-- The counts are exact in every state of a run whose steps are careful; and after a first step
that is not, the run can go on to a wrong one. -/
theorem select_waiting_exact (as : List (Action Task))
    (hcareful : EveryStep step (fun s a _ => Careful s a) init as) :
    EveryStep step (fun _ _ t => SelectWaitingExact t) (init : State Task) as ∧
      ∀ s a t, run step init as = some s → step s a = some t → ¬ Careful s a → GoesWrong t := by
  constructor
  · have hboth := (everyStep_congr (I := WaitingInv)
      (P := fun (s : State Task) a _ => Careful s a)
      (Q := fun s a t => Careful s a ∧ SelectWaitingExact t)
      (fun s a t h hstep => ⟨fun hc => ⟨hc, (step_inv h hstep hc).exact⟩, And.left⟩)
      (fun s a t h hstep hc => step_inv h hstep hc) as init_inv).mp hcareful
    exact (everyStep_and.mp hboth).2
  · intro s a t hrun hstep hcareless
    have hinv : WaitingInv s ∧ Claimed s :=
      run_invariant_under (I := fun s => WaitingInv s ∧ Claimed s)
        (fun u b v hu hb hc => ⟨step_inv hu.1 hb hc, claimed_step hu.2 hb⟩)
        ⟨init_inv, fun _ hconn => absurd rfl hconn⟩ hcareful hrun
    exact careless_goesWrong hinv.1 hinv.2 hstep hcareless

end Careless

/-- One task makes a UDP socket, and the other sleeps on it. -/
def sleepOnSocket : List (Action Bool) :=
  [.create false 7 .udp false, .turn false, .turn false, .select true (readable 32), .turn true,
    .turn true, .turn true]

/-- The select wakes up again, and only then is the socket closed; or the socket is closed while the
select sleeps, which can go wrong from there on. -/
theorem select_waiting_exact_close :
    EveryStep step (fun _ _ t => SelectWaitingExact t) (init : State Bool)
        (sleepOnSocket ++ [.turn true, .turn true, .turn true, .turn true, .close false 32,
          .turn false]) ∧
      ∃ t, run step (init : State Bool) (sleepOnSocket ++ [.close false 32, .turn false]) = some t ∧
        GoesWrong t := by
  refine ⟨(select_waiting_exact _ (by decide +kernel)).1, _, rfl, ?_⟩
  refine (select_waiting_exact (sleepOnSocket ++ [.close false 32]) (by decide +kernel)).2 _
    (.turn false) _ rfl rfl ?_
  decide +kernel

/-- The socket is closed while the select sleeps. When it wakes up, it uses NULL; and if the entry
has got a new owner by then, the count of that one is 0 though the select waits on it. -/
theorem select_waiting_lost :
    (∃ s, run step (init : State Bool) (sleepOnSocket ++ [.close false 32, .turn false,
      .turn true, .turn true, .turn true]) = some s ∧ ¬ SelectWaitingExact s) ∧
    (∃ s, run step (init : State Bool) (sleepOnSocket ++ [.close false 32, .turn false,
      .create false 8 .udp false, .turn false, .turn false]) = some s ∧
      ¬ SelectWaitingExact s) := by
  refine ⟨⟨_, rfl, fun h => absurd h.nullUses (by decide +kernel)⟩, ⟨_, rfl, fun h => ?_⟩⟩
  obtain ⟨-, -, hwaits⟩ := h.exact (fun τ => by cases τ <;> exact id) 0 rfl
  exact hwaits ⟨true, by decide, by decide⟩ rfl

end FreeLwip.Api.Waiting
