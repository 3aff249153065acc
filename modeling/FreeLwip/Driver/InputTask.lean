import FreeLwip.Driver.RxRing
import FreeLwip.Kernel.Semaphore

/-!
# The input task (`lwip_main.c`, `altera_tse_ethernetif.c`, `lwip_tse_mac.c`)

`lwip_handle_ethernet_input` waits for `rx_semaphore` with a timeout, and takes at most one frame
out of the ring in each turn. The interrupt gives the semaphore for each frame that it has stored.
-/

namespace FreeLwip.Driver

open Run RingIndex Kernel

/-- What the input task does; `blocked`: it has found no token. -/
inductive TaskPc
  | semWait
  | blocked
  -- In `ethernetif_input`, and in `lwip_check_link_status`.
  | input
  | checkLink
  deriving DecidableEq, Repr

structure InputTask (P : Type*) where
  ethernetif : Ethernetif P
  rxSemaphore : Semaphore
  pc : TaskPc
  /-- The history: this turn of the loop has taken a token. -/
  took : Bool

/-- `tse_mac_init` creates the semaphore full, and takes all of it. -/
def rxSemaphoreInit : Semaphore :=
  (Semaphore.sysSemNew lwipRxEthBuffer).sysArchSemWaits lwipRxEthBuffer

inductive TaskAction (P : Type*)
  /-- The interrupt, `ethernetif_input`, the steps of `tse_mac_init`, and the rest of the stack. -/
  | driver (a : Action P)
  /-- The critical section of `xSemaphoreTake`, the first time or again. -/
  | semTake
  | timeout
  /-- `lwip_check_link_status` has returned. -/
  | linkChecked

/-- A step of `ethernetif_input`. -/
def Action.ofInput {P : Type*} : Action P → Bool
  | .checkCount => true
  | .pbufAlloc _ => true
  | .exchange => true
  | .finish => true
  | .deliver => true
  | _ => false

def InputPc.isIdle {P : Type*} : InputPc P → Bool
  | .idle => true
  | _ => false

namespace InputTask

variable {P : Type*} [DecidableEq P]

def start (d : Ethernetif P) : InputTask P where
  ethernetif := d
  rxSemaphore := rxSemaphoreInit
  pc := .semWait
  took := false

/-- When `ethernetif_input` has returned. -/
def afterInput (d : Ethernetif P) : TaskPc :=
  if d.input.isIdle then (if d.ret ≤ 0 then .checkLink else .semWait) else .input

/-- The step is an interrupt that stores a frame, and gives the semaphore for it. -/
def stores (d : Ethernetif P) : Action P → Bool
  | .rxIsr => d.accepts lwipRxEthBuffer
  | _ => false

def step (t : InputTask P) : TaskAction P → Option (InputTask P)
  | .driver a =>
    if a.ofInput then
      if t.pc = .input then
        (Driver.step lwipRxEthBuffer t.ethernetif a).map fun d =>
          { t with ethernetif := d, pc := afterInput d }
      else
        none
    else
      (Driver.step lwipRxEthBuffer t.ethernetif a).map fun d =>
        { t with
          ethernetif := d
          rxSemaphore :=
            if stores t.ethernetif a then t.rxSemaphore.xSemaphoreGiveFromISR else t.rxSemaphore }
  | .semTake =>
    if t.pc = .semWait ∨ t.pc = .blocked then
      match t.rxSemaphore.xSemaphoreTake with
      | some sem => some { t with rxSemaphore := sem, pc := .input, took := true }
      | none => some { t with pc := .blocked }
    else
      none
  | .timeout => if t.pc = .blocked then some { t with pc := .input, took := false } else none
  | .linkChecked => if t.pc = .checkLink then some { t with pc := .semWait } else none

/-- The task is blocked, and no token is there that would wake it. -/
def Sleeps (t : InputTask P) : Prop :=
  t.pc = .blocked ∧ t.rxSemaphore.uxMessagesWaiting = 0

/-- When `pbuf_alloc` fails, the tokens that are left suffice for the frames that wait. -/
def TokensSuffice (t : InputTask P) : TaskAction P → Prop
  | .driver (.pbufAlloc none) => t.ethernetif.lwipRxCount ≤ t.rxSemaphore.uxMessagesWaiting
  | _ => True

/-! ## Tokens and frames -/

/-- The frame that this turn is for is still in the ring. -/
def unpopped : InputPc P → Bool
  | .idle => true
  | .checked => true
  | .allocated _ => true
  | _ => false

/-- The token that the task has taken, and has not taken a frame for. -/
def credit (t : InputTask P) : Nat :=
  if t.pc = .input ∧ t.took = true ∧ unpopped t.ethernetif.input = true then 1 else 0

structure TokenInv (t : InputTask P) : Prop where
  ring : RingInv lwipRxEthBuffer t.ethernetif
  idle : t.pc ≠ .input → t.ethernetif.input = .idle
  length : t.rxSemaphore.uxLength = lwipRxEthBuffer
  tokens : t.ethernetif.lwipRxCount ≤ t.rxSemaphore.uxMessagesWaiting + t.credit

section Steps

variable {d d' : Ethernetif P} {a : Action P} {t v : InputTask P}

theorem step_outside (h : Driver.step lwipRxEthBuffer d a = some d') (ha : a.ofInput = false) :
    d'.input = d.input ∧
      d'.lwipRxCount = d.lwipRxCount + if stores d a = true then 1 else 0 := by
  cases steps_of_step h with
  | empty | checked | allocFails | allocated | exchange | finish | deliver => cases ha
  | rxIsr =>
    unfold stores
    cases haccepts : d.accepts lwipRxEthBuffer with
    | false =>
      simp only [RingInv.rxIsr_rearm haccepts]
      exact ⟨rfl, (Int.add_zero _).symm⟩
    | true =>
      simp only [RingInv.rxIsr_advance haccepts]
      exact ⟨rfl, rfl⟩
  | _ => exact ⟨rfl, (Int.add_zero _).symm⟩

omit [DecidableEq P] in
theorem afterInput_idle (h : afterInput d ≠ .input) : d.input = .idle := by
  unfold afterInput at h
  cases hpc : d.input with
  | idle => rfl
  | _ => simp [hpc, InputPc.isIdle] at h

omit [DecidableEq P] in
theorem afterInput_not_idle (h : d.input ≠ .idle) : afterInput d = .input := by
  by_contra hne
  exact h (afterInput_idle hne)

omit [DecidableEq P] in
theorem credit_le (t : InputTask P) : t.credit ≤ 1 := by
  unfold credit
  split <;> omega

omit [DecidableEq P] in
theorem credit_of_pc (h : t.pc ≠ .input) : t.credit = 0 :=
  if_neg fun hc => h hc.1

omit [DecidableEq P] in
theorem credit_of_popped (h : unpopped t.ethernetif.input = false) : t.credit = 0 := by
  refine if_neg fun hc => ?_
  rw [h] at hc
  cases hc.2.2

omit [DecidableEq P] in
theorem tokens_unpopped (h : TokenInv t) (hpc : t.pc = .input)
    (hcount : d.lwipRxCount = t.ethernetif.lwipRxCount)
    (hbefore : unpopped t.ethernetif.input = true) (hafter : unpopped d.input = true)
    (hidle : d.input ≠ .idle) :
    d.lwipRxCount ≤ t.rxSemaphore.uxMessagesWaiting +
      ({ t with ethernetif := d, pc := afterInput d } : InputTask P).credit := by
  have hcredit : ({ t with ethernetif := d, pc := afterInput d } : InputTask P).credit =
      t.credit := by
    simp only [credit, afterInput_not_idle hidle, hpc, hbefore, hafter]
  rw [hcredit, hcount]
  exact h.tokens

theorem TokenInv.input (h : TokenInv t) (hpc : t.pc = .input) (ha : a.ofInput = true)
    (hstep : Driver.step lwipRxEthBuffer t.ethernetif a = some d)
    (hok : TokensSuffice t (.driver a)) :
    TokenInv { t with ethernetif := d, pc := afterInput d } := by
  refine ⟨h.ring.step hstep, afterInput_idle, h.length, ?_⟩
  have htokens := h.tokens
  have hone := credit_le t
  cases steps_of_step hstep with
  | empty _ hcount =>
    simp only
    omega
  | checked hidle =>
    exact tokens_unpopped (t := t) h hpc rfl (by rw [hidle]; rfl) rfl fun heq => by cases heq
  | allocFails =>
    have hsuffice : t.ethernetif.lwipRxCount ≤ t.rxSemaphore.uxMessagesWaiting := hok
    simp only
    omega
  | allocated hchecked =>
    exact tokens_unpopped (t := t) h hpc rfl (by rw [hchecked]; rfl) rfl fun heq => by cases heq
  | @exchange p =>
    have hcount : (t.ethernetif.exchange lwipRxEthBuffer p).lwipRxCount =
        t.ethernetif.lwipRxCount - 1 := rfl
    simp only
    rw [hcount]
    omega
  | @finish p hexchanged =>
    have hzero : t.credit = 0 := credit_of_popped (by rw [hexchanged]; rfl)
    have hcount : (t.ethernetif.finish p).lwipRxCount = t.ethernetif.lwipRxCount := by
      unfold Ethernetif.finish
      split <;> rfl
    simp only
    rw [hcount]
    omega
  | @deliver p hreceived =>
    have hzero : t.credit = 0 := credit_of_popped (by rw [hreceived]; rfl)
    have hcount : (t.ethernetif.deliver p).lwipRxCount = t.ethernetif.lwipRxCount := by
      unfold Ethernetif.deliver
      simp only
      split
      · split <;> rfl
      · rfl
    simp only
    rw [hcount]
    omega
  | _ => cases ha

/-- A frame that is stored comes with a token: the ring holds fewer frames than the semaphore
counts to. -/
theorem TokenInv.outside (h : TokenInv t) (ha : a.ofInput = false)
    (hstep : Driver.step lwipRxEthBuffer t.ethernetif a = some d)
    (hv : v = { t with
      ethernetif := d
      rxSemaphore :=
        if stores t.ethernetif a then t.rxSemaphore.xSemaphoreGiveFromISR else t.rxSemaphore }) :
    TokenInv v := by
  obtain ⟨hinput, hcount⟩ := step_outside hstep ha
  have hring := h.ring.step hstep
  have htokens := h.tokens
  have hlength := h.length
  have hcredit : v.credit = t.credit := by
    rw [hv]
    simp only [credit, hinput]
  have hle := hring.count_le
  subst hv
  refine ⟨hring, fun hpc => hinput.trans (h.idle hpc), ?_, ?_⟩
  · simp only
    split
    · rw [Semaphore.give_length, hlength]
    · exact hlength
  · rw [hcredit]
    simp only
    split
    · next hstores =>
      rw [if_pos hstores] at hcount
      rw [Semaphore.give_waiting, hlength]
      omega
    · next hstores =>
      rw [if_neg hstores] at hcount
      omega

theorem TokenInv.step (h : TokenInv t) {a : TaskAction P} (hstep : step t a = some v)
    (hok : TokensSuffice t a) : TokenInv v := by
  have htokens := h.tokens
  cases a with
  | driver a =>
    simp only [InputTask.step] at hstep
    split at hstep
    · next ha =>
      split at hstep
      · next hpc =>
        obtain ⟨d, hd, rfl⟩ := Option.map_eq_some_iff.mp hstep
        exact h.input hpc ha hd hok
      · cases hstep
    · next ha =>
      obtain ⟨d, hd, rfl⟩ := Option.map_eq_some_iff.mp hstep
      exact h.outside (by simpa using ha) hd rfl
  | semTake =>
    simp only [InputTask.step, Option.ite_none_right_eq_some] at hstep
    obtain ⟨hpc, hstep⟩ := hstep
    have hne : t.pc ≠ .input := by
      intro heq
      rw [heq] at hpc
      rcases hpc with hpc | hpc <;> cases hpc
    have hzero := credit_of_pc hne
    have hidle := h.idle hne
    split at hstep
    · next sem htake =>
      obtain ⟨hwaiting, hlength⟩ := Semaphore.take_some htake
      cases hstep
      refine ⟨h.ring, fun hpc => absurd rfl hpc, hlength.trans h.length, ?_⟩
      simp only [credit, hidle, unpopped, and_self, if_true]
      omega
    · cases hstep
      refine ⟨h.ring, fun _ => hidle, h.length, ?_⟩
      simp only
      omega
  | timeout =>
    simp only [InputTask.step, Option.ite_none_right_eq_some, Option.some.injEq] at hstep
    obtain ⟨hpc, rfl⟩ := hstep
    have hzero := credit_of_pc (t := t) (by rw [hpc]; nofun)
    refine ⟨h.ring, fun hpc => absurd rfl hpc, h.length, ?_⟩
    simp only
    omega
  | linkChecked =>
    simp only [InputTask.step, Option.ite_none_right_eq_some, Option.some.injEq] at hstep
    obtain ⟨hpc, rfl⟩ := hstep
    have hne : t.pc ≠ .input := by rw [hpc]; nofun
    have hzero := credit_of_pc hne
    refine ⟨h.ring, fun _ => h.idle hne, h.length, ?_⟩
    simp only
    omega

theorem TokenInv.start {d : Ethernetif P} {slots : Nat → P} {pbuf : P → Pbuf} {inUse : P → Bool}
    {tcpip : Tcpip} {bufs : List P}
    (hinit : (Ethernetif.boot slots pbuf inUse tcpip).ethernetifInit lwipRxEthBuffer bufs =
      some d) : TokenInv (InputTask.start d) := by
  obtain ⟨hfilled, hcount, -⟩ := ethernetifInit_filled hinit
  refine ⟨ringInv_ethernetifInit (by decide) hinit, fun _ => hfilled.input, ?_, ?_⟩
  · simp only [InputTask.start, rxSemaphoreInit, Semaphore.waits_length]
    exact Semaphore.sysSemNew_length (by decide)
  · have hempty : (InputTask.start d).ethernetif.lwipRxCount = 0 := hcount
    rw [hempty]
    exact Int.add_nonneg (Int.natCast_nonneg _) (Int.natCast_nonneg _)

theorem step_allocFails (hstep : step t (.driver (.pbufAlloc none)) = some v) :
    v.ethernetif.input = .idle ∧ v.pc = .checkLink ∧ v.rxSemaphore = t.rxSemaphore ∧
      v.ethernetif.lwipRxCount = t.ethernetif.lwipRxCount := by
  simp only [InputTask.step, Action.ofInput, if_true, Option.ite_none_right_eq_some,
    Option.map_eq_some_iff, Driver.step, Option.some.injEq] at hstep
  obtain ⟨-, d, ⟨-, rfl⟩, rfl⟩ := hstep
  exact ⟨rfl, rfl, rfl, rfl⟩

/-- With more frames than tokens the task takes one token after the other, and sleeps in the
end: it is enough that `pbuf_alloc` goes on to fail. -/
theorem starves (k : Nat) (hpc : t.pc = .semWait) (hidle : t.ethernetif.input = .idle)
    (hk : t.rxSemaphore.uxMessagesWaiting = k) (hcount : (k : Int) < t.ethernetif.lwipRxCount) :
    ∃ as u, run step t as = some u ∧ u.Sleeps ∧ u.ethernetif.lwipRxCount ≠ 0 := by
  induction k generalizing t with
  | zero =>
    have hempty : t.rxSemaphore.xSemaphoreTake = none := by
      simp [Semaphore.xSemaphoreTake, hk]
    refine ⟨[.semTake], { t with pc := .blocked }, ?_, ⟨rfl, hk⟩, ?_⟩
    · simp [run, InputTask.step, hpc, hempty]
    · simp only
      omega
  | succ k ih =>
    obtain ⟨sem, htake⟩ : ∃ sem, t.rxSemaphore.xSemaphoreTake = some sem := by
      simp [Semaphore.xSemaphoreTake, hk]
    have hsem := (Semaphore.take_some htake).1
    let v : InputTask P :=
      { t with
        ethernetif := { t.ethernetif with input := .idle, ret := -1 }
        rxSemaphore := sem
        pc := .semWait
        took := true }
    have hpos : ¬ t.ethernetif.lwipRxCount ≤ 0 := by omega
    have hrun : run step t [.semTake, .driver .checkCount, .driver (.pbufAlloc none),
        .linkChecked] = some v := by
      simp [run, InputTask.step, hpc, htake, Action.ofInput, Driver.step, hidle, hpos, afterInput,
        InputPc.isIdle, v]
    have hleft : v.rxSemaphore.uxMessagesWaiting = k := by
      change sem.uxMessagesWaiting = k
      omega
    have hmore : (k : Int) < v.ethernetif.lwipRxCount := by
      change (k : Int) < t.ethernetif.lwipRxCount
      omega
    obtain ⟨as, u, hu, hsleeps⟩ := ih rfl rfl hleft hmore
    exact ⟨_ ++ as, u, by rw [run_append, hrun]; exact hu, hsleeps⟩

end Steps

/-- As long as each `pbuf_alloc` that fails leaves a token for every frame, the input task does
not sleep while a frame waits; and after one that does not, it can come to sleep with a frame in
the ring. -/
theorem never_sleeps_on_frames (slots : Nat → P) (pbuf : P → Pbuf) (inUse : P → Bool)
    (tcpip : Tcpip) (bufs : List P) (d : Ethernetif P) (as : List (TaskAction P))
    (t : InputTask P)
    (hinit : (Ethernetif.boot slots pbuf inUse tcpip).ethernetifInit lwipRxEthBuffer bufs =
      some d)
    (hrun : run step (start d) as = some t) :
    (EveryStep step (fun t a _ => TokensSuffice t a) (start d) as →
      t.Sleeps → t.ethernetif.lwipRxCount = 0) ∧
      ∀ v, step t (.driver (.pbufAlloc none)) = some v →
        ¬ TokensSuffice t (.driver (.pbufAlloc none)) →
          ∃ bs u, run step v bs = some u ∧ u.Sleeps ∧ u.ethernetif.lwipRxCount ≠ 0 := by
  constructor
  · intro hok hsleeps
    obtain ⟨hpc, hnone⟩ := hsleeps
    have hinv : TokenInv t :=
      run_invariant_under (fun _ _ _ hu hstep hP => hu.step hstep hP) (TokenInv.start hinit) hok
        hrun
    have htokens := hinv.tokens
    rw [hnone, credit_of_pc (by rw [hpc]; nofun)] at htokens
    have hnonneg := hinv.ring.count_nonneg
    omega
  · intro v hstep hshort
    obtain ⟨hidle, hpc, hsem, hcount⟩ := step_allocFails hstep
    have hmore : (t.rxSemaphore.uxMessagesWaiting : Int) < v.ethernetif.lwipRxCount := by
      rw [hcount]
      exact not_le.mp hshort
    obtain ⟨bs, u, hu, hsleeps⟩ := starves (t := { v with pc := .semWait }) _ rfl hidle
      (by rw [hsem]) hmore
    refine ⟨.linkChecked :: bs, u, ?_, hsleeps⟩
    simp only [run_cons, InputTask.step, hpc, if_true, Option.bind_some]
    exact hu

instance (t : InputTask P) : (a : TaskAction P) → Decidable (TokensSuffice t a)
  | .driver (.pbufAlloc none) => inferInstanceAs (Decidable (_ ≤ _))
  | .driver (.pbufAlloc (some _)) => inferInstanceAs (Decidable True)
  | .driver .softwareReset => inferInstanceAs (Decidable True)
  | .driver .constructDesc => inferInstanceAs (Decidable True)
  | .driver .aRxRead => inferInstanceAs (Decidable True)
  | .driver (.dmaWrite _ _) => inferInstanceAs (Decidable True)
  | .driver (.dmaComplete _) => inferInstanceAs (Decidable True)
  | .driver .rxIsr => inferInstanceAs (Decidable True)
  | .driver .checkCount => inferInstanceAs (Decidable True)
  | .driver .exchange => inferInstanceAs (Decidable True)
  | .driver .finish => inferInstanceAs (Decidable True)
  | .driver .deliver => inferInstanceAs (Decidable True)
  | .driver (.stackAlloc _) => inferInstanceAs (Decidable True)
  | .driver (.stackWrite _ _) => inferInstanceAs (Decidable True)
  | .driver (.pbufFree _) => inferInstanceAs (Decidable True)
  | .driver (.others _) => inferInstanceAs (Decidable True)
  | .semTake => inferInstanceAs (Decidable True)
  | .timeout => inferInstanceAs (Decidable True)
  | .linkChecked => inferInstanceAs (Decidable True)

instance (t : InputTask P) : Decidable t.Sleeps := inferInstanceAs (Decidable (_ ∧ _))

def idleTcpip : Tcpip := { mboxValid := true, freeMsgs := 8, queued := 0, mboxSize := 6 }

/-- After `ethernetif_init`, with the pbufs 0 to 11 in the ring. -/
def booted : Option (Ethernetif Nat) :=
  (Ethernetif.boot (fun _ => 0) (fun _ => ⟨0, 0, fun _ => 0⟩) (fun _ => false)
    idleTcpip).ethernetifInit lwipRxEthBuffer (List.range lwipRxEthBuffer)

/-- A frame comes in while the task sleeps, and the task wakes up. -/
def frameComesIn : List (TaskAction Nat) :=
  [.driver .constructDesc, .driver .aRxRead, .semTake,
    .driver (.dmaComplete { bytes := [0xab, 0xcd], status := 0, fits := by decide }),
    .driver .rxIsr, .semTake, .driver .checkCount]

/-- The frame is taken out before the task sleeps again. -/
theorem never_sleeps_on_frames_one :
    ∃ d t, booted = some d ∧
      run step (start d) (frameComesIn ++ [.driver (.pbufAlloc (some 12)), .driver .exchange,
        .driver .finish, .driver .deliver, .linkChecked, .semTake]) = some t ∧
      t.Sleeps ∧ t.ethernetif.lwipRxCount = 0 := by
  have hruns : (booted.bind fun d => run step (start d) (frameComesIn ++
      [.driver (.pbufAlloc (some 12)), .driver .exchange, .driver .finish, .driver .deliver,
        .linkChecked, .semTake])).map (fun t => decide t.Sleeps) = some true := by
    decide +kernel
  obtain ⟨t, ht, hsleeps⟩ := Option.map_eq_some_iff.mp hruns
  obtain ⟨d, hinit, hrun⟩ := Option.bind_eq_some_iff.mp ht
  have hend := of_decide_eq_true hsleeps
  refine ⟨d, t, hinit, hrun, hend, (never_sleeps_on_frames _ _ _ _ _ d _ t hinit hrun).1 ?_ hend⟩
  have hall : ∀ d ∈ booted, EveryStep step (fun t a _ => TokensSuffice t a) (start d)
      (frameComesIn ++ [.driver (.pbufAlloc (some 12)), .driver .exchange, .driver .finish,
        .driver .deliver, .linkChecked, .semTake]) := by
    decide +kernel
  exact hall d hinit

/-- The only pbuf that is free is in use when the frame comes in: the frame stays in the ring, and
the task sleeps. -/
theorem sleeps_on_frame :
    ¬ ∀ (d : Ethernetif Nat) (as : List (TaskAction Nat)) (t : InputTask Nat),
      booted = some d → run step (start d) as = some t → t.Sleeps →
        t.ethernetif.lwipRxCount = 0 := by
  intro hclaim
  have hruns : (booted.bind fun d => run step (start d) (frameComesIn ++
      [.driver (.pbufAlloc none), .linkChecked, .semTake])).map
        (fun t => (decide t.Sleeps, t.ethernetif.lwipRxCount)) = some (true, 1) := by
    decide +kernel
  obtain ⟨t, ht, hend⟩ := Option.map_eq_some_iff.mp hruns
  obtain ⟨d, hinit, hrun⟩ := Option.bind_eq_some_iff.mp ht
  obtain ⟨hsleeps, hone⟩ := Prod.mk.inj hend
  have hzero := hclaim d _ t hinit hrun (of_decide_eq_true hsleeps)
  rw [hone] at hzero
  cases hzero

end InputTask

end FreeLwip.Driver
