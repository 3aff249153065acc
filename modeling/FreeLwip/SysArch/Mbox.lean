import FreeLwip.Lib.Run
import FreeLwip.Kernel.Queue

/-!
# Mailboxes (`sys_arch.c`) and their clients (`tcpip.c`)

Any number of threads post to a mailbox, and one thread fetches from it. A post waits for room
for ten seconds at most, and its result is dropped.
-/

namespace FreeLwip.SysArch.Mailbox

open Run Kernel Queue

def archPostBlockTimeMs : Nat := 10000

/-- With a tick of 1 kHz. -/
def portTickRateMs : Nat := 1

/-- The function on whose behalf a message is sent. -/
inductive Client
  | sysMboxPost
  | sysMboxTrypost
  | tcpipApimsg
  | tcpipCallbackWithBlock (block : Bool)
  deriving DecidableEq, Repr

def Client.posts : Client → Bool
  | .sysMboxPost => true
  | .sysMboxTrypost => false
  | .tcpipApimsg => true
  | .tcpipCallbackWithBlock block => block

def Client.ticksToWait (c : Client) : PortTickType :=
  if c.posts then BitVec.ofNat 32 (archPostBlockTimeMs / portTickRateMs) else 0

def Client.allocates : Client → Bool
  | .tcpipCallbackWithBlock _ => true
  | _ => false

/-- A message; `call` numbers the calls, so that each message has its own. -/
structure Msg (Thread : Type*) where
  call : Nat
  thread : Thread
  client : Client
  deriving DecidableEq

/-- Where a posting thread is. -/
inductive Pc (Thread : Type*)
  | idle
  /-- Before the critical section of `xQueueGenericSend`. -/
  | trying (m : Msg Thread) (xTicksToWait : PortTickType) (xTimeOut : Option TimeOut)
  | checking (m : Msg Thread) (xTicksToWait : PortTickType) (xTimeOut : TimeOut)
  | blocked (m : Msg Thread) (xTicksToWait : PortTickType) (xTimeOut : TimeOut)
  /-- In the `sys_arch_sem_wait` of `tcpip_apimsg`. -/
  | opWait (m : Msg Thread)
  deriving DecidableEq

structure Mbox (Thread : Type*) where
  valid : Bool
  queue : Queue (Msg Thread)
  now : Nat
  /-- The free elements of MEMP_TCPIP_MSG_API. -/
  memp : Nat
  pc : Thread → Pc Thread
  /-- The message that the fetching thread handles. -/
  current : Option (Msg Thread)
  opCompleted : Thread → Bool
  -- The history of the run; the code reads none of it.
  calls : Nat
  enqueued : List (Msg Thread)
  fetched : List (Msg Thread)
  /-- `sys_mbox_post` has returned. -/
  posted : List (Msg Thread)
  /-- `sys_mbox_trypost` has returned ERR_OK, or ERR_MEM. -/
  accepted : List (Msg Thread)
  refused : List (Msg Thread)
  allocated : List (Msg Thread)
  freed : List (Msg Thread)

variable {Thread : Type*}

def init (valid : Bool) (uxLength : Nat) (hpos : 0 < uxLength) (storage : Nat → Msg Thread)
    (memp : Nat) : Mbox Thread where
  valid := valid
  queue := xQueueGenericCreate uxLength hpos storage
  now := 0
  memp := memp
  pc _ := .idle
  current := none
  opCompleted _ := false
  calls := 0
  enqueued := []
  fetched := []
  posted := []
  accepted := []
  refused := []
  allocated := []
  freed := []

namespace Mbox

variable [DecidableEq Thread]

def setPc (s : Mbox Thread) (τ : Thread) (pc : Pc Thread) : Mbox Thread :=
  { s with pc := Function.update s.pc τ pc }

/-- The client up to its `xQueueSend`. -/
def begin (s : Mbox Thread) (τ : Thread) (c : Client) : Mbox Thread :=
  let m : Msg Thread := { call := s.calls, thread := τ, client := c }
  let s := { s with calls := s.calls + 1 }
  let s := s.setPc τ (.trying m c.ticksToWait none)
  match c with
  | .sysMboxPost => s
  | .sysMboxTrypost => s
  | .tcpipApimsg => s
  | .tcpipCallbackWithBlock _ => { s with memp := s.memp - 1, allocated := s.allocated ++ [m] }

/-- The checks of the client: ERR_VAL without a mailbox, ERR_MEM without memory. -/
def admits (s : Mbox Thread) : Client → Bool
  | .sysMboxPost => true
  | .sysMboxTrypost => true
  | .tcpipApimsg => s.valid
  | .tcpipCallbackWithBlock _ => s.valid && decide (s.memp ≠ 0)

/-- The client from the return of `xQueueSend` with pdPASS (`ok`) or errQUEUE_FULL. -/
def sendReturns (s : Mbox Thread) (τ : Thread) (m : Msg Thread) (ok : Bool) : Mbox Thread :=
  match m.client with
  | .sysMboxPost => { s.setPc τ .idle with posted := s.posted ++ [m] }
  | .sysMboxTrypost =>
    if ok then
      { s.setPc τ .idle with accepted := s.accepted ++ [m] }
    else
      { s.setPc τ .idle with refused := s.refused ++ [m] }
  | .tcpipApimsg => { s.setPc τ (.opWait m) with posted := s.posted ++ [m] }
  | .tcpipCallbackWithBlock true => { s.setPc τ .idle with posted := s.posted ++ [m] }
  | .tcpipCallbackWithBlock false =>
    if ok then
      { s.setPc τ .idle with accepted := s.accepted ++ [m] }
    else
      { s.setPc τ .idle with
        refused := s.refused ++ [m], memp := s.memp + 1, freed := s.freed ++ [m] }

/-- The tcpip thread with a message; what a plain message does is its fetcher's business. -/
def handle (s : Mbox Thread) (m : Msg Thread) : Mbox Thread :=
  let s := { s with current := none }
  match m.client with
  | .sysMboxPost => s
  | .sysMboxTrypost => s
  | .tcpipApimsg => { s with opCompleted := Function.update s.opCompleted m.thread true }
  | .tcpipCallbackWithBlock _ => { s with memp := s.memp + 1, freed := s.freed ++ [m] }

end Mbox

inductive Action (Thread : Type*)
  | ticks (n : Nat)
  | call (τ : Thread) (c : Client)
  | sendTry (τ : Thread)
  | sendCheck (τ : Thread)
  /-- A blocked thread runs again, for whatever reason. -/
  | resume (τ : Thread)
  | semTake (τ : Thread)
  /-- `sys_arch_mbox_fetch` or `sys_arch_mbox_tryfetch` looks into the mailbox. -/
  | fetch
  | handle

variable [DecidableEq Thread]

def step (s : Mbox Thread) : Action Thread → Option (Mbox Thread)
  | .ticks n => some { s with now := s.now + n }
  | .call τ c =>
    match s.pc τ with
    | .idle => if s.admits c then some (s.begin τ c) else some s
    | _ => none
  | .sendTry τ =>
    match s.pc τ with
    | .trying m xTicksToWait xTimeOut =>
      match s.queue.xQueueGenericSendTry s.now m xTicksToWait xTimeOut with
      | .pdPass queue =>
        some ({ s with queue := queue, enqueued := s.enqueued ++ [m] }.sendReturns τ m true)
      | .errQueueFull => some (s.sendReturns τ m false)
      | .wait xTicksToWait xTimeOut => some (s.setPc τ (.checking m xTicksToWait xTimeOut))
    | _ => none
  | .sendCheck τ =>
    match s.pc τ with
    | .checking m xTicksToWait xTimeOut =>
      match s.queue.xQueueGenericSendCheck s.now xTicksToWait xTimeOut with
      | .errQueueFull => some (s.sendReturns τ m false)
      | .block xTicksToWait xTimeOut => some (s.setPc τ (.blocked m xTicksToWait xTimeOut))
      | .tryAgain xTicksToWait xTimeOut =>
        some (s.setPc τ (.trying m xTicksToWait (some xTimeOut)))
    | _ => none
  | .resume τ =>
    match s.pc τ with
    | .blocked m xTicksToWait xTimeOut =>
      some (s.setPc τ (.trying m xTicksToWait (some xTimeOut)))
    | _ => none
  | .semTake τ =>
    match s.pc τ with
    | .opWait _ =>
      if s.opCompleted τ then
        some { s.setPc τ .idle with opCompleted := Function.update s.opCompleted τ false }
      else
        none
    | _ => none
  | .fetch =>
    match s.current with
    | none =>
      match s.queue.xQueueGenericReceiveTry with
      | some (m, queue) =>
        some { s with queue := queue, current := some m, fetched := s.fetched ++ [m] }
      | none => some s
    | some _ => none
  | .handle => s.current.map s.handle

inductive Moves (s : Mbox Thread) : Action Thread → Mbox Thread → Prop
  | ticks {n : Nat} : Moves s (.ticks n) { s with now := s.now + n }
  | begins {τ : Thread} {c : Client} (here : s.pc τ = .idle) (admitted : s.admits c = true) :
      Moves s (.call τ c) (s.begin τ c)
  | rejected {τ : Thread} {c : Client} (here : s.pc τ = .idle)
      (notAdmitted : s.admits c = false) : Moves s (.call τ c) s
  | passes {τ : Thread} {m : Msg Thread} {k : PortTickType} {xTimeOut : Option TimeOut}
      {queue : Queue (Msg Thread)} (here : s.pc τ = .trying m k xTimeOut)
      (turn : s.queue.xQueueGenericSendTry s.now m k xTimeOut = .pdPass queue) :
      Moves s (.sendTry τ)
        ({ s with queue := queue, enqueued := s.enqueued ++ [m] }.sendReturns τ m true)
  | refuses {τ : Thread} {m : Msg Thread} {k : PortTickType} {xTimeOut : Option TimeOut}
      (here : s.pc τ = .trying m k xTimeOut)
      (turn : s.queue.xQueueGenericSendTry s.now m k xTimeOut = .errQueueFull) :
      Moves s (.sendTry τ) (s.sendReturns τ m false)
  | waits {τ : Thread} {m : Msg Thread} {k k' : PortTickType} {xTimeOut : Option TimeOut}
      {t : TimeOut} (here : s.pc τ = .trying m k xTimeOut)
      (turn : s.queue.xQueueGenericSendTry s.now m k xTimeOut = .wait k' t) :
      Moves s (.sendTry τ) (s.setPc τ (.checking m k' t))
  | expires {τ : Thread} {m : Msg Thread} {k : PortTickType} {xTimeOut : TimeOut}
      (here : s.pc τ = .checking m k xTimeOut)
      (turn : s.queue.xQueueGenericSendCheck s.now k xTimeOut = .errQueueFull) :
      Moves s (.sendCheck τ) (s.sendReturns τ m false)
  | blocks {τ : Thread} {m : Msg Thread} {k k' : PortTickType} {xTimeOut t : TimeOut}
      (here : s.pc τ = .checking m k xTimeOut)
      (turn : s.queue.xQueueGenericSendCheck s.now k xTimeOut = .block k' t) :
      Moves s (.sendCheck τ) (s.setPc τ (.blocked m k' t))
  | triesAgain {τ : Thread} {m : Msg Thread} {k k' : PortTickType} {xTimeOut t : TimeOut}
      (here : s.pc τ = .checking m k xTimeOut)
      (turn : s.queue.xQueueGenericSendCheck s.now k xTimeOut = .tryAgain k' t) :
      Moves s (.sendCheck τ) (s.setPc τ (.trying m k' (some t)))
  | resumes {τ : Thread} {m : Msg Thread} {k : PortTickType} {xTimeOut : TimeOut}
      (here : s.pc τ = .blocked m k xTimeOut) :
      Moves s (.resume τ) (s.setPc τ (.trying m k (some xTimeOut)))
  | semTake {τ : Thread} {m : Msg Thread} (here : s.pc τ = .opWait m)
      (completed : s.opCompleted τ = true) :
      Moves s (.semTake τ)
        { s.setPc τ .idle with opCompleted := Function.update s.opCompleted τ false }
  | fetches {m : Msg Thread} {queue : Queue (Msg Thread)} (idle : s.current = none)
      (turn : s.queue.xQueueGenericReceiveTry = some (m, queue)) :
      Moves s .fetch { s with queue := queue, current := some m, fetched := s.fetched ++ [m] }
  | empty (idle : s.current = none) (turn : s.queue.xQueueGenericReceiveTry = none) :
      Moves s .fetch s
  | handles {m : Msg Thread} (current : s.current = some m) : Moves s .handle (s.handle m)

theorem moves_of_step {s t : Mbox Thread} {a : Action Thread} (hstep : step s a = some t) :
    Moves s a t := by
  cases a with
  | ticks n =>
    cases hstep
    exact .ticks
  | call τ c =>
    simp only [step] at hstep
    split at hstep
    · next hidle =>
      split at hstep <;> cases hstep
      · next hadmits => exact .begins hidle hadmits
      · next hnot => exact .rejected hidle (Bool.eq_false_iff.mpr hnot)
    · cases hstep
  | sendTry τ =>
    simp only [step] at hstep
    split at hstep
    · next hpc =>
      split at hstep <;> cases hstep
      · next hpass => exact .passes hpc hpass
      · next hfull => exact .refuses hpc hfull
      · next hwait => exact .waits hpc hwait
    · cases hstep
  | sendCheck τ =>
    simp only [step] at hstep
    split at hstep
    · next hpc =>
      split at hstep <;> cases hstep
      · next hfull => exact .expires hpc hfull
      · next hblock => exact .blocks hpc hblock
      · next hagain => exact .triesAgain hpc hagain
    · cases hstep
  | resume τ =>
    simp only [step] at hstep
    split at hstep <;> cases hstep
    next hpc => exact .resumes hpc
  | semTake τ =>
    simp only [step] at hstep
    split at hstep
    · next hpc =>
      split at hstep <;> cases hstep
      next hcompleted => exact .semTake hpc hcompleted
    · cases hstep
  | fetch =>
    simp only [step] at hstep
    split at hstep
    · next hcurrent =>
      split at hstep <;> cases hstep
      · next hreceive => exact .fetches hcurrent hreceive
      · next hempty => exact .empty hcurrent hempty
    · cases hstep
  | handle =>
    obtain ⟨m, hcurrent, rfl⟩ := Option.map_eq_some_iff.mp hstep
    exact .handles hcurrent

/-! ## What must hold of a mailbox -/

/-- The message that a thread is sending, and the block time that is left. -/
def Pc.sending : Pc Thread → Option (Msg Thread × PortTickType)
  | .idle => none
  | .trying m k _ => some (m, k)
  | .checking m k _ => some (m, k)
  | .blocked m k _ => some (m, k)
  | .opWait _ => none

/-- What a mailbox promises: posted and accepted messages have come in, the messages are
fetched in their order and once each, and no client waits for, or has lost, a message that
never came in. -/
structure NothingLost (s : Mbox Thread) : Prop where
  posted : ∀ m ∈ s.posted, m ∈ s.queue.messages ∨ m ∈ s.fetched
  accepted : ∀ m ∈ s.accepted, m ∈ s.queue.messages ∨ m ∈ s.fetched
  order : s.fetched ++ s.queue.messages = s.enqueued
  once : s.enqueued.Nodup
  opWait : ∀ τ m, s.pc τ = .opWait m → m ∈ s.queue.messages ∨ m ∈ s.fetched
  allocated : ∀ m ∈ s.allocated, (∃ k, (s.pc m.thread).sending = some (m, k)) ∨
    m ∈ s.queue.messages ∨ s.current = some m ∨ m ∈ s.freed

/-- The promises after a step; a refused message leaves the mailbox as it was. -/
def Keeps (s t : Mbox Thread) : Prop :=
  (t.refused ≠ s.refused → t.queue = s.queue) ∧ NothingLost t

/-- No block time of a post expires. -/
def PostInTime (s : Mbox Thread) (a : Action Thread) : Prop :=
  match a with
  | .sendCheck τ =>
    match s.pc τ with
    | .checking _ xTicksToWait xTimeOut =>
      (xTaskCheckForTimeOut s.now xTimeOut xTicksToWait).1 = false
    | _ => True
  | _ => True

structure MboxInv (s : Mbox Thread) : Prop where
  order : s.fetched ++ s.queue.messages = s.enqueued
  once : s.enqueued.Nodup
  fresh : ∀ m ∈ s.enqueued, m.call < s.calls
  sending : ∀ τ m k, (s.pc τ).sending = some (m, k) →
    m.thread = τ ∧ m.call < s.calls ∧ m ∉ s.enqueued ∧ (m.client.posts = true ↔ k ≠ 0)
  checking : ∀ τ m k t, s.pc τ = .checking m k t → k ≠ 0
  posted : ∀ m ∈ s.posted, m ∈ s.enqueued
  accepted : ∀ m ∈ s.accepted, m ∈ s.enqueued
  opWait : ∀ τ m, s.pc τ = .opWait m → m ∈ s.enqueued
  handled : ∀ m ∈ s.fetched, m.client.allocates = true → s.current = some m ∨ m ∈ s.freed
  allocated : ∀ m ∈ s.allocated, m.client.allocates = true ∧
    ((∃ k, (s.pc m.thread).sending = some (m, k)) ∨ m ∈ s.enqueued ∨ m ∈ s.freed)

namespace MboxInv

variable {s t : Mbox Thread} {τ : Thread} {m : Msg Thread} {k : PortTickType}

omit [DecidableEq Thread]

theorem mem_enqueued (h : MboxInv s) : m ∈ s.enqueued ↔ m ∈ s.queue.messages ∨ m ∈ s.fetched := by
  rw [← h.order, List.mem_append, or_comm]

theorem nothingLost (h : MboxInv s) : NothingLost s where
  posted m hm := h.mem_enqueued.mp (h.posted m hm)
  accepted m hm := h.mem_enqueued.mp (h.accepted m hm)
  order := h.order
  once := h.once
  opWait τ m hm := h.mem_enqueued.mp (h.opWait τ m hm)
  allocated m hm := by
    obtain ⟨halloc, hsending | henqueued | hfreed⟩ := h.allocated m hm
    · exact .inl hsending
    · rcases h.mem_enqueued.mp henqueued with hqueue | hfetched
      · exact .inr (.inl hqueue)
      · exact .inr (.inr (h.handled m hfetched halloc))
    · exact .inr (.inr (.inr hfreed))

theorem init (valid : Bool) (uxLength : Nat) (hpos : 0 < uxLength) (storage : Nat → Msg Thread)
    (memp : Nat) : MboxInv (init valid uxLength hpos storage memp) := by
  constructor
  case order => rfl
  case once => exact List.nodup_nil
  all_goals nofun

variable [DecidableEq Thread]

theorem moved {f : Thread → Pc Thread} {pc : Pc Thread} {τ' : Thread} (P : Pc Thread → Prop)
    (h : P (Function.update f τ pc τ')) : (τ' = τ ∧ P pc) ∨ (τ' ≠ τ ∧ P (f τ')) :=
  update_cases P h

theorem goesOn (h : MboxInv s) (hsend : (s.pc τ).sending = some (m, k)) {pc : Pc Thread}
    {k' : PortTickType} (hpc : pc.sending = some (m, k')) (hk : k' ≠ 0 ↔ k ≠ 0)
    (hcheck : ∀ m' k' t', pc = .checking m' k' t' → k' ≠ 0) : MboxInv (s.setPc τ pc) where
  order := h.order
  once := h.once
  fresh := h.fresh
  sending τ' m' l hs := by
    rcases moved (·.sending = some (m', l)) hs with ⟨rfl, hnow⟩ | ⟨-, hs⟩
    · rw [hpc] at hnow
      cases hnow
      rw [hk]
      exact h.sending τ' m k hsend
    · exact h.sending τ' m' l hs
  checking τ' m' l t hs := by
    rcases moved (· = .checking m' l t) hs with ⟨-, hs⟩ | ⟨-, hs⟩
    · exact hcheck m' l t hs
    · exact h.checking τ' m' l t hs
  posted := h.posted
  accepted := h.accepted
  opWait τ' m' hs := by
    rcases moved (· = .opWait m') hs with ⟨-, hs⟩ | ⟨-, hs⟩
    · rw [hs] at hpc
      cases hpc
    · exact h.opWait τ' m' hs
  handled := h.handled
  allocated m' hm' := by
    obtain ⟨halloc, hrest⟩ := h.allocated m' hm'
    refine ⟨halloc, hrest.imp (fun ⟨l, hs⟩ => ?_) id⟩
    simp only [Mbox.setPc]
    by_cases hτ : m'.thread = τ
    · rw [hτ] at hs ⊢
      rw [hsend] at hs
      cases hs
      exact ⟨k', by rw [Function.update_self, hpc]⟩
    · exact ⟨l, by rw [Function.update_of_ne hτ, hs]⟩

theorem leaves (h : MboxInv s) (hsend : (s.pc τ).sending = some (m, k)) {pc : Pc Thread}
    (hpc : t.pc = Function.update s.pc τ pc) (hidle : pc = .idle ∨ pc = .opWait m)
    (hcalls : t.calls = s.calls) (hfetched : t.fetched = s.fetched)
    (hcurrent : t.current = s.current) (hallocated : t.allocated = s.allocated)
    (horder : t.fetched ++ t.queue.messages = t.enqueued)
    (henqueued : t.enqueued = s.enqueued ∨ t.enqueued = s.enqueued ++ [m])
    (hposted : ∀ m' ∈ t.posted, m' ∈ s.posted ∨ (m' = m ∧ m ∈ t.enqueued))
    (haccepted : ∀ m' ∈ t.accepted, m' ∈ s.accepted ∨ (m' = m ∧ m ∈ t.enqueued))
    (hop : pc = .opWait m → m ∈ t.enqueued) (hfreed : ∀ m' ∈ s.freed, m' ∈ t.freed)
    (hm : m.client.allocates = true → m ∈ t.enqueued ∨ m ∈ t.freed) : MboxInv t := by
  obtain ⟨hthread, hcall, hnew, -⟩ := h.sending τ m k hsend
  have hmono : ∀ m' ∈ s.enqueued, m' ∈ t.enqueued := by
    intro m' hm'
    rcases henqueued with heq | heq <;> rw [heq]
    · exact hm'
    · exact List.mem_append_left _ hm'
  have hmem : ∀ m' ∈ t.enqueued, m' ∈ s.enqueued ∨ m' = m := by
    intro m' hm'
    rcases henqueued with heq | heq <;> rw [heq] at hm'
    · exact .inl hm'
    · rcases List.mem_append.mp hm' with hold | hlast
      · exact .inl hold
      · exact .inr (List.mem_singleton.mp hlast)
  have hnone : pc.sending = none := by rcases hidle with rfl | rfl <;> rfl
  constructor
  case order => exact horder
  case once =>
    rcases henqueued with heq | heq <;> rw [heq]
    · exact h.once
    · rw [List.nodup_append]
      refine ⟨h.once, List.nodup_singleton m, fun a ha b hb hab => hnew ?_⟩
      rw [← List.mem_singleton.mp hb, ← hab]
      exact ha
  case fresh =>
    intro m' hm'
    rw [hcalls]
    rcases hmem m' hm' with hold | rfl
    · exact h.fresh m' hold
    · exact hcall
  case sending =>
    intro τ' m' l hs
    rw [hpc] at hs
    rcases moved (·.sending = some (m', l)) hs with ⟨-, hs⟩ | ⟨hτ, hs⟩
    · rw [hnone] at hs
      cases hs
    · obtain ⟨hthread', hcall', hnew', hk⟩ := h.sending τ' m' l hs
      refine ⟨hthread', hcalls ▸ hcall', fun hin => ?_, hk⟩
      rcases hmem m' hin with hold | rfl
      · exact hnew' hold
      · exact hτ (hthread'.symm.trans hthread)
  case checking =>
    intro τ' m' l t' hs
    rw [hpc] at hs
    rcases moved (· = .checking m' l t') hs with ⟨-, hs⟩ | ⟨-, hs⟩
    · rw [hs] at hnone
      cases hnone
    · exact h.checking τ' m' l t' hs
  case posted =>
    intro m' hm'
    rcases hposted m' hm' with hold | ⟨rfl, hin⟩
    · exact hmono m' (h.posted m' hold)
    · exact hin
  case accepted =>
    intro m' hm'
    rcases haccepted m' hm' with hold | ⟨rfl, hin⟩
    · exact hmono m' (h.accepted m' hold)
    · exact hin
  case opWait =>
    intro τ' m' hs
    rw [hpc] at hs
    rcases moved (· = .opWait m') hs with ⟨-, hs⟩ | ⟨-, hs⟩
    · rcases hidle with rfl | rfl
      · cases hs
      · cases hs
        exact hop rfl
    · exact hmono m' (h.opWait τ' m' hs)
  case handled =>
    intro m' hm' halloc
    rw [hfetched] at hm'
    rw [hcurrent]
    exact (h.handled m' hm' halloc).imp id (hfreed m')
  case allocated =>
    intro m' hm'
    rw [hallocated] at hm'
    obtain ⟨halloc, hsending | hin | hfree⟩ := h.allocated m' hm'
    · refine ⟨halloc, ?_⟩
      obtain ⟨l, hs⟩ := hsending
      by_cases hτ : m'.thread = τ
      · rw [hτ, hsend] at hs
        cases hs
        exact .inr (hm halloc)
      · exact .inl ⟨l, by rw [hpc, Function.update_of_ne hτ, hs]⟩
    · exact ⟨halloc, .inr (.inl (hmono m' hin))⟩
    · exact ⟨halloc, .inr (.inr (hfreed m' hfree))⟩

theorem passes (h : MboxInv s) (hsend : (s.pc τ).sending = some (m, k)) {queue : Queue (Msg Thread)}
    (hqueue : queue.messages = s.queue.messages ++ [m]) :
    MboxInv ({ s with queue := queue, enqueued := s.enqueued ++ [m] }.sendReturns τ m true) := by
  have hin : m ∈ s.enqueued ++ [m] := List.mem_append_right _ (List.mem_singleton_self m)
  have horder : s.fetched ++ queue.messages = s.enqueued ++ [m] := by
    rw [hqueue, ← List.append_assoc, h.order]
  have hlast : ∀ l : List (Msg Thread), ∀ m' ∈ l ++ [m],
      m' ∈ l ∨ (m' = m ∧ m ∈ s.enqueued ++ [m]) := by
    intro l m' hm'
    exact (List.mem_append.mp hm').imp id fun heq => ⟨List.mem_singleton.mp heq, hin⟩
  unfold Mbox.sendReturns
  simp only [if_true]
  split
  · exact h.leaves hsend rfl (.inl rfl) rfl rfl rfl rfl horder (.inr rfl) (hlast _)
      (fun m' hm' => .inl hm') nofun (fun m' hm' => hm') fun _ => .inl hin
  · exact h.leaves hsend rfl (.inl rfl) rfl rfl rfl rfl horder (.inr rfl) (fun m' hm' => .inl hm')
      (hlast _) nofun (fun m' hm' => hm') fun _ => .inl hin
  · exact h.leaves hsend rfl (.inr rfl) rfl rfl rfl rfl horder (.inr rfl) (hlast _)
      (fun m' hm' => .inl hm') (fun _ => hin) (fun m' hm' => hm') fun _ => .inl hin
  · exact h.leaves hsend rfl (.inl rfl) rfl rfl rfl rfl horder (.inr rfl) (hlast _)
      (fun m' hm' => .inl hm') nofun (fun m' hm' => hm') fun _ => .inl hin
  · exact h.leaves hsend rfl (.inl rfl) rfl rfl rfl rfl horder (.inr rfl) (fun m' hm' => .inl hm')
      (hlast _) nofun (fun m' hm' => hm') fun _ => .inl hin

theorem refuses (h : MboxInv s) (hsend : (s.pc τ).sending = some (m, k))
    (htry : m.client.posts = false) : MboxInv (s.sendReturns τ m false) := by
  have horder := h.order
  unfold Mbox.sendReturns
  unfold Client.posts at htry
  split
  · next hclient =>
    rw [hclient] at htry
    cases htry
  · next hclient =>
    refine h.leaves hsend rfl (.inl rfl) rfl rfl rfl rfl horder (.inl rfl) (fun m' hm' => .inl hm')
      (fun m' hm' => .inl hm') nofun (fun m' hm' => hm') fun halloc => ?_
    rw [hclient] at halloc
    cases halloc
  · next hclient =>
    rw [hclient] at htry
    cases htry
  · next hclient =>
    rw [hclient] at htry
    cases htry
  · exact h.leaves hsend rfl (.inl rfl) rfl rfl rfl rfl horder (.inl rfl) (fun m' hm' => .inl hm')
      (fun m' hm' => .inl hm') nofun (fun m' hm' => List.mem_append_left _ hm')
      fun _ => .inr (List.mem_append_right _ (List.mem_singleton_self m))

omit [DecidableEq Thread] in
theorem ticks (h : MboxInv s) (n : Nat) : MboxInv { s with now := s.now + n } :=
  { h with }

theorem call (h : MboxInv s) (hidle : s.pc τ = .idle) (c : Client) : MboxInv (s.begin τ c) := by
  have hnew : (⟨s.calls, τ, c⟩ : Msg Thread) ∉ s.enqueued := fun hin =>
    absurd (h.fresh _ hin) (Nat.lt_irrefl _)
  have hbegin : MboxInv ({ s with calls := s.calls + 1 }.setPc τ
      (.trying ⟨s.calls, τ, c⟩ c.ticksToWait none)) := by
    refine { h with fresh := ?_, sending := ?_, checking := ?_, opWait := ?_, allocated := ?_ }
    · exact fun m hm => Nat.lt_succ_of_lt (h.fresh m hm)
    · intro τ' m k hs
      rcases moved (·.sending = some (m, k)) hs with ⟨hτ, hs⟩ | ⟨-, hs⟩
      · cases hs
        refine ⟨hτ.symm, Nat.lt_succ_self _, hnew, ?_⟩
        unfold Client.ticksToWait
        split
        · next hposts => exact ⟨fun _ => by decide, fun _ => hposts⟩
        · next hposts => exact ⟨fun hp => absurd hp hposts, fun hne => absurd rfl hne⟩
      · obtain ⟨hthread, hcall, hrest⟩ := h.sending τ' m k hs
        exact ⟨hthread, Nat.lt_succ_of_lt hcall, hrest⟩
    · intro τ' m k t hs
      rcases moved (· = .checking m k t) hs with ⟨-, hs⟩ | ⟨-, hs⟩
      · cases hs
      · exact h.checking τ' m k t hs
    · intro τ' m hs
      rcases moved (· = .opWait m) hs with ⟨-, hs⟩ | ⟨-, hs⟩
      · cases hs
      · exact h.opWait τ' m hs
    · intro m hm
      obtain ⟨halloc, hrest⟩ := h.allocated m hm
      refine ⟨halloc, hrest.imp (fun ⟨k, hs⟩ => ⟨k, ?_⟩) id⟩
      have hτ : m.thread ≠ τ := by
        intro heq
        rw [heq, hidle] at hs
        cases hs
      simp only [Mbox.setPc]
      rw [Function.update_of_ne hτ, hs]
  unfold Mbox.begin
  simp only
  split
  · exact hbegin
  · exact hbegin
  · exact hbegin
  · refine { hbegin with allocated := fun m hm => ?_ }
    rcases List.mem_append.mp hm with hold | hlast
    · exact hbegin.allocated m hold
    · obtain rfl := List.mem_singleton.mp hlast
      exact ⟨rfl, .inl ⟨_, by simp only [Mbox.setPc, Function.update_self]; rfl⟩⟩

theorem semTake (h : MboxInv s) (hwait : s.pc τ = .opWait m) (opCompleted : Thread → Bool) :
    MboxInv { s.setPc τ .idle with opCompleted := opCompleted } := by
  refine { h with sending := ?_, checking := ?_, opWait := ?_, allocated := ?_ }
  · intro τ' m' k hs
    rcases moved (·.sending = some (m', k)) hs with ⟨-, hs⟩ | ⟨-, hs⟩
    · cases hs
    · exact h.sending τ' m' k hs
  · intro τ' m' k t hs
    rcases moved (· = .checking m' k t) hs with ⟨-, hs⟩ | ⟨-, hs⟩
    · cases hs
    · exact h.checking τ' m' k t hs
  · intro τ' m' hs
    rcases moved (· = .opWait m') hs with ⟨-, hs⟩ | ⟨-, hs⟩
    · cases hs
    · exact h.opWait τ' m' hs
  · intro m' hm'
    obtain ⟨halloc, hrest⟩ := h.allocated m' hm'
    refine ⟨halloc, hrest.imp (fun ⟨k, hs⟩ => ⟨k, ?_⟩) id⟩
    have hτ : m'.thread ≠ τ := by
      intro heq
      rw [heq, hwait] at hs
      cases hs
    simp only [Mbox.setPc]
    rw [Function.update_of_ne hτ, hs]

omit [DecidableEq Thread] in
theorem fetch (h : MboxInv s) (hcurrent : s.current = none) {queue : Queue (Msg Thread)}
    (hqueue : s.queue.messages = m :: queue.messages) :
    MboxInv { s with queue := queue, current := some m, fetched := s.fetched ++ [m] } := by
  refine { h with order := ?_, handled := fun m' hm' halloc => ?_ }
  · simp only
    rw [List.append_assoc, List.singleton_append, ← hqueue, h.order]
  · rcases List.mem_append.mp hm' with hold | hlast
    · rcases h.handled m' hold halloc with hhand | hfreed
      · rw [hcurrent] at hhand
        cases hhand
      · exact .inr hfreed
    · obtain rfl := List.mem_singleton.mp hlast
      exact .inl rfl

theorem handle (h : MboxInv s) (hcurrent : s.current = some m) : MboxInv (s.handle m) := by
  have hother : ∀ m' ∈ s.fetched, m'.client.allocates = true → m' = m ∨ m' ∈ s.freed := by
    intro m' hm' halloc
    refine (h.handled m' hm' halloc).imp (fun hhand => ?_) id
    rw [hcurrent] at hhand
    exact (Option.some.inj hhand).symm
  have hplain : m.client.allocates = false → ∀ m' ∈ s.fetched, m'.client.allocates = true →
      none = some m' ∨ m' ∈ s.freed := by
    intro hnot m' hm' halloc
    rcases hother m' hm' halloc with rfl | hfreed
    · rw [hnot] at halloc
      cases halloc
    · exact .inr hfreed
  unfold Mbox.handle
  simp only
  split
  · next hclient => exact { h with handled := hplain (by rw [hclient]; rfl) }
  · next hclient => exact { h with handled := hplain (by rw [hclient]; rfl) }
  · next hclient => exact { h with handled := hplain (by rw [hclient]; rfl) }
  · refine { h with handled := fun m' hm' halloc => ?_, allocated := fun m' hm' => ?_ }
    · rcases hother m' hm' halloc with rfl | hfreed
      · exact .inr (List.mem_append_right _ (List.mem_singleton_self _))
      · exact .inr (List.mem_append_left _ hfreed)
    · obtain ⟨halloc, hrest⟩ := h.allocated m' hm'
      exact ⟨halloc, hrest.imp id fun hin => hin.imp id fun hfreed => List.mem_append_left _ hfreed⟩

theorem sendCheck (h : MboxInv s) {xTimeOut xTimeOut' : TimeOut} {k' : PortTickType}
    (hpc : s.pc τ = .checking m k xTimeOut)
    (hleft : xTaskCheckForTimeOut s.now xTimeOut k = (false, xTimeOut', k')) {pc : Pc Thread}
    (hsend : pc.sending = some (m, k')) (hcheck : ∀ m' l t', pc ≠ .checking m' l t') :
    MboxInv (s.setPc τ pc) := by
  have hk := h.checking τ m k xTimeOut hpc
  have hk' := checkForTimeOut_left_ne_zero hk hleft
  exact h.goesOn (by rw [hpc]; rfl) hsend ⟨fun _ => hk, fun _ => hk'⟩
    fun m' l t' heq => absurd heq (hcheck m' l t')

theorem step (h : MboxInv s) {a : Action Thread} (hstep : Mailbox.step s a = some t)
    (hintime : PostInTime s a) : MboxInv t := by
  cases moves_of_step hstep with
  | ticks => exact h.ticks _
  | begins hidle => exact h.call hidle _
  | rejected | empty => exact h
  | passes hpc hpass => exact h.passes (by rw [hpc]; rfl) (sendTry_pass hpass)
  | @refuses τ m k xTimeOut hpc hfull =>
    have hsend : (s.pc τ).sending = some (m, k) := by rw [hpc]; rfl
    obtain ⟨-, -, -, hposts⟩ := h.sending τ m k hsend
    refine h.refuses hsend ?_
    rw [sendTry_full hfull] at hposts
    exact Bool.eq_false_iff.mpr fun hp => hposts.mp hp rfl
  | waits hpc hwait =>
    obtain ⟨rfl, hk⟩ := sendTry_wait hwait
    refine h.goesOn (by rw [hpc]; rfl) rfl Iff.rfl fun m' l t' heq => ?_
    cases heq
    exact hk
  | expires hpc hfull =>
    simp only [PostInTime, hpc] at hintime
    rw [sendCheck_full_iff, hintime] at hfull
    cases hfull
  | blocks hpc hblock => exact h.sendCheck hpc (sendCheck_left (.inl hblock)) rfl nofun
  | triesAgain hpc hagain => exact h.sendCheck hpc (sendCheck_left (.inr hagain)) rfl nofun
  | resumes hpc => exact h.goesOn (by rw [hpc]; rfl) rfl Iff.rfl nofun
  | semTake hpc => exact h.semTake hpc _
  | fetches hcurrent hreceive => exact h.fetch hcurrent (receiveTry_some hreceive)
  | handles hcurrent => exact h.handle hcurrent

end MboxInv

/-! ## Every run -/

section Runs

variable {s t : Mbox Thread}

theorem sendReturns_queue (s : Mbox Thread) (τ : Thread) (m : Msg Thread) (ok : Bool) :
    (s.sendReturns τ m ok).queue = s.queue := by
  unfold Mbox.sendReturns
  split
  · rfl
  · split <;> rfl
  · rfl
  · rfl
  · split <;> rfl

theorem sendReturns_refused (s : Mbox Thread) (τ : Thread) (m : Msg Thread) :
    (s.sendReturns τ m true).refused = s.refused := by
  unfold Mbox.sendReturns
  split <;> rfl

theorem step_refused {a : Action Thread} (hstep : step s a = some t)
    (hrefused : t.refused ≠ s.refused) : t.queue = s.queue := by
  cases moves_of_step hstep with
  | passes => exact absurd (sendReturns_refused _ _ _) hrefused
  | refuses | expires => exact sendReturns_queue _ _ _ _
  | fetches => exact absurd rfl hrefused
  | @begins τ c => cases c <;> rfl
  | handles =>
    unfold Mbox.handle
    simp only
    split <;> rfl
  | ticks | rejected | waits | blocks | triesAgain | resumes | semTake | empty => rfl

theorem lost_of_expired (h : MboxInv s) {τ : Thread} {m : Msg Thread} {k : PortTickType}
    {xTimeOut : TimeOut} (hpc : s.pc τ = .checking m k xTimeOut)
    (hexpired : (xTaskCheckForTimeOut s.now xTimeOut k).1 = true)
    (hstep : step s (.sendCheck τ) = some t) : ¬ NothingLost t := by
  intro hlost
  obtain ⟨-, -, hnew, hposts⟩ := h.sending τ m k (by rw [hpc]; rfl)
  have hposts := hposts.mpr (h.checking τ m k xTimeOut hpc)
  obtain rfl : t = s.sendReturns τ m false := by
    simp only [step, hpc, sendCheck_full_iff.mpr hexpired] at hstep
    exact (Option.some.inj hstep).symm
  have hposted : m ∈ (s.sendReturns τ m false).posted ∧
      (s.sendReturns τ m false).fetched = s.fetched := by
    unfold Mbox.sendReturns
    unfold Client.posts at hposts
    split
    · exact ⟨List.mem_append_right _ (List.mem_singleton_self m), rfl⟩
    · next hclient =>
      rw [hclient] at hposts
      cases hposts
    · exact ⟨List.mem_append_right _ (List.mem_singleton_self m), rfl⟩
    · exact ⟨List.mem_append_right _ (List.mem_singleton_self m), rfl⟩
    · next hclient =>
      rw [hclient] at hposts
      cases hposts
  have hin := hlost.posted m hposted.1
  rw [sendReturns_queue, hposted.2] at hin
  exact hnew (h.mem_enqueued.mpr hin)

theorem keeps_iff (h : MboxInv s) {a : Action Thread} (hstep : step s a = some t) :
    Keeps s t ↔ PostInTime s a := by
  constructor
  · rintro ⟨-, hlost⟩
    unfold PostInTime
    split
    · next τ =>
      split
      · next m k xTimeOut hpc =>
        by_contra hexpired
        rw [Bool.not_eq_false] at hexpired
        exact lost_of_expired h hpc hexpired hstep hlost
      · trivial
    · trivial
  · intro hintime
    exact ⟨step_refused hstep, (h.step hstep hintime).nothingLost⟩

/-- Over a run from an empty mailbox nothing is lost exactly when no block time of a post
expires. -/
theorem mailbox_keeps_iff (valid : Bool) (uxLength : Nat) (hpos : 0 < uxLength)
    (storage : Nat → Msg Thread) (memp : Nat) (as : List (Action Thread)) :
    EveryStep step (fun s _ t => Keeps s t) (init valid uxLength hpos storage memp) as ↔
      EveryStep step (fun s a _ => PostInTime s a) (init valid uxLength hpos storage memp) as := by
  refine everyStep_congr (I := MboxInv) (fun s a t h hstep => keeps_iff (a := a) h hstep) ?_ as
    (MboxInv.init valid uxLength hpos storage memp)
  intro s a t h hstep hkeeps
  exact h.step hstep ((keeps_iff h hstep).mp hkeeps)

theorem mailbox_keeps_iff_apimsg :
    EveryStep step (fun s _ t => Keeps s t)
        (init true 1 Nat.one_pos (fun _ => ⟨0, 0, .sysMboxPost⟩) 8 : Mbox (Fin 2))
        [.call 0 .tcpipApimsg, .sendTry 0, .fetch, .handle, .semTake 0] ↔
      EveryStep step (fun s a _ => PostInTime s a)
        (init true 1 Nat.one_pos (fun _ => ⟨0, 0, .sysMboxPost⟩) 8 : Mbox (Fin 2))
        [.call 0 .tcpipApimsg, .sendTry 0, .fetch, .handle, .semTake 0] :=
  mailbox_keeps_iff true 1 Nat.one_pos _ 8 _

/-- A full mailbox, and a fetching thread that is away for ten seconds: `tcpip_apimsg` waits
for the completion of a message that never came in. -/
theorem apimsg_never_enqueued :
    ∃ t, run step (init true 1 Nat.one_pos (fun _ => ⟨0, 0, .sysMboxPost⟩) 8 : Mbox (Fin 2))
      [.call 0 .sysMboxPost, .sendTry 0, .call 1 .tcpipApimsg, .sendTry 1, .sendCheck 1,
        .ticks 10000, .resume 1, .sendTry 1, .sendCheck 1] = some t ∧
      t.pc 1 = .opWait ⟨1, 1, .tcpipApimsg⟩ ∧ t.enqueued = [⟨0, 0, .sysMboxPost⟩] ∧
      ¬ NothingLost t := by
  have hruns : (run step (init true 1 Nat.one_pos (fun _ => ⟨0, 0, .sysMboxPost⟩) 8 : Mbox (Fin 2))
      [.call 0 .sysMboxPost, .sendTry 0, .call 1 .tcpipApimsg, .sendTry 1, .sendCheck 1,
        .ticks 10000, .resume 1, .sendTry 1, .sendCheck 1]).map (fun t => (t.pc 1, t.enqueued)) =
          some (.opWait ⟨1, 1, .tcpipApimsg⟩, [⟨0, 0, .sysMboxPost⟩]) := by
    decide +kernel
  obtain ⟨t, hrun, hfields⟩ := Option.map_eq_some_iff.mp hruns
  obtain ⟨hpc, henqueued⟩ := Prod.mk.inj hfields
  refine ⟨t, hrun, hpc, henqueued, fun hlost => ?_⟩
  have hin := List.mem_append.mpr (hlost.opWait 1 _ hpc).symm
  rw [hlost.order, henqueued] at hin
  exact absurd hin (by decide)

end Runs

end FreeLwip.SysArch.Mailbox
