import Mathlib.Algebra.BigOperators.Group.Finset.Basic
import Mathlib.Data.Fintype.Card
import FreeLwip.Driver.RxRing

/-!
# The receive buffers

Each pbuf of the pool is free, in a slot of the ring, in the hands of the input task, or the
stack's. Only the two exits of `ethernetif_input` that drop a pbuf without `pbuf_free` lose
one: the empty frame, and the refusal of `netif->input`.
-/

namespace FreeLwip.Driver

open Run

/-- `tcpip_input` has a message and a place in the mailbox. -/
def Tcpip.accepts (t : Tcpip) : Bool :=
  t.mboxValid && decide (t.freeMsgs ≠ 0) && decide (t.queued < t.mboxSize)

theorem Tcpip.tcpipInput_ok_iff (t : Tcpip) : t.tcpipInput.1 = .ok ↔ t.accepts = true := by
  unfold tcpipInput sysMboxTrypost accepts
  cases t.mboxValid with
  | false => simp
  | true =>
    by_cases hfree : t.freeMsgs = 0
    · simp [hfree]
    · by_cases hroom : t.queued < t.mboxSize <;> simp [hfree, hroom]

variable {P : Type*}

namespace Ethernetif

def inHand (d : Ethernetif P) : Option P :=
  match d.input with
  | .idle => none
  | .checked => none
  | .allocated p => some p
  | .exchanged p => some p
  | .received p => some p

/-- The pbuf that the input task has taken out of the ring. -/
def taken (d : Ethernetif P) : Option P :=
  match d.input with
  | .exchanged p => some p
  | .received p => some p
  | _ => none

/-- How many pbufs `o` has. -/
def count [Fintype P] (d : Ethernetif P) (o : Owner) : Nat :=
  (Finset.univ.filter fun p => d.owner p = o).card

theorem inHand_of_taken {d : Ethernetif P} {p : P} (h : d.taken = some p) :
    d.inHand = some p := by
  unfold taken at h
  unfold inHand
  cases hpc : d.input <;> rw [hpc] at h <;> first | exact h | cases h

theorem inHand_idle {d : Ethernetif P} (h : d.input = .idle) : d.inHand = none := by
  unfold inHand
  rw [h]

variable [DecidableEq P]

theorem deliver_owner (d : Ethernetif P) (p : P) :
    (d.deliver p).owner = Function.update d.owner p
      (if (d.pbuf p).forStack then (if d.tcpip.accepts then .stack else .lost) else .pool) := by
  unfold deliver
  simp only
  have hok := d.tcpip.tcpipInput_ok_iff
  split
  · split
    · next t heq =>
      rw [heq] at hok
      rw [if_pos (hok.mp rfl)]
      rfl
    · next err t hne heq =>
      rw [heq] at hok
      rw [if_neg (fun haccepts => hne (hok.mpr haccepts))]
      rfl
  · rfl

/-- What a step does to the pbufs, but for the last two of `ethernetif_input`. -/
inductive Moves (N : Nat) (d t : Ethernetif P) : Prop
  | stays (owner : t.owner = d.owner) (slots : t.lwipRxPbuf = d.lwipRxPbuf)
      (hand : t.inHand = d.inHand)
  | outside (p : P) (o : Owner) (before : d.owner p = .pool ∨ d.owner p = .stack)
      (after : o = .pool ∨ o = .stack) (owner : t.owner = Function.update d.owner p o)
      (slots : t.lwipRxPbuf = d.lwipRxPbuf) (hand : t.inHand = d.inHand)
  | takes (p : P) (pool : d.owner p = .pool) (owner : t.owner = Function.update d.owner p .input)
      (slots : t.lwipRxPbuf = d.lwipRxPbuf) (empty : d.inHand = none) (hand : t.inHand = some p)
  | exchanges (p : P) (pc : d.input = .allocated p) (eq : t = d.exchange N p)

theorem tseSgdmaRxIsr_stays (N : Nat) (d : Ethernetif P) :
    (d.tseSgdmaRxIsr N).owner = d.owner ∧ (d.tseSgdmaRxIsr N).lwipRxPbuf = d.lwipRxPbuf ∧
      (d.tseSgdmaRxIsr N).input = d.input := by
  unfold tseSgdmaRxIsr tseMacRcv
  simp only
  split
  · split <;> exact ⟨rfl, rfl, rfl⟩
  · exact ⟨rfl, rfl, rfl⟩

theorem step_moves {N : Nat} {d t : Ethernetif P} {a : Action P} (h : step N d a = some t)
    (hfinish : a ≠ .finish) (hdeliver : a ≠ .deliver) : Moves N d t := by
  cases steps_of_step h with
  | finish => exact absurd rfl hfinish
  | deliver => exact absurd rfl hdeliver
  | softwareReset | constructDesc | aRxRead | dmaWrite | dmaComplete | empty | stackWrite
  | others =>
    exact .stays rfl rfl rfl
  | rxIsr =>
    obtain ⟨howner, hslots, hinput⟩ := tseSgdmaRxIsr_stays N d
    exact .stays howner hslots (by simp only [inHand, hinput])
  | checked hidle => exact .stays rfl rfl (inHand_idle hidle).symm
  | allocFails hchecked => exact .stays rfl rfl (by simp only [inHand, hchecked])
  | @allocated p hchecked hpool =>
    exact .takes p hpool rfl rfl (by simp only [inHand, hchecked]) rfl
  | exchange hpc => exact .exchanges _ hpc rfl
  | stackAlloc hpool => exact .outside _ .stack (.inl hpool) (.inr rfl) rfl rfl rfl
  | pbufFree hstack => exact .outside _ .pool (.inr hstack) (.inl rfl) rfl rfl rfl

end Ethernetif

open Ethernetif

/-- No pbuf is lost; the ring's are in its slots, and the input task's is in its hands. -/
structure Kept (N : Nat) (d : Ethernetif P) : Prop where
  ringInv : RingInv N d
  slots : ∀ p, d.owner p = .ring → ∃ i < N, d.lwipRxPbuf i = p
  held : ∀ p, d.owner p = .input → d.inHand = some p
  lost : ∀ p, d.owner p ≠ .lost

namespace Kept

variable {N : Nat} {d : Ethernetif P}

theorem card (h : Kept N d) [Fintype P] (hidle : d.input = .idle) :
    d.count .pool + N + d.count .stack = Fintype.card P := by
  have hring : d.count .ring = N := by
    classical
    have himage : (Finset.univ.filter fun p => d.owner p = .ring) =
        (Finset.range N).image d.lwipRxPbuf := by
      ext p
      simp only [Finset.mem_filter, Finset.mem_univ, true_and, Finset.mem_image, Finset.mem_range]
      constructor
      · exact h.slots p
      · rintro ⟨i, hi, rfl⟩
        exact h.ringInv.ring i hi
    rw [count, himage, Finset.card_image_of_injOn, Finset.card_range]
    intro i hi j hj heq
    rw [Finset.mem_coe, Finset.mem_range] at hi hj
    exact h.ringInv.distinct i hi j hj heq
  have howner : ∀ p ∈ (Finset.univ : Finset P),
      d.owner p ∈ ({.pool, .ring, .stack} : Finset Owner) := by
    intro p _
    have hlost := h.lost p
    have hinput : d.owner p ≠ .input := by
      intro hp
      have := h.held p hp
      rw [inHand_idle hidle] at this
      cases this
    cases hp : d.owner p <;> simp_all
  have hsum := Finset.card_eq_sum_card_fiberwise howner
  rw [Finset.sum_insert (by decide), Finset.sum_insert (by decide), Finset.sum_singleton] at hsum
  rw [← hring, ← Finset.card_univ, hsum]
  unfold count
  omega

variable [DecidableEq P]

theorem release (h : Kept N d) {t : Ethernetif P} (ht : RingInv N t) {p : P} {o : Owner}
    (hp : d.inHand = some p) (ho : o = .pool ∨ o = .stack)
    (howner : t.owner = Function.update d.owner p o) (hslots : t.lwipRxPbuf = d.lwipRxPbuf) :
    Kept N t := by
  have hmoved : ∀ {q o'}, t.owner q = o' → o' ≠ .pool → o' ≠ .stack → q ≠ p ∧ d.owner q = o' := by
    intro q o' hq hpool hstack
    rw [howner] at hq
    have hne : q ≠ p := by
      rintro rfl
      rw [Function.update_self] at hq
      rcases ho with rfl | rfl
      · exact hpool hq.symm
      · exact hstack hq.symm
    rw [Function.update_of_ne hne] at hq
    exact ⟨hne, hq⟩
  refine ⟨ht, fun q hq => ?_, fun q hq => ?_, fun q hq => ?_⟩
  · rw [hslots]
    exact h.slots q (hmoved hq (by decide) (by decide)).2
  · obtain ⟨hne, hq'⟩ := hmoved hq (by decide) (by decide)
    have hhand := h.held q hq'
    rw [hp] at hhand
    exact absurd (Option.some.inj hhand).symm hne
  · exact h.lost q (hmoved hq (by decide) (by decide)).2

theorem moves (h : Kept N d) {t : Ethernetif P} (ht : RingInv N t) (hmoves : Moves N d t) :
    Kept N t := by
  suffices hrest : (∀ p, t.owner p = .ring → ∃ i < N, t.lwipRxPbuf i = p) ∧
      (∀ p, t.owner p = .input → t.inHand = some p) ∧ ∀ p, t.owner p ≠ .lost from
    ⟨ht, hrest.1, hrest.2.1, hrest.2.2⟩
  cases hmoves with
  | stays howner hslots hhand =>
    rw [howner, hslots, hhand]
    exact ⟨h.slots, h.held, h.lost⟩
  | outside p o hbefore hafter howner hslots hhand =>
    have hmoved : ∀ {q o'}, t.owner q = o' → o' ≠ .pool → o' ≠ .stack → d.owner q = o' := by
      intro q o' hq hpool hstack
      rw [howner] at hq
      by_cases hqp : q = p
      · subst hqp
        rw [Function.update_self] at hq
        rcases hafter with rfl | rfl
        · exact absurd hq.symm hpool
        · exact absurd hq.symm hstack
      · rwa [Function.update_of_ne hqp] at hq
    rw [hslots, hhand]
    refine ⟨fun q hq => ?_, fun q hq => ?_, fun q hq => ?_⟩
    · exact h.slots q (hmoved hq (by decide) (by decide))
    · exact h.held q (hmoved hq (by decide) (by decide))
    · exact h.lost q (hmoved hq (by decide) (by decide))
  | takes p hpool howner hslots hempty hhand =>
    rw [howner, hslots, hhand]
    refine ⟨fun q hq => ?_, fun q hq => ?_, fun q hq => ?_⟩
    · by_cases hqp : q = p
      · rw [hqp, Function.update_self] at hq
        cases hq
      · rw [Function.update_of_ne hqp] at hq
        exact h.slots q hq
    · by_cases hqp : q = p
      · rw [hqp]
      · rw [Function.update_of_ne hqp] at hq
        have := h.held q hq
        rw [hempty] at this
        cases this
    · by_cases hqp : q = p
      · rw [hqp, Function.update_self] at hq
        cases hq
      · rw [Function.update_of_ne hqp] at hq
        exact h.lost q hq
  | exchanges p hpc heq =>
    subst heq
    have hhand : d.inHand = some p := by
      unfold inHand
      rw [hpc]
    simp only [exchange, setOwner, setSlot]
    generalize hold : d.lwipRxPbuf d.lwipRxIndex = old
    have hkeep : ∀ q, q ≠ old → q ≠ p →
        Function.update (Function.update d.owner p .ring) old .input q = d.owner q := by
      intro q hqold hqp
      rw [Function.update_of_ne hqold, Function.update_of_ne hqp]
    refine ⟨fun q hq => ?_, fun q hq => ?_, fun q hq => ?_⟩
    · have hqold : q ≠ old := by
        rintro rfl
        rw [Function.update_self] at hq
        cases hq
      by_cases hqp : q = p
      · exact ⟨d.lwipRxIndex, h.ringInv.index, by rw [hqp, Function.update_self]⟩
      · rw [hkeep q hqold hqp] at hq
        obtain ⟨i, hi, hiq⟩ := h.slots q hq
        refine ⟨i, hi, ?_⟩
        rw [Function.update_of_ne ?_]
        · exact hiq
        · rintro rfl
          exact hqold (hiq.symm.trans hold)
    · by_cases hqold : q = old
      · rw [hqold]
        rfl
      · by_cases hqp : q = p
        · rw [hqp, Function.update_of_ne (hqp ▸ hqold), Function.update_self] at hq
          cases hq
        · rw [hkeep q hqold hqp] at hq
          have := h.held q hq
          rw [hhand] at this
          exact absurd (Option.some.inj this).symm hqp
    · by_cases hqold : q = old
      · rw [hqold, Function.update_self] at hq
        cases hq
      · by_cases hqp : q = p
        · rw [hqp, Function.update_of_ne (hqp ▸ hqold), Function.update_self] at hq
          cases hq
        · rw [hkeep q hqold hqp] at hq
          exact h.lost q hq

theorem finish (h : Kept N d) {p : P} (hpc : d.input = .exchanged p)
    (hlen : (d.pbuf p).len ≠ 0) : Kept N (d.finish p) := by
  have ht := h.ringInv.finish hpc
  have hstays : Moves N d (d.finish p) := by
    unfold Ethernetif.finish
    rw [if_neg hlen]
    exact .stays rfl rfl (by simp only [inHand, hpc])
  exact h.moves ht hstays

theorem deliver (h : Kept N d) {p : P} (hpc : d.input = .received p)
    (haccepts : (d.pbuf p).forStack = true → d.tcpip.accepts = true) :
    Kept N (d.deliver p) := by
  have hhand : d.inHand = some p := by
    unfold inHand
    rw [hpc]
  have hslots : (d.deliver p).lwipRxPbuf = d.lwipRxPbuf := by
    unfold Ethernetif.deliver
    simp only
    split
    · split <;> rfl
    · rfl
  refine h.release (h.ringInv.deliver hpc) hhand ?_ (d.deliver_owner p) hslots
  split
  · next hstack =>
    rw [if_pos (haccepts hstack)]
    exact .inr rfl
  · exact .inl rfl

end Kept

theorem kept_ethernetifInit [DecidableEq P] {N : Nat} (hN : 0 < N) {slots : Nat → P}
    {pbuf : P → Pbuf} {inUse : P → Bool} {tcpip : Tcpip} {bufs : List P} {d : Ethernetif P}
    (hinit : (boot slots pbuf inUse tcpip).ethernetifInit N bufs = some d) : Kept N d := by
  obtain ⟨hfilled, -⟩ := ethernetifInit_filled hinit
  have houtside : ∀ p, d.owner p = .ring ∨ d.owner p = .pool ∨ d.owner p = .stack :=
    fun p => or_iff_not_imp_left.mpr (hfilled.outside p)
  refine ⟨ringInv_ethernetifInit hN hinit, hfilled.slots, fun p hp => ?_, fun p hp => ?_⟩
  · simpa [hp] using houtside p
  · simpa [hp] using houtside p

/-! ## `ethernetif_input` -/

variable [DecidableEq P]

/-- The frame in the hands of the input task is not empty, and if it is for the stack
`tcpip_input` has room for it. -/
def FrameAccepted (d : Ethernetif P) (a : Action P) : Prop :=
  match a, d.input with
  | .finish, .exchanged p => (d.pbuf p).len ≠ 0
  | .deliver, .received p => (d.pbuf p).forStack = true → d.tcpip.accepts = true
  | _, _ => True

/-- When `ethernetif_input` has returned, the pbuf that it took out of the ring is the stack's
or free again, and all pbufs are accounted for. -/
def BuffersKept [Fintype P] (N : Nat) (d : Ethernetif P) (t : Ethernetif P) : Prop :=
  t.input = .idle →
    (∀ p, d.taken = some p → t.owner p = .stack ∨ t.owner p = .pool) ∧
      t.count .pool + N + t.count .stack = Fintype.card P

section Steps

variable {N : Nat} {d t : Ethernetif P} {a : Action P}

theorem kept_step (h : Kept N d) (hstep : step N d a = some t) (haccepted : FrameAccepted d a) :
    Kept N t := by
  by_cases hfinish : a = .finish
  · subst hfinish
    cases steps_of_step hstep with
    | finish hpc =>
      unfold FrameAccepted at haccepted
      rw [hpc] at haccepted
      exact h.finish hpc haccepted
  · by_cases hdeliver : a = .deliver
    · subst hdeliver
      cases steps_of_step hstep with
      | deliver hpc =>
        unfold FrameAccepted at haccepted
        rw [hpc] at haccepted
        exact h.deliver hpc haccepted
    · exact h.moves (h.ringInv.step hstep) (step_moves hstep hfinish hdeliver)

theorem Ethernetif.Moves.not_idle (hmoves : Moves N d t) {p : P} (hp : d.taken = some p) :
    t.input ≠ .idle := by
  intro hidle
  have hhand := inHand_of_taken hp
  have hnone := inHand_idle hidle
  cases hmoves with
  | stays _ _ hsame =>
    rw [← hsame, hnone] at hhand
    cases hhand
  | outside _ _ _ _ _ _ hsame =>
    rw [← hsame, hnone] at hhand
    cases hhand
  | takes _ _ _ _ hempty =>
    rw [hempty] at hhand
    cases hhand
  | exchanges q hpc =>
    unfold taken at hp
    rw [hpc] at hp
    cases hp

theorem buffersKept_iff [Fintype P] (h : Kept N d) (hstep : step N d a = some t) :
    BuffersKept N d t ↔ FrameAccepted d a := by
  constructor
  · intro hkept
    unfold FrameAccepted
    split
    · next p hpc =>
      intro hlen
      simp only [step, hpc] at hstep
      cases hstep
      have hdropped := (hkept (by simp only [finish, if_pos hlen])).1 p (by simp only [taken, hpc])
      simp only [finish, if_pos hlen, setOwner, Function.update_self] at hdropped
      rcases hdropped with hdropped | hdropped <;> cases hdropped
    · next p hpc =>
      intro hstack
      simp only [step, hpc] at hstep
      cases hstep
      have hdropped := (hkept rfl).1 p (by simp only [taken, hpc])
      rw [deliver_owner, Function.update_self, if_pos hstack] at hdropped
      by_contra hrefused
      rw [if_neg hrefused] at hdropped
      rcases hdropped with hdropped | hdropped <;> cases hdropped
    · trivial
  · intro haccepted hidle
    refine ⟨fun p hp => ?_, (kept_step h hstep haccepted).card hidle⟩
    by_cases hfinish : a = .finish
    · subst hfinish
      cases steps_of_step hstep with
      | finish hpc =>
        unfold FrameAccepted at haccepted
        rw [hpc] at haccepted
        simp only [finish, if_neg haccepted] at hidle
        cases hidle
    · by_cases hdeliver : a = .deliver
      · subst hdeliver
        cases steps_of_step hstep with
        | deliver hpc =>
          unfold FrameAccepted at haccepted
          rw [hpc] at haccepted
          simp only [taken, hpc] at hp
          cases hp
          rw [deliver_owner, Function.update_self]
          split
          · next hstack =>
            rw [if_pos (haccepted hstack)]
            exact .inl rfl
          · exact .inr rfl
      · exact absurd hidle ((step_moves hstep hfinish hdeliver).not_idle hp)

end Steps

/-! ## Every run -/

/-- Over a run from `ethernetif_init` no pbuf is lost at the return of `ethernetif_input`, and
the free pbufs, the slots and the stack's pbufs add up, exactly when every frame that the
input task takes is accepted. -/
theorem rxBuffers_kept_iff [Fintype P] {N : Nat} (hN : 0 < N) (slots : Nat → P)
    (pbuf : P → Pbuf) (inUse : P → Bool) (tcpip : Tcpip) (bufs : List P) (d₀ : Ethernetif P)
    (as : List (Action P))
    (hinit : (boot slots pbuf inUse tcpip).ethernetifInit N bufs = some d₀) :
    EveryStep (step N) (fun d _ t => BuffersKept N d t) d₀ as ↔
      EveryStep (step N) (fun d a _ => FrameAccepted d a) d₀ as := by
  have h₀ := kept_ethernetifInit hN hinit
  refine everyStep_congr (I := Kept N) (fun d a t h hstep => buffersKept_iff h hstep) ?_ as h₀
  intro d a t h hstep hkept
  exact kept_step h hstep ((buffersKept_iff h hstep).mp hkept)

/-- After `ethernetif_init`, when `queued` of the 32 messages wait for the tcpip thread, each
with a pbuf of the pool of 64. -/
def started (queued : Nat) : Option (Ethernetif (Fin 64)) :=
  (boot (fun _ => 0) (fun _ => { len := 0, totLen := 0, payload := fun _ => 0 })
    (fun p => decide (64 - queued ≤ p.val))
    { mboxValid := true, freeMsgs := 32 - queued, queued := queued, mboxSize := 4096
      }).ethernetifInit lwipRxEthBuffer ((List.finRange 64).take lwipRxEthBuffer)

/-- An ARP frame comes in, and the input task takes it up to the call of `netif->input`. -/
def arpFrameComesIn : List (Action (Fin 64)) :=
  let frame : RxFrame :=
    { bytes := List.replicate 14 0xff ++ [0x08, 0x06], status := 0, fits := by decide }
  [.constructDesc, .aRxRead, .dmaComplete frame, .rxIsr, .checkCount, .pbufAlloc (some 12),
    .exchange, .finish]

theorem rxBuffers_kept_iff_arp :
    ∃ d₀, started 0 = some d₀ ∧
      (EveryStep (step lwipRxEthBuffer) (fun d _ t => BuffersKept lwipRxEthBuffer d t) d₀
          (arpFrameComesIn ++ [.deliver]) ↔
        EveryStep (step lwipRxEthBuffer) (fun d a _ => FrameAccepted d a) d₀
          (arpFrameComesIn ++ [.deliver])) := by
  have hstarted : (started 0).isSome = true := by decide +kernel
  obtain ⟨d₀, hinit⟩ := Option.isSome_iff_exists.mp hstarted
  exact ⟨d₀, hinit, rxBuffers_kept_iff (by decide) _ _ _ _ _ _ _ hinit⟩

/-- No message is free: `ethernetif_input` returns, and the pbuf of the frame is nobody's. -/
theorem rxBuffer_lost_no_message :
    ∃ d₀ d t, started 32 = some d₀ ∧ run (step lwipRxEthBuffer) d₀ arpFrameComesIn = some d ∧
      step lwipRxEthBuffer d .deliver = some t ∧ ¬ BuffersKept lwipRxEthBuffer d t ∧
      t.count .pool + lwipRxEthBuffer + t.count .stack = 63 := by
  have hruns : ((started 32).bind fun d₀ => (run (step lwipRxEthBuffer) d₀ arpFrameComesIn).bind
      fun d => (step lwipRxEthBuffer d .deliver).map fun t =>
        (d.taken, t.input, t.owner 0, t.count .pool + lwipRxEthBuffer + t.count .stack)) =
          some (some 0, .idle, .lost, 63) := by
    decide +kernel
  obtain ⟨d₀, hinit, hruns⟩ := Option.bind_eq_some_iff.mp hruns
  obtain ⟨d, hrun, hruns⟩ := Option.bind_eq_some_iff.mp hruns
  obtain ⟨t, hstep, hfields⟩ := Option.map_eq_some_iff.mp hruns
  simp only [Prod.mk.injEq] at hfields
  obtain ⟨htaken, hidle, howner, hcount⟩ := hfields
  refine ⟨d₀, d, t, hinit, hrun, hstep, fun hkept => ?_, hcount⟩
  have hdropped := (hkept hidle).1 0 htaken
  rw [howner] at hdropped
  rcases hdropped with hdropped | hdropped <;> cases hdropped

end FreeLwip.Driver
