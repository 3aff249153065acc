import FreeLwip.Lib.Run
import Mathlib.Data.BitVec

/-!
# The link state (`lwip_main.c`, `altera_tse_ethernetif.c`, `lwip_tse_mac.c`, `netif.c`)

`current_state`, `link_alive` and the flag of the netif, from `ethernetif_init` on: what
`lwip_check_link_status` makes of them for each status that the PHY reports.
-/

namespace FreeLwip.Driver.Link

open Run

def ethInterfaceUp : Int := 1
def ethInterfaceDown : Int := 0

def maxRetryCount : Nat := 3

def regStatsLs : BitVec 16 := 1 <<< 2

structure Ethif where
  linkAlive : Int
  currentState : Int
  deriving DecidableEq, Repr

/-- What `netif_set_link_up` and `netif_set_link_down` call. -/
inductive Call
  | dhcpNetworkChanged | etharpGratuitous | linkCallback
  deriving DecidableEq, Repr

/-- The flags of the netif, and whether `dhcp` and `link_callback` are set. -/
structure Netif where
  linkUp : Bool
  up : Bool
  etharp : Bool
  dhcp : Bool
  linkCallback : Bool
  -- The history: the calls, and how often the link was set up with an effect.
  calls : List Call
  linkUps : Nat
  deriving DecidableEq, Repr

namespace Netif

/-- What is called when the link is set up with an effect. -/
def linkUpCalls (n : Netif) : List Call :=
  (if n.dhcp then [.dhcpNetworkChanged] else []) ++
    (if n.up && n.etharp then [.etharpGratuitous] else []) ++
    (if n.linkCallback then [.linkCallback] else [])

def netifSetLinkUp (n : Netif) : Netif :=
  if n.linkUp then
    n
  else
    { n with linkUp := true, calls := n.calls ++ n.linkUpCalls, linkUps := n.linkUps + 1 }

def netifSetLinkDown (n : Netif) : Netif :=
  if n.linkUp then
    { n with
      linkUp := false
      calls := n.calls ++ if n.linkCallback then [.linkCallback] else [] }
  else
    n

end Netif

@[simp] theorem Netif.setLinkUp_linkUp (n : Netif) : n.netifSetLinkUp.linkUp = true := by
  unfold netifSetLinkUp
  split
  · assumption
  · rfl

@[simp] theorem Netif.setLinkDown_linkUp (n : Netif) : n.netifSetLinkDown.linkUp = false := by
  unfold netifSetLinkDown
  split
  · rfl
  · next h => simpa using h

/-- Between the two, `netif_set_link_up` had no effect. -/
def Netif.NotLinked (n n' : Netif) : Prop := n'.linkUps = n.linkUps ∧ n'.calls = n.calls

/-- Between the two, `netif_set_link_up` had an effect once, and made the calls that the flags of
the netif asked for at that time. -/
def Netif.LinkedOnce (n n' : Netif) : Prop :=
  n'.linkUps = n.linkUps + 1 ∧ ∃ flags : Netif, n'.calls = n.calls ++ flags.linkUpCalls

theorem Netif.NotLinked.setLinkUp {n n' : Netif} (h : n.NotLinked n') (hclear : n'.linkUp = false) :
    n.LinkedOnce n'.netifSetLinkUp := by
  unfold netifSetLinkUp
  rw [if_neg (by simp [hclear])]
  exact ⟨by rw [h.1], n', by rw [h.2]⟩

structure LinkState where
  ethif : Ethif
  netif : Netif
  -- The history: has `lwip_check_link_status` run, and the netif when it last saw no link.
  checked : Bool
  atDown : Option Netif
  deriving DecidableEq, Repr

/-- A call of `tse_mac_init`: it returns an error before it comes to the PHY, or it finds the
auto-negotiation complete, or not. -/
abbrev MacInit := Option Bool

def tseMacInit (e : Ethif) : MacInit → Ethif
  | none => e
  | some complete => { e with linkAlive := if complete then 1 else 0 }

/-- The loop of `lwip_wait_for_an`; the calls of `tse_mac_init` go by the count of retries. -/
def waitLoop (inits : Nat → MacInit) : Nat → Ethif → Nat × Ethif
  | 0, e => (0, e)
  | retryCount + 1, e =>
    if e.linkAlive ≠ 1 then
      if retryCount ≠ 0 then waitLoop inits retryCount (tseMacInit e (inits retryCount)) else (0, e)
    else
      (retryCount + 1, e)

def lwipWaitForAn (e : Ethif) (inits : Nat → MacInit) : Nat × Ethif :=
  waitLoop inits maxRetryCount e

def lwipIsInterfaceUp (reg : BitVec 16) : Int :=
  if reg &&& regStatsLs = regStatsLs then ethInterfaceUp else ethInterfaceDown

def lwipCheckLinkStatus (s : LinkState) (reg : BitVec 16) (inits : Nat → MacInit) : LinkState :=
  let curStatus := lwipIsInterfaceUp reg
  if curStatus ≠ s.ethif.currentState then
    if curStatus = ethInterfaceUp then
      let an := lwipWaitForAn s.ethif inits
      if an.1 > 0 then
        { s with
          ethif := { an.2 with currentState := curStatus }
          netif := s.netif.netifSetLinkUp }
      else
        { s with ethif := an.2 }
    else
      { s with
        ethif := { linkAlive := 0, currentState := curStatus }
        netif := s.netif.netifSetLinkDown }
  else
    s

/-- `ethernetif_init`: the structure is uninitialised memory, `low_level_init` sets the flags and
calls `tse_mac_init`. -/
def ethernetifInit (mem : Ethif) (init : MacInit) (netif : Netif) : LinkState where
  ethif := tseMacInit mem init
  netif := { netif with linkUp := true, up := false, etharp := true }
  checked := false
  atDown := none

/-! ## Runs -/

inductive Event
  | check (reg : BitVec 16) (inits : Nat → MacInit)
  /-- `lwip_wait_for_an` in `lwip_handle_interfaces`. -/
  | waitForAn (inits : Nat → MacInit)
  /-- Other tasks set the netif up or down, start DHCP, or set the callback. -/
  | others (up dhcp linkCallback : Bool)

def step (s : LinkState) : Event → Option LinkState
  | .check reg inits =>
    let t := lwipCheckLinkStatus s reg inits
    some { t with
      checked := true
      atDown := if lwipIsInterfaceUp reg = ethInterfaceDown then some t.netif else t.atDown }
  | .waitForAn inits => some { s with ethif := (lwipWaitForAn s.ethif inits).2 }
  | .others up dhcp linkCallback =>
    some { s with netif := { s.netif with up := up, dhcp := dhcp, linkCallback := linkCallback } }

/-- The link has come up, and the auto-negotiation of this check has failed. -/
def anFailed (s : LinkState) (reg : BitVec 16) (inits : Nat → MacInit) : Prop :=
  lwipIsInterfaceUp reg = ethInterfaceUp ∧ s.ethif.currentState ≠ ethInterfaceUp ∧
    (lwipWaitForAn s.ethif inits).1 = 0

/-- Since the last check without a link, `netif_set_link_up` has had an effect once, if the
negotiation was successful since then, or not at all. -/
def LinkedSince (s : LinkState) : Prop :=
  ∀ n ∈ s.atDown,
    if s.ethif.currentState = ethInterfaceUp then n.LinkedOnce s.netif else n.NotLinked s.netif

/-- The three agree, and the link was set up once. -/
structure Agrees (s : LinkState) (reg : BitVec 16) (inits : Nat → MacInit) (t : LinkState) :
    Prop where
  flag : t.netif.linkUp = true ↔ t.ethif.currentState = ethInterfaceUp
  alive : t.ethif.currentState = ethInterfaceUp → t.ethif.linkAlive = 1
  observed : t.ethif.currentState = lwipIsInterfaceUp reg ∨ anFailed s reg inits
  once : LinkedSince t

def CheckAgrees (s : LinkState) (ev : Event) (t : LinkState) : Prop :=
  match ev with
  | .check reg inits => Agrees s reg inits t
  | _ => True

/-- One of the calls of `tse_mac_init` finds the auto-negotiation complete, or it was already. -/
def Negotiates (e : Ethif) (inits : Nat → MacInit) : Prop :=
  e.linkAlive = 1 ∨ inits 2 = some true ∨ inits 1 = some true

/-- What the memory of the structure has to be like for the first check. -/
def FirstCheckOk (s : LinkState) : Event → Prop
  | .check reg inits =>
    s.checked = false →
      if lwipIsInterfaceUp reg = ethInterfaceUp then
        if s.ethif.currentState = ethInterfaceUp then s.ethif.linkAlive = 1
        else Negotiates s.ethif inits
      else
        s.ethif.currentState ≠ ethInterfaceDown
  | _ => True

section Lemmas

variable {e : Ethif} {inits : Nat → MacInit} {s t : LinkState} {reg : BitVec 16}

/-! ### `lwip_wait_for_an` -/

@[simp] theorem tseMacInit_currentState (e : Ethif) (init : MacInit) :
    (tseMacInit e init).currentState = e.currentState := by
  cases init <;> rfl

theorem waitLoop_currentState (inits : Nat → MacInit) (n : Nat) :
    (waitLoop inits n e).2.currentState = e.currentState := by
  induction n generalizing e with
  | zero => rfl
  | succ n ih =>
    unfold waitLoop
    split
    · split
      · rw [ih, tseMacInit_currentState]
      · rfl
    · rfl

theorem waitLoop_pos (n : Nat) (h : 0 < (waitLoop inits n e).1) :
    (waitLoop inits n e).2.linkAlive = 1 := by
  induction n generalizing e with
  | zero => cases h
  | succ n ih =>
    unfold waitLoop at h ⊢
    split
    · next hdead =>
      rw [if_pos hdead] at h
      split
      · next hretry =>
        rw [if_pos hretry] at h
        exact ih h
      · next hretry =>
        rw [if_neg hretry] at h
        cases h
    · next halive => exact not_not.mp halive

theorem waitForAn_pos_iff : 0 < (lwipWaitForAn e inits).1 ↔ Negotiates e inits := by
  unfold lwipWaitForAn maxRetryCount Negotiates
  by_cases halive : e.linkAlive = 1
  · simp [waitLoop, halive]
  · rcases hfirst : inits 2 with _ | _ | _ <;> rcases hsecond : inits 1 with _ | _ | _ <;>
      simp [waitLoop, halive, tseMacInit, hfirst, hsecond]

theorem waitForAn_alive (h : e.linkAlive = 1) : (lwipWaitForAn e inits).2 = e := by
  simp [lwipWaitForAn, maxRetryCount, waitLoop, h]

theorem isInterfaceUp_cases (reg : BitVec 16) :
    lwipIsInterfaceUp reg = ethInterfaceUp ∨ lwipIsInterfaceUp reg = ethInterfaceDown := by
  unfold lwipIsInterfaceUp
  split
  · exact .inl rfl
  · exact .inr rfl

/-! ### The branches of `lwip_check_link_status` -/

theorem check_same (h : lwipIsInterfaceUp reg = s.ethif.currentState) :
    lwipCheckLinkStatus s reg inits = s := by
  simp [lwipCheckLinkStatus, h]

theorem check_down (hdown : lwipIsInterfaceUp reg = ethInterfaceDown)
    (h : s.ethif.currentState ≠ ethInterfaceDown) :
    lwipCheckLinkStatus s reg inits =
      { s with
        ethif := { linkAlive := 0, currentState := ethInterfaceDown }
        netif := s.netif.netifSetLinkDown } := by
  unfold lwipCheckLinkStatus
  simp only [hdown]
  rw [if_pos (Ne.symm h), if_neg (by decide)]

theorem check_up (hup : lwipIsInterfaceUp reg = ethInterfaceUp)
    (h : s.ethif.currentState ≠ ethInterfaceUp) (han : 0 < (lwipWaitForAn s.ethif inits).1) :
    lwipCheckLinkStatus s reg inits =
      { s with
        ethif := { linkAlive := 1, currentState := ethInterfaceUp }
        netif := s.netif.netifSetLinkUp } := by
  have halive : (lwipWaitForAn s.ethif inits).2.linkAlive = 1 := waitLoop_pos _ han
  unfold lwipCheckLinkStatus
  simp only [hup]
  rw [if_pos (Ne.symm h), if_pos trivial, if_pos han, halive]

theorem check_up_fails (hup : lwipIsInterfaceUp reg = ethInterfaceUp)
    (h : s.ethif.currentState ≠ ethInterfaceUp) (han : ¬ 0 < (lwipWaitForAn s.ethif inits).1) :
    lwipCheckLinkStatus s reg inits = { s with ethif := (lwipWaitForAn s.ethif inits).2 } := by
  unfold lwipCheckLinkStatus
  simp only [hup]
  rw [if_pos (Ne.symm h), if_pos trivial, if_neg han]

end Lemmas

/-- Before the first check the flag is set; after it the three agree. -/
structure LinkInv (s : LinkState) : Prop where
  before : s.checked = false → s.netif.linkUp = true ∧ s.atDown = none
  flag : s.checked = true → (s.netif.linkUp = true ↔ s.ethif.currentState = ethInterfaceUp)
  alive : s.checked = true → s.ethif.currentState = ethInterfaceUp → s.ethif.linkAlive = 1
  known : s.checked = true →
    s.ethif.currentState = ethInterfaceUp ∨ s.ethif.currentState = ethInterfaceDown
  once : s.checked = true → LinkedSince s

section Invariant

variable {s t : LinkState} {reg : BitVec 16} {inits : Nat → MacInit} {ev : Event}

theorem LinkInv.ethernetifInit (mem : Ethif) (init : MacInit) (netif : Netif) :
    LinkInv (ethernetifInit mem init netif) :=
  ⟨fun _ => ⟨rfl, rfl⟩, nofun, nofun, nofun, nofun⟩

theorem linkedSince_checked (hdown : lwipIsInterfaceUp reg = ethInterfaceDown)
    (hstate : t.ethif.currentState = ethInterfaceDown) :
    LinkedSince { t with
      checked := true
      atDown := if lwipIsInterfaceUp reg = ethInterfaceDown then some t.netif else t.atDown } := by
  intro n hn
  simp only [hdown, if_true, Option.mem_def, Option.some.injEq] at hn
  rw [← hn]
  dsimp only
  rw [hstate, if_neg (by decide)]
  exact ⟨rfl, rfl⟩

theorem agrees_first_iff (h : LinkInv s) (hfirst : s.checked = false)
    (hstep : step s (.check reg inits) = some t) :
    Agrees s reg inits t ↔ FirstCheckOk s (.check reg inits) := by
  obtain ⟨hflag, hups⟩ := h.before hfirst
  cases hstep
  simp only [FirstCheckOk, hfirst, forall_const]
  rcases isInterfaceUp_cases reg with hup | hdown
  · rw [if_pos hup]
    by_cases hstate : s.ethif.currentState = ethInterfaceUp
    · rw [if_pos hstate, check_same (hup.trans hstate.symm)]
      constructor
      · exact fun hagrees => hagrees.alive hstate
      · intro halive
        refine ⟨?_, fun _ => halive, .inl (hstate.trans hup.symm), fun n hn => ?_⟩
        · simp [hflag, hstate]
        · simp [hups, hup, ethInterfaceUp, ethInterfaceDown] at hn
    · rw [if_neg hstate, ← waitForAn_pos_iff]
      by_cases han : 0 < (lwipWaitForAn s.ethif inits).1
      · rw [check_up hup hstate han]
        refine iff_of_true ⟨?_, fun _ => rfl, .inl hup.symm, fun n hn => ?_⟩ han
        · simp
        · simp [hups, hup, ethInterfaceUp, ethInterfaceDown] at hn
      · rw [check_up_fails hup hstate han]
        refine iff_of_false (fun hagrees => hstate ?_) han
        rw [← waitLoop_currentState inits maxRetryCount]
        exact hagrees.flag.mp hflag
  · have hne : lwipIsInterfaceUp reg ≠ ethInterfaceUp := by
      rw [hdown]
      decide
    rw [if_neg hne]
    by_cases hstate : s.ethif.currentState = ethInterfaceDown
    · rw [check_same (hdown.trans hstate.symm)]
      refine iff_of_false (fun hagrees => hne ?_) (not_not.mpr hstate)
      rw [hdown, ← hstate]
      exact hagrees.flag.mp hflag
    · rw [check_down hdown hstate]
      refine iff_of_true ⟨?_, nofun, .inl hdown.symm, linkedSince_checked hdown rfl⟩ hstate
      simp [ethInterfaceUp, ethInterfaceDown]

theorem agrees_later (h : LinkInv s) (hlater : s.checked = true)
    (hstep : step s (.check reg inits) = some t) : Agrees s reg inits t := by
  have hflag := h.flag hlater
  have honce := h.once hlater
  cases hstep
  rcases isInterfaceUp_cases reg with hup | hdown
  · have hne : lwipIsInterfaceUp reg ≠ ethInterfaceDown := by
      rw [hup]
      decide
    by_cases hstate : s.ethif.currentState = ethInterfaceUp
    · rw [check_same (hup.trans hstate.symm)]
      refine ⟨hflag, h.alive hlater, .inl (hstate.trans hup.symm), fun n hn => ?_⟩
      rw [if_neg hne] at hn
      exact honce n hn
    · by_cases han : 0 < (lwipWaitForAn s.ethif inits).1
      · rw [check_up hup hstate han]
        refine ⟨by simp, fun _ => rfl, .inl hup.symm, fun n hn => ?_⟩
        rw [if_neg hne] at hn
        have hclear : s.netif.linkUp = false := by
          simpa using fun hset => hstate (hflag.mp hset)
        have hbefore := honce n hn
        rw [if_neg hstate] at hbefore
        exact hbefore.setLinkUp hclear
      · have hsame := waitLoop_currentState (e := s.ethif) inits maxRetryCount
        rw [check_up_fails hup hstate han]
        refine ⟨?_, fun hstate' => ?_, .inr ⟨hup, hstate, Nat.eq_zero_of_not_pos han⟩,
          fun n hn => ?_⟩
        · simpa only [lwipWaitForAn, hsame] using hflag
        · exact absurd (hsame.symm.trans hstate') hstate
        · rw [if_neg hne] at hn
          have hbefore := honce n hn
          rw [← hsame] at hbefore
          exact hbefore
  · by_cases hstate : s.ethif.currentState = ethInterfaceDown
    · rw [check_same (hdown.trans hstate.symm)]
      exact ⟨hflag, h.alive hlater, .inl (hstate.trans hdown.symm),
        linkedSince_checked hdown hstate⟩
    · rw [check_down hdown hstate]
      refine ⟨?_, nofun, .inl hdown.symm, linkedSince_checked hdown rfl⟩
      simp [ethInterfaceUp, ethInterfaceDown]

theorem known_of_agrees (h : LinkInv s) (hstep : step s (.check reg inits) = some t)
    (hagrees : Agrees s reg inits t) :
    t.ethif.currentState = ethInterfaceUp ∨ t.ethif.currentState = ethInterfaceDown := by
  rcases hagrees.observed with hobserved | ⟨hup, hstate, hfails⟩
  · rw [hobserved]
    exact isInterfaceUp_cases reg
  · have hsame := waitLoop_currentState (e := s.ethif) inits maxRetryCount
    cases hstep
    rw [check_up_fails hup hstate (by omega)] at hagrees ⊢
    cases hchecked : s.checked with
    | false => exact .inl (hagrees.flag.mp (h.before hchecked).1)
    | true =>
      have hknown := h.known hchecked
      rw [← hsame] at hknown
      exact hknown

theorem LinkInv.step (h : LinkInv s) (hstep : step s ev = some t) (hok : CheckAgrees s ev t) :
    LinkInv t := by
  cases ev with
  | check reg inits =>
    have hagrees : Agrees s reg inits t := hok
    have hknown := known_of_agrees h hstep hagrees
    cases hstep
    exact ⟨nofun, fun _ => hagrees.flag, fun _ => hagrees.alive, fun _ => hknown,
      fun _ => hagrees.once⟩
  | waitForAn inits =>
    cases hstep
    have hsame := waitLoop_currentState (e := s.ethif) inits maxRetryCount
    have hstate : (lwipWaitForAn s.ethif inits).2.currentState = s.ethif.currentState := hsame
    refine ⟨h.before, ?_, fun hchecked hup => ?_, ?_, ?_⟩
    · simpa only [hstate] using h.flag
    · rw [hstate] at hup
      have halive := h.alive hchecked hup
      simp only [waitForAn_alive halive, halive]
    · simpa only [hstate] using h.known
    · simpa only [LinkedSince, hstate] using h.once
  | others up dhcp linkCallback =>
    cases hstep
    exact ⟨h.before, h.flag, h.alive, h.known, h.once⟩

end Invariant

/-- The flag, `current_state` and `link_alive` agree after every check, if and only if they do so
after the first one, which the contents of the fresh memory decide: a first check without a link
must not find `current_state` down there, and a first check with one must find it up and the link
alive, or negotiate successfully. -/
theorem link_state_agrees_iff (mem : Ethif) (init : MacInit) (netif : Netif) (evs : List Event) :
    EveryStep step CheckAgrees (ethernetifInit mem init netif) evs ↔
      EveryStep step (fun s ev _ => FirstCheckOk s ev) (ethernetifInit mem init netif) evs := by
  refine everyStep_congr (I := LinkInv) (fun s ev t hs hstep => ?_)
    (fun s ev t hs hstep hok => hs.step hstep hok) evs (LinkInv.ethernetifInit mem init netif)
  cases ev with
  | check reg inits =>
    cases hchecked : s.checked with
    | false => exact agrees_first_iff hs hchecked hstep
    | true =>
      refine iff_of_true (agrees_later hs hchecked hstep) fun hfirst => ?_
      rw [hchecked] at hfirst
      cases hfirst
  | _ => exact Iff.rfl

/-- The memory is zero, and the cable is not plugged in: the netif keeps the flag that
`low_level_init` has set. -/
theorem boot_without_cable :
    ¬ ∀ (mem : Ethif) (init : MacInit) (netif : Netif) (evs : List Event),
      EveryStep step CheckAgrees (ethernetifInit mem init netif) evs := by
  intro hclaim
  let netif : Netif :=
    { linkUp := false, up := false, etharp := false, dhcp := false, linkCallback := false
      calls := [], linkUps := 0 }
  have hagrees : Agrees _ 0 (fun _ => none) _ :=
    (hclaim ⟨0, 0⟩ (some false) netif [.check 0 fun _ => none] _ rfl).1
  have hup := hagrees.flag.mp rfl
  cases hup

end FreeLwip.Driver.Link
