import FreeLwip.Lib.Run
import FreeLwip.Driver.Ethernetif

/-!
# The receive ring

The window of slots from `lwipRxIndex` on holds the frames that the input task has not
taken out yet; the armed buffer is the slot behind it.
-/

namespace FreeLwip.Driver

open Run RingIndex

variable {P : Type*}

namespace Ethernetif

/-- The frame that the input task has in its hands and has not returned. -/
def handFrames (d : Ethernetif P) : List (List Byte) :=
  match d.input with
  | .exchanged p => [(d.pbuf p).frame]
  | _ => []

section Ring

variable (N : Nat) (d : Ethernetif P)

/-- The slots with frames in them. -/
def waiting : List Nat := window N d.lwipRxIndex d.lwipRxCount.toNat

def ringFrames : List (List Byte) :=
  (d.waiting N).map fun i => (d.pbuf (d.lwipRxPbuf i)).frame

/-- The accepted frames that `low_level_input` has not returned, as they are in memory. -/
def undelivered : List (List Byte) := d.handFrames ++ d.ringFrames N

end Ring

/-- What the input task knows between its steps. -/
def InputOk (d : Ethernetif P) : Prop :=
  match d.input with
  | .idle => True
  | .checked => 0 < d.lwipRxCount
  | .allocated p => 0 < d.lwipRxCount ∧ d.owner p = .input
  | .exchanged p => d.owner p = .input
  | .received p => d.owner p = .input

/-- The armed buffer has the completed frame. -/
def Stored (d : Ethernetif P) : Prop :=
  d.desc.actualBytesTransferred.toNat = d.arrived.length ∧
    ∀ i (h : i < d.arrived.length),
      (d.pbuf (d.lwipRxPbuf d.lwipRxIndexIsr)).payload i = d.arrived[i]

end Ethernetif

open Ethernetif

structure RingInv (N : Nat) (d : Ethernetif P) : Prop where
  indexIsr : d.lwipRxIndexIsr < N
  index : d.lwipRxIndex < N
  count_nonneg : 0 ≤ d.lwipRxCount
  count_le : d.lwipRxCount ≤ (N : Int) - 1
  meets : (d.lwipRxIndex + d.lwipRxCount.toNat) % N = d.lwipRxIndexIsr
  target : d.dma ≠ .off → d.desc.writeAddr = some (d.lwipRxPbuf d.lwipRxIndexIsr)
  ring : ∀ i < N, d.owner (d.lwipRxPbuf i) = .ring
  distinct : ∀ i < N, ∀ j < N, d.lwipRxPbuf i = d.lwipRxPbuf j → i = j
  input : d.InputOk
  stored : d.dma = .done → d.Stored
  history : d.returned ++ (d.undelivered N).filter (· ≠ []) = d.accepted.filter (· ≠ [])

namespace RingInv

variable {N : Nat} {d : Ethernetif P}

theorem pos (h : RingInv N d) : 0 < N := by
  have := h.index
  omega

theorem count_lt (h : RingInv N d) : d.lwipRxCount.toNat < N := by
  have := h.count_nonneg
  have := h.count_le
  omega

theorem lt_of_waiting (h : RingInv N d) {i : Nat} (hi : i ∈ d.waiting N) : i < N :=
  lt_of_mem_window h.pos hi

/-- The slot that the DMA fills holds no frame that is still to be delivered. -/
theorem isr_not_waiting (h : RingInv N d) : d.lwipRxIndexIsr ∉ d.waiting N := by
  rw [← h.meets]
  exact end_not_mem_window h.count_lt

theorem target_ne_waiting (h : RingInv N d) {i : Nat} (hi : i ∈ d.waiting N) :
    d.lwipRxPbuf i ≠ d.lwipRxPbuf d.lwipRxIndexIsr := by
  intro heq
  have := h.distinct i (h.lt_of_waiting hi) _ h.indexIsr heq
  exact h.isr_not_waiting (this ▸ hi)

theorem exchanged_owner (h : RingInv N d) {p : P} (hp : d.input = .exchanged p) :
    d.owner p = .input := by
  have hin := h.input
  unfold InputOk at hin
  rw [hp] at hin
  exact hin

theorem writeAddr_running (h : RingInv N d) {p : P} (hp : d.desc.writeAddr = some p)
    (hdma : d.dma = .running) : p = d.lwipRxPbuf d.lwipRxIndexIsr := by
  have htarget := h.target (by rw [hdma]; decide)
  rw [hp] at htarget
  exact Option.some.inj htarget

theorem stored_frame (hs : d.Stored) :
    Pbuf.frame { d.pbuf (d.lwipRxPbuf d.lwipRxIndexIsr) with
      len := d.desc.actualBytesTransferred, totLen := d.desc.actualBytesTransferred } =
        d.arrived := by
  obtain ⟨hlen, hbytes⟩ := hs
  refine List.ext_getElem (by simp [Pbuf.frame, hlen]) fun i h₁ h₂ => ?_
  simp only [Pbuf.frame, List.getElem_map, List.getElem_range]
  exact hbytes i h₂

theorem setInput (h : RingInv N d) (pc : InputPc P) (ret : Int) (hfrom : d.handFrames = [])
    (hto : handFrames { d with input := pc, ret := ret } = [])
    (hin : InputOk { d with input := pc, ret := ret }) :
    RingInv N { d with input := pc, ret := ret } :=
  { h with
    input := hin
    history := by
      have hhist := h.history
      unfold undelivered at hhist ⊢
      rw [hfrom] at hhist
      rw [hto]
      exact hhist }

/-! ## The armed slot -/

theorem rearm (h : RingInv N d) :
    RingInv N { d.constructDesc with dma := .running } :=
  { h with
    target := fun _ => rfl
    stored := fun hdone => by cases hdone }

theorem advance (h : RingInv N d) (hroom : d.lwipRxCount < (N : Int) - 1) (bytesRecv : BitVec 32)
    {bytes : List Byte} (hframe : (d.pbuf (d.lwipRxPbuf d.lwipRxIndexIsr)).frame = bytes)
    {accepted : List (List Byte)} (haccepted : accepted = d.accepted ++ [bytes]) :
    RingInv N { ({ d with
      lwipRxCount := d.lwipRxCount + 1
      bytesRecv := bytesRecv
      lwipRxIndexIsr := next N d.lwipRxIndexIsr }).constructDesc with
        dma := .running, accepted := accepted } := by
  have hcount : (d.lwipRxCount + 1).toNat = d.lwipRxCount.toNat + 1 := by
    have := h.count_nonneg
    omega
  refine { h with
    indexIsr := next_lt h.pos _
    count_nonneg := by have := h.count_nonneg; simp only [constructDesc]; omega
    count_le := by simp only [constructDesc]; omega
    meets := ?_
    target := fun _ => rfl
    input := ?_
    stored := fun hdone => by cases hdone
    history := ?_ }
  · simp only [constructDesc]
    rw [hcount, next_eq_mod h.indexIsr, ← h.meets, Nat.mod_add_mod, Nat.add_assoc]
  · have hin := h.input
    unfold InputOk at hin ⊢
    simp only [constructDesc]
    cases hpc : d.input with
    | idle => trivial
    | checked =>
      rw [hpc] at hin
      exact Int.lt_add_one_of_le (le_of_lt hin)
    | allocated p =>
      rw [hpc] at hin
      exact ⟨Int.lt_add_one_of_le (le_of_lt hin.1), hin.2⟩
    | exchanged p =>
      rw [hpc] at hin
      exact hin
    | received p =>
      rw [hpc] at hin
      exact hin
  · have hwindow : undelivered N { ({ d with
        lwipRxCount := d.lwipRxCount + 1
        bytesRecv := bytesRecv
        lwipRxIndexIsr := next N d.lwipRxIndexIsr }).constructDesc with
          dma := .running, accepted := accepted } = d.undelivered N ++ [bytes] := by
      unfold undelivered ringFrames waiting
      simp only [constructDesc]
      rw [hcount, window_push, h.meets, List.map_append, List.map_singleton, hframe,
        ← List.append_assoc]
      rfl
    rw [hwindow, List.filter_append, ← List.append_assoc]
    simp only [constructDesc]
    rw [h.history, haccepted, List.filter_append]

/-! ## Buffers and owners -/

variable [DecidableEq P]

theorem undelivered_setPbuf {p : P} (hwait : ∀ i ∈ d.waiting N, d.lwipRxPbuf i ≠ p)
    (hhand : d.input ≠ .exchanged p) (b : Pbuf) :
    (d.setPbuf p b).undelivered N = d.undelivered N := by
  unfold undelivered
  congr 1
  · unfold handFrames setPbuf
    simp only
    split
    · next q hq =>
      have hne : q ≠ p := fun h => hhand (h ▸ hq)
      rw [Function.update_of_ne hne]
    · rfl
  · refine List.map_congr_left fun i hi => ?_
    simp only [setPbuf, Function.update_of_ne (hwait i hi)]

theorem setPbuf (h : RingInv N d) {p : P} (hwait : ∀ i ∈ d.waiting N, d.lwipRxPbuf i ≠ p)
    (hhand : d.input ≠ .exchanged p) (b : Pbuf)
    (hstored : d.dma = .done → (d.setPbuf p b).Stored) : RingInv N (d.setPbuf p b) :=
  { h with
    stored := hstored
    history := by
      rw [undelivered_setPbuf hwait hhand]
      exact h.history }

theorem setOwner (h : RingInv N d) {p : P} (hp : d.owner p ≠ .ring) {o : Owner}
    (hin : (d.setOwner p o).InputOk) : RingInv N (d.setOwner p o) :=
  { h with
    ring := fun i hi => by
      have hne : d.lwipRxPbuf i ≠ p := fun heq => hp (heq ▸ h.ring i hi)
      simp only [Ethernetif.setOwner, Function.update_of_ne hne]
      exact h.ring i hi
    input := hin }

theorem setOwner_outside (h : RingInv N d) {p : P} (hring : d.owner p ≠ .ring)
    (hinput : d.owner p ≠ .input) {o : Owner} : RingInv N (d.setOwner p o) := by
  refine h.setOwner hring ?_
  have hin := h.input
  have hheld : ∀ q, d.owner q = .input → (d.setOwner p o).owner q = .input := by
    intro q hq
    have hne : q ≠ p := by
      rintro rfl
      exact hinput hq
    simp only [Ethernetif.setOwner, Function.update_of_ne hne, hq]
  unfold InputOk at hin ⊢
  simp only [Ethernetif.setOwner] at hheld ⊢
  cases hpc : d.input with
  | idle => trivial
  | checked =>
    rw [hpc] at hin
    exact hin
  | allocated q =>
    rw [hpc] at hin
    exact ⟨hin.1, hheld q hin.2⟩
  | exchanged q =>
    rw [hpc] at hin
    exact hheld q hin
  | received q =>
    rw [hpc] at hin
    exact hheld q hin

theorem setPbuf_outside (h : RingInv N d) {p : P} (hring : d.owner p ≠ .ring)
    (hinput : d.owner p ≠ .input) (b : Pbuf) : RingInv N (d.setPbuf p b) := by
  have hslot : ∀ i < N, d.lwipRxPbuf i ≠ p := fun i hi heq => hring (heq ▸ h.ring i hi)
  refine h.setPbuf (fun i hi => hslot i (h.lt_of_waiting hi)) (fun heq => ?_) b fun hdone => ?_
  · exact hinput (h.exchanged_owner heq)
  · have hstored := h.stored hdone
    unfold Stored at hstored ⊢
    simp only [Ethernetif.setPbuf, Function.update_of_ne (hslot _ h.indexIsr)]
    exact hstored

/-! ## The DMA and its interrupt -/

theorem setTarget (h : RingInv N d) (b : Pbuf)
    (hstored : d.dma = .done → (d.setPbuf (d.lwipRxPbuf d.lwipRxIndexIsr) b).Stored) :
    RingInv N (d.setPbuf (d.lwipRxPbuf d.lwipRxIndexIsr) b) := by
  refine h.setPbuf (fun i hi => h.target_ne_waiting hi) (fun heq => ?_) b hstored
  have howner := h.exchanged_owner heq
  rw [h.ring _ h.indexIsr] at howner
  cases howner

theorem dmaComplete (h : RingInv N d) (f : RxFrame) (hdma : d.dma = .running) :
    RingInv N { d.setPbuf (d.lwipRxPbuf d.lwipRxIndexIsr)
        { d.pbuf (d.lwipRxPbuf d.lwipRxIndexIsr) with
          payload := fun i => f.bytes.getD i
            ((d.pbuf (d.lwipRxPbuf d.lwipRxIndexIsr)).payload i) } with
      desc := { d.desc with
        actualBytesTransferred := BitVec.ofNat 16 f.bytes.length, status := f.status }
      dma := .done, arrived := f.bytes } := by
  have hset := h.setTarget { d.pbuf (d.lwipRxPbuf d.lwipRxIndexIsr) with
    payload := fun i => f.bytes.getD i ((d.pbuf (d.lwipRxPbuf d.lwipRxIndexIsr)).payload i) }
    fun hdone => by rw [hdma] at hdone; cases hdone
  refine { hset with target := fun _ => h.target (by rw [hdma]; decide), stored := fun _ => ?_ }
  constructor
  · have hfits := f.fits
    unfold pbufPoolBufsize at hfits
    simp only [BitVec.toNat_ofNat]
    exact Nat.mod_eq_of_lt (by omega)
  · intro i hi
    simp [Ethernetif.setPbuf, List.getD_eq_getElem?_getD, List.getElem?_eq_getElem hi]

theorem rxIsr_rearm (hrefused : d.accepts N = false) :
    d.tseSgdmaRxIsr N = { (d.setPbuf (d.lwipRxPbuf d.lwipRxIndexIsr)
      { d.pbuf (d.lwipRxPbuf d.lwipRxIndexIsr) with
        len := d.desc.actualBytesTransferred
        totLen := d.desc.actualBytesTransferred }).constructDesc with dma := .running } := by
  unfold tseSgdmaRxIsr tseMacRcv
  unfold accepts at hrefused
  -- an error, or no room
  by_cases hgood : goodStatus d.desc.status = true
  · have hfull : d.lwipRxCount + 1 ≥ (N : Int) := by
      simp only [hgood, Bool.true_and, decide_eq_false_iff_not] at hrefused
      omega
    simp [hgood, hfull, Ethernetif.setPbuf]
  · simp [hgood]

theorem rxIsr_advance (haccepts : d.accepts N = true) :
    d.tseSgdmaRxIsr N = { ({ d.setPbuf (d.lwipRxPbuf d.lwipRxIndexIsr)
        { d.pbuf (d.lwipRxPbuf d.lwipRxIndexIsr) with
          len := d.desc.actualBytesTransferred
          totLen := d.desc.actualBytesTransferred } with
      lwipRxCount := d.lwipRxCount + 1
      bytesRecv := d.bytesRecv + d.desc.actualBytesTransferred.setWidth 32
      lwipRxIndexIsr := next N d.lwipRxIndexIsr }).constructDesc with dma := .running } := by
  unfold tseSgdmaRxIsr tseMacRcv
  unfold accepts at haccepts
  rw [Bool.and_eq_true, decide_eq_true_iff] at haccepts
  obtain ⟨hgood, hroom⟩ := haccepts
  have hfull : ¬ d.lwipRxCount + 1 ≥ (N : Int) := by omega
  simp [hgood, hfull, Ethernetif.setPbuf]

theorem rxIsr (h : RingInv N d) (hdone : d.dma = .done) :
    RingInv N { d.tseSgdmaRxIsr N with
      accepted := if d.accepts N then d.accepted ++ [d.arrived] else d.accepted } := by
  have hstored := h.stored hdone
  have hset := h.setTarget { d.pbuf (d.lwipRxPbuf d.lwipRxIndexIsr) with
    len := d.desc.actualBytesTransferred, totLen := d.desc.actualBytesTransferred }
    fun _ => ⟨hstored.1, by simpa [Ethernetif.setPbuf] using hstored.2⟩
  cases haccepts : d.accepts N with
  | false =>
    rw [rxIsr_rearm haccepts]
    exact hset.rearm
  | true =>
    rw [rxIsr_advance haccepts]
    unfold accepts at haccepts
    rw [Bool.and_eq_true, decide_eq_true_iff] at haccepts
    refine hset.advance haccepts.2 _ ?_ rfl
    simpa [Ethernetif.setPbuf] using stored_frame hstored

/-! ## The input task -/

theorem pbufAlloc (h : RingInv N d) {p : P} (hpc : d.input = .checked)
    (hpool : d.owner p = .pool) :
    RingInv N { (d.setOwner p .input).setPbuf p (d.pbuf p).fresh with input := .allocated p } := by
  have hin := h.input
  unfold InputOk at hin
  rw [hpc] at hin
  have hfresh := h.setPbuf_outside (p := p) (by simp [hpool]) (by simp [hpool]) (d.pbuf p).fresh
  have howned : RingInv N ((d.setPbuf p (d.pbuf p).fresh).setOwner p .input) :=
    hfresh.setOwner_outside (p := p) (o := .input) (by simp [Ethernetif.setPbuf, hpool])
      (by simp [Ethernetif.setPbuf, hpool])
  refine howned.setInput (.allocated p) d.ret ?_ rfl ?_
  · unfold handFrames
    simp only [Ethernetif.setOwner, Ethernetif.setPbuf, hpc]
  · exact ⟨hin, by simp [Ethernetif.setOwner]⟩

theorem exchange_frames (h : RingInv N d) {p : P} (hpos : 0 < d.lwipRxCount)
    (hin : d.handFrames = []) :
    (d.exchange N p).undelivered N = d.undelivered N := by
  obtain ⟨c, hc⟩ : ∃ c, d.lwipRxCount.toNat = c + 1 := ⟨d.lwipRxCount.toNat - 1, by omega⟩
  have hc' : (d.lwipRxCount - 1).toNat = c := by omega
  have hwindow : d.waiting N = d.lwipRxIndex :: window N (next N d.lwipRxIndex) c := by
    unfold waiting
    rw [hc, window_pop h.index]
  -- The other waiting slots keep their pbufs: the window has no slot twice.
  have hrest : ∀ i ∈ window N (next N d.lwipRxIndex) c, i ≠ d.lwipRxIndex := by
    intro i hi heq
    have hnodup : (d.waiting N).Nodup := window_nodup (le_of_lt h.count_lt)
    rw [hwindow, List.nodup_cons] at hnodup
    exact hnodup.1 (heq ▸ hi)
  unfold undelivered ringFrames
  rw [hin, hwindow, List.map_cons, List.nil_append]
  unfold waiting handFrames Ethernetif.exchange
  simp only [Ethernetif.setOwner, Ethernetif.setSlot, hc', List.singleton_append, List.cons.injEq,
    true_and]
  refine List.map_congr_left fun i hi => ?_
  rw [Function.update_of_ne (hrest i hi)]

theorem exchange (h : RingInv N d) {p : P} (hpc : d.input = .allocated p) :
    RingInv N (d.exchange N p) := by
  have hin := h.input
  unfold InputOk at hin
  rw [hpc] at hin
  obtain ⟨hpos, hp⟩ := hin
  have hhand : d.handFrames = [] := by
    unfold handFrames
    rw [hpc]
  have hframes := h.exchange_frames (p := p) hpos hhand
  have hslot : ∀ i < N, d.lwipRxPbuf i ≠ p := by
    intro i hi heq
    have howner := h.ring i hi
    rw [heq, hp] at howner
    cases howner
  have hne : d.lwipRxIndexIsr ≠ d.lwipRxIndex := by
    intro heq
    refine h.isr_not_waiting ?_
    have hc : d.lwipRxCount.toNat = d.lwipRxCount.toNat - 1 + 1 := by omega
    unfold waiting
    rw [heq, hc, window_pop h.index]
    exact List.mem_cons_self
  constructor
  case indexIsr => exact h.indexIsr
  case index => exact next_lt h.pos _
  case count_nonneg =>
    simp only [Ethernetif.exchange, Ethernetif.setOwner, Ethernetif.setSlot]
    omega
  case count_le =>
    have := h.count_le
    simp only [Ethernetif.exchange, Ethernetif.setOwner, Ethernetif.setSlot]
    omega
  case meets =>
    simp only [Ethernetif.exchange, Ethernetif.setOwner, Ethernetif.setSlot]
    rw [next_add_mod h.index, ← h.meets]
    congr 2
    omega
  case target =>
    intro hdma
    simp only [Ethernetif.exchange, Ethernetif.setOwner, Ethernetif.setSlot,
      Function.update_of_ne hne]
    exact h.target hdma
  case ring =>
    intro i hi
    simp only [Ethernetif.exchange, Ethernetif.setOwner, Ethernetif.setSlot]
    by_cases hidx : i = d.lwipRxIndex
    · subst hidx
      rw [Function.update_self, Function.update_of_ne (hslot _ hi).symm, Function.update_self]
    · have hother : d.lwipRxPbuf i ≠ d.lwipRxPbuf d.lwipRxIndex := by
        intro heq
        exact hidx (h.distinct i hi _ h.index heq)
      rw [Function.update_of_ne hidx, Function.update_of_ne hother,
        Function.update_of_ne (hslot i hi)]
      exact h.ring i hi
  case distinct =>
    intro i hi j hj heq
    simp only [Ethernetif.exchange, Ethernetif.setOwner, Ethernetif.setSlot] at heq
    by_cases hiidx : i = d.lwipRxIndex
    · by_cases hjidx : j = d.lwipRxIndex
      · rw [hiidx, hjidx]
      · rw [hiidx, Function.update_self, Function.update_of_ne hjidx] at heq
        exact absurd heq.symm (hslot j hj)
    · by_cases hjidx : j = d.lwipRxIndex
      · rw [hjidx, Function.update_self, Function.update_of_ne hiidx] at heq
        exact absurd heq (hslot i hi)
      · rw [Function.update_of_ne hiidx, Function.update_of_ne hjidx] at heq
        exact h.distinct i hi j hj heq
  case input =>
    unfold InputOk
    simp [Ethernetif.exchange, Ethernetif.setOwner]
  case stored =>
    intro hdone
    have hstored := h.stored hdone
    unfold Stored at hstored ⊢
    simp only [Ethernetif.exchange, Ethernetif.setOwner, Ethernetif.setSlot,
      Function.update_of_ne hne]
    exact hstored
  case history =>
    rw [hframes]
    exact h.history

theorem finish (h : RingInv N d) {p : P} (hpc : d.input = .exchanged p) :
    RingInv N (d.finish p) := by
  have hp := h.exchanged_owner hpc
  have hhist := h.history
  have hund : d.undelivered N = (d.pbuf p).frame :: d.ringFrames N := by
    unfold undelivered handFrames
    rw [hpc]
    rfl
  rw [hund] at hhist
  unfold Ethernetif.finish
  split
  · next hlen =>
    have hempty : (d.pbuf p).frame = [] := by simp [Pbuf.frame, hlen]
    rw [hempty, List.filter_cons_of_neg (by simp)] at hhist
    have hidle : RingInv N { d with input := .idle, ret := -1 } :=
      { h with
        input := trivial
        history := hhist }
    exact hidle.setOwner (p := p) (o := .lost) (by simp [hp]) trivial
  · next hlen =>
    have hframe : (d.pbuf p).frame ≠ [] := by
      have hlen' : (d.pbuf p).len.toNat ≠ 0 := fun h0 => hlen (BitVec.eq_of_toNat_eq h0)
      simpa [Pbuf.frame] using hlen'
    rw [List.filter_cons_of_pos (by simpa using hframe), List.append_cons] at hhist
    exact { h with
      input := hp
      history := hhist }

theorem deliver (h : RingInv N d) {p : P} (hpc : d.input = .received p) :
    RingInv N (d.deliver p) := by
  have hin := h.input
  unfold InputOk at hin
  rw [hpc] at hin
  have hidle : ∀ (ret : Int) (t : Tcpip),
      RingInv N { ({ d with input := .idle, ret := ret } : Ethernetif P) with tcpip := t } := by
    intro ret t
    have := h.setInput .idle ret (by unfold handFrames; rw [hpc]) rfl trivial
    exact { this with }
  have hout : ∀ (ret : Int) (t : Tcpip) (o : Owner), RingInv N
      (({ ({ d with input := .idle, ret := ret } : Ethernetif P) with tcpip := t }).setOwner p o) :=
    fun ret t o => (hidle ret t).setOwner (by simp [hin]) trivial
  unfold Ethernetif.deliver
  simp only
  split
  · split
    · exact hout _ _ .stack
    · exact hout _ _ .lost
  · exact hout _ _ .pool

/-! ## Every step -/

theorem step (h : RingInv N d) {a : Action P} {t : Ethernetif P}
    (hstep : Driver.step N d a = some t) : RingInv N t := by
  cases steps_of_step hstep with
  | softwareReset =>
    exact { h with
      target := fun hoff => absurd rfl hoff
      stored := fun hdone => by cases hdone }
  | constructDesc =>
    exact { h with
      target := fun _ => rfl
      stored := fun hdone => by cases hdone }
  | aRxRead hdma =>
    exact { h with
      target := fun _ => h.target (by rw [hdma]; decide)
      stored := fun hdone => by cases hdone }
  | dmaWrite haddr hdma =>
    rw [h.writeAddr_running haddr hdma]
    exact h.setTarget _ fun hdone => by rw [hdma] at hdone; cases hdone
  | @dmaComplete f p haddr hdma =>
    have hp := h.writeAddr_running haddr hdma
    subst hp
    exact h.dmaComplete f hdma
  | rxIsr hdone => exact h.rxIsr hdone
  | empty => exact { h with }
  | checked hidle hcount =>
    have hhand : d.handFrames = [] := by
      unfold handFrames
      rw [hidle]
    exact h.setInput .checked d.ret hhand rfl hcount
  | allocFails hchecked =>
    exact h.setInput .idle (-1) (by unfold handFrames; rw [hchecked]) rfl trivial
  | allocated hchecked hpool => exact h.pbufAlloc hchecked hpool
  | exchange hpc => exact h.exchange hpc
  | finish hpc => exact h.finish hpc
  | deliver hpc => exact h.deliver hpc
  | stackAlloc hpool => exact h.setOwner_outside (by simp [hpool]) (by simp [hpool])
  | stackWrite hstack => exact h.setPbuf_outside (by simp [hstack]) (by simp [hstack]) _
  | pbufFree hstack => exact h.setOwner_outside (by simp [hstack]) (by simp [hstack])
  | others => exact { h with }

end RingInv

/-! ## `ethernetif_init` -/

section Init

variable [DecidableEq P]

/-- The first `k` slots are filled, each with a pbuf of its own. -/
structure Filled (k : Nat) (d : Ethernetif P) : Prop where
  ring : ∀ i < k, d.owner (d.lwipRxPbuf i) = .ring
  slots : ∀ p, d.owner p = .ring → ∃ i < k, d.lwipRxPbuf i = p
  outside : ∀ p, d.owner p ≠ .ring → d.owner p = .pool ∨ d.owner p = .stack
  distinct : ∀ i < k, ∀ j < k, d.lwipRxPbuf i = d.lwipRxPbuf j → i = j
  dma : d.dma = .off
  input : d.input = .idle
  accepted : d.accepted = []
  returned : d.returned = []

theorem Filled.fill {k : Nat} {d : Ethernetif P} (h : Filled k d) {p : P}
    (hpool : d.owner p = .pool) (b : Pbuf) :
    Filled (k + 1) (((d.setSlot k p).setOwner p .ring).setPbuf p b) := by
  have hold : ∀ i < k, d.lwipRxPbuf i ≠ p := by
    intro i hi heq
    have howner := h.ring i hi
    rw [heq, hpool] at howner
    cases howner
  constructor
  case ring =>
    intro i hi
    simp only [setPbuf, setOwner, setSlot]
    rcases Nat.lt_succ_iff_lt_or_eq.mp hi with hlt | rfl
    · rw [Function.update_of_ne (Nat.ne_of_lt hlt), Function.update_of_ne (hold i hlt)]
      exact h.ring i hlt
    · rw [Function.update_self, Function.update_self]
  case slots =>
    intro q hq
    simp only [setPbuf, setOwner, setSlot] at hq ⊢
    by_cases hqp : q = p
    · exact ⟨k, Nat.lt_succ_self k, by rw [hqp, Function.update_self]⟩
    · rw [Function.update_of_ne hqp] at hq
      obtain ⟨i, hi, hiq⟩ := h.slots q hq
      exact ⟨i, Nat.lt_succ_of_lt hi, by rw [Function.update_of_ne (Nat.ne_of_lt hi), hiq]⟩
  case outside =>
    intro q hq
    simp only [setPbuf, setOwner, setSlot] at hq ⊢
    by_cases hqp : q = p
    · rw [hqp, Function.update_self] at hq
      exact absurd rfl hq
    · rw [Function.update_of_ne hqp] at hq ⊢
      exact h.outside q hq
  case distinct =>
    intro i hi j hj heq
    simp only [setPbuf, setOwner, setSlot] at heq
    rcases Nat.lt_succ_iff_lt_or_eq.mp hi with hik | rfl
    · rcases Nat.lt_succ_iff_lt_or_eq.mp hj with hjk | rfl
      · rw [Function.update_of_ne (Nat.ne_of_lt hik), Function.update_of_ne (Nat.ne_of_lt hjk)]
          at heq
        exact h.distinct i hik j hjk heq
      · rw [Function.update_of_ne (Nat.ne_of_lt hik), Function.update_self] at heq
        exact absurd heq (hold i hik)
    · rcases Nat.lt_succ_iff_lt_or_eq.mp hj with hjk | rfl
      · rw [Function.update_self, Function.update_of_ne (Nat.ne_of_lt hjk)] at heq
        exact absurd heq.symm (hold j hjk)
      · rfl
  case dma => exact h.dma
  case input => exact h.input
  case accepted => exact h.accepted
  case returned => exact h.returned

theorem initSlots_filled {bufs : List P} {k : Nat} {d t : Ethernetif P} (h : Filled k d)
    (hinit : d.initSlots k bufs = some t) : Filled (k + bufs.length) t := by
  induction bufs generalizing k d with
  | nil =>
    cases hinit
    exact h
  | cons p rest ih =>
    unfold initSlots at hinit
    split at hinit
    · next hpool =>
      have hrest := ih (h.fill hpool _) hinit
      rw [List.length_cons, Nat.add_comm rest.length, ← Nat.add_assoc]
      exact hrest
    · cases hinit

theorem ethernetifInit_filled {N : Nat} {slots : Nat → P} {pbuf : P → Pbuf} {inUse : P → Bool}
    {tcpip : Tcpip} {bufs : List P} {d : Ethernetif P}
    (hinit : (boot slots pbuf inUse tcpip).ethernetifInit N bufs = some d) :
    Filled N d ∧ d.lwipRxCount = 0 ∧ d.lwipRxIndex = 0 ∧ d.lwipRxIndexIsr = 0 := by
  unfold ethernetifInit at hinit
  split at hinit
  · next hlen =>
    obtain ⟨t, ht, rfl⟩ := Option.map_eq_some_iff.mp hinit
    have hboot : Filled 0 (boot slots pbuf inUse tcpip) := by
      refine ⟨nofun, fun p hp => ?_, fun p _ => ?_, nofun, rfl, rfl, rfl, rfl⟩
      · simp only [boot] at hp
        split at hp <;> cases hp
      · simp only [boot]
        split
        · exact .inr rfl
        · exact .inl rfl
    have hfilled := initSlots_filled hboot ht
    rw [Nat.zero_add, hlen] at hfilled
    exact ⟨{ hfilled with }, rfl, rfl, rfl⟩
  · cases hinit

omit [DecidableEq P] in
theorem Filled.ringInv {N : Nat} (hN : 0 < N) {d : Ethernetif P} (h : Filled N d)
    (hcount : d.lwipRxCount = 0) (hindex : d.lwipRxIndex = 0) (hisr : d.lwipRxIndexIsr = 0) :
    RingInv N d := by
  constructor
  case indexIsr => rw [hisr]; exact hN
  case index => rw [hindex]; exact hN
  case count_nonneg => rw [hcount]
  case count_le => rw [hcount]; omega
  case meets =>
    rw [hcount, hindex, hisr]
    exact Nat.zero_mod N
  case target => exact fun hdma => absurd h.dma hdma
  case ring => exact h.ring
  case distinct => exact h.distinct
  case input =>
    unfold InputOk
    simp only [h.input]
  case stored =>
    intro hdone
    rw [h.dma] at hdone
    cases hdone
  case history =>
    unfold undelivered handFrames ringFrames waiting
    rw [h.input, h.returned, h.accepted, hcount]
    rfl

theorem ringInv_ethernetifInit {N : Nat} (hN : 0 < N) {slots : Nat → P} {pbuf : P → Pbuf}
    {inUse : P → Bool} {tcpip : Tcpip} {bufs : List P} {d : Ethernetif P}
    (hinit : (boot slots pbuf inUse tcpip).ethernetifInit N bufs = some d) : RingInv N d := by
  obtain ⟨hfilled, hcount, hindex, hisr⟩ := ethernetifInit_filled hinit
  exact hfilled.ringInv hN hcount hindex hisr

end Init

/-! ## Every run -/

section Run

variable [DecidableEq P]

/-- In every state that is reachable from `ethernetif_init` the count is in range, the
indices meet it, the DMA is armed with the slot `lwipRxIndexIsr`, and that slot's pbuf holds no
frame that is still to be delivered. What `low_level_input` has returned and what is still to
come are together the accepted frames, in the order of their arrival. -/
theorem rxRing_reachable {N : Nat} (hN : 0 < N) (slots : Nat → P) (pbuf : P → Pbuf)
    (inUse : P → Bool) (tcpip : Tcpip) (bufs : List P) (d₀ d : Ethernetif P)
    (as : List (Action P))
    (hinit : (boot slots pbuf inUse tcpip).ethernetifInit N bufs = some d₀)
    (hrun : run (step N) d₀ as = some d) :
    (0 ≤ d.lwipRxCount ∧ d.lwipRxCount ≤ (N : Int) - 1) ∧
      ((d.lwipRxIndex : Int) + d.lwipRxCount) % N = d.lwipRxIndexIsr ∧
      (d.dma ≠ .off → d.desc.writeAddr = some (d.lwipRxPbuf d.lwipRxIndexIsr)) ∧
      d.lwipRxIndexIsr ∉ d.waiting N ∧
      (∀ i ∈ d.waiting N, d.lwipRxPbuf i ≠ d.lwipRxPbuf d.lwipRxIndexIsr) ∧
      d.input ≠ .exchanged (d.lwipRxPbuf d.lwipRxIndexIsr) ∧
      d.returned ++ (d.undelivered N).filter (· ≠ []) = d.accepted.filter (· ≠ []) := by
  have h : RingInv N d :=
    run_invariant (fun _ _ _ hs hst => hs.step hst) (ringInv_ethernetifInit hN hinit) hrun
  refine ⟨⟨h.count_nonneg, h.count_le⟩, ?_, h.target, h.isr_not_waiting,
    fun i hi => h.target_ne_waiting hi, ?_, h.history⟩
  · have hcount : (d.lwipRxCount.toNat : Int) = d.lwipRxCount := Int.toNat_of_nonneg h.count_nonneg
    rw [← hcount, ← h.meets]
    norm_cast
  · intro heq
    have howner := h.exchanged_owner heq
    rw [h.ring _ h.indexIsr] at howner
    cases howner

/-- One frame through a ring of the configured size. -/
theorem rxRing_reachable_frame :
    let frame : RxFrame := { bytes := [0xab, 0xcd], status := 0, fits := by decide }
    let blank : Pbuf := { len := 0, totLen := 0, payload := fun _ => 0 }
    let tcpip : Tcpip := { mboxValid := true, freeMsgs := 8, queued := 0, mboxSize := 6 }
    ∃ d₀ d : Ethernetif Nat,
      (boot (fun _ => 0) (fun _ => blank) (fun _ => false) tcpip).ethernetifInit lwipRxEthBuffer
        (List.range lwipRxEthBuffer) = some d₀ ∧
      run (step lwipRxEthBuffer) d₀ [.constructDesc, .aRxRead, .dmaComplete frame, .rxIsr,
        .checkCount, .pbufAlloc (some 12), .exchange, .finish] = some d ∧
      d.returned = [[0xab, 0xcd]] ∧
      d.returned ++ (d.undelivered lwipRxEthBuffer).filter (· ≠ []) =
        d.accepted.filter (· ≠ []) := by
  intro frame blank tcpip
  have hruns : (((boot (fun _ => 0) (fun _ => blank) (fun _ => false) tcpip).ethernetifInit
      lwipRxEthBuffer (List.range lwipRxEthBuffer)).bind fun d₀ : Ethernetif Nat =>
        run (step lwipRxEthBuffer) d₀ [.constructDesc, .aRxRead, .dmaComplete frame, .rxIsr,
          .checkCount, .pbufAlloc (some 12), .exchange, .finish]).map (·.returned) =
            some [[0xab, 0xcd]] := by
    decide +kernel
  obtain ⟨d, hd, hreturned⟩ := Option.map_eq_some_iff.mp hruns
  obtain ⟨d₀, hinit, hrun⟩ := Option.bind_eq_some_iff.mp hd
  refine ⟨d₀, d, hinit, hrun, hreturned, ?_⟩
  exact (rxRing_reachable (by decide) _ _ _ _ _ _ _ _ hinit hrun).2.2.2.2.2.2

end Run

end FreeLwip.Driver
