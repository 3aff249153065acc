import FreeLwip.Api.Sockets

/-!
# Descriptors and the connections they lead to
-/

namespace FreeLwip.Api

open Run

/-! ## The table and the connections -/

/-- A connection has at most one socket, and knows it; one that waits to be accepted has none,
and waits in one mailbox. -/
structure TableInv (s : State) : Prop where
  bound : ∀ i c, (s.sockets i).conn = some c → i < numSockets
  used : ∀ i c, (s.sockets i).conn = some c → s.used c = true
  inj : ∀ i j c, (s.sockets i).conn = some c → (s.sockets j).conn = some c → i = j
  socket : ∀ i c, (s.sockets i).conn = some c → (s.netconn c).socket = lwipSocketOffset + i
  listening : ∀ c, s.used c = true → (s.netconn c).acceptmbox ≠ none →
    (s.netconn c).type = .tcp
  waiting : ∀ c d, s.used c = true → d ∈ (s.netconn c).pending →
    s.used d = true ∧ ∀ i, (s.sockets i).conn ≠ some d
  once : ∀ c, s.used c = true → (s.netconn c).pending.Nodup
  oneMbox : ∀ c c' d, s.used c = true → s.used c' = true → d ∈ (s.netconn c).pending →
    d ∈ (s.netconn c').pending → c = c'
  opened : ∀ fd c, (fd, c) ∈ s.opened ↔
    ∃ i : Nat, fd = lwipSocketOffset + i ∧ (s.sockets i).conn = some c
  nodup : (s.opened.map Prod.fst).Nodup

/-- Neither a socket nor a mailbox has the connection. -/
structure Apart (s : State) (c : ConnId) : Prop where
  socket : ∀ i, (s.sockets i).conn ≠ some c
  mbox : ∀ c', s.used c' = true → c ∉ (s.netconn c').pending

theorem init_inv (netconn : ConnId → Netconn) : TableInv (init netconn) where
  bound _ _ h := by simp [init, LwipSock.zero] at h
  used _ _ h := by simp [init, LwipSock.zero] at h
  inj _ _ _ h := by simp [init, LwipSock.zero] at h
  socket _ _ h := by simp [init, LwipSock.zero] at h
  listening _ h := by simp [init] at h
  waiting _ _ h := by simp [init] at h
  once _ h := by simp [init] at h
  oneMbox _ _ _ h := by simp [init] at h
  opened _ _ := by simp [init, LwipSock.zero]
  nodup := by simp [init]

namespace TableInv

variable {s : State} {c d : ConnId} {conn : Netconn} {i : Nat} {sock : LwipSock}

theorem socket_nonneg (h : TableInv s) (hi : (s.sockets i).conn = some c) :
    0 ≤ (s.netconn c).socket := by
  rw [h.socket i c hi]
  unfold lwipSocketOffset altMaxFd
  omega

theorem setNetconn (h : TableInv s)
    (hsocket : ∀ i, (s.sockets i).conn = some c → conn.socket = (s.netconn c).socket)
    (hlisten : s.used c = true → conn.acceptmbox ≠ none → conn.type = .tcp)
    (hpending : conn.pending.Sublist (s.netconn c).pending) :
    TableInv (s.setNetconn c conn) := by
  have hsub : ∀ c', ((s.setNetconn c conn).netconn c').pending.Sublist (s.netconn c').pending := by
    intro c'
    by_cases hc : c' = c
    · subst hc
      simpa [State.setNetconn] using hpending
    · simp [State.setNetconn, hc]
  constructor
  case bound => exact h.bound
  case used => exact h.used
  case inj => exact h.inj
  case opened => exact h.opened
  case nodup => exact h.nodup
  case waiting => exact fun c' d hu hd => h.waiting c' d hu ((hsub c').subset hd)
  case once => exact fun c' hu => (h.once c' hu).sublist (hsub c')
  case oneMbox =>
    exact fun c₁ c₂ d hu₁ hu₂ hd₁ hd₂ =>
      h.oneMbox c₁ c₂ d hu₁ hu₂ ((hsub c₁).subset hd₁) ((hsub c₂).subset hd₂)
  case socket =>
    intro j c' hj
    refine Eq.trans ?_ (h.socket j c' hj)
    by_cases hc : c' = c
    · subst hc
      simpa [State.setNetconn] using hsocket j hj
    · simp [State.setNetconn, hc]
  case listening =>
    intro c'
    by_cases hc : c' = c
    · subst hc
      simpa [State.setNetconn] using hlisten
    · simpa [State.setNetconn, hc] using h.listening c'

theorem setSock (h : TableInv s) (hconn : sock.conn = (s.sockets i).conn) :
    TableInv { s with sockets := Function.update s.sockets i sock } := by
  have hsame : ∀ j, (Function.update s.sockets i sock j).conn = (s.sockets j).conn := by
    intro j
    by_cases hj : j = i
    · subst hj
      simpa using hconn
    · simp [hj]
  constructor
  case listening => exact h.listening
  case once => exact h.once
  case oneMbox => exact h.oneMbox
  case nodup => exact h.nodup
  all_goals simp only [hsame]
  case bound => exact h.bound
  case used => exact h.used
  case inj => exact h.inj
  case socket => exact h.socket
  case waiting => exact h.waiting
  case opened => exact h.opened

theorem netconnAlloc (h : TableInv s) (hc : s.used c = false) (type : NetconnType) :
    TableInv (s.netconnAlloc c type) ∧ Apart (s.netconnAlloc c type) c := by
  have hslot : ∀ i, (s.sockets i).conn ≠ some c := by
    intro i hi
    rw [h.used i c hi] at hc
    cases hc
  have hpending : ∀ c', ((s.netconnAlloc c type).netconn c').pending =
      if c' = c then [] else (s.netconn c').pending := by
    intro c'
    by_cases hcc : c' = c <;>
      simp [State.netconnAlloc, State.setNetconn, hcc, Netconn.alloc, Netconn.pending]
  have hold : ∀ c' d, (s.netconnAlloc c type).used c' = true →
      d ∈ ((s.netconnAlloc c type).netconn c').pending →
      c' ≠ c ∧ s.used c' = true ∧ d ∈ (s.netconn c').pending := by
    intro c' d hu hd
    rw [hpending] at hd
    split at hd
    · simp at hd
    · next hne => exact ⟨hne, by simpa [State.netconnAlloc, hne] using hu, hd⟩
  have hmbox : ∀ c', s.used c' = true → c ∉ (s.netconn c').pending := by
    intro c' hu hmem
    rw [(h.waiting c' c hu hmem).1] at hc
    cases hc
  constructor
  · constructor
    case bound => exact h.bound
    case inj => exact h.inj
    case opened => exact h.opened
    case nodup => exact h.nodup
    case used =>
      intro j c' hj
      have hne : c' ≠ c := fun heq => hslot j (heq ▸ hj)
      simpa [State.netconnAlloc, hne] using h.used j c' hj
    case socket =>
      intro j c' hj
      have hne : c' ≠ c := fun heq => hslot j (heq ▸ hj)
      simpa [State.netconnAlloc, State.setNetconn, hne] using h.socket j c' hj
    case listening =>
      intro c'
      by_cases hcc : c' = c
      · simp [State.netconnAlloc, State.setNetconn, hcc, Netconn.alloc]
      · intro hu
        simpa [State.netconnAlloc, State.setNetconn, hcc] using
          h.listening c' (by simpa [State.netconnAlloc, hcc] using hu)
    case waiting =>
      intro c' d hu hd
      obtain ⟨-, hu', hd'⟩ := hold c' d hu hd
      obtain ⟨hused, hslots⟩ := h.waiting c' d hu' hd'
      have hne : d ≠ c := fun heq => hmbox c' hu' (heq ▸ hd')
      exact ⟨by simpa [State.netconnAlloc, hne] using hused, hslots⟩
    case once =>
      intro c' hu
      rw [hpending]
      split
      · exact List.nodup_nil
      · next hne => exact h.once c' (by simpa [State.netconnAlloc, hne] using hu)
    case oneMbox =>
      intro c₁ c₂ d hu₁ hu₂ hd₁ hd₂
      obtain ⟨-, hu₁', hd₁'⟩ := hold c₁ d hu₁ hd₁
      obtain ⟨-, hu₂', hd₂'⟩ := hold c₂ d hu₂ hd₂
      exact h.oneMbox c₁ c₂ d hu₁' hu₂' hd₁' hd₂'
  · refine ⟨hslot, fun c' hu hmem => ?_⟩
    obtain ⟨-, hu', hmem'⟩ := hold c' c hu hmem
    exact hmbox c' hu' hmem'

theorem accepted {mbox : List (Option ConnId)} (h : TableInv s) (hu : s.used c = true)
    (hd : s.used d = false) (hmbox : (s.netconn c).acceptmbox = some mbox) :
    TableInv ((s.netconnAlloc d (s.netconn c).type).setNetconn c
      { s.netconn c with acceptmbox := some (mbox ++ [some d]) }) := by
  obtain ⟨halloc, hapart⟩ := h.netconnAlloc hd (s.netconn c).type
  have hcd : c ≠ d := by
    rintro rfl
    rw [hu] at hd
    cases hd
  generalize ht : s.netconnAlloc d (s.netconn c).type = t at halloc hapart
  have hsame : t.netconn c = s.netconn c := by
    simp [← ht, State.netconnAlloc, State.setNetconn, hcd]
  have hut : t.used c = true := by simpa [← ht, State.netconnAlloc, hcd] using hu
  have hdt : t.used d = true := by simp [← ht, State.netconnAlloc]
  rw [← hsame] at hmbox ⊢
  have hpending : ∀ c', ((t.setNetconn c
      { t.netconn c with acceptmbox := some (mbox ++ [some d]) }).netconn c').pending =
      if c' = c then (t.netconn c).pending ++ [d] else (t.netconn c').pending := by
    intro c'
    by_cases hcc : c' = c <;>
      simp [State.setNetconn, hcc, Netconn.pending, hmbox]
  have hold : ∀ c' e, e ∈ ((t.setNetconn c
      { t.netconn c with acceptmbox := some (mbox ++ [some d]) }).netconn c').pending →
      (c' = c ∧ e = d) ∨ e ∈ (t.netconn c').pending := by
    intro c' e he
    rw [hpending] at he
    split at he
    · next hcc =>
      subst hcc
      simpa [or_comm] using he
    · exact .inr he
  constructor
  case bound => exact halloc.bound
  case used => exact halloc.used
  case inj => exact halloc.inj
  case opened => exact halloc.opened
  case nodup => exact halloc.nodup
  case socket =>
    intro j c' hj
    refine Eq.trans ?_ (halloc.socket j c' hj)
    by_cases hcc : c' = c <;> simp [State.setNetconn, hcc]
  case listening =>
    intro c' hu'
    by_cases hcc : c' = c
    · subst hcc
      simpa [State.setNetconn] using halloc.listening c' hut (by simp [hmbox])
    · simpa [State.setNetconn, hcc] using halloc.listening c' hu'
  case waiting =>
    intro c' e hu' he
    obtain ⟨rfl, rfl⟩ | he := hold c' e he
    · exact ⟨hdt, hapart.socket⟩
    · exact halloc.waiting c' e hu' he
  case once =>
    intro c' hu'
    rw [hpending]
    split
    · have hnot := hapart.mbox c hut
      refine List.nodup_append.mpr ⟨halloc.once c hut, List.nodup_singleton d, ?_⟩
      rintro e he f hf rfl
      exact hnot (List.mem_singleton.mp hf ▸ he)
    · exact halloc.once c' hu'
  case oneMbox =>
    intro c₁ c₂ e hu₁ hu₂ he₁ he₂
    obtain ⟨rfl, rfl⟩ | hold₁ := hold c₁ e he₁
    · obtain ⟨rfl, -⟩ | hold₂ := hold c₂ e he₂
      · rfl
      · exact absurd hold₂ (hapart.mbox c₂ hu₂)
    · obtain ⟨-, rfl⟩ | hold₂ := hold c₂ e he₂
      · exact absurd hold₁ (hapart.mbox c₁ hu₁)
      · exact halloc.oneMbox c₁ c₂ e hu₁ hu₂ hold₁ hold₂

theorem netconnDelete (h : TableInv s) (hc : Apart s c) (hu : s.used c = true) :
    TableInv (s.netconnDelete c) := by
  have hused : ∀ d, (s.netconnDelete c).used d = true ↔
      s.used d = true ∧ d ≠ c ∧ d ∉ (s.netconn c).pending := by
    intro d
    simp [State.netconnDelete, and_assoc]
  have hpending : ∀ c', c' ≠ c →
      ((s.netconnDelete c).netconn c').pending = (s.netconn c').pending := by
    intro c' hne
    simp [State.netconnDelete, State.setNetconn, hne]
  constructor
  case bound => exact h.bound
  case inj => exact h.inj
  case opened => exact h.opened
  case nodup => exact h.nodup
  case used =>
    intro j c' hj
    refine (hused c').mpr ⟨h.used j c' hj, ?_, fun hmem => (h.waiting c c' hu hmem).2 j hj⟩
    rintro rfl
    exact hc.socket j hj
  case socket =>
    intro j c' hj
    have hne : c' ≠ c := fun heq => hc.socket j (heq ▸ hj)
    simpa [State.netconnDelete, State.setNetconn, hne] using h.socket j c' hj
  case listening =>
    intro c' hu'
    obtain ⟨huc, hne, -⟩ := (hused c').mp hu'
    simpa [State.netconnDelete, State.setNetconn, hne] using h.listening c' huc
  case waiting =>
    intro c' d hu' hd
    obtain ⟨huc, hne, -⟩ := (hused c').mp hu'
    rw [hpending c' hne] at hd
    obtain ⟨hd', hslots⟩ := h.waiting c' d huc hd
    refine ⟨(hused d).mpr ⟨hd', ?_, fun hmem => hne (h.oneMbox c' c d huc hu hd hmem)⟩, hslots⟩
    rintro rfl
    exact hc.mbox c' huc hd
  case once =>
    intro c' hu'
    obtain ⟨huc, hne, -⟩ := (hused c').mp hu'
    rw [hpending c' hne]
    exact h.once c' huc
  case oneMbox =>
    intro c₁ c₂ d hu₁ hu₂ hd₁ hd₂
    obtain ⟨hu₁', hne₁, -⟩ := (hused c₁).mp hu₁
    obtain ⟨hu₂', hne₂, -⟩ := (hused c₂).mp hu₂
    rw [hpending c₁ hne₁] at hd₁
    rw [hpending c₂ hne₂] at hd₂
    exact h.oneMbox c₁ c₂ d hu₁' hu₂' hd₁ hd₂

theorem publish (h : TableInv s) (hc : Apart s c) (hu : s.used c = true) (hi : i < numSockets)
    (hfree : (s.sockets i).conn = none) (hconn : sock.conn = some c)
    (hsock : conn.socket = lwipSocketOffset + i) (htype : conn.type = (s.netconn c).type)
    (hmbox : conn.acceptmbox = (s.netconn c).acceptmbox) :
    TableInv { s.setNetconn c conn with
      sockets := Function.update s.sockets i sock
      opened := (lwipSocketOffset + i, c) :: s.opened } := by
  have hslot : ∀ j d, (Function.update s.sockets i sock j).conn = some d ↔
      (j = i ∧ d = c) ∨ (j ≠ i ∧ d ≠ c ∧ (s.sockets j).conn = some d) := by
    intro j d
    by_cases hj : j = i
    · subst hj
      simp [hconn, eq_comm]
    · simp only [Function.update_of_ne hj, hj, false_and, false_or, ne_eq, not_false_eq_true,
        true_and]
      refine ⟨fun hd => ⟨?_, hd⟩, And.right⟩
      rintro rfl
      exact hc.socket j hd
  have hpending : ∀ c', ((s.setNetconn c conn).netconn c').pending = (s.netconn c').pending := by
    intro c'
    by_cases hcc : c' = c
    · subst hcc
      simp [State.setNetconn, Netconn.pending, hmbox]
    · simp [State.setNetconn, hcc]
  constructor
  case bound =>
    intro j d hd
    obtain ⟨rfl, -⟩ | ⟨-, -, hd⟩ := (hslot j d).mp hd
    · exact hi
    · exact h.bound j d hd
  case used =>
    intro j d hd
    obtain ⟨-, rfl⟩ | ⟨-, -, hd⟩ := (hslot j d).mp hd
    · exact hu
    · exact h.used j d hd
  case inj =>
    intro j k d hj hk
    obtain ⟨rfl, rfl⟩ | ⟨-, hne, hj⟩ := (hslot j d).mp hj
    · obtain ⟨rfl, -⟩ | ⟨-, hne, -⟩ := (hslot k d).mp hk
      · rfl
      · exact absurd rfl hne
    · obtain ⟨-, rfl⟩ | ⟨-, -, hk⟩ := (hslot k d).mp hk
      · exact absurd rfl hne
      · exact h.inj j k d hj hk
  case socket =>
    intro j d hd
    obtain ⟨rfl, rfl⟩ | ⟨-, hne, hd⟩ := (hslot j d).mp hd
    · simpa [State.setNetconn] using hsock
    · simpa [State.setNetconn, hne] using h.socket j d hd
  case listening =>
    intro c'
    by_cases hcc : c' = c
    · subst hcc
      simpa [State.setNetconn, hmbox, htype] using h.listening c'
    · simpa [State.setNetconn, hcc] using h.listening c'
  case waiting =>
    intro c' d hu' hd
    replace hd : d ∈ (s.netconn c').pending := hpending c' ▸ hd
    obtain ⟨hd', hslots⟩ := h.waiting c' d hu' hd
    refine ⟨hd', fun j hj => ?_⟩
    obtain ⟨-, rfl⟩ | ⟨-, -, hj⟩ := (hslot j d).mp hj
    · exact hc.mbox c' hu' hd
    · exact hslots j hj
  case once => exact fun c' hu' => (hpending c').symm ▸ h.once c' hu'
  case oneMbox =>
    intro c₁ c₂ d hu₁ hu₂ hd₁ hd₂
    exact h.oneMbox c₁ c₂ d hu₁ hu₂ (hpending c₁ ▸ hd₁) (hpending c₂ ▸ hd₂)
  case opened =>
    intro fd d
    simp only [List.mem_cons, Prod.mk.injEq, h.opened, hslot]
    constructor
    · rintro (⟨rfl, rfl⟩ | ⟨j, rfl, hj⟩)
      · exact ⟨i, rfl, .inl ⟨rfl, rfl⟩⟩
      · refine ⟨j, rfl, .inr ⟨?_, ?_, hj⟩⟩
        · rintro rfl
          rw [hfree] at hj
          cases hj
        · rintro rfl
          exact hc.socket j hj
    · rintro ⟨j, rfl, ⟨rfl, rfl⟩ | ⟨-, -, hj⟩⟩
      · exact .inl ⟨rfl, rfl⟩
      · exact .inr ⟨j, rfl, hj⟩
  case nodup =>
    refine List.nodup_cons.mpr ⟨fun hmem => ?_, h.nodup⟩
    obtain ⟨⟨fd, d⟩, hmem, hfd⟩ := List.mem_map.mp hmem
    obtain ⟨j, hj, hconn'⟩ := (h.opened fd d).mp hmem
    obtain rfl : j = i := by
      simp only at hfd
      omega
    rw [hfree] at hconn'
    cases hconn'

theorem free (h : TableInv s) (hi : (s.sockets i).conn = some c) :
    TableInv { s with
      sockets := freeSocket s.sockets i
      opened := s.opened.filter fun x => x.1 ≠ lwipSocketOffset + i } ∧
    Apart { s with
      sockets := freeSocket s.sockets i
      opened := s.opened.filter fun x => x.1 ≠ lwipSocketOffset + i } c := by
  have hslot : ∀ j d, (freeSocket s.sockets i j).conn = some d ↔
      j ≠ i ∧ (s.sockets j).conn = some d := by
    intro j d
    by_cases hj : j = i <;> simp [freeSocket, hj]
  constructor
  · constructor
    case listening => exact h.listening
    case once => exact h.once
    case oneMbox => exact h.oneMbox
    case bound => exact fun j d hd => h.bound j d ((hslot j d).mp hd).2
    case used => exact fun j d hd => h.used j d ((hslot j d).mp hd).2
    case inj => exact fun j k d hj hk => h.inj j k d ((hslot j d).mp hj).2 ((hslot k d).mp hk).2
    case socket => exact fun j d hd => h.socket j d ((hslot j d).mp hd).2
    case waiting =>
      intro c' d hu hd
      obtain ⟨hd', hslots⟩ := h.waiting c' d hu hd
      exact ⟨hd', fun j hj => hslots j ((hslot j d).mp hj).2⟩
    case opened =>
      intro fd d
      simp only [List.mem_filter, h.opened, hslot, decide_eq_true_eq]
      constructor
      · rintro ⟨⟨j, rfl, hj⟩, hne⟩
        exact ⟨j, rfl, fun heq => hne (heq ▸ rfl), hj⟩
      · rintro ⟨j, rfl, hne, hj⟩
        exact ⟨⟨j, rfl, hj⟩, by omega⟩
    case nodup => exact h.nodup.sublist (List.filter_sublist.map _)
  · constructor
    · intro j hj
      obtain ⟨hne, hj⟩ := (hslot j c).mp hj
      exact hne (h.inj j i c hj hi)
    · exact fun c' hu hmem => (h.waiting c' c hu hmem).2 i hi

end TableInv

/-! ## What the calls do -/

section Calls

variable {s t : State} {c newconn : ConnId} {i : Nat} {timedOut : Bool} {ret : Ret}

/-- The connections have their sockets as before, and no descriptor is opened or closed. -/
structure SameSockets (s t : State) : Prop where
  conn : ∀ i, (t.sockets i).conn = (s.sockets i).conn
  opened : t.opened = s.opened

theorem SameSockets.refl : SameSockets s s := ⟨fun _ => rfl, rfl⟩

theorem TableInv.setSafeErr (h : TableInv s) (c : ConnId) (err : Err) :
    TableInv (s.setSafeErr c err) := by
  unfold State.setSafeErr
  split
  · exact h
  · exact h.setNetconn (fun _ _ => rfl) (h.listening c) (List.Sublist.refl _)

theorem setSafeErr_same (s : State) (c : ConnId) (err : Err) :
    SameSockets s (s.setSafeErr c err) := by
  unfold State.setSafeErr
  split <;> exact ⟨fun _ => rfl, rfl⟩

theorem setSafeErr_type (s : State) (c d : ConnId) (err : Err) :
    ((s.setSafeErr c err).netconn d).type = (s.netconn d).type := by
  unfold State.setSafeErr
  split
  · rfl
  · by_cases hd : d = c <;> simp [State.setNetconn, hd]

theorem TableInv.eventCallback (h : TableInv s) (c : ConnId) (evt : NetconnEvt) :
    TableInv (s.eventCallback c evt) := by
  unfold State.eventCallback
  simp only
  split
  · next hneg =>
    split
    · refine h.setNetconn (fun i hi => ?_) (h.listening c) (List.Sublist.refl _)
      have := h.socket_nonneg hi
      omega
    · exact h
  · split
    · exact h.setSock (by simp)
    · exact h

theorem eventCallback_same (s : State) (c : ConnId) (evt : NetconnEvt) :
    SameSockets s (s.eventCallback c evt) := by
  unfold State.eventCallback
  simp only
  split
  · split <;> exact ⟨fun _ => rfl, rfl⟩
  · split
    · next i _ =>
      refine ⟨fun j => ?_, rfl⟩
      by_cases hj : j = i <;> simp [hj]
    · exact .refl

theorem eventCallback_netconn (s : State) (c d : ConnId) (evt : NetconnEvt) :
    ((s.eventCallback c evt).netconn d).type = (s.netconn d).type ∧
      ((s.eventCallback c evt).netconn d).acceptmbox = (s.netconn d).acceptmbox := by
  unfold State.eventCallback
  simp only
  split
  · split
    · by_cases hd : d = c <;> simp [State.setNetconn, hd]
    · exact ⟨rfl, rfl⟩
  · split <;> exact ⟨rfl, rfl⟩

theorem eventCallback_used (s : State) (c : ConnId) (evt : NetconnEvt) :
    (s.eventCallback c evt).used = s.used := by
  unfold State.eventCallback
  simp only
  split
  · split <;> rfl
  · split <;> rfl

theorem accept_fetch {msg : Option ConnId} {mbox : List (Option ConnId)} (h : TableInv s)
    (hu : s.used c = true) (hmbox : (s.netconn c).acceptmbox = some (msg :: mbox))
    (ht : (s.setNetconn c { s.netconn c with acceptmbox := some mbox }).eventCallback c .rcvminus =
      t) :
    TableInv t ∧ SameSockets s t ∧ (t.netconn c).type = .tcp ∧
      ∀ newconn, msg = some newconn → Apart t newconn ∧ t.used newconn = true := by
  have htcp := h.listening c hu (by rw [hmbox]; exact Option.some_ne_none _)
  have hpending : (s.netconn c).pending = (msg :: mbox).filterMap id := by
    rw [Netconn.pending, hmbox, Option.getD_some]
  have hpop : TableInv (s.setNetconn c { s.netconn c with acceptmbox := some mbox }) := by
    refine h.setNetconn (fun _ _ => rfl) (fun _ _ => htcp) ?_
    rw [hpending]
    exact (List.sublist_cons_self msg mbox).filterMap id
  subst ht
  refine ⟨hpop.eventCallback c .rcvminus, ?_, ?_, ?_⟩
  · have hsame := eventCallback_same
      (s.setNetconn c { s.netconn c with acceptmbox := some mbox }) c .rcvminus
    exact ⟨hsame.conn, hsame.opened⟩
  · rw [(eventCallback_netconn _ c c _).1]
    simpa [State.setNetconn] using htcp
  · rintro newconn rfl
    have hmem : newconn ∈ (s.netconn c).pending := by
      rw [hpending]
      simp
    obtain ⟨hnew, hslots⟩ := h.waiting c newconn hu hmem
    have hrest : newconn ∉ mbox.filterMap id := by
      have honce := h.once c hu
      rw [hpending] at honce
      exact (List.nodup_cons.mp honce).1
    refine ⟨⟨fun i hi => ?_, fun c' hu' hd => ?_⟩, ?_⟩
    · rw [(eventCallback_same _ c .rcvminus).conn] at hi
      exact hslots i hi
    · rw [eventCallback_used] at hu'
      rw [Netconn.pending, (eventCallback_netconn _ c c' _).2] at hd
      by_cases hcc : c' = c
      · subst hcc
        simp only [State.setNetconn, Function.update_self, Option.getD_some] at hd
        exact hrest hd
      · simp only [State.setNetconn, Function.update_of_ne hcc] at hd
        exact hcc (h.oneMbox c' c newconn hu' hu hd hmem)
    · rw [eventCallback_used]
      exact hnew

theorem netconnAccept_err {err : Err} (h : TableInv s) (hu : s.used c = true)
    (hacc : netconnAccept s c timedOut = .err err t) :
    TableInv t ∧ SameSockets s t ∧ (t.netconn c).type = .tcp := by
  unfold netconnAccept at hacc
  simp only at hacc
  split at hacc
  · cases hacc
  · next mbox hmbox =>
    -- only a TCP connection has a mailbox
    have htcp := h.listening c hu (by rw [hmbox]; exact Option.some_ne_none _)
    split at hacc
    · cases hacc
      exact ⟨h, .refl, htcp⟩
    · split at hacc
      · split at hacc
        · cases hacc
          exact ⟨h.setSafeErr c _, setSafeErr_same s c _, (setSafeErr_type s c c _).trans htcp⟩
        · cases hacc
      · next msg mbox =>
        obtain ⟨hfetch, hsame, htype, -⟩ := accept_fetch h hu hmbox rfl
        split at hacc
        · cases hacc
          have hsafe := setSafeErr_same ((s.setNetconn c
            { s.netconn c with acceptmbox := some mbox }).eventCallback c .rcvminus) c .abrt
          refine ⟨hfetch.setSafeErr c _, ⟨fun i => ?_, ?_⟩, (setSafeErr_type _ c c _).trans htype⟩
          · exact (hsafe.conn i).trans (hsame.conn i)
          · exact hsafe.opened.trans hsame.opened
        · cases hacc

theorem netconnAccept_ok (h : TableInv s) (hu : s.used c = true)
    (hacc : netconnAccept s c timedOut = .ok newconn t) :
    TableInv t ∧ SameSockets s t ∧ Apart t newconn ∧ t.used newconn = true := by
  unfold netconnAccept at hacc
  simp only at hacc
  split at hacc
  · cases hacc
  · next mbox hmbox =>
    split at hacc
    · cases hacc
    · split at hacc
      · split at hacc <;> cases hacc
      · next msg mbox =>
        obtain ⟨hfetch, hsame, -, hnew⟩ := accept_fetch h hu hmbox rfl
        split at hacc
        · cases hacc
        · cases hacc
          obtain ⟨hapart, hused⟩ := hnew newconn rfl
          exact ⟨hfetch, hsame, hapart, hused⟩

theorem allocSocket_eq_some {sockets sockets' : Sockets} {type : NetconnType} {accepted : Bool}
    (h : allocSocket sockets c type accepted = some (i, sockets')) :
    i < numSockets ∧ (sockets i).conn = none ∧ sockets' = Function.update sockets i
      (LwipSock.reset { sockets i with conn := some c } type accepted) := by
  obtain ⟨j, hj, heq⟩ := Option.map_eq_some_iff.mp h
  obtain ⟨rfl, rfl⟩ := Prod.mk.inj heq
  refine ⟨List.mem_range.mp (List.mem_of_find?_eq_some hj), ?_, rfl⟩
  simpa using List.find?_some hj

/-- What `lwip_socket` and `lwip_accept` come to: an error, or a free entry for a connection
that had no socket before. -/
inductive Created (s : State) : Ret → State → Prop
  | error {t : State} (inv : TableInv t) : Created s .error t
  | socket {t : State} (i : Nat) (c : ConnId) (bound : i < numSockets)
      (free : (s.sockets i).conn = none) (new : ∀ j, (s.sockets j).conn ≠ some c)
      (slot : (t.sockets i).conn = some c)
      (inv : TableInv { t with opened := (lwipSocketOffset + i, c) :: t.opened }) :
      Created s ⟨lwipSocketOffset + i, some c⟩ t

theorem Created.record (h : Created s ret t) : TableInv (t.record (some ret)) := by
  cases h with
  | error inv => exact inv
  | socket i c _ _ _ _ inv => exact inv

theorem Created.congr {r : State} (h : Created s ret t) (hsame : SameSockets r s) :
    Created r ret t := by
  cases h with
  | error inv => exact .error inv
  | socket i c bound free new slot inv =>
    refine .socket i c bound ?_ (fun j => ?_) slot inv
    · rw [← hsame.conn]
      exact free
    · rw [← hsame.conn]
      exact new j

theorem acceptSocket_created (h : TableInv s) (hc : Apart s newconn)
    (hu : s.used newconn = true) :
    Created s (s.acceptSocket newconn).1 (s.acceptSocket newconn).2 := by
  unfold State.acceptSocket
  simp only
  split
  · exact .error (h.netconnDelete hc hu)
  · next i sockets halloc =>
    obtain ⟨hi, hfree, rfl⟩ := allocSocket_eq_some halloc
    rw [add_comm]
    refine .socket i newconn hi hfree hc.socket (by simp) ?_
    simp only [Function.update_idem]
    exact h.publish hc hu hi hfree (by simp) rfl rfl rfl

theorem lwipSocket_created (type protocol : Int) {netconn : Option ConnId} (h : TableInv s)
    (hnew : netconn.any s.used = false) :
    Created s (s.lwipSocket type protocol netconn).1 (s.lwipSocket type protocol netconn).2 := by
  unfold State.lwipSocket
  split
  · exact .error h
  · next type _ =>
    split
    · exact .error h
    · next conn =>
      obtain ⟨halloc, hapart⟩ := h.netconnAlloc (by simpa using hnew) type
      have hused : (s.netconnAlloc conn type).used conn = true := by simp [State.netconnAlloc]
      simp only
      split
      · exact .error (halloc.netconnDelete hapart hused)
      · next i sockets hsock =>
        obtain ⟨hi, hfree, rfl⟩ := allocSocket_eq_some hsock
        rw [add_comm]
        refine .socket i conn hi hfree hapart.socket (by simp) ?_
        exact halloc.publish hapart hused hi hfree (by simp) rfl rfl rfl

theorem getConn_eq_some {fd : Int} :
    s.getConn fd = some (i, c) ↔
      fd = lwipSocketOffset + i ∧ i < numSockets ∧ (s.sockets i).conn = some c := by
  unfold State.getConn
  simp only [Option.bind_eq_some_iff, Option.map_eq_some_iff, Prod.mk.injEq, getSocket_eq_some]
  constructor
  · rintro ⟨j, ⟨rfl, hj, -⟩, d, hd, rfl, rfl⟩
    exact ⟨rfl, hj, hd⟩
  · rintro ⟨rfl, hi, hc⟩
    exact ⟨i, ⟨rfl, hi, by simp [hc]⟩, c, hc, rfl, rfl⟩

/-- The branch of EOPNOTSUPP is not taken: on a socket that is not TCP the call is still in
`netconn_accept`. -/
theorem lwipAccept_created {fd : Int} {peer : Err} (h : TableInv s)
    (hret : lwipAccept s fd timedOut peer = .returns ret t) : Created s ret t := by
  unfold lwipAccept at hret
  split at hret
  · cases hret
    exact .error h
  · next i conn hconn =>
    have hu := h.used i conn (getConn_eq_some.mp hconn).2.2
    split at hret
    · cases hret
      exact .error h
    · split at hret
      · cases hret
      · cases hret
      · next s' hacc =>
        obtain ⟨hinv, -, htcp⟩ := netconnAccept_err h hu hacc
        cases hret
        rw [if_neg (not_not_intro htcp)]
        exact .error hinv
      · next newconn s' hacc =>
        obtain ⟨hinv, hsame, hapart, hused⟩ := netconnAccept_ok h hu hacc
        split at hret
        · cases hret
          exact .error (hinv.netconnDelete hapart hused)
        · cases hret
          exact (acceptSocket_created hinv hapart hused).congr hsame

theorem lwipClose_inv {fd : Int} (h : TableInv s) :
    TableInv { (lwipClose s fd).2 with opened := s.opened.filter fun x => x.1 ≠ fd } := by
  unfold lwipClose
  split
  · next hconn =>
    -- What is not open is not in the list.
    have hnot : (s.opened.filter fun x => x.1 ≠ fd) = s.opened := by
      rw [List.filter_eq_self]
      rintro ⟨fd', c⟩ hmem
      obtain ⟨i, rfl, hi⟩ := (h.opened fd' c).mp hmem
      have hne : lwipSocketOffset + (i : Int) ≠ fd := by
        rintro rfl
        rw [getConn_eq_some.mpr ⟨rfl, h.bound i c hi, hi⟩] at hconn
        cases hconn
      simpa using hne
    rw [hnot]
    exact h
  · next i conn hconn =>
    obtain ⟨rfl, -, hi⟩ := getConn_eq_some.mp hconn
    obtain ⟨hfree, hapart⟩ := h.free hi
    exact hfree.netconnDelete hapart (h.used i conn hi)

theorem lwipListen_inv {fd : Int} {memory : Bool} (h : TableInv s) :
    TableInv (lwipListen s fd memory) := by
  unfold lwipListen
  split
  · exact h
  · next c _ =>
    simp only
    split
    · next hcond =>
      simp only [Bool.and_eq_true, decide_eq_true_eq] at hcond
      refine h.setNetconn (fun _ _ => rfl) (fun _ _ => hcond.1.1.2) ?_
      exact List.nil_sublist _
    · exact h

theorem lwipFcntl_inv {fd : Int} {nonblock : Bool} (h : TableInv s) :
    TableInv (lwipFcntl s fd nonblock) := by
  unfold lwipFcntl
  split
  · exact h
  · exact h.setNetconn (fun _ _ => rfl) (h.listening _) (List.Sublist.refl _)

end Calls

/-! ## Every history -/

section Histories

variable {s t : State} {a : Action}

theorem call_created {r : Option Ret} (h : TableInv s) (hcall : call s a = some (r, t)) :
    TableInv (t.record r) ∧ ∀ ret, r = some ret → Created s ret t := by
  cases a with
  | socket type protocol netconn =>
    simp only [call] at hcall
    split at hcall
    · cases hcall
    · next hnew =>
      cases hcall
      have hcreated := lwipSocket_created type protocol h
        (Bool.eq_false_iff.mpr hnew)
      refine ⟨hcreated.record, ?_⟩
      rintro ret ⟨⟩
      exact hcreated
  | accept fd timedOut peer =>
    simp only [call] at hcall
    split at hcall
    · cases hcall
    · cases hcall
      exact ⟨h, fun _ hret => by cases hret⟩
    · next hret =>
      cases hcall
      have hcreated := lwipAccept_created h hret
      refine ⟨hcreated.record, ?_⟩
      rintro ret ⟨⟩
      exact hcreated
  | close fd =>
    cases hcall
    refine ⟨?_, fun _ hret => by cases hret⟩
    unfold close vector
    split
    · next hhal =>
      -- No descriptor of the HAL is open here.
      have hnot : (s.opened.filter fun x => x.1 ≠ fd) = s.opened := by
        rw [List.filter_eq_self]
        rintro ⟨fd', c⟩ hmem
        obtain ⟨i, rfl, -⟩ := (h.opened fd' c).mp hmem
        have hne : lwipSocketOffset + (i : Int) ≠ fd := by
          unfold lwipSocketOffset
          omega
        simpa using hne
      rw [hnot]
      exact h
    · exact lwipClose_inv h
  | listen fd memory =>
    cases hcall
    exact ⟨lwipListen_inv h, fun _ hret => by cases hret⟩
  | fcntl fd nonblock =>
    cases hcall
    refine ⟨?_, fun _ hret => by cases hret⟩
    unfold fcntl vector
    split
    · exact h
    · exact lwipFcntl_inv h
  | acceptFunction c newconn =>
    simp only [call] at hcall
    split at hcall
    · next hcond =>
      simp only [Bool.and_eq_true, Bool.not_eq_true'] at hcond
      obtain ⟨mbox, hmbox, heq⟩ := Option.map_eq_some_iff.mp hcall
      cases heq
      exact ⟨h.accepted hcond.1 hcond.2 hmbox, fun _ hret => by cases hret⟩
    · cases hcall
  | errTcp c err posted =>
    cases hcall
    refine ⟨h.setNetconn (fun _ _ => rfl) (fun hu hmbox => h.listening c hu ?_) ?_,
      fun _ hret => by cases hret⟩
    · simpa using hmbox
    · unfold Netconn.pending
      cases (s.netconn c).acceptmbox with
      | none => exact List.Sublist.refl _
      | some mbox => cases posted <;> simp
  | safeErr c err =>
    cases hcall
    exact ⟨h.setSafeErr c err, fun _ hret => by cases hret⟩
  | event c evt =>
    cases hcall
    exact ⟨h.eventCallback c evt, fun _ hret => by cases hret⟩

/-- A descriptor that `lwip_socket` or `lwip_accept` returns is the shifted index of the entry
that the new connection has just got. -/
def ReturnsDescriptor (s : State) (a : Action) (t : State) : Prop :=
  ∀ ret t', call s a = some (some ret, t') → 0 ≤ ret.value →
    ∃ (i : Nat) (c : ConnId), ret = ⟨lwipSocketOffset + i, some c⟩ ∧ i < numSockets ∧
      (s.sockets i).conn = none ∧ (∀ j, (s.sockets j).conn ≠ some c) ∧
      (t.sockets i).conn = some c

/-- The open descriptors are different ones, none is of the HAL, and each leads to its own
connection; no other number leads anywhere. -/
structure DescriptorsOk (s : State) : Prop where
  distinct : (s.opened.map Prod.fst).Nodup
  range : ∀ fd c, (fd, c) ∈ s.opened → altMaxFd ≤ fd ∧ fd < altMaxFd + numSockets
  own : ∀ fd c, (fd, c) ∈ s.opened → ∃ i, getSocket s.sockets fd = some i ∧
    trygetSocket s.sockets fd = some i ∧ (s.sockets i).conn = some c ∧ (s.netconn c).socket = fd
  other : ∀ fd, fd ∉ s.opened.map Prod.fst →
    getSocket s.sockets fd = none ∧ trygetSocket s.sockets fd = none

theorem TableInv.descriptorsOk (h : TableInv s) : DescriptorsOk s where
  distinct := h.nodup
  range fd c hmem := by
    obtain ⟨i, rfl, hi⟩ := (h.opened fd c).mp hmem
    have := h.bound i c hi
    unfold lwipSocketOffset
    omega
  own fd c hmem := by
    obtain ⟨i, rfl, hi⟩ := (h.opened fd c).mp hmem
    have hconn : (s.sockets i).conn ≠ none := by simp [hi]
    have hget := getSocket_offset (h.bound i c hi) hconn
    exact ⟨i, hget, hget, hi, h.socket i c hi⟩
  other fd hnot := by
    rw [trygetSocket_eq, and_self, Option.eq_none_iff_forall_ne_some]
    intro i hget
    obtain ⟨rfl, -, hconn⟩ := getSocket_eq_some.mp hget
    obtain ⟨c, hc⟩ := Option.ne_none_iff_exists'.mp hconn
    exact hnot (List.mem_map.mpr ⟨_, (h.opened _ c).mpr ⟨i, rfl, hc⟩, rfl⟩)

theorem step_returns (h : TableInv s) (hstep : step s a = some t) :
    ReturnsDescriptor s a t ∧ TableInv t := by
  obtain ⟨⟨r, t'⟩, hcall, rfl⟩ := Option.map_eq_some_iff.mp hstep
  obtain ⟨hinv, hcreated⟩ := call_created h hcall
  refine ⟨fun ret t'' hret hpos => ?_, hinv⟩
  rw [hcall] at hret
  cases hret
  cases hcreated ret rfl with
  | error => exact absurd hpos (by decide)
  | socket i c bound free new slot => exact ⟨i, c, rfl, bound, free, new, slot⟩

/-- The wrapper of a system call passes the descriptors of the HAL to the HAL, and those that
are open here to lwIP. -/
def Dispatches (α : Type*) (s : State) (wrapper : (Int → α) → (Int → α) → Int → α) : Prop :=
  ∀ hal lwip, (∀ fd < altMaxFd, wrapper hal lwip fd = hal fd) ∧
    ∀ fd ∈ s.opened.map Prod.fst, wrapper hal lwip fd = lwip fd

theorem DescriptorsOk.dispatches {α : Type*} (h : DescriptorsOk s) :
    Dispatches α s vector := by
  refine fun hal lwip => ⟨fun fd hfd => if_pos hfd, fun fd hmem => ?_⟩
  obtain ⟨⟨fd, c⟩, hopen, rfl⟩ := List.mem_map.mp hmem
  exact if_neg (not_lt.mpr (h.range fd c hopen).1)

/-- In every history of calls, descriptors are what they should be. -/
theorem descriptors_partitioned (netconn : ConnId → Netconn) (as : List Action) :
    EveryStep step ReturnsDescriptor (init netconn) as ∧
    ∀ s, run step (init netconn) as = some s → DescriptorsOk s ∧
      ∀ α Arg : Type, Dispatches α s close ∧ Dispatches (Arg → α) s read ∧
        Dispatches (Arg → α) s write ∧ Dispatches (Arg → α) s fcntl := by
  refine ⟨everyStep_of_invariant (fun s a t => step_returns) as (init_inv netconn),
    fun s hrun => ?_⟩
  have hinv := run_invariant (fun s a t hs hstep => (step_returns hs hstep).2) (init_inv netconn)
    hrun
  have hok := hinv.descriptorsOk
  exact ⟨hok, fun α Arg => ⟨hok.dispatches, hok.dispatches, hok.dispatches, hok.dispatches⟩⟩

end Histories

/-- A listening socket, a connection accepted from it, a UDP socket in the entry of the closed
one, and an `lwip_accept` on it that does not come back. -/
def exampleHistory : List Action :=
  [.socket sockStream 0 (some 7), .listen 32 true, .acceptFunction 7 8, .event 8 .rcvplus,
    .accept 32 false .ok, .close 32, .socket sockDgram 0 (some 9), .accept 32 false .ok]

theorem descriptors_partitioned_example :
    ∃ s, run step (init fun _ => .alloc .raw) exampleHistory = some s ∧
      s.opened = [(32, 9), (33, 8)] ∧ DescriptorsOk s ∧
      EveryStep step ReturnsDescriptor (init fun _ => .alloc .raw) exampleHistory := by
  have hopen : (run step (init fun _ => .alloc .raw) exampleHistory).map State.opened =
      some [(32, 9), (33, 8)] := by
    decide +kernel
  obtain ⟨s, hrun, hs⟩ := Option.map_eq_some_iff.mp hopen
  have hpartitioned := descriptors_partitioned (fun _ => .alloc .raw) exampleHistory
  exact ⟨s, hrun, hs, (hpartitioned.2 s hrun).1, hpartitioned.1⟩

end FreeLwip.Api
