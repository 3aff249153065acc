import FreeLwip.SysArch.Timers

/-!
# Timers and traffic

A fetch that returns a message takes a millisecond at least off the first timeout, and so off
the time that every pending timer still waits. What else happens to the list leaves these
times alone. So a timer sees no more messages than it has milliseconds.
-/

namespace FreeLwip.SysArch

open Run DeltaList Kernel

variable {H A : Type*}

/-- The time that each pending timer still waits, in the order of the list. -/
def waits (s : TcpipThread H A) : List (Nat × Option H × A × Nat) :=
  expiries 0 (s.nextTimeout.map Timeo.entry)

/-- A handler that has been registered, and the messages that were delivered since. -/
structure Registration (H A : Type*) where
  h : H
  arg : A
  msecs : Nat
  messages : Nat

def Registration.delivered (r : Registration H A) : Registration H A :=
  { r with messages := r.messages + 1 }

/-- The thread, and the handlers that were registered and neither called nor cancelled, in the
order in which they are to be called. -/
structure Watched (H A : Type*) where
  thread : TcpipThread H A
  registrations : List (Registration H A)

namespace Timers

section

variable [DecidableEq H] [DecidableEq A]

/-- The first registration of the handler with this argument is no longer pending. -/
def settle (h : H) (arg : A) (rs : List (Registration H A)) : List (Registration H A) :=
  rs.eraseP fun r => r.h = h ∧ r.arg = arg

/-- A handler is not pending any more once it was called. -/
def afterCalls (calls : List (Call H A)) (rs : List (Registration H A)) :
    List (Registration H A) :=
  calls.foldl (fun rs c => settle c.h c.arg rs) rs

/-- Where `sys_timeout` puts a new handler among the pending ones: before the first that waits
longer. -/
def position (s : TcpipThread H A) (msecs : BitVec 32) : Nat :=
  ((waits s).take ((waits s).findIdx fun w => msecs.toNat < w.1)).countP fun w => w.2.1.isSome

/-- What becomes of the registrations when `a` takes the thread from `s` to `t`. One is added
by `sys_timeout`, and one goes only by `sys_untimeout` or by a call of its handler. -/
def watch (s : TcpipThread H A) (a : Action H A) (t : TcpipThread H A)
    (rs : List (Registration H A)) : List (Registration H A) :=
  match a with
  | .sysTimeout msecs (some h) arg =>
    if s.memp = 0 then
      rs
    else
      rs.take (position s msecs) ++
        { h := h, arg := arg, msecs := msecs.toNat, messages := 0 } :: rs.drop (position s msecs)
  | .sysUntimeout (some h) arg => settle h arg rs
  | .message => afterCalls (t.calls.drop s.calls.length) (rs.map Registration.delivered)
  | _ => afterCalls (t.calls.drop s.calls.length) rs

def watchedStep (s : Watched H A) (a : Action H A) : Option (Watched H A) :=
  (step s.thread a).map fun t =>
    { thread := t, registrations := watch s.thread a t s.registrations }

end

/-- No more messages than it has milliseconds were delivered since a pending handler was
registered, and the pending handlers are those on the list. -/
def NotStarved (s : Watched H A) : Prop :=
  (∀ r ∈ s.registrations, r.messages ≤ r.msecs) ∧
    List.Forall₂ (fun t r => t.h = some r.h ∧ t.arg = r.arg)
      (s.thread.nextTimeout.filter fun t => t.h.isSome) s.registrations

/-- The times that the other timers wait stay, and so does their order. -/
def Undisturbed [DecidableEq H] [DecidableEq A] (s : TcpipThread H A) (a : Action H A)
    (t : TcpipThread H A) : Prop :=
  match a with
  | .sysTimeout msecs handler arg =>
    (s.memp = 0 ∧ waits t = waits s) ∨
      ∃ front back, waits s = front ++ back ∧
        waits t = front ++ (msecs.toNat, handler, arg, s.now + msecs.toNat) :: back
  | .sysUntimeout handler arg =>
    waits t = (waits s).eraseP fun w => w.2.1 = handler ∧ w.2.2.1 = arg
  | _ => True

/-! ## The accounts of the timers -/

/-- The timers that have a handler to call. -/
def handlers (l : List (Nat × Option H × A × Nat)) : List (Nat × Option H × A × Nat) :=
  l.filter fun w => w.2.1.isSome

/-- The time that a handler waits, and the messages that it has seen, come to no more than its
milliseconds. -/
def Accounts (w : Nat × Option H × A × Nat) (r : Registration H A) : Prop :=
  w.2.1 = some r.h ∧ w.2.2.1 = r.arg ∧ w.1 + r.messages ≤ r.msecs

structure WatchedInv (s : Watched H A) : Prop where
  timers : TimersInv s.thread
  accounts : List.Forall₂ Accounts (handlers (waits s.thread)) s.registrations

variable {s t : TcpipThread H A} {rs : List (Registration H A)} {base base' : Nat}
  {l : List (Nat × Option H × A × Nat)}

theorem handlers_append (l l' : List (Nat × Option H × A × Nat)) :
    handlers (l ++ l') = handlers l ++ handlers l' := List.filter_append ..

theorem handlers_cons_some (x due : Nat) (h : H) (arg : A) :
    handlers ((x, some h, arg, due) :: l) = (x, some h, arg, due) :: handlers l :=
  List.filter_cons_of_pos rfl

theorem handlers_cons_none (x due : Nat) (arg : A) :
    handlers ((x, none, arg, due) :: l) = handlers l :=
  List.filter_cons_of_neg (by simp)

theorem notStarved_of_accounts {l : List (Timeo H A)}
    (h : List.Forall₂ Accounts (handlers (expiries base (l.map Timeo.entry))) rs) :
    (∀ r ∈ rs, r.messages ≤ r.msecs) ∧
      List.Forall₂ (fun t r => t.h = some r.h ∧ t.arg = r.arg) (l.filter fun t => t.h.isSome)
        rs := by
  induction l generalizing base rs with
  | nil =>
    cases h
    exact ⟨by simp, .nil⟩
  | cons t rest ih =>
    rw [entries_cons, expiries_cons] at h
    cases hh : t.h with
    | none =>
      rw [hh, handlers_cons_none] at h
      rw [List.filter_cons_of_neg (by simp [hh])]
      exact ih h
    | some handler =>
      rw [hh, handlers_cons_some] at h
      obtain _ | ⟨⟨hsame, harg, hmsecs⟩, hrest⟩ := h
      obtain ⟨hall, hlist⟩ := ih hrest
      rw [List.filter_cons_of_pos (by simp [hh])]
      refine ⟨List.forall_mem_cons.mpr ⟨by omega, hall⟩, .cons ⟨hh.trans hsame, harg⟩ hlist⟩

theorem accounts_map {k : Nat} {f : Registration H A → Registration H A}
    (hf : ∀ r, (f r).h = r.h ∧ (f r).arg = r.arg ∧ (f r).msecs = r.msecs ∧
      (f r).messages = r.messages + k)
    {l' : List (Nat × Option H × A × Nat)}
    (hsooner : List.Forall₂ (fun x y => x.1 + k ≤ y.1 ∧ x.2 = y.2) l' l)
    (h : List.Forall₂ Accounts (handlers l) rs) :
    List.Forall₂ Accounts (handlers l') (rs.map f) := by
  induction hsooner generalizing rs with
  | nil =>
    cases h
    exact .nil
  | @cons x y _ _ hxy _ ih =>
    obtain ⟨w, handler, arg, due⟩ := x
    obtain ⟨w', handler', arg', due'⟩ := y
    obtain ⟨hle, heq⟩ := hxy
    obtain ⟨rfl, rfl, rfl⟩ := Prod.mk.inj heq |>.imp_right Prod.mk.inj
    cases handler with
    | none =>
      rw [handlers_cons_none] at h ⊢
      exact ih h
    | some handler =>
      rw [handlers_cons_some] at h ⊢
      obtain _ | ⟨⟨hh, harg, hmsecs⟩, hrest⟩ := h
      obtain ⟨hfh, hfarg, hfmsecs, hfmessages⟩ := hf _
      refine .cons ⟨?_, ?_, ?_⟩ (ih hrest)
      · rw [hfh, ← hh]
      · rw [hfarg, ← harg]
      · rw [hfmsecs, hfmessages]
        simp only at hle hmsecs ⊢
        omega

theorem accounts_sooner (hle : base' ≤ base)
    (h : List.Forall₂ Accounts (handlers (expiries base l)) rs) :
    List.Forall₂ Accounts (handlers (expiries base' l)) rs := by
  have hsame := accounts_map (k := 0) (f := id) (fun r => ⟨rfl, rfl, rfl, rfl⟩)
    (expiries_sooner hle l) h
  rwa [List.map_id] at hsame

theorem accounts_delivered (hlt : base' < base)
    (h : List.Forall₂ Accounts (handlers (expiries base l)) rs) :
    List.Forall₂ Accounts (handlers (expiries base' l)) (rs.map Registration.delivered) :=
  accounts_map (k := 1) (f := Registration.delivered) (fun _ => ⟨rfl, rfl, rfl, rfl⟩)
    (expiries_sooner hlt l) h

theorem accounts_charge {elapsed d : Nat} {a : Option H × A × Nat} (hd : 0 < d)
    (helapsed : 0 < elapsed) (h : List.Forall₂ Accounts (handlers (expiries 0 ((d, a) :: l))) rs) :
    List.Forall₂ Accounts (handlers (expiries 0 (charge elapsed ((d, a) :: l))))
      (rs.map Registration.delivered) := by
  refine accounts_map (k := 1) (f := Registration.delivered) (fun r => ⟨rfl, rfl, rfl, rfl⟩) ?_ h
  rw [charge, expiries_cons, expiries_cons]
  refine .cons ⟨?_, rfl⟩ (expiries_sooner ?_ l)
  · simp only
    omega
  · omega

/-! ## Calls of handlers -/

/-- Either nothing is taken off the list, or its first timer is, and its handler is called. -/
def Popped (s t : TcpipThread H A) : Prop :=
  (t.nextTimeout = s.nextTimeout ∧ t.calls = s.calls) ∨
    ∃ e, s.nextTimeout = e :: t.nextTimeout ∧ t.calls = s.calls ++ s.called e

theorem callHandler_popped (s : TcpipThread H A) : Popped s s.callHandler := by
  unfold TcpipThread.callHandler
  split
  · exact .inl ⟨rfl, rfl⟩
  · next e rest hlist => exact .inr ⟨e, hlist, rfl⟩

theorem sysTimeoutsMboxFetch_popped (s : TcpipThread H A) : Popped s s.sysTimeoutsMboxFetch := by
  unfold TcpipThread.sysTimeoutsMboxFetch
  split
  · exact .inl ⟨rfl, rfl⟩
  · split
    · exact .inl ⟨rfl, rfl⟩
    · exact callHandler_popped s

theorem notReceived_popped (s : TcpipThread H A) (f : Fetch) : Popped s (s.notReceived f) := by
  unfold TcpipThread.notReceived
  split
  · exact .inl ⟨rfl, rfl⟩
  · exact callHandler_popped s

section

variable [DecidableEq H] [DecidableEq A]

theorem settle_delivered (h : H) (arg : A) (rs : List (Registration H A)) :
    settle h arg (rs.map Registration.delivered) =
      (settle h arg rs).map Registration.delivered := by
  unfold settle
  rw [List.eraseP_map]
  rfl

theorem afterCalls_delivered (calls : List (Call H A)) (rs : List (Registration H A)) :
    afterCalls calls (rs.map Registration.delivered) =
      (afterCalls calls rs).map Registration.delivered := by
  induction calls generalizing rs with
  | nil => rfl
  | cons c calls ih =>
    unfold afterCalls at ih ⊢
    rw [List.foldl_cons, settle_delivered, ih, List.foldl_cons]

theorem afterCalls_same (h : t.calls = s.calls) :
    afterCalls (t.calls.drop s.calls.length) rs = rs := by
  rw [h, List.drop_length]
  rfl

theorem accounts_called {e : Timeo H A} {x : Nat}
    (h : List.Forall₂ Accounts (handlers ((x, e.h, e.arg, e.due) :: l)) rs) :
    List.Forall₂ Accounts (handlers l) (afterCalls (s.called e) rs) := by
  unfold TcpipThread.called
  cases hh : e.h with
  | none =>
    rw [hh, handlers_cons_none] at h
    exact h
  | some handler =>
    rw [hh, handlers_cons_some] at h
    obtain _ | ⟨⟨hsame, harg, -⟩, hrest⟩ := h
    have hfirst := Option.some.inj hsame
    simp only at harg
    change List.Forall₂ Accounts (handlers l) (settle handler e.arg (_ :: _))
    rw [settle, List.eraseP_cons_of_pos (by simp [← hfirst, ← harg])]
    exact hrest

theorem accounts_popped (hpopped : Popped s t)
    (h : List.Forall₂ Accounts (handlers (waits s)) rs) :
    List.Forall₂ Accounts (handlers (waits t))
      (afterCalls (t.calls.drop s.calls.length) rs) := by
  unfold waits at h ⊢
  rcases hpopped with ⟨hlist, hcalls⟩ | ⟨e, hlist, hcalls⟩
  · rw [hlist, afterCalls_same hcalls]
    exact h
  · rw [hlist, entries_cons, expiries_cons] at h
    rw [hcalls, List.drop_left]
    exact accounts_sooner (Nat.zero_le _) (accounts_called h)

theorem accounts_popped_delivered (hpopped : Popped s t)
    (hhead : ∀ e rest, s.nextTimeout = e :: rest → 0 < e.time.toNat)
    (hne : t.nextTimeout ≠ s.nextTimeout)
    (h : List.Forall₂ Accounts (handlers (waits s)) rs) :
    List.Forall₂ Accounts (handlers (waits t))
      (afterCalls (t.calls.drop s.calls.length) (rs.map Registration.delivered)) := by
  rcases hpopped with ⟨hlist, -⟩ | ⟨e, hlist, hcalls⟩
  · exact absurd hlist hne
  · have hpos := hhead e _ hlist
    unfold waits at h ⊢
    rw [hlist, entries_cons, expiries_cons] at h
    rw [hcalls, List.drop_left, afterCalls_delivered]
    exact accounts_delivered (by omega) (accounts_called h)

theorem received_accounts (h : TimersInv s) {f : Fetch} (hf : s.fetch = some f)
    (hacc : List.Forall₂ Accounts (handlers (waits s)) rs) :
    List.Forall₂ Accounts (handlers (waits (s.received f)))
      (afterCalls ((s.received f).calls.drop s.calls.length)
        (rs.map Registration.delivered)) := by
  have hhead : f.timeout ≠ 0 → ∀ e rest, s.nextTimeout = e :: rest → 0 < e.time.toNat := by
    intro htimeout e rest hlist
    rw [← (h.fetch f hf).head e rest hlist]
    exact Nat.pos_of_ne_zero fun h0 => htimeout (BitVec.eq_of_toNat_eq h0)
  have hreceives := h.receives hf
  generalize s.received f = t at hreceives ⊢
  cases hreceives with
  | untimed _ hnil =>
    rw [afterCalls_same rfl]
    simp only [waits, hnil] at hacc ⊢
    cases hacc
    exact .nil
  | outlasts htimeout =>
    refine accounts_popped_delivered (callHandler_popped s) (hhead htimeout) ?_ hacc
    unfold TcpipThread.callHandler
    split
    · next hnil => exact absurd hnil (h.nextTimeout_ne_nil hf htimeout)
    · next e rest hlist =>
      rw [hlist]
      exact fun heq => absurd (congrArg List.length heq) (by simp)
  | charges htimeout hcharged _ hlist =>
    rw [afterCalls_same rfl]
    unfold waits at hacc ⊢
    simp only [TimersInv.charged_entries]
    rw [hlist] at hacc
    exact accounts_charge (hhead htimeout _ _ hlist) hcharged hacc

end

/-! ## Insertion and removal -/

theorem forall₂_eraseP {α β : Type*} {R : α → β → Prop} {p : α → Bool} {q : β → Bool}
    {l₁ : List α} {l₂ : List β} (hpq : ∀ x y, R x y → p x = q y) (h : List.Forall₂ R l₁ l₂) :
    List.Forall₂ R (l₁.eraseP p) (l₂.eraseP q) := by
  induction h with
  | nil => exact .nil
  | @cons x y _ _ hxy hrest ih =>
    cases hy : q y with
    | true =>
      rw [List.eraseP_cons_of_pos (by rw [hpq x y hxy, hy]), List.eraseP_cons_of_pos hy]
      exact hrest
    | false =>
      rw [List.eraseP_cons_of_neg (by simp [hpq x y hxy, hy]),
        List.eraseP_cons_of_neg (by simp [hy])]
      exact .cons hxy ih

theorem waits_sysTimeout {msecs : BitVec 32} {handler : Option H} {arg : A} (hmemp : s.memp ≠ 0) :
    waits (s.sysTimeout msecs handler arg) =
      (waits s).take ((waits s).findIdx fun w => msecs.toNat < w.1) ++
        (msecs.toNat, handler, arg, s.now + msecs.toNat) ::
          (waits s).drop ((waits s).findIdx fun w => msecs.toNat < w.1) := by
  unfold TcpipThread.sysTimeout
  rw [if_neg hmemp]
  unfold waits
  simp only [insertTimeout_entries, expiries_insert, Nat.zero_add]

theorem waits_sysUntimeout [DecidableEq H] [DecidableEq A] (h : TimersInv s)
    (handler : Option H) (arg : A) :
    waits (s.sysUntimeout handler arg) =
      (waits s).eraseP fun w => w.2.1 = handler ∧ w.2.2.1 = arg := by
  unfold TcpipThread.sysUntimeout waits
  simp only [removeTimeout_entries handler arg h.span, expiries_remove]

theorem sysTimeout_calls (s : TcpipThread H A) (msecs : BitVec 32) (handler : Option H) (arg : A) :
    (s.sysTimeout msecs handler arg).calls = s.calls := by
  unfold TcpipThread.sysTimeout
  split <;> rfl

theorem accounts_sysTimeout [DecidableEq H] [DecidableEq A] {msecs : BitVec 32}
    {handler : Option H} {arg : A} (h : List.Forall₂ Accounts (handlers (waits s)) rs) :
    List.Forall₂ Accounts (handlers (waits (s.sysTimeout msecs handler arg)))
      (watch s (.sysTimeout msecs handler arg) (s.sysTimeout msecs handler arg) rs) := by
  by_cases hmemp : s.memp = 0
  · have hsame : s.sysTimeout msecs handler arg = s := by
      rw [TcpipThread.sysTimeout, if_pos hmemp]
    rw [hsame]
    cases handler with
    | none =>
      simp only [watch, afterCalls_same]
      exact h
    | some handler =>
      simp only [watch, if_pos hmemp]
      exact h
  · rw [waits_sysTimeout hmemp, handlers_append]
    have hsplit := h
    rw [← List.take_append_drop ((waits s).findIdx fun w => msecs.toNat < w.1) (waits s),
      handlers_append] at hsplit
    cases handler with
    | none =>
      simp only [watch]
      rw [handlers_cons_none, afterCalls_same (sysTimeout_calls ..)]
      exact hsplit
    | some handler =>
      have hlength : position s msecs = (handlers ((waits s).take
          ((waits s).findIdx fun w => msecs.toNat < w.1))).length := List.countP_eq_length_filter ..
      have hfront := List.forall₂_take (position s msecs) hsplit
      have hback := List.forall₂_drop (position s msecs) hsplit
      rw [hlength, List.take_left, ← hlength] at hfront
      rw [hlength, List.drop_left, ← hlength] at hback
      simp only [watch, if_neg hmemp]
      rw [handlers_cons_some]
      exact List.rel_append hfront (.cons ⟨rfl, rfl, le_rfl⟩ hback)

theorem handlers_eraseP [DecidableEq H] [DecidableEq A] (handler : Option H) (arg : A) :
    handlers (l.eraseP fun w => w.2.1 = handler ∧ w.2.2.1 = arg) =
      match handler with
      | none => handlers l
      | some _ => (handlers l).eraseP fun w => w.2.1 = handler ∧ w.2.2.1 = arg := by
  induction l with
  | nil => cases handler <;> rfl
  | cons w rest ih =>
    obtain ⟨x, h, arg', due⟩ := w
    by_cases hw : h = handler ∧ arg' = arg
    · obtain ⟨rfl, rfl⟩ := hw
      rw [List.eraseP_cons_of_pos (by simp)]
      cases h with
      | none => rw [handlers_cons_none]
      | some h =>
        rw [handlers_cons_some]
        exact (List.eraseP_cons_of_pos (by simp)).symm
    · rw [List.eraseP_cons_of_neg (by simpa using hw)]
      cases h with
      | none =>
        rw [handlers_cons_none, ih, handlers_cons_none]
      | some h =>
        rw [handlers_cons_some, ih, handlers_cons_some]
        cases handler with
        | none => rfl
        | some handler => exact (List.eraseP_cons_of_neg (by simpa using hw)).symm

theorem accounts_sysUntimeout [DecidableEq H] [DecidableEq A] (hinv : TimersInv s)
    {handler : Option H} {arg : A} (h : List.Forall₂ Accounts (handlers (waits s)) rs) :
    List.Forall₂ Accounts (handlers (waits (s.sysUntimeout handler arg)))
      (watch s (.sysUntimeout handler arg) (s.sysUntimeout handler arg) rs) := by
  rw [waits_sysUntimeout hinv, handlers_eraseP]
  cases handler with
  | none =>
    have hcalls : (s.sysUntimeout none arg).calls = s.calls := rfl
    simp only [watch]
    rw [afterCalls_same hcalls]
    exact h
  | some handler =>
    simp only [watch]
    refine forall₂_eraseP (fun w r hwr => ?_) h
    rw [hwr.1, hwr.2.1]
    simp

/-! ## Every run -/

section

variable [DecidableEq H] [DecidableEq A]

theorem WatchedInv.step {s t : Watched H A} {a : Action H A} (h : WatchedInv s)
    (hstep : watchedStep s a = some t) : WatchedInv t := by
  obtain ⟨t, hthread, rfl⟩ := Option.map_eq_some_iff.mp hstep
  refine ⟨h.timers.step hthread, ?_⟩
  have hacc := h.accounts
  cases moves_of_step hthread with
  | tick | queueEmpty | waits => exact accounts_popped (.inl ⟨rfl, rfl⟩) hacc
  | sysTimeout => exact accounts_sysTimeout hacc
  | sysUntimeout => exact accounts_sysUntimeout h.timers hacc
  | sysTimeoutsMboxFetch => exact accounts_popped (sysTimeoutsMboxFetch_popped _) hacc
  | expires => exact accounts_popped (notReceived_popped _ _) hacc
  | message hf => exact received_accounts h.timers hf hacc

theorem undisturbed {s t : TcpipThread H A} {a : Action H A} (h : TimersInv s)
    (hstep : step s a = some t) : Undisturbed s a t := by
  cases moves_of_step hstep with
  | sysTimeout =>
    by_cases hmemp : s.memp = 0
    · left
      rw [TcpipThread.sysTimeout, if_pos hmemp]
      exact ⟨hmemp, rfl⟩
    · exact .inr ⟨_, _, (List.take_append_drop _ _).symm, waits_sysTimeout hmemp⟩
  | sysUntimeout => exact waits_sysUntimeout h _ _
  | tick | sysTimeoutsMboxFetch | queueEmpty | waits | expires | message => trivial

/-- Timers are not starved by traffic. In every state of every run a handler that was neither
called nor cancelled has seen no more messages than it has milliseconds, and the calls of
`sys_timeout` and `sys_untimeout` leave the times and the order of the other timers alone. -/
theorem timers_not_starved (now memp : Nat) (as : List (Action H A)) :
    EveryStep watchedStep
      (fun s a t => NotStarved t ∧ Undisturbed s.thread a t.thread)
      { thread := TcpipThread.init H A now memp, registrations := [] } as := by
  refine everyStep_of_invariant (I := WatchedInv) (fun s a t h hstep => ?_) as
    ⟨TimersInv.init now memp, .nil⟩
  have ht := h.step hstep
  obtain ⟨u, hthread, rfl⟩ := Option.map_eq_some_iff.mp hstep
  exact ⟨⟨notStarved_of_accounts ht.accounts, undisturbed h.timers hthread⟩, ht⟩

end

end Timers

end FreeLwip.SysArch
