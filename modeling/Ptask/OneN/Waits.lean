import Ptask.OneN.Simulation

/-!
# How waits end

What the logs of all runs have in common, task by task. `openWait` finds the wait that a task is in
and what has happened since it started; a wait is ended at most once (`Ev.ends`), before it returns,
and the value it returns says by which of a grant and its expiry. Events that are seized are returned
by exactly one wait, and pending events change only by posts and seizures.
-/

namespace Ptask

/-- The call is one of the waits with a timeout that report how they ended. -/
def Call.reports : Call → Bool
  | .eventWait .. => true
  | .semTimedwait .. => true
  | .condTimedwait .. => true
  | _ => false

/-- The value reports success. -/
def Ret.success : Ret → Bool
  | .bool b => b
  | .word w => w != 0
  | _ => false

end Ptask

namespace Ptask.OneN

/-! ## Reading a log -/

/-- The event ends a wait. -/
def Ev.ends : Ev → Bool
  | .grant .. => true
  | .expire .. => true
  | _ => false

def Ev.isGrant : Ev → Bool
  | .grant .. => true
  | _ => false

def Ev.returns : Ev → Bool
  | .ret .. => true
  | _ => false

/-- The call that the event is about. -/
def Ev.call : Ev → Option Call
  | .ret _ c _ => some c
  | .park _ c _ => some c
  | .grant _ c _ => some c
  | .expire _ c _ => some c
  | _ => none

/-- The wait that the task is in after these events about it, newest first, and the events since it
started. -/
def openWait : List Ev → Option (Call × List Ev)
  | [] => none
  | .ret .. :: _ => none
  | .park _ c _ :: _ => some (c, [])
  | e :: l => (openWait l).map fun w => (w.1, e :: w.2)

/-- The sets of events seized for a task, newest first. -/
def seizedSets : List Ev → List EventMask
  | [] => []
  | .seize _ events :: l => events :: seizedSets l
  | _ :: l => seizedSets l

/-- The non-empty sets of events that waits have returned, newest first. -/
def returnedSets : List Ev → List EventMask
  | [] => []
  | .ret _ (.eventWait ..) (.word w) :: l => if w = 0 then returnedSets l else w :: returnedSets l
  | _ :: l => returnedSets l

/-- The set of events that has been seized for a task and that its call has still to return. -/
def Phase.inHand : Phase → List EventMask
  | .took events => [events]
  | .seized _ events => [events]
  | .ended (.eventWait ..) (.word w) => if w = 0 then [] else [w]
  | _ => []

/-- The events `w` have been seized since the last return. -/
def SeizedNow (w : EventMask) (l : List Ev) : Prop :=
  ∃ l₁ t l₂, l = l₁ ++ .seize t w :: l₂ ∧ ∀ e ∈ l₁, e.returns = false

/-! ## What the phases say -/

section

variable {t : TaskId} {l : List Ev} {p : Phase} {e : Ev}

/-- What the events of an open wait, newest first, say about its phase. -/
def Phase.Explains (l : List Ev) : Phase → Prop
  | .idle => openWait l = none
  | .took events => openWait l = none ∧ SeizedNow events l
  | .parked c => ∃ mid, openWait l = some (c, mid) ∧ mid.filter Ev.ends = []
  | .seized c events => c.accepts events = true ∧ SeizedNow events l ∧
    ∃ mid, openWait l = some (c, mid) ∧ mid.filter Ev.ends = []
  | .ended c r => ∃ mid e, openWait l = some (c, mid) ∧ mid.filter Ev.ends = [e] ∧
    e.call = some c ∧ (e.isGrant = false → c.timed = true) ∧
    (c.reports = true → (r.success = true ↔ e.isGrant = true)) ∧
    ∀ mask options timeout, c = .eventWait mask options timeout →
      r = .word 0 ∨ ∃ w, r = .word w ∧ c.accepts w = true ∧ SeizedNow w l

theorem accepts_ne_zero {events : EventMask} {c : Call} (h : c.accepts events = true) :
    events ≠ 0 := by
  cases c with
  | eventWait =>
    intro e
    subst e
    simp [Call.accepts, eventsSatisfy] at h
  | _ => cases h

theorem openWait_cons {c : Call} {mid : List Ev} (h : openWait l = some (c, mid))
    (ho : openWait (e :: l) = (openWait l).map fun w => (w.1, e :: w.2)) :
    openWait (e :: l) = some (c, e :: mid) := by
  rw [ho, h]; rfl

theorem SeizedNow.cons {w : EventMask} (h : SeizedNow w l) (he : e.returns = false) :
    SeizedNow w (e :: l) := by
  obtain ⟨l₁, t, l₂, rfl, hl⟩ := h
  exact ⟨e :: l₁, t, l₂, rfl, List.forall_mem_cons.2 ⟨he, hl⟩⟩

/-- An event that `openWait` looks through keeps what the older events say. -/
theorem Phase.Explains.skip (h : p.Explains l) (he : e.ends = false) (hr : e.returns = false)
    (ho : openWait (e :: l) = (openWait l).map fun w => (w.1, e :: w.2)) :
    p.Explains (e :: l) := by
  cases p with
  | idle => rw [Explains, ho, h]; rfl
  | took => exact ⟨by rw [ho, h.1]; rfl, h.2.cons hr⟩
  | parked c =>
    obtain ⟨mid, h1, h2⟩ := h
    exact ⟨e :: mid, openWait_cons h1 ho, by simp [he, h2]⟩
  | seized c events =>
    obtain ⟨h0, hs, mid, h1, h2⟩ := h
    exact ⟨h0, hs.cons hr, e :: mid, openWait_cons h1 ho, by simp [he, h2]⟩
  | ended c r =>
    obtain ⟨mid, e', h1, h2, h3, h4, h5, h6⟩ := h
    refine ⟨e :: mid, e', openWait_cons h1 ho, by simp [he, h2], h3, h4, h5, fun _ _ _ hc => ?_⟩
    rcases h6 _ _ _ hc with h | ⟨w, hw, hacc, hs⟩
    · exact .inl h
    · exact .inr ⟨w, hw, hacc, hs.cons hr⟩

/-- **One event.** -/
theorem Phase.Explains.next (h : p.Explains l) {q : Phase} (hn : Phase.next t p e = some q) :
    q.Explains (e :: l) := by
  cases e with
  | ret t' c r =>
    have hq : q = .idle := by
      cases p with
      | idle => cases c <;> simp_all [Phase.next]
      | took events => simp only [Phase.next] at hn; split at hn <;> simp_all
      | ended c' r' => simp only [Phase.next] at hn; split at hn <;> simp_all
      | _ => simp [Phase.next] at hn
    rw [hq]
    rfl
  | park t' c k =>
    cases p with
    | idle =>
      obtain ⟨-, rfl⟩ : c.blocks = true ∧ Phase.parked c = q := by simpa [Phase.next] using hn
      exact ⟨[], rfl, rfl⟩
    | _ => cases hn
  | grant t' c r =>
    cases p with
    | parked c' =>
      obtain ⟨⟨rfl, hr⟩, rfl⟩ : (c = c' ∧ c'.grantRet t = some r) ∧ Phase.ended c' r = q := by
        simpa [Phase.next] using hn
      obtain ⟨mid, h1, h2⟩ := h
      refine ⟨.grant t' c r :: mid, _, openWait_cons h1 rfl,
        (List.filter_cons_of_pos rfl).trans (congrArg _ h2),
        rfl, (by rintro ⟨⟩), fun hrep => ?_, ?_⟩
      · have hs : r.success = true := by
          cases c <;> first | (cases hrep; done) | (cases hr; done) | (cases hr; rfl)
        exact iff_of_true hs rfl
      · rintro mask options timeout rfl
        cases hr
    | seized c' events =>
      obtain ⟨⟨rfl, rfl⟩, rfl⟩ : (c = c' ∧ r = .word events) ∧ Phase.ended c' r = q := by
        simpa [Phase.next] using hn
      obtain ⟨hacc, hs, mid, h1, h2⟩ := h
      refine ⟨.grant t' c (.word events) :: mid, _, openWait_cons h1 rfl,
        (List.filter_cons_of_pos rfl).trans (congrArg _ h2), rfl, (by rintro ⟨⟩), fun _ => ?_, fun _ _ _ _ =>
          .inr ⟨events, rfl, hacc, hs.cons rfl⟩⟩
      exact iff_of_true (by simpa [Ret.success] using accepts_ne_zero hacc) rfl
    | _ => cases hn
  | expire t' c k =>
    cases p with
    | parked c' =>
      obtain ⟨⟨rfl, ht⟩, rfl⟩ : (c = c' ∧ c'.timed = true) ∧
          Phase.ended c' c'.expiredRet = q := by simpa [Phase.next] using hn
      obtain ⟨mid, h1, h2⟩ := h
      refine ⟨.expire t' c k :: mid, _, openWait_cons h1 rfl,
        (List.filter_cons_of_pos rfl).trans (congrArg _ h2), rfl, fun _ => ht, fun hrep => ?_, ?_⟩
      · cases c <;> simp_all [Call.expiredRet, Call.reports, Ev.isGrant, Ret.success]
      · rintro mask options timeout rfl
        exact .inl rfl
    | _ => cases hn
  | posted =>
    obtain rfl : p = q := by cases p <;> simpa [Phase.next] using hn
    exact h.skip rfl rfl rfl
  | unit =>
    obtain rfl : p = q := by cases p <;> simpa [Phase.next] using hn
    exact h.skip rfl rfl rfl
  | seize t' events =>
    cases p with
    | idle =>
      obtain rfl : Phase.took events = q := by simpa [Phase.next] using hn
      exact ⟨Phase.Explains.skip (p := .idle) h rfl rfl rfl, [], t', l, rfl, (by rintro _ ⟨⟩)⟩
    | parked c =>
      obtain ⟨hacc, rfl⟩ : c.accepts events = true ∧ Phase.seized c events = q := by
        simpa [Phase.next] using hn
      exact ⟨hacc, ⟨[], t', l, rfl, (by rintro _ ⟨⟩)⟩,
        Phase.Explains.skip (p := .parked c) h rfl rfl rfl⟩
    | _ => cases hn
  | created =>
    cases p with
    | idle =>
      obtain rfl : Phase.idle = q := by simpa [Phase.next] using hn
      exact h.skip rfl rfl rfl
    | _ => cases hn
  | exited =>
    cases p with
    | idle =>
      obtain rfl : Phase.idle = q := by simpa [Phase.next] using hn
      exact h.skip rfl rfl rfl
    | _ => cases hn

theorem explains_of_phaseOf : ∀ {l : List Ev} {p : Phase}, phaseOf t l = some p → p.Explains l
  | [], _, h => by cases h; rfl
  | e :: l, q, h => by
    obtain ⟨p, hp, hn⟩ := Option.bind_eq_some_iff.1 h
    exact (explains_of_phaseOf hp).next hn

/-- An event of an allowed log happened in a phase that allows it. -/
theorem phaseOf_split : ∀ (l₁ : List Ev) {l₂ : List Ev}, phaseOf t (l₁ ++ e :: l₂) ≠ none →
    ∃ p q, phaseOf t l₂ = some p ∧ Phase.next t p e = some q
  | [], l₂, h => by
    obtain ⟨q, hq⟩ := Option.ne_none_iff_exists'.1 h
    obtain ⟨p, hp, hn⟩ := Option.bind_eq_some_iff.1 hq
    exact ⟨p, q, hp, hn⟩
  | e' :: l₁, l₂, h => phaseOf_split l₁ fun hn => h (by
      rw [List.cons_append, phaseOf, hn]; rfl)

/-- An event that ends a wait finds the wait open, and not yet ended. -/
theorem ends_openWait {l₁ l₂ : List Ev} (h : phaseOf t (l₁ ++ e :: l₂) ≠ none)
    (he : e.ends = true) : ∃ c mid, openWait l₂ = some (c, mid) ∧ e.call = some c ∧
      mid.filter Ev.ends = [] := by
  obtain ⟨p, q, hp, hn⟩ := phaseOf_split l₁ h
  have hx := explains_of_phaseOf hp
  cases e with
  | grant t' c r =>
    cases p with
    | parked c' =>
      obtain ⟨⟨rfl, -⟩, -⟩ : (c = c' ∧ c'.grantRet t = some r) ∧ Phase.ended c' r = q := by
        simpa [Phase.next] using hn
      obtain ⟨mid, h1, h2⟩ := hx
      exact ⟨c, mid, h1, rfl, h2⟩
    | seized c' events =>
      obtain ⟨⟨rfl, -⟩, -⟩ : (c = c' ∧ r = .word events) ∧ Phase.ended c' r = q := by
        simpa [Phase.next] using hn
      obtain ⟨-, -, mid, h1, h2⟩ := hx
      exact ⟨c, mid, h1, rfl, h2⟩
    | _ => cases hn
  | expire t' c k =>
    cases p with
    | parked c' =>
      obtain ⟨⟨rfl, -⟩, -⟩ : (c = c' ∧ c'.timed = true) ∧ Phase.ended c' c'.expiredRet = q := by
        simpa [Phase.next] using hn
      obtain ⟨mid, h1, h2⟩ := hx
      exact ⟨c, mid, h1, rfl, h2⟩
    | _ => cases hn
  | _ => cases he

/-- A wait that returns was ended once, and what it returns says how. -/
theorem ret_openWait {l₁ l₂ : List Ev} {t' : TaskId} {c c' : Call} {r : Ret} {mid : List Ev}
    (h : phaseOf t (l₁ ++ .ret t' c r :: l₂) ≠ none) (ho : openWait l₂ = some (c', mid)) :
    c' = c ∧ ∃ e, mid.filter Ev.ends = [e] ∧ e.call = some c ∧
      (e.isGrant = false → c.timed = true) ∧
      (c.reports = true → (r.success = true ↔ e.isGrant = true)) := by
  obtain ⟨p, q, hp, hn⟩ := phaseOf_split l₁ h
  have hx := explains_of_phaseOf hp
  cases p with
  | idle => rw [Phase.Explains, ho] at hx; cases hx
  | took => have := hx.1; rw [ho] at this; cases this
  | ended c'' r' =>
    obtain ⟨⟨rfl, rfl⟩, -⟩ : (c = c'' ∧ r = r') ∧ Phase.idle = q := by
      simpa [Phase.next] using hn
    obtain ⟨mid', e, h1, h2, h3, h4, h5, -⟩ := hx
    rw [ho] at h1
    cases h1
    exact ⟨rfl, e, h2, h3, h4, h5⟩
  | _ => simp [Phase.next] at hn

/-- The events since an open wait started are the newest ones. -/
theorem openWait_prefix {c : Call} {mid : List Ev} (h : openWait l = some (c, mid)) :
    ∃ l', l = mid ++ l' := by
  induction l generalizing mid with
  | nil => cases h
  | cons e l ih =>
    have hskip (he : openWait (e :: l) = (openWait l).map fun w => (w.1, e :: w.2)) :
        ∃ l', e :: l = mid ++ l' := by
      obtain ⟨⟨c', mid'⟩, ho, hw⟩ := Option.map_eq_some_iff.1 (he.symm.trans h)
      obtain ⟨rfl, rfl⟩ := Prod.mk.inj hw
      obtain ⟨l', rfl⟩ := ih ho
      exact ⟨l', rfl⟩
    cases e with
    | ret => cases h
    | park t' c' k =>
      obtain ⟨-, rfl⟩ := Prod.mk.inj (Option.some.inj h)
      exact ⟨_, rfl⟩
    | _ => exact hskip rfl

/-- What an event wait returns: `0` from a poll or after the timer has ended this wait, or what has
been seized. -/
theorem ret_events {l₁ l₂ : List Ev} {t' : TaskId} {events : EventMask} {options : BitVec 32}
    {timeout : Int32} {r : Ret}
    (h : phaseOf t (l₁ ++ .ret t' (.eventWait events options timeout) r :: l₂) ≠ none) :
    (r = .word 0 ∧ timeout = 0) ∨
      (r = .word 0 ∧ 0 < timeout ∧ ∃ mid u k,
        openWait l₂ = some (.eventWait events options timeout, mid) ∧
        mid.filter Ev.ends = [.expire u (.eventWait events options timeout) k]) ∨
      ∃ w, r = .word w ∧ (Call.eventWait events options timeout).accepts w = true ∧
        SeizedNow w l₂ := by
  obtain ⟨p, q, hp, hn⟩ := phaseOf_split l₁ h
  have hx := explains_of_phaseOf hp
  cases p with
  | idle =>
    have hpoll : (r = .word 0 ∧ timeout = 0) ∧ Phase.idle = q := by simpa [Phase.next] using hn
    exact .inl hpoll.1
  | took w =>
    have : (r = .word w ∧ Call.accepts w (.eventWait events options timeout) = true) ∧
      Phase.idle = q := by simpa [Phase.next] using hn
    exact .inr (.inr ⟨w, this.1.1, this.1.2, hx.2⟩)
  | ended c r' =>
    obtain ⟨⟨rfl, rfl⟩, -⟩ : (_ = c ∧ r = r') ∧ Phase.idle = q := by
      simpa [Phase.next] using hn
    obtain ⟨mid, e, ho, hends, hcall, htimed, hreports, hword⟩ := hx
    rcases hword _ _ _ rfl with rfl | hw
    · have hgrant : e.isGrant = false := by simpa [Ret.success] using hreports rfl
      have he : e.ends = true := (List.mem_filter.1 (hends ▸ List.mem_singleton_self e)).2
      have htime : 0 < timeout := of_decide_eq_true (htimed hgrant)
      cases e with
      | expire u c k =>
        obtain rfl := Option.some.inj hcall
        exact .inr (.inl ⟨rfl, htime, mid, u, k, ho, hends⟩)
      | grant => cases hgrant
      | _ => cases he
    · exact .inr (.inr hw)
  | _ => simp [Phase.next] at hn

/-- Every set that is seized is returned by exactly one wait, in the same order. -/
theorem seizedSets_eq : ∀ {l : List Ev} {p : Phase}, phaseOf t l = some p →
    seizedSets l = p.inHand ++ returnedSets l
  | [], _, h => by cases h; rfl
  | e :: l, q, h => by
    obtain ⟨p, hp, hn⟩ := Option.bind_eq_some_iff.1 h
    have ih := seizedSets_eq hp
    have hx := explains_of_phaseOf hp
    cases e with
    | ret t' c r =>
      cases p with
      | idle =>
        cases c with
        | eventWait _ _ timeout =>
          obtain ⟨⟨rfl, -⟩, rfl⟩ : (r = .word 0 ∧ timeout = 0) ∧ Phase.idle = q := by
            simpa [Phase.next] using hn
          simpa [seizedSets, returnedSets] using ih
        | _ => cases hn; exact ih
      | took w =>
        obtain ⟨⟨rfl, hacc⟩, rfl⟩ : (r = .word w ∧ Call.accepts w c = true) ∧ Phase.idle = q := by
          simpa [Phase.next] using hn
        have hw := accepts_ne_zero hacc
        cases c with
        | eventWait => exact ih.trans (if_neg hw).symm
        | _ => cases hacc
      | ended c' r' =>
        obtain ⟨⟨rfl, rfl⟩, rfl⟩ : (c = c' ∧ r = r') ∧ Phase.idle = q := by
          simpa [Phase.next] using hn
        cases c with
        | eventWait =>
          cases r with
          | word w =>
            refine ih.trans ?_
            change (if w = 0 then [] else [w]) ++ returnedSets l =
              if w = 0 then returnedSets l else w :: returnedSets l
            split <;> rfl
          | _ => exact ih
        | _ => exact ih
      | _ => simp [Phase.next] at hn
    | park t' c k =>
      cases p with
      | idle =>
        obtain ⟨-, rfl⟩ : c.blocks = true ∧ Phase.parked c = q := by simpa [Phase.next] using hn
        exact ih
      | _ => cases hn
    | grant t' c r =>
      cases p with
      | parked c' =>
        obtain ⟨⟨rfl, hr⟩, rfl⟩ : (c = c' ∧ c'.grantRet t = some r) ∧ Phase.ended c' r = q := by
          simpa [Phase.next] using hn
        cases c <;> first | (cases hr; done) | exact ih
      | seized c' events =>
        obtain ⟨⟨rfl, rfl⟩, rfl⟩ : (c = c' ∧ r = .word events) ∧ Phase.ended c' r = q := by
          simpa [Phase.next] using hn
        cases c with
        | eventWait =>
          exact ih.trans (congrArg (· ++ returnedSets l) (if_neg (accepts_ne_zero hx.1)).symm)
        | _ => cases hx.1
      | _ => cases hn
    | expire t' c k =>
      cases p with
      | parked c' =>
        obtain ⟨⟨rfl, ht⟩, rfl⟩ : (c = c' ∧ c'.timed = true) ∧
          Phase.ended c' c'.expiredRet = q := by simpa [Phase.next] using hn
        cases c <;> exact ih
      | _ => cases hn
    | posted =>
      obtain rfl : p = q := by cases p <;> simpa [Phase.next] using hn
      exact ih
    | unit =>
      obtain rfl : p = q := by cases p <;> simpa [Phase.next] using hn
      exact ih
    | seize t' events =>
      cases p with
      | idle =>
        obtain rfl : Phase.took events = q := by simpa [Phase.next] using hn
        exact congrArg (events :: ·) ih
      | parked c =>
        obtain ⟨-, rfl⟩ : c.accepts events = true ∧ Phase.seized c events = q := by
          simpa [Phase.next] using hn
        exact congrArg (events :: ·) ih
      | _ => cases hn
    | created =>
      cases p with
      | idle => cases hn; exact ih
      | _ => cases hn
    | exited =>
      cases p with
      | idle => cases hn; exact ih
      | _ => cases hn

end

/-! ## Events -/

open Ptask.Lib

/-- The set of events that the control block of a task holds for it when its wait is over. -/
def inHand (x : FibTCB) : List EventMask :=
  match x.frame with
  | some (.eventWait ..) =>
    if x.state.waitforEvent = true ∨ x.seizedEvents = 0 then [] else [x.seizedEvents]
  | _ => []

/-- The result of an event wait of `t` and the reason for it. The events about `t` before the return
are `l`, newest first; `p` was pending before them. -/
inductive EventResult (p : EventMask) (t : TaskId) (events : EventMask) (options : BitVec 32)
    (timeout : Int32) (l : List Ev) : Ret → Prop
  /-- A poll, which the pending events do not satisfy. -/
  | polled (ht : timeout = 0)
    (hfail : eventsSatisfy (pendingOf p l &&& events) events options = false) :
    EventResult p t events options timeout l (.word 0)
  /-- The wait is still open, and what has ended it is its timer. -/
  | expired (mid : List Ev) (k : Nat) (ht : 0 < timeout)
    (ho : openWait l = some (.eventWait events options timeout, mid))
    (he : mid.filter Ev.ends = [.expire t (.eventWait events options timeout) k]) :
    EventResult p t events options timeout l (.word 0)
  /-- A set that the mask and the options accept, seized by this wait, all of it pending at that
  moment. -/
  | seized (w : EventMask) (l₃ l₄ : List Ev)
    (hacc : (Call.eventWait events options timeout).accepts w = true)
    (hl : l = l₃ ++ .seize t w :: l₄) (hthis : ∀ e ∈ l₃, e.returns = false)
    (hpend : w &&& pendingOf p l₄ = w) : EventResult p t events options timeout l (.word w)

/-- What `t` sees of its events between the reachable states `s₀` and `s`. -/
structure EventsKept (b : Boot) (s₀ s : Sched) (t : TaskId) : Prop where
  /-- A task that waits for events has none that satisfy it. -/
  unsatisfied : t ∈ s.live → (s.tcb t).state.waitforEvent = true →
    eventsSatisfy ((s.tcb t).pendingEvents &&& (s.tcb t).waitingEvents) (s.tcb t).waitingEvents
      (s.tcb t).waitingOptions = false
  /-- Every wait returns for one of three reasons. -/
  returned : ∀ l₁ l₂ events options timeout r,
    evs t s.log = l₁ ++ .ret t (.eventWait events options timeout) r :: l₂ →
    EventResult (b.mem t).pendingEvents t events options timeout l₂ r
  /-- A bit is pending exactly when it was pending at the start or has been posted, and has not been
  seized since. -/
  pending : ∃ τ, s.log = τ ++ s₀.log ∧ ∀ k < 64,
    (s.tcb t).pendingEvents.getLsbD k = true ↔
      ((s₀.tcb t).pendingEvents.getLsbD k = true ∧ ∀ e ∈ evs t τ, e.seizesBit k = false) ∨
      ∃ l₁ e l₂, evs t τ = l₁ ++ e :: l₂ ∧ e.postsBit k = true ∧ ∀ e ∈ l₁, e.seizesBit k = false
  /-- Every seized set is returned by exactly one wait. -/
  once : seizedSets (evs t s.log) =
    (if t ∈ s.live then inHand (s.tcb t) else []) ++ returnedSets (evs t s.log)

section

variable {b : Boot} {s : Sched} {t : TaskId}

theorem inHand_of_stand (h : s.Stand t) : ∃ p, phaseOf t (evs t s.log) = some p ∧
    p.inHand = if t ∈ s.live then inHand (s.tcb t) else [] := by
  cases h with
  | dead live _ _ phase => exact ⟨_, phase, by rw [if_neg live]; rfl⟩
  | idle live _ _ _ _ frame phase =>
    refine ⟨_, phase, ?_⟩
    rw [if_pos live, inHand]
    rcases frame with hf | hf <;> rw [hf] <;> rfl
  | waits c live waits _ _ phase =>
    refine ⟨_, phase, ?_⟩
    rw [if_pos live, inHand, waits.frame, waits.state]
    cases c <;> rfl
  | ended c live _ _ state _ frame _ phase =>
    refine ⟨_, phase, ?_⟩
    rw [if_pos live, inHand, frame, state]
    cases c with
    | eventWait =>
      change (if (s.tcb t).seizedEvents = 0 then [] else [(s.tcb t).seizedEvents]) =
        if false = true ∨ (s.tcb t).seizedEvents = 0 then [] else [(s.tcb t).seizedEvents]
      by_cases hz : (s.tcb t).seizedEvents = 0 <;> simp [hz]
    | _ => rfl

theorem seizedPending_append {p : EventMask} : ∀ (l₁ : List Ev) {l₂ : List Ev},
    SeizedPending p (l₁ ++ l₂) → SeizedPending p l₂
  | [], _, h => h
  | e :: l₁, l₂, h => seizedPending_append l₁ (by cases e <;> first | exact h.2 | exact h)

theorem mem_evs {e : Ev} {log : List Ev} (h : e ∈ evs t log) : e.task = t := by
  simpa using (List.mem_filter.1 h).2

end

/-- **Event flags are neither lost nor invented, and no wake-up is missed.** -/
theorem reachable_eventsKept {b : Boot} {s₀ s : Sched} (h₀ : Reachable b s₀)
    (h : Reach Sched.step anyMove s₀ s) (t : TaskId) : EventsKept b s₀ s t := by
  obtain ⟨hi, τ, hτ⟩ := h₀.run h
  obtain ⟨p, hp, hin⟩ := inHand_of_stand (hi.stand t)
  have hne : phaseOf t (evs t s.log) ≠ none := by rw [hp]; nofun
  refine ⟨fun hl hw => (hi.stand t).unsatisfied hw hl, ?_, ⟨τ, hτ.symm, fun k hk => ?_⟩, ?_⟩
  · intro l₁ l₂ events options timeout r he
    rw [he] at hne
    have hz := (hi.pending t).seized
    rw [he] at hz
    rcases ret_events hne with ⟨rfl, rfl⟩ | ⟨rfl, ht, mid, u, k, ho, hends⟩ |
        ⟨w, rfl, hacc, l₃, u, l₄, rfl, hl⟩
    · exact .polled rfl ((seizedPending_append l₁ hz).1 events options rfl rfl)
    · obtain ⟨l', rfl⟩ := openWait_prefix ho
      have hmid : Ev.expire u (.eventWait events options timeout) k ∈ mid :=
        (List.mem_filter.1 (hends ▸ List.mem_singleton_self _)).1
      have hm : Ev.expire u (.eventWait events options timeout) k ∈ evs t s.log := by
        rw [he]
        simp [hmid]
      obtain rfl : u = t := mem_evs hm
      exact .expired mid k ht ho hends
    · have hm : Ev.seize u w ∈ evs t s.log := by rw [he]; simp
      obtain rfl : u = t := mem_evs hm
      have hz' := seizedPending_append (l₁ ++ .ret u _ (.word w) :: l₃) (by simpa using hz)
      exact .seized w l₃ l₄ hacc rfl hl hz'.1
  · rw [(hi.pending t).pending, ← hτ, pendingAfter_append, ← (h₀.inv.pending t).pending]
    exact pendingOf_bit hk _ _
  · rw [seizedSets_eq hp, hin]

/-- A task waits for either of two events with a timeout; one of them is posted together with a third
event, and the task returns. -/
def eventRun : List Move :=
  newTasks 1 ++ [.schedulerStart, .schedulerPass, .schedulerExhaust, .call (.eventWait 3 1 10),
    .schedulerExhaust, .call (.eventPost 100 5), .schedulerLoopEnd, .schedulerPass,
    .schedulerExhaust]

set_option maxRecDepth 4000 in
/-- The wait returns one event, and the other one posted is kept. -/
theorem eventRun_eventsKept : ∃ s, eventRun.foldlM Sched.step (boot {}) = some s ∧
    returnedSets (evs 100 s.log) = [1] ∧ (s.tcb 100).pendingEvents = 4 ∧
    EventsKept {} (boot {}) s 100 := by
  have hrun : ((eventRun.foldlM Sched.step (boot {})).map fun s =>
      (returnedSets (evs 100 s.log), (s.tcb 100).pendingEvents)) = some ([1], 4) := by
    decide +kernel
  obtain ⟨s, hs, hl⟩ := Option.map_eq_some_iff.1 hrun
  exact ⟨s, hs, congrArg Prod.fst hl, congrArg Prod.snd hl,
    reachable_eventsKept (Reach.refl _) (Reach.of_foldlM hs) 100⟩

/-! ## Timed waits -/

/-- What `t` sees of its waits. -/
structure WaitsEndOnce (s : Sched) (t : TaskId) : Prop where
  /-- Whatever ends a wait of `t` finds it open and not ended before. -/
  ends : ∀ l₁ e l₂, evs t s.log = l₁ ++ e :: l₂ → e.ends = true →
    ∃ c mid, openWait l₂ = some (c, mid) ∧ e.call = some c ∧ mid.filter Ev.ends = []
  /-- A wait that returns has been ended exactly once; a wait without a timer by a grant; a timed wait
  reports a grant by `true` or a non-empty set and its expiry by `false` or `0`. -/
  returns : ∀ l₁ l₂ c r c' mid, evs t s.log = l₁ ++ .ret t c r :: l₂ →
    openWait l₂ = some (c', mid) →
    c' = c ∧ ∃ e, mid.filter Ev.ends = [e] ∧ e.call = some c ∧
      (e.isGrant = false → c.timed = true) ∧
      (c.reports = true → (r.success = true ↔ e.isGrant = true))
  /-- A task whose wait has been ended is out of reach of posts, signals and ticks, and what it is
  going to return is settled. -/
  ended : ∀ c mid, openWait (evs t s.log) = some (c, mid) → mid.filter Ev.ends ≠ [] →
    t ∉ s.wadoglist ∧ (∀ k, t ∈ s.chain k ↔ k = .ready) ∧
    ∃ e, mid.filter Ev.ends = [e] ∧
      (c.reports = true → ((Sched.result t (s.tcb t) c).success = true ↔ e.isGrant = true))

/-- The number of waits that have been granted. -/
def grants (s : Sched) : Nat := s.log.countP Ev.isGrant

section

variable {b : Boot} {s : Sched} {t : TaskId}

theorem waitsEndOnce_of_inv (h : s.Inv b) (t : TaskId) : WaitsEndOnce s t := by
  obtain ⟨p, hp, -⟩ := inHand_of_stand (h.stand t)
  have hne : phaseOf t (evs t s.log) ≠ none := by rw [hp]; nofun
  refine ⟨fun l₁ e l₂ he => ?_, fun l₁ l₂ c r c' mid he => ?_, fun c mid ho hm => ?_⟩
  · exact ends_openWait (he ▸ hne)
  · exact ret_openWait (he ▸ hne)
  · cases h.stand t with
    | dead _ _ _ phase =>
      have : openWait (evs t s.log) = none := explains_of_phaseOf phase
      rw [ho] at this; cases this
    | idle _ _ _ _ _ _ phase =>
      have : openWait (evs t s.log) = none := explains_of_phaseOf phase
      rw [ho] at this; cases this
    | waits c' _ _ _ _ phase =>
      obtain ⟨mid', h1, h2⟩ := explains_of_phaseOf phase
      rw [ho] at h1; cases h1
      exact absurd h2 hm
    | ended c' _ place dog _ _ _ _ phase =>
      obtain ⟨mid', e, h1, h2, -, -, h5, -⟩ := explains_of_phaseOf phase
      rw [ho] at h1; cases h1
      exact ⟨dog, fun k => (place k).trans ⟨fun h => (Option.some.inj h).symm, fun h => h ▸ rfl⟩,
        e, h2, h5⟩

theorem grants_semPost (h : s.Inv b) (i : SemId) : grants (s.fiberSemPost i) ≤ grants s + 1 := by
  cases hq : (s.sem i).waitq with
  | nil =>
    rw [Sched.fiberSemPost_nil hq]
    simp [grants, Sched.postUnit, Sched.ret, Sched.emit, Sched.modSem, Ev.isGrant]
  | cons w rest =>
    obtain ⟨c, hw, hc, -⟩ := (h.stand w).waits_of_queue (k := .sem i) (by rintro ⟨⟩)
      (by simp [Sched.chain, hq])
    rw [Sched.fiberSemPost_cons h.idle hq hw hc]
    simp [grants, Sched.grant, Sched.wake, Sched.unlink, Sched.postUnit, Sched.ret, Sched.emit,
      Sched.modSem, Ev.isGrant, List.countP_cons]

theorem grants_condSignal (h : s.Inv b) (i : CondId) :
    grants (s.fiberCondSignal i) ≤ grants s + 1 := by
  cases hq : (s.cond i).waitq with
  | nil =>
    rw [Sched.fiberCondSignal_nil hq]
    simp [grants, Sched.ret, Sched.emit, Ev.isGrant]
  | cons w rest =>
    obtain ⟨c, hw, hc, -⟩ := (h.stand w).waits_of_queue (k := .cond i) (by rintro ⟨⟩)
      (by simp [Sched.chain, hq])
    rw [Sched.fiberCondSignal_cons h.idle hq hw hc]
    simp [grants, Sched.grant, Sched.wake, Sched.unlink, Sched.ret, Sched.emit, Ev.isGrant,
      List.countP_cons]

end

/-- **A timed wait ends once, for the reason it reports.** -/
theorem reachable_waitsEndOnce {b : Boot} {s : Sched} (h : Reachable b s) :
    (∀ t, WaitsEndOnce s t) ∧
      (∀ i, grants (s.fiberSemPost i) ≤ grants s + 1) ∧
      ∀ i, grants (s.fiberCondSignal i) ≤ grants s + 1 :=
  ⟨waitsEndOnce_of_inv h.inv, grants_semPost h.inv, grants_condSignal h.inv⟩

/-- A task waits on a semaphore with a timeout; the maintask posts a unit, and the time runs out
before the task returns. -/
def grantRun : List Move :=
  newTasks 1 ++ [.schedulerStart, .schedulerPass, .schedulerExhaust, .call (.semTimedwait 0 10),
    .schedulerExhaust, .call (.semPost 0), .schedulerLoopEnd, .elapse 20, .schedulerPass,
    .schedulerExhaust]

set_option maxRecDepth 4000 in
/-- The wait has returned `true`. -/
theorem grantRun_waitsEndOnce : ∃ s, grantRun.foldlM Sched.step (boot {}) = some s ∧
    .ret 100 (.semTimedwait 0 10) (.bool true) ∈ s.log ∧
    ((∀ t, WaitsEndOnce s t) ∧ (∀ i, grants (s.fiberSemPost i) ≤ grants s + 1) ∧
      ∀ i, grants (s.fiberCondSignal i) ≤ grants s + 1) := by
  have hrun : ((grantRun.foldlM Sched.step (boot {})).map fun s =>
      decide (.ret 100 (.semTimedwait 0 10) (.bool true) ∈ s.log)) = some true := by
    decide +kernel
  obtain ⟨s, hs, hl⟩ := Option.map_eq_some_iff.1 hrun
  exact ⟨s, hs, of_decide_eq_true hl, reachable_waitsEndOnce (Reach.of_foldlM hs)⟩

end Ptask.OneN
