import Ptask.OneN.Logs
import Ptask.OneN.Waits

/-!
# One event flag

A flag is one bit of the events of a task. Between its post and the return of the wait that reports
it, a flag is pending in the control block or held by the wait that has been ended: it is *owed* to
the task. A move that does not post the flag changes this for one task at most, the one that runs
after it: its wait returns, with the flag in the result exactly when the wait held it.
-/

namespace Ptask

/-- The call waits for the flag `k`, among others. -/
def Call.asks (k : Nat) : Call → Bool
  | .eventWait events _ _ => events.getLsbD k
  | _ => false

end Ptask

namespace Ptask.OneN

variable {k : Nat} {t u : TaskId} {l : List Ev} {e : Ev} {p q : Phase} {c : Call} {mem events : EventMask}

/-! ## The events of one task -/

/-- The wait in which the events leave the task. -/
def awaitedOf (l : List Ev) : Option Call := (openWait l).map Prod.fst

def pendingFlag (k : Nat) (mem : EventMask) (l : List Ev) : Bool := (pendingOf mem l).getLsbD k

/-- The flag has been seized for a wait that has not returned yet. -/
def heldFlag (k : Nat) (t : TaskId) (l : List Ev) : Bool :=
  (phaseOf t l).any fun p => p.inHand.any (·.getLsbD k)

def owedFlag (k : Nat) (mem : EventMask) (t : TaskId) (l : List Ev) : Bool :=
  pendingFlag k mem l || heldFlag k t l

/-- The flag is owed once: it is not pending again while a wait holds it. -/
def owedOnce (k : Nat) (mem : EventMask) (t : TaskId) (l : List Ev) : Bool :=
  !(pendingFlag k mem l && heldFlag k t l)

/-- The list is one that a task may observe, and what was seized was pending. -/
structure Allowed (mem : EventMask) (t : TaskId) (l : List Ev) : Prop where
  phase : phaseOf t l ≠ none
  seized : SeizedPending mem l

theorem Allowed.of_cons (h : Allowed mem t (e :: l)) : Allowed mem t l := by
  refine ⟨fun hn => h.phase ?_, seizedPending_append [e] h.seized⟩
  rw [phaseOf, hn]
  rfl

theorem Allowed.of_append (es : List Ev) (h : Allowed mem t (es ++ l)) : Allowed mem t l := by
  induction es with
  | nil => exact h
  | cons e es ih => exact ih h.of_cons

/-- An event that leaves a task in its call. -/
def staysIn : Ev → Bool
  | .ret .. => false
  | .park .. => false
  | _ => true

theorem awaitedOf_append (es : List Ev) (he : ∀ e ∈ es, staysIn e = true) :
    awaitedOf (es ++ l) = awaitedOf l := by
  induction es with
  | nil => rfl
  | cons e es ih =>
    obtain ⟨he, hes⟩ := List.forall_mem_cons.1 he
    rw [← ih hes, List.cons_append, awaitedOf, awaitedOf]
    cases e with
    | ret => cases he
    | park => cases he
    | _ =>
      simp only [openWait, Option.map_map]
      rfl

/-- What a task has in hand after an event, from what it had before. -/
def Ev.handAfter : Ev → List EventMask → List EventMask
  | .ret .., _ => []
  | .seize _ events, _ => [events]
  | _, hand => hand

theorem inHand_next (hx : p.Explains l) (hn : Phase.next t p e = some q) :
    q.inHand = e.handAfter p.inHand := by
  cases e with
  | ret t' c r =>
    have hq : q = .idle := by
      cases p with
      | idle => cases c <;> simp_all [Phase.next]
      | took events => simp only [Phase.next] at hn; split at hn <;> simp_all
      | ended c' r' => simp only [Phase.next] at hn; split at hn <;> simp_all
      | _ => simp [Phase.next] at hn
    rw [hq]
    rfl
  | park t' c n =>
    cases p with
    | idle =>
      obtain ⟨-, rfl⟩ : c.blocks = true ∧ Phase.parked c = q := by simpa [Phase.next] using hn
      rfl
    | _ => cases hn
  | grant t' c r =>
    cases p with
    | parked c' =>
      obtain ⟨⟨rfl, hr⟩, rfl⟩ : (c = c' ∧ c'.grantRet t = some r) ∧ Phase.ended c' r = q := by
        simpa [Phase.next] using hn
      cases c with
      | eventWait => cases hr
      | _ => rfl
    | seized c' events =>
      obtain ⟨⟨rfl, rfl⟩, rfl⟩ : (c = c' ∧ r = .word events) ∧ Phase.ended c' r = q := by
        simpa [Phase.next] using hn
      cases c with
      | eventWait => exact if_neg (accepts_ne_zero hx.1)
      | _ => cases hx.1
    | _ => cases hn
  | expire t' c n =>
    cases p with
    | parked c' =>
      obtain ⟨⟨rfl, -⟩, rfl⟩ : (c = c' ∧ c'.timed = true) ∧ Phase.ended c' c'.expiredRet = q := by
        simpa [Phase.next] using hn
      cases c <;> rfl
    | _ => cases hn
  | posted =>
    obtain rfl : p = q := by cases p <;> simpa [Phase.next] using hn
    rfl
  | unit =>
    obtain rfl : p = q := by cases p <;> simpa [Phase.next] using hn
    rfl
  | seize t' events =>
    cases p with
    | idle =>
      obtain rfl : Phase.took events = q := by simpa [Phase.next] using hn
      rfl
    | parked c =>
      obtain ⟨-, rfl⟩ : c.accepts events = true ∧ Phase.seized c events = q := by
        simpa [Phase.next] using hn
      rfl
    | _ => cases hn
  | created =>
    cases p with
    | idle => cases hn; rfl
    | _ => cases hn
  | exited =>
    cases p with
    | idle => cases hn; rfl
    | _ => cases hn

theorem phase_of_cons (h : phaseOf t (e :: l) ≠ none) :
    ∃ p q, phaseOf t l = some p ∧ phaseOf t (e :: l) = some q ∧ Phase.next t p e = some q := by
  obtain ⟨q, hq⟩ := Option.ne_none_iff_exists'.1 h
  obtain ⟨p, hp, hn⟩ := Option.bind_eq_some_iff.1 hq
  exact ⟨p, q, hp, hq, hn⟩

/-- A wait that seizes the flag had it not before. -/
theorem heldFlag_of_seize (h : phaseOf t (.seize u events :: l) ≠ none) : heldFlag k t l = false := by
  obtain ⟨p, q, hp, -, hn⟩ := phase_of_cons h
  rw [heldFlag, hp]
  cases p with
  | idle => rfl
  | parked => rfl
  | _ => cases hn

theorem heldFlag_cons (h : phaseOf t (e :: l) ≠ none) :
    heldFlag k t (e :: l) = (!e.returns && (heldFlag k t l || e.seizesBit k)) := by
  obtain ⟨p, q, hp, hq, hn⟩ := phase_of_cons h
  have hin := inHand_next (explains_of_phaseOf hp) hn
  have hheld : heldFlag k t (e :: l) = (e.handAfter p.inHand).any (·.getLsbD k) := by
    rw [heldFlag, hq, Option.any_some, hin]
  rw [hheld]
  cases e with
  | ret => rfl
  | seize =>
    rw [heldFlag_of_seize h]
    simp [Ev.handAfter, Ev.returns, Ev.seizesBit]
  | _ =>
    rw [heldFlag, hp, Option.any_some]
    simp [Ev.handAfter, Ev.returns, Ev.seizesBit]

/-- An event that neither returns nor posts the flag. -/
def stillFlag (k : Nat) (e : Ev) : Bool := !e.returns && !e.postsBit k

theorem owed_cons (hk : k < 64) (h : Allowed mem t (e :: l)) (he : stillFlag k e = true) :
    owedFlag k mem t (e :: l) = owedFlag k mem t l ∧
      (owedOnce k mem t l = true → owedOnce k mem t (e :: l) = true) := by
  obtain ⟨hr, hp⟩ : e.returns = false ∧ e.postsBit k = false := by simpa [stillFlag] using he
  have hheld := heldFlag_cons (k := k) h.phase
  have hpend : pendingFlag k mem (e :: l) = (pendingFlag k mem l && !e.seizesBit k) := by
    rw [pendingFlag, pendingOf_cons_bit hk, hp, Bool.false_or]
    rfl
  have hwas (hs : e.seizesBit k = true) : pendingFlag k mem l = true ∧ heldFlag k t l = false := by
    cases e with
    | seize t' events =>
      have hz : events &&& pendingOf mem l = events := h.seized.1
      have hbit := congrArg (·.getLsbD k) hz
      have hs : events.getLsbD k = true := hs
      exact ⟨by simpa [hs, pendingFlag] using hbit, heldFlag_of_seize h.phase⟩
    | _ => cases hs
  rw [hr] at hheld
  rw [owedFlag, owedFlag, owedOnce, owedOnce, hpend, hheld]
  cases hs : e.seizesBit k with
  | false => simp
  | true =>
    obtain ⟨h₁, h₂⟩ := hwas hs
    simp [h₁, h₂]

/-- Events that neither return nor post the flag. -/
theorem owed_append (hk : k < 64) (es : List Ev) (h : Allowed mem t (es ++ l))
    (he : ∀ e ∈ es, stillFlag k e = true) :
    owedFlag k mem t (es ++ l) = owedFlag k mem t l ∧
      (owedOnce k mem t l = true → owedOnce k mem t (es ++ l) = true) := by
  induction es with
  | nil => exact ⟨rfl, id⟩
  | cons e es ih =>
    obtain ⟨he, hes⟩ := List.forall_mem_cons.1 he
    obtain ⟨h₁, h₂⟩ := owed_cons hk h he
    obtain ⟨h₃, h₄⟩ := ih h.of_cons hes
    exact ⟨h₁.trans h₃, fun ho => h₂ (h₄ ho)⟩

theorem pendingFlag_ret {t' : TaskId} {c : Call} {r : Ret} :
    pendingFlag k mem (.ret t' c r :: l) = pendingFlag k mem l := rfl

/-- Events that neither return nor seize the flag. -/
theorem heldFlag_append (es : List Ev) (h : Allowed mem t (es ++ l))
    (he : ∀ e ∈ es, stillFlag k e = true ∧ e.seizesBit k = false) :
    heldFlag k t (es ++ l) = heldFlag k t l := by
  induction es with
  | nil => rfl
  | cons e es ih =>
    obtain ⟨⟨hstill, hseize⟩, hes⟩ := List.forall_mem_cons.1 he
    have hr : e.returns = false := by
      simp only [stillFlag, Bool.and_eq_true, Bool.not_eq_true'] at hstill
      exact hstill.1
    have hcons := heldFlag_cons (k := k) (e := e) (l := es ++ l) h.phase
    rw [hr, hseize, ih h.of_cons hes] at hcons
    simpa using hcons

/-- What an event wait returns, and whether it asks for the flag. -/
theorem heldFlag_ret {t' : TaskId} {r : Ret} (h : phaseOf t (.ret t' c r :: l) ≠ none) :
    (c.asks k = true → ∃ w, r = .word w ∧ w.getLsbD k = heldFlag k t l) ∧
      (c.asks k = false → heldFlag k t l = false) := by
  obtain ⟨p, q, hp, -, hn⟩ := phase_of_cons h
  have hx := explains_of_phaseOf hp
  rw [heldFlag, hp, Option.any_some]
  have part {w : EventMask} {events : EventMask} {options : BitVec 32} {timeout : Int32}
      (hacc : Call.accepts w (.eventWait events options timeout) = true)
      (hk : events.getLsbD k = false) : w.getLsbD k = false := by
    obtain ⟨-, hsub⟩ := Bool.and_eq_true_iff.1 hacc
    have hsub : w &&& events = w := by simpa using hsub
    rw [← hsub, BitVec.getLsbD_and, hk, Bool.and_false]
  cases p with
  | idle =>
    refine ⟨fun hc => ?_, fun _ => rfl⟩
    cases c with
    | eventWait _ _ timeout =>
      obtain ⟨⟨rfl, -⟩, -⟩ : (r = .word 0 ∧ timeout = 0) ∧ Phase.idle = q := by
        simpa [Phase.next] using hn
      exact ⟨0, rfl, by simp [Phase.inHand]⟩
    | _ => cases hc
  | took w =>
    obtain ⟨⟨rfl, hacc⟩, -⟩ : (r = .word w ∧ Call.accepts w c = true) ∧ Phase.idle = q := by
      simpa [Phase.next] using hn
    refine ⟨fun _ => ⟨w, rfl, by simp [Phase.inHand]⟩, fun hc => ?_⟩
    cases c with
    | eventWait => simpa [Phase.inHand] using part hacc hc
    | _ => cases hacc
  | ended c' r' =>
    obtain ⟨⟨rfl, rfl⟩, -⟩ : (c = c' ∧ r = r') ∧ Phase.idle = q := by
      simpa [Phase.next] using hn
    obtain ⟨-, -, -, -, -, -, -, hword⟩ := hx
    cases c with
    | eventWait mask options timeout =>
      rcases hword _ _ _ rfl with rfl | ⟨w, rfl, hacc, -⟩
      · exact ⟨fun _ => ⟨0, rfl, by simp [Phase.inHand]⟩, fun _ => rfl⟩
      · have hin : (Phase.ended (.eventWait mask options timeout) (.word w)).inHand = [w] :=
          if_neg (accepts_ne_zero hacc)
        rw [hin]
        exact ⟨fun _ => ⟨w, rfl, by simp⟩, fun hc => by simpa using part hacc hc⟩
    | _ => exact ⟨(by rintro ⟨⟩), fun _ => rfl⟩
  | _ => simp [Phase.next] at hn

/-! ## The flag in a state -/

namespace Sched

variable {b : Boot} {m : Move} {s s' : Sched}

/-- The wait that the task is in. -/
def awaited (s : Sched) (t : TaskId) : Option Call := awaitedOf (evs t s.log)

/-- A wait of the task has been ended with the flag in its result. -/
def holds (s : Sched) (k : Nat) (t : TaskId) : Bool := heldFlag k t (evs t s.log)

/-- The flag has been posted to the task and no wait has returned it since. -/
def owes (b : Boot) (s : Sched) (k : Nat) (t : TaskId) : Bool :=
  owedFlag k (b.mem t).pendingEvents t (evs t s.log)

/-- It has not been posted again while a wait holds it. -/
def owesOnce (b : Boot) (s : Sched) (k : Nat) (t : TaskId) : Bool :=
  owedOnce k (b.mem t).pendingEvents t (evs t s.log)

theorem Inv.allowed (h : Inv b s) (t : TaskId) :
    Allowed (b.mem t).pendingEvents t (evs t s.log) := by
  obtain ⟨p, hp, -⟩ := inHand_of_stand (h.stand t)
  exact ⟨by simp [hp], (h.pending t).seized⟩

theorem Inv.owes_eq (h : Inv b s) : s.owes b k t =
    ((s.tcb t).pendingEvents.getLsbD k || s.holds k t) := by
  rw [(h.pending t).pending]
  rfl

/-- The task that runs waits in no call and has returned what it held. -/
theorem Inv.current_flags (h : Inv b s) :
    s.awaited s.currentTask = none ∧ s.holds k s.currentTask = false := by
  have hp : phaseOf s.currentTask (evs s.currentTask s.log) = some .idle := h.idlePhase
  have hx : openWait (evs s.currentTask s.log) = none := explains_of_phaseOf hp
  constructor
  · rw [awaited, awaitedOf, hx]
    rfl
  · rw [holds, heldFlag, hp]
    rfl

/-- Who waits in no call holds nothing. -/
theorem Inv.holds_of_awaited (h : Inv b s) (ht : s.awaited t = none) : s.holds k t = false := by
  have hopen (c : Call) (mid : List Ev) (ho : openWait (evs t s.log) = some (c, mid)) : False := by
    rw [awaited, awaitedOf, ho] at ht
    cases ht
  unfold holds heldFlag
  cases h.stand t with
  | dead _ _ _ hp =>
    rw [show phaseOf t (evs t s.log) = _ from hp]
    rfl
  | idle _ _ _ _ _ _ hp =>
    rw [show phaseOf t (evs t s.log) = _ from hp]
    rfl
  | waits c _ _ _ _ hp =>
    rw [show phaseOf t (evs t s.log) = _ from hp]
    rfl
  | ended c _ _ _ _ _ _ _ hp =>
    obtain ⟨mid, -, ho, -⟩ := explains_of_phaseOf hp
    exact (hopen c mid ho).elim

/-- A task whose ended wait holds the flag is ready, and its wait asks for the flag. -/
theorem Inv.ready_of_holds (h : Inv b s) (ht : s.holds k t = true) :
    t ∈ s.readylist ∧ ∃ c, s.awaited t = some c ∧ c.asks k = true := by
  unfold holds heldFlag at ht
  cases h.stand t with
  | dead _ _ _ hp =>
    rw [show phaseOf t (evs t s.log) = _ from hp] at ht
    cases ht
  | idle _ _ _ _ _ _ hp =>
    rw [show phaseOf t (evs t s.log) = _ from hp] at ht
    cases ht
  | waits c _ _ _ _ hp =>
    rw [show phaseOf t (evs t s.log) = _ from hp] at ht
    cases ht
  | ended c _ place _ _ _ _ _ hp =>
    have hp : phaseOf t (evs t s.log) = some (.ended c (result t (s.tcb t) c)) := hp
    obtain ⟨mid, -, ho, -⟩ := explains_of_phaseOf hp
    refine ⟨place.mem, c, by rw [awaited, awaitedOf, ho]; rfl, ?_⟩
    -- the wait would return what it holds
    have hret : phaseOf t (.ret t c (result t (s.tcb t) c) :: evs t s.log) ≠ none := by
      rw [phaseOf, hp]
      simp [Phase.next]
    by_contra hasks
    have hnot := (heldFlag_ret (k := k) hret).2 (by simpa using hasks)
    rw [heldFlag] at hnot
    rw [hnot] at ht
    cases ht

/-- **A flag that is owed is not slept through**: who waits for any events of a mask with the flag in
it is ready. -/
theorem Inv.ready_of_owes (h : Inv b s) {mask : EventMask} {options : BitVec 32} {timeout : Int32}
    (ht : s.awaited t = some (.eventWait mask options timeout)) (hmask : mask.getLsbD k = true)
    (hany : options &&& TASK_EVENT_WAIT_ANY ≠ 0) (ho : s.owes b k t = true) : t ∈ s.readylist := by
  rw [h.owes_eq] at ho
  unfold awaited awaitedOf at ht
  cases h.stand t with
  | dead _ _ _ hp =>
    rw [show openWait (evs t s.log) = none from explains_of_phaseOf hp] at ht
    cases ht
  | idle _ place => exact place.mem
  | ended _ _ place => exact place.mem
  | waits c _ hw _ data hp =>
    exfalso
    obtain ⟨mid, hopen, -⟩ := explains_of_phaseOf hp
    rw [hopen] at ht
    obtain rfl : c = .eventWait mask options timeout := Option.some.inj ht
    have hfree : s.holds k t = false := by
      rw [holds, heldFlag, show phaseOf t (evs t s.log) = _ from hp]
      rfl
    obtain ⟨-, -, -, hsat⟩ := data
    have hsat : (s.tcb t).pendingEvents &&& mask ≠ 0 →
        ¬(s.tcb t).pendingEvents &&& mask = mask ∧ options &&& TASK_EVENT_WAIT_ANY = 0 := by
      simpa [eventsSatisfy] using hsat
    have hzero : (s.tcb t).pendingEvents &&& mask = 0 := by
      by_contra hne
      exact hany (hsat hne).2
    have hbit := congrArg (·.getLsbD k) hzero
    rw [hfree, Bool.or_false] at ho
    simp [ho, hmask] at hbit

/-- A call that returns at once and concerns no events. -/
theorem Inv.flags_ret (h : Inv b s) (h' : Inv b s') (hcur : s'.currentTask = s.currentTask) {r : Ret}
    (hlog : s'.log = .ret s.currentTask c r :: s.log) (t : TaskId) : s'.awaited t = s.awaited t ∧
      s'.holds k t = s.holds k t ∧ s'.owes b k t = s.owes b k t ∧
        s'.owesOnce b k t = s.owesOnce b k t := by
  by_cases ht : t = s.currentTask
  · subst ht
    obtain ⟨h₁, h₂⟩ := h.current_flags (k := k)
    obtain ⟨h₁', h₂'⟩ := h'.current_flags (k := k)
    rw [hcur] at h₁' h₂'
    have hpend : pendingFlag k (b.mem s.currentTask).pendingEvents (evs s.currentTask s'.log) =
        pendingFlag k (b.mem s.currentTask).pendingEvents (evs s.currentTask s.log) := by
      have htask : Ev.task (.ret s.currentTask c r) = s.currentTask := rfl
      rw [hlog, evs_cons_of_eq htask, pendingFlag_ret]
    have hheld : heldFlag k s.currentTask (evs s.currentTask s'.log) =
        heldFlag k s.currentTask (evs s.currentTask s.log) := h₂'.trans h₂.symm
    refine ⟨h₁'.trans h₁.symm, hheld, ?_, ?_⟩
    · rw [owes, owes, owedFlag, owedFlag, hpend, hheld]
    · rw [owesOnce, owesOnce, owedOnce, owedOnce, hpend, hheld]
  · have hevs : evs t s'.log = evs t s.log := by
      have htask : Ev.task (.ret s.currentTask c r) ≠ t := Ne.symm ht
      rw [hlog, evs_cons_of_ne htask]
    simp [awaited, holds, owes, owesOnce, hevs]

/-- A move that does not post the flag. -/
def keepsFlag (k : Nat) : Move → Bool
  | .call (.eventPost _ events) => !events.getLsbD k
  | _ => true

theorem stillFlag_of_plain (he : plain e = true) : stillFlag k e = true := by
  cases e with
  | ret | posted => cases he
  | _ => rfl

theorem staysIn_of_plain (he : plain e = true) : staysIn e = true := by
  cases e with
  | ret | park => cases he
  | _ => rfl

theorem plain_of_passive (he : passive e = true) : plain e = true := by
  cases e with
  | expire | exited => rfl
  | _ => cases he

/-- What such a move logs before it returns. -/
theorem Logs.split (h : Logs m s s') (hm : keepsFlag k m = true) : ∃ rs es,
    s'.log = rs ++ (es ++ s.log) ∧ ReturnsTo s'.currentTask rs ∧ ∀ e ∈ es, stillFlag k e = true := by
  cases h with
  | call c r es _ hcur hlog hes =>
    exact ⟨[_], es, hlog, .inr ⟨c, r, by rw [hcur]⟩, fun e he => stillFlag_of_plain (hes e he)⟩
  | post w events es hm' hcur hlog hes =>
    subst hm'
    refine ⟨[_], es ++ [.posted w events], by simpa using hlog, .inr ⟨_, _, by rw [hcur]⟩, ?_⟩
    intro e he
    rcases List.mem_append.1 he with he | he
    · exact stillFlag_of_plain (hes e he)
    · rw [List.mem_singleton.1 he]
      simpa [keepsFlag, stillFlag, Ev.returns, Ev.postsBit] using hm
  | park c rs _ hlog hrs =>
    exact ⟨rs, [_], hlog, hrs, by simp [stillFlag, Ev.returns, Ev.postsBit]⟩
  | other rs es _ hlog hrs hes =>
    exact ⟨rs, es, hlog, hrs, fun e he => stillFlag_of_plain (plain_of_passive (hes e he))⟩

/-- A task that does not run after the move. -/
structure FlagKept (b : Boot) (k : Nat) (m : Move) (s s' : Sched) (t : TaskId) : Prop where
  owes : s'.owes b k t = s.owes b k t
  once : s.owesOnce b k t = true → s'.owesOnce b k t = true
  /-- It is in the call that it was in, or went to sleep in the move. -/
  awaited : (s'.awaited t = s.awaited t ∧ (t = s.currentTask → ∀ c, m = .call c → c = .schedYield)) ∨
    t = s.currentTask ∧ ∃ c, m = .call c ∧ s'.awaited t = some c

theorem evs_returns {rs l : List Ev} (hrs : ReturnsTo u rs) (ht : t ≠ u) :
    evs t (rs ++ l) = evs t l := by
  rcases hrs with rfl | ⟨c, r, rfl⟩
  · rfl
  · exact evs_cons_of_ne ht.symm

theorem evs_append (t : TaskId) (es l : List Ev) : evs t (es ++ l) = evs t es ++ evs t l := by
  simp [evs]

theorem forall_evs {p : Ev → Bool} {es : List Ev} (he : ∀ e ∈ es, p e = true) :
    ∀ e ∈ evs t es, p e = true :=
  fun e hm => he e (List.mem_of_mem_filter hm)

theorem Inv.flag_kept (h : Inv b s) (hs : s.step m = some s') (hk : k < 64)
    (hm : keepsFlag k m = true) (ht : t ≠ s'.currentTask) : FlagKept b k m s s' t := by
  have hlogs := h.logs_step hs
  have hallowed := (h.step hs).allowed t
  obtain ⟨rs, es, hlog, hrs, hes⟩ := hlogs.split hm
  have hevs : evs t s'.log = evs t es ++ evs t s.log := by
    rw [hlog, evs_returns hrs ht, evs_append]
  rw [hevs] at hallowed
  obtain ⟨howes, honce⟩ := owed_append hk (evs t es) hallowed (forall_evs hes)
  refine ⟨by rw [owes, hevs]; exact howes, fun ho => by rw [owesOnce, hevs]; exact honce ho, ?_⟩
  -- the wait that the task is in
  have stays {rs es : List Ev} (hlog : s'.log = rs ++ (es ++ s.log))
      (hrs : ReturnsTo s'.currentTask rs) (hes : ∀ e ∈ es, plain e = true) :
      s'.awaited t = s.awaited t := by
    rw [awaited, hlog, evs_returns hrs ht, evs_append]
    exact awaitedOf_append _ (forall_evs fun e he => staysIn_of_plain (hes e he))
  cases hlogs with
  | call c r es _ hcur hlog hes =>
    have hrs : ReturnsTo s'.currentTask [.ret s.currentTask c r] := .inr ⟨c, r, by rw [hcur]⟩
    exact .inl ⟨stays hlog hrs hes, fun e => absurd e (hcur ▸ ht)⟩
  | post w events es _ hcur hlog hes =>
    refine .inl ⟨?_, fun e => absurd e (hcur ▸ ht)⟩
    have hrs : ReturnsTo s'.currentTask [.ret s.currentTask (.eventPost w events) (.word 0)] :=
      .inr ⟨_, _, by rw [hcur]⟩
    have hlog : s'.log = [.ret s.currentTask (.eventPost w events) (.word 0)] ++
        ((es ++ [.posted w events]) ++ s.log) := by
      rw [hlog]
      simp
    rw [awaited, hlog, evs_returns hrs ht, evs_append]
    refine awaitedOf_append _ (forall_evs fun e he => ?_)
    rcases List.mem_append.1 he with he | he
    · exact staysIn_of_plain (hes e he)
    · rw [List.mem_singleton.1 he]
      rfl
  | park c rs hmc hlog hrs =>
    by_cases htc : t = s.currentTask
    · right
      refine ⟨htc, c, hmc, ?_⟩
      have htask : Ev.task (.park s.currentTask c s.clock) = t := htc.symm
      rw [awaited, hlog, evs_returns hrs ht, evs_cons_of_eq htask]
      rfl
    · refine .inl ⟨?_, fun e => absurd e htc⟩
      rw [awaited, hlog, evs_returns hrs ht, evs_cons_of_ne (Ne.symm htc)]
      rfl
  | other rs es hmc hlog hrs hes =>
    exact .inl ⟨stays hlog hrs fun e he => plain_of_passive (hes e he), fun _ => hmc⟩

/-- The task that runs after the move: a wait for the flag has returned to it, or none has. -/
inductive FlagRun (b : Boot) (k : Nat) (m : Move) (s s' : Sched) (t : TaskId) : Prop
  | returned (c : Call) (w : EventMask) (l : List Ev) (hlog : s'.log = .ret t c (.word w) :: l)
    (hasks : c.asks k = true)
    (hcall : s.awaited t = some c ∨ m = .call c ∧ s'.currentTask = s.currentTask)
    (hset : w.getLsbD k = true →
      s.owes b k t = true ∧ (s.owesOnce b k t = true → s'.owes b k t = false))
    (hclear : w.getLsbD k = false → s'.owes b k t = s.owes b k t)
  | silent (hawaited : ∀ c, s.awaited t = some c → c.asks k = false)
    (hcall : ∀ c, m = .call c → s'.currentTask = s.currentTask → c.asks k = false)
    (howes : s'.owes b k t = s.owes b k t)

/-- The return of a call, when `l` has been observed before it. -/
theorem Inv.flag_ret (h' : Inv b s') {r : Ret} {l : List Ev}
    (hlog : s'.log = .ret s'.currentTask c r :: l)
    (howes : owedFlag k (b.mem s'.currentTask).pendingEvents s'.currentTask
      (evs s'.currentTask l) = s.owes b k s'.currentTask)
    (honce : s.owesOnce b k s'.currentTask = true →
      owedOnce k (b.mem s'.currentTask).pendingEvents s'.currentTask (evs s'.currentTask l) = true)
    (hawaited : ∀ c', s.awaited s'.currentTask = some c' → c' = c)
    (hcall : c.asks k = true → s.awaited s'.currentTask = some c ∨
      m = .call c ∧ s'.currentTask = s.currentTask)
    (hcall' : ∀ c', m = .call c' → s'.currentTask = s.currentTask → c' = c) :
    FlagRun b k m s s' s'.currentTask := by
  have hevs : evs s'.currentTask s'.log =
      .ret s'.currentTask c r :: evs s'.currentTask l := by
    rw [hlog]
    exact evs_cons_of_eq rfl
  have hphase := (h'.allowed s'.currentTask).phase
  rw [hevs] at hphase
  obtain ⟨hword, hnot⟩ := heldFlag_ret (k := k) hphase
  -- nothing is held after the return
  have hafter : s'.owes b k s'.currentTask =
      pendingFlag k (b.mem s'.currentTask).pendingEvents (evs s'.currentTask l) := by
    have hheld : s'.holds k s'.currentTask = false := h'.current_flags.2
    unfold holds at hheld
    rw [owes, owedFlag, hheld, Bool.or_false, hevs, pendingFlag_ret]
  cases hasks : c.asks k with
  | true =>
    obtain ⟨w, rfl, hw⟩ := hword hasks
    refine .returned c w l hlog hasks (hcall hasks) ?_ ?_
    · intro hset
      rw [← howes, hafter, owedFlag, ← hw, hset]
      refine ⟨Bool.or_true _, fun ho => ?_⟩
      have ho := honce ho
      rw [owedOnce, ← hw, hset] at ho
      simpa using ho
    · intro hclear
      rw [hafter, ← howes, owedFlag, ← hw, hclear, Bool.or_false]
  | false =>
    refine .silent (fun c' hc => hawaited c' hc ▸ hasks) (fun c' hm hcur => hcall' c' hm hcur ▸ hasks) ?_
    rw [hafter, ← howes, owedFlag, hnot hasks, Bool.or_false]

/-- Another task has been switched to, or the same one again. -/
theorem Inv.flag_switch (h : Inv b s) (h' : Inv b s') (hk : k < 64) {rs es : List Ev}
    (hlog : s'.log = rs ++ (es ++ s.log)) (hrs : ReturnsTo s'.currentTask rs)
    (hes : ∀ e ∈ es, stillFlag k e = true ∧ e.seizesBit k = false)
    (hstays : ∀ e ∈ es, staysIn e = true ∨ e.task = s.currentTask)
    (hcall : ∀ c, m = .call c → s'.currentTask = s.currentTask → c.asks k = false) :
    FlagRun b k m s s' s'.currentTask := by
  have hallowed := h'.allowed s'.currentTask
  have hstill (e : Ev) (he : e ∈ evs s'.currentTask es) :
      stillFlag k e = true ∧ e.seizesBit k = false := hes e (List.mem_of_mem_filter he)
  have hkept (hl : Allowed (b.mem s'.currentTask).pendingEvents s'.currentTask
      (evs s'.currentTask es ++ evs s'.currentTask s.log)) :=
    owed_append hk (evs s'.currentTask es) hl fun e he => (hstill e he).1
  -- a task that was in a wait before is another one, and still in it when it is switched to
  have hwait (c : Call) (hc : s.awaited s'.currentTask = some c) :
      s'.currentTask ≠ s.currentTask ∧
        awaitedOf (evs s'.currentTask es ++ evs s'.currentTask s.log) = some c := by
    have hne : s'.currentTask ≠ s.currentTask := by
      intro e
      rw [e, (h.current_flags (k := k)).1] at hc
      cases hc
    refine ⟨hne, (awaitedOf_append _ fun e he => ?_).trans hc⟩
    refine (hstays e (List.mem_of_mem_filter he)).resolve_right fun hcur => ?_
    exact hne ((mem_evs he).symm.trans hcur)
  rcases hrs with rfl | ⟨c, r, rfl⟩
  · have hevs : evs s'.currentTask s'.log = evs s'.currentTask es ++ evs s'.currentTask s.log := by
      rw [hlog, List.nil_append, evs_append]
    rw [hevs] at hallowed
    refine .silent (fun c hc => ?_) hcall (by rw [owes, hevs]; exact (hkept hallowed).1)
    have hnone : s'.awaited s'.currentTask = none := (h'.current_flags (k := k)).1
    rw [awaited, hevs, (hwait c hc).2] at hnone
    cases hnone
  · have hevs : evs s'.currentTask s'.log = .ret s'.currentTask c r ::
        (evs s'.currentTask es ++ evs s'.currentTask s.log) := by
      rw [hlog, ← evs_append]
      exact evs_cons_of_eq rfl
    rw [hevs] at hallowed
    obtain ⟨howes, honce⟩ := hkept hallowed.of_cons
    cases hc₀ : s.awaited s'.currentTask with
    | some c₀ =>
      obtain ⟨hne, hopen⟩ := hwait c₀ hc₀
      have hc : c₀ = c := by
        obtain ⟨⟨c', mid⟩, ho, rfl⟩ := Option.map_eq_some_iff.1 hopen
        have hphase := hallowed.phase
        rw [← List.nil_append (_ :: _)] at hphase
        exact (ret_openWait hphase ho).1
      subst hc
      refine h'.flag_ret (l := es ++ s.log) hlog ?_ ?_ (fun c' hc' => ?_) (fun _ => .inl hc₀)
        fun c' _ hcur => absurd hcur hne
      · rw [evs_append]
        exact howes
      · rw [evs_append]
        exact honce
      · rw [hc₀] at hc'
        exact (Option.some.inj hc').symm
    | none =>
      have hheld : heldFlag k s'.currentTask (evs s'.currentTask es ++ evs s'.currentTask s.log) =
          false := by
        rw [heldFlag_append _ hallowed.of_cons hstill]
        exact h.holds_of_awaited hc₀
      have hafter : s'.holds k s'.currentTask = false := h'.current_flags.2
      refine .silent (fun c' hc' => ?_) hcall ?_
      · rw [hc₀] at hc'
        cases hc'
      · rw [← show _ = s.owes b k s'.currentTask from howes]
        unfold holds at hafter
        rw [owes, owedFlag, owedFlag, hafter, hheld, hevs, pendingFlag_ret]

theorem Inv.flag_run (h : Inv b s) (hs : s.step m = some s') (hk : k < 64)
    (hm : keepsFlag k m = true) : FlagRun b k m s s' s'.currentTask := by
  have h' := h.step hs
  have hallowed := h'.allowed s'.currentTask
  have hcur₀ : s.awaited s.currentTask = none := (h.current_flags (k := k)).1
  have returned {c : Call} {r : Ret} {es : List Ev} (hmc : m = .call c)
      (hcur : s'.currentTask = s.currentTask)
      (hlog : s'.log = .ret s.currentTask c r :: (es ++ s.log))
      (hes : ∀ e ∈ es, stillFlag k e = true) : FlagRun b k m s s' s'.currentTask := by
    rw [← hcur] at hlog hcur₀
    have htask : Ev.task (.ret s'.currentTask c r) = s'.currentTask := rfl
    rw [hlog, evs_cons_of_eq htask, evs_append] at hallowed
    obtain ⟨howes, honce⟩ := owed_append hk _ hallowed.of_cons (forall_evs hes)
    refine h'.flag_ret (l := es ++ s.log) hlog ?_ ?_ (fun c' hc' => ?_) (fun _ => .inr ⟨hmc, hcur⟩)
      fun c' hmc' _ => ?_
    · rw [evs_append]
      exact howes
    · rw [evs_append]
      exact honce
    · rw [hcur₀] at hc'
      cases hc'
    · rw [hmc] at hmc'
      exact (Move.call.inj hmc').symm
  cases h.logs_step hs with
  | call c r es hmc hcur hlog hes =>
    exact returned hmc hcur hlog fun e he => stillFlag_of_plain (hes e he)
  | post w events es hmc hcur hlog hes =>
    have hlog : s'.log = .ret s.currentTask (.eventPost w events) (.word 0) ::
        ((es ++ [.posted w events]) ++ s.log) := by
      simpa using hlog
    refine returned hmc hcur hlog fun e he => ?_
    rcases List.mem_append.1 he with he | he
    · exact stillFlag_of_plain (hes e he)
    · rw [List.mem_singleton.1 he]
      subst hmc
      simpa [keepsFlag, stillFlag, Ev.returns, Ev.postsBit] using hm
  | park c rs hmc hlog hrs =>
    have hpark : s'.log = rs ++ ([.park s.currentTask c s.clock] ++ s.log) := hlog
    refine h.flag_switch h' hk hpark hrs ?_ ?_ ?_
    · simp [stillFlag, Ev.returns, Ev.postsBit, Ev.seizesBit]
    · exact fun e he => .inr (by rw [List.mem_singleton.1 he]; rfl)
    · -- the task that has gone to sleep does not run
      intro c' _ hcur
      exfalso
      have htask : Ev.task (.park s.currentTask c s.clock) = s.currentTask := rfl
      rcases hrs with rfl | ⟨c₁, r₁, rfl⟩
      · have hnone := (h'.current_flags (k := k)).1
        rw [hcur, awaited, hlog, List.nil_append, evs_cons_of_eq htask] at hnone
        cases hnone
      · have hphase := hallowed.phase
        have htask₁ : Ev.task (.ret s'.currentTask c₁ r₁) = s.currentTask := hcur
        rw [hcur, hlog, List.singleton_append, evs_cons_of_eq htask₁, evs_cons_of_eq htask] at hphase
        obtain ⟨p, q, hp, -, hn⟩ := phase_of_cons hphase
        obtain ⟨p₀, q₀, -, hq₀, hn₀⟩ := phase_of_cons (by rw [hp]; simp)
        rw [hp] at hq₀
        obtain rfl := Option.some.inj hq₀
        cases p₀ with
        | idle =>
          obtain ⟨-, rfl⟩ : c.blocks = true ∧ Phase.parked c = p := by
            simpa [Phase.next] using hn₀
          simp [Phase.next] at hn
        | _ => cases hn₀
  | other rs es hmc hlog hrs hes =>
    refine h.flag_switch h' hk hlog hrs (fun e he => ?_) (fun e he => ?_) ?_
    · have hp := hes e he
      cases e with
      | expire | exited => exact ⟨rfl, rfl⟩
      | _ => cases hp
    · exact .inl (staysIn_of_plain (plain_of_passive (hes e he)))
    · intro c hc _
      rw [hmc c hc]
      rfl

/-- The flag has been posted to `w`. -/
structure FlagPosted (b : Boot) (k : Nat) (w : TaskId) (s s' : Sched) : Prop where
  current : s'.currentTask = s.currentTask
  awaited : ∀ t, s'.awaited t = s.awaited t
  owes : s'.owes b k w = true
  once : s.holds k w = false → s'.owesOnce b k w = true
  others : ∀ t, t ≠ w → s'.owes b k t = s.owes b k t ∧ s'.holds k t = s.holds k t ∧
    s'.owesOnce b k t = s.owesOnce b k t

theorem Inv.flag_post {w : TaskId} (h : Inv b s) (hs : s.step (.call (.eventPost w events)) = some s')
    (hk : k < 64) (hb : events.getLsbD k = true) : FlagPosted b k w s s' := by
  have h' := h.step hs
  obtain ⟨hcur, es, hlog, hes⟩ : s'.currentTask = s.currentTask ∧ ∃ es, s'.log =
      .ret s.currentTask (.eventPost w events) (.word 0) :: (es ++ .posted w events :: s.log) ∧
        ∀ e ∈ es, plain e = true ∧ e.task = w := by
    unfold Sched.step at hs
    split at hs
    case isFalse => cases hs
    case isTrue hp =>
      obtain rfl := Option.some.inj hs
      exact h.log_eventPost (of_decide_eq_true (Bool.and_eq_true_iff.1 hp).1)
  have hcurrent : s'.awaited s.currentTask = none ∧ s'.holds k s.currentTask = false := by
    rw [← hcur]
    exact h'.current_flags
  obtain ⟨hnone, hfree⟩ := h.current_flags (k := k)
  -- what has been observed of a task before the return
  have hother (t : TaskId) (ht : t ≠ w) : evs t (es ++ .posted w events :: s.log) = evs t s.log := by
    have htask : Ev.task (.posted w events) ≠ t := ht.symm
    rw [evs_append_of_ne (fun e he => by rw [(hes e he).2]; exact ht.symm), evs_cons_of_ne htask]
  have hevs (t : TaskId) (ht : t ≠ s.currentTask) :
      evs t s'.log = evs t (es ++ .posted w events :: s.log) := by
    have htask : Ev.task (.ret s.currentTask (.eventPost w events) (.word 0)) ≠ t := ht.symm
    rw [hlog, evs_cons_of_ne htask]
  have hevs' : evs s.currentTask s'.log = .ret s.currentTask (.eventPost w events) (.word 0) ::
      evs s.currentTask (es ++ .posted w events :: s.log) := by
    rw [hlog]
    exact evs_cons_of_eq rfl
  -- the task that is posted to
  have hw : evs w (es ++ .posted w events :: s.log) = es ++ .posted w events :: evs w s.log := by
    rw [evs_append_of_eq fun e he => (hes e he).2]
    exact congrArg (es ++ ·) (evs_cons_of_eq rfl)
  have hallowed : Allowed (b.mem w).pendingEvents w (es ++ .posted w events :: evs w s.log) := by
    have hall := h'.allowed w
    by_cases hwc : w = s.currentTask
    · rw [hwc, hevs', ← hwc, hw] at hall
      exact hall.of_cons
    · rwa [hevs w hwc, hw] at hall
  have hposted := hallowed.of_append es
  obtain ⟨howes, honce⟩ := owed_append hk es hallowed fun e he => stillFlag_of_plain (hes e he).1
  have hpend : pendingFlag k (b.mem w).pendingEvents (.posted w events :: evs w s.log) = true := by
    rw [pendingFlag, pendingOf_cons_bit hk]
    simp [Ev.postsBit, hb]
  have hheld : heldFlag k w (.posted w events :: evs w s.log) = s.holds k w := by
    rw [heldFlag_cons hposted.phase]
    simp [Ev.returns, Ev.seizesBit, holds]
  have howes : owedFlag k (b.mem w).pendingEvents w (es ++ .posted w events :: evs w s.log) = true := by
    rw [howes, owedFlag, hpend, Bool.true_or]
  refine ⟨hcur, fun t => ?_, ?_, fun hfree => ?_, fun t ht => ?_⟩
  · by_cases htc : t = s.currentTask
    · rw [htc, hcurrent.1, hnone]
    · rw [awaited, hevs t htc]
      by_cases htw : t = w
      · subst htw
        rw [hw, awaitedOf_append es fun e he => staysIn_of_plain (hes e he).1]
        exact awaitedOf_append [.posted t events] (by simp [staysIn])
      · rw [hother t htw]
        rfl
  · by_cases hwc : w = s.currentTask
    · have hret := (h'.allowed w).phase
      rw [hwc, hevs', ← hwc, hw] at hret
      have hnot := (heldFlag_ret (k := k) hret).2 rfl
      rw [owedFlag, hnot, Bool.or_false] at howes
      rw [owes, owedFlag, hwc, hevs', ← hwc, hw, pendingFlag_ret, howes, Bool.true_or]
    · rw [owes, hevs w hwc, hw]
      exact howes
  · have honce := honce (by rw [owedOnce, hheld, hfree]; simp)
    by_cases hwc : w = s.currentTask
    · have hheld : heldFlag k w (evs w s'.log) = false := by
        rw [hwc]
        exact hcurrent.2
      rw [owesOnce, owedOnce, hheld]
      simp
    · rw [owesOnce, hevs w hwc, hw]
      exact honce
  · by_cases htc : t = s.currentTask
    · subst htc
      have hpend : pendingFlag k (b.mem s.currentTask).pendingEvents (evs s.currentTask s'.log) =
          pendingFlag k (b.mem s.currentTask).pendingEvents (evs s.currentTask s.log) := by
        rw [hevs', pendingFlag_ret, hother _ ht]
      have hheld : heldFlag k s.currentTask (evs s.currentTask s'.log) =
          heldFlag k s.currentTask (evs s.currentTask s.log) := hcurrent.2.trans hfree.symm
      refine ⟨?_, hheld, ?_⟩
      · rw [owes, owes, owedFlag, owedFlag, hpend, hheld]
      · rw [owesOnce, owesOnce, owedOnce, owedOnce, hpend, hheld]
    · have hevs : evs t s'.log = evs t s.log := (hevs t htc).trans (hother t ht)
      refine ⟨?_, ?_, ?_⟩
      · rw [owes, owes, hevs]
      · rw [holds, holds, hevs]
      · rw [owesOnce, owesOnce, hevs]

end Sched

end Ptask.OneN
