import Mathlib.Algebra.Order.Group.Int
import Ptask.Lib.DeltaList
import Ptask.OneN.Simulation

/-!
# When timers run out

The watchdog list is a delta list: what its entries mean is the time that is left for each task
(`Sched.left`), counted from the last pass of the scheduler loop. A timer is never early as long as
this is so, which the code does not ensure in two places: a timer that is armed while the clock is
ahead of the last pass counts from that pass, not from the call, and a tick compares every entry
with the whole gap and takes the whole gap off the first entry that stays, whatever it has expired
in front of it. `Punctual` says that a move does neither.
-/

namespace Ptask.OneN

open Ptask.Lib

/-! ## Waits in a log -/

/-- The last wait of a task and the time at which it started, from the events about the task. -/
def lastPark : List Ev → Option (Call × Nat)
  | [] => none
  | .park _ c start :: _ => some (c, start)
  | _ :: l => lastPark l

/-- **No early wake-up**: a tick ends a wait only in a pass whose reading of the clock is at least
the reading at the call plus the timeout. -/
def NoEarlyWake (log : List Ev) : Prop :=
  ∀ l₁ t c (now : Nat) l₂, log = l₁ ++ .expire t c now :: l₂ →
    ∃ start, lastPark (evs t l₂) = some (c, start) ∧ (start : Int) + c.timeout.toInt ≤ now

/-- The event starts a wait or is the expiry of one. -/
def Ev.timing : Ev → Bool
  | .park .. => true
  | .expire .. => true
  | _ => false

section

variable {t : TaskId} {e : Ev} {es log : List Ev} {c : Call}

theorem lastPark_cons (h : e.timing = false) : lastPark (e :: log) = lastPark log := by
  cases e <;> first | rfl | cases h

theorem lastPark_append (h : ∀ e ∈ es, e.timing = false) :
    lastPark (evs t (es ++ log)) = lastPark (evs t log) := by
  induction es with
  | nil => rfl
  | cons e es ih =>
    obtain ⟨he, hes⟩ := List.forall_mem_cons.1 h
    rw [List.cons_append]
    by_cases ht : e.task = t
    · rw [evs_cons_of_eq ht, lastPark_cons he, ih hes]
    · rw [evs_cons_of_ne ht, ih hes]

theorem NoEarlyWake.cons (h : NoEarlyWake log)
    (he : ∀ t c (now : Nat), e = .expire t c now →
      ∃ start, lastPark (evs t log) = some (c, start) ∧ (start : Int) + c.timeout.toInt ≤ now) :
    NoEarlyWake (e :: log) := by
  intro l₁ t c now l₂ hl
  cases l₁ with
  | nil =>
    obtain ⟨rfl, rfl⟩ : e = .expire t c now ∧ log = l₂ := by simpa using hl
    exact he t c now rfl
  | cons a l₁ =>
    obtain ⟨-, rfl⟩ : e = a ∧ log = l₁ ++ .expire t c now :: l₂ := by simpa using hl
    exact h l₁ t c now l₂ rfl

theorem NoEarlyWake.append (h : NoEarlyWake log) (hes : ∀ e ∈ es, e.timing = false) :
    NoEarlyWake (es ++ log) := by
  induction es with
  | nil => exact h
  | cons e es ih =>
    obtain ⟨he, hes⟩ := List.forall_mem_cons.1 hes
    apply (ih hes).cons
    intro t c now hx
    rw [hx] at he
    cases he

/-- The wait that a parked task is in is its last one. -/
theorem lastPark_of_parked (h : phaseOf t log = some (.parked c)) :
    ∃ start, lastPark log = some (c, start) := by
  induction log with
  | nil => cases h
  | cons e log ih =>
    obtain ⟨p, hp, hn⟩ := Option.bind_eq_some_iff.1 h
    cases e with
    | park u c' start =>
      cases p <;> simp only [Phase.next, reduceCtorEq] at hn
      split at hn
      · cases hn
        exact ⟨start, rfl⟩
      · cases hn
    | posted u events =>
      obtain rfl : p = .parked c := Option.some.inj hn
      exact ih hp
    | unit u i =>
      obtain rfl : p = .parked c := Option.some.inj hn
      exact ih hp
    | ret u c' r =>
      exfalso
      cases p with
      | idle => cases c' <;> simp [Phase.next] at hn
      | _ => simp [Phase.next] at hn
    | grant u c' r => cases p <;> simp [Phase.next] at hn
    | expire u c' now => cases p <;> simp [Phase.next] at hn
    | seize u events => cases p <;> simp [Phase.next] at hn
    | created u => cases p <;> simp [Phase.next] at hn
    | exited u => cases p <;> simp [Phase.next] at hn

end

/-! ## The watchdog list as a delta list -/

theorem toInt_update (δ : TaskId → Int32) (x : TaskId) (d : Int32) :
    (fun u => (Function.update δ x d u).toInt) = Function.update (fun u => (δ u).toInt) x d.toInt := by
  funext u
  exact Function.apply_update (fun _ => Int32.toInt) δ x d u

section

variable {x w t : TaskId} {d : Int32} {l : List TaskId} {δ : TaskId → Int32}

/-- The loop of `fiber_watchdog_insert` is the insertion into a delta list: none of its subtractions
overflows. -/
theorem watchdogLoop_eq_insert (hl : l.Nodup) (hd : 0 ≤ d) (hn : ∀ u ∈ l, 0 ≤ δ u) :
    (Sched.watchdogLoop x d l δ).1 = (DeltaList.insert x d.toInt l fun u => (δ u).toInt).1 ∧
      (fun u => ((Sched.watchdogLoop x d l δ).2 u).toInt) =
        (DeltaList.insert x d.toInt l fun u => (δ u).toInt).2 := by
  induction l generalizing d with
  | nil => exact ⟨rfl, toInt_update _ _ _⟩
  | cons a l ih =>
    have hz : d.toInt = 0 ↔ d = 0 := by rw [← Int32.toInt_zero, Int32.toInt_inj]
    rw [Sched.watchdogLoop, DeltaList.insert]
    by_cases h0 : d = 0
    · rw [if_pos h0, if_pos (hz.2 h0)]
      exact ⟨rfl, toInt_update _ _ _⟩
    · rw [if_neg h0, if_neg (mt hz.1 h0)]
      by_cases hlt : d < δ a
      · have hsub : (δ a - d).toInt = (δ a).toInt - d.toInt :=
          Int32.toInt_sub_of_le _ _ hd (Int32.le_of_lt hlt)
        rw [if_pos hlt, if_pos (Int32.lt_iff_toInt_lt.1 hlt)]
        refine ⟨rfl, ?_⟩
        dsimp only
        rw [toInt_update, toInt_update, hsub]
      · have hle : δ a ≤ d := Int32.not_lt.1 hlt
        have hsub : (d - δ a).toInt = d.toInt - (δ a).toInt :=
          Int32.toInt_sub_of_le _ _ (hn a List.mem_cons_self) hle
        have hpos : 0 ≤ d - δ a := by
          rw [Int32.le_iff_toInt_le, hsub, Int32.toInt_zero]
          have := Int32.le_iff_toInt_le.1 hle
          omega
        obtain ⟨h1, h2⟩ := ih (List.nodup_cons.1 hl).2 hpos fun u hu =>
          hn u (List.mem_cons_of_mem _ hu)
        rw [if_neg hlt, if_neg (mt Int32.lt_iff_toInt_lt.2 hlt), ← hsub]
        exact ⟨congrArg (a :: ·) h1, h2⟩

theorem nextOf_split {n : TaskId} (h : Sched.nextOf w l = some n) :
    ∃ p q, l = p ++ w :: n :: q := by
  induction l with
  | nil => cases h
  | cons a l ih =>
    rw [Sched.nextOf] at h
    split at h
    · next ha =>
      subst ha
      cases l with
      | nil => cases h
      | cons b l =>
        cases h
        exact ⟨[], l, rfl⟩
    · obtain ⟨p, q, rfl⟩ := ih h
      exact ⟨a :: p, q, rfl⟩

theorem remove_eq_nextOf (δ : TaskId → Int) : DeltaList.remove w l δ =
    match Sched.nextOf w l with
    | some n => Function.update δ n (δ n + δ w)
    | none => δ := by
  induction l with
  | nil => rfl
  | cons a l ih =>
    cases l with
    | nil =>
      have hn : Sched.nextOf w [a] = none := by
        rw [Sched.nextOf]
        split <;> rfl
      rw [hn, DeltaList.remove]
      intro _ _ _ h
      cases h
    | cons b l =>
      rw [DeltaList.remove, Sched.nextOf]
      split
      · next ha => subst ha; rfl
      · exact ih

end

namespace Sched

/-- The interval of an entry. -/
def interval (s : Sched) (t : TaskId) : Int := (s.delta t).toInt

/-- The time that is left for a task on the watchdog list after the last pass. -/
def left (s : Sched) (t : TaskId) : Int := DeltaList.remaining s.interval s.wadoglist t

variable {b : Boot} {m : Move} {s s' : Sched} {w t : TaskId} {c : Call} {base : Nat} {es : List Ev}

/-- `fiber_watchdog_remove` is the removal from a delta list. -/
theorem interval_deltaWithout (hl : s.wadoglist.Nodup) (hn : ∀ t ∈ s.wadoglist, 0 ≤ s.interval t)
    (hb : ∀ t ∈ s.wadoglist, s.left t < 2 ^ 31) :
    (fun u => (s.deltaWithout w u).toInt) = DeltaList.remove w s.wadoglist s.interval := by
  rw [remove_eq_nextOf, deltaWithout]
  cases h : nextOf w s.wadoglist with
  | none => rfl
  | some n =>
    obtain ⟨p, q, hpq⟩ := nextOf_split h
    have hwl : w ∈ s.wadoglist := by simp [hpq]
    have hnl : n ∈ s.wadoglist := by simp [hpq]
    rw [hpq] at hl
    have hnp : n ∉ p := fun hm => (List.nodup_append.1 hl).2.2 n hm n (by simp) rfl
    have hne : n ≠ w := by
      intro e
      have := (List.nodup_cons.1 (List.nodup_append.1 hl).2.1).1
      simp [e] at this
    have hsum : s.interval w + s.interval n ≤ s.left n := by
      rw [left, hpq]
      exact DeltaList.add_le_remaining (fun u hu => hn u (by simp [hpq, hu])) hnp hne
    have hadd : (s.delta n + s.delta w).toInt = s.interval n + s.interval w := by
      have hlt := hb n hnl
      have h1 := hn w hwl
      have h2 := hn n hnl
      rw [Int32.toInt_add]
      apply Int.bmod_eq_of_le <;> simp only [interval] at * <;> omega
    dsimp only
    rw [toInt_update, hadd]
    rfl

/-! ## Timers -/

/-- No interval on the watchdog list is negative, and what is left for a task fits into an `int`. -/
structure Timers (s : Sched) : Prop where
  nonneg : ∀ t ∈ s.wadoglist, 0 ≤ s.interval t
  small : ∀ t ∈ s.wadoglist, s.left t < 2 ^ 31

theorem interval_congr (hd : s'.delta = s.delta) : s'.interval = s.interval := by
  unfold interval
  rw [hd]

theorem left_congr (hd : s'.delta = s.delta) (hw : s'.wadoglist = s.wadoglist) :
    s'.left = s.left := by
  unfold left
  rw [interval_congr hd, hw]

theorem Timers.congr (h : Timers s) (hd : s'.delta = s.delta) (hw : s'.wadoglist = s.wadoglist) :
    Timers s' := by
  refine ⟨?_, ?_⟩
  · rw [hw, interval_congr hd]
    exact h.nonneg
  · rw [hw, left_congr hd hw]
    exact h.small

/-- When a wait ends, nothing changes for the others. -/
theorem Timers.grant (h : Timers s) (hl : s.wadoglist.Nodup) (w : TaskId) (x : FibTCB) (es : List Ev) :
    Timers (s.grant w x es) ∧
      ∀ t ∈ (s.grant w x es).wadoglist, t ∈ s.wadoglist ∧ (s.grant w x es).left t = s.left t := by
  have hi : (s.grant w x es).interval = DeltaList.remove w s.wadoglist s.interval :=
    interval_deltaWithout hl h.nonneg h.small
  have hmem (t : TaskId) (ht : t ∈ (s.grant w x es).wadoglist) : t ≠ w ∧ t ∈ s.wadoglist :=
    hl.mem_erase_iff.1 ht
  have hleft (t : TaskId) (ht : t ∈ (s.grant w x es).wadoglist) :
      (s.grant w x es).left t = s.left t := by
    rw [left, hi]
    exact DeltaList.remaining_remove hl (hmem t ht).1 (hmem t ht).2
  refine ⟨⟨?_, ?_⟩, fun t ht => ⟨(hmem t ht).2, hleft t ht⟩⟩
  · intro t ht
    rw [hi]
    exact DeltaList.remove_nonneg h.nonneg t (hmem t ht).2
  · intro t ht
    rw [hleft t ht]
    exact h.small t (hmem t ht).2

/-- When the current task starts a timed wait, its whole timeout is left, and nothing changes for the
others. -/
theorem Timers.suspend (h : Timers s) (hl : s.wadoglist.Nodup) (hd : s.currentTask ∉ s.wadoglist)
    (hc : c.timed = true) (hpos : 0 ≤ c.timeout) (x : FibTCB) :
    Timers (s.suspend c x) ∧
      (s.currentTask ∈ (s.suspend c x).wadoglist ∧
        (s.suspend c x).left s.currentTask = c.timeout.toInt) ∧
      (∀ t, t ∈ (s.suspend c x).wadoglist ↔ t = s.currentTask ∨ t ∈ s.wadoglist) ∧
      ∀ t ∈ s.wadoglist, (s.suspend c x).left t = s.left t := by
  have hkeep (t : TaskId) (ht : t ∈ s.wadoglist) :
      (Function.update s.delta s.currentTask c.timeout t).toInt = s.interval t := by
    have hne : t ≠ s.currentTask := fun e => hd (e ▸ ht)
    rw [Function.update_of_ne hne]
    rfl
  have hnn (t : TaskId) (ht : t ∈ s.wadoglist) :
      0 ≤ (Function.update s.delta s.currentTask c.timeout t).toInt :=
    hkeep t ht ▸ h.nonneg t ht
  have hδ (t : TaskId) (ht : t ∈ s.wadoglist) :
      0 ≤ Function.update s.delta s.currentTask c.timeout t := by
    rw [Int32.le_iff_toInt_le]
    exact hnn t ht
  obtain ⟨h1, h2⟩ := watchdogLoop_eq_insert (x := s.currentTask) hl hpos hδ
  have hw : (s.suspend c x).wadoglist = _ := (if_pos hc).trans h1
  have hi : (s.suspend c x).interval = (DeltaList.insert s.currentTask c.timeout.toInt s.wadoglist
      fun u => (Function.update s.delta s.currentTask c.timeout u).toInt).2 := by
    have hd : (s.suspend c x).delta = _ := if_pos hc
    rw [← h2, ← hd]
    rfl
  have hmem (t : TaskId) : t ∈ (s.suspend c x).wadoglist ↔ t = s.currentTask ∨ t ∈ s.wadoglist := by
    rw [hw]
    exact DeltaList.mem_insert
  have hself : (s.suspend c x).left s.currentTask = c.timeout.toInt := by
    rw [left, hi, hw]
    exact DeltaList.remaining_insert_self hl hd
  have hleft (t : TaskId) (ht : t ∈ s.wadoglist) : (s.suspend c x).left t = s.left t := by
    rw [left, hi, hw, DeltaList.remaining_insert_of_ne hl hd ht]
    exact DeltaList.remaining_congr hkeep
  refine ⟨⟨?_, ?_⟩, ⟨(hmem _).2 (.inl rfl), hself⟩, hmem, hleft⟩
  · rw [hw, hi]
    exact DeltaList.insert_nonneg hl hd (Int32.le_iff_toInt_le.1 hpos) hnn
  · intro t ht
    rcases (hmem t).1 ht with rfl | ht
    · rw [hself]
      exact Int32.toInt_lt _
    · rw [hleft t ht]
      exact h.small t ht

/-! ## Timers that are not early -/

/-- Every task on the watchdog list has at least as much time left, counted from `base`, as its call
asked for; `base` is a reading of the clock, that of the last pass once the loop runs. -/
structure Timely (s : Sched) (base : Nat) : Prop where
  past : base ≤ s.clock
  stamp : s.loop ≠ .startup → UInt64.ofNat base = s.prevStmp
  nonneg : ∀ t ∈ s.wadoglist, 0 ≤ s.interval t
  small : ∀ t ∈ s.wadoglist, s.left t < 2 ^ 31
  due : ∀ t ∈ s.wadoglist, ∃ c start, lastPark (evs t s.log) = some (c, start) ∧
    (start : Int) + c.timeout.toInt ≤ base + s.left t
  kept : NoEarlyWake s.log

/-- No time passes, and the loop does not start. -/
structure SameTime (s s' : Sched) : Prop where
  clock : s'.clock = s.clock
  prevStmp : s'.prevStmp = s.prevStmp
  startup : s'.loop = .startup ↔ s.loop = .startup

theorem SameTime.refl (s : Sched) : SameTime s s := ⟨rfl, rfl, .rfl⟩

theorem SameTime.trans {s'' : Sched} (h : SameTime s s') (h' : SameTime s' s'') :
    SameTime s s'' :=
  ⟨h'.clock.trans h.clock, h'.prevStmp.trans h.prevStmp, h'.startup.trans h.startup⟩

theorem Timely.timers (h : Timely s base) : Timers s := ⟨h.nonneg, h.small⟩

/-- The timers stay as they are. -/
theorem Timely.of_log (h : Timely s base) (es : List Ev) (ht : SameTime s s') (hd : s'.delta = s.delta)
    (hw : s'.wadoglist = s.wadoglist) (hlog : s'.log = es ++ s.log)
    (hes : ∀ e ∈ es, e.timing = false) : Timely s' base := by
  obtain ⟨hnonneg, hsmall⟩ := h.timers.congr hd hw
  refine ⟨ht.clock ▸ h.past, fun hl => ?_, hnonneg, hsmall, ?_, ?_⟩
  · rw [ht.prevStmp]
    exact h.stamp (mt ht.startup.2 hl)
  · intro t hm
    obtain ⟨c, start, hp, hdue⟩ := h.due t (hw ▸ hm)
    exact ⟨c, start, by rw [hlog, lastPark_append hes, hp], by rw [left_congr hd hw]; exact hdue⟩
  · rw [hlog]
    exact h.kept.append hes

theorem sameTime_arrive : SameTime s s.arrive := by
  rcases arrive_eq (s := s) with ha | ⟨c, -, ha⟩ <;> rw [ha] <;> exact ⟨rfl, rfl, .rfl⟩

theorem Timely.arrive (h : Timely s base) : Timely s.arrive base := by
  rcases arrive_eq (s := s) with ha | ⟨c, -, ha⟩
  · rwa [ha]
  · exact h.of_log [.ret s.currentTask c (result s.currentTask (s.tcb s.currentTask) c)]
      sameTime_arrive (by rw [ha]; rfl) (by rw [ha]; rfl) (by rw [ha]; rfl)
      (by simp [Ev.timing])

theorem Timely.schedule (h : Timely s base) (hr : Settled b s) (hs : s.schedule = some s') :
    Timely s' base ∧ SameTime s s' := by
  obtain ⟨t, l, -, -, -, he⟩ := hr.schedule
  rw [hs] at he
  obtain rfl := Option.some.inj he
  have hq : Timely { s with currentTask := t, readylist := l } base :=
    h.of_log [] ⟨rfl, rfl, .rfl⟩ rfl rfl rfl nofun
  have ht : SameTime s { s with currentTask := t, readylist := l } := ⟨rfl, rfl, .rfl⟩
  exact ⟨hq.arrive, ht.trans sameTime_arrive⟩

/-- Another task ends the wait of `w`. -/
theorem Timely.grant (h : Timely s base) (hl : s.wadoglist.Nodup) {x : FibTCB}
    (hes : ∀ e ∈ es, e.timing = false) : Timely (s.grant w x es) base := by
  obtain ⟨⟨hnonneg, hsmall⟩, hkeep⟩ := h.timers.grant hl w x es
  refine ⟨h.past, h.stamp, hnonneg, hsmall, ?_, h.kept.append hes⟩
  intro t ht
  obtain ⟨hmem, hleft⟩ := hkeep t ht
  obtain ⟨c, start, hp, hdue⟩ := h.due t hmem
  refine ⟨c, start, ?_, by rw [hleft]; exact hdue⟩
  exact (lastPark_append hes).trans hp

/-- The current task starts to wait. Its timer counts from now if the last pass read the same time,
or if the loop has not started yet. -/
theorem Timely.suspend (h : Timely s base) (hl : s.wadoglist.Nodup) (hid : s.Idle) {x : FibTCB}
    (hc : c.timed = true → 0 ≤ c.timeout ∧ (s.loop = .startup ∨ s.utime = s.prevStmp)) :
    (∃ base', Timely (s.suspend c x) base') ∧ SameTime s (s.suspend c x) := by
  have htime : SameTime s (s.suspend c x) := by
    unfold Sched.suspend joinQueue
    split <;> exact ⟨rfl, rfl, .rfl⟩
  have hpark (t : TaskId) (ht : t ∈ s.wadoglist) :
      lastPark (evs t (s.suspend c x).log) = lastPark (evs t s.log) := by
    have hne : s.currentTask ≠ t := fun e => hid.dog (e ▸ ht)
    exact congrArg lastPark (evs_cons_of_ne hne)
  have hkept : NoEarlyWake (s.suspend c x).log := h.kept.cons fun _ _ _ he => by cases he
  refine ⟨?_, htime⟩
  by_cases ht : c.timed = true
  · obtain ⟨hpos, hnow⟩ := hc ht
    obtain ⟨⟨hnonneg, hsmall⟩, ⟨-, hself⟩, hmem, hleft⟩ :=
      h.timers.suspend hl hid.dog ht hpos x
    refine ⟨s.clock, htime.clock.ge, ?_, hnonneg, hsmall, ?_, hkept⟩
    · intro hl
      rw [htime.prevStmp]
      exact hnow.resolve_left (mt htime.startup.2 hl)
    · intro t ht
      rcases (hmem t).1 ht with rfl | ht
      · exact ⟨c, s.clock, congrArg lastPark (evs_cons_of_eq rfl), by rw [hself]⟩
      · obtain ⟨c', start, hp, hdue⟩ := h.due t ht
        refine ⟨c', start, (hpark t ht).trans hp, ?_⟩
        have hpast : (base : Int) ≤ s.clock := by exact_mod_cast h.past
        rw [hleft t ht]
        omega
  · have hw : (s.suspend c x).wadoglist = s.wadoglist := if_neg ht
    have hd : (s.suspend c x).delta = s.delta := if_neg ht
    obtain ⟨hnonneg, hsmall⟩ := h.timers.congr hd hw
    refine ⟨base, htime.clock ▸ h.past, ?_, hnonneg, hsmall, ?_, hkept⟩
    · intro hl
      rw [htime.prevStmp]
      exact h.stamp (mt htime.startup.2 hl)
    · intro t ht
      obtain ⟨c', start, hp, hdue⟩ := h.due t (hw ▸ ht)
      exact ⟨c', start, (hpark t (hw ▸ ht)).trans hp, by rw [left_congr hd hw]; exact hdue⟩

/-! ## Calls -/

/-- The timers do not change, and no time passes. -/
def Keeps (s s' : Sched) : Prop := ∀ base, Timely s base → Timely s' base ∧ SameTime s s'

theorem keeps_of_log (es : List Ev) (ht : SameTime s s') (hd : s'.delta = s.delta)
    (hw : s'.wadoglist = s.wadoglist) (hlog : s'.log = es ++ s.log)
    (hes : ∀ e ∈ es, e.timing = false) : Keeps s s' :=
  fun _ h => ⟨h.of_log es ht hd hw hlog hes, ht⟩

theorem Keeps.trans {s'' : Sched} (h : Keeps s s') (h' : Keeps s' s'') : Keeps s s'' := by
  intro base ht
  obtain ⟨h1, t1⟩ := h base ht
  obtain ⟨h2, t2⟩ := h' base h1
  exact ⟨h2, t1.trans t2⟩

theorem keeps_grant (es : List Ev) (hl : s.wadoglist.Nodup) {x : FibTCB} (hes : ∀ e ∈ es, e.timing = false) :
    Keeps s (s.grant w x es) :=
  fun _ h => ⟨h.grant hl hes, rfl, rfl, .rfl⟩

theorem keeps_ret {r : Ret} : Keeps s (s.ret t c r) :=
  keeps_of_log [.ret t c r] ⟨rfl, rfl, .rfl⟩ rfl rfl rfl (by simp [Ev.timing])

/-- The move is a call, or an exit, or a part of the loop in which no time passes. -/
def untimed : Move → Bool
  | .elapse _ => false
  | .schedulerStart => false
  | .schedulerPass => false
  | _ => true

/-- A transition keeps the timers on time, if a timer that it arms counts from now. -/
theorem Inv.timely_tr (h : Inv b s) (htr : Tr m s s') (hm : untimed m = true)
    (hc : ∀ c, m = .call c → c.timed = true →
      0 ≤ c.timeout ∧ (s.loop = .startup ∨ s.utime = s.prevStmp))
    (ht : Timely s base) : (∃ base', Timely s' base') ∧ SameTime s s' := by
  have keeps {s' : Sched} (hk : Keeps s s') : (∃ base', Timely s' base') ∧ SameTime s s' :=
    ⟨⟨base, (hk base ht).1⟩, (hk base ht).2⟩
  cases htr with
  | quiet _ hq =>
    have hpass : m ≠ .schedulerPass := by rintro rfl; cases hm
    have hstart : m ≠ .schedulerStart := by rintro rfl; cases hm
    have helapse (us : Nat) : m ≠ .elapse us := by rintro rfl; cases hm
    have hq' : SameTime s s' := ⟨hq.clock helapse, hq.prevStmp hstart hpass, hq.startup hstart⟩
    exact keeps (keeps_of_log [] hq' (hq.delta hpass) hq.wadoglist hq.log nofun)
  | localdata w => exact keeps (keeps_of_log [] ⟨rfl, rfl, .rfl⟩ rfl rfl rfl nofun)
  | scrap w => exact keeps (keeps_of_log [] ⟨rfl, rfl, .rfl⟩ rfl rfl rfl nofun)
  | spawn _ w stack =>
    exact keeps (keeps_of_log [.created w] ⟨rfl, rfl, .rfl⟩ rfl rfl rfl (by simp [Ev.timing]))
  | exit =>
    have hb : Timely ({ s.bury with currentTask := s.theMaintask } : Sched) base :=
      ht.of_log [.exited s.currentTask] ⟨rfl, rfl, .rfl⟩ rfl rfl rfl (by simp [Ev.timing])
    have hs : SameTime s ({ s.bury with currentTask := s.theMaintask } : Sched) := ⟨rfl, rfl, .rfl⟩
    exact ⟨⟨base, hb.arrive⟩, hs.trans sameTime_arrive⟩
  | ret c r => exact keeps keeps_ret
  | semInit i v =>
    exact keeps (keeps_of_log [.ret s.currentTask (.semInit i v) (.word 0)] ⟨rfl, rfl, .rfl⟩ rfl rfl rfl (by simp [Ev.timing]))
  | take i c =>
    exact keeps (keeps_of_log [.ret s.currentTask c (.bool true)] ⟨rfl, rfl, .rfl⟩ rfl rfl rfl (by simp [Ev.timing]))
  | unit i =>
    exact keeps (keeps_of_log [.unit s.currentTask i] ⟨rfl, rfl, .rfl⟩ rfl rfl rfl
      (by simp [Ev.timing]))
  | unitGrant i w rest c =>
    have hunit : Keeps s (s.postUnit i) :=
      keeps_of_log [.unit s.currentTask i] ⟨rfl, rfl, .rfl⟩ rfl rfl rfl
        (by simp [Ev.timing])
    exact keeps (hunit.trans (keeps_grant [.grant w c (.bool true)] (h.postUnit i).dogs
      (by simp [Ev.timing])))
  | grant w c y r => exact keeps (keeps_grant _ h.dogs (by simp [Ev.timing]))
  | expire hp => subst hp; cases hm
  | took events options timeout seized =>
    exact keeps (keeps_of_log [.ret s.currentTask (.eventWait events options timeout) (.word seized),
        .seize s.currentTask seized] ⟨rfl, rfl, .rfl⟩ rfl rfl rfl (by simp [Ev.timing]))
  | posted w events =>
    exact keeps (keeps_of_log [.posted w events] ⟨rfl, rfl, .rfl⟩ rfl rfl rfl
      (by simp [Ev.timing]))
  | eventGrant => exact keeps (keeps_grant _ h.dogs (by simp [Ev.timing]))
  | park c x _ hmc hne hb hk hd _ hs =>
    obtain ⟨⟨base', hsus⟩, htime⟩ := ht.suspend (x := x) h.dogs h.idle (hc c hmc)
    obtain ⟨hsch, htime'⟩ := hsus.schedule (h.suspend hne hb
      (hk.scheduler.trans h.idle.scheduler) hd hk.pendingEvents) hs
    exact ⟨⟨base', hsch⟩, htime.trans htime'⟩
  | schedYield _ _ hs =>
    have hy : Keeps s s.yielded := keeps_of_log [] ⟨rfl, rfl, .rfl⟩ rfl rfl rfl nofun
    obtain ⟨hy, htime⟩ := hy base ht
    obtain ⟨hsch, htime'⟩ := hy.schedule h.yielded hs
    exact ⟨⟨base, hsch⟩, htime.trans htime'⟩

theorem Inv.timely_trs (h : Inv b s) (htr : Trs m s s') (hm : untimed m = true)
    (hc : ∀ c, m = .call c → c.timed = true →
      0 ≤ c.timeout ∧ (s.loop = .startup ∨ s.utime = s.prevStmp))
    (ht : ∃ base, Timely s base) : (∃ base, Timely s' base) ∧ SameTime s s' := by
  induction htr with
  | refl => exact ⟨ht, .refl s⟩
  | tail htr hlast ih =>
    obtain ⟨⟨base, hb⟩, htime⟩ := ih
    obtain ⟨hb', htime'⟩ := (h.trs htr).timely_tr hlast hm (fun c e hct => by
      obtain ⟨hpos, hnow⟩ := hc c e hct
      refine ⟨hpos, hnow.imp htime.startup.2 fun hu => ?_⟩
      rw [htime.prevStmp, ← hu, utime, utime, htime.clock]) hb
    exact ⟨hb', htime.trans htime'⟩

/-! ## Ticks -/

/-- The wait of a task on the watchdog list has lasted as long as its call asked for. -/
def Due (s : Sched) (t : TaskId) : Prop :=
  ∃ c start, lastPark (evs t s.log) = some (c, start) ∧ (start : Int) + c.timeout.toInt ≤ s.clock

/-- The loop of the tick takes off the entries at the front that are not above the gap, and takes the
gap off the first one that stays. -/
theorem tickleLoop_timers (gap : Int32) : ∀ {l : List TaskId} {s : Sched}, Inv b s → l.Nodup →
    s.wadoglist = l → NoEarlyWake s.log → (∀ t ∈ l.takeWhile fun t => s.delta t ≤ gap, Due s t) →
    (tickleLoop gap l s).wadoglist = l.dropWhile (fun t => s.delta t ≤ gap) ∧
      (tickleLoop gap l s).delta = (match l.dropWhile (fun t => s.delta t ≤ gap) with
        | [] => s.delta
        | w :: _ => Function.update s.delta w (s.delta w - gap)) ∧
      (∀ t ∈ l.dropWhile (fun t => s.delta t ≤ gap),
        evs t (tickleLoop gap l s).log = evs t s.log) ∧
      NoEarlyWake (tickleLoop gap l s).log ∧ (tickleLoop gap l s).clock = s.clock
  | [], _, _, _, hw, hk, _ => ⟨hw, rfl, nofun, hk, rfl⟩
  | w :: l, s, h, hl, hw, hk, hdue => by
    rw [tickleLoop]
    by_cases hgap : s.delta w ≤ gap
    · obtain ⟨hwl, hl⟩ := List.nodup_cons.1 hl
      rw [List.takeWhile_cons_of_pos (by simpa using hgap)] at hdue
      obtain ⟨c, hwt, htm, hd, hph, hlive⟩ := (h.stand w).waits_of_dog (hw ▸ List.mem_cons_self)
      have hstep : Tr .schedulerPass s (s.wake w (s.tcb w) [.expire w c s.clock]) :=
        .expire rfl w c hwt hlive htm hd hph
      have hne (u : TaskId) (hu : u ∈ l) : u ≠ w := fun e => hwl (e ▸ hu)
      have hevs (u : TaskId) (hu : u ∈ l) :
          evs u (s.wake w (s.tcb w) [.expire w c s.clock]).log = evs u s.log :=
        evs_cons_of_ne (hne u hu).symm
      have hwado : (s.wake w (s.tcb w) [.expire w c s.clock]).wadoglist = l := by
        show s.wadoglist.erase w = l
        rw [hw, List.erase_cons_head]
      obtain ⟨start, hp⟩ := lastPark_of_parked hph
      have hkept : NoEarlyWake (s.wake w (s.tcb w) [.expire w c s.clock]).log := by
        apply hk.cons
        intro t c' now he
        cases he
        obtain ⟨c', start', hp', hdue⟩ := hdue w List.mem_cons_self
        rw [hp] at hp'
        cases hp'
        exact ⟨start, hp, hdue⟩
      have hrest := tickleLoop_timers gap (h.tr hstep) hl hwado hkept fun t ht => by
        obtain ⟨c', start', hp', hdue⟩ := hdue t (List.mem_cons_of_mem _ ht)
        exact ⟨c', start', by rw [hevs t (List.takeWhile_subset _ ht), hp'], hdue⟩
      obtain ⟨h1, h2, h3, h4, h5⟩ := hrest
      rw [if_pos hgap, List.dropWhile_cons_of_pos (by simpa using hgap), tickleExpired_eq hwt htm]
      refine ⟨h1, h2, fun t ht => ?_, h4, h5⟩
      rw [h3 t ht, hevs t (List.dropWhile_subset _ ht)]
    · rw [if_neg hgap, List.dropWhile_cons_of_neg (by simpa using hgap)]
      exact ⟨hw, rfl, fun _ _ => rfl, hk, rfl⟩

/-- The gap that the tick is given is not more than the time that has passed. -/
theorem currGapp_le (hb : base ≤ s.clock) (hs : UInt64.ofNat base = s.prevStmp) :
    (base : Int) + s.currGapp.toInt ≤ s.clock := by
  have hgap : s.utime - s.prevStmp = UInt64.ofNat (s.clock - base) := by
    rw [UInt64.ofNat_sub hb, hs]
    rfl
  have hle (n : Nat) : (Int.bmod (n : Int) Int32.size) ≤ n := by
    simp only [Int.bmod_def, Int32.size]
    split <;> omega
  rw [currGapp, toInt, Int32.toInt_ofInt, hgap]
  have := hle (UInt64.ofNat (s.clock - base)).toNat
  have hmod : (UInt64.ofNat (s.clock - base)).toNat ≤ s.clock - base := by
    rw [UInt64.toNat_ofNat']
    exact Nat.mod_le _ _
  omega

/-- A pass consumes the gap as a delta list asks for: what it expires is due at once, or it expires
the whole list and the gap covers the sum of the intervals. -/
def GapConsumed (s : Sched) : Prop :=
  (∀ t ∈ s.expiring, s.delta t = 0) ∨
    (s.expiring = s.wadoglist ∧ (s.wadoglist.map s.interval).sum ≤ s.currGapp.toInt)

/-- The call puts its task on the watchdog list. -/
def arms (s : Sched) (c : Call) : Bool :=
  c.timed && match c with
    | .eventWait events options _ =>
      !eventsSatisfy ((s.tcb s.currentTask).pendingEvents &&& events) events options
    | .semTimedwait i _ => (s.sem i).count ≤ 0
    | _ => true

/-- A move that keeps timers on time. A timer is armed, for a timeout that is not negative, when the
clock still reads what the last pass has read (or the loop has not started); a pass that finds timers
consumes the gap, which fits into an `int`. -/
def Punctual (s : Sched) : Move → Prop
  | .call c => s.arms c = true → 0 ≤ c.timeout ∧ (s.loop = .startup ∨ s.utime = s.prevStmp)
  | .schedulerPass => s.wadoglist ≠ [] → 0 ≤ s.currGapp ∧ GapConsumed s
  | _ => True

instance (s : Sched) (m : Move) : Decidable (Punctual s m) := by
  unfold Punctual GapConsumed
  cases m <;> infer_instance

/-- What a tick that consumes the gap leaves on the list. -/
theorem Timely.after_tick (h : Timely s base) (hl : s.wadoglist.Nodup) {p : TaskId → Bool}
    (hp : p = fun t => decide (s.delta t ≤ s.currGapp))
    (hsplit : s.expiring ++ s.wadoglist.dropWhile p = s.wadoglist)
    (hok : Punctual s .schedulerPass) (hw : s'.wadoglist = s.wadoglist.dropWhile p)
    (hd : s'.delta = (match s.wadoglist.dropWhile p with
      | [] => s.delta
      | w :: _ => Function.update s.delta w (s.delta w - s.currGapp)))
    (hlog : ∀ t ∈ s.wadoglist.dropWhile p, evs t s'.log = evs t s.log)
    (hclock : (base : Int) + s.currGapp.toInt ≤ s'.clock) :
    ∀ t ∈ s'.wadoglist, 0 ≤ s'.interval t ∧ s'.left t < 2 ^ 31 ∧
      ∃ c start, lastPark (evs t s'.log) = some (c, start) ∧
        (start : Int) + c.timeout.toInt ≤ s'.clock + s'.left t := by
  intro t ht
  cases hrest : s.wadoglist.dropWhile p with
  | nil =>
    rw [hw, hrest] at ht
    exact absurd ht List.not_mem_nil
  | cons w rest =>
    have hmem (u : TaskId) (hu : u ∈ w :: rest) : u ∈ s.wadoglist :=
      List.dropWhile_subset p (hrest ▸ hu)
    rw [hrest] at hsplit hw hd hlog
    rw [hw] at ht
    obtain ⟨hpos, hgap⟩ := hok (List.ne_nil_of_mem (hmem t ht))
    have hnd : (s.expiring ++ w :: rest).Nodup := hsplit ▸ hl
    have hnd' := (List.nodup_append.1 hnd).2.1
    have hzero : ∀ u ∈ s.expiring, s.delta u = 0 := by
      rcases hgap with hzero | ⟨hall, -⟩
      · exact hzero
      · rw [hall] at hsplit
        simp at hsplit
    have hhead : ¬s.delta w ≤ s.currGapp := by
      have := List.head?_dropWhile_not p s.wadoglist
      rw [hrest, hp] at this
      simpa using this
    have hsub : (s.delta w - s.currGapp).toInt = s.interval w - s.currGapp.toInt :=
      Int32.toInt_sub_of_le _ _ hpos (Int32.le_of_lt (Int32.not_le.1 hhead))
    have hi : s'.interval = Function.update s.interval w (s.interval w - s.currGapp.toInt) := by
      unfold interval
      rw [hd]
      dsimp only
      rw [toInt_update, hsub]
      rfl
    have hout : t ∉ s.expiring := fun hm => (List.nodup_append.1 hnd).2.2 t hm t ht rfl
    have hleft : s'.left t = s.left t - s.currGapp.toInt := by
      have hfront : s.left t = DeltaList.remaining s.interval (w :: rest) t := by
        rw [left, ← hsplit]
        exact DeltaList.remaining_append_of_zero (fun u hu => by rw [interval, hzero u hu]; rfl) hout
      rw [left, hi, hw, DeltaList.remaining_shorten hnd', hfront]
    have hpos' : 0 ≤ s.currGapp.toInt := Int32.le_iff_toInt_le.1 hpos
    refine ⟨?_, ?_, ?_⟩
    · rw [hi]
      by_cases htw : t = w
      · subst htw
        rw [Function.update_self]
        have := Int32.lt_iff_toInt_lt.1 (Int32.not_le.1 hhead)
        unfold interval
        omega
      · rw [Function.update_of_ne htw]
        exact h.nonneg t (hmem t ht)
    · have := h.small t (hmem t ht)
      omega
    · obtain ⟨c, start, hpk, hdue⟩ := h.due t (hmem t ht)
      refine ⟨c, start, by rw [hlog t ht, hpk], ?_⟩
      omega

theorem Inv.timely_schedulerPass (h : Inv b s) (hl : s.loop = .top) (ht : Timely s base)
    (hok : Punctual s .schedulerPass) : ∃ base', Timely s.schedulerPass base' := by
  have hstamp : UInt64.ofNat base = s.prevStmp := ht.stamp (by rw [hl]; nofun)
  unfold schedulerPass
  dsimp only
  by_cases hz : s.utime - s.prevStmp = 0
  · rw [if_neg (not_not.2 hz)]
    exact ⟨base, ht.past, fun _ => hstamp, ht.nonneg, ht.small, ht.due, ht.kept⟩
  · rw [if_pos hz]
    have hgapp : toInt (s.utime - s.prevStmp) = s.currGapp := rfl
    have hexp : s.expiring = s.wadoglist.takeWhile fun t => s.delta t ≤ s.currGapp := if_neg hz
    have hle := currGapp_le ht.past hstamp
    have hsplit : s.expiring ++ s.wadoglist.dropWhile (fun t => s.delta t ≤ s.currGapp) =
        s.wadoglist := by
      rw [hexp]
      exact List.takeWhile_append_dropWhile
    have hdue (t : TaskId) (hm : t ∈ s.expiring) : Due s t := by
      have hmem : t ∈ s.wadoglist := hsplit ▸ List.mem_append_left _ hm
      obtain ⟨hpos, hgap⟩ := hok (List.ne_nil_of_mem hmem)
      obtain ⟨c, start, hp, hdue⟩ := ht.due t hmem
      refine ⟨c, start, hp, ?_⟩
      have hleft : s.left t ≤ s.currGapp.toInt := by
        rcases hgap with hzero | ⟨-, hsum⟩
        · have hz : s.left t = 0 := by
            rw [left, ← hsplit]
            exact DeltaList.remaining_of_zero (fun u hu => by rw [interval, hzero u hu]; rfl) hm
          rw [hz]
          exact Int32.le_iff_toInt_le.1 hpos
        · exact (DeltaList.remaining_le_sum ht.nonneg).trans hsum
      omega
    obtain ⟨h1, h2, h3, h4, h5⟩ := tickleLoop_timers s.currGapp h h.dogs rfl ht.kept
      (by rw [← hexp]; exact hdue)
    generalize hs' : tickleLoop s.currGapp s.wadoglist s = s' at h1 h2 h3 h4 h5
    have htick : s.fiberWatchdogTickle (toInt (s.utime - s.prevStmp)) = s' := hs'
    rw [htick]
    -- from now on `s'` is the state after the tick, and the clock reads the new time stamp
    have hafter := ht.after_tick h.dogs rfl hsplit hok h1 h2 h3 (hle.trans (by rw [h5]))
    exact ⟨s'.clock, le_rfl, fun _ => by rw [h5]; rfl, fun t hm => (hafter t hm).1,
      fun t hm => (hafter t hm).2.1, fun t hm => (hafter t hm).2.2, h4⟩

/-- A timed call that arms no timer. -/
theorem Inv.trs_of_not_arms (h : Inv b s) (ha : ¬s.arms c = true) (hct : c.timed = true)
    (hs : s.call c = some s') : Trs m s s' := by
  cases c with
  | eventWait events options timeout =>
    have hsat : eventsSatisfy ((s.tcb s.currentTask).pendingEvents &&& events) events options := by
      rw [arms, hct] at ha
      simpa using ha
    have hs : s.fiberEventWait events options timeout = some s' := hs
    rw [fiberEventWait_eq h.idle, if_pos hsat] at hs
    obtain rfl := Option.some.inj hs
    have ht := Tr.one (Tr.took (m := m) events options timeout _ rfl hsat)
    simpa [Sched.note, modTcb, emit, Sched.ret] using ht
  | semTimedwait i timeout =>
    have hcount : 0 < (s.sem i).count := by
      rw [arms, hct] at ha
      simpa using ha
    have hs : s.fiberSemTimedwait i timeout = some s' := hs
    rw [fiberSemTimedwait_eq h.idle, if_pos hcount] at hs
    obtain rfl := Option.some.inj hs
    exact Tr.one (.take i _ rfl hcount)
  | usleep => exact absurd rfl ha
  | condTimedwait => exact absurd ((Bool.and_true _).trans hct) ha
  | _ => cases hct

/-- **Every move that is punctual keeps the timers on time.** -/
theorem Inv.timely_step (h : Inv b s) (hs : s.step m = some s') (hok : Punctual s m)
    (ht : ∃ base, Timely s base) : ∃ base, Timely s' base := by
  have htrs := h.trs_step hs
  have hexec : s.permitted m = true ∧ s.exec m = some s' := by
    unfold Sched.step at hs
    split at hs
    · next hp => exact ⟨hp, hs⟩
    · cases hs
  obtain ⟨hp, he⟩ := hexec
  obtain ⟨base, hb⟩ := ht
  cases m with
  | call c =>
    by_cases ha : s.arms c = true
    · refine (h.timely_trs htrs rfl (fun c' e hct => ?_) ⟨base, hb⟩).1
      obtain rfl := Move.call.inj e
      exact hok ha
    · by_cases hct : c.timed = true
      · exact (h.timely_trs (m := .exit) (h.trs_of_not_arms ha hct he) rfl nofun ⟨base, hb⟩).1
      · refine (h.timely_trs htrs rfl (fun c' e hct' => ?_) ⟨base, hb⟩).1
        obtain rfl := Move.call.inj e
        exact absurd hct' hct
  | exit => exact (h.timely_trs htrs rfl nofun ⟨base, hb⟩).1
  | schedulerExhaust => exact (h.timely_trs htrs rfl nofun ⟨base, hb⟩).1
  | schedulerLoopEnd => exact (h.timely_trs htrs rfl nofun ⟨base, hb⟩).1
  | elapse us =>
    obtain rfl := Option.some.inj he
    exact ⟨base, hb.past.trans (Nat.le_add_right _ _), hb.stamp, hb.nonneg, hb.small, hb.due, hb.kept⟩
  | schedulerStart =>
    obtain rfl := Option.some.inj he
    refine ⟨s.clock, le_rfl, fun _ => rfl, hb.nonneg, hb.small, fun t hm => ?_, hb.kept⟩
    obtain ⟨c, start, hpk, hdue⟩ := hb.due t hm
    have hpast : (base : Int) ≤ s.clock := by exact_mod_cast hb.past
    have hleft : s.schedulerStart.left t = s.left t := rfl
    exact ⟨c, start, hpk, by rw [hleft]; omega⟩
  | schedulerPass =>
    obtain rfl := Option.some.inj he
    exact h.timely_schedulerPass (by simpa using (Bool.and_eq_true_iff.1 hp).2) hb hok

theorem timely_boot (b : Boot) : Timely (boot b) b.clock :=
  ⟨le_rfl, fun h => absurd rfl h, nofun, nofun, nofun, fun l₁ _ _ _ _ h => by
    cases l₁ <;> cases h⟩

end Sched

open Sched

/-! ## Runs -/

/-- **No early wake-up**, in every run all of whose moves are punctual. -/
theorem reach_noEarlyWake {b : Boot} {s : Sched} (h : Reach Sched.step Punctual (boot b) s) :
    NoEarlyWake s.log := by
  have hrun : Inv b s ∧ ∃ base, Timely s base := by
    refine h.invariant (P := fun s => Inv b s ∧ ∃ base, Timely s base)
      ⟨inv_boot b, b.clock, timely_boot b⟩ ?_
    intro s m s' ⟨hi, ht⟩ hok hs
    exact ⟨hi.step hs, hi.timely_step hs hok ht⟩
  obtain ⟨-, base, ht⟩ := hrun
  exact ht.kept

/-- Two tasks sleep for the same time. -/
def sleepRun : List Move :=
  newTasks 2 ++ [.schedulerStart, .schedulerPass, .schedulerExhaust, .call (.usleep 10),
    .call (.usleep 10), .schedulerExhaust, .schedulerLoopEnd,
    .elapse 4, .schedulerPass, .schedulerExhaust, .schedulerLoopEnd, .elapse 6, .schedulerPass]

set_option maxRecDepth 4000 in
theorem sleepRun_noEarlyWake :
    ∃ s, sleepRun.foldlM (Reach.guarded Sched.step Punctual) (boot {}) = some s ∧
      .expire 100 (.usleep 10) 10 ∈ s.log ∧ .expire 163 (.usleep 10) 10 ∈ s.log ∧
      NoEarlyWake s.log := by
  have hrun : ((sleepRun.foldlM (Reach.guarded Sched.step Punctual) (boot {})).map fun s =>
      (decide (.expire 100 (.usleep 10) 10 ∈ s.log), decide (.expire 163 (.usleep 10) 10 ∈ s.log))) =
        some (true, true) := by
    decide +kernel
  obtain ⟨s, hs, he⟩ := Option.map_eq_some_iff.1 hrun
  obtain ⟨h1, h2⟩ := Prod.ext_iff.1 he
  exact ⟨s, hs, of_decide_eq_true h1, of_decide_eq_true h2, reach_noEarlyWake (Reach.of_guarded hs)⟩

/-- The last event is the expiry of a wait that had still time left. -/
def lastEarly (log : List Ev) : Bool :=
  match log with
  | .expire t c now :: l => (lastPark (evs t l)).any fun (c', start) =>
      c' = c && decide ((now : Int) < start + c.timeout.toInt)
  | _ => false

theorem not_noEarlyWake {log : List Ev} (h : lastEarly log = true) : ¬NoEarlyWake log := by
  intro hk
  unfold lastEarly at h
  split at h
  · next t c now l =>
    obtain ⟨start, hp, hle⟩ := hk [] t c now l rfl
    rw [hp] at h
    have hlt : (now : Int) < start + c.timeout.toInt := by simpa using h
    omega
  · cases h

/-- A task sleeps for ten microseconds and another one for five, both from the time of the last pass
on; after five microseconds there is a pass. -/
def gapRun : List Move :=
  newTasks 2 ++ [.schedulerStart, .schedulerPass, .schedulerExhaust, .call (.usleep 10),
    .call (.usleep 5), .schedulerExhaust, .schedulerLoopEnd,
    .elapse 5, .schedulerPass]

/-- A task runs for five microseconds and then sleeps for ten; after another five there is a pass. -/
def lateRun : List Move :=
  newTasks 1 ++ [.schedulerStart, .schedulerPass, .schedulerExhaust, .elapse 5,
    .call (.usleep 10), .schedulerExhaust, .schedulerLoopEnd, .elapse 5, .schedulerPass]

set_option maxRecDepth 4000 in
/-- A tick ends a sleep of ten microseconds after five, in two ways: it does not take the interval of
the entry in front off the gap, and it counts from the pass before the call. -/
theorem early_wake :
    (∃ s, gapRun.foldlM Sched.step (boot {}) = some s ∧ Reachable {} s ∧ ¬NoEarlyWake s.log) ∧
      ∃ s, lateRun.foldlM Sched.step (boot {}) = some s ∧ Reachable {} s ∧ ¬NoEarlyWake s.log := by
  have hgap : ((gapRun.foldlM Sched.step (boot {})).map fun s => lastEarly s.log) = some true := by
    decide +kernel
  have hlate : ((lateRun.foldlM Sched.step (boot {})).map fun s => lastEarly s.log) = some true := by
    decide +kernel
  obtain ⟨s, hs, he⟩ := Option.map_eq_some_iff.1 hgap
  obtain ⟨s', hs', he'⟩ := Option.map_eq_some_iff.1 hlate
  exact ⟨⟨s, hs, Reach.of_foldlM hs, not_noEarlyWake he⟩,
    ⟨s', hs', Reach.of_foldlM hs', not_noEarlyWake he'⟩⟩

end Ptask.OneN
