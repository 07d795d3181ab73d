import Ptask.OneN.Intervals

/-!
# That timers run out in time

`NotLate` is the other half of the contract of a timer: what is left for a task, counted from the last
pass, is at most what its call asked for. Unlike the half that says that no timer is early, it does
not depend on how a tick spends the gap: a tick takes at least the gap off what is left for everybody
who stays. It depends on the clock: the passes must come within `2 ^ 31` microseconds.
-/

namespace Ptask.OneN

open Ptask.Lib

namespace Sched

variable {b : Boot} {m : Move} {s s' : Sched} {w t : TaskId} {c : Call} {base : Nat} {es : List Ev}

/-! ## Waits that go on -/

/-- Whoever is on the watchdog list was on it before, in the same wait. No time passes in a move of
the current task. -/
structure SameWaits (m : Move) (s s' : Sched) : Prop where
  clock : (∀ us, m ≠ .elapse us) → s'.clock = s.clock
  time : untimed m = true → SameTime s s'
  kept : ∀ t ∈ s'.wadoglist,
    t ∈ s.wadoglist ∧ lastPark (evs t s'.log) = lastPark (evs t s.log)

theorem SameWaits.refl (s : Sched) : SameWaits m s s :=
  ⟨fun _ => rfl, fun _ => .refl s, fun _ ht => ⟨ht, rfl⟩⟩

theorem SameWaits.trans {s'' : Sched} (h : SameWaits m s s') (h' : SameWaits m s' s'') :
    SameWaits m s s'' := by
  refine ⟨fun hm => (h'.clock hm).trans (h.clock hm), fun hm => (h.time hm).trans (h'.time hm), ?_⟩
  intro t ht
  obtain ⟨hmem', hpark'⟩ := h'.kept t ht
  obtain ⟨hmem, hpark⟩ := h.kept t hmem'
  exact ⟨hmem, hpark'.trans hpark⟩

theorem sameWaits_of_log (es : List Ev) (ht : SameTime s s') (hw : s'.wadoglist = s.wadoglist)
    (hlog : s'.log = es ++ s.log) (hes : ∀ e ∈ es, e.timing = false) : SameWaits m s s' := by
  refine ⟨fun _ => ht.clock, fun _ => ht, ?_⟩
  intro t hmem
  rw [hlog, lastPark_append hes]
  exact ⟨hw ▸ hmem, rfl⟩

theorem sameWaits_arrive : SameWaits m s s.arrive := by
  rcases arrive_eq (s := s) with ha | ⟨c, -, ha⟩
  · rw [ha]
    exact .refl s
  · exact sameWaits_of_log [.ret s.currentTask c (result s.currentTask (s.tcb s.currentTask) c)]
      sameTime_arrive (by rw [ha]; rfl) (by rw [ha]; rfl) (by simp [Ev.timing])

theorem sameWaits_schedule (hs : s.schedule = some s') : SameWaits m s s' := by
  unfold schedule fiberSched at hs
  obtain ⟨u, hu, rfl⟩ := Option.map_eq_some_iff.1 hs
  have hsame : SameWaits m s u := by
    split at hu
    · cases hu
    · split at hu
      · obtain rfl := Option.some.inj hu
        exact .refl s
      · obtain rfl := Option.some.inj hu
        dsimp only
        split
        · exact sameWaits_of_log [] ⟨rfl, rfl, .rfl⟩ rfl rfl (by simp)
        · exact sameWaits_of_log [] ⟨rfl, rfl, .rfl⟩ rfl rfl (by simp)
  exact hsame.trans sameWaits_arrive

/-- The wait of `w` ends. -/
theorem sameWaits_wake (es : List Ev) (hl : s.wadoglist.Nodup) (hes : ∀ e ∈ es, e.task = w)
    (ht : SameTime s s') (hw : s'.wadoglist = s.wadoglist.erase w) (hlog : s'.log = es ++ s.log) :
    SameWaits m s s' := by
  refine ⟨fun _ => ht.clock, fun _ => ht, ?_⟩
  intro t hmem
  rw [hw] at hmem
  obtain ⟨hne, hmem⟩ := hl.mem_erase_iff.1 hmem
  refine ⟨hmem, ?_⟩
  rw [hlog, evs, List.filter_append, List.filter_eq_nil_iff.2, List.nil_append]
  · rfl
  · intro e he
    rw [hes e he]
    simpa using hne.symm

/-- The current task starts a wait. -/
theorem Idle.lastPark_suspend (h : s.Idle) {x : FibTCB} (ht : t ∈ s.wadoglist) :
    lastPark (evs t (s.suspend c x).log) = lastPark (evs t s.log) := by
  have hne : s.currentTask ≠ t := by
    rintro rfl
    exact h.dog ht
  exact congrArg lastPark (evs_cons_of_ne hne)

theorem sameTime_suspend {x : FibTCB} : SameTime s (s.suspend c x) := by
  unfold Sched.suspend joinQueue
  split <;> exact ⟨rfl, rfl, .rfl⟩

/-- A transition that arms no timer. -/
theorem Inv.sameWaits_tr (h : Inv b s) (htr : Tr m s s') (hc : ∀ c, m = .call c → c.timed = false) :
    SameWaits m s s' := by
  cases htr with
  | quiet _ hq =>
    refine ⟨hq.clock, ?_, ?_⟩
    · intro hm
      have hpass : m ≠ .schedulerPass := by rintro rfl; cases hm
      have hstart : m ≠ .schedulerStart := by rintro rfl; cases hm
      have helapse (us : Nat) : m ≠ .elapse us := by rintro rfl; cases hm
      exact ⟨hq.clock helapse, hq.prevStmp hstart hpass, hq.startup hstart⟩
    · intro t ht
      rw [hq.log]
      exact ⟨hq.wadoglist ▸ ht, rfl⟩
  | localdata w => exact sameWaits_of_log [] ⟨rfl, rfl, .rfl⟩ rfl rfl (by simp)
  | scrap w => exact sameWaits_of_log [] ⟨rfl, rfl, .rfl⟩ rfl rfl (by simp)
  | spawn _ w => exact sameWaits_of_log [.created w] ⟨rfl, rfl, .rfl⟩ rfl rfl (by simp [Ev.timing])
  | exit =>
    have hb : SameWaits m s { s.bury with currentTask := s.theMaintask } :=
      sameWaits_of_log [.exited s.currentTask] ⟨rfl, rfl, .rfl⟩ rfl rfl (by simp [Ev.timing])
    exact hb.trans sameWaits_arrive
  | ret c r =>
    exact sameWaits_of_log [.ret s.currentTask c r] ⟨rfl, rfl, .rfl⟩ rfl rfl (by simp [Ev.timing])
  | semInit i v =>
    exact sameWaits_of_log [.ret s.currentTask (.semInit i v) (.word 0)] ⟨rfl, rfl, .rfl⟩ rfl rfl
      (by simp [Ev.timing])
  | take i c =>
    exact sameWaits_of_log [.ret s.currentTask c (.bool true)] ⟨rfl, rfl, .rfl⟩ rfl rfl
      (by simp [Ev.timing])
  | unit i =>
    exact sameWaits_of_log [.unit s.currentTask i] ⟨rfl, rfl, .rfl⟩ rfl rfl (by simp [Ev.timing])
  | unitGrant i w _ c =>
    have hunit : SameWaits m s (s.postUnit i) :=
      sameWaits_of_log [.unit s.currentTask i] ⟨rfl, rfl, .rfl⟩ rfl rfl (by simp [Ev.timing])
    exact hunit.trans (sameWaits_wake [.grant w c (.bool true)] (h.postUnit i).dogs
      (by simp [Ev.task]) ⟨rfl, rfl, .rfl⟩ rfl rfl)
  | grant w c y r =>
    exact sameWaits_wake [.grant w c r] h.dogs (by simp [Ev.task]) ⟨rfl, rfl, .rfl⟩ rfl rfl
  | expire _ w c =>
    exact sameWaits_wake [.expire w c s.clock] h.dogs (by simp [Ev.task]) ⟨rfl, rfl, .rfl⟩ rfl rfl
  | took events options timeout seized =>
    exact sameWaits_of_log [.ret s.currentTask (.eventWait events options timeout) (.word seized),
      .seize s.currentTask seized] ⟨rfl, rfl, .rfl⟩ rfl rfl (by simp [Ev.timing])
  | posted w events =>
    exact sameWaits_of_log [.posted w events] ⟨rfl, rfl, .rfl⟩ rfl rfl (by simp [Ev.timing])
  | eventGrant w events options timeout eventsIn pending seized =>
    exact sameWaits_wake [.grant w (.eventWait events options timeout) (.word seized),
      .seize w seized, .posted w eventsIn] h.dogs (by simp [Ev.task]) ⟨rfl, rfl, .rfl⟩ rfl rfl
  | park c x _ hmc _ _ _ _ _ hs =>
    have hsus : SameWaits m s (s.suspend c x) := by
      refine ⟨fun _ => sameTime_suspend.clock, fun _ => sameTime_suspend, ?_⟩
      intro t ht
      rw [(delta_suspend (hc c hmc) x).2] at ht
      exact ⟨ht, h.idle.lastPark_suspend ht⟩
    exact hsus.trans (sameWaits_schedule hs)
  | schedYield _ _ hs =>
    have hy : SameWaits m s s.yielded := sameWaits_of_log [] ⟨rfl, rfl, .rfl⟩ rfl rfl (by simp)
    exact hy.trans (sameWaits_schedule hs)

theorem Inv.sameWaits_trs (h : Inv b s) (htr : Trs m s s') (hc : ∀ c, m = .call c → c.timed = false) :
    SameWaits m s s' := by
  induction htr with
  | refl => exact .refl s
  | tail htr hlast ih => exact ih.trans ((h.trs htr).sameWaits_tr hlast hc)

/-! ## Timers that are not late -/

/-- Every task on the watchdog list has no more time left, counted from `base`, than its call asked
for; `base` is a reading of the clock, that of the last pass. -/
structure NotLate (s : Sched) (base : Nat) : Prop where
  past : base ≤ s.clock
  stamp : s.loop ≠ .startup → UInt64.ofNat base = s.prevStmp
  startup : s.loop = .startup → s.wadoglist = []
  timers : Timers s
  due : ∀ t ∈ s.wadoglist, ∃ c start, lastPark (evs t s.log) = some (c, start) ∧
    base + s.left t ≤ start + c.timeout.toInt

/-- **Nobody is overdue**: whoever waits with a timeout has a deadline that the clock has not passed. -/
def NobodyOverdue (s : Sched) : Prop :=
  ∀ t c, phase t s.log = some (.parked c) → c.timed = true →
    ∃ start, lastPark (evs t s.log) = some (c, start) ∧ s.clock ≤ start + c.timeout.toInt

/-- A move that does not delay timers. A timer is armed after the loop has started, for a timeout that
is not negative; a pass that finds timers comes within `2 ^ 31` microseconds, and the clock has not
wrapped around. -/
def Prompt (s : Sched) : Move → Prop
  | .call c => s.arms c = true → 0 ≤ c.timeout ∧ s.loop ≠ .startup
  | .schedulerPass => s.wadoglist ≠ [] → s.clock < 2 ^ 64 ∧ s.elapsed < 2 ^ 31
  | _ => True

instance (s : Sched) : (m : Move) → Decidable (Prompt s m)
  | .call c => inferInstanceAs (Decidable (s.arms c = true → 0 ≤ c.timeout ∧ s.loop ≠ .startup))
  | .schedulerPass =>
    inferInstanceAs (Decidable (s.wadoglist ≠ [] → s.clock < 2 ^ 64 ∧ s.elapsed < 2 ^ 31))
  | .exit => .isTrue trivial
  | .elapse _ => .isTrue trivial
  | .schedulerStart => .isTrue trivial
  | .schedulerExhaust => .isTrue trivial
  | .schedulerLoopEnd => .isTrue trivial

/-- No timer is armed, and what is left stays the same. -/
theorem NotLate.keep (h : NotLate s base) (hw : SameWaits m s s') (ht : SameTime s s')
    (hu : Undisturbed s s') : NotLate s' base := by
  refine ⟨ht.clock ▸ h.past, ?_, ?_, hu.1, ?_⟩
  · intro hl
    rw [ht.prevStmp]
    exact h.stamp (mt ht.startup.2 hl)
  · intro hl
    apply List.eq_nil_iff_forall_not_mem.2
    intro t hmem
    have hnil := h.startup (ht.startup.1 hl)
    have hold := (hu.2 t hmem).1
    rw [hnil] at hold
    cases hold
  · intro t hmem
    obtain ⟨hold, hleft⟩ := hu.2 t hmem
    obtain ⟨c, start, hp, hdue⟩ := h.due t hold
    refine ⟨c, start, (hw.kept t hmem).2.trans hp, ?_⟩
    rw [hleft]
    exact hdue

/-- The current task arms a timer. -/
theorem NotLate.arm (h : NotLate s base) (hi : Inv b s) (ha : s.arms c = true) (hpos : 0 ≤ c.timeout)
    (hl : s.loop ≠ .startup) (hs : s.step (.call c) = some s') : NotLate s' base := by
  obtain ⟨htm, x, hcall⟩ := hi.idle.call_of_arms ha
  have he : s.call c = some s' := by
    unfold Sched.step at hs
    split at hs
    · exact hs
    · cases hs
  rw [he] at hcall
  obtain ⟨hd, hw⟩ := delta_schedule hcall.symm
  obtain ⟨htimers, ⟨-, hself⟩, hmem, hleft⟩ := h.timers.suspend hi.dogs hi.idle.dog htm hpos x
  have hsame : SameWaits (.call c) (s.suspend c x) s' := sameWaits_schedule hcall.symm
  have htime : SameTime s s' := sameTime_suspend.trans (hsame.time rfl)
  refine ⟨htime.clock ▸ h.past, ?_, fun e => absurd (htime.startup.1 e) hl, htimers.congr hd hw, ?_⟩
  · intro hl'
    rw [htime.prevStmp]
    exact h.stamp hl
  · intro t ht
    rw [(hsame.kept t ht).2, left_congr hd hw]
    rw [hw] at ht
    rcases (hmem t).1 ht with rfl | ht
    · refine ⟨c, s.clock, congrArg lastPark (evs_cons_of_eq rfl), ?_⟩
      have hpast := h.past
      rw [hself]
      omega
    · obtain ⟨c', start, hp, hdue⟩ := h.due t ht
      refine ⟨c', start, (hi.idle.lastPark_suspend ht).trans hp, ?_⟩
      rw [hleft t ht]
      exact hdue

/-- What is left after a tick, for those who stay, is less by at least the gap. -/
theorem TimerList.left_tick {gap : Int32} (h : TimerList s) (ht : Timers s) (hg : 0 < gap) :
    Timers (s.fiberWatchdogTickle gap) ∧ ∀ t ∈ (s.fiberWatchdogTickle gap).wadoglist,
      t ∈ s.wadoglist ∧ (s.fiberWatchdogTickle gap).left t + gap.toInt ≤ s.left t := by
  have hpos : 0 < gap.toInt := Int32.lt_iff_toInt_lt.1 hg
  obtain ⟨r, hr, -⟩ := h.ready
  obtain ⟨hw, -, hd⟩ := @tickleLoop_spec gap _ _ _ h rfl hr
  have hw : (s.fiberWatchdogTickle gap).wadoglist = _ := hw
  have hd : (s.fiberWatchdogTickle gap).delta = _ := hd
  have hsplit := List.takeWhile_append_dropWhile (p := fun t => s.delta t ≤ gap) (l := s.wadoglist)
  have hhead := List.head?_dropWhile_not (fun t => decide (s.delta t ≤ gap)) s.wadoglist
  generalize s.wadoglist.takeWhile (fun t => s.delta t ≤ gap) = p at hsplit
  generalize s.wadoglist.dropWhile (fun t => s.delta t ≤ gap) = l at hw hd hsplit hhead
  cases l with
  | nil => exact ⟨⟨by simp [hw], by simp [hw]⟩, by simp [hw]⟩
  | cons w rest =>
    have hlt : gap < s.delta w := by simpa using hhead
    have hnd : (p ++ w :: rest).Nodup := hsplit ▸ h.nodup
    have hmem (t : TaskId) (hm : t ∈ w :: rest) : t ∈ s.wadoglist :=
      hsplit ▸ List.mem_append_right p hm
    have hi : (s.fiberWatchdogTickle gap).interval =
        Function.update s.interval w (s.interval w - gap.toInt) := by
      have hsub : (s.delta w - gap).toInt = s.interval w - gap.toInt :=
        Int32.toInt_sub_of_le _ _ (Int32.le_of_lt hg) (Int32.le_of_lt hlt)
      unfold interval
      rw [hd]
      dsimp only
      rw [toInt_update, hsub]
      rfl
    have hfront : 0 ≤ (p.map s.interval).sum := by
      apply List.sum_nonneg
      intro x hx
      obtain ⟨u, hu, rfl⟩ := List.mem_map.1 hx
      exact ht.nonneg u (hsplit ▸ List.mem_append_left _ hu)
    have hleft (t : TaskId) (hm : t ∈ w :: rest) :
        (s.fiberWatchdogTickle gap).left t + gap.toInt ≤ s.left t := by
      have hout : t ∉ p := fun hp => (List.nodup_append.1 hnd).2.2 t hp t hm rfl
      have hold : s.left t = (p.map s.interval).sum +
          DeltaList.remaining s.interval (w :: rest) t := by
        rw [left, ← hsplit]
        exact DeltaList.remaining_append_of_not_mem hout
      rw [left, hi, hw, DeltaList.remaining_shorten (List.nodup_append.1 hnd).2.1]
      omega
    refine ⟨⟨?_, ?_⟩, ?_⟩
    · intro t hm
      rw [hw] at hm
      rw [hi]
      by_cases htw : t = w
      · subst htw
        rw [Function.update_self]
        have := Int32.lt_iff_toInt_lt.1 hlt
        unfold interval
        omega
      · rw [Function.update_of_ne htw]
        exact ht.nonneg t (hmem t hm)
    · intro t hm
      rw [hw] at hm
      have hsmall := ht.small t (hmem t hm)
      have hle := hleft t hm
      omega
    · intro t hm
      rw [hw] at hm
      exact ⟨hmem t hm, hleft t hm⟩

/-- The clock of the last pass is what the loop remembers. -/
theorem NotLate.elapsed (h : NotLate s base) (hl : s.loop ≠ .startup) (hc : s.clock < 2 ^ 64) :
    s.clock = base + s.elapsed := by
  have hpast := h.past
  have hgap : s.utime - s.prevStmp = UInt64.ofNat (s.clock - base) := by
    rw [UInt64.ofNat_sub hpast, h.stamp hl]
    rfl
  have hmod : s.elapsed = s.clock - base := by
    rw [Sched.elapsed, hgap, UInt64.toNat_ofNat']
    exact Nat.mod_eq_of_lt (by omega)
  omega

/-- **A pass leaves nobody late**: it lets at least the time pass that the clock has advanced. -/
theorem NotLate.pass (h : NotLate s base) (hi : Inv b s) (hl : s.loop = .top)
    (hok : Prompt s .schedulerPass) (hw : SameWaits .schedulerPass s s.schedulerPass) :
    NotLate s.schedulerPass s.clock := by
  have hstart : s.loop ≠ .startup := by
    rw [hl]
    intro e
    cases e
  have hclock : s.schedulerPass.clock = s.clock := hw.clock fun us e => by cases e
  have hloop : s.schedulerPass.loop = .exhaust := rfl
  have hstamp : UInt64.ofNat s.clock = s.schedulerPass.prevStmp := by
    unfold schedulerPass
    dsimp only
    split
    · rfl
    · next hz =>
      have hsub : s.utime - s.prevStmp + s.prevStmp = s.utime := UInt64.sub_add_cancel _ _
      rw [not_not.1 hz, UInt64.zero_add] at hsub
      exact hsub.symm
  have hleft : Timers s.schedulerPass ∧ ∀ t ∈ s.schedulerPass.wadoglist,
      t ∈ s.wadoglist ∧ s.clock + s.schedulerPass.left t ≤ base + s.left t := by
    by_cases hne : s.wadoglist = []
    · have hnil : s.schedulerPass.wadoglist = [] := by
        apply List.eq_nil_iff_forall_not_mem.2
        intro t ht
        have hold := (hw.kept t ht).1
        rw [hne] at hold
        cases hold
      exact ⟨⟨by simp [hnil], by simp [hnil]⟩, by simp [hnil]⟩
    · obtain ⟨hc, hlt⟩ := hok hne
      have hbase := h.elapsed hstart hc
      by_cases hz : s.elapsed = 0
      · obtain ⟨hd, hw'⟩ := schedulerPass_of_not_elapsed hz
        refine ⟨h.timers.congr hd hw', ?_⟩
        intro t ht
        rw [left_congr hd hw']
        exact ⟨hw' ▸ ht, by omega⟩
      · obtain ⟨hd, hw'⟩ := schedulerPass_of_elapsed hz
        have hgap := elapsed_of_lt hlt
        have hpos : 0 < s.currGapp := by
          rw [Int32.lt_iff_toInt_lt, hgap, Int32.toInt_zero]
          omega
        have hlist := hi.timerList fun t hm => Int32.le_iff_toInt_le.2 (h.timers.nonneg t hm)
        obtain ⟨h1, h2⟩ := hlist.left_tick h.timers hpos
        refine ⟨h1.congr hd hw', ?_⟩
        intro t ht
        obtain ⟨hmem, hle⟩ := h2 t (hw' ▸ ht)
        rw [left_congr hd hw']
        exact ⟨hmem, by omega⟩
  refine ⟨hclock.ge, fun _ => hstamp, ?_, hleft.1, ?_⟩
  · rw [hloop]
    intro e
    cases e
  · intro t ht
    obtain ⟨hmem, hle⟩ := hleft.2 t ht
    obtain ⟨c, start, hp, hdue⟩ := h.due t hmem
    exact ⟨c, start, (hw.kept t ht).2.trans hp, by omega⟩

/-- **Every prompt move keeps the timers from being late.** -/
theorem Inv.notLate_step (h : Inv b s) (hs : s.step m = some s') (hok : Prompt s m)
    (ht : ∃ base, NotLate s base) : ∃ base, NotLate s' base := by
  obtain ⟨base, hb⟩ := ht
  have hexec : s.permitted m = true ∧ s.exec m = some s' := by
    unfold Sched.step at hs
    split at hs
    · next hp => exact ⟨hp, hs⟩
    · cases hs
  obtain ⟨hp, he⟩ := hexec
  have htrs := h.trs_step hs
  -- the moves of the current task that arm no timer
  have quiet {m : Move} (htrs : Trs m s s') (hm : untimed m = true)
      (hc : ∀ c, m = .call c → c.timed = false) : ∃ base, NotLate s' base := by
    have hsame := h.sameWaits_trs htrs hc
    have hpass : m ≠ .schedulerPass := by rintro rfl; cases hm
    exact ⟨base, hb.keep hsame (hsame.time hm) (h.undisturbed_trs htrs hpass hc hb.timers)⟩
  cases m with
  | call c =>
    by_cases ha : s.arms c = true
    · obtain ⟨hpos, hl⟩ := hok ha
      exact ⟨base, hb.arm h ha hpos hl hs⟩
    · by_cases hct : c.timed = true
      · exact quiet (m := .exit) (h.trs_of_not_arms ha hct he) rfl (fun _ e => by cases e)
      · exact quiet htrs rfl (fun _ e => by cases e; simpa using hct)
  | exit => exact quiet htrs rfl (fun _ e => by cases e)
  | schedulerExhaust => exact quiet htrs rfl (fun _ e => by cases e)
  | schedulerLoopEnd => exact quiet htrs rfl (fun _ e => by cases e)
  | elapse us =>
    obtain rfl := Option.some.inj he
    exact ⟨base, hb.past.trans (Nat.le_add_right _ _), hb.stamp, hb.startup,
      hb.timers.congr rfl rfl, hb.due⟩
  | schedulerStart =>
    obtain rfl := Option.some.inj he
    have hl : s.loop = .startup := by simpa using (Bool.and_eq_true_iff.1 hp).2
    have hnil : s.schedulerStart.wadoglist = [] := hb.startup hl
    refine ⟨s.clock, le_rfl, fun _ => rfl, fun _ => hnil, hb.timers.congr rfl rfl, ?_⟩
    rw [hnil]
    intro t ht
    cases ht
  | schedulerPass =>
    obtain rfl := Option.some.inj he
    have hl : s.loop = .top := by simpa using (Bool.and_eq_true_iff.1 hp).2
    exact ⟨s.clock, hb.pass h hl hok (h.sameWaits_trs htrs fun _ e => by cases e)⟩

theorem notLate_boot (b : Boot) : NotLate (boot b) b.clock := by
  have hnil : (boot b).wadoglist = [] := rfl
  exact ⟨le_rfl, fun h => absurd rfl h, fun _ => rfl, ⟨by simp [hnil], by simp [hnil]⟩,
    by simp [hnil]⟩

/-- A task that is parked in a timed wait is on the watchdog list. -/
theorem Inv.mem_wadoglist (h : Inv b s) (hph : phase t s.log = some (.parked c))
    (ht : c.timed = true) : t ∈ s.wadoglist := by
  cases h.stand t with
  | dead _ _ _ hp =>
    rw [hp] at hph
    cases hph
  | idle _ _ _ _ _ _ hp =>
    rw [hp] at hph
    cases hph
  | waits c' _ hw _ _ hp =>
    rw [hp] at hph
    cases hph
    exact hw.dog.2 ht
  | ended _ _ _ _ _ _ _ _ hp =>
    rw [hp] at hph
    cases hph

end Sched

open Sched

/-! ## Runs -/

theorem reach_notLate {b : Boot} {s : Sched} (h : Reach Sched.step Prompt (boot b) s) :
    Inv b s ∧ ∃ base, NotLate s base := by
  refine h.invariant (P := fun s => Inv b s ∧ ∃ base, NotLate s base)
    ⟨inv_boot b, b.clock, notLate_boot b⟩ ?_
  intro s m s' ⟨hi, ht⟩ hok hs
  exact ⟨hi.step hs, hi.notLate_step hs hok ht⟩

/-- **No late wake-up.** In a run all of whose moves are prompt, every pass of the scheduler loop ends
all waits whose deadline lies before its reading of the clock. -/
theorem reach_noLateWake {b : Boot} {s s' : Sched} (h : Reach Sched.step Prompt (boot b) s)
    (hok : Prompt s .schedulerPass) (hs : s.step .schedulerPass = some s') : NobodyOverdue s' := by
  obtain ⟨hi, base, hb⟩ := reach_notLate h
  have hexec : s.permitted .schedulerPass = true ∧ s.exec .schedulerPass = some s' := by
    unfold Sched.step at hs
    split at hs
    · next hp => exact ⟨hp, hs⟩
    · cases hs
  obtain ⟨hp, he⟩ := hexec
  have hl : s.loop = .top := by simpa using (Bool.and_eq_true_iff.1 hp).2
  have hw := hi.sameWaits_trs (hi.trs_step hs) fun _ e => by cases e
  have hclock : s'.clock = s.clock := hw.clock fun us e => by cases e
  obtain rfl := Option.some.inj he
  have hafter := hb.pass hi hl hok hw
  intro t c hph htm
  have hmem := (hi.step hs).mem_wadoglist hph htm
  obtain ⟨start, hlast⟩ := lastPark_of_parked hph
  obtain ⟨c', start', hlast', hdue⟩ := hafter.due t hmem
  rw [hlast] at hlast'
  cases hlast'
  have hleft := DeltaList.remaining_nonneg hafter.timers.nonneg (t := t)
  refine ⟨start, hlast, ?_⟩
  rw [hclock]
  unfold left at hdue
  omega

/-- Two tasks sleep, for five and for twenty microseconds; the next pass comes after seven. -/
def promptRun : List Move :=
  newTasks 2 ++ [.schedulerStart, .schedulerPass, .schedulerExhaust, .call (.usleep 5),
    .call (.usleep 20), .schedulerExhaust, .schedulerLoopEnd, .elapse 7]

set_option maxRecDepth 4000 in
theorem promptRun_noLateWake : ∃ s s',
    promptRun.foldlM (Reach.guarded Sched.step Prompt) (boot {}) = some s ∧
      s.step .schedulerPass = some s' ∧ s.wadoglist = [100, 163] ∧ s'.wadoglist = [163] ∧
      NobodyOverdue s' := by
  have hrun : ((promptRun.foldlM (Reach.guarded Sched.step Prompt) (boot {})).bind fun s =>
      (s.step .schedulerPass).map fun s' =>
        (s.wadoglist, s'.wadoglist, decide (Prompt s .schedulerPass))) =
          some ([100, 163], [163], true) := by
    decide +kernel
  obtain ⟨s, hs, he⟩ := Option.bind_eq_some_iff.1 hrun
  obtain ⟨s', hs', he⟩ := Option.map_eq_some_iff.1 he
  obtain ⟨h1, h2, h3⟩ : s.wadoglist = [100, 163] ∧ s'.wadoglist = [163] ∧
      Prompt s .schedulerPass := by
    simpa [Prod.ext_iff] using he
  exact ⟨s, s', hs, hs', h1, h2, reach_noLateWake (Reach.of_guarded hs) h3 hs'⟩

end Ptask.OneN
