import Ptask.OneN.Epoll
import Ptask.OneN.Ticks

/-!
# Time arithmetic

A timeout goes through three numbers: the milliseconds of `fiber_epoll_wait`, the microseconds of the
other calls, both `int`, and the `uint64_t` clock, whose difference the scheduler loop passes on as an
`int`. `EpollExact` says that the first conversion keeps the meaning of a timeout, `TimeExact` that a
move loses neither time that was asked for nor time that has passed, and that its arithmetic on the
intervals is that of the integers (`ArithExact`). The conversions wrap around for long timeouts and
long stalls; `EpollFits` and `TimeKept` say when they do not.
-/

namespace Ptask.OneN

open Ptask.Lib

/-! ## Milliseconds -/

/-- `fiber_epoll_wait` waits as it is asked: for ever when `timeout_in_ms` is negative, not at all when
it is zero, and else for that many milliseconds. -/
def EpollExact (ms : Int32) : Prop :=
  (ms < 0 → (Call.epollWait ms).blocks = true ∧ (Call.epollWait ms).timed = false) ∧
    (ms = 0 → (Call.epollWait ms).blocks = false) ∧
    (0 < ms → (Call.epollWait ms).timed = true ∧
      (Call.epollWait ms).timeout.toInt = 1000 * ms.toInt)

/-- The timeout is at most 2147483 ms; or it is negative, and a thousand times its magnitude is modulo
`2 ^ 32` at least one and at most `2 ^ 31`. -/
def EpollFits (ms : Int32) : Prop :=
  (0 ≤ ms.toInt ∧ ms.toInt ≤ 2147483) ∨
    (ms.toInt < 0 ∧ 1 ≤ 1000 * -ms.toInt % 2 ^ 32 ∧ 1000 * -ms.toInt % 2 ^ 32 ≤ 2 ^ 31)

theorem bmod_neg_iff (x : Int) :
    x.bmod (2 ^ 32) < 0 ↔ 1 ≤ -x % 2 ^ 32 ∧ -x % 2 ^ 32 ≤ 2 ^ 31 := by
  rw [Int.bmod_def]
  split <;> omega

theorem bmod_eq_self_iff (x : Int) :
    x.bmod (2 ^ 32) = x ↔ -2 ^ 31 ≤ x ∧ x < 2 ^ 31 := by
  rw [Int.bmod_def]
  split <;> omega

/-- The conversion to microseconds is exact precisely for the timeouts that fit. -/
theorem epollExact_iff (ms : Int32) : EpollExact ms ↔ EpollFits ms := by
  have hmul : (ms * 1000).toInt = (1000 * ms.toInt).bmod (2 ^ 32) := by
    rw [Int32.toInt_mul, mul_comm]
    rfl
  have hsign (x : Int32) : (x = 0 ↔ x.toInt = 0) ∧ (x < 0 ↔ x.toInt < 0) ∧ (0 < x ↔ 0 < x.toInt) := by
    rw [← Int32.toInt_inj, Int32.lt_iff_toInt_lt, Int32.lt_iff_toInt_lt, Int32.toInt_zero]
    exact ⟨.rfl, .rfl, .rfl⟩
  have hneg := bmod_neg_iff (1000 * ms.toInt)
  have hself := bmod_eq_self_iff (1000 * ms.toInt)
  simp only [EpollExact, EpollFits, Call.epollWait, Call.blocks, Call.timed, Call.timeout,
    decide_eq_true_eq, decide_eq_false_iff_not, ne_eq, hsign, hmul]
  rw [← mul_neg] at hneg
  generalize (1000 * ms.toInt).bmod (2 ^ 32) = y at hneg hself
  generalize 1000 * -ms.toInt % 2 ^ 32 = z at hneg
  omega

namespace Sched

variable {b : Boot} {m : Move} {s s' : Sched} {w t : TaskId} {c : Call}

/-! ## Intervals -/

/-- The arithmetic on the intervals is that of the integers: of any insertion, and of any removal after
any removals before it (a broadcast makes several). -/
structure ArithExact (s : Sched) : Prop where
  insert : ∀ t d, 0 ≤ d →
    (fun u => ((watchdogLoop t d s.wadoglist s.delta).2 u).toInt) =
      (DeltaList.insert t d.toInt s.wadoglist s.interval).2
  remove : ∀ (ws : List TaskId) w, (fun u => ((ws.foldl fiberWatchdogRemove s).deltaWithout w u).toInt) =
    DeltaList.remove w (ws.foldl fiberWatchdogRemove s).wadoglist
      (ws.foldl fiberWatchdogRemove s).interval

/-- The time that has passed on the clock since the pass that was the last to read another time. -/
def elapsed (s : Sched) : Nat := (s.utime - s.prevStmp).toNat

/-- A pass lets exactly the time that has passed go by for every task on the watchdog list. -/
structure PassExact (s s' : Sched) : Prop where
  /-- The gap of the tick is the difference of the clock. -/
  gap : s.wadoglist ≠ [] → s.currGapp.toInt = s.elapsed
  /-- The tasks that stay have that much less left, and no later deadline. -/
  advanced : ∀ t ∈ s'.wadoglist, t ∈ s.wadoglist ∧ s'.left t = s.left t - s.elapsed
  /-- The intervals have not wrapped around. -/
  interval : ∀ t ∈ s'.wadoglist,
    s'.interval t = s.interval t ∨ s'.interval t = s.interval t - s.elapsed
  /-- The others had no more left. -/
  expired : ∀ t ∈ s.wadoglist, t ∉ s'.wadoglist → s.left t ≤ s.elapsed

/-- **Time is neither lost nor gained** in the move from `s` to `s'`. -/
structure TimeExact (m : Move) (s s' : Sched) : Prop where
  arith : ArithExact s
  /-- The whole timeout is left for a task that starts a timed wait. -/
  queued : ∀ c, m = .call c → s.arms c = true →
    s.currentTask ∈ s'.wadoglist ∧ s'.left s.currentTask = c.timeout.toInt
  /-- Only a pass changes what is left for a task that stays on the list. -/
  kept : m ≠ .schedulerPass → ∀ t ∈ s.wadoglist, t ∈ s'.wadoglist → s'.left t = s.left t
  passed : m = .schedulerPass → PassExact s s'

/-- A move for which the arithmetic is exact. A timer is armed for a timeout that is not negative; a pass
that finds timers comes within `2 ^ 31` microseconds, and the gap fits the list. -/
def TimeKept (s : Sched) : Move → Prop
  | .call c => s.arms c = true → 0 ≤ c.timeout
  | .schedulerPass => s.wadoglist ≠ [] → s.elapsed < 2 ^ 31 ∧ s.GapFits s.currGapp
  | _ => True

instance (s : Sched) (gap : Int32) : Decidable (s.GapFits gap) :=
  inferInstanceAs (Decidable (_ ∨ _))

instance (s : Sched) : (m : Move) → Decidable (TimeKept s m)
  | .call c => inferInstanceAs (Decidable (s.arms c = true → 0 ≤ c.timeout))
  | .schedulerPass =>
    inferInstanceAs (Decidable (s.wadoglist ≠ [] → s.elapsed < 2 ^ 31 ∧ s.GapFits s.currGapp))
  | .exit => .isTrue trivial
  | .elapse _ => .isTrue trivial
  | .schedulerStart => .isTrue trivial
  | .schedulerExhaust => .isTrue trivial
  | .schedulerLoopEnd => .isTrue trivial

theorem delta_fiberWatchdogRemove (hw : (s.tcb w).state.waitTimeoutb = true) :
    (s.fiberWatchdogRemove w).delta = s.deltaWithout w ∧
      (s.fiberWatchdogRemove w).wadoglist = s.wadoglist.erase w := by
  simp only [fiberWatchdogRemove, hw, if_true, deltaWithout]
  cases nextOf w s.wadoglist <;> exact ⟨rfl, rfl⟩

theorem bit_fiberWatchdogRemove (hw : (s.tcb w).state.waitTimeoutb = true) (t : TaskId) :
    ((s.fiberWatchdogRemove w).tcb t).state.waitTimeoutb =
      ((s.tcb t).state.waitTimeoutb && decide (t ≠ w)) := by
  simp only [fiberWatchdogRemove, hw, if_true]
  by_cases ht : t = w
  · subst ht
    cases nextOf t s.wadoglist <;> simp [modState, modTcb]
  · cases nextOf w s.wadoglist <;> simp [modState, modTcb, ht]

theorem Timers.fiberWatchdogRemove (h : Timers s) (hl : s.wadoglist.Nodup) (w : TaskId) :
    Timers (s.fiberWatchdogRemove w) ∧ (s.fiberWatchdogRemove w).wadoglist.Nodup := by
  by_cases hw : (s.tcb w).state.waitTimeoutb = true
  · obtain ⟨h1, h2⟩ := delta_fiberWatchdogRemove hw
    exact ⟨(h.grant hl w (s.tcb w) []).1.congr h1 h2, h2 ▸ hl.erase w⟩
  · rw [Sched.fiberWatchdogRemove, if_neg hw]
    exact ⟨h, hl⟩

theorem Timers.arithExact (h : Timers s) (hl : s.wadoglist.Nodup) : ArithExact s := by
  refine ⟨fun t d hd => ?_, fun ws w => ?_⟩
  · have hn : ∀ u ∈ s.wadoglist, 0 ≤ s.delta u := fun u hu =>
      Int32.le_iff_toInt_le.2 (h.nonneg u hu)
    exact (watchdogLoop_eq_insert hl hd hn).2
  · have hall : Timers (ws.foldl Sched.fiberWatchdogRemove s) ∧
        (ws.foldl Sched.fiberWatchdogRemove s).wadoglist.Nodup := by
      induction ws generalizing s with
      | nil => exact ⟨h, hl⟩
      | cons a ws ih =>
        obtain ⟨ha, hla⟩ := h.fiberWatchdogRemove hl a
        exact ih ha hla
    exact interval_deltaWithout hall.2 hall.1.nonneg hall.1.small

/-! ## Moves -/

/-- No timer is armed: what stays on the watchdog list was on it, with as much left. -/
def Undisturbed (s s' : Sched) : Prop :=
  Timers s' ∧ ∀ t ∈ s'.wadoglist, t ∈ s.wadoglist ∧ s'.left t = s.left t

theorem Timers.undisturbed (h : Timers s) (hd : s'.delta = s.delta)
    (hw : s'.wadoglist = s.wadoglist) : Undisturbed s s' :=
  ⟨h.congr hd hw, fun t ht => ⟨hw ▸ ht, by rw [left_congr hd hw]⟩⟩

theorem Undisturbed.trans {s'' : Sched} (h : Undisturbed s s') (h' : Undisturbed s' s'') :
    Undisturbed s s'' := by
  refine ⟨h'.1, fun t ht => ?_⟩
  obtain ⟨hm', hl'⟩ := h'.2 t ht
  obtain ⟨hm, hl⟩ := h.2 t hm'
  exact ⟨hm, hl'.trans hl⟩

theorem delta_arrive : s.arrive.delta = s.delta ∧ s.arrive.wadoglist = s.wadoglist := by
  rcases arrive_eq (s := s) with ha | ⟨c, -, ha⟩ <;> rw [ha] <;> exact ⟨rfl, rfl⟩

theorem delta_schedule (hs : s.schedule = some s') :
    s'.delta = s.delta ∧ s'.wadoglist = s.wadoglist := by
  unfold schedule fiberSched at hs
  obtain ⟨u, hu, rfl⟩ := Option.map_eq_some_iff.1 hs
  obtain ⟨h1, h2⟩ := delta_arrive (s := u)
  split at hu
  · cases hu
  · split at hu
    · obtain rfl := Option.some.inj hu
      exact ⟨h1, h2⟩
    · obtain rfl := Option.some.inj hu
      rw [h1, h2]
      dsimp only
      split <;> exact ⟨rfl, rfl⟩

theorem delta_suspend (hc : c.timed = false) (x : FibTCB) :
    (s.suspend c x).delta = s.delta ∧ (s.suspend c x).wadoglist = s.wadoglist :=
  ⟨if_neg (by simp [hc]), if_neg (by simp [hc])⟩

/-- A transition that arms no timer. -/
theorem Inv.undisturbed_tr (h : Inv b s) (htr : Tr m s s') (hm : m ≠ .schedulerPass)
    (hc : ∀ c, m = .call c → c.timed = false) (ht : Timers s) : Undisturbed s s' := by
  cases htr with
  | quiet _ hq => exact ht.undisturbed (hq.delta hm) hq.wadoglist
  | localdata => exact ht.undisturbed rfl rfl
  | scrap => exact ht.undisturbed rfl rfl
  | spawn => exact ht.undisturbed rfl rfl
  | exit => exact ht.undisturbed delta_arrive.1 delta_arrive.2
  | ret => exact ht.undisturbed rfl rfl
  | semInit => exact ht.undisturbed rfl rfl
  | take => exact ht.undisturbed rfl rfl
  | unit => exact ht.undisturbed rfl rfl
  | unitGrant i w _ c =>
    have hunit : Undisturbed s (s.postUnit i) := ht.undisturbed rfl rfl
    exact hunit.trans (hunit.1.grant (h.postUnit i).dogs _ _ _)
  | grant w c y r => exact ht.grant h.dogs _ _ _
  | expire hp => exact absurd hp hm
  | took => exact ht.undisturbed rfl rfl
  | posted => exact ht.undisturbed rfl rfl
  | eventGrant => exact ht.grant h.dogs _ _ _
  | park c x _ hmc hne hb hk hd _ hs =>
    obtain ⟨h1, h2⟩ := delta_schedule hs
    obtain ⟨h3, h4⟩ := delta_suspend (s := s) (hc c hmc) x
    exact ht.undisturbed (h1.trans h3) (h2.trans h4)
  | schedYield _ _ hs =>
    obtain ⟨h1, h2⟩ := delta_schedule hs
    exact ht.undisturbed h1 h2

theorem Inv.undisturbed_trs (h : Inv b s) (htr : Trs m s s') (hm : m ≠ .schedulerPass)
    (hc : ∀ c, m = .call c → c.timed = false) (ht : Timers s) : Undisturbed s s' := by
  induction htr with
  | refl => exact ht.undisturbed rfl rfl
  | tail htr hlast ih => exact ih.trans ((h.trs htr).undisturbed_tr hlast hm hc ih.1)

/-- A call that arms a timer starts a wait. -/
theorem Idle.call_of_arms (h : s.Idle) (ha : s.arms c = true) :
    c.timed = true ∧ ∃ x, s.call c = (s.suspend c x).schedule := by
  have hne {d : Int32} (hd : decide (0 < d) = true) : ¬d = 0 := by
    rintro rfl
    cases hd
  obtain ⟨ht, hc⟩ := Bool.and_eq_true_iff.1 ha
  refine ⟨ht, ?_⟩
  cases c with
  | usleep usec => exact ⟨_, fiberUsleep_eq h usec⟩
  | eventWait events options timeout =>
    have hcall := fiberEventWait_eq h events options timeout
    dsimp only at hcall
    rw [if_neg (by simpa using hc), if_neg (hne ht)] at hcall
    exact ⟨_, hcall⟩
  | semTimedwait i timeout =>
    have hcall := fiberSemTimedwait_eq h i timeout
    rw [if_neg (by simpa using hc), if_neg (hne ht)] at hcall
    exact ⟨_, hcall⟩
  | condTimedwait i timeout =>
    have hcall := fiberCondTimedwait_eq h i timeout
    rw [if_neg (hne ht)] at hcall
    exact ⟨_, hcall⟩
  | _ => cases ht

/-! ## Passes -/

theorem elapsed_of_lt (h : s.elapsed < 2 ^ 31) : s.currGapp.toInt = s.elapsed := by
  rw [currGapp, toInt, Int32.toInt_ofInt]
  exact Int.bmod_eq_of_le (by simp) (by simp [Int32.size]; exact_mod_cast h)

/-- A pass leaves what `fiber_watchdog_tickle` leaves. -/
theorem schedulerPass_of_elapsed (h : s.elapsed ≠ 0) :
    s.schedulerPass.delta = (s.fiberWatchdogTickle s.currGapp).delta ∧
      s.schedulerPass.wadoglist = (s.fiberWatchdogTickle s.currGapp).wadoglist := by
  have hz : s.utime - s.prevStmp ≠ 0 := fun e => h (by rw [elapsed, e]; rfl)
  unfold schedulerPass
  dsimp only
  rw [if_pos hz]
  exact ⟨rfl, rfl⟩

theorem schedulerPass_of_not_elapsed (h : s.elapsed = 0) :
    s.schedulerPass.delta = s.delta ∧ s.schedulerPass.wadoglist = s.wadoglist := by
  have hz : s.utime - s.prevStmp = 0 := UInt64.toNat_inj.1 h
  unfold schedulerPass
  dsimp only
  rw [if_neg (not_not.2 hz)]
  exact ⟨rfl, rfl⟩

/-- A tick whose gap is positive and fits the list. -/
theorem TimerList.tick {gap : Int32} (h : TimerList s) (ht : Timers s) (hg : 0 < gap)
    (hfits : GapFits s gap) : Timers (s.fiberWatchdogTickle gap) ∧
      (∀ t ∈ (s.fiberWatchdogTickle gap).wadoglist, t ∈ s.wadoglist ∧
        (s.fiberWatchdogTickle gap).left t = s.left t - gap.toInt) ∧
      (∀ t ∈ (s.fiberWatchdogTickle gap).wadoglist,
        (s.fiberWatchdogTickle gap).interval t = s.interval t ∨
          (s.fiberWatchdogTickle gap).interval t = s.interval t - gap.toInt) ∧
      ∀ t ∈ s.wadoglist, t ∉ (s.fiberWatchdogTickle gap).wadoglist → s.left t ≤ gap.toInt := by
  have hpos : 0 < gap.toInt := Int32.lt_iff_toInt_lt.1 hg
  have hex : TickExact s gap := (tickExact_iff h hg).2 hfits
  have hmem (t : TaskId) :
      t ∈ (s.fiberWatchdogTickle gap).wadoglist ↔ t ∈ s.wadoglist ∧ gap.toInt < s.left t := by
    rw [hex.removed]
    simp
  obtain ⟨r, hr, -⟩ := h.ready
  obtain ⟨hw, -, hd⟩ := @tickleLoop_spec gap _ _ _ h rfl hr
  have hint (t : TaskId) (hm : t ∈ (s.fiberWatchdogTickle gap).wadoglist) :
      (s.fiberWatchdogTickle gap).interval t = s.interval t ∨
        (gap.toInt < s.interval t ∧
          (s.fiberWatchdogTickle gap).interval t = s.interval t - gap.toInt) := by
    have hm : t ∈ s.wadoglist.dropWhile fun t => s.delta t ≤ gap := hw ▸ hm
    have hd : (s.fiberWatchdogTickle gap).delta = _ := hd
    have hhead := List.head?_dropWhile_not (fun t => decide (s.delta t ≤ gap)) s.wadoglist
    unfold interval
    rw [hd]
    generalize s.wadoglist.dropWhile (fun t => s.delta t ≤ gap) = q at hm hhead
    cases q with
    | nil => exact absurd hm List.not_mem_nil
    | cons a q =>
      have hlt : gap < s.delta a := by simpa using hhead
      by_cases hta : t = a
      · subst hta
        right
        dsimp only
        rw [Function.update_self]
        exact ⟨Int32.lt_iff_toInt_lt.1 hlt,
          Int32.toInt_sub_of_le _ _ (Int32.le_of_lt hg) (Int32.le_of_lt hlt)⟩
      · left
        dsimp only
        rw [Function.update_of_ne hta]
  refine ⟨⟨fun t hm => ?_, fun t hm => ?_⟩, fun t hm => ⟨((hmem t).1 hm).1, hex.left t hm⟩,
    fun t hm => (hint t hm).imp_right And.right, fun t ht hm => ?_⟩
  · have hn := ht.nonneg t ((hmem t).1 hm).1
    rcases hint t hm with he | ⟨hlt, he⟩ <;> rw [he] <;> omega
  · have hs := ht.small t ((hmem t).1 hm).1
    rw [hex.left t hm]
    omega
  · by_contra hlt
    exact hm ((hmem t).2 ⟨ht, by omega⟩)

theorem Inv.pass_exact (h : Inv b s) (ht : Timers s) (hok : TimeKept s .schedulerPass) :
    Timers s.schedulerPass ∧ PassExact s s.schedulerPass := by
  by_cases hz : s.elapsed = 0
  · obtain ⟨hd, hw⟩ := schedulerPass_of_not_elapsed hz
    refine ⟨ht.congr hd hw, ⟨fun _ => elapsed_of_lt (by omega), fun t hm => ⟨hw ▸ hm, ?_⟩,
      fun t hm => .inl (by rw [interval_congr hd]), fun t ht hm => absurd (hw ▸ ht) hm⟩⟩
    rw [left_congr hd hw, hz]
    omega
  · obtain ⟨hd, hw⟩ := schedulerPass_of_elapsed hz
    by_cases hne : s.wadoglist = []
    · have hw' : s.schedulerPass.wadoglist = [] := by
        rw [hw, fiberWatchdogTickle, hne]
        exact hne
      refine ⟨⟨?_, ?_⟩, ⟨absurd hne, ?_, ?_, ?_⟩⟩
      · simp [hw']
      · simp [hw']
      · simp [hw']
      · simp [hw']
      · simp [hne]
    · obtain ⟨hlt, hfits⟩ := hok hne
      have hgap := elapsed_of_lt hlt
      have hpos : 0 < s.currGapp := by
        rw [Int32.lt_iff_toInt_lt, hgap, Int32.toInt_zero]
        omega
      have hlist := h.timerList fun t hm => Int32.le_iff_toInt_le.2 (ht.nonneg t hm)
      obtain ⟨h1, h2, h3, h4⟩ := hlist.tick ht hpos hfits
      rw [hgap] at h2 h3 h4
      rw [← interval_congr hd] at h3
      rw [← left_congr hd hw] at h2
      rw [← hw] at h2 h3 h4
      exact ⟨h1.congr hd hw, fun _ => hgap, h2, h3, h4⟩

/-! ## Steps -/

/-- **Every move for which the arithmetic is exact keeps time.** -/
theorem Inv.timeExact_step (h : Inv b s) (hs : s.step m = some s') (hok : TimeKept s m)
    (ht : Timers s) : Timers s' ∧ TimeExact m s s' := by
  have harith := ht.arithExact h.dogs
  have quiet (hm : m ≠ .schedulerPass) (ha : ∀ c, m = .call c → s.arms c = false)
      (hu : Undisturbed s s') : Timers s' ∧ TimeExact m s s' := by
    refine ⟨hu.1, harith, fun c e hc => ?_, fun _ t _ hm => (hu.2 t hm).2, fun e => absurd e hm⟩
    rw [ha c e] at hc
    cases hc
  have he : s.exec m = some s' := by
    unfold Sched.step at hs
    split at hs
    · exact hs
    · cases hs
  have htrs := h.trs_step hs
  cases m with
  | call c =>
    by_cases ha : s.arms c = true
    · obtain ⟨htm, x, hcall⟩ := h.idle.call_of_arms ha
      obtain ⟨hd, hw⟩ := delta_schedule (hcall.symm.trans he)
      obtain ⟨h1, ⟨h2, h3⟩, h4, h5⟩ := ht.suspend h.dogs h.idle.dog htm (hok ha) x
      refine ⟨h1.congr hd hw, harith, ?_, ?_, nofun⟩
      · rintro _ ⟨⟩ -
        rw [left_congr hd hw, hw]
        exact ⟨h2, h3⟩
      · intro _ t hm _
        rw [left_congr hd hw]
        exact h5 t hm
    · refine quiet nofun (fun _ e => by cases e; simpa using ha) ?_
      by_cases hct : c.timed = true
      · exact h.undisturbed_trs (m := .exit) (h.trs_of_not_arms ha hct he) nofun nofun ht
      · exact h.undisturbed_trs htrs nofun (fun _ e => by cases e; simpa using hct) ht
  | schedulerPass =>
    obtain rfl := Option.some.inj he
    obtain ⟨h1, h2⟩ := h.pass_exact ht hok
    exact ⟨h1, harith, nofun, fun hne => absurd rfl hne, fun _ => h2⟩
  | _ => exact quiet nofun nofun (h.undisturbed_trs htrs nofun nofun ht)

end Sched

open Sched

/-! ## Runs -/

/-- **Time is neither lost nor gained** in a run all of whose moves are ones for which the arithmetic is
exact; and a timeout in milliseconds is kept precisely when it fits. -/
theorem reach_timeExact {b : Boot} {m : Move} {s s' : Sched} (ms : Int32)
    (h : Reach Sched.step TimeKept (boot b) s) (hok : TimeKept s m) (hs : s.step m = some s') :
    TimeExact m s s' ∧ (EpollExact ms ↔ EpollFits ms) := by
  have hrun : Inv b s ∧ Timers s := by
    refine h.invariant (P := fun s => Inv b s ∧ Timers s) ⟨inv_boot b, nofun, nofun⟩ ?_
    intro s m s' ⟨hi, ht⟩ hok hs
    exact ⟨hi.step hs, (hi.timeExact_step hs hok ht).1⟩
  exact ⟨(hrun.1.timeExact_step hs hok hrun.2).2, epollExact_iff ms⟩

set_option maxRecDepth 4000 in
/-- The second pass of `sleepRun` that ticks, and the longest timeout in milliseconds. -/
theorem sleepRun_timeExact : ∃ s s',
    (sleepRun.take 10).foldlM (Reach.guarded Sched.step TimeKept) (boot {}) = some s ∧
      s.step .schedulerPass = some s' ∧ s.wadoglist = [100, 163] ∧ s'.wadoglist = [100, 163] ∧
      TimeExact .schedulerPass s s' ∧ (EpollExact 2147483 ↔ EpollFits 2147483) := by
  have hrun : (((sleepRun.take 10).foldlM (Reach.guarded Sched.step TimeKept)
      (boot {})).bind fun s => (s.step .schedulerPass).map fun s' =>
        (s.wadoglist, s'.wadoglist, decide (TimeKept s .schedulerPass))) =
          some ([100, 163], [100, 163], true) := by
    decide +kernel
  obtain ⟨s, hs, he⟩ := Option.bind_eq_some_iff.1 hrun
  obtain ⟨s', hs', he⟩ := Option.map_eq_some_iff.1 he
  obtain ⟨h1, h2, h3⟩ : s.wadoglist = [100, 163] ∧ s'.wadoglist = [100, 163] ∧
      TimeKept s .schedulerPass := by
    simpa [Prod.ext_iff] using he
  exact ⟨s, s', hs, hs', h1, h2, reach_timeExact 2147483 (Reach.of_guarded hs) h3 hs'⟩

/-- A task sleeps for ten microseconds, and the next pass comes `2 ^ 31 + 100` microseconds later. -/
def stallRun : List Move :=
  newTasks 1 ++ [.schedulerStart, .schedulerPass, .schedulerExhaust, .call (.usleep 10),
    .schedulerExhaust, .schedulerLoopEnd, .elapse 2147483748]

/-- A task sleeps for as long as it can, and another one calls `fiber_usleep` with `-1`. -/
def negativeRun : List Move :=
  newTasks 2 ++ [.schedulerStart, .schedulerPass, .schedulerExhaust, .call (.usleep 2147483647)]

set_option maxRecDepth 4000 in
/-- A timeout of 2147484 ms is a wait for ever; the pass after a stall gives the sleep of ten
microseconds another 2147483558; a negative sleep makes the interval behind it wrap around. -/
theorem time_lost : ¬EpollExact 2147484 ∧
    (∃ s s', Reachable {} s ∧ s.step .schedulerPass = some s' ∧ s.left 100 = 10 ∧
      s'.left 100 = 2147483558 ∧ ¬TimeExact .schedulerPass s s') ∧
    ∃ s s', Reachable {} s ∧ s.step (.call (.usleep (-1))) = some s' ∧
      s.left 100 = 2147483647 ∧ s'.left 100 = -2147483649 ∧
      ¬TimeExact (.call (.usleep (-1))) s s' := by
  have hstall : ((stallRun.foldlM Sched.step (boot {})).bind fun s =>
      (s.step .schedulerPass).map fun s' =>
        [(s.wadoglist, s.left 100), (s'.wadoglist, s'.left 100)]) =
          some [([100], 10), ([100], 2147483558)] := by
    decide +kernel
  have hnegative : ((negativeRun.foldlM Sched.step (boot {})).bind fun s =>
      (s.step (.call (.usleep (-1)))).map fun s' =>
        [(s.wadoglist, s.left 100), (s'.wadoglist, s'.left 100)]) =
          some [([100], 2147483647), ([163, 100], -2147483649)] := by
    decide +kernel
  refine ⟨?_, ?_, ?_⟩
  · rw [epollExact_iff, EpollFits]
    decide
  · obtain ⟨s, hs, he⟩ := Option.bind_eq_some_iff.1 hstall
    obtain ⟨s', hs', he⟩ := Option.map_eq_some_iff.1 he
    obtain ⟨⟨-, h1⟩, h2, h3⟩ : (s.wadoglist = [100] ∧ s.left 100 = 10) ∧
        s'.wadoglist = [100] ∧ s'.left 100 = 2147483558 := by
      simpa [Prod.ext_iff] using he
    refine ⟨s, s', Reach.of_foldlM hs, hs', h1, h3, fun hex => ?_⟩
    have hpass := (hex.passed rfl).advanced 100 (by simp [h2])
    omega
  · obtain ⟨s, hs, he⟩ := Option.bind_eq_some_iff.1 hnegative
    obtain ⟨s', hs', he⟩ := Option.map_eq_some_iff.1 he
    obtain ⟨⟨h0, h1⟩, h2, h3⟩ : (s.wadoglist = [100] ∧ s.left 100 = 2147483647) ∧
        s'.wadoglist = [163, 100] ∧ s'.left 100 = -2147483649 := by
      simpa [Prod.ext_iff] using he
    refine ⟨s, s', Reach.of_foldlM hs, hs', h1, h3, fun hex => ?_⟩
    have hkept := hex.kept nofun 100 (by simp [h0]) (by simp [h2])
    omega

end Ptask.OneN
