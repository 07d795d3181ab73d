import Ptask.OneN.Objects

/-!
# What a move logs

The transitions of a move do not say which move they belong to when they post events or return, but
the functions do: a move logs a return at most once, as the last thing, by the task that is then
current; it posts only the events that it is called with; a task that parks does so in the call that
it makes, and nothing else happens in this move.
-/

namespace Ptask.OneN.Sched

open Ptask.Lib

variable {b : Boot} {m : Move} {s s' : Sched} {t w : TaskId} {c : Call}

/-- The event neither returns, posts nor parks. -/
def plain : Ev → Bool
  | .ret .. => false
  | .posted .. => false
  | .park .. => false
  | _ => true

/-- The event is none that a call logs. -/
def passive : Ev → Bool
  | .expire .. => true
  | .exited _ => true
  | _ => false

/-- The last thing that a move logs: the return of the task that is then current. -/
def ReturnsTo (t : TaskId) (rs : List Ev) : Prop := rs = [] ∨ ∃ c r, rs = [.ret t c r]

/-- What the move `m` from `s` to `s'` logs. -/
inductive Logs (m : Move) (s s' : Sched) : Prop
  /-- A call that returns at once. -/
  | call (c : Call) (r : Ret) (es : List Ev) (hm : m = .call c)
    (hcur : s'.currentTask = s.currentTask)
    (hlog : s'.log = .ret s.currentTask c r :: (es ++ s.log)) (hes : ∀ e ∈ es, plain e = true)
  | post (w : TaskId) (events : EventMask) (es : List Ev) (hm : m = .call (.eventPost w events))
    (hcur : s'.currentTask = s.currentTask)
    (hlog : s'.log = .ret s.currentTask (.eventPost w events) (.word 0) ::
      (es ++ .posted w events :: s.log)) (hes : ∀ e ∈ es, plain e = true)
  /-- A call in which the current task goes to sleep. -/
  | park (c : Call) (rs : List Ev) (hm : m = .call c)
    (hlog : s'.log = rs ++ .park s.currentTask c s.clock :: s.log)
    (hrs : ReturnsTo s'.currentTask rs)
  /-- The other moves, and `fiber_sched_yield`. -/
  | other (rs es : List Ev) (hm : ∀ c, m = .call c → c = .schedYield)
    (hlog : s'.log = rs ++ (es ++ s.log)) (hrs : ReturnsTo s'.currentTask rs)
    (hes : ∀ e ∈ es, passive e = true)

/-! ## Switching -/

theorem log_arrive_eq : ∃ rs, s.arrive.log = rs ++ s.log ∧ ReturnsTo s.arrive.currentTask rs := by
  rcases arrive_eq (s := s) with ha | ⟨c, -, ha⟩
  · rw [ha]
    exact ⟨[], rfl, .inl rfl⟩
  · rw [ha]
    exact ⟨[.ret s.currentTask c _], rfl, .inr ⟨c, _, rfl⟩⟩

theorem log_schedule_eq (hs : s.schedule = some s') :
    ∃ rs, s'.log = rs ++ s.log ∧ ReturnsTo s'.currentTask rs := by
  obtain ⟨s₁, h₁, rfl⟩ := Option.map_eq_some_iff.1 hs
  have hlog : s₁.log = s.log := by
    unfold fiberSched at h₁
    split at h₁
    · cases h₁
    · split at h₁
      · obtain rfl := Option.some.inj h₁
        rfl
      · obtain rfl := Option.some.inj h₁
        dsimp only
        split <;> rfl
  rw [← hlog]
  exact log_arrive_eq

/-- The current task goes to sleep. -/
theorem logs_park {x : FibTCB} (hs : (s.suspend c x).schedule = some s') : Logs (.call c) s s' := by
  obtain ⟨rs, hlog, hrs⟩ := log_schedule_eq hs
  exact .park c rs rfl hlog hrs

theorem logs_yielded (hm : ∀ c, m = .call c → c = .schedYield)
    (hs : s.yielded.schedule = some s') : Logs m s s' := by
  obtain ⟨rs, hlog, hrs⟩ := log_schedule_eq hs
  exact .other rs [] hm hlog hrs (by simp)

/-! ## Calls -/

theorem logs_create {stackaddr : Addr} {stacksize : BitVec 32} {env : AllocEnv} :
    Logs (.call (.create stackaddr stacksize env)) s (s.fiberCreate stackaddr stacksize env) := by
  have hreturns (t : Option TaskId) {s' : Sched} (es : List Ev)
      (hcur : s'.currentTask = s.currentTask)
      (hlog : s'.log = .ret s.currentTask (.create stackaddr stacksize env) (.task t) :: (es ++ s.log))
      (hes : ∀ e ∈ es, plain e = true) : Logs (.call (.create stackaddr stacksize env)) s s' :=
    .call _ _ es rfl hcur hlog hes
  unfold fiberCreate
  dsimp only
  repeat' split
  all_goals first
    | exact hreturns none [] rfl rfl (by simp)
    | exact hreturns (some _) [.created _] rfl rfl (by simp [plain])

/-- A post logs the events, what it does to the wait of the task, and its return. -/
theorem Inv.log_eventPost (h : Inv b s) {events : EventMask} (hl : t ∈ s.live) :
    (s.fiberEventPost t events).currentTask = s.currentTask ∧
      ∃ es, (s.fiberEventPost t events).log =
        .ret s.currentTask (.eventPost t events) (.word 0) :: (es ++ .posted t events :: s.log) ∧
          ∀ e ∈ es, plain e = true ∧ e.task = t := by
  by_cases hk : (s.tcb t).state.waitforEvent = true →
      eventsSatisfy (((s.tcb t).pendingEvents ||| events) &&& (s.tcb t).waitingEvents)
        (s.tcb t).waitingEvents (s.tcb t).waitingOptions = false
  · rw [fiberEventPost_keep hk]
    exact ⟨rfl, [], rfl, by simp⟩
  · obtain ⟨hk, hsat⟩ := Classical.not_imp.1 hk
    obtain ⟨mask, options, timeout, hw, -⟩ := (h.stand t).waits_of_event hk hl
    rw [fiberEventPost_grant hw (by simpa using hsat)]
    exact ⟨rfl, [.grant t _ _, .seize t _], rfl, by simp [plain, Ev.task]⟩

theorem Inv.logs_mutexUnlock (h : Inv b s) (i : MutexId) :
    Logs (.call (.mutexUnlock i)) s (s.fiberMutexUnlock i) := by
  by_cases hh : (s.mutex i).holder = some s.currentTask
  · by_cases hr : (s.mutex i).reentries = 1
    · cases hq : (s.mutex i).waitq with
      | nil =>
        rw [fiberMutexUnlock_nil hh hr hq]
        exact .call _ _ [] rfl rfl rfl (by simp)
      | cons w rest =>
        obtain ⟨c, hw, hc, -⟩ := (h.stand w).waits_of_queue (k := .mutex i) (by simp)
          (by simp [chain, hq])
        rw [fiberMutexUnlock_cons hh hr hq hw hc]
        exact .call _ _ [.grant w c (.bool true)] rfl rfl rfl (by simp [plain])
    · rw [fiberMutexUnlock_nested hh hr]
      exact .call _ _ [] rfl rfl rfl (by simp)
  · rw [fiberMutexUnlock_other hh]
    exact .call _ _ [] rfl rfl rfl (by simp)

theorem Inv.logs_semPost (h : Inv b s) (i : SemId) :
    Logs (.call (.semPost i)) s (s.fiberSemPost i) := by
  cases hq : (s.sem i).waitq with
  | nil =>
    rw [fiberSemPost_nil hq]
    exact .call _ _ [.unit s.currentTask i] rfl rfl rfl (by simp [plain])
  | cons w rest =>
    obtain ⟨c, hw, hc, -⟩ := (h.stand w).waits_of_queue (k := .sem i) (by simp)
      (by simp [chain, hq])
    rw [fiberSemPost_cons h.idle hq hw hc]
    exact .call _ _ [.grant w c (.bool true), .unit s.currentTask i] rfl rfl rfl (by simp [plain])

theorem Inv.logs_condSignal (h : Inv b s) (i : CondId) :
    Logs (.call (.condSignal i)) s (s.fiberCondSignal i) := by
  cases hq : (s.cond i).waitq with
  | nil =>
    rw [fiberCondSignal_nil hq]
    exact .call _ _ [] rfl rfl rfl (by simp)
  | cons w rest =>
    obtain ⟨c, hw, hc⟩ := h.waits_of_cond (i := i) (u := w) (by simp [hq])
    rw [fiberCondSignal_cons h.idle hq hw hc]
    exact .call _ _ [.grant w c (.bool true)] rfl rfl rfl (by simp [plain])

theorem log_foldl_signalled (l : List TaskId) (s : Sched) :
    (l.foldl signalled s).currentTask = s.currentTask ∧
      ∃ es, (l.foldl signalled s).log = es ++ s.log ∧ ∀ e ∈ es, plain e = true := by
  induction l generalizing s with
  | nil => exact ⟨rfl, [], rfl, by simp⟩
  | cons w l ih =>
    obtain ⟨hcur, es, hlog, hes⟩ := ih (s.signalled w)
    rw [List.foldl_cons, hlog, hcur]
    unfold signalled
    split
    · next c _ =>
      refine ⟨rfl, es ++ [.grant w c (.bool true)], by simp [Sched.grant, Sched.wake], fun e he => ?_⟩
      rcases List.mem_append.1 he with he | he
      · exact hes e he
      · rw [List.mem_singleton.1 he]
        rfl
    · exact ⟨rfl, es, rfl, hes⟩

theorem Inv.logs_call (h : Inv b s) (hp : s.permittedCall c = true) (hs : s.call c = some s') :
    Logs (.call c) s s' := by
  have returned {r : Ret} {s₁ : Sched} (hs : some (s₁.ret s.currentTask c r) = some s')
      (hcur : s₁.currentTask = s.currentTask) (hlog : s₁.log = s.log) : Logs (.call c) s s' := by
    obtain rfl := Option.some.inj hs
    exact .call c r [] rfl hcur (congrArg _ hlog) (by simp)
  cases c with
  | create stackaddr stacksize env =>
    obtain rfl := Option.some.inj hs
    exact logs_create
  | yield code => exact logs_park ((fiberYield_eq h.idle code).symm.trans hs)
  | resume t =>
    obtain rfl := Option.some.inj hs
    obtain ⟨hl, ht⟩ := Bool.and_eq_true_iff.1 hp
    obtain ⟨code, hw, -⟩ := (h.stand t).waits_of_suspended ht (of_decide_eq_true hl)
    rw [fiberResume_eq hw]
    exact .call _ _ [.grant t _ _] rfl rfl rfl (by simp [plain])
  | schedYield =>
    exact logs_yielded (fun c hc => (Move.call.inj hc).symm)
      ((fiberSchedYield_eq h.idle).symm.trans hs)
  | usleep usec => exact logs_park ((fiberUsleep_eq h.idle usec).symm.trans hs)
  | eventWait events options timeout =>
    have hs := (fiberEventWait_eq h.idle events options timeout).symm.trans hs
    split at hs
    · obtain rfl := Option.some.inj hs
      exact .call _ _ [.seize s.currentTask _] rfl rfl rfl (by simp [plain])
    · split at hs
      · exact returned hs rfl rfl
      · exact logs_park hs
  | eventPost t events =>
    obtain rfl := Option.some.inj hs
    have hl : t ∈ s.live := of_decide_eq_true hp
    obtain ⟨hcur, es, hlog, hes⟩ := h.log_eventPost hl
    exact .post t events es rfl hcur hlog fun e he => (hes e he).1
  | mutexInit k => exact returned hs rfl rfl
  | mutexLock k =>
    have hs := (fiberMutexLock_eq h.idle k).symm.trans hs
    split at hs
    · exact returned hs rfl rfl
    · split at hs
      · exact returned hs rfl rfl
      · exact logs_park hs
  | mutexUnlock k =>
    obtain rfl := Option.some.inj hs
    exact h.logs_mutexUnlock k
  | semInit k v => exact returned hs rfl rfl
  | semWait k =>
    have hs := (fiberSemWait_eq h.idle k).symm.trans hs
    split at hs
    · exact returned hs rfl rfl
    · exact logs_park hs
  | semTimedwait k timeout =>
    have hs := (fiberSemTimedwait_eq h.idle k timeout).symm.trans hs
    split at hs
    · exact returned hs rfl rfl
    · split at hs
      · exact returned hs rfl rfl
      · exact logs_park hs
  | semPost k =>
    obtain rfl := Option.some.inj hs
    exact h.logs_semPost k
  | condInit k => exact returned hs rfl rfl
  | condWait k => exact logs_park ((fiberCondWait_eq h.idle k).symm.trans hs)
  | condTimedwait k timeout =>
    have hs := (fiberCondTimedwait_eq h.idle k timeout).symm.trans hs
    split at hs
    · exact returned hs rfl rfl
    · exact logs_park hs
  | condSignal k =>
    obtain rfl := Option.some.inj hs
    exact h.logs_condSignal k
  | condBroadcast k =>
    obtain rfl := Option.some.inj hs
    rw [fiberCondBroadcast_eq h.idle (h.distinct (.cond k)) fun u hu => h.waits_of_cond hu]
    obtain ⟨hcur, es, hlog, hes⟩ := log_foldl_signalled (s.cond k).waitq s
    exact .call (.condBroadcast k) (.bool true) es rfl hcur (congrArg _ hlog) hes
  | setLocaldata t index data =>
    obtain rfl := Option.some.inj hs
    unfold fiberSetLocaldata
    dsimp only
    split
    · exact .call _ _ [] rfl rfl rfl (by simp)
    · exact .call _ _ [] rfl rfl rfl (by simp)
  | getLocaldata t index => exact returned hs rfl rfl

/-! ## The other moves -/

theorem log_emitFor (e : Call → Ev) (he : ∀ c, passive (e c) = true) :
    ∃ es, (s.emitFor w e).log = es ++ s.log ∧ ∀ e ∈ es, passive e = true := by
  unfold emitFor
  split
  · next c _ => exact ⟨[e c], rfl, by simpa using he c⟩
  · exact ⟨[], rfl, by simp⟩

theorem log_tickleExpired : ∃ es, (s.tickleExpired w).log = es ++ s.log ∧
    ∀ e ∈ es, passive e = true := by
  unfold tickleExpired
  dsimp only
  split
  · exact log_emitFor _ fun _ => rfl
  · split
    · exact log_emitFor _ fun _ => rfl
    · split
      · exact log_emitFor _ fun _ => rfl
      · exact ⟨[], rfl, by simp⟩

theorem log_tickleLoop (gap : Int32) (l : List TaskId) (s : Sched) :
    ∃ es, (tickleLoop gap l s).log = es ++ s.log ∧ ∀ e ∈ es, passive e = true := by
  induction l generalizing s with
  | nil => exact ⟨[], rfl, by simp⟩
  | cons w l ih =>
    rw [tickleLoop]
    split
    · obtain ⟨es₁, h₁, hes₁⟩ := log_tickleExpired (s := s) (w := w)
      obtain ⟨es, hlog, hes⟩ := ih (s.tickleExpired w)
      refine ⟨es ++ es₁, by rw [hlog, h₁, List.append_assoc], fun e he => ?_⟩
      exact (List.mem_append.1 he).elim (hes e) (hes₁ e)
    · exact ⟨[], rfl, by simp⟩

theorem log_schedulerPass : ∃ es, s.schedulerPass.log = es ++ s.log ∧
    ∀ e ∈ es, passive e = true := by
  unfold schedulerPass
  dsimp only
  split
  · exact log_tickleLoop (toInt (s.utime - s.prevStmp)) s.wadoglist s
  · exact ⟨[], rfl, by simp⟩

theorem log_cppTaskmain : ∃ rs, s.cppTaskmain.log = rs ++ .exited s.currentTask :: s.log ∧
    ReturnsTo s.cppTaskmain.currentTask rs := by
  unfold cppTaskmain
  dsimp only
  obtain ⟨rs, hlog, hrs⟩ := log_arrive_eq (s := _)
  refine ⟨rs, hlog.trans (congrArg (rs ++ ·) ?_), hrs⟩
  split <;> rfl

/-- **What a move logs.** -/
theorem Inv.logs_step (h : Inv b s) (hs : s.step m = some s') : Logs m s s' := by
  have silent {m : Move} (hm : ∀ c, m = .call c → c = .schedYield) (hlog : s'.log = s.log) :
      Logs m s s' := .other [] [] hm hlog (.inl rfl) (by simp)
  unfold Sched.step at hs
  split at hs
  case isFalse => cases hs
  case isTrue hp =>
    cases m with
    | call c => exact h.logs_call (Bool.and_eq_true_iff.1 hp).1 hs
    | exit =>
      obtain rfl := Option.some.inj hs
      obtain ⟨rs, hlog, hrs⟩ := log_cppTaskmain (s := s)
      exact .other rs [.exited s.currentTask] (by simp) hlog hrs (by simp [passive])
    | schedulerPass =>
      obtain rfl := Option.some.inj hs
      obtain ⟨es, hlog, hes⟩ := log_schedulerPass (s := s)
      exact .other [] es (by simp) hlog (.inl rfl) hes
    | schedulerExhaust =>
      rw [exec, schedulerExhaust] at hs
      split at hs
      · exact logs_yielded (by simp) ((fiberSchedYield_eq h.idle).symm.trans hs)
      · obtain rfl := Option.some.inj hs
        exact silent (by simp) rfl
    | elapse =>
      obtain rfl := Option.some.inj hs
      exact silent (by simp) rfl
    | schedulerStart =>
      obtain rfl := Option.some.inj hs
      exact silent (by simp) rfl
    | schedulerLoopEnd =>
      obtain rfl := Option.some.inj hs
      exact silent (by simp) rfl

end Ptask.OneN.Sched
