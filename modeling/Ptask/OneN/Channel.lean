import Ptask.OneN.Timing

/-!
# Yield and resume

What a task passes to `fiber_yield` travels to `fiber_resume` in the field in which the timed waits
find their results. It arrives, in order and once, because nobody writes the field while its task is
suspended: a suspended task is in no queue, and only a resume ends its wait.
-/

namespace Ptask.OneN

open Ptask.Lib

/-! ## Codes in a log -/

/-- The code that `t` passes to `fiber_yield`. -/
def Ev.yieldCode (t : TaskId) : Ev → Option (BitVec 64)
  | .park u (.yield code) _ => if u = t then some code else none
  | _ => none

/-- The code that `fiber_resume` of `t` returns. -/
def Ev.resumeCode (t : TaskId) : Ev → Option (BitVec 64)
  | .ret _ (.resume u) (.word code) => if u = t then some code else none
  | _ => none

/-- The codes that `t` has passed to `fiber_yield`, in the order of the calls. -/
def yieldCodes (t : TaskId) (log : List Ev) : List (BitVec 64) :=
  (log.filterMap (Ev.yieldCode t)).reverse

/-- What the calls of `fiber_resume` on `t` have returned, in the order of the calls. -/
def resumeCodes (t : TaskId) (log : List Ev) : List (BitVec 64) :=
  (log.filterMap (Ev.resumeCode t)).reverse

/-- The event is the start of a yield, or the return of a resume. -/
def Ev.handsOver : Ev → Bool
  | .park _ (.yield _) _ => true
  | .ret _ (.resume _) (.word _) => true
  | _ => false

/-- The move is a yield or a resume. -/
def Move.handsOver : Move → Bool
  | .call (.yield _) => true
  | .call (.resume _) => true
  | _ => false

section

variable {t : TaskId} {e : Ev} {es log : List Ev} {code : BitVec 64}

theorem yieldCode_park (t : TaskId) (code : BitVec 64) (now : Nat) :
    (Ev.park t (.yield code) now).yieldCode t = some code :=
  if_pos rfl

theorem resumeCode_ret (u t : TaskId) (code : BitVec 64) :
    (Ev.ret u (.resume t) (.word code)).resumeCode t = some code :=
  if_pos rfl

theorem yieldCode_of_handsOver (h : e.handsOver = false) : e.yieldCode t = none := by
  unfold Ev.yieldCode
  split
  · cases h
  · rfl

theorem resumeCode_of_handsOver (h : e.handsOver = false) : e.resumeCode t = none := by
  unfold Ev.resumeCode
  split
  · cases h
  · rfl

theorem yieldCodes_append (h : ∀ e ∈ es, e.handsOver = false) :
    yieldCodes t (es ++ log) = yieldCodes t log := by
  have hes := List.filterMap_eq_nil_iff.2 fun e he => yieldCode_of_handsOver (t := t) (h e he)
  rw [yieldCodes, List.filterMap_append, hes]
  rfl

theorem resumeCodes_append (h : ∀ e ∈ es, e.handsOver = false) :
    resumeCodes t (es ++ log) = resumeCodes t log := by
  have hes := List.filterMap_eq_nil_iff.2 fun e he => resumeCode_of_handsOver (t := t) (h e he)
  rw [resumeCodes, List.filterMap_append, hes]
  rfl

theorem yieldCodes_cons (h : e.yieldCode t = none) : yieldCodes t (e :: log) = yieldCodes t log := by
  rw [yieldCodes, List.filterMap_cons_none h]
  rfl

theorem resumeCodes_cons (h : e.resumeCode t = none) :
    resumeCodes t (e :: log) = resumeCodes t log := by
  rw [resumeCodes, List.filterMap_cons_none h]
  rfl

theorem yieldCodes_cons_some (h : e.yieldCode t = some code) :
    yieldCodes t (e :: log) = yieldCodes t log ++ [code] := by
  rw [yieldCodes, List.filterMap_cons_some h, List.reverse_cons]
  rfl

theorem resumeCodes_cons_some (h : e.resumeCode t = some code) :
    resumeCodes t (e :: log) = resumeCodes t log ++ [code] := by
  rw [resumeCodes, List.filterMap_cons_some h, List.reverse_cons]
  rfl

/-- Only its own events show the codes that a task yields. -/
theorem yieldCode_task (h : e.task ≠ t) : e.yieldCode t = none := by
  unfold Ev.yieldCode
  split
  · exact if_neg h
  · rfl

theorem yieldCodes_evs : yieldCodes t (evs t log) = yieldCodes t log := by
  induction log with
  | nil => rfl
  | cons e log ih =>
    by_cases he : e.task = t
    · rw [evs_cons_of_eq he, yieldCodes, yieldCodes, List.filterMap_cons, List.filterMap_cons,
        List.reverse_inj.1 ih]
    · rw [evs_cons_of_ne he, ih, yieldCodes_cons (yieldCode_task he)]

/-- The code of the last wait of a task, when this is a yield, is the last one. -/
theorem yieldCodes_of_lastPark {start : Nat} (hlog : ∀ e ∈ log, e.task = t)
    (h : lastPark log = some (.yield code, start)) : ∃ l, yieldCodes t log = l ++ [code] := by
  induction log with
  | nil => cases h
  | cons e log ih =>
    obtain ⟨he, hrest⟩ := List.forall_mem_cons.1 hlog
    cases e with
    | park u c now =>
      obtain ⟨rfl, -⟩ : c = .yield code ∧ now = start := by simpa [lastPark] using h
      exact ⟨_, yieldCodes_cons_some (if_pos he)⟩
    | _ =>
      obtain ⟨l, hl⟩ := ih hrest h
      exact ⟨l, by rw [← hl]; exact yieldCodes_cons rfl⟩

/-- The last code that a task has yielded is that of the yield it is in. -/
theorem yieldCodes_of_parked (h : phase t log = some (.parked (.yield code))) :
    ∃ l, yieldCodes t log = l ++ [code] := by
  obtain ⟨start, hp⟩ := lastPark_of_parked h
  obtain ⟨l, hl⟩ := yieldCodes_of_lastPark (fun e he => by simpa using (List.mem_filter.1 he).2) hp
  exact ⟨l, yieldCodes_evs.symm.trans hl⟩

end

namespace Sched

variable {b : Boot} {m : Move} {s s' : Sched} {t u w : TaskId} {c : Call} {l : List TaskId}

/-! ## Who is suspended -/

/-- The bit `STATES_SUSPENDED` of every task. -/
def suspended (s : Sched) (t : TaskId) : Bool := (s.tcb t).state.suspended

theorem suspended_of_tcb (h : s'.tcb = s.tcb) : s'.suspended = s.suspended := by
  unfold suspended
  rw [h]

theorem suspended_modTcb {f : FibTCB → FibTCB}
    (hf : (f (s.tcb w)).state.suspended = (s.tcb w).state.suspended) :
    (s.modTcb w f).suspended = s.suspended := by
  funext t
  by_cases ht : t = w
  · subst ht
    simpa [suspended, modTcb] using hf
  · simp [suspended, modTcb, ht]

theorem suspended_modState {f : States → States}
    (hf : (f (s.tcb w).state).suspended = (s.tcb w).state.suspended) :
    (s.modState w f).suspended = s.suspended :=
  suspended_modTcb hf

theorem suspended_emitFor (e : Call → Ev) : (s.emitFor w e).suspended = s.suspended := by
  unfold emitFor
  split <;> rfl

theorem suspended_arrive : s.arrive.suspended = s.suspended := by
  rcases arrive_eq (s := s) with h | ⟨c, -, h⟩ <;> rw [h]
  exact suspended_modTcb (s := s) (f := fun x => { x with frame := none }) rfl

theorem suspended_schedule (h : s.schedule = some s') : s'.suspended = s.suspended := by
  obtain ⟨σ, h1, rfl⟩ := Option.map_eq_some_iff.1 h
  have hσ : σ.tcb = s.tcb := by
    unfold fiberSched at h1
    split at h1
    · cases h1
    · split at h1 <;> cases h1
      · rfl
      · dsimp only
        split <;> rfl
  exact suspended_arrive.trans (suspended_of_tcb hσ)

theorem suspended_fiberWatchdogInsert : (s.fiberWatchdogInsert w).suspended = s.suspended := by
  unfold fiberWatchdogInsert
  split
  · rfl
  · exact suspended_modState rfl

theorem suspended_fiberWatchdogRemove : (s.fiberWatchdogRemove w).suspended = s.suspended := by
  unfold fiberWatchdogRemove
  split
  · refine (suspended_modState rfl).trans ?_
    cases nextOf w s.wadoglist <;> rfl
  · rfl

theorem suspended_armTimeout {timeout : Int32} :
    (s.armTimeout w timeout).suspended = s.suspended := by
  unfold armTimeout
  split
  · exact (suspended_modState rfl).trans suspended_fiberWatchdogInsert
  · rfl

theorem suspended_readyWaiter : (s.readyWaiter w u).suspended = s.suspended := by
  unfold readyWaiter
  dsimp only
  split
  · exact suspended_fiberWatchdogRemove
  · rfl

theorem suspended_park : (s.park w c).suspended = s.suspended :=
  suspended_modTcb (s := s) (f := fun x => { x with frame := c }) rfl

theorem suspended_enter : (s.enter w c).suspended = s.suspended :=
  suspended_modTcb (s := s) (f := fun x => { x with frame := c }) rfl

theorem suspended_emit (e : Ev) : (s.emit e).suspended = s.suspended := rfl

theorem suspended_ret (r : Ret) : (s.ret w c r).suspended = s.suspended := rfl

theorem suspended_unlink : (s.unlink w).suspended = s.suspended := rfl

theorem suspended_insertBefore :
    (s.localReadyQProtectedInsertBefore u w).suspended = s.suspended := rfl

theorem suspended_modMutex (i : MutexId) (f : FibMutex → FibMutex) :
    (s.modMutex i f).suspended = s.suspended := rfl

theorem suspended_modSem (i : SemId) (f : FibSemaphore → FibSemaphore) :
    (s.modSem i f).suspended = s.suspended := rfl

theorem suspended_modCond (i : CondId) (f : FibCondition → FibCondition) :
    (s.modCond i f).suspended = s.suspended := rfl

theorem suspended_broadcastCollect : (s.broadcastCollect w).suspended = s.suspended := by
  unfold broadcastCollect
  exact (suspended_emitFor _).trans (suspended_modTcb rfl)

theorem suspended_foldl {f : Sched → TaskId → Sched}
    (hf : ∀ s t, (f s t).suspended = s.suspended) : (l.foldl f s).suspended = s.suspended := by
  induction l generalizing s with
  | nil => rfl
  | cons t l ih => exact ih.trans (hf s t)

attribute [local simp] suspended_modTcb suspended_modState suspended_emitFor
  suspended_fiberWatchdogInsert suspended_armTimeout suspended_readyWaiter suspended_park
  suspended_enter suspended_emit suspended_ret suspended_unlink suspended_insertBefore
  suspended_modMutex suspended_modSem suspended_modCond localReadyQProtectedExtract

/-- The calls that write the bit. -/
def Call.suspends : Call → Bool
  | .create .. | .yield _ | .resume _ => true
  | _ => false

theorem suspended_call (hc : Call.suspends c = false) (hs : s.call c = some s') :
    s'.suspended = s.suspended := by
  cases c with
  | create => cases hc
  | yield => cases hc
  | resume => cases hc
  | schedYield =>
    refine (suspended_schedule hs).trans ?_
    split
    · exact suspended_enter (s := s)
    · simp
  | usleep usec =>
    refine (suspended_schedule hs).trans ?_
    simp only [suspended_modState, suspended_fiberWatchdogInsert, suspended_unlink,
      localReadyQProtectedExtract]
    exact suspended_park (s := s)
  | eventWait events options timeout =>
    simp only [call, fiberEventWait] at hs
    split at hs
    · obtain rfl := Option.some.inj hs
      simp
    · split at hs
      · obtain rfl := Option.some.inj hs
        rfl
      · refine (suspended_schedule hs).trans ?_
        simp
  | eventPost t events =>
    obtain rfl := Option.some.inj hs
    unfold fiberEventPost
    dsimp only
    split
    · split <;> simp
    · simp
  | mutexInit i =>
    obtain rfl := Option.some.inj hs
    rfl
  | mutexLock i =>
    simp only [call, fiberMutexLock] at hs
    split at hs
    · obtain rfl := Option.some.inj hs
      rfl
    · split at hs
      · obtain rfl := Option.some.inj hs
        rfl
      · refine (suspended_schedule hs).trans ?_
        simp
  | mutexUnlock i =>
    obtain rfl := Option.some.inj hs
    unfold fiberMutexUnlock
    dsimp only
    split
    · rfl
    · split
      · rfl
      · split <;> simp
  | semInit i v =>
    obtain rfl := Option.some.inj hs
    rfl
  | semWait i =>
    simp only [call, fiberSemWait] at hs
    split at hs
    · obtain rfl := Option.some.inj hs
      rfl
    · refine (suspended_schedule hs).trans ?_
      simp
  | semTimedwait i timeout =>
    simp only [call, fiberSemTimedwait] at hs
    split at hs
    · obtain rfl := Option.some.inj hs
      rfl
    · split at hs
      · obtain rfl := Option.some.inj hs
        rfl
      · refine (suspended_schedule hs).trans ?_
        simp
  | semPost i =>
    obtain rfl := Option.some.inj hs
    unfold fiberSemPost
    dsimp only
    split <;> simp
  | condInit i =>
    obtain rfl := Option.some.inj hs
    rfl
  | condWait i =>
    refine (suspended_schedule hs).trans ?_
    simp
  | condTimedwait i timeout =>
    simp only [call, fiberCondTimedwait] at hs
    split at hs
    · obtain rfl := Option.some.inj hs
      rfl
    · refine (suspended_schedule hs).trans ?_
      simp
  | condSignal i =>
    obtain rfl := Option.some.inj hs
    unfold fiberCondSignal
    dsimp only
    split <;> simp
  | condBroadcast i =>
    obtain rfl := Option.some.inj hs
    have hcollect (s t) : (broadcastCollect s t).suspended = s.suspended :=
      suspended_broadcastCollect
    have hready (u : TaskId) (s : Sched) (t : TaskId) :
        (s.readyWaiter (s.tcb u).scheduler t).suspended = s.suspended := suspended_readyWaiter
    exact (suspended_foldl (hready s.currentTask)).trans (suspended_foldl hcollect)
  | setLocaldata t index data =>
    obtain rfl := Option.some.inj hs
    unfold fiberSetLocaldata
    dsimp only
    split <;> simp
  | getLocaldata t index =>
    obtain rfl := Option.some.inj hs
    rfl

theorem suspended_tickleExpired : (s.tickleExpired w).suspended = s.suspended := by
  unfold tickleExpired
  dsimp only
  split
  · simp only [suspended_emitFor, suspended_insertBefore, suspended_unlink, suspended_modState]
    rfl
  · split
    · simp only [suspended_emitFor, suspended_insertBefore, suspended_modState]
      rfl
    · split
      · simp only [suspended_emitFor, suspended_insertBefore, suspended_modState]
        rfl
      · exact suspended_modState rfl

theorem suspended_tickleLoop {gap : Int32} : (tickleLoop gap l s).suspended = s.suspended := by
  induction l generalizing s with
  | nil => rfl
  | cons w l ih =>
    rw [tickleLoop]
    split
    · exact ih.trans suspended_tickleExpired
    · rfl

/-- **Only a creation, a yield and a resume write `STATES_SUSPENDED`.** -/
theorem suspended_step (hm : ∀ c, m = .call c → Call.suspends c = false) (hs : s.step m = some s') :
    s'.suspended = s.suspended := by
  unfold step at hs
  split at hs
  case isFalse => cases hs
  cases m with
  | call c => exact suspended_call (hm c rfl) hs
  | exit =>
    obtain rfl := Option.some.inj hs
    refine suspended_arrive.trans (suspended_of_tcb ?_)
    dsimp only
    split <;> rfl
  | elapse us =>
    obtain rfl := Option.some.inj hs
    rfl
  | schedulerStart =>
    obtain rfl := Option.some.inj hs
    rfl
  | schedulerPass =>
    obtain rfl := Option.some.inj hs
    unfold schedulerPass
    dsimp only
    split
    · exact suspended_tickleLoop (s := s)
    · rfl
  | schedulerExhaust =>
    rw [exec, schedulerExhaust] at hs
    split at hs
    · exact suspended_call (c := .schedYield) rfl hs
    · obtain rfl := Option.some.inj hs
      rfl
  | schedulerLoopEnd =>
    obtain rfl := Option.some.inj hs
    rfl

/-- A creation does not touch the control block of a live task. -/
theorem Inv.tcb_create (h : Inv b s) (stackaddr : Addr) (stacksize : BitVec 32) {env : AllocEnv}
    (hfresh : env.malloc.all s.freshTcbs = true) :
    ((s.fiberCreate stackaddr stacksize env).live = s.live ∧
      ∀ t ∈ s.live, (s.fiberCreate stackaddr stacksize env).tcb t = s.tcb t) ∨
    ∃ w, (s.fiberCreate stackaddr stacksize env).live = w :: s.live ∧
      ((s.fiberCreate stackaddr stacksize env).tcb w).state = {} ∧
      ∀ t ∈ s.live, (s.fiberCreate stackaddr stacksize env).tcb t = s.tcb t := by
  rcases ha : s.pool.alloc env.malloc with ⟨_ | w, p⟩
  · left
    simp [fiberCreate, ha, Sched.ret, Sched.emit]
  · obtain ⟨hl, -⟩ := alloc_spec h.pool hfresh ha
    have hne : w ≠ s.theMaintask := fun e => hl (by
      obtain ⟨l, hr⟩ := h.ready
      exact e ▸ (h.stand _).live_of_ready (by simp [chain, hr]))
    have hold (t : TaskId) (ht : t ∈ s.live) : t ≠ w := fun e => hl (e ▸ ht)
    rw [fiberCreate_eq ha hne rfl]
    split
    · left
      exact ⟨rfl, fun t ht => Function.update_of_ne (hold t ht) _ _⟩
    · right
      exact ⟨w, rfl, by simp [Sched.ret, Sched.emit, Sched.spawn, newTcb],
        fun t ht => Function.update_of_ne (hold t ht) _ _⟩

/-! ## The codes between two moves -/

theorem log_arrive_handsOver :
    ∃ es, s.arrive.log = es ++ s.log ∧ ∀ e ∈ es, Ev.handsOver e = false := by
  rcases arrive_eq (s := s) with h | ⟨c, -, h⟩
  · exact ⟨[], by rw [h]; rfl, List.forall_mem_nil _⟩
  · refine ⟨[_], by rw [h]; rfl, List.forall_mem_singleton.2 ?_⟩
    cases c <;> rfl

theorem log_schedule_handsOver (h : s.schedule = some s') :
    ∃ es, s'.log = es ++ s.log ∧ ∀ e ∈ es, Ev.handsOver e = false := by
  obtain ⟨σ, h1, rfl⟩ := Option.map_eq_some_iff.1 h
  have hσ : σ.log = s.log := by
    unfold fiberSched at h1
    split at h1
    · cases h1
    · split at h1 <;> cases h1
      · rfl
      · dsimp only
        split <;> rfl
  exact hσ ▸ log_arrive_handsOver

/-- A transition of another move adds no code to the log. -/
theorem Tr.handsOver (h : Tr m s s') (hm : m.handsOver = false) :
    ∃ es, s'.log = es ++ s.log ∧ ∀ e ∈ es, Ev.handsOver e = false := by
  cases h with
  | quiet _ h => exact ⟨[], h.log, List.forall_mem_nil _⟩
  | localdata => exact ⟨[], rfl, List.forall_mem_nil _⟩
  | scrap => exact ⟨[], rfl, List.forall_mem_nil _⟩
  | spawn => exact ⟨[_], rfl, List.forall_mem_singleton.2 rfl⟩
  | exit =>
    obtain ⟨es, he, hes⟩ := log_arrive_handsOver (s := { s.bury with currentTask := s.theMaintask })
    refine ⟨es ++ [.exited s.currentTask], ?_, fun e hm => ?_⟩
    · rw [List.append_assoc]
      exact he
    · rcases List.mem_append.1 hm with hm | hm
      · exact hes e hm
      · rw [List.mem_singleton.1 hm]
        rfl
  | ret c r hc =>
    refine ⟨[_], rfl, List.forall_mem_singleton.2 ?_⟩
    subst hc
    cases c with
    | resume => cases hm
    | _ => rfl
  | semInit => exact ⟨[_], rfl, List.forall_mem_singleton.2 rfl⟩
  | take i c hc =>
    refine ⟨[_], rfl, List.forall_mem_singleton.2 ?_⟩
    cases c with
    | resume => cases hc
    | _ => rfl
  | unit => exact ⟨[_], rfl, List.forall_mem_singleton.2 rfl⟩
  | unitGrant => exact ⟨[_, _], rfl, by simp [Ev.handsOver]⟩
  | grant => exact ⟨[_], rfl, List.forall_mem_singleton.2 rfl⟩
  | expire => exact ⟨[_], rfl, List.forall_mem_singleton.2 rfl⟩
  | took => exact ⟨[_, _], rfl, by simp [Ev.handsOver]⟩
  | posted => exact ⟨[_], rfl, List.forall_mem_singleton.2 rfl⟩
  | eventGrant => exact ⟨[_, _, _], rfl, by simp [Ev.handsOver]⟩
  | park c x _ hc _ _ _ _ _ hs =>
    obtain ⟨es, he, hes⟩ := log_schedule_handsOver hs
    refine ⟨es ++ [.park s.currentTask c s.clock], by rw [he, List.append_assoc]; rfl, ?_⟩
    intro e hm'
    rcases List.mem_append.1 hm' with hm' | hm'
    · exact hes e hm'
    · rw [List.mem_singleton.1 hm']
      subst hc
      cases c with
      | yield => cases hm
      | _ => rfl
  | schedYield _ _ hs => exact log_schedule_handsOver (s := s.yielded) hs

theorem Trs.handsOver (h : Trs m s s') (hm : m.handsOver = false) :
    ∃ es, s'.log = es ++ s.log ∧ ∀ e ∈ es, Ev.handsOver e = false := by
  induction h with
  | refl => exact ⟨[], rfl, List.forall_mem_nil _⟩
  | tail _ hl ih =>
    obtain ⟨es, he, hes⟩ := ih
    obtain ⟨es', he', hes'⟩ := hl.handsOver hm
    refine ⟨es' ++ es, by rw [he', he, List.append_assoc], fun e hm => ?_⟩
    rcases List.mem_append.1 hm with hm | hm
    · exact hes' e hm
    · exact hes e hm

/-! ## The channel -/

/-- `t` has yielded and has not been resumed yet. -/
def outstanding (s : Sched) (t : TaskId) : Bool := t ∈ s.live && s.suspended t

/-- Every code that has been yielded has been received, except that of the yield that `t` is in. -/
def Balanced (s : Sched) (t : TaskId) : Prop :=
  if s.outstanding t then ∃ code, yieldCodes t s.log = resumeCodes t s.log ++ [code]
  else yieldCodes t s.log = resumeCodes t s.log

theorem Balanced.congr (h : Balanced s t) (ho : s'.outstanding t = s.outstanding t)
    (hy : yieldCodes t s'.log = yieldCodes t s.log)
    (hr : resumeCodes t s'.log = resumeCodes t s.log) : Balanced s' t := by
  unfold Balanced at *
  rw [ho, hy, hr]
  exact h

theorem Inv.not_outstanding (h : Inv b s) : s.outstanding s.currentTask = false := by
  simp [outstanding, suspended, h.idle.state]

theorem outstanding_congr (hl : s'.live = s.live) (hs : s'.suspended = s.suspended) :
    s'.outstanding t = s.outstanding t := by
  rw [outstanding, outstanding, hl, hs]

/-- A creation neither starts nor ends a yield. -/
theorem Inv.outstanding_create (h : Inv b s) {stackaddr : Addr} {stacksize : BitVec 32}
    {env : AllocEnv} (hfresh : env.malloc.all s.freshTcbs = true) :
    (s.fiberCreate stackaddr stacksize env).outstanding t = s.outstanding t := by
  rcases h.tcb_create stackaddr stacksize hfresh with
    ⟨hl, ht⟩ | ⟨w, hl, hst, ht⟩
  · by_cases hm : t ∈ s.live
    · simp [outstanding, suspended, hl, ht t hm]
    · simp [outstanding, hl, hm]
  · by_cases hm : t ∈ s.live
    · simp [outstanding, suspended, hl, hm, ht t hm]
    · by_cases htw : t = w
      · subst htw
        simp [outstanding, suspended, hst, hm]
      · simp [outstanding, hl, hm, htw]

/-- A task that ends has no yield that waits. -/
theorem Inv.outstanding_exit (h : Inv b s) : s.cppTaskmain.outstanding t = s.outstanding t := by
  rw [cppTaskmain_eq h.idle]
  have hlive : ({ ({ s with cache := s.exitCache } : Sched).bury with
      currentTask := s.theMaintask } : Sched).arrive.live = s.live.erase s.currentTask := live_arrive
  have hsus : ({ ({ s with cache := s.exitCache } : Sched).bury with
      currentTask := s.theMaintask } : Sched).arrive.suspended = s.suspended := suspended_arrive
  rw [outstanding, hlive, hsus]
  by_cases ht : t = s.currentTask
  · subst ht
    rw [h.not_outstanding]
    simp [h.lives.mem_erase_iff]
  · simp [outstanding, List.mem_erase_of_ne ht]

/-- Only a yield starts the wait for a resume, and only a resume ends it. -/
theorem Inv.outstanding_step (h : Inv b s) (hm : m.handsOver = false) (hs : s.step m = some s') :
    s'.outstanding t = s.outstanding t := by
  have htrs := h.trs_step hs
  by_cases hu : usesStack m = true
  · unfold Sched.step at hs
    split at hs
    case isFalse => cases hs
    case isTrue hp =>
      cases m with
      | call c =>
        cases c with
        | create stackaddr stacksize env =>
          obtain rfl := Option.some.inj hs
          have hp := (Bool.and_eq_true_iff.1 hp).1
          exact h.outstanding_create (Bool.and_eq_true_iff.1 hp).1
        | _ => cases hu
      | exit =>
        obtain rfl := Option.some.inj hs
        exact h.outstanding_exit
      | _ => cases hu
  · have hu : usesStack m = false := by simpa using hu
    refine outstanding_congr (htrs.members.2 hu) (suspended_step (fun c hc => ?_) hs)
    subst hc
    cases c with
    | create => cases hu
    | yield => cases hm
    | resume => cases hm
    | _ => rfl

/-- A yield puts its code into the channel. -/
theorem Inv.balanced_yield (h : Inv b s) {code : BitVec 64} (hb : Balanced s t)
    (hs : s.fiberYield code = some s') : Balanced s' t := by
  rw [fiberYield_eq h.idle] at hs
  obtain ⟨es, hlog, hes⟩ := log_schedule_handsOver hs
  have hlive : s'.live = s.live := (members_schedule hs).2.trans (live_suspend _)
  have hsus := suspended_schedule hs
  unfold Balanced
  rw [hlog, yieldCodes_append hes, resumeCodes_append hes]
  by_cases ht : t = s.currentTask
  · subst ht
    have hout : s'.outstanding s.currentTask = true := by
      rw [outstanding, hlive, hsus]
      simp [suspended, h.live, Sched.suspend, Call.waitStates]
    have heq : yieldCodes s.currentTask s.log = resumeCodes s.currentTask s.log := by
      simpa [Balanced, h.not_outstanding] using hb
    rw [if_pos hout]
    refine ⟨code, (yieldCodes_cons_some (yieldCode_park _ _ _)).trans ?_⟩
    rw [heq]
    exact congrArg (· ++ [code])
      (resumeCodes_cons (e := .park s.currentTask (.yield code) s.clock) rfl).symm
  · have hout : s'.outstanding t = s.outstanding t := by
      rw [outstanding, hlive, hsus]
      simp [outstanding, suspended, Sched.suspend, ht]
    have hy : yieldCodes t (s.suspend (.yield code)
        { s.tcb s.currentTask with yieldCode := code }).log = yieldCodes t s.log :=
      yieldCodes_cons (if_neg (Ne.symm ht))
    have hr : resumeCodes t (s.suspend (.yield code)
        { s.tcb s.currentTask with yieldCode := code }).log = resumeCodes t s.log :=
      resumeCodes_cons rfl
    rw [hout, hy, hr]
    exact hb

/-- A resume takes the code of the yield out of the channel. -/
theorem Inv.balanced_resume (h : Inv b s) (hl : w ∈ s.live) (hw : (s.tcb w).state.suspended = true)
    (hb : Balanced s t) : Balanced (s.fiberResume w) t := by
  obtain ⟨code, hwait, hcode, hph⟩ := (h.stand w).waits_of_suspended hw hl
  obtain ⟨l, hlast⟩ := yieldCodes_of_parked hph
  rw [fiberResume_eq hwait, hcode]
  have hy : yieldCodes t ((s.grant w (s.tcb w) [.grant w (.yield code) (.task (some w))]).ret
      s.currentTask (.resume w) (.word code)).log = yieldCodes t s.log :=
    (yieldCodes_cons rfl).trans (yieldCodes_cons rfl)
  by_cases ht : t = w
  · subst ht
    have hout : s.outstanding t = true := by simp [outstanding, suspended, hl, hw]
    have hout' : ((s.grant t (s.tcb t) [.grant t (.yield code) (.task (some t))]).ret
        s.currentTask (.resume t) (.word code)).outstanding t = false := by
      simp [outstanding, suspended, Sched.ret, Sched.emit, Sched.grant, Sched.wake]
    unfold Balanced at hb ⊢
    rw [if_pos hout] at hb
    obtain ⟨code', hb⟩ := hb
    -- the last code is the one that is still in the control block
    obtain rfl : code' = code := by
      have he := hb.symm.trans hlast
      exact (List.append_inj' he rfl).2 |> List.singleton_inj.1
    rw [hout', hy, hb]
    simp only [Bool.false_eq_true, if_false]
    refine Eq.symm ((resumeCodes_cons_some (resumeCode_ret _ _ _)).trans ?_)
    exact congrArg (· ++ [code'])
      (resumeCodes_cons (e := .grant t (.yield code') (.task (some t))) rfl)
  · have hr : (Ev.ret s.currentTask (.resume w) (.word code)).resumeCode t = none :=
      if_neg (Ne.symm ht)
    refine hb.congr ?_ hy ((resumeCodes_cons hr).trans (resumeCodes_cons rfl))
    simp only [outstanding, suspended, Sched.ret, Sched.emit, Sched.grant, Sched.wake, ne_eq, ht,
      not_false_eq_true, Function.update_of_ne]
    rfl

theorem Inv.balanced_step (h : Inv b s) (hb : Balanced s t) (hs : s.step m = some s') :
    Balanced s' t := by
  by_cases hm : m.handsOver = true
  · unfold Sched.step at hs
    split at hs
    case isFalse => cases hs
    case isTrue hp =>
      cases m with
      | call c =>
        cases c with
        | yield code => exact h.balanced_yield hb hs
        | resume w =>
          obtain rfl := Option.some.inj hs
          have hp := Bool.and_eq_true_iff.1 (Bool.and_eq_true_iff.1 hp).1
          exact h.balanced_resume (by simpa using hp.1) hp.2 hb
        | _ => cases hm
      | _ => cases hm
  · have hm : m.handsOver = false := by simpa using hm
    obtain ⟨es, hlog, hes⟩ := (h.trs_step hs).handsOver hm
    refine hb.congr (h.outstanding_step hm hs) ?_ ?_
    · rw [hlog]; exact yieldCodes_append hes
    · rw [hlog]; exact resumeCodes_append hes

end Sched

/-! ## Runs -/

theorem reachable_balanced {b : Boot} {s : Sched} (h : Reachable b s) (t : TaskId) :
    s.Balanced t := by
  refine h.invariant_of (I := Sched.Inv b) (P := fun s => s.Balanced t) (Sched.inv_boot b) ?_
    (fun s m s' hi _ hs => hi.step hs) fun s m s' hi hp _ hs => hi.balanced_step hp hs
  have hout : (boot b).outstanding t = false := by
    by_cases ht : t = b.maintask
    · subst ht
      simp [Sched.outstanding, Sched.suspended, boot, States.ready]
    · simp [Sched.outstanding, boot, ht]
  rw [Sched.Balanced, hout]
  rfl

/-- The channel from the yields of `t` to those who resume it loses nothing, repeats nothing and
delivers in order: the `k`-th resume has returned the code of the `k`-th yield, and all codes have
been received but that of a yield that nobody has resumed yet. -/
structure Lossless (s : Sched) (t : TaskId) : Prop where
  kth : ∀ (k : Nat) (code : BitVec 64), (resumeCodes t s.log)[k]? = some code →
    (yieldCodes t s.log)[k]? = some code
  complete : (yieldCodes t s.log).length =
    (resumeCodes t s.log).length + if s.outstanding t then 1 else 0

/-- **Yield and resume are a lossless channel.** -/
theorem reachable_lossless {b : Boot} {s : Sched} (h : Reachable b s) (t : TaskId) :
    Lossless s t := by
  have hb := reachable_balanced h t
  unfold Sched.Balanced at hb
  split at hb
  · next ho =>
    obtain ⟨code, hb⟩ := hb
    refine ⟨fun k c hk => ?_, by simp [hb, ho]⟩
    rw [hb, List.getElem?_append_left (List.getElem?_eq_some_iff.1 hk).1]
    exact hk
  · next ho => exact ⟨fun k c hk => by rw [hb]; exact hk, by simp [hb, ho]⟩

/-- The task 100 yields two codes and waits on a semaphore in between; the task 163 resumes it after
each yield and posts the semaphore. -/
def generatorRun : List Move :=
  newTasks 2 ++ [.schedulerStart, .schedulerPass, .schedulerExhaust, .call (.yield 7),
    .call (.resume 100), .call .schedYield, .call (.semTimedwait 0 10), .call (.semPost 0),
    .call .schedYield, .call (.yield 9), .call (.resume 100)]

set_option maxRecDepth 4000 in
theorem generatorRun_lossless : ∃ s, generatorRun.foldlM Sched.step (boot {}) = some s ∧
    resumeCodes 100 s.log = [7, 9] ∧ Lossless s 100 := by
  have hrun : ((generatorRun.foldlM Sched.step (boot {})).map fun s => resumeCodes 100 s.log) =
      some [7, 9] := by decide +kernel
  obtain ⟨s, hs, hc⟩ := Option.map_eq_some_iff.1 hrun
  exact ⟨s, hs, hc, reachable_lossless (Reach.of_foldlM hs) 100⟩

end Ptask.OneN
