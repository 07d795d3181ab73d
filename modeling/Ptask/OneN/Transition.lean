import Ptask.OneN.Step

/-!
# The scheduler behind the calls

Every call is made of a few transitions: the current task leaves the ready list to wait
(`suspend`), a waiting task is put back on it (`wake`), a call returns (`ret`), the next task is
switched to (`schedule`). This module states each function of the model in these terms, under the
facts about the tasks it touches that hold in every reachable state: the state word and the chains
of a task outside calls (`Idle`) and of a task that waits in a call (`Waits`).
-/

namespace Ptask.OneN.Sched

open Ptask.Lib

/-! ## Transitions -/

/-- The end of the wait queue that the call `c` uses; a semaphore's count is decremented. -/
def joinQueue (s : Sched) (t : TaskId) : Option Chain → Sched
  | some (.sem i) => s.modSem i fun p => { p with count := p.count - 1, waitq := p.waitq ++ [t] }
  | some (.cond i) => s.modCond i fun p => { p with waitq := p.waitq ++ [t] }
  | some (.mutex m) => s.modMutex m fun p => { p with waitq := p.waitq ++ [t] }
  | _ => s

/-- The current task starts to wait in the call `c`; `x` are the other fields of its control
block. -/
def suspend (s : Sched) (c : Call) (x : FibTCB) : Sched :=
  let t := s.currentTask
  let s' := (s.unlink t).joinQueue t c.waitChain
  let r := watchdogLoop t c.timeout s.wadoglist (Function.update s.delta t c.timeout)
  { s' with
    tcb := Function.update s.tcb t { x with frame := c, state := c.waitStates }
    wadoglist := if c.timed then r.1 else s.wadoglist
    delta := if c.timed then r.2 else s.delta
    log := .park t c s.clock :: s.log }

/-- The wait of `w` ends: it leaves every wait queue and the watchdog list and becomes ready; `x` are
the other fields of its control block, `es` what is observed. -/
def wake (s : Sched) (w : TaskId) (x : FibTCB) (es : List Ev) : Sched :=
  { s.unlink w with
    readylist := insertBefore s.theMaintask w (s.readylist.erase w)
    wadoglist := s.wadoglist.erase w
    tcb := Function.update s.tcb w { x with state := {} }
    log := es ++ s.log }

/-- The intervals after `w` has been removed from the watchdog list. -/
def deltaWithout (s : Sched) (w : TaskId) : TaskId → Int32 :=
  match nextOf w s.wadoglist with
  | some nxt => Function.update s.delta nxt (s.delta nxt + s.delta w)
  | none => s.delta

/-- The wait of `w` is ended by another task. -/
def grant (s : Sched) (w : TaskId) (x : FibTCB) (es : List Ev) : Sched :=
  { s.wake w x es with delta := s.deltaWithout w }

/-- Events `es` about `w` are observed, and the other fields of its control block become those of
`x`. -/
def note (s : Sched) (w : TaskId) (x : FibTCB) (es : List Ev) : Sched :=
  { s with tcb := Function.update s.tcb w x, log := es ++ s.log }

/-- A unit is taken from the semaphore `i`. -/
def take (s : Sched) (i : SemId) : Sched := s.modSem i fun p => { p with count := p.count - 1 }

/-- A unit is posted on the semaphore `i` by the current task. -/
def postUnit (s : Sched) (i : SemId) : Sched :=
  (s.modSem i fun p => { p with count := p.count + 1 }).emit (.unit s.currentTask i)

/-! ## Places -/

/-- The current task is in its own code. -/
structure Idle (s : Sched) : Prop where
  frame : (s.tcb s.currentTask).frame = none
  state : (s.tcb s.currentTask).state = {}
  place : Located s.chain s.currentTask (some .ready)
  scheduler : (s.tcb s.currentTask).scheduler = s.theMaintask
  dog : s.currentTask ∉ s.wadoglist

/-- `w` waits in the call `c`. -/
structure Waits (s : Sched) (w : TaskId) (c : Call) : Prop where
  frame : (s.tcb w).frame = some c
  state : (s.tcb w).state = c.waitStates
  place : Located s.chain w c.waitChain
  scheduler : (s.tcb w).scheduler = s.theMaintask
  dog : w ∈ s.wadoglist ↔ c.timed = true

/-! ## Chains -/

section

variable {s : Sched} {w : TaskId}

theorem chain_unlink : (s.unlink w).chain = Lib.unlink s.chain w := by
  funext c; cases c <;> rfl

theorem unlink_of_none (h : Located s.chain w none) : s.unlink w = s := by
  have hs := fun i => List.erase_of_not_mem (h.not_mem (c := .sem i))
  have hc := fun i => List.erase_of_not_mem (h.not_mem (c := .cond i))
  have hm := fun i => List.erase_of_not_mem (h.not_mem (c := .mutex i))
  have hr := List.erase_of_not_mem (h.not_mem (c := .ready))
  simp only [chain] at hs hc hm hr
  simp [unlink, hs, hc, hm, hr]

theorem unlink_of_ready (h : Located s.chain w (some .ready)) :
    s.unlink w = { s with readylist := s.readylist.erase w } := by
  have hs := fun i => List.erase_of_not_mem (h.not_mem_of_ne (c := .sem i) (by simp))
  have hc := fun i => List.erase_of_not_mem (h.not_mem_of_ne (c := .cond i) (by simp))
  have hm := fun i => List.erase_of_not_mem (h.not_mem_of_ne (c := .mutex i) (by simp))
  simp only [chain] at hs hc hm
  simp [unlink, hs, hc, hm]

theorem unlink_of_sem {i : SemId} (h : Located s.chain w (some (.sem i))) :
    s.unlink w = s.modSem i fun p => { p with waitq := p.waitq.erase w } := by
  have hr := List.erase_of_not_mem (h.not_mem_of_ne (c := .ready) (by simp))
  have hc := fun i => List.erase_of_not_mem (h.not_mem_of_ne (c := .cond i) (by simp))
  have hm := fun i => List.erase_of_not_mem (h.not_mem_of_ne (c := .mutex i) (by simp))
  simp only [chain] at hr hc hm
  simp only [unlink, modSem, hr, hc, hm]
  congr 1
  funext j
  by_cases hj : j = i
  · subst hj; simp
  · have := List.erase_of_not_mem (h.not_mem_of_ne (c := .sem j) (by simpa using Ne.symm hj))
    simp only [chain] at this
    simp [hj, this]

theorem unlink_of_cond {i : CondId} (h : Located s.chain w (some (.cond i))) :
    s.unlink w = s.modCond i fun p => { p with waitq := p.waitq.erase w } := by
  have hr := List.erase_of_not_mem (h.not_mem_of_ne (c := .ready) (by simp))
  have hs := fun i => List.erase_of_not_mem (h.not_mem_of_ne (c := .sem i) (by simp))
  have hm := fun i => List.erase_of_not_mem (h.not_mem_of_ne (c := .mutex i) (by simp))
  simp only [chain] at hr hs hm
  simp only [unlink, modCond, hr, hs, hm]
  congr 1
  funext j
  by_cases hj : j = i
  · subst hj; simp
  · have := List.erase_of_not_mem (h.not_mem_of_ne (c := .cond j) (by simpa using Ne.symm hj))
    simp only [chain] at this
    simp [hj, this]

theorem unlink_of_mutex {m : MutexId} (h : Located s.chain w (some (.mutex m))) :
    s.unlink w = s.modMutex m fun p => { p with waitq := p.waitq.erase w } := by
  have hr := List.erase_of_not_mem (h.not_mem_of_ne (c := .ready) (by simp))
  have hs := fun i => List.erase_of_not_mem (h.not_mem_of_ne (c := .sem i) (by simp))
  have hc := fun i => List.erase_of_not_mem (h.not_mem_of_ne (c := .cond i) (by simp))
  simp only [chain] at hr hs hc
  simp only [unlink, modMutex, hr, hs, hc]
  congr 1
  funext j
  by_cases hj : j = m
  · subst hj; simp
  · have := List.erase_of_not_mem (h.not_mem_of_ne (c := .mutex j) (by simpa using Ne.symm hj))
    simp only [chain] at this
    simp [hj, this]

@[simp] theorem chain_modTcb (t : TaskId) (f : FibTCB → FibTCB) :
    (s.modTcb t f).chain = s.chain := by
  funext c; cases c <;> rfl

@[simp] theorem chain_modState (t : TaskId) (f : States → States) :
    (s.modState t f).chain = s.chain :=
  chain_modTcb t _

@[simp] theorem chain_emit (e : Ev) : (s.emit e).chain = s.chain := by
  funext c; cases c <;> rfl

@[simp] theorem chain_park (t : TaskId) (c : Call) : (s.park t c).chain = s.chain := by
  funext c; cases c <;> rfl

@[simp] theorem chain_setDelta (t : TaskId) (d : Int32) :
    ({ s with delta := Function.update s.delta t d } : Sched).chain = s.chain := by
  funext c; cases c <;> rfl

@[simp] theorem chain_fiberWatchdogInsert (t : TaskId) :
    (s.fiberWatchdogInsert t).chain = s.chain := by
  funext c; unfold fiberWatchdogInsert; split <;> cases c <;> rfl

@[simp] theorem chain_emitFor (t : TaskId) (e : Call → Ev) : (s.emitFor t e).chain = s.chain := by
  unfold emitFor
  split <;> rfl

theorem chain_modSem (i : SemId) (f : FibSemaphore → FibSemaphore) :
    (s.modSem i f).chain = setChain s.chain (.sem i) (f (s.sem i)).waitq := by
  funext c
  cases c with
  | sem j => by_cases hj : j = i <;> simp [chain, modSem, hj]
  | _ => rfl

theorem chain_modCond (i : CondId) (f : FibCondition → FibCondition) :
    (s.modCond i f).chain = setChain s.chain (.cond i) (f (s.cond i)).waitq := by
  funext c
  cases c with
  | cond j => by_cases hj : j = i <;> simp [chain, modCond, hj]
  | _ => rfl

theorem chain_modMutex (m : MutexId) (f : FibMutex → FibMutex) :
    (s.modMutex m f).chain = setChain s.chain (.mutex m) (f (s.mutex m)).waitq := by
  funext c
  cases c with
  | mutex j => by_cases hj : j = m <;> simp [chain, modMutex, hj]
  | _ => rfl

@[simp] theorem setChain_sem_self (i : SemId) :
    setChain s.chain (.sem i) (s.sem i).waitq = s.chain :=
  Function.update_eq_self (Chain.sem i) s.chain

@[simp] theorem setChain_mutex_self (m : MutexId) :
    setChain s.chain (.mutex m) (s.mutex m).waitq = s.chain :=
  Function.update_eq_self (Chain.mutex m) s.chain

end

/-! ## Calls that wait -/

section

variable {s : Sched}

attribute [local simp] joinQueue park enter emit modTcb modState modSem modCond modMutex take
  Call.waitStates Call.waitChain Call.timed Call.timeout armTimeout fiberWatchdogInsert

theorem fiberYield_eq (h : s.Idle) (code : BitVec 64) :
    s.fiberYield code =
      (s.suspend (.yield code) { s.tcb s.currentTask with yieldCode := code }).schedule := by
  simp only [fiberYield, fiberSetstate, localReadyQProtectedExtract, suspend, unlink_of_ready,
    h.place, chain_park, chain_modTcb, chain_modState]
  simp [h.state]

theorem fiberUsleep_eq (h : s.Idle) (usec : Int32) :
    s.fiberUsleep usec = (s.suspend (.usleep usec) (s.tcb s.currentTask)).schedule := by
  simp only [fiberUsleep, fiberSetstate, localReadyQProtectedExtract, suspend, unlink_of_ready,
    h.place, chain_modState, chain_fiberWatchdogInsert, chain_setDelta, chain_park]
  simp [h.state]

theorem fiberMutexLock_eq (h : s.Idle) (m : MutexId) :
    s.fiberMutexLock m =
      if (s.mutex m).holder = some s.currentTask then
        some ((s.modMutex m fun p => { p with reentries := p.reentries + 1 }).ret s.currentTask
          (.mutexLock m) (.bool true))
      else if (s.mutex m).holder = none then
        some ((s.modMutex m fun p => { p with holder := s.currentTask, reentries := 1 }).ret
          s.currentTask (.mutexLock m) (.bool true))
      else (s.suspend (.mutexLock m) (s.tcb s.currentTask)).schedule := by
  simp only [fiberMutexLock, localReadyQProtectedExtract, suspend, unlink_of_ready, h.place,
    chain_park, chain_modState]
  simp [h.state]

theorem fiberSemWait_eq (h : s.Idle) (i : SemId) :
    s.fiberSemWait i =
      if 0 < (s.sem i).count then some ((s.take i).ret s.currentTask (.semWait i) (.bool true))
      else (s.suspend (.semWait i) (s.tcb s.currentTask)).schedule := by
  have hc : 1 ≤ (s.sem i).count ↔ 0 < (s.sem i).count := by omega
  simp only [fiberSemWait, localReadyQProtectedExtract, suspend, unlink_of_ready, h.place,
    chain_park, chain_modSem, setChain_sem_self]
  simp [h.state, hc]

theorem fiberSemTimedwait_eq (h : s.Idle) (i : SemId) (timeout : Int32) :
    s.fiberSemTimedwait i timeout =
      if 0 < (s.sem i).count then
        some ((s.take i).ret s.currentTask (.semTimedwait i timeout) (.bool true))
      else if timeout = 0 then
        some (s.ret s.currentTask (.semTimedwait i timeout) (.bool false))
      else (s.suspend (.semTimedwait i timeout)
        { s.tcb s.currentTask with yieldCode := 0 }).schedule := by
  have hc : 1 ≤ (s.sem i).count ↔ 0 < (s.sem i).count := by omega
  simp only [fiberSemTimedwait, localReadyQProtectedExtract, suspend, unlink_of_ready, h.place,
    chain_park, chain_modSem, setChain_sem_self]
  by_cases ht : 0 < timeout <;>
  simp [h.state, hc, ht]

theorem fiberCondWait_eq (h : s.Idle) (i : CondId) :
    s.fiberCondWait i = (s.suspend (.condWait i) (s.tcb s.currentTask)).schedule := by
  simp only [fiberCondWait, localReadyQProtectedExtract, suspend, unlink_of_ready, h.place,
    chain_park]
  simp [h.state]

theorem fiberCondTimedwait_eq (h : s.Idle) (i : CondId) (timeout : Int32) :
    s.fiberCondTimedwait i timeout =
      if timeout = 0 then
        some (s.ret s.currentTask (.condTimedwait i timeout) (.bool false))
      else (s.suspend (.condTimedwait i timeout)
        { s.tcb s.currentTask with yieldCode := 0 }).schedule := by
  simp only [fiberCondTimedwait, localReadyQProtectedExtract, suspend, unlink_of_ready, h.place,
    chain_park]
  by_cases ht : 0 < timeout <;>
  simp [h.state, ht]

theorem fiberEventWait_eq (h : s.Idle) (eventsIn : EventMask) (options : BitVec 32)
    (timeout : Int32) :
    let x := s.tcb s.currentTask
    let seized := x.pendingEvents &&& eventsIn
    let call := Call.eventWait eventsIn options timeout
    s.fiberEventWait eventsIn options timeout =
      if eventsSatisfy seized eventsIn options then
        some (((s.modTcb s.currentTask fun x => { x with
          pendingEvents := x.pendingEvents &&& ~~~seized }).emit
          (.seize s.currentTask seized)).ret s.currentTask call (.word seized))
      else if timeout = 0 then some (s.ret s.currentTask call (.word 0))
      else (s.suspend call { x with
        seizedEvents := 0, waitingEvents := eventsIn, waitingOptions := options }).schedule := by
  intro x seized call
  simp only [fiberEventWait, localReadyQProtectedExtract, suspend, unlink_of_ready, h.place,
    chain_park, chain_modTcb]
  by_cases ht : 0 < timeout <;>
  simp [x, seized, call, h.state, ht]

end

/-! ## Calls that end a wait -/

section

variable {s : Sched} {w : TaskId} {c : Call}

theorem waitStates_of_sem {i : SemId} (h : c.waitChain = some (.sem i)) :
    c.waitStates = { waitforSemph := true, waitTimeoutb := c.timed } := by
  cases c <;> simp_all [Call.waitChain, Call.waitStates, Call.timed]

theorem waitStates_of_cond {i : CondId} (h : c.waitChain = some (.cond i)) :
    c.waitStates = { waitforCondv := true, waitTimeoutb := c.timed } := by
  cases c <;> simp_all [Call.waitChain, Call.waitStates, Call.timed]

theorem waitStates_of_mutex {m : MutexId} (h : c.waitChain = some (.mutex m)) :
    c = .mutexLock m := by
  cases c <;> simp_all [Call.waitChain]

theorem nextOf_of_not_mem : ∀ {l : List TaskId}, w ∉ l → nextOf w l = none
  | [], _ => rfl
  | x :: l, h => by
    have hx : x ≠ w := fun e => h (e ▸ List.mem_cons_self)
    simp [nextOf, hx, nextOf_of_not_mem fun e => h (List.mem_cons_of_mem _ e)]

theorem deltaWithout_of_not_mem (h : w ∉ s.wadoglist) : s.deltaWithout w = s.delta := by
  rw [deltaWithout, nextOf_of_not_mem h]

/-- Taking a waiter off the watchdog list, when it is on it, and making it ready. -/
theorem readyWaiter_eq {b : Bool} (hst : (s.tcb w).state = { waitTimeoutb := b })
    (hdog : w ∈ s.wadoglist ↔ b = true) (m : TaskId) :
    s.readyWaiter m w = { s with
      readylist := insertBefore m w s.readylist
      wadoglist := s.wadoglist.erase w
      delta := s.deltaWithout w
      tcb := Function.update s.tcb w { s.tcb w with state := {} } } := by
  cases b with
  | true =>
    simp only [readyWaiter, fiberWatchdogRemove, hst, if_true]
    unfold deltaWithout
    cases nextOf w s.wadoglist <;>
      simp [localReadyQProtectedInsertBefore, modState, modTcb, hst]
  | false =>
    have hw : w ∉ s.wadoglist := fun h => by simpa using hdog.1 h
    have hx : { s.tcb w with state := {} } = s.tcb w := by rw [← hst]
    simp [readyWaiter, hst, deltaWithout_of_not_mem hw, List.erase_of_not_mem hw, hx,
      localReadyQProtectedInsertBefore]

theorem emitFor_of_frame {e : Call → Ev} (h : (s.tcb w).frame = some c) :
    s.emitFor w e = s.emit (e c) := by
  rw [emitFor, h]

theorem Waits.ne (hw : s.Waits w c) (h : s.Idle) : w ≠ s.currentTask := fun e => by
  have := hw.frame
  rw [e, h.frame] at this
  cases this

theorem waitChain_ne_ready : c.waitChain ≠ some .ready := by
  cases c <;> simp [Call.waitChain]

theorem Waits.not_ready (hw : s.Waits w c) : w ∉ s.readylist := fun h =>
  waitChain_ne_ready ((hw.place .ready).1 h)

theorem fiberSemPost_nil {i : SemId} (hq : (s.sem i).waitq = []) :
    s.fiberSemPost i = (s.postUnit i).ret s.currentTask (.semPost i) (.bool true) := by
  simp [fiberSemPost, postUnit, modSem, emit, hq]

theorem fiberSemPost_cons (h : s.Idle) {i : SemId} {rest : List TaskId}
    (hq : (s.sem i).waitq = w :: rest) (hw : s.Waits w c) (hc : c.waitChain = some (.sem i)) :
    s.fiberSemPost i =
      ((s.postUnit i).grant w { s.tcb w with yieldCode := 1 } [.grant w c (.bool true)]).ret
        s.currentTask (.semPost i) (.bool true) := by
  have hst := hw.state.trans (waitStates_of_sem hc)
  have hpl : Located (s.postUnit i).chain w (some (.sem i)) := by
    simpa [postUnit, chain_modSem, hc] using hw.place
  have hne := (hw.ne h).symm
  have hr : w ∉ s.readylist := hw.not_ready
  simp only [grant, wake, unlink_of_sem hpl]
  simp only [fiberSemPost, postUnit, modSem, emit, hq, modTcb, Function.update_self]
  rw [emitFor_of_frame (c := c) (by simp [hw.frame]), readyWaiter_eq (b := c.timed)
    (by simp [emit, hst]) (by simpa [emit] using hw.dog)]
  simp [emit, hne, h.scheduler, deltaWithout, List.erase_of_not_mem hr]

theorem fiberCondSignal_nil {i : CondId} (hq : (s.cond i).waitq = []) :
    s.fiberCondSignal i = s.ret s.currentTask (.condSignal i) (.bool true) := by
  simp [fiberCondSignal, hq]

theorem fiberCondSignal_cons (h : s.Idle) {i : CondId} {rest : List TaskId}
    (hq : (s.cond i).waitq = w :: rest) (hw : s.Waits w c) (hc : c.waitChain = some (.cond i)) :
    s.fiberCondSignal i =
      (s.grant w { s.tcb w with yieldCode := 1 } [.grant w c (.bool true)]).ret
        s.currentTask (.condSignal i) (.bool true) := by
  have hst := hw.state.trans (waitStates_of_cond hc)
  have hne := (hw.ne h).symm
  simp only [grant, wake, unlink_of_cond (hc ▸ hw.place)]
  simp only [fiberCondSignal, modCond, hq, modTcb]
  rw [emitFor_of_frame (c := c) (by simp [hw.frame]), readyWaiter_eq (b := c.timed)
    (by simp [emit, hst]) (by simpa [emit] using hw.dog)]
  simp [emit, hne, h.scheduler, deltaWithout, List.erase_of_not_mem hw.not_ready]

theorem fiberMutexUnlock_other {m : MutexId} (hm : (s.mutex m).holder ≠ some s.currentTask) :
    s.fiberMutexUnlock m = s.ret s.currentTask (.mutexUnlock m) (.bool false) := by
  simp [fiberMutexUnlock, hm]

theorem fiberMutexUnlock_nested {m : MutexId} (hm : (s.mutex m).holder = some s.currentTask)
    (hr : (s.mutex m).reentries ≠ 1) :
    s.fiberMutexUnlock m = (s.modMutex m fun p => { p with reentries := p.reentries - 1 }).ret
      s.currentTask (.mutexUnlock m) (.bool true) := by
  have hr' : (s.mutex m).reentries - 1#32 ≠ 0#32 := fun e => hr (by
    have := congrArg (· + 1#32) e
    simpa using this)
  simp [fiberMutexUnlock, modMutex, hm, hr']

theorem fiberMutexUnlock_nil {m : MutexId} (hm : (s.mutex m).holder = some s.currentTask)
    (hr : (s.mutex m).reentries = 1) (hq : (s.mutex m).waitq = []) :
    s.fiberMutexUnlock m = (s.modMutex m fun p => { p with holder := none, reentries := 0 }).ret
      s.currentTask (.mutexUnlock m) (.bool true) := by
  simp [fiberMutexUnlock, modMutex, hm, hr, hq]

theorem fiberMutexUnlock_cons {m : MutexId} {rest : List TaskId}
    (hm : (s.mutex m).holder = some s.currentTask) (hr : (s.mutex m).reentries = 1)
    (hq : (s.mutex m).waitq = w :: rest) (hw : s.Waits w c)
    (hc : c.waitChain = some (.mutex m)) :
    s.fiberMutexUnlock m =
      ((s.modMutex m fun p => { p with holder := w, reentries := 1 }).grant w (s.tcb w)
        [.grant w c (.bool true)]).ret s.currentTask (.mutexUnlock m) (.bool true) := by
  obtain rfl := waitStates_of_mutex hc
  have hdog : w ∉ s.wadoglist := by simp [hw.dog, Call.timed]
  have hpl : Located (s.modMutex m fun p => { p with holder := w, reentries := 1 }).chain w
      (some (.mutex m)) := by
    simpa [chain_modMutex, Call.waitChain] using hw.place
  simp only [grant, wake, unlink_of_mutex hpl]
  simp [fiberMutexUnlock, modMutex, modState, modTcb, emitFor, emit, hm, hr, hq, hw.frame, hw.state,
    hw.scheduler, Call.waitStates, localReadyQProtectedInsertBefore,
    List.erase_of_not_mem hw.not_ready, List.erase_of_not_mem hdog, deltaWithout,
    nextOf_of_not_mem hdog]

theorem fiberResume_eq {code : BitVec 64} (hw : s.Waits w (.yield code)) :
    s.fiberResume w =
      (s.grant w (s.tcb w) [.grant w (.yield code) (.task (some w))]).ret s.currentTask (.resume w)
        (.word (s.tcb w).yieldCode) := by
  have hdog : w ∉ s.wadoglist := by simp [hw.dog, Call.timed]
  simp only [grant, wake, unlink_of_none hw.place]
  simp [fiberResume, modState, modTcb, emitFor, emit, hw.frame, hw.state,
    hw.scheduler, Call.waitStates, localReadyQProtectedInsertBefore,
    List.erase_of_not_mem hw.not_ready, List.erase_of_not_mem hdog, deltaWithout,
    nextOf_of_not_mem hdog]

/-- Events posted to a task that they do not satisfy, or that does not wait for events. -/
theorem fiberEventPost_keep {t : TaskId} {eventsIn : EventMask}
    (h : (s.tcb t).state.waitforEvent = true →
      eventsSatisfy (((s.tcb t).pendingEvents ||| eventsIn) &&& (s.tcb t).waitingEvents)
        (s.tcb t).waitingEvents (s.tcb t).waitingOptions = false) :
    s.fiberEventPost t eventsIn =
      ((s.modTcb t fun x => { x with pendingEvents := x.pendingEvents ||| eventsIn }).emit
        (.posted t eventsIn)).ret s.currentTask (.eventPost t eventsIn) (.word 0) := by
  by_cases hw : (s.tcb t).state.waitforEvent = true
  · simp [fiberEventPost, modTcb, emit, hw, h hw]
  · simp [fiberEventPost, modTcb, emit, hw]

/-- Events posted to a task whose wait they satisfy. -/
theorem fiberEventPost_grant {events : EventMask} {options : BitVec 32} {timeout : Int32}
    {eventsIn : EventMask} (hw : s.Waits w (.eventWait events options timeout))
    (h : eventsSatisfy (((s.tcb w).pendingEvents ||| eventsIn) &&& (s.tcb w).waitingEvents)
        (s.tcb w).waitingEvents (s.tcb w).waitingOptions = true) :
    let pending := (s.tcb w).pendingEvents ||| eventsIn
    let seized := pending &&& (s.tcb w).waitingEvents
    s.fiberEventPost w eventsIn =
      (s.grant w { s.tcb w with pendingEvents := pending &&& ~~~seized, seizedEvents := seized }
        [.grant w (.eventWait events options timeout) (.word seized), .seize w seized,
          .posted w eventsIn]).ret s.currentTask (.eventPost w eventsIn) (.word 0) := by
  intro pending seized
  simp only [grant, wake, unlink_of_none hw.place]
  simp only [fiberEventPost, emit, modTcb, Function.update_self, hw.state, Call.waitStates, h,
    if_true]
  rw [emitFor_of_frame (c := .eventWait events options timeout) (by simp [hw.frame]),
    readyWaiter_eq (b := (Call.eventWait events options timeout).timed) (by simp [emit])
      (by simpa [emit] using hw.dog)]
  simp [emit, deltaWithout, List.erase_of_not_mem hw.not_ready, pending, seized]

end

/-! ## Broadcast -/

section

variable {s : Sched} {w u : TaskId} {c : Call}

theorem chain_wake (x : FibTCB) (es : List Ev) :
    (s.wake w x es).chain = setChain (Lib.unlink s.chain w) .ready
      (insertBefore s.theMaintask w (s.readylist.erase w)) := by
  funext d
  cases d <;> simp [chain, wake, unlink, Lib.unlink]

theorem mem_chain_wake_of_ne (h : u ≠ w) (x : FibTCB) (es : List Ev) (d : Chain) :
    u ∈ (s.wake w x es).chain d ↔ u ∈ s.chain d := by
  rw [chain_wake]
  by_cases e : d = .ready
  · subst e; simp [h, List.mem_erase_of_ne h, chain]
  · rw [setChain, Function.update_of_ne e, mem_unlink_of_ne h]

theorem Waits.wake_of_ne (hu : s.Waits u c) (h : u ≠ w) (x : FibTCB) (es : List Ev) :
    (s.wake w x es).Waits u c where
  frame := by simpa [wake, h] using hu.frame
  state := by simpa [wake, h] using hu.state
  place := hu.place.congr (mem_chain_wake_of_ne h x es)
  scheduler := by simpa [wake, unlink, h] using hu.scheduler
  dog := by simpa [wake, List.mem_erase_of_ne h] using hu.dog

theorem Waits.grant_of_ne (hu : s.Waits u c) (h : u ≠ w) (x : FibTCB) (es : List Ev) :
    (s.grant w x es).Waits u c :=
  have hw := hu.wake_of_ne h x es
  ⟨hw.frame, hw.state, hw.place.congr fun d => by cases d <;> rfl, hw.scheduler, hw.dog⟩

/-- The wait of `w` on a condition variable is ended by a signal or broadcast. -/
def signalled (s : Sched) (w : TaskId) : Sched :=
  match (s.tcb w).frame with
  | some c => s.grant w { s.tcb w with yieldCode := 1 } [.grant w c (.bool true)]
  | none => s

theorem Waits.signalled (hw : s.Waits w c) :
    s.signalled w = s.grant w { s.tcb w with yieldCode := 1 } [.grant w c (.bool true)] := by
  rw [Sched.signalled, hw.frame]

theorem broadcastCollect_eq (hf : (s.tcb w).frame = some c) :
    s.broadcastCollect w = { s with
      tcb := Function.update s.tcb w { s.tcb w with
        state := { (s.tcb w).state with waitforCondv := false }
        yieldCode := 1 }
      log := .grant w c (.bool true) :: s.log } := by
  unfold broadcastCollect
  rw [emitFor_of_frame (c := c) (by simpa [modTcb] using hf)]
  rfl

/-- The two loops of a broadcast treat distinct tasks independently. -/
theorem broadcastCollect_readyWaiter {b : Bool} (h : u ≠ w) (hf : (s.tcb u).frame = some c)
    (hst : (s.tcb w).state = { waitTimeoutb := b }) (hdog : w ∈ s.wadoglist ↔ b = true)
    (m : TaskId) :
    (s.readyWaiter m w).broadcastCollect u = (s.broadcastCollect u).readyWaiter m w := by
  have hf' : ((s.readyWaiter m w).tcb u).frame = some c := by
    rw [readyWaiter_eq hst hdog]; simpa [h] using hf
  have hst' : ((s.broadcastCollect u).tcb w).state = { waitTimeoutb := b } := by
    rw [broadcastCollect_eq hf]; simpa [h.symm] using hst
  have hdog' : w ∈ (s.broadcastCollect u).wadoglist ↔ b = true := by
    rw [broadcastCollect_eq hf]; exact hdog
  rw [broadcastCollect_eq hf', readyWaiter_eq hst' hdog', broadcastCollect_eq hf,
    readyWaiter_eq hst hdog]
  simp [h, h.symm, Function.update_comm h, deltaWithout]

theorem foldl_broadcastCollect_readyWaiter {b : Bool} (hst : (s.tcb w).state = { waitTimeoutb := b })
    (hdog : w ∈ s.wadoglist ↔ b = true) (m : TaskId) : ∀ {l : List TaskId}, w ∉ l →
    (∀ u ∈ l, ∃ c, (s.tcb u).frame = some c) →
    l.foldl broadcastCollect (s.readyWaiter m w) = (l.foldl broadcastCollect s).readyWaiter m w := by
  intro l
  induction l generalizing s with
  | nil => intros; rfl
  | cons u l ih =>
    intro hl hf
    have hu : u ≠ w := fun e => hl (e ▸ List.mem_cons_self)
    obtain ⟨c, hc⟩ := hf u List.mem_cons_self
    rw [List.foldl_cons, List.foldl_cons, broadcastCollect_readyWaiter hu hc hst hdog]
    have he := broadcastCollect_eq hc
    refine ih ?_ ?_ (fun e => hl (List.mem_cons_of_mem _ e)) fun v hv => ?_
    · rw [he]; simpa [hu.symm] using hst
    · rw [he]; exact hdog
    · obtain ⟨d, hd⟩ := hf v (List.mem_cons_of_mem _ hv)
      by_cases hvu : v = u
      · subst hvu; exact ⟨c, by rw [he]; simpa using hc⟩
      · exact ⟨d, by rw [he]; simpa [hvu] using hd⟩

/-- The two loops of a broadcast, started when the wait queue has been emptied, end the waits one
after the other. -/
theorem broadcast_loops {i : CondId} {l : List TaskId} (hq : (s.cond i).waitq = l) (hl : l.Nodup)
    (hw : ∀ u ∈ l, ∃ c, s.Waits u c ∧ c.waitChain = some (.cond i)) :
    l.foldl (readyWaiter · s.theMaintask ·)
        (l.foldl broadcastCollect (s.modCond i fun p => { p with waitq := [] })) =
      l.foldl signalled s := by
  induction l generalizing s with
  | nil =>
    have he : s.modCond i (fun p => { p with waitq := [] }) = s := by simp [modCond, ← hq]
    simp [he]
  | cons w l ih =>
    obtain ⟨c, hwc, hc⟩ := hw w List.mem_cons_self
    have hst := hwc.state.trans (waitStates_of_cond hc)
    have hnd := List.nodup_cons.1 hl
    -- the first waiter, treated by both loops at once
    have h1 : ((s.modCond i fun p => { p with waitq := [] }).broadcastCollect w).readyWaiter
        s.theMaintask w = (s.signalled w).modCond i fun p => { p with waitq := [] } := by
      rw [broadcastCollect_eq (c := c) (by simpa [modCond] using hwc.frame),
        readyWaiter_eq (b := c.timed) (by simp [modCond, hst]) (by simpa [modCond] using hwc.dog),
        hwc.signalled]
      simp only [grant, wake, unlink_of_cond (hc ▸ hwc.place)]
      simp [modCond, deltaWithout, List.erase_of_not_mem hwc.not_ready]
    have h2 : (s.signalled w).theMaintask = s.theMaintask := by rw [hwc.signalled]; rfl
    rw [List.foldl_cons, List.foldl_cons, List.foldl_cons,
      ← foldl_broadcastCollect_readyWaiter (b := c.timed) _ _ s.theMaintask hnd.1, h1, ← h2]
    · refine ih ?_ hnd.2 fun u hu => ?_
      · rw [hwc.signalled]
        simp [grant, wake, unlink, hq]
      · obtain ⟨d, hd, hdc⟩ := hw u (List.mem_cons_of_mem _ hu)
        have hne : u ≠ w := fun e => hnd.1 (e ▸ hu)
        exact ⟨d, by rw [hwc.signalled]; exact hd.grant_of_ne hne _ _, hdc⟩
    · intro u hu
      obtain ⟨d, hd, -⟩ := hw u (List.mem_cons_of_mem _ hu)
      have hne : u ≠ w := fun e => hnd.1 (e ▸ hu)
      rw [broadcastCollect_eq (c := c) (by simpa [modCond] using hwc.frame)]
      exact ⟨d, by simpa [modCond, hne] using hd.frame⟩
    · rw [broadcastCollect_eq (c := c) (by simpa [modCond] using hwc.frame)]
      simp [modCond, hst]
    · rw [broadcastCollect_eq (c := c) (by simpa [modCond] using hwc.frame)]
      simpa [modCond] using hwc.dog

theorem scheduler_broadcastCollect (u : TaskId) :
    ((s.broadcastCollect w).tcb u).scheduler = (s.tcb u).scheduler := by
  unfold broadcastCollect emitFor
  cases hf : (s.tcb w).frame <;> by_cases h : u = w <;> simp [modTcb, emit, h, hf]

theorem scheduler_readyWaiter (m u : TaskId) :
    ((s.readyWaiter m w).tcb u).scheduler = (s.tcb u).scheduler := by
  unfold readyWaiter fiberWatchdogRemove
  cases hb : (s.tcb w).state.waitTimeoutb <;> cases nextOf w s.wadoglist <;>
    by_cases h : u = w <;> simp [localReadyQProtectedInsertBefore, modState, modTcb, h]

theorem fiberCondBroadcast_eq (h : s.Idle) {i : CondId} (hl : (s.cond i).waitq.Nodup)
    (hw : ∀ u ∈ (s.cond i).waitq, ∃ c, s.Waits u c ∧ c.waitChain = some (.cond i)) :
    s.fiberCondBroadcast i = ((s.cond i).waitq.foldl signalled s).ret s.currentTask
      (.condBroadcast i) (.bool true) := by
  have hsched : ∀ (l : List TaskId) (t : Sched),
      (t.tcb s.currentTask).scheduler = s.theMaintask →
      l.foldl (fun t w => t.readyWaiter (t.tcb s.currentTask).scheduler w) t =
        l.foldl (readyWaiter · s.theMaintask ·) t := by
    intro l
    induction l with
    | nil => intros; rfl
    | cons w l ih =>
      intro t ht
      simp only [List.foldl_cons, ht]
      exact ih _ ((scheduler_readyWaiter _ _).trans ht)
  have hcollect : ∀ (l : List TaskId) (t : Sched),
      ((l.foldl broadcastCollect t).tcb s.currentTask).scheduler =
        (t.tcb s.currentTask).scheduler := by
    intro l
    induction l with
    | nil => intros; rfl
    | cons w l ih => intro t; rw [List.foldl_cons, ih, scheduler_broadcastCollect]
  have hs := hsched (s.cond i).waitq ((s.cond i).waitq.foldl broadcastCollect
    (s.modCond i fun p => { p with waitq := [] })) ((hcollect _ _).trans h.scheduler)
  rw [← broadcast_loops rfl hl hw, ← hs]
  rfl

/-! ## Expiry -/

theorem tickleExpired_eq (hw : s.Waits w c) (ht : c.timed = true) :
    s.tickleExpired w = s.wake w (s.tcb w) [.expire w c s.clock] := by
  cases c with
  | usleep usec =>
    simp only [wake, unlink_of_none hw.place]
    simp [tickleExpired, modState, modTcb, emitFor, emit, hw.frame, hw.state, hw.scheduler,
      Call.waitStates, localReadyQProtectedInsertBefore, List.erase_of_not_mem hw.not_ready]
  | eventWait events options timeout =>
    simp only [wake, unlink_of_none hw.place]
    simp [tickleExpired, modState, modTcb, emitFor, emit, hw.frame, hw.state, hw.scheduler,
      Call.waitStates, localReadyQProtectedInsertBefore, List.erase_of_not_mem hw.not_ready]
  | semTimedwait i timeout =>
    simp [tickleExpired, modState, modTcb, emitFor, emit, hw.frame, hw.state, hw.scheduler,
      Call.waitStates, localReadyQProtectedInsertBefore, wake, unlink]
  | condTimedwait i timeout =>
    simp [tickleExpired, modState, modTcb, emitFor, emit, hw.frame, hw.state, hw.scheduler,
      Call.waitStates, localReadyQProtectedInsertBefore, wake, unlink]
  | _ => cases ht

end

end Ptask.OneN.Sched
