import Ptask.OneN.Model

/-!
# The calls of the 1:N build

The functions of `task.h`, each by the task that is current, and `fiber_scheduler`, which the
maintask runs. Comments name the parts of the source that the 1:N build leaves out only where
something else is affected by them.
-/

namespace Ptask.OneN

namespace Sched

/-! ## Creation and exit -/

/-- `fiber_create`. -/
def fiberCreate (s : Sched) (stackaddr : Addr) (stacksize : BitVec 32) (env : AllocEnv) : Sched :=
  let call := Call.create stackaddr stacksize env
  let (theTask, pool) := s.pool.alloc env.malloc
  let s := { s with pool := pool }
  match theTask with
  | none => s.ret s.currentTask call (.task none)
  | some theTask =>
    let s := s.modState theTask fun _ => .ready
    let (s, stack) :=
      if stackaddr = 0 then
        let stacksize := ((stacksize + 4095) / 4096) * 4096
        let (cache, slot) := s.cache.get (some s.theMaintask) stacksize env
        ({ s with cache := cache }, { slot with stacksize := slot.stacksize ||| MASK_SYSTEM_STACK })
      else (s, ⟨stackaddr, stacksize⟩)
    if stack.stackbase = 0 then
      { s with pool := s.pool.free theTask }.ret s.currentTask call (.task none)
    else
      -- `pendingEvents`, the other event fields, `yieldCode` and the local data are not written
      let s := s.modTcb theTask fun x => { x with
        stackaddr := stack.stackbase
        stacksize := stack.stacksize
        frame := none
        scheduler := s.theMaintask }
      let s := { s with nLocalFibTasks := s.nLocalFibTasks + 1, live := theTask :: s.live }
      let s :=
        if theTask ≠ s.theMaintask then s.localReadyQProtectedInsertBefore s.theMaintask theTask
        else s.readyInsertTail theTask
      (s.emit (.created theTask)).ret s.currentTask call (.task (some theTask))

/-- `cpp_taskmain` after the entry function of a task other than the maintask has returned. -/
def cppTaskmain (s : Sched) : Sched :=
  let theTask := s.currentTask
  let theScheduler := (s.tcb theTask).scheduler
  let s := { s with nLocalFibTasks := s.nLocalFibTasks - 1 }
  let s := s.localReadyQProtectedExtract theTask
  let x := s.tcb theTask
  let s :=
    if x.stacksize &&& MASK_SYSTEM_STACK ≠ 0 then
      { s with cache := s.cache.put x.stackaddr (x.stacksize &&& ~~~15#32) }
    else s
  let s := { s with pool := s.pool.free theTask, live := s.live.erase theTask }
  { s.emit (.exited theTask) with currentTask := theScheduler }.arrive

/-! ## Yield and sleep -/

/-- `fiber_yield`. -/
def fiberYield (s : Sched) (code : BitVec 64) : Option Sched :=
  let theTask := s.currentTask
  let s := s.park theTask (.yield code)
  let s := s.modTcb theTask fun x => { x with yieldCode := code }
  s.fiberSetstate theTask fun st => { st with suspended := true }

/-- `fiber_resume`. -/
def fiberResume (s : Sched) (theTask : TaskId) : Sched :=
  let yieldCode := (s.tcb theTask).yieldCode
  let s := s.modState theTask fun st => { st with suspended := false }
  let s := s.localReadyQProtectedInsertBefore (s.tcb theTask).scheduler theTask
  let s := s.emitFor theTask fun c => .grant theTask c (.task (some theTask))
  s.ret s.currentTask (.resume theTask) (.word yieldCode)

/-- `fiber_sched_yield`. -/
def fiberSchedYield (s : Sched) : Option Sched :=
  let theScheduler := s.theMaintask
  let theTask := s.currentTask
  let s := s.enter theTask .schedYield
  let s := s.unlink theTask
  let s :=
    if theTask = theScheduler then s.readyInsertTail theTask
    else s.localReadyQProtectedInsertBefore theScheduler theTask
  s.schedule

/-- `fiber_usleep`. -/
def fiberUsleep (s : Sched) (usec : Int32) : Option Sched :=
  let theTask := s.currentTask
  let s := s.park theTask (.usleep usec)
  let s := { s with delta := Function.update s.delta theTask usec }
  let s := s.fiberWatchdogInsert theTask
  s.fiberSetstate theTask fun st => { st with inUsleep := true }

/-! ## Events -/

/-- `fiber_event_wait`. -/
def fiberEventWait (s : Sched) (eventsIn : EventMask) (options : BitVec 32) (timeout : Int32) :
    Option Sched :=
  let call := Call.eventWait eventsIn options timeout
  let theTask := s.currentTask
  let seizedEvents := (s.tcb theTask).pendingEvents &&& eventsIn
  if eventsSatisfy seizedEvents eventsIn options then
    let s := s.modTcb theTask fun x => { x with pendingEvents := x.pendingEvents &&& ~~~seizedEvents }
    let s := s.emit (.seize theTask seizedEvents)
    some (s.ret theTask call (.word seizedEvents))
  else if timeout = 0 then some (s.ret theTask call (.word 0))
  else
    let s := s.park theTask call
    let s := s.modTcb theTask fun x => { x with
      seizedEvents := 0
      waitingEvents := eventsIn
      waitingOptions := options
      state := { x.state with
        transient := x.state.transient || decide (0 < timeout)
        waitforEvent := true } }
    let s := s.localReadyQProtectedExtract theTask
    let s := s.armTimeout theTask timeout
    s.schedule

/-- `fiber_event_post`. -/
def fiberEventPost (s : Sched) (theTask : TaskId) (eventsIn : EventMask) : Sched :=
  let call := Call.eventPost theTask eventsIn
  let s := s.modTcb theTask fun x => { x with pendingEvents := x.pendingEvents ||| eventsIn }
  let s := s.emit (.posted theTask eventsIn)
  if (s.tcb theTask).state.waitforEvent then
    let x := s.tcb theTask
    let seizedEvents := x.pendingEvents &&& x.waitingEvents
    if eventsSatisfy seizedEvents x.waitingEvents x.waitingOptions then
      let s := s.modTcb theTask fun x => { x with
        pendingEvents := x.pendingEvents &&& ~~~seizedEvents
        seizedEvents := seizedEvents
        state := { x.state with waitforEvent := false } }
      let s := s.emit (.seize theTask seizedEvents)
      let s := s.emitFor theTask fun c => .grant theTask c (.word seizedEvents)
      let s := s.readyWaiter s.theMaintask theTask
      s.ret s.currentTask call (.word 0)
    else s.ret s.currentTask call (.word 0)
  else s.ret s.currentTask call (.word 0)

/-! ## Mutex -/

/-- `_fiber_mutex_init`. -/
def fiberMutexInit (s : Sched) (m : MutexId) : Sched :=
  (s.modMutex m fun _ => {}).ret s.currentTask (.mutexInit m) (.word 0)

/-- `_fiber_mutex_lock`. -/
def fiberMutexLock (s : Sched) (m : MutexId) : Option Sched :=
  let theTask := s.currentTask
  if (s.mutex m).holder = some theTask then
    some ((s.modMutex m fun p => { p with reentries := p.reentries + 1 }).ret theTask (.mutexLock m)
      (.bool true))
  else if (s.mutex m).holder = none then
    let s := s.modMutex m fun p => { p with holder := some theTask }
    some ((s.modMutex m fun p => { p with reentries := 1 }).ret theTask (.mutexLock m) (.bool true))
  else
    let s := s.park theTask (.mutexLock m)
    let s := s.modState theTask fun st => { st with waitforMutex := true }
    let s := s.localReadyQProtectedExtract theTask
    let s := s.modMutex m fun p => { p with waitq := p.waitq ++ [theTask] }
    s.schedule

/-- `_fiber_mutex_unlock`. -/
def fiberMutexUnlock (s : Sched) (m : MutexId) : Sched :=
  let theTask := s.currentTask
  if (s.mutex m).holder ≠ some theTask then s.ret theTask (.mutexUnlock m) (.bool false)
  else
    let s := s.modMutex m fun p => { p with reentries := p.reentries - 1 }
    if (s.mutex m).reentries ≠ 0 then s.ret theTask (.mutexUnlock m) (.bool true)
    else
      let theFirst := (s.mutex m).waitq.head?
      let s := s.modMutex m fun p => { p with waitq := p.waitq.tail, holder := theFirst }
      match theFirst with
      | none => s.ret theTask (.mutexUnlock m) (.bool true)
      | some theFirst =>
        let s := s.modMutex m fun p => { p with reentries := 1 }
        let s := s.modState theFirst fun st => { st with waitforMutex := false }
        let s := s.emitFor theFirst fun c => .grant theFirst c (.bool true)
        let s := s.localReadyQProtectedInsertBefore (s.tcb theFirst).scheduler theFirst
        s.ret theTask (.mutexUnlock m) (.bool true)

/-! ## Semaphore -/

/-- `fiber_sem_init`. -/
def fiberSemInit (s : Sched) (i : SemId) (initval : Int32) : Sched :=
  (s.modSem i fun _ => { count := initval.toInt }).ret s.currentTask (.semInit i initval) (.word 0)

/-- `fiber_sem_wait`. -/
def fiberSemWait (s : Sched) (i : SemId) : Option Sched :=
  let theTask := s.currentTask
  let s := s.modSem i fun p => { p with count := p.count - 1 }
  if 0 ≤ (s.sem i).count then some (s.ret theTask (.semWait i) (.bool true))
  else
    let s := s.park theTask (.semWait i)
    let s := s.localReadyQProtectedExtract theTask
    let s := s.modSem i fun p => { p with waitq := p.waitq ++ [theTask] }
    let s := s.modState theTask fun st => { st with waitforSemph := true }
    s.schedule

/-- `fiber_sem_timedwait`. -/
def fiberSemTimedwait (s : Sched) (i : SemId) (timeout : Int32) : Option Sched :=
  let call := Call.semTimedwait i timeout
  let theTask := s.currentTask
  let s := s.modSem i fun p => { p with count := p.count - 1 }
  if 0 ≤ (s.sem i).count then some (s.ret theTask call (.bool true))
  else if timeout = 0 then
    some ((s.modSem i fun p => { p with count := p.count + 1 }).ret theTask call (.bool false))
  else
    let s := s.park theTask call
    let s := s.localReadyQProtectedExtract theTask
    let s := s.modSem i fun p => { p with waitq := p.waitq ++ [theTask] }
    let s := s.modTcb theTask fun x => { x with
      state := { x.state with
        transient := x.state.transient || decide (0 < timeout)
        waitforSemph := true }
      yieldCode := 0 }
    let s := s.armTimeout theTask timeout
    s.schedule

/-- `fiber_sem_post`. -/
def fiberSemPost (s : Sched) (i : SemId) : Sched :=
  let theTask := s.currentTask
  let s := s.modSem i fun p => { p with count := p.count + 1 }
  let s := s.emit (.unit theTask i)
  match (s.sem i).waitq with
  | [] => s.ret theTask (.semPost i) (.bool true)
  | theFirst :: rest =>
    let s := s.modSem i fun p => { p with waitq := rest }
    let s := s.modTcb theFirst fun x => { x with
      state := { x.state with waitforSemph := false }
      yieldCode := 1 }
    let s := s.emitFor theFirst fun c => .grant theFirst c (.bool true)
    let s := s.readyWaiter (s.tcb theTask).scheduler theFirst
    s.ret theTask (.semPost i) (.bool true)

/-! ## Condition variables -/

/-- `fiber_cond_init`. -/
def fiberCondInit (s : Sched) (i : CondId) : Sched :=
  (s.modCond i fun _ => {}).ret s.currentTask (.condInit i) (.word 0)

/-- `fiber_cond_wait`; the calls on the mutex are empty macros. -/
def fiberCondWait (s : Sched) (i : CondId) : Option Sched :=
  let theTask := s.currentTask
  let s := s.park theTask (.condWait i)
  let s := s.localReadyQProtectedExtract theTask
  let s := s.modCond i fun p => { p with waitq := p.waitq ++ [theTask] }
  let s := s.modState theTask fun st => { st with waitforCondv := true }
  s.schedule

/-- `fiber_cond_timedwait`. -/
def fiberCondTimedwait (s : Sched) (i : CondId) (timeout : Int32) : Option Sched :=
  let call := Call.condTimedwait i timeout
  let theTask := s.currentTask
  if timeout = 0 then some (s.ret theTask call (.bool false))
  else
    let s := s.park theTask call
    let s := s.localReadyQProtectedExtract theTask
    let s := s.modCond i fun p => { p with waitq := p.waitq ++ [theTask] }
    let s := s.modTcb theTask fun x => { x with
      state := { x.state with
        transient := x.state.transient || decide (0 < timeout)
        waitforCondv := true }
      yieldCode := 0 }
    let s := s.armTimeout theTask timeout
    s.schedule

/-- `fiber_cond_signal`. -/
def fiberCondSignal (s : Sched) (i : CondId) : Sched :=
  let theTask := s.currentTask
  match (s.cond i).waitq with
  | [] => s.ret theTask (.condSignal i) (.bool true)
  | theFirst :: rest =>
    let s := s.modCond i fun p => { p with waitq := rest }
    let s := s.modTcb theFirst fun x => { x with
      state := { x.state with waitforCondv := false }
      yieldCode := 1 }
    let s := s.emitFor theFirst fun c => .grant theFirst c (.bool true)
    let s := s.readyWaiter (s.tcb theTask).scheduler theFirst
    s.ret theTask (.condSignal i) (.bool true)

/-- The first loop of `fiber_cond_broadcast`, for one task: it moves to the local chain. -/
def broadcastCollect (s : Sched) (theTcb : TaskId) : Sched :=
  let s := s.modTcb theTcb fun x => { x with
    state := { x.state with waitforCondv := false }
    yieldCode := 1 }
  s.emitFor theTcb fun c => .grant theTcb c (.bool true)

/-- `fiber_cond_broadcast`. The local chain is the wait queue as it was found. -/
def fiberCondBroadcast (s : Sched) (i : CondId) : Sched :=
  let theTask := s.currentTask
  let localchain := (s.cond i).waitq
  let s := s.modCond i fun p => { p with waitq := [] }
  let s := localchain.foldl broadcastCollect s
  let s := localchain.foldl (fun s theTcb => s.readyWaiter (s.tcb theTask).scheduler theTcb) s
  s.ret theTask (.condBroadcast i) (.bool true)

/-! ## Task local data -/

/-- `fiber_set_localdata`. -/
def fiberSetLocaldata (s : Sched) (theTask : TaskId) (index : Int32) (data : BitVec 64) : Sched :=
  let call := Call.setLocaldata theTask index data
  if MAX_TASK_LOCALDATAS ≤ index then s.ret s.currentTask call (.bool false)
  else
    let s := s.modTcb theTask fun x => { x with
      taskLocalStorages := Function.update x.taskLocalStorages index data }
    s.ret s.currentTask call (.bool true)

/-- `fiber_get_localdata`. -/
def fiberGetLocaldata (s : Sched) (theTask : TaskId) (index : Int32) : Sched :=
  let data := if MAX_TASK_LOCALDATAS ≤ index then 0 else (s.tcb theTask).taskLocalStorages index
  s.ret s.currentTask (.getLocaldata theTask index) (.word data)

/-! ## The scheduler loop -/

/-- `_utime`. -/
def utime (s : Sched) : UInt64 := UInt64.ofNat s.clock

/-- The conversion of the `uint64_t` gap to the `int` parameter of `fiber_watchdog_tickle`. -/
def toInt (gap : UInt64) : Int32 := Int32.ofInt gap.toNat

/-- `threadStartup` has returned `true`: the loop starts. -/
def schedulerStart (s : Sched) : Sched := { s with prevStmp := s.utime, loop := .top }

/-- The watchdog part of one pass of the loop of `fiber_scheduler`. -/
def schedulerPass (s : Sched) : Sched :=
  let currStmp := s.utime
  let currGapp := currStmp - s.prevStmp
  let s :=
    if currGapp ≠ 0 then { s.fiberWatchdogTickle (toInt currGapp) with prevStmp := currStmp } else s
  { s with loop := .exhaust }

/-- One test of `_CHAIN_FIRST(the_chain) != _CHAIN_LAST(the_chain)` in the inner `while`. -/
def schedulerExhaust (s : Sched) : Option Sched :=
  if s.readylist.head? ≠ s.readylist.getLast? then s.fiberSchedYield
  else some { s with loop := .msgloop }

/-- The end of the pass. -/
def schedulerLoopEnd (s : Sched) : Sched :=
  { s with loop := if s.nLocalFibTasks = 1 then .left else .top }

end Sched

end Ptask.OneN
