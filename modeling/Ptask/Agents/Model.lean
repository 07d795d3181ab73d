import Mathlib.Tactic.Simps.Basic
import Ptask.Lib.Chains
import Ptask.Lib.Reach
import Ptask.Tcb

/-!
# Tasks and ticks of the M:N build

`task.c` without `__1_N_MODEL__`, as far as tasks wait for each other. A task is a sequential agent
that is somewhere in one of its calls, and so is the tick of each service thread; a step of an agent
is one section under a spinlock, one test outside of them, or one write. Which thread runs a task is
left open but for the `scheduler` that its timers go to: a task that is ready may take its next step
at any time, unless that thread is in a tick. A task goes on after a wait as soon as it is ready
(that its registers have been saved by then is another matter).

The lock of a semaphore, mutex or condition is held for one step only. A tick holds the lock of its
watchdog list from its first step to its last. The statement that clears `STATES_TRANSIENT` is under
no lock; it is one step, so that it loses no bit which another thread sets. `calls`, `depth`, `since`, the log and the
numbers that the ticks carry are ghost state.
-/

namespace Ptask.Agents

open Ptask.Lib

abbrev ThreadId := Nat

/-! ## Calls -/

inductive Call
  | mutexLock (m : MutexId)
  | mutexUnlock (m : MutexId)
  | semWait (i : SemId)
  | semTimedwait (i : SemId) (timeout : Int32)
  | semPost (i : SemId)
  | condWait (c : CondId) (m : MutexId)
  | condTimedwait (c : CondId) (m : MutexId) (timeout : Int32)
  | condSignal (c : CondId)
  | condBroadcast (c : CondId)
  | eventWait (eventsIn : EventMask) (options : BitVec 32) (timeout : Int32)
  | eventPost (t : TaskId) (eventsIn : EventMask)
  | usleep (usec : Int32)
deriving DecidableEq, Repr

inductive Ret
  | none
  | bool (b : Bool)
  | word (w : BitVec 64)
deriving DecidableEq, Repr

/-- What `waitingObject` points to. -/
inductive Obj
  | sem (i : SemId)
  | cond (c : CondId)
deriving DecidableEq, Repr

/-- What a task waits for. -/
inductive Wait
  | sem (i : SemId)
  | cond (c : CondId)
  | mutex (m : MutexId)
  | event
  | sleep
deriving DecidableEq, Repr

/-! ## Places in the code -/

inductive LockPc
  /-- Before the test of the holder. -/
  | test
  /-- The task holds the mutex; the increment of `reentries` is next. -/
  | nest
  | section_
  /-- The task has taken the mutex; the write of `reentries` is next. -/
  | own
  | parked
deriving DecidableEq, Repr

inductive UnlockPc
  /-- Before the test of the holder. -/
  | test
  /-- The decrement of `reentries` is next. -/
  | dec
  /-- The test of `reentries` is next. -/
  | retest
  /-- The section is next. -/
  | release
  /-- `w` is the holder; the write of `reentries` is next. -/
  | reent (w : TaskId)
  /-- The write of the state of `w` is next. -/
  | clear (w : TaskId)
  | ready (w : TaskId)
deriving DecidableEq, Repr

/-- How far a post, a signal or a broadcast is with a task that it has taken off a queue. -/
inductive WakePc
  /-- Waiting for `STATES_TRANSIENT` to be cleared. -/
  | spin
  /-- The test of `STATES_WAIT_TIMEOUTB` is next. -/
  | test
  /-- `fiber_watchdog_remove` is next. -/
  | remove
  | ready
deriving DecidableEq, Repr

inductive Pc
  /-- In the task's own code. -/
  | idle
  /-- Before the first section of the call. -/
  | enter
  /-- `fiber_watchdog_insert` is next. -/
  | arm
  /-- The write that clears `STATES_TRANSIENT` is next. -/
  | armed
  /-- `fiber_setstate` of `fiber_usleep` is next. -/
  | doze
  /-- In `fiber_sched`. -/
  | parked
  | lock (p : LockPc) (m : MutexId)
  | unlock (p : UnlockPc) (m : MutexId)
  /-- `w` and the tasks of `rest` are to be made ready. -/
  | waking (p : WakePc) (w : TaskId) (rest : List TaskId)
deriving DecidableEq, Repr

/-- Where the tick of a thread is; `n` is the number of the call in which the timer was armed. -/
inductive TickPc
  | idle
  /-- Between two entries of the watchdog list. -/
  | pass
  /-- `w` is off the list; the test of its state is next. -/
  | test (w : TaskId) (n : Nat)
  /-- The state has been tested; `waitingObject` is read next. -/
  | object (w : TaskId) (n : Nat)
  /-- The section under the lock of `o` is next. -/
  | locked (w : TaskId) (o : Obj) (n : Nat)
  /-- The section under the event lock of `w` is next. -/
  | event (w : TaskId) (n : Nat)
deriving DecidableEq, Repr

/-! ## States -/

/-- Where the link of a control block is. -/
inductive Place
  /-- On a ready list; the task is not waiting. -/
  | runs
  /-- In the wait queue of what the task waits for; on no list when it waits for events or sleeps. -/
  | queued
  /-- In the hands of the task `p`, which has taken it off the queue. -/
  | held (p : TaskId)
  /-- On a ready list again; the task has not yet gone on. -/
  | woken
deriving DecidableEq, Repr

/-- A task: the fields of its control block, its call, and how far it is with it. -/
structure Task where
  state : States := {}
  yieldCode : BitVec 64 := 0
  waitingObject : Option Obj := none
  pendingEvents : EventMask := 0
  waitingEvents : EventMask := 0
  waitingOptions : BitVec 32 := 0
  seizedEvents : EventMask := 0
  scheduler : ThreadId := 0
  call : Option Call := none
  pc : Pc := .idle
  place : Place := .runs
  /-- The number of calls that the task has begun. -/
  calls : Nat := 0
  /-- The number of locks of a mutex that the task has not yet released. -/
  depth : MutexId → Nat := fun _ => 0
  /-- When the task joined the wait queue it was on last. -/
  since : Nat := 0

namespace Task

variable (x : Task)

@[simps]
def goto (pc : Pc) : Task := { x with pc := pc }

@[simps]
def put (p : Place) : Task := { x with place := p }

/-- The task starts to wait. -/
@[simps]
def join (pc : Pc) (since : Nat) : Task := { x with pc := pc, place := .queued, since := since }

/-- The call of the task has returned. -/
@[simps]
def done : Task := { x with pc := .idle, call := none }

@[simps]
def setDepth (m : MutexId) (n : Nat) : Task := { x with depth := Function.update x.depth m n }

end Task

inductive Ev
  | begin (t : TaskId) (c : Call)
  | ret (t : TaskId) (c : Call) (r : Ret)
  /-- `t` starts to wait. -/
  | joined (t : TaskId) (q : Wait)
  /-- The call of `t` ends the wait of `w`. -/
  | taken (t w : TaskId)
  /-- A tick ends the wait of `w`. -/
  | expired (w : TaskId)
  /-- The call of `t` makes `w` ready. -/
  | woken (t w : TaskId)
deriving DecidableEq, Repr

structure Sys where
  task : TaskId → Task := fun _ => {}
  mutex : MutexId → FibMutex := fun _ => {}
  sem : SemId → FibSemaphore := fun _ => {}
  cond : CondId → FibCondition := fun _ => {}
  wadoglist : ThreadId → List TaskId := fun _ => []
  tick : ThreadId → TickPc := fun _ => .idle
  log : List Ev := []

namespace Sys

variable (s : Sys) (t : TaskId)

@[simps -fullyApplied]
def modTask (f : Task → Task) : Sys := { s with task := Function.update s.task t (f (s.task t)) }

@[simps -fullyApplied]
def modMutex (m : MutexId) (f : FibMutex → FibMutex) : Sys :=
  { s with mutex := Function.update s.mutex m (f (s.mutex m)) }

@[simps -fullyApplied]
def modSem (i : SemId) (f : FibSemaphore → FibSemaphore) : Sys :=
  { s with sem := Function.update s.sem i (f (s.sem i)) }

@[simps -fullyApplied]
def modCond (c : CondId) (f : FibCondition → FibCondition) : Sys :=
  { s with cond := Function.update s.cond c (f (s.cond c)) }

@[simps -fullyApplied]
def setTick (k : ThreadId) (p : TickPc) : Sys := { s with tick := Function.update s.tick k p }

@[simps -fullyApplied]
def emit (e : Ev) : Sys := { s with log := e :: s.log }

@[simps! -fullyApplied]
def goto (pc : Pc) : Sys := s.modTask t fun x => x.goto pc

/-- The call of `t` returns. -/
def ret (r : Ret) : Sys :=
  match (s.task t).call with
  | some c => (s.modTask t Task.done).emit (.ret t c r)
  | none => s

/-- `t` leaves the ready list and starts to wait. -/
@[simps! -fullyApplied]
def block (q : Wait) (pc : Pc) (f : Task → Task) : Sys :=
  (s.modTask t fun x => (f x).join pc s.log.length).emit (.joined t q)

/-- The call of `t` takes the tasks `ws` off a queue. -/
@[simps -fullyApplied]
def take (ws : List TaskId) (f : Task → Task) : Sys :=
  { s with
    task := fun u => if u ∈ ws then (f (s.task u)).put (.held t) else s.task u
    log := ws.map (.taken t) ++ s.log }

/-- A tick ends the wait of `t`. -/
@[simps! -fullyApplied]
def expire : Sys := (s.modTask t fun x => x.put .woken).emit (.expired t)

/-- `_CHAIN_REMOVE` on the link that the wait queues use. -/
@[simps -fullyApplied]
def unlink : Sys :=
  { s with
    mutex := fun m => { s.mutex m with waitq := (s.mutex m).waitq.erase t }
    sem := fun i => { s.sem i with waitq := (s.sem i).waitq.erase t }
    cond := fun c => { s.cond c with waitq := (s.cond c).waitq.erase t } }

/-- `fiber_watchdog_insert`; where on the list the timer goes is left open. -/
def fiberWatchdogInsert : Sys :=
  if (s.task t).state.waitTimeoutb then s
  else
    let k := (s.task t).scheduler
    let s := { s with wadoglist := Function.update s.wadoglist k (s.wadoglist k ++ [t]) }
    s.modTask t fun x => { x with state := { x.state with waitTimeoutb := true } }

/-- `fiber_watchdog_remove`. -/
def fiberWatchdogRemove : Sys :=
  if (s.task t).state.waitTimeoutb then
    let s := { s with wadoglist := fun k => (s.wadoglist k).erase t }
    s.modTask t fun x => { x with state := { x.state with waitTimeoutb := false } }
  else s

/-! ## Mutex -/

/-- A lock that is the last part of a wait for a condition returns that wait's result. -/
def finishLock (m : MutexId) : Sys :=
  let s := s.modTask t fun x => x.setDepth m (x.depth m + 1)
  match (s.task t).call with
  | some (.condTimedwait ..) => s.ret t (.bool ((s.task t).yieldCode == 1))
  | _ => s.ret t (.bool true)

/-- An unlock that is part of a wait for a condition is followed by `fiber_sched`. -/
def finishUnlock (b : Bool) : Sys :=
  match (s.task t).call with
  | some (.mutexUnlock _) => s.ret t (.bool b)
  | _ => s.goto t .parked

/-- `_fiber_mutex_lock`. -/
def mutexLock (m : MutexId) : LockPc → Option Sys
  | .test => some (s.goto t (.lock (if (s.mutex m).holder = some t then .nest else .section_) m))
  | .nest => some ((s.modMutex m fun p => { p with reentries := p.reentries + 1 }).finishLock t m)
  | .section_ =>
    if (s.mutex m).holder = none then
      some ((s.modMutex m fun p => { p with holder := some t }).goto t (.lock .own m))
    else
      let s := s.modMutex m fun p => { p with waitq := p.waitq ++ [t] }
      some (s.block t (.mutex m) (.lock .parked m) fun x =>
        { x with state := { x.state with waitforMutex := true } })
  | .own => some ((s.modMutex m fun p => { p with reentries := 1 }).finishLock t m)
  | .parked => none

/-- `_fiber_mutex_unlock`. -/
def mutexUnlock (m : MutexId) : UnlockPc → Sys
  | .test =>
    if (s.mutex m).holder ≠ some t then s.finishUnlock t false else s.goto t (.unlock .dec m)
  | .dec =>
    (s.modMutex m fun p => { p with reentries := p.reentries - 1 }).goto t (.unlock .retest m)
  | .retest =>
    if (s.mutex m).reentries ≠ 0 then
      (s.modTask t fun x => x.setDepth m (x.depth m - 1)).finishUnlock t true
    else s.goto t (.unlock .release m)
  | .release =>
    let theFirst := (s.mutex m).waitq.head?
    let s := s.modMutex m fun p => { p with waitq := p.waitq.tail, holder := theFirst }
    let s := s.modTask t fun x => x.setDepth m (x.depth m - 1)
    match theFirst with
    | none => s.finishUnlock t true
    | some w => (s.take t [w] id).goto t (.unlock (.reent w) m)
  | .reent w => (s.modMutex m fun p => { p with reentries := 1 }).goto t (.unlock (.clear w) m)
  | .clear w =>
    (s.modTask w fun x => { x with state := { x.state with waitforMutex := false } }).goto t
      (.unlock (.ready w) m)
  | .ready w =>
    ((s.modTask w fun x => x.put .woken).emit (.woken t w)).finishUnlock t true

/-! ## Sections -/

/-- The place after a task has joined a wait queue with a timeout. -/
def afterJoin (timeout : Int32) (pc : Pc) : Pc := if 0 < timeout then .arm else pc

/-- The first section of a call. -/
def enter : Call → Sys
  | .semWait i =>
    let s := s.modSem i fun p => { p with count := p.count - 1 }
    if 0 ≤ (s.sem i).count then s.ret t (.bool true)
    else
      let s := s.modSem i fun p => { p with waitq := p.waitq ++ [t] }
      s.block t (.sem i) .parked fun x => { x with state := { x.state with waitforSemph := true } }
  | .semTimedwait i timeout =>
    let s := s.modSem i fun p => { p with count := p.count - 1 }
    if 0 ≤ (s.sem i).count then s.ret t (.bool true)
    else if timeout = 0 then
      (s.modSem i fun p => { p with count := p.count + 1 }).ret t (.bool false)
    else
      let s := s.modSem i fun p => { p with waitq := p.waitq ++ [t] }
      s.block t (.sem i) (afterJoin timeout .parked) fun x => { x with
        state := { x.state with
          transient := x.state.transient || decide (0 < timeout)
          waitforSemph := true }
        waitingObject := some (.sem i)
        yieldCode := 0 }
  | .semPost i =>
    let s := s.modSem i fun p => { p with count := p.count + 1 }
    match (s.sem i).waitq with
    | [] => s.ret t (.bool true)
    | w :: rest =>
      let s := s.modSem i fun p => { p with waitq := rest }
      (s.take t [w] fun x => { x with
        state := { x.state with waitforSemph := false }
        yieldCode := 1 }).goto t (.waking .spin w [])
  | .condWait c m =>
    let s := s.modCond c fun p => { p with waitq := p.waitq ++ [t] }
    s.block t (.cond c) (.unlock .test m) fun x =>
      { x with state := { x.state with waitforCondv := true } }
  | .condTimedwait c m timeout =>
    if timeout = 0 then s.ret t (.bool false)
    else
      let s := s.modCond c fun p => { p with waitq := p.waitq ++ [t] }
      s.block t (.cond c) (afterJoin timeout (.unlock .test m)) fun x => { x with
        state := { x.state with
          transient := x.state.transient || decide (0 < timeout)
          waitforCondv := true }
        waitingObject := some (.cond c)
        yieldCode := 0 }
  | .condSignal c =>
    match (s.cond c).waitq with
    | [] => s.ret t (.bool true)
    | w :: rest =>
      let s := s.modCond c fun p => { p with waitq := rest }
      (s.take t [w] fun x => { x with
        state := { x.state with waitforCondv := false }
        yieldCode := 1 }).goto t (.waking .spin w [])
  | .condBroadcast c =>
    match (s.cond c).waitq with
    | [] => s.ret t (.bool true)
    | w :: rest =>
      let s := s.modCond c fun p => { p with waitq := [] }
      (s.take t (w :: rest) fun x => { x with
        state := { x.state with waitforCondv := false }
        yieldCode := 1 }).goto t (.waking .spin w rest)
  | .eventWait eventsIn options timeout =>
    let seized := (s.task t).pendingEvents &&& eventsIn
    if eventsSatisfy seized eventsIn options then
      (s.modTask t fun x => { x with pendingEvents := x.pendingEvents &&& ~~~seized }).ret t
        (.word seized)
    else if timeout = 0 then s.ret t (.word 0)
    else s.block t .event (afterJoin timeout .parked) fun x => { x with
      state := { x.state with
        transient := x.state.transient || decide (0 < timeout)
        waitforEvent := true }
      seizedEvents := 0
      waitingEvents := eventsIn
      waitingOptions := options }
  | .eventPost w eventsIn =>
    let s := s.modTask w fun x => { x with pendingEvents := x.pendingEvents ||| eventsIn }
    let x := s.task w
    let seized := x.pendingEvents &&& x.waitingEvents
    if x.state.waitforEvent ∧ eventsSatisfy seized x.waitingEvents x.waitingOptions then
      (s.take t [w] fun x => { x with
        pendingEvents := x.pendingEvents &&& ~~~seized
        seizedEvents := seized
        state := { x.state with waitforEvent := false } }).goto t (.waking .spin w [])
    else s.ret t (.word 0)
  | .mutexLock _ | .mutexUnlock _ | .usleep _ => s

/-- The first place of a call. -/
def firstPc : Call → Pc
  | .mutexLock m => .lock .test m
  | .mutexUnlock m => .unlock .test m
  | .usleep _ => .arm
  | _ => .enter

/-- What follows the insertion of the timer. -/
def afterArm : Option Call → Pc
  | some (.usleep _) => .doze
  | _ => .armed

/-- What follows the clearing of `STATES_TRANSIENT`. -/
def afterArmed : Option Call → Pc
  | some (.condTimedwait _ m _) => .unlock .test m
  | _ => .parked

/-! ## Waking -/

/-- What a post, a signal or a broadcast returns. -/
def wakeRet : Option Call → Ret
  | some (.eventPost ..) => .word 0
  | _ => .bool true

/-- The part of a post, a signal or a broadcast after its section. -/
def wake (w : TaskId) (rest : List TaskId) : WakePc → Option Sys
  | .spin => if (s.task w).state.transient then none else some (s.goto t (.waking .test w rest))
  | .test =>
    some (s.goto t (.waking (if (s.task w).state.waitTimeoutb then .remove else .ready) w rest))
  | .remove =>
    if s.tick (s.task w).scheduler = .idle then
      some ((s.fiberWatchdogRemove w).goto t (.waking .ready w rest))
    else none
  | .ready =>
    let s := (s.modTask w fun x => x.put .woken).emit (.woken t w)
    match rest with
    | [] => some (s.ret t (wakeRet (s.task t).call))
    | w' :: rest => some (s.goto t (.waking .spin w' rest))

/-! ## Steps of a task -/

/-- The next step of the call that `t` is in, but for the end of a wait. -/
def go : Option Sys :=
  let x := s.task t
  match x.pc with
  | .idle | .parked => none
  | .enter => x.call.map (s.enter t)
  | .arm => some ((s.fiberWatchdogInsert t).goto t (afterArm x.call))
  | .armed => some (s.modTask t fun x =>
    { x with state := { x.state with transient := false }, pc := afterArmed x.call })
  | .doze => some (s.block t .sleep .parked fun x =>
    { x with state := { x.state with inUsleep := true } })
  | .lock p m => s.mutexLock t m p
  | .unlock p m => some (s.mutexUnlock t m p)
  | .waking p w rest => s.wake t w rest p

/-- `t`, which is ready again, is switched to. -/
def resume : Option Sys :=
  let x := s.task t
  if x.place = .woken then
    let s := s.modTask t fun x => x.put .runs
    match x.pc, x.call with
    | .lock .parked m, _ => some (s.finishLock t m)
    | .parked, some (.condWait _ m) => some (s.goto t (.lock .test m))
    | .parked, some (.condTimedwait _ m _) => some (s.goto t (.lock .test m))
    | .parked, some (.semWait _) => some (s.ret t (.bool true))
    | .parked, some (.semTimedwait ..) => some (s.ret t (.bool (x.yieldCode == 1)))
    | .parked, some (.eventWait ..) => some (s.ret t (.word x.seizedEvents))
    | .parked, some (.usleep _) => some (s.ret t .none)
    | _, _ => none
  else none

/-! ## Steps of a tick -/

/-- The next step of the tick of `k` with the timer that it has taken off the list. -/
def tickGo (k : ThreadId) : Option Sys :=
  match s.tick k with
  | .idle | .pass => none
  | .test w n =>
    let st := (s.task w).state
    if st.waitforSemph || st.waitforCondv then some (s.setTick k (.object w n))
    else if st.waitforEvent then some (s.setTick k (.event w n))
    else if st.inUsleep then
      let s := s.modTask w fun x => { x with state := { x.state with inUsleep := false } }
      some ((s.expire w).setTick k .pass)
    else some (s.setTick k .pass)
  | .object w n => (s.task w).waitingObject.map fun o => s.setTick k (.locked w o n)
  | .locked w _ _ =>
    let st := (s.task w).state
    if st.waitforSemph || st.waitforCondv then
      let s := s.modTask w fun x =>
        { x with state := { x.state with waitforSemph := false, waitforCondv := false } }
      some (((s.unlink w).expire w).setTick k .pass)
    else some (s.setTick k .pass)
  | .event w _ =>
    if (s.task w).state.waitforEvent then
      let s := s.modTask w fun x => { x with state := { x.state with waitforEvent := false } }
      some ((s.expire w).setTick k .pass)
    else some (s.setTick k .pass)

end Sys

/-! ## Runs -/

inductive Move
  /-- `t` begins a call. -/
  | call (t : TaskId) (c : Call)
  | go (t : TaskId)
  /-- The thread `k` switches to `t`, which has waited. -/
  | resume (t : TaskId) (k : ThreadId)
  /-- The tick of `k` begins. -/
  | tickle (k : ThreadId)
  /-- It takes the timer of `w`, which has run out, off its list. -/
  | timer (k : ThreadId) (w : TaskId)
  | tickGo (k : ThreadId)
  | tickEnd (k : ThreadId)
deriving DecidableEq, Repr

namespace Sys

def step (s : Sys) : Move → Option Sys
  | .call t c =>
    if (s.task t).pc = .idle ∧ s.tick (s.task t).scheduler = .idle then
      some ((s.modTask t fun x =>
        { x with call := some c, pc := firstPc c, calls := x.calls + 1 }).emit (.begin t c))
    else none
  | .go t => if s.tick (s.task t).scheduler = .idle then s.go t else none
  | .resume t k =>
    if s.tick k = .idle then (s.modTask t fun x => { x with scheduler := k }).resume t else none
  | .tickle k => if s.tick k = .idle then some (s.setTick k .pass) else none
  | .timer k w =>
    if s.tick k = .pass ∧ w ∈ s.wadoglist k then
      let n := (s.task w).calls
      let s := { s with wadoglist := Function.update s.wadoglist k ((s.wadoglist k).erase w) }
      let s := s.modTask w fun x => { x with state := { x.state with waitTimeoutb := false } }
      some (s.setTick k (.test w n))
    else none
  | .tickGo k => s.tickGo k
  | .tickEnd k => if s.tick k = .pass then some (s.setTick k .idle) else none

end Sys

/-- The counts of the semaphores are `v`; the control blocks hold whatever they held before. -/
def init (v : SemId → Int32) (mem : TaskId → Task) : Sys where
  task t := { mem t with
    state := .ready
    call := none
    pc := .idle
    place := .runs
    calls := 0
    depth := fun _ => 0
    since := 0 }
  sem i := { count := (v i).toInt }

/-- The states of all runs. -/
def Reachable (v : SemId → Int32) (mem : TaskId → Task) (s : Sys) : Prop :=
  Reach Sys.step anyMove (init v mem) s

end Ptask.Agents
