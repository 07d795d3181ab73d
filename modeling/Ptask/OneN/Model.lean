import Ptask.Lib.Chains
import Ptask.StackCache

/-!
# The 1:N build

`task.c` compiled with `__1_N_MODEL__`: one service thread, spinlocks that are empty macros, and a
`fiber_mutex_*` interface that is empty as well (`_fiber_mutex_lock` and `_fiber_mutex_unlock` exist
under their own names). A call runs uninterrupted until `fiber_sched` switches to another task, so
every function maps the state at its start to the state in which some task is again in its own
code or in the scheduler loop. The value is `none` when `fiber_sched` finds the ready list empty:
there the code follows the sentinel of the list.

The macros of `chain.h` edit the lists as they do without strict aliasing. What the Makefile's
build makes of a broadcast is in `Aliasing` and `Sched.stepAs`.

The `log` (newest event first) and `live` are ghost state: no function reads them.
-/

namespace Ptask.OneN

open Ptask.Lib

/-- The chains that are threaded through the `node` link of the control blocks. -/
inductive Chain
  | ready
  | sem (i : SemId)
  | cond (i : CondId)
  | mutex (m : MutexId)
deriving DecidableEq, Repr

/-- Where the maintask is in `fiber_scheduler`: in `threadStartup`, at the top of the loop, at the
test of the inner `while`, in `threadMsgLoop` or after it, out of the loop. -/
inductive LoopPc
  | startup
  | top
  | exhaust
  | msgloop
  | left
deriving DecidableEq, Repr

/-- What is observed of a run. -/
inductive Ev
  /-- `t`'s call `c` returns `r`. -/
  | ret (t : TaskId) (c : Call) (r : Ret)
  /-- `t` starts to wait in call `c` when the clock reads `clock`. -/
  | park (t : TaskId) (c : Call) (clock : Nat)
  /-- Another task ends `t`'s wait in `c`, which will return `r`. -/
  | grant (t : TaskId) (c : Call) (r : Ret)
  /-- A tick ends `t`'s wait in `c` in a pass that reads `clock`. -/
  | expire (t : TaskId) (c : Call) (clock : Nat)
  /-- Events are posted to `t`. -/
  | posted (t : TaskId) (events : EventMask)
  /-- `t` posts a unit on the semaphore `i`. -/
  | unit (t : TaskId) (i : SemId)
  /-- Pending events of `t` are seized as the result of a wait. -/
  | seize (t : TaskId) (events : EventMask)
  | created (t : TaskId)
  | exited (t : TaskId)
deriving DecidableEq, Repr

/-- The state of the process. `delta` is the field `delta_interval` of every control block. -/
structure Sched where
  tcb : TaskId → FibTCB
  delta : TaskId → Int32
  sem : SemId → FibSemaphore
  cond : CondId → FibCondition
  mutex : MutexId → FibMutex
  readylist : List TaskId
  wadoglist : List TaskId
  currentTask : TaskId
  theMaintask : TaskId
  nLocalFibTasks : Int
  pool : TcbPool
  cache : StackCache
  clock : Nat
  prevStmp : UInt64
  loop : LoopPc
  live : List TaskId
  log : List Ev

namespace Sched

/-! ## Chains and fields -/

def chain (s : Sched) : Chain → List TaskId
  | .ready => s.readylist
  | .sem i => (s.sem i).waitq
  | .cond i => (s.cond i).waitq
  | .mutex m => (s.mutex m).waitq

def modTcb (s : Sched) (t : TaskId) (f : FibTCB → FibTCB) : Sched :=
  { s with tcb := Function.update s.tcb t (f (s.tcb t)) }

def modState (s : Sched) (t : TaskId) (f : States → States) : Sched :=
  s.modTcb t fun c => { c with state := f c.state }

def modSem (s : Sched) (i : SemId) (f : FibSemaphore → FibSemaphore) : Sched :=
  { s with sem := Function.update s.sem i (f (s.sem i)) }

def modCond (s : Sched) (i : CondId) (f : FibCondition → FibCondition) : Sched :=
  { s with cond := Function.update s.cond i (f (s.cond i)) }

def modMutex (s : Sched) (m : MutexId) (f : FibMutex → FibMutex) : Sched :=
  { s with mutex := Function.update s.mutex m (f (s.mutex m)) }

/-- `_CHAIN_REMOVE`: the links of the node tell which chain it leaves. -/
def unlink (s : Sched) (t : TaskId) : Sched :=
  { s with
    readylist := s.readylist.erase t
    sem := fun i => { s.sem i with waitq := (s.sem i).waitq.erase t }
    cond := fun i => { s.cond i with waitq := (s.cond i).waitq.erase t }
    mutex := fun m => { s.mutex m with waitq := (s.mutex m).waitq.erase t } }

/-- `localReadyQProtectedExtract`. -/
def localReadyQProtectedExtract (s : Sched) (theTask : TaskId) : Sched := s.unlink theTask

/-- `localReadyQProtectedInsertBefore`. -/
def localReadyQProtectedInsertBefore (s : Sched) (theSched theTask : TaskId) : Sched :=
  { s with readylist := insertBefore theSched theTask s.readylist }

/-- `_CHAIN_INSERT_TAIL` on the ready list. -/
def readyInsertTail (s : Sched) (theTask : TaskId) : Sched :=
  { s with readylist := s.readylist ++ [theTask] }

/-! ## Observations -/

def emit (s : Sched) (e : Ev) : Sched := { s with log := e :: s.log }

/-- The call `c` of `t` returns. -/
def ret (s : Sched) (t : TaskId) (c : Call) (r : Ret) : Sched := s.emit (.ret t c r)

/-- `t` is from now on inside the call `c`. -/
def enter (s : Sched) (t : TaskId) (c : Call) : Sched := s.modTcb t fun x => { x with frame := c }

/-- `t` starts to wait in the call `c`. -/
def park (s : Sched) (t : TaskId) (c : Call) : Sched := (s.enter t c).emit (.park t c s.clock)

/-- An observation about the call that `t` is in. -/
def emitFor (s : Sched) (t : TaskId) (e : Call → Ev) : Sched :=
  match (s.tcb t).frame with
  | some c => s.emit (e c)
  | none => s

/-! ## Switching -/

/-- What `t`'s call returns once `fiber_sched` has switched back to `t`. -/
def result (t : TaskId) (x : FibTCB) : Call → Ret
  | .yield _ => .task (some t)
  | .schedYield => .task (some t)
  | .eventWait .. => .word x.seizedEvents
  | .mutexLock _ => .bool true
  | .semWait _ => .bool true
  | .semTimedwait .. => .bool (x.yieldCode == 1)
  | .condWait _ => .bool true
  | .condTimedwait .. => .bool (x.yieldCode == 1)
  | _ => .none

/-- The current task was switched to: it starts its entry function or returns from its call. -/
def arrive (s : Sched) : Sched :=
  let t := s.currentTask
  match (s.tcb t).frame with
  | none => s
  | some c => (s.modTcb t fun x => { x with frame := none }).ret t c (result t (s.tcb t) c)

/-- `fiber_sched`. -/
def fiberSched (s : Sched) : Option Sched :=
  match s.readylist with
  | [] => none
  | theNext :: _ =>
    if theNext = s.currentTask then some s
    else
      let s := s.unlink theNext
      let s := { s with currentTask := theNext }
      some <|
        if theNext ≠ s.theMaintask then s.localReadyQProtectedInsertBefore s.theMaintask theNext
        else s.readyInsertTail theNext

/-- `fiber_sched` and what the task that it switches to does. -/
def schedule (s : Sched) : Option Sched := s.fiberSched.map arrive

/-- `fiber_setstate`. -/
def fiberSetstate (s : Sched) (theTask : TaskId) (states : States → States) : Option Sched :=
  let s := s.modState theTask states
  let s := s.localReadyQProtectedExtract theTask
  s.schedule

/-! ## Watchdog -/

/-- The loop of `fiber_watchdog_insert`: `d` is the local `delta_interval`, the list starts at
`after`. -/
def watchdogLoop (theTask : TaskId) :
    Int32 → List TaskId → (TaskId → Int32) → List TaskId × (TaskId → Int32)
  | d, [], delta => ([theTask], Function.update delta theTask d)
  | d, after :: rest, delta =>
    if d = 0 then (theTask :: after :: rest, Function.update delta theTask d)
    else if d < delta after then
      (theTask :: after :: rest,
        Function.update (Function.update delta after (delta after - d)) theTask d)
    else
      let r := watchdogLoop theTask (d - delta after) rest delta
      (after :: r.1, r.2)

/-- `fiber_watchdog_insert`. -/
def fiberWatchdogInsert (s : Sched) (theTask : TaskId) : Sched :=
  if (s.tcb theTask).state.waitTimeoutb then s
  else
    let r := watchdogLoop theTask (s.delta theTask) s.wadoglist s.delta
    let s := { s with wadoglist := r.1, delta := r.2 }
    s.modState theTask fun st => { st with waitTimeoutb := true }

/-- `CHAIN_NEXT` on the watchdog list, `none` at the sentinel. -/
def nextOf (t : TaskId) : List TaskId → Option TaskId
  | [] => none
  | x :: l => if x = t then l.head? else nextOf t l

/-- `fiber_watchdog_remove`. -/
def fiberWatchdogRemove (s : Sched) (theTask : TaskId) : Sched :=
  if (s.tcb theTask).state.waitTimeoutb then
    let s := match nextOf theTask s.wadoglist with
      | some nxt => { s with delta := Function.update s.delta nxt (s.delta nxt + s.delta theTask) }
      | none => s
    let s := { s with wadoglist := s.wadoglist.erase theTask }
    s.modState theTask fun st => { st with waitTimeoutb := false }
  else s

/-- The body of the loop of `fiber_watchdog_tickle` for an entry that has expired. -/
def tickleExpired (s : Sched) (theTask : TaskId) : Sched :=
  let s := { s with wadoglist := s.wadoglist.erase theTask }
  let s := s.modState theTask fun st => { st with waitTimeoutb := false }
  let wake (s : Sched) : Sched :=
    (s.localReadyQProtectedInsertBefore (s.tcb theTask).scheduler theTask).emitFor theTask
      fun c => .expire theTask c s.clock
  let st := (s.tcb theTask).state
  if st.waitforSemph || st.waitforCondv then
    let s := s.modState theTask fun st => { st with waitforSemph := false, waitforCondv := false }
    wake (s.unlink theTask)
  else if st.waitforEvent then
    wake (s.modState theTask fun st => { st with waitforEvent := false })
  else if st.inUsleep then
    wake (s.modState theTask fun st => { st with inUsleep := false })
  else s

/-- The loop of `fiber_watchdog_tickle`. The successor is read before the body runs, which takes
only the visited entry off the list. -/
def tickleLoop (gap : Int32) : List TaskId → Sched → Sched
  | [], s => s
  | theTask :: rest, s =>
    if s.delta theTask ≤ gap then tickleLoop gap rest (s.tickleExpired theTask)
    else { s with delta := Function.update s.delta theTask (s.delta theTask - gap) }

/-- `fiber_watchdog_tickle`. -/
def fiberWatchdogTickle (s : Sched) (gap : Int32) : Sched := tickleLoop gap s.wadoglist s

/-- The timeout part of the timed waits. -/
def armTimeout (s : Sched) (theTask : TaskId) (timeout : Int32) : Sched :=
  if 0 < timeout then
    let s := { s with delta := Function.update s.delta theTask timeout }
    let s := s.fiberWatchdogInsert theTask
    s.modState theTask fun st => { st with transient := false }
  else s

/-- The last part of the posts and signals: take `theFirst` off the watchdog list if it is on it and
put it on the ready list. -/
def readyWaiter (s : Sched) (theSched theFirst : TaskId) : Sched :=
  let s := if (s.tcb theFirst).state.waitTimeoutb then s.fiberWatchdogRemove theFirst else s
  s.localReadyQProtectedInsertBefore theSched theFirst

end Sched

end Ptask.OneN
