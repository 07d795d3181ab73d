import Ptask.Lib.Reach
import Ptask.OneN.Api

/-!
# Runs of the 1:N build

A move is a call by the current task, the exit of the current task, a part of `fiber_scheduler`
when the maintask is current, or the passing of time. `permitted` is what the library relies on:
a task is resumed only while it is suspended, events are posted to live tasks and local data is
accessed on live tasks, an object is initialised again only when nobody uses it, the maintask
makes no call that can block, and `malloc` and `mmap` return fresh memory.
-/

namespace Ptask.OneN

open Ptask.Lib

/-! ## Calls that wait -/

end Ptask.OneN

namespace Ptask.Call

open Ptask.OneN

/-- The call can put its task to sleep. -/
def blocks : Call → Bool
  | .yield _ => true
  | .usleep _ => true
  | .eventWait _ _ timeout => timeout ≠ 0
  | .mutexLock _ => true
  | .semWait _ => true
  | .semTimedwait _ timeout => timeout ≠ 0
  | .condWait _ => true
  | .condTimedwait _ timeout => timeout ≠ 0
  | _ => false

/-- The call puts its task on the watchdog list while it waits. -/
def timed : Call → Bool
  | .usleep _ => true
  | .eventWait _ _ timeout => 0 < timeout
  | .semTimedwait _ timeout => 0 < timeout
  | .condTimedwait _ timeout => 0 < timeout
  | _ => false

/-- The timeout of a call. -/
def timeout : Call → Int32
  | .usleep usec => usec
  | .eventWait _ _ timeout => timeout
  | .semTimedwait _ timeout => timeout
  | .condTimedwait _ timeout => timeout
  | _ => timeoutInfinite
where
  /-- `FIBER_TIMEOUT_INFINITE`. -/
  timeoutInfinite : Int32 := -1

/-- The chain on which a task waits in the call. -/
def waitChain : Call → Option Chain
  | .mutexLock m => some (.mutex m)
  | .semWait i => some (.sem i)
  | .semTimedwait i _ => some (.sem i)
  | .condWait i => some (.cond i)
  | .condTimedwait i _ => some (.cond i)
  | _ => none

/-- The state word of a task that waits in the call. -/
def waitStates (c : Call) : States :=
  let timed := c.timed
  match c with
  | .yield _ => { suspended := true }
  | .usleep _ => { inUsleep := true, waitTimeoutb := timed }
  | .eventWait .. => { waitforEvent := true, waitTimeoutb := timed }
  | .mutexLock _ => { waitforMutex := true }
  | .semWait _ => { waitforSemph := true }
  | .semTimedwait .. => { waitforSemph := true, waitTimeoutb := timed }
  | .condWait _ => { waitforCondv := true }
  | .condTimedwait .. => { waitforCondv := true, waitTimeoutb := timed }
  | _ => {}

end Ptask.Call

namespace Ptask.OneN

open Ptask.Lib

/-! ## Moves -/

inductive Move
  /-- The current task calls a function of the library. -/
  | call (c : Call)
  /-- The entry function of the current task returns. -/
  | exit
  /-- Time passes. -/
  | elapse (us : Nat)
  | schedulerStart
  | schedulerPass
  | schedulerExhaust
  | schedulerLoopEnd
deriving DecidableEq, Repr

namespace Sched

/-- No task is inside a call on the chain `c`. -/
def unused (s : Sched) (c : Chain) : Bool :=
  (s.chain c).isEmpty && s.live.all fun t => (s.tcb t).frame.all fun k => k.waitChain ≠ some c

/-- The block of control blocks that `malloc` returns is in no use. -/
def freshTcbs (s : Sched) (tcbs : TaskId) : Bool :=
  (List.range TCB_INCREASE_SIZE_AT_EMPTY).all fun i =>
    (tcbs + i) ∉ s.live && (tcbs + i) ∉ s.pool.freedlist && (tcbs + i) ∉ s.pool.globalFreedlist

/-- What the library relies on when the current task makes the call. -/
def permittedCall (s : Sched) : Call → Bool
  | .create _ _ env =>
    env.malloc.all s.freshTcbs && env.mmap.all fun a => a ≠ 0 && s.cache.mapped.all (·.stackbase ≠ a)
  | .resume t => t ∈ s.live && (s.tcb t).state.suspended
  | .eventPost t _ => t ∈ s.live
  | .mutexInit m => s.unused (.mutex m) && (s.mutex m).holder.isNone
  | .semInit i _ => s.unused (.sem i)
  | .condInit i => s.unused (.cond i)
  | .setLocaldata t index _ => t ∈ s.live && 0 ≤ index
  | .getLocaldata t index => t ∈ s.live && 0 ≤ index
  | _ => true

/-- The maintask is in a callback of the scheduler loop. -/
def inCallback (s : Sched) : Bool := s.loop = .startup || s.loop = .msgloop

def permitted (s : Sched) : Move → Bool
  | .call c =>
    s.permittedCall c && (s.currentTask ≠ s.theMaintask || (s.inCallback && !c.blocks))
  | .exit => s.currentTask ≠ s.theMaintask
  | .elapse _ => true
  | .schedulerStart => s.currentTask = s.theMaintask && s.loop = .startup
  | .schedulerPass => s.currentTask = s.theMaintask && s.loop = .top
  | .schedulerExhaust => s.currentTask = s.theMaintask && s.loop = .exhaust
  | .schedulerLoopEnd => s.currentTask = s.theMaintask && s.loop = .msgloop

/-! ## Execution -/

def call (s : Sched) : Call → Option Sched
  | .create stackaddr stacksize env => some (s.fiberCreate stackaddr stacksize env)
  | .yield code => s.fiberYield code
  | .resume t => some (s.fiberResume t)
  | .schedYield => s.fiberSchedYield
  | .usleep usec => s.fiberUsleep usec
  | .eventWait eventsIn options timeout => s.fiberEventWait eventsIn options timeout
  | .eventPost t eventsIn => some (s.fiberEventPost t eventsIn)
  | .mutexInit m => some (s.fiberMutexInit m)
  | .mutexLock m => s.fiberMutexLock m
  | .mutexUnlock m => some (s.fiberMutexUnlock m)
  | .semInit i initval => some (s.fiberSemInit i initval)
  | .semWait i => s.fiberSemWait i
  | .semTimedwait i timeout => s.fiberSemTimedwait i timeout
  | .semPost i => some (s.fiberSemPost i)
  | .condInit i => some (s.fiberCondInit i)
  | .condWait i => s.fiberCondWait i
  | .condTimedwait i timeout => s.fiberCondTimedwait i timeout
  | .condSignal i => some (s.fiberCondSignal i)
  | .condBroadcast i => some (s.fiberCondBroadcast i)
  | .setLocaldata t index data => some (s.fiberSetLocaldata t index data)
  | .getLocaldata t index => some (s.fiberGetLocaldata t index)

def exec (s : Sched) : Move → Option Sched
  | .call c => s.call c
  | .exit => some s.cppTaskmain
  | .elapse us => some { s with clock := s.clock + us }
  | .schedulerStart => some s.schedulerStart
  | .schedulerPass => some s.schedulerPass
  | .schedulerExhaust => s.schedulerExhaust
  | .schedulerLoopEnd => some s.schedulerLoopEnd

/-- A permitted move. -/
def step (s : Sched) (m : Move) : Option Sched := if s.permitted m then s.exec m else none

end Sched

/-! ## Initial states -/

/-- What the start of the thread finds: the contents of all memory that control blocks will be
allocated in, the address of the maintask's control block, and the clock. -/
structure Boot where
  mem : TaskId → FibTCB := fun _ => {}
  delta : TaskId → Int32 := fun _ => 0
  maintask : TaskId := 0
  stackaddr : Addr := 1
  clock : Nat := 0

/-- `pthread_scheduler` has created the maintask on the thread's own stack and switched to it; every
synchronization object is initialised. -/
def boot (b : Boot) : Sched where
  tcb := Function.update b.mem b.maintask { b.mem b.maintask with
    state := .ready
    stackaddr := b.stackaddr
    stacksize := 0
    frame := none
    scheduler := b.maintask }
  delta := b.delta
  sem := fun _ => {}
  cond := fun _ => {}
  mutex := fun _ => {}
  readylist := [b.maintask]
  wadoglist := []
  currentTask := b.maintask
  theMaintask := b.maintask
  nLocalFibTasks := 1
  pool := {}
  cache := {}
  clock := b.clock
  prevStmp := 0
  loop := .startup
  live := [b.maintask]
  log := []

/-- The states of all runs. -/
def Reachable (b : Boot) (s : Sched) : Prop := Reach Sched.step anyMove (boot b) s

/-- A call of `fiber_create` that maps a new stack of 64 KiB; the first of them also allocates
control blocks. -/
def newTask (i : Nat) : Move :=
  .call (.create 0 65536 {
    malloc := if i = 0 then some 100 else none
    mmap := some (BitVec.ofNat 64 (0x100000 * (i + 1))) })

/-- The creation of the first `n` tasks. -/
def newTasks (n : Nat) : List Move := (List.range n).map newTask

end Ptask.OneN
