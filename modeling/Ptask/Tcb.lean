import Mathlib.Data.BitVec
import Mathlib.Logic.Function.Basic

/-!
# Task control blocks and synchronization objects

The records of `task.h`. A task is named by the address of its control block, a service thread by
the control block of its maintask. The link fields are not kept in the records: the chains they
form are lists of the state (`node` links the ready list or one wait queue, `link` the watchdog
list), and `delta_interval`, which only the watchdog functions read, is a map of the state.

A task that is inside a call when another task runs has the rest of that call on its stack; the
field `frame` says which call this is.
-/

namespace Ptask

abbrev TaskId := Nat
abbrev SemId := Nat
abbrev CondId := Nat
abbrev MutexId := Nat

/-- An address; `0` is `NULL`. -/
abbrev Addr := BitVec 64

/-- A mask of events. -/
abbrev EventMask := BitVec 64

def MAX_TASK_LOCALDATAS : Int32 := 4

def TASK_EVENT_WAIT_ANY : BitVec 32 := 0x00001#32

def MASK_SYSTEM_STACK : BitVec 32 := 0x00001#32

/-! ## State bits -/

/-- The word `FibTCB.state`, one field for each `STATES_*` constant. Every constant is a single
bit, and the code only sets, clears and tests them. -/
structure States where
  transient : Bool := false
  suspended : Bool := false
  inUsleep : Bool := false
  waitTimeoutb : Bool := false
  waitforEvent : Bool := false
  waitforMutex : Bool := false
  waitforSemph : Bool := false
  waitforCondv : Bool := false
deriving DecidableEq, Repr

/-- `STATES_READY`. -/
def States.ready : States := {}

/-! ## Calls -/

/-- What the environment answers to the allocations of one `fiber_create`: the base of the block of
control blocks that `malloc` returns, the region that `mmap` returns, and whether `mprotect`
succeeds. -/
structure AllocEnv where
  malloc : Option TaskId := none
  mmap : Option Addr := none
  mprotect : Bool := true
deriving DecidableEq, Repr

/-- The calls of the library interface. -/
inductive Call
  | create (stackaddr : Addr) (stacksize : BitVec 32) (env : AllocEnv)
  | yield (code : BitVec 64)
  | resume (t : TaskId)
  | schedYield
  | usleep (usec : Int32)
  | eventWait (eventsIn : EventMask) (options : BitVec 32) (timeout : Int32)
  | eventPost (t : TaskId) (eventsIn : EventMask)
  | mutexInit (m : MutexId)
  | mutexLock (m : MutexId)
  | mutexUnlock (m : MutexId)
  | semInit (i : SemId) (initval : Int32)
  | semWait (i : SemId)
  | semTimedwait (i : SemId) (timeout : Int32)
  | semPost (i : SemId)
  | condInit (i : CondId)
  | condWait (i : CondId)
  | condTimedwait (i : CondId) (timeout : Int32)
  | condSignal (i : CondId)
  | condBroadcast (i : CondId)
  | setLocaldata (t : TaskId) (index : Int32) (data : BitVec 64)
  | getLocaldata (t : TaskId) (index : Int32)
deriving DecidableEq, Repr

/-- What a call returns. -/
inductive Ret
  | none
  | bool (b : Bool)
  | word (w : BitVec 64)
  | task (t : Option TaskId)
deriving DecidableEq, Repr

/-! ## Records -/

/-- `FibTCB`. The fields that only name the task's code (`entry`, `args`, the callbacks and the
saved registers) are represented by `frame`. -/
structure FibTCB where
  stackaddr : Addr := 0
  stacksize : BitVec 32 := 0
  state : States := {}
  yieldCode : BitVec 64 := 0
  waitingOptions : BitVec 32 := 0
  pendingEvents : EventMask := 0
  waitingEvents : EventMask := 0
  seizedEvents : EventMask := 0
  scheduler : TaskId := 0
  taskLocalStorages : Int32 → BitVec 64 := fun _ => 0
  frame : Option Call := none

/-- `FibSemaphore`. `count` is an `int64_t` that one call changes by one. -/
structure FibSemaphore where
  count : Int := 0
  waitq : List TaskId := []
deriving DecidableEq, Repr

/-- `FibCondition`. -/
structure FibCondition where
  waitq : List TaskId := []
deriving DecidableEq, Repr

/-- `FibMutex`; a `holder` of `0` is `none`. -/
structure FibMutex where
  holder : Option TaskId := none
  reentries : BitVec 32 := 0
  waitq : List TaskId := []
deriving DecidableEq, Repr

/-- The test by which `fiber_event_wait` and `fiber_event_post` decide that the events `seized`
satisfy a wait for `events`. -/
def eventsSatisfy (seized events : EventMask) (options : BitVec 32) : Bool :=
  seized != 0 && (seized == events || options &&& TASK_EVENT_WAIT_ANY != 0)

end Ptask
