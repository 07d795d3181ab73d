import Mathlib.Algebra.Order.Ring.Int
import Ptask.Lib.Chains
import Ptask.Lib.Memory
import Ptask.StackCache

/-!
# The creation of a task

`fiber_create` with all that it reads and writes, on a service thread of either build, the call that
makes the thread's maintask included. Its allocations may fail. The value is `none` when the code
dereferences `NULL`: the pool of a thread, its cache and its counter belong to the `FibSCP` of its
maintask.
-/

namespace Ptask.Create

open Lib

/-- The build: `__1_N_MODEL__` is defined or not. -/
inductive Build
  | oneN
  | mN
deriving DecidableEq, Repr

def MAX_GLOBAL_GROUPS : Nat := 4

/-- The address of `asm_taskmain` and of `cpp_taskmain`. -/
structure Code where
  asmTaskmain : Addr
  cppTaskmain : Addr

/-- The fields of `FibTCB` that `fiber_create` writes. -/
structure Tcb where
  state : States := {}
  stackaddr : Addr := 0
  stacksize : BitVec 32 := 0
  entry : Addr := 0
  args : Addr := 0
  group : Nat := 0
  onTaskStartup : Addr := 0
  onTaskCleanup : Addr := 0
  regR12 : Addr := 0
  regR15 : Addr := 0
  regRip : Addr := 0
  regRsp : Addr := 0
  scheduler : Option TaskId := none

/-- What the environment answers: the allocations, and whether the `malloc` of `fibscp_alloc`
succeeds. -/
structure Env extends AllocEnv where
  scp : Bool := true
deriving DecidableEq, Repr

/-- The thread and the globals. The local parts of `pool` and `cache`, the ready list and the local
counter are the `FibSCP` of the maintask; without a maintask they do not exist. `live` is ghost
state. -/
structure Proc where
  theMaintask : Option TaskId := none
  currentTask : Option TaskId := none
  tcb : TaskId → Tcb := fun _ => {}
  pool : TcbPool := {}
  cache : StackCache := {}
  readylist : List TaskId := []
  globalReadylist : Nat → List TaskId := fun _ => []
  nLocalFibTasks : Int := 0
  nGlobalFibTasks : Int := 0
  mServiceThreads : Int := 1
  mem : Memory := fun _ => 0
  live : List TaskId := []

/-- `hash6432shift`. -/
def hash6432shift (key : BitVec 64) : BitVec 32 :=
  let key := ~~~key + key <<< 18
  let key := key ^^^ key >>> 31
  let key := key * 21
  let key := key ^^^ key >>> 11
  let key := key + key <<< 6
  let key := key ^^^ key >>> 22
  key.truncate 32

/-- A size in whole pages, in the arithmetic of `uint32_t`. -/
def roundUp (stacksize : BitVec 32) : BitVec 32 := ((stacksize + 4095) / 4096) * 4096

namespace Proc

def modTcb (s : Proc) (t : TaskId) (f : Tcb → Tcb) : Proc :=
  { s with tcb := Function.update s.tcb t (f (s.tcb t)) }

/-- `tcb_alloc`; without a maintask `malloc` is asked for one control block. -/
def tcbAlloc (s : Proc) (malloc : Option TaskId) : Option TaskId × Proc :=
  match s.theMaintask with
  | none => (malloc, s)
  | some _ =>
    let r := s.pool.alloc malloc
    (r.1, { s with pool := r.2 })

theorem tcbAlloc_none {s : Proc} (hm : s.theMaintask = none) (malloc : Option TaskId) :
    s.tcbAlloc malloc = (malloc, s) := by
  unfold tcbAlloc
  rw [hm]

theorem tcbAlloc_some {s : Proc} {m : TaskId} (hm : s.theMaintask = some m) (malloc : Option TaskId) :
    s.tcbAlloc malloc = ((s.pool.alloc malloc).1, { s with pool := (s.pool.alloc malloc).2 }) := by
  unfold tcbAlloc
  rw [hm]

/-- Only the pool is touched. -/
theorem tcbAlloc_pool (s : Proc) (malloc : Option TaskId) :
    ∃ p, s.tcbAlloc malloc = ((s.tcbAlloc malloc).1, { s with pool := p }) := by
  obtain hm | ⟨m, hm⟩ := Option.eq_none_or_eq_some s.theMaintask
  · rw [tcbAlloc_none hm]
    exact ⟨s.pool, rfl⟩
  · rw [tcbAlloc_some hm]
    exact ⟨_, rfl⟩

/-- `tcb_free`. -/
def tcbFree (s : Proc) (tcb : TaskId) : Option Proc :=
  s.theMaintask.map fun _ => { s with pool := s.pool.free tcb }

/-- The stack of a new task: from the cache or `mmap`, flagged, or that of the caller. -/
def newStack (s : Proc) (stackaddr : Addr) (stacksize : BitVec 32) (env : Env) : Proc × Slot :=
  if stackaddr = 0 then
    let r := s.cache.get s.theMaintask (roundUp stacksize) env.toAllocEnv
    ({ s with cache := r.1 }, { r.2 with stacksize := r.2.stacksize ||| MASK_SYSTEM_STACK })
  else (s, ⟨stackaddr, stacksize⟩)

/-- The control block of the new task, and the start address on a stack of the library. -/
def prepare (s : Proc) (code : Code) (theTask : TaskId) (func args : Addr) (stack : Slot) : Proc :=
  let s := s.modTcb theTask fun x => { x with
    stackaddr := stack.stackbase
    stacksize := stack.stacksize
    entry := func
    args := args
    group := (hash6432shift (BitVec.ofNat 64 theTask ^^^ stack.stackbase)).toNat % MAX_GLOBAL_GROUPS
    onTaskStartup := 0
    onTaskCleanup := 0
    regR12 := BitVec.ofNat 64 theTask
    regR15 := code.cppTaskmain
    regRip := code.asmTaskmain }
  let sp := stack.stackbase + (stack.stacksize &&& ~~~15#32).zeroExtend 64
  if stack.stacksize &&& MASK_SYSTEM_STACK ≠ 0 then
    let sp := sp - 8
    let s := { s with mem := s.mem.store64 sp (s.tcb theTask).regRip }
    s.modTcb theTask fun x => { x with regRsp := sp }
  else s.modTcb theTask fun x => { x with regRsp := sp }

/-- The first task of a thread becomes its maintask and gets a `FibSCP` (`fibscp_alloc`). -/
def ensureMaintask (s : Proc) (theTask : TaskId) (env : Env) : Option (TaskId × Proc) :=
  match s.theMaintask with
  | some theScheduler => some (theScheduler, s)
  | none =>
    if env.scp then
      some (theTask, { s with
        theMaintask := theTask
        currentTask := theTask
        pool := { s.pool with freedlist := [], freedsize := 0 }
        cache := { s.cache with cachedStackMask := 0xFF#32, cachedStack := fun _ => {} }
        readylist := []
        nLocalFibTasks := 0 })
    else none

/-- In the build with several service threads, a new task goes to the global list of its group when
the thread has more than its share of the tasks. -/
def overloaded (s : Proc) (build : Build) (theScheduler theTask : TaskId) : Bool :=
  build = .mN && theTask ≠ theScheduler &&
    ((s.nGlobalFibTasks * 7).tdiv 6 + s.mServiceThreads - 1).tdiv s.mServiceThreads <
      s.nLocalFibTasks

/-- The new task becomes ready. -/
def enqueue (s : Proc) (build : Build) (theScheduler theTask : TaskId) : Proc :=
  let s := { s with nGlobalFibTasks := s.nGlobalFibTasks + 1, live := theTask :: s.live }
  if s.overloaded build theScheduler theTask then
    let s := s.modTcb theTask fun x => { x with scheduler := none }
    let group := (s.tcb theTask).group
    { s with
      globalReadylist := Function.update s.globalReadylist group
        (s.globalReadylist group ++ [theTask]) }
  else
    let s := s.modTcb theTask fun x => { x with scheduler := theScheduler }
    let s := { s with nLocalFibTasks := s.nLocalFibTasks + 1 }
    { s with
      readylist :=
        if theTask ≠ theScheduler then insertBefore theScheduler theTask s.readylist
        else s.readylist ++ [theTask] }

/-- `fiber_create`: what it returns and leaves. -/
def fiberCreate (s : Proc) (build : Build) (code : Code) (func args stackaddr : Addr)
    (stacksize : BitVec 32) (env : Env) : Option (Option TaskId × Proc) :=
  let (theTask, s) := s.tcbAlloc env.malloc
  match theTask with
  | none => some (none, s)
  | some theTask =>
    let s := s.modTcb theTask fun x => { x with state := .ready }
    let (s, stack) := s.newStack stackaddr stacksize env
    if stack.stackbase = 0 then (s.tcbFree theTask).map fun s => (none, s)
    else
      let s := s.prepare code theTask func args stack
      (s.ensureMaintask theTask env).map fun (theScheduler, s) =>
        (some theTask, s.enqueue build theScheduler theTask)

end Proc

end Ptask.Create
