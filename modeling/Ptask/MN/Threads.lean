import Mathlib
import Ptask.Lib.Chains
import Ptask.Lib.Reach
import Ptask.Tcb

/-!
# The threads of the M:N build

`task.c` without `__1_N_MODEL__`, as far as it decides which task runs on which thread: the ready
lists of the service threads, the global ready lists, the counters, and where a task gives up its
thread. A step is one counter update, one section under a spinlock, one move between lists or one
`swap_context`; between its steps a thread may be overtaken by all others. Which wait queue a task
joins, and when it is taken off one again, is left open: the object-level conditions of the
semaphores, mutexes, conditions and events only exclude steps. In the load balance the tests and the
section that pops a task from a global ready list are one step.

`joined`, `tasks`, `place` and `saved` are ghost state.
-/

namespace Ptask.MN

open Ptask.Lib

abbrev ThreadId := Nat
abbrev ObjId := Nat

/-- `MAX_GLOBAL_GROUPS`. -/
abbrev MAX_GLOBAL_GROUPS : Nat := 4

instance : NeZero MAX_GLOBAL_GROUPS := ⟨by decide⟩

abbrev Group := Fin MAX_GLOBAL_GROUPS

/-- Where the maintask is in `fiber_scheduler`. -/
inductive LoopPc
  | startup
  | top
  | exhaust
  | msgloop
  | left
deriving DecidableEq, Repr

/-- What the thread has done of an operation that takes several steps. -/
inductive Op
  /-- The thread has not entered `pthread_scheduler`. -/
  | absent
  /-- It is counted in `mServiceThreads`. -/
  | joined
  /-- The maintask `t` is counted in `nGlobalFibTasks`. -/
  | starting (t : TaskId)
  /-- The maintask is also counted in `nLocalFibTasks`. -/
  | startInserting (t : TaskId)
  /-- The current task is in its own code, or the maintask in the loop. -/
  | idle
  /-- `fiber_create` has counted `t` in `nGlobalFibTasks`. -/
  | creating (t : TaskId)
  /-- The test has found too many local tasks. -/
  | overflowing (t : TaskId)
  /-- The test has not. -/
  | settling (t : TaskId)
  /-- `t` is counted in `nLocalFibTasks`. -/
  | inserting (t : TaskId)
  /-- `cpp_taskmain` has decremented `nGlobalFibTasks`. -/
  | exiting (isMaintask : Bool)
  /-- It has decremented `nLocalFibTasks`. -/
  | extracting (isMaintask : Bool)
  /-- The task is freed; the switch to the maintask is next. -/
  | finishing
  /-- The maintask has returned. -/
  | stopped
  | gone
  /-- The current task is in a wait queue; `fiber_sched` is next, after the unlock of the mutex in
  the waits for a condition. -/
  | blocked
  /-- The current task has moved to the end of the ready list; `fiber_sched` is next. -/
  | yielded
  /-- `fiber_sched` has changed `current_task`; `swap_context` is next. -/
  | swapping (prev : TaskId)
  /-- `w` is off its wait queue; `isBlocked` says that the waker itself is in one. -/
  | waking (w : TaskId) (isBlocked : Bool)
  /-- `w` has another scheduler, and that one's `nLocalFibTasks` is decremented. -/
  | pushing (w : TaskId) (isBlocked : Bool)
  /-- `t` is off a global ready list. -/
  | taking (t : TaskId)
  /-- `t` is on the local ready list and not yet counted. -/
  | counting (t : TaskId)
deriving DecidableEq, Repr

/-- The data of one service thread: `current_task`, `the_maintask` and `FibSCP`. -/
structure Thread where
  op : Op := .absent
  loop : LoopPc := .startup
  currentTask : TaskId := 0
  theMaintask : TaskId := 0
  readylist : List TaskId := []
  nLocalFibTasks : Int := 0
  group : Group := 0

/-- Where a task is. -/
inductive Place
  /-- The control block is in no use. -/
  | free
  | creating (by_ : ThreadId)
  | inserting (by_ : ThreadId)
  /-- On the ready list, or running. -/
  | ready (at_ : ThreadId)
  | waiting (at_ : ThreadId) (i : ObjId)
  /-- Taken off a wait queue by the thread `by_`, and still counted by the thread `at_`. -/
  | woken (at_ by_ : ThreadId)
  /-- Counted by no thread. -/
  | transit (by_ : ThreadId)
  | global (g : Group)
  | taking (by_ : ThreadId)
  | counting (by_ : ThreadId)
  | exiting (at_ : ThreadId)
  | leaving (at_ : ThreadId)
deriving DecidableEq, Repr

/-- The thread that counts a waiting task. -/
def Place.at_ : Place → ThreadId
  | .waiting T _ => T
  | _ => 0

@[simp] theorem Place.at_waiting {T : ThreadId} {i : ObjId} : (Place.waiting T i).at_ = T := rfl

structure Sys where
  thread : ThreadId → Thread := fun _ => {}
  scheduler : TaskId → Option ThreadId := fun _ => none
  group : TaskId → Group := fun _ => 0
  waitq : ObjId → List TaskId := fun _ => []
  globalReadylist : Group → List TaskId := fun _ => []
  mServiceThreads : Int := 0
  nGlobalFibTasks : Int := 0
  joined : Finset ThreadId := ∅
  tasks : Finset TaskId := ∅
  place : TaskId → Place := fun _ => .free
  saved : TaskId → Bool := fun _ => true

namespace Sys

@[simps -fullyApplied]
def modThread (s : Sys) (T : ThreadId) (f : Thread → Thread) : Sys :=
  { s with thread := Function.update s.thread T (f (s.thread T)) }

@[simps! -fullyApplied scheduler group waitq globalReadylist mServiceThreads nGlobalFibTasks joined
  tasks place saved]
def setOp (s : Sys) (T : ThreadId) (op : Op) : Sys := s.modThread T fun x => { x with op := op }

@[simps -fullyApplied]
def put (s : Sys) (t : TaskId) (p : Place) : Sys := { s with place := Function.update s.place t p }

@[simps -fullyApplied]
def setScheduler (s : Sys) (t : TaskId) (T : Option ThreadId) : Sys :=
  { s with scheduler := Function.update s.scheduler t T }

/-- `FAA` and `FAS` on `nLocalFibTasks`. -/
@[simps! -fullyApplied scheduler group waitq globalReadylist mServiceThreads nGlobalFibTasks joined
  tasks place saved]
def addLocal (s : Sys) (T : ThreadId) (n : Int) : Sys :=
  s.modThread T fun x => { x with nLocalFibTasks := x.nLocalFibTasks + n }

/-- `localReadyQProtectedInsertBefore`. -/
@[simps! -fullyApplied scheduler group waitq globalReadylist mServiceThreads nGlobalFibTasks joined
  tasks place saved]
def insertBeforeMaintask (s : Sys) (T : ThreadId) (t : TaskId) : Sys :=
  s.modThread T fun x => { x with readylist := insertBefore x.theMaintask t x.readylist }

/-- `pushIntoGlobalReadyList`. -/
def pushIntoGlobalReadyList (s : Sys) (t : TaskId) : Sys :=
  let g := s.group t
  let s := s.setScheduler t none
  { s with globalReadylist := Function.update s.globalReadylist g (s.globalReadylist g ++ [t]) }.put
    t
    (.global g)

/-- The threshold of the load balance when a task is created. -/
def createLimit (s : Sys) : Int :=
  Int.tdiv (Int.tdiv (s.nGlobalFibTasks * 7) 6 + s.mServiceThreads - 1) s.mServiceThreads

/-- The threshold of the take test in `fiber_scheduler`. -/
def takeLimit (s : Sys) : Int :=
  Int.tdiv (Int.tdiv (s.nGlobalFibTasks * 16) 15 + s.mServiceThreads - 1) s.mServiceThreads

/-! ## Starting an operation -/

/-- `pthread_scheduler` up to the count. -/
def join (s : Sys) (T : ThreadId) : Sys :=
  { s with mServiceThreads := s.mServiceThreads + 1, joined := insert T s.joined }.setOp T .joined

/-- `fiber_create` for the maintask, up to the count of all tasks. -/
def start (s : Sys) (T : ThreadId) (t : TaskId) (g : Group) : Sys :=
  let s := { s with
    nGlobalFibTasks := s.nGlobalFibTasks + 1
    tasks := insert t s.tasks
    group := Function.update s.group t g
    saved := Function.update s.saved t false }
  let s := s.modThread T fun x =>
    { x with theMaintask := t, currentTask := t, op := .starting t }
  s.put t (.creating T)

/-- `fiber_create` for any other task, up to the count of all tasks. -/
def fiberCreate (s : Sys) (T : ThreadId) (t : TaskId) (g : Group) : Sys :=
  let s := { s with
    nGlobalFibTasks := s.nGlobalFibTasks + 1
    tasks := insert t s.tasks
    group := Function.update s.group t g
    saved := Function.update s.saved t true }
  (s.setOp T (.creating t)).put t (.creating T)

/-- `cpp_taskmain` after the entry function has returned, up to the count of all tasks. -/
def cppTaskmain (s : Sys) (T : ThreadId) : Sys :=
  let x := s.thread T
  let s := { s with nGlobalFibTasks := s.nGlobalFibTasks - 1 }
  (s.setOp T (.exiting (x.currentTask = x.theMaintask))).put x.currentTask (.exiting T)

/-- The section of a blocking call: the current task joins a wait queue. -/
def block (s : Sys) (T : ThreadId) (i : ObjId) : Sys :=
  let t := (s.thread T).currentTask
  let s := s.modThread T fun x => { x with readylist := x.readylist.erase t, op := .blocked }
  { s with waitq := Function.update s.waitq i (s.waitq i ++ [t]) }.put t (.waiting T i)

/-- `fiber_sched_yield` up to `fiber_sched`. -/
def fiberSchedYield (s : Sys) (T : ThreadId) : Sys :=
  s.modThread T fun x =>
    let l := x.readylist.erase x.currentTask
    { x with
      readylist :=
        if x.currentTask = x.theMaintask then l ++ [x.currentTask]
        else insertBefore x.theMaintask x.currentTask l
      op := .yielded }

/-- The section of a post, a signal, an unlock or an event post: the first waiting task is taken
off the queue. -/
def wake (s : Sys) (T : ThreadId) (i : ObjId) : Option Sys :=
  match s.waitq i with
  | [] => none
  | w :: rest =>
    let s := { s with waitq := Function.update s.waitq i rest }
    let s := s.setOp T (.waking w ((s.thread T).op = .blocked))
    some (s.put w (.woken (s.place w).at_ T))

/-- `fiber_watchdog_tickle` for a task whose wait on `i` has expired. -/
def tickle (s : Sys) (T : ThreadId) (i : ObjId) (w : TaskId) : Sys :=
  let s := { s with waitq := Function.update s.waitq i ((s.waitq i).erase w) }
  (s.insertBeforeMaintask T w).put w (.ready T)

/-- The load balance of `fiber_scheduler` up to the take. -/
def balance (s : Sys) (T : ThreadId) : Sys :=
  let s := s.modThread T fun x => { x with loop := .exhaust }
  if (s.thread T).nLocalFibTasks < s.takeLimit then
    let g := (s.thread T).group
    let s := s.modThread T fun x => { x with group := g + 1 }
    match s.globalReadylist g with
    | [] => s
    | t :: rest =>
      let s := { s with globalReadylist := Function.update s.globalReadylist g rest }
      let s := s.setScheduler t (some T)
      (s.setOp T (.taking t)).put t (.taking T)
  else s

/-! ## Going on with an operation -/

/-- `fiber_sched`. -/
def fiberSched (s : Sys) (T : ThreadId) : Option Sys :=
  let x := s.thread T
  match x.readylist with
  | [] => none
  | theNext :: _ =>
    if theNext = x.currentTask then some (s.setOp T .idle)
    else
      let l := x.readylist.erase theNext
      some <| s.modThread T fun x => { x with
        currentTask := theNext
        readylist :=
          if theNext ≠ x.theMaintask then insertBefore x.theMaintask theNext l else l ++ [theNext]
        op := .swapping x.currentTask }

/-- The operation of a waker that was in a wait queue itself goes on with `fiber_sched`. -/
def resumed (isBlocked : Bool) : Op := if isBlocked then .blocked else .idle

/-- The next step of the operation that the thread is in. -/
def go (s : Sys) (T : ThreadId) : Option Sys :=
  let x := s.thread T
  match x.op with
  | .starting t =>
    let s := s.setScheduler t (some T)
    some (((s.addLocal T 1).setOp T (.startInserting t)).put t (.inserting T))
  | .startInserting t =>
    some ((s.modThread T fun x => { x with readylist := x.readylist ++ [t], op := .idle }).put t
      (.ready T))
  | .creating t =>
    some (s.setOp T (if s.createLimit < x.nLocalFibTasks then .overflowing t else .settling t))
  | .overflowing t => some ((s.pushIntoGlobalReadyList t).setOp T .idle)
  | .settling t =>
    let s := s.setScheduler t (some T)
    some (((s.addLocal T 1).setOp T (.inserting t)).put t (.inserting T))
  | .inserting t => some (((s.insertBeforeMaintask T t).setOp T .idle).put t (.ready T))
  | .exiting isMaintask =>
    (s.scheduler x.currentTask).map fun U =>
      ((s.addLocal U (-1)).setOp T (.extracting isMaintask)).put x.currentTask (.leaving T)
  | .extracting isMaintask =>
    (s.scheduler x.currentTask).map fun U =>
      let s := s.modThread T fun x => { x with readylist := x.readylist.erase x.currentTask }
      let s := s.put x.currentTask .free
      if isMaintask then s.setOp T .stopped
      else
        let theScheduler := (s.thread U).theMaintask
        s.modThread T fun x => { x with currentTask := theScheduler, op := .finishing }
  | .finishing =>
    some ({ s with saved := Function.update s.saved x.currentTask false }.setOp T .idle)
  | .stopped => some ({ s with mServiceThreads := s.mServiceThreads - 1 }.setOp T .gone)
  | .blocked => s.fiberSched T
  | .yielded => s.fiberSched T
  | .swapping prev =>
    let saved := Function.update s.saved prev true
    some ({ s with saved := Function.update saved x.currentTask false }.setOp T .idle)
  | .waking w isBlocked =>
    if s.scheduler w = s.scheduler x.currentTask then
      (s.scheduler w).map fun U =>
        ((s.insertBeforeMaintask U w).setOp T (resumed isBlocked)).put w (.ready U)
    else
      (s.scheduler w).map fun U =>
        ((s.addLocal U (-1)).setOp T (.pushing w isBlocked)).put w (.transit T)
  | .pushing w isBlocked => some ((s.pushIntoGlobalReadyList w).setOp T (resumed isBlocked))
  | .taking t => some (((s.insertBeforeMaintask T t).setOp T (.counting t)).put t (.counting T))
  | .counting t => some (((s.addLocal T 1).setOp T .idle).put t (.ready T))
  | .absent | .joined | .idle | .gone => none

/-! ## What the updates change -/

section

variable {s : Sys} {T U : ThreadId} {f : Thread → Thread} {t u : TaskId} {n : Int} {op : Op}

@[simp] theorem resumed_true : resumed true = .blocked := rfl

@[simp] theorem resumed_false : resumed false = .idle := rfl

/-- Changing fields of one thread changes a field of no thread that `f` keeps. -/
theorem modThread_kept {α : Type*} {k : Thread → α} (h : ∀ x, k (f x) = k x) (U : ThreadId) :
    k ((s.modThread T f).thread U) = k (s.thread U) := by
  by_cases hU : U = T
  · subst hU
    simp [h]
  · simp [hU]

@[simp] theorem addLocal_op : ((s.addLocal T n).thread U).op = (s.thread U).op := by
  apply modThread_kept (k := Thread.op)
  intro x
  rfl

@[simp] theorem addLocal_loop : ((s.addLocal T n).thread U).loop = (s.thread U).loop := by
  apply modThread_kept (k := Thread.loop)
  intro x
  rfl

@[simp] theorem addLocal_currentTask : ((s.addLocal T n).thread U).currentTask =
    (s.thread U).currentTask := by
  apply modThread_kept (k := Thread.currentTask)
  intro x
  rfl

@[simp] theorem addLocal_theMaintask : ((s.addLocal T n).thread U).theMaintask =
    (s.thread U).theMaintask := by
  apply modThread_kept (k := Thread.theMaintask)
  intro x
  rfl

@[simp] theorem addLocal_readylist : ((s.addLocal T n).thread U).readylist =
    (s.thread U).readylist := by
  apply modThread_kept (k := Thread.readylist)
  intro x
  rfl

@[simp] theorem insertBeforeMaintask_op : ((s.insertBeforeMaintask T t).thread U).op =
    (s.thread U).op := by
  apply modThread_kept (k := Thread.op)
  intro x
  rfl

@[simp] theorem insertBeforeMaintask_loop : ((s.insertBeforeMaintask T t).thread U).loop =
    (s.thread U).loop := by
  apply modThread_kept (k := Thread.loop)
  intro x
  rfl

@[simp] theorem insertBeforeMaintask_currentTask :
    ((s.insertBeforeMaintask T t).thread U).currentTask = (s.thread U).currentTask := by
  apply modThread_kept (k := Thread.currentTask)
  intro x
  rfl

@[simp] theorem insertBeforeMaintask_theMaintask :
    ((s.insertBeforeMaintask T t).thread U).theMaintask = (s.thread U).theMaintask := by
  apply modThread_kept (k := Thread.theMaintask)
  intro x
  rfl

@[simp] theorem insertBeforeMaintask_nLocalFibTasks :
    ((s.insertBeforeMaintask T t).thread U).nLocalFibTasks = (s.thread U).nLocalFibTasks := by
  apply modThread_kept (k := Thread.nLocalFibTasks)
  intro x
  rfl

@[simp] theorem setOp_loop : ((s.setOp T op).thread U).loop = (s.thread U).loop := by
  apply modThread_kept (k := Thread.loop)
  intro x
  rfl

@[simp] theorem setOp_currentTask : ((s.setOp T op).thread U).currentTask = (s.thread U).currentTask := by
  apply modThread_kept (k := Thread.currentTask)
  intro x
  rfl

@[simp] theorem setOp_theMaintask : ((s.setOp T op).thread U).theMaintask = (s.thread U).theMaintask := by
  apply modThread_kept (k := Thread.theMaintask)
  intro x
  rfl

@[simp] theorem setOp_readylist : ((s.setOp T op).thread U).readylist = (s.thread U).readylist := by
  apply modThread_kept (k := Thread.readylist)
  intro x
  rfl

@[simp] theorem setOp_nLocalFibTasks : ((s.setOp T op).thread U).nLocalFibTasks = (s.thread U).nLocalFibTasks := by
  apply modThread_kept (k := Thread.nLocalFibTasks)
  intro x
  rfl

@[simp] theorem setOp_op_self : ((s.setOp T op).thread T).op = op := by
  simp [setOp]

@[simp] theorem setOp_op_of_ne (h : U ≠ T) : ((s.setOp T op).thread U).op = (s.thread U).op := by
  simp [setOp, h]

@[simp] theorem addLocal_nLocalFibTasks : ((s.addLocal T n).thread U).nLocalFibTasks =
    (s.thread U).nLocalFibTasks + if T = U then n else 0 := by
  by_cases hU : U = T
  · subst hU
    simp [addLocal]
  · simp [addLocal, hU, Ne.symm hU]

@[simp] theorem mem_insertBeforeMaintask : u ∈ ((s.insertBeforeMaintask T t).thread U).readylist ↔
    T = U ∧ u = t ∨ u ∈ (s.thread U).readylist := by
  by_cases hU : U = T
  · subst hU
    simp [insertBeforeMaintask]
  · simp [insertBeforeMaintask, hU, Ne.symm hU]

theorem insertBeforeMaintask_nodup (ht : t ∉ (s.thread T).readylist)
    (h : (s.thread U).readylist.Nodup) :
    ((s.insertBeforeMaintask T t).thread U).readylist.Nodup := by
  by_cases hU : U = T
  · subst hU
    simpa [insertBeforeMaintask] using insertBefore_nodup ht h
  · simpa [insertBeforeMaintask, hU] using h

end

end Sys

/-! ## Runs -/

inductive Act
  | join
  | start (t : TaskId) (g : Group)
  | create (t : TaskId) (g : Group)
  | exit
  | block (i : ObjId)
  | yield
  | wake (i : ObjId)
  | tickle (i : ObjId) (w : TaskId)
  | startLoop
  | balance
  | exhaust
  | loopEnd
  /-- The next step of an operation that has been started. -/
  | go
deriving DecidableEq, Repr

/-- A step of a thread. -/
structure Move where
  thread : ThreadId
  act : Act
deriving DecidableEq, Repr

namespace Sys

/-- The thread is in the code of a task, or the maintask is in the callback `pc` or one of the
others. -/
def inCode (s : Sys) (T : ThreadId) (pcs : List LoopPc) : Bool :=
  let x := s.thread T
  x.op = .idle && (x.currentTask ≠ x.theMaintask || x.loop ∈ pcs)

/-- The maintask is at this point of the loop. -/
def inLoop (s : Sys) (T : ThreadId) (pc : LoopPc) : Bool :=
  let x := s.thread T
  x.op = .idle && x.currentTask = x.theMaintask && x.loop = pc

def step (s : Sys) (m : Move) : Option Sys :=
  let T := m.thread
  let x := s.thread T
  match m.act with
  | .join => if x.op = .absent then some (s.join T) else none
  | .start t g => if x.op = .joined && s.place t = .free then some (s.start T t g) else none
  | .create t g =>
    if s.inCode T [.startup] && s.place t = .free then some (s.fiberCreate T t g) else none
  | .exit => if s.inCode T [.left] then some (s.cppTaskmain T) else none
  | .block i => if s.inCode T [] then some (s.block T i) else none
  | .yield => if s.inCode T [.startup, .msgloop] then some (s.fiberSchedYield T) else none
  | .wake i =>
    if s.inCode T [.startup, .msgloop] || x.op = .blocked then s.wake T i else none
  | .tickle i w =>
    if s.inLoop T .top && w ∈ s.waitq i && s.scheduler w = some T then some (s.tickle T i w)
    else none
  | .startLoop =>
    if s.inLoop T .startup then some (s.modThread T fun x => { x with loop := .top }) else none
  | .balance => if s.inLoop T .top then some (s.balance T) else none
  | .exhaust =>
    if s.inLoop T .exhaust then
      if x.readylist.head? ≠ x.readylist.getLast? then some (s.fiberSchedYield T)
      else some (s.modThread T fun x => { x with loop := .msgloop })
    else none
  | .loopEnd =>
    if s.inLoop T .msgloop then
      some (s.modThread T fun x => { x with
        loop := if x.nLocalFibTasks = 1 then .left else .top })
    else none
  | .go => s.go T

end Sys

/-- Before the first service thread. -/
def init : Sys := {}

/-- The states of all runs. -/
def Reachable (s : Sys) : Prop := Reach Sys.step anyMove init s

end Ptask.MN
