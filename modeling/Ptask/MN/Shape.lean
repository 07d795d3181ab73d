import Mathlib.Tactic.Ring
import Ptask.MN.Threads

/-!
# Every task is where its place says

The lists, the operations of the threads and the ghost places of the tasks agree (`Shape`), and the
counters count (`Counts`). A step moves at most one task; `Change` says what else it may do, and
both invariants follow from it.
-/

namespace Ptask.MN

open Ptask.Lib

/-! ## What a place means -/

namespace Place

/-- The task is on the ready list of the thread. -/
def listed : Place → Option ThreadId
  | .ready T | .counting T | .exiting T | .leaving T => some T
  | _ => none

/-- The task is in the wait queue. -/
def queue : Place → Option ObjId
  | .waiting _ i => some i
  | _ => none

/-- The task is in the hands of the thread. -/
def holder : Place → Option ThreadId
  | .creating T | .inserting T | .woken _ T | .transit T | .taking T | .counting T | .exiting T
  | .leaving T => some T
  | _ => none

/-- The field `scheduler` names the thread. -/
def home : Place → Option ThreadId
  | .inserting T | .ready T | .waiting T _ | .woken T _ | .taking T | .counting T | .exiting T
  | .leaving T => some T
  | _ => none

/-- The task is counted in `nLocalFibTasks` of the thread. -/
def countedAt : Place → Option ThreadId
  | .inserting T | .ready T | .waiting T _ | .woken T _ | .exiting T => some T
  | _ => none

/-- The task is counted in `nGlobalFibTasks`. -/
def counted : Place → Bool
  | .free | .exiting _ | .leaving _ => false
  | _ => true

/-- The task is neither on the ready list nor in the hands of another thread. -/
def within (p : Place) (T : ThreadId) : Prop :=
  (p.listed = none ∨ p.listed = some T) ∧ (p.holder = none ∨ p.holder = some T)

/-- The thread may still be executing the task: it runs there, or has been taken off a wait queue
before `swap_context`. -/
def mayRun (p : Place) (U : ThreadId) : Prop :=
  match p with
  | .free => False
  | .transit _ | .taking _ | .global _ => True
  | .creating T | .inserting T | .ready T | .waiting T _ | .woken T _ | .counting T | .exiting T
  | .leaving T => T = U

end Place

/-! ## What an operation means -/

namespace Thread

/-- The task that is in the hands of the thread. -/
def held (x : Thread) : Option TaskId :=
  match x.op with
  | .starting t | .startInserting t | .creating t | .overflowing t | .settling t | .inserting t
  | .waking t _ | .pushing t _ | .taking t | .counting t => some t
  | .exiting _ | .extracting _ => some x.currentTask
  | _ => none

/-- Where that task is. -/
def Stage (x : Thread) (T : ThreadId) (p : Place) : Prop :=
  match x.op with
  | .starting _ | .creating _ | .overflowing _ | .settling _ => p = .creating T
  | .startInserting _ | .inserting _ => p = .inserting T
  | .exiting _ => p = .exiting T
  | .extracting _ => p = .leaving T
  | .waking _ _ => ∃ U, p = .woken U T
  | .pushing _ _ => p = .transit T
  | .taking _ => p = .taking T
  | .counting _ => p = .counting T
  | _ => True

/-- The current task is on the ready list. -/
def runs (x : Thread) : Bool :=
  match x.op with
  | .idle | .creating _ | .overflowing _ | .settling _ | .inserting _ | .yielded | .swapping _
  | .waking _ false | .pushing _ false | .taking _ | .counting _ => true
  | _ => false

/-- The maintask is on the ready list. -/
def hasMaintask (x : Thread) : Bool :=
  x.runs || match x.op with
  | .blocked | .waking _ _ | .pushing _ _ | .finishing | .exiting false | .extracting false => true
  | _ => false

/-- The task whose registers are the thread's own. -/
def executing (x : Thread) : Option TaskId :=
  match x.op with
  | .absent | .joined | .finishing | .stopped | .gone => none
  | .swapping prev => some prev
  | _ => some x.currentTask

end Thread

section

variable {s : Sys} {T U : ThreadId} {t : TaskId} {n : Int}

@[simp] theorem Sys.addLocal_held : ((s.addLocal T n).thread U).held = (s.thread U).held := by
  apply Sys.modThread_kept (k := Thread.held)
  intro x
  rfl

@[simp] theorem Sys.insertBeforeMaintask_held : ((s.insertBeforeMaintask T t).thread U).held =
    (s.thread U).held := by
  apply Sys.modThread_kept (k := Thread.held)
  intro x
  rfl

end

/-- The operation puts the task that it holds under the count of its thread. -/
def Op.counts : Op → Bool
  | .starting _ | .settling _ | .counting _ => true
  | _ => false

/-- The maintask is returning. -/
def Op.quits : Op → Bool
  | .exiting true | .extracting true | .stopped | .gone => true
  | _ => false

/-- The thread `T` agrees with the places. -/
structure ThreadOk (place : TaskId → Place) (T : ThreadId) (x : Thread) : Prop where
  nodup : x.readylist.Nodup
  stage : ∀ t, x.held = some t → x.Stage T (place t)
  current : x.runs = true → place x.currentTask = .ready T
  maintask : x.hasMaintask = true → place x.theMaintask = .ready T
  finishing : x.op = .finishing → x.currentTask = x.theMaintask
  exits : ∀ b, x.op = .exiting b ∨ x.op = .extracting b → (b = true ↔ x.currentTask = x.theMaintask)
  starts : ∀ t, x.op = .starting t ∨ x.op = .startInserting t →
    x.currentTask = t ∧ x.theMaintask = t

structure Shape (s : Sys) : Prop where
  threads : ∀ T, ThreadOk s.place T (s.thread T)
  ready : ∀ T t, t ∈ (s.thread T).readylist ↔ (s.place t).listed = some T
  wait : ∀ i t, t ∈ s.waitq i ↔ (s.place t).queue = some i
  global : ∀ g t, t ∈ s.globalReadylist g ↔ s.place t = .global g
  held : ∀ T t, (s.thread T).held = some t ↔ (s.place t).holder = some T
  home : ∀ t T, (s.place t).home = some T → s.scheduler t = some T
  waitNodup : ∀ i, (s.waitq i).Nodup
  globalNodup : ∀ g, (s.globalReadylist g).Nodup

/-- The counters count the tasks by their places. -/
structure Counts (s : Sys) : Prop where
  local_ : ∀ T, (s.thread T).nLocalFibTasks =
    (s.tasks.filter fun t => (s.place t).countedAt = some T).card
  global : s.nGlobalFibTasks = (s.tasks.filter fun t => (s.place t).counted).card
  tasks : ∀ t, s.place t ≠ .free → t ∈ s.tasks

/-! ## What a step changes -/

/-- Whether a task with the place `p` counts for `T`, as a number. -/
def Place.weightAt (p : Place) (T : ThreadId) : Int := if p.countedAt = some T then 1 else 0

def Place.weight (p : Place) : Int := if p.counted then 1 else 0

/-- How registers are saved and loaded. -/
inductive Switching (s s' : Sys) (T : ThreadId) : Prop
  | create (t : TaskId) (hfree : s.place t = .free)
      (he : (s'.thread T).executing = (s.thread T).executing)
      (hs : s'.saved = Function.update s.saved t true)
  | start (t : TaskId) (hfree : s.place t = .free) (he : (s.thread T).executing = none)
      (he' : (s'.thread T).executing = some t) (hp' : s'.place t = .creating T)
      (hs : s'.saved = Function.update s.saved t false)
  | quit (he : (s.thread T).executing = some (s.thread T).currentTask)
      (he' : (s'.thread T).executing = none) (hfree : s'.place (s.thread T).currentTask = .free)
      (hs : s'.saved = s.saved)
  | swap (prev : TaskId) (he : (s.thread T).op = .swapping prev)
      (he' : (s'.thread T).executing = some (s.thread T).currentTask)
      (hs : s'.saved =
        Function.update (Function.update s.saved prev true) (s.thread T).currentTask false)
  | enter (he : (s.thread T).op = .finishing)
      (he' : (s'.thread T).executing = some (s.thread T).currentTask)
      (hs : s'.saved = Function.update s.saved (s.thread T).currentTask false)

/-- How service threads come and go. -/
inductive Roster (s s' : Sys) (T : ThreadId) : Prop
  | join (hop : (s.thread T).op = .absent) (hop' : (s'.thread T).op = .joined)
      (hj : s'.joined = insert T s.joined) (hm : s'.mServiceThreads = s.mServiceThreads + 1)
  | leave (hop : (s.thread T).op = .stopped) (hop' : (s'.thread T).op = .gone)
      (hj : s'.joined = s.joined) (hm : s'.mServiceThreads = s.mServiceThreads - 1)

/-- The maintask of the thread leaves the loop of `fiber_scheduler`. -/
structure LoopExit (s s' : Sys) (T : ThreadId) : Prop where
  op : (s.thread T).op = .idle
  current : (s.thread T).currentTask = (s.thread T).theMaintask
  local_ : (s.thread T).nLocalFibTasks = 1
  op' : (s'.thread T).op = .idle
  current' : (s'.thread T).currentTask = (s'.thread T).theMaintask
  maintask : (s'.thread T).theMaintask = (s.thread T).theMaintask
  place : s'.place = s.place

/-- What the step `a` of the thread `T` does to the thread itself. -/
structure Own (s s' : Sys) (T : ThreadId) (a : Act) : Prop where
  ok : ThreadOk s'.place T (s'.thread T)
  switching : (s'.thread T).executing = (s.thread T).executing ∧ s'.saved = s.saved ∨
    Switching s s' T
  swaps : ∀ prev, (s'.thread T).op = .swapping prev → prev ≠ (s'.thread T).currentTask
  roster : (s'.joined = s.joined ∧ s'.mServiceThreads = s.mServiceThreads ∧
      ((s'.thread T).op = .absent ↔ (s.thread T).op = .absent) ∧
      ((s'.thread T).op = .gone ↔ (s.thread T).op = .gone)) ∨
    Roster s s' T
  loop : (s'.thread T).loop = (s.thread T).loop ∨ (s'.thread T).loop ≠ .left ∨
    a = .loopEnd ∧ LoopExit s s' T
  quits : (s'.thread T).op.quits = false ∨ (s'.thread T).loop = (s.thread T).loop ∧
    ((s.thread T).op.quits = true ∨
      a = .exit ∧ (s.thread T).currentTask = (s.thread T).theMaintask)

/-- What a step does to the task `t` that it moves, apart from the lists and counters of the
threads. -/
structure Moved (s s' : Sys) (T : ThreadId) (t : TaskId) : Prop where
  place : ∀ u, u ≠ t → s'.place u = s.place u
  scheduler : ∀ u, u ≠ t → s'.scheduler u = s.scheduler u
  home : ∀ U, (s'.place t).home = some U → s'.scheduler t = some U
  wait : ∀ i u, u ≠ t → (u ∈ s'.waitq i ↔ u ∈ s.waitq i)
  wait' : ∀ i, t ∈ s'.waitq i ↔ (s'.place t).queue = some i
  waitNodup : ∀ i, (s'.waitq i).Nodup
  global : ∀ g u, u ≠ t → (u ∈ s'.globalReadylist g ↔ u ∈ s.globalReadylist g)
  global' : ∀ g, t ∈ s'.globalReadylist g ↔ s'.place t = .global g
  globalNodup : ∀ g, (s'.globalReadylist g).Nodup
  count : s'.nGlobalFibTasks = s.nGlobalFibTasks - (s.place t).weight + (s'.place t).weight
  tasks : s'.tasks = insert t s.tasks ∨
    s'.tasks = s.tasks ∧ (s.place t ≠ .free ∨ s'.place t = s.place t)
  counts : ∀ U, (s'.place t).countedAt = some U →
    (s.place t).countedAt = some U ∨ T = U ∧ (s.thread T).op.counts = true
  mayRun : ∀ U, (s.place t).mayRun U →
    (s'.place t).mayRun U ∨ T = U ∧ (s'.thread T).executing = none ∨
      (s.thread T).op = .taking t
  born : s.place t = .free →
    s'.place t = .free ∨ (s'.saved t = false ↔ (s'.thread T).executing = some t)

/-- The step `a` of the thread `T` moves no task but `t`. -/
structure Change (s s' : Sys) (T : ThreadId) (a : Act) (t : TaskId) : Prop
    extends Own s s' T a, Moved s s' T t where
  thread : ∀ U, U ≠ T → (s'.thread U).op = (s.thread U).op ∧
    (s'.thread U).currentTask = (s.thread U).currentTask ∧
    (s'.thread U).theMaintask = (s.thread U).theMaintask ∧ (s'.thread U).loop = (s.thread U).loop
  /-- The task belongs to no other thread. -/
  own : s'.place t = s.place t ∨
    ∀ U, U ≠ T → s.place t ≠ .ready U ∧ (s.place t).holder ≠ some U
  held : ∀ u, u ≠ t → ((s'.thread T).held = some u ↔ (s.thread T).held = some u)
  held' : ∀ U, (s'.thread U).held = some t ↔ (s'.place t).holder = some U
  ready : ∀ U u, u ≠ t → (u ∈ (s'.thread U).readylist ↔ u ∈ (s.thread U).readylist)
  ready' : ∀ U, t ∈ (s'.thread U).readylist ↔ (s'.place t).listed = some U
  nodup : ∀ U, (s'.thread U).readylist.Nodup
  local_ : ∀ U, (s'.thread U).nLocalFibTasks =
    (s.thread U).nLocalFibTasks - (s.place t).weightAt U + (s'.place t).weightAt U

/-- The step `a` of the thread `T` changes no other thread. -/
structure Local (s s' : Sys) (T : ThreadId) (t : TaskId) : Prop where
  thread : ∀ U, U ≠ T → s'.thread U = s.thread U
  within : (s.place t).within T
  within' : (s'.place t).within T
  countedAt : (s'.place t).countedAt = (s.place t).countedAt ∨
    ((s.place t).countedAt = none ∨ (s.place t).countedAt = some T) ∧
    ((s'.place t).countedAt = none ∨ (s'.place t).countedAt = some T)
  held : ∀ u, (s.thread T).held = some u ∨ (s'.thread T).held = some u → u = t
  held' : (s'.thread T).held = some t ↔ (s'.place t).holder = some T
  ready : ∀ u, u ≠ t → (u ∈ (s'.thread T).readylist ↔ u ∈ (s.thread T).readylist)
  ready' : t ∈ (s'.thread T).readylist ↔ (s'.place t).listed = some T
  local_ : (s'.thread T).nLocalFibTasks =
    (s.thread T).nLocalFibTasks - (s.place t).weightAt T + (s'.place t).weightAt T

/-- The thread `T` has the task `t` in its hands, and puts it on the ready list of another thread or
takes it off that one's count. -/
structure Remote (s s' : Sys) (T : ThreadId) (t : TaskId) : Prop where
  thread : ∀ U, U ≠ T → (s'.thread U).op = (s.thread U).op ∧
    (s'.thread U).currentTask = (s.thread U).currentTask ∧
    (s'.thread U).theMaintask = (s.thread U).theMaintask ∧ (s'.thread U).loop = (s.thread U).loop
  listed : (s.place t).listed = none
  holder : (s.place t).holder = some T
  holder' : (s'.place t).holder = none ∨ (s'.place t).holder = some T
  held : ∀ u, (s.thread T).held = some u ∨ (s'.thread T).held = some u → u = t
  held' : (s'.thread T).held = some t ↔ (s'.place t).holder = some T
  ready : ∀ U u, u ≠ t → (u ∈ (s'.thread U).readylist ↔ u ∈ (s.thread U).readylist)
  ready' : ∀ U, t ∈ (s'.thread U).readylist ↔ (s'.place t).listed = some U
  nodup : ∀ U, (s'.thread U).readylist.Nodup
  local_ : ∀ U, (s'.thread U).nLocalFibTasks =
    (s.thread U).nLocalFibTasks - (s.place t).weightAt U + (s'.place t).weightAt U

/-- A step of the thread `T` that moves no task. -/
structure Still (s s' : Sys) (T : ThreadId) : Prop where
  thread : ∀ U, U ≠ T → s'.thread U = s.thread U
  place : s'.place = s.place
  scheduler : s'.scheduler = s.scheduler
  wait : s'.waitq = s.waitq
  global : s'.globalReadylist = s.globalReadylist
  count : s'.nGlobalFibTasks = s.nGlobalFibTasks
  tasks : s'.tasks = s.tasks
  perm : (s'.thread T).readylist.Perm (s.thread T).readylist
  held : (s'.thread T).held = (s.thread T).held
  local_ : (s'.thread T).nLocalFibTasks = (s.thread T).nLocalFibTasks

section

variable {s s' : Sys} {T : ThreadId} {a : Act} {t : TaskId}

/-- Only the operation and the fields named decide what a thread has to agree with. -/
theorem ThreadOk.congr {place place' : TaskId → Place} {x x' : Thread} (h : ThreadOk place T x)
    (hop : x'.op = x.op) (hcur : x'.currentTask = x.currentTask)
    (hmain : x'.theMaintask = x.theMaintask) (hnd : x'.readylist.Nodup)
    (hheld : ∀ t, x.held = some t → place' t = place t)
    (hready : ∀ t, place t = .ready T → place' t = .ready T) : ThreadOk place' T x' := by
  have hheld' : x'.held = x.held := by simp only [Thread.held, hop, hcur]
  have hruns : x'.runs = x.runs := by simp only [Thread.runs, hop]
  have hhas : x'.hasMaintask = x.hasMaintask := by simp only [Thread.hasMaintask, hruns, hop]
  refine ⟨hnd, ?_, ?_, ?_, ?_, ?_, ?_⟩
  · intro t ht
    rw [hheld'] at ht
    have hs := h.stage t ht
    unfold Thread.Stage at hs ⊢
    rwa [hop, hheld t ht]
  · intro hr
    rw [hcur]
    exact hready _ (h.current (hruns ▸ hr))
  · intro hr
    rw [hmain]
    exact hready _ (h.maintask (hhas ▸ hr))
  · rw [hop, hcur, hmain]
    exact h.finishing
  · rw [hop, hcur, hmain]
    exact h.exits
  · rw [hop, hcur, hmain]
    exact h.starts

theorem Shape.nodup (h : Shape s) (U : ThreadId) : (s.thread U).readylist.Nodup :=
  (h.threads U).nodup

/-- A step that moves no task. -/
theorem Still.change (h : Shape s) (ho : Own s s' T a) (hs : Still s s' T) : Change s s' T a 0 := by
  have hready (U : ThreadId) (u : TaskId) :
      u ∈ (s'.thread U).readylist ↔ u ∈ (s.thread U).readylist := by
    by_cases hU : U = T
    · exact hU ▸ hs.perm.mem_iff
    · rw [hs.thread U hU]
  have hheld (U : ThreadId) : (s'.thread U).held = (s.thread U).held := by
    by_cases hU : U = T
    · exact hU ▸ hs.held
    · rw [hs.thread U hU]
  have hmoved : Moved s s' T 0 := by
    refine ⟨?_, ?_, ?_, ?_, ?_, ?_, ?_, ?_, ?_, ?_, .inr ⟨hs.tasks, .inr (by rw [hs.place])⟩, ?_, ?_,
      ?_⟩
    · intro u _
      rw [hs.place]
    · intro u _
      rw [hs.scheduler]
    · intro U
      rw [hs.place, hs.scheduler]
      exact h.home _ U
    · intro i u _
      rw [hs.wait]
    · intro i
      rw [hs.wait, hs.place, h.wait]
    · rw [hs.wait]
      exact h.waitNodup
    · intro g u _
      rw [hs.global]
    · intro g
      rw [hs.global, hs.place, h.global]
    · rw [hs.global]
      exact h.globalNodup
    · rw [hs.place, hs.count]
      omega
    · intro U hU
      exact .inl (hs.place ▸ hU)
    · intro U hU
      exact .inl (hs.place.symm ▸ hU)
    · intro hfree
      exact .inl (hs.place.symm ▸ hfree)
  refine ⟨ho, hmoved, ?_, .inl (by rw [hs.place]), ?_, ?_, ?_, ?_, ?_, ?_⟩
  · intro U hU
    rw [hs.thread U hU]
    exact ⟨rfl, rfl, rfl, rfl⟩
  · intro u _
    rw [hs.held]
  · intro U
    rw [hheld, hs.place, h.held]
  · intro U u _
    exact hready U u
  · intro U
    rw [hready, hs.place, h.ready]
  · intro U
    by_cases hU : U = T
    · exact hU ▸ hs.perm.nodup_iff.2 (h.nodup T)
    · rw [hs.thread U hU]
      exact h.nodup U
  · intro U
    rw [hs.place]
    have hU : (s'.thread U).nLocalFibTasks = (s.thread U).nLocalFibTasks := by
      by_cases hU : U = T
      · exact hU ▸ hs.local_
      · rw [hs.thread U hU]
    omega

/-- A step that changes no other thread. -/
theorem Local.change (h : Shape s) (ho : Own s s' T a) (hm : Moved s s' T t) (hl : Local s s' T t) :
    Change s s' T a t := by
  have hother {o : Option ThreadId} {U : ThreadId} (ho : o = none ∨ o = some T) (hU : U ≠ T) :
      o ≠ some U := by
    rcases ho with rfl | rfl
    · exact nofun
    · exact fun he => hU (Option.some.inj he).symm
  refine ⟨ho, hm, ?_, .inr ?_, ?_, ?_, ?_, ?_, ?_, ?_⟩
  · intro U hU
    rw [hl.thread U hU]
    exact ⟨rfl, rfl, rfl, rfl⟩
  · intro U hU
    refine ⟨?_, hother hl.within.2 hU⟩
    intro hp
    exact hother hl.within.1 hU (congrArg Place.listed hp)
  · intro u hu
    exact iff_of_false (fun h' => hu (hl.held u (.inr h'))) (fun h' => hu (hl.held u (.inl h')))
  · intro U
    by_cases hU : U = T
    · exact hU ▸ hl.held'
    · rw [hl.thread U hU, h.held]
      exact iff_of_false (hother hl.within.2 hU) (hother hl.within'.2 hU)
  · intro U u hu
    by_cases hU : U = T
    · exact hU ▸ hl.ready u hu
    · rw [hl.thread U hU]
  · intro U
    by_cases hU : U = T
    · exact hU ▸ hl.ready'
    · rw [hl.thread U hU, h.ready]
      exact iff_of_false (hother hl.within.1 hU) (hother hl.within'.1 hU)
  · intro U
    by_cases hU : U = T
    · exact hU ▸ ho.ok.nodup
    · rw [hl.thread U hU]
      exact h.nodup U
  · intro U
    by_cases hU : U = T
    · exact hU ▸ hl.local_
    · rw [hl.thread U hU]
      have hweight : (s'.place t).weightAt U = (s.place t).weightAt U := by
        unfold Place.weightAt
        rcases hl.countedAt with he | ⟨hc, hc'⟩
        · rw [he]
        · rw [if_neg (hother hc hU), if_neg (hother hc' hU)]
      omega

/-- A step on a task of another thread. -/
theorem Remote.change (h : Shape s) (ho : Own s s' T a) (hm : Moved s s' T t)
    (hr : Remote s s' T t) : Change s s' T a t := by
  refine ⟨ho, hm, hr.thread, .inr ?_, ?_, ?_, hr.ready, hr.ready', hr.nodup, hr.local_⟩
  · intro U hU
    refine ⟨?_, ?_⟩
    · intro hp
      have hl := hr.listed
      rw [hp] at hl
      cases hl
    · rw [hr.holder]
      exact fun he => hU (Option.some.inj he).symm
  · intro u hu
    exact iff_of_false (fun h' => hu (hr.held u (.inr h'))) (fun h' => hu (hr.held u (.inl h')))
  · intro U
    by_cases hU : U = T
    · exact hU ▸ hr.held'
    · obtain ⟨hop, hcur, -⟩ := hr.thread U hU
      have hsame : (s'.thread U).held = (s.thread U).held := by simp only [Thread.held, hop, hcur]
      rw [hsame, h.held, hr.holder]
      refine iff_of_false (fun he => hU (Option.some.inj he).symm) ?_
      rcases hr.holder' with he | he
      · rw [he]
        exact nofun
      · rw [he]
        exact fun he => hU (Option.some.inj he).symm

/-- **A change keeps the shape.** -/
theorem Shape.change (h : Shape s) (hc : Change s s' T a t) : Shape s' where
  threads U := by
    by_cases hU : U = T
    · exact hU ▸ hc.ok
    · obtain ⟨hop, hcur, hmain, -⟩ := hc.thread U hU
      have hmoved : s'.place t = s.place t ∨ s.place t ≠ .ready U ∧ (s.place t).holder ≠ some U :=
        hc.own.imp_right fun hown => hown U hU
      apply (h.threads U).congr hop hcur hmain (hc.nodup U)
      · intro u hu
        by_cases hut : u = t
        · subst hut
          exact hmoved.resolve_right fun hn => hn.2 ((h.held U u).1 hu)
        · exact hc.place u hut
      · intro u hu
        by_cases hut : u = t
        · subst hut
          exact (hmoved.resolve_right fun hn => hn.1 hu).trans hu
        · exact (hc.place u hut).trans hu
  ready U u := by
    by_cases hu : u = t
    · exact hu ▸ hc.ready' U
    · rw [hc.ready U u hu, hc.place u hu, h.ready]
  wait i u := by
    by_cases hu : u = t
    · exact hu ▸ hc.wait' i
    · rw [hc.wait i u hu, hc.place u hu, h.wait]
  global g u := by
    by_cases hu : u = t
    · exact hu ▸ hc.global' g
    · rw [hc.global g u hu, hc.place u hu, h.global]
  held U u := by
    by_cases hu : u = t
    · exact hu ▸ hc.held' U
    · rw [hc.place u hu, ← h.held]
      by_cases hU : U = T
      · exact hU ▸ hc.held u hu
      · obtain ⟨hop, hcur, -⟩ := hc.thread U hU
        simp only [Thread.held, hop, hcur]
  home u U hu := by
    by_cases hut : u = t
    · subst hut
      exact hc.home U hu
    · rw [hc.place u hut] at hu
      rw [hc.scheduler u hut]
      exact h.home u U hu
  waitNodup := hc.waitNodup
  globalNodup := hc.globalNodup

/-- The number of tasks whose place is one of those that `q` names, after one task has moved. -/
theorem card_filter_move {tasks : Finset TaskId} {place place' : TaskId → Place} {q : Place → Prop}
    [DecidablePred q] (ht : t ∈ tasks) (hp : ∀ u, u ≠ t → place' u = place u) :
    ((tasks.filter fun u => q (place' u)).card : Int) =
      (tasks.filter fun u => q (place u)).card - (if q (place t) then 1 else 0) +
        if q (place' t) then 1 else 0 := by
  have hrest : (tasks.erase t).filter (fun u => q (place' u)) =
      (tasks.erase t).filter fun u => q (place u) := by
    apply Finset.filter_congr
    intro u hu
    rw [hp u (Finset.ne_of_mem_erase hu)]
  have hcard (f : TaskId → Place) : ((tasks.filter fun u => q (f u)).card : Int) =
      ((tasks.erase t).filter fun u => q (f u)).card + if q (f t) then 1 else 0 := by
    conv_lhs => rw [← Finset.insert_erase ht]
    rw [Finset.filter_insert]
    split
    · rw [Finset.card_insert_of_notMem (by simp)]
      push_cast
      ring
    · ring
  rw [hcard place', hcard place, hrest]
  ring

theorem Counts.change (h : Counts s) (hc : Change s s' T a t) : Counts s' := by
  have hout (hn : t ∉ s.tasks) : s.place t = .free := by
    by_contra hne
    exact hn (h.tasks t hne)
  -- a count over the new set of tasks
  have hcard (q : Place → Prop) [DecidablePred q] (hq : ¬q .free) :
      ((s'.tasks.filter fun u => q (s'.place u)).card : Int) =
        (s.tasks.filter fun u => q (s.place u)).card - (if q (s.place t) then 1 else 0) +
          if q (s'.place t) then 1 else 0 := by
    have hinsert : ((insert t s.tasks).filter fun u => q (s.place u)).card =
        (s.tasks.filter fun u => q (s.place u)).card := by
      by_cases ht : t ∈ s.tasks
      · rw [Finset.insert_eq_of_mem ht]
      · rw [Finset.filter_insert, hout ht, if_neg hq]
    rcases hc.tasks with htasks | ⟨htasks, hsame⟩
    · rw [htasks, card_filter_move (Finset.mem_insert_self t s.tasks) hc.place, hinsert]
    · rw [htasks]
      by_cases ht : t ∈ s.tasks
      · exact card_filter_move ht hc.place
      · have hall : s'.place = s.place := by
          funext u
          by_cases hu : u = t
          · exact hu ▸ hsame.resolve_left fun hne => ht (h.tasks t hne)
          · exact hc.place u hu
        rw [hall]
        ring
  refine ⟨?_, ?_, ?_⟩
  · intro U
    rw [hc.local_ U, h.local_ U, hcard (fun p => p.countedAt = some U) (by simp [Place.countedAt])]
    rfl
  · rw [hc.count, h.global, hcard (fun p => p.counted = true) (by simp [Place.counted])]
    rfl
  · intro u hu
    have hmem : u ∈ s.tasks → u ∈ s'.tasks := by
      rcases hc.tasks with htasks | ⟨htasks, -⟩
      · rw [htasks]
        exact Finset.mem_insert_of_mem
      · rw [htasks]
        exact id
    by_cases hut : u = t
    · subst hut
      rcases hc.tasks with htasks | ⟨htasks, hin | hsame⟩
      · rw [htasks]
        exact Finset.mem_insert_self _ _
      · exact hmem (h.tasks u hin)
      · exact hmem (h.tasks u (hsame ▸ hu))
    · exact hmem (h.tasks u (hc.place u hut ▸ hu))

end

end Ptask.MN
