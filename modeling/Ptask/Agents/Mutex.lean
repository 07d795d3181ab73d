import Ptask.Agents.Order
import Ptask.Lib.HandoffLock

/-!
# The contract of the mutex

Each mutex, with what the tasks are doing with it, is a lock with hand-off (`Sys.view`), and every
step of a task or of a tick is one step of each of these locks (`Inv.step_view`).
-/

namespace Ptask.Agents

open Ptask.Lib Ptask.Lib.Handoff

/-! ## A mutex as a lock with hand-off -/

/-- What a task in `_fiber_mutex_lock` is doing. -/
def LockPc.role (p : LockPc) (place : Place) : Role TaskId :=
  match p, place with
  | .test, _ => .out
  | .nest, _ => .nest
  | .section_, _ => .arriving
  | .own, _ => .own
  | .parked, .held p => .given p
  | .parked, .woken => .woken
  | .parked, _ => .queued

/-- What a task in `_fiber_mutex_unlock` is doing. -/
def UnlockPc.role : UnlockPc → Role TaskId
  | .test => .out
  | .dec => .dec
  | .retest => .retest
  | .release => .release
  | .reent w => .giving w false
  | .clear w | .ready w => .giving w true

/-- What a task is doing with the mutex. -/
def Task.role (x : Task) (m : MutexId) : Role TaskId :=
  match x.pc with
  | .lock p m' => if m' = m then p.role x.place else .out
  | .unlock p m' => if m' = m then p.role else .out
  | _ => .out

/-- The places outside of the functions of the mutexes, and those before their first test. -/
def Pc.outside : Pc → Bool
  | .lock p _ => p = .test
  | .unlock p _ => p = .test
  | _ => true

/-- The mutex, with what the tasks are doing with it. -/
def Sys.view (s : Sys) (m : MutexId) : Lock TaskId where
  holder := (s.mutex m).holder
  count := (s.mutex m).reentries
  waitq := (s.mutex m).waitq
  role t := (s.task t).role m
  depth t := (s.task t).depth m

/-- A task that locks a mutex once more holds it at a depth below 2³² - 1. -/
def Task.shallow (x : Task) : Bool :=
  match x.pc with
  | .lock .nest m => x.depth m + 1 < 2 ^ 32
  | _ => true

def Sys.shallow (s : Sys) : Move → Bool
  | .go t => (s.task t).shallow
  | _ => true

section

variable {s s' : Sys} {t u w : TaskId} {m m' : MutexId} {pc : Pc} {q : Wait} {r : Ret}
  {f : Task → Task}

namespace Task

variable {x x' : Task}

theorem role_congr (hpc : x'.pc = x.pc) (hp : x'.place = x.place) : x'.role m = x.role m := by
  rw [role, role, hpc, hp]

/-- The place of a task matters only while it waits for the mutex. -/
theorem role_of_waiting (hpc : x'.pc = x.pc) (hw : x.waiting ≠ some (.mutex m)) :
    x'.role m = x.role m := by
  unfold waiting at hw
  rw [role, role, hpc]
  generalize x.pc = pc at hw
  cases pc with
  | lock p m' =>
    cases p with
    | parked =>
      have hm : m' ≠ m := fun e => hw (by rw [e])
      simp [hm]
    | _ => rfl
  | _ => rfl

theorem role_of_outside (h : x.pc.outside = true) : x.role m = .out := by
  unfold role
  generalize x.pc = pc at h
  cases pc with
  | lock p m' =>
    obtain rfl : p = .test := by simpa [Pc.outside] using h
    simp [LockPc.role]
  | unlock p m' =>
    obtain rfl : p = .test := by simpa [Pc.outside] using h
    simp [UnlockPc.role]
  | _ => rfl

theorem role_lock {p : LockPc} (hpc : x.pc = .lock p m) : x.role m = p.role x.place := by
  simp [role, hpc]

theorem role_unlock {p : UnlockPc} (hpc : x.pc = .unlock p m) : x.role m = p.role := by
  simp [role, hpc]

theorem role_lock_of_ne {p : LockPc} (hpc : x.pc = .lock p m') (hm : m' ≠ m) :
    x.role m = .out := by
  simp [role, hpc, hm]

theorem role_unlock_of_ne {p : UnlockPc} (hpc : x.pc = .unlock p m') (hm : m' ≠ m) :
    x.role m = .out := by
  simp [role, hpc, hm]

end Task

namespace Sys

/-! ### Operators -/

theorem view_congr (hm : s'.mutex m = s.mutex m)
    (hx : ∀ u, (s'.task u).role m = (s.task u).role m ∧ (s'.task u).depth = (s.task u).depth) :
    s'.view m = s.view m := by
  simp only [view, hm, fun u => (hx u).1, fun u => (hx u).2]

theorem view_modTask : (s.modTask t f).view m =
    (s.view m).set t ((f (s.task t)).role m) ((f (s.task t)).depth m) := by
  simp only [view, Lock.set, modTask_task, modTask_mutex, Lock.mk.injEq, true_and]
  refine ⟨funext fun u => ?_, funext fun u => ?_⟩ <;>
  · by_cases hu : u = t
    · subst hu
      simp
    · simp [hu]

@[simp] theorem view_emit (e : Ev) : (s.emit e).view m = s.view m := rfl

@[simp] theorem view_modSem (i : SemId) (f : FibSemaphore → FibSemaphore) :
    (s.modSem i f).view m = s.view m := rfl

@[simp] theorem view_modCond (c : CondId) (f : FibCondition → FibCondition) :
    (s.modCond c f).view m = s.view m := rfl

@[simp] theorem view_setTick (k : ThreadId) (p : TickPc) : (s.setTick k p).view m = s.view m := rfl

theorem view_modMutex (f : FibMutex → FibMutex) : (s.modMutex m f).view m =
    { s.view m with
      holder := (f (s.mutex m)).holder
      count := (f (s.mutex m)).reentries
      waitq := (f (s.mutex m)).waitq } := by
  simp [view]

theorem view_modMutex_of_ne (f : FibMutex → FibMutex) (hm : m' ≠ m) :
    (s.modMutex m' f).view m = s.view m :=
  view_congr (by simp [Ne.symm hm]) fun u => ⟨rfl, rfl⟩

theorem view_goto : (s.goto t pc).view m =
    (s.view m).set t (((s.task t).goto pc).role m) ((s.task t).depth m) :=
  view_modTask

theorem view_block : (s.block t q pc f).view m = (s.view m).set t
    (((f (s.task t)).join pc s.log.length).role m) ((f (s.task t)).depth m) := by
  rw [block, view_emit, view_modTask]
  rfl

theorem view_ret_eq {c : Call} (hc : (s.task t).call = some c) :
    (s.ret t r).view m = (s.view m).set t .out ((s.task t).depth m) := by
  rw [ret_eq hc, view_emit, view_modTask]
  rfl

theorem role_of_view (hv : s'.view m = s.view m) (u : TaskId) :
    (s'.task u).role m = (s.task u).role m :=
  congrFun (congrArg Lock.role hv) u

theorem view_finishLock {c : Call} (hc : (s.task t).call = some c) : (s.finishLock t m).view m =
    (s.view m).set t .out ((s.task t).depth m + 1) := by
  obtain ⟨r, hr⟩ := s.finishLock_eq (m := m) hc
  rw [hr, view_emit, view_modTask, Task.done_depth, Task.setDepth_depth, Function.update_self]
  rfl

/-! ### Steps outside of the mutex -/

theorem view_modTask_of_same (hv : s'.view m = s.view m)
    (hr : (f (s'.task t)).role m = (s'.task t).role m)
    (hd : (f (s'.task t)).depth m = (s'.task t).depth m) : (s'.modTask t f).view m = s.view m := by
  rw [view_modTask, Lock.set_self hr.symm hd.symm, hv]

theorem view_goto_of_same (hv : s'.view m = s.view m)
    (hr : ((s'.task t).goto pc).role m = (s'.task t).role m) : (s'.goto t pc).view m = s.view m :=
  view_modTask_of_same hv hr rfl

theorem view_goto_of_out (hv : s'.view m = s.view m) (hr : (s.task t).role m = .out)
    (hpc : ((s'.task t).goto pc).role m = .out) : (s'.goto t pc).view m = s.view m :=
  view_goto_of_same hv (hpc.trans ((role_of_view hv t).trans hr).symm)

theorem view_ret_of_out (hv : s'.view m = s.view m) (hr : (s.task t).role m = .out) :
    (s'.ret t r).view m = s.view m := by
  unfold ret
  split
  · rw [view_emit]
    exact view_modTask_of_same hv ((role_of_view hv t).trans hr).symm rfl
  · exact hv

theorem view_block_of_out (hv : s'.view m = s.view m) (hr : (s.task t).role m = .out)
    (hpc : ((f (s'.task t)).join pc s'.log.length).role m = .out)
    (hd : (f (s'.task t)).depth = (s'.task t).depth) : (s'.block t q pc f).view m = s.view m := by
  rw [block, view_emit]
  exact view_modTask_of_same hv (hpc.trans ((role_of_view hv t).trans hr).symm) (by simp [hd])

theorem view_take {ws : List TaskId} (hv : s'.view m = s.view m)
    (hf : ∀ x : Task, (f x).pc = x.pc ∧ (f x).depth = x.depth)
    (hw : ∀ w ∈ ws, (s'.task w).waiting ≠ some (.mutex m)) :
    (s'.take t ws f).view m = s.view m := by
  refine Eq.trans ?_ hv
  refine view_congr rfl fun u => ?_
  simp only [take_task]
  split
  · next hu => exact ⟨Task.role_of_waiting (hf _).1 (hw u hu), (hf _).2⟩
  · exact ⟨rfl, rfl⟩

/-- The end of a lock is a step of that mutex only. -/
theorem view_finishLock_of_out (hv : s'.view m = s.view m) (hr : (s.task t).role m = .out)
    (hm : m' ≠ m) : (s'.finishLock t m').view m = s.view m := by
  have hd := view_modTask_of_same (t := t)
    (f := fun x : Task => x.setDepth m' (x.depth m' + 1)) hv (Task.role_congr rfl rfl)
    (by simp [Ne.symm hm])
  unfold finishLock
  dsimp only
  split <;> exact view_ret_of_out hd hr

theorem view_finishUnlock {b : Bool} : (s.finishUnlock t b).view m =
    (s.view m).set t .out ((s.task t).depth m) := by
  unfold finishUnlock
  split
  · next hc => exact view_ret_eq hc
  · exact view_goto

theorem view_finishUnlock_of_out {b : Bool} (hv : s'.view m = s.view m)
    (hr : (s.task t).role m = .out) : (s'.finishUnlock t b).view m = s.view m := by
  rw [view_finishUnlock, ← hv]
  exact Lock.set_self ((role_of_view hv t).trans hr) rfl

theorem view_expire (hv : s'.view m = s.view m) (hw : (s'.task w).waiting ≠ some (.mutex m)) :
    (s'.expire w).view m = s.view m := by
  rw [expire, view_emit]
  exact view_modTask_of_same hv (Task.role_of_waiting rfl hw) rfl

theorem view_unlink (hv : s'.view m = s.view m) (hw : w ∉ (s.mutex m).waitq) :
    (s'.unlink w).view m = s.view m := by
  have hq : (s'.mutex m).waitq = (s.mutex m).waitq := congrArg Lock.waitq hv
  have he : (s'.unlink w).view m = s'.view m := by
    refine view_congr ?_ fun u => ⟨rfl, rfl⟩
    change { s'.mutex m with waitq := (s'.mutex m).waitq.erase w } = s'.mutex m
    rw [List.erase_of_not_mem (hq ▸ hw)]
  rw [he, hv]

theorem view_take_singleton : (s.take t [w] id).view m =
    (s.view m).set w (((s.task w).put (.held t)).role m) ((s.task w).depth m) := by
  have ht : (s.take t [w] id).task = (s.modTask w fun x => x.put (.held t)).task := by
    funext u
    by_cases hu : u = w
    · subst hu
      simp
    · simp [hu]
  have hv : (s.take t [w] id).view m = (s.modTask w fun x => x.put (.held t)).view m :=
    view_congr rfl fun u => by rw [ht]; exact ⟨rfl, rfl⟩
  rw [hv, view_modTask]
  rfl

end Sys

/-! ## The calls -/

namespace Inv

variable (h : Inv s)
include h

/-- A task in another queue is not parked on the mutex. -/
theorem waiting_ne_mutex (hw : w ∈ s.queue q) (hq : q ≠ .mutex m) :
    (s.task w).waiting ≠ some (.mutex m) := by
  rw [((h.queue q w).1 hw).2.2]
  simpa using hq

/-- The first section of a call is outside of the mutexes. -/
theorem view_enter {c : Call} (hpc : (s.task t).pc = .enter) :
    (s.enter t c).view m = s.view m := by
  have hr : (s.task t).role m = .out := Task.role_of_outside (by rw [hpc]; rfl)
  have hafter (timeout : Int32) (pc : Pc) (hpc : pc.outside = true) (x : Task) (n : Nat) :
      (x.join (Sys.afterJoin timeout pc) n).role m = .out := by
    refine Task.role_of_outside ?_
    rw [Task.join_pc, Sys.afterJoin]
    split
    · rfl
    · exact hpc
  cases c with
  | semWait i =>
    simp only [Sys.enter]
    split
    · exact Sys.view_ret_of_out rfl hr
    · exact Sys.view_block_of_out rfl hr rfl rfl
  | semTimedwait i timeout =>
    simp only [Sys.enter]
    split
    · exact Sys.view_ret_of_out rfl hr
    · split
      · exact Sys.view_ret_of_out rfl hr
      · exact Sys.view_block_of_out rfl hr (hafter _ _ rfl ..) rfl
  | condWait c m' =>
    simp only [Sys.enter]
    exact Sys.view_block_of_out rfl hr (by simp [Task.role, UnlockPc.role]) rfl
  | condTimedwait c m' timeout =>
    simp only [Sys.enter]
    split
    · exact Sys.view_ret_of_out rfl hr
    · exact Sys.view_block_of_out rfl hr (hafter _ _ rfl ..) rfl
  | eventWait eventsIn options timeout =>
    simp only [Sys.enter]
    split
    · exact Sys.view_ret_of_out (Sys.view_modTask_of_same rfl rfl rfl) hr
    · split
      · exact Sys.view_ret_of_out rfl hr
      · exact Sys.view_block_of_out rfl hr (hafter _ _ rfl ..) rfl
  | semPost i =>
    simp only [Sys.enter]
    split
    · exact Sys.view_ret_of_out rfl hr
    · next w rest hq =>
      have hq : s.queue (.sem i) = w :: rest := by simpa [Sys.queue] using hq
      have hw : ∀ v ∈ [w], (s.task v).waiting ≠ some (.mutex m) :=
        fun v hv => h.waiting_ne_mutex (q := .sem i) (by simp_all) (by rintro ⟨⟩)
      exact Sys.view_goto_of_out (Sys.view_take rfl (fun x => ⟨rfl, rfl⟩) hw) hr rfl
  | condSignal c =>
    simp only [Sys.enter]
    split
    · exact Sys.view_ret_of_out rfl hr
    · next w rest hq =>
      have hq : s.queue (.cond c) = w :: rest := by simpa [Sys.queue] using hq
      have hw : ∀ v ∈ [w], (s.task v).waiting ≠ some (.mutex m) :=
        fun v hv => h.waiting_ne_mutex (q := .cond c) (by simp_all) (by rintro ⟨⟩)
      exact Sys.view_goto_of_out (Sys.view_take rfl (fun x => ⟨rfl, rfl⟩) hw) hr rfl
  | condBroadcast c =>
    simp only [Sys.enter]
    split
    · exact Sys.view_ret_of_out rfl hr
    · next w rest hq =>
      have hq : s.queue (.cond c) = w :: rest := by simpa [Sys.queue] using hq
      have hw : ∀ v ∈ w :: rest, (s.task v).waiting ≠ some (.mutex m) :=
        fun v hv => h.waiting_ne_mutex (q := .cond c) (by simp_all) (by rintro ⟨⟩)
      exact Sys.view_goto_of_out (Sys.view_take rfl (fun x => ⟨rfl, rfl⟩) hw) hr rfl
  | eventPost w eventsIn =>
    simp only [Sys.enter]
    split
    · next hsat =>
      have hbit : (s.task w).state.waitforEvent = true := by simpa using hsat.1
      have hw : (s.task w).waiting ≠ some (.mutex m) := by
        rw [(h.event_of_bit hbit).2]
        rintro ⟨⟩
      refine Sys.view_goto_of_out (Sys.view_take (Sys.view_modTask_of_same rfl rfl rfl) ?_ ?_) hr rfl
      · exact fun x => ⟨rfl, rfl⟩
      · intro v hv
        obtain rfl : v = w := by simpa using hv
        simpa [Task.waiting] using hw
    · exact Sys.view_ret_of_out (Sys.view_modTask_of_same rfl rfl rfl) hr
  | _ => rfl

/-- `_fiber_mutex_lock` makes the steps of the lock. -/
theorem step_mutexLock {p : LockPc} (hpc : (s.task t).pc = .lock p m')
    (hs : s.mutexLock t m' p = some s')
    (hd : (s.task t).shallow = true) : (s.view m).Step (some t) (s'.view m) := by
  obtain ⟨c, hc, -⟩ := h.call_of_pc hpc nofun
  by_cases hm : m' = m
  · subst hm
    have hr : ((s.view m').role t) = p.role (s.task t).place := Task.role_lock hpc
    cases p with
    | test =>
      obtain rfl := Option.some.inj hs
      have hrole : ((s.task t).goto (.lock (if (s.mutex m').holder = some t then .nest else .section_)
          m')).role m' = if (s.view m').holder = some t then .nest else .arriving := by
        rw [Task.role_lock rfl]
        unfold Sys.view
        split <;> rfl
      rw [Sys.view_goto, hrole]
      exact .test t hr
    | nest =>
      obtain rfl := Option.some.inj hs
      rw [Sys.view_finishLock (s := s.modMutex m' _) hc, Sys.view_modMutex]
      refine .nest t hr ?_
      simpa [Task.shallow, hpc, Sys.view] using hd
    | section_ =>
      simp only [Sys.mutexLock] at hs
      split at hs
      · next hh =>
        obtain rfl := Option.some.inj hs
        rw [Sys.view_goto, Sys.view_modMutex, Task.role_lock rfl]
        exact .seize t hr hh
      · next hh =>
        obtain rfl := Option.some.inj hs
        rw [Sys.view_block, Sys.view_modMutex, Task.role_lock rfl]
        exact .park t hr hh
    | own =>
      obtain rfl := Option.some.inj hs
      rw [Sys.view_finishLock (s := s.modMutex m' _) hc, Sys.view_modMutex]
      exact .own t hr
    | parked => cases hs
  · have hr : (s.task t).role m = .out := Task.role_lock_of_ne hpc hm
    refine .of_eq ?_
    cases p with
    | test =>
      obtain rfl := Option.some.inj hs
      exact Sys.view_goto_of_out rfl hr (Task.role_lock_of_ne rfl hm)
    | nest =>
      obtain rfl := Option.some.inj hs
      exact Sys.view_finishLock_of_out (Sys.view_modMutex_of_ne _ hm) hr hm
    | section_ =>
      simp only [Sys.mutexLock] at hs
      split at hs
      · obtain rfl := Option.some.inj hs
        exact Sys.view_goto_of_out (Sys.view_modMutex_of_ne _ hm) hr (Task.role_lock_of_ne rfl hm)
      · obtain rfl := Option.some.inj hs
        exact Sys.view_block_of_out (Sys.view_modMutex_of_ne _ hm) hr (Task.role_lock_of_ne rfl hm)
          rfl
    | own =>
      obtain rfl := Option.some.inj hs
      exact Sys.view_finishLock_of_out (Sys.view_modMutex_of_ne _ hm) hr hm
    | parked => cases hs

/-- `_fiber_mutex_unlock` makes the steps of the lock. -/
theorem step_mutexUnlock {p : UnlockPc} (hpc : (s.task t).pc = .unlock p m') :
    (s.view m).Step (some t) ((s.mutexUnlock t m' p).view m) := by
  by_cases hm : m' = m
  · subst hm
    have hr : (s.view m').role t = p.role := Task.role_unlock hpc
    cases p with
    | test =>
      simp only [Sys.mutexUnlock]
      split
      · exact .of_eq (Sys.view_finishUnlock_of_out rfl hr)
      · next hh =>
        rw [Sys.view_goto, Task.role_unlock rfl]
        exact .check t hr (not_not.1 hh)
    | dec =>
      rw [Sys.mutexUnlock, Sys.view_goto, Sys.view_modMutex, Task.role_unlock rfl]
      exact .dec t hr
    | retest =>
      simp only [Sys.mutexUnlock]
      split
      · next hc =>
        rw [Sys.view_finishUnlock, Sys.view_modTask, Lock.set_set, Sys.modTask_task,
          Function.update_self, Task.setDepth_depth, Function.update_self]
        exact .inner t hr hc
      · next hc =>
        rw [Sys.view_goto, Task.role_unlock rfl]
        exact .outer t hr (not_not.1 hc)
    | release =>
      simp only [Sys.mutexUnlock]
      split
      · next hq =>
        rw [Sys.view_finishUnlock, Sys.view_modTask, Lock.set_set, Sys.view_modMutex,
          Sys.modTask_task, Function.update_self, Task.setDepth_depth, Function.update_self]
        have hnil : (s.mutex m').waitq = [] := List.head?_eq_none_iff.1 hq
        have htail : (s.mutex m').waitq.tail = (s.mutex m').waitq := by rw [hnil, List.tail_nil]
        rw [hq, htail]
        exact .free t hr hnil
      · next w hq =>
        obtain ⟨rest, hcons⟩ := List.head?_eq_some_iff.1 hq
        obtain ⟨-, -, hw⟩ := (h.queue (.mutex m') w).1 (List.mem_of_mem_head? hq)
        have hpcw := Task.pc_of_waiting hw
        have hwt : w ≠ t := by
          rintro rfl
          rw [hpc] at hpcw
          cases hpcw
        rw [hq]
        have htail : (s.mutex m').waitq.tail = rest := by rw [hcons, List.tail_cons]
        let s₁ := (s.modMutex m' fun p => { p with waitq := p.waitq.tail, holder := some w }).modTask t
          fun x => x.setDepth m' (x.depth m' - 1)
        have hdt : ((s₁.take t [w] id).task t).depth m' = (s.task t).depth m' - 1 := by
          simp [s₁, Ne.symm hwt]
        have htw : s₁.task w = s.task w := by simp [s₁, hwt]
        have hrw : ((s.task w).put (.held t)).role m' = .given t :=
          Task.role_lock (x := (s.task w).put (.held t)) hpcw
        rw [Sys.view_goto, hdt, Sys.view_take_singleton, htw, hrw, Sys.view_modTask, Lock.set_set_set,
          Sys.view_modMutex, htail, Task.role_unlock rfl]
        exact .give t w rest hr hcons
    | reent w =>
      rw [Sys.mutexUnlock, Sys.view_goto, Sys.view_modMutex, Task.role_unlock rfl]
      exact .mark t w hr
    | clear w =>
      refine .of_eq ?_
      have hv : (s.modTask w fun x => { x with state := { x.state with waitforMutex := false } }).view
          m' = s.view m' := Sys.view_modTask_of_same rfl (Task.role_congr rfl rfl) rfl
      have hrole := (Sys.role_of_view hv t).trans hr
      have hgoto (x : Task) : (x.goto (.unlock (.ready w) m')).role m' = .giving w true :=
        Task.role_unlock (x := x.goto (.unlock (.ready w) m')) rfl
      exact Sys.view_goto_of_same hv ((hgoto _).trans hrole.symm)
    | ready w =>
      have hw : w ∈ (s.task t).pc.held := by
        rw [hpc]
        exact List.mem_singleton_self w
      have hpcw := Task.pc_of_waiting (h.handoff t m' w (by rw [hpc]; rfl) hw)
      have hrw : ((s.task w).put .woken).role m' = .woken :=
        Task.role_lock (x := (s.task w).put .woken) hpcw
      have hwt := h.ne_of_held hw
      have ht : ((s.modTask w fun x => x.put .woken).emit (.woken t w)).task t = s.task t := by
        simp [Ne.symm hwt]
      rw [Sys.mutexUnlock, Sys.view_finishUnlock, ht, Sys.view_emit, Sys.view_modTask, hrw]
      exact .wake t w hr
  · have hr : (s.task t).role m = .out := Task.role_unlock_of_ne hpc hm
    refine .of_eq ?_
    have hout (p' : UnlockPc) (x : Task) : (x.goto (.unlock p' m')).role m = .out :=
      Task.role_unlock_of_ne rfl hm
    have hdepth {s₁ : Sys} (hv : s₁.view m = s.view m) : (s₁.modTask t fun x =>
        x.setDepth m' (x.depth m' - 1)).view m = s.view m :=
      Sys.view_modTask_of_same hv (Task.role_congr rfl rfl) (by simp [Ne.symm hm])
    have hmut (f : FibMutex → FibMutex) : (s.modMutex m' f).view m = s.view m :=
      Sys.view_modMutex_of_ne f hm
    cases p with
    | test =>
      simp only [Sys.mutexUnlock]
      split
      · exact Sys.view_finishUnlock_of_out rfl hr
      · exact Sys.view_goto_of_out rfl hr (hout ..)
    | dec => exact Sys.view_goto_of_out (hmut _) hr (hout ..)
    | retest =>
      simp only [Sys.mutexUnlock]
      split
      · exact Sys.view_finishUnlock_of_out (hdepth rfl) hr
      · exact Sys.view_goto_of_out rfl hr (hout ..)
    | release =>
      simp only [Sys.mutexUnlock]
      split
      · exact Sys.view_finishUnlock_of_out (hdepth (hmut _)) hr
      · next w hq =>
        have hw := h.waiting_ne_mutex (q := .mutex m') (List.mem_of_mem_head? hq) (by simpa using hm)
        refine Sys.view_goto_of_out (Sys.view_take (hdepth (hmut _)) (fun x => ⟨rfl, rfl⟩) ?_) hr
          (hout ..)
        intro v hv
        obtain rfl : v = w := by simpa using hv
        by_cases hvt : v = t
        · subst hvt
          simpa using hw
        · simpa [hvt] using hw
    | reent w => exact Sys.view_goto_of_out (hmut _) hr (hout ..)
    | clear w =>
      exact Sys.view_goto_of_out (Sys.view_modTask_of_same rfl (Task.role_congr rfl rfl) rfl) hr
        (hout ..)
    | ready w =>
      rw [Sys.mutexUnlock]
      refine Sys.view_finishUnlock_of_out ?_ hr
      rw [Sys.view_emit]
      refine Sys.view_modTask_of_same rfl (Task.role_of_waiting rfl ?_) rfl
      rw [h.handoff t m' w (by rw [hpc]; rfl) (by rw [hpc]; exact List.mem_singleton_self w)]
      simpa using hm

/-- A task that a signal or a post makes ready is not parked on the mutex. -/
theorem waiting_of_waking (hok : (s.view m).Ok) {p : WakePc} {rest : List TaskId}
    (hpc : (s.task t).pc = .waking p w rest) : (s.task w).waiting ≠ some (.mutex m) := by
  intro hw
  have hp : (s.task w).place = .held t := (h.held t w).1 (by rw [hpc]; exact List.mem_cons_self)
  have hr : (s.view m).role w = .given t := by
    refine (Task.role_lock (Task.pc_of_waiting hw)).trans ?_
    rw [hp]
    rfl
  obtain ⟨b, hb⟩ := hok.given w t hr
  have hout : (s.view m).role t = .out := Task.role_of_outside (by rw [hpc]; rfl)
  rw [hout] at hb
  cases hb

theorem view_wake (hok : (s.view m).Ok) {p : WakePc} {rest : List TaskId}
    (hpc : (s.task t).pc = .waking p w rest) (hs : s.wake t w rest p = some s') :
    s'.view m = s.view m := by
  have hr : (s.task t).role m = .out := Task.role_of_outside (by rw [hpc]; rfl)
  cases p with
  | spin =>
    simp only [Sys.wake] at hs
    split at hs
    · cases hs
    · obtain rfl := Option.some.inj hs
      exact Sys.view_goto_of_out rfl hr rfl
  | test =>
    obtain rfl := Option.some.inj hs
    exact Sys.view_goto_of_out rfl hr rfl
  | remove =>
    simp only [Sys.wake] at hs
    split at hs
    · obtain rfl := Option.some.inj hs
      refine Sys.view_goto_of_out (Sys.view_congr (by simp) fun u => ?_) hr rfl
      rw [Sys.fiberWatchdogRemove_task]
      exact ⟨rfl, rfl⟩
    · cases hs
  | ready =>
    have hv : ((s.modTask w fun x => x.put .woken).emit (.woken t w)).view m = s.view m := by
      rw [Sys.view_emit]
      exact Sys.view_modTask_of_same rfl (Task.role_of_waiting rfl (h.waiting_of_waking hok hpc)) rfl
    cases rest with
    | nil =>
      obtain rfl := Option.some.inj hs
      exact Sys.view_ret_of_out hv hr
    | cons w' rest =>
      obtain rfl := Option.some.inj hs
      exact Sys.view_goto_of_out hv hr rfl

theorem step_go (hok : (s.view m).Ok) (hs : s.go t = some s')
    (hd : (s.task t).shallow = true) : (s.view m).Step (some t) (s'.view m) := by
  have hout (hpc : (s.task t).pc.outside = true) : (s.task t).role m = .out :=
    Task.role_of_outside hpc
  unfold Sys.go at hs
  dsimp only at hs
  split at hs
  · cases hs
  · cases hs
  · next hpc =>
    obtain ⟨c, hc, rfl⟩ := Option.map_eq_some_iff.1 hs
    exact .of_eq (h.view_enter hpc)
  · next hpc =>
    obtain rfl := Option.some.inj hs
    refine .of_eq (Sys.view_goto_of_out (Sys.view_congr (by simp) fun u => ?_)
      (hout (by rw [hpc]; rfl)) (Task.role_of_outside ?_))
    · rw [Sys.fiberWatchdogInsert_task]
      exact ⟨rfl, rfl⟩
    · rw [Task.goto_pc]
      unfold Sys.afterArm
      split <;> rfl
  · next hpc =>
    obtain rfl := Option.some.inj hs
    refine .of_eq (Sys.view_modTask_of_same rfl
      ((Task.role_of_outside ?_).trans (hout (by rw [hpc]; rfl)).symm) rfl)
    unfold Sys.afterArmed
    dsimp only
    split <;> rfl
  · next hpc =>
    obtain rfl := Option.some.inj hs
    exact .of_eq (Sys.view_block_of_out rfl (hout (by rw [hpc]; rfl)) rfl rfl)
  · next p m' hpc => exact h.step_mutexLock hpc hs hd
  · next hpc =>
    obtain rfl := Option.some.inj hs
    exact h.step_mutexUnlock hpc
  · next hpc => exact .of_eq (h.view_wake hok hpc hs)

/-- A task that has waited for the mutex holds it when it goes on. -/
theorem step_resume {k : ThreadId}
    (hs : (s.modTask t fun x => { x with scheduler := k }).resume t = some s') :
    (s.view m).Step (some t) (s'.view m) := by
  have hv (hne : (s.task t).pc ≠ .lock .parked m) : ((s.modTask t fun x =>
      { x with scheduler := k }).modTask t fun x => x.put .runs).view m = s.view m := by
    have hw : (s.task t).waiting ≠ some (.mutex m) := fun hw => hne (Task.pc_of_waiting hw)
    refine Sys.view_modTask_of_same (Sys.view_modTask_of_same rfl (Task.role_congr rfl rfl) rfl)
      (Task.role_of_waiting rfl ?_) rfl
    simpa [Task.waiting] using hw
  unfold Sys.resume at hs
  simp only [Sys.modTask_task, Function.update_self] at hs
  split at hs
  · next hp =>
    split at hs
    · next m' hpc =>
      obtain rfl := Option.some.inj hs
      obtain ⟨c, hc, -⟩ := h.call_of_pc hpc (by rintro ⟨⟩)
      by_cases hm : m' = m
      · subst hm
        have hr : (s.view m').role t = .woken := by
          refine (Task.role_lock hpc).trans ?_
          rw [hp]
          rfl
        rw [Sys.view_finishLock (c := c) (by simpa using hc), Sys.view_modTask, Sys.view_modTask,
          Lock.set_set, Lock.set_set]
        simp only [Sys.modTask_task, Function.update_self]
        exact .resume t hr
      · have hr : (s.task t).role m = .out := Task.role_lock_of_ne hpc hm
        refine .of_eq (Sys.view_finishLock_of_out (hv ?_) hr hm)
        rw [hpc]
        simpa using hm
    · next hpc hcall =>
      obtain rfl := Option.some.inj hs
      exact .of_eq (Sys.view_goto_of_out (hv (by rw [hpc]; rintro ⟨⟩))
        (Task.role_of_outside (by rw [hpc]; rfl)) (Task.role_of_outside rfl))
    · next hpc hcall =>
      obtain rfl := Option.some.inj hs
      exact .of_eq (Sys.view_goto_of_out (hv (by rw [hpc]; rintro ⟨⟩))
        (Task.role_of_outside (by rw [hpc]; rfl)) (Task.role_of_outside rfl))
    all_goals
      first
      | next hpc _ =>
        obtain rfl := Option.some.inj hs
        exact .of_eq (Sys.view_ret_of_out (hv (by rw [hpc]; rintro ⟨⟩))
          (Task.role_of_outside (by rw [hpc]; rfl)))
      | cases hs
  · cases hs

/-- A tick is outside of the mutexes. -/
theorem view_tickGo {k : ThreadId} (hs : s.tickGo k = some s') : s'.view m = s.view m := by
  have hne {w : TaskId} {q : Wait} (hw : (s.task w).waiting = some q) (hq : q ≠ .mutex m) :
      (s.task w).waiting ≠ some (.mutex m) := by
    rw [hw]
    simpa using hq
  unfold Sys.tickGo at hs
  dsimp only at hs
  split at hs
  · cases hs
  · cases hs
  · next w n htick =>
    split at hs
    · obtain rfl := Option.some.inj hs
      rfl
    · split at hs
      · obtain rfl := Option.some.inj hs
        rfl
      · split at hs
        · next hb =>
          obtain rfl := Option.some.inj hs
          rw [Sys.view_setTick]
          refine Sys.view_expire (Sys.view_modTask_of_same rfl (Task.role_congr rfl rfl) rfl) ?_
          simpa [Task.waiting] using hne (h.sleep_of_bit hb).2 (by rintro ⟨⟩)
        · obtain rfl := Option.some.inj hs
          rfl
  · obtain ⟨o, -, rfl⟩ := Option.map_eq_some_iff.1 hs
    rfl
  · next w o n htick =>
    split at hs
    · next hb =>
      obtain rfl := Option.some.inj hs
      obtain ⟨q, hp, hw, hst⟩ := h.queue_of_bit hb
      have hw := hne hw (by rcases hst with ⟨i, rfl⟩ | ⟨c, rfl⟩ <;> rintro ⟨⟩)
      have hq : w ∉ s.queue (.mutex m) := fun hmem => hw ((h.queue _ w).1 hmem).2.2
      rw [Sys.view_setTick]
      refine Sys.view_expire (Sys.view_unlink (Sys.view_modTask_of_same rfl (Task.role_congr rfl rfl)
        rfl) hq) ?_
      simpa [Task.waiting] using hw
    · obtain rfl := Option.some.inj hs
      rfl
  · next w n htick =>
    split at hs
    · next hb =>
      obtain rfl := Option.some.inj hs
      rw [Sys.view_setTick]
      refine Sys.view_expire (Sys.view_modTask_of_same rfl (Task.role_congr rfl rfl) rfl) ?_
      simpa [Task.waiting] using hne (h.event_of_bit hb).2 (by rintro ⟨⟩)
    · obtain rfl := Option.some.inj hs
      rfl

/-- **Every step is a step of the lock**, unless it overflows the counter. -/
theorem step_view {mv : Move} (hok : (s.view m).Ok) (hs : s.step mv = some s')
    (hd : s.shallow mv = true) : (s.view m).Step mv.agent (s'.view m) := by
  cases mv with
  | call t c =>
    simp only [Sys.step] at hs
    split at hs
    · next hidle =>
      obtain rfl := Option.some.inj hs
      have hr : (s.task t).role m = .out := Task.role_of_outside (by rw [hidle.1]; rfl)
      rw [Sys.view_emit]
      refine .of_eq (Sys.view_modTask_of_same rfl ((Task.role_of_outside ?_).trans hr.symm) rfl)
      cases c <;> simp [Sys.firstPc, Pc.outside]
    · cases hs
  | go t =>
    simp only [Sys.step] at hs
    split at hs
    · exact h.step_go hok hs hd
    · cases hs
  | resume t k =>
    simp only [Sys.step] at hs
    split at hs
    · exact h.step_resume hs
    · cases hs
  | tickle k =>
    simp only [Sys.step] at hs
    split at hs
    · obtain rfl := Option.some.inj hs
      exact .of_eq rfl
    · cases hs
  | timer k w =>
    simp only [Sys.step] at hs
    split at hs
    · obtain rfl := Option.some.inj hs
      have hv : Sys.view { s with
          wadoglist := Function.update s.wadoglist k ((s.wadoglist k).erase w) } m = s.view m := rfl
      rw [Sys.view_setTick]
      exact .of_eq (Sys.view_modTask_of_same hv (Task.role_congr rfl rfl) rfl)
    · cases hs
  | tickGo k => exact .of_eq (h.view_tickGo hs)
  | tickEnd k =>
    simp only [Sys.step] at hs
    split at hs
    · obtain rfl := Option.some.inj hs
      exact .of_eq rfl
    · cases hs

end Inv

/-! ## The contract -/

variable {v : SemId → Int32} {mem : TaskId → Task}

theorem view_init : ((init v mem).view m).Ok := by
  refine ⟨fun t => .inr ⟨nofun, rfl⟩, fun t => iff_of_false List.not_mem_nil nofun, List.nodup_nil,
    nofun, nofun⟩

/-- In a run in which no counter overflows every mutex is a lock with hand-off. -/
theorem reach_view (h : Reach Sys.step (fun s mv => s.shallow mv) (init v mem) s) :
    (s.view m).Ok :=
  Reach.invariant_of (I := Inv) (P := fun s => (s.view m).Ok) h (.init v mem) view_init (fun _ _ _ hi _ hs => hi.step hs)
    fun _ _ _ hi hok hd hs => hok.step (hi.step_view hok hs hd)

end

end Ptask.Agents
