import Ptask.Agents.Model

/-!
# Every task is where its place says

The queues, the places of the tasks and the calls that they are in agree (`Inv`), whatever the ticks
do. A step moves the tasks in one of a few ways, which `Shift` lists.
-/

namespace Ptask.Agents

/-! ## What a task is in -/

namespace Call

/-- What the call waits for before it returns, apart from mutexes. -/
def wait : Call → Option Wait
  | .semWait i | .semTimedwait i _ => some (.sem i)
  | .condWait c _ | .condTimedwait c _ _ => some (.cond c)
  | .eventWait .. => some .event
  | .usleep _ => some .sleep
  | _ => none

/-- The call puts its task on a watchdog list while it waits. -/
def timed : Call → Bool
  | .semTimedwait _ timeout | .condTimedwait _ _ timeout | .eventWait _ _ timeout => 0 < timeout
  | .usleep _ => true
  | _ => false

def isUsleep : Call → Bool
  | .usleep _ => true
  | _ => false

/-- The call uses the mutex. -/
def locks (m : MutexId) : Call → Bool
  | .mutexLock m' | .condWait _ m' | .condTimedwait _ m' _ => m' = m
  | _ => false

def unlocks (m : MutexId) : Call → Bool
  | .mutexUnlock m' | .condWait _ m' | .condTimedwait _ m' _ => m' = m
  | _ => false

/-- The call makes other tasks ready. -/
def wakes : Call → Bool
  | .semPost _ | .condSignal _ | .condBroadcast _ | .eventPost .. => true
  | _ => false

/-- The call can be in the place. -/
def fits (c : Call) : Pc → Bool
  | .idle => false
  | .enter => firstPc c = .enter
  | .arm => c.timed
  | .armed => c.timed && !c.isUsleep
  | .doze => c.isUsleep
  | .parked => c.wait.isSome
  | .lock _ m => c.locks m
  | .unlock _ m => c.unlocks m
  | .waking .. => c.wakes
where
  firstPc := Sys.firstPc

end Call

/-- The bits of the state of a task that waits in a queue (those that something depends on). -/
def Wait.states : Wait → States
  | .sem _ => { waitforSemph := true }
  | .cond _ => { waitforCondv := true }
  | .event => { waitforEvent := true }
  | .sleep => { inUsleep := true }
  | .mutex _ => {}

/-- The wait has a queue. -/
def Wait.hasQueue : Wait → Bool
  | .sem _ | .cond _ | .mutex _ => true
  | .event | .sleep => false

/-- The bits of a state that the waits set. -/
def waitBits (st : States) : States :=
  { st with transient := false, waitTimeoutb := false, waitforMutex := false }

/-- The tasks that are in the hands of a task. -/
def Pc.held : Pc → List TaskId
  | .waking _ w rest => w :: rest
  | .unlock (.reent w) _ | .unlock (.clear w) _ | .unlock (.ready w) _ => [w]
  | _ => []

/-- The mutex that the task is handing over. -/
def Pc.handoff : Pc → Option MutexId
  | .unlock (.reent _) m | .unlock (.clear _) m | .unlock (.ready _) m => some m
  | _ => none

namespace Task

/-- What the task waits for, from the section in which it joins the queue until it goes on. -/
def waiting (x : Task) : Option Wait :=
  match x.pc with
  | .lock .parked m => some (.mutex m)
  | .arm => x.call.bind fun c => if c.isUsleep then none else c.wait
  | .armed | .parked | .unlock .. => x.call.bind Call.wait
  | _ => none

/-- The bits that the task has to have set. -/
def bits (x : Task) : States :=
  match x.place, x.waiting with
  | .queued, some q => q.states
  | _, _ => {}

/-- The task is between the sections that set and clear `STATES_TRANSIENT`. -/
def arming (x : Task) : Bool :=
  (x.pc = .arm || x.pc = .armed) && x.call.any fun c => !c.isUsleep

@[simp] theorem waiting_put (x : Task) (p : Place) : (x.put p).waiting = x.waiting := rfl

@[simp] theorem arming_put (x : Task) (p : Place) : (x.put p).arming = x.arming := rfl

@[simp] theorem waiting_setDepth (x : Task) (m : MutexId) (n : Nat) :
    (x.setDepth m n).waiting = x.waiting := rfl

@[simp] theorem arming_setDepth (x : Task) (m : MutexId) (n : Nat) :
    (x.setDepth m n).arming = x.arming := rfl

@[simp] theorem waiting_join (x : Task) (pc : Pc) (n : Nat) :
    (x.join pc n).waiting = (x.goto pc).waiting := rfl

@[simp] theorem arming_join (x : Task) (pc : Pc) (n : Nat) :
    (x.join pc n).arming = (x.goto pc).arming := rfl

/-- What the task waits for and whether it arms a timer depend on its call and place in it. -/
theorem waiting_congr {x x' : Task} (hpc : x'.pc = x.pc) (hc : x'.call = x.call) :
    x'.waiting = x.waiting := by
  rw [waiting, waiting, hpc, hc]

theorem arming_congr {x x' : Task} (hpc : x'.pc = x.pc) (hc : x'.call = x.call) :
    x'.arming = x.arming := by
  rw [arming, arming, hpc, hc]

/-- A task waits for a mutex only in the lock function. -/
theorem pc_of_waiting {x : Task} {m : MutexId} (h : x.waiting = some (.mutex m)) :
    x.pc = .lock .parked m := by
  unfold waiting at h
  generalize x.pc = pc at h
  have hwait (c : Call) : c.wait ≠ some (.mutex m) := by cases c <;> nofun
  cases pc with
  | lock p m' => cases p <;> simp_all
  | arm =>
    obtain ⟨c, -, hc⟩ := Option.bind_eq_some_iff.1 h
    split at hc
    · cases hc
    · exact absurd hc (hwait c)
  | armed | parked | unlock =>
    obtain ⟨c, -, hc⟩ := Option.bind_eq_some_iff.1 h
    exact absurd hc (hwait c)
  | _ => cases h

end Task

/-- The fields of a task agree. -/
structure TaskOk (x : Task) : Prop where
  fits : x.pc = .idle ∧ x.call = none ∨ ∃ c, x.call = some c ∧ c.fits x.pc = true
  runs : x.place = .runs ↔ x.waiting = none
  bits : waitBits x.state = x.bits
  transient : x.state.transient = x.arming

namespace Sys

/-- The wait queue. -/
def queue (s : Sys) : Wait → List TaskId
  | .sem i => (s.sem i).waitq
  | .cond c => (s.cond c).waitq
  | .mutex m => (s.mutex m).waitq
  | _ => []

theorem queue_congr {s s' : Sys} (hm : s'.mutex = s.mutex) (hs : s'.sem = s.sem)
    (hc : s'.cond = s.cond) : s'.queue = s.queue := by
  funext q
  cases q <;> simp [queue, hm, hs, hc]

end Sys

/-- The invariant. -/
structure Inv (s : Sys) : Prop where
  task : ∀ t, TaskOk (s.task t)
  queue : ∀ q t, t ∈ s.queue q ↔
    q.hasQueue = true ∧ (s.task t).place = .queued ∧ (s.task t).waiting = some q
  held : ∀ p t, t ∈ (s.task p).pc.held ↔ (s.task t).place = .held p
  handoff : ∀ p m t, (s.task p).pc.handoff = some m → t ∈ (s.task p).pc.held →
    (s.task t).waiting = some (.mutex m)
  queueNodup : ∀ q, (s.queue q).Nodup
  heldNodup : ∀ p, (s.task p).pc.held.Nodup

/-! ## What a step does to the places -/

/-- Nothing happens to the place of the task. -/
structure Stays (x x' : Task) : Prop where
  place : x'.place = x.place
  waiting : x'.waiting = x.waiting
  held : x'.pc.held = x.pc.held
  handoff : x'.pc.handoff = x.pc.handoff

/-- The event is the beginning or the end of a call. -/
def Ev.outer : Ev → Bool
  | .begin .. | .ret .. => true
  | _ => false

/-- What a step does to the places of the tasks. -/
inductive Shift (s s' : Sys) : Prop
  | stay (es : List Ev) (hlog : s'.log = es ++ s.log) (hes : ∀ e ∈ es, e.outer = true)
    (hq : s'.queue = s.queue) (hx : ∀ u, Stays (s.task u) (s'.task u))
  | join (t : TaskId) (q : Wait) (hlog : s'.log = .joined t q :: s.log)
    (hq : ∀ q', s'.queue q' =
      if q' = q ∧ q.hasQueue = true then s.queue q ++ [t] else s.queue q')
    (hx : ∀ u, u ≠ t → s'.task u = s.task u) (hp : (s.task t).place = .runs)
    (hp' : (s'.task t).place = .queued) (hw : (s'.task t).waiting = some q)
    (hh : (s.task t).pc.held = []) (hh' : (s'.task t).pc.held = [])
    (hs : (s'.task t).since = s.log.length)
  | take (t : TaskId) (q : Wait) (ws rest : List TaskId) (hws : ws ≠ [])
    (hlog : s'.log = ws.map (.taken t) ++ s.log)
    (hq : q.hasQueue = true → s.queue q = ws ++ rest ∧ s'.queue q = rest)
    (hq' : ∀ q', ¬(q' = q ∧ q.hasQueue = true) → s'.queue q' = s.queue q')
    (hnd : ws.Nodup)
    (hw : ∀ w ∈ ws, (s.task w).place = .queued ∧ (s.task w).waiting = some q ∧
      (s'.task w).place = .held t ∧ (s'.task w).waiting = some q ∧ w ≠ t ∧
      (s'.task w).pc = (s.task w).pc)
    (hx : ∀ u, u ∉ ws → u ≠ t → s'.task u = s.task u)
    (hp : (s'.task t).place = (s.task t).place) (ht : (s'.task t).waiting = (s.task t).waiting)
    (hh : (s.task t).pc.held = []) (hh' : (s'.task t).pc.held = ws)
    (hm : ∀ m, (s'.task t).pc.handoff = some m → q = .mutex m)
  | wake (t w : TaskId) (rest : List TaskId) (es : List Ev)
    (hlog : s'.log = es ++ .woken t w :: s.log) (hes : ∀ e ∈ es, e.outer = true)
    (hq : s'.queue = s.queue)
    (hh : (s.task t).pc.held = w :: rest) (hh' : (s'.task t).pc.held = rest)
    (hm : ∀ m, (s'.task t).pc.handoff = some m → rest = [])
    (hp : (s'.task t).place = (s.task t).place) (ht : (s'.task t).waiting = (s.task t).waiting)
    (hne : w ≠ t) (hw : (s'.task w).place = .woken) (hw' : (s'.task w).waiting = (s.task w).waiting)
    (hpc : (s'.task w).pc = (s.task w).pc)
    (hx : ∀ u, u ≠ t → u ≠ w → s'.task u = s.task u)
  | resume (t : TaskId) (es : List Ev) (hlog : s'.log = es ++ s.log)
    (hes : ∀ e ∈ es, e.outer = true) (hq : s'.queue = s.queue)
    (hx : ∀ u, u ≠ t → s'.task u = s.task u) (hp : (s.task t).place = .woken)
    (hp' : (s'.task t).place = .runs) (ht : (s'.task t).waiting = none)
    (hh : (s.task t).pc.held = []) (hh' : (s'.task t).pc.held = [])
  | expire (w : TaskId) (hlog : s'.log = .expired w :: s.log)
    (hq : ∀ q, s'.queue q = (s.queue q).erase w)
    (hx : ∀ u, u ≠ w → s'.task u = s.task u) (hp : (s.task w).place = .queued)
    (hp' : (s'.task w).place = .woken) (hw : (s'.task w).waiting = (s.task w).waiting)
    (hpc : (s'.task w).pc = (s.task w).pc)

section

variable {s s' : Sys} {t u w : TaskId} {q : Wait}

namespace Inv

theorem not_mem_queue (h : Inv s) (hp : (s.task t).place ≠ .queued) : t ∉ s.queue q :=
  fun hm => hp ((h.queue q t).1 hm).2.1

theorem not_mem_held (h : Inv s) (hp : ∀ p, (s.task t).place ≠ .held p) : t ∉ (s.task u).pc.held :=
  fun hm => hp u ((h.held u t).1 hm)

/-- **A step that moves the tasks in one of these ways keeps the invariant.** -/
theorem shift (h : Inv s) (hok : ∀ u, TaskOk (s'.task u)) (hs : Shift s s') : Inv s' := by
  cases hs with
  | stay es hlog hes hq hx =>
    refine ⟨hok, fun q u => ?_, fun p u => ?_, fun p m u hm hu => ?_, fun q => hq ▸ h.queueNodup q,
      fun p => (hx p).held ▸ h.heldNodup p⟩
    · rw [hq, h.queue, (hx u).place, (hx u).waiting]
    · rw [(hx p).held, h.held, (hx u).place]
    · rw [(hx u).waiting]
      exact h.handoff p m u ((hx p).handoff ▸ hm) ((hx p).held ▸ hu)
  | join t q hlog hq hx hp hp' hw hh hh' hs =>
    have hnq (q' : Wait) : t ∉ s.queue q' := h.not_mem_queue (by simp [hp])
    have hnh (p : TaskId) : t ∉ (s.task p).pc.held := h.not_mem_held (by simp [hp])
    have hheld (p : TaskId) : (s'.task p).pc.held = (s.task p).pc.held := by
      by_cases hpt : p = t
      · rw [hpt, hh, hh']
      · rw [hx p hpt]
    refine ⟨hok, fun q' u => ?_, fun p u => ?_, fun p m u hm hu => ?_, fun q' => ?_,
      fun p => hheld p ▸ h.heldNodup p⟩
    · rw [hq]
      by_cases hu : u = t
      · subst hu
        by_cases hqq : q' = q
        · subst hqq
          cases hhas : q'.hasQueue <;> simp [hp', hw, hnq]
        · simp [hqq, hnq, hp', hw, Ne.symm hqq]
      · rw [hx u hu, ← h.queue]
        split
        · next hqq => simp [hqq.1, hu]
        · rfl
    · rw [hheld]
      by_cases hu : u = t
      · subst hu
        simp [hnh, hp']
      · rw [hx u hu, h.held]
    · have hpt : p ≠ t := by
        rintro rfl
        rw [hh'] at hu
        exact absurd hu List.not_mem_nil
      rw [hx p hpt] at hm hu
      have hut : u ≠ t := fun e => hnh p (e ▸ hu)
      rw [hx u hut]
      exact h.handoff p m u hm hu
    · rw [hq]
      split
      · next hqq => exact Lib.append_singleton_nodup (hnq q) (h.queueNodup q)
      · exact h.queueNodup q'
  | take t q ws rest hws hlog hq hq' hnd hw hx hp ht hh hh' hm =>
    have hnt : t ∉ ws := fun hmem => (hw t hmem).2.2.2.2.1 rfl
    have hplace (u : TaskId) (hu : u ∉ ws) :
        (s'.task u).place = (s.task u).place ∧ (s'.task u).waiting = (s.task u).waiting := by
      by_cases hut : u = t
      · exact hut ▸ ⟨hp, ht⟩
      · rw [hx u hu hut]
        exact ⟨rfl, rfl⟩
    have hheld (p : TaskId) (hpt : p ≠ t) : (s'.task p).pc = (s.task p).pc := by
      by_cases hpw : p ∈ ws
      · exact (hw p hpw).2.2.2.2.2
      · rw [hx p hpw hpt]
    refine ⟨hok, fun q' u => ?_, fun p u => ?_, fun p m u hm' hu => ?_, fun q' => ?_, fun p => ?_⟩
    · by_cases hu : u ∈ ws
      · obtain ⟨h1, h2, h3, h4, -⟩ := hw u hu
        refine iff_of_false ?_ (by simp [h3])
        intro hmem
        by_cases hqq : q' = q ∧ q.hasQueue = true
        · obtain ⟨rfl, hhas⟩ := hqq
          obtain ⟨e1, e2⟩ := hq hhas
          have hnd' := h.queueNodup q'
          rw [e1] at hnd'
          exact (List.nodup_append.1 hnd').2.2 u hu u (e2 ▸ hmem) rfl
        · rw [hq' q' hqq] at hmem
          obtain ⟨hhas, -, hwait⟩ := (h.queue q' u).1 hmem
          rw [h2] at hwait
          obtain rfl := Option.some.inj hwait
          exact hqq ⟨rfl, hhas⟩
      · obtain ⟨e1, e2⟩ := hplace u hu
        rw [e1, e2, ← h.queue]
        by_cases hqq : q' = q ∧ q.hasQueue = true
        · obtain ⟨rfl, hhas⟩ := hqq
          obtain ⟨e3, e4⟩ := hq hhas
          rw [e3, e4]
          simp [hu]
        · rw [hq' q' hqq]
    · by_cases hpt : p = t
      · subst hpt
        rw [hh']
        by_cases hu : u ∈ ws
        · simp [hu, (hw u hu).2.2.1]
        · rw [(hplace u hu).1, ← h.held, hh]
          simp [hu]
      · rw [hheld p hpt]
        by_cases hu : u ∈ ws
        · obtain ⟨h1, -, h3, -⟩ := hw u hu
          rw [h3, h.held, h1]
          simp [Ne.symm hpt]
        · rw [(hplace u hu).1, h.held]
    · by_cases hpt : p = t
      · subst hpt
        rw [hh'] at hu
        obtain ⟨-, -, -, h4, -⟩ := hw u hu
        rw [h4, hm m hm']
      · rw [hheld p hpt] at hm' hu
        have hold := h.handoff p m u hm' hu
        by_cases huw : u ∈ ws
        · obtain ⟨-, h2, -, h4, -⟩ := hw u huw
          rw [h4, ← h2, hold]
        · rw [(hplace u huw).2, hold]
    · by_cases hqq : q' = q ∧ q.hasQueue = true
      · obtain ⟨rfl, hhas⟩ := hqq
        obtain ⟨e1, e2⟩ := hq hhas
        have hnd' := h.queueNodup q'
        rw [e1] at hnd'
        exact e2 ▸ (List.nodup_append.1 hnd').2.1
      · rw [hq' q' hqq]
        exact h.queueNodup q'
    · by_cases hpt : p = t
      · rw [hpt, hh']
        exact hnd
      · rw [hheld p hpt]
        exact h.heldNodup p
  | wake t w rest es hlog hes hq hh hh' hm hp ht hne hw hw' hpc hx =>
    have hwt : (s.task w).place = .held t := (h.held t w).1 (by simp [hh])
    have hnd : w ∉ rest := by
      have := h.heldNodup t
      rw [hh] at this
      exact (List.nodup_cons.1 this).1
    have hplace (u : TaskId) (hu : u ≠ w) : (s'.task u).place = (s.task u).place := by
      by_cases hut : u = t
      · exact hut ▸ hp
      · rw [hx u hut hu]
    have hwait (u : TaskId) : (s'.task u).waiting = (s.task u).waiting := by
      by_cases huw : u = w
      · exact huw ▸ hw'
      · by_cases hut : u = t
        · exact hut ▸ ht
        · rw [hx u hut huw]
    have hheld (p : TaskId) (hpt : p ≠ t) : (s'.task p).pc = (s.task p).pc := by
      by_cases hpw : p = w
      · rw [hpw, hpc]
      · rw [hx p hpt hpw]
    refine ⟨hok, fun q u => ?_, fun p u => ?_, fun p m u hm' hu => ?_, fun q => hq ▸ h.queueNodup q,
      fun p => ?_⟩
    · rw [hq, h.queue, hwait]
      by_cases huw : u = w
      · simp [huw, hw, hwt]
      · rw [hplace u huw]
    · by_cases hpt : p = t
      · subst hpt
        rw [hh']
        by_cases huw : u = w
        · simp [huw, hnd, hw]
        · rw [hplace u huw, ← h.held, hh]
          simp [huw]
      · rw [hheld p hpt, h.held]
        by_cases huw : u = w
        · simp [huw, hw, hwt, Ne.symm hpt]
        · rw [hplace u huw]
    · by_cases hpt : p = t
      · subst hpt
        rw [hh', hm m hm'] at hu
        exact absurd hu List.not_mem_nil
      · rw [hheld p hpt] at hm' hu
        rw [hwait]
        exact h.handoff p m u hm' hu
    · by_cases hpt : p = t
      · have := h.heldNodup t
        rw [hh] at this
        rw [hpt, hh']
        exact (List.nodup_cons.1 this).2
      · rw [hheld p hpt]
        exact h.heldNodup p
  | resume t es hlog hes hq hx hp hp' ht hh hh' =>
    have hnh (p : TaskId) : t ∉ (s.task p).pc.held := h.not_mem_held (by simp [hp])
    have hheld (p : TaskId) : (s'.task p).pc.held = (s.task p).pc.held := by
      by_cases hpt : p = t
      · rw [hpt, hh, hh']
      · rw [hx p hpt]
    refine ⟨hok, fun q u => ?_, fun p u => ?_, fun p m u hm hu => ?_, fun q => hq ▸ h.queueNodup q,
      fun p => hheld p ▸ h.heldNodup p⟩
    · rw [hq]
      by_cases hut : u = t
      · subst hut
        have hnq : u ∉ s.queue q := h.not_mem_queue (by simp [hp])
        simp [hnq, hp']
      · rw [hx u hut, h.queue]
    · rw [hheld]
      by_cases hut : u = t
      · subst hut
        simp [hnh, hp']
      · rw [hx u hut, h.held]
    · have hpt : p ≠ t := by
        rintro rfl
        rw [hh'] at hu
        exact absurd hu List.not_mem_nil
      rw [hx p hpt] at hm hu
      have hut : u ≠ t := fun e => hnh p (e ▸ hu)
      rw [hx u hut]
      exact h.handoff p m u hm hu
  | expire w hlog hq hx hp hp' hw hpc =>
    have hnh (p : TaskId) : w ∉ (s.task p).pc.held := h.not_mem_held (by simp [hp])
    have hheld (p : TaskId) : (s'.task p).pc = (s.task p).pc := by
      by_cases hpw : p = w
      · rw [hpw, hpc]
      · rw [hx p hpw]
    refine ⟨hok, fun q u => ?_, fun p u => ?_, fun p m u hm hu => ?_,
      fun q => hq q ▸ (h.queueNodup q).erase w, fun p => hheld p ▸ h.heldNodup p⟩
    · rw [hq, (h.queueNodup q).mem_erase_iff, h.queue]
      by_cases huw : u = w
      · simp [huw, hp']
      · rw [hx u huw]
        simp [huw]
    · rw [hheld]
      by_cases huw : u = w
      · subst huw
        simp [hnh, hp']
      · rw [hx u huw, h.held]
    · rw [hheld] at hm hu
      have huw : u ≠ w := fun e => hnh p (e ▸ hu)
      rw [hx u huw]
      exact h.handoff p m u hm hu

end Inv

end

/-! ## Steps that move no task -/

namespace Task

/-- The task is neither waiting nor waking nor arming a timer. -/
structure Plain (x : Task) : Prop where
  waiting : x.waiting = none
  held : x.pc.held = []
  arming : x.arming = false

end Task

section

variable {x x' : Task} {c : Call} {pc : Pc}

theorem Stays.refl (x : Task) : Stays x x := ⟨rfl, rfl, rfl, rfl⟩

theorem Stays.trans {x'' : Task} (h : Stays x x') (h' : Stays x' x'') : Stays x x'' :=
  ⟨h'.place.trans h.place, h'.waiting.trans h.waiting, h'.held.trans h.held,
    h'.handoff.trans h.handoff⟩

theorem handoff_of_held (h : pc.held = []) : pc.handoff = none := by
  cases pc with
  | unlock p m => cases p <;> first | rfl | cases h
  | _ => rfl

theorem TaskOk.of_same (h : TaskOk x) (hp : x'.place = x.place) (hw : x'.waiting = x.waiting)
    (hf : x'.pc = .idle ∧ x'.call = none ∨ ∃ c, x'.call = some c ∧ c.fits x'.pc = true)
    (hst : waitBits x'.state = waitBits x.state) (ht : x'.state.transient = x'.arming) :
    TaskOk x' where
  fits := hf
  runs := by rw [hp, hw, h.runs]
  bits := by rw [hst, h.bits, Task.bits, Task.bits, hp, hw]
  transient := ht

theorem TaskOk.of_stays (h : TaskOk x) (hs : Stays x x')
    (hf : x'.pc = .idle ∧ x'.call = none ∨ ∃ c, x'.call = some c ∧ c.fits x'.pc = true)
    (hst : waitBits x'.state = waitBits x.state) (ht : x'.state.transient = x'.arming) : TaskOk x' :=
  h.of_same hs.place hs.waiting hf hst ht

/-- Between two plain places nothing but the fit of the call matters. -/
theorem Task.Plain.stays (h : x.Plain) (h' : x'.Plain) (hp : x'.place = x.place) : Stays x x' where
  place := hp
  waiting := h'.waiting.trans h.waiting.symm
  held := h'.held.trans h.held.symm
  handoff := by rw [handoff_of_held h'.held, handoff_of_held h.held]

theorem Task.plain_done (x : Task) : x.done.Plain := ⟨rfl, rfl, rfl⟩

theorem TaskOk.done (h : TaskOk x) (hx : x.Plain) : Stays x x.done ∧ TaskOk x.done := by
  have hs := hx.stays x.plain_done rfl
  exact ⟨hs, h.of_stays hs (.inl ⟨rfl, rfl⟩) rfl (h.transient.trans hx.arming)⟩

theorem TaskOk.call_eq (h : TaskOk x) (hpc : x.pc ≠ .idle) :
    ∃ c, x.call = some c ∧ c.fits x.pc = true :=
  h.fits.resolve_left fun hi => hpc hi.1

end

/-- No task moves. -/
structure Calm (s s' : Sys) : Prop where
  log : ∃ es, s'.log = es ++ s.log ∧ ∀ e ∈ es, e.outer = true
  queue : s'.queue = s.queue
  stays : ∀ u, Stays (s.task u) (s'.task u)
  ok : ∀ u, TaskOk (s'.task u)

/-- What a step does to the tasks. -/
def Moved (s s' : Sys) : Prop := (∀ u, TaskOk (s'.task u)) ∧ Shift s s'

section

variable {s s' s'' : Sys} {t u w : TaskId} {m : MutexId} {i : SemId} {c : CondId} {call : Call}
  {r : Ret} {pc : Pc}

theorem Calm.moved (h : Calm s s') : Moved s s' := by
  obtain ⟨es, hlog, hes⟩ := h.log
  exact ⟨h.ok, .stay es hlog hes h.queue h.stays⟩

theorem Calm.inv (h : Calm s s') (hi : Inv s) : Inv s' := hi.shift h.ok h.moved.2

theorem Calm.trans (h : Calm s s') (h' : Calm s' s'') : Calm s s'' := by
  obtain ⟨es, hlog, hes⟩ := h.log
  obtain ⟨es', hlog', hes'⟩ := h'.log
  refine ⟨⟨es' ++ es, by rw [hlog', hlog, List.append_assoc], ?_⟩, h'.queue.trans h.queue,
    fun u => (h.stays u).trans (h'.stays u), h'.ok⟩
  exact List.forall_mem_append.2 ⟨hes', hes⟩

namespace Inv

variable (h : Inv s)
include h

theorem calm_of_task (ht : s'.task = s.task) (hq : s'.queue = s.queue) (hl : s'.log = s.log) :
    Calm s s' :=
  ⟨⟨[], hl, nofun⟩, hq, fun u => by rw [ht]; exact .refl _, fun u => by rw [ht]; exact h.task u⟩

theorem calm_modMutex {f : FibMutex → FibMutex} (hf : (f (s.mutex m)).waitq = (s.mutex m).waitq) :
    Calm s (s.modMutex m f) := by
  refine h.calm_of_task rfl ?_ rfl
  funext q
  cases q with
  | mutex m' => by_cases hm : m' = m <;> simp [Sys.queue, hm, hf]
  | _ => rfl

theorem calm_modSem {f : FibSemaphore → FibSemaphore} (hf : (f (s.sem i)).waitq = (s.sem i).waitq) :
    Calm s (s.modSem i f) := by
  refine h.calm_of_task rfl ?_ rfl
  funext q
  cases q with
  | sem j => by_cases hj : j = i <;> simp [Sys.queue, hj, hf]
  | _ => rfl

theorem calm_modTask {f : Task → Task} (hs : Stays (s.task t) (f (s.task t)))
    (hok : TaskOk (f (s.task t))) : Calm s (s.modTask t f) := by
  refine ⟨⟨[], rfl, nofun⟩, rfl, fun u => ?_, fun u => ?_⟩
  · by_cases hu : u = t
    · subst hu
      simpa using hs
    · simpa [hu] using .refl (s.task u)
  · by_cases hu : u = t
    · subst hu
      simpa using hok
    · simpa [hu] using h.task u

theorem calm_goto (hx : (s.task t).Plain) (hx' : ((s.task t).goto pc).Plain)
    (hc : (s.task t).call = some call) (hf : call.fits pc = true) : Calm s (s.goto t pc) := by
  have hs := hx.stays hx' rfl
  exact h.calm_modTask hs ((h.task t).of_stays hs (.inr ⟨call, hc, hf⟩) rfl
    (((h.task t).transient.trans hx.arming).trans hx'.arming.symm))

theorem calm_ret (hx : (s.task t).Plain) : Calm s (s.ret t r) := by
  unfold Sys.ret
  split
  · next c hc =>
    obtain ⟨hs, hok⟩ := (h.task t).done hx
    have hcalm : Calm s (s.modTask t Task.done) :=
      h.calm_modTask hs hok
    refine hcalm.trans ⟨⟨[.ret t c r], rfl, by simp [Ev.outer]⟩, rfl, fun u => .refl _, hcalm.ok⟩
  · exact h.calm_of_task rfl rfl rfl

end Inv

end

/-! ## Steps that move tasks -/

/-- The places in which a task is never waiting, waking or arming a timer. -/
def Pc.plain : Pc → Bool
  | .idle | .enter | .doze => true
  | .lock p _ => p ≠ .parked
  | _ => false

theorem Task.plain_of_pc {x : Task} (h : x.pc.plain = true) : x.Plain := by
  have hp : x.pc ≠ .arm ∧ x.pc ≠ .armed ∧ x.pc.held = [] ∧ x.waiting = none := by
    unfold Task.waiting
    generalize x.pc = pc at h
    cases pc with
    | lock p m => cases p <;> simp_all [Pc.plain, Pc.held]
    | _ => simp_all [Pc.plain, Pc.held]
  exact ⟨hp.2.2.2, hp.2.2.1, by simp [Task.arming, hp.1, hp.2.1]⟩

section

variable {s s' : Sys} {t u w : TaskId} {m : MutexId} {i : SemId} {c : CondId} {call : Call}
  {r : Ret} {pc : Pc} {q : Wait}

namespace Inv

variable (h : Inv s)
include h

theorem bits_of_queued (hp : (s.task t).place = .queued) (hw : (s.task t).waiting = some q) :
    waitBits (s.task t).state = q.states := by
  rw [(h.task t).bits, Task.bits, hp, hw]

theorem bits_of_not_queued (hp : (s.task t).place ≠ .queued) : waitBits (s.task t).state = {} := by
  rw [(h.task t).bits, Task.bits]
  split
  · next hq _ => exact absurd hq hp
  · rfl

theorem place_of_plain (hx : (s.task t).Plain) : (s.task t).place = .runs :=
  (h.task t).runs.2 hx.waiting

theorem waiting_of_held (hw : w ∈ (s.task t).pc.held) : (s.task w).waiting ≠ none := by
  intro hn
  have hp := (h.held t w).1 hw
  rw [(h.task w).runs.2 hn] at hp
  cases hp

/-- No task is in its own hands. -/
theorem ne_of_held (hw : w ∈ (s.task t).pc.held) : w ≠ t := by
  rintro rfl
  have hwait := h.waiting_of_held hw
  have hm := fun m hm => h.handoff w m w hm hw
  unfold Task.waiting at hwait hm
  generalize (s.task w).pc = pc at hw hwait hm
  cases pc with
  | unlock p m =>
    cases p with
    | reent v | clear v | ready v =>
      have := hm m rfl
      obtain ⟨c, -, hc⟩ := Option.bind_eq_some_iff.1 this
      cases c <;> cases hc
    | _ => cases hw
  | waking p v rest => exact hwait rfl
  | _ => cases hw

/-- The current task joins a queue. -/
theorem moved_block {s₀ : Sys} {f : Task → Task} (h0t : s₀.task = s.task) (h0l : s₀.log = s.log)
    (hq : ∀ q', s₀.queue q' =
      if q' = q ∧ q.hasQueue = true then s.queue q ++ [t] else s.queue q')
    (hx : (s.task t).Plain) (hf : (f (s.task t)).call = (s.task t).call)
    (hc : (s.task t).call = some call) (hfit : call.fits pc = true)
    (hw : ((f (s.task t)).goto pc).waiting = some q) (hh : pc.held = [])
    (hb : waitBits (f (s.task t)).state = q.states)
    (ht : (f (s.task t)).state.transient = ((f (s.task t)).goto pc).arming) :
    Moved s (s₀.block t q pc f) := by
  have htask : (s₀.block t q pc f).task = Function.update s.task t
      ((f (s.task t)).join pc s.log.length) := by
    rw [Sys.block_task, h0t, h0l]
  refine ⟨fun u => ?_, .join t q (by rw [Sys.block_log, h0l]) (fun q' => ?_) (fun u hu => ?_)
    (h.place_of_plain hx) (by simp) ?_ hx.held (by simpa using hh) (by simp [h0l])⟩
  · rw [htask]
    by_cases hu : u = t
    · subst hu
      rw [Function.update_self]
      refine ⟨.inr ⟨call, hf.trans hc, hfit⟩, ?_, ?_, ht⟩
      · rw [Task.waiting_join, hw]
        exact iff_of_false nofun nofun
      · rw [Task.bits, Task.waiting_join, hw]
        exact hb
    · rw [Function.update_of_ne hu]
      exact h.task u
  · rw [← hq]
    cases q' <;> rfl
  · rw [htask, Function.update_of_ne hu]
  · rw [htask, Function.update_self, Task.waiting_join, hw]

/-- The current task takes tasks off a queue. -/
theorem moved_take (F : Task → Task) (x' : Task) (ws rest : List TaskId) (hne : ws ≠ [])
    (hlog : s'.log = ws.map (.taken t) ++ s.log)
    (hq : q.hasQueue = true → s.queue q = ws ++ rest ∧ s'.queue q = rest)
    (hq' : ∀ q', ¬(q' = q ∧ q.hasQueue = true) → s'.queue q' = s.queue q')
    (htask : s'.task = fun u => if u = t then x'
      else if u ∈ ws then (F (s.task u)).put (.held t) else s.task u)
    (hws : ∀ w ∈ ws, (s.task w).place = .queued ∧ (s.task w).waiting = some q)
    (hnd : ws.Nodup) (hF : ∀ x : Task, (F x).pc = x.pc ∧ (F x).call = x.call ∧
      (F x).state.transient = x.state.transient)
    (hb : ∀ w ∈ ws, waitBits (F (s.task w)).state = {})
    (hwt : t ∉ ws) (hx : (s.task t).pc.held = []) (hok : TaskOk x')
    (hp : x'.place = (s.task t).place) (hw : x'.waiting = (s.task t).waiting) (hh : x'.pc.held = ws)
    (hm : ∀ m, x'.pc.handoff = some m → q = .mutex m) : Moved s s' := by
  have ht : s'.task t = x' := by simp [htask]
  have hwait (x : Task) : (F x).waiting = x.waiting := Task.waiting_congr (hF x).1 (hF x).2.1
  have hmem (w : TaskId) (hmem : w ∈ ws) : s'.task w = (F (s.task w)).put (.held t) ∧ w ≠ t := by
    have hne : w ≠ t := fun e => hwt (e ▸ hmem)
    simp [htask, hne, hmem]
  have hother (u : TaskId) (hu : u ∉ ws) (hut : u ≠ t) : s'.task u = s.task u := by
    simp [htask, hu, hut]
  refine ⟨fun u => ?_, .take t q ws rest hne hlog hq hq' hnd (fun w hw => ?_) hother
    (by rw [ht, hp]) (by rw [ht, hw]) hx (by rw [ht, hh]) (by rw [ht]; exact hm)⟩
  · by_cases hut : u = t
    · rw [hut, ht]
      exact hok
    · by_cases hu : u ∈ ws
      · rw [(hmem u hu).1]
        obtain ⟨h1, h2⟩ := hws u hu
        have hold := h.task u
        refine ⟨?_, ?_, hb u hu, ?_⟩
        · rw [Task.put_pc, Task.put_call, (hF _).1, (hF _).2.1]
          exact hold.fits
        · rw [Task.waiting_put, hwait, h2]
          exact iff_of_false nofun nofun
        · rw [Task.put_state, Task.arming_put, (hF _).2.2, hold.transient,
            Task.arming_congr (hF _).1 (hF _).2.1]
      · rw [hother u hu hut]
        exact h.task u
  · obtain ⟨h1, h2⟩ := hws w hw
    obtain ⟨h3, h4⟩ := hmem w hw
    rw [h3]
    exact ⟨h1, h2, rfl, by rw [Task.waiting_put, hwait, h2], h4, (hF _).1⟩

/-- The current task makes a task ready that it has taken off a queue. -/
theorem moved_wake {rest : List TaskId} (x' : Task) (es : List Ev)
    (hh : (s.task t).pc.held = w :: rest) (hlog : s'.log = es ++ .woken t w :: s.log)
    (hes : ∀ e ∈ es, e.outer = true) (hq : s'.queue = s.queue)
    (htask : s'.task = fun u => if u = t then x' else if u = w then
      (s.task w).put .woken else s.task u)
    (hp : x'.place = (s.task t).place) (hw : x'.waiting = (s.task t).waiting)
    (hh' : x'.pc.held = rest) (hm : ∀ m, x'.pc.handoff = some m → rest = []) (hok : TaskOk x') :
    Moved s s' := by
  have hmem : w ∈ (s.task t).pc.held := by simp [hh]
  have hne := h.ne_of_held hmem
  have hwait := h.waiting_of_held hmem
  have hplace : (s.task w).place ≠ .queued := by
    rw [(h.held t w).1 hmem]
    nofun
  refine ⟨fun u => ?_, .wake t w rest es hlog hes hq hh ?_ ?_ ?_ ?_ hne ?_ ?_ ?_ fun u h1 h2 => ?_⟩
  · by_cases hut : u = t
    · simpa [htask, hut] using hok
    · by_cases huw : u = w
      · subst huw
        have hold := h.task u
        rw [htask]
        simp only [if_neg hut, if_true]
        exact ⟨hold.fits, iff_of_false nofun hwait, h.bits_of_not_queued hplace, hold.transient⟩
      · simpa [htask, hut, huw] using h.task u
  · simpa [htask] using hh'
  · simpa [htask] using hm
  · simpa [htask] using hp
  · simpa [htask] using hw
  · simp [htask, hne]
  · simp [htask, hne]
  · simp [htask, hne]
  · simp [htask, h1, h2]

/-- A tick ends the wait of a task. -/
theorem moved_expire (x' : Task) (hp : (s.task w).place = .queued)
    (hlog : s'.log = .expired w :: s.log) (hq : ∀ q, s'.queue q = (s.queue q).erase w)
    (htask : s'.task = Function.update s.task w x') (hp' : x'.place = .woken)
    (hpc : x'.pc = (s.task w).pc) (hcall : x'.call = (s.task w).call)
    (hb : waitBits x'.state = {}) (ht : x'.state.transient = (s.task w).state.transient) :
    Moved s s' := by
  have hwait : x'.waiting = (s.task w).waiting := Task.waiting_congr hpc hcall
  refine ⟨fun u => ?_, .expire w hlog hq (fun u hu => by rw [htask, Function.update_of_ne hu]) hp
    ?_ ?_ ?_⟩
  · rw [htask]
    by_cases hu : u = w
    · subst hu
      rw [Function.update_self]
      have hold := h.task u
      refine ⟨by rw [hpc, hcall]; exact hold.fits, ?_, ?_, ?_⟩
      · rw [hp', hwait, ← hold.runs, hp]
        exact iff_of_false nofun nofun
      · rw [hb, Task.bits, hp']
      · rw [ht, hold.transient, Task.arming_congr hpc hcall]
    · rw [Function.update_of_ne hu]
      exact h.task u
  · rw [htask, Function.update_self, hp']
  · rw [htask, Function.update_self, hwait]
  · rw [htask, Function.update_self, hpc]

end Inv

end

end Ptask.Agents
