import Ptask.Agents.Places

/-!
# The functions and the places

Every step of a task and of a tick moves the tasks in one of the ways of `Shift`,
  so that the invariant
holds in every reachable state.
-/

namespace Ptask.Agents

/-! ## Operators -/

namespace Task

@[simps]
def setTimeoutb (x : Task) (b : Bool) : Task :=
    { x with state := { x.state with waitTimeoutb := b } }

theorem setTimeoutb_of_eq {x : Task} {b : Bool} (h : x.state.waitTimeoutb = b) :
    x.setTimeoutb b = x := by
  subst h
  rfl

end Task

section

variable {s : Sys} {t w : TaskId}

namespace Sys

theorem ret_eq {c : Call} {r : Ret} (hc : (s.task t).call = some c) :
    s.ret t r = (s.modTask t Task.done).emit (.ret t c r) := by
  rw [ret, hc]

theorem finishLock_eq {c : Call} {m : MutexId} (s : Sys) (hc : (s.task t).call = some c) :
    ∃ r, s.finishLock t m =
      (s.modTask t fun x => (x.setDepth m (x.depth m + 1)).done).emit (.ret t c r) := by
  have hc' : ((s.modTask t fun x => x.setDepth m (x.depth m + 1)).task t).call = some c := by
    simpa using hc
  unfold finishLock
  dsimp only
  split <;>
  · rw [ret_eq hc']
    exact ⟨_, by simp [modTask, emit]; rfl⟩

theorem fiberWatchdogInsert_task (s : Sys) (t : TaskId) : (s.fiberWatchdogInsert t).task =
    fun u => (s.task u).setTimeoutb ((s.task u).state.waitTimeoutb || decide (u = t)) := by
  funext u
  unfold fiberWatchdogInsert
  split
  · next hb =>
    by_cases hu : u = t
    · subst hu
      exact (Task.setTimeoutb_of_eq (by simp [hb])).symm
    · exact (Task.setTimeoutb_of_eq (by simp [hu])).symm
  · by_cases hu : u = t
    · subst hu
      simp [Task.setTimeoutb]
    · rw [Task.setTimeoutb_of_eq (by simp [hu])]
      simp [hu]

theorem fiberWatchdogRemove_task (s : Sys) (t : TaskId) : (s.fiberWatchdogRemove t).task =
    fun u => (s.task u).setTimeoutb ((s.task u).state.waitTimeoutb && decide (u ≠ t)) := by
  funext u
  unfold fiberWatchdogRemove
  split
  · by_cases hu : u = t
    · subst hu
      simp [Task.setTimeoutb]
    · rw [Task.setTimeoutb_of_eq (by simp [hu])]
      simp [hu]
  · next hb =>
    by_cases hu : u = t
    · subst hu
      exact (Task.setTimeoutb_of_eq (by simp [hb])).symm
    · exact (Task.setTimeoutb_of_eq (by simp [hu])).symm

/-- Inserting a timer touches nothing but the lists and the bit. -/
@[simp] theorem fiberWatchdogInsert_frame (s : Sys) (t : TaskId) :
    (s.fiberWatchdogInsert t).mutex = s.mutex ∧ (s.fiberWatchdogInsert t).sem = s.sem ∧
      (s.fiberWatchdogInsert t).cond = s.cond ∧ (s.fiberWatchdogInsert t).log = s.log ∧
      (s.fiberWatchdogInsert t).tick = s.tick := by
  unfold fiberWatchdogInsert
  split <;> simp

@[simp] theorem fiberWatchdogRemove_frame (s : Sys) (t : TaskId) :
    (s.fiberWatchdogRemove t).mutex = s.mutex ∧ (s.fiberWatchdogRemove t).sem = s.sem ∧
      (s.fiberWatchdogRemove t).cond = s.cond ∧ (s.fiberWatchdogRemove t).log = s.log ∧
      (s.fiberWatchdogRemove t).tick = s.tick := by
  unfold fiberWatchdogRemove
  split <;> simp

/-- The tasks after `t` has made `w` ready. -/
theorem wake_task (s : Sys) (hne : t ≠ w) (f : Task → Task) :
    (((s.modTask w fun x => x.put .woken).emit (.woken t w)).modTask t f).task =
      fun u => if u = t then f (s.task t) else if u =
        w then (s.task w).put .woken else s.task u := by
  funext u
  by_cases hut : u = t
  · subst hut
    simp [hne]
  · by_cases huw : u = w
    · subst huw
      simp [hut]
    · simp [hut, huw]

end Sys

end

/-! ## The functions -/

section

variable {s s' : Sys} {t u w : TaskId} {m : MutexId} {i : SemId} {c : CondId} {call : Call}
  {r : Ret} {pc : Pc} {q : Wait} {p : LockPc} {b : TaskId → Bool}

namespace Sys

theorem queue_modMutex (f : FibMutex → FibMutex) (q : Wait) : (s.modMutex m f).queue q =
    if q = .mutex m then (f (s.mutex m)).waitq else s.queue q := by
  cases q with
  | mutex m' => by_cases hm : m' = m <;> simp [queue, hm]
  | _ => rfl

theorem queue_modSem (f : FibSemaphore → FibSemaphore) (q : Wait) : (s.modSem i f).queue q =
    if q = .sem i then (f (s.sem i)).waitq else s.queue q := by
  cases q with
  | sem j => by_cases hj : j = i <;> simp [queue, hj]
  | _ => rfl

theorem queue_modCond (f : FibCondition → FibCondition) (q : Wait) : (s.modCond c f).queue q =
    if q = .cond c then (f (s.cond c)).waitq else s.queue q := by
  cases q with
  | cond d => by_cases hd : d = c <;> simp [queue, hd]
  | _ => rfl

end Sys

namespace Inv

variable (h : Inv s)
include h

/-- The call that a task is in. -/
theorem call_of_pc (hpc : (s.task t).pc = pc) (hne : pc ≠ .idle) :
    ∃ c, (s.task t).call = some c ∧ c.fits pc = true := by
  obtain ⟨c, hc, hf⟩ := (h.task t).call_eq (hpc ▸ hne)
  exact ⟨c, hc, hpc ▸ hf⟩

theorem calm_setDepth (t : TaskId) (m : MutexId) (n : Nat) :
    Calm s (s.modTask t fun x => x.setDepth m n) := by
  have hs : Stays (s.task t) ((s.task t).setDepth m n) := ⟨rfl, rfl, rfl, rfl⟩
  exact h.calm_modTask hs ((h.task t).of_stays hs (h.task t).fits rfl (h.task t).transient)

/-! ### Locking -/

theorem calm_finishLock (hx : (s.task t).Plain) : Calm s (s.finishLock t m) := by
  have hdepth := h.calm_setDepth t m ((s.task t).depth m + 1)
  have hx' : (((s.modTask t fun x => x.setDepth m (x.depth m + 1)).task t)).Plain := by
    simpa using ⟨hx.waiting, hx.held, hx.arming⟩
  unfold Sys.finishLock
  dsimp only
  split <;> exact hdepth.trans ((hdepth.inv h).calm_ret hx')

theorem moved_mutexLock (hpc : (s.task t).pc = .lock p m) (hs : s.mutexLock t m p = some s') :
    Moved s s' := by
  obtain ⟨c, hc, hf⟩ := h.call_of_pc hpc (by rintro ⟨⟩)
  have hfit (p : LockPc) : c.fits (.lock p m) = true := hf
  cases p with
  | test =>
    obtain rfl := Option.some.inj hs
    have hx : (s.task t).Plain := Task.plain_of_pc (by rw [hpc]; rfl)
    refine (h.calm_goto hx (Task.plain_of_pc ?_) hc (hfit _)).moved
    rw [Task.goto_pc]
    split <;> rfl
  | nest =>
    obtain rfl := Option.some.inj hs
    have hcalm : Calm s (s.modMutex m fun p => { p with reentries := p.reentries + 1 }) :=
      h.calm_modMutex rfl
    exact (hcalm.trans ((hcalm.inv h).calm_finishLock
      (Task.plain_of_pc (by rw [Sys.modMutex_task, hpc]; rfl)))).moved
  | section_ =>
    have hx : (s.task t).Plain := Task.plain_of_pc (by rw [hpc]; rfl)
    simp only [Sys.mutexLock] at hs
    split at hs
    · obtain rfl := Option.some.inj hs
      have hcalm : Calm s (s.modMutex m fun p => { p with holder := some t }) :=
        h.calm_modMutex rfl
      exact (hcalm.trans ((hcalm.inv h).calm_goto hx (Task.plain_of_pc rfl) hc (hfit _))).moved
    · obtain rfl := Option.some.inj hs
      refine h.moved_block rfl rfl (fun q' => ?_) hx rfl hc (hfit _) rfl rfl ?_ ?_
      · rw [Sys.queue_modMutex]
        simp [Wait.hasQueue, Sys.queue]
      · exact h.bits_of_not_queued (by rw [h.place_of_plain hx]; rintro ⟨⟩)
      · exact (h.task t).transient.trans hx.arming
  | own =>
    obtain rfl := Option.some.inj hs
    have hcalm : Calm s (s.modMutex m fun p => { p with reentries := 1 }) := h.calm_modMutex rfl
    exact (hcalm.trans ((hcalm.inv h).calm_finishLock
      (Task.plain_of_pc (by rw [Sys.modMutex_task, hpc]; rfl)))).moved
  | parked => cases hs

/-! ### Unlocking -/

/-- The place in an unlock moves on. -/
theorem calm_goto_unlock {p : UnlockPc} (p' : UnlockPc) (hpc : (s.task t).pc = .unlock p m)
    (hh : (Pc.unlock p' m).held = (Pc.unlock p m).held)
    (hm : (Pc.unlock p' m).handoff = (Pc.unlock p m).handoff) :
      Calm s (s.goto t (.unlock p' m)) := by
  obtain ⟨c, hc, hf⟩ := h.call_of_pc hpc nofun
  have hs : Stays (s.task t) ((s.task t).goto (.unlock p' m)) :=
    ⟨rfl, by simp [Task.waiting, hpc], hpc ▸ hh, hpc ▸ hm⟩
  refine h.calm_modTask hs ((h.task t).of_stays hs (.inr ⟨c, hc, hf⟩) rfl ?_)
  rw [Task.goto_state, (h.task t).transient]
  simp [Task.arming, hpc]

theorem calm_finishUnlock {p : UnlockPc} {b : Bool} (hpc : (s.task t).pc = .unlock p m)
    (hh : (Pc.unlock p m).held = []) : Calm s (s.finishUnlock t b) := by
  obtain ⟨c, hc, hf⟩ := h.call_of_pc hpc nofun
  have harm : (s.task t).arming = false := by simp [Task.arming, hpc]
  have hwait : (s.task t).waiting = c.wait := by simp [Task.waiting, hpc, hc]
  have hheld : (s.task t).pc.held = [] := hpc ▸ hh
  have hpark (hw : c.wait.isSome = true) : Calm s (s.goto t .parked) := by
    have hs : Stays (s.task t) ((s.task t).goto .parked) := by
      refine ⟨rfl, ?_, hheld.symm, ?_⟩
      · rw [hwait]
        simp [Task.waiting, hc]
      · rw [handoff_of_held hheld]
        rfl
    exact h.calm_modTask hs ((h.task t).of_stays hs (.inr ⟨c, hc, hw⟩) rfl
      ((h.task t).transient.trans harm))
  unfold Sys.finishUnlock
  cases c with
  | mutexUnlock m' =>
    rw [hc]
    exact h.calm_ret ⟨hwait, hheld, harm⟩
  | condWait c m' =>
    rw [hc]
    exact hpark rfl
  | condTimedwait c m' timeout =>
    rw [hc]
    exact hpark rfl
  | _ => cases hf

theorem moved_mutexUnlock {p : UnlockPc} (hpc : (s.task t).pc = .unlock p m) :
    Moved s (s.mutexUnlock t m p) := by
  obtain ⟨c, hc, hf⟩ := h.call_of_pc hpc (by rintro ⟨⟩)
  cases p with
  | test =>
    unfold Sys.mutexUnlock
    dsimp only
    split
    · exact (h.calm_finishUnlock hpc rfl).moved
    · exact (h.calm_goto_unlock .dec hpc rfl rfl).moved
  | dec =>
    have hcalm : Calm s (s.modMutex m fun p => { p with reentries := p.reentries - 1 }) :=
      h.calm_modMutex rfl
    exact (hcalm.trans ((hcalm.inv h).calm_goto_unlock .retest hpc rfl rfl)).moved
  | retest =>
    unfold Sys.mutexUnlock
    dsimp only
    split
    · have hcalm := h.calm_setDepth t m ((s.task t).depth m - 1)
      exact (hcalm.trans ((hcalm.inv h).calm_finishUnlock (by simpa using hpc) rfl)).moved
    · exact (h.calm_goto_unlock .release hpc rfl rfl).moved
  | release =>
    unfold Sys.mutexUnlock
    dsimp only
    cases hq : (s.mutex m).waitq with
    | nil =>
      have hcalm : Calm s (s.modMutex m fun p =>
        { p with waitq := p.waitq.tail, holder := none }) :=
        h.calm_modMutex (by simp [hq])
      have hi := hcalm.inv h
      have hcalm' := hcalm.trans (hi.calm_setDepth t m ((s.task t).depth m - 1))
      exact (hcalm'.trans ((hcalm'.inv h).calm_finishUnlock (by simpa using hpc) rfl)).moved
    | cons w rest =>
      have hmem : w ∈ s.queue (.mutex m) := by simp [Sys.queue, hq]
      obtain ⟨-, hp, hw⟩ := (h.queue _ _).1 hmem
      have hne : w ≠ t := by
        rintro rfl
        rw [Task.waiting, hpc, hc] at hw
        cases c <;> cases hw
      show Moved s ((((s.modMutex m fun p =>
        { p with waitq := p.waitq.tail, holder := some w }).modTask t fun x =>
          x.setDepth m (x.depth m - 1)).take t [w] id).goto t (.unlock (.reent w) m))
      refine h.moved_take (q := .mutex m) id
        (((s.task t).setDepth m ((s.task t).depth m - 1)).goto (.unlock (.reent w) m)) [w] rest
        (by rintro ⟨⟩) rfl (fun _ => ⟨hq, ?_⟩) (fun q' hq' => ?_) ?_ (by simpa using ⟨hp, hw⟩)
        (List.nodup_singleton w) (fun _ => ⟨rfl, rfl, rfl⟩) ?_ (by simpa using hne.symm)
          (hpc ▸ rfl) ?_
        rfl ?_ rfl ?_
      · simp [Sys.queue, hq]
      · have hne : q' ≠ .mutex m := fun e => hq' ⟨e, rfl⟩
        cases q' with
        | mutex m' =>
          have hm : m' ≠ m := fun e => hne (e ▸ rfl)
          simp [Sys.queue, hm]
        | _ => rfl
      · funext u
        by_cases hut : u = t
        · subst hut
          simp [hne.symm]
        · by_cases huw : u = w
          · subst huw
            simp [hut]
          · simp [hut, huw]
      · intro v hv
        obtain rfl := List.mem_singleton.1 hv
        exact h.bits_of_queued hp hw
      · refine (h.task t).of_same rfl ?_ (.inr ⟨c, hc, hf⟩) rfl ?_
        · simp [Task.waiting, hpc]
        · exact (h.task t).transient.trans (by simp [Task.arming, hpc])
      · simp [Task.waiting, hpc]
      · rintro _ ⟨⟩
        rfl
  | reent w =>
    have hcalm : Calm s (s.modMutex m fun p => { p with reentries := 1 }) := h.calm_modMutex rfl
    exact (hcalm.trans ((hcalm.inv h).calm_goto_unlock (.clear w) hpc rfl rfl)).moved
  | clear w =>
    have hs : Stays (s.task w) { s.task w with
        state := { (s.task w).state with waitforMutex := false } } := ⟨rfl, rfl, rfl, rfl⟩
    have hcalm : Calm s (s.modTask w fun x =>
        { x with state := { x.state with waitforMutex := false } }) :=
      h.calm_modTask hs ((h.task w).of_stays hs (h.task w).fits rfl (h.task w).transient)
    refine (hcalm.trans ((hcalm.inv h).calm_goto_unlock (p := .clear w)
      (.ready w) ?_ rfl rfl)).moved
    have hne : t ≠ w := (h.ne_of_held (t := t) (by simp [hpc, Pc.held])).symm
    simpa [hne] using hpc
  | ready w =>
    have hmem : w ∈ (s.task t).pc.held := by simp [hpc, Pc.held]
    have hne : t ≠ w := (h.ne_of_held hmem).symm
    have harm : (s.task t).arming = false := by simp [Task.arming, hpc]
    have hwait : (s.task t).waiting = c.wait := by simp [Task.waiting, hpc, hc]
    have hpark (hw : c.wait.isSome = true) :
        Moved s (((s.modTask w fun x => x.put .woken).emit (.woken t w)).goto t .parked) := by
      have hpw : ((s.task t).goto .parked).waiting = c.wait := by simp [Task.waiting, hc]
      refine h.moved_wake ((s.task t).goto .parked) []
        (by rw [hpc]; rfl) rfl (by rintro _ ⟨⟩) rfl ?_ rfl
        (hpw.trans hwait.symm) rfl (by rintro _ ⟨⟩) ?_
      · exact s.wake_task hne fun x => x.goto .parked
      · exact (h.task t).of_same rfl (hpw.trans hwait.symm) (.inr ⟨c, hc, hw⟩) rfl
          ((h.task t).transient.trans harm)
    have hcall : (((s.modTask w fun x => x.put .woken).emit (.woken t w)).task t).call =
      some c := by
      simpa [hne] using hc
    unfold Sys.mutexUnlock Sys.finishUnlock
    dsimp only
    rw [hcall]
    cases c with
    | mutexUnlock m' =>
      have hdone : (s.task t).done.waiting = none := rfl
      unfold Sys.ret
      rw [hcall]
      refine h.moved_wake (s.task t).done [.ret t (.mutexUnlock m') (.bool true)]
        (by rw [hpc]; rfl) rfl (by simp [Ev.outer]) rfl ?_ rfl (hdone.trans hwait.symm) rfl (by rintro _ ⟨⟩) ?_
      · exact s.wake_task hne Task.done
      · exact (h.task t).of_same rfl (hdone.trans hwait.symm) (.inl ⟨rfl, rfl⟩) rfl
          ((h.task t).transient.trans harm)
    | condWait c m' => exact hpark rfl
    | condTimedwait c m' timeout => exact hpark rfl
    | _ => cases hf

/-! ### Sections -/

theorem calm_ret_of_task {s₀ : Sys} (h0 : Calm s s₀) (ht : s₀.task t = s.task t)
    (hx : (s.task t).Plain) : Moved s (s₀.ret t r) :=
  (h0.trans ((h0.inv h).calm_ret (by rw [ht]; exact hx))).moved

/-- A task joins a queue with a timeout. -/
theorem moved_block_timed {s₀ : Sys} {f : Task → Task} {timeout : Int32} (h0t : s₀.task = s.task)
    (h0l : s₀.log = s.log) (hq : ∀ q', s₀.queue q' =
      if q' = q ∧ q.hasQueue = true then s.queue q ++ [t] else s.queue q')
    (hx : (s.task t).Plain) (hf : (f (s.task t)).call = (s.task t).call)
    (hc : (s.task t).call = some call) (hu : call.isUsleep = false) (hw : call.wait = some q)
    (htm : call.timed = decide (0 < timeout)) (hfit : call.fits pc = true)
    (hpc : ((f (s.task t)).goto pc).waiting = call.wait) (hh : pc.held = [])
    (harm : ((f (s.task t)).goto pc).arming = false)
    (hb : waitBits (f (s.task t)).state = q.states)
    (ht : (f (s.task t)).state.transient = ((s.task t).state.transient || decide (0 < timeout))) :
    Moved s (s₀.block t q (Sys.afterJoin timeout pc) f) := by
  have htr : (s.task t).state.transient = false := (h.task t).transient.trans hx.arming
  by_cases h0 : 0 < timeout
  · have hpc' : Sys.afterJoin timeout pc = .arm := if_pos h0
    rw [hpc']
    refine h.moved_block h0t h0l hq hx hf hc (by simp [Call.fits, htm, h0]) ?_ rfl hb ?_
    · simp [Task.waiting, hf, hc, hu, hw]
    · simp [ht, htr, h0, Task.arming, hf, hc, hu]
  · have hpc' : Sys.afterJoin timeout pc = pc := if_neg h0
    rw [hpc']
    refine h.moved_block h0t h0l hq hx hf hc hfit (hpc.trans hw) hh hb ?_
    rw [ht, htr, harm]
    simp [h0]

/-- A post, a signal or a broadcast takes tasks off a queue. -/
theorem moved_waking (F : Task → Task) (w : TaskId) (ws rest : List TaskId)
    (hlog : s'.log = (w :: ws).map (.taken t) ++ s.log)
    (hq : q.hasQueue = true → s.queue q = w :: ws ++ rest ∧ s'.queue q = rest)
    (hq' : ∀ q', ¬(q' = q ∧ q.hasQueue = true) → s'.queue q' = s.queue q')
    (htask : s'.task = fun u => if u = t then (s.task t).goto (.waking .spin w ws)
      else if u ∈ w :: ws then (F (s.task u)).put (.held t) else s.task u)
    (hx : (s.task t).Plain) (hc : (s.task t).call = some call) (hf : call.wakes = true)
    (hws : ∀ v ∈ w :: ws, (s.task v).place = .queued ∧ (s.task v).waiting = some q)
    (hnd : (w :: ws).Nodup) (hF : ∀ x : Task, (F x).pc = x.pc ∧ (F x).call = x.call ∧
      (F x).state.transient = x.state.transient)
    (hb : ∀ v ∈ w :: ws, waitBits (F (s.task v)).state = {}) : Moved s s' := by
  have hwait : ((s.task t).goto (.waking .spin w ws)).waiting = (s.task t).waiting :=
    hx.waiting.symm
  refine h.moved_take F _ _ rest (List.cons_ne_nil w ws) hlog hq hq' htask hws hnd hF hb ?_ hx.held ?_ rfl
    hwait
    rfl nofun
  · intro hm
    have hp := (hws t hm).1
    rw [h.place_of_plain hx] at hp
    cases hp
  · exact (h.task t).of_same rfl hwait (.inr ⟨call, hc, hf⟩) rfl
      ((h.task t).transient.trans hx.arming)

/-- A post, a signal or a broadcast takes the first tasks off a wait queue. -/
theorem moved_waking_queue {s₀ : Sys} {F : Task → Task} {ws rest : List TaskId}
    (h0t : s₀.task = s.task) (h0l : s₀.log = s.log) (hhas : q.hasQueue = true)
    (hq : s.queue q = w :: ws ++ rest)
    (hq' : ∀ q', s₀.queue q' = if q' = q then rest else s.queue q') (hx : (s.task t).Plain)
    (hc : (s.task t).call = some call) (hf : call.wakes = true)
    (hF : ∀ x : Task, (F x).pc = x.pc ∧ (F x).call = x.call ∧
      (F x).state.transient = x.state.transient)
    (hb : ∀ x : Task, waitBits x.state = q.states → waitBits (F x).state = {}) :
    Moved s ((s₀.take t (w :: ws) F).goto t (.waking .spin w ws)) := by
  have hmem (v : TaskId) (hv : v ∈ w :: ws) :
      (s.task v).place = .queued ∧ (s.task v).waiting = some q := by
    have : v ∈ s.queue q := hq ▸ List.mem_append_left rest hv
    exact ((h.queue q v).1 this).2
  have hnd : (w :: ws).Nodup := by
    have := h.queueNodup q
    rw [hq] at this
    exact (List.nodup_append.1 this).1
  have hwt : t ∉ w :: ws := by
    intro hm
    have hp := (hmem t hm).1
    rw [h.place_of_plain hx] at hp
    cases hp
  have hqueue : ((s₀.take t (w :: ws) F).goto t (.waking .spin w ws)).queue = s₀.queue :=
    Sys.queue_congr rfl rfl rfl
  refine h.moved_waking (q := q) F w ws rest ?_ (fun _ => ⟨hq, ?_⟩)
    (fun q' hne => ?_) ?_ hx hc hf hmem hnd hF fun v hv => ?_
  · rw [Sys.goto_log, Sys.take_log, h0l]
  · rw [hqueue, hq', if_pos rfl]
  · rw [hqueue, hq', if_neg fun e => hne ⟨e, hhas⟩]
  · funext u
    by_cases hut : u = t
    · subst hut
      have hne : u ≠ w ∧ u ∉ ws := by simpa using hwt
      simp [Sys.take, h0t, hne]
    · simp [Sys.take, h0t, hut]
  · obtain ⟨hp, hw⟩ := hmem v hv
    exact hb _ (h.bits_of_queued hp hw)

/-- A task that has one of the bits set waits in the queue that the bit is for. -/
theorem queued_of_bits (hb : waitBits (s.task t).state ≠ {}) : ∃ q,
    (s.task t).place = .queued ∧ (s.task t).waiting = some q ∧
      waitBits (s.task t).state = q.states := by
  have hbits := (h.task t).bits
  rw [hbits] at hb ⊢
  unfold Task.bits at hb ⊢
  split at hb
  · next q hp hw => exact ⟨q, hp, hw, rfl⟩
  · exact absurd rfl hb

theorem event_of_bit (hb : (s.task t).state.waitforEvent = true) :
    (s.task t).place = .queued ∧ (s.task t).waiting = some .event := by
  obtain ⟨q, hp, hw, hst⟩ := h.queued_of_bits (t := t) fun he => by
    have := congrArg States.waitforEvent he
    simp [waitBits, hb] at this
  have := congrArg States.waitforEvent hst
  cases q <;> simp_all [waitBits, Wait.states]

theorem sleep_of_bit (hb : (s.task t).state.inUsleep = true) :
    (s.task t).place = .queued ∧ (s.task t).waiting = some .sleep := by
  obtain ⟨q, hp, hw, hst⟩ := h.queued_of_bits (t := t) fun he => by
    have := congrArg States.inUsleep he
    simp [waitBits, hb] at this
  have := congrArg States.inUsleep hst
  cases q <;> simp_all [waitBits, Wait.states]

theorem queue_of_bit
    (hb : ((s.task t).state.waitforSemph || (s.task t).state.waitforCondv) = true) : ∃ q,
    (s.task t).place = .queued ∧ (s.task t).waiting = some q ∧
      ((∃ i, q = .sem i) ∨ ∃ c, q = .cond c) := by
  obtain ⟨q, hp, hw, hst⟩ := h.queued_of_bits (t := t) fun he => by
    have hs := congrArg States.waitforSemph he
    have hc := congrArg States.waitforCondv he
    simp_all [waitBits]
  refine ⟨q, hp, hw, ?_⟩
  have hs := congrArg States.waitforSemph hst
  have hc := congrArg States.waitforCondv hst
  cases q <;> simp_all [waitBits, Wait.states]

theorem moved_enter (hpc : (s.task t).pc = .enter) (hc : (s.task t).call = some call) :
    Moved s (s.enter t call) := by
  have hx : (s.task t).Plain := Task.plain_of_pc (by rw [hpc]; rfl)
  have hfit : call.fits .enter = true := by
    obtain ⟨c, hc', hf⟩ := h.call_of_pc hpc (by rintro ⟨⟩)
    rw [hc] at hc'
    exact Option.some.inj hc' ▸ hf
  have hbits : waitBits (s.task t).state = {} :=
    h.bits_of_not_queued (by rw [h.place_of_plain hx]; rintro ⟨⟩)
  have htr : (s.task t).state.transient = false := (h.task t).transient.trans hx.arming
  cases call with
  | semWait i =>
    have hcalm : Calm s (s.modSem i fun p => { p with count := p.count - 1 }) := h.calm_modSem rfl
    unfold Sys.enter
    dsimp only
    split
    · exact h.calm_ret_of_task hcalm rfl hx
    · refine h.moved_block rfl rfl (fun q' => ?_) hx rfl hc rfl ?_ rfl ?_ ?_
      · rw [Sys.queue_modSem, Sys.queue_modSem]
        by_cases hq : q' = .sem i <;> simp [hq, Wait.hasQueue, Sys.queue]
      · simp [Task.waiting, hc, Call.wait]
      · simp_all [waitBits, Wait.states]
      · simp [Task.arming, htr]
  | semTimedwait i timeout =>
    have hcalm : Calm s (s.modSem i fun p => { p with count := p.count - 1 }) := h.calm_modSem rfl
    unfold Sys.enter
    dsimp only
    split
    · exact h.calm_ret_of_task hcalm rfl hx
    · split
      · exact h.calm_ret_of_task (hcalm.trans ((hcalm.inv h).calm_modSem rfl)) rfl hx
      · refine h.moved_block_timed rfl rfl (fun q' => ?_) hx rfl hc rfl rfl rfl rfl ?_ rfl ?_ ?_ rfl
        · rw [Sys.queue_modSem, Sys.queue_modSem]
          by_cases hq : q' = .sem i <;> simp [hq, Wait.hasQueue, Sys.queue]
        · simp [Task.waiting, hc]
        · simp [Task.arming]
        · simp_all [waitBits, Wait.states]
  | semPost i =>
    have hcalm : Calm s (s.modSem i fun p => { p with count := p.count + 1 }) := h.calm_modSem rfl
    unfold Sys.enter
    dsimp only
    split
    · exact h.calm_ret_of_task hcalm rfl hx
    · next w rest hq =>
      have hq : s.queue (.sem i) = w :: rest := by simpa [Sys.queue] using hq
      refine h.moved_waking_queue (q := .sem i) rfl rfl rfl hq (fun q' => ?_) hx hc rfl
        (fun x => ⟨rfl, rfl, rfl⟩) fun x hb => ?_
      · rw [Sys.queue_modSem, Sys.queue_modSem]
        by_cases hq' : q' = .sem i <;> simp [hq']
      · simp_all [waitBits, Wait.states]
  | condWait c m =>
    refine h.moved_block rfl rfl (fun q' => ?_) hx rfl hc
      (by simp [Call.fits, Call.unlocks]) ?_ rfl ?_ ?_
    · rw [Sys.queue_modCond]
      by_cases hq : q' = .cond c <;> simp [hq, Wait.hasQueue, Sys.queue]
    · simp [Task.waiting, hc, Call.wait]
    · simp_all [waitBits, Wait.states]
    · simp [Task.arming, htr]
  | condTimedwait c m timeout =>
    unfold Sys.enter
    dsimp only
    split
    · exact (h.calm_ret hx).moved
    · refine h.moved_block_timed rfl rfl (fun q' => ?_) hx rfl hc rfl rfl rfl
        (by simp [Call.fits, Call.unlocks]) ?_ rfl ?_ ?_ rfl
      · rw [Sys.queue_modCond]
        by_cases hq : q' = .cond c <;> simp [hq, Wait.hasQueue, Sys.queue]
      · simp [Task.waiting, hc]
      · simp [Task.arming]
      · simp_all [waitBits, Wait.states]
  | condSignal c =>
    unfold Sys.enter
    dsimp only
    split
    · exact (h.calm_ret hx).moved
    · next w rest hq =>
      refine h.moved_waking_queue (q := .cond c) rfl rfl rfl hq (fun q' => ?_) hx hc rfl
        (fun x => ⟨rfl, rfl, rfl⟩) fun x hb => ?_
      · rw [Sys.queue_modCond]
      · simp_all [waitBits, Wait.states]
  | condBroadcast c =>
    unfold Sys.enter
    dsimp only
    split
    · exact (h.calm_ret hx).moved
    · next w rest hq =>
      have hq : s.queue (.cond c) = w :: rest ++ [] := by simpa [Sys.queue] using hq
      refine h.moved_waking_queue (q := .cond c) rfl rfl rfl hq (fun q' => ?_) hx hc rfl
        (fun x => ⟨rfl, rfl, rfl⟩) fun x hb => ?_
      · rw [Sys.queue_modCond]
      · simp_all [waitBits, Wait.states]
  | eventWait events options timeout =>
    unfold Sys.enter
    dsimp only
    split
    · have hs : Stays (s.task t) { s.task t with pendingEvents := (s.task t).pendingEvents &&&
          ~~~((s.task t).pendingEvents &&& events) } := ⟨rfl, rfl, rfl, rfl⟩
      have hcalm : Calm s (s.modTask t fun x => { x with
          pendingEvents := x.pendingEvents &&& ~~~((s.task t).pendingEvents &&& events) }) :=
        h.calm_modTask hs ((h.task t).of_stays hs (h.task t).fits rfl (h.task t).transient)
      refine (hcalm.trans ((hcalm.inv h).calm_ret ?_)).moved
      simpa using ⟨hx.waiting, hx.held, hx.arming⟩
    · split
      · exact (h.calm_ret hx).moved
      · refine h.moved_block_timed rfl rfl (fun q' => ?_) hx rfl hc rfl rfl rfl rfl ?_ rfl ?_ ?_ rfl
        · simp [Wait.hasQueue]
        · simp [Task.waiting, hc]
        · simp [Task.arming]
        · simp_all [waitBits, Wait.states]
  | eventPost w events =>
    have hs : Stays (s.task w) { s.task w with
        pendingEvents := (s.task w).pendingEvents ||| events } := ⟨rfl, rfl, rfl, rfl⟩
    have hcalm : Calm s (s.modTask w fun x =>
        { x with pendingEvents := x.pendingEvents ||| events }) :=
          h.calm_modTask hs ((h.task w).of_stays hs (h.task w).fits rfl (h.task w).transient)
    unfold Sys.enter
    dsimp only
    split
    · next hcond =>
      have hbit : (s.task w).state.waitforEvent = true := by simpa using hcond.1
      have hne : ∀ q', ¬(q' = Wait.event ∧ Wait.event.hasQueue = true) := by simp [Wait.hasQueue]
      obtain ⟨hp, hw⟩ := h.event_of_bit hbit
      have hwt : t ≠ w := by
        rintro rfl
        rw [h.place_of_plain hx] at hp
        cases hp
      let seized := ((s.task w).pendingEvents ||| events) &&& (s.task w).waitingEvents
      refine h.moved_waking (q := .event)
        (fun x => { x with
          pendingEvents := (x.pendingEvents ||| events) &&& ~~~seized
          seizedEvents := seized
          state := { x.state with waitforEvent := false } })
        w [] [] rfl (by rintro ⟨⟩) (fun q' hne => ?_) ?_ hx hc rfl (by simpa using ⟨hp, hw⟩) (List.nodup_singleton w)
        (fun x => ⟨rfl, rfl, rfl⟩) fun v hv => ?_
      · cases q' <;> rfl
      · funext u
        by_cases hut : u = t
        · subst hut
          simp [hwt]
        · by_cases huw : u = w
          · subst huw
            simp [hut, seized]
          · simp [hut, huw]
      · obtain rfl := List.mem_singleton.1 hv
        have := h.bits_of_queued hp hw
        simp_all [waitBits, Wait.states]
    · refine (hcalm.trans ((hcalm.inv h).calm_ret ?_)).moved
      by_cases hut : t = w
      · subst hut
        simpa using ⟨hx.waiting, hx.held, hx.arming⟩
      · simpa [hut] using hx
  | mutexLock m => cases hfit
  | mutexUnlock m => cases hfit
  | usleep usec => cases hfit

/-! ### Timers -/

theorem calm_setTimeoutb (ht : s'.task = fun u => (s.task u).setTimeoutb (b u))
    (hq : s'.queue = s.queue) (hl : s'.log = s.log) : Calm s s' := by
  have hs (u : TaskId) : Stays (s.task u) ((s.task u).setTimeoutb (b u)) := ⟨rfl, rfl, rfl, rfl⟩
  refine ⟨⟨[], hl, nofun⟩, hq, fun u => by rw [ht]; exact hs u, fun u => ?_⟩
  rw [ht]
  exact (h.task u).of_stays (hs u) (h.task u).fits rfl (h.task u).transient

theorem calm_fiberWatchdogInsert (t : TaskId) : Calm s (s.fiberWatchdogInsert t) := by
  refine h.calm_setTimeoutb (s.fiberWatchdogInsert_task t) ?_ ?_
  · exact Sys.queue_congr (by simp) (by simp) (by simp)
  · simp

theorem calm_fiberWatchdogRemove (t : TaskId) : Calm s (s.fiberWatchdogRemove t) := by
  refine h.calm_setTimeoutb (s.fiberWatchdogRemove_task t) ?_ ?_
  · exact Sys.queue_congr (by simp) (by simp) (by simp)
  · simp

/-! ### Waking -/

/-- The place in a post, a signal or a broadcast moves on. -/
theorem calm_goto_waking {p : WakePc} {rest : List TaskId} (p' : WakePc)
    (hpc : (s.task t).pc = .waking p w rest) : Calm s (s.goto t (.waking p' w rest)) := by
  obtain ⟨c, hc, hf⟩ := h.call_of_pc hpc nofun
  have hs : Stays (s.task t) ((s.task t).goto (.waking p' w rest)) :=
    ⟨rfl, by simp [Task.waiting, hpc], by rw [hpc]; rfl, by rw [hpc]; rfl⟩
  refine h.calm_modTask hs ((h.task t).of_stays hs (.inr ⟨c, hc, hf⟩) rfl ?_)
  rw [Task.goto_state, (h.task t).transient]
  simp [Task.arming, hpc]

theorem moved_wake_step {p : WakePc} {rest : List TaskId}
    (hpc : (s.task t).pc = .waking p w rest) (hs : s.wake t w rest p = some s') : Moved s s' := by
  obtain ⟨c, hc, hf⟩ := h.call_of_pc hpc (by rintro ⟨⟩)
  cases p with
  | spin =>
    simp only [Sys.wake] at hs
    split at hs
    · cases hs
    · obtain rfl := Option.some.inj hs
      exact (h.calm_goto_waking .test hpc).moved
  | test =>
    obtain rfl := Option.some.inj hs
    exact (h.calm_goto_waking _ hpc).moved
  | remove =>
    simp only [Sys.wake] at hs
    split at hs
    · obtain rfl := Option.some.inj hs
      have hcalm := h.calm_fiberWatchdogRemove w
      exact (hcalm.trans ((hcalm.inv h).calm_goto_waking .ready
        (by rw [Sys.fiberWatchdogRemove_task]; exact hpc))).moved
    · cases hs
  | ready =>
    have hmem : w ∈ (s.task t).pc.held := by simp [hpc, Pc.held]
    have hne : t ≠ w := (h.ne_of_held hmem).symm
    have harm : (s.task t).arming = false := by simp [Task.arming, hpc]
    have hwait : (s.task t).waiting = none := by simp [Task.waiting, hpc]
    simp only [Sys.wake] at hs
    cases rest with
    | nil =>
      obtain rfl := Option.some.inj hs
      rw [Sys.ret_eq (c := c) (by simpa [hne] using hc)]
      refine h.moved_wake (s.task t).done [.ret t c _]
        (by rw [hpc]; rfl) rfl (by simp [Ev.outer]) rfl ?_ rfl hwait.symm rfl (by rintro _ ⟨⟩) ?_
      · exact s.wake_task hne Task.done
      · exact (h.task t).of_same rfl hwait.symm (.inl ⟨rfl, rfl⟩) rfl
          ((h.task t).transient.trans harm)
    | cons w' rest =>
      obtain rfl := Option.some.inj hs
      have hwait' : ((s.task t).goto (.waking .spin w' rest)).waiting = (s.task t).waiting :=
        hwait.symm
      refine h.moved_wake ((s.task t).goto (.waking .spin w' rest)) []
        (by rw [hpc]; rfl) rfl (by rintro _ ⟨⟩) rfl ?_ rfl hwait' rfl (by rintro _ ⟨⟩) ?_
      · exact s.wake_task hne fun x => x.goto (.waking .spin w' rest)
      · exact (h.task t).of_same rfl hwait' (.inr ⟨c, hc, hf⟩) rfl
          ((h.task t).transient.trans harm)

/-! ### Waiting -/

theorem moved_arm (hpc : (s.task t).pc = .arm) :
    Moved s ((s.fiberWatchdogInsert t).goto t (Sys.afterArm (s.task t).call)) := by
  obtain ⟨c, hc, hf⟩ := h.call_of_pc hpc nofun
  have hcalm := h.calm_fiberWatchdogInsert t
  refine (hcalm.trans ?_).moved
  have hi := hcalm.inv h
  have hpc' : ((s.fiberWatchdogInsert t).task t).pc = .arm := by
    rw [Sys.fiberWatchdogInsert_task]
    exact hpc
  have hc' : ((s.fiberWatchdogInsert t).task t).call = some c := by
    rw [Sys.fiberWatchdogInsert_task]
    exact hc
  rw [hc]
  generalize s.fiberWatchdogInsert t = s₁ at hi hpc' hc'
  by_cases hu : c.isUsleep = true
  · have hgo : Sys.afterArm (some c) = .doze := by cases c <;> first | rfl | cases hu
    rw [hgo]
    refine hi.calm_goto ⟨?_, by rw [hpc']; rfl, ?_⟩ (Task.plain_of_pc rfl) hc' hu
    · simp [Task.waiting, hpc', hc', hu]
    · simp [Task.arming, hc', hu]
  · have hu : c.isUsleep = false := by simpa using hu
    have hgo : Sys.afterArm (some c) = .armed := by cases c <;> first | rfl | cases hu
    have hf : c.timed = true := hf
    rw [hgo]
    have hs : Stays (s₁.task t) ((s₁.task t).goto .armed) := by
      refine ⟨rfl, ?_, by rw [hpc']; rfl, by rw [hpc']; rfl⟩
      simp [Task.waiting, hpc', hc', hu]
    refine hi.calm_modTask hs ((hi.task t).of_stays hs (.inr ⟨c, hc', ?_⟩) rfl ?_)
    · simp [Call.fits, hf, hu]
    · rw [Task.goto_state, (hi.task t).transient]
      simp [Task.arming, hpc', hc', hu]

theorem moved_armed (hpc : (s.task t).pc = .armed) : Moved s (s.modTask t fun x =>
    { x with state := { x.state with transient := false }, pc := Sys.afterArmed x.call }) := by
  obtain ⟨c, hc, hf⟩ := h.call_of_pc hpc (by rintro ⟨⟩)
  have hf : c.timed = true ∧ c.isUsleep = false := by simpa [Call.fits] using hf
  let x' : Task := { s.task t with
    state := { (s.task t).state with transient := false }
    pc := Sys.afterArmed (s.task t).call }
  have hpc' : x'.pc = Sys.afterArmed (some c) := by rw [← hc]
  have hwait : (s.task t).waiting = c.wait := by simp [Task.waiting, hpc, hc]
  have hx' : x'.waiting = c.wait ∧ x'.pc.held = [] ∧ x'.arming = false ∧ c.fits x'.pc = true := by
    rw [Task.waiting, Task.arming, hpc']
    cases c with
    | condTimedwait c m timeout =>
      simp [Sys.afterArmed, x', hc, Pc.held, Call.fits, Call.unlocks]
    | semTimedwait | eventWait =>
      simp [Sys.afterArmed, x', hc, Pc.held, Call.fits, Call.wait]
    | usleep => exact absurd hf.2 (by rintro ⟨⟩)
    | _ => exact absurd hf.1 (by rintro ⟨⟩)
  have hs : Stays (s.task t) x' := by
    refine ⟨rfl, hx'.1.trans hwait.symm, by rw [hx'.2.1, hpc]; rfl, ?_⟩
    rw [handoff_of_held hx'.2.1, hpc]
    rfl
  exact (h.calm_modTask hs ((h.task t).of_stays hs (.inr ⟨c, hc, hx'.2.2.2⟩) rfl
    hx'.2.2.1.symm)).moved

theorem moved_doze (hpc : (s.task t).pc = .doze) : Moved s (s.block t .sleep .parked fun x =>
    { x with state := { x.state with inUsleep := true } }) := by
  obtain ⟨c, hc, hf⟩ := h.call_of_pc hpc nofun
  have hx : (s.task t).Plain := Task.plain_of_pc (by rw [hpc]; rfl)
  have hbits : waitBits (s.task t).state = {} :=
    h.bits_of_not_queued (by rw [h.place_of_plain hx]; nofun)
  have hw : c.wait = some .sleep := by cases c <;> first | rfl | cases hf
  refine h.moved_block rfl rfl (fun q' => ?_) hx rfl hc (by simp [Call.fits, hw]) ?_ rfl ?_ ?_
  · simp [Wait.hasQueue]
  · simp [Task.waiting, hc, hw]
  · simp_all [waitBits, Wait.states]
  · rw [(h.task t).transient.trans hx.arming]
    simp [Task.arming]

/-- **A task moves the tasks in one of the ways of `Shift`.** -/
theorem moved_go (hs : s.go t = some s') : Moved s s' := by
  unfold Sys.go at hs
  dsimp only at hs
  split at hs
  · cases hs
  · cases hs
  · next hpc =>
    obtain ⟨c, hc, rfl⟩ := Option.map_eq_some_iff.1 hs
    exact h.moved_enter hpc hc
  · next hpc =>
    obtain rfl := Option.some.inj hs
    exact h.moved_arm hpc
  · next hpc =>
    obtain rfl := Option.some.inj hs
    exact h.moved_armed hpc
  · next hpc =>
    obtain rfl := Option.some.inj hs
    exact h.moved_doze hpc
  · next hpc => exact h.moved_mutexLock hpc hs
  · next hpc =>
    obtain rfl := Option.some.inj hs
    exact h.moved_mutexUnlock hpc
  · next hpc => exact h.moved_wake_step hpc hs

/-- A task that is ready again goes on. -/
theorem moved_resume (x' : Task) (es : List Ev) (hp : (s.task t).place = .woken)
    (hlog : s'.log = es ++ s.log) (hes : ∀ e ∈ es, e.outer = true) (hq : s'.queue = s.queue)
    (htask : s'.task = Function.update s.task t x') (hh : (s.task t).pc.held = [])
    (harm : (s.task t).arming = false) (hp' : x'.place = .runs) (hx : x'.Plain)
    (hst : x'.state = (s.task t).state)
    (hf : x'.pc = .idle ∧ x'.call = none ∨ ∃ c, x'.call = some c ∧ c.fits x'.pc = true) :
    Moved s s' := by
  have ht : s'.task t = x' := by simp [htask]
  have hother (u : TaskId) (hu : u ≠ t) : s'.task u = s.task u := by simp [htask, hu]
  refine ⟨fun u => ?_, .resume t es hlog hes hq hother hp (by rw [ht, hp']) (by rw [ht, hx.waiting])
    hh (by rw [ht, hx.held])⟩
  by_cases hu : u = t
  · rw [hu, ht]
    refine ⟨hf, iff_of_true hp' hx.waiting, ?_, ?_⟩
    · rw [hst, h.bits_of_not_queued (by rw [hp]; nofun), Task.bits, hp']
    · rw [hst, (h.task t).transient, harm, hx.arming]
  · rw [hother u hu]
    exact h.task u

theorem moved_resume_step {k : ThreadId}
    (hs : (s.modTask t fun x => { x with scheduler := k }).resume t = some s') : Moved s s' := by
  simp only [Sys.resume, Sys.modTask_task, Function.update_self] at hs
  split at hs
  · next hp =>
    have hidle : (s.task t).pc ≠ .idle := by
      intro hi
      have := h.place_of_plain (Task.plain_of_pc (by rw [hi]; rfl) : (s.task t).Plain)
      rw [hp] at this
      cases this
    obtain ⟨c, hc, hf⟩ := (h.task t).call_eq hidle
    let x₁ : Task := { s.task t with scheduler := k, place := .runs }
    have h1t : ((s.modTask t fun x => { x with scheduler := k }).modTask t
        fun x => x.put .runs).task = Function.update s.task t x₁ := by
      simp only [Sys.modTask_task, Function.update_self, Function.update_idem]
      rfl
    have h1l : ((s.modTask t fun x => { x with scheduler := k }).modTask t
        fun x => x.put .runs).log = s.log := rfl
    have h1q : ((s.modTask t fun x => { x with scheduler := k }).modTask t
        fun x => x.put .runs).queue = s.queue := rfl
    generalize (s.modTask t fun x => { x with scheduler := k }).modTask t
      (fun x => x.put .runs) = s₁ at hs h1t h1l h1q
    have h1c : (s₁.task t).call = some c := by simpa [h1t, x₁] using hc
    -- The call goes on at `pc`, or it returns.
    have hgo {pc : Pc} (hpc : (s.task t).pc = .parked) (hpl : pc.plain = true)
        (hfit : c.fits pc = true) : Moved s (s₁.goto t pc) := by
      refine h.moved_resume (x₁.goto pc) [] hp (by simpa using h1l) nofun h1q ?_
        (by rw [hpc]; rfl) (by simp [Task.arming, hpc]) rfl (Task.plain_of_pc hpl) rfl
        (.inr ⟨c, hc, hfit⟩)
      rw [Sys.goto_task, h1t, Function.update_self, Function.update_idem]
    have hret {r : Ret} (hpc : (s.task t).pc = .parked) : Moved s (s₁.ret t r) := by
      rw [Sys.ret_eq h1c]
      refine h.moved_resume x₁.done [.ret t c r] hp ?_ (by simp [Ev.outer]) h1q ?_
        (by rw [hpc]; rfl) (by simp [Task.arming, hpc]) rfl (Task.plain_done _) rfl
        (.inl ⟨rfl, rfl⟩)
      · simp [h1l]
      · rw [Sys.emit_task, Sys.modTask_task, h1t, Function.update_self, Function.update_idem]
    split at hs
    · next m hpc =>
      obtain rfl := Option.some.inj hs
      obtain ⟨r, hr⟩ := s₁.finishLock_eq (m := m) h1c
      rw [hr]
      refine h.moved_resume (x₁.setDepth m (x₁.depth m + 1)).done [.ret t c r] hp ?_
        (by simp [Ev.outer]) h1q ?_ (by rw [hpc]; rfl) (by simp [Task.arming, hpc]) rfl
        (Task.plain_done _) rfl (.inl ⟨rfl, rfl⟩)
      · simp [h1l]
      · rw [Sys.emit_task, Sys.modTask_task, h1t, Function.update_self, Function.update_idem]
    · next hpc hcall =>
      obtain rfl := Option.some.inj hs
      rw [hc] at hcall
      obtain rfl := Option.some.inj hcall
      exact hgo hpc rfl (by simp [Call.fits, Call.locks])
    · next hpc hcall =>
      obtain rfl := Option.some.inj hs
      rw [hc] at hcall
      obtain rfl := Option.some.inj hcall
      exact hgo hpc rfl (by simp [Call.fits, Call.locks])
    · next hpc _ =>
      obtain rfl := Option.some.inj hs
      exact hret hpc
    · next hpc _ =>
      obtain rfl := Option.some.inj hs
      exact hret hpc
    · next hpc _ =>
      obtain rfl := Option.some.inj hs
      exact hret hpc
    · next hpc _ =>
      obtain rfl := Option.some.inj hs
      exact hret hpc
    · cases hs
  · cases hs

/-! ### Ticks -/

theorem calm_setTick (k : ThreadId) (p : TickPc) : Calm s (s.setTick k p) :=
  h.calm_of_task rfl rfl rfl

/-- The tick ends a wait that has no queue. -/
theorem moved_expire_bit {f : Task → Task} {k : ThreadId} (hp : (s.task w).place = .queued)
    (hw : (s.task w).waiting = some q) (hq : q.hasQueue = false)
    (hf : ∀ x : Task, (f x).pc = x.pc ∧ (f x).call = x.call ∧
      (f x).state.transient = x.state.transient)
    (hb : waitBits (f (s.task w)).state = {}) :
    Moved s (((s.modTask w f).expire w).setTick k .pass) := by
  refine h.moved_expire ((f (s.task w)).put .woken) hp rfl (fun q' => ?_) ?_ rfl (hf _).1
    (hf _).2.1 hb (hf _).2.2
  · have hn : w ∉ s.queue q' := by
      intro hm
      obtain ⟨hhas, -, hw'⟩ := (h.queue q' w).1 hm
      rw [hw] at hw'
      obtain rfl := Option.some.inj hw'
      rw [hq] at hhas
      cases hhas
    rw [List.erase_of_not_mem hn]
    cases q' <;> rfl
  · simp [Function.update_idem]

/-- The tick ends a wait in the queue of an object. -/
theorem moved_expire_queue {f : Task → Task} {k : ThreadId} (hp : (s.task w).place = .queued)
    (hf : ∀ x : Task, (f x).pc = x.pc ∧ (f x).call = x.call ∧
      (f x).state.transient = x.state.transient)
    (hb : waitBits (f (s.task w)).state = {}) :
    Moved s ((((s.modTask w f).unlink w).expire w).setTick k .pass) := by
  refine h.moved_expire ((f (s.task w)).put .woken) hp rfl (fun q' => ?_) ?_ rfl (hf _).1
    (hf _).2.1 hb (hf _).2.2
  · cases q' <;> rfl
  · simp [Function.update_idem]

theorem moved_tickGo {k : ThreadId} (hs : s.tickGo k = some s') : Moved s s' := by
  unfold Sys.tickGo at hs
  dsimp only at hs
  split at hs
  · cases hs
  · cases hs
  · next w n htick =>
    split at hs
    · obtain rfl := Option.some.inj hs
      exact (h.calm_setTick k _).moved
    · split at hs
      · obtain rfl := Option.some.inj hs
        exact (h.calm_setTick k _).moved
      · split at hs
        · next hb =>
          obtain rfl := Option.some.inj hs
          obtain ⟨hp, hw⟩ := h.sleep_of_bit hb
          refine h.moved_expire_bit hp hw rfl (fun x => ⟨rfl, rfl, rfl⟩) ?_
          have := h.bits_of_queued hp hw
          simp_all [waitBits, Wait.states]
        · obtain rfl := Option.some.inj hs
          exact (h.calm_setTick k _).moved
  · obtain ⟨o, -, rfl⟩ := Option.map_eq_some_iff.1 hs
    exact (h.calm_setTick k _).moved
  · next w o n htick =>
    split at hs
    · next hb =>
      obtain rfl := Option.some.inj hs
      obtain ⟨q, hp, hw, hst⟩ := h.queue_of_bit hb
      refine h.moved_expire_queue hp (fun x => ⟨rfl, rfl, rfl⟩) ?_
      rcases hst with ⟨i, rfl⟩ | ⟨c, rfl⟩ <;>
      · have := h.bits_of_queued hp hw
        simp_all [waitBits, Wait.states]
    · obtain rfl := Option.some.inj hs
      exact (h.calm_setTick k _).moved
  · next w n htick =>
    split at hs
    · next hb =>
      obtain rfl := Option.some.inj hs
      obtain ⟨hp, hw⟩ := h.event_of_bit hb
      refine h.moved_expire_bit hp hw rfl (fun x => ⟨rfl, rfl, rfl⟩) ?_
      have := h.bits_of_queued hp hw
      simp_all [waitBits, Wait.states]
    · obtain rfl := Option.some.inj hs
      exact (h.calm_setTick k _).moved

theorem calm_begin (hpc : (s.task t).pc = .idle) : Calm s ((s.modTask t fun x =>
    { x with call := some call, pc := Sys.firstPc call, calls := x.calls + 1 }).emit
      (.begin t call)) := by
  let x' : Task := { s.task t with
    call := some call
    pc := Sys.firstPc call
    calls := (s.task t).calls + 1 }
  have hx : (s.task t).Plain := Task.plain_of_pc (by rw [hpc]; rfl)
  have hx' : x'.Plain ∧ call.fits x'.pc = true := by
    cases call with
    | mutexUnlock m => exact ⟨⟨rfl, rfl, rfl⟩, by simp [Call.fits, Call.unlocks, x', Sys.firstPc]⟩
    | usleep usec => exact ⟨⟨rfl, rfl, rfl⟩, rfl⟩
    | mutexLock m =>
      exact ⟨Task.plain_of_pc rfl, by simp [Call.fits, Call.locks, x', Sys.firstPc]⟩
    | _ => exact ⟨Task.plain_of_pc rfl, rfl⟩
  have hs := hx.stays hx'.1 rfl
  have hcalm : Calm s (s.modTask t fun x =>
      { x with call := some call, pc := Sys.firstPc call, calls := x.calls + 1 }) :=
    h.calm_modTask hs ((h.task t).of_stays hs (.inr ⟨call, rfl, hx'.2⟩) rfl
      (((h.task t).transient.trans hx.arming).trans hx'.1.arming.symm))
  exact hcalm.trans ⟨⟨[.begin t call], rfl, by simp [Ev.outer]⟩, rfl, fun u => .refl _, hcalm.ok⟩

/-- **Every step moves the tasks in one of the ways of `Shift`.** -/
theorem moved_step {mv : Move} (hs : s.step mv = some s') : Moved s s' := by
  cases mv with
  | call t c =>
    simp only [Sys.step] at hs
    split at hs
    · next hidle =>
      obtain rfl := Option.some.inj hs
      exact (h.calm_begin hidle.1).moved
    · cases hs
  | go t =>
    simp only [Sys.step] at hs
    split at hs
    · exact h.moved_go hs
    · cases hs
  | resume t k =>
    simp only [Sys.step] at hs
    split at hs
    · exact h.moved_resume_step hs
    · cases hs
  | tickle k =>
    simp only [Sys.step] at hs
    split at hs
    · obtain rfl := Option.some.inj hs
      exact (h.calm_setTick k _).moved
    · cases hs
  | timer k w =>
    simp only [Sys.step] at hs
    split at hs
    · obtain rfl := Option.some.inj hs
      refine Calm.moved ?_
      refine h.calm_setTimeoutb (b := fun u => (s.task u).state.waitTimeoutb && decide (u ≠ w)) ?_
        rfl rfl
      funext u
      by_cases hu : u = w
      · subst hu
        simp [Task.setTimeoutb]
      · rw [Task.setTimeoutb_of_eq (by simp [hu])]
        simp [hu]
    · cases hs
  | tickGo k => exact h.moved_tickGo hs
  | tickEnd k =>
    simp only [Sys.step] at hs
    split at hs
    · obtain rfl := Option.some.inj hs
      exact (h.calm_setTick k _).moved
    · cases hs

theorem step {mv : Move} (hs : s.step mv = some s') : Inv s' :=
  h.shift (h.moved_step hs).1 (h.moved_step hs).2

end Inv

/-! ## Runs -/

theorem Inv.init (v : SemId → Int32) (mem : TaskId → Task) : Inv (init v mem) := by
  refine ⟨fun t => ⟨.inl ⟨rfl, rfl⟩, iff_of_true rfl rfl, rfl, rfl⟩, fun q t => ?_, fun p t => ?_,
    nofun, fun q => ?_, fun p => List.nodup_nil⟩
  · refine iff_of_false ?_ nofun
    cases q <;> exact List.not_mem_nil
  · exact iff_of_false List.not_mem_nil nofun
  · cases q <;> exact List.nodup_nil

/-- **In every reachable state every task is where its place says.** -/
theorem Reachable.inv {v : SemId → Int32} {mem : TaskId → Task} (h : Reachable v mem s) : Inv s :=
  Lib.Reach.invariant h (.init v mem) fun _ _ _ hi _ hs => hi.step hs

end

end Ptask.Agents
