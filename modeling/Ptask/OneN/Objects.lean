import Ptask.OneN.Broadcast
import Ptask.OneN.Conditions
import Ptask.OneN.Intervals
import Ptask.OneN.Semaphore

/-!
# One semaphore, one broadcast

The counterpart of `Ptask.OneN.Conditions` for semaphores: a move that does not call a semaphore
leaves it alone, provided that the tasks in its queue wait without a timeout; a wait takes a unit
or appends the current task, a post makes the first task ready. Besides, what a broadcast does to
the queue of its condition variable.
-/

namespace Ptask.OneN.Sched

open Ptask.Lib

variable {b : Boot} {m : Move} {s s' : Sched} {t w : TaskId} {c : Call} {i : CondId} {j : SemId}

/-- The move is a call on the semaphore. -/
def usesSem (j : SemId) : Move → Bool
  | .call (.semInit i _) => i = j
  | .call (.semWait i) => i = j
  | .call (.semTimedwait i _) => i = j
  | .call (.semPost i) => i = j
  | _ => false

/-- Nobody in the queue of the semaphore waits with a timeout. -/
def SemUntimed (s : Sched) (j : SemId) : Prop := ∀ t ∈ (s.sem j).waitq, t ∉ s.wadoglist

/-! ## Tasks that wait elsewhere -/

theorem sem_unlink (hw : w ∉ (s.sem j).waitq) : (s.unlink w).sem j = s.sem j := by
  unfold unlink
  dsimp only
  rw [List.erase_of_not_mem hw]

theorem Waits.not_mem_sem (hw : s.Waits w c) (hc : c.waitChain ≠ some (.sem j)) :
    w ∉ (s.sem j).waitq := by
  have hmem : w ∉ s.chain (.sem j) := hw.place.not_mem_of_ne hc
  exact hmem

theorem Settled.ready_not_sem (h : Settled b s) (ht : t ∈ s.readylist) :
    t ∉ (s.sem j).waitq := by
  have hmem : t ∉ s.chain (.sem j) :=
    ((h.stand t).located_of_ready ht).not_mem_of_ne (by simp)
  exact hmem

/-- The wait of a task that waits elsewhere is ended. -/
theorem Waits.sem_grant (hw : s.Waits w c) (hc : c.waitChain ≠ some (.sem j)) (x : FibTCB)
    (es : List Ev) : (s.grant w x es).sem j = s.sem j :=
  sem_unlink (hw.not_mem_sem hc)

/-- The same, and the call that has ended it returns. -/
theorem Waits.sem_grant_ret (hw : s.Waits w c) (hc : c.waitChain ≠ some (.sem j)) {x : FibTCB}
    {es : List Ev} {c' : Call} {r : Ret} : ((s.grant w x es).ret t c' r).sem j = s.sem j :=
  hw.sem_grant hc x es

theorem sem_arrive : s.arrive.sem = s.sem := by
  rcases arrive_eq (s := s) with ha | ⟨c, -, ha⟩
  · rw [ha]
  · rw [ha]
    rfl

theorem sem_schedule (hr : ∀ t ∈ s.readylist, t ∉ (s.sem j).waitq) (hs : s.schedule = some s') :
    s'.sem j = s.sem j := by
  obtain ⟨u, hu, rfl⟩ := Option.map_eq_some_iff.1 hs
  rw [sem_arrive]
  unfold fiberSched at hu
  split at hu
  · cases hu
  · next theNext rest hl =>
    have hnext : theNext ∉ (s.sem j).waitq := hr theNext (hl ▸ List.mem_cons_self)
    split at hu
    · obtain rfl := Option.some.inj hu
      rfl
    · obtain rfl := Option.some.inj hu
      dsimp only
      split
      · exact sem_unlink hnext
      · exact sem_unlink hnext

/-- The current task goes to sleep elsewhere. -/
theorem Inv.sem_park (h : Inv b s) {x : FibTCB} (hc : c.waitChain ≠ some (.sem j))
    (hs : (s.suspend c x).schedule = some s') : s'.sem j = s.sem j := by
  have hsem : (s.suspend c x).sem j = s.sem j := by rw [sem_suspend h.idle, if_neg hc]
  have hready (t : TaskId) (ht : t ∈ (s.suspend c x).readylist) :
      t ∉ ((s.suspend c x).sem j).waitq := by
    rw [hsem]
    rw [readylist_suspend] at ht
    exact h.ready_not_sem (List.mem_of_mem_erase ht)
  rw [sem_schedule hready hs, hsem]

/-- The current task goes to the end of the ready list. -/
theorem Inv.sem_yielded (h : Inv b s) (hs : s.yielded.schedule = some s') : s'.sem j = s.sem j := by
  have hready (t : TaskId) (ht : t ∈ s.yielded.readylist) : t ∉ (s.yielded.sem j).waitq :=
    h.yielded.ready_not_sem ht
  exact sem_schedule (s := s.yielded) hready hs

/-! ## Moves that do not call it -/

theorem Inv.sem_foldl_signalled (h : Inv b s) {l : List TaskId} (hl : l = (s.cond i).waitq) :
    (l.foldl signalled s).sem j = s.sem j := by
  induction l generalizing s with
  | nil => rfl
  | cons w l ih =>
    obtain ⟨c, hw, hc, ht⟩ := trs_signalled (m := .call (.condBroadcast i)) (i := i)
      (by simp [usesCond]) (h.stand w) (hl ▸ List.mem_cons_self)
    have hrest : l = ((s.signalled w).cond i).waitq := by
      rw [hw.signalled]
      simp [Sched.grant, Sched.wake, Sched.unlink, ← hl]
    have hkept : (s.signalled w).sem j = s.sem j := by
      rw [hw.signalled]
      exact hw.sem_grant (by simp [hc]) _ _
    have hinv : Inv b (s.signalled w) := by
      rw [hw.signalled]
      exact h.trs ht
    rw [List.foldl_cons, ih hinv hrest, hkept]

theorem sem_fiberCreate {stackaddr : Addr} {stacksize : BitVec 32} {env : AllocEnv} :
    (s.fiberCreate stackaddr stacksize env).sem = s.sem := by
  unfold fiberCreate
  dsimp only
  repeat' split
  all_goals rfl

theorem Inv.sem_eventPost (h : Inv b s) {eventsIn : EventMask} (hl : t ∈ s.live) :
    (s.fiberEventPost t eventsIn).sem j = s.sem j := by
  by_cases hk : (s.tcb t).state.waitforEvent = true →
      eventsSatisfy (((s.tcb t).pendingEvents ||| eventsIn) &&& (s.tcb t).waitingEvents)
        (s.tcb t).waitingEvents (s.tcb t).waitingOptions = false
  · rw [fiberEventPost_keep hk]
    rfl
  · obtain ⟨hk, hsat⟩ := Classical.not_imp.1 hk
    obtain ⟨events, options, timeout, hw, -⟩ := (h.stand t).waits_of_event hk hl
    rw [fiberEventPost_grant hw (by simpa using hsat)]
    exact hw.sem_grant_ret (by simp [Call.waitChain])

theorem Inv.sem_mutexUnlock (h : Inv b s) (k : MutexId) :
    (s.fiberMutexUnlock k).sem j = s.sem j := by
  by_cases hh : (s.mutex k).holder = some s.currentTask
  · by_cases hr : (s.mutex k).reentries = 1
    · cases hq : (s.mutex k).waitq with
      | nil =>
        rw [fiberMutexUnlock_nil hh hr hq]
        rfl
      | cons w rest =>
        obtain ⟨c, hw, hc, -⟩ := (h.stand w).waits_of_queue (k := .mutex k) (by simp)
          (by simp [chain, hq])
        have hmem : w ∉ (s.sem j).waitq := hw.not_mem_sem (by simp [hc])
        rw [fiberMutexUnlock_cons hh hr hq hw hc]
        exact sem_unlink (s := s.modMutex k fun p => { p with holder := w, reentries := 1 }) hmem
    · rw [fiberMutexUnlock_nested hh hr]
      rfl
  · rw [fiberMutexUnlock_other hh]
    rfl

theorem Inv.sem_condSignal (h : Inv b s) (i : CondId) : (s.fiberCondSignal i).sem j = s.sem j := by
  cases hq : (s.cond i).waitq with
  | nil =>
    rw [fiberCondSignal_nil hq]
    rfl
  | cons w rest =>
    obtain ⟨c, hw, hc⟩ := h.waits_of_cond (i := i) (u := w) (by simp [hq])
    rw [fiberCondSignal_cons h.idle hq hw hc]
    exact hw.sem_grant_ret (by simp [hc])

theorem Inv.sem_semPost_of_ne (h : Inv b s) {k : SemId} (hk : k ≠ j) :
    (s.fiberSemPost k).sem j = s.sem j := by
  have hpost : (s.postUnit k).sem j = s.sem j := by
    simp [Sched.postUnit, Sched.modSem, emit, Ne.symm hk]
  cases hq : (s.sem k).waitq with
  | nil =>
    rw [fiberSemPost_nil hq]
    exact hpost
  | cons w rest =>
    obtain ⟨c, hw, hc, -⟩ := (h.stand w).waits_of_queue (k := .sem k) (by simp)
      (by simp [chain, hq])
    have hmem : w ∉ ((s.postUnit k).sem j).waitq := by
      rw [hpost]
      exact hw.not_mem_sem (by simpa [hc] using hk)
    rw [fiberSemPost_cons h.idle hq hw hc]
    exact (sem_unlink hmem).trans hpost

/-- A call on something else. -/
theorem Inv.sem_call (h : Inv b s) (hp : s.permittedCall c = true) (hs : s.call c = some s')
    (hm : usesSem j (.call c) = false) : s'.sem j = s.sem j := by
  cases c with
  | create stackaddr stacksize env =>
    obtain rfl := Option.some.inj hs
    rw [sem_fiberCreate]
  | yield code =>
    have hs := (fiberYield_eq h.idle code).symm.trans hs
    exact h.sem_park (by rintro ⟨⟩) hs
  | resume t =>
    obtain rfl := Option.some.inj hs
    obtain ⟨hl, ht⟩ := Bool.and_eq_true_iff.1 hp
    obtain ⟨code, hw, -⟩ := (h.stand t).waits_of_suspended ht (of_decide_eq_true hl)
    rw [fiberResume_eq hw]
    exact hw.sem_grant_ret (by simp [Call.waitChain])
  | schedYield => exact h.sem_yielded ((fiberSchedYield_eq h.idle).symm.trans hs)
  | usleep usec =>
    have hs := (fiberUsleep_eq h.idle usec).symm.trans hs
    exact h.sem_park (by rintro ⟨⟩) hs
  | eventWait events options timeout =>
    have hs := (fiberEventWait_eq h.idle events options timeout).symm.trans hs
    split at hs
    · obtain rfl := Option.some.inj hs
      rfl
    · split at hs
      · obtain rfl := Option.some.inj hs
        rfl
      · exact h.sem_park (by rintro ⟨⟩) hs
  | eventPost t events =>
    obtain rfl := Option.some.inj hs
    exact h.sem_eventPost (of_decide_eq_true hp)
  | mutexInit k =>
    obtain rfl := Option.some.inj hs
    rfl
  | mutexLock k =>
    have hs := (fiberMutexLock_eq h.idle k).symm.trans hs
    split at hs
    · obtain rfl := Option.some.inj hs
      rfl
    · split at hs
      · obtain rfl := Option.some.inj hs
        rfl
      · exact h.sem_park (by rintro ⟨⟩) hs
  | mutexUnlock k =>
    obtain rfl := Option.some.inj hs
    exact h.sem_mutexUnlock k
  | semInit k v =>
    have hk : k ≠ j := of_decide_eq_false hm
    obtain rfl := Option.some.inj hs
    simp [fiberSemInit, Sched.modSem, Sched.ret, emit, Ne.symm hk]
  | semWait k =>
    have hk : k ≠ j := of_decide_eq_false hm
    have hs := (fiberSemWait_eq h.idle k).symm.trans hs
    split at hs
    · obtain rfl := Option.some.inj hs
      simp [Sched.take, Sched.modSem, Sched.ret, emit, Ne.symm hk]
    · exact h.sem_park (by simpa [Call.waitChain] using hk) hs
  | semTimedwait k timeout =>
    have hk : k ≠ j := of_decide_eq_false hm
    have hs := (fiberSemTimedwait_eq h.idle k timeout).symm.trans hs
    split at hs
    · obtain rfl := Option.some.inj hs
      simp [Sched.take, Sched.modSem, Sched.ret, emit, Ne.symm hk]
    · split at hs
      · obtain rfl := Option.some.inj hs
        rfl
      · exact h.sem_park (by simpa [Call.waitChain] using hk) hs
  | semPost k =>
    obtain rfl := Option.some.inj hs
    exact h.sem_semPost_of_ne (of_decide_eq_false hm)
  | condInit k =>
    obtain rfl := Option.some.inj hs
    rfl
  | condWait k =>
    have hs := (fiberCondWait_eq h.idle k).symm.trans hs
    exact h.sem_park (by rintro ⟨⟩) hs
  | condTimedwait k timeout =>
    have hs := (fiberCondTimedwait_eq h.idle k timeout).symm.trans hs
    split at hs
    · obtain rfl := Option.some.inj hs
      rfl
    · exact h.sem_park (by rintro ⟨⟩) hs
  | condSignal k =>
    obtain rfl := Option.some.inj hs
    exact h.sem_condSignal k
  | condBroadcast k =>
    obtain rfl := Option.some.inj hs
    rw [fiberCondBroadcast_eq h.idle (h.distinct (.cond k)) fun u hu => h.waits_of_cond hu]
    exact h.sem_foldl_signalled rfl
  | setLocaldata t index data =>
    obtain rfl := Option.some.inj hs
    rw [fiberSetLocaldata]
    split <;> rfl
  | getLocaldata t index =>
    obtain rfl := Option.some.inj hs
    rfl

/-- A pass wakes only tasks that wait with a timeout. -/
theorem Inv.sem_tickleLoop (gap : Int32) {l : List TaskId} (h : Inv b s) (hl : l.Nodup)
    (hmem : ∀ w ∈ l, w ∈ s.wadoglist) (hu : s.SemUntimed j) :
    (tickleLoop gap l s).sem j = s.sem j := by
  induction l generalizing s with
  | nil => rfl
  | cons w l ih =>
    obtain ⟨hwl, hl⟩ := List.nodup_cons.1 hl
    obtain ⟨c, hw, ht, hd, hph, hlive⟩ := (h.stand w).waits_of_dog (hmem w List.mem_cons_self)
    have hnot : w ∉ (s.sem j).waitq := fun hq => hu w hq (hmem w List.mem_cons_self)
    rw [tickleLoop]
    split
    · rw [tickleExpired_eq hw ht]
      have hsem : (s.wake w (s.tcb w) [.expire w c s.clock]).sem j = s.sem j := sem_unlink hnot
      have hstep : Tr .schedulerPass s (s.wake w (s.tcb w) [.expire w c s.clock]) :=
        .expire rfl w c hw hlive ht hd hph
      rw [ih (h.tr hstep) hl, hsem]
      · intro u hu'
        have hne : u ≠ w := fun e => hwl (e ▸ hu')
        exact (List.mem_erase_of_ne hne).2 (hmem u (List.mem_cons_of_mem w hu'))
      · intro u hu' hd'
        rw [hsem] at hu'
        exact hu u hu' (List.mem_of_mem_erase hd')
    · rfl

theorem Inv.sem_schedulerPass (h : Inv b s) (hu : s.SemUntimed j) :
    s.schedulerPass.sem j = s.sem j := by
  unfold schedulerPass
  dsimp only
  split
  · exact h.sem_tickleLoop _ h.dogs (fun _ hw => hw) hu
  · rfl

/-! ## The watchdog list -/

theorem wadoglist_schedule (hs : s.schedule = some s') : s'.wadoglist = s.wadoglist :=
  (delta_schedule hs).2

/-- A transition of a move that is no timed call puts nobody on the watchdog list. -/
theorem dogs_tr (htr : Tr m s s') (hm : ∀ c, m = .call c → c.timed = false)
    (ht : t ∈ s'.wadoglist) : t ∈ s.wadoglist := by
  cases htr with
  | quiet _ hq => exact hq.wadoglist ▸ ht
  | exit =>
    rw [delta_arrive.2] at ht
    exact ht
  | unitGrant => exact List.mem_of_mem_erase ht
  | grant => exact List.mem_of_mem_erase ht
  | expire => exact List.mem_of_mem_erase ht
  | eventGrant => exact List.mem_of_mem_erase ht
  | park c x _ hmc _ _ _ _ _ hs =>
    rw [wadoglist_schedule hs, (delta_suspend (hm c hmc) x).2] at ht
    exact ht
  | schedYield _ _ hs =>
    rw [wadoglist_schedule hs] at ht
    exact ht
  | _ => exact ht

theorem dogs_trs (htr : Trs m s s') (hm : ∀ c, m = .call c → c.timed = false)
    (ht : t ∈ s'.wadoglist) : t ∈ s.wadoglist := by
  induction htr with
  | refl => exact ht
  | tail _ hlast ih => exact ih (dogs_tr hlast hm ht)

/-- A timed call puts nobody but the caller on it. -/
theorem Inv.dogs_timed (h : Inv b s) (hs : s.call c = some s') (hc : c.timed = true)
    (ht : t ∈ s'.wadoglist) : t ∈ s.wadoglist ∨ t = s.currentTask := by
  have parked {x : FibTCB} (hs : (s.suspend c x).schedule = some s') :
      t ∈ s.wadoglist ∨ t = s.currentTask := by
    rw [wadoglist_schedule hs] at ht
    exact (mem_wadoglist_suspend ht).symm
  have same {s'' : Sched} (hs : some s'' = some s') (hw : s''.wadoglist = s.wadoglist) :
      t ∈ s.wadoglist ∨ t = s.currentTask := by
    obtain rfl := Option.some.inj hs
    exact .inl (hw ▸ ht)
  cases c with
  | usleep usec => exact parked ((fiberUsleep_eq h.idle usec).symm.trans hs)
  | eventWait events options timeout =>
    have hs := (fiberEventWait_eq h.idle events options timeout).symm.trans hs
    split at hs
    · exact same hs rfl
    · split at hs
      · exact same hs rfl
      · exact parked hs
  | semTimedwait i timeout =>
    have hs := (fiberSemTimedwait_eq h.idle i timeout).symm.trans hs
    split at hs
    · exact same hs rfl
    · split at hs
      · exact same hs rfl
      · exact parked hs
  | condTimedwait i timeout =>
    have hs := (fiberCondTimedwait_eq h.idle i timeout).symm.trans hs
    split at hs
    · exact same hs rfl
    · exact parked hs
  | _ => cases hc

/-- **A move puts nobody but the current task on the watchdog list.** -/
theorem Inv.dogs_step (h : Inv b s) (hs : s.step m = some s') (ht : t ∈ s'.wadoglist) :
    t ∈ s.wadoglist ∨ t = s.currentTask := by
  by_cases hm : ∃ c, m = .call c ∧ c.timed = true
  · obtain ⟨c, rfl, hc⟩ := hm
    unfold Sched.step at hs
    split at hs
    · exact h.dogs_timed hs hc ht
    · cases hs
  · left
    refine dogs_trs (h.trs_step hs) ?_ ht
    intro c hmc
    by_contra hc
    exact hm ⟨c, hmc, by simpa using hc⟩

theorem Idle.not_mem_sem (h : s.Idle) : s.currentTask ∉ (s.sem j).waitq := by
  have hmem : s.currentTask ∉ s.chain (.sem j) := h.place.not_mem_of_ne (by simp)
  exact hmem

/-- **A move that does not call a semaphore leaves it alone.** -/
theorem Inv.sem_step (h : Inv b s) (hs : s.step m = some s') (hm : usesSem j m = false)
    (hu : s.SemUntimed j) : s'.sem j = s.sem j ∧ s'.SemUntimed j := by
  have hsem : s'.sem j = s.sem j := by
    unfold Sched.step at hs
    split at hs
    case isFalse => cases hs
    case isTrue hp =>
      cases m with
      | call c => exact h.sem_call (Bool.and_eq_true_iff.1 hp).1 hs hm
      | exit =>
        have he := (cppTaskmain_eq h.idle).symm.trans (Option.some.inj hs)
        rw [← he, sem_arrive]
        rfl
      | elapse us =>
        obtain rfl := Option.some.inj hs
        rfl
      | schedulerStart =>
        obtain rfl := Option.some.inj hs
        rfl
      | schedulerPass =>
        obtain rfl := Option.some.inj hs
        exact h.sem_schedulerPass hu
      | schedulerExhaust =>
        rw [exec, schedulerExhaust] at hs
        split at hs
        · exact h.sem_yielded ((fiberSchedYield_eq h.idle).symm.trans hs)
        · obtain rfl := Option.some.inj hs
          rfl
      | schedulerLoopEnd =>
        obtain rfl := Option.some.inj hs
        rfl
  refine ⟨hsem, ?_⟩
  intro t ht hd
  rw [hsem] at ht
  rcases h.dogs_step hs hd with hd | rfl
  · exact hu t ht hd
  · exact h.idle.not_mem_sem ht

/-! ## The calls on it -/

/-- `fiber_sem_wait`: a unit is taken, or the current task is last in the queue. -/
theorem Inv.semWait_step (h : Inv b s) (hs : s.step (.call (.semWait j)) = some s') :
    s'.live = s.live ∧ (s'.sem j).count = (s.sem j).count - 1 ∧
      (s.SemUntimed j → s'.SemUntimed j) ∧
      ((0 < (s.sem j).count ∧ s'.currentTask = s.currentTask ∧
          (s'.sem j).waitq = (s.sem j).waitq) ∨
        ((s.sem j).count ≤ 0 ∧ (s'.sem j).waitq = (s.sem j).waitq ++ [s.currentTask])) := by
  have hdogs (t : TaskId) (ht : t ∈ s'.wadoglist) : t ∈ s.wadoglist :=
    dogs_trs (h.trs_step hs) (fun c hc => by cases hc; rfl) ht
  unfold Sched.step at hs
  split at hs
  case isFalse => cases hs
  case isTrue hp =>
    have hne : s.currentTask ≠ s.theMaintask := by
      simpa [permitted, permittedCall, Call.blocks] using hp
    have hs := (fiberSemWait_eq h.idle j).symm.trans hs
    split at hs
    · next hcount =>
      obtain rfl := Option.some.inj hs
      have hsem : ((s.take j).ret s.currentTask (.semWait j) (.bool true)).sem j =
          { s.sem j with count := (s.sem j).count - 1 } := by
        simp [Sched.take, Sched.modSem, Sched.ret, emit]
      refine ⟨rfl, by rw [hsem], ?_, .inl ⟨hcount, rfl, by rw [hsem]⟩⟩
      intro hu t ht hd
      rw [hsem] at ht
      exact hu t ht hd
    · next hcount =>
      have hset := h.suspend (c := .semWait j) hne rfl h.idle.scheduler trivial rfl
      obtain ⟨-, -, hlive⟩ := schedule_kept hset hs
      have hsus : (s.suspend (.semWait j) (s.tcb s.currentTask)).sem j =
          { count := (s.sem j).count - 1, waitq := (s.sem j).waitq ++ [s.currentTask] } := by
        exact (sem_suspend h.idle _).trans (if_pos rfl)
      have hsem : s'.sem j = (s.suspend (.semWait j) (s.tcb s.currentTask)).sem j :=
        sem_schedule (fun t ht => hset.ready_not_sem ht) hs
      rw [hsus] at hsem
      refine ⟨hlive.trans (live_suspend _), by rw [hsem], ?_, .inr ⟨by omega, by rw [hsem]⟩⟩
      intro hu t ht hd
      rw [hsem, List.mem_append, List.mem_singleton] at ht
      rcases ht with ht | rfl
      · exact hu t ht (hdogs t hd)
      · exact h.idle.dog (hdogs _ hd)

/-- `fiber_sem_post`: the first task of the queue becomes ready, with the unit. -/
theorem Inv.semPost_step (h : Inv b s) (hs : s.step (.call (.semPost j)) = some s') :
    s'.currentTask = s.currentTask ∧ s'.live = s.live ∧
      (s'.sem j).count = (s.sem j).count + 1 ∧ (s'.sem j).waitq = (s.sem j).waitq.tail ∧
      (s.SemUntimed j → s'.SemUntimed j) ∧
      ∀ w, (s.sem j).waitq.head? = some w → w ∈ s'.readylist := by
  have hdogs (t : TaskId) (ht : t ∈ s'.wadoglist) : t ∈ s.wadoglist :=
    dogs_trs (h.trs_step hs) (fun c hc => by cases hc; rfl) ht
  have untimed (hq : (s'.sem j).waitq = (s.sem j).waitq.tail) (hu : s.SemUntimed j) :
      s'.SemUntimed j := by
    intro t ht hd
    rw [hq] at ht
    exact hu t (List.mem_of_mem_tail ht) (hdogs t hd)
  unfold Sched.step at hs
  split at hs
  case isFalse => cases hs
  case isTrue hp =>
    obtain rfl := Option.some.inj hs
    cases hq : (s.sem j).waitq with
    | nil =>
      rw [fiberSemPost_nil hq] at untimed ⊢
      have hsem : ((s.postUnit j).ret s.currentTask (.semPost j) (.bool true)).sem j =
          { s.sem j with count := (s.sem j).count + 1 } := by
        simp [Sched.postUnit, Sched.modSem, Sched.ret, emit]
      have htail : (((s.postUnit j).ret s.currentTask (.semPost j) (.bool true)).sem j).waitq =
          (s.sem j).waitq.tail := by
        rw [hsem, hq]
        rfl
      refine ⟨rfl, rfl, by rw [hsem], by rw [htail, hq], untimed htail, ?_⟩
      intro w hw
      cases hw
    | cons w rest =>
      obtain ⟨c, hw, hc, -⟩ := (h.stand w).waits_of_queue (k := .sem j) (by simp)
        (by simp [chain, hq])
      rw [fiberSemPost_cons h.idle hq hw hc] at untimed ⊢
      have hcount : (s.postUnit j).sem j = { s.sem j with count := (s.sem j).count + 1 } := by
        simp [Sched.postUnit, Sched.modSem, emit]
      have hsem : (((s.postUnit j).grant w { s.tcb w with yieldCode := 1 }
          [.grant w c (.bool true)]).ret s.currentTask (.semPost j) (.bool true)).sem j =
            { count := (s.sem j).count + 1, waitq := rest } := by
        show { (s.postUnit j).sem j with waitq := ((s.postUnit j).sem j).waitq.erase w } = _
        rw [hcount, hq, List.erase_cons_head]
      refine ⟨rfl, rfl, by rw [hsem], by rw [hsem]; rfl, untimed (by rw [hsem, hq]; rfl), ?_⟩
      intro u hu
      obtain rfl := Option.some.inj hu
      exact (insertBefore_perm _ _ _).mem_iff.2 List.mem_cons_self

/-- `fiber_cond_broadcast`: all tasks of the queue become ready. -/
theorem Inv.condBroadcast_step (h : Inv b s) (hs : s.step (.call (.condBroadcast i)) = some s') :
    s'.currentTask = s.currentTask ∧ (s'.cond i).waitq = [] ∧ s'.live = s.live ∧
      ∀ w ∈ (s.cond i).waitq, w ∈ s'.readylist := by
  unfold Sched.step at hs
  split at hs
  case isFalse => cases hs
  case isTrue hp =>
    obtain rfl := Option.some.inj hs
    obtain ⟨-, hcur⟩ := trs_broadcast (m := .call (.condBroadcast i)) (by simp [usesCond]) h
      (rfl : (s.cond i).waitq = _)
    rw [fiberCondBroadcast_eq h.idle (h.distinct (.cond i)) fun u hu => h.waits_of_cond hu]
    obtain ⟨h1, h2, -, h4⟩ := h.foldl_signalled (rfl : (s.cond i).waitq = _)
    exact ⟨hcur, h1, h2, h4⟩

end Ptask.OneN.Sched
