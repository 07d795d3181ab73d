import Ptask.OneN.Invariant

/-!
# Every move is a sequence of transitions

`Tr m s s'` is one transition of a move `m`, with the facts about the tasks it touches. The
invariant holds after each transition, and every move that is taken between two points where a task
is in its own code is a sequence of transitions. A property of all runs is therefore proved once
for each kind of transition, not for each function and branch of the source.
-/

namespace Ptask.OneN

open Ptask.Lib

namespace Sched

variable {b : Boot} {m : Move} {s s' : Sched} {w : TaskId} {c : Call}

/-! ## Creation, exit and rotation -/

/-- The control block of `w` is given to a new task. -/
def spawn (s : Sched) (w : TaskId) (x : FibTCB) : Sched :=
  { s with
    tcb := Function.update s.tcb w x
    live := w :: s.live
    nLocalFibTasks := s.nLocalFibTasks + 1
    readylist := insertBefore s.theMaintask w s.readylist
    log := .created w :: s.log }

/-- The current task is over. -/
def bury (s : Sched) : Sched :=
  { s with
    readylist := s.readylist.erase s.currentTask
    live := s.live.erase s.currentTask
    nLocalFibTasks := s.nLocalFibTasks - 1
    pool := s.pool.free s.currentTask
    log := .exited s.currentTask :: s.log }

theorem Inv.spawn (h : Inv b s) (hl : w ∉ s.live)
    (hpool : w ∉ s.pool.freedlist ++ s.pool.globalFreedlist) {x : FibTCB} (hst : x.state = {})
    (hf : x.frame = none) (hm : x.scheduler = s.theMaintask)
    (hp : x.pendingEvents = (s.tcb w).pendingEvents) : Inv b (s.spawn w x) := by
  have hne : s.currentTask ≠ w := fun e => hl (e ▸ h.live)
  have hdead : Located s.chain w none ∧ w ∉ s.wadoglist ∧ phase w s.log = some .idle := by
    cases h.stand w with
    | dead _ place dog phase => exact ⟨place, dog, phase⟩
    | idle live => exact absurd live hl
    | waits _ live => exact absurd live hl
    | ended _ live => exact absurd live hl
  obtain ⟨hplace, hdog, hph⟩ := hdead
  have hchain : (s.spawn w x).chain =
      setChain s.chain .ready (insertBefore s.theMaintask w s.readylist) := by
    funext d; cases d <;> simp [chain, Sched.spawn]
  have hsame (u : TaskId) (hu : u ≠ w) : Same s (s.spawn w x) u :=
    { tcb := by simp [Sched.spawn, hu]
      chain := fun d => by rw [hchain, mem_setChain]; simp [hu, chain]
      dog := .rfl
      live := by simp [Sched.spawn, hu]
      log := evs_cons_of_ne (Ne.symm hu)
      main := rfl }
  have hev : evs w (s.spawn w x).log = .created w :: evs w s.log := evs_cons_of_eq rfl
  refine ⟨h.toSettled.of_one w hsame (.idle (by simp [Sched.spawn]) ?_ hdog
    (by simpa [Sched.spawn] using hst) (by simpa [Sched.spawn] using hm)
    (by simp [Sched.spawn, hf]) ?_) ⟨?_, ?_⟩ ?_ ?_ h.dogs (List.nodup_cons.2 ⟨hl, h.lives⟩)
    ⟨h.pool.nodup, ?_⟩, h.idle.same (hsame _ hne) rfl⟩
  · rw [hchain]; exact hplace.set (by simp)
  · rw [phase, hev, phaseOf, show phaseOf w (evs w s.log) = _ from hph]; rfl
  · rw [pendingAfter, hev]
    simp only [Sched.spawn, Function.update_self, hp]
    exact (h.pending w).pending
  · rw [hev]; exact (h.pending w).seized
  · obtain ⟨l, hr⟩ := h.ready
    have hml : s.theMaintask ∉ l := fun hm =>
      (List.nodup_append.1 (hr ▸ h.distinct .ready : (l ++ [s.theMaintask]).Nodup)).2.2 _ hm _
        (by simp) rfl
    exact ⟨l ++ [w], by simp [Sched.spawn, hr, insertBefore_append_singleton hml]⟩
  · rw [hchain]
    have hnr : w ∉ s.chain .ready := hplace.not_mem
    exact h.distinct.set (insertBefore_nodup hnr (h.distinct .ready))
  · intro t ht
    refine List.not_mem_cons_of_ne_of_not_mem (fun e => hpool (e ▸ ht)) (h.pool.free t ht)

theorem free_mem_iff (p : TcbPool) (t u : TaskId) :
    u ∈ (p.free t).freedlist ++ (p.free t).globalFreedlist ↔
      u = t ∨ u ∈ p.freedlist ++ p.globalFreedlist :=
  (p.free_perm t).mem_iff.trans List.mem_cons

theorem free_nodup {p : TcbPool} {t : TaskId} (h : (p.freedlist ++ p.globalFreedlist).Nodup)
    (ht : t ∉ p.freedlist ++ p.globalFreedlist) :
    ((p.free t).freedlist ++ (p.free t).globalFreedlist).Nodup :=
  (p.free_perm t).nodup_iff.2 (List.nodup_cons.2 ⟨ht, h⟩)

theorem Inv.bury (h : Inv b s) (hne : s.currentTask ≠ s.theMaintask) : Settled b s.bury := by
  have hchain : s.bury.chain = setChain s.chain .ready (s.readylist.erase s.currentTask) := by
    funext d; cases d <;> simp [chain, Sched.bury]
  have hnr : s.currentTask ∉ s.readylist.erase s.currentTask := fun hm =>
    ((h.distinct .ready).mem_erase_iff.1 hm).1 rfl
  have hev : evs s.currentTask s.bury.log = .exited s.currentTask :: evs s.currentTask s.log :=
    evs_cons_of_eq rfl
  refine h.toSettled.of_one s.currentTask (fun u hu => ?_) (.dead ?_ ?_ h.idle.dog ?_) ⟨?_, ?_⟩
    ?_ ?_ h.dogs (h.lives.erase _) ⟨?_, ?_⟩
  · exact
      { tcb := rfl
        chain := fun d => by rw [hchain, mem_setChain]; simp [List.mem_erase_of_ne hu, chain]
        dog := .rfl
        live := List.mem_erase_of_ne hu
        log := evs_cons_of_ne (Ne.symm hu)
        main := rfl }
  · exact fun hm => (h.lives.mem_erase_iff.1 hm).1 rfl
  · rw [hchain]; exact h.idle.place.off hnr
  · rw [phase, hev, phaseOf, show phaseOf _ (evs _ s.log) = _ from h.idlePhase]; rfl
  · rw [pendingAfter, hev]; exact (h.pending _).pending
  · rw [hev]; exact (h.pending _).seized
  · obtain ⟨l, hr⟩ := h.ready
    exact ⟨l.erase s.currentTask, by simp [Sched.bury, hr, erase_append_singleton hne]⟩
  · rw [hchain]; exact h.distinct.set ((h.distinct .ready).erase _)
  · exact free_nodup h.pool.nodup fun hm => h.pool.free _ hm h.live
  · intro t ht hl
    rcases (free_mem_iff _ _ _).1 ht with rfl | ht
    · exact (h.lives.mem_erase_iff.1 hl).1 rfl
    · exact h.pool.free t ht (List.mem_of_mem_erase hl)

/-- The current task has called `fiber_sched_yield`: it goes to the end of the ready list. -/
def yielded (s : Sched) : Sched :=
  { s.note s.currentTask { s.tcb s.currentTask with frame := some .schedYield } [] with
    readylist :=
      if s.currentTask = s.theMaintask then s.readylist.erase s.currentTask ++ [s.currentTask]
      else insertBefore s.theMaintask s.currentTask (s.readylist.erase s.currentTask) }

theorem fiberSchedYield_eq (h : s.Idle) : s.fiberSchedYield = s.yielded.schedule := by
  have hpl : Located (s.enter s.currentTask .schedYield).chain s.currentTask (some .ready) := by
    rw [enter, chain_modTcb]; exact h.place
  simp only [fiberSchedYield, unlink_of_ready hpl, yielded, Sched.note]
  split <;> simp [enter, modTcb, readyInsertTail, localReadyQProtectedInsertBefore]

theorem Inv.yielded (h : Inv b s) : Settled b s.yielded := by
  have hmem : s.currentTask ∈ s.chain .ready := h.idle.place.mem
  have hnote : Settled b
      (s.note s.currentTask { s.tcb s.currentTask with frame := some .schedYield } []) := by
    refine h.toSettled.note (by simp) (.idle h.live ?_ h.idle.dog ?_ ?_ ?_ h.idlePhase) ⟨?_, ?_⟩
    · rw [chain_note]; exact h.idle.place
    · simpa [Sched.note] using h.idle.state
    · simpa [Sched.note] using h.idle.scheduler
    · simp [Sched.note]
    · simp only [Sched.note, Function.update_self]; exact (h.pending _).pending
    · exact (h.pending _).seized
  obtain ⟨l, hr⟩ := h.ready
  have hnd : (l ++ [s.theMaintask]).Nodup := hr ▸ h.distinct .ready
  have hml : s.theMaintask ∉ l := fun hm => (List.nodup_append.1 hnd).2.2 _ hm _ (by simp) rfl
  refine hnote.rotate ?_ ?_ s.currentTask
  · split
    · exact (List.perm_append_singleton _ _).trans (List.perm_cons_erase hmem).symm
    · exact (insertBefore_perm _ _ _).trans (List.perm_cons_erase hmem).symm
  · split
    · next e => exact ⟨_, by rw [e]; rfl⟩
    · next e =>
      refine ⟨l.erase s.currentTask ++ [s.currentTask], ?_⟩
      rw [hr, erase_append_singleton e, insertBefore_append_singleton fun hm =>
        hml (List.mem_of_mem_erase hm)]
      simp [Sched.note]

/-! ## Transitions -/

/-- Fields that a call keeps when it waits. -/
structure Kept (x y : FibTCB) : Prop where
  stackaddr : y.stackaddr = x.stackaddr
  stacksize : y.stacksize = x.stacksize
  pendingEvents : y.pendingEvents = x.pendingEvents
  scheduler : y.scheduler = x.scheduler
  taskLocalStorages : y.taskLocalStorages = x.taskLocalStorages

/-- The control block of a new task. -/
def newTcb (s : Sched) (w : TaskId) (stack : Slot) : FibTCB :=
  { s.tcb w with
    state := {}
    stackaddr := stack.stackbase
    stacksize := stack.stacksize
    frame := none
    scheduler := s.theMaintask }

/-- The move creates a task, or ends one. -/
def usesStack : Move → Bool
  | .call (.create ..) => true
  | .exit => true
  | _ => false

/-- The move is a call on the condition variable. -/
def usesCond (i : CondId) : Move → Bool
  | .call (.condInit j) => j = i
  | .call (.condWait j) => j = i
  | .call (.condTimedwait j _) => j = i
  | .call (.condSignal j) => j = i
  | .call (.condBroadcast j) => j = i
  | _ => false

/-- A change that neither a task nor a semaphore sees. -/
structure Quiet (m : Move) (s s' : Sched) : Prop where
  tcb : s'.tcb = s.tcb
  delta : m ≠ .schedulerPass → s'.delta = s.delta
  sem : s'.sem = s.sem
  chain : s'.chain = s.chain
  wadoglist : s'.wadoglist = s.wadoglist
  currentTask : s'.currentTask = s.currentTask
  theMaintask : s'.theMaintask = s.theMaintask
  live : s'.live = s.live
  log : s'.log = s.log
  pool : PoolOK s → PoolOK s'
  cache : usesStack m = false → s'.cache = s.cache
  clock : (∀ us, m ≠ .elapse us) → s'.clock = s.clock
  prevStmp : m ≠ .schedulerStart → m ≠ .schedulerPass → s'.prevStmp = s.prevStmp
  startup : m ≠ .schedulerStart → (s'.loop = .startup ↔ s.loop = .startup)

/-- A transition of the move `m`. -/
inductive Tr (m : Move) (s : Sched) : Sched → Prop
  | quiet (s' : Sched) (h : Quiet m s s') : Tr m s s'
  | localdata (w : TaskId) (index : Int32) (data : BitVec 64)
    (hm : m = .call (.setLocaldata w index data)) (hl : w ∈ s.live) :
    Tr m s (s.note w { s.tcb w with
      taskLocalStorages := Function.update (s.tcb w).taskLocalStorages index data } [])
  /-- A control block in no use is written. -/
  | scrap (w : TaskId) (hl : w ∉ s.live) : Tr m s (s.note w { s.tcb w with state := {} } [])
  | spawn (hm : usesStack m = true) (w : TaskId) (stack : Slot) (hl : w ∉ s.live)
    (hpool : w ∉ s.pool.freedlist ++ s.pool.globalFreedlist) :
    Tr m s (s.spawn w (s.newTcb w stack))
  | exit (hm : m = .exit) (hne : s.currentTask ≠ s.theMaintask) :
    Tr m s ({ s.bury with currentTask := s.theMaintask } : Sched).arrive
  /-- A call returns at once; it takes no unit of a semaphore. -/
  | ret (c : Call) (r : Ret) (hm : m = .call c)
    (hr : Phase.next s.currentTask .idle (.ret s.currentTask c r) = some .idle)
    (hsem : ∀ i, c.waitChain = some (.sem i) → r = .bool false)
    (hinit : ∀ i v, c ≠ .semInit i v)
    (hpoll : ∀ events options, c = .eventWait events options 0 →
      eventsSatisfy ((s.tcb s.currentTask).pendingEvents &&& events) events options = false) :
    Tr m s (s.ret s.currentTask c r)
  | semInit (i : SemId) (v : Int32) (hu : s.unused (.sem i) = true) : Tr m s (s.fiberSemInit i v)
  | take (i : SemId) (c : Call) (hc : c.waitChain = some (.sem i)) (h : 0 < (s.sem i).count) :
    Tr m s ((s.take i).ret s.currentTask c (.bool true))
  | unit (i : SemId) (hq : (s.sem i).waitq = []) : Tr m s (s.postUnit i)
  | unitGrant (i : SemId) (w : TaskId) (rest : List TaskId) (c : Call) (hq : (s.sem i).waitq = w :: rest) (hw : s.Waits w c)
    (hc : c.waitChain = some (.sem i)) (hl : w ∈ s.live) (hb : c.blocks = true)
    (hph : phase w s.log = some (.parked c)) :
    Tr m s ((s.postUnit i).grant w { s.tcb w with yieldCode := 1 } [.grant w c (.bool true)])
  | grant (w : TaskId) (c : Call) (y : BitVec 64) (r : Ret) (hw : s.Waits w c) (hl : w ∈ s.live) (hb : c.blocks = true)
    (hph : phase w s.log = some (.parked c)) (hr : c.grantRet w = some r)
    (hres : result w { s.tcb w with yieldCode := y } c = r)
    (hsem : ∀ i, c.waitChain ≠ some (.sem i))
    (hcond : ∀ i, c.waitChain = some (.cond i) → usesCond i m = true) :
    Tr m s (s.grant w { s.tcb w with yieldCode := y } [.grant w c r])
  | expire (hm : m = .schedulerPass) (w : TaskId) (c : Call) (hw : s.Waits w c) (hl : w ∈ s.live)
    (ht : c.timed = true) (hd : WaitData (s.tcb w) c) (hph : phase w s.log = some (.parked c)) :
    Tr m s (s.wake w (s.tcb w) [.expire w c s.clock])
  /-- Pending events are seized by a wait that does not park. -/
  | took (events : EventMask) (options : BitVec 32) (timeout : Int32) (seized : EventMask)
    (hz : seized = (s.tcb s.currentTask).pendingEvents &&& events)
    (hs : eventsSatisfy seized events options = true) :
    Tr m s (s.note s.currentTask
      { s.tcb s.currentTask with
        pendingEvents := (s.tcb s.currentTask).pendingEvents &&& ~~~seized }
      [.ret s.currentTask (.eventWait events options timeout) (.word seized),
        .seize s.currentTask seized])
  | posted (w : TaskId) (events : EventMask) (hl : w ∈ s.live)
    (hk : (s.tcb w).state.waitforEvent = true →
      eventsSatisfy (((s.tcb w).pendingEvents ||| events) &&& (s.tcb w).waitingEvents)
        (s.tcb w).waitingEvents (s.tcb w).waitingOptions = false) :
    Tr m s (s.note w { s.tcb w with pendingEvents := (s.tcb w).pendingEvents ||| events }
      [.posted w events])
  | eventGrant (w : TaskId) (events : EventMask) (options : BitVec 32) (timeout : Int32)
    (eventsIn pending seized : EventMask)
    (hw : s.Waits w (.eventWait events options timeout)) (hl : w ∈ s.live)
    (hb : (Call.eventWait events options timeout).blocks = true)
    (hph : phase w s.log = some (.parked (.eventWait events options timeout)))
    (hd : WaitData (s.tcb w) (.eventWait events options timeout))
    (hp : pending = (s.tcb w).pendingEvents ||| eventsIn)
    (hz : seized = pending &&& (s.tcb w).waitingEvents)
    (hs : eventsSatisfy seized (s.tcb w).waitingEvents (s.tcb w).waitingOptions = true) :
    Tr m s (s.grant w
      { s.tcb w with pendingEvents := pending &&& ~~~seized, seizedEvents := seized }
      [.grant w (.eventWait events options timeout) (.word seized), .seize w seized,
        .posted w eventsIn])
  | park (c : Call) (x : FibTCB) (s' : Sched) (hm : m = .call c)
    (hne : s.currentTask ≠ s.theMaintask) (hb : c.blocks = true)
    (hk : Kept (s.tcb s.currentTask) x)
    (hd : WaitData { x with frame := c, state := c.waitStates } c)
    (hsem : ∀ i, c.waitChain = some (.sem i) → (s.sem i).count ≤ 0)
    (hs : (s.suspend c x).schedule = some s') : Tr m s s'
  /-- The current task goes to the end of the ready list. -/
  | schedYield (s' : Sched) (hm : m = .call .schedYield ∨ m = .schedulerExhaust)
    (hs : s.yielded.schedule = some s') : Tr m s s'

/-- The transitions of a move. -/
abbrev Trs (m : Move) : Sched → Sched → Prop := Relation.ReflTransGen (Tr m)

/-! ## The invariant -/

theorem Quiet.same (h : Quiet m s s') (u : TaskId) : Same s s' u where
  tcb := by rw [h.tcb]
  chain c := by rw [h.chain]
  dog := by rw [h.wadoglist]
  live := by rw [h.live]
  log := by rw [h.log]
  main := h.theMaintask

theorem Inv.quiet (h : Inv b s) (hq : Quiet m s s') : Inv b s' :=
  ⟨h.toSettled.of_none hq.same (congrFun hq.chain .ready) hq.chain hq.wadoglist hq.live
    (hq.pool h.pool), h.idle.same (hq.same _) hq.currentTask⟩

theorem Inv.scrap (h : Inv b s) (hl : w ∉ s.live) {x : FibTCB}
    (hp : x.pendingEvents = (s.tcb w).pendingEvents) : Inv b (s.note w x []) := by
  have hne : s.currentTask ≠ w := fun e => hl (e ▸ h.live)
  refine ⟨h.toSettled.note (by simp) ?_ ⟨?_, (h.pending w).seized⟩,
    h.idle.same (same_note hne (by simp)) rfl⟩
  · cases h.stand w with
    | dead live place dog phase => exact .dead live (by rw [chain_note]; exact place) dog phase
    | idle live => exact absurd live hl
    | waits _ live => exact absurd live hl
    | ended _ live => exact absurd live hl
  · simp only [Sched.note, Function.update_self, hp]; exact (h.pending w).pending

/-- The count of a semaphore is not seen by a task. -/
theorem Inv.modSem (h : Inv b s) {i : SemId} {f : FibSemaphore → FibSemaphore}
    (hf : (f (s.sem i)).waitq = (s.sem i).waitq) : Inv b (s.modSem i f) := by
  have hc : (s.modSem i f).chain = s.chain := by rw [chain_modSem, hf, setChain_sem_self]
  have hs (u : TaskId) : Same s (s.modSem i f) u :=
    { Same.refl s u with chain := fun c => by rw [hc] }
  exact ⟨h.toSettled.of_none hs rfl hc rfl rfl ⟨h.pool.nodup, h.pool.free⟩, h.idle.same (hs _) rfl⟩

theorem emit_eq_note (w : TaskId) (e : Ev) : s.emit e = s.note w (s.tcb w) [e] := by
  simp [emit, Sched.note]

theorem Inv.postUnit (h : Inv b s) (i : SemId) : Inv b (s.postUnit i) := by
  have hm : Inv b (s.modSem i fun p => { p with count := p.count + 1 }) := h.modSem rfl
  have hph : phaseOf s.currentTask (evs s.currentTask s.log) = some .idle := h.idlePhase
  rw [Sched.postUnit, emit_eq_note s.currentTask]
  exact hm.note hm.idle.frame hm.idle.state hm.idle.scheduler (by simp [Ev.task, Sched.modSem])
    (by simp [Sched.modSem, phaseOf, hph, Phase.next]) (hm.pending _).pending (hm.pending _).seized

theorem timed_blocks (h : c.timed = true) : c.blocks = true := by
  have hne (t : Int32) (ht : 0 < t) : t ≠ 0 := fun e => by subst e; exact absurd ht (by decide)
  cases c <;> simp_all [Call.timed, Call.blocks]

theorem result_expired (h : c.timed = true) (hd : WaitData (s.tcb w) c) :
    result w (s.tcb w) c = c.expiredRet := by
  cases c with
  | usleep => rfl
  | eventWait => exact congrArg Ret.word hd.2.2.1
  | semTimedwait => exact congrArg Ret.bool (by rw [show (s.tcb w).yieldCode = 0 from hd]; rfl)
  | condTimedwait => exact congrArg Ret.bool (by rw [show (s.tcb w).yieldCode = 0 from hd]; rfl)
  | _ => cases h

theorem Settled.of_schedule (h : Settled b s) (hs : s.schedule = some s') : Inv b s' := by
  obtain ⟨t, l, ht, -, hr, he⟩ := h.schedule
  rw [he] at hs
  exact Option.some.inj hs ▸ hr.arrive ht

/-- **Every transition preserves the invariant.** -/
theorem Inv.tr (h : Inv b s) (ht : Tr m s s') : Inv b s' := by
  cases ht with
  | quiet _ hq => exact h.quiet hq
  | localdata w index data _ hl => exact h.localdata hl _
  | scrap w hl => exact h.scrap hl rfl
  | spawn _ w stack hl hpool => exact h.spawn hl hpool rfl rfl rfl rfl
  | exit _ hne =>
    have hb := h.bury hne
    obtain ⟨p, hp⟩ := hb.ready
    refine (hb.rotate (.refl _) ⟨p, hp⟩ s.theMaintask).arrive ?_
    show s.theMaintask ∈ s.bury.readylist
    rw [hp]
    exact List.mem_append_right _ (List.mem_singleton.2 rfl)
  | ret c r _ hr _ _ hpoll => exact h.ret hr hpoll
  | semInit i v hu =>
    have hq : (s.sem i).waitq = [] := by
      simpa [chain] using (Bool.and_eq_true_iff.1 hu).1
    have hm : Inv b (s.modSem i fun _ => { count := v.toInt }) := h.modSem hq.symm
    exact hm.ret rfl (by rintro _ _ ⟨⟩)
  | take i c hc =>
    have hm : Inv b (s.take i) := h.modSem rfl
    refine hm.ret ?_ ?_
    · cases c <;> cases hc <;> rfl
    · rintro _ _ rfl
      cases hc
  | unit i hq => exact h.postUnit i
  | unitGrant i w rest c hq hw hc hl hb hph =>
    have hne := (hw.ne h.idle).symm
    have hs : Same s (s.postUnit i) w :=
      { Same.refl s w with
        chain := fun d => by
          rw [Sched.postUnit, chain_emit, chain_modSem, setChain_sem_self]
        log := evs_cons_of_ne hne }
    refine (h.postUnit i).grantRet (hs.waits hw) hl hb ((phase_congr hs.log).trans hph) ?_ ?_
    · cases c <;> cases hc <;> rfl
    · cases c <;> cases hc <;> rfl
  | grant w c y r hw hl hb hph hr hres => exact h.grantRet hw hl hb hph hr hres
  | expire _ w c hw hl ht hd hph =>
    have hph' : phaseOf w (evs w s.log) = some (.parked c) := hph
    refine ⟨h.toSettled.wake hw hl (timed_blocks ht) hw.frame hw.scheduler (by simp [Ev.task]) ?_
      (h.pending w).pending (h.pending w).seized, h.idle.wake hw (by simp [Ev.task])⟩
    rw [List.singleton_append, phaseOf, hph', result_expired ht hd]
    simp [Phase.next, ht]
  | took events options timeout seized hz hs =>
    subst hz
    exact h.took hs
  | posted w events hl hk => exact h.posted w hk
  | eventGrant w events options timeout eventsIn pending seized hw hl hb hph hd hp hz hs =>
    subst hp hz
    exact h.eventGrant hw hl hb hph hd hs
  | park c x _ _ hne hb hk hd _ hs =>
    exact (h.suspend hne hb (hk.scheduler.trans h.idle.scheduler) hd hk.pendingEvents).of_schedule hs
  | schedYield _ _ hs => exact h.yielded.of_schedule hs

theorem Inv.trs (h : Inv b s) (ht : Trs m s s') : Inv b s' := by
  induction ht with
  | refl => exact h
  | tail _ hlast ih => exact ih.tr hlast

/-! ## Calls -/

theorem Tr.one (h : Tr m s s') : Trs m s s' := .single h

/-- A call that returns at once and changes nothing. -/
theorem trs_ret {r : Ret} (hr : Phase.next s.currentTask .idle (.ret s.currentTask c r) = some .idle)
    (hsem : ∀ i, c.waitChain = some (.sem i) → r = .bool false) (hinit : ∀ i v, c ≠ .semInit i v)
    (hpoll : ∀ events options, c = .eventWait events options 0 →
      eventsSatisfy ((s.tcb s.currentTask).pendingEvents &&& events) events options = false) :
    Trs (.call c) s (s.ret s.currentTask c r) :=
  Tr.one (.ret c r rfl hr hsem hinit hpoll)

theorem quiet_mutex {i : MutexId} {f : FibMutex → FibMutex}
    (hf : (f (s.mutex i)).waitq = (s.mutex i).waitq) : Quiet m s (s.modMutex i f) where
  tcb := rfl
  delta _ := rfl
  sem := rfl
  chain := by rw [chain_modMutex, hf, setChain_mutex_self]
  wadoglist := rfl
  currentTask := rfl
  theMaintask := rfl
  live := rfl
  log := rfl
  pool h := ⟨h.nodup, h.free⟩
  cache _ := rfl
  clock _ := rfl
  prevStmp _ _ := rfl
  startup _ := .rfl

theorem quiet_cond {i : CondId} {f : FibCondition → FibCondition}
    (hf : (f (s.cond i)).waitq = (s.cond i).waitq) : Quiet m s (s.modCond i f) where
  tcb := rfl
  delta _ := rfl
  sem := rfl
  chain := by rw [chain_modCond, hf]; exact Function.update_eq_self (Chain.cond i) s.chain
  wadoglist := rfl
  currentTask := rfl
  theMaintask := rfl
  live := rfl
  log := rfl
  pool h := ⟨h.nodup, h.free⟩
  cache _ := rfl
  clock _ := rfl
  prevStmp _ _ := rfl
  startup _ := .rfl

theorem quiet_pool {p : TcbPool} {k : StackCache} (hm : usesStack m = true)
    (hp : PoolOK s → PoolOK { s with pool := p, cache := k }) :
    Quiet m s { s with pool := p, cache := k } where
  tcb := rfl
  delta _ := rfl
  sem := rfl
  chain := by funext c; cases c <;> rfl
  wadoglist := rfl
  currentTask := rfl
  theMaintask := rfl
  live := rfl
  log := rfl
  pool := hp
  cache h := absurd (hm.symm.trans h) nofun
  clock _ := rfl
  prevStmp _ _ := rfl
  startup _ := .rfl

/-- A task on the watchdog list waits in a timed call. -/
theorem Stand.waits_of_dog (h : Stand s w) (hw : w ∈ s.wadoglist) :
    ∃ c, s.Waits w c ∧ c.timed = true ∧ WaitData (s.tcb w) c ∧ phase w s.log = some (.parked c) ∧
      w ∈ s.live := by
  cases h with
  | dead _ _ dog => exact absurd hw dog
  | idle _ _ dog => exact absurd hw dog
  | waits c live waits _ data phase => exact ⟨c, waits, waits.dog.1 hw, data, phase, live⟩
  | ended _ _ _ dog => exact absurd hw dog

/-- A suspended task is in `fiber_yield`. -/
theorem Stand.waits_of_suspended (h : Stand s w) (hw : (s.tcb w).state.suspended = true)
    (hl : w ∈ s.live) :
    ∃ code, s.Waits w (.yield code) ∧ (s.tcb w).yieldCode = code ∧
      phase w s.log = some (.parked (.yield code)) := by
  cases h with
  | dead live => exact absurd hl live
  | idle _ _ _ state => rw [state] at hw; cases hw
  | waits c _ waits _ data phase =>
    rw [waits.state] at hw
    cases c with
    | yield code => exact ⟨code, waits, data, phase⟩
    | _ => cases hw
  | ended _ _ _ _ state => rw [state] at hw; cases hw

/-- A task that waits for events is in `fiber_event_wait`. -/
theorem Stand.waits_of_event (h : Stand s w) (hw : (s.tcb w).state.waitforEvent = true)
    (hl : w ∈ s.live) :
    ∃ events options timeout, s.Waits w (.eventWait events options timeout) ∧
      (Call.eventWait events options timeout).blocks = true ∧
      WaitData (s.tcb w) (.eventWait events options timeout) ∧
      phase w s.log = some (.parked (.eventWait events options timeout)) := by
  cases h with
  | dead live => exact absurd hl live
  | idle _ _ _ state => rw [state] at hw; cases hw
  | waits c _ waits blocks data phase =>
    rw [waits.state] at hw
    cases c with
    | eventWait events options timeout => exact ⟨_, _, _, waits, blocks, data, phase⟩
    | _ => cases hw
  | ended _ _ _ _ state => rw [state] at hw; cases hw

section

variable (h : Inv b s)
include h

omit h in
/-- The current task parks in a call. -/
theorem trs_park {x : FibTCB} (hs : (s.suspend c x).schedule = some s')
    (hne : s.currentTask ≠ s.theMaintask) (hb : c.blocks = true)
    (hk : Kept (s.tcb s.currentTask) x)
    (hd : WaitData { x with frame := c, state := c.waitStates } c)
    (hsem : ∀ i, c.waitChain = some (.sem i) → (s.sem i).count ≤ 0) : Trs (.call c) s s' :=
  Tr.one (.park c x s' rfl hne hb hk hd hsem hs)

theorem Inv.trs_yield {code : BitVec 64} (hne : s.currentTask ≠ s.theMaintask)
    (hs : s.fiberYield code = some s') : Trs (.call (.yield code)) s s' := by
  rw [fiberYield_eq h.idle] at hs
  exact trs_park hs hne rfl ⟨rfl, rfl, rfl, rfl, rfl⟩ rfl fun i hi => by cases hi

theorem Inv.trs_usleep {usec : Int32} (hne : s.currentTask ≠ s.theMaintask)
    (hs : s.fiberUsleep usec = some s') : Trs (.call (.usleep usec)) s s' := by
  rw [fiberUsleep_eq h.idle] at hs
  exact trs_park hs hne rfl ⟨rfl, rfl, rfl, rfl, rfl⟩ trivial fun i hi => by cases hi

theorem Inv.trs_schedYield (hm : m = .call .schedYield ∨ m = .schedulerExhaust)
    (hs : s.fiberSchedYield = some s') : Trs m s s' :=
  Tr.one (.schedYield s' hm (fiberSchedYield_eq h.idle ▸ hs))

theorem Inv.trs_resume {t : TaskId} (hl : t ∈ s.live) (ht : (s.tcb t).state.suspended = true) :
    Trs (.call (.resume t)) s (s.fiberResume t) := by
  obtain ⟨code, hw, -, hph⟩ := (h.stand t).waits_of_suspended ht hl
  rw [fiberResume_eq hw]
  exact (Tr.one (.grant t _ (s.tcb t).yieldCode _ hw hl rfl hph rfl rfl
    (fun i hi => by cases hi) (fun i hi => by cases hi))).trans
      (trs_ret rfl (fun i hi => by cases hi) (fun _ _ => nofun) fun _ _ => nofun)

theorem Inv.trs_eventWait {events : EventMask} {options : BitVec 32} {timeout : Int32}
    (hne : timeout ≠ 0 → s.currentTask ≠ s.theMaintask)
    (hs : s.fiberEventWait events options timeout = some s') : Trs (.call (.eventWait events options timeout)) s s' := by
  rw [fiberEventWait_eq h.idle] at hs
  split at hs
  · next hsat =>
    obtain rfl := Option.some.inj hs
    have ht := Tr.one (Tr.took (m := .call (.eventWait events options timeout)) events options timeout _ rfl hsat)
    simpa [Sched.note, modTcb, emit, Sched.ret] using ht
  · next hsat =>
    split at hs
    · next ht =>
      obtain rfl := Option.some.inj hs
      refine trs_ret (by simp [Phase.next, ht]) (fun i hi => by cases hi) (fun _ _ => (by rintro ⟨⟩)) ?_
      rintro _ _ ⟨⟩
      simpa using hsat
    · next ht =>
      exact trs_park hs (hne ht) (by simpa [Call.blocks] using ht) ⟨rfl, rfl, rfl, rfl, rfl⟩
        ⟨rfl, rfl, rfl, by simpa using hsat⟩ fun i hi => by cases hi

theorem Inv.trs_eventPost {t : TaskId} {eventsIn : EventMask} (hl : t ∈ s.live) :
    Trs (.call (.eventPost t eventsIn)) s (s.fiberEventPost t eventsIn) := by
  have hret (s' : Sched) : Trs (.call (.eventPost t eventsIn)) s' (s'.ret s'.currentTask (.eventPost t eventsIn) (.word 0)) :=
    trs_ret rfl (fun i hi => by cases hi) (fun _ _ => nofun) fun _ _ => nofun
  by_cases hk : (s.tcb t).state.waitforEvent = true →
      eventsSatisfy (((s.tcb t).pendingEvents ||| eventsIn) &&& (s.tcb t).waitingEvents)
        (s.tcb t).waitingEvents (s.tcb t).waitingOptions = false
  · rw [fiberEventPost_keep hk]
    exact (Tr.one (.posted t eventsIn hl hk)).trans (hret _)
  · obtain ⟨hk, hsat⟩ := Classical.not_imp.1 hk
    obtain ⟨events, options, timeout, hw, hb, hd, hph⟩ := (h.stand t).waits_of_event hk hl
    rw [fiberEventPost_grant hw (by simpa using hsat)]
    exact (Tr.one (.eventGrant t events options timeout eventsIn _ _ hw hl hb hph hd rfl rfl
      (by simpa using hsat))).trans (hret _)

theorem Inv.trs_mutexLock {i : MutexId} (hne : s.currentTask ≠ s.theMaintask)
    (hs : s.fiberMutexLock i = some s') : Trs (.call (.mutexLock i)) s s' := by
  have hret (s' : Sched) : Trs (.call (.mutexLock i)) s' (s'.ret s'.currentTask (.mutexLock i) (.bool true)) :=
    trs_ret rfl (fun i hi => by cases hi) (fun _ _ => nofun) fun _ _ => nofun
  rw [fiberMutexLock_eq h.idle] at hs
  split at hs
  · obtain rfl := Option.some.inj hs
    exact (Tr.one (.quiet _ (quiet_mutex rfl))).trans (hret _)
  · split at hs
    · obtain rfl := Option.some.inj hs
      exact (Tr.one (.quiet _ (quiet_mutex rfl))).trans (hret _)
    · exact trs_park hs hne rfl ⟨rfl, rfl, rfl, rfl, rfl⟩ trivial fun i hi => by cases hi

theorem Inv.trs_mutexUnlock {i : MutexId} : Trs (.call (.mutexUnlock i)) s (s.fiberMutexUnlock i) := by
  have hret (s' : Sched) (r : Ret) : Trs (.call (.mutexUnlock i)) s' (s'.ret s'.currentTask (.mutexUnlock i) r) :=
    trs_ret rfl (fun i hi => by cases hi) (fun _ _ => nofun) fun _ _ => nofun
  by_cases hh : (s.mutex i).holder = some s.currentTask
  · by_cases hr : (s.mutex i).reentries = 1
    · cases hq : (s.mutex i).waitq with
      | nil =>
        rw [fiberMutexUnlock_nil hh hr hq]
        exact (Tr.one (.quiet _ (quiet_mutex rfl))).trans (hret _ _)
      | cons w rest =>
        obtain ⟨c, hw, hc, hb, -, hph, hl⟩ := (h.stand w).waits_of_queue (k := .mutex i) nofun
          (by simp [chain, hq])
        rw [fiberMutexUnlock_cons hh hr hq hw hc]
        have hq : Quiet (.call (.mutexUnlock i)) s
            (s.modMutex i fun p => { p with holder := w, reentries := 1 }) :=
          quiet_mutex rfl
        obtain rfl := waitStates_of_mutex hc
        exact ((Tr.one (.quiet _ hq)).trans (Tr.one (.grant w _ (s.tcb w).yieldCode _
          ((hq.same w).waits hw) hl hb hph rfl rfl (fun i hi => by cases hi)
          (fun i hi => by cases hi)))).trans (hret _ _)
    · rw [fiberMutexUnlock_nested hh hr]
      exact (Tr.one (.quiet _ (quiet_mutex rfl))).trans (hret _ _)
  · rw [fiberMutexUnlock_other hh]
    exact hret _ _

theorem Inv.trs_semWait {i : SemId} (hne : s.currentTask ≠ s.theMaintask)
    (hs : s.fiberSemWait i = some s') : Trs (.call (.semWait i)) s s' := by
  rw [fiberSemWait_eq h.idle] at hs
  split at hs
  · next hc =>
    obtain rfl := Option.some.inj hs
    exact Tr.one (.take i _ rfl hc)
  · next hc =>
    refine trs_park hs hne rfl ⟨rfl, rfl, rfl, rfl, rfl⟩ trivial fun j hj => ?_
    cases hj
    omega

theorem Inv.trs_semTimedwait {i : SemId} {timeout : Int32}
    (hne : timeout ≠ 0 → s.currentTask ≠ s.theMaintask)
    (hs : s.fiberSemTimedwait i timeout = some s') : Trs (.call (.semTimedwait i timeout)) s s' := by
  rw [fiberSemTimedwait_eq h.idle] at hs
  split at hs
  · next hc =>
    obtain rfl := Option.some.inj hs
    exact Tr.one (.take i _ rfl hc)
  · next hc =>
    split at hs
    · obtain rfl := Option.some.inj hs
      exact trs_ret rfl (fun _ _ => rfl) (fun _ _ => nofun) fun _ _ => nofun
    · next ht =>
      refine trs_park hs (hne ht) (by simpa [Call.blocks] using ht) ⟨rfl, rfl, rfl, rfl, rfl⟩
        rfl fun j hj => ?_
      cases hj
      omega

theorem Inv.trs_semPost {i : SemId} : Trs (.call (.semPost i)) s (s.fiberSemPost i) := by
  have hret (s' : Sched) : Trs (.call (.semPost i)) s' (s'.ret s'.currentTask (.semPost i) (.bool true)) :=
    trs_ret rfl (fun i hi => by cases hi) (fun _ _ => nofun) fun _ _ => nofun
  cases hq : (s.sem i).waitq with
  | nil =>
    rw [fiberSemPost_nil hq]
    exact (Tr.one (.unit i hq)).trans (hret _)
  | cons w rest =>
    obtain ⟨c, hw, hc, hb, -, hph, hl⟩ := (h.stand w).waits_of_queue (k := .sem i) nofun
      (by simp [chain, hq])
    rw [fiberSemPost_cons h.idle hq hw hc]
    exact (Tr.one (.unitGrant i w rest c hq hw hc hl hb hph)).trans (hret _)

theorem Inv.trs_condWait {i : CondId} (hne : s.currentTask ≠ s.theMaintask)
    (hs : s.fiberCondWait i = some s') : Trs (.call (.condWait i)) s s' := by
  rw [fiberCondWait_eq h.idle] at hs
  exact trs_park hs hne rfl ⟨rfl, rfl, rfl, rfl, rfl⟩ trivial fun i hi => by cases hi

theorem Inv.trs_condTimedwait {i : CondId} {timeout : Int32}
    (hne : timeout ≠ 0 → s.currentTask ≠ s.theMaintask)
    (hs : s.fiberCondTimedwait i timeout = some s') : Trs (.call (.condTimedwait i timeout)) s s' := by
  rw [fiberCondTimedwait_eq h.idle] at hs
  split at hs
  · obtain rfl := Option.some.inj hs
    exact trs_ret rfl (fun i hi => by cases hi) (fun _ _ => nofun) fun _ _ => nofun
  · next ht =>
    exact trs_park hs (hne ht) (by simpa [Call.blocks] using ht) ⟨rfl, rfl, rfl, rfl, rfl⟩ rfl
      fun i hi => by cases hi

omit h in
/-- A waiter on a condition variable is signalled. -/
theorem trs_signalled {i : CondId} (hm : usesCond i m = true) (hs : Stand s w)
    (hw : w ∈ (s.cond i).waitq) :
    ∃ c, s.Waits w c ∧ c.waitChain = some (.cond i) ∧ Trs m s
      (s.grant w { s.tcb w with yieldCode := 1 } [.grant w c (.bool true)]) := by
  obtain ⟨c, hwt, hc, hb, -, hph, hl⟩ := hs.waits_of_queue (k := .cond i) nofun hw
  refine ⟨c, hwt, hc, Tr.one (.grant w c 1 _ hwt hl hb hph ?_ ?_ (fun j hj => ?_) fun j hj => ?_)⟩
  · cases c <;> cases hc <;> rfl
  · cases c <;> cases hc <;> rfl
  · rw [hc] at hj; cases hj
  · rw [hc] at hj
    cases hj
    exact hm

theorem Inv.trs_condSignal {i : CondId} : Trs (.call (.condSignal i)) s (s.fiberCondSignal i) := by
  have hret (s' : Sched) : Trs (.call (.condSignal i)) s' (s'.ret s'.currentTask (.condSignal i) (.bool true)) :=
    trs_ret rfl (fun i hi => by cases hi) (fun _ _ => nofun) fun _ _ => nofun
  cases hq : (s.cond i).waitq with
  | nil => rw [fiberCondSignal_nil hq]; exact hret _
  | cons w rest =>
    obtain ⟨c, hw, hc, ht⟩ :=
      trs_signalled (m := .call (.condSignal i)) (i := i) (by simp [usesCond]) (h.stand w)
        (by simp [hq])
    rw [fiberCondSignal_cons h.idle hq hw hc]
    exact ht.trans (hret _)

omit h in
theorem trs_broadcast {i : CondId} {l : List TaskId} (hm : usesCond i m = true) (h : Inv b s)
    (hl : l = (s.cond i).waitq) :
    Trs m s (l.foldl signalled s) ∧
      (l.foldl signalled s).currentTask = s.currentTask := by
  induction l generalizing s with
  | nil => exact ⟨.refl, rfl⟩
  | cons w l ih =>
    obtain ⟨c, hw, hc, ht⟩ := trs_signalled hm (h.stand w) (by simp [← hl])
    rw [List.foldl_cons, hw.signalled]
    obtain ⟨h1, h2⟩ := ih (h.trs ht) (by simp [grant, wake, unlink, ← hl])
    exact ⟨ht.trans h1, h2⟩

theorem Inv.trs_condBroadcast {i : CondId} :
    Trs (.call (.condBroadcast i)) s (s.fiberCondBroadcast i) := by
  have hw (u : TaskId) (hu : u ∈ (s.cond i).waitq) : ∃ c, s.Waits u c ∧
      c.waitChain = some (.cond i) := by
    obtain ⟨c, hw, hc, -⟩ := (h.stand u).waits_of_queue (k := .cond i) nofun hu
    exact ⟨c, hw, hc⟩
  obtain ⟨ht, hcur⟩ := trs_broadcast (m := .call (.condBroadcast i)) (by simp [usesCond]) h
    (rfl : (s.cond i).waitq = _)
  rw [fiberCondBroadcast_eq h.idle (h.distinct (.cond i)) hw, ← hcur]
  exact ht.trans (trs_ret rfl (fun i hi => by cases hi) (fun _ _ => nofun) fun _ _ => nofun)

omit h in
theorem waitq_of_unused {k : Chain} (hu : s.unused k = true) : s.chain k = [] := by
  simpa using (Bool.and_eq_true_iff.1 hu).1

omit h in
theorem trs_mutexInit {i : MutexId} (hu : s.unused (.mutex i) = true) :
    Trs (.call (.mutexInit i)) s (s.fiberMutexInit i) := by
  have hq : (s.mutex i).waitq = [] := waitq_of_unused hu
  exact (Tr.one (.quiet _ (quiet_mutex hq.symm))).trans
    (trs_ret rfl (fun i hi => by cases hi) (fun _ _ => nofun) fun _ _ => nofun)

omit h in
theorem trs_condInit {i : CondId} (hu : s.unused (.cond i) = true) :
    Trs (.call (.condInit i)) s (s.fiberCondInit i) := by
  have hq : (s.cond i).waitq = [] := waitq_of_unused hu
  exact (Tr.one (.quiet _ (quiet_cond hq.symm))).trans
    (trs_ret rfl (fun i hi => by cases hi) (fun _ _ => nofun) fun _ _ => nofun)

omit h in
theorem trs_setLocaldata {t : TaskId} {index : Int32} {data : BitVec 64} (hl : t ∈ s.live) :
    Trs (.call (.setLocaldata t index data)) s
      (s.fiberSetLocaldata t index data) := by
  have hret (s' : Sched) (r : Ret) : Trs (.call (.setLocaldata t index data)) s'
      (s'.ret s'.currentTask (.setLocaldata t index data) r) :=
    trs_ret rfl (fun i hi => by cases hi) (fun _ _ => nofun) fun _ _ => nofun
  unfold fiberSetLocaldata
  split
  · exact hret _ _
  · exact (Tr.one (.localdata t index data rfl hl)).trans (hret _ _)

omit h in
theorem trs_getLocaldata {t : TaskId} {index : Int32} :
    Trs (.call (.getLocaldata t index)) s (s.fiberGetLocaldata t index) :=
  trs_ret rfl (fun i hi => by cases hi) (fun _ _ => nofun) fun _ _ => nofun

end

/-! ## Control blocks -/

/-- The control block that `tcb_alloc` hands out is in no use, and neither are those it leaves in the
pool. -/
theorem alloc_spec (h : PoolOK s) {malloc : Option TaskId}
    (hfresh : malloc.all s.freshTcbs = true) {t : TaskId} {p : TcbPool}
    (ha : s.pool.alloc malloc = (some t, p)) :
    t ∉ s.live ∧ t ∉ p.freedlist ++ p.globalFreedlist ∧
      (p.freedlist ++ p.globalFreedlist).Nodup ∧
      ∀ u ∈ p.freedlist ++ p.globalFreedlist, u ∉ s.live := by
  have hnd := h.nodup
  have hfr := h.free
  unfold TcbPool.alloc at ha
  split at ha
  · next tcb rest hl =>
    cases ha
    rw [hl] at hnd hfr
    obtain ⟨h1, h2⟩ := List.nodup_cons.1 hnd
    exact ⟨hfr t (by simp), h1, h2, fun u hu => hfr u (List.mem_cons_of_mem _ hu)⟩
  · next hl =>
    split at ha
    · next tcb rest hg =>
      cases ha
      rw [hl, hg] at hnd hfr
      obtain ⟨h1, h2⟩ := List.nodup_cons.1 hnd
      exact ⟨hfr t (by simp), by simpa [hl] using h1, by simpa [hl] using h2,
        fun u hu => hfr u (List.mem_cons_of_mem _ (by simpa [hl] using hu))⟩
    · next hg =>
      cases malloc with
      | none => cases ha
      | some tcbs =>
        obtain ⟨rfl, rfl⟩ : tcbs = t ∧ _ = p := by simpa using ha
        have hperm := TcbPool.foldl_free_perm
          ((List.range (TCB_INCREASE_SIZE_AT_EMPTY - 1)).map fun i => tcbs + (i + 1)) s.pool
        simp only [TcbPool.freeLists, List.foldl_map, hl, hg, List.append_nil] at hperm
        have hlive (i : Nat) (hi : i < TCB_INCREASE_SIZE_AT_EMPTY) : tcbs + i ∉ s.live := by
          have := List.all_eq_true.1 hfresh i (List.mem_range.2 hi)
          simp only [Bool.and_eq_true, decide_eq_true_eq] at this
          exact this.1.1
        refine ⟨hlive 0 (by decide), ?_, ?_, ?_⟩
        · rw [hperm.mem_iff]; simp
        · rw [hperm.nodup_iff]
          exact List.nodup_range.map fun i j hij => Nat.succ.inj (Nat.add_left_cancel hij)
        · intro u hu
          rw [hperm.mem_iff] at hu
          obtain ⟨i, hi, rfl⟩ := List.mem_map.1 hu
          have hi := List.mem_range.1 hi
          exact hlive (i + 1) (by simp only [TCB_INCREASE_SIZE_AT_EMPTY] at hi ⊢; omega)

/-- The stack of a new task, and the cache it may have been taken from. -/
def newStack (s : Sched) (stackaddr : Addr) (stacksize : BitVec 32) (env : AllocEnv) :
    StackCache × Slot :=
  if stackaddr = 0 then
    let r := s.cache.get (some s.theMaintask) (((stacksize + 4095) / 4096) * 4096) env
    (r.1, { r.2 with stacksize := r.2.stacksize ||| MASK_SYSTEM_STACK })
  else (s.cache, ⟨stackaddr, stacksize⟩)

theorem fiberCreate_eq {stackaddr : Addr} {stacksize : BitVec 32} {env : AllocEnv} {t : TaskId}
    {p : TcbPool} (ha : s.pool.alloc env.malloc = (some t, p)) (hne : t ≠ s.theMaintask)
    {r : StackCache × Slot} (hr : s.newStack stackaddr stacksize env = r) :
    s.fiberCreate stackaddr stacksize env =
      if r.2.stackbase = 0 then
        ({ s with
          tcb := Function.update s.tcb t { s.tcb t with state := {} }
          pool := p.free t, cache := r.1 } : Sched).ret s.currentTask
            (.create stackaddr stacksize env) (.task none)
      else
        (({ s with pool := p, cache := r.1 } : Sched).spawn t (s.newTcb t r.2)).ret s.currentTask
            (.create stackaddr stacksize env) (.task (some t)) := by
  subst hr
  unfold fiberCreate newStack
  rw [ha]
  by_cases hz : stackaddr = 0
  · rw [if_pos hz]
    simp [hz, modState, modTcb, States.ready, hne, Sched.spawn, newTcb, emit,
      localReadyQProtectedInsertBefore]
  · rw [if_neg hz]
    have hz : ¬stackaddr = 0#64 := hz
    simp [hz, modState, modTcb, States.ready, hne, Sched.spawn, newTcb, emit,
      localReadyQProtectedInsertBefore]

theorem Inv.trs_create (h : Inv b s) {stackaddr : Addr} {stacksize : BitVec 32} {env : AllocEnv}
    (hfresh : env.malloc.all s.freshTcbs = true) :
    Trs (.call (.create stackaddr stacksize env)) s
      (s.fiberCreate stackaddr stacksize env) := by
  have hret (s' : Sched) (r : Ret) :
      Trs (.call (.create stackaddr stacksize env)) s'
        (s'.ret s'.currentTask (.create stackaddr stacksize env) r) :=
    trs_ret rfl (fun i hi => by cases hi) (fun _ _ => nofun) fun _ _ => nofun
  rcases ha : s.pool.alloc env.malloc with ⟨_ | t, p⟩
  · have hp : p = s.pool := by
      unfold TcbPool.alloc at ha
      cases h1 : s.pool.freedlist with
      | cons => simp [h1] at ha
      | nil =>
        cases h2 : s.pool.globalFreedlist with
        | cons => simp [h1, h2] at ha
        | nil =>
          cases h3 : env.malloc with
          | some => simp [h1, h2, h3] at ha
          | none => simpa [h1, h2, h3] using ha.symm
    simp only [fiberCreate, ha, hp]
    exact hret s _
  · obtain ⟨hl, hnp, hnd, hfree⟩ := alloc_spec h.pool hfresh ha
    have hne : t ≠ s.theMaintask := fun e => hl (by
      obtain ⟨l, hr⟩ := h.ready
      exact e ▸ (h.stand _).live_of_ready (by simp [chain, hr]))
    -- the two ends of the function, for whatever stack was found
    rw [fiberCreate_eq ha hne rfl]
    generalize s.newStack stackaddr stacksize env = r
    split
    · have hq : Quiet (.call (.create stackaddr stacksize env)) s
          { s with pool := p.free t, cache := r.1 } :=
        quiet_pool rfl fun _ => ⟨free_nodup hnd hnp, fun u hu => by
          rcases (free_mem_iff _ _ _).1 hu with rfl | hu
          · exact hl
          · exact hfree u hu⟩
      exact ((Tr.one (.quiet _ hq)).trans (Tr.one (.scrap t hl))).trans (hret _ _)
    · have hq : Quiet (.call (.create stackaddr stacksize env)) s { s with pool := p, cache := r.1 } :=
        quiet_pool rfl fun _ => ⟨hnd, hfree⟩
      exact ((Tr.one (.quiet _ hq)).trans (Tr.one (.spawn rfl t r.2 hl hnp))).trans (hret _ _)

/-- The cache after the current task has given its stack back. -/
def exitCache (s : Sched) : StackCache :=
  let x := s.tcb s.currentTask
  if x.stacksize &&& MASK_SYSTEM_STACK ≠ 0 then
    s.cache.put x.stackaddr (x.stacksize &&& ~~~15#32)
  else s.cache

theorem cppTaskmain_eq (h : s.Idle) :
    s.cppTaskmain = ({ ({ s with cache := s.exitCache } : Sched).bury with
      currentTask := s.theMaintask } : Sched).arrive := by
  have hpl : Located ({ s with nLocalFibTasks := s.nLocalFibTasks - 1 } : Sched).chain
      s.currentTask (some .ready) := h.place.congr fun c => by cases c <;> rfl
  simp only [cppTaskmain, localReadyQProtectedExtract, unlink_of_ready hpl, exitCache, bury]
  split <;> simp [emit, h.scheduler]

theorem trs_exit (hne : s.currentTask ≠ s.theMaintask) (h : s.Idle) :
    Trs .exit s s.cppTaskmain := by
  have hq : Quiet .exit s { s with cache := s.exitCache } := quiet_pool rfl fun h => ⟨h.nodup, h.free⟩
  rw [cppTaskmain_eq h]
  exact (Tr.one (.quiet _ hq)).trans (Tr.one (.exit rfl hne))

/-! ## The scheduler loop -/

/-- The gap that the next pass of the loop finds. -/
def currGapp (s : Sched) : Int32 := toInt (s.utime - s.prevStmp)

/-- The tasks that the next pass of the loop takes off the watchdog list. -/
def expiring (s : Sched) : List TaskId :=
  if s.utime - s.prevStmp = 0 then []
  else s.wadoglist.takeWhile fun t => s.delta t ≤ s.currGapp

theorem quiet_elapse (us : Nat) : Quiet (.elapse us) s { s with clock := s.clock + us } where
  tcb := rfl
  delta _ := rfl
  sem := rfl
  chain := by funext c; cases c <;> rfl
  wadoglist := rfl
  currentTask := rfl
  theMaintask := rfl
  live := rfl
  log := rfl
  pool h := ⟨h.nodup, h.free⟩
  cache _ := rfl
  clock h := absurd rfl (h us)
  prevStmp _ _ := rfl
  startup _ := .rfl

/-- Only the place in the loop and the previous time stamp change. -/
theorem quiet_loop {m : Move} {p : UInt64} {l : LoopPc}
    (hp : m ≠ .schedulerStart → m ≠ .schedulerPass → p = s.prevStmp)
    (hl : m ≠ .schedulerStart → (l = .startup ↔ s.loop = .startup)) :
    Quiet m s { s with prevStmp := p, loop := l } where
  tcb := rfl
  delta _ := rfl
  sem := rfl
  chain := by funext c; cases c <;> rfl
  wadoglist := rfl
  currentTask := rfl
  theMaintask := rfl
  live := rfl
  log := rfl
  pool h := ⟨h.nodup, h.free⟩
  cache _ := rfl
  clock _ := rfl
  prevStmp := hp
  startup := hl

theorem trs_tickleLoop {gap : Int32} : ∀ {l : List TaskId} {s : Sched}, Inv b s → l.Nodup →
    (∀ w ∈ l, w ∈ s.wadoglist) → Trs .schedulerPass s (tickleLoop gap l s)
  | [], _, _, _, _ => .refl
  | w :: l, s, h, hl, hmem => by
    rw [tickleLoop]
    obtain ⟨hwl, hl⟩ := List.nodup_cons.1 hl
    split
    · obtain ⟨c, hw, ht, hd, hph, hlive⟩ := (h.stand w).waits_of_dog (hmem w List.mem_cons_self)
      have hstep : Tr .schedulerPass s (s.tickleExpired w) := by
        rw [tickleExpired_eq hw ht]
        exact .expire rfl w c hw hlive ht hd hph
      refine (Tr.one hstep).trans (trs_tickleLoop (h.tr hstep) hl fun u hu => ?_)
      rw [tickleExpired_eq hw ht]
      have hne : u ≠ w := fun e => hwl (e ▸ hu)
      exact (List.mem_erase_of_ne hne).2 (hmem u (List.mem_cons_of_mem _ hu))
    · exact Tr.one (.quiet _
        { tcb := rfl
          delta := fun h => absurd rfl h
          sem := rfl
          chain := by funext c; cases c <;> rfl
          wadoglist := rfl
          currentTask := rfl
          theMaintask := rfl
          live := rfl
          log := rfl
          pool := fun h => ⟨h.nodup, h.free⟩
          cache := fun _ => rfl
          clock := fun _ => rfl
          prevStmp := fun _ _ => rfl
          startup := fun _ => .rfl })

theorem loop_emitFor (w : TaskId) (e : Call → Ev) : (s.emitFor w e).loop = s.loop := by
  unfold emitFor
  split <;> rfl

theorem loop_tickleLoop {gap : Int32} :
    ∀ {l : List TaskId} {s : Sched}, (tickleLoop gap l s).loop = s.loop
  | [], _ => rfl
  | w :: l, s => by
    rw [tickleLoop]
    split
    · rw [loop_tickleLoop]
      simp only [tickleExpired]
      split
      · rw [loop_emitFor]; rfl
      · split
        · rw [loop_emitFor]; rfl
        · split
          · rw [loop_emitFor]; rfl
          · rfl
    · rfl

theorem Inv.trs_schedulerPass (h : Inv b s) (hl : s.loop = .top) :
    Trs .schedulerPass s s.schedulerPass := by
  unfold schedulerPass
  dsimp only
  split
  · refine (trs_tickleLoop h h.dogs fun _ hw => hw).trans (Tr.one (.quiet _ (quiet_loop ?_ ?_)))
    · exact fun _ h => absurd rfl h
    · rw [loop_tickleLoop, hl]; simp
  · exact Tr.one (.quiet _ (quiet_loop (fun _ _ => rfl) (by simp [hl])))

/-! ## Moves -/

theorem Inv.trs_call (h : Inv b s) (hp : s.permitted (.call c) = true)
    (hs : s.call c = some s') : Trs (.call c) s s' := by
  have hpc : s.permittedCall c = true := (Bool.and_eq_true_iff.1 hp).1
  have hne (hb : c.blocks = true) : s.currentTask ≠ s.theMaintask := fun e => by
    have := (Bool.and_eq_true_iff.1 hp).2
    simp [e, hb] at this
  cases c with
  | create stackaddr stacksize env =>
    cases hs
    exact h.trs_create (Bool.and_eq_true_iff.1 hpc).1
  | yield code => exact h.trs_yield (hne rfl) hs
  | resume t =>
    cases hs
    obtain ⟨hl, ht⟩ := Bool.and_eq_true_iff.1 hpc
    exact h.trs_resume (by simpa using hl) ht
  | schedYield => exact h.trs_schedYield (.inl rfl) hs
  | usleep usec => exact h.trs_usleep (hne rfl) hs
  | eventWait events options timeout =>
    exact h.trs_eventWait (fun ht => hne (by simpa [Call.blocks] using ht)) hs
  | eventPost t events =>
    cases hs
    exact h.trs_eventPost (by simpa [permittedCall] using hpc)
  | mutexInit i =>
    cases hs
    exact trs_mutexInit (Bool.and_eq_true_iff.1 hpc).1
  | mutexLock i => exact h.trs_mutexLock (hne rfl) hs
  | mutexUnlock i =>
    cases hs
    exact h.trs_mutexUnlock
  | semInit i v =>
    cases hs
    exact Tr.one (.semInit i v hpc)
  | semWait i => exact h.trs_semWait (hne rfl) hs
  | semTimedwait i timeout =>
    exact h.trs_semTimedwait (fun ht => hne (by simpa [Call.blocks] using ht)) hs
  | semPost i =>
    cases hs
    exact h.trs_semPost
  | condInit i =>
    cases hs
    exact trs_condInit hpc
  | condWait i => exact h.trs_condWait (hne rfl) hs
  | condTimedwait i timeout =>
    exact h.trs_condTimedwait (fun ht => hne (by simpa [Call.blocks] using ht)) hs
  | condSignal i =>
    cases hs
    exact h.trs_condSignal
  | condBroadcast i =>
    cases hs
    exact h.trs_condBroadcast
  | setLocaldata t index data =>
    cases hs
    exact trs_setLocaldata (by simpa using (Bool.and_eq_true_iff.1 hpc).1)
  | getLocaldata t index =>
    cases hs
    exact trs_getLocaldata

/-- **Every move is a sequence of transitions.** -/
theorem Inv.trs_step (h : Inv b s) (hs : s.step m = some s') : Trs m s s' := by
  unfold step at hs
  split at hs
  case isFalse => cases hs
  case isTrue hp =>
    cases m with
    | call c => exact h.trs_call hp hs
    | exit =>
      cases hs
      exact trs_exit (by simpa [permitted] using hp) h.idle
    | elapse us =>
      cases hs
      exact Tr.one (.quiet _ (quiet_elapse us))
    | schedulerStart =>
      cases hs
      exact Tr.one (.quiet _ (quiet_loop (fun h => absurd rfl h) fun h => absurd rfl h))
    | schedulerPass =>
      cases hs
      exact h.trs_schedulerPass (by simpa using (Bool.and_eq_true_iff.1 hp).2)
    | schedulerExhaust =>
      have hl : s.loop = .exhaust := by simpa using (Bool.and_eq_true_iff.1 hp).2
      rw [exec, schedulerExhaust] at hs
      split at hs
      · exact h.trs_schedYield (.inr rfl) hs
      · cases hs
        exact Tr.one (.quiet _ (quiet_loop (fun _ _ => rfl) (by simp [hl])))
    | schedulerLoopEnd =>
      have hl : s.loop = .msgloop := by simpa using (Bool.and_eq_true_iff.1 hp).2
      cases hs
      refine Tr.one (.quiet _ (quiet_loop (fun _ _ => rfl) ?_))
      split <;> simp [hl]

/-- **Every move preserves the invariant.** -/
theorem Inv.step (h : Inv b s) (hs : s.step m = some s') : Inv b s' := h.trs (h.trs_step hs)

/-- The initial state satisfies the invariant. -/
theorem inv_boot (b : Boot) : Inv b (boot b) := by
  have hplace (t : TaskId) (ht : t ≠ b.maintask) : Located (boot b).chain t none := fun c => by
    cases c <;> simp [chain, boot, ht]
  have hmain : Located (boot b).chain b.maintask (some .ready) := fun c => by
    cases c <;> simp [chain, boot]
  refine ⟨⟨⟨[], rfl⟩, fun c => by cases c <;> simp [chain, boot], List.nodup_nil,
    List.nodup_singleton _, fun t => ?_, fun t => ⟨?_, trivial⟩, List.nodup_nil,
    fun t ht => by cases ht⟩, ?_, ?_, hmain, ?_, List.not_mem_nil⟩
  · by_cases ht : t = b.maintask
    · subst ht
      exact .idle (by simp [boot]) hmain List.not_mem_nil (by simp [boot, States.ready])
        (by simp [boot]) (by simp [boot]) rfl
    · exact .dead (by simpa [boot] using ht) (hplace t ht) List.not_mem_nil rfl
  · by_cases ht : t = b.maintask
    · subst ht; simp [boot, pendingAfter, evs, pendingOf]
    · simp [boot, pendingAfter, evs, pendingOf, ht]
  · simp [boot]
  · simp [boot, States.ready]
  · simp [boot]

/-! ## The log grows -/

theorem log_arrive : s.log <:+ s.arrive.log := by
  rcases arrive_eq (s := s) with h | ⟨c, -, h⟩ <;> rw [h]
  exact List.suffix_append _ _

theorem log_schedule (h : s.schedule = some s') : s.log <:+ s'.log := by
  obtain ⟨s1, h1, rfl⟩ := Option.map_eq_some_iff.1 h
  have hl : s1.log = s.log := by
    unfold fiberSched at h1
    split at h1
    · cases h1
    · split at h1 <;> cases h1
      · rfl
      · dsimp only
        split <;> rfl
  exact hl ▸ log_arrive

theorem Tr.log (h : Tr m s s') : s.log <:+ s'.log := by
  cases h with
  | quiet _ h => rw [h.log]
  | localdata => exact List.suffix_rfl
  | scrap => exact List.suffix_rfl
  | spawn => exact List.suffix_cons _ _
  | exit =>
    have h1 : s.log <:+ s.bury.log := List.suffix_cons _ _
    exact h1.trans (log_arrive (s := { s.bury with currentTask := s.theMaintask }))
  | ret => exact List.suffix_cons _ _
  | semInit => exact List.suffix_cons _ _
  | take => exact List.suffix_cons _ _
  | unit => exact List.suffix_cons _ _
  | unitGrant => exact (List.suffix_cons _ _).trans (List.suffix_append _ _)
  | grant => exact List.suffix_append _ _
  | expire => exact List.suffix_append _ _
  | took => exact List.suffix_append _ _
  | posted => exact List.suffix_append _ _
  | eventGrant => exact List.suffix_append _ _
  | park _ _ _ _ _ _ _ _ _ hs => exact (List.suffix_cons _ _).trans (log_schedule hs)
  | schedYield _ _ hs => exact log_schedule (s := s.yielded) hs

theorem Trs.log (h : Trs m s s') : s.log <:+ s'.log := by
  induction h with
  | refl => exact List.suffix_rfl
  | tail _ hl ih => exact ih.trans hl.log

theorem theMaintask_arrive : s.arrive.theMaintask = s.theMaintask := by
  rcases arrive_eq (s := s) with h | ⟨c, -, h⟩ <;> rw [h]
  rfl

theorem live_arrive : s.arrive.live = s.live := by
  rcases arrive_eq (s := s) with h | ⟨c, -, h⟩ <;> rw [h]
  rfl

theorem members_schedule (h : s.schedule = some s') :
    s'.theMaintask = s.theMaintask ∧ s'.live = s.live := by
  obtain ⟨σ, h1, rfl⟩ := Option.map_eq_some_iff.1 h
  have hσ : σ.theMaintask = s.theMaintask ∧ σ.live = s.live := by
    unfold fiberSched at h1
    split at h1
    · cases h1
    · split at h1 <;> cases h1
      · exact ⟨rfl, rfl⟩
      · dsimp only
        split <;> exact ⟨rfl, rfl⟩
  exact ⟨theMaintask_arrive.trans hσ.1, live_arrive.trans hσ.2⟩

/-- A transition keeps the maintask, and one that neither creates nor ends a task keeps all tasks. -/
theorem Tr.members (h : Tr m s s') :
    s'.theMaintask = s.theMaintask ∧ (usesStack m = false → s'.live = s.live) := by
  cases h with
  | quiet _ hq => exact ⟨hq.theMaintask, fun _ => hq.live⟩
  | spawn hm => exact ⟨rfl, fun hn => absurd (hm.symm.trans hn) nofun⟩
  | exit hm =>
    subst hm
    exact ⟨theMaintask_arrive, nofun⟩
  | park c x _ _ _ _ _ _ _ hs =>
    obtain ⟨hmain, hlive⟩ := members_schedule hs
    exact ⟨hmain.trans (main_suspend x), fun _ => hlive.trans (live_suspend x)⟩
  | schedYield _ _ hs =>
    obtain ⟨hmain, hlive⟩ := members_schedule (s := s.yielded) hs
    exact ⟨hmain, fun _ => hlive⟩
  | _ => exact ⟨rfl, fun _ => rfl⟩

theorem Trs.members (h : Trs m s s') :
    s'.theMaintask = s.theMaintask ∧ (usesStack m = false → s'.live = s.live) := by
  induction h with
  | refl => exact ⟨rfl, fun _ => rfl⟩
  | tail _ hl ih =>
    exact ⟨hl.members.1.trans ih.1, fun hm => (hl.members.2 hm).trans (ih.2 hm)⟩

end Sched

/-- **Every reachable state satisfies the invariant.** -/
theorem Reachable.inv {b : Boot} {s : Sched} (h : Reachable b s) : Sched.Inv b s :=
  h.invariant (Sched.inv_boot b) fun _ _ _ hi _ hs => hi.step hs

/-- A run from a reachable state keeps the invariant and what was observed. -/
theorem Reachable.run {b : Boot} {s₀ s : Sched} (h₀ : Reachable b s₀)
    (h : Reach Sched.step anyMove s₀ s) : Sched.Inv b s ∧ s₀.log <:+ s.log :=
  h.invariant (P := fun s => Sched.Inv b s ∧ s₀.log <:+ s.log) ⟨h₀.inv, List.suffix_rfl⟩
    fun _ _ _ hi _ hs => ⟨hi.1.step hs, hi.2.trans (hi.1.trs_step hs).log⟩

end Ptask.OneN
