import Ptask.OneN.Simulation

/-!
# One place for each task

In every reachable state the state word of a live task tells on which list the task is, and it is
on no other; the watchdog list holds exactly the tasks with `STATES_WAIT_TIMEOUTB`. Because the
maintask is always the last entry of the ready list, no move can get stuck in `fiber_sched`.
-/

namespace Ptask

/-- The bits that keep a task off the ready list. -/
def States.blockingBits (st : States) : List Bool :=
  [st.suspended, st.inUsleep, st.waitforEvent, st.waitforMutex, st.waitforSemph, st.waitforCondv]

end Ptask

namespace Ptask.OneN

open Ptask.Lib

/-- The state word of a task tells that the task is on the given chain, or on none. -/
def tells (st : States) : Option Chain → Prop
  | some .ready => st.blockingBits.count true = 0
  | some (.mutex _) => st.blockingBits.count true = 1 ∧ st.waitforMutex = true
  | some (.sem _) => st.blockingBits.count true = 1 ∧ st.waitforSemph = true
  | some (.cond _) => st.blockingBits.count true = 1 ∧ st.waitforCondv = true
  | none => st.blockingBits.count true = 1 ∧
    (st.suspended = true ∨ st.inUsleep = true ∨ st.waitforEvent = true)

/-- Every task is where its state word says. -/
structure WellPlaced (s : Sched) : Prop where
  /-- A live task is in exactly one place, the one its state word tells. -/
  place : ∀ t ∈ s.live, ∃ o, Located s.chain t o ∧ tells (s.tcb t).state o
  /-- Only live tasks are on a list. -/
  live : ∀ c, ∀ t ∈ s.chain c, t ∈ s.live
  /-- No list holds a task twice. -/
  nodup : ∀ c, (s.chain c).Nodup
  wadogNodup : s.wadoglist.Nodup
  /-- The watchdog list holds exactly the live tasks with `STATES_WAIT_TIMEOUTB`. -/
  timeoutb : ∀ t, t ∈ s.wadoglist ↔ t ∈ s.live ∧ (s.tcb t).state.waitTimeoutb = true
  /-- No ready task is on the watchdog list. -/
  ready : ∀ t ∈ s.readylist, t ∉ s.wadoglist
  /-- The current task is ready. -/
  current : s.currentTask ∈ s.readylist
  /-- The maintask is the last entry of the ready list. -/
  main : s.readylist.getLast? = some s.theMaintask

namespace Sched

variable {b : Boot} {s : Sched} {t : TaskId} {c : Call} {m : Move}

theorem tells_waitStates (h : c.blocks = true) : tells c.waitStates c.waitChain := by
  cases c <;>
    simp_all [tells, Call.blocks, Call.waitStates, Call.waitChain, States.blockingBits]

theorem waitTimeoutb_waitStates (h : c.blocks = true) : c.waitStates.waitTimeoutb = c.timed := by
  cases c <;> simp_all [Call.blocks, Call.waitStates, Call.timed]

theorem Stand.placed (h : Stand s t) (hl : t ∈ s.live) :
    ∃ o, Located s.chain t o ∧ tells (s.tcb t).state o := by
  cases h with
  | dead live => exact absurd hl live
  | idle _ place _ state => exact ⟨_, place, by rw [state]; rfl⟩
  | waits c _ waits blocks =>
    exact ⟨_, waits.place, by rw [waits.state]; exact tells_waitStates blocks⟩
  | ended _ _ place _ state => exact ⟨_, place, by rw [state]; rfl⟩

theorem Stand.live_of_mem (h : Stand s t) {k : Chain} (ht : t ∈ s.chain k) : t ∈ s.live := by
  cases h with
  | dead _ place => exact absurd ht place.not_mem
  | idle live => exact live
  | waits _ live => exact live
  | ended _ live => exact live

theorem Stand.timeoutb (h : Stand s t) :
    t ∈ s.wadoglist ↔ t ∈ s.live ∧ (s.tcb t).state.waitTimeoutb = true := by
  cases h with
  | dead live _ dog => simp [live, dog]
  | idle _ _ dog state => simp [dog, state]
  | waits c live waits blocks =>
    rw [waits.dog, waits.state, waitTimeoutb_waitStates blocks]
    simp [live]
  | ended _ _ _ dog state => simp [dog, state]

theorem Inv.wellPlaced (h : Inv b s) : WellPlaced s where
  place t hl := (h.stand t).placed hl
  live _ t ht := (h.stand t).live_of_mem ht
  nodup := h.distinct
  wadogNodup := h.dogs
  timeoutb t := (h.stand t).timeoutb
  ready t ht hd := by
    obtain ⟨c, hw, -⟩ := (h.stand t).waits_of_dog hd
    exact hw.not_ready ht
  current := h.idle.place.mem
  main := by
    obtain ⟨l, hl⟩ := h.ready
    simp [hl]

/-! ## No move gets stuck -/

theorem Inv.suspend_some (h : Inv b s) (hne : s.currentTask ≠ s.theMaintask)
    (hb : c.blocks = true) {x : FibTCB} (hm : x.scheduler = (s.tcb s.currentTask).scheduler)
    (hd : WaitData { x with frame := c, state := c.waitStates } c)
    (hp : x.pendingEvents = (s.tcb s.currentTask).pendingEvents) :
    ∃ s', (s.suspend c x).schedule = some s' := by
  obtain ⟨_, _, -, -, -, hs⟩ :=
    (h.suspend hne hb (hm.trans h.idle.scheduler) hd hp).schedule
  exact ⟨_, hs⟩

theorem Inv.schedYield_some (h : Inv b s) : ∃ s', s.fiberSchedYield = some s' := by
  obtain ⟨_, _, -, -, -, hs⟩ := h.yielded.schedule
  exact ⟨_, by rw [fiberSchedYield_eq h.idle]; exact hs⟩

/-- A permitted call finds a task to switch to. -/
theorem Inv.call_some (h : Inv b s) (hp : s.permitted (.call c) = true) :
    ∃ s', s.call c = some s' := by
  have hne (hb : c.blocks = true) : s.currentTask ≠ s.theMaintask := fun e => by
    have := (Bool.and_eq_true_iff.1 hp).2
    simp [e, hb] at this
  cases c with
  | yield code =>
    rw [call, fiberYield_eq h.idle]
    exact h.suspend_some (hne rfl) rfl rfl rfl rfl
  | schedYield => exact h.schedYield_some
  | usleep usec =>
    rw [call, fiberUsleep_eq h.idle]
    exact h.suspend_some (hne rfl) rfl rfl trivial rfl
  | eventWait events options timeout =>
    rw [call, fiberEventWait_eq h.idle]
    split
    · exact ⟨_, rfl⟩
    · next hs =>
      split
      · exact ⟨_, rfl⟩
      · next ht =>
        have hb : (Call.eventWait events options timeout).blocks = true := by
          simpa [Call.blocks] using ht
        exact h.suspend_some (hne hb) hb rfl ⟨rfl, rfl, rfl, by simpa using hs⟩ rfl
  | mutexLock i =>
    rw [call, fiberMutexLock_eq h.idle]
    split
    · exact ⟨_, rfl⟩
    · split
      · exact ⟨_, rfl⟩
      · exact h.suspend_some (hne rfl) rfl rfl trivial rfl
  | semWait i =>
    rw [call, fiberSemWait_eq h.idle]
    split
    · exact ⟨_, rfl⟩
    · exact h.suspend_some (hne rfl) rfl rfl trivial rfl
  | semTimedwait i timeout =>
    rw [call, fiberSemTimedwait_eq h.idle]
    split
    · exact ⟨_, rfl⟩
    · split
      · exact ⟨_, rfl⟩
      · next ht =>
        have hb : (Call.semTimedwait i timeout).blocks = true := by simpa [Call.blocks] using ht
        exact h.suspend_some (hne hb) hb rfl rfl rfl
  | condWait i =>
    rw [call, fiberCondWait_eq h.idle]
    exact h.suspend_some (hne rfl) rfl rfl trivial rfl
  | condTimedwait i timeout =>
    rw [call, fiberCondTimedwait_eq h.idle]
    split
    · exact ⟨_, rfl⟩
    · next ht =>
      have hb : (Call.condTimedwait i timeout).blocks = true := by simpa [Call.blocks] using ht
      exact h.suspend_some (hne hb) hb rfl rfl rfl
  | _ => exact ⟨_, rfl⟩

/-- **A permitted move is always possible.** -/
theorem Inv.step_some (h : Inv b s) (hp : s.permitted m = true) : ∃ s', s.step m = some s' := by
  rw [Sched.step, if_pos hp]
  cases m with
  | call c => exact h.call_some hp
  | schedulerExhaust =>
    rw [exec, schedulerExhaust]
    split
    · exact h.schedYield_some
    · exact ⟨_, rfl⟩
  | _ => exact ⟨_, rfl⟩

end Sched

/-! ## Results -/

/-- **In every reachable state every task is where its state word says.** -/
theorem reachable_wellPlaced {b : Boot} {s : Sched} (h : Reachable b s) : WellPlaced s :=
  h.inv.wellPlaced

/-- A run after which one task waits on a semaphore and on the watchdog list, one sleeps, and
one waits for a mutex that a fourth, now current, holds. -/
def parkedRun : List Move :=
  newTasks 4 ++ [.schedulerStart, .schedulerPass, .schedulerExhaust,
    .call (.semTimedwait 0 10), .call (.usleep 5), .call (.mutexLock 0), .call .schedYield,
    .call (.mutexLock 0)]

set_option maxRecDepth 4000 in
/-- The state after this run is well placed. -/
theorem parkedRun_wellPlaced : ∃ s, parkedRun.foldlM Sched.step (boot {}) = some s ∧
    (s.sem 0).waitq.length = 1 ∧ s.wadoglist.length = 2 ∧ WellPlaced s := by
  have hrun : ((parkedRun.foldlM Sched.step (boot {})).map fun s =>
      ((s.sem 0).waitq.length, s.wadoglist.length)) = some (1, 2) := by decide +kernel
  obtain ⟨s, hs, hl⟩ := Option.map_eq_some_iff.1 hrun
  exact ⟨s, hs, congrArg Prod.fst hl, congrArg Prod.snd hl,
    reachable_wellPlaced (Reach.of_foldlM hs)⟩

end Ptask.OneN
