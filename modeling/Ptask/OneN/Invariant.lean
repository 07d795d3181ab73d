import Ptask.OneN.Trace
import Ptask.OneN.Transition

/-!
# The scheduler invariant

`Stand s t` says where the task `t` is and what its control block then holds: not live, in its own
code (or in `fiber_sched_yield`), waiting in a call, or ready again with the result its call will
return. The phase that the log gives is the same one. `Inv` collects what holds between two moves;
`Settled` is the part of it that also holds while a call is about to switch to another task.
-/

namespace Ptask.OneN.Sched

open Ptask.Lib

/-! ## Tasks -/

/-- What a call that waits has stored in the control block of its task. -/
def WaitData (x : FibTCB) : Call → Prop
  | .yield code => x.yieldCode = code
  | .eventWait events options _ =>
    x.waitingEvents = events ∧ x.waitingOptions = options ∧ x.seizedEvents = 0 ∧
      eventsSatisfy (x.pendingEvents &&& events) events options = false
  | .semTimedwait .. => x.yieldCode = 0
  | .condTimedwait .. => x.yieldCode = 0
  | _ => True

/-- Where a task is. -/
inductive Stand (s : Sched) (t : TaskId) : Prop
  | dead (live : t ∉ s.live) (place : Located s.chain t none) (dog : t ∉ s.wadoglist)
    (phase : phase t s.log = some .idle)
  | idle (live : t ∈ s.live) (place : Located s.chain t (some .ready)) (dog : t ∉ s.wadoglist)
    (state : (s.tcb t).state = {}) (scheduler : (s.tcb t).scheduler = s.theMaintask)
    (frame : (s.tcb t).frame = none ∨ (s.tcb t).frame = some .schedYield)
    (phase : phase t s.log = some .idle)
  | waits (c : Call) (live : t ∈ s.live) (waits : s.Waits t c) (blocks : c.blocks = true)
    (data : WaitData (s.tcb t) c) (phase : phase t s.log = some (.parked c))
  | ended (c : Call) (live : t ∈ s.live) (place : Located s.chain t (some .ready))
    (dog : t ∉ s.wadoglist) (state : (s.tcb t).state = {})
    (scheduler : (s.tcb t).scheduler = s.theMaintask) (frame : (s.tcb t).frame = some c)
    (blocks : c.blocks = true)
    (phase : phase t s.log = some (.ended c (result t (s.tcb t) c)))

/-- The pending events of `t` are what the log says, from what memory held at the start. -/
structure Pending (b : Boot) (s : Sched) (t : TaskId) : Prop where
  pending : (s.tcb t).pendingEvents = pendingAfter t (b.mem t).pendingEvents s.log
  seized : SeizedPending (b.mem t).pendingEvents (evs t s.log)

/-- Two states look the same from the task `t`. -/
structure Same (s s' : Sched) (t : TaskId) : Prop where
  tcb : s'.tcb t = s.tcb t
  chain : ∀ c, t ∈ s'.chain c ↔ t ∈ s.chain c
  dog : t ∈ s'.wadoglist ↔ t ∈ s.wadoglist
  live : t ∈ s'.live ↔ t ∈ s.live
  log : evs t s'.log = evs t s.log
  main : s'.theMaintask = s.theMaintask

namespace Same

variable {s s' s'' : Sched} {t : TaskId} {b : Boot}

theorem refl (s : Sched) (t : TaskId) : Same s s t :=
  ⟨rfl, fun _ => .rfl, .rfl, .rfl, rfl, rfl⟩

theorem trans (h : Same s s' t) (h' : Same s' s'' t) : Same s s'' t where
  tcb := h'.tcb.trans h.tcb
  chain c := (h'.chain c).trans (h.chain c)
  dog := h'.dog.trans h.dog
  live := h'.live.trans h.live
  log := h'.log.trans h.log
  main := h'.main.trans h.main

theorem waits {c : Call} (h : Same s s' t) (hw : s.Waits t c) : s'.Waits t c where
  frame := h.tcb ▸ hw.frame
  state := h.tcb ▸ hw.state
  place := hw.place.congr h.chain
  scheduler := by rw [h.tcb, h.main]; exact hw.scheduler
  dog := h.dog.trans hw.dog

/-- What a task is told does not depend on what it cannot see. -/
theorem stand (h : Same s s' t) (hs : Stand s t) : Stand s' t := by
  have hp := phase_congr h.log
  cases hs with
  | dead live place dog phase =>
    exact .dead (mt h.live.1 live) (place.congr h.chain) (mt h.dog.1 dog) (hp.trans phase)
  | idle live place dog state scheduler frame phase =>
    exact .idle (h.live.2 live) (place.congr h.chain) (mt h.dog.1 dog) (h.tcb ▸ state)
      (by rw [h.tcb, h.main]; exact scheduler) (h.tcb ▸ frame) (hp.trans phase)
  | waits c live waits blocks data phase =>
    exact .waits c (h.live.2 live) (h.waits waits) blocks (h.tcb ▸ data) (hp.trans phase)
  | ended c live place dog state scheduler frame blocks phase =>
    exact .ended c (h.live.2 live) (place.congr h.chain) (mt h.dog.1 dog) (h.tcb ▸ state)
      (by rw [h.tcb, h.main]; exact scheduler) (h.tcb ▸ frame) blocks
      (by rw [hp, h.tcb]; exact phase)

theorem pending (h : Same s s' t) (hs : Pending b s t) : Pending b s' t where
  pending := by rw [h.tcb, pendingAfter, h.log]; exact hs.pending
  seized := by rw [h.log]; exact hs.seized

end Same

namespace Stand

variable {s : Sched} {t : TaskId}

/-- A task on the ready list is in its own code or has its result. -/
theorem located_of_ready (h : Stand s t) (ht : t ∈ s.chain .ready) :
    Located s.chain t (some .ready) := by
  cases h with
  | dead _ place => exact absurd ht place.not_mem
  | idle _ place => exact place
  | waits _ _ waits => exact absurd ht waits.not_ready
  | ended _ _ place => exact place

theorem live_of_ready (h : Stand s t) (ht : t ∈ s.chain .ready) : t ∈ s.live := by
  cases h with
  | dead _ place => exact absurd ht place.not_mem
  | idle live => exact live
  | waits _ live => exact live
  | ended _ live => exact live

/-- A task on a wait queue waits in a call that uses this queue. -/
theorem waits_of_queue (h : Stand s t) {k : Chain} (hk : k ≠ .ready) (ht : t ∈ s.chain k) :
    ∃ c, s.Waits t c ∧ c.waitChain = some k ∧ c.blocks = true ∧ WaitData (s.tcb t) c ∧
      phase t s.log = some (.parked c) ∧ t ∈ s.live := by
  cases h with
  | dead _ place => exact absurd ht place.not_mem
  | idle _ place => exact absurd ht (place.not_mem_of_ne (by simpa using Ne.symm hk))
  | waits c live waits blocks data phase =>
    exact ⟨c, waits, (waits.place k).1 ht, blocks, data, phase, live⟩
  | ended _ _ place => exact absurd ht (place.not_mem_of_ne (by simpa using Ne.symm hk))

end Stand

/-! ## The invariant -/

/-- The free control blocks are distinct and not live. -/
structure PoolOK (s : Sched) : Prop where
  nodup : (s.pool.freedlist ++ s.pool.globalFreedlist).Nodup
  free : ∀ t ∈ s.pool.freedlist ++ s.pool.globalFreedlist, t ∉ s.live

/-- What holds whenever every task is where its control block says. -/
structure Settled (b : Boot) (s : Sched) : Prop where
  ready : ∃ l, s.readylist = l ++ [s.theMaintask]
  distinct : Distinct s.chain
  dogs : s.wadoglist.Nodup
  lives : s.live.Nodup
  stand : ∀ t, Stand s t
  pending : ∀ t, Pending b s t
  pool : PoolOK s

/-- What holds between two moves: the current task is in its own code. -/
structure Inv (b : Boot) (s : Sched) : Prop extends Settled b s where
  idle : s.Idle

/-! ## Changes that one task sees -/

section

variable {s s' : Sched} {b : Boot} {t u w : TaskId} {c : Call} {e : Ev} {k : Chain}

theorem same_wake (h : u ≠ w) {x : FibTCB} {es : List Ev} (he : ∀ e ∈ es, e.task = w) :
    Same s (s.wake w x es) u where
  tcb := by simp [wake, h]
  chain := mem_chain_wake_of_ne h x es
  dog := by simp [wake, List.mem_erase_of_ne h]
  live := .rfl
  log := evs_append_of_ne fun e hm => by rw [he e hm]; exact h.symm
  main := rfl

/-- A change that only `w` can see keeps what holds of every other task. -/
theorem Settled.of_one (h : Settled b s) (w : TaskId) (hs : ∀ u, u ≠ w → Same s s' u)
    (hw : Stand s' w) (hp : Pending b s' w) (ready : ∃ l, s'.readylist = l ++ [s'.theMaintask])
    (distinct : Distinct s'.chain) (dogs : s'.wadoglist.Nodup) (lives : s'.live.Nodup)
    (pool : PoolOK s') : Settled b s' where
  ready := ready
  distinct := distinct
  dogs := dogs
  lives := lives
  stand u := by
    by_cases e : u = w
    · exact e ▸ hw
    · exact (hs u e).stand (h.stand u)
  pending u := by
    by_cases e : u = w
    · exact e ▸ hp
    · exact (hs u e).pending (h.pending u)
  pool := pool

/-- The wait of `w` is over, and its control block holds the result that the log promises. -/
theorem Settled.wake (h : Settled b s) (hw : s.Waits w c) (hl : w ∈ s.live)
    (hb : c.blocks = true) {x : FibTCB} (hf : x.frame = some c) (hm : x.scheduler = s.theMaintask)
    {es : List Ev} (he : ∀ e ∈ es, e.task = w)
    (hph : phaseOf w (es ++ evs w s.log) = some (.ended c (result w x c)))
    (hpend : x.pendingEvents = pendingOf (b.mem w).pendingEvents (es ++ evs w s.log))
    (hsz : SeizedPending (b.mem w).pendingEvents (es ++ evs w s.log)) :
    Settled b (s.wake w x es) := by
  have hmain : w ≠ s.theMaintask := fun e => hw.not_ready (by
    obtain ⟨l, hl⟩ := h.ready
    rw [hl, e]; simp)
  have hchain := chain_wake (s := s) (w := w) x es
  have hon : Located (s.wake w x es).chain w (some .ready) := by
    rw [hchain]
    exact (Located.unlink h.distinct).set (by simp)
  have hev : evs w (s.wake w x es).log = es ++ evs w s.log := evs_append_of_eq he
  have hres : result w { x with state := {} } c = result w x c := by cases c <;> rfl
  refine h.of_one w (fun _ hu => same_wake hu he) ?_ ⟨?_, hev ▸ hsz⟩ ?_ ?_ (h.dogs.erase w) h.lives
    ⟨h.pool.nodup, h.pool.free⟩
  · exact .ended c hl hon (fun hd => (h.dogs.mem_erase_iff.1 hd).1 rfl) (by simp [Sched.wake])
      (by simpa [Sched.wake, unlink] using hm) (by simpa [Sched.wake] using hf) hb
      (by rw [phase, hev]; simpa [Sched.wake, hres] using hph)
  · rw [pendingAfter, hev]; simpa [Sched.wake] using hpend
  · obtain ⟨l, hl⟩ := h.ready
    have hnd : (l ++ [s.theMaintask]).Nodup := hl ▸ h.distinct .ready
    have hml : s.theMaintask ∉ l.erase w := fun hm =>
      (List.nodup_append.1 hnd).2.2 _ (List.mem_of_mem_erase hm) _ (by simp) rfl
    refine ⟨l.erase w ++ [w], ?_⟩
    simp [Sched.wake, hl, erase_append_singleton hmain, insertBefore_append_singleton hml, unlink]
  · rw [hchain]
    refine (h.distinct.unlink w).set (insertBefore_nodup ?_ ((h.distinct .ready).erase w))
    exact fun hm => (List.Nodup.mem_erase_iff (h.distinct .ready)).1 hm |>.1 rfl

/-- A change that no task can see. -/
theorem Settled.of_none (h : Settled b s) (hs : ∀ u, Same s s' u)
    (ready : s'.readylist = s.readylist) (chain : s'.chain = s.chain)
    (dogs : s'.wadoglist = s.wadoglist) (lives : s'.live = s.live) (pool : PoolOK s') :
    Settled b s' where
  ready := by rw [ready, (hs s.theMaintask).main]; exact h.ready
  distinct := chain ▸ h.distinct
  dogs := dogs ▸ h.dogs
  lives := lives ▸ h.lives
  stand u := (hs u).stand (h.stand u)
  pending u := (hs u).pending (h.pending u)
  pool := pool

theorem chain_delta (d : TaskId → Int32) : ({ s with delta := d } : Sched).chain = s.chain := by
  funext c; cases c <;> rfl

theorem Settled.delta (h : Settled b s) (d : TaskId → Int32) : Settled b { s with delta := d } :=
  h.of_none (fun u => { Same.refl s u with chain := fun c => by rw [chain_delta] }) rfl
    (chain_delta d) rfl rfl ⟨h.pool.nodup, h.pool.free⟩

theorem chain_note (x : FibTCB) (es : List Ev) : (s.note w x es).chain = s.chain := by
  funext c; cases c <;> rfl

theorem same_note (h : u ≠ w) {x : FibTCB} {es : List Ev} (he : ∀ e ∈ es, e.task = w) :
    Same s (s.note w x es) u :=
  { Same.refl s u with
    tcb := by simp [Sched.note, h]
    chain := fun c => by rw [chain_note]
    log := evs_append_of_ne fun e hm => by rw [he e hm]; exact h.symm }

theorem Settled.note (h : Settled b s) {x : FibTCB} {es : List Ev} (he : ∀ e ∈ es, e.task = w)
    (hst : Stand (s.note w x es) w) (hp : Pending b (s.note w x es) w) :
    Settled b (s.note w x es) :=
  h.of_one w (fun _ hu => same_note hu he) hst hp h.ready
    (chain_note (s := s) (w := w) x es ▸ h.distinct) h.dogs h.lives ⟨h.pool.nodup, h.pool.free⟩

theorem Idle.same (h : s.Idle) (hs : Same s s' s.currentTask)
    (hc : s'.currentTask = s.currentTask) : s'.Idle where
  frame := by rw [hc, hs.tcb]; exact h.frame
  state := by rw [hc, hs.tcb]; exact h.state
  place := hc ▸ h.place.congr hs.chain
  scheduler := by rw [hc, hs.tcb, hs.main]; exact h.scheduler
  dog := by rw [hc, hs.dog]; exact h.dog

theorem Inv.live (h : Inv b s) : s.currentTask ∈ s.live :=
  (h.stand _).live_of_ready h.idle.place.mem

theorem Inv.idlePhase (h : Inv b s) : phase s.currentTask s.log = some .idle := by
  cases h.stand s.currentTask with
  | dead live => exact absurd h.live live
  | idle _ _ _ _ _ _ phase => exact phase
  | waits _ _ waits => exact absurd h.idle.place.mem waits.not_ready
  | ended _ _ _ _ _ _ frame => rw [h.idle.frame] at frame; cases frame

theorem Idle.note (h : s.Idle) {x : FibTCB} {es : List Ev} (hf : x.frame = (s.tcb w).frame)
    (hst : x.state = (s.tcb w).state) (hm : x.scheduler = (s.tcb w).scheduler) :
    (s.note w x es).Idle := by
  have hplace := h.place
  rw [← chain_note (w := w) x es] at hplace
  by_cases e : s.currentTask = w
  · subst e
    exact ⟨by simpa [Sched.note, hf] using h.frame, by simpa [Sched.note, hst] using h.state, hplace,
      by simpa [Sched.note, hm] using h.scheduler, h.dog⟩
  · exact ⟨by simpa [Sched.note, e] using h.frame, by simpa [Sched.note, e] using h.state, hplace,
      by simpa [Sched.note, e] using h.scheduler, h.dog⟩

/-! ## Calls that return at once -/

/-- The current task changes its own control block. -/
theorem Inv.note (h : Inv b s) {x : FibTCB} {es : List Ev} (hf : x.frame = none)
    (hst : x.state = {}) (hm : x.scheduler = s.theMaintask) (he : ∀ e ∈ es, e.task = s.currentTask)
    (hph : phaseOf s.currentTask (es ++ evs s.currentTask s.log) = some .idle)
    (hpend : x.pendingEvents =
      pendingOf (b.mem s.currentTask).pendingEvents (es ++ evs s.currentTask s.log))
    (hsz : SeizedPending (b.mem s.currentTask).pendingEvents (es ++ evs s.currentTask s.log)) :
    Inv b (s.note s.currentTask x es) := by
  have hid : (s.note s.currentTask x es).Idle :=
    h.idle.note (hf.trans h.idle.frame.symm) (hst.trans h.idle.state.symm)
      (hm.trans h.idle.scheduler.symm)
  have hev : evs s.currentTask (s.note s.currentTask x es).log = es ++ evs s.currentTask s.log :=
    evs_append_of_eq he
  refine ⟨h.toSettled.note he (.idle h.live hid.place hid.dog hid.state hid.scheduler
    (.inl hid.frame) (by rw [phase, hev]; exact hph)) ⟨?_, hev ▸ hsz⟩, hid⟩
  rw [pendingAfter, hev]
  simpa [Sched.note] using hpend

theorem ret_eq_note (r : Ret) : s.ret t c r = s.note t (s.tcb t) [.ret t c r] := by
  simp [Sched.ret, Sched.emit, Sched.note]

theorem Inv.ret (h : Inv b s) {r : Ret} (hr : Phase.next s.currentTask .idle
    (.ret s.currentTask c r) = some .idle)
    (hpoll : ∀ events options, c = .eventWait events options 0 →
      eventsSatisfy ((s.tcb s.currentTask).pendingEvents &&& events) events options = false) :
    Inv b (s.ret s.currentTask c r) := by
  have hph : phaseOf s.currentTask (evs s.currentTask s.log) = some .idle := h.idlePhase
  have hp := h.pending s.currentTask
  rw [ret_eq_note]
  refine h.note h.idle.frame h.idle.state h.idle.scheduler (by simp [Ev.task])
    (by simp [phaseOf, hph, hr]) hp.pending ⟨?_, hp.seized⟩
  intro events options hc _
  have hfail := hpoll events options hc
  rwa [hp.pending] at hfail

/-- An event wait is satisfied by pending events. -/
theorem Inv.took (h : Inv b s) {events : EventMask} {options : BitVec 32} {timeout : Int32}
    (hs : eventsSatisfy ((s.tcb s.currentTask).pendingEvents &&& events) events options = true) :
    let seized := (s.tcb s.currentTask).pendingEvents &&& events
    Inv b (s.note s.currentTask
      { s.tcb s.currentTask with pendingEvents := (s.tcb s.currentTask).pendingEvents &&& ~~~seized }
      [.ret s.currentTask (.eventWait events options timeout) (.word seized),
        .seize s.currentTask seized]) := by
  intro seized
  have hp := h.pending s.currentTask
  have hpe : (s.tcb s.currentTask).pendingEvents =
      pendingOf (b.mem s.currentTask).pendingEvents (evs s.currentTask s.log) := hp.pending
  have hph : phaseOf s.currentTask (evs s.currentTask s.log) = some .idle := h.idlePhase
  have hsub : seized &&& events = seized := by simp [seized, BitVec.and_assoc]
  have hsub' : seized &&& (s.tcb s.currentTask).pendingEvents = seized := by
    rw [BitVec.and_comm, ← BitVec.and_assoc, BitVec.and_self]
  refine h.note h.idle.frame h.idle.state h.idle.scheduler (by simp [Ev.task]) ?_ ?_ ?_
  · simp [phaseOf, hph, Phase.next, Call.accepts, hsub, hs, seized]
  · simp [pendingOf, ← hpe]
  · refine ⟨?_, (congrArg (seized &&& ·) hpe.symm).trans hsub', hp.seized⟩
    rintro events' options' - hz
    have hzero : seized = 0 := Ret.word.inj hz
    simp [seized, hzero, eventsSatisfy] at hs

/-- The pending events and the local data of a task change while it stays where it is. -/
theorem Inv.side (h : Inv b s) (w : TaskId) {x : FibTCB} {es : List Ev}
    (hx : ∃ p f, x = { s.tcb w with pendingEvents := p, taskLocalStorages := f })
    (he : ∀ e ∈ es, e.task = w)
    (hph : ∀ p, phase w s.log = some p → phaseOf w (es ++ evs w s.log) = some p)
    (hpend : x.pendingEvents = pendingOf (b.mem w).pendingEvents (es ++ evs w s.log))
    (hsz : SeizedPending (b.mem w).pendingEvents (es ++ evs w s.log))
    (hk : (s.tcb w).state.waitforEvent = true →
      eventsSatisfy (x.pendingEvents &&& (s.tcb w).waitingEvents) (s.tcb w).waitingEvents
        (s.tcb w).waitingOptions = false) : Inv b (s.note w x es) := by
  obtain ⟨q, f, hx⟩ := hx
  have hxf : x.frame = (s.tcb w).frame := by rw [hx]
  have hxs : x.state = (s.tcb w).state := by rw [hx]
  have hxm : x.scheduler = (s.tcb w).scheduler := by rw [hx]
  have hid : (s.note w x es).Idle := h.idle.note hxf hxs hxm
  have hev : evs w (s.note w x es).log = es ++ evs w s.log := evs_append_of_eq he
  have htcb : (s.note w x es).tcb w = x := by simp [Sched.note]
  have hf := (congrArg FibTCB.frame htcb).trans hxf
  have hst := (congrArg FibTCB.state htcb).trans hxs
  have hm := (congrArg FibTCB.scheduler htcb).trans hxm
  have hch := chain_note (s := s) (w := w) x es
  have hph' (p : Phase) (hp : phase w s.log = some p) : phase w (s.note w x es).log = some p := by
    rw [phase, hev]; exact hph p hp
  refine ⟨h.toSettled.note he ?_ ⟨by rw [pendingAfter, hev, htcb]; exact hpend, hev ▸ hsz⟩, hid⟩
  cases h.stand w with
  | dead live place dog phase => exact .dead live (hch ▸ place) dog (hph' _ phase)
  | idle live place dog state scheduler frame phase =>
    exact .idle live (hch ▸ place) dog (hst.trans state) (hm.trans scheduler)
      (hf.symm ▸ frame) (hph' _ phase)
  | waits c live waits blocks data phase =>
    refine .waits c live ⟨hf.trans waits.frame, hst.trans waits.state, hch ▸ waits.place,
      hm.trans waits.scheduler, waits.dog⟩ blocks ?_ (hph' _ phase)
    rw [htcb]
    cases c with
    | eventWait mask options timeout =>
      obtain ⟨rfl, rfl, hz, -⟩ := data
      exact ⟨by rw [hx], by rw [hx], by rw [hx]; exact hz, hk (by rw [waits.state]; rfl)⟩
    | _ => rw [hx]; exact data
  | ended c live place dog state scheduler frame blocks phase =>
    have hres : result w x c = result w (s.tcb w) c := by rw [hx]; cases c <;> rfl
    exact .ended c live (hch ▸ place) dog (hst.trans state) (hm.trans scheduler)
      (hf.trans frame) blocks (by rw [htcb, hres]; exact hph' _ phase)

/-- Events that do not end a wait are posted to a task. -/
theorem Inv.posted (h : Inv b s) (w : TaskId) {events : EventMask}
    (hk : (s.tcb w).state.waitforEvent = true →
      eventsSatisfy (((s.tcb w).pendingEvents ||| events) &&& (s.tcb w).waitingEvents)
        (s.tcb w).waitingEvents (s.tcb w).waitingOptions = false) :
    Inv b (s.note w { s.tcb w with pendingEvents := (s.tcb w).pendingEvents ||| events }
      [.posted w events]) := by
  refine h.side w ⟨_, _, rfl⟩ (by simp [Ev.task]) (fun p hp => ?_) ?_ (h.pending w).seized hk
  · rw [List.singleton_append, phaseOf, show phaseOf w (evs w s.log) = some p from hp]
    cases p <;> rfl
  · exact congrArg (· ||| events) (h.pending w).pending

/-- A task that waits for events has pending events that do not satisfy it. -/
theorem Stand.unsatisfied (h : Stand s w) (hw : (s.tcb w).state.waitforEvent = true)
    (hl : w ∈ s.live) :
    eventsSatisfy ((s.tcb w).pendingEvents &&& (s.tcb w).waitingEvents) (s.tcb w).waitingEvents
      (s.tcb w).waitingOptions = false := by
  cases h with
  | dead live => exact absurd hl live
  | idle _ _ _ state => rw [state] at hw; cases hw
  | waits c _ waits _ data =>
    rw [waits.state] at hw
    cases c with
    | eventWait mask options timeout =>
      obtain ⟨he, ho, -, hs⟩ := data
      rw [he, ho]; exact hs
    | _ => cases hw
  | ended _ _ _ _ state => rw [state] at hw; cases hw

/-- Local data is written. -/
theorem Inv.localdata (h : Inv b s) (hl : w ∈ s.live) (f : Int32 → BitVec 64) :
    Inv b (s.note w { s.tcb w with taskLocalStorages := f } []) :=
  h.side w ⟨_, _, rfl⟩ (by simp) (fun _ hp => hp) (h.pending w).pending (h.pending w).seized
    fun hk => (h.stand w).unsatisfied hk hl

/-! ## Calls that end a wait -/

theorem Idle.wake (h : s.Idle) (hw : s.Waits w c) {x : FibTCB} {es : List Ev}
    (he : ∀ e ∈ es, e.task = w) : (s.wake w x es).Idle :=
  h.same (same_wake (hw.ne h).symm he) rfl

/-- Another task ends the wait of `w` with the result that its control block then holds. -/
theorem Inv.grant (h : Inv b s) (hw : s.Waits w c) (hl : w ∈ s.live)
    (hb : c.blocks = true) {x : FibTCB} (hf : x.frame = some c) (hm : x.scheduler = s.theMaintask)
    {es : List Ev} (he : ∀ e ∈ es, e.task = w)
    (hph : phaseOf w (es ++ evs w s.log) = some (.ended c (result w x c)))
    (hpend : x.pendingEvents = pendingOf (b.mem w).pendingEvents (es ++ evs w s.log))
    (hsz : SeizedPending (b.mem w).pendingEvents (es ++ evs w s.log)) : Inv b (s.grant w x es) := by
  have hid := h.idle.wake (x := x) hw he
  exact ⟨(h.toSettled.wake hw hl hb hf hm he hph hpend hsz).delta _, hid.frame, hid.state,
    by rw [Sched.grant, chain_delta]; exact hid.place, hid.scheduler, hid.dog⟩

/-- A grant of a wait whose result does not carry events. -/
theorem Inv.grantRet (h : Inv b s) (hw : s.Waits w c) (hl : w ∈ s.live) (hb : c.blocks = true)
    (hph : phase w s.log = some (.parked c)) {y : BitVec 64} {r : Ret}
    (hr : c.grantRet w = some r) (hres : result w { s.tcb w with yieldCode := y } c = r) :
    Inv b (s.grant w { s.tcb w with yieldCode := y } [.grant w c r]) := by
  have hph' : phaseOf w (evs w s.log) = some (.parked c) := hph
  refine h.grant hw hl hb (by exact hw.frame) (by exact hw.scheduler) (by simp [Ev.task]) ?_
    (by exact (h.pending w).pending) (by exact (h.pending w).seized)
  rw [List.singleton_append, phaseOf, hph', hres]
  simp [Phase.next, hr]

/-- Posted events end an event wait. -/
theorem Inv.eventGrant {events : EventMask} {options : BitVec 32} {timeout : Int32}
    {eventsIn : EventMask} (h : Inv b s) (hw : s.Waits w (.eventWait events options timeout))
    (hl : w ∈ s.live) (hb : (Call.eventWait events options timeout).blocks = true)
    (hph : phase w s.log = some (.parked (.eventWait events options timeout)))
    (hd : WaitData (s.tcb w) (.eventWait events options timeout))
    (hs : eventsSatisfy (((s.tcb w).pendingEvents ||| eventsIn) &&& (s.tcb w).waitingEvents)
        (s.tcb w).waitingEvents (s.tcb w).waitingOptions = true) :
    let pending := (s.tcb w).pendingEvents ||| eventsIn
    let seized := pending &&& (s.tcb w).waitingEvents
    Inv b (s.grant w
      { s.tcb w with pendingEvents := pending &&& ~~~seized, seizedEvents := seized }
        [.grant w (.eventWait events options timeout) (.word seized), .seize w seized,
          .posted w eventsIn]) := by
  intro pending seized
  obtain ⟨hev, hop, -, -⟩ := hd
  have hph' : phaseOf w (evs w s.log) = some (.parked (.eventWait events options timeout)) := hph
  have hp := h.pending w
  have hpe : (s.tcb w).pendingEvents = pendingOf (b.mem w).pendingEvents (evs w s.log) := hp.pending
  have hsub : seized &&& events = seized := by simp [seized, ← hev, BitVec.and_assoc]
  have hsub' : seized &&& pending = seized := by
    rw [BitVec.and_comm, ← BitVec.and_assoc, BitVec.and_self]
  have hacc : (Call.eventWait events options timeout).accepts seized = true := by
    rw [hev, hop, ← hev] at hs
    rw [Call.accepts, hsub, ← hev]
    simp [hs, seized, pending]
  refine h.grant hw hl hb ?_ ?_ ?_ ?_ ?_ ?_
  · exact hw.frame
  · exact hw.scheduler
  · simp [Ev.task]
  · have h1 : phaseOf w (.posted w eventsIn :: evs w s.log) =
        some (.parked (.eventWait events options timeout)) := by rw [phaseOf, hph']; rfl
    have h2 : phaseOf w (.seize w seized :: .posted w eventsIn :: evs w s.log) =
        some (.seized (.eventWait events options timeout) seized) := by
      rw [phaseOf, h1]; exact if_pos hacc
    change phaseOf w (.grant w _ _ :: .seize w seized :: .posted w eventsIn :: evs w s.log) = _
    rw [phaseOf, h2]
    exact if_pos ⟨rfl, rfl⟩
  · simp [pendingOf, ← hpe, pending]
  · exact ⟨(congrArg (fun p => seized &&& (p ||| eventsIn)) hpe.symm).trans hsub', hp.seized⟩

/-! ## Calls that wait -/

theorem watchdogLoop_perm : ∀ (d : Int32) (l : List TaskId) (delta : TaskId → Int32),
    (watchdogLoop w d l delta).1.Perm (w :: l)
  | _, [], _ => .refl _
  | d, v :: l, delta => by
    rw [watchdogLoop]
    split
    · exact .refl _
    · split
      · exact .refl _
      · exact ((watchdogLoop_perm _ l delta).cons v).trans (.swap w v l)

theorem chain_joinQueue (hc : c.waitChain = some k) :
    (s.joinQueue t c.waitChain).chain = setChain s.chain k (s.chain k ++ [t]) := by
  rw [hc]
  cases k with
  | ready => exact absurd hc waitChain_ne_ready
  | sem i => simp [joinQueue, chain_modSem, chain]
  | cond i => simp [joinQueue, chain_modCond, chain]
  | mutex m => simp [joinQueue, chain_modMutex, chain]

theorem readylist_joinQueue (o : Option Chain) : (s.joinQueue t o).readylist = s.readylist := by
  unfold joinQueue
  split <;> rfl

theorem chain_suspend (x : FibTCB) :
    (s.suspend c x).chain = ((s.unlink s.currentTask).joinQueue s.currentTask c.waitChain).chain := by
  funext d
  cases d <;> rfl

theorem same_suspend (h : u ≠ s.currentTask) (x : FibTCB) : Same s (s.suspend c x) u where
  tcb := by simp [suspend, h]
  chain d := by
    rw [chain_suspend]
    cases hc : c.waitChain with
    | none =>
      rw [joinQueue, chain_unlink, mem_unlink_of_ne h]
      all_goals simp
    | some k =>
      rw [← hc, chain_joinQueue hc, chain_unlink, mem_setChain (by simp [h]), mem_unlink_of_ne h]
  dog := by
    simp only [suspend]
    split
    · rw [(watchdogLoop_perm _ _ _).mem_iff]; simp [h]
    · rfl
  live := by
    unfold suspend joinQueue
    split <;> rfl
  log := by
    unfold suspend
    exact evs_cons_of_ne h.symm
  main := by
    unfold suspend joinQueue
    split <;> rfl

@[simp] theorem main_suspend (x : FibTCB) : (s.suspend c x).theMaintask = s.theMaintask := by
  unfold suspend joinQueue
  split <;> rfl

@[simp] theorem live_suspend (x : FibTCB) : (s.suspend c x).live = s.live := by
  unfold suspend joinQueue
  split <;> rfl

@[simp] theorem pool_suspend (x : FibTCB) : (s.suspend c x).pool = s.pool := by
  unfold suspend joinQueue
  split <;> rfl

theorem readylist_suspend (x : FibTCB) :
    (s.suspend c x).readylist = s.readylist.erase s.currentTask := by
  unfold suspend
  rw [readylist_joinQueue]
  rfl

/-- The current task leaves the ready list to wait in a call. -/
theorem Inv.suspend (h : Inv b s) (hne : s.currentTask ≠ s.theMaintask) (hb : c.blocks = true)
    {x : FibTCB} (hm : x.scheduler = s.theMaintask)
    (hd : WaitData { x with frame := c, state := c.waitStates } c)
    (hp : x.pendingEvents = (s.tcb s.currentTask).pendingEvents) : Settled b (s.suspend c x) := by
  have htcb : (s.suspend c x).tcb s.currentTask =
      { x with frame := c, state := c.waitStates } := by simp [Sched.suspend]
  have hev : evs s.currentTask (s.suspend c x).log =
      .park s.currentTask c s.clock :: evs s.currentTask s.log := by
    unfold Sched.suspend
    exact evs_cons_of_eq rfl
  have hph : phaseOf s.currentTask (evs s.currentTask s.log) = some .idle := h.idlePhase
  have hplace : Located (s.suspend c x).chain s.currentTask c.waitChain := by
    rw [chain_suspend]
    cases hc : c.waitChain with
    | none =>
      rw [joinQueue, chain_unlink]
      · exact Located.unlink h.distinct
      all_goals simp
    | some k =>
      rw [← hc, chain_joinQueue hc, chain_unlink, hc]
      exact (Located.unlink h.distinct).set (by simp)
  have hdog : (s.suspend c x).wadoglist.Perm
      (if c.timed then s.currentTask :: s.wadoglist else s.wadoglist) := by
    simp only [Sched.suspend]
    split
    · exact watchdogLoop_perm _ _ _
    · exact .refl _
  refine h.toSettled.of_one s.currentTask (fun _ hu => same_suspend hu x) (.waits c ?_
    ⟨by rw [htcb], by rw [htcb], hplace, by rw [htcb, main_suspend]; exact hm, ?_⟩ hb
    (htcb ▸ hd) ?_) ⟨?_, ?_⟩ ?_ ?_ ?_ ?_ ⟨?_, ?_⟩
  · rw [live_suspend]; exact h.live
  · rw [hdog.mem_iff]
    have := h.idle.dog
    split <;> simp_all
  · rw [phase, hev, phaseOf, hph]
    simp [Phase.next, hb]
  · rw [pendingAfter, hev, htcb]
    exact hp.trans (h.pending _).pending
  · rw [hev]
    exact (h.pending _).seized
  · obtain ⟨l, hl⟩ := h.ready
    exact ⟨l.erase s.currentTask, by
      rw [readylist_suspend, hl, erase_append_singleton hne, main_suspend]⟩
  · rw [chain_suspend]
    cases hc : c.waitChain with
    | none =>
      rw [joinQueue, chain_unlink]
      · exact h.distinct.unlink _
      all_goals simp
    | some k =>
      rw [← hc, chain_joinQueue hc, chain_unlink]
      exact (h.distinct.unlink _).set (append_singleton_nodup (Located.unlink h.distinct).not_mem
        (h.distinct.unlink _ k))
  · rw [hdog.nodup_iff]
    split
    · exact List.nodup_cons.2 ⟨h.idle.dog, h.dogs⟩
    · exact h.dogs
  · rw [live_suspend]; exact h.lives
  · rw [pool_suspend]; exact h.pool.nodup
  · rw [pool_suspend, live_suspend]; exact h.pool.free

/-! ## Switching -/

/-- `fiber_sched` rotates the ready list and makes its head current. -/
theorem Settled.fiberSched (h : Settled b s) : ∃ t l, t ∈ s.readylist ∧ l.Perm s.readylist ∧
    (∃ p, l = p ++ [s.theMaintask]) ∧
    s.fiberSched = some { s with currentTask := t, readylist := l } := by
  obtain ⟨p, hp⟩ := h.ready
  obtain ⟨t, q, hr⟩ : ∃ t q, s.readylist = t :: q := List.exists_cons_of_ne_nil (by simp [hp])
  have hloc : Located s.chain t (some .ready) :=
    (h.stand _).located_of_ready (by simp [chain, hr])
  by_cases he : t = s.currentTask
  · refine ⟨t, s.readylist, by simp [hr], .refl _, ⟨p, hp⟩, ?_⟩
    have hs : ({ s with currentTask := t, readylist := s.readylist } : Sched) = s := by rw [he]
    rw [hs]
    simp [Sched.fiberSched, hr, he]
  · cases p with
    | nil =>
      obtain ⟨rfl, rfl⟩ : s.theMaintask = t ∧ [] = q := by simpa [hp] using hr
      refine ⟨s.theMaintask, [s.theMaintask], by simp [hr], by simp [hr], ⟨[], rfl⟩, ?_⟩
      simp [Sched.fiberSched, hr, he, unlink_of_ready hloc, readyInsertTail]
    | cons u p =>
      obtain ⟨rfl, rfl⟩ : u = t ∧ p ++ [s.theMaintask] = q := by simpa [hp] using hr
      have hnd : (u :: (p ++ [s.theMaintask])).Nodup := hr ▸ h.distinct .ready
      obtain ⟨htp, hpn⟩ := List.nodup_cons.1 hnd
      have hmp : s.theMaintask ∉ p := fun hm => (List.nodup_append.1 hpn).2.2 _ hm _ (by simp) rfl
      have htm : u ≠ s.theMaintask := fun e => htp (by simp [e])
      refine ⟨u, p ++ [u, s.theMaintask], by simp [hr], ?_, ⟨p ++ [u], by simp⟩, ?_⟩
      · rw [hr]
        exact List.perm_middle
      · simp [Sched.fiberSched, hr, he, unlink_of_ready hloc, htm,
          localReadyQProtectedInsertBefore, insertBefore_append_singleton hmp]

theorem same_readylist {l : List TaskId} (hl : l.Perm s.readylist) (t u : TaskId) :
    Same s { s with currentTask := t, readylist := l } u :=
  { Same.refl s u with
    chain := fun c => by
      cases c with
      | ready => exact hl.mem_iff
      | _ => rfl }

theorem Settled.rotate (h : Settled b s) {l : List TaskId} (hl : l.Perm s.readylist)
    (hp : ∃ p, l = p ++ [s.theMaintask]) (t : TaskId) :
    Settled b { s with currentTask := t, readylist := l } where
  ready := hp
  distinct c := by
    cases c with
    | ready => exact hl.nodup_iff.2 (h.distinct .ready)
    | sem i => exact h.distinct (.sem i)
    | cond i => exact h.distinct (.cond i)
    | mutex m => exact h.distinct (.mutex m)
  dogs := h.dogs
  lives := h.lives
  stand u := (same_readylist hl t u).stand (h.stand u)
  pending u := (same_readylist hl t u).pending (h.pending u)
  pool := ⟨h.pool.nodup, h.pool.free⟩

/-- The task that is switched to starts or returns from its call. -/
theorem arrive_eq : s.arrive = s ∨ ∃ c, (s.tcb s.currentTask).frame = some c ∧
    s.arrive = s.note s.currentTask { s.tcb s.currentTask with frame := none }
      [.ret s.currentTask c (result s.currentTask (s.tcb s.currentTask) c)] := by
  cases hf : (s.tcb s.currentTask).frame with
  | none => exact .inl (by simp [arrive, hf])
  | some c => exact .inr ⟨c, rfl, by simp [arrive, hf, modTcb, Sched.ret, emit, Sched.note]⟩

theorem Settled.arrive (h : Settled b s) (ht : s.currentTask ∈ s.chain .ready) : Inv b s.arrive := by
  set t := s.currentTask with htdef
  have hp := h.pending t
  have hph' (p : Phase) (hph : phase t s.log = some p) : phaseOf t (evs t s.log) = some p := hph
  -- what follows when the task returns from the call `c`
  have key (c : Call) (hf : (s.tcb t).frame = some c) (live : t ∈ s.live)
      (place : Located s.chain t (some .ready)) (dog : t ∉ s.wadoglist) (state : (s.tcb t).state = {})
      (scheduler : (s.tcb t).scheduler = s.theMaintask)
      (hn : phaseOf t (.ret t c (result t (s.tcb t) c) :: evs t s.log) = some .idle)
      (hpoll : ∀ events options, c ≠ .eventWait events options 0) : Inv b s.arrive := by
    have harr : s.arrive = s.note t { s.tcb t with frame := none }
        [.ret t c (result t (s.tcb t) c)] := by
      simp [Sched.arrive, ← htdef, hf, modTcb, Sched.ret, Sched.emit, Sched.note]
    have hev : evs t (s.note t { s.tcb t with frame := none }
        [.ret t c (result t (s.tcb t) c)]).log =
        .ret t c (result t (s.tcb t) c) :: evs t s.log := evs_append_of_eq (by simp [Ev.task])
    have hid : (s.note t { s.tcb t with frame := none } [.ret t c (result t (s.tcb t) c)]).Idle :=
      ⟨by simp [Sched.note, ← htdef], by simpa [Sched.note, ← htdef] using state,
        by rw [chain_note]; exact place, by simpa [Sched.note, ← htdef] using scheduler, dog⟩
    rw [harr]
    refine ⟨h.note (by simp [Ev.task]) (.idle live hid.place dog hid.state hid.scheduler
      (.inl hid.frame) ?_) ⟨?_, ?_⟩, hid⟩
    · rw [phase, hev]; exact hn
    · rw [pendingAfter, hev]
      simp only [Sched.note, Function.update_self]
      exact hp.pending
    · rw [hev]
      exact ⟨fun events options hc => absurd hc (hpoll events options), hp.seized⟩
  cases h.stand t with
  | dead _ place => exact absurd ht place.not_mem
  | waits _ _ waits => exact absurd ht waits.not_ready
  | idle live place dog state scheduler frame hph =>
    rcases frame with hf | hf
    · have harr : s.arrive = s := by simp [Sched.arrive, ← htdef, hf]
      rw [harr]
      exact ⟨h, hf, state, place, scheduler, dog⟩
    · refine key _ hf live place dog state scheduler ?_ (fun _ _ => (by rintro ⟨⟩))
      rw [phaseOf, hph' _ hph]
      rfl
  | ended c live place dog state scheduler hf hb hph =>
    refine key _ hf live place dog state scheduler ?_ ?_
    · rw [phaseOf, hph' _ hph]
      simp [Phase.next]
    · rintro events options rfl
      simp [Call.blocks] at hb

/-- The switch finds a task, and that task then is in its own code. -/
theorem Settled.schedule (h : Settled b s) : ∃ t l, t ∈ l ∧ l.Perm s.readylist ∧
    Settled b { s with currentTask := t, readylist := l } ∧
    s.schedule = some ({ s with currentTask := t, readylist := l } : Sched).arrive := by
  obtain ⟨t, l, ht, hl, hp, hs⟩ := h.fiberSched
  exact ⟨t, l, hl.mem_iff.2 ht, hl, h.rotate hl hp t, by rw [Sched.schedule, hs]; rfl⟩

end

end Ptask.OneN.Sched
