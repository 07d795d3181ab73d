import Ptask.OneN.Client
import Ptask.OneN.Epoll
import Ptask.OneN.Flags
import Ptask.OneN.Recycling

/-!
# Delivery of epoll events

`epoll.c` and the inline functions of `epoll.h` over the library. A context is allocated for a
registration; its address goes to the kernel as `data.ptr` and to slot 0 of the task. A post writes
the flags to the context and posts event 0 to its task; a wait that returns this event reads the
context back through the slot.

The kernel is a list of registrations: it hands back the `data.ptr` of a registration that is there.
The `history` (newest first) is ghost state. `Delivers` relates the event 0 that is owed to a task
with the posts in the history; the bookkeeping about the event itself is that of `Ptask.OneN.Flags`.
-/

namespace Ptask.OneN

open Ptask.Lib

/-! ## The functions -/

/-- `EventContext`. -/
structure EventContext where
  fd : Int32
  events : BitVec 32
  tcb : TaskId
deriving DecidableEq, Repr

/-- A descriptor registered with an epoll instance, and its `data.ptr`. -/
structure Interest where
  epollFd : Int32
  fd : Int32
  ptr : Addr
deriving DecidableEq, Repr

/-- What is observed. -/
inductive EpollEv
  | registered (t : TaskId) (fd : Int32)
  | unregistered (t : TaskId) (fd : Int32)
  /-- `fiber_epoll_post` has dispatched the flags `events` of `fd` to `t`. -/
  | posted (t : TaskId) (fd : Int32) (events : BitVec 32)
  /-- `fiber_epoll_wait` has returned 1 to `t`. -/
  | reported (t : TaskId) (fd : Int32) (events : BitVec 32)
deriving DecidableEq, Repr

def EpollEv.task : EpollEv → TaskId
  | .registered t _ => t
  | .unregistered t _ => t
  | .posted t _ _ => t
  | .reported t _ _ => t

/-- The process, the contexts that are allocated, and the registrations in the kernel. A task for which
`pc` is not `none` is in the `fiber_event_wait` of `fiber_epoll_wait`. -/
structure EpollState where
  sched : Sched
  contexts : Addr → Option EventContext
  interest : List Interest
  pc : TaskId → Option Int32
  history : List EpollEv

inductive EpollMove
  /-- `malloc` returns the address of a block that contains `garbage`, or `none`; `added` is the success
  of `epoll_ctl`. -/
  | register (epollFd fd : Int32) (malloc : Option Addr) (garbage : BitVec 32) (added : Bool)
  | unregister (epollFd fd : Int32)
  | wait (timeoutInMs : Int32)
  /-- The events that `epoll_wait` has returned: `data.ptr` and the flags. -/
  | post (events : List (Addr × BitVec 32))
  /-- The rest of the program. -/
  | other (m : Move)

namespace EpollState

/-- `fiber_epoll_register_events`. -/
def fiberEpollRegisterEvents (q : EpollState) (epollFd fd : Int32) (malloc : Option Addr)
    (garbage : BitVec 32) (added : Bool) : EpollState :=
  let theTask := q.sched.currentTask
  match malloc with
  | none => q
  | some pctx =>
    -- `events` is not written
    let ctx : EventContext := { fd := fd, events := garbage, tcb := theTask }
    let q := { q with contexts := Function.update q.contexts pctx (some ctx) }
    if !added then { q with contexts := Function.update q.contexts pctx none }
    else { q with
      interest := q.interest ++ [{ epollFd := epollFd, fd := fd, ptr := pctx }]
      sched := q.sched.fiberSetLocaldata theTask EPOLL_TASKDAT_INDEX pctx
      history := .registered theTask fd :: q.history }

/-- `fiber_epoll_unregister_events`. -/
def fiberEpollUnregisterEvents (q : EpollState) (epollFd fd : Int32) : EpollState :=
  let theTask := q.sched.currentTask
  let pctx := (q.sched.tcb theTask).taskLocalStorages EPOLL_TASKDAT_INDEX
  let sched := q.sched.fiberGetLocaldata theTask EPOLL_TASKDAT_INDEX
  let q := if pctx ≠ 0 then { q with contexts := Function.update q.contexts pctx none } else q
  { q with
    sched := sched.fiberSetLocaldata theTask EPOLL_TASKDAT_INDEX 0
    interest := q.interest.filter fun i => !(i.epollFd = epollFd && i.fd = fd)
    history := .unregistered theTask fd :: q.history }

/-- `fiber_epoll_wait` after `fiber_event_wait`, when the task that is now current is there. -/
def fiberEpollWaitEnd (q : EpollState) : Option EpollState :=
  let theTask := q.sched.currentTask
  match q.pc theTask, q.sched.log with
  | some _, .ret _ _ (.word mask) :: _ =>
    let q := { q with pc := Function.update q.pc theTask none }
    if mask &&& EVENT_BITMASK_EPOLL ≠ 0 then
      let pctx := (q.sched.tcb theTask).taskLocalStorages EPOLL_TASKDAT_INDEX
      (q.contexts pctx).map fun ctx => { q with
        sched := q.sched.fiberGetLocaldata theTask EPOLL_TASKDAT_INDEX
        history := .reported theTask ctx.fd ctx.events :: q.history }
    else some q
  | _, _ => some q

/-- The current task makes a move, and the task that is then current goes on. -/
def advance (q : EpollState) (m : Move) (pc : TaskId → Option Int32) : Option EpollState :=
  (q.sched.step m).bind fun s => { q with sched := s, pc := pc }.fiberEpollWaitEnd

/-- `fiber_epoll_wait`. -/
def fiberEpollWait (q : EpollState) (timeoutInMs : Int32) : Option EpollState :=
  q.advance (.call (.epollWait timeoutInMs))
    (Function.update q.pc q.sched.currentTask (some timeoutInMs))

/-- The body of the loop of `fiber_epoll_post`. -/
def postEvent (q : EpollState) (event : Addr × BitVec 32) : Option EpollState :=
  (q.contexts event.1).bind fun ctx =>
    (q.sched.step (.call (.eventPost ctx.tcb EVENT_BITMASK_EPOLL))).map fun s => { q with
      sched := s
      contexts := Function.update q.contexts event.1 (some { ctx with events := event.2 })
      history := .posted ctx.tcb ctx.fd event.2 :: q.history }

/-- `fiber_epoll_post`. -/
def fiberEpollPost (q : EpollState) (events : List (Addr × BitVec 32)) : Option EpollState :=
  events.foldlM postEvent q

/-- The environment may answer so: `malloc` returns a fresh block, and `EPOLL_CTL_ADD` fails for a
descriptor that is registered. -/
def answers (q : EpollState) (epollFd fd : Int32) (malloc : Option Addr) (added : Bool) : Bool :=
  malloc.all (fun pctx => pctx ≠ 0 && (q.contexts pctx).isNone) &&
    (!added || q.interest.all fun i => !(i.epollFd = epollFd && i.fd = fd))

def step (q : EpollState) : EpollMove → Option EpollState
  | .register epollFd fd malloc garbage added =>
    if q.sched.inCode && q.answers epollFd fd malloc added then
      some (q.fiberEpollRegisterEvents epollFd fd malloc garbage added)
    else none
  | .unregister epollFd fd =>
    if q.sched.inCode then some (q.fiberEpollUnregisterEvents epollFd fd) else none
  | .wait timeoutInMs => q.fiberEpollWait timeoutInMs
  | .post events => if q.sched.inCode then q.fiberEpollPost events else none
  | .other m => q.advance m q.pc

/-- The task of a registration. -/
def owner (q : EpollState) (i : Interest) : Option TaskId := (q.contexts i.ptr).map (·.tcb)

end EpollState

/-! ## The history -/

/-- The event posted to `t` that has not been reported, nor its descriptor unregistered, since. -/
def unseen (t : TaskId) : List EpollEv → Option (Int32 × BitVec 32)
  | [] => none
  | .posted u fd events :: l => if u = t then some (fd, events) else unseen t l
  | e :: l => if e.task = t then none else unseen t l

/-- The descriptor that `t` has registered. -/
def registration (t : TaskId) : List EpollEv → Option Int32
  | [] => none
  | .registered u fd :: l => if u = t then some fd else registration t l
  | .unregistered u _ :: l => if u = t then none else registration t l
  | _ :: l => registration t l

/-- Every report is that of the event not seen yet, every post for the descriptor that is registered. -/
def Faithful : List EpollEv → Prop
  | [] => True
  | .reported t fd events :: l => unseen t l = some (fd, events) ∧ Faithful l
  | .posted t fd _ :: l => registration t l = some fd ∧ Faithful l
  | _ :: l => Faithful l

/-- The call concerns neither event 0 nor slot 0. -/
def leavesEpoll : Call → Bool
  | .eventPost _ events => !events.getLsbD 0
  | .eventWait events _ _ => !events.getLsbD 0
  | .setLocaldata _ index _ => index ≠ EPOLL_TASKDAT_INDEX
  | _ => true

namespace EpollState

/-- What the functions rely on. A task has one registration at a time and unregisters it when it has
seen every event posted to it, the latest before it ends; an event is not posted to a task which an
earlier post has woken and which has not run since; and the rest of the program does not use event
0 nor slot 0. -/
def Use (q : EpollState) : EpollMove → Prop
  | .register .. => ∀ i ∈ q.interest, q.owner i ≠ some q.sched.currentTask
  | .unregister epollFd fd =>
    unseen q.sched.currentTask q.history = none ∧
      ∃ i ∈ q.interest, i.epollFd = epollFd ∧ i.fd = fd ∧ q.owner i = some q.sched.currentTask
  | .wait _ => True
  | .post events =>
    (events.map Prod.fst).Nodup ∧ ∀ e ∈ events, ∃ i ∈ q.interest, i.ptr = e.1 ∧
      (q.owner i).all fun t => q.pc t = none || t ∉ q.sched.readylist
  | .other .exit => ∀ i ∈ q.interest, q.owner i ≠ some q.sched.currentTask
  | .other (.call c) => leavesEpoll c = true
  | .other _ => True

instance (q : EpollState) : (m : EpollMove) → Decidable (q.Use m)
  | .register .. =>
    inferInstanceAs (Decidable (∀ i ∈ q.interest, q.owner i ≠ some q.sched.currentTask))
  | .unregister epollFd fd =>
    inferInstanceAs (Decidable (unseen q.sched.currentTask q.history = none ∧
      ∃ i ∈ q.interest, i.epollFd = epollFd ∧ i.fd = fd ∧ q.owner i = some q.sched.currentTask))
  | .wait _ => .isTrue trivial
  | .post events =>
    -- not by running through all pairs of an address and flags
    have : Decidable (∀ e ∈ events, ∃ i ∈ q.interest,
        i.ptr = e.1 ∧ (q.owner i).all fun t => q.pc t = none || t ∉ q.sched.readylist) :=
      List.decidableBAll _ events
    inferInstanceAs (Decidable (_ ∧ _))
  | .other .exit =>
    inferInstanceAs (Decidable (∀ i ∈ q.interest, q.owner i ≠ some q.sched.currentTask))
  | .other (.call c) => inferInstanceAs (Decidable (leavesEpoll c = true))
  | .other (.elapse _) => .isTrue trivial
  | .other .schedulerStart => .isTrue trivial
  | .other .schedulerPass => .isTrue trivial
  | .other .schedulerExhaust => .isTrue trivial
  | .other .schedulerLoopEnd => .isTrue trivial

/-- Nothing is registered yet. -/
def start (s : Sched) : EpollState where
  sched := s
  contexts := fun _ => none
  interest := []
  pc := fun _ => none
  history := []

end EpollState

/-! ## The registrations -/

/-- The registrations, the contexts and the slots of the tasks belong together, and a context holds the
flags that its task has not seen. -/
structure Table (s : Sched) (contexts : Addr → Option EventContext) (interest : List Interest)
    (history : List EpollEv) : Prop where
  ptrs : (interest.map Interest.ptr).Nodup
  keys : (interest.map fun i => (i.epollFd, i.fd)).Nodup
  entry : ∀ i ∈ interest, i.ptr ≠ 0 ∧ ∃ ctx, contexts i.ptr = some ctx ∧ ctx.fd = i.fd ∧
    ctx.tcb ∈ s.live ∧ (s.tcb ctx.tcb).taskLocalStorages EPOLL_TASKDAT_INDEX = i.ptr ∧
      registration ctx.tcb history = some i.fd
  latest : ∀ t fd events, unseen t history = some (fd, events) →
    ∃ i ∈ interest, contexts i.ptr = some ⟨fd, events, t⟩

namespace Table

variable {s s' : Sched} {contexts : Addr → Option EventContext} {interest : List Interest}
  {history : List EpollEv} {t : TaskId} {i j : Interest} {ctx : EventContext}

theorem entry_of (h : Table s contexts interest history) (hi : i ∈ interest)
    (hc : contexts i.ptr = some ctx) : ctx.fd = i.fd ∧ ctx.tcb ∈ s.live ∧
      (s.tcb ctx.tcb).taskLocalStorages EPOLL_TASKDAT_INDEX = i.ptr ∧
        registration ctx.tcb history = some i.fd := by
  obtain ⟨-, ctx', hc', hrest⟩ := h.entry i hi
  rw [hc] at hc'
  obtain rfl := Option.some.inj hc'
  exact hrest

/-- A task has one registration. -/
theorem unique (h : Table s contexts interest history) (hi : i ∈ interest) (hj : j ∈ interest)
    {ctx' : EventContext} (hc : contexts i.ptr = some ctx) (hc' : contexts j.ptr = some ctx')
    (ht : ctx.tcb = ctx'.tcb) : i = j := by
  have hptr : i.ptr = j.ptr := by
    rw [← (h.entry_of hi hc).2.2.1, ← (h.entry_of hj hc').2.2.1, ht]
  exact List.inj_on_of_nodup_map h.ptrs hi hj hptr

/-- The scheduler has moved on. -/
theorem sched (h : Table s contexts interest history)
    (hs : ∀ i ∈ interest, ∀ ctx, contexts i.ptr = some ctx → ctx.tcb ∈ s'.live ∧
      (s'.tcb ctx.tcb).taskLocalStorages EPOLL_TASKDAT_INDEX =
        (s.tcb ctx.tcb).taskLocalStorages EPOLL_TASKDAT_INDEX) :
    Table s' contexts interest history := by
  refine ⟨h.ptrs, h.keys, fun i hi => ?_, h.latest⟩
  obtain ⟨hne, ctx, hc, hfd, -, hslot, hreg⟩ := h.entry i hi
  obtain ⟨hlive, hsame⟩ := hs i hi ctx hc
  exact ⟨hne, ctx, hc, hfd, hlive, hsame.trans hslot, hreg⟩

theorem reported (h : Table s contexts interest history) (t : TaskId) (fd : Int32)
    (events : BitVec 32) : Table s contexts interest (.reported t fd events :: history) := by
  refine ⟨h.ptrs, h.keys, h.entry, fun u fd' events' hu => ?_⟩
  by_cases hut : t = u
  · subst hut
    simp [unseen, EpollEv.task] at hu
  · exact h.latest u fd' events' (by simpa [unseen, EpollEv.task, hut] using hu)

theorem posted (h : Table s contexts interest history) (hi : i ∈ interest)
    (hc : contexts i.ptr = some ctx) (events : BitVec 32) :
    Table s (Function.update contexts i.ptr (some { ctx with events := events })) interest
      (.posted ctx.tcb ctx.fd events :: history) := by
  refine ⟨h.ptrs, h.keys, fun j hj => ?_, fun t fd events' ht => ?_⟩
  · by_cases hji : j.ptr = i.ptr
    · obtain rfl := List.inj_on_of_nodup_map h.ptrs hj hi hji
      obtain ⟨hfd, hrest⟩ := h.entry_of hj hc
      exact ⟨(h.entry j hj).1, { ctx with events := events }, Function.update_self _ _ _, hfd, hrest⟩
    · rw [Function.update_of_ne hji]
      exact h.entry j hj
  · by_cases htc : ctx.tcb = t
    · obtain ⟨rfl, rfl⟩ : ctx.fd = fd ∧ events = events' := by simpa [unseen, htc] using ht
      exact ⟨i, hi, by rw [Function.update_self, ← htc]⟩
    · obtain ⟨j, hj, hcj⟩ := h.latest t fd events' (by simpa [unseen, htc] using ht)
      have hji : j.ptr ≠ i.ptr := by
        intro e
        rw [e, hc] at hcj
        obtain rfl := Option.some.inj hcj
        exact htc rfl
      exact ⟨j, hj, by rw [Function.update_of_ne hji]; exact hcj⟩

/-- `t` registers a descriptor with a context at the address `a`. -/
theorem registered (h : Table s contexts interest history) {a : Addr} {epollFd fd : Int32}
    {garbage : BitVec 32} (ha : a ≠ 0) (hfresh : contexts a = none)
    (hkey : ∀ i ∈ interest, ¬(i.epollFd = epollFd ∧ i.fd = fd))
    (hfree : ∀ i ∈ interest, ∀ ctx, contexts i.ptr = some ctx → ctx.tcb ≠ t)
    (hlive : t ∈ s'.live) (hslot : (s'.tcb t).taskLocalStorages EPOLL_TASKDAT_INDEX = a)
    (hs : ∀ i ∈ interest, ∀ ctx, contexts i.ptr = some ctx → ctx.tcb ∈ s'.live ∧
      (s'.tcb ctx.tcb).taskLocalStorages EPOLL_TASKDAT_INDEX =
        (s.tcb ctx.tcb).taskLocalStorages EPOLL_TASKDAT_INDEX) :
    Table s' (Function.update contexts a (some { fd := fd, events := garbage, tcb := t }))
      (interest ++ [{ epollFd := epollFd, fd := fd, ptr := a }]) (.registered t fd :: history) := by
  have hne (i : Interest) (hi : i ∈ interest) : i.ptr ≠ a := by
    intro e
    obtain ⟨-, ctx, hc, -⟩ := h.entry i hi
    rw [e, hfresh] at hc
    cases hc
  refine ⟨?_, ?_, fun i hi => ?_, fun u fd' events hu => ?_⟩
  · rw [List.map_append, List.map_singleton]
    refine List.Nodup.append h.ptrs (List.nodup_singleton _) ?_
    simpa using fun i hi => hne i hi
  · rw [List.map_append, List.map_singleton]
    refine List.Nodup.append h.keys (List.nodup_singleton _) ?_
    simpa using fun i hi he hf => hkey i hi ⟨he, hf⟩
  · rcases List.mem_append.1 hi with hi | hi
    · obtain ⟨hz, ctx, hc, hfd, -, hsl, hreg⟩ := h.entry i hi
      obtain ⟨hl, hsame⟩ := hs i hi ctx hc
      have hother : t ≠ ctx.tcb := (hfree i hi ctx hc).symm
      refine ⟨hz, ctx, ?_, hfd, hl, hsame.trans hsl, ?_⟩
      · rw [Function.update_of_ne (hne i hi)]
        exact hc
      · rw [registration, if_neg hother]
        exact hreg
    · obtain rfl := List.mem_singleton.1 hi
      refine ⟨ha, _, Function.update_self _ _ _, rfl, hlive, hslot, ?_⟩
      rw [registration, if_pos rfl]
  · by_cases hut : t = u
    · subst hut
      simp [unseen, EpollEv.task] at hu
    · obtain ⟨i, hi, hc⟩ := h.latest u fd' events (by simpa [unseen, EpollEv.task, hut] using hu)
      refine ⟨i, List.mem_append_left _ hi, ?_⟩
      rw [Function.update_of_ne (hne i hi)]
      exact hc

/-- The task of the registration `i` unregisters it. -/
theorem unregistered (h : Table s contexts interest history) (hi : i ∈ interest)
    (hc : contexts i.ptr = some ctx)
    (hs : ∀ j ∈ interest, j ≠ i → ∀ ctx', contexts j.ptr = some ctx' → ctx'.tcb ∈ s'.live ∧
      (s'.tcb ctx'.tcb).taskLocalStorages EPOLL_TASKDAT_INDEX =
        (s.tcb ctx'.tcb).taskLocalStorages EPOLL_TASKDAT_INDEX) :
    Table s' (Function.update contexts i.ptr none)
      (interest.filter fun j => !(j.epollFd = i.epollFd && j.fd = i.fd))
      (.unregistered ctx.tcb i.fd :: history) := by
  have hmem (j : Interest) :
      j ∈ interest.filter (fun j => !(j.epollFd = i.epollFd && j.fd = i.fd)) ↔
        j ∈ interest ∧ j ≠ i := by
    rw [List.mem_filter]
    refine and_congr_right fun hj => ?_
    have hkey := List.inj_on_of_nodup_map h.keys hj hi
    constructor
    · rintro hne rfl
      simp at hne
    · intro hne
      by_contra hsame
      exact hne (hkey (by simpa using hsame))
  have hptr (j : Interest) (hj : j ∈ interest) (hji : j ≠ i) : j.ptr ≠ i.ptr := fun e =>
    hji (List.inj_on_of_nodup_map h.ptrs hj hi e)
  refine ⟨h.ptrs.sublist (List.filter_sublist.map _), h.keys.sublist (List.filter_sublist.map _),
    fun j hj => ?_, fun u fd events hu => ?_⟩
  · obtain ⟨hj, hji⟩ := (hmem j).1 hj
    obtain ⟨hz, ctx', hc', hfd, -, hslot, hreg⟩ := h.entry j hj
    obtain ⟨hlive, hsame⟩ := hs j hj hji ctx' hc'
    have hother : ctx.tcb ≠ ctx'.tcb := fun e => hji (h.unique hj hi hc' hc e.symm)
    refine ⟨hz, ctx', ?_, hfd, hlive, hsame.trans hslot, ?_⟩
    · rw [Function.update_of_ne (hptr j hj hji)]
      exact hc'
    · rw [registration, if_neg hother]
      exact hreg
  · by_cases hut : ctx.tcb = u
    · simp [unseen, EpollEv.task, hut] at hu
    · obtain ⟨j, hj, hcj⟩ := h.latest u fd events (by simpa [unseen, EpollEv.task, hut] using hu)
      have hji : j ≠ i := by
        rintro rfl
        rw [hc] at hcj
        obtain rfl := Option.some.inj hcj
        exact hut rfl
      refine ⟨j, (hmem j).2 ⟨hj, hji⟩, ?_⟩
      rw [Function.update_of_ne (hptr j hj hji)]
      exact hcj

end Table

/-! ## The invariant -/

/-- Event 0 of every task and the history agree. -/
structure Agrees (b : Boot) (s : Sched) (pc : TaskId → Option Int32) (history : List EpollEv) :
    Prop where
  /-- Who waits for event 0 is in `fiber_epoll_wait`. -/
  waiting : ∀ t, (s.awaited t).filter (Call.asks 0) = (pc t).map Call.epollWait
  /-- The event is owed for an event that has not been seen. -/
  owed : ∀ t, s.owes b 0 t = (unseen t history).isSome
  once : ∀ t, s.owesOnce b 0 t = true

/-- The invariant. -/
structure Delivers (b : Boot) (q : EpollState) : Prop where
  sched : Sched.Inv b q.sched
  agrees : Agrees b q.sched q.pc q.history
  table : Table q.sched q.contexts q.interest q.history
  faithful : Faithful q.history

section

variable {b : Boot} {q q' : EpollState} {s' : Sched} {m : Move} {t : TaskId}

theorem and_epoll_ne_zero (w : EventMask) :
    w &&& EVENT_BITMASK_EPOLL ≠ 0 ↔ w.getLsbD 0 = true := by
  have hbit : w &&& EVENT_BITMASK_EPOLL = BitVec.setWidth 64 (BitVec.ofBool (w.getLsbD 0)) :=
    BitVec.and_one_eq_setWidth_ofBool_getLsbD
  rw [hbit]
  cases w.getLsbD 0 <;> decide

/-- The current task is not in `fiber_epoll_wait`. -/
theorem Delivers.current_pc (h : Delivers b q) : q.pc q.sched.currentTask = none := by
  have hw := h.agrees.waiting q.sched.currentTask
  rw [(h.sched.current_flags (k := 0)).1] at hw
  simpa using hw.symm

/-- A task waits in `fiber_epoll_wait` for the time that it has asked for. -/
theorem Delivers.awaited_of_pc (h : Delivers b q) {ms : Int32} (ht : q.pc t = some ms) :
    q.sched.awaited t = some (.epollWait ms) := by
  have hw := h.agrees.waiting t
  rw [ht, Option.map_some, Option.filter_eq_some_iff] at hw
  exact hw.1

theorem Delivers.pc_of_awaited (h : Delivers b q) {c : Call} (ht : q.sched.awaited t = some c)
    (hc : c.asks 0 = true) : ∃ ms, q.pc t = some ms ∧ c = .epollWait ms := by
  have hw := h.agrees.waiting t
  rw [ht, Option.filter_some, if_pos hc] at hw
  obtain ⟨ms, hpc, he⟩ := Option.map_eq_some_iff.1 hw.symm
  exact ⟨ms, hpc, he.symm⟩

/-- A call that returns at once and concerns no events. -/
theorem Agrees.ret {s : Sched} {pc : TaskId → Option Int32} {history : List EpollEv}
    (h : Agrees b s pc history) (hi : Sched.Inv b s) (hi' : Sched.Inv b s')
    (hcur : s'.currentTask = s.currentTask) {c : Call} {r : Ret}
    (hlog : s'.log = .ret s.currentTask c r :: s.log) : Agrees b s' pc history := by
  refine ⟨fun t => ?_, fun t => ?_, fun t => ?_⟩
  · rw [(hi.flags_ret (k := 0) hi' hcur hlog t).1]
    exact h.waiting t
  · rw [(hi.flags_ret hi' hcur hlog t).2.2.1]
    exact h.owed t
  · rw [(hi.flags_ret hi' hcur hlog t).2.2.2]
    exact h.once t

/-- What holds after a move, but for the history of the task that then runs. -/
theorem Delivers.agrees_after (h : Delivers b q) (hs : q.sched.step m = some s')
    (hm : Sched.keepsFlag 0 m = true) {asked : Option Int32}
    (hasked : ∀ c, m = .call c → c.asks 0 = true → ∃ ms, asked = some ms ∧ c = .epollWait ms)
    (hmove : ∀ ms, asked = some ms → m = .call (.epollWait ms)) {l : List EpollEv}
    (hown : s'.owes b 0 s'.currentTask = (unseen s'.currentTask l).isSome)
    (hother : ∀ t, t ≠ s'.currentTask → unseen t l = unseen t q.history) :
    Agrees b s' (Function.update (Function.update q.pc q.sched.currentTask asked) s'.currentTask none)
      l := by
  have h' := h.sched.step hs
  obtain ⟨hnone, hfree⟩ := h'.current_flags (k := 0)
  have kept (t : TaskId) (ht : t ≠ s'.currentTask) := h.sched.flag_kept hs (by decide) hm ht
  refine ⟨fun t => ?_, fun t => ?_, fun t => ?_⟩
  · by_cases ht : t = s'.currentTask
    · rw [ht, hnone, Function.update_self]
      rfl
    · rw [Function.update_of_ne ht]
      by_cases htc : t = q.sched.currentTask
      · subst htc
        rw [Function.update_self]
        rcases (kept _ ht).awaited with ⟨hsame, hyield⟩ | ⟨-, c, hmc, hc⟩
        · rw [hsame, (h.sched.current_flags (k := 0)).1]
          cases hms : asked with
          | none => rfl
          | some ms => cases hyield rfl _ (hmove ms hms)
        · rw [hc]
          cases hasks : c.asks 0 with
          | true =>
            obtain ⟨ms, rfl, rfl⟩ := hasked c hmc hasks
            rfl
          | false =>
            cases hms : asked with
            | none => simp [hasks]
            | some ms =>
              obtain rfl := Move.call.inj (hmc.symm.trans (hmove ms hms))
              cases hasks
      · rw [Function.update_of_ne htc, ← h.agrees.waiting t]
        rcases (kept t ht).awaited with ⟨hsame, -⟩ | ⟨hcur, -⟩
        · rw [hsame]
        · exact absurd hcur htc
  · by_cases ht : t = s'.currentTask
    · rw [ht, hown]
    · rw [(kept t ht).owes, hother t ht]
      exact h.agrees.owed t
  · by_cases ht : t = s'.currentTask
    · have hheld : heldFlag 0 s'.currentTask (evs s'.currentTask s'.log) = false := hfree
      rw [ht, Sched.owesOnce, owedOnce, hheld]
      simp
    · exact (kept t ht).once (h.agrees.once t)

/-- **A move of the current task, and what the task that then runs does in `fiber_epoll_wait`.** -/
theorem Delivers.advance (h : Delivers b q) (hs : q.sched.step m = some s')
    (hm : Sched.keepsFlag 0 m = true) {asked : Option Int32}
    (hasked : ∀ c, m = .call c → c.asks 0 = true → ∃ ms, asked = some ms ∧ c = .epollWait ms)
    (hmove : ∀ ms, asked = some ms → m = .call (.epollWait ms))
    (htable : Table s' q.contexts q.interest q.history) :
    ∃ q', q.advance m (Function.update q.pc q.sched.currentTask asked) = some q' ∧ Delivers b q' := by
  have h' := h.sched.step hs
  unfold EpollState.advance
  rw [hs, Option.bind_some]
  have hagrees (l : List EpollEv) := h.agrees_after hs hm hasked hmove (l := l)
  cases h.sched.flag_run hs (k := 0) (by decide) hm with
  | silent hawaited hcall howes =>
    have hpc : Function.update q.pc q.sched.currentTask asked s'.currentTask = none := by
      by_cases hcur : s'.currentTask = q.sched.currentTask
      · rw [hcur, Function.update_self]
        cases hms : asked with
        | none => rfl
        | some ms => cases hcall _ (hmove ms hms) hcur
      · rw [Function.update_of_ne hcur]
        cases hms : q.pc s'.currentTask with
        | none => rfl
        | some ms => cases hawaited _ (h.awaited_of_pc hms)
    have hsame : Function.update (Function.update q.pc q.sched.currentTask asked) s'.currentTask none =
        Function.update q.pc q.sched.currentTask asked := by
      rw [← hpc, Function.update_eq_self]
    have hafter := hagrees q.history (by rw [howes]; exact h.agrees.owed _) fun _ _ => rfl
    rw [hsame] at hafter
    refine ⟨{ q with sched := s', pc := Function.update q.pc q.sched.currentTask asked }, ?_,
      h', hafter, htable, h.faithful⟩
    unfold EpollState.fiberEpollWaitEnd
    simp only [hpc]
  | returned c w l hlog hasks hcall hset hclear =>
    obtain ⟨ms, hpc⟩ : ∃ ms, Function.update q.pc q.sched.currentTask asked s'.currentTask = some ms := by
      rcases hcall with hc | ⟨hmc, hcur⟩
      · have hcur : s'.currentTask ≠ q.sched.currentTask := by
          intro e
          rw [e, (h.sched.current_flags (k := 0)).1] at hc
          cases hc
        obtain ⟨ms, hms, -⟩ := h.pc_of_awaited hc hasks
        exact ⟨ms, by rw [Function.update_of_ne hcur, hms]⟩
      · obtain ⟨ms, hms, -⟩ := hasked c hmc hasks
        exact ⟨ms, by rw [hcur, Function.update_self, hms]⟩
    by_cases hw : w.getLsbD 0 = true
    · obtain ⟨howed, hclear⟩ := hset hw
      rw [h.agrees.owed] at howed
      obtain ⟨⟨fd, events⟩, hseen⟩ := Option.isSome_iff_exists.1 howed
      obtain ⟨i, hi, hc⟩ := h.table.latest _ _ _ hseen
      have hslot := (htable.entry_of hi hc).2.2.1
      have hafter := hagrees (.reported s'.currentTask fd events :: q.history)
        (by rw [hclear (h.agrees.once _)]; simp [unseen, EpollEv.task])
        fun t ht => by simp [unseen, EpollEv.task, Ne.symm ht]
      have hret : Sched.Inv b (s'.fiberGetLocaldata s'.currentTask EPOLL_TASKDAT_INDEX) :=
        h'.trs Sched.trs_getLocaldata
      refine ⟨{ q with
        sched := s'.fiberGetLocaldata s'.currentTask EPOLL_TASKDAT_INDEX
        pc := Function.update (Function.update q.pc q.sched.currentTask asked) s'.currentTask none
        history := .reported s'.currentTask fd events :: q.history }, ?_, hret,
        hafter.ret h' hret rfl rfl, ?_, hseen, h.faithful⟩
      · unfold EpollState.fiberEpollWaitEnd
        simp only [hpc, hlog]
        rw [if_pos ((and_epoll_ne_zero w).2 hw), hslot, hc]
        rfl
      · have hread : Table (s'.fiberGetLocaldata s'.currentTask EPOLL_TASKDAT_INDEX) q.contexts
            q.interest q.history :=
          htable.sched fun i hi ctx hc => ⟨(htable.entry_of hi hc).2.1, rfl⟩
        exact hread.reported _ _ _
    · have hw : w.getLsbD 0 = false := by simpa using hw
      have hafter := hagrees q.history (by rw [hclear hw]; exact h.agrees.owed _) fun _ _ => rfl
      refine ⟨{ q with
        sched := s'
        pc := Function.update (Function.update q.pc q.sched.currentTask asked) s'.currentTask none },
        ?_, h', hafter, htable, h.faithful⟩
      unfold EpollState.fiberEpollWaitEnd
      simp only [hpc, hlog]
      rw [if_neg]
      rw [and_epoll_ne_zero, hw]
      simp

/-! ## Moves -/

/-- A move that ends no task with a registration and does not write slot 0 keeps the table. -/
theorem Delivers.table_step (h : Delivers b q) (hs : q.sched.step m = some s')
    (hexit : m = .exit → ∀ i ∈ q.interest, q.owner i ≠ some q.sched.currentTask)
    (hslot : ∀ w index data, m = .call (.setLocaldata w index data) → index ≠ EPOLL_TASKDAT_INDEX) :
    Table s' q.contexts q.interest q.history := by
  refine h.table.sched fun i hi ctx hc => ⟨?_, ?_⟩
  · have hlive := (h.table.entry_of hi hc).2.1
    rcases h.sched.live_step hs with ⟨l, hl⟩ | ⟨rfl, hl⟩
    · rw [hl]
      exact List.mem_append_right _ hlive
    · have hne : ctx.tcb ≠ q.sched.currentTask := by
        intro e
        refine hexit rfl i hi ?_
        rw [EpollState.owner, hc, Option.map_some, e]
      rw [hl]
      exact (List.mem_erase_of_ne hne).2 hlive
  · cases hm : Sched.Move.accesses m with
    | false => rw [(h.sched.untouched_trs (h.sched.trs_step hs) hm).localdata]
    | true =>
      cases m with
      | call c =>
        unfold Sched.step at hs
        split at hs
        case isFalse => cases hs
        case isTrue =>
          cases c with
          | setLocaldata w index data =>
            obtain rfl := Option.some.inj hs
            obtain ⟨-, -, hother⟩ := Sched.setLocaldata_eq q.sched w index data
            exact hother _ _ fun _ => (hslot w index data rfl).symm
          | getLocaldata w index =>
            obtain rfl := Option.some.inj hs
            rfl
          | _ => cases hm
      | _ => cases hm

theorem Delivers.wait (h : Delivers b q) {ms : Int32}
    (hs : q.sched.step (.call (.epollWait ms)) = some s') :
    ∃ q', q.fiberEpollWait ms = some q' ∧ Delivers b q' := by
  refine h.advance hs rfl ?_ ?_ (h.table_step hs (by rintro ⟨⟩) (by rintro _ _ _ ⟨⟩))
  · intro c hc _
    exact ⟨ms, rfl, (Move.call.inj hc).symm⟩
  · intro ms' hms
    rw [Option.some.inj hms]

theorem Delivers.other (h : Delivers b q) (huse : q.Use (.other m))
    (hs : q.sched.step m = some s') : ∃ q', q.advance m q.pc = some q' ∧ Delivers b q' := by
  have hpc : Function.update q.pc q.sched.currentTask none = q.pc := by
    rw [← h.current_pc, Function.update_eq_self]
  have hcall (c : Call) (hc : m = .call c) : leavesEpoll c = true := by
    subst hc
    exact huse
  have hadvance := h.advance hs ?_ ?_ (fun ms (hms : none = some ms) => by cases hms)
    (h.table_step hs ?_ ?_)
  · rwa [hpc] at hadvance
  · cases m with
    | call c =>
      have hc := hcall c rfl
      cases c with
      | eventPost => exact hc
      | _ => rfl
    | _ => rfl
  · intro c hc hasks
    have hleaves := hcall c hc
    cases c with
    | eventWait events =>
      have hasks : events.getLsbD 0 = true := hasks
      have hleaves : (!events.getLsbD 0) = true := hleaves
      rw [hasks] at hleaves
      cases hleaves
    | _ => cases hasks
  · rintro rfl
    exact huse
  · intro w index data hc
    simpa [leavesEpoll] using hcall _ hc

/-- `fiber_set_localdata` on slot 0 of the current task. -/
theorem setLocaldata_slot (s : Sched) (data : BitVec 64) :
    let s' := s.fiberSetLocaldata s.currentTask EPOLL_TASKDAT_INDEX data
    s'.currentTask = s.currentTask ∧ s'.live = s.live ∧
      (s'.tcb s.currentTask).taskLocalStorages EPOLL_TASKDAT_INDEX = data ∧
        (∀ t, t ≠ s.currentTask → s'.tcb t = s.tcb t) ∧
          s'.log = .ret s.currentTask (.setLocaldata s.currentTask EPOLL_TASKDAT_INDEX data)
            (.bool true) :: s.log := by
  have hindex : ¬MAX_TASK_LOCALDATAS ≤ EPOLL_TASKDAT_INDEX := by decide
  intro s'
  have hs' : s' = (s.modTcb s.currentTask fun x => { x with
      taskLocalStorages := Function.update x.taskLocalStorages EPOLL_TASKDAT_INDEX data }).ret
        s.currentTask (.setLocaldata s.currentTask EPOLL_TASKDAT_INDEX data) (.bool true) := by
    show s.fiberSetLocaldata s.currentTask EPOLL_TASKDAT_INDEX data = _
    unfold Sched.fiberSetLocaldata
    dsimp only
    rw [if_neg hindex]
    rfl
  rw [hs']
  refine ⟨rfl, rfl, ?_, fun t ht => Function.update_of_ne ht _ _, rfl⟩
  simp [Sched.ret, Sched.emit, Sched.modTcb]

/-- Who has no registration has no event to see. -/
theorem Delivers.unseen_of_free (h : Delivers b q)
    (hfree : ∀ i ∈ q.interest, q.owner i ≠ some t) : unseen t q.history = none := by
  cases hseen : unseen t q.history with
  | none => rfl
  | some e =>
    obtain ⟨i, hi, hc⟩ := h.table.latest t e.1 e.2 hseen
    refine absurd ?_ (hfree i hi)
    rw [EpollState.owner, hc]
    rfl

theorem Delivers.register (h : Delivers b q) {epollFd fd : Int32} {malloc : Option Addr}
    {garbage : BitVec 32} {added : Bool} (huse : q.Use (.register epollFd fd malloc garbage added))
    (hs : q.step (.register epollFd fd malloc garbage added) = some q') : Delivers b q' := by
  unfold EpollState.step at hs
  dsimp only at hs
  split at hs
  case isFalse => cases hs
  case isTrue henv =>
    obtain rfl := Option.some.inj hs
    obtain ⟨hfresh, hadd⟩ := Bool.and_eq_true_iff.1 (Bool.and_eq_true_iff.1 henv).2
    unfold EpollState.fiberEpollRegisterEvents
    cases malloc with
    | none => exact h
    | some a =>
      obtain ⟨ha, hnone⟩ : a ≠ 0 ∧ q.contexts a = none := by simpa using hfresh
      dsimp only
      cases added with
      | false =>
        have hsame : Function.update (Function.update q.contexts a
            (some { fd := fd, events := garbage, tcb := q.sched.currentTask })) a none =
              q.contexts := by
          rw [Function.update_idem, ← hnone, Function.update_eq_self]
        simp only [Bool.not_false, if_true, hsame]
        exact h
      | true =>
        obtain ⟨hcur, hlive, hslot, htcb, hlog⟩ := setLocaldata_slot q.sched a
        have hinv : Sched.Inv b
            (q.sched.fiberSetLocaldata q.sched.currentTask EPOLL_TASKDAT_INDEX a) :=
          h.sched.trs (Sched.trs_setLocaldata h.sched.live)
        have hfree (i : Interest) (hi : i ∈ q.interest) (ctx : EventContext)
            (hc : q.contexts i.ptr = some ctx) : ctx.tcb ≠ q.sched.currentTask := by
          intro e
          refine huse i hi ?_
          rw [EpollState.owner, hc, Option.map_some, e]
        have hagrees := h.agrees.ret h.sched hinv hcur hlog
        refine ⟨hinv, ⟨hagrees.waiting, fun t => ?_, hagrees.once⟩, ?_, h.faithful⟩
        · refine (hagrees.owed t).trans ?_
          by_cases ht : q.sched.currentTask = t
          · subst ht
            simp [h.unseen_of_free huse, unseen, EpollEv.task]
          · simp [unseen, EpollEv.task, ht]
        · refine h.table.registered ha hnone ?_ hfree ?_ hslot ?_
          · intro i hi
            have hkey := List.all_eq_true.1 (show (q.interest.all _) = true from hadd) i hi
            simpa [← not_and_or] using hkey
          · exact hlive ▸ h.sched.live
          · intro i hi ctx hc
            have hslot := congrArg (·.taskLocalStorages EPOLL_TASKDAT_INDEX)
              (htcb _ (hfree i hi ctx hc))
            exact ⟨hlive ▸ (h.table.entry_of hi hc).2.1, hslot⟩

theorem Delivers.unregister (h : Delivers b q) {epollFd fd : Int32}
    (huse : q.Use (.unregister epollFd fd)) (hs : q.step (.unregister epollFd fd) = some q') :
    Delivers b q' := by
  obtain ⟨hseen, i, hi, rfl, rfl, howner⟩ := huse
  obtain ⟨ctx, hc, htcb⟩ := Option.map_eq_some_iff.1 howner
  unfold EpollState.step at hs
  dsimp only at hs
  split at hs
  case isFalse => cases hs
  case isTrue =>
    obtain rfl := Option.some.inj hs
    have hptr : (q.sched.tcb q.sched.currentTask).taskLocalStorages EPOLL_TASKDAT_INDEX = i.ptr := by
      rw [← htcb]
      exact (h.table.entry_of hi hc).2.2.1
    have hne : i.ptr ≠ 0 := (h.table.entry i hi).1
    have hread : Sched.Inv b (q.sched.fiberGetLocaldata q.sched.currentTask EPOLL_TASKDAT_INDEX) :=
      h.sched.trs Sched.trs_getLocaldata
    obtain ⟨hcur, hlive, -, hother, hlog⟩ := setLocaldata_slot
      (q.sched.fiberGetLocaldata q.sched.currentTask EPOLL_TASKDAT_INDEX) 0
    have hinv : Sched.Inv b ((q.sched.fiberGetLocaldata q.sched.currentTask
        EPOLL_TASKDAT_INDEX).fiberSetLocaldata q.sched.currentTask EPOLL_TASKDAT_INDEX 0) :=
      hread.trs (Sched.trs_setLocaldata h.sched.live)
    have hagrees := (h.agrees.ret h.sched hread rfl rfl).ret hread hinv hcur hlog
    unfold EpollState.fiberEpollUnregisterEvents
    simp only [hptr, hne, ne_eq, not_false_eq_true, if_true]
    refine ⟨hinv, ⟨hagrees.waiting, fun t => ?_, hagrees.once⟩, ?_, h.faithful⟩
    · refine (hagrees.owed t).trans ?_
      by_cases ht : q.sched.currentTask = t
      · subst ht
        simp [hseen, unseen, EpollEv.task]
      · simp [unseen, EpollEv.task, ht]
    · rw [← htcb]
      refine h.table.unregistered hi hc fun j hj hji ctx' hc' => ?_
      have hown : ctx'.tcb ≠ q.sched.currentTask := fun e =>
        hji (h.table.unique hj hi hc' hc (e.trans htcb.symm))
      have hslot := congrArg (·.taskLocalStorages EPOLL_TASKDAT_INDEX) (hother _ hown)
      rw [htcb]
      exact ⟨hlive ▸ (h.table.entry_of hj hc').2.1, hslot⟩

/-- A post does not leave the code of the task that makes it. -/
theorem inCode_eventPost {s : Sched} (h : Sched.Inv b s) {events : EventMask} (hl : t ∈ s.live) :
    (s.fiberEventPost t events).inCode = s.inCode := by
  by_cases hk : (s.tcb t).state.waitforEvent = true →
      eventsSatisfy (((s.tcb t).pendingEvents ||| events) &&& (s.tcb t).waitingEvents)
        (s.tcb t).waitingEvents (s.tcb t).waitingOptions = false
  · rw [Sched.fiberEventPost_keep hk]
    rfl
  · obtain ⟨hk, hsat⟩ := Classical.not_imp.1 hk
    obtain ⟨mask, options, timeout, hw, -⟩ := (h.stand t).waits_of_event hk hl
    rw [Sched.fiberEventPost_grant hw (by simpa using hsat)]
    rfl

/-- **One event is posted**, to a task whose wait has not been ended by an earlier one. -/
theorem Delivers.postEvent (h : Delivers b q) {i : Interest} (hi : i ∈ q.interest)
    {ctx : EventContext} (hc : q.contexts i.ptr = some ctx) (hfree : q.sched.holds 0 ctx.tcb = false)
    (hcode : q.sched.inCode = true) (events : BitVec 32) :
    ∃ q', q.postEvent (i.ptr, events) = some q' ∧ Delivers b q' ∧ q'.interest = q.interest ∧
      q'.sched.inCode = true ∧ (∀ a, a ≠ i.ptr → q'.contexts a = q.contexts a) ∧
        ∀ t, t ≠ ctx.tcb → q'.sched.holds 0 t = q.sched.holds 0 t := by
  obtain ⟨-, hlive, -, hreg⟩ := h.table.entry_of hi hc
  have hpermitted : q.sched.permitted (.call (.eventPost ctx.tcb EVENT_BITMASK_EPOLL)) = true := by
    refine Bool.and_eq_true_iff.2 ⟨decide_eq_true hlive, ?_⟩
    simpa [Call.blocks, Sched.inCode] using hcode
  have hstep : q.sched.step (.call (.eventPost ctx.tcb EVENT_BITMASK_EPOLL)) =
      some (q.sched.fiberEventPost ctx.tcb EVENT_BITMASK_EPOLL) := if_pos hpermitted
  have hposted := h.sched.flag_post (k := 0) hstep (by decide) (by decide)
  have hkept := h.table_step hstep (by rintro ⟨⟩) (by rintro _ _ _ ⟨⟩)
  refine ⟨{ q with
    sched := q.sched.fiberEventPost ctx.tcb EVENT_BITMASK_EPOLL
    contexts := Function.update q.contexts i.ptr (some { ctx with events := events })
    history := .posted ctx.tcb ctx.fd events :: q.history }, ?_, ⟨h.sched.step hstep,
    ⟨fun t => ?_, fun t => ?_, fun t => ?_⟩, hkept.posted hi hc events, ?_, h.faithful⟩, rfl, ?_, ?_, ?_⟩
  · unfold EpollState.postEvent
    rw [hc, Option.bind_some, hstep]
    rfl
  · show ((q.sched.fiberEventPost _ _).awaited t).filter _ = _
    rw [hposted.awaited]
    exact h.agrees.waiting t
  · by_cases ht : ctx.tcb = t
    · subst ht
      rw [hposted.owes]
      simp [unseen]
    · rw [(hposted.others t (Ne.symm ht)).1, h.agrees.owed]
      simp [unseen, ht]
  · by_cases ht : t = ctx.tcb
    · rw [ht]
      exact hposted.once hfree
    · exact (hposted.others t ht).2.2.trans (h.agrees.once t)
  · rw [hreg, (h.table.entry_of hi hc).1]
  · exact (inCode_eventPost h.sched hlive).trans hcode
  · exact fun a ha => Function.update_of_ne ha _ _
  · exact fun t ht => (hposted.others t ht).2.1

/-- The loop of `fiber_epoll_post`. -/
theorem Delivers.post (h : Delivers b q) {events : List (Addr × BitVec 32)}
    (hnd : (events.map Prod.fst).Nodup) (hcode : q.sched.inCode = true)
    (he : ∀ e ∈ events, ∃ i ∈ q.interest, i.ptr = e.1 ∧
      ∀ ctx, q.contexts i.ptr = some ctx → q.sched.holds 0 ctx.tcb = false) :
    ∃ q', q.fiberEpollPost events = some q' ∧ Delivers b q' := by
  induction events generalizing q with
  | nil => exact ⟨q, rfl, h⟩
  | cons e events ih =>
    obtain ⟨hfirst, hnd⟩ := List.nodup_cons.1 hnd
    obtain ⟨he, hes⟩ := List.forall_mem_cons.1 he
    obtain ⟨i, hi, hptr, hfree⟩ := he
    obtain ⟨-, ctx, hc, -⟩ := h.table.entry i hi
    obtain ⟨q₁, h₁, hd₁, hinterest, hcode₁, hcontexts, hholds⟩ :=
      h.postEvent hi hc (hfree ctx hc) hcode e.2
    have hrest : ∀ e' ∈ events, ∃ j ∈ q₁.interest, j.ptr = e'.1 ∧
        ∀ ctx', q₁.contexts j.ptr = some ctx' → q₁.sched.holds 0 ctx'.tcb = false := by
      intro e' he'
      obtain ⟨j, hj, hjptr, hjfree⟩ := hes e' he'
      have hne : j.ptr ≠ i.ptr := by
        rw [hjptr, hptr]
        exact fun e => hfirst (e ▸ List.mem_map_of_mem he')
      refine ⟨j, hinterest ▸ hj, hjptr, fun ctx' hc' => ?_⟩
      rw [hcontexts _ hne] at hc'
      have hother : ctx'.tcb ≠ ctx.tcb := fun e =>
        hne (congrArg Interest.ptr (h.table.unique hj hi hc' hc e))
      rw [hholds _ hother]
      exact hjfree ctx' hc'
    obtain ⟨q', h', hd'⟩ := ih hd₁ hnd hcode₁ hrest
    refine ⟨q', ?_, hd'⟩
    rw [hptr] at h₁
    unfold EpollState.fiberEpollPost at h' ⊢
    rw [List.foldlM_cons, h₁]
    exact h'

/-- A task that has run since an earlier post woke it holds no event. -/
theorem Delivers.free_of_use (h : Delivers b q) {events : List (Addr × BitVec 32)}
    (huse : q.Use (.post events)) : ∀ e ∈ events, ∃ i ∈ q.interest, i.ptr = e.1 ∧
      ∀ ctx, q.contexts i.ptr = some ctx → q.sched.holds 0 ctx.tcb = false := by
  intro e he
  obtain ⟨i, hi, hptr, hrun⟩ := huse.2 e he
  refine ⟨i, hi, hptr, fun ctx hc => ?_⟩
  rw [EpollState.owner, hc, Option.map_some, Option.all_some] at hrun
  by_contra hheld
  obtain ⟨hready, c, hawaited, hasks⟩ := h.sched.ready_of_holds (by simpa using hheld)
  obtain ⟨ms, hms, -⟩ := h.pc_of_awaited hawaited hasks
  simp [hms, hready] at hrun

theorem Delivers.step (h : Delivers b q) {m : EpollMove} (huse : q.Use m) (hs : q.step m = some q') :
    Delivers b q' := by
  cases m with
  | register => exact h.register huse hs
  | unregister => exact h.unregister huse hs
  | wait ms =>
    obtain ⟨s, hstep, -⟩ := Option.bind_eq_some_iff.1 hs
    obtain ⟨q₁, h₁, hd⟩ := h.wait hstep
    exact Option.some.inj (h₁.symm.trans hs) ▸ hd
  | other m =>
    obtain ⟨s, hstep, -⟩ := Option.bind_eq_some_iff.1 hs
    obtain ⟨q₁, h₁, hd⟩ := h.other huse hstep
    exact Option.some.inj (h₁.symm.trans hs) ▸ hd
  | post events =>
    unfold EpollState.step at hs
    dsimp only at hs
    split at hs
    case isFalse => cases hs
    case isTrue hcode =>
      obtain ⟨q₁, h₁, hd⟩ := h.post huse.1 hcode (h.free_of_use huse)
      exact Option.some.inj (h₁.symm.trans hs) ▸ hd

/-! ## What is delivered -/

/-- No pointer to a context is followed that does not lead to one: a move for which the scheduler is
ready is made. -/
structure EpollState.NoFault (q : EpollState) : Prop where
  wait : ∀ ms, (q.sched.step (.call (.epollWait ms))).isSome → (q.step (.wait ms)).isSome
  other : ∀ m, q.Use (.other m) → (q.sched.step m).isSome → (q.step (.other m)).isSome
  post : ∀ events, q.Use (.post events) → q.sched.inCode = true → (q.step (.post events)).isSome

/-- Epoll events reach their task. -/
structure EpollState.Delivered (q : EpollState) : Prop where
  /-- A report is that of the event posted last to the task, for the descriptor that it has registered,
  and nothing has been reported to the task since. -/
  reported : ∀ l₁ t fd events l₂, q.history = l₁ ++ .reported t fd events :: l₂ →
    ∃ l₃ l₄, l₂ = l₃ ++ .posted t fd events :: l₄ ∧ (∀ e ∈ l₃, e.task ≠ t) ∧
      registration t l₄ = some fd
  /-- A task that waits is ready when there is an event that it has not seen. -/
  awake : ∀ t, q.pc t ≠ none → unseen t q.history ≠ none → t ∈ q.sched.readylist
  /-- The next wait of a task that does not wait reports an event if there is one to see, and only then. -/
  pending : ∀ t, q.pc t = none →
    ((q.sched.tcb t).pendingEvents.getLsbD 0 = true ↔ unseen t q.history ≠ none)
  /-- A registration has a context of a live task, which has no other. -/
  contexts : ∀ i ∈ q.interest, ∃ ctx, q.contexts i.ptr = some ctx ∧ ctx.fd = i.fd ∧
    ctx.tcb ∈ q.sched.live ∧ ∀ j ∈ q.interest, q.owner j = some ctx.tcb → j = i

/-- The event that has not been seen is the last that concerns the task. -/
theorem unseen_split {fd : Int32} {events : BitVec 32} {l : List EpollEv}
    (h : unseen t l = some (fd, events)) :
    ∃ l₃ l₄, l = l₃ ++ .posted t fd events :: l₄ ∧ ∀ e ∈ l₃, e.task ≠ t := by
  induction l with
  | nil => cases h
  | cons e l ih =>
    by_cases he : e.task = t
    · cases e with
      | posted u fd' events' =>
        obtain rfl : u = t := he
        obtain ⟨rfl, rfl⟩ : fd' = fd ∧ events' = events := by simpa [unseen] using h
        exact ⟨[], l, rfl, by simp⟩
      | _ => simp [unseen, he] at h
    · have hrest : unseen t l = some (fd, events) := by
        cases e with
        | posted u fd' events' =>
          have hu : u ≠ t := he
          simpa [unseen, hu] using h
        | _ => simpa [unseen, he] using h
      obtain ⟨l₃, l₄, rfl, hl⟩ := ih hrest
      exact ⟨e :: l₃, l₄, rfl, List.forall_mem_cons.2 ⟨he, hl⟩⟩

theorem faithful_append {l₁ l₂ : List EpollEv} (h : Faithful (l₁ ++ l₂)) : Faithful l₂ := by
  induction l₁ with
  | nil => exact h
  | cons e l₁ ih =>
    cases e with
    | registered | unregistered => exact ih h
    | posted | reported => exact ih h.2

theorem Delivers.delivered (h : Delivers b q) : q.Delivered := by
  refine ⟨fun l₁ t fd events l₂ he => ?_, fun t ht hseen => ?_, fun t ht => ?_, fun i hi => ?_⟩
  · have hf : Faithful (.reported t fd events :: l₂) := faithful_append (he ▸ h.faithful)
    obtain ⟨hseen, hf⟩ := hf
    obtain ⟨l₃, l₄, rfl, hl⟩ := unseen_split hseen
    have hposted : Faithful (.posted t fd events :: l₄) := faithful_append hf
    exact ⟨l₃, l₄, rfl, hl, hposted.1⟩
  · obtain ⟨ms, hms⟩ := Option.ne_none_iff_exists'.1 ht
    refine h.sched.ready_of_owes (k := 0) (h.awaited_of_pc hms) rfl (by decide) ?_
    rw [h.agrees.owed, Option.isSome_iff_ne_none]
    exact hseen
  · have hfree : q.sched.holds 0 t = false := by
      by_contra hheld
      obtain ⟨-, c, hawaited, hasks⟩ := h.sched.ready_of_holds (by simpa using hheld)
      obtain ⟨ms, hms, -⟩ := h.pc_of_awaited hawaited hasks
      rw [ht] at hms
      cases hms
    have howed := h.agrees.owed t
    rw [h.sched.owes_eq, hfree, Bool.or_false] at howed
    rw [howed, Option.isSome_iff_ne_none]
  · obtain ⟨-, ctx, hc, hfd, hlive, -⟩ := h.table.entry i hi
    refine ⟨ctx, hc, hfd, hlive, fun j hj hown => ?_⟩
    obtain ⟨ctx', hc', htcb⟩ := Option.map_eq_some_iff.1 hown
    exact h.table.unique hj hi hc' hc htcb

theorem Delivers.noFault (h : Delivers b q) : q.NoFault := by
  refine ⟨fun ms hs => ?_, fun m huse hs => ?_, fun events huse hcode => ?_⟩
  · obtain ⟨s, hs⟩ := Option.isSome_iff_exists.1 hs
    obtain ⟨q', hq', -⟩ := h.wait hs
    exact Option.isSome_iff_exists.2 ⟨q', hq'⟩
  · obtain ⟨s, hs⟩ := Option.isSome_iff_exists.1 hs
    obtain ⟨q', hq', -⟩ := h.other huse hs
    exact Option.isSome_iff_exists.2 ⟨q', hq'⟩
  · obtain ⟨q', hq', -⟩ := h.post huse.1 hcode (h.free_of_use huse)
    exact Option.isSome_iff_exists.2 ⟨q', (if_pos hcode).trans hq'⟩

/-- At the start no event 0 is pending in the memory of the control blocks. -/
theorem delivers_start (hmem : ∀ t, (b.mem t).pendingEvents.getLsbD 0 = false) :
    Delivers b (EpollState.start (boot b)) := by
  have hpend (t : TaskId) : pendingFlag 0 (b.mem t).pendingEvents [] = false := hmem t
  refine ⟨Sched.inv_boot b, ⟨fun t => rfl, fun t => ?_, fun t => ?_⟩, ?_, trivial⟩
  · show owedFlag 0 (b.mem t).pendingEvents t [] = false
    rw [owedFlag, hpend]
    rfl
  · show owedOnce 0 (b.mem t).pendingEvents t [] = true
    rw [owedOnce, hpend]
    rfl
  · refine ⟨List.nodup_nil, List.nodup_nil, ?_, ?_⟩
    · intro i hi
      cases hi
    · intro t fd events hu
      cases hu

end

/-- **Epoll events reach the right task with the right descriptor.** In every run in which the functions
are used as they expect, by any number of tasks: every report is that of the event posted last to the
task, for the descriptor it has registered, and is made once; a task that waits is woken by an event
that it has not seen, and one that does not wait finds it in its next wait; and no pointer to a
context that has been freed is followed. -/
theorem reach_epollDelivered {b : Boot} {q : EpollState}
    (hmem : ∀ t, (b.mem t).pendingEvents.getLsbD 0 = false)
    (h : Reach EpollState.step EpollState.Use (EpollState.start (boot b)) q) :
    q.Delivered ∧ q.NoFault := by
  have hd : Delivers b q :=
    h.invariant (delivers_start hmem) fun _ _ _ hq huse hs => hq.step huse hs
  exact ⟨hd.delivered, hd.noFault⟩

/-- Two tasks register the descriptors 7 and 8 and wait; both events arrive in one batch. -/
def epollRun : List EpollMove :=
  (newTasks 2).map .other ++
  [.other .schedulerStart, .other .schedulerPass, .other .schedulerExhaust,
    .register 3 7 (some 500) 99 true, .wait (-1), .register 3 8 (some 600) 98 true, .wait (-1),
    .other .schedulerExhaust, .post [(500, 1), (600, 4)], .other .schedulerLoopEnd,
    .other .schedulerPass, .other .schedulerExhaust]

set_option maxRecDepth 8000 in
theorem epollRun_delivered : ∃ q,
    epollRun.foldlM (Reach.guarded EpollState.step EpollState.Use) (EpollState.start (boot {})) =
      some q ∧
      q.history = [.reported 100 7 1, .posted 163 8 4, .posted 100 7 1, .registered 163 8,
        .registered 100 7] ∧ q.Delivered ∧ q.NoFault := by
  have hrun : ((epollRun.foldlM (Reach.guarded EpollState.step EpollState.Use)
      (EpollState.start (boot {}))).map fun q => q.history) =
        some [.reported 100 7 1, .posted 163 8 4, .posted 100 7 1, .registered 163 8,
          .registered 100 7] := by
    decide +kernel
  have hmem (t : TaskId) : ((({} : Boot).mem t).pendingEvents).getLsbD 0 = false := by
    simp
  obtain ⟨q, hq, he⟩ := Option.map_eq_some_iff.1 hrun
  exact ⟨q, hq, he, reach_epollDelivered (b := {}) hmem (Reach.of_guarded hq)⟩

end Ptask.OneN
