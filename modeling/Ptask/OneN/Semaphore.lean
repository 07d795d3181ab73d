import Ptask.Lib.Ledger
import Ptask.OneN.Simulation

/-!
# Semaphores

What a semaphore is for: a count of units that were there initially or have been posted, less those
that waits have taken, less the waits that are queued. The tick breaks this law, because it takes an
expired waiter off the queue without giving back the unit that the waiter took in advance; every
other operation keeps it. The ledger of `Ptask.Lib.Ledger`, which counts the expiries as well, is
sound in every run; the law is what it says when nothing has expired (`Sched.semLaw_iff`).
-/

namespace Ptask.OneN

open Ptask.Lib

/-! ## Counting in a log -/

/-- The initial value that the event gives `i`. -/
def Ev.inits (i : SemId) : Ev → Option Int
  | .ret _ (.semInit j v) _ => if j = i then some v.toInt else none
  | _ => none

/-- The value that the last `fiber_sem_init` of `i` has set. -/
def initval (i : SemId) : List Ev → Int
  | [] => 0
  | e :: l => (e.inits i).getD (initval i l)

/-- The number of events that satisfy `f` since the last `fiber_sem_init` of `i`. -/
def countSince (i : SemId) (f : Ev → Bool) : List Ev → Nat
  | [] => 0
  | e :: l => if (e.inits i).isSome then 0 else countSince i f l + if f e then 1 else 0

/-- A unit is posted on `i`. -/
def Ev.postsUnit (i : SemId) : Ev → Bool
  | .unit _ j => j = i
  | _ => false

/-- A wait on `i` returns `true`. -/
def Ev.returnsUnit (i : SemId) : Ev → Bool
  | .ret _ c r => c.waitChain = some (.sem i) && r = .bool true
  | _ => false

/-- A wait on `i` expires. -/
def Ev.expiresOn (i : SemId) : Ev → Bool
  | .expire _ c _ => c.waitChain = some (.sem i)
  | _ => false

namespace Sched

/-- `t` has been given a unit of `i`, and its wait will return `true` when `t` runs. -/
def willReturnTrue (i : SemId) (s : Sched) (t : TaskId) : Bool :=
  match (s.tcb t).frame with
  | some c => c.waitChain = some (.sem i) && t ∉ (s.sem i).waitq &&
      result t (s.tcb t) c = .bool true
  | none => false

/-- The number of waits on `i` that have returned or will return `true`. -/
def takers (i : SemId) (s : Sched) : Nat :=
  countSince i (Ev.returnsUnit i) s.log + s.live.countP (willReturnTrue i s)

/-- **The semaphore law.** -/
structure SemLaw (i : SemId) (s : Sched) : Prop where
  count : (s.sem i).count =
    initval i s.log + countSince i (Ev.postsUnit i) s.log - takers i s - (s.sem i).waitq.length
  /-- A negative count is the number of tasks that are queued. -/
  parked : 0 ≤ initval i s.log → (s.sem i).count < 0 →
    ((s.sem i).waitq.length : Int) = -(s.sem i).count
  /-- Every unit is available or was taken. -/
  units : 0 ≤ initval i s.log → max (s.sem i).count 0 =
    initval i s.log + countSince i (Ev.postsUnit i) s.log - takers i s

/-! ## The ledger -/

/-- What has happened to the units of `i`. -/
def ledger (i : SemId) (s : Sched) : Ledger where
  count := (s.sem i).count
  waiting := (s.sem i).waitq.length
  taken := takers i s
  posted := countSince i (Ev.postsUnit i) s.log
  initial := initval i s.log
  expired := countSince i (Ev.expiresOn i) s.log

section

variable {i : SemId} {s s' : Sched} {t w : TaskId} {es log : List Ev} {m : Move} {b : Boot} {c : Call}

theorem initval_append (h : ∀ e ∈ es, e.inits i = none) : initval i (es ++ log) = initval i log := by
  induction es with
  | nil => rfl
  | cons e es ih =>
    obtain ⟨he, hes⟩ := List.forall_mem_cons.1 h
    rw [List.cons_append, initval, he]
    exact ih hes

theorem countSince_append (h : ∀ e ∈ es, e.inits i = none) (f : Ev → Bool) :
    countSince i f (es ++ log) = countSince i f log + es.countP f := by
  induction es with
  | nil => rfl
  | cons e es ih =>
    obtain ⟨he, hes⟩ := List.forall_mem_cons.1 h
    rw [List.cons_append, countSince, he, ih hes, List.countP_cons]
    simp only [Option.isSome_none, Bool.false_eq_true, if_false]
    omega

/-- One entry of a list changes whether it is counted. -/
theorem countP_of_one {l : List TaskId} {p q : TaskId → Bool} (hl : l.Nodup) (ht : t ∈ l)
    (h : ∀ u, u ≠ t → q u = p u) :
    l.countP q + (if p t then 1 else 0) = l.countP p + if q t then 1 else 0 := by
  have hp := List.perm_cons_erase ht
  have he : (l.erase t).countP q = (l.erase t).countP p := List.countP_congr fun u hu => by
    rw [h u (hl.mem_erase_iff.1 hu).1]
  rw [hp.countP_eq, hp.countP_eq, List.countP_cons, List.countP_cons, he]
  omega

theorem willReturnTrue_congr (ht : s'.tcb t = s.tcb t)
    (hq : t ∈ (s'.sem i).waitq ↔ t ∈ (s.sem i).waitq) :
    willReturnTrue i s' t = willReturnTrue i s t := by
  rw [willReturnTrue, willReturnTrue, ht, decide_eq_decide.2 (not_congr hq)]

theorem Same.willReturnTrue (h : Same s s' t) : willReturnTrue i s' t = Sched.willReturnTrue i s t :=
  willReturnTrue_congr h.tcb (h.chain (.sem i))

theorem willReturnTrue_of_frame (h : (s.tcb t).frame = none ∨ (s.tcb t).frame = some .schedYield) :
    willReturnTrue i s t = false := by
  rcases h with h | h <;> simp [Sched.willReturnTrue, h, Call.waitChain]

theorem Waits.willReturnTrue (h : s.Waits w c) : willReturnTrue i s w = false := by
  rw [Sched.willReturnTrue, h.frame]
  by_cases hc : c.waitChain = some (.sem i)
  · have : w ∈ (s.sem i).waitq := (h.place (.sem i)).2 hc
    simp [this]
  · simp [hc]

/-- The ledger after events that do not initialise the semaphore. -/
theorem ledger_append (s s' : Sched) (es : List Ev) (hlog : s'.log = es ++ s.log) (hes : ∀ e ∈ es, e.inits i = none) :
    ledger i s' =
      { count := (s'.sem i).count
        waiting := (s'.sem i).waitq.length
        taken := countSince i (Ev.returnsUnit i) s.log + es.countP (Ev.returnsUnit i) +
          s'.live.countP (willReturnTrue i s')
        posted := countSince i (Ev.postsUnit i) s.log + es.countP (Ev.postsUnit i)
        initial := initval i s.log
        expired := countSince i (Ev.expiresOn i) s.log + es.countP (Ev.expiresOn i) } := by
  rw [ledger, takers, hlog, initval_append hes, countSince_append hes, countSince_append hes,
    countSince_append hes]

/-- The semaphore and the tasks that will return from it stay as they are, and so does the ledger. -/
theorem ledger_keep (es : List Ev) (hlog : s'.log = es ++ s.log) (hes : ∀ e ∈ es, e.inits i = none ∧
      e.returnsUnit i = false ∧ e.postsUnit i = false ∧ e.expiresOn i = false)
    (hsem : s'.sem i = s.sem i)
    (hw : s'.live.countP (willReturnTrue i s') = s.live.countP (willReturnTrue i s)) :
    ledger i s' = ledger i s := by
  have hz (f : Ev → Bool) (hf : ∀ e ∈ es, f e = false) : es.countP f = 0 :=
    List.countP_eq_zero.2 fun e he => by simp [hf e he]
  rw [ledger_append s s' es hlog fun e he => (hes e he).1, hz _ fun e he => (hes e he).2.1,
    hz _ fun e he => (hes e he).2.2.1, hz _ fun e he => (hes e he).2.2.2, hsem, hw]
  rfl

theorem willCount_of_one (hs : ∀ u, u ≠ w → Same s s' u)
    (hlive : s'.live = s.live) (hw : willReturnTrue i s' w = willReturnTrue i s w) :
    s'.live.countP (willReturnTrue i s') = s.live.countP (willReturnTrue i s) := by
  rw [hlive]
  refine List.countP_congr fun u _ => ?_
  by_cases hu : u = w
  · rw [hu, hw]
  · rw [(hs u hu).willReturnTrue]

theorem willReturnTrue_ready (hf : (s.tcb w).frame = some c) (hp : Located s.chain w (some .ready)) :
    willReturnTrue i s w = Ev.returnsUnit i (.ret w c (result w (s.tcb w) c)) := by
  have : w ∉ s.chain (.sem i) := hp.not_mem_of_ne (by simp)
  have : w ∉ (s.sem i).waitq := this
  simp [Sched.willReturnTrue, hf, this, Ev.returnsUnit]

/-- Returning from a call does not change what has happened to the units. -/
theorem ledger_arrive (h : Settled b s) (ht : s.currentTask ∈ s.chain .ready) :
    ledger i s.arrive = ledger i s := by
  rcases arrive_eq (s := s) with ha | ⟨c, hf, ha⟩
  · rw [ha]
  · have hplace := (h.stand _).located_of_ready ht
    have hcount := countP_of_one (q := willReturnTrue i s.arrive) h.lives
      ((h.stand _).live_of_ready ht) fun u hu =>
        ha ▸ (same_note hu (by simp [Ev.task])).willReturnTrue (i := i)
    have hafter : willReturnTrue i s.arrive s.currentTask = false :=
      willReturnTrue_of_frame (.inl (by rw [ha]; simp [Sched.note]))
    rw [hafter, willReturnTrue_ready hf hplace] at hcount
    have hinit : Ev.inits i (.ret s.currentTask c
        (result s.currentTask (s.tcb s.currentTask) c)) = none := by
      cases h.stand s.currentTask with
      | dead _ place => exact absurd ht place.not_mem
      | waits _ _ waits => exact absurd ht waits.not_ready
      | idle _ _ _ _ _ frame =>
        rw [hf] at frame
        rcases frame with hc | hc <;> cases hc
        rfl
      | ended c' _ _ _ _ _ frame blocks =>
        rw [hf] at frame
        cases frame
        cases c <;> first | (cases blocks; done) | rfl
    have hl := ledger_append (i := i) s s.arrive
      [.ret s.currentTask c (result s.currentTask (s.tcb s.currentTask) c)]
      (by rw [ha]; rfl) (by simpa using hinit)
    rw [hl, show s.arrive.live = s.live by rw [ha]; rfl, show s.arrive.sem = s.sem by rw [ha]; rfl]
    simp only [ledger, takers, List.countP_cons, List.countP_nil, Ledger.mk.injEq, true_and]
    refine ⟨?_, rfl, rfl⟩
    simp only [Bool.false_eq_true, if_false, Nat.add_zero] at hcount
    omega

theorem ledger_schedule (h : Settled b s) (hs : s.schedule = some s') :
    ledger i s' = ledger i s := by
  obtain ⟨t, l, ht, -, hr, he⟩ := h.schedule
  rw [hs] at he
  obtain rfl := Option.some.inj he
  exact ledger_arrive hr ht

/-! ## The operations -/

theorem sem_suspend (h : s.Idle) (x : FibTCB) : (s.suspend c x).sem i =
    if c.waitChain = some (.sem i) then
      { count := (s.sem i).count - 1, waitq := (s.sem i).waitq ++ [s.currentTask] }
    else s.sem i := by
  have hs : (s.suspend c x).sem =
      (({ s with readylist := s.readylist.erase s.currentTask } : Sched).joinQueue s.currentTask
        c.waitChain).sem := by
    rw [← unlink_of_ready h.place]
    rfl
  rw [hs]
  unfold joinQueue
  split
  · next j hj =>
    by_cases hji : j = i
    · subst hji
      simp [hj, modSem]
    · simp [hj, hji, modSem, Ne.symm hji]
  all_goals simp_all [modCond, modMutex]

theorem ledger_suspend (h : s.Idle) (x : FibTCB) :
    ledger i (s.suspend c x) =
      if c.waitChain = some (.sem i) then
        { ledger i s with
          count := (ledger i s).count - 1
          waiting := (ledger i s).waiting + 1 }
      else ledger i s := by
  have hl := ledger_append (i := i) s (s.suspend c x) [.park s.currentTask c s.clock] rfl
    (by simp [Ev.inits])
  have hframe : ((s.suspend c x).tcb s.currentTask).frame = some c := by simp [suspend]
  have hwill : (s.suspend c x).live.countP (willReturnTrue i (s.suspend c x)) =
      s.live.countP (willReturnTrue i s) := by
    refine willCount_of_one (w := s.currentTask) (fun u hu => same_suspend hu x)
      (live_suspend x) ?_
    rw [willReturnTrue_of_frame (.inl h.frame), Sched.willReturnTrue, hframe, sem_suspend h]
    split <;> simp_all
  rw [hl, hwill, sem_suspend h]
  split <;> simp [ledger, takers, Ev.returnsUnit, Ev.postsUnit, Ev.expiresOn]

theorem willReturnTrue_wake (h : Settled b s) {x : FibTCB} (hx : x.frame = some c) :
    willReturnTrue i (s.wake w x es) w = Ev.returnsUnit i (.ret w c (result w x c)) := by
  have hq : w ∉ (s.sem i).waitq.erase w := fun hm =>
    (List.Nodup.mem_erase_iff (h.distinct (.sem i))).1 hm |>.1 rfl
  have hres : result w { x with state := {}, frame := some c } c = result w x c := by
    cases c <;> rfl
  simp [Sched.willReturnTrue, wake, unlink, hx, hq, Ev.returnsUnit, hres]

/-- The end of a wait on something else. -/
theorem ledger_wake_other (h : Settled b s) (hw : s.Waits w c) (hc : c.waitChain ≠ some (.sem i))
    {x : FibTCB} (hx : x.frame = some c) (hes : ∀ e ∈ es, e.task = w ∧ e.inits i = none ∧
      e.returnsUnit i = false ∧ e.postsUnit i = false ∧ e.expiresOn i = false) :
    ledger i (s.wake w x es) = ledger i s := by
  have hq : w ∉ s.chain (.sem i) := hw.place.not_mem_of_ne hc
  have hq : w ∉ (s.sem i).waitq := hq
  refine ledger_keep es rfl (fun e he => (hes e he).2) ?_ ?_
  · simp [wake, unlink, List.erase_of_not_mem hq]
  · refine willCount_of_one (w := w) (fun u hu => same_wake hu fun e he => (hes e he).1) rfl ?_
    rw [willReturnTrue_wake h hx, hw.willReturnTrue]
    simp [Ev.returnsUnit, hc]

/-- The end of a wait on the semaphore. -/
theorem ledger_wake (h : Settled b s) (hw : s.Waits w c) (hc : c.waitChain = some (.sem i))
    (hl : w ∈ s.live) {x : FibTCB} (hx : x.frame = some c) (es : List Ev)
    (hes : ∀ e ∈ es, e.task = w ∧ e.inits i = none ∧ e.returnsUnit i = false ∧
      e.postsUnit i = false) :
    (ledger i s).waiting = (ledger i s).waiting - 1 + 1 ∧
      ledger i (s.wake w x es) =
        { ledger i s with
          waiting := (ledger i s).waiting - 1
          taken := (ledger i s).taken + if result w x c = .bool true then 1 else 0
          expired := (ledger i s).expired + es.countP (Ev.expiresOn i) } := by
  have hq : w ∈ (s.sem i).waitq := (hw.place (.sem i)).2 hc
  have hlen : (s.sem i).waitq.length = (s.sem i).waitq.length - 1 + 1 :=
    (Nat.sub_add_cancel (List.length_pos_of_mem hq)).symm
  have hz (f : Ev → Bool) (hf : ∀ e ∈ es, f e = false) : es.countP f = 0 :=
    List.countP_eq_zero.2 fun e he => by simp [hf e he]
  have hcount := countP_of_one (q := willReturnTrue i (s.wake w x es)) h.lives hl fun u hu =>
    (same_wake (x := x) hu fun e he => (hes e he).1).willReturnTrue (i := i)
  rw [willReturnTrue_wake h hx, hw.willReturnTrue] at hcount
  refine ⟨hlen, ?_⟩
  have hlive : (s.wake w x es).live = s.live := rfl
  have hsem : (s.wake w x es).sem i = { s.sem i with waitq := (s.sem i).waitq.erase w } := rfl
  rw [ledger_append s _ es rfl fun e he => (hes e he).2.1, hz _ fun e he => (hes e he).2.2.1,
    hz _ fun e he => (hes e he).2.2.2, hlive, hsem]
  simp only [ledger, takers, List.length_erase_of_mem hq, Ledger.mk.injEq, true_and, Nat.add_zero,
    and_self, and_true]
  simp only [Ev.returnsUnit, hc, decide_true, Bool.true_and, Bool.false_eq_true, if_false,
    Nat.add_zero, decide_eq_true_eq] at hcount
  omega

theorem waits_of_unused (hu : s.unused (.sem i) = true) :
    (s.sem i).waitq = [] ∧ s.live.countP (willReturnTrue i s) = 0 := by
  obtain ⟨h1, h2⟩ := Bool.and_eq_true_iff.1 hu
  refine ⟨by simpa [chain] using h1, List.countP_eq_zero.2 fun t ht => ?_⟩
  have hf := List.all_eq_true.1 h2 t ht
  rw [Sched.willReturnTrue]
  cases hc : (s.tcb t).frame with
  | none => simp
  | some c =>
    rw [hc] at hf
    have hne : c.waitChain ≠ some (.sem i) := by simpa using hf
    simp [hne]

/-- An initialisation that nobody is waiting through starts the ledger again. -/
theorem ledger_semInit {v : Int32} (hu : s.unused (.sem i) = true) :
    ledger i (s.fiberSemInit i v) = ⟨v.toInt, 0, 0, 0, v.toInt, 0⟩ := by
  obtain ⟨hq, hwill⟩ := waits_of_unused hu
  have hsem : (s.fiberSemInit i v).sem i = { count := v.toInt } := by simp [fiberSemInit, modSem, Sched.ret, emit]
  have hw : (s.fiberSemInit i v).live.countP (willReturnTrue i (s.fiberSemInit i v)) = 0 := by
    rw [← hwill]
    refine List.countP_congr fun u _ => ?_
    have hu : willReturnTrue i (s.fiberSemInit i v) u = willReturnTrue i s u :=
      willReturnTrue_congr rfl (by rw [hsem, hq])
    rw [hu]
  have hlog : (s.fiberSemInit i v).log = .ret s.currentTask (.semInit i v) (.word 0) :: s.log := rfl
  simp [ledger, takers, hw, hsem, hlog, countSince, initval, Ev.inits]

theorem ledger_semInit_of_ne {j : SemId} {v : Int32} (hj : j ≠ i) :
    ledger i (s.fiberSemInit j v) = ledger i s := by
  have hsem : (s.fiberSemInit j v).sem i = s.sem i := by
    simp [fiberSemInit, modSem, Sched.ret, emit, Ne.symm hj]
  refine ledger_keep [.ret s.currentTask (.semInit j v) (.word 0)] rfl
    (by simp [Ev.inits, hj, Ev.returnsUnit, Ev.postsUnit, Ev.expiresOn]) hsem
    (List.countP_congr fun u _ => ?_)
  have hu : willReturnTrue i (s.fiberSemInit j v) u = willReturnTrue i s u :=
    willReturnTrue_congr rfl (by rw [hsem])
  rw [hu]

/-- Events that do not concern the semaphore, and a change of fields that no result depends on. -/
theorem ledger_note {x : FibTCB} (hes : ∀ e ∈ es, e.task = w ∧ e.inits i = none ∧
      e.returnsUnit i = false ∧ e.postsUnit i = false ∧ e.expiresOn i = false)
    (hw : w ∈ s.live → willReturnTrue i (s.note w x es) w = willReturnTrue i s w) :
    ledger i (s.note w x es) = ledger i s := by
  refine ledger_keep es rfl (fun e he => (hes e he).2) rfl (List.countP_congr fun u hu => ?_)
  by_cases e : u = w
  · rw [e, hw (e ▸ hu)]
  · rw [(same_note e fun e he => (hes e he).1).willReturnTrue]

theorem willReturnTrue_side (p : EventMask) (f : Int32 → BitVec 64) :
    willReturnTrue i (s.note w { s.tcb w with pendingEvents := p, taskLocalStorages := f } es) w =
      willReturnTrue i s w := by
  have hres (c : Call) : result w { s.tcb w with pendingEvents := p, taskLocalStorages := f } c =
      result w (s.tcb w) c := by cases c <;> rfl
  cases hf : (s.tcb w).frame with
  | none => simp [Sched.willReturnTrue, Sched.note, hf]
  | some c =>
    have := hres c
    simp only [hf] at this
    simp [Sched.willReturnTrue, Sched.note, hf, this]

/-- A call returns; what it returns is counted if it is a unit. -/
theorem ledger_ret {r : Ret} (hinit : ∀ j v, c ≠ .semInit j v) :
    ledger i (s.ret t c r) = { ledger i s with
      taken := (ledger i s).taken + if (Ev.ret t c r).returnsUnit i then 1 else 0 } := by
  have hi : Ev.inits i (.ret t c r) = none := by
    cases c with
    | semInit j v => exact absurd rfl (hinit j v)
    | _ => rfl
  have hsem : (s.ret t c r).sem = s.sem := rfl
  have hlive : (s.ret t c r).live.countP (willReturnTrue i (s.ret t c r)) =
    s.live.countP (willReturnTrue i s) := rfl
  rw [ledger_append s _ [.ret t c r] rfl (by simpa using hi), hsem, hlive]
  simp only [ledger, takers, List.countP_cons, List.countP_nil, Ledger.mk.injEq, true_and]
  exact ⟨by omega, rfl, rfl⟩

/-- The count of a semaphore changes. -/
theorem ledger_modSem (j : SemId) (f : Int → Int) :
    ledger i (s.modSem j fun p => { p with count := f p.count }) =
      if j = i then { ledger i s with count := f (ledger i s).count } else ledger i s := by
  generalize hs' : (s.modSem j fun p => { p with count := f p.count }) = s'
  have hq : (s'.sem i).waitq = (s.sem i).waitq := by
    by_cases hj : i = j
    · subst hj; simp [← hs', modSem]
    · simp [← hs', modSem, hj]
  have hcount : (s'.sem i).count = if j = i then f (s.sem i).count else (s.sem i).count := by
    by_cases hj : i = j
    · subst hj; simp [← hs', modSem]
    · simp [← hs', modSem, hj, Ne.symm hj]
  have hwill : s'.live.countP (willReturnTrue i s') = s.live.countP (willReturnTrue i s) := by
    rw [show s'.live = s.live by rw [← hs']; rfl]
    refine List.countP_congr fun u _ => ?_
    have hu : willReturnTrue i s' u = willReturnTrue i s u :=
      willReturnTrue_congr (by rw [← hs']; rfl) (by rw [hq])
    rw [hu]
  rw [ledger_append s s' [] (by rw [← hs']; rfl) nofun, hwill, hq, hcount]
  split <;> rfl

theorem ledger_postUnit (j : SemId) : ledger i (s.postUnit j) =
    if j = i then { ledger i s with
      count := (ledger i s).count + 1, posted := (ledger i s).posted + 1 } else ledger i s := by
  have hm := ledger_modSem (i := i) (s := s) j (· + 1)
  have hl := ledger_append (i := i) (s.modSem j fun p => { p with count := p.count + 1 })
    (s.postUnit j) [.unit s.currentTask j] rfl (by simp [Ev.inits])
  have hwill : (s.postUnit j).live.countP (willReturnTrue i (s.postUnit j)) =
      (s.modSem j fun p => { p with count := p.count + 1 }).live.countP
        (willReturnTrue i (s.modSem j fun p => { p with count := p.count + 1 })) := rfl
  have hadd : ledger i (s.postUnit j) =
      { ledger i (s.modSem j fun p => { p with count := p.count + 1 }) with
        posted := (ledger i (s.modSem j fun p => { p with count := p.count + 1 })).posted +
          if j = i then 1 else 0 } := by
    rw [hl, hwill]
    simp [ledger, takers, Ev.returnsUnit, Ev.postsUnit, Ev.expiresOn, postUnit, emit]
  rw [hadd, hm]
  split <;> simp

/-- **Every transition is an operation on the ledger**, and only a tick lets a waiter give up. -/
theorem Inv.ledger (h : Inv b s) (ht : Tr m s s') :
    Ledger.Step (m = .schedulerPass) (ledger i s) (ledger i s') := by
  have keep {l l' : Ledger} (e : l' = l) : Ledger.Step (m = .schedulerPass) l l' := e ▸ .keep
  cases ht with
  | quiet _ hq =>
    refine keep (ledger_keep [] (by rw [hq.log]; rfl) (by rintro _ ⟨⟩) (by rw [hq.sem]) ?_)
    rw [hq.live]
    exact List.countP_congr fun t _ => by rw [(hq.same t).willReturnTrue]
  | localdata w => exact keep (ledger_note (by rintro _ ⟨⟩) fun _ => willReturnTrue_side _ _)
  | scrap w hl => exact keep (ledger_note (by rintro _ ⟨⟩) fun h => absurd h hl)
  | spawn _ w stack hl hpool =>
    refine keep (ledger_keep [.created w] rfl
      (by simp [Ev.inits, Ev.returnsUnit, Ev.postsUnit, Ev.expiresOn]) rfl ?_)
    have hw : willReturnTrue i (s.spawn w (s.newTcb w stack)) w = false :=
      willReturnTrue_of_frame (.inl (by simp [Sched.spawn, newTcb]))
    have hlive : (s.spawn w (s.newTcb w stack)).live = w :: s.live := rfl
    rw [hlive, List.countP_cons, hw]
    refine List.countP_congr fun u hu => ?_
    have hne : u ≠ w := fun e => hl (e ▸ hu)
    have hu : willReturnTrue i (s.spawn w (s.newTcb w stack)) u = willReturnTrue i s u :=
      willReturnTrue_congr (by simp [Sched.spawn, hne]) .rfl
    rw [hu]
  | exit _ hne =>
    have hb := h.bury hne
    obtain ⟨p, hp⟩ := hb.ready
    have hr := hb.rotate (.refl _) ⟨p, hp⟩ s.theMaintask
    have hm : s.theMaintask ∈ s.bury.readylist := hp ▸ List.mem_append_right _ (.head _)
    rw [ledger_arrive hr hm]
    refine keep (ledger_keep [.exited s.currentTask] rfl
      (by simp [Ev.inits, Ev.returnsUnit, Ev.postsUnit, Ev.expiresOn]) rfl ?_)
    have hw : willReturnTrue i s s.currentTask = false :=
      willReturnTrue_of_frame (.inl h.idle.frame)
    rw [(List.perm_cons_erase h.live).countP_eq, List.countP_cons, hw]
    rfl
  | ret c r _ hr hsem hinit =>
    have hn : (Ev.ret s.currentTask c r).returnsUnit i = false := by
      by_cases hc : c.waitChain = some (.sem i)
      · simp [Ev.returnsUnit, hsem i hc]
      · simp [Ev.returnsUnit, hc]
    refine keep ((ledger_ret hinit).trans ?_)
    rw [hn]
    rfl
  | semInit j v hu =>
    by_cases hj : j = i
    · subst hj
      rw [ledger_semInit hu]
      exact .init _
    · exact keep (ledger_semInit_of_ne hj)
  | take j c hc hpos =>
    have hinit (k : SemId) (v : Int32) : c ≠ .semInit k v := fun e => by subst e; cases hc
    rw [ledger_ret hinit, take, ledger_modSem j (· - 1)]
    by_cases hj : j = i
    · subst hj
      simpa [Ev.returnsUnit, hc] using Ledger.Step.take (l := Sched.ledger j s) hpos
    · have hne : c.waitChain ≠ some (.sem i) := fun e => hj (by
        rw [hc] at e
        exact Chain.sem.inj (Option.some.inj e))
      exact keep (by simp [hj, Ev.returnsUnit, hne])
  | unit j hq =>
    rw [ledger_postUnit]
    split
    · next hj =>
      subst hj
      exact .post (by simp [Sched.ledger, hq])
    · exact .keep
  | unitGrant j w rest c hq hw hc hl hb hph =>
    have hp : Inv b (s.postUnit j) := h.postUnit j
    have hw' : (s.postUnit j).Waits w c := by
      refine Same.waits ?_ hw
      exact
        { Same.refl s w with
          chain := fun d => by rw [Sched.postUnit, chain_emit, chain_modSem, setChain_sem_self]
          log := evs_cons_of_ne (hw.ne h.idle).symm }
    have hgr : Sched.ledger i ((s.postUnit j).grant w { s.tcb w with yieldCode := 1 }
        [.grant w c (.bool true)]) = Sched.ledger i ((s.postUnit j).wake w
          { s.tcb w with yieldCode := 1 } [.grant w c (.bool true)]) := rfl
    rw [hgr]
    by_cases hj : j = i
    · subst hj
      obtain ⟨h1, h2⟩ := ledger_wake (x := { s.tcb w with yieldCode := 1 }) hp.toSettled hw' hc hl
        (by exact hw.frame) [.grant w c (.bool true)]
        (by simp [Ev.task, Ev.inits, Ev.returnsUnit, Ev.postsUnit])
      have hres : result w { s.tcb w with yieldCode := 1 } c = .bool true := by
        cases c <;> cases hc <;> rfl
      rw [h2, hres, ledger_postUnit, if_pos rfl]
      rw [ledger_postUnit, if_pos rfl] at h1
      simpa [Ev.expiresOn] using Ledger.Step.give (l := Sched.ledger j s) _ h1
    · have hne : c.waitChain ≠ some (.sem i) := fun e => hj (by
        rw [hc] at e
        exact Chain.sem.inj (Option.some.inj e))
      refine keep ((ledger_wake_other hp.toSettled hw' hne (by exact hw.frame)
        (by simp [Ev.task, Ev.inits, Ev.returnsUnit, Ev.postsUnit, Ev.expiresOn])).trans ?_)
      rw [ledger_postUnit, if_neg hj]
  | grant w c y r hw hl hb hph hr hres hsem =>
    exact keep (ledger_wake_other h.toSettled hw (hsem i) hw.frame
      (by simp [Ev.task, Ev.inits, Ev.returnsUnit, Ev.postsUnit, Ev.expiresOn]))
  | expire hm w c hw hl ht hd hph =>
    by_cases hc : c.waitChain = some (.sem i)
    · obtain ⟨h1, h2⟩ := ledger_wake h.toSettled hw hc hl hw.frame [.expire w c s.clock]
        (by simp [Ev.task, Ev.inits, Ev.returnsUnit, Ev.postsUnit])
      rw [h2, result_expired ht hd]
      have hr : c.expiredRet ≠ .bool true := by cases c <;> rintro ⟨⟩
      simpa [hr, Ev.expiresOn, hc] using Ledger.Step.expire (l := Sched.ledger i s) hm _ h1
    · exact keep (ledger_wake_other h.toSettled hw hc hw.frame
        (by simp [Ev.task, Ev.inits, Ev.returnsUnit, Ev.postsUnit, Ev.expiresOn, hc]))
  | took events options timeout seized hz hs =>
    exact keep (ledger_note (by simp [Ev.task, Ev.inits, Ev.returnsUnit, Ev.postsUnit, Ev.expiresOn,
      Call.waitChain]) fun _ => willReturnTrue_side _ _)
  | posted w events hl hk =>
    exact keep (ledger_note (by simp [Ev.task, Ev.inits, Ev.returnsUnit, Ev.postsUnit, Ev.expiresOn])
      fun _ => willReturnTrue_side _ _)
  | eventGrant w events options timeout eventsIn pending seized hw hl hb hph hd hp hz hs =>
    exact keep (ledger_wake_other h.toSettled hw (by rintro ⟨⟩) hw.frame
      (by simp [Ev.task, Ev.inits, Ev.returnsUnit, Ev.postsUnit, Ev.expiresOn]))
  | park c x _ _ hne hb hk hd hsem hs =>
    rw [ledger_schedule (h.suspend hne hb (hk.scheduler.trans h.idle.scheduler) hd
      hk.pendingEvents) hs, ledger_suspend h.idle]
    split
    · next hc => exact .wait (hsem i hc)
    · exact .keep
  | schedYield _ _ hs =>
    have hy : Sched.ledger i s.yielded = Sched.ledger i
      (s.note s.currentTask { s.tcb s.currentTask with frame := some .schedYield } []) := rfl
    rw [ledger_schedule h.yielded hs, hy]
    refine keep (ledger_note (by rintro _ ⟨⟩) fun _ => ?_)
    rw [willReturnTrue_of_frame (.inl h.idle.frame), willReturnTrue_of_frame (.inr ?_)]
    simp [Sched.note]

/-! ## Expiry -/

/-- The tick expires exactly the entries at the front that are due. -/
theorem expired_tickleLoop (gap : Int32) : ∀ {l : List TaskId} {s : Sched}, Inv b s → l.Nodup →
    (∀ w ∈ l, w ∈ s.wadoglist) →
    (Sched.ledger i (tickleLoop gap l s)).expired = (Sched.ledger i s).expired +
      (l.takeWhile fun w => s.delta w ≤ gap).countP fun w => w ∈ (s.sem i).waitq
  | [], _, _, _, _ => rfl
  | w :: l, s, h, hl, hmem => by
    rw [tickleLoop, List.takeWhile_cons]
    obtain ⟨hwl, hl⟩ := List.nodup_cons.1 hl
    by_cases hgap : s.delta w ≤ gap
    · obtain ⟨c, hw, ht, hd, hph, hlive⟩ := (h.stand w).waits_of_dog (hmem w List.mem_cons_self)
      have hstep : Tr .schedulerPass s (s.wake w (s.tcb w) [.expire w c s.clock]) :=
        .expire rfl w c hw hlive ht hd hph
      have hne (u : TaskId) (hu : u ∈ l) : u ≠ w := fun e => hwl (e ▸ hu)
      have hq (u : TaskId) (hu : u ∈ l) : u ∈ (s.sem i).waitq.erase w ↔ u ∈ (s.sem i).waitq :=
        List.mem_erase_of_ne (hne u hu)
      have hrest := expired_tickleLoop gap (h.tr hstep) hl fun u hu =>
        (List.mem_erase_of_ne (hne u hu)).2 (hmem u (List.mem_cons_of_mem _ hu))
      have hcount : (l.takeWhile fun u => s.delta u ≤ gap).countP
          (fun u => u ∈ (s.sem i).waitq.erase w) =
            (l.takeWhile fun u => s.delta u ≤ gap).countP fun u => u ∈ (s.sem i).waitq :=
        List.countP_congr fun u hu => by simp [hq u (List.takeWhile_subset _ hu)]
      have hafter : (Sched.ledger i (s.wake w (s.tcb w) [.expire w c s.clock])).expired =
          (Sched.ledger i s).expired + if w ∈ (s.sem i).waitq then 1 else 0 := by
        have hmemq : w ∈ (s.sem i).waitq ↔ c.waitChain = some (.sem i) := hw.place (.sem i)
        have hes (e : Ev) (he : e ∈ [Ev.expire w c s.clock]) : e.task = w ∧ e.inits i = none ∧
            e.returnsUnit i = false ∧ e.postsUnit i = false := by
          rw [List.mem_singleton.1 he]
          exact ⟨rfl, rfl, rfl, rfl⟩
        by_cases hc : c.waitChain = some (.sem i)
        · rw [(ledger_wake h.toSettled hw hc hlive hw.frame _ hes).2, if_pos (hmemq.2 hc)]
          simp [Ev.expiresOn, hc]
        · rw [ledger_wake_other h.toSettled hw hc hw.frame fun e he => ?_, if_neg (hc ∘ hmemq.1)]
          · rfl
          · obtain ⟨h1, h2, h3, h4⟩ := hes e he
            refine ⟨h1, h2, h3, h4, ?_⟩
            rw [List.mem_singleton.1 he]
            simp [Ev.expiresOn, hc]
      have hsame : (s.wake w (s.tcb w) [.expire w c s.clock]).delta = s.delta := rfl
      have hwq : ((s.wake w (s.tcb w) [.expire w c s.clock]).sem i).waitq =
        (s.sem i).waitq.erase w := rfl
      rw [hsame, hwq, hcount, hafter] at hrest
      simp only [hgap, decide_true, if_true, List.countP_cons, decide_eq_true_eq]
      rw [tickleExpired_eq hw ht, hrest]
      omega
    · simp only [hgap, decide_false, if_false, Bool.false_eq_true, List.countP_nil]
      rfl

/-- The move is not a pass that expires a wait on `i`. -/
def NoExpiry (i : SemId) (s : Sched) (m : Move) : Prop :=
  m = .schedulerPass → ∀ t ∈ s.expiring, t ∉ (s.sem i).waitq

instance (i : SemId) (s : Sched) (m : Move) : Decidable (NoExpiry i s m) :=
  inferInstanceAs (Decidable (m = .schedulerPass → ∀ t ∈ s.expiring, t ∉ (s.sem i).waitq))

theorem expired_schedulerPass (h : Inv b s) :
    (Sched.ledger i s.schedulerPass).expired = (Sched.ledger i s).expired +
      s.expiring.countP fun w => w ∈ (s.sem i).waitq := by
  unfold schedulerPass expiring currGapp
  dsimp only
  by_cases hz : s.utime - s.prevStmp = 0
  · rw [if_pos hz, if_neg (not_not.2 hz)]
    rfl
  · rw [if_neg hz, if_pos hz, ← expired_tickleLoop _ h h.dogs fun _ hw => hw]
    rfl

/-- The ledger is sound, and a wait has expired exactly if the move lets one expire. -/
theorem Inv.ledger_step (h : Inv b s) (hl : (Sched.ledger i s).Sound)
    (hs : s.step m = some s') :
    (Sched.ledger i s').Sound ∧ ((Sched.ledger i s).expired = 0 →
      ((Sched.ledger i s').expired = 0 ↔ NoExpiry i s m)) := by
  have htrs := h.trs_step hs
  have hsound {s₁ s₂ : Sched} (ht : Trs m s₁ s₂) (hi : Inv b s₁) (hl : (Sched.ledger i s₁).Sound) :
      (Sched.ledger i s₂).Sound ∧ (m ≠ .schedulerPass → (Sched.ledger i s₁).expired = 0 →
        (Sched.ledger i s₂).expired = 0) := by
    induction ht with
    | refl => exact ⟨hl, fun _ he => he⟩
    | tail ht hlast ih =>
      have hstep := (hi.trs ht).ledger (i := i) hlast
      exact ⟨ih.1.step hstep, fun hm he => hstep.expired hm (ih.2 hm he)⟩
  refine ⟨(hsound htrs h hl).1, fun he => ?_⟩
  by_cases hm : m = .schedulerPass
  · subst hm
    have hs' : s.schedulerPass = s' := by
      unfold Sched.step at hs
      split at hs
      · exact Option.some.inj hs
      · cases hs
    rw [← hs', expired_schedulerPass h, he, Nat.zero_add, List.countP_eq_zero]
    simp [NoExpiry]
  · exact ⟨fun _ e => absurd e hm, fun _ => (hsound htrs h hl).2 hm he⟩

/-- The law is what the ledger says when no wait has expired. -/
theorem semLaw_iff (h : (Sched.ledger i s).Sound) : SemLaw i s ↔ (Sched.ledger i s).expired = 0 := by
  have hb : (s.sem i).count + takers i s + (s.sem i).waitq.length + (Sched.ledger i s).expired =
    initval i s.log + countSince i (Ev.postsUnit i) s.log := h.balance
  constructor
  · intro hl
    have := hl.count
    omega
  · intro he
    refine ⟨by omega, fun hi hneg => ?_, fun hi => h.units hi he⟩
    rcases h.queue hi he with ⟨hpos, -⟩ | ⟨-, hw⟩
    · exact absurd hneg (not_lt.2 hpos)
    · exact hw

end

end Sched

open Sched

/-! ## Runs -/

/-- **The semaphore law.** It holds in every run in which no tick expires a wait on the semaphore;
the next move breaks it exactly if it is such a tick. -/
theorem reach_semLaw {b : Boot} {i : SemId} {s : Sched}
    (h : Reach Sched.step (NoExpiry i) (boot b) s) :
    SemLaw i s ∧ ∀ m s', s.step m = some s' → (SemLaw i s' ↔ NoExpiry i s m) := by
  have hrun : Inv b s ∧ (Sched.ledger i s).Sound ∧ (Sched.ledger i s).expired = 0 := by
    refine h.invariant
      (P := fun s => Inv b s ∧ (Sched.ledger i s).Sound ∧ (Sched.ledger i s).expired = 0)
      ⟨inv_boot b, ⟨by simp [Sched.ledger, takers, boot, countSince, initval, willReturnTrue], fun _ _ => .inl ⟨le_rfl, rfl⟩⟩, rfl⟩ ?_
    rintro s m s' ⟨hi, hl, he⟩ hok hs
    have hnext := hi.ledger_step hl hs
    exact ⟨hi.step hs, hnext.1, (hnext.2 he).2 hok⟩
  obtain ⟨hi, hl, he⟩ := hrun
  refine ⟨(semLaw_iff hl).2 he, fun m s' hs => ?_⟩
  have hnext := hi.ledger_step hl hs
  exact (semLaw_iff hnext.1).trans (hnext.2 he)

/-- A task takes the only unit and waits for another, which the maintask posts. The timeout runs out
before the task returns. -/
def postedRun : List Move :=
  newTasks 1 ++ [.schedulerStart, .schedulerPass, .schedulerExhaust,
    .call (.semInit 0 1), .call (.semWait 0), .call (.semTimedwait 0 10), .schedulerExhaust,
    .call (.semPost 0), .schedulerLoopEnd, .elapse 20, .schedulerPass, .schedulerExhaust]

set_option maxRecDepth 4000 in
theorem postedRun_semLaw :
    ∃ s, postedRun.foldlM (Reach.guarded Sched.step (NoExpiry 0)) (boot {}) = some s ∧
      takers 0 s = 2 ∧
      (SemLaw 0 s ∧ ∀ m s', s.step m = some s' → (SemLaw 0 s' ↔ NoExpiry 0 s m)) := by
  have hrun : ((postedRun.foldlM (Reach.guarded Sched.step (NoExpiry 0)) (boot {})).map fun s =>
      takers 0 s) = some 2 := by
    decide +kernel
  obtain ⟨s, hs, ht⟩ := Option.map_eq_some_iff.1 hrun
  exact ⟨s, hs, ht, reach_semLaw (Reach.of_guarded hs)⟩

/-- A task waits on a semaphore with a timeout, and the time runs out. -/
def expiredRun : List Move :=
  newTasks 1 ++ [.schedulerStart, .schedulerPass, .schedulerExhaust,
    .call (.semTimedwait 0 10), .schedulerExhaust, .schedulerLoopEnd, .elapse 10, .schedulerPass]

set_option maxRecDepth 4000 in
/-- The unit that the expired wait took in advance is lost: the count is negative, and nobody is
parked. -/
theorem expiredRun_not_semLaw :
    ∃ s, Reachable {} s ∧ (s.sem 0).count = -1 ∧ (s.sem 0).waitq = [] ∧ ¬SemLaw 0 s := by
  have hrun : ((expiredRun.foldlM Sched.step (boot {})).map fun s =>
      ((s.sem 0).count, (s.sem 0).waitq, initval 0 s.log)) = some (-1, [], 0) := by
    decide +kernel
  obtain ⟨s, hs, he⟩ := Option.map_eq_some_iff.1 hrun
  obtain ⟨hcount, he⟩ := Prod.ext_iff.1 he
  obtain ⟨hq, hinit⟩ := Prod.ext_iff.1 he
  dsimp only at hcount hq hinit
  refine ⟨s, Reach.of_foldlM hs, hcount, hq, fun hlaw => ?_⟩
  have hparked := hlaw.parked (by rw [hinit]) (by rw [hcount]; decide)
  rw [hq, hcount] at hparked
  cases hparked

end Ptask.OneN
