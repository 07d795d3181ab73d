import Ptask.OneN.FiberqWaits
import Ptask.OneN.Objects

/-!
# Programs over the library

Tasks that share data and synchronize through condition variables and semaphores of the library.
In the 1:N build nobody else runs until a call switches. The code of such a program is therefore
cut into segments: what a task does to the data up to its next call of the library, the call, and
the point of the code at which the task goes on when it runs again.

`Placed` says where the tasks of a program are in every state of a run. Two rules derive from it
that nobody sleeps without need: `Reasons` for waits that are ended by broadcasts, and `Enough` for
waits that are ended by signals.
-/

namespace Ptask.OneN

open Ptask.Lib

/-! ## Counters -/

/-- An `int` that is incremented below its maximum. -/
theorem toInt_add_one {x : Int32} (h : 0 ≤ x.toInt) (hx : x.toInt < 2 ^ 31 - 1) :
    (x + 1).toInt = x.toInt + 1 := by
  rw [Int32.toInt_add]
  exact Int.bmod_eq_of_le (by simp; omega) (by simp; omega)

theorem toInt_sub_one {x : Int32} (h : 0 ≤ x.toInt) : (x - 1).toInt = x.toInt - 1 := by
  have hlt := x.toInt_lt
  rw [Int32.toInt_sub]
  exact Int.bmod_eq_of_le (by simp; omega) (by simp; omega)

/-! ## Programs -/

/-- A part of the code up to the next call of the library. -/
structure Segment (δ κ : Type*) where
  data : δ
  call : Option Call
  next : κ

/-- A program. A point of the code is *outside* when the rest of the program runs there. -/
structure Client (δ κ : Type*) where
  /-- `none` when an assertion fails or an access is out of bounds. -/
  code : κ → δ → Option (Segment δ κ)
  outside : κ → Bool
  /-- A task may start and end there. -/
  ends : κ → Bool
  /-- The operations that may be called at a point outside. -/
  entry : κ → κ → Bool
  /-- The queue in which a task waits before it goes on at the point. -/
  waitsOn : κ → Option Chain
  /-- The queues that only this program uses. -/
  objects : List Chain

/-- A state of the process with the data of the program and, for each task, where it is in the code. -/
structure ClientState (δ κ : Type*) where
  sched : Sched
  data : δ
  pc : TaskId → κ

inductive ClientMove (κ : Type*)
  /-- The current task calls an operation of the program. -/
  | enter (k : κ)
  /-- The current task goes on in an operation. -/
  | go
  /-- The rest of the program. -/
  | other (m : Move)

/-- The point from which the current task runs in a move. -/
def ClientState.runsFrom {δ κ : Type*} (q : ClientState δ κ) : ClientMove κ → Option κ
  | .enter k => some k
  | .go => some (q.pc q.sched.currentTask)
  | .other _ => none

namespace Sched

/-- The move is a call on the object whose queue this is. -/
def uses : Chain → Move → Bool
  | .cond i, m => usesCond i m
  | .sem j, m => usesSem j m
  | _, _ => false

/-- The current task is in its own code, not in the scheduler loop. -/
def inCode (s : Sched) : Bool := s.currentTask ≠ s.theMaintask || s.inCallback

end Sched

namespace Client

variable {δ κ : Type*} (P : Client δ κ)

/-- The current task runs from the point `k` to the end of a segment; `lib` makes the moves of the
library. -/
def runBy (lib : Sched → Move → Option Sched) (q : ClientState δ κ) (k : κ) :
    Option (ClientState δ κ) :=
  (P.code k q.data).bind fun g =>
    (match g.call with
      | none => some q.sched
      | some c => lib q.sched (.call c)).map fun s =>
        { sched := s, data := g.data, pc := Function.update q.pc q.sched.currentTask g.next }

/-- The current task is outside, and its move does not call the objects of the program. -/
def permitted (q : ClientState δ κ) (m : Move) : Bool :=
  (match m with
    | .elapse _ => true
    | .exit => P.ends (q.pc q.sched.currentTask)
    | _ => P.outside (q.pc q.sched.currentTask)) &&
  P.objects.all fun c => !Sched.uses c m

def stepBy (lib : Sched → Move → Option Sched) (q : ClientState δ κ) :
    ClientMove κ → Option (ClientState δ κ)
  | .enter k =>
    let pc := q.pc q.sched.currentTask
    if P.outside pc && P.entry pc k && q.sched.inCode then P.runBy lib q k else none
  | .go =>
    let pc := q.pc q.sched.currentTask
    if P.outside pc then none else P.runBy lib q pc
  | .other m =>
    if P.permitted q m then (lib q.sched m).map fun s => { q with sched := s } else none

def run (q : ClientState δ κ) (k : κ) : Option (ClientState δ κ) := P.runBy Sched.step q k

def step (q : ClientState δ κ) (m : ClientMove κ) : Option (ClientState δ κ) :=
  P.stepBy Sched.step q m

/-- The points from which the current task may run now. -/
def MayRun (q : ClientState δ κ) (k : κ) : Prop :=
  let pc := q.pc q.sched.currentTask
  (P.outside pc = true ∧ P.entry pc k = true) ∨ (P.outside pc = false ∧ k = pc)

/-- What a segment may call, and where it then goes on. -/
def Calls (next : κ) : Option Call → Prop
  | none => True
  | some (.condWait i) => .cond i ∈ P.objects ∧ P.waitsOn next = some (.cond i)
  | some (.condSignal i) => .cond i ∈ P.objects
  | some (.condBroadcast i) => .cond i ∈ P.objects
  | some (.semWait j) => .sem j ∈ P.objects ∧ P.waitsOn next = some (.sem j)
  | some (.semPost j) => .sem j ∈ P.objects
  | _ => False

/-- The points and queues of a program fit together. -/
structure Sound : Prop where
  objects : ∀ c ∈ P.objects, (∃ i, c = .cond i) ∨ ∃ j, c = .sem j
  ends : ∀ k, P.ends k = true → P.outside k = true
  outside : ∀ k, P.outside k = true → P.waitsOn k = none
  entry : ∀ k k', P.entry k k' = true → P.outside k' = false
  calls : ∀ k d g, P.outside k = false → P.code k d = some g → P.Calls g.next g.call

end Client

/-! ## What the calls do to the queues -/

namespace Sched

variable {b : Boot} {m : Move} {s s' : Sched} {t : TaskId} {c : Chain} {k : Call}

/-- The queue of a condition variable or a semaphore. -/
def Object (c : Chain) : Prop := (∃ i, c = .cond i) ∨ ∃ j, c = .sem j

/-- Nobody in the queue waits with a timeout. -/
def UntimedOn (s : Sched) (c : Chain) : Prop := ∀ t ∈ s.chain c, t ∉ s.wadoglist

theorem Inv.chain_step (h : Inv b s) (hs : s.step m = some s') (hc : Object c)
    (hm : uses c m = false) (hu : s.UntimedOn c) : s'.chain c = s.chain c ∧ s'.UntimedOn c := by
  rcases hc with ⟨i, rfl⟩ | ⟨j, rfl⟩
  · exact h.cond_step hs hm hu
  · obtain ⟨h1, h2⟩ := h.sem_step hs hm hu
    exact ⟨congrArg FibSemaphore.waitq h1, h2⟩

theorem Idle.not_mem_object (h : s.Idle) (hc : Object c) : s.currentTask ∉ s.chain c := by
  rcases hc with ⟨i, rfl⟩ | ⟨j, rfl⟩
  · exact h.not_mem_cond
  · exact h.not_mem_sem

/-- What a call that synchronizes does to the queues: the current task may have come to one of them,
and those who have left are ready. -/
structure Effect (s s' : Sched) (k : Call) : Prop where
  live : s'.live = s.live
  came : ∀ c, Object c → s.UntimedOn c → ∀ t ∈ s'.chain c,
    t ∈ s.chain c ∨ t = s.currentTask ∧ k.waitChain = some c
  left : ∀ c, Object c → s.UntimedOn c → ∀ t ∈ s.chain c, t ∈ s'.chain c ∨ t ∈ s'.readylist
  current : s.currentTask ∈ s'.readylist ∨ ∃ c, k.waitChain = some c ∧ s.currentTask ∈ s'.chain c
  untimed : ∀ c, Object c → s.UntimedOn c → s'.UntimedOn c

/-- A call with an effect on one object. -/
theorem Inv.effect (h : Inv b s) (hs : s.step (.call k) = some s') (hlive : s'.live = s.live)
    (c : Chain) (huses : ∀ c', Object c' → c' ≠ c → uses c' (.call k) = false)
    (hcame : ∀ t ∈ s'.chain c, t ∈ s.chain c ∨ t = s.currentTask ∧ k.waitChain = some c)
    (hleft : ∀ t ∈ s.chain c, t ∈ s'.chain c ∨ t ∈ s'.readylist)
    (hcurrent : s'.currentTask = s.currentTask ∨
      k.waitChain = some c ∧ s.currentTask ∈ s'.chain c)
    (huntimed : s.UntimedOn c → s'.UntimedOn c) : Effect s s' k := by
  have other (c' : Chain) (hc : Object c') (hne : c' ≠ c) (hu : s.UntimedOn c') :=
    h.chain_step hs hc (huses c' hc hne) hu
  refine ⟨hlive, ?_, ?_, ?_, ?_⟩
  · intro c' hc hu t ht
    by_cases hne : c' = c
    · subst hne
      exact hcame t ht
    · rw [(other c' hc hne hu).1] at ht
      exact .inl ht
  · intro c' hc hu t ht
    by_cases hne : c' = c
    · subst hne
      exact hleft t ht
    · left
      rwa [(other c' hc hne hu).1]
  · rcases hcurrent with hcur | ⟨hk, hcur⟩
    · left
      have hmem : s'.currentTask ∈ s'.chain .ready := (h.step hs).idle.place.mem
      rw [hcur] at hmem
      exact hmem
    · exact .inr ⟨c, hk, hcur⟩
  · intro c' hc hu
    by_cases hne : c' = c
    · subst hne
      exact huntimed hu
    · exact (other c' hc hne hu).2

theorem mem_tail_or_head {l : List TaskId} (ht : t ∈ l) : t ∈ l.tail ∨ l.head? = some t := by
  cases l with
  | nil => cases ht
  | cons a l =>
    rcases List.mem_cons.1 ht with rfl | ht
    · exact .inr rfl
    · exact .inl ht

theorem Inv.effect_condWait {i : CondId} (h : Inv b s)
    (hs : s.step (.call (.condWait i)) = some s') : Effect s s' (.condWait i) := by
  obtain ⟨-, hqueue, hlive, huntimed⟩ := h.condWait_step hs
  have hqueue : s'.chain (.cond i) = s.chain (.cond i) ++ [s.currentTask] := hqueue
  refine h.effect hs hlive (.cond i) ?_ ?_ ?_ (.inr ⟨rfl, ?_⟩) huntimed
  · rintro c' (⟨i', rfl⟩ | ⟨j', rfl⟩) hne
    · simpa [uses, usesCond, eq_comm] using hne
    · rfl
  · intro t ht
    rw [hqueue, List.mem_append, List.mem_singleton] at ht
    exact ht.imp_right fun e => ⟨e, rfl⟩
  · intro t ht
    left
    rw [hqueue]
    exact List.mem_append_left _ ht
  · rw [hqueue]
    exact List.mem_append_right _ (List.mem_singleton.2 rfl)

theorem Inv.effect_condSignal {i : CondId} (h : Inv b s)
    (hs : s.step (.call (.condSignal i)) = some s') : Effect s s' (.condSignal i) := by
  obtain ⟨hcur, hqueue, hlive, huntimed, hfirst⟩ := h.condSignal_step hs
  have hqueue : s'.chain (.cond i) = (s.chain (.cond i)).tail := hqueue
  refine h.effect hs hlive (.cond i) ?_ ?_ ?_ (.inl hcur) huntimed
  · rintro c' (⟨i', rfl⟩ | ⟨j', rfl⟩) hne
    · simpa [uses, usesCond, eq_comm] using hne
    · rfl
  · intro t ht
    rw [hqueue] at ht
    exact .inl (List.mem_of_mem_tail ht)
  · intro t ht
    rw [hqueue]
    exact (mem_tail_or_head ht).imp_right fun hw => hfirst t hw

theorem Inv.effect_condBroadcast {i : CondId} (h : Inv b s)
    (hs : s.step (.call (.condBroadcast i)) = some s') : Effect s s' (.condBroadcast i) := by
  obtain ⟨hcur, hqueue, hlive, hready⟩ := h.condBroadcast_step hs
  have hqueue : s'.chain (.cond i) = [] := hqueue
  refine h.effect hs hlive (.cond i) ?_ ?_ ?_ (.inl hcur) ?_
  · rintro c' (⟨i', rfl⟩ | ⟨j', rfl⟩) hne
    · simpa [uses, usesCond, eq_comm] using hne
    · rfl
  · intro t ht
    rw [hqueue] at ht
    cases ht
  · exact fun t ht => .inr (hready t ht)
  · intro _ t ht
    rw [hqueue] at ht
    cases ht

theorem Inv.effect_semWait {j : SemId} (h : Inv b s)
    (hs : s.step (.call (.semWait j)) = some s') : Effect s s' (.semWait j) := by
  obtain ⟨hlive, -, huntimed, hcase⟩ := h.semWait_step hs
  have huses : ∀ c', Object c' → c' ≠ .sem j → uses c' (.call (.semWait j)) = false := by
    rintro c' (⟨i', rfl⟩ | ⟨j', rfl⟩) hne
    · rfl
    · simpa [uses, usesSem, eq_comm] using hne
  rcases hcase with ⟨-, hcur, hqueue⟩ | ⟨-, hqueue⟩
  · have hqueue : s'.chain (.sem j) = s.chain (.sem j) := hqueue
    refine h.effect hs hlive (.sem j) huses ?_ ?_ (.inl hcur) huntimed
    · intro t ht
      rw [hqueue] at ht
      exact .inl ht
    · intro t ht
      rw [hqueue]
      exact .inl ht
  · have hqueue : s'.chain (.sem j) = s.chain (.sem j) ++ [s.currentTask] := hqueue
    refine h.effect hs hlive (.sem j) huses ?_ ?_ (.inr ⟨rfl, ?_⟩) huntimed
    · intro t ht
      rw [hqueue, List.mem_append, List.mem_singleton] at ht
      exact ht.imp_right fun e => ⟨e, rfl⟩
    · intro t ht
      left
      rw [hqueue]
      exact List.mem_append_left _ ht
    · rw [hqueue]
      exact List.mem_append_right _ (List.mem_singleton.2 rfl)

theorem Inv.effect_semPost {j : SemId} (h : Inv b s)
    (hs : s.step (.call (.semPost j)) = some s') : Effect s s' (.semPost j) := by
  obtain ⟨hcur, hlive, -, hqueue, huntimed, hfirst⟩ := h.semPost_step hs
  have hqueue : s'.chain (.sem j) = (s.chain (.sem j)).tail := hqueue
  refine h.effect hs hlive (.sem j) ?_ ?_ ?_ (.inl hcur) huntimed
  · rintro c' (⟨i', rfl⟩ | ⟨j', rfl⟩) hne
    · rfl
    · simpa [uses, usesSem, eq_comm] using hne
  · intro t ht
    rw [hqueue] at ht
    exact .inl (List.mem_of_mem_tail ht)
  · intro t ht
    rw [hqueue]
    exact (mem_tail_or_head ht).imp_right fun hw => hfirst t hw

end Sched

/-! ## Where the tasks are -/

namespace Client

variable {δ κ : Type*} {P : Client δ κ} {b : Boot} {q q' : ClientState δ κ} {k : κ}
  {t : TaskId} {c : Chain} {m : ClientMove κ} {ok : ClientState δ κ → ClientMove κ → Prop}
  {lib : Sched → Move → Option Sched}

/-- A task in one of the queues goes on at a point that belongs to the queue; a task that is inside
the code is in a queue or ready. -/
structure Placed (P : Client δ κ) (b : Boot) (q : ClientState δ κ) : Prop where
  sched : Sched.Inv b q.sched
  live : ∀ t, P.ends (q.pc t) = false → t ∈ q.sched.live
  parked : ∀ c ∈ P.objects, ∀ t ∈ q.sched.chain c, P.waitsOn (q.pc t) = some c
  place : ∀ t, P.outside (q.pc t) = false →
    (∃ c ∈ P.objects, t ∈ q.sched.chain c) ∨ t ∈ q.sched.readylist
  untimed : ∀ c ∈ P.objects, q.sched.UntimedOn c

/-- A run of a segment in three parts. -/
theorem runBy_eq (h : P.runBy lib q k = some q') : ∃ g s, P.code k q.data = some g ∧
    (match g.call with
      | none => s = q.sched
      | some c => lib q.sched (.call c) = some s) ∧
    q' = { sched := s, data := g.data, pc := Function.update q.pc q.sched.currentTask g.next } := by
  obtain ⟨g, hg, h⟩ := Option.bind_eq_some_iff.1 h
  obtain ⟨s, hs, rfl⟩ := Option.map_eq_some_iff.1 h
  refine ⟨g, s, hg, ?_, rfl⟩
  cases hc : g.call with
  | none =>
    rw [hc] at hs
    exact (Option.some.inj hs).symm
  | some c =>
    rw [hc] at hs
    exact hs

/-- A move that runs code runs a segment. -/
theorem runBy_of_stepBy (hP : P.Sound) (h : P.stepBy lib q m = some q')
    (hfrom : q.runsFrom m = some k) :
    P.outside k = false ∧ P.MayRun q k ∧ P.runBy lib q k = some q' := by
  cases m with
  | enter k' =>
    obtain rfl : k' = k := Option.some.inj hfrom
    unfold stepBy at h
    dsimp only at h
    split at h
    · next hc =>
      obtain ⟨⟨ho, he⟩, -⟩ := by simpa only [Bool.and_eq_true] using hc
      exact ⟨hP.entry _ _ he, .inl ⟨ho, he⟩, h⟩
    · cases h
  | go =>
    obtain rfl : q.pc q.sched.currentTask = k := Option.some.inj hfrom
    unfold stepBy at h
    dsimp only at h
    split at h
    · cases h
    · next ho =>
      have ho : P.outside (q.pc q.sched.currentTask) = false := by simpa using ho
      exact ⟨ho, .inr ⟨ho, rfl⟩, h⟩
  | other m => cases hfrom

/-- The cases of a step: the current task runs a segment, or the rest of the program makes a move. -/
theorem stepBy_cases (hP : P.Sound) (h : P.stepBy lib q m = some q') :
    (∃ k, q.runsFrom m = some k ∧ P.outside k = false ∧ P.MayRun q k ∧ P.runBy lib q k = some q') ∨
      ∃ m' s, m = .other m' ∧ P.permitted q m' = true ∧ lib q.sched m' = some s ∧
        q' = { q with sched := s } := by
  cases m with
  | enter k => exact .inl ⟨k, rfl, runBy_of_stepBy hP h rfl⟩
  | go => exact .inl ⟨_, rfl, runBy_of_stepBy hP h rfl⟩
  | other m =>
    unfold stepBy at h
    dsimp only at h
    split at h
    · next hp =>
      obtain ⟨s, hs, rfl⟩ := Option.map_eq_some_iff.1 h
      exact .inr ⟨m, s, rfl, hp, hs, rfl⟩
    · cases h

theorem run_eq (h : P.run q k = some q') : ∃ g s, P.code k q.data = some g ∧
    (match g.call with
      | none => s = q.sched
      | some c => q.sched.step (.call c) = some s) ∧
    q' = { sched := s, data := g.data, pc := Function.update q.pc q.sched.currentTask g.next } :=
  runBy_eq h

theorem step_cases (hP : P.Sound) (h : P.step q m = some q') :
    (∃ k, q.runsFrom m = some k ∧ P.outside k = false ∧ P.MayRun q k ∧ P.run q k = some q') ∨
      ∃ m s, P.permitted q m = true ∧ q.sched.step m = some s ∧ q' = { q with sched := s } := by
  rcases stepBy_cases hP h with hrun | ⟨m', s, -, hother⟩
  · exact .inl hrun
  · exact .inr ⟨m', s, hother⟩

/-- The point of the current task belongs to no queue, or the task runs from there. -/
theorem MayRun.waitsOn (hP : P.Sound) (hk : P.MayRun q k) :
    P.waitsOn (q.pc q.sched.currentTask) = none ∨ k = q.pc q.sched.currentTask := by
  rcases hk with ⟨ho, -⟩ | ⟨-, rfl⟩
  · exact .inl (hP.outside _ ho)
  · exact .inr rfl

theorem effect_of_calls {s : Sched} {c : Call} {next : κ} (h : Sched.Inv b q.sched)
    (hc : P.Calls next (some c)) (hs : q.sched.step (.call c) = some s) :
    Sched.Effect q.sched s c ∧ ∀ d, c.waitChain = some d → d ∈ P.objects ∧ P.waitsOn next = some d := by
  cases c with
  | condWait i => exact ⟨h.effect_condWait hs, fun d hd => by cases hd; exact hc⟩
  | condSignal i => exact ⟨h.effect_condSignal hs, fun d hd => by cases hd⟩
  | condBroadcast i => exact ⟨h.effect_condBroadcast hs, fun d hd => by cases hd⟩
  | semWait j => exact ⟨h.effect_semWait hs, fun d hd => by cases hd; exact hc⟩
  | semPost j => exact ⟨h.effect_semPost hs, fun d hd => by cases hd⟩
  | _ => cases hc

theorem Placed.run (h : P.Placed b q) (hP : P.Sound) (hk : P.outside k = false)
    (hr : P.run q k = some q') : P.Placed b q' := by
  obtain ⟨g, s, hg, hs, rfl⟩ := run_eq hr
  have hcalls := hP.calls k q.data g hk hg
  have hpc (t : TaskId) (ht : t ≠ q.sched.currentTask) :
      Function.update q.pc q.sched.currentTask g.next t = q.pc t := Function.update_of_ne ht _ _
  cases hc : g.call with
  | none =>
    rw [hc] at hs
    subst hs
    refine ⟨h.sched, ?_, ?_, ?_, h.untimed⟩
    · intro t ht
      by_cases htc : t = q.sched.currentTask
      · exact htc ▸ h.sched.live
      · exact h.live t (hpc t htc ▸ ht)
    · intro c hco t ht
      have htc : t ≠ q.sched.currentTask := by
        rintro rfl
        exact h.sched.idle.not_mem_object (hP.objects c hco) ht
      show P.waitsOn (Function.update q.pc q.sched.currentTask g.next t) = some c
      rw [hpc t htc]
      exact h.parked c hco t ht
    · intro t ht
      by_cases htc : t = q.sched.currentTask
      · right
        have hmem : q.sched.currentTask ∈ q.sched.chain .ready := h.sched.idle.place.mem
        exact htc ▸ hmem
      · exact h.place t (hpc t htc ▸ ht)
  | some c =>
    rw [hc] at hs hcalls
    obtain ⟨he, hwait⟩ := effect_of_calls h.sched hcalls hs
    refine ⟨h.sched.step hs, ?_, ?_, ?_, ?_⟩
    · intro t ht
      show t ∈ s.live
      rw [he.live]
      by_cases htc : t = q.sched.currentTask
      · exact htc ▸ h.sched.live
      · exact h.live t (hpc t htc ▸ ht)
    · intro d hd t ht
      show P.waitsOn (Function.update q.pc q.sched.currentTask g.next t) = some d
      rcases he.came d (hP.objects d hd) (h.untimed d hd) t ht with ht | ⟨rfl, hd'⟩
      · have htc : t ≠ q.sched.currentTask := by
          rintro rfl
          exact h.sched.idle.not_mem_object (hP.objects d hd) ht
        rw [hpc t htc]
        exact h.parked d hd t ht
      · rw [Function.update_self]
        exact (hwait d hd').2
    · intro t ht
      by_cases htc : t = q.sched.currentTask
      · rw [htc]
        rcases he.current with hready | ⟨d, hd, hmem⟩
        · exact .inr hready
        · exact .inl ⟨d, (hwait d hd).1, hmem⟩
      · rcases h.place t (hpc t htc ▸ ht) with ⟨d, hd, hmem⟩ | hready
        · rcases he.left d (hP.objects d hd) (h.untimed d hd) t hmem with hmem | hready
          · exact .inl ⟨d, hd, hmem⟩
          · exact .inr hready
        · exact .inr (h.sched.ready_step hs hready htc)
    · intro d hd
      exact he.untimed d (hP.objects d hd) (h.untimed d hd)

/-- The rest of the program leaves the queues alone and ends no task inside the code. -/
theorem Placed.other_queues (h : P.Placed b q) (hP : P.Sound) {m : Move} {s : Sched}
    (hp : P.permitted q m = true) (hs : q.sched.step m = some s) (hc : c ∈ P.objects) :
    s.chain c = q.sched.chain c ∧ s.UntimedOn c := by
  obtain ⟨-, huses⟩ := Bool.and_eq_true_iff.1 hp
  have hm : Sched.uses c m = false := by simpa using List.all_eq_true.1 huses c hc
  exact h.sched.chain_step hs (hP.objects c hc) hm (h.untimed c hc)

theorem Placed.other_outside (hP : P.Sound) {m : Move} (hp : P.permitted q m = true) :
    P.outside (q.pc q.sched.currentTask) = true ∨ ∃ us, m = .elapse us := by
  obtain ⟨hpc, -⟩ := Bool.and_eq_true_iff.1 hp
  cases m with
  | elapse us => exact .inr ⟨us, rfl⟩
  | exit => exact .inl (hP.ends _ hpc)
  | _ => exact .inl hpc

theorem Placed.other_live (h : P.Placed b q) {m : Move} {s : Sched} (hp : P.permitted q m = true)
    (hs : q.sched.step m = some s) {p : TaskId → Bool}
    (hin : ∀ t, p t = true → P.ends (q.pc t) = false) :
    s.live.countP p = q.sched.live.countP p ∧ ∀ t, p t = true → t ∈ s.live := by
  apply h.sched.countP_step hs
  · exact fun t ht => h.live t (hin t ht)
  · rintro rfl
    obtain ⟨hpc, -⟩ := Bool.and_eq_true_iff.1 hp
    have hpc : P.ends (q.pc q.sched.currentTask) = true := hpc
    by_contra hcur
    have hcur := hin q.sched.currentTask (by simpa using hcur)
    rw [hpc] at hcur
    cases hcur

theorem Placed.other (h : P.Placed b q) (hP : P.Sound) {m : Move} {s : Sched}
    (hp : P.permitted q m = true) (hs : q.sched.step m = some s) :
    P.Placed b { q with sched := s } := by
  have hqueue {c : Chain} (hc : c ∈ P.objects) := h.other_queues hP hp hs hc
  refine ⟨h.sched.step hs, ?_, ?_, ?_, fun c hc => (hqueue hc).2⟩
  · intro t ht
    refine (h.other_live hp hs (p := fun t => !P.ends (q.pc t)) ?_).2 t (by simpa using ht)
    exact fun t ht => by simpa using ht
  · intro c hc t ht
    rw [(hqueue hc).1] at ht
    exact h.parked c hc t ht
  · intro t ht
    rcases h.place t ht with ⟨c, hc, hmem⟩ | hready
    · left
      refine ⟨c, hc, ?_⟩
      show t ∈ s.chain c
      rwa [(hqueue hc).1]
    · right
      rcases Placed.other_outside hP hp with ho | ⟨us, rfl⟩
      · apply h.sched.ready_step hs hready
        rintro rfl
        have ht : P.outside (q.pc q.sched.currentTask) = false := ht
        rw [ho] at ht
        cases ht
      · obtain rfl := Option.some.inj hs
        exact hready

theorem Placed.step (h : P.Placed b q) (hP : P.Sound) (hs : P.step q m = some q') :
    P.Placed b q' := by
  rcases step_cases hP hs with ⟨k, -, hk, -, hr⟩ | ⟨m, s, hp, hstep, rfl⟩
  · exact h.run hP hk hr
  · exact h.other hP hp hstep

/-- The program is started in the state `s`, in which its objects are unused. -/
theorem Placed.start {s : Sched} (hs : Reachable b s) (hP : P.Sound) {d : δ} {k₀ : κ}
    (hk : P.ends k₀ = true) (hc : ∀ c ∈ P.objects, s.unused c = true) :
    P.Placed b { sched := s, data := d, pc := fun _ => k₀ } := by
  have hempty (c : Chain) (hco : c ∈ P.objects) : s.chain c = [] := Sched.waitq_of_unused (hc c hco)
  refine ⟨hs.inv, ?_, ?_, ?_, ?_⟩
  · intro t ht
    rw [hk] at ht
    cases ht
  · intro c hco t ht
    have ht : t ∈ s.chain c := ht
    rw [hempty c hco] at ht
    cases ht
  · intro t ht
    have ht : P.outside k₀ = false := ht
    rw [hP.ends k₀ hk] at ht
    cases ht
  · intro c hco t ht
    have ht : t ∈ s.chain c := ht
    rw [hempty c hco] at ht
    cases ht

/-! ## Waits that broadcasts end -/

/-- Who waits at a point has the reason that belongs to the point, for as long as nobody broadcasts.
`I` is what is known of the data when a task runs from the point. -/
structure Reasoned (P : Client δ κ) (I : κ → δ → Prop) (reason : κ → δ → Prop) : Prop where
  begins : ∀ k d g i, I k d → P.code k d = some g → g.call = some (.condWait i) →
    reason g.next g.data
  keeps : ∀ k d g i k', I k d → P.outside k = false → P.code k d = some g →
    P.waitsOn k' = some (.cond i) → reason k' d →
      reason k' g.data ∨ g.call = some (.condBroadcast i)

/-- Every task in a queue has its reason to wait. -/
def Reasons (P : Client δ κ) (reason : κ → δ → Prop) (q : ClientState δ κ) : Prop :=
  ∀ i, .cond i ∈ P.objects → ∀ t ∈ (q.sched.cond i).waitq, reason (q.pc t) q.data

theorem Placed.reasons_run {I reason : κ → δ → Prop} (h : P.Placed b q) (hP : P.Sound)
    (hR : P.Reasoned I reason) (hI : I k q.data) (hr : P.Reasons reason q) (hk : P.outside k = false)
    (hs : P.run q k = some q') : P.Reasons reason q' := by
  obtain ⟨g, s, hg, hstep, rfl⟩ := run_eq hs
  intro i hi t ht
  have ht : t ∈ s.chain (.cond i) := ht
  show reason (Function.update q.pc q.sched.currentTask g.next t) g.data
  have kept (ht : t ∈ q.sched.chain (.cond i)) (hb : g.call ≠ some (.condBroadcast i)) :
      reason (Function.update q.pc q.sched.currentTask g.next t) g.data := by
    have htc : t ≠ q.sched.currentTask := by
      rintro rfl
      exact h.sched.idle.not_mem_cond ht
    rw [Function.update_of_ne htc]
    exact (hR.keeps k q.data g i _ hI hk hg (h.parked _ hi t ht) (hr i hi t ht)).resolve_right hb
  cases hc : g.call with
  | none =>
    rw [hc] at hstep kept
    subst hstep
    exact kept ht (by simp)
  | some c =>
    rw [hc] at hstep kept
    have hcalls := hc ▸ hP.calls k q.data g hk hg
    obtain ⟨he, -⟩ := effect_of_calls h.sched hcalls hstep
    rcases he.came _ (.inl ⟨i, rfl⟩) (h.untimed _ hi) t ht with hold | ⟨rfl, hwait⟩
    · refine kept hold ?_
      intro hcall
      obtain rfl := Option.some.inj hcall
      have hnil : s.chain (.cond i) = [] := (h.sched.condBroadcast_step hstep).2.1
      rw [hnil] at ht
      cases ht
    · rw [Function.update_self]
      cases c with
      | condWait i' => exact hR.begins k q.data g i' hI hg hc
      | condSignal => cases hwait
      | condBroadcast => cases hwait
      | semWait => cases hwait
      | semPost => cases hwait
      | _ => cases hcalls

/-- **Every task that sleeps has a reason to.** -/
theorem Placed.reasons_step {I reason : κ → δ → Prop} (h : P.Placed b q) (hP : P.Sound)
    (hR : P.Reasoned I reason) (hI : ∀ k, q.runsFrom m = some k → I k q.data)
    (hr : P.Reasons reason q) (hs : P.step q m = some q') : P.Reasons reason q' := by
  rcases step_cases hP hs with ⟨k, hfrom, hk, -, hrun⟩ | ⟨m, s, hp, hstep, rfl⟩
  · exact h.reasons_run hP hR (hI k hfrom) hr hk hrun
  · intro i hi t ht
    have hqueue : s.chain (.cond i) = q.sched.chain (.cond i) := (h.other_queues hP hp hstep hi).1
    have ht : t ∈ s.chain (.cond i) := ht
    rw [hqueue] at ht
    exact hr i hi t ht

/-! ## Waits that signals end -/

/-- The task waits at a point that belongs to `i`, has been signalled and has not yet gone on. -/
def isSignalled (P : Client δ κ) (q : ClientState δ κ) (i : CondId) (t : TaskId) : Bool :=
  P.waitsOn (q.pc t) = some (.cond i) && t ∉ (q.sched.cond i).waitq

/-- How many tasks have been signalled on `i` and have not yet gone on. -/
def signalled (P : Client δ κ) (q : ClientState δ κ) (i : CondId) : Nat :=
  q.sched.live.countP (P.isSignalled q i)

/-- What those who wait on `i` wait for is counted: a task goes to sleep when there is nothing, and
one more of it is announced by a signal. -/
structure Counted (P : Client δ κ) (I : κ → δ → Prop) (available : CondId → δ → Nat) : Prop where
  begins : ∀ k d g i, I k d → P.code k d = some g → g.call = some (.condWait i) →
    available i g.data = 0
  keeps : ∀ k d g i, I k d → P.outside k = false → P.code k d = some g → .cond i ∈ P.objects →
    g.call ≠ some (.condWait i) → g.call ≠ some (.condBroadcast i) →
    available i g.data = 0 ∨ available i g.data + (if P.waitsOn k = some (.cond i) then 1 else 0) ≤
      available i d + (if P.waitsOn g.next = some (.cond i) then 1 else 0) +
        if g.call = some (.condSignal i) then 1 else 0

/-- While somebody waits, as many have been signalled as there is to be had. -/
def Enough (P : Client δ κ) (available : CondId → δ → Nat) (q : ClientState δ κ) : Prop :=
  ∀ i, .cond i ∈ P.objects → (q.sched.cond i).waitq ≠ [] →
    available i q.data ≤ P.signalled q i

theorem isSignalled_iff {i : CondId} : P.isSignalled q i t = true ↔
    P.waitsOn (q.pc t) = some (.cond i) ∧ t ∉ (q.sched.cond i).waitq := by
  simp [isSignalled]

theorem Sound.inside (hP : P.Sound) (hk : P.waitsOn k = some c) : P.outside k = false := by
  by_contra ho
  rw [hP.outside k (by simpa using ho)] at hk
  cases hk

theorem Sound.not_ends (hP : P.Sound) (hk : P.waitsOn k = some c) : P.ends k = false := by
  by_contra he
  have ho := hP.ends k (by simpa using he)
  rw [hP.inside hk] at ho
  cases ho

/-- The count after a segment: the current task is counted at its new point, and a signal has added
the task `w`. -/
theorem Placed.signalled_run (h : P.Placed b q) (hP : P.Sound) (q' : ClientState δ κ) {i : CondId}
    (hi : .cond i ∈ P.objects) (hkeep : ∀ t, t ≠ q.sched.currentTask → q'.pc t = q.pc t)
    (hlive : q'.sched.live = q.sched.live) (ws : List TaskId)
    (hqueue : (q.sched.cond i).waitq = ws ++ (q'.sched.cond i).waitq) (hws : ws.length ≤ 1) :
    P.signalled q' i + (if P.isSignalled q i q.sched.currentTask then 1 else 0) =
      P.signalled q i + (if P.isSignalled q' i q.sched.currentTask then 1 else 0) + ws.length := by
  have hcur : q.sched.currentTask ∉ (q.sched.cond i).waitq := h.sched.idle.not_mem_cond
  have hother (t : TaskId) (htc : t ≠ q.sched.currentTask) (htw : t ∉ ws) :
      P.isSignalled q' i t = P.isSignalled q i t := by
    unfold isSignalled
    rw [hkeep t htc, hqueue, decide_eq_decide.2 (not_congr ?_)]
    simp [htw]
  unfold signalled
  rw [hlive]
  match ws, hws with
  | [], _ =>
    have hcount := countP_update (P.isSignalled q i) (P.isSignalled q' i) h.sched.lives h.sched.live
      fun t ht => hother t ht (by simp)
    simpa using hcount
  | [w], _ =>
    have hw : w ∈ (q.sched.cond i).waitq := by
      rw [hqueue]
      exact List.mem_cons_self
    have hwc : w ≠ q.sched.currentTask := by
      rintro rfl
      exact hcur hw
    have hwait : P.waitsOn (q.pc w) = some (.cond i) := h.parked _ hi w hw
    have hwlive : w ∈ q.sched.live := h.live w (hP.not_ends hwait)
    have hnd : (w :: (q'.sched.cond i).waitq).Nodup := by
      have hnd : (q.sched.cond i).waitq.Nodup := h.sched.distinct (.cond i)
      rwa [hqueue] at hnd
    -- first the current task, then the one that is signalled
    have hfirst := countP_update (P.isSignalled q i)
      (fun t => if t = w then P.isSignalled q i t else P.isSignalled q' i t) h.sched.lives
      h.sched.live fun t ht => by
        split
        · rfl
        · next htw => exact hother t ht (by simpa using htw)
    have hsecond := countP_update
      (fun t => if t = w then P.isSignalled q i t else P.isSignalled q' i t) (P.isSignalled q' i)
      h.sched.lives hwlive fun t ht => (if_neg ht).symm
    have hbefore : P.isSignalled q i w = false := by
      unfold isSignalled
      simp [hw]
    have hafter : P.isSignalled q' i w = true := by
      rw [isSignalled_iff, hkeep w hwc]
      exact ⟨hwait, (List.nodup_cons.1 hnd).1⟩
    simp only [if_neg hwc.symm, if_true, hbefore, hafter, Bool.false_eq_true, if_false] at hfirst hsecond
    simp only [List.length_cons, List.length_nil]
    omega

theorem Placed.enough_run {I : κ → δ → Prop} {available : CondId → δ → Nat} (h : P.Placed b q)
    (hP : P.Sound) (hC : P.Counted I available) (hI : I k q.data) (he : P.Enough available q)
    (hmay : P.MayRun q k) (hk : P.outside k = false) (hr : P.run q k = some q') :
    P.Enough available q' := by
  have hplaced := h.run hP hk hr
  obtain ⟨g, s, hg, hs, rfl⟩ := run_eq hr
  intro i hi hwait
  have hpc (t : TaskId) (ht : t ≠ q.sched.currentTask) :
      Function.update q.pc q.sched.currentTask g.next t = q.pc t := Function.update_of_ne ht _ _
  -- what is counted of the current task, before and after
  have hcur : q.sched.currentTask ∉ (q.sched.cond i).waitq := h.sched.idle.not_mem_cond
  have hbefore : (if P.isSignalled q i q.sched.currentTask then 1 else 0) ≤
      if P.waitsOn k = some (.cond i) then 1 else 0 := by
    rcases hmay.waitsOn hP with hnone | rfl
    · simp [isSignalled, hnone]
    · simp [isSignalled, hcur]
  have key (ws : List TaskId) (hlive : s.live = q.sched.live)
      (hqueue : (q.sched.cond i).waitq = ws ++ (s.cond i).waitq)
      (hlen : ws.length = if g.call = some (.condSignal i) then 1 else 0)
      (hcall : g.call ≠ some (.condWait i)) (hb : g.call ≠ some (.condBroadcast i)) :
      available i g.data ≤ P.signalled (δ := δ)
        ⟨s, g.data, Function.update q.pc q.sched.currentTask g.next⟩ i := by
    have hcount := h.signalled_run hP
      ⟨s, g.data, Function.update q.pc q.sched.currentTask g.next⟩ hi hpc hlive ws hqueue (by rw [hlen]; split <;> omega)
    have hnew : (if P.isSignalled (δ := δ)
        ⟨s, g.data, Function.update q.pc q.sched.currentTask g.next⟩ i q.sched.currentTask
        then 1 else 0) = if P.waitsOn g.next = some (.cond i) then 1 else 0 := by
      have hnot : q.sched.currentTask ∉ (s.cond i).waitq := fun hm =>
        hcur (hqueue ▸ List.mem_append_right ws hm)
      simp [isSignalled, hnot]
    have hold : (q.sched.cond i).waitq ≠ [] := by
      rw [hqueue]
      intro hnil
      exact hwait (List.append_eq_nil_iff.1 hnil).2
    have henough := he i hi hold
    rw [hnew, hlen] at hcount
    rcases hC.keeps k q.data g i hI hk hg hi hcall hb with hzero | hkeeps
    · rw [hzero]
      exact Nat.zero_le _
    · omega
  cases hc : g.call with
  | none =>
    rw [hc] at hs key
    subst hs
    exact key [] rfl rfl (by simp) (by simp) (by simp)
  | some c =>
    have hcalls := hc ▸ hP.calls k q.data g hk hg
    rw [hc] at hs
    have heff := (effect_of_calls h.sched hcalls hs).1
    by_cases huses : Sched.uses (.cond i) (.call c) = true
    · cases c with
      | condWait i' =>
        obtain rfl : i' = i := by simpa [Sched.uses, Sched.usesCond] using huses
        rw [hC.begins k q.data g i' hI hg hc]
        exact Nat.zero_le _
      | condSignal i' =>
        obtain rfl : i' = i := by simpa [Sched.uses, Sched.usesCond] using huses
        obtain ⟨-, hqueue, -⟩ := h.sched.condSignal_step hs
        cases hcase : (q.sched.cond i').waitq with
        | nil =>
          rw [hcase] at hqueue
          exact absurd hqueue hwait
        | cons w rest =>
          rw [hcase] at hqueue
          have hqueue : (s.cond i').waitq = rest := hqueue
          exact key [w] heff.live (by rw [hcase, hqueue]; rfl) (by simp [hc]) (by simp [hc])
            (by simp [hc])
      | condBroadcast i' =>
        obtain rfl : i' = i := by simpa [Sched.uses, Sched.usesCond] using huses
        exact absurd (h.sched.condBroadcast_step hs).2.1 hwait
      | semWait => cases huses
      | semPost => cases huses
      | _ => cases hcalls
    · have hqueue : s.chain (.cond i) = q.sched.chain (.cond i) :=
        (h.sched.chain_step hs (.inl ⟨i, rfl⟩) (by simpa using huses) (h.untimed _ hi)).1
      have hcond : (q.sched.cond i).waitq = [] ++ (s.cond i).waitq := hqueue.symm
      have hne : c ≠ .condSignal i ∧ c ≠ .condWait i ∧ c ≠ .condBroadcast i := by
        refine ⟨?_, ?_, ?_⟩ <;> rintro rfl <;> simp [Sched.uses, Sched.usesCond] at huses
      exact key [] heff.live hcond (by simp [hc, hne.1]) (by simp [hc, hne.2.1])
        (by simp [hc, hne.2.2])

/-- **While somebody sleeps, as many have been signalled as there is to be had.** -/
theorem Placed.enough_step {I : κ → δ → Prop} {available : CondId → δ → Nat} (h : P.Placed b q)
    (hP : P.Sound) (hC : P.Counted I available) (hI : ∀ k, q.runsFrom m = some k → I k q.data)
    (he : P.Enough available q) (hs : P.step q m = some q') : P.Enough available q' := by
  rcases step_cases hP hs with ⟨k, hfrom, hk, hmay, hrun⟩ | ⟨m, s, hp, hstep, rfl⟩
  · exact h.enough_run hP hC (hI k hfrom) he hmay hk hrun
  · intro i hi hwait
    have hqueue : s.chain (.cond i) = q.sched.chain (.cond i) := (h.other_queues hP hp hstep hi).1
    have hsame : P.isSignalled { q with sched := s } i = P.isSignalled q i := by
      funext t
      show (_ && decide (t ∉ s.chain (.cond i))) = _
      rw [hqueue]
      rfl
    have hcount : P.signalled { q with sched := s } i = P.signalled q i := by
      unfold signalled
      rw [hsame]
      exact (h.other_live hp hstep fun t ht => hP.not_ends (isSignalled_iff.1 ht).1).1
    have hqueue : (s.cond i).waitq = (q.sched.cond i).waitq := hqueue
    have hold : (q.sched.cond i).waitq ≠ [] := by rwa [← hqueue]
    rw [hcount]
    exact he i hi hold

/-- Those who are signalled are ready. -/
theorem Placed.ready_of_signalled (h : P.Placed b q) (hP : P.Sound) {i : CondId}
    (ht : P.isSignalled q i t = true) : t ∈ q.sched.readylist := by
  obtain ⟨hwait, hnot⟩ := isSignalled_iff.1 ht
  rcases h.place t (hP.inside hwait) with ⟨c, hc, hmem⟩ | hready
  · have hpark := h.parked c hc t hmem
    rw [hwait] at hpark
    obtain rfl := Option.some.inj hpark
    exact absurd hmem hnot
  · exact hready

/-- Where there is something to be had, somebody is left to run and take it. -/
theorem Placed.left {available : CondId → δ → Nat} (h : P.Placed b q) (hP : P.Sound)
    (he : P.Enough available q) {i : CondId} (hi : .cond i ∈ P.objects)
    (hwait : (q.sched.cond i).waitq ≠ []) (hpos : 0 < available i q.data) :
    ∃ t ∈ q.sched.readylist, P.isSignalled q i t = true := by
  obtain ⟨t, -, ht⟩ := List.countP_pos_iff.1 (hpos.trans_le (he i hi hwait))
  exact ⟨t, h.ready_of_signalled hP ht, ht⟩

/-! ## Runs -/

/-- No assertion fails and no access is out of bounds in the segment that is next. -/
def NoFault (P : Client δ κ) (q : ClientState δ κ) : Prop :=
  ∀ k, P.MayRun q k → P.code k q.data ≠ none

/-- Nobody sleeps without need. -/
structure NobodyStranded (P : Client δ κ) (available : CondId → δ → Nat) (q : ClientState δ κ) :
    Prop where
  enough : P.Enough available q
  /-- Those who wait are in an operation of the right kind. -/
  parked : ∀ i, .cond i ∈ P.objects → ∀ t ∈ (q.sched.cond i).waitq,
    P.waitsOn (q.pc t) = some (.cond i)
  /-- Those who are signalled are ready to run. -/
  ready : ∀ i t, P.isSignalled q i t = true → t ∈ q.sched.readylist
  /-- Where something is there for those who wait, somebody is left to run and take it. -/
  left : ∀ i, .cond i ∈ P.objects → (q.sched.cond i).waitq ≠ [] → 0 < available i q.data →
    ∃ t ∈ q.sched.readylist, P.isSignalled q i t = true

/-- What every segment keeps of the data. -/
def KeptByCode (P : Client δ κ) (I : δ → Prop) : Prop :=
  ∀ k d g, P.outside k = false → I d → P.code k d = some g → I g.data

theorem MayRun.inside (hP : P.Sound) (hk : P.MayRun q k) : P.outside k = false := by
  rcases hk with ⟨-, he⟩ | ⟨ho, rfl⟩
  · exact hP.entry _ _ he
  · exact ho

theorem data_step {I : δ → Prop} (hP : P.Sound) (hI : P.KeptByCode I) (h : I q.data)
    (hs : P.step q m = some q') : I q'.data := by
  rcases step_cases hP hs with ⟨k, -, hk, -, hrun⟩ | ⟨m, s, -, -, rfl⟩
  · obtain ⟨g, s, hg, -, rfl⟩ := run_eq hrun
    exact hI k q.data g hk h hg
  · exact h

/-- **What every segment keeps holds in every run.** -/
theorem reach_data {I : δ → Prop} (hP : P.Sound) (hI : P.KeptByCode I) {q₀ : ClientState δ κ}
    (h0 : I q₀.data) (h : Reach P.step ok q₀ q) : I q.data :=
  h.invariant (P := fun q => I q.data) h0 fun _ _ _ hq _ hs => data_step hP hI hq hs

theorem reach_placed (hP : P.Sound) {q₀ : ClientState δ κ} (h0 : P.Placed b q₀)
    (h : Reach P.step ok q₀ q) : P.Placed b q :=
  h.invariant h0 fun _ _ _ hq _ hs => hq.step hP hs

/-- In every run the data are as `I` says when a task runs from a point. -/
def KnownIn (P : Client δ κ) (ok : ClientState δ κ → ClientMove κ → Prop) (q₀ : ClientState δ κ)
    (I : κ → δ → Prop) : Prop :=
  ∀ q m q' k, Reach P.step ok q₀ q → ok q m → P.step q m = some q' → q.runsFrom m = some k →
    I k q.data

/-- The rule for waits that broadcasts end. -/
theorem reach_reasons {I reason : κ → δ → Prop} (hP : P.Sound)
    (hR : P.Reasoned I reason) {q₀ : ClientState δ κ} (hI : P.KnownIn ok q₀ I)
    (h0 : P.Placed b q₀) (hr0 : P.Reasons reason q₀) (h : Reach P.step ok q₀ q) :
    P.Reasons reason q := by
  induction h with
  | refl => exact hr0
  | tail hq hlast ih =>
    obtain ⟨m, hm, hs⟩ := hlast
    exact (reach_placed hP h0 hq).reasons_step hP hR (fun k => hI _ m _ k hq hm hs) ih hs

/-- The rule for waits that signals end. -/
theorem reach_nobodyStranded {I : κ → δ → Prop} {available : CondId → δ → Nat} (hP : P.Sound)
    (hC : P.Counted I available) {q₀ : ClientState δ κ} (hI : P.KnownIn ok q₀ I)
    (h0 : P.Placed b q₀) (he0 : P.Enough available q₀) (h : Reach P.step ok q₀ q) :
    P.NobodyStranded available q := by
  have he : P.Enough available q := by
    induction h with
    | refl => exact he0
    | tail hq hlast ih =>
      obtain ⟨m, hm, hs⟩ := hlast
      exact (reach_placed hP h0 hq).enough_step hP hC (fun k => hI _ m _ k hq hm hs) ih hs
  have hq := reach_placed hP h0 h
  exact ⟨he, fun i hi => hq.parked _ hi, fun i t ht => hq.ready_of_signalled hP ht,
    fun i hi => hq.left hP he hi⟩

/-- At the start nobody waits. -/
theorem start_empty {s : Sched} (hc : ∀ c ∈ P.objects, s.unused c = true) {i : CondId}
    (hi : .cond i ∈ P.objects) : (s.cond i).waitq = [] :=
  Sched.waitq_of_unused (k := .cond i) (hc _ hi)

end Client

end Ptask.OneN
