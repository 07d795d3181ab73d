import Ptask.Lib.Ring
import Ptask.OneN.Conditions

/-!
# The queue of `fiberq.h`

`FIBERQ_PROTOTYPE` in the 1:N build, where the calls on the mutex are empty: a push or a pop runs
without a switch from the test of its `while` loop to its end or to the `fiber_cond_wait` in the
loop. A task that has waited goes on with the test.

The queue sits on the scheduler: its waits and signals are calls of the library, and between the
operations the tasks make any other moves that leave its two condition variables alone. `pushed`
and `popped` (oldest first) are ghost state.
-/

namespace Ptask.OneN

open Ptask.Lib

variable {α : Type*}

/-- `name##_t`. The cells of `data` are counted from the pointer. -/
structure Fiberq (α : Type*) where
  head : Int32
  tail : Int32
  ndat : UInt64
  size : UInt64
  empt : CondId
  full : CondId
  data : Int → α

/-- `name##_init`; `memset` leaves `zero` in the cells. -/
def Fiberq.init (qsize : UInt64) (empt full : CondId) (zero : α) : Fiberq α where
  head := 0
  tail := 0
  ndat := 0
  size := qsize
  empt := empt
  full := full
  data := fun _ => zero

/-- `(index + 1) % (rbq->size)`, through `size_t` and back. -/
def Fiberq.advance (rbq : Fiberq α) (index : Int32) : Int32 :=
  ((index + 1).toInt64.toUInt64 % rbq.size).toUInt32.toInt32

/-- An operation that a task is in. -/
inductive FiberqOp (α : Type*)
  | push (pdata : α)
  | pop

/-- The condition variable on which the operation waits. -/
def FiberqOp.waitsOn (rbq : Fiberq α) : FiberqOp α → CondId
  | .push _ => rbq.full
  | .pop => rbq.empt

inductive FiberqMove (α : Type*)
  /-- The current task calls an operation. -/
  | start (op : FiberqOp α)
  /-- The current task returns from `fiber_cond_wait` inside its operation. -/
  | resume
  /-- The rest of the program. -/
  | other (m : Move)

structure FiberqSys (α : Type*) where
  sched : Sched
  rbq : Fiberq α
  inside : TaskId → Option (FiberqOp α)
  pushed : List α
  popped : List α

namespace FiberqSys

/-- The operation goes to sleep: `fiber_cond_wait`. -/
def wait (q : FiberqSys α) (op : FiberqOp α) : Option (FiberqSys α) :=
  (q.sched.step (.call (.condWait (op.waitsOn q.rbq)))).map fun s =>
    { q with sched := s, inside := Function.update q.inside q.sched.currentTask (some op) }

/-- The end of an operation: `fiber_cond_signal` and the return. -/
def done (q : FiberqSys α) (i : CondId) : Option (FiberqSys α) :=
  (q.sched.step (.call (.condSignal i))).map fun s =>
    { q with sched := s, inside := Function.update q.inside q.sched.currentTask none }

/-- `name##_push` from the test of the loop on. -/
def push (q : FiberqSys α) (pdata : α) : Option (FiberqSys α) :=
  if q.rbq.size ≤ q.rbq.ndat then q.wait (.push pdata)
  else
    let rbq := { q.rbq with data := Function.update q.rbq.data q.rbq.head.toInt pdata }
    let rbq := { rbq with head := rbq.advance rbq.head }
    let rbq := { rbq with ndat := rbq.ndat + 1 }
    { q with rbq := rbq, pushed := q.pushed ++ [pdata] }.done rbq.empt

/-- `name##_pop` from the test of the loop on. -/
def pop (q : FiberqSys α) : Option (FiberqSys α) :=
  if q.rbq.ndat ≤ 0 then q.wait .pop
  else
    let pdata := q.rbq.data q.rbq.tail.toInt
    let rbq := { q.rbq with tail := q.rbq.advance q.rbq.tail }
    let rbq := { rbq with ndat := rbq.ndat - 1 }
    { q with rbq := rbq, popped := q.popped ++ [pdata] }.done rbq.full

def run (q : FiberqSys α) : FiberqOp α → Option (FiberqSys α)
  | .push pdata => q.push pdata
  | .pop => q.pop

/-! ## Runs -/

/-- The current task is between two operations, and its move does not call the condition variables
of the queue. -/
def permitted (q : FiberqSys α) (m : Move) : Bool :=
  ((q.inside q.sched.currentTask).isNone || match m with
    | .elapse _ => true
    | _ => false) &&
  !Sched.usesCond q.rbq.empt m && !Sched.usesCond q.rbq.full m

def step (q : FiberqSys α) : FiberqMove α → Option (FiberqSys α)
  | .start op => if (q.inside q.sched.currentTask).isNone then q.run op else none
  | .resume => (q.inside q.sched.currentTask).bind q.run
  | .other m => if q.permitted m then (q.sched.step m).map fun s => { q with sched := s } else none

/-- `name##_init` has been called in the state `s`. -/
def init (s : Sched) (qsize : UInt64) (empt full : CondId) (zero : α) : FiberqSys α where
  sched := s
  rbq := .init qsize empt full zero
  inside := fun _ => none
  pushed := []
  popped := []

end FiberqSys

/-! ## Indices -/

theorem toNat_toUInt64 {x : Int64} {k : Nat} (h : x.toInt = k) : x.toUInt64.toNat = k := by
  have hnat : x.toUInt64.toNat = x.toBitVec.toNat := rfl
  have hint : x.toInt = x.toBitVec.toInt := rfl
  have hlt := x.toBitVec.isLt
  rw [hint, BitVec.toInt_eq_toNat_cond] at h
  rw [hnat]
  split at h <;> omega

theorem toInt_toInt32 {x : UInt64} (h : x.toNat < 2 ^ 31) :
    x.toUInt32.toInt32.toInt = x.toNat := by
  have hint : x.toUInt32.toInt32.toInt = x.toUInt32.toBitVec.toInt := rfl
  have hnat : x.toUInt32.toBitVec.toNat = x.toNat % 2 ^ 32 := by simp
  rw [hint, BitVec.toInt_eq_toNat_cond, hnat]
  split <;> omega

/-- The next cell of the ring: the sum does not overflow, and the conversions keep the value. -/
theorem Fiberq.toInt_advance {rbq : Fiberq α} {index : Int32} {k : Nat} (hk : index.toInt = k)
    (hlt : k < rbq.size.toNat) (hmax : rbq.size.toNat ≤ 2 ^ 31 - 1) :
    (rbq.advance index).toInt = ((k + 1) % rbq.size.toNat : Nat) := by
  have hsum : (index + 1).toInt = (k + 1 : Nat) := by
    rw [Int32.toInt_add, hk]
    show ((k : Int) + 1).bmod (2 ^ 32) = _
    rw [Int.bmod_eq_of_le (by omega) (by omega)]
    rfl
  have hnat : (index + 1).toInt64.toUInt64.toNat = k + 1 := by
    apply toNat_toUInt64
    rw [Int32.toInt_toInt64, hsum]
  have hmod : ((index + 1).toInt64.toUInt64 % rbq.size).toNat = (k + 1) % rbq.size.toNat := by
    rw [UInt64.toNat_mod, hnat]
  have hmodlt := Nat.mod_lt (k + 1) (Nat.zero_lt_of_lt hlt)
  unfold Fiberq.advance
  rw [toInt_toInt32 (by omega), hmod]

/-! ## The queue as a list -/

/-- The elements that are read cyclically from `tail` on. -/
def Fiberq.contents (rbq : Fiberq α) : List α :=
  ring (fun k => rbq.data k) rbq.size.toNat rbq.tail.toInt.toNat rbq.ndat.toNat

/-- The queue is the list of the elements pushed and not yet popped, kept in a ring. -/
structure RefinesFifo (q : FiberqSys α) : Prop where
  bounded : q.rbq.ndat ≤ q.rbq.size
  head : 0 ≤ q.rbq.head.toInt ∧ q.rbq.head.toInt < q.rbq.size.toNat
  tail : 0 ≤ q.rbq.tail.toInt ∧ q.rbq.tail.toInt < q.rbq.size.toNat
  place : q.rbq.head.toInt = (q.rbq.tail.toInt + q.rbq.ndat.toNat) % q.rbq.size.toNat
  contents : q.pushed.drop q.popped.length = q.rbq.contents
  popped : q.popped <+: q.pushed

/-- The same with the indices as natural numbers. -/
structure Holding (rbq : Fiberq α) (h t k : Nat) : Prop where
  head : rbq.head.toInt = h
  tail : rbq.tail.toInt = t
  ndat : rbq.ndat.toNat = k
  tail_lt : t < rbq.size.toNat
  place : h = (t + k) % rbq.size.toNat
  bounded : k ≤ rbq.size.toNat

namespace Holding

variable {rbq : Fiberq α} {h t k : Nat}

theorem head_lt (hr : Holding rbq h t k) : h < rbq.size.toNat := by
  rw [hr.place]
  exact Nat.mod_lt _ (Nat.zero_lt_of_lt hr.tail_lt)

theorem contents_eq (hr : Holding rbq h t k) :
    rbq.contents = ring (fun k => rbq.data k) rbq.size.toNat t k := by
  unfold Fiberq.contents
  rw [hr.tail, hr.ndat, Int.toNat_natCast]

/-- The end of `name##_push`: the element is behind the others. -/
theorem push (hr : Holding rbq h t k) (hmax : rbq.size.toNat ≤ 2 ^ 31 - 1)
    (hroom : k < rbq.size.toNat) (pdata : α) :
    let rbq' := { rbq with
      data := Function.update rbq.data rbq.head.toInt pdata
      head := rbq.advance rbq.head
      ndat := rbq.ndat + 1 }
    (∃ h', Holding rbq' h' t (k + 1)) ∧ rbq'.contents = rbq.contents ++ [pdata] := by
  intro rbq'
  have hr' : Holding rbq' ((h + 1) % rbq.size.toNat) t (k + 1) := by
    refine ⟨Fiberq.toInt_advance hr.head hr.head_lt hmax, hr.tail, ?_, hr.tail_lt, ?_, hroom⟩
    · show (rbq.ndat + 1).toNat = k + 1
      have hlt := rbq.size.toNat_lt
      rw [UInt64.toNat_add, hr.ndat]
      exact Nat.mod_eq_of_lt (by show k + 1 < 2 ^ 64; omega)
    · rw [hr.place, Nat.mod_add_mod, Nat.add_assoc]
  have hcells : (fun k : Nat => rbq'.data k) =
      Function.update (fun k : Nat => rbq.data k) ((t + k) % rbq.size.toNat) pdata := by
    rw [← hr.place]
    show (fun k : Nat => Function.update rbq.data rbq.head.toInt pdata k) = _
    rw [hr.head]
    exact Function.update_comp_eq_of_injective rbq.data Nat.cast_injective h pdata
  refine ⟨⟨_, hr'⟩, ?_⟩
  rw [hr'.contents_eq, hr.contents_eq, hcells]
  exact ring_push hroom pdata

/-- The end of `name##_pop`: the first element is taken. -/
theorem pop (hr : Holding rbq h t (k + 1)) (hmax : rbq.size.toNat ≤ 2 ^ 31 - 1) :
    let rbq' := { rbq with tail := rbq.advance rbq.tail, ndat := rbq.ndat - 1 }
    (∃ t', Holding rbq' h t' k) ∧ rbq.contents = rbq.data rbq.tail.toInt :: rbq'.contents := by
  intro rbq'
  have hr' : Holding rbq' h ((t + 1) % rbq.size.toNat) k := by
    refine ⟨hr.head, Fiberq.toInt_advance hr.tail hr.tail_lt hmax, ?_,
      Nat.mod_lt _ (Nat.zero_lt_of_lt hr.tail_lt), ?_, Nat.le_of_succ_le hr.bounded⟩
    · show (rbq.ndat - 1).toNat = k
      have hone : (1 : UInt64) ≤ rbq.ndat := by
        rw [UInt64.le_iff_toNat_le, hr.ndat]
        exact Nat.le_add_left 1 k
      rw [UInt64.toNat_sub_of_le _ _ hone, hr.ndat]
      rfl
    · rw [hr.place, Nat.mod_add_mod, Nat.add_right_comm, Nat.add_assoc]
  refine ⟨⟨_, hr'⟩, ?_⟩
  rw [hr.contents_eq, hr'.contents_eq, hr.tail]
  exact ring_pop hr.tail_lt

end Holding

namespace FiberqSys

variable {q q' : FiberqSys α} {m : FiberqMove α} {op : FiberqOp α} {i : CondId}

/-! ## Runs keep the list -/

theorem wait_eq (h : q.wait op = some q') :
    ∃ s, q.sched.step (.call (.condWait (op.waitsOn q.rbq))) = some s ∧
      q' = { q with sched := s, inside := Function.update q.inside q.sched.currentTask (some op) } := by
  obtain ⟨s, hs, rfl⟩ := Option.map_eq_some_iff.1 h
  exact ⟨s, hs, rfl⟩

theorem done_eq (h : q.done i = some q') :
    ∃ s, q.sched.step (.call (.condSignal i)) = some s ∧
      q' = { q with sched := s, inside := Function.update q.inside q.sched.currentTask none } := by
  obtain ⟨s, hs, rfl⟩ := Option.map_eq_some_iff.1 h
  exact ⟨s, hs, rfl⟩

/-- What the runs keep: the indices fit, and what was pushed is what was popped and is held. -/
structure Kept (q : FiberqSys α) : Prop where
  holding : ∃ h t k, Holding q.rbq h t k
  pushed : q.pushed = q.popped ++ q.rbq.contents

theorem Kept.run (hk : Kept q) (hmax : q.rbq.size.toNat ≤ 2 ^ 31 - 1) (hs : q.run op = some q') :
    Kept q' ∧ q'.rbq.size = q.rbq.size := by
  obtain ⟨⟨h, t, k, hr⟩, hp⟩ := hk
  cases op with
  | push pdata =>
    unfold FiberqSys.run FiberqSys.push at hs
    dsimp only at hs
    split at hs
    · obtain ⟨s, -, rfl⟩ := wait_eq hs
      exact ⟨⟨⟨h, t, k, hr⟩, hp⟩, rfl⟩
    · next hroom =>
      obtain ⟨s, -, rfl⟩ := done_eq hs
      have hlt : k < q.rbq.size.toNat := by
        rw [UInt64.le_iff_toNat_le, hr.ndat] at hroom
        omega
      obtain ⟨⟨h', hr'⟩, hc⟩ := hr.push hmax hlt pdata
      refine ⟨⟨⟨h', t, k + 1, hr'⟩, ?_⟩, rfl⟩
      show q.pushed ++ [pdata] = q.popped ++ _
      rw [hp, List.append_assoc]
      exact congrArg (q.popped ++ ·) hc.symm
  | pop =>
    unfold FiberqSys.run FiberqSys.pop at hs
    dsimp only at hs
    split at hs
    · obtain ⟨s, -, rfl⟩ := wait_eq hs
      exact ⟨⟨⟨h, t, k, hr⟩, hp⟩, rfl⟩
    · next hsome =>
      obtain ⟨s, -, rfl⟩ := done_eq hs
      cases k with
      | zero =>
        exact absurd (UInt64.le_iff_toNat_le.2 (hr.ndat.trans_le (Nat.zero_le _))) hsome
      | succ k =>
        obtain ⟨⟨t', hr'⟩, hc⟩ := hr.pop hmax
        refine ⟨⟨⟨h, t', k, hr'⟩, ?_⟩, rfl⟩
        show q.pushed = q.popped ++ [_] ++ _
        rw [hp, hc, List.append_assoc]
        rfl

theorem Kept.step (hk : Kept q) (hmax : q.rbq.size.toNat ≤ 2 ^ 31 - 1) (hs : q.step m = some q') :
    Kept q' ∧ q'.rbq.size = q.rbq.size := by
  cases m with
  | start op =>
    unfold FiberqSys.step at hs
    dsimp only at hs
    split at hs
    · exact hk.run hmax hs
    · cases hs
  | resume =>
    obtain ⟨op, -, hs⟩ := Option.bind_eq_some_iff.1 hs
    exact hk.run hmax hs
  | other m =>
    unfold FiberqSys.step at hs
    dsimp only at hs
    split at hs
    · obtain ⟨s, -, rfl⟩ := Option.map_eq_some_iff.1 hs
      exact ⟨⟨hk.holding, hk.pushed⟩, rfl⟩
    · cases hs

theorem Kept.refinesFifo (hk : Kept q) : RefinesFifo q := by
  obtain ⟨⟨h, t, k, hr⟩, hp⟩ := hk
  have hlt := hr.head_lt
  have hlt' := hr.tail_lt
  refine ⟨?_, ?_, ?_, ?_, ?_, ?_⟩
  · rw [UInt64.le_iff_toNat_le, hr.ndat]
    exact hr.bounded
  · rw [hr.head]
    omega
  · rw [hr.tail]
    omega
  · rw [hr.head, hr.tail, hr.ndat, hr.place]
    rfl
  · rw [hp, List.drop_left]
  · exact ⟨_, hp.symm⟩

end FiberqSys

/-- **FIBERQ refines a bounded queue.** In every run from `name##_init`, by any number of producers
and consumers, the indices stay in the ring, the queue holds the elements pushed and not yet popped
in the order of the pushes, and the elements popped are a prefix of the elements pushed. -/
theorem reach_refinesFifo {s : Sched} {qsize : UInt64} {empt full : CondId} {zero : α}
    {q : FiberqSys α} (hpos : 1 ≤ qsize.toNat) (hmax : qsize.toNat ≤ 2 ^ 31 - 1)
    (h : Reach FiberqSys.step anyMove (.init s qsize empt full zero) q) :
    RefinesFifo q := by
  have hinit : Holding (Fiberq.init qsize empt full zero) 0 0 0 :=
    ⟨rfl, rfl, rfl, hpos, (Nat.zero_mod _).symm, Nat.zero_le _⟩
  have hkept : q.Kept ∧ q.rbq.size = qsize := by
    refine h.invariant (P := fun q => q.Kept ∧ q.rbq.size = qsize) ⟨⟨⟨0, 0, 0, hinit⟩, rfl⟩, rfl⟩ ?_
    intro q₁ q₂ m ⟨hk, hsize⟩ _ hs
    obtain ⟨hk', hsize'⟩ := hk.step (hsize ▸ hmax) hs
    exact ⟨hk', hsize'.trans hsize⟩
  exact hkept.1.refinesFifo

/-- A queue of one element. A consumer waits for data and a producer for room; both go on. -/
def handoverRun : List (FiberqMove Nat) :=
  (newTasks 2).map .other ++ [.other .schedulerStart, .other .schedulerPass,
    .other .schedulerExhaust, .start .pop, .start (.push 7), .start (.push 8), .resume,
    .other (.call .schedYield), .resume]

set_option maxRecDepth 4000 in
theorem handoverRun_refinesFifo :
    ∃ q, handoverRun.foldlM FiberqSys.step (.init (boot {}) 1 0 1 0) = some q ∧
      q.pushed = [7, 8] ∧ q.popped = [7] ∧ RefinesFifo q := by
  have hrun : ((handoverRun.foldlM FiberqSys.step (.init (boot {}) 1 0 1 0)).map fun q =>
      (q.pushed, q.popped)) = some ([7, 8], [7]) := by decide +kernel
  obtain ⟨q, hq, he⟩ := Option.map_eq_some_iff.1 hrun
  exact ⟨q, hq, congrArg Prod.fst he, congrArg Prod.snd he,
    reach_refinesFifo (by decide) (by decide) (Reach.of_foldlM hq)⟩

end Ptask.OneN
