import Ptask.OneN.Intervals

/-!
# Insertions and removals of timers

What `fiber_watchdog_insert` and `fiber_watchdog_remove` do to a watchdog list, over any list whose
intervals are not negative and whose deadlines fit into an `int`: an insertion puts one task among
the others, with exactly its timeout left, a removal takes one task out, and both leave the order
and the deadlines of all others alone. So after any sequence of them a task has left what it was
inserted with.
-/

namespace Ptask.OneN

open Ptask.Lib

namespace Sched

variable {s s' : Sched} {t x : TaskId} {timeout : Int32}

/-- A watchdog list: `STATES_WAIT_TIMEOUTB` marks its tasks, each of which is on it once. -/
structure Deadlines (s : Sched) : Prop extends Timers s where
  nodup : s.wadoglist.Nodup
  marked : ∀ t, (s.tcb t).state.waitTimeoutb = true ↔ t ∈ s.wadoglist

/-- The tasks of the list are in the order of their deadlines. -/
def Ordered (s : Sched) : Prop := s.wadoglist.Pairwise fun t u => s.left t ≤ s.left u

/-- The list `s'` is the list `s` and the task `x`, which has `timeout` left. -/
structure Inserted (s s' : Sched) (x : TaskId) (timeout : Int32) : Prop where
  mem : x ∈ s'.wadoglist
  others : s'.wadoglist.erase x = s.wadoglist
  own : s'.left x = timeout.toInt
  kept : ∀ t ∈ s.wadoglist, s'.left t = s.left t

/-- The list `s'` is the list `s` without the task `x`. -/
structure Removed (s s' : Sched) (x : TaskId) : Prop where
  others : s'.wadoglist = s.wadoglist.erase x
  kept : ∀ t ∈ s'.wadoglist, s'.left t = s.left t

theorem Deadlines.ordered (h : Deadlines s) : Ordered s :=
  DeltaList.pairwise_remaining h.nodup h.nonneg

/-! ## Insertion -/

/-- What the callers of `fiber_watchdog_insert` do. -/
def insertTimer (s : Sched) (t : TaskId) (timeout : Int32) : Sched :=
  { s with delta := Function.update s.delta t timeout }.fiberWatchdogInsert t

theorem insertTimer_eq (h : Deadlines s) (hx : x ∉ s.wadoglist) (hpos : 0 ≤ timeout) :
    (s.insertTimer x timeout).wadoglist =
        (DeltaList.insert x timeout.toInt s.wadoglist
          (Function.update s.interval x timeout.toInt)).1 ∧
      (s.insertTimer x timeout).interval =
        (DeltaList.insert x timeout.toInt s.wadoglist
          (Function.update s.interval x timeout.toInt)).2 ∧
      ∀ t, ((s.insertTimer x timeout).tcb t).state.waitTimeoutb =
        (decide (t = x) || (s.tcb t).state.waitTimeoutb) := by
  have hbit : (s.tcb x).state.waitTimeoutb = false := by
    rw [← Bool.not_eq_true, h.marked]
    exact hx
  have hn (u : TaskId) (hu : u ∈ s.wadoglist) : 0 ≤ Function.update s.delta x timeout u := by
    have hne : u ≠ x := fun e => hx (e ▸ hu)
    rw [Function.update_of_ne hne]
    exact Int32.le_iff_toInt_le.2 (h.nonneg u hu)
  obtain ⟨h1, h2⟩ := watchdogLoop_eq_insert (x := x) h.nodup hpos hn
  rw [toInt_update] at h1 h2
  have he : s.insertTimer x timeout =
      { s with
        delta := (watchdogLoop x timeout s.wadoglist (Function.update s.delta x timeout)).2
        wadoglist := (watchdogLoop x timeout s.wadoglist (Function.update s.delta x timeout)).1
        tcb := Function.update s.tcb x { s.tcb x with
          state := { (s.tcb x).state with waitTimeoutb := true } } } := by
    simp [insertTimer, fiberWatchdogInsert, hbit, modState, modTcb]
  rw [he]
  refine ⟨h1, h2, fun t => ?_⟩
  by_cases ht : t = x
  · subst ht
    simp
  · simp [ht]

/-- **An insertion leaves every other deadline alone.** -/
theorem Deadlines.insert (h : Deadlines s) (hx : x ∉ s.wadoglist) (hpos : 0 ≤ timeout) :
    Deadlines (s.insertTimer x timeout) ∧ Inserted s (s.insertTimer x timeout) x timeout := by
  obtain ⟨hlist, hinterval, hbits⟩ := insertTimer_eq h hx hpos
  have hkeep (t : TaskId) (ht : t ∈ s.wadoglist) :
      Function.update s.interval x timeout.toInt t = s.interval t := by
    have hne : t ≠ x := fun e => hx (e ▸ ht)
    rw [Function.update_of_ne hne]
  have hn (t : TaskId) (ht : t ∈ s.wadoglist) :
      0 ≤ Function.update s.interval x timeout.toInt t := hkeep t ht ▸ h.nonneg t ht
  have hmem (t : TaskId) : t ∈ (s.insertTimer x timeout).wadoglist ↔ t = x ∨ t ∈ s.wadoglist := by
    rw [hlist]
    exact DeltaList.mem_insert
  have hown : (s.insertTimer x timeout).left x = timeout.toInt := by
    rw [left, hlist, hinterval]
    exact DeltaList.remaining_insert_self h.nodup hx
  have hothers (t : TaskId) (ht : t ∈ s.wadoglist) :
      (s.insertTimer x timeout).left t = s.left t := by
    rw [left, hlist, hinterval, DeltaList.remaining_insert_of_ne h.nodup hx ht]
    exact DeltaList.remaining_congr hkeep
  refine ⟨⟨⟨?_, fun t ht => ?_⟩, ?_, fun t => ?_⟩, (hmem x).2 (.inl rfl), ?_, hown, hothers⟩
  · rw [hlist, hinterval]
    exact DeltaList.insert_nonneg h.nodup hx (Int32.le_iff_toInt_le.1 hpos) hn
  · rcases (hmem t).1 ht with rfl | ht
    · rw [hown]
      exact Int32.toInt_lt _
    · rw [hothers t ht]
      exact h.small t ht
  · rw [hlist]
    exact DeltaList.insert_nodup h.nodup hx
  · rw [hbits, hmem, ← h.marked]
    simp
  · rw [hlist]
    exact DeltaList.insert_erase hx

/-! ## Removal -/

/-- **A removal leaves every other deadline alone.** -/
theorem Deadlines.remove (h : Deadlines s) (hx : x ∈ s.wadoglist) :
    Deadlines (s.fiberWatchdogRemove x) ∧ Removed s (s.fiberWatchdogRemove x) x := by
  have hbit : (s.tcb x).state.waitTimeoutb = true := (h.marked x).2 hx
  obtain ⟨hdelta, hlist⟩ := delta_fiberWatchdogRemove hbit
  obtain ⟨htimers, hleft⟩ := h.grant h.nodup x (s.tcb x) []
  have hkept (t : TaskId) (ht : t ∈ (s.fiberWatchdogRemove x).wadoglist) :
      (s.fiberWatchdogRemove x).left t = s.left t := by
    rw [left_congr (s := s.grant x (s.tcb x) []) hdelta hlist]
    rw [hlist] at ht
    exact (hleft t ht).2
  refine ⟨⟨htimers.congr hdelta hlist, hlist ▸ h.nodup.erase x, fun t => ?_⟩, hlist, hkept⟩
  rw [hlist, h.nodup.mem_erase_iff, ← h.marked, bit_fiberWatchdogRemove hbit]
  simp [and_comm]

/-! ## Sequences -/

inductive TimerOp
  | insert (t : TaskId) (timeout : Int32)
  | remove (t : TaskId)
deriving DecidableEq, Repr

/-- A task that is not on the list is inserted with a timeout that is not negative; a task on the list
is removed. -/
def timerOp (s : Sched) : TimerOp → Option Sched
  | .insert t timeout =>
    if t ∉ s.wadoglist ∧ 0 ≤ timeout then some (s.insertTimer t timeout) else none
  | .remove t => if t ∈ s.wadoglist then some (s.fiberWatchdogRemove t) else none

/-- What an operation is to do. -/
def TimerOp.Exact (s s' : Sched) : TimerOp → Prop
  | .insert t timeout => Inserted s s' t timeout
  | .remove t => Removed s s' t

/-- What was last asked for each task. -/
def TimerOp.asked (f : TaskId → Int) : TimerOp → TaskId → Int
  | .insert t timeout => Function.update f t timeout.toInt
  | .remove _ => f

theorem Deadlines.op {o : TimerOp} (h : Deadlines s) (hs : s.timerOp o = some s') :
    Deadlines s' ∧ o.Exact s s' := by
  cases o with
  | insert t timeout =>
    simp only [timerOp] at hs
    split at hs
    · next hc =>
      obtain rfl := Option.some.inj hs
      exact h.insert hc.1 hc.2
    · cases hs
  | remove t =>
    simp only [timerOp] at hs
    split at hs
    · next hc =>
      obtain rfl := Option.some.inj hs
      exact h.remove hc
    · cases hs

/-- One operation changes what is left for a task exactly as it changes what was asked for it. -/
theorem TimerOp.Exact.left {o : TimerOp} (he : o.Exact s s') (f : TaskId → Int)
    (hf : ∀ t ∈ s.wadoglist, s.left t = f t) : ∀ t ∈ s'.wadoglist, s'.left t = o.asked f t := by
  intro t ht
  cases o with
  | insert x timeout =>
    by_cases hx : t = x
    · subst hx
      rw [he.own, TimerOp.asked, Function.update_self]
    · have hold : t ∈ s.wadoglist := he.others ▸ (List.mem_erase_of_ne hx).2 ht
      rw [he.kept t hold, hf t hold, TimerOp.asked, Function.update_of_ne hx]
  | remove x =>
    have hold : t ∈ s.wadoglist := List.mem_of_mem_erase (he.others ▸ ht)
    rw [he.kept t ht, hf t hold]
    rfl

theorem Deadlines.ops {os : List TimerOp} (h : Deadlines s) (f : TaskId → Int)
    (hf : ∀ t ∈ s.wadoglist, s.left t = f t) (hs : os.foldlM timerOp s = some s') :
    Deadlines s' ∧ ∀ t ∈ s'.wadoglist, s'.left t = os.foldl TimerOp.asked f t := by
  induction os generalizing s f with
  | nil =>
    obtain rfl := Option.some.inj hs
    exact ⟨h, hf⟩
  | cons o os ih =>
    rw [List.foldlM_cons] at hs
    obtain ⟨s₁, h1, hs⟩ := Option.bind_eq_some_iff.1 hs
    obtain ⟨hd, he⟩ := h.op h1
    exact ih hd (o.asked f) (he.left f hf) hs

/-- **Insertions and removals leave every other deadline alone.** Over any sequence of them the list
stays in the order of its deadlines, each operation does to it exactly what it is for, and every task
on the list has left what it was last inserted with, or what it had at the start. -/
theorem timerOps_exact {s₀ : Sched} {os : List TimerOp} (h₀ : Deadlines s₀)
    (hs : os.foldlM timerOp s₀ = some s) :
    Deadlines s ∧ Ordered s ∧ (∀ t ∈ s.wadoglist, s.left t = os.foldl TimerOp.asked s₀.left t) ∧
      ∀ o s', s.timerOp o = some s' → Deadlines s' ∧ Ordered s' ∧ o.Exact s s' := by
  obtain ⟨hd, hleft⟩ := h₀.ops s₀.left (fun _ _ => rfl) hs
  refine ⟨hd, hd.ordered, hleft, fun o s' ho => ?_⟩
  obtain ⟨hd', he⟩ := hd.op ho
  exact ⟨hd', hd'.ordered, he⟩

/-- Two equal deadlines, one before them that is taken away again, and one that runs out at once. -/
def timerOps : List TimerOp :=
  [.insert 5 10, .insert 6 4, .insert 7 10, .remove 6, .insert 8 0]

theorem timerOps_boot_exact : ∃ s, timerOps.foldlM timerOp (boot {}) = some s ∧
    s.wadoglist = [8, 5, 7] ∧ ∀ t ∈ s.wadoglist, s.left t = timerOps.foldl TimerOp.asked 0 t := by
  have hrun : (timerOps.foldlM timerOp (boot {})).map wadoglist = some [8, 5, 7] := by
    decide +kernel
  obtain ⟨s, hs, hl⟩ := Option.map_eq_some_iff.1 hrun
  have h₀ : Deadlines (boot {}) := by
    refine ⟨⟨nofun, nofun⟩, List.nodup_nil, fun t => ?_⟩
    by_cases ht : t = 0 <;> simp [boot, ht, States.ready]
  have hleft := (timerOps_exact h₀ hs).2.2.1
  exact ⟨s, hs, hl, hleft⟩

end Sched

end Ptask.OneN
