import Mathlib.Data.List.TakeWhile
import Ptask.OneN.Timing

/-!
# One tick

What one call of `fiber_watchdog_tickle` is to do with a gap, over any watchdog list and not only the
reachable ones: take off the tasks that have at most the gap left, make them ready in the order of
their deadlines, and let exactly the gap pass for the others (`TickExact`). The loop compares every
entry with the whole gap, so it does this exactly when it expires nothing but entries that run out
at once, or the whole list, the gap covering it (`GapFits`).
-/

namespace Ptask

/-- The task is in a wait that a tick can end. -/
def States.timedWait (st : States) : Bool :=
  st.waitforSemph || st.waitforCondv || st.waitforEvent || st.inUsleep

end Ptask

namespace Ptask.OneN

open Ptask.Lib

namespace Sched

/-- A well-formed watchdog list: its tasks are each in a timed wait, none has a negative interval, and
none is ready. -/
structure TimerList (s : Sched) : Prop where
  nodup : s.wadoglist.Nodup
  nonneg : ∀ t ∈ s.wadoglist, 0 ≤ s.delta t
  waits : ∀ t ∈ s.wadoglist, (s.tcb t).state.timedWait = true
  scheduler : ∀ t ∈ s.wadoglist, (s.tcb t).scheduler = s.theMaintask
  blocked : ∀ t ∈ s.wadoglist, t ∉ s.readylist
  ready : ∃ l, s.readylist = l ++ [s.theMaintask] ∧ s.theMaintask ∉ l

/-- **A tick lets exactly the gap pass.** -/
structure TickExact (s : Sched) (gap : Int32) : Prop where
  /-- The tasks that have more than the gap left stay, in their order. -/
  removed : (s.fiberWatchdogTickle gap).wadoglist = s.wadoglist.filter fun t => gap.toInt < s.left t
  /-- The others become ready in the order of their deadlines. -/
  ready : ∀ l, s.readylist = l ++ [s.theMaintask] →
    (s.fiberWatchdogTickle gap).readylist =
      l ++ s.wadoglist.filter (fun t => s.left t ≤ gap.toInt) ++ [s.theMaintask]
  /-- Those that stay have the gap less left. -/
  left : ∀ t ∈ (s.fiberWatchdogTickle gap).wadoglist,
    (s.fiberWatchdogTickle gap).left t = s.left t - gap.toInt

/-- The entries in front of the first interval above the gap all run out at once; or no interval is
above the gap, and the gap covers their sum. -/
def GapFits (s : Sched) (gap : Int32) : Prop :=
  (∀ t ∈ s.wadoglist.takeWhile fun t => s.delta t ≤ gap, s.delta t = 0) ∨
    ((∀ t ∈ s.wadoglist, s.delta t ≤ gap) ∧ (s.wadoglist.map s.interval).sum ≤ gap.toInt)

variable {b : Boot} {s : Sched} {w t : TaskId} {gap : Int32}

/-! ## The loop -/

section

variable (s : Sched) (w : TaskId) (e : Call → Ev)

@[simp] theorem wadoglist_emitFor : (s.emitFor w e).wadoglist = s.wadoglist := by
  unfold emitFor
  split <;> rfl

@[simp] theorem readylist_emitFor : (s.emitFor w e).readylist = s.readylist := by
  unfold emitFor
  split <;> rfl

@[simp] theorem delta_emitFor : (s.emitFor w e).delta = s.delta := by
  unfold emitFor
  split <;> rfl

@[simp] theorem theMaintask_emitFor : (s.emitFor w e).theMaintask = s.theMaintask := by
  unfold emitFor
  split <;> rfl

@[simp] theorem tcb_emitFor : (s.emitFor w e).tcb = s.tcb := by
  unfold emitFor
  split <;> rfl

end

/-- An entry that has expired goes to the end of the tasks that are ready. -/
theorem tickleExpired_spec (hw : (s.tcb w).state.timedWait = true) (hr : w ∉ s.readylist) :
    (s.tickleExpired w).wadoglist = s.wadoglist.erase w ∧
      (s.tickleExpired w).readylist = insertBefore (s.tcb w).scheduler w s.readylist ∧
      (s.tickleExpired w).delta = s.delta ∧ (s.tickleExpired w).theMaintask = s.theMaintask ∧
      ∀ u, u ≠ w → (s.tickleExpired w).tcb u = s.tcb u := by
  have hst : ((s.tcb w).state.waitforSemph || (s.tcb w).state.waitforCondv ||
      (s.tcb w).state.waitforEvent || (s.tcb w).state.inUsleep) = true := hw
  unfold tickleExpired
  dsimp only
  split
  · -- a waiter on a semaphore or a condition variable also leaves the queue it is on
    refine ⟨?_, ?_, ?_, ?_, fun u hu => ?_⟩
    · simp [localReadyQProtectedInsertBefore, unlink, modState, modTcb]
    · simp [localReadyQProtectedInsertBefore, unlink, modState, modTcb, List.erase_of_not_mem hr]
    · simp [localReadyQProtectedInsertBefore, unlink, modState, modTcb]
    · simp [localReadyQProtectedInsertBefore, unlink, modState, modTcb]
    · simp [localReadyQProtectedInsertBefore, unlink, modState, modTcb, hu]
  · split
    · refine ⟨?_, ?_, ?_, ?_, fun u hu => ?_⟩ <;>
        simp [localReadyQProtectedInsertBefore, modState, modTcb, *]
    · split
      · refine ⟨?_, ?_, ?_, ?_, fun u hu => ?_⟩ <;>
          simp [localReadyQProtectedInsertBefore, modState, modTcb, *]
      · next h1 h2 h3 =>
        simp only [modState, modTcb, Function.update_self, Bool.or_eq_true, not_or,
          Bool.not_eq_true] at h1 h2 h3
        rw [h1.1, h1.2, h2, h3] at hst
        cases hst

theorem TimerList.expired (h : TimerList s) {rest : List TaskId} (hw : s.wadoglist = w :: rest) :
    TimerList (s.tickleExpired w) ∧ (s.tickleExpired w).wadoglist = rest := by
  have hmem : w ∈ s.wadoglist := hw ▸ List.mem_cons_self
  obtain ⟨h1, h2, h3, h4, h5⟩ := tickleExpired_spec (h.waits w hmem) (h.blocked w hmem)
  have hrest : (s.tickleExpired w).wadoglist = rest := by rw [h1, hw, List.erase_cons_head]
  have hnd : (w :: rest).Nodup := hw ▸ h.nodup
  have hin (t : TaskId) (ht : t ∈ rest) : t ≠ w ∧ t ∈ s.wadoglist :=
    ⟨fun e => (List.nodup_cons.1 hnd).1 (e ▸ ht), hw ▸ List.mem_cons_of_mem _ ht⟩
  refine ⟨⟨hrest ▸ (List.nodup_cons.1 hnd).2, ?_, ?_, ?_, ?_, ?_⟩, hrest⟩
  · rw [hrest, h3]
    intro t ht
    exact h.nonneg t (hin t ht).2
  · rw [hrest]
    intro t ht
    rw [h5 t (hin t ht).1]
    exact h.waits t (hin t ht).2
  · rw [hrest]
    intro t ht
    rw [h5 t (hin t ht).1, h4]
    exact h.scheduler t (hin t ht).2
  · rw [hrest]
    intro t ht
    rw [h2, mem_insertBefore, not_or]
    exact ⟨(hin t ht).1, h.blocked t (hin t ht).2⟩
  · obtain ⟨l, hl, hm⟩ := h.ready
    have hmain : s.theMaintask ≠ w := by
      intro e
      apply h.blocked w hmem
      rw [hl, e]
      simp
    refine ⟨l ++ [w], ?_, ?_⟩
    · rw [h2, h4, h.scheduler w hmem, hl, insertBefore_append_singleton hm, List.append_assoc]
      rfl
    · rw [h4]
      simp [hm, hmain]

/-- What the loop does: it expires the entries in front of the first interval above the gap, and
shortens that one. -/
theorem tickleLoop_spec : ∀ {l r : List TaskId} {s : Sched}, TimerList s → s.wadoglist = l →
    s.readylist = r ++ [s.theMaintask] →
    (tickleLoop gap l s).wadoglist = l.dropWhile (fun t => s.delta t ≤ gap) ∧
      (tickleLoop gap l s).readylist =
        r ++ l.takeWhile (fun t => s.delta t ≤ gap) ++ [s.theMaintask] ∧
      (tickleLoop gap l s).delta = (match l.dropWhile (fun t => s.delta t ≤ gap) with
        | [] => s.delta
        | w :: _ => Function.update s.delta w (s.delta w - gap))
  | [], r, s, _, hw, hr => ⟨hw, by simpa [tickleLoop] using hr, rfl⟩
  | w :: l, r, s, h, hw, hr => by
    rw [tickleLoop]
    by_cases hgap : s.delta w ≤ gap
    · have hmem : w ∈ s.wadoglist := hw ▸ List.mem_cons_self
      obtain ⟨-, h2, h3, h4, -⟩ := tickleExpired_spec (h.waits w hmem) (h.blocked w hmem)
      obtain ⟨hlist, hrest⟩ := h.expired hw
      have hm : s.theMaintask ∉ r := by
        obtain ⟨l', hl', hm⟩ := h.ready
        rw [List.append_cancel_right (hr.symm.trans hl')]
        exact hm
      have hr' : (s.tickleExpired w).readylist =
          (r ++ [w]) ++ [(s.tickleExpired w).theMaintask] := by
        rw [h2, h4, h.scheduler w hmem, hr, insertBefore_append_singleton hm, List.append_assoc]
        rfl
      obtain ⟨i1, i2, i3⟩ := tickleLoop_spec hlist hrest hr'
      rw [h3] at i1 i2 i3
      rw [h4] at i2
      rw [if_pos hgap, List.dropWhile_cons_of_pos (by simpa using hgap),
        List.takeWhile_cons_of_pos (by simpa using hgap)]
      exact ⟨i1, by rw [i2]; simp, i3⟩
    · rw [if_neg hgap, List.dropWhile_cons_of_neg (by simpa using hgap),
        List.takeWhile_cons_of_neg (by simpa using hgap)]
      exact ⟨hw, by simpa using hr, rfl⟩

/-! ## Exact ticks -/

/-- **A tick is exact precisely when the gap fits the list.** -/
theorem tickExact_iff (h : TimerList s) (hg : 0 < gap) : TickExact s gap ↔ GapFits s gap := by
  obtain ⟨r, hr, -⟩ := h.ready
  obtain ⟨h1, h2, h3⟩ := @tickleLoop_spec gap _ _ _ h rfl hr
  have hsplit : (s.wadoglist.takeWhile fun t => s.delta t ≤ gap) ++
      s.wadoglist.dropWhile (fun t => s.delta t ≤ gap) = s.wadoglist :=
    List.takeWhile_append_dropWhile
  have hhead : ∀ a q, s.wadoglist.dropWhile (fun t => s.delta t ≤ gap) = a :: q → gap < s.delta a := by
    intro a q haq
    have := List.head?_dropWhile_not (fun t => decide (s.delta t ≤ gap)) s.wadoglist
    rw [haq] at this
    simpa using this
  have hfits : GapFits s gap ↔
      (∀ t ∈ s.wadoglist.takeWhile fun t => s.delta t ≤ gap, s.interval t = 0) ∨
        (s.wadoglist.dropWhile (fun t => s.delta t ≤ gap) = [] ∧
          ((s.wadoglist.takeWhile fun t => s.delta t ≤ gap).map s.interval).sum ≤ gap.toInt) := by
    have hz (t : TaskId) : s.interval t = 0 ↔ s.delta t = 0 := by
      rw [interval, ← Int32.toInt_zero, Int32.toInt_inj]
    have hall : (∀ t ∈ s.wadoglist, s.delta t ≤ gap) ↔
        s.wadoglist.dropWhile (fun t => s.delta t ≤ gap) = [] := by
      rw [List.dropWhile_eq_nil_iff]
      simp
    unfold GapFits
    simp only [hz, hall]
    refine or_congr_right (and_congr_right fun hnil => ?_)
    rw [hnil, List.append_nil] at hsplit
    rw [hsplit]
  have hex : TickExact s gap ↔
      (s.wadoglist.filter (fun t => gap.toInt < s.left t) =
          s.wadoglist.dropWhile (fun t => s.delta t ≤ gap) ∧
        s.wadoglist.filter (fun t => s.left t ≤ gap.toInt) =
          s.wadoglist.takeWhile (fun t => s.delta t ≤ gap) ∧
        ∀ t ∈ s.wadoglist.dropWhile (fun t => s.delta t ≤ gap),
          DeltaList.remaining (s.fiberWatchdogTickle gap).interval
            (s.wadoglist.dropWhile fun t => s.delta t ≤ gap) t = s.left t - gap.toInt) := by
    have h1 : (s.fiberWatchdogTickle gap).wadoglist = _ := h1
    have h2 : (s.fiberWatchdogTickle gap).readylist = _ := h2
    constructor
    · rintro ⟨e1, e2, e3⟩
      refine ⟨e1.symm.trans h1, ?_, fun t ht => ?_⟩
      · have := (e2 r hr).symm.trans h2
        simpa using this
      · have := e3 t (h1.symm ▸ ht)
        rwa [Sched.left, h1] at this
    · rintro ⟨e1, e2, e3⟩
      refine ⟨h1.trans e1.symm, fun l hl => ?_, fun t ht => ?_⟩
      · obtain rfl := List.append_cancel_right (hl.symm.trans hr)
        rw [h2, e2]
      · rw [h1] at ht
        rw [Sched.left, h1]
        exact e3 t ht
  have hpos : (0 : Int) ≤ gap.toInt := Int32.le_iff_toInt_le.1 (Int32.le_of_lt hg)
  have htick := DeltaList.tick_iff (δ := s.interval) (ε := (s.fiberWatchdogTickle gap).interval)
    (p := s.wadoglist.takeWhile fun t => s.delta t ≤ gap)
    (r := s.wadoglist.dropWhile fun t => s.delta t ≤ gap) (g := gap.toInt)
    (by rw [hsplit]; exact h.nodup)
    (by rw [hsplit]; exact fun t ht => Int32.le_iff_toInt_le.1 (h.nonneg t ht)) hpos (by
      intro a q haq
      have hlt := hhead a q haq
      refine ⟨Int32.lt_iff_toInt_lt.1 hlt, ?_⟩
      have hsub : (s.delta a - gap).toInt = s.interval a - gap.toInt :=
        Int32.toInt_sub_of_le _ _ (Int32.le_of_lt hg) (Int32.le_of_lt hlt)
      have hd : (s.fiberWatchdogTickle gap).delta =
          Function.update s.delta a (s.delta a - gap) := by
        refine h3.trans ?_
        rw [haq]
      unfold interval
      rw [hd, toInt_update, hsub]
      rfl)
  rw [hsplit] at htick
  exact hex.trans (htick.trans hfits.symm)

/-- In a reachable state the watchdog list is well-formed, up to the sign of its intervals. -/
theorem Inv.timerList (h : Inv b s) (hn : ∀ t ∈ s.wadoglist, 0 ≤ s.delta t) : TimerList s := by
  have hw (t : TaskId) (ht : t ∈ s.wadoglist) : ∃ c, s.Waits t c ∧ c.timed = true := by
    obtain ⟨c, hw, hc, -⟩ := (h.stand t).waits_of_dog ht
    exact ⟨c, hw, hc⟩
  refine ⟨h.dogs, hn, ?_, ?_, ?_, ?_⟩
  · intro t ht
    obtain ⟨c, hw, hc⟩ := hw t ht
    rw [hw.state]
    cases c <;> first | rfl | cases hc
  · intro t ht
    obtain ⟨c, hw, -⟩ := hw t ht
    exact hw.scheduler
  · intro t ht
    obtain ⟨c, hw, -⟩ := hw t ht
    exact hw.not_ready
  · obtain ⟨l, hl⟩ := h.ready
    have hnd : (l ++ [s.theMaintask]).Nodup := hl ▸ h.distinct .ready
    exact ⟨l, hl, fun hm => (List.nodup_append.1 hnd).2.2 _ hm _ (List.mem_singleton.2 rfl) rfl⟩

end Sched

open Sched

set_option maxRecDepth 4000 in
/-- The tick that ends the two sleeps of `sleepRun`. -/
theorem sleepRun_tickExact : ∃ s, (sleepRun.take 14).foldlM Sched.step (boot {}) = some s ∧
    s.wadoglist = [100, 163] ∧ TickExact s 6 := by
  have hrun : (((sleepRun.take 14).foldlM Sched.step (boot {})).map fun s =>
      (s.wadoglist, s.wadoglist.map s.delta)) = some ([100, 163], [6, 0]) := by
    decide +kernel
  obtain ⟨s, hs, he⟩ := Option.map_eq_some_iff.1 hrun
  obtain ⟨hl, hd⟩ := Prod.ext_iff.1 he
  dsimp only at hl hd
  rw [hl] at hd
  obtain ⟨h1, h2⟩ : s.delta 100 = 6 ∧ s.delta 163 = 0 := by simpa using hd
  have hn : ∀ t ∈ s.wadoglist, 0 ≤ s.delta t := by
    rw [hl]
    simp [h1, h2]
  have hlist : TimerList s := (Reachable.inv (Reach.of_foldlM hs)).timerList hn
  refine ⟨s, hs, hl, (tickExact_iff hlist (by decide)).2 (.inr ⟨?_, ?_⟩)⟩
  · rw [hl]
    simp [h1, h2]
  · rw [hl]
    simp [interval, h1, h2]

set_option maxRecDepth 4000 in
/-- In `gapRun` one task has five microseconds left and another one ten; a tick with a gap of five
ends both waits. -/
theorem gapRun_not_tickExact : ∃ s, (gapRun.take 10).foldlM Sched.step (boot {}) = some s ∧
    Reachable {} s ∧ TimerList s ∧ s.left 163 = 5 ∧ s.left 100 = 10 ∧ ¬TickExact s 5 := by
  have hrun : (((gapRun.take 10).foldlM Sched.step (boot {})).map fun s =>
      (s.wadoglist, s.wadoglist.map s.delta, (s.fiberWatchdogTickle 5).wadoglist)) =
        some ([163, 100], [5, 5], []) := by
    decide +kernel
  obtain ⟨s, hs, he⟩ := Option.map_eq_some_iff.1 hrun
  obtain ⟨hl, hd, htick⟩ : s.wadoglist = [163, 100] ∧ s.wadoglist.map s.delta = [5, 5] ∧
      (s.fiberWatchdogTickle 5).wadoglist = [] := by
    simpa [Prod.ext_iff] using he
  rw [hl] at hd
  obtain ⟨h1, h2⟩ : s.delta 163 = 5 ∧ s.delta 100 = 5 := by simpa using hd
  have hreach : Reachable {} s := Reach.of_foldlM hs
  have hn : ∀ t ∈ s.wadoglist, 0 ≤ s.delta t := by
    rw [hl]
    simp [h1, h2]
  have hleft : s.left 163 = 5 ∧ s.left 100 = 10 := by
    rw [left, left, hl]
    simp [DeltaList.remaining, interval, h1, h2]
  refine ⟨s, hs, hreach, hreach.inv.timerList hn, hleft.1, hleft.2, ?_⟩
  intro hex
  have hrem := hex.removed
  rw [htick, hl] at hrem
  have hm : 100 ∈ [163, 100].filter fun t => (5 : Int32).toInt < s.left t := by
    rw [List.mem_filter]
    refine ⟨by decide, decide_eq_true ?_⟩
    rw [hleft.2]
    decide
  rw [← hrem] at hm
  exact absurd hm List.not_mem_nil

end Ptask.OneN
