import Mathlib.Algebra.BigOperators.Fin
import Mathlib.Algebra.BigOperators.Ring.Finset
import Mathlib.Algebra.Order.BigOperators.Group.Finset
import Ptask.MN.Moves

/-!
# The accounts of the service threads

Which threads are counted in `mServiceThreads`, and what a thread that has left the loop of
`fiber_scheduler` still counts. When no thread is in the middle of an update, the counters add up;
and then some thread passes the take test while a global ready list has a task.
-/

namespace Ptask.MN

open Ptask.Lib

variable {s s' : Sys} {m : Move} {T U : ThreadId} {a : Act} {t : TaskId} {g : Group}

/-! ## Threads that come and go -/

/-- The thread has left the loop and counts at most its maintask. -/
structure Departed (s : Sys) (T : ThreadId) : Prop where
  op : (s.thread T).op = .idle ∨ (s.thread T).op.quits = true
  current : (s.thread T).op = .idle → (s.thread T).currentTask = (s.thread T).theMaintask
  counted : ∀ t, (s.place t).countedAt = some T →
    t = (s.thread T).theMaintask ∧ ((s.thread T).op = .idle ∨ (s.thread T).op = .exiting true)

/-- The service threads. -/
structure Roll (s : Sys) : Prop where
  joined : ∀ T, T ∈ s.joined ↔ (s.thread T).op ≠ .absent
  service : s.mServiceThreads = (s.joined.filter fun T => (s.thread T).op ≠ .gone).card
  counted : ∀ t T, (s.place t).countedAt = some T → T ∈ s.joined
  quits : ∀ T, (s.thread T).op.quits = true → (s.thread T).loop = .left
  left : ∀ T, (s.thread T).loop = .left → Departed s T

namespace Change

theorem joined (hc : Change s s' T a t) (h : Roll s) :
    ∀ U, U ∈ s'.joined ↔ (s'.thread U).op ≠ .absent := by
  intro U
  by_cases hU : U = T
  · subst hU
    rcases hc.roster with ⟨hj, -, ha, -⟩ | ⟨-, hop', hj, -⟩ | ⟨hop, hop', hj, -⟩
    · rw [hj, h.joined, Ne, Ne, ha]
    · simp [hj, hop']
    · simp [hj, h.joined, hop, hop']
  · have hmem : U ∈ s'.joined ↔ U ∈ s.joined := by
      rcases hc.roster with ⟨hj, -⟩ | ⟨-, -, hj, -⟩ | ⟨-, -, hj, -⟩
      · rw [hj]
      · rw [hj, Finset.mem_insert, or_iff_right hU]
      · rw [hj]
    rw [hmem, h.joined, (hc.thread U hU).1]

theorem service (hc : Change s s' T a t) (h : Roll s) :
    s'.mServiceThreads = (s'.joined.filter fun T => (s'.thread T).op ≠ .gone).card := by
  have hother (U : ThreadId) (hU : U ≠ T) :
      (s'.thread U).op ≠ .gone ↔ (s.thread U).op ≠ .gone := by rw [(hc.thread U hU).1]
  rcases hc.roster with ⟨hj, hm, -, hg⟩ | ⟨hop, hop', hj, hm⟩ | ⟨hop, hop', hj, hm⟩
  · have hsame : ∀ U ∈ s.joined, ((s'.thread U).op ≠ .gone ↔ (s.thread U).op ≠ .gone) := by
      intro U _
      by_cases hU : U = T
      · rw [hU, Ne, Ne, hg]
      · exact hother U hU
    rw [hm, hj, Finset.filter_congr hsame, h.service]
  · have hT : T ∉ s.joined := by simp [h.joined, hop]
    have hsame : ∀ U ∈ s.joined, ((s'.thread U).op ≠ .gone ↔ (s.thread U).op ≠ .gone) := by
      intro U hU
      exact hother U (ne_of_mem_of_not_mem hU hT)
    rw [hm, hj, Finset.filter_insert, if_pos (by simp [hop']), Finset.filter_congr hsame,
      Finset.card_insert_of_notMem (by simp [hT]), h.service]
    push_cast
    rfl
  · have hT : T ∈ s.joined := by simp [h.joined, hop]
    have hrest : (s'.joined.filter fun T => (s'.thread T).op ≠ .gone) =
        (s.joined.filter fun T => (s.thread T).op ≠ .gone).erase T := by
      ext U
      rw [hj, Finset.mem_filter, Finset.mem_erase, Finset.mem_filter]
      by_cases hU : U = T
      · simp [hU, hop']
      · simp [hU, hother U hU]
    have hmem : T ∈ s.joined.filter fun T => (s.thread T).op ≠ .gone := by simp [hT, hop]
    have hpos := Finset.card_pos.2 ⟨T, hmem⟩
    rw [hm, hrest, Finset.card_erase_of_mem hmem, h.service]
    omega

/-- A task that a step puts under the count of a thread was there before, or the thread itself has
done it. -/
theorem countedAt (hc : Change s s' T a t) {u : TaskId} (hu : (s'.place u).countedAt = some U) :
    (s.place u).countedAt = some U ∨ T = U ∧ (s.thread T).op.counts = true := by
  by_cases hut : u = t
  · subst hut
    exact hc.counts U hu
  · exact .inl (hc.place u hut ▸ hu)

end Change

/-- What a thread that has left the loop still does. -/
theorem step_of_left (hd : Departed s T) (hl : (s.thread T).loop = .left)
    (hs : s.step ⟨T, a⟩ = some s') :
    (s.thread T).op = .idle ∧ s' = s.cppTaskmain T ∨
      (s.thread T).op.quits = true ∧ s.go T = some s' := by
  rcases hd.op with hop | hop
  · have hcur := hd.current hop
    have hin (pcs : List LoopPc) (hp : LoopPc.left ∉ pcs) : s.inCode T pcs = false := by
      simp [Sys.inCode, hop, hcur, hl, hp]
    have hlo (pc : LoopPc) (hp : pc ≠ .left) : s.inLoop T pc = false := by
      simp [Sys.inLoop, hop, hcur, hl, hp.symm]
    cases a <;> simp [Sys.step, hop, hin, hlo] at hs
    · exact .inl ⟨hop, hs.2.symm⟩
    · simp [Sys.go, hop] at hs
  · refine .inr ⟨hop, ?_⟩
    have hne : (s.thread T).op ≠ .idle ∧ (s.thread T).op ≠ .blocked ∧ (s.thread T).op ≠ .absent ∧
        (s.thread T).op ≠ .joined := by
      refine ⟨?_, ?_, ?_, ?_⟩ <;> rintro he <;> simp [he, Op.quits] at hop
    obtain ⟨hidle, hblocked, habsent, hjoined⟩ := hne
    cases a <;> simp [Sys.step, Sys.inCode, Sys.inLoop, hidle, hblocked, habsent, hjoined] at hs
    exact hs

theorem Departed.exit (h : Shape s) (hd : Departed s T) (hop : (s.thread T).op = .idle) :
    Departed (s.cppTaskmain T) T := by
  have hcur := hd.current hop
  have hop' : ((s.cppTaskmain T).thread T).op = .exiting true := by
    simp [Sys.cppTaskmain, Sys.setOp, hcur]
  refine ⟨.inr ?_, ?_, ?_⟩
  · simp [hop', Op.quits]
  · simp [hop']
  · intro u hu
    refine ⟨?_, .inr hop'⟩
    have hu' := (h.cppTaskmain_change hop).countedAt hu
    have hmain : ((s.cppTaskmain T).thread T).theMaintask = (s.thread T).theMaintask := by
      simp [Sys.cppTaskmain, Sys.setOp]
    rw [hmain]
    rcases hu' with hu' | ⟨-, hcounts⟩
    · exact (hd.counted u hu').1
    · simp [hop, Op.counts] at hcounts

theorem Departed.go (h : Shape s) (hd : Departed s T) (hop : (s.thread T).op.quits = true)
    (hs : s.go T = some s') : Departed s' T := by
  -- from the second decrement on, the thread counts nothing
  have hnone (hq : (s'.thread T).op.quits = true)
      (hn : ∀ u, (s'.place u).countedAt = some T → (s.place u).countedAt = some T →
        (s.thread T).op ≠ .exiting true) : Departed s' T := by
    obtain ⟨t, hc⟩ := h.go_change (a := .go) hs
    refine ⟨.inr hq, ?_, ?_⟩
    · intro he
      simp [he, Op.quits] at hq
    · intro u hu
      rcases hc.countedAt hu with hu' | ⟨-, hcounts⟩
      · rcases (hd.counted u hu').2 with he | he
        · simp [he, Op.quits] at hop
        · exact absurd he (hn u hu hu')
      · cases hop' : (s.thread T).op <;> simp [hop', Op.quits, Op.counts] at hop hcounts
  cases hop' : (s.thread T).op with
  | exiting b =>
    cases b with
    | true =>
      have hh : (s.thread T).held = some (s.thread T).currentTask := by simp [Thread.held, hop']
      have hp : s.place (s.thread T).currentTask = .exiting T := by
        simpa [Thread.Stage, hop'] using (h.threads T).stage _ hh
      have hmain := ((h.threads T).exits true (.inl hop')).1 rfl
      have hsch := h.home (s.thread T).currentTask T (by simp [hp, Place.home])
      simp only [Sys.go, hop', hsch, Option.map_some, Option.some.injEq] at hs
      apply hnone
      · simp [← hs, Sys.setOp, Op.quits]
      · intro u hu hu'
        have he := (hd.counted u hu').1
        rw [← hs] at hu
        simp [Sys.setOp, he, hmain, Place.countedAt] at hu
    | false => simp [hop', Op.quits] at hop
  | extracting b =>
    cases b with
    | true =>
      have hh : (s.thread T).held = some (s.thread T).currentTask := by simp [Thread.held, hop']
      have hp : s.place (s.thread T).currentTask = .leaving T := by
        simpa [Thread.Stage, hop'] using (h.threads T).stage _ hh
      have hsch := h.home (s.thread T).currentTask T (by simp [hp, Place.home])
      simp only [Sys.go, hop', hsch, Option.map_some, Option.some.injEq] at hs
      apply hnone
      · simp [← hs, Sys.setOp, Op.quits]
      · simp [hop']
    | false => simp [hop', Op.quits] at hop
  | stopped =>
    simp only [Sys.go, hop', Option.some.injEq] at hs
    apply hnone
    · simp [← hs, Sys.setOp, Op.quits]
    · simp [hop']
  | gone => simp [Sys.go, hop'] at hs
  | _ => simp [hop', Op.quits] at hop

/-- The thread counts its maintask alone when it leaves the loop. -/
theorem LoopExit.departed (h : Inv s) (hd : LoopExit s s' T) : Departed s' T := by
  refine ⟨.inl hd.op', fun _ => hd.current', ?_⟩
  intro u hu
  refine ⟨?_, .inl hd.op'⟩
  rw [hd.place] at hu
  rw [hd.maintask]
  have hone : (s.tasks.filter fun t => (s.place t).countedAt = some T).card = 1 := by
    have hl := h.counts.local_ T
    rw [hd.local_] at hl
    exact_mod_cast hl.symm
  have hin (v : TaskId) (hv : (s.place v).countedAt = some T) :
      v ∈ s.tasks.filter fun t => (s.place t).countedAt = some T := by
    refine Finset.mem_filter.2 ⟨h.counts.tasks v ?_, hv⟩
    rintro hfree
    simp [hfree, Place.countedAt] at hv
  have hm : (s.place (s.thread T).theMaintask).countedAt = some T := by
    simp [(h.shape.idle hd.op).2, Place.countedAt]
  exact Finset.card_le_one.1 hone.le u (hin u hu) _ (hin _ hm)

theorem Departed.other (hd : Departed s U) (hc : Change s s' T a t) (hU : U ≠ T) :
    Departed s' U := by
  obtain ⟨hop, hcur, hmain, -⟩ := hc.thread U hU
  refine ⟨?_, ?_, ?_⟩
  · rw [hop]
    exact hd.op
  · rw [hop, hcur, hmain]
    exact hd.current
  · intro u hu
    rw [hop, hmain]
    rcases hc.countedAt hu with hu' | ⟨he, -⟩
    · exact hd.counted u hu'
    · exact absurd he.symm hU

theorem Roll.init : Roll init where
  joined := by simp [MN.init]
  service := by simp [MN.init]
  counted := by simp [MN.init, Place.countedAt]
  quits := by simp [MN.init, Op.quits]
  left := by simp [MN.init]

theorem Roll.step (h : Inv s) (hr : Roll s) (hs : s.step m = some s') : Roll s' := by
  obtain ⟨T, a⟩ := m
  obtain ⟨t, hc, -⟩ := h.step hs
  refine ⟨hc.joined hr, hc.service hr, ?_, ?_, ?_⟩
  · intro u U hu
    have hU : U ∈ s.joined := by
      rcases hc.countedAt hu with hu' | ⟨rfl, hcounts⟩
      · exact hr.counted u U hu'
      · rw [hr.joined]
        rintro hop
        simp [hop, Op.counts] at hcounts
    rcases hc.roster with ⟨hj, -⟩ | ⟨-, -, hj, -⟩ | ⟨-, -, hj, -⟩
    · rwa [hj]
    · rw [hj]
      exact Finset.mem_insert_of_mem hU
    · rwa [hj]
  · intro U hU
    by_cases hUT : U = T
    · subst hUT
      obtain ⟨hl, hq | ⟨rfl, hcur⟩⟩ := hc.quits.resolve_left (by simp [hU])
      · rw [hl]
        exact hr.quits U hq
      · rw [hl]
        simp [Sys.step, Sys.inCode, hcur] at hs
        exact hs.1.2
    · obtain ⟨hop, -, -, hl⟩ := hc.thread U hUT
      rw [hl]
      exact hr.quits U (hop ▸ hU)
  · intro U hU
    by_cases hUT : U = T
    · subst hUT
      rcases hc.loop with hl | hl | ⟨-, hexit⟩
      · rw [hl] at hU
        have hd := hr.left U hU
        rcases step_of_left hd hU hs with ⟨hop, rfl⟩ | ⟨hop, hgo⟩
        · exact hd.exit h.shape hop
        · exact hd.go h.shape hop hgo
      · exact absurd hU hl
      · exact hexit.departed h
    · have hl := (hc.thread U hUT).2.2.2
      exact (hr.left U (hl ▸ hU)).other hc hUT

/-! ## The sum of the counters -/

/-- The thread is not between the update of a counter and the move that belongs to it. -/
def Op.settled : Op → Bool
  | .idle | .finishing | .gone | .blocked | .yielded | .swapping _ | .waking _ _ => true
  | _ => false

/-- No service thread is starting, leaving, or between the update of a counter and the move that
belongs to it. -/
def Sys.Settled (s : Sys) : Prop :=
  ∀ T ∈ s.joined, (s.thread T).op.settled = true ∧
    ((s.thread T).loop = .left → (s.thread T).op = .gone)

/-- The service threads that have not left. -/
def Sys.live (s : Sys) : Finset ThreadId := s.joined.filter fun T => (s.thread T).op ≠ .gone

/-- In a settled state the tasks that count are under a thread or on a global ready list. -/
theorem Sys.Settled.weight (h : Shape s) (hr : Roll s) (hs : s.Settled) (t : TaskId) :
    (s.place t).weight = ∑ T ∈ s.joined, (s.place t).weightAt T +
      ∑ g : Group, if s.place t = .global g then (1 : Int) else 0 := by
  -- the only tasks that are in the hands of a thread have just been woken
  have hholder (T : ThreadId) (hp : (s.place t).holder = some T) : ∃ U, s.place t = .woken U T := by
    have hheld := (h.held T t).2 hp
    have hstage := (h.threads T).stage t hheld
    have hT : T ∈ s.joined := by
      rw [hr.joined]
      rintro hop
      simp [Thread.held, hop] at hheld
    have hset := (hs T hT).1
    cases hop : (s.thread T).op <;>
      simp [hop, Op.settled, Thread.held, Thread.Stage] at hset hheld hstage
    exact hstage
  have hsum (T : ThreadId) (hp : (s.place t).countedAt = some T) :
      ∑ U ∈ s.joined, (s.place t).weightAt U = 1 := by
    have hT := hr.counted t T hp
    simp [Place.weightAt, hp, hT]
  cases hp : s.place t with
  | free => simp [Place.weight, Place.weightAt, Place.counted, Place.countedAt]
  | ready T | waiting T i | woken T U =>
    have hone := hsum T (by simp [hp, Place.countedAt])
    rw [hp] at hone
    simp [hone, Place.weight, Place.counted]
  | global g => simp [Place.weight, Place.weightAt, Place.counted, Place.countedAt]
  | creating T | inserting T | transit T | taking T | counting T | exiting T | leaving T =>
    obtain ⟨U, hU⟩ := hholder T (by simp [hp, Place.holder])
    simp [hp] at hU

theorem Counts.local_sum (h : Counts s) (T : ThreadId) :
    (s.thread T).nLocalFibTasks = ∑ t ∈ s.tasks, (s.place t).weightAt T := by
  rw [h.local_ T, Finset.card_filter]
  push_cast
  rfl

theorem Counts.global_sum (h : Counts s) :
    s.nGlobalFibTasks = ∑ t ∈ s.tasks, (s.place t).weight := by
  rw [h.global, Finset.card_filter]
  push_cast
  rfl

theorem Inv.length_global (h : Inv s) (g : Group) :
    ((s.globalReadylist g).length : Int) =
      ∑ t ∈ s.tasks, if s.place t = .global g then (1 : Int) else 0 := by
  have hset : (s.globalReadylist g).toFinset = s.tasks.filter fun t => s.place t = .global g := by
    ext t
    rw [List.mem_toFinset, h.shape.global, Finset.mem_filter]
    refine ⟨fun hp => ⟨h.counts.tasks t ?_, hp⟩, And.right⟩
    simp [hp]
  rw [← List.toFinset_card_of_nodup (h.shape.globalNodup g), hset, Finset.card_filter]
  push_cast
  rfl

/-- The tasks of all threads and of all global ready lists add up. -/
theorem Inv.nGlobalFibTasks_eq (h : Inv s) (hr : Roll s) (hs : s.Settled) :
    s.nGlobalFibTasks = ∑ T ∈ s.joined, (s.thread T).nLocalFibTasks +
      ∑ g, ((s.globalReadylist g).length : Int) := by
  calc s.nGlobalFibTasks = ∑ t ∈ s.tasks, (s.place t).weight := h.counts.global_sum
    _ = ∑ t ∈ s.tasks, (∑ T ∈ s.joined, (s.place t).weightAt T +
          ∑ g : Group, if s.place t = .global g then (1 : Int) else 0) :=
        Finset.sum_congr rfl fun t _ => hs.weight h.shape hr t
    _ = ∑ T ∈ s.joined, ∑ t ∈ s.tasks, (s.place t).weightAt T +
          ∑ g : Group, ∑ t ∈ s.tasks, (if s.place t = .global g then (1 : Int) else 0) := by
        rw [Finset.sum_add_distrib, Finset.sum_comm,
          Finset.sum_comm (s := s.tasks) (t := Finset.univ)]
    _ = ∑ T ∈ s.joined, (s.thread T).nLocalFibTasks +
          ∑ g, ((s.globalReadylist g).length : Int) := by
        congr 1
        · exact Finset.sum_congr rfl fun T _ => (h.counts.local_sum T).symm
        · exact Finset.sum_congr rfl fun g _ => (h.length_global g).symm

/-! ## Who takes a task -/

/-- The threshold of the take test is at least the average. -/
theorem le_mul_takeLimit {n m : Int} (hn : 0 ≤ n) (hm : 0 < m) :
    n ≤ m * Int.tdiv (Int.tdiv (n * 16) 15 + m - 1) m := by
  rw [Int.tdiv_eq_ediv_of_nonneg (show 0 ≤ n * 16 by omega),
    Int.tdiv_eq_ediv_of_nonneg (by omega)]
  have hceil := Int.lt_mul_ediv_self_add (x := n * 16 / 15 + m - 1) hm
  have hn' : n ≤ n * 16 / 15 := by omega
  omega

/-- A departed thread counts nothing once it is gone. -/
theorem Roll.nLocal_gone (h : Inv s) (hr : Roll s) (hop : (s.thread T).op = .gone) :
    (s.thread T).nLocalFibTasks = 0 := by
  have hd := hr.left T (hr.quits T (by simp [hop, Op.quits]))
  rw [h.counts.local_ T, Nat.cast_eq_zero, Finset.card_eq_zero, Finset.filter_eq_empty_iff]
  intro t _ ht
  rcases (hd.counted t ht).2 with he | he
  · simp [hop] at he
  · simp [hop] at he

theorem Roll.sum_live (h : Inv s) (hr : Roll s) :
    ∑ T ∈ s.live, (s.thread T).nLocalFibTasks = ∑ T ∈ s.joined, (s.thread T).nLocalFibTasks := by
  apply Finset.sum_subset (Finset.filter_subset _ _)
  intro T hT hlive
  apply hr.nLocal_gone h
  by_contra hop
  exact hlive (Finset.mem_filter.2 ⟨hT, hop⟩)

/-- Some live thread passes the take test while a task is on a global ready list. -/
theorem Inv.exists_take (h : Inv s) (hr : Roll s) (hs : s.Settled) (hm : 1 ≤ s.mServiceThreads)
    (hg : ∃ g, s.globalReadylist g ≠ []) :
    ∃ T ∈ s.live, (s.thread T).nLocalFibTasks < s.takeLimit := by
  by_contra! hall
  have hn : 0 ≤ s.nGlobalFibTasks := by
    rw [h.counts.global]
    omega
  have hlimit := le_mul_takeLimit hn (show 0 < s.mServiceThreads by omega)
  have hcard : s.mServiceThreads = s.live.card := hr.service
  have hle : s.mServiceThreads * s.takeLimit ≤ ∑ T ∈ s.live, (s.thread T).nLocalFibTasks := by
    have hsum := Finset.card_nsmul_le_sum s.live _ s.takeLimit hall
    rwa [nsmul_eq_mul, ← hcard] at hsum
  have hpos : 0 < ∑ g, ((s.globalReadylist g).length : Int) := by
    obtain ⟨g, hg⟩ := hg
    apply Finset.sum_pos' (fun g _ => by omega)
    refine ⟨g, Finset.mem_univ g, ?_⟩
    exact_mod_cast List.length_pos_iff.2 hg
  have hsum := h.nGlobalFibTasks_eq hr hs
  rw [← hr.sum_live h] at hsum
  unfold Sys.takeLimit at hle
  omega

theorem Reachable.inv (h : Reachable s) : Inv s ∧ Roll s := by
  refine Reach.invariant (P := fun s => Inv s ∧ Roll s) h ⟨Inv.init, Roll.init⟩ ?_
  intro s m s' hI _ hs
  obtain ⟨t, -, hI'⟩ := hI.1.step hs
  exact ⟨hI', hI.2.step hI.1 hs⟩

/-- **The counters add up, and the threshold keeps no task from being taken.** -/
theorem reachable_accounts (h : Reachable s) (hs : s.Settled) :
    s.nGlobalFibTasks = ∑ T ∈ s.joined, (s.thread T).nLocalFibTasks +
      ∑ g, ((s.globalReadylist g).length : Int) ∧
    s.mServiceThreads = s.live.card ∧
    (1 ≤ s.mServiceThreads → (∃ g, s.globalReadylist g ≠ []) →
      ∃ T ∈ s.live, (s.thread T).nLocalFibTasks < s.takeLimit) := by
  obtain ⟨hI, hr⟩ := h.inv
  exact ⟨hI.nGlobalFibTasks_eq hr hs, hr.service, hI.exists_take hr hs⟩

/-- A service thread with the maintask `t` joins and enters its loop. -/
def arrival (T : ThreadId) (t : TaskId) (g : Group) : List Move :=
  [⟨T, .join⟩, ⟨T, .start t g⟩, ⟨T, .go⟩, ⟨T, .go⟩]

/-- The thread creates the task `t`. -/
def creation (T : ThreadId) (t : TaskId) (g : Group) : List Move :=
  [⟨T, .create t g⟩, ⟨T, .go⟩, ⟨T, .go⟩]

/-- The thread creates the task `t` and keeps it. -/
def keeping (T : ThreadId) (t : TaskId) (g : Group) : List Move := creation T t g ++ [⟨T, .go⟩]

/-- Two threads; the first creates five tasks, and the last of them goes to a global ready list. -/
def overflowRun : List Move :=
  arrival 0 0 0 ++ arrival 1 1 0 ++ keeping 0 2 0 ++ keeping 0 3 1 ++ keeping 0 4 2 ++
    keeping 0 5 3 ++ creation 0 6 2

/-- What is looked at in the state that the run leads to. -/
def overview (s : Sys) : Finset ThreadId × List Op × List LoopPc × List TaskId × Int :=
  (s.joined, [(s.thread 0).op, (s.thread 1).op], [(s.thread 0).loop, (s.thread 1).loop],
    s.globalReadylist 2, s.mServiceThreads)

set_option maxRecDepth 4000 in
theorem overflowRun_eq : (overflowRun.foldlM Sys.step init).map overview =
    some ({0, 1}, [.idle, .idle], [.startup, .startup], [6], 2) := by
  decide +kernel

theorem overflowRun_accounts : ∃ s, Reachable s ∧ s.Settled ∧ s.globalReadylist 2 = [6] ∧
    s.nGlobalFibTasks = ∑ T ∈ s.joined, (s.thread T).nLocalFibTasks +
      ∑ g, ((s.globalReadylist g).length : Int) ∧
    ∃ T ∈ s.live, (s.thread T).nLocalFibTasks < s.takeLimit := by
  obtain ⟨s, hrun, hview⟩ := Option.map_eq_some_iff.1 overflowRun_eq
  simp only [overview, Prod.mk.injEq, List.cons.injEq, and_true] at hview
  obtain ⟨hjoined, ⟨hop0, hop1⟩, ⟨hloop0, hloop1⟩, hglobal, hservice⟩ := hview
  have hr : Reachable s := Reach.of_foldlM hrun
  have hs : s.Settled := by
    intro T hT
    rw [hjoined, Finset.mem_insert, Finset.mem_singleton] at hT
    rcases hT with rfl | rfl
    · simp [hop0, hloop0, Op.settled]
    · simp [hop1, hloop1, Op.settled]
  obtain ⟨hsum, -, htake⟩ := reachable_accounts hr hs
  exact ⟨s, hr, hs, hglobal, hsum, htake (by omega) ⟨2, by simp [hglobal]⟩⟩

end Ptask.MN
