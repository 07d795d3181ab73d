import Ptask.MN.Accounting

/-!
# The last thread that leaves

A service thread leaves the loop of `fiber_scheduler` when it counts no task but its maintask. Once
all threads have left, a task can only be on a global ready list; nobody takes it from there. The
exit test does not look at `nGlobalFibTasks`, which would tell: a task on a global ready list is
counted there, and no thread counts it.
-/

namespace Ptask.MN

open Ptask.Lib

variable {s s' : Sys} {m : Move} {a : Act} {T U : ThreadId} {t : TaskId}

/-- All service threads have left the loop. -/
def AllLeft (s : Sys) : Prop := ∀ T ∈ s.joined, (s.thread T).loop = .left

/-- No task is on a global ready list, and every task has run to completion, except for the
maintasks that are returning. -/
structure NoneAbandoned (s : Sys) : Prop where
  global : ∀ g, s.globalReadylist g = []
  finished : ∀ t, s.place t ≠ .free → ∃ T ∈ s.joined, t = (s.thread T).theMaintask ∧
    (s.thread T).op ∈ [.idle, .exiting true, .extracting true]

/-- The threads that are in no operation. If all threads have left the loop, these are the ones
whose maintask has not been subtracted from `nGlobalFibTasks`. -/
def Sys.idle (s : Sys) : Finset ThreadId := s.joined.filter fun T => (s.thread T).op = .idle

/-- The last thread that leaves the loop finds no task counted in `nGlobalFibTasks` but the
maintasks that have not returned. -/
def LeavesNothing (s : Sys) (m : Move) : Prop :=
  m.act = .loopEnd → (s.thread m.thread).nLocalFibTasks = 1 →
    (∀ U ∈ s.joined, U ≠ m.thread → (s.thread U).loop = .left) →
    s.nGlobalFibTasks = s.idle.card

instance : Decidable (LeavesNothing s m) :=
  inferInstanceAs (Decidable (m.act = .loopEnd → (s.thread m.thread).nLocalFibTasks = 1 →
    (∀ U ∈ s.joined, U ≠ m.thread → (s.thread U).loop = .left) →
    s.nGlobalFibTasks = s.idle.card))

/-! ## The count of all tasks -/

/-- The maintasks of the threads that are in no operation. -/
def Sys.idleMaintasks (s : Sys) : Finset TaskId := s.idle.image fun T => (s.thread T).theMaintask

/-- The tasks that are counted in `nGlobalFibTasks`. -/
def Sys.counted (s : Sys) : Finset TaskId := s.tasks.filter fun t => (s.place t).counted

theorem Sys.mem_idle : T ∈ s.idle ↔ T ∈ s.joined ∧ (s.thread T).op = .idle := Finset.mem_filter

theorem Inv.mem_counted (h : Inv s) : t ∈ s.counted ↔ (s.place t).counted = true := by
  rw [Sys.counted, Finset.mem_filter]
  refine ⟨And.right, fun hc => ⟨h.counts.tasks t ?_, hc⟩⟩
  intro hfree
  simp [hfree, Place.counted] at hc

theorem Shape.place_idleMaintask (h : Shape s) (ht : t ∈ s.idleMaintasks) :
    ∃ T ∈ s.idle, s.place t = .ready T := by
  obtain ⟨T, hT, rfl⟩ := Finset.mem_image.1 ht
  exact ⟨T, hT, (h.idle (Sys.mem_idle.1 hT).2).2⟩

theorem Shape.card_idleMaintasks (h : Shape s) : s.idleMaintasks.card = s.idle.card := by
  refine Finset.card_image_of_injOn ?_
  intro T hT U hU he
  have hpT := (h.idle (Sys.mem_idle.1 hT).2).2
  have hpU := (h.idle (Sys.mem_idle.1 hU).2).2
  simp only at he
  rw [he, hpU] at hpT
  exact (Place.ready.inj hpT).symm

theorem Inv.idleMaintasks_subset (h : Inv s) : s.idleMaintasks ⊆ s.counted := by
  intro t ht
  obtain ⟨T, -, hp⟩ := h.shape.place_idleMaintask ht
  rw [h.mem_counted, hp]
  rfl

/-- The count of all tasks leaves no room for a task on a global ready list. -/
theorem Inv.global_eq_nil (h : Inv s) (hn : s.nGlobalFibTasks = s.idle.card) (g : Group) :
    s.globalReadylist g = [] := by
  have hcard : s.counted.card ≤ s.idleMaintasks.card := by
    have hcount : s.nGlobalFibTasks = s.counted.card := h.counts.global
    rw [h.shape.card_idleMaintasks]
    omega
  have heq := Finset.eq_of_subset_of_card_le h.idleMaintasks_subset hcard
  rw [List.eq_nil_iff_forall_not_mem]
  intro t ht
  have hp := (h.shape.global g t).1 ht
  have hmem : t ∈ s.idleMaintasks := by
    rw [heq, h.mem_counted, hp]
    rfl
  obtain ⟨T, -, hp'⟩ := h.shape.place_idleMaintask hmem
  rw [hp] at hp'
  cases hp'

/-! ## Where a task is when all threads have left -/

/-- What a thread that has left the loop has in its hands is its maintask. -/
theorem Departed.holds (h : Shape s) (hd : Departed s T) (hp : (s.place t).holder = some T) :
    t = (s.thread T).theMaintask ∧
      ((s.thread T).op = .exiting true ∧ s.place t = .exiting T ∨
        (s.thread T).op = .extracting true ∧ s.place t = .leaving T) := by
  have hheld := (h.held T t).2 hp
  have hstage := (h.threads T).stage t hheld
  have hcur (b : Bool) (hb : b = true)
      (hop : (s.thread T).op = .exiting b ∨ (s.thread T).op = .extracting b) :
      (s.thread T).currentTask = (s.thread T).theMaintask := ((h.threads T).exits b hop).1 hb
  rcases hd.op with hop | hop
  · simp [Thread.held, hop] at hheld
  · cases hop' : (s.thread T).op with
    | exiting b =>
      cases b with
      | true =>
        simp only [Thread.held, hop', Option.some.injEq] at hheld
        simp only [Thread.Stage, hop'] at hstage
        exact ⟨hheld.symm.trans (hcur true rfl (.inl hop')), .inl ⟨rfl, hstage⟩⟩
      | false => simp [hop', Op.quits] at hop
    | extracting b =>
      cases b with
      | true =>
        simp only [Thread.held, hop', Option.some.injEq] at hheld
        simp only [Thread.Stage, hop'] at hstage
        exact ⟨hheld.symm.trans (hcur true rfl (.inr hop')), .inr ⟨rfl, hstage⟩⟩
      | false => simp [hop', Op.quits] at hop
    | stopped => simp [Thread.held, hop'] at hheld
    | gone => simp [Thread.held, hop'] at hheld
    | _ => simp [hop', Op.quits] at hop

/-- Once all threads have left, a task is on a global ready list or a maintask on its way out. -/
theorem AllLeft.place_cases (h : Shape s) (hr : Roll s) (hl : AllLeft s) (hfree : s.place t ≠ .free) :
    (∃ g, s.place t = .global g) ∨ ∃ T ∈ s.joined, t = (s.thread T).theMaintask ∧
      (s.place t = .exiting T ∧ (s.thread T).op = .exiting true ∨
        s.place t = .leaving T ∧ (s.thread T).op = .extracting true ∨
        (s.place t).counted = true ∧ (s.thread T).op = .idle) := by
  have hheld (T : ThreadId) (hp : (s.place t).holder = some T) : T ∈ s.joined := by
    have hheld := (h.held T t).2 hp
    rw [hr.joined]
    rintro hop
    simp [Thread.held, hop] at hheld
  have holds (T : ThreadId) (hp : (s.place t).holder = some T) :=
    (hr.left T (hl T (hheld T hp))).holds h hp
  have hcounted (T : ThreadId) (hp : (s.place t).countedAt = some T) (hne : s.place t ≠ .exiting T) :
      T ∈ s.joined ∧ t = (s.thread T).theMaintask ∧ (s.thread T).op = .idle := by
    have hT := hr.counted t T hp
    obtain ⟨ht, hop | hop⟩ := (hr.left T (hl T hT)).counted t hp
    · exact ⟨hT, ht, hop⟩
    · have hcur := ((h.threads T).exits true (.inl hop)).1 rfl
      have hstage := (h.threads T).stage t (by simp [Thread.held, hop, hcur, ht])
      simp only [Thread.Stage, hop] at hstage
      exact absurd hstage hne
  cases hp : s.place t with
  | free => exact absurd hp hfree
  | ready T | waiting T i | woken T U =>
    obtain ⟨hT, ht, hop⟩ := hcounted T (by simp [hp, Place.countedAt]) (by simp [hp])
    exact .inr ⟨T, hT, ht, .inr (.inr ⟨rfl, hop⟩)⟩
  | global g => exact .inl ⟨g, rfl⟩
  | exiting T =>
    have hholder : (s.place t).holder = some T := by simp [hp, Place.holder]
    obtain ⟨ht, ⟨hop, -⟩ | ⟨-, hp'⟩⟩ := holds T hholder
    · exact .inr ⟨T, hheld T hholder, ht, .inl ⟨rfl, hop⟩⟩
    · simp [hp] at hp'
  | leaving T =>
    have hholder : (s.place t).holder = some T := by simp [hp, Place.holder]
    obtain ⟨ht, ⟨-, hp'⟩ | ⟨hop, -⟩⟩ := holds T hholder
    · simp [hp] at hp'
    · exact .inr ⟨T, hheld T hholder, ht, .inr (.inl ⟨rfl, hop⟩)⟩
  | creating T | inserting T | transit T | taking T | counting T =>
    obtain ⟨-, ⟨-, hp'⟩ | ⟨-, hp'⟩⟩ := holds T (by simp [hp, Place.holder])
    · simp [hp] at hp'
    · simp [hp] at hp'

/-- Once all threads have left, only the global ready lists hold tasks. -/
theorem AllLeft.noneAbandoned (h : Shape s) (hr : Roll s) (hl : AllLeft s)
    (hg : ∀ g, s.globalReadylist g = []) : NoneAbandoned s := by
  refine ⟨hg, ?_⟩
  intro t hfree
  rcases hl.place_cases h hr hfree with ⟨g, hp⟩ | ⟨T, hT, ht, ⟨-, hop⟩ | ⟨-, hop⟩ | ⟨-, hop⟩⟩
  · have hmem := (h.global g t).2 hp
    simp [hg] at hmem
  · exact ⟨T, hT, ht, by simp [hop]⟩
  · exact ⟨T, hT, ht, by simp [hop]⟩
  · exact ⟨T, hT, ht, by simp [hop]⟩

/-- If no task is abandoned, the count of all tasks is that of the maintasks which have not
returned. -/
theorem NoneAbandoned.count (hn : NoneAbandoned s) (h : Inv s) (hr : Roll s) (hl : AllLeft s) :
    s.nGlobalFibTasks = s.idle.card := by
  have hsub : s.counted ⊆ s.idleMaintasks := by
    intro t ht
    have hc := h.mem_counted.1 ht
    have hfree : s.place t ≠ .free := by
      intro hfree
      simp [hfree, Place.counted] at hc
    rcases hl.place_cases h.shape hr hfree with
      ⟨g, hp⟩ | ⟨T, hT, ht, ⟨hp, -⟩ | ⟨hp, -⟩ | ⟨-, hop⟩⟩
    · have hmem := (h.shape.global g t).2 hp
      simp [hn.global] at hmem
    · simp [hp, Place.counted] at hc
    · simp [hp, Place.counted] at hc
    · exact Finset.mem_image.2 ⟨T, Sys.mem_idle.2 ⟨hT, hop⟩, ht.symm⟩
  have heq := Finset.Subset.antisymm hsub h.idleMaintasks_subset
  calc s.nGlobalFibTasks = s.counted.card := h.counts.global
    _ = s.idle.card := by rw [heq, h.shape.card_idleMaintasks]

/-! ## Steps -/

/-- A thread that has left puts nothing on a global ready list. -/
theorem globalReadylist_of_left (hd : Departed s T) (hl : (s.thread T).loop = .left) {a : Act}
    (hs : s.step ⟨T, a⟩ = some s') : s'.globalReadylist = s.globalReadylist := by
  rcases step_of_left hd hl hs with ⟨-, rfl⟩ | ⟨hop, hgo⟩
  · rfl
  · cases hop' : (s.thread T).op with
    | exiting b =>
      simp only [Sys.go, hop', Option.map_eq_some_iff] at hgo
      obtain ⟨U, -, rfl⟩ := hgo
      rfl
    | extracting b =>
      simp only [Sys.go, hop', Option.map_eq_some_iff] at hgo
      obtain ⟨U, -, rfl⟩ := hgo
      cases b <;> rfl
    | stopped =>
      simp only [Sys.go, hop', Option.some.injEq] at hgo
      subst hgo
      rfl
    | gone => simp [Sys.go, hop'] at hgo
    | _ => simp [hop', Op.quits] at hop

/-- The step after which all threads have left: they had before, or this one is the last to leave. -/
theorem AllLeft.before (h : Inv s) (hr : Roll s) (hs : s.step ⟨T, a⟩ = some s') (hl : AllLeft s') :
    AllLeft s ∧ s'.globalReadylist = s.globalReadylist ∨
      a = .loopEnd ∧ (s.thread T).nLocalFibTasks = 1 ∧
        ∀ U ∈ s.joined, U ≠ T → (s.thread U).loop = .left := by
  obtain ⟨t, hc, -⟩ := h.step hs
  have hr' := hr.step h hs
  have hother (U : ThreadId) (hU : U ∈ s.joined) (hUT : U ≠ T) : (s.thread U).loop = .left := by
    rw [← (hc.thread U hUT).2.2.2]
    apply hl
    rw [hr'.joined, (hc.thread U hUT).1]
    exact (hr.joined U).1 hU
  have hT : T ∈ s'.joined := by
    rw [hr'.joined]
    intro hop'
    have hop : (s.thread T).op = .absent := by
      rcases hc.roster with ⟨-, -, ha, -⟩ | ⟨-, hop, -⟩ | ⟨-, hop, -⟩
      · exact ha.1 hop'
      · simp [hop] at hop'
      · simp [hop] at hop'
    cases a <;> simp [Sys.step, Sys.inCode, Sys.inLoop, Sys.go, hop] at hs
    simp [← hs, Sys.join, Sys.setOp] at hop'
  have hleft' : (s'.thread T).loop = .left := hl T hT
  rcases hc.loop with hsame | hne | ⟨rfl, hexit⟩
  · have hleft : (s.thread T).loop = .left := hsame.symm.trans hleft'
    refine .inl ⟨?_, globalReadylist_of_left (hr.left T hleft) hleft hs⟩
    intro U hU
    by_cases hUT : U = T
    · exact hUT ▸ hleft
    · exact hother U hU hUT
  · exact absurd hleft' hne
  · exact .inr ⟨rfl, hexit.local_, hother⟩

/-- The exit from the loop changes no list, no count and no operation. -/
theorem loopEnd_step (hs : s.step ⟨T, .loopEnd⟩ = some s') (hone : (s.thread T).nLocalFibTasks = 1) :
    (s'.thread T).loop = .left ∧ s'.joined = s.joined ∧ s'.nGlobalFibTasks = s.nGlobalFibTasks ∧
      s'.globalReadylist = s.globalReadylist ∧ (∀ U, (s'.thread U).op = (s.thread U).op) ∧
      ∀ U, U ≠ T → (s'.thread U).loop = (s.thread U).loop := by
  simp only [Sys.step] at hs
  split at hs
  · obtain rfl := Option.some.inj hs
    refine ⟨by simp [hone], rfl, rfl, rfl, ?_, ?_⟩
    · exact Sys.modThread_kept (k := Thread.op) fun _ => rfl
    · intro U hU
      simp [hU]
  · cases hs

/-- A step after which all threads have left abandons a task unless it meets the condition. -/
theorem Inv.noneAbandoned_step (h : Inv s) (hr : Roll s) (hn : AllLeft s → NoneAbandoned s)
    (hs : s.step m = some s') : (AllLeft s' → NoneAbandoned s') ↔ LeavesNothing s m := by
  obtain ⟨T, a⟩ := m
  obtain ⟨t, -, h'⟩ := h.step hs
  have hr' := hr.step h hs
  constructor
  · rintro hn' rfl hone hother
    obtain ⟨hleft, hjoined, hcount, -, hop, hloop⟩ := loopEnd_step hs hone
    have hl' : AllLeft s' := by
      intro U hU
      by_cases hUT : U = T
      · exact hUT ▸ hleft
      · rw [hloop U hUT]
        exact hother U (hjoined ▸ hU) hUT
    have hidle : s'.idle = s.idle := by simp only [Sys.idle, hjoined, hop]
    rw [← hcount, ← hidle]
    exact (hn' hl').count h' hr' hl'
  · intro hok hl'
    refine hl'.noneAbandoned h'.shape hr' ?_
    rcases hl'.before h hr hs with ⟨hl, hglobal⟩ | ⟨rfl, hone, hother⟩
    · rw [hglobal]
      exact (hn hl).global
    · rw [(loopEnd_step hs hone).2.2.2.1]
      exact h.global_eq_nil (hok rfl hone hother)

/-- **No task is abandoned** when all threads have left, provided that the last one to leave found no
task counted but maintasks; and a last one that does not find this abandons a task. -/
theorem reach_noneAbandoned (h : Reach Sys.step LeavesNothing init s) :
    (AllLeft s → NoneAbandoned s) ∧ ∀ m s', s.step m = some s' →
      ((AllLeft s' → NoneAbandoned s') ↔ LeavesNothing s m) := by
  have hrun : (Inv s ∧ Roll s) ∧ (AllLeft s → NoneAbandoned s) := by
    refine Reach.invariant
      (P := fun s => (Inv s ∧ Roll s) ∧ (AllLeft s → NoneAbandoned s)) h
      ⟨⟨Inv.init, Roll.init⟩, ?_⟩ ?_
    · intro hl
      exact hl.noneAbandoned shape_init Roll.init fun _ => rfl
    · intro s m s' ⟨⟨hI, hr⟩, hn⟩ hok hs
      obtain ⟨t, -, hI'⟩ := hI.step hs
      exact ⟨⟨hI', hr.step hI hs⟩, (hI.noneAbandoned_step hr hn hs).2 hok⟩
  obtain ⟨⟨hI, hr⟩, hn⟩ := hrun
  exact ⟨hn, fun m s' hs => hI.noneAbandoned_step hr hn hs⟩

/-- A pass through the loop that finds nothing to run, and the exit. -/
def lastPass (T : ThreadId) : List Move :=
  [⟨T, .balance⟩, ⟨T, .exhaust⟩, ⟨T, .loopEnd⟩]

/-- The maintask of the thread gives way to the one task that is ready. -/
def giveWay (T : ThreadId) : List Move := [⟨T, .yield⟩, ⟨T, .go⟩, ⟨T, .go⟩]

/-- The current task exits. -/
def exiting (T : ThreadId) : List Move := [⟨T, .exit⟩, ⟨T, .go⟩, ⟨T, .go⟩, ⟨T, .go⟩]

/-- Two threads; the task of the first one runs, then both leave. -/
def quietRun : List Move :=
  arrival 0 0 0 ++ arrival 1 1 0 ++ keeping 0 2 1 ++ giveWay 0 ++ exiting 0 ++
    [⟨0, .startLoop⟩] ++ lastPass 0 ++ [⟨1, .startLoop⟩] ++ lastPass 1

/-- The task of the first thread blocks, the second thread wakes it and so puts it on a global ready
list that neither thread looks at before it leaves. -/
def abandoningRun : List Move :=
  arrival 0 0 0 ++ arrival 1 1 0 ++ keeping 0 2 1 ++ giveWay 0 ++
    [⟨0, .block 0⟩, ⟨0, .go⟩, ⟨0, .go⟩] ++ [⟨1, .wake 0⟩, ⟨1, .go⟩, ⟨1, .go⟩] ++
    [⟨0, .startLoop⟩] ++ lastPass 0 ++ [⟨1, .startLoop⟩] ++ lastPass 1

/-- Who has joined, who has left, and what is on the global ready list of the group 1. -/
def leftBehind (s : Sys) : Finset ThreadId × List LoopPc × List TaskId :=
  (s.joined, [(s.thread 0).loop, (s.thread 1).loop], s.globalReadylist 1)

set_option maxRecDepth 4000 in
theorem quietRun_eq : (quietRun.foldlM (Reach.guarded Sys.step LeavesNothing) init).map leftBehind =
    some ({0, 1}, [.left, .left], []) := by
  decide +kernel

set_option maxRecDepth 4000 in
theorem abandoningRun_eq : (abandoningRun.foldlM Sys.step init).map leftBehind =
    some ({0, 1}, [.left, .left], [2]) := by
  decide +kernel

theorem allLeft_of_leftBehind {l : List TaskId}
    (h : leftBehind s = ({0, 1}, [.left, .left], l)) : AllLeft s ∧ s.globalReadylist 1 = l := by
  simp only [leftBehind, Prod.mk.injEq, List.cons.injEq, and_true] at h
  obtain ⟨hjoined, ⟨hloop0, hloop1⟩, hglobal⟩ := h
  refine ⟨?_, hglobal⟩
  intro T hT
  rw [hjoined, Finset.mem_insert, Finset.mem_singleton] at hT
  rcases hT with rfl | rfl
  · exact hloop0
  · exact hloop1

theorem quietRun_noneAbandoned : ∃ s, Reach Sys.step LeavesNothing init s ∧ s.joined = {0, 1} ∧
    AllLeft s ∧ NoneAbandoned s ∧ ∀ m s', s.step m = some s' →
      ((AllLeft s' → NoneAbandoned s') ↔ LeavesNothing s m) := by
  obtain ⟨s, hrun, hview⟩ := Option.map_eq_some_iff.1 quietRun_eq
  have hl := (allLeft_of_leftBehind hview).1
  have hr : Reach Sys.step LeavesNothing init s := Reach.of_guarded hrun
  exact ⟨s, hr, congrArg Prod.fst hview, hl, (reach_noneAbandoned hr).1 hl,
    (reach_noneAbandoned hr).2⟩

/-- Without the condition a task is abandoned. -/
theorem abandoningRun_abandons : ∃ s, Reachable s ∧ s.joined.Nonempty ∧ AllLeft s ∧
    ¬NoneAbandoned s := by
  obtain ⟨s, hrun, hview⟩ := Option.map_eq_some_iff.1 abandoningRun_eq
  obtain ⟨hl, hglobal⟩ := allLeft_of_leftBehind hview
  have hjoined : s.joined = {0, 1} := congrArg Prod.fst hview
  refine ⟨s, Reach.of_foldlM hrun, by simp [hjoined], hl, ?_⟩
  intro hnone
  simp [hnone.global] at hglobal

end Ptask.MN
