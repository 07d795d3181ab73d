import Ptask.MN.Shape

/-!
# What each step changes

One `Change` for each step function of the model, and from them the two invariants of all reachable
states.
-/

namespace Ptask.MN

open Ptask.Lib

attribute [local simp] Place.listed Place.queue Place.holder Place.home Place.countedAt Place.counted
  Place.within Place.mayRun Place.weightAt Place.weight Thread.held Thread.Stage Thread.runs
  Thread.hasMaintask Thread.executing Op.quits Op.counts

variable {s s' : Sys} {T U : ThreadId} {a : Act} {t w : TaskId} {g : Group} {i : ObjId}

theorem rotate_perm {x t : TaskId} {l : List TaskId} (ht : t ∈ l) :
    (if t = x then l.erase t ++ [t] else insertBefore x t (l.erase t)).Perm l := by
  have hcons : (t :: l.erase t).Perm l := (List.perm_cons_erase ht).symm
  split
  · exact (List.perm_append_singleton t _).trans hcons
  · exact (insertBefore_perm x t _).trans hcons

/-- The current task and the maintask of a thread that is in no operation. -/
theorem Shape.idle (h : Shape s) (hop : (s.thread T).op = .idle) :
    s.place (s.thread T).currentTask = .ready T ∧ s.place (s.thread T).theMaintask = .ready T := by
  refine ⟨?_, ?_⟩
  · exact (h.threads T).current (by simp [Thread.runs, hop])
  · exact (h.threads T).maintask (by simp [Thread.hasMaintask, Thread.runs, hop])

theorem Shape.join_change (h : Shape s) (hop : (s.thread T).op = .absent) :
    Change s (s.join T) T a 0 := by
  have hnd := h.nodup T
  unfold Sys.join Sys.setOp
  apply Still.change h <;> constructor
  case ok => constructor <;> simp [*]
  case roster => exact .inr (.join hop (by simp) (by simp) (by simp))
  all_goals simp +contextual [*]

theorem Shape.start_change (h : Shape s) (hop : (s.thread T).op = .joined)
    (hfree : s.place t = .free) :
    Change s (s.start T t g) T a t := by
  obtain ⟨hthreads, hready, hwait, hglobal, hheld, hhome, hwn, hgn⟩ := id h
  have hnd U := (hthreads U).nodup
  unfold Sys.start
  apply Local.change h <;> constructor
  case ok => constructor <;> simp [*]
  case switching => exact .inr (.start t hfree (by simp [hop]) (by simp) (by simp) (by simp))
  all_goals simp +contextual [*]

theorem Shape.fiberCreate_change (h : Shape s) (hop : (s.thread T).op = .idle)
    (hfree : s.place t = .free) : Change s (s.fiberCreate T t g) T a t := by
  obtain ⟨hthreads, hready, hwait, hglobal, hheld, hhome, hwn, hgn⟩ := id h
  have hnd U := (hthreads U).nodup
  obtain ⟨hcur, hmain⟩ := h.idle hop
  have hct : (s.thread T).currentTask ≠ t := by
    rintro rfl
    simp [hfree] at hcur
  have hmt : (s.thread T).theMaintask ≠ t := by
    rintro rfl
    simp [hfree] at hmain
  unfold Sys.fiberCreate Sys.setOp
  apply Local.change h <;> constructor
  case ok => constructor <;> simp [*]
  case switching => exact .inr (.create t hfree (by simp [hop]) (by simp))
  all_goals simp +contextual [*]

theorem Shape.cppTaskmain_change (h : Shape s) (hop : (s.thread T).op = .idle) :
    Change s (s.cppTaskmain T) T .exit (s.thread T).currentTask := by
  obtain ⟨hthreads, hready, hwait, hglobal, hheld, hhome, hwn, hgn⟩ := id h
  have hnd U := (hthreads U).nodup
  obtain ⟨hcur, hmain⟩ := h.idle hop
  have hh := hhome _ T (congrArg Place.home hcur)
  unfold Sys.cppTaskmain Sys.setOp
  by_cases he : (s.thread T).currentTask = (s.thread T).theMaintask
  · have he' := he.symm
    clear he
    apply Local.change h <;> constructor
    case ok => constructor <;> simp [*]
    all_goals simp +contextual [*]
  · have hmt := Ne.symm he
    apply Local.change h <;> constructor
    case ok => constructor <;> simp [*]
    all_goals simp +contextual [*]

theorem Shape.block_change (h : Shape s) (hop : (s.thread T).op = .idle)
    (hne : (s.thread T).currentTask ≠ (s.thread T).theMaintask) :
    Change s (s.block T i) T a (s.thread T).currentTask := by
  obtain ⟨hthreads, hready, hwait, hglobal, hheld, hhome, hwn, hgn⟩ := id h
  have hnd U := (hthreads U).nodup
  obtain ⟨hcur, hmain⟩ := h.idle hop
  have hh := hhome _ T (congrArg Place.home hcur)
  have hmt := hne.symm
  have herase := (hnd T).erase (s.thread T).currentTask
  have hmem u := (hnd T).mem_erase_iff (a := u) (b := (s.thread T).currentTask)
  unfold Sys.block
  apply Local.change h <;> constructor
  case ok => constructor <;> simp [*]
  case wait =>
    intro j u hu
    exact mem_setChain (by simp [hu]) j
  case wait' =>
    intro j
    by_cases hj : j = i
    · subst hj
      simp
    · simp [hj, Ne.symm hj, hwait, hcur]
  case waitNodup =>
    exact Distinct.set hwn (append_singleton_nodup (by simp [hwait, hcur]) (hwn i))
  all_goals simp +contextual [*]

/-- The queue decides the place. -/
theorem Place.queue_eq {p : Place} (h : p.queue = some i) : ∃ U, p = .waiting U i := by
  cases p <;> simp [Place.queue] at h
  simp [h]

theorem Shape.wake_change (h : Shape s) (hop : (s.thread T).op = .idle ∨ (s.thread T).op = .blocked)
    (hs : s.wake T i = some s') : ∃ w, Change s s' T a w := by
  obtain ⟨hthreads, hready, hwait, hglobal, hheld, hhome, hwn, hgn⟩ := id h
  have hnd U := (hthreads U).nodup
  have hmain := (hthreads T).maintask
    (by rcases hop with hop | hop <;> simp [Thread.hasMaintask, Thread.runs, hop])
  unfold Sys.wake at hs
  split at hs
  · cases hs
  next w rest hq =>
  cases hs
  obtain ⟨U, hw⟩ := Place.queue_eq ((hwait i w).1 (by simp [hq]))
  have hh := hhome w U (congrArg Place.home hw)
  have hmt : (s.thread T).theMaintask ≠ w := by
    rintro rfl
    simp [hmain] at hw
  have hrest : rest.Nodup ∧ w ∉ rest := (List.nodup_cons.1 (hq ▸ hwn i)).symm
  have hwait1 : ∀ j u, u ≠ w → (u ∈ Function.update s.waitq i rest j ↔ u ∈ s.waitq j) := by
    intro j u hu
    exact mem_setChain (by simp [hq, hu]) j
  have hwait2 : ∀ j, w ∉ Function.update s.waitq i rest j := by
    intro j
    by_cases hj : j = i
    · subst hj
      simp [hrest.2]
    · simp [hj, Ne.symm hj, hwait, hw, Place.queue]
  have hwait3 : ∀ j, (Function.update s.waitq i rest j).Nodup := Distinct.set hwn hrest.1
  unfold Sys.setOp
  refine ⟨w, ?_⟩
  rcases hop with hop | hop
  · have hcur := (hthreads T).current (by simp [Thread.runs, hop])
    have hct : (s.thread T).currentTask ≠ w := by
      rintro rfl
      simp [hcur] at hw
    apply Local.change h <;> constructor
    case ok => constructor <;> simp [*]
    all_goals simp +contextual [*]
  · apply Local.change h <;> constructor
    case ok => constructor <;> simp [*]
    all_goals simp +contextual [*]

theorem Shape.tickle_change (h : Shape s) (hop : (s.thread T).op = .idle) (hw : w ∈ s.waitq i)
    (hs : s.scheduler w = some T) : Change s (s.tickle T i w) T a w := by
  obtain ⟨hthreads, hready, hwait, hglobal, hheld, hhome, hwn, hgn⟩ := id h
  have hnd U := (hthreads U).nodup
  obtain ⟨hcur, hmain⟩ := h.idle hop
  obtain ⟨U, hp⟩ := Place.queue_eq ((hwait i w).1 hw)
  have hUT := hhome w U (congrArg Place.home hp)
  rw [hs] at hUT
  obtain rfl := Option.some.inj hUT
  have hct : (s.thread T).currentTask ≠ w := by
    rintro rfl
    simp [hcur] at hp
  have hmt : (s.thread T).theMaintask ≠ w := by
    rintro rfl
    simp [hmain] at hp
  have hnin : w ∉ (s.thread T).readylist := by simp [hready, hp, Place.listed]
  have hins := insertBefore_nodup (y := (s.thread T).theMaintask) hnin (hnd T)
  have hwait1 : ∀ j u, u ≠ w →
      (u ∈ Function.update s.waitq i ((s.waitq i).erase w) j ↔ u ∈ s.waitq j) := by
    intro j u hu
    exact mem_setChain (List.mem_erase_of_ne hu) j
  have hwait2 : ∀ j, w ∉ Function.update s.waitq i ((s.waitq i).erase w) j := by
    intro j
    by_cases hj : j = i
    · subst hj
      simp [(hwn j).mem_erase_iff]
    · simp [hj, Ne.symm hj, hwait, hp, Place.queue]
  have hwait3 : ∀ j, (Function.update s.waitq i ((s.waitq i).erase w) j).Nodup :=
    Distinct.set hwn ((hwn i).erase w)
  unfold Sys.tickle Sys.insertBeforeMaintask
  apply Local.change h <;> constructor
  case ok => constructor <;> simp [*]
  all_goals simp +contextual [*]

theorem Shape.setLoop_change {pc : LoopPc} (h : Shape s) (hop : (s.thread T).op = .idle)
    (hpc : pc = .left → a = .loopEnd ∧ (s.thread T).currentTask = (s.thread T).theMaintask ∧
      (s.thread T).nLocalFibTasks = 1) :
    Change s (s.modThread T fun x => { x with loop := pc }) T a 0 := by
  have hnd := h.nodup T
  obtain ⟨hcur, hmain⟩ := h.idle hop
  apply Still.change h <;> constructor
  case ok => constructor <;> simp [*]
  case loop =>
    refine .inr ?_
    by_cases hl : pc = .left
    · obtain ⟨ha, he, hn⟩ := hpc hl
      exact .inr ⟨ha, hop, he, hn, by simp [hop], by simp [he], by simp, by simp⟩
    · exact .inl (by simp [hl])
  all_goals simp +contextual [*]

theorem Shape.fiberSchedYield_change (h : Shape s) (hop : (s.thread T).op = .idle) :
    Change s (s.fiberSchedYield T) T a 0 := by
  obtain ⟨hcur, hmain⟩ := h.idle hop
  have hperm := rotate_perm (x := (s.thread T).theMaintask)
    ((h.ready T _).2 (congrArg Place.listed hcur))
  have hnd := hperm.nodup_iff.2 (h.nodup T)
  unfold Sys.fiberSchedYield
  apply Still.change h <;> constructor
  case perm =>
    simp only [Sys.modThread_thread, Function.update_self]
    exact hperm
  case ok =>
    simp only [Sys.modThread_thread, Function.update_self]
    refine ⟨hnd, ?_, ?_, ?_, ?_, ?_, ?_⟩ <;> simp [*]
  all_goals simp +contextual [*]

theorem Place.listed_cases {p : Place} (h : p.listed = some T) :
    p = .ready T ∨ p.holder = some T := by
  cases p <;> simp [Place.listed, Place.holder] at h ⊢ <;> exact h

/-- `fiber_sched` moves the next task to the end of the ready list and makes it current. -/
theorem Shape.fiberSched_change (h : Shape s)
    (hop : (s.thread T).op = .blocked ∨ (s.thread T).op = .yielded)
    (hs : s.fiberSched T = some s') : Change s s' T a 0 := by
  have hmain := (h.threads T).maintask
    (by rcases hop with hop | hop <;> simp [Thread.hasMaintask, Thread.runs, hop])
  have hheld : (s.thread T).held = none := by rcases hop with hop | hop <;> simp [Thread.held, hop]
  have habs : (s.thread T).op ≠ .absent := by rcases hop with hop | hop <;> simp [hop]
  have hgone : (s.thread T).op ≠ .gone := by rcases hop with hop | hop <;> simp [hop]
  unfold Sys.fiberSched at hs
  simp only at hs
  split at hs
  · cases hs
  next t l hl =>
  have ht : t ∈ (s.thread T).readylist := by simp [hl]
  have hready : s.place t = .ready T := by
    rcases Place.listed_cases ((h.ready T t).1 ht) with hp | hp
    · exact hp
    · have hheld' := (h.held T t).2 hp
      rw [hheld] at hheld'
      cases hheld'
  have hexec : (s.thread T).executing = some (s.thread T).currentTask := by
    rcases hop with hop | hop <;> simp [hop]
  split at hs
  · next he =>
    cases hs
    have hnd := h.nodup T
    have hcur : s.place (s.thread T).currentTask = .ready T := he ▸ hready
    clear hl
    unfold Sys.setOp
    apply Still.change h <;> constructor
    case ok => constructor <;> simp [*]
    case held =>
      rw [hheld]
      simp
    case switching =>
      refine .inl ⟨?_, by simp⟩
      rw [hexec]
      simp
    all_goals simp +contextual [habs, hgone]
  · next hne =>
    cases hs
    have hperm := rotate_perm (x := (s.thread T).theMaintask) ht
    have hnd := hperm.nodup_iff.2 (h.nodup T)
    apply Still.change h <;> constructor
    case perm =>
      simp only [Sys.modThread_thread, Function.update_self, ne_eq, ite_not]
      exact hperm
    case ok =>
      simp only [Sys.modThread_thread, Function.update_self, ne_eq, ite_not]
      refine ⟨hnd, ?_, ?_, ?_, ?_, ?_, ?_⟩ <;> simp [*]
    case held =>
      rw [hheld]
      simp
    case switching =>
      refine .inl ⟨?_, by simp⟩
      rw [hexec]
      simp
    case swaps => simp [Ne.symm hne]
    all_goals simp +contextual [habs, hgone]

theorem Shape.balance_change (h : Shape s) (hop : (s.thread T).op = .idle) :
    ∃ t, Change s (s.balance T) T a t := by
  obtain ⟨hthreads, hready, hwait, hglobal, hheld, hhome, hwn, hgn⟩ := id h
  have hnd U := (hthreads U).nodup
  obtain ⟨hcur, hmain⟩ := h.idle hop
  unfold Sys.balance
  simp only
  split
  · split
    · refine ⟨0, ?_⟩
      apply Still.change h <;> constructor
      case ok => constructor <;> simp [*]
      all_goals simp +contextual [*]
    · next t rest hq =>
      generalize (((s.modThread T fun x => { x with loop := .exhaust }).thread T).group) = g at hq
      simp only [Sys.modThread_globalReadylist] at hq ⊢
      have hg : s.place t = .global g := (hglobal g t).1 (by simp [hq])
      have hct : (s.thread T).currentTask ≠ t := by
        rintro rfl
        simp [hcur] at hg
      have hmt : (s.thread T).theMaintask ≠ t := by
        rintro rfl
        simp [hmain] at hg
      have hrest : rest.Nodup ∧ t ∉ rest := (List.nodup_cons.1 (hq ▸ hgn g)).symm
      have hglobal1 : ∀ j u, u ≠ t →
          (u ∈ Function.update s.globalReadylist g rest j ↔ u ∈ s.globalReadylist j) := by
        intro j u hu
        exact mem_setChain (by simp [hq, hu]) j
      have hglobal2 : ∀ j, t ∉ Function.update s.globalReadylist g rest j := by
        intro j
        by_cases hj : j = g
        · subst hj
          simp [hrest.2]
        · simp [hj, Ne.symm hj, hglobal, hg]
      have hglobal3 : ∀ j, (Function.update s.globalReadylist g rest j).Nodup :=
        Distinct.set hgn hrest.1
      unfold Sys.setOp
      refine ⟨t, ?_⟩
      apply Local.change h <;> constructor
      case ok => constructor <;> simp [*]
      all_goals simp +contextual [*]
  · refine ⟨0, ?_⟩
    exact h.setLoop_change hop nofun


/-- The current task and the maintask of a thread that holds another task. -/
theorem Shape.holding (h : Shape s) (hheld : (s.thread T).held = some t)
    (hp : s.place t ≠ .ready T) :
    ((s.thread T).runs = true →
      s.place (s.thread T).currentTask = .ready T ∧ (s.thread T).currentTask ≠ t) ∧
    ((s.thread T).hasMaintask = true →
      s.place (s.thread T).theMaintask = .ready T ∧ (s.thread T).theMaintask ≠ t) := by
  refine ⟨fun hr => ?_, fun hr => ?_⟩
  · have hcur := (h.threads T).current hr
    refine ⟨hcur, ?_⟩
    rintro rfl
    exact hp hcur
  · have hmain := (h.threads T).maintask hr
    refine ⟨hmain, ?_⟩
    rintro rfl
    exact hp hmain

theorem Shape.starting_change (h : Shape s) (hop : (s.thread T).op = .starting t)
    (hs : s.go T = some s') : Change s s' T a t := by
  obtain ⟨hthreads, hready, hwait, hglobal, hheld, hhome, hwn, hgn⟩ := id h
  have hnd U := (hthreads U).nodup
  have hh : (s.thread T).held = some t := by simp [Thread.held, hop]
  have hp : s.place t = .creating T := by simpa [Thread.Stage, hop] using (hthreads T).stage t hh
  obtain ⟨hcur, hmain⟩ := (hthreads T).starts t (.inl hop)
  simp only [Sys.go, hop, Option.some.injEq] at hs
  subst hs
  unfold Sys.addLocal Sys.setOp
  apply Local.change h <;> constructor
  case ok => constructor <;> simp [*]
  all_goals simp +contextual [*]

theorem Shape.startInserting_change (h : Shape s) (hop : (s.thread T).op = .startInserting t)
    (hs : s.go T = some s') : Change s s' T a t := by
  obtain ⟨hthreads, hready, hwait, hglobal, hheld, hhome, hwn, hgn⟩ := id h
  have hnd U := (hthreads U).nodup
  have hh : (s.thread T).held = some t := by simp [Thread.held, hop]
  have hp : s.place t = .inserting T := by simpa [Thread.Stage, hop] using (hthreads T).stage t hh
  obtain ⟨hcur, hmain⟩ := (hthreads T).starts t (.inr hop)
  have hsch := hhome t T (by simp [hp, Place.home])
  have happ := append_singleton_nodup (by simp [hready, hp, Place.listed]) (hnd T) (x := t)
  simp only [Sys.go, hop, Option.some.injEq] at hs
  subst hs
  apply Local.change h <;> constructor
  case ok => constructor <;> simp [*]
  all_goals simp +contextual [*]

theorem Shape.creating_change (h : Shape s) (hop : (s.thread T).op = .creating t)
    (hs : s.go T = some s') : Change s s' T a 0 := by
  have hnd := h.nodup T
  have hh : (s.thread T).held = some t := by simp [Thread.held, hop]
  have hp : s.place t = .creating T := by
    simpa [Thread.Stage, hop] using (h.threads T).stage t hh
  obtain ⟨hcur, hct⟩ := (h.holding hh (by simp [hp])).1 (by simp [Thread.runs, hop])
  obtain ⟨hmain, hmt⟩ :=
    (h.holding hh (by simp [hp])).2 (by simp [Thread.hasMaintask, Thread.runs, hop])
  simp only [Sys.go, hop, Option.some.injEq] at hs
  subst hs
  unfold Sys.setOp
  split
  · apply Still.change h <;> constructor
    case ok => constructor <;> simp [*]
    all_goals simp +contextual [*]
  · apply Still.change h <;> constructor
    case ok => constructor <;> simp [*]
    all_goals simp +contextual [*]

/-- What appending to one list of a family does to membership. -/
theorem Shape.append_global (h : Shape s) (hp : ∀ g, s.place t ≠ .global g) (g : Group) :
    (∀ j u, u ≠ t → (u ∈ Function.update s.globalReadylist g (s.globalReadylist g ++ [t]) j ↔
      u ∈ s.globalReadylist j)) ∧
    (∀ j, t ∈ Function.update s.globalReadylist g (s.globalReadylist g ++ [t]) j ↔
      Place.global g = .global j) ∧
    ∀ j, (Function.update s.globalReadylist g (s.globalReadylist g ++ [t]) j).Nodup := by
  refine ⟨?_, ?_, ?_⟩
  · intro j u hu
    exact mem_setChain (by simp [hu]) j
  · intro j
    by_cases hj : j = g
    · subst hj
      simp
    · simp [hj, Ne.symm hj, h.global, hp]
  · have hnd := append_singleton_nodup (by simp [h.global, hp]) (h.globalNodup g) (x := t)
    exact Distinct.set h.globalNodup hnd

theorem Shape.overflowing_change (h : Shape s) (hop : (s.thread T).op = .overflowing t)
    (hs : s.go T = some s') : Change s s' T a t := by
  obtain ⟨hthreads, hready, hwait, hglobal, hheld, hhome, hwn, hgn⟩ := id h
  have hnd U := (hthreads U).nodup
  have hh : (s.thread T).held = some t := by simp [Thread.held, hop]
  have hp : s.place t = .creating T := by simpa [Thread.Stage, hop] using (hthreads T).stage t hh
  obtain ⟨hcur, hct⟩ := (h.holding hh (by simp [hp])).1 (by simp [Thread.runs, hop])
  obtain ⟨hmain, hmt⟩ := (h.holding hh (by simp [hp])).2
    (by simp [Thread.hasMaintask, Thread.runs, hop])
  obtain ⟨hglobal1, hglobal2, hglobal3⟩ := h.append_global (t := t) (by simp [hp]) (s.group t)
  simp only [Sys.go, hop, Option.some.injEq] at hs
  subst hs
  unfold Sys.pushIntoGlobalReadyList Sys.setOp
  apply Local.change h <;> constructor
  case ok => constructor <;> simp [*]
  all_goals simp +contextual [*]

theorem Shape.settling_change (h : Shape s) (hop : (s.thread T).op = .settling t)
    (hs : s.go T = some s') : Change s s' T a t := by
  obtain ⟨hthreads, hready, hwait, hglobal, hheld, hhome, hwn, hgn⟩ := id h
  have hnd U := (hthreads U).nodup
  have hh : (s.thread T).held = some t := by simp [Thread.held, hop]
  have hp : s.place t = .creating T := by simpa [Thread.Stage, hop] using (hthreads T).stage t hh
  obtain ⟨hcur, hct⟩ := (h.holding hh (by simp [hp])).1 (by simp [Thread.runs, hop])
  obtain ⟨hmain, hmt⟩ := (h.holding hh (by simp [hp])).2
    (by simp [Thread.hasMaintask, Thread.runs, hop])
  simp only [Sys.go, hop, Option.some.injEq] at hs
  subst hs
  unfold Sys.addLocal Sys.setOp
  apply Local.change h <;> constructor
  case ok => constructor <;> simp [*]
  all_goals simp +contextual [*]

theorem Shape.inserting_change (h : Shape s) (hop : (s.thread T).op = .inserting t)
    (hs : s.go T = some s') : Change s s' T a t := by
  obtain ⟨hthreads, hready, hwait, hglobal, hheld, hhome, hwn, hgn⟩ := id h
  have hnd U := (hthreads U).nodup
  have hh : (s.thread T).held = some t := by simp [Thread.held, hop]
  have hp : s.place t = .inserting T := by simpa [Thread.Stage, hop] using (hthreads T).stage t hh
  obtain ⟨hcur, hct⟩ := (h.holding hh (by simp [hp])).1 (by simp [Thread.runs, hop])
  obtain ⟨hmain, hmt⟩ := (h.holding hh (by simp [hp])).2
    (by simp [Thread.hasMaintask, Thread.runs, hop])
  have hsch := hhome t T (by simp [hp, Place.home])
  have hins := insertBefore_nodup (y := (s.thread T).theMaintask)
    (by simp [hready, hp, Place.listed]) (hnd T) (x := t)
  simp only [Sys.go, hop, Option.some.injEq] at hs
  subst hs
  unfold Sys.insertBeforeMaintask Sys.setOp
  apply Local.change h <;> constructor
  case ok => constructor <;> simp [*]
  all_goals simp +contextual [*]

theorem Shape.exiting_change {b : Bool} (h : Shape s) (hop : (s.thread T).op = .exiting b)
    (hs : s.go T = some s') : Change s s' T a (s.thread T).currentTask := by
  obtain ⟨hthreads, hready, hwait, hglobal, hheld, hhome, hwn, hgn⟩ := id h
  have hnd U := (hthreads U).nodup
  have hh : (s.thread T).held = some (s.thread T).currentTask := by simp [Thread.held, hop]
  have hp : s.place (s.thread T).currentTask = .exiting T := by
    simpa [Thread.Stage, hop] using (hthreads T).stage _ hh
  have hb := (hthreads T).exits b (.inl hop)
  have hmain := (h.holding hh (by simp [hp])).2
  have hsch := hhome (s.thread T).currentTask T (by simp [hp, Place.home])
  cases b with
  | true =>
    have he := (hb.1 rfl).symm
    simp only [Sys.go, hop, hsch, Option.map_some, Option.some.injEq] at hs
    subst hs
    unfold Sys.addLocal Sys.setOp
    apply Local.change h <;> constructor
    case ok => constructor <;> simp [*]
    case local_ => simp [*, Int.sub_eq_add_neg]
    all_goals simp +contextual [*]
  | false =>
    have he : (s.thread T).currentTask ≠ (s.thread T).theMaintask := by simpa using hb
    obtain ⟨hm, hmt⟩ := hmain (by simp [Thread.hasMaintask, hop])
    simp only [Sys.go, hop, hsch, Option.map_some, Option.some.injEq] at hs
    subst hs
    unfold Sys.addLocal Sys.setOp
    apply Local.change h <;> constructor
    case ok => constructor <;> simp [*]
    case local_ => simp [*, Int.sub_eq_add_neg]
    all_goals simp +contextual [*]

theorem Shape.extracting_change {b : Bool} (h : Shape s) (hop : (s.thread T).op = .extracting b)
    (hs : s.go T = some s') : Change s s' T a (s.thread T).currentTask := by
  obtain ⟨hthreads, hready, hwait, hglobal, hheld, hhome, hwn, hgn⟩ := id h
  have hnd U := (hthreads U).nodup
  have hh : (s.thread T).held = some (s.thread T).currentTask := by simp [Thread.held, hop]
  have hp : s.place (s.thread T).currentTask = .leaving T := by
    simpa [Thread.Stage, hop] using (hthreads T).stage _ hh
  have hb := (hthreads T).exits b (.inr hop)
  have hmain := (h.holding hh (by simp [hp])).2
  have hsch := hhome (s.thread T).currentTask T (by simp [hp, Place.home])
  have herase := (hnd T).erase (s.thread T).currentTask
  have hmem u := (hnd T).mem_erase_iff (a := u) (b := (s.thread T).currentTask)
  cases b with
  | true =>
    have he := (hb.1 rfl).symm
    simp only [Sys.go, hop, hsch, Option.map_some, Option.some.injEq] at hs
    subst hs
    unfold Sys.setOp
    apply Local.change h <;> constructor
    case ok => constructor <;> simp [*]
    case switching => exact .inr (.quit (by simp [*]) (by simp) (by simp) (by simp))
    all_goals simp +contextual [*]
  | false =>
    have he : (s.thread T).currentTask ≠ (s.thread T).theMaintask := by simpa using hb
    obtain ⟨hm, hmt⟩ := hmain (by simp [Thread.hasMaintask, hop])
    simp only [Sys.go, hop, hsch, Option.map_some, Option.some.injEq] at hs
    subst hs
    unfold Sys.setOp
    apply Local.change h <;> constructor
    case ok => constructor <;> simp [*]
    case switching => exact .inr (.quit (by simp [*]) (by simp) (by simp) (by simp))
    all_goals simp +contextual [*]

theorem Shape.swapping_change {prev : TaskId} (h : Shape s) (hop : (s.thread T).op = .swapping prev)
    (hs : s.go T = some s') : Change s s' T a 0 := by
  have hnd := h.nodup T
  have hcur := (h.threads T).current (by simp [Thread.runs, hop])
  have hmain := (h.threads T).maintask (by simp [Thread.hasMaintask, Thread.runs, hop])
  simp only [Sys.go, hop, Option.some.injEq] at hs
  subst hs
  unfold Sys.setOp
  apply Still.change h <;> constructor
  case ok => constructor <;> simp [*]
  case switching => exact .inr (.swap prev hop (by simp) (by simp))
  all_goals simp +contextual [*]

theorem Shape.finishing_change (h : Shape s) (hop : (s.thread T).op = .finishing)
    (hs : s.go T = some s') : Change s s' T a 0 := by
  have hnd := h.nodup T
  have hmain := (h.threads T).maintask (by simp [Thread.hasMaintask, Thread.runs, hop])
  have hcur := (h.threads T).finishing hop
  simp only [Sys.go, hop, Option.some.injEq] at hs
  subst hs
  unfold Sys.setOp
  apply Still.change h <;> constructor
  case ok => constructor <;> simp [*]
  case switching => exact .inr (.enter hop (by simp) (by simp))
  all_goals simp +contextual [*]

theorem Shape.stopped_change (h : Shape s) (hop : (s.thread T).op = .stopped)
    (hs : s.go T = some s') : Change s s' T a 0 := by
  have hnd := h.nodup T
  simp only [Sys.go, hop, Option.some.injEq] at hs
  subst hs
  unfold Sys.setOp
  apply Still.change h <;> constructor
  case ok => constructor <;> simp [*]
  case roster => exact .inr (.leave hop (by simp) (by simp) (by simp))
  all_goals simp +contextual [*]

theorem Shape.waking_change {b : Bool} (h : Shape s) (hop : (s.thread T).op = .waking w b)
    (hs : s.go T = some s') : Change s s' T a w := by
  obtain ⟨hthreads, hready, hwait, hglobal, hheld, hhome, hwn, hgn⟩ := id h
  have hnd U := (hthreads U).nodup
  have hh : (s.thread T).held = some w := by simp [Thread.held, hop]
  obtain ⟨V, hp⟩ : ∃ U, s.place w = .woken U T := by
    simpa [Thread.Stage, hop] using (hthreads T).stage _ hh
  have hcur := (h.holding hh (by simp [hp])).1
  obtain ⟨hmain, hmt⟩ := (h.holding hh (by simp [hp])).2
    (by simp [Thread.hasMaintask, Thread.runs, hop])
  have hsch := hhome w V (by simp [hp, Place.home])
  have hins := insertBefore_nodup (y := (s.thread V).theMaintask)
    (by simp [hready, hp, Place.listed]) (hnd V) (x := w)
  have hins' U := Sys.insertBeforeMaintask_nodup (s := s) (T := V) (t := w)
    (by simp [hready, hp, Place.listed]) (hnd U)
  have hweight (U : ThreadId) : (s.thread U).nLocalFibTasks + (if V = U then -1 else 0) =
      (s.thread U).nLocalFibTasks - (s.place w).weightAt U + (Place.transit T).weightAt U := by
    simp only [hp, Place.weightAt, Place.countedAt, Option.some.injEq]
    split <;> simp [Int.sub_eq_add_neg]
  simp only [Sys.go, hop, hsch] at hs
  split at hs
  · next hsame =>
    clear hsame
    cases hs
    cases b with
    | true =>
      apply Remote.change h <;> constructor
      case ok => constructor <;> simp [*]
      all_goals simp +contextual [*]
    | false =>
      obtain ⟨hcur, hct⟩ := hcur (by simp [hop])
      apply Remote.change h <;> constructor
      case ok => constructor <;> simp [*]
      all_goals simp +contextual [*]
  · next hsame =>
    clear hsame
    cases hs
    cases b with
    | true =>
      apply Remote.change h <;> constructor
      case ok => constructor <;> simp [*]
      case local_ =>
        intro U
        simpa [hp] using hweight U
      all_goals simp +contextual [*]
    | false =>
      obtain ⟨hcur, hct⟩ := hcur (by simp [hop])
      apply Remote.change h <;> constructor
      case ok => constructor <;> simp [*]
      case local_ =>
        intro U
        simpa [hp] using hweight U
      all_goals simp +contextual [*]

theorem Shape.pushing_change {b : Bool} (h : Shape s) (hop : (s.thread T).op = .pushing w b)
    (hs : s.go T = some s') : Change s s' T a w := by
  obtain ⟨hthreads, hready, hwait, hglobal, hheld, hhome, hwn, hgn⟩ := id h
  have hnd U := (hthreads U).nodup
  have hh : (s.thread T).held = some w := by simp [Thread.held, hop]
  have hp : s.place w = .transit T := by simpa [Thread.Stage, hop] using (hthreads T).stage _ hh
  have hcur := (h.holding hh (by simp [hp])).1
  obtain ⟨hmain, hmt⟩ := (h.holding hh (by simp [hp])).2
    (by simp [Thread.hasMaintask, Thread.runs, hop])
  obtain ⟨hglobal1, hglobal2, hglobal3⟩ := h.append_global (t := w) (by simp [hp]) (s.group w)
  simp only [Sys.go, hop, Option.some.injEq] at hs
  subst hs
  unfold Sys.pushIntoGlobalReadyList Sys.setOp
  cases b with
  | true =>
    apply Local.change h <;> constructor
    case ok => constructor <;> simp [*]
    all_goals simp +contextual [*]
  | false =>
    obtain ⟨hcur, hct⟩ := hcur (by simp [Thread.runs, hop])
    apply Local.change h <;> constructor
    case ok => constructor <;> simp [*]
    all_goals simp +contextual [*]

theorem Shape.taking_change (h : Shape s) (hop : (s.thread T).op = .taking t)
    (hs : s.go T = some s') : Change s s' T a t := by
  obtain ⟨hthreads, hready, hwait, hglobal, hheld, hhome, hwn, hgn⟩ := id h
  have hnd U := (hthreads U).nodup
  have hh : (s.thread T).held = some t := by simp [Thread.held, hop]
  have hp : s.place t = .taking T := by simpa [Thread.Stage, hop] using (hthreads T).stage t hh
  obtain ⟨hcur, hct⟩ := (h.holding hh (by simp [hp])).1 (by simp [Thread.runs, hop])
  obtain ⟨hmain, hmt⟩ := (h.holding hh (by simp [hp])).2
    (by simp [Thread.hasMaintask, Thread.runs, hop])
  have hsch := hhome t T (by simp [hp, Place.home])
  have hins := insertBefore_nodup (y := (s.thread T).theMaintask)
    (by simp [hready, hp, Place.listed]) (hnd T) (x := t)
  simp only [Sys.go, hop, Option.some.injEq] at hs
  subst hs
  unfold Sys.insertBeforeMaintask Sys.setOp
  apply Local.change h <;> constructor
  case ok => constructor <;> simp [*]
  all_goals simp +contextual [*]

theorem Shape.counting_change (h : Shape s) (hop : (s.thread T).op = .counting t)
    (hs : s.go T = some s') : Change s s' T a t := by
  obtain ⟨hthreads, hready, hwait, hglobal, hheld, hhome, hwn, hgn⟩ := id h
  have hnd U := (hthreads U).nodup
  have hh : (s.thread T).held = some t := by simp [Thread.held, hop]
  have hp : s.place t = .counting T := by simpa [Thread.Stage, hop] using (hthreads T).stage t hh
  obtain ⟨hcur, hct⟩ := (h.holding hh (by simp [hp])).1 (by simp [Thread.runs, hop])
  obtain ⟨hmain, hmt⟩ := (h.holding hh (by simp [hp])).2
    (by simp [Thread.hasMaintask, Thread.runs, hop])
  have hsch := hhome t T (by simp [hp, Place.home])
  simp only [Sys.go, hop, Option.some.injEq] at hs
  subst hs
  unfold Sys.addLocal Sys.setOp
  apply Local.change h <;> constructor
  case ok => constructor <;> simp [*]
  all_goals simp +contextual [*]

/-- What the next step of an operation changes. -/
theorem Shape.go_change (h : Shape s) (hs : s.go T = some s') : ∃ t, Change s s' T a t := by
  cases hop : (s.thread T).op with
  | starting t => exact ⟨_, h.starting_change hop hs⟩
  | startInserting t => exact ⟨_, h.startInserting_change hop hs⟩
  | creating t => exact ⟨_, h.creating_change hop hs⟩
  | overflowing t => exact ⟨_, h.overflowing_change hop hs⟩
  | settling t => exact ⟨_, h.settling_change hop hs⟩
  | inserting t => exact ⟨_, h.inserting_change hop hs⟩
  | exiting b => exact ⟨_, h.exiting_change hop hs⟩
  | extracting b => exact ⟨_, h.extracting_change hop hs⟩
  | finishing => exact ⟨_, h.finishing_change hop hs⟩
  | stopped => exact ⟨_, h.stopped_change hop hs⟩
  | blocked =>
    rw [Sys.go, hop] at hs
    exact ⟨_, h.fiberSched_change (.inl hop) hs⟩
  | yielded =>
    rw [Sys.go, hop] at hs
    exact ⟨_, h.fiberSched_change (.inr hop) hs⟩
  | swapping prev => exact ⟨_, h.swapping_change hop hs⟩
  | waking w b => exact ⟨_, h.waking_change hop hs⟩
  | pushing w b => exact ⟨_, h.pushing_change hop hs⟩
  | taking t => exact ⟨_, h.taking_change hop hs⟩
  | counting t => exact ⟨_, h.counting_change hop hs⟩
  | absent | joined | idle | gone =>
    rw [Sys.go, hop] at hs
    cases hs

theorem inCode_op {pcs : List LoopPc} (h : s.inCode T pcs = true) : (s.thread T).op = .idle := by
  simp [Sys.inCode] at h
  exact h.1

theorem inLoop_op {pc : LoopPc} (h : s.inLoop T pc = true) : (s.thread T).op = .idle ∧
    (s.thread T).currentTask = (s.thread T).theMaintask ∧ (s.thread T).loop = pc := by
  simp [Sys.inLoop] at h
  exact ⟨h.1.1, h.1.2, h.2⟩

/-- **Every step changes what `Change` allows.** -/
theorem Shape.step_change {m : Move} (h : Shape s) (hs : s.step m = some s') :
    ∃ t, Change s s' m.thread m.act t := by
  obtain ⟨T, a⟩ := m
  cases a with
  | go => exact h.go_change hs
  | join =>
    simp only [Sys.step, Option.ite_none_right_eq_some, Option.some.injEq] at hs
    obtain ⟨hop, rfl⟩ := hs
    exact ⟨_, h.join_change hop⟩
  | start t g =>
    simp only [Sys.step, Option.ite_none_right_eq_some, Option.some.injEq, Bool.and_eq_true,
      decide_eq_true_eq] at hs
    obtain ⟨⟨hop, hfree⟩, rfl⟩ := hs
    exact ⟨_, h.start_change hop hfree⟩
  | create t g =>
    simp only [Sys.step, Option.ite_none_right_eq_some, Option.some.injEq, Bool.and_eq_true,
      decide_eq_true_eq] at hs
    obtain ⟨⟨hin, hfree⟩, rfl⟩ := hs
    exact ⟨_, h.fiberCreate_change (inCode_op hin) hfree⟩
  | exit =>
    simp only [Sys.step, Option.ite_none_right_eq_some, Option.some.injEq] at hs
    obtain ⟨hin, rfl⟩ := hs
    exact ⟨_, h.cppTaskmain_change (inCode_op hin)⟩
  | block i =>
    simp only [Sys.step, Option.ite_none_right_eq_some, Option.some.injEq] at hs
    obtain ⟨hin, rfl⟩ := hs
    have hne : (s.thread T).currentTask ≠ (s.thread T).theMaintask := by
      simp [Sys.inCode] at hin
      exact hin.2
    exact ⟨_, h.block_change (inCode_op hin) hne⟩
  | yield =>
    simp only [Sys.step, Option.ite_none_right_eq_some, Option.some.injEq] at hs
    obtain ⟨hin, rfl⟩ := hs
    exact ⟨_, h.fiberSchedYield_change (inCode_op hin)⟩
  | wake i =>
    simp only [Sys.step, Option.ite_none_right_eq_some, Bool.or_eq_true, decide_eq_true_eq] at hs
    obtain ⟨hin, hs⟩ := hs
    exact h.wake_change (hin.imp_left inCode_op) hs
  | tickle i w =>
    simp only [Sys.step, Option.ite_none_right_eq_some, Option.some.injEq, Bool.and_eq_true,
      decide_eq_true_eq] at hs
    obtain ⟨⟨⟨hin, hw⟩, hsch⟩, rfl⟩ := hs
    exact ⟨_, h.tickle_change (inLoop_op hin).1 hw hsch⟩
  | startLoop =>
    simp only [Sys.step, Option.ite_none_right_eq_some, Option.some.injEq] at hs
    obtain ⟨hin, rfl⟩ := hs
    exact ⟨_, h.setLoop_change (inLoop_op hin).1 nofun⟩
  | balance =>
    simp only [Sys.step, Option.ite_none_right_eq_some, Option.some.injEq] at hs
    obtain ⟨hin, rfl⟩ := hs
    exact h.balance_change (inLoop_op hin).1
  | exhaust =>
    simp only [Sys.step, Option.ite_none_right_eq_some] at hs
    obtain ⟨hin, hs⟩ := hs
    split at hs
    · cases hs
      exact ⟨_, h.fiberSchedYield_change (inLoop_op hin).1⟩
    · cases hs
      exact ⟨_, h.setLoop_change (inLoop_op hin).1 nofun⟩
  | loopEnd =>
    simp only [Sys.step, Option.ite_none_right_eq_some, Option.some.injEq] at hs
    obtain ⟨hin, rfl⟩ := hs
    obtain ⟨hop, hcur, hpc⟩ := inLoop_op hin
    refine ⟨_, h.setLoop_change hop ?_⟩
    intro hl
    split at hl
    · next hn => exact ⟨rfl, hcur, hn⟩
    · cases hl

/-! ## All reachable states -/

theorem shape_init : Shape init where
  threads T := by
    constructor <;> simp [init, Thread.held, Thread.runs, Thread.hasMaintask]
  ready := by simp [init, Place.listed]
  wait := by simp [init, Place.queue]
  global := by simp [init]
  held := by simp [init, Thread.held, Place.holder]
  home := by simp [init, Place.home]
  waitNodup := by simp [init]
  globalNodup := by simp [init]

theorem counts_init : Counts init := by
  refine ⟨?_, ?_, ?_⟩ <;> simp [init, Place.countedAt, Place.counted]

structure Inv (s : Sys) : Prop where
  shape : Shape s
  counts : Counts s

theorem Inv.init : Inv init := ⟨shape_init, counts_init⟩

theorem Inv.step {m : Move} (h : Inv s) (hs : s.step m = some s') :
    ∃ t, Change s s' m.thread m.act t ∧ Inv s' := by
  obtain ⟨t, hc⟩ := h.shape.step_change hs
  exact ⟨t, hc, h.shape.change hc, h.counts.change hc⟩

end Ptask.MN
