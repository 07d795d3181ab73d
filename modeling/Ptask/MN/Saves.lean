import Ptask.MN.Accounting

/-!
# Registers are saved before they are loaded

A task that blocks is in a wait queue before `swap_context` has saved its registers. A waker on
another thread may take it off the queue and put it on a global ready list in the meantime; whether
a third thread can then load registers that are not saved depends on when it takes the task.
-/

namespace Ptask.MN

open Ptask.Lib

variable {s s' : Sys} {m : Move} {T U : ThreadId} {a : Act} {t u : TaskId}

/-- The task that the operation has taken, if any, is saved. -/
def Op.takesSaved (saved : TaskId → Bool) : Op → Bool
  | .taking t => saved t
  | _ => true

/-- A thread puts a task that it has taken off a global ready list on its own ready list only when
the registers of the task have been saved. -/
def TakesSaved (s : Sys) (m : Move) : Prop :=
  ∀ t, (s.thread m.thread).op = .taking t → s.saved t = true

theorem takesSaved_iff :
    (s.thread m.thread).op.takesSaved s.saved = true ↔ TakesSaved s m := by
  unfold TakesSaved
  cases (s.thread m.thread).op <;> simp [Op.takesSaved]

instance : Decidable (TakesSaved s m) := decidable_of_iff _ takesSaved_iff

/-- `swap_context` into the current task is the next step of the thread. -/
def Thread.loads (x : Thread) : Bool :=
  match x.op with
  | .swapping _ | .finishing => true
  | _ => false

/-- `current_task` is a task of the thread. -/
def Thread.hasTask (x : Thread) : Bool :=
  match x.op with
  | .absent | .joined | .stopped | .gone => false
  | _ => true

/-- No thread loads registers that are not saved, and no task is current on two threads. -/
structure Sound (s : Sys) : Prop where
  saved : ∀ T, (s.thread T).loads = true → s.saved (s.thread T).currentTask = true
  alone : ∀ T U, (s.thread T).hasTask = true → (s.thread U).hasTask = true →
    (s.thread T).currentTask = (s.thread U).currentTask → T = U

/-- The registers that are not saved are those of the tasks that the threads execute. -/
structure Saves (s : Sys) : Prop where
  unsaved : ∀ t, s.place t ≠ .free →
    (s.saved t = false ↔ ∃ T, (s.thread T).executing = some t)
  mayRun : ∀ T t, (s.thread T).executing = some t → (s.place t).mayRun T
  unique : ∀ T U t, (s.thread T).executing = some t → (s.thread U).executing = some t → T = U
  swaps : ∀ T prev, (s.thread T).op = .swapping prev → prev ≠ (s.thread T).currentTask

/-! ## One step -/

theorem Change.executing_of_ne (hc : Change s s' T a t) (hU : U ≠ T) :
    (s'.thread U).executing = (s.thread U).executing := by
  obtain ⟨hop, hcur, -⟩ := hc.thread U hU
  simp only [Thread.executing, hop, hcur]

/-- Where a thread may run a task it still may after the step of another, unless that one takes the
task; and after its own, unless it has stopped executing. -/
theorem Change.mayRun_of (hc : Change s s' T a t) (hu : (s.place u).mayRun U) :
    (s'.place u).mayRun U ∨ T = U ∧ (s'.thread T).executing = none ∨
      (s.thread T).op = .taking u := by
  by_cases hut : u = t
  · subst hut
    exact hc.mayRun U hu
  · exact .inl (by rwa [hc.place u hut])

theorem Saves.not_free (h : Saves s) (hu : (s.thread U).executing = some u) :
    s.place u ≠ .free := by
  intro hfree
  have hmay := h.mayRun U u hu
  rw [hfree] at hmay
  exact hmay

/-- The current task of a thread that is about to load it is on the thread's own ready list. -/
theorem Shape.loading (h : Shape s) (hl : (s.thread T).loads = true) :
    s.place (s.thread T).currentTask = .ready T := by
  cases hop : (s.thread T).op with
  | swapping prev => exact (h.threads T).current (by simp [Thread.runs, hop])
  | finishing =>
    rw [(h.threads T).finishing hop]
    exact (h.threads T).maintask (by simp [Thread.hasMaintask, Thread.runs, hop])
  | _ => simp [Thread.loads, hop] at hl

/-- The task that a thread is about to load is executed by no thread. -/
theorem Saves.not_executing (h : Saves s) (hs : Shape s) (hl : (s.thread T).loads = true) :
    (s.thread U).executing ≠ some (s.thread T).currentTask := by
  intro hu
  have hmay := h.mayRun U _ hu
  rw [hs.loading hl] at hmay
  have hTU : T = U := hmay
  subst hTU
  cases hop : (s.thread T).op with
  | swapping prev =>
    rw [Thread.executing, hop, Option.some.injEq] at hu
    exact h.swaps T prev hop hu
  | finishing => simp [Thread.executing, hop] at hu
  | _ => simp [Thread.loads, hop] at hl

theorem Saves.sound (h : Saves s) (hs : Shape s) : Sound s := by
  refine ⟨?_, ?_⟩
  · intro T hl
    by_contra hsaved
    have hfree : s.place (s.thread T).currentTask ≠ .free := by simp [hs.loading hl]
    obtain ⟨U, hU⟩ := (h.unsaved _ hfree).1 (by simpa using hsaved)
    exact h.not_executing hs hl hU
  · -- a current task is executed, or about to be
    have hcur (T : ThreadId) (ht : (s.thread T).hasTask = true) :
        (s.thread T).loads = true ∨ (s.thread T).executing = some (s.thread T).currentTask := by
      cases hop : (s.thread T).op <;>
        simp [Thread.hasTask, Thread.loads, Thread.executing, hop] at ht ⊢
    intro T U hT hU he
    rcases hcur T hT with hlT | hxT
    · rcases hcur U hU with hlU | hxU
      · have hT' := hs.loading hlT
        rw [he, hs.loading hlU] at hT'
        exact (Place.ready.inj hT').symm
      · exact absurd (he ▸ hxU) (h.not_executing hs hlT)
    · rcases hcur U hU with hlU | hxU
      · exact absurd (he ▸ hxT) (h.not_executing hs hlU)
      · exact h.unique T U _ hxT (he ▸ hxU)

/-- What a thread executes after a step, it has executed before, or has just loaded or created. -/
theorem Change.executing (hc : Change s s' T a t) (hu : (s'.thread T).executing = some u) :
    (s.thread T).executing = some u ∨
      (s.thread T).loads = true ∧ u = (s.thread T).currentTask ∨
      s.place u = .free ∧ s'.place u = .creating T := by
  rcases hc.switching with ⟨he, -⟩ | ⟨-, -, he, -⟩ | ⟨v, hfree, -, he', hp', -⟩ | ⟨-, he', -⟩ |
    ⟨prev, hop, he', -⟩ | ⟨hop, he', -⟩
  · exact .inl (he ▸ hu)
  · exact .inl (he ▸ hu)
  · obtain rfl := Option.some.inj (he'.symm.trans hu)
    exact .inr (.inr ⟨hfree, hp'⟩)
  · simp [he'] at hu
  · exact .inr (.inl ⟨by simp [Thread.loads, hop], Option.some.inj (hu.symm.trans he')⟩)
  · exact .inr (.inl ⟨by simp [Thread.loads, hop], Option.some.inj (hu.symm.trans he')⟩)

theorem Saves.mayRun_step (h : Saves s) (hs : Shape s) (hc : Change s s' T a t)
    (hok : ∀ t, (s.thread T).op = .taking t → s.saved t = true) :
    ∀ U u, (s'.thread U).executing = some u → (s'.place u).mayRun U := by
  intro U u hu
  -- a task that is executed is not saved, so that nobody has taken it
  have hkept (hx : (s.thread U).executing = some u) : (s'.place u).mayRun U := by
    rcases hc.mayRun_of (h.mayRun U u hx) with hmay | ⟨rfl, hnone⟩ | hop
    · exact hmay
    · simp [hnone] at hu
    · have hunsaved := (h.unsaved u (h.not_free hx)).2 ⟨U, hx⟩
      simp [hok u hop] at hunsaved
  by_cases hU : U = T
  · subst hU
    rcases hc.executing hu with hx | ⟨hl, rfl⟩ | ⟨-, hp⟩
    · exact hkept hx
    · have hready : (s.place (s.thread U).currentTask).mayRun U := by
        rw [hs.loading hl]
        rfl
      rcases hc.mayRun_of hready with hmay | ⟨-, hnone⟩ | hop
      · exact hmay
      · simp [hnone] at hu
      · simp [Thread.loads, hop] at hl
    · rw [hp]
      rfl
  · rw [hc.executing_of_ne hU] at hu
    exact hkept hu

theorem Saves.unique_step (h : Saves s) (hs : Shape s) (hc : Change s s' T a t) :
    ∀ U V u, (s'.thread U).executing = some u → (s'.thread V).executing = some u → U = V := by
  have hone (V : ThreadId) (u : TaskId) (hV : V ≠ T) (hT : (s'.thread T).executing = some u)
      (hx : (s'.thread V).executing = some u) : False := by
    rw [hc.executing_of_ne hV] at hx
    rcases hc.executing hT with hx' | ⟨hl, rfl⟩ | ⟨hfree, -⟩
    · exact hV (h.unique V T u hx hx')
    · exact h.not_executing hs hl hx
    · exact h.not_free hx hfree
  intro U V u hU hV
  by_cases hUT : U = T
  · by_cases hVT : V = T
    · rw [hUT, hVT]
    · exact (hone V u hVT (hUT ▸ hU) hV).elim
  · by_cases hVT : V = T
    · exact (hone U u hUT (hVT ▸ hV) hU).elim
    · rw [hc.executing_of_ne hUT] at hU
      rw [hc.executing_of_ne hVT] at hV
      exact h.unique U V u hU hV

/-- Only the task that the step moves can come to life. -/
theorem Saves.unsaved_born (h : Saves s) (hc : Change s s' T a t) (hfree : s.place u = .free)
    (hu : s'.place u ≠ .free) :
    s'.saved u = false ↔ ∃ U, (s'.thread U).executing = some u := by
  have hut : u = t := by
    by_contra hut
    exact hu (hc.place u hut ▸ hfree)
  subst hut
  rw [(hc.born hfree).resolve_left hu]
  refine ⟨fun hx => ⟨T, hx⟩, ?_⟩
  rintro ⟨U, hx⟩
  by_cases hU : U = T
  · exact hU ▸ hx
  · rw [hc.executing_of_ne hU] at hx
    exact absurd hfree (h.not_free hx)

theorem Saves.unsaved_step (h : Saves s) (hc : Change s s' T a t) :
    ∀ u, s'.place u ≠ .free → (s'.saved u = false ↔ ∃ U, (s'.thread U).executing = some u) := by
  intro u hu
  by_cases hfree : s.place u = .free
  · exact h.unsaved_born hc hfree hu
  have hold := h.unsaved u hfree
  -- a step after which `T` executes what `u` is compared with
  have hiff (hT : (s'.thread T).executing = some u ↔ (s.thread T).executing = some u) :
      (∃ U, (s'.thread U).executing = some u) ↔ ∃ U, (s.thread U).executing = some u := by
    apply exists_congr
    intro U
    by_cases hU : U = T
    · exact hU ▸ hT
    · rw [hc.executing_of_ne hU]
  rcases hc.switching with ⟨he, hsv⟩ | ⟨v, hv, he, hsv⟩ | ⟨v, hv, he, he', -, hsv⟩ |
    ⟨he, he', hgone, hsv⟩ | ⟨prev, hop, he', hsv⟩ | ⟨hop, he', hsv⟩
  · rw [hsv, hold, hiff (by rw [he])]
  · have huv : u ≠ v := by
      rintro rfl
      exact hfree hv
    rw [hsv, Function.update_of_ne huv, hold, hiff (by rw [he])]
  · have huv : u ≠ v := by
      rintro rfl
      exact hfree hv
    rw [hsv, Function.update_of_ne huv, hold, hiff (by simp [he, he', Ne.symm huv])]
  · have huc : u ≠ (s.thread T).currentTask := by
      rintro rfl
      exact hu hgone
    rw [hsv, hold, hiff (by simp [he, he', Ne.symm huc])]
  · have hprev : (s.thread T).executing = some prev := by simp [Thread.executing, hop]
    by_cases huc : u = (s.thread T).currentTask
    · subst huc
      simp only [hsv, Function.update_self, true_iff]
      exact ⟨T, he'⟩
    · by_cases hup : u = prev
      · subst hup
        rw [hsv, Function.update_of_ne huc, Function.update_self]
        refine ⟨nofun, ?_⟩
        rintro ⟨U, hx⟩
        by_cases hU : U = T
        · rw [hU, he'] at hx
          exact absurd (Option.some.inj hx).symm huc
        · rw [hc.executing_of_ne hU] at hx
          exact absurd (h.unique U T u hx hprev) hU
      · rw [hsv, Function.update_of_ne huc, Function.update_of_ne hup, hold,
          hiff (by simp [hprev, he', Ne.symm huc, Ne.symm hup])]
  · have hnone : (s.thread T).executing = none := by simp [Thread.executing, hop]
    by_cases huc : u = (s.thread T).currentTask
    · subst huc
      simp only [hsv, Function.update_self, true_iff]
      exact ⟨T, he'⟩
    · rw [hsv, Function.update_of_ne huc, hold, hiff (by simp [hnone, he', Ne.symm huc])]

theorem Saves.step (h : Saves s) (hI : Inv s) (hok : TakesSaved s m) (hs : s.step m = some s') :
    Saves s' := by
  obtain ⟨t, hc, -⟩ := hI.step hs
  refine ⟨h.unsaved_step hc, h.mayRun_step hI.shape hc hok, h.unique_step hI.shape hc, ?_⟩
  intro U prev hop
  by_cases hU : U = m.thread
  · exact hU ▸ hc.swaps prev (hU ▸ hop)
  · obtain ⟨hop', hcur, -⟩ := hc.thread U hU
    rw [hcur]
    exact h.swaps U prev (hop' ▸ hop)

theorem Saves.init : Saves init where
  unsaved := by simp [MN.init]
  mayRun := by simp [MN.init, Thread.executing]
  unique := by simp [MN.init, Thread.executing]
  swaps := by simp [MN.init]

/-- **No thread loads registers that are not saved, and no task runs on two threads**, provided that
a task taken off a global ready list is put on a ready list only after its registers are saved. -/
theorem reach_sound (h : Reach Sys.step TakesSaved init s) : Sound s := by
  have hall : Inv s ∧ Saves s := by
    refine Reach.invariant (P := fun s => Inv s ∧ Saves s) h ⟨Inv.init, Saves.init⟩ ?_
    intro s m s' hP hok hs
    obtain ⟨t, -, hI'⟩ := hP.1.step hs
    exact ⟨hI', hP.2.step hP.1 hok hs⟩
  exact hall.2.sound hall.1.shape

/-- The task of the first thread is about to block; the second thread wakes it, and takes it itself
from the global ready list. -/
def stealingRun (saves : List Move) : List Move :=
  arrival 0 0 0 ++ arrival 1 1 0 ++ keeping 0 2 0 ++ [⟨0, .yield⟩, ⟨0, .go⟩, ⟨0, .go⟩] ++
    [⟨0, .block 0⟩] ++ saves ++ [⟨1, .wake 0⟩, ⟨1, .go⟩, ⟨1, .go⟩] ++
    [⟨1, .startLoop⟩, ⟨1, .balance⟩, ⟨1, .go⟩, ⟨1, .go⟩, ⟨1, .exhaust⟩, ⟨1, .go⟩]

/-- The operations and the current tasks of the two threads, and whether the task 2 is saved. -/
def runners (s : Sys) : List Op × List TaskId × Bool :=
  ([(s.thread 0).op, (s.thread 1).op], [(s.thread 0).currentTask, (s.thread 1).currentTask],
    s.saved 2)

set_option maxRecDepth 4000 in
theorem stealingRun_saved : ((stealingRun [⟨0, .go⟩, ⟨0, .go⟩]).foldlM
    (Reach.guarded Sys.step TakesSaved) init).map runners =
      some ([.idle, .swapping 1], [0, 2], true) := by
  decide +kernel

set_option maxRecDepth 4000 in
theorem stealingRun_unsaved : ((stealingRun []).foldlM Sys.step init).map runners =
    some ([.blocked, .swapping 1], [2, 2], false) := by
  decide +kernel

/-- The task is taken after its registers have been saved. -/
theorem stealingRun_sound : ∃ s, Reach Sys.step TakesSaved init s ∧
    runners s = ([.idle, .swapping 1], [0, 2], true) ∧ Sound s := by
  obtain ⟨s, hrun, hview⟩ := Option.map_eq_some_iff.1 stealingRun_saved
  have hr : Reach Sys.step TakesSaved init s := Reach.of_guarded hrun
  exact ⟨s, hr, hview, reach_sound hr⟩

/-- Without the condition a task is current on two threads, and registers are loaded that are not
saved. -/
theorem stealingRun_unsound : ∃ s, Reachable s ∧
    ((s.thread 1).op = .swapping 1 ∧ s.saved (s.thread 1).currentTask = false) ∧
    (s.thread 0).currentTask = (s.thread 1).currentTask ∧ ¬Sound s := by
  obtain ⟨s, hrun, hview⟩ := Option.map_eq_some_iff.1 stealingRun_unsaved
  simp only [runners, Prod.mk.injEq, List.cons.injEq, and_true] at hview
  obtain ⟨⟨-, hop⟩, ⟨hcur0, hcur1⟩, hsaved⟩ := hview
  refine ⟨s, Reach.of_foldlM hrun, ⟨hop, by rw [hcur1, hsaved]⟩, by rw [hcur0, hcur1], ?_⟩
  intro hsound
  have hloads := hsound.saved 1 (by simp [Thread.loads, hop])
  rw [hcur1, hsaved] at hloads
  cases hloads

end Ptask.MN
