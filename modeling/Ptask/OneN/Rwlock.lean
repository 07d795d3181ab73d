import Ptask.OneN.Heard
import Ptask.OneN.Holdings

/-!
# The readers-writer lock of `rwlock.c`

Readers share the lock and a writer has it alone. Those who cannot have it wait on one condition
variable, which the last reader and the writer broadcast when they leave. In the 1:N build the calls
on the mutex are empty.

A task may take the lock for reading several times, and for writing while it does not hold it; it
gives back what it holds. `readers` is an `int`, so that there is a limit to how often the lock may be
held (`RwlockFits`).
-/

namespace Ptask.OneN

open Ptask.Lib

/-- `rwlock_t` without the mutex and the condition variable. -/
structure Rwlock where
  writer : Bool
  readers : Int32
  deriving DecidableEq

/-- `rwlock_init`. -/
def rwlockInit : Rwlock where
  writer := false
  readers := 0

/-- Where a task is with respect to the lock. `n` counts how often it holds the lock for reading,
beside the one that `rwlock_rdunlock` gives back. -/
inductive RwlockPoint
  | reading (n : Nat)
  | writing
  | rdlock (n : Nat)
  | rdunlock (n : Nat)
  | wrlock
  | wrunlock
  deriving DecidableEq

inductive RwlockMode
  | read
  | write
  deriving DecidableEq

/-- How often the lock is held in the mode. -/
def RwlockMode.held : RwlockMode → RwlockPoint → Nat
  | .read, .reading n => n
  | .read, .rdlock n => n
  | .read, .rdunlock n => n + 1
  | .write, .writing => 1
  | .write, .wrunlock => 1
  | _, _ => 0

/-- What the fields of the lock say of it. -/
def RwlockMode.recorded : RwlockMode → Rwlock → Int
  | .read, locker => locker.readers.toInt
  | .write, locker => if locker.writer then 1 else 0

/-- How often the lock may be held in the mode when a task goes on. -/
def RwlockMode.fits : RwlockMode → Int → Prop
  | .read, n => n < 2 ^ 31 - 1
  | .write, _ => True

/-- The lock is not held so often for reading that `readers` overflows. -/
def RwlockFits (q : ClientState Rwlock RwlockPoint) : Prop :=
  Client.total RwlockMode.read.held q < 2 ^ 31 - 1

instance (q : ClientState Rwlock RwlockPoint) : Decidable (RwlockFits q) :=
  inferInstanceAs (Decidable (_ < _))

variable (unlocked : CondId)

/-- `rwlock_rdlock` from the test of the loop on. -/
def rwlockRdlock (locker : Rwlock) (n : Nat) : Segment Rwlock RwlockPoint :=
  if locker.writer then
    { data := locker, call := some (.condWait unlocked), next := .rdlock n }
  else
    { data := { locker with readers := locker.readers + 1 }, call := none, next := .reading (n + 1) }

def rwlockRdunlock (locker : Rwlock) (n : Nat) : Segment Rwlock RwlockPoint :=
  let locker := { locker with readers := locker.readers - 1 }
  { data := locker
    call := if locker.readers = 0 then some (.condBroadcast unlocked) else none
    next := .reading n }

/-- `rwlock_wrlock` from the test of the loop on. -/
def rwlockWrlock (locker : Rwlock) : Segment Rwlock RwlockPoint :=
  if locker.writer || locker.readers ≠ 0 then
    { data := locker, call := some (.condWait unlocked), next := .wrlock }
  else
    { data := { locker with writer := true }, call := none, next := .writing }

def rwlockWrunlock (locker : Rwlock) : Segment Rwlock RwlockPoint :=
  { data := { locker with writer := false }
    call := some (.condBroadcast unlocked)
    next := .reading 0 }

/-- The program of the lock. -/
def rwlock : Client Rwlock RwlockPoint where
  code
    | .rdlock n, locker => some (rwlockRdlock unlocked locker n)
    | .rdunlock n, locker => some (rwlockRdunlock unlocked locker n)
    | .wrlock, locker => some (rwlockWrlock unlocked locker)
    | .wrunlock, locker => some (rwlockWrunlock unlocked locker)
    | _, _ => none
  outside
    | .reading _ => true
    | .writing => true
    | _ => false
  ends
    | .reading 0 => true
    | _ => false
  entry
    | .reading n, .rdlock n' => n' = n
    | .reading n, .rdunlock n' => n' + 1 = n
    | .reading 0, .wrlock => true
    | .writing, .wrunlock => true
    | _, _ => false
  waitsOn
    | .rdlock _ => some (.cond unlocked)
    | .wrlock => some (.cond unlocked)
    | _ => none
  objects := [.cond unlocked]

/-- `rwlock_init` has been called in the state `s`. -/
def rwlockStart (s : Sched) : ClientState Rwlock RwlockPoint where
  sched := s
  data := rwlockInit
  pc := fun _ => .reading 0

/-! ## One segment -/

variable {unlocked} {locker : Rwlock} {k : RwlockPoint} {g : Segment Rwlock RwlockPoint}
  {q : ClientState Rwlock RwlockPoint} {t u : TaskId} {b : Boot} {s : Sched}

/-- A writer and readers never have the lock at the same time. -/
def Rwlock.Apart (locker : Rwlock) : Prop := locker.writer = true → locker.readers = 0

theorem rwlock_sound (unlocked : CondId) : (rwlock unlocked).Sound where
  objects c hc := by
    obtain rfl : c = .cond unlocked := by simpa [rwlock] using hc
    exact .inl ⟨unlocked, rfl⟩
  ends k hk := by
    cases k with
    | reading n => rfl
    | _ => cases hk
  outside k hk := by
    cases k with
    | reading n => rfl
    | writing => rfl
    | _ => cases hk
  entry k k' hk := by
    cases k' with
    | reading n => cases k <;> cases hk
    | writing => cases k <;> cases hk
    | _ => rfl
  calls k locker g hk hg := by
    have hmem : Chain.cond unlocked ∈ (rwlock unlocked).objects := List.mem_singleton.2 rfl
    cases k with
    | reading n => cases hk
    | writing => cases hk
    | rdlock n =>
      obtain rfl := Option.some.inj hg
      unfold rwlockRdlock
      split
      · exact ⟨hmem, rfl⟩
      · trivial
    | rdunlock n =>
      obtain rfl := Option.some.inj hg
      unfold rwlockRdunlock
      dsimp only
      split
      · exact hmem
      · trivial
    | wrlock =>
      obtain rfl := Option.some.inj hg
      unfold rwlockWrlock
      split
      · exact ⟨hmem, rfl⟩
      · trivial
    | wrunlock =>
      obtain rfl := Option.some.inj hg
      exact hmem

/-- Every segment records in the fields what it takes and gives back. -/
theorem rwlock_accounted (unlocked : CondId) :
    (rwlock unlocked).Accounted Rwlock.Apart RwlockMode.held RwlockMode.recorded
      RwlockMode.fits where
  ends m k hk := by
    match k with
    | .reading 0 => cases m <;> rfl
    | .reading (n + 1) => cases hk
  entry m k k' hk := by
    match k, k' with
    | .reading n, .rdlock n' =>
      obtain rfl : n' = n := by simpa [rwlock] using hk
      cases m <;> rfl
    | .reading n, .rdunlock n' =>
      obtain rfl : n' + 1 = n := by simpa [rwlock] using hk
      cases m <;> rfl
    | .reading 0, .wrlock => cases m <;> rfl
    | .writing, .wrunlock => cases m <;> rfl
  code k locker g hk hapart hheld hfits hg := by
    cases k with
    | reading n => cases hk
    | writing => cases hk
    | rdlock n =>
      obtain rfl := Option.some.inj hg
      unfold rwlockRdlock
      split
      · exact ⟨hapart, fun m => rfl⟩
      · next hw =>
        refine ⟨fun h => absurd h hw, ?_⟩
        intro m
        cases m with
        | read =>
          have hread : (n : Int) ≤ locker.readers.toInt := hheld .read
          have hfit : locker.readers.toInt < 2 ^ 31 - 1 := hfits .read
          simp only [RwlockMode.recorded, RwlockMode.held]
          rw [toInt_add_one (by omega) hfit]
          omega
        | write => rfl
    | rdunlock n =>
      obtain rfl := Option.some.inj hg
      have hread : (n + 1 : Int) ≤ locker.readers.toInt := hheld .read
      refine ⟨?_, ?_⟩
      · intro hw
        rw [hapart hw, Int32.toInt_zero] at hread
        omega
      · intro m
        cases m with
        | read =>
          simp only [rwlockRdunlock, RwlockMode.recorded, RwlockMode.held]
          rw [toInt_sub_one (by omega)]
          omega
        | write => rfl
    | wrlock =>
      obtain rfl := Option.some.inj hg
      unfold rwlockWrlock
      split
      · exact ⟨hapart, fun m => rfl⟩
      · next hfree =>
        obtain ⟨hw, hr⟩ : locker.writer = false ∧ locker.readers = 0 := by simpa using hfree
        refine ⟨fun _ => hr, ?_⟩
        intro m
        cases m with
        | read => rfl
        | write => simp [RwlockMode.recorded, RwlockMode.held, hw]
    | wrunlock =>
      obtain rfl := Option.some.inj hg
      have hwrite : (1 : Int) ≤ if locker.writer then 1 else 0 := hheld .write
      have hw : locker.writer = true := by
        by_contra hw
        rw [if_neg hw] at hwrite
        omega
      refine ⟨(by intro h; cases h), ?_⟩
      intro m
      cases m with
      | read => rfl
      | write => simp [rwlockWrunlock, RwlockMode.recorded, RwlockMode.held, hw]

/-! ## Exclusion -/

/-- The lock is what it is for: its fields say who holds it, and who holds it for writing holds it
alone. -/
structure RwlockExcludes (q : ClientState Rwlock RwlockPoint) : Prop where
  recorded : ∀ m : RwlockMode, m.recorded q.data = Client.total m.held q
  alone : ∀ t u, 0 < RwlockMode.write.held (q.pc t) → u ≠ t → ∀ m : RwlockMode, m.held (q.pc u) = 0

theorem rwlock_placed (hs : Reachable b s) (hu : s.unused (.cond unlocked) = true) :
    (rwlock unlocked).Placed b (rwlockStart s) := by
  apply Client.Placed.start hs (rwlock_sound unlocked) rfl
  intro c hc
  obtain rfl : c = .cond unlocked := by simpa [rwlock] using hc
  exact hu

/-- What is known of the lock in every run. -/
structure RwlockKept (unlocked : CondId) (b : Boot) (q : ClientState Rwlock RwlockPoint) : Prop where
  placed : (rwlock unlocked).Placed b q
  apart : q.data.Apart
  recorded : ∀ m : RwlockMode, m.recorded q.data = Client.total m.held q

theorem reach_rwlockKept (hs : Reachable b s) (hu : s.unused (.cond unlocked) = true)
    (h : Reach (rwlock unlocked).step (fun q _ => RwlockFits q) (rwlockStart s) q) :
    RwlockKept unlocked b q := by
  have hsound := rwlock_sound unlocked
  have hstart := rwlock_placed hs hu
  have hzero (m : RwlockMode) : m.recorded rwlockInit = Client.total m.held (rwlockStart s) := by
    have hm : Client.total m.held (rwlockStart s) = 0 := Client.total_start (by cases m <;> rfl)
    rw [hm]
    cases m <;> rfl
  have hfits (q : ClientState Rwlock RwlockPoint) (_ : ClientMove RwlockPoint) (hq : RwlockFits q)
      (m : RwlockMode) : m.fits (Client.total m.held q) := by
    cases m with
    | read =>
      have hq : Client.total RwlockMode.read.held q < 2 ^ 31 - 1 := hq
      unfold RwlockMode.fits
      omega
    | write => trivial
  obtain ⟨hapart, hrec⟩ := Client.reach_accounted hsound (rwlock_accounted unlocked) hfits hstart
    (by intro hw; cases hw) hzero h
  exact ⟨Client.reach_placed hsound hstart h, hapart, hrec⟩

theorem RwlockKept.excludes (h : RwlockKept unlocked b q) : RwlockExcludes q := by
  have hA := rwlock_accounted unlocked
  refine ⟨h.recorded, ?_⟩
  intro t u ht hut m
  have hrw := h.recorded .write
  have hle := h.placed.le_total (hA.ends .write) t
  have hbound : RwlockMode.recorded .write q.data ≤ 1 := by
    simp only [RwlockMode.recorded]
    split <;> omega
  cases m with
  | write =>
    have hadd := h.placed.add_le_total (hA.ends .write) hut
    omega
  | read =>
    have hw : q.data.writer = true := by
      by_contra hw
      simp only [RwlockMode.recorded, if_neg hw] at hrw
      omega
    have hrr : q.data.readers.toInt = Client.total (RwlockMode.held .read) q := h.recorded .read
    have hur := h.placed.le_total (hA.ends .read) u
    rw [h.apart hw, Int32.toInt_zero] at hrr
    omega

/-- **Readers and writers exclude each other.** In every run from `rwlock_init`, by any number of
tasks, in which the lock is never held 2^31 times: `readers` is how often the lock is held for
reading, `writer` is set exactly when a task holds it for writing, and while a task does so no other
task holds the lock at all. -/
theorem reach_rwlockExcludes (hs : Reachable b s) (hu : s.unused (.cond unlocked) = true)
    (h : Reach (rwlock unlocked).step (fun q _ => RwlockFits q) (rwlockStart s) q) :
    RwlockExcludes q :=
  (reach_rwlockKept hs hu h).excludes

/-! ## Waiting -/

/-- Why a task may wait at a point. -/
def RwlockPoint.reason : RwlockPoint → Rwlock → Prop
  | .rdlock _, locker => locker.writer = true
  | .wrlock, locker => locker.writer = true ∨ locker.readers ≠ 0
  | _, _ => True

/-- `readers` can be incremented. -/
def Rwlock.Room (locker : Rwlock) : Prop :=
  0 ≤ locker.readers.toInt ∧ locker.readers.toInt < 2 ^ 31 - 1

theorem rwlock_reasoned :
    (rwlock unlocked).Reasoned (fun _ => Rwlock.Room) RwlockPoint.reason where
  begins k locker g i _ hg hc := by
    cases k with
    | reading n => cases hg
    | writing => cases hg
    | rdlock n =>
      obtain rfl := Option.some.inj hg
      unfold rwlockRdlock at hc ⊢
      split
      · next hw => exact hw
      · trivial
    | rdunlock n =>
      obtain rfl := Option.some.inj hg
      trivial
    | wrlock =>
      obtain rfl := Option.some.inj hg
      unfold rwlockWrlock
      split
      · next hheld =>
        have hheld : locker.writer = true ∨ locker.readers ≠ 0 := by simpa using hheld
        exact hheld
      · trivial
    | wrunlock =>
      obtain rfl := Option.some.inj hg
      trivial
  keeps k locker g i k' hroom hk hg hwait hr := by
    have hi : (rwlock unlocked).waitsOn k' = some (.cond unlocked) := by
      cases k' with
      | rdlock n => rfl
      | wrlock => rfl
      | _ => cases hwait
    obtain rfl : unlocked = i := by simpa [hi] using hwait
    cases k with
    | reading n => cases hk
    | writing => cases hk
    | rdlock n =>
      obtain rfl := Option.some.inj hg
      left
      unfold rwlockRdlock
      split
      · exact hr
      · next hw =>
        cases k' with
        | rdlock n => exact absurd hr hw
        | wrlock =>
          refine .inr fun hzero => ?_
          have hsum := toInt_add_one hroom.1 hroom.2
          have hzero : locker.readers + 1 = 0 := hzero
          rw [hzero, Int32.toInt_zero] at hsum
          have hpos := hroom.1
          omega
        | _ => trivial
    | rdunlock n =>
      obtain rfl := Option.some.inj hg
      unfold rwlockRdunlock
      dsimp only
      by_cases hzero : locker.readers - 1 = 0
      · exact .inr (if_pos hzero)
      · left
        cases k' with
        | wrlock => exact .inr hzero
        | _ => exact hr
    | wrlock =>
      obtain rfl := Option.some.inj hg
      left
      unfold rwlockWrlock
      split
      · exact hr
      · cases k' with
        | rdlock n => rfl
        | wrlock => exact .inl rfl
        | _ => trivial
    | wrunlock =>
      obtain rfl := Option.some.inj hg
      exact .inr rfl

/-- Another task holds the lock in a way that `t` has to wait for. -/
def RwlockBlocks (q : ClientState Rwlock RwlockPoint) (t : TaskId) : Prop :=
  ∃ u ∈ q.sched.live, u ≠ t ∧ (0 < RwlockMode.write.held (q.pc u) ∨
    q.pc t = .wrlock ∧ 0 < RwlockMode.read.held (q.pc u))

/-- A task that is in an operation is ready to run, or it waits while another task holds the lock: for
writing, or, when the task wants to write, in any way. A task that holds the lock for reading and
takes it once more does not wait. -/
def RwlockAttended (unlocked : CondId) (q : ClientState Rwlock RwlockPoint) : Prop :=
  ∀ t, (rwlock unlocked).outside (q.pc t) = false → t ∈ q.sched.readylist ∨
    t ∈ (q.sched.cond unlocked).waitq ∧ RwlockBlocks q t ∧ ∀ m : RwlockMode, m.held (q.pc t) = 0

theorem rwlock_attended (hs : Reachable b s) (hu : s.unused (.cond unlocked) = true)
    (h : Reach (rwlock unlocked).step (fun q _ => RwlockFits q) (rwlockStart s) q) :
    RwlockAttended unlocked q := by
  intro t ht
  have hsound := rwlock_sound unlocked
  have hkept := reach_rwlockKept hs hu h
  have hplaced := hkept.placed
  rcases hplaced.place t ht with ⟨c, hc, hmem⟩ | hready
  case inr => exact .inl hready
  right
  obtain rfl : c = .cond unlocked := by simpa [rwlock] using hc
  have hex := hkept.excludes
  have hreasons : (rwlock unlocked).Reasons RwlockPoint.reason q := by
    refine Client.reach_reasons hsound rwlock_reasoned ?_ (rwlock_placed hs hu) ?_ h
    · intro q m q₁ k hq hfits _ _
      have hread : q.data.readers.toInt = _ := (reach_rwlockKept hs hu hq).recorded .read
      unfold RwlockFits at hfits
      unfold Rwlock.Room
      omega
    · intro i hi t ht
      trivial
  have hreason := hreasons unlocked hc t hmem
  have hwait := hplaced.parked _ hc t hmem
  -- the writer, if there is one
  have writer (hw : q.data.writer = true) :
      ∃ u ∈ q.sched.live, u ≠ t ∧ 0 < RwlockMode.write.held (q.pc u) := by
    have hrw : (if q.data.writer then 1 else 0 : Int) = _ := hex.recorded .write
    rw [if_pos hw] at hrw
    have hsome : 0 < Client.total (RwlockMode.held .write) q := by omega
    obtain ⟨u, hu, hpos⟩ := Client.exists_of_total_pos hsome
    refine ⟨u, hu, ?_, hpos⟩
    rintro rfl
    cases hpc : q.pc u <;> rw [hpc] at hwait hpos
    case rdlock => cases hpos
    case wrlock => cases hpos
    all_goals cases hwait
  refine ⟨hmem, ?_⟩
  cases hpc : q.pc t with
  | rdlock n =>
    rw [hpc] at hreason
    obtain ⟨u, hu, hut, hpos⟩ := writer hreason
    exact ⟨⟨u, hu, hut, .inl hpos⟩, hpc ▸ hex.alone u t hpos hut.symm⟩
  | wrlock =>
    rw [hpc] at hreason
    refine ⟨?_, fun m => by cases m <;> rfl⟩
    rcases hreason with hw | hr
    · obtain ⟨u, hu, hut, hpos⟩ := writer hw
      exact ⟨u, hu, hut, .inl hpos⟩
    · have hrr : q.data.readers.toInt = _ := hex.recorded .read
      have hr : q.data.readers.toInt ≠ 0 := fun hzero => hr (Int32.toInt_inj.1 hzero)
      have hsome : 0 < Client.total (RwlockMode.held .read) q := by omega
      obtain ⟨u, hu, hpos⟩ := Client.exists_of_total_pos hsome
      refine ⟨u, hu, ?_, .inr ⟨hpc, hpos⟩⟩
      rintro rfl
      rw [hpc] at hpos
      cases hpos
  | _ =>
    rw [hpc] at hwait
    cases hwait

/-- **Nobody waits for the lock without need**, in every run in which no broadcast has lost anybody;
and the first broadcast of the lock that does so strands a task. -/
theorem reach_rwlockAttended {aliasing : Aliasing} (hs : Reachable b s)
    (hu : s.unused (.cond unlocked) = true)
    (h : Reach ((rwlock unlocked).stepAs aliasing)
      (fun q m => RwlockFits q ∧ (rwlock unlocked).HeardIn aliasing q m) (rwlockStart s) q) :
    RwlockAttended unlocked q ∧ ∀ m q', RwlockFits q →
      (rwlock unlocked).stepAs aliasing q m = some q' →
      unlocked ∈ (rwlock unlocked).broadcasts q m →
        (RwlockAttended unlocked q' ↔ q.sched.Heard aliasing unlocked) := by
  have hrun : Reach (rwlock unlocked).step (fun q _ => RwlockFits q) (rwlockStart s) q :=
    (Client.reach_heard (fun q m hm => hm.2) h).mono fun q m hm => hm.1
  refine ⟨rwlock_attended hs hu hrun, fun m q' hfits hstep hm => ⟨fun hatt => ?_, fun hheard => ?_⟩⟩
  · by_contra hlost
    have hsound := rwlock_sound unlocked
    obtain ⟨t, hwait, hready, hqueue⟩ := (reach_rwlockKept hs hu hrun).placed.lost hsound hstep hm
      List.mem_cons_self hlost
    exact (hatt t (hsound.inside hwait)).elim hready fun h => hqueue h.1
  · have hmove : (rwlock unlocked).HeardIn aliasing q m := by
      intro i hi
      obtain rfl : unlocked = i := Option.some.inj (hm.symm.trans hi)
      exact hheard
    rw [Client.stepAs_eq hmove] at hstep
    exact rwlock_attended hs hu (hrun.tail hfits hstep)

/-- A task reads and another one wants to write. The reader gives the lock back and takes it twice
before the writer runs. -/
def rwlockRun : List (ClientMove RwlockPoint) :=
  (newTasks 2).map .other ++ [.other .schedulerStart, .other .schedulerPass,
    .other .schedulerExhaust, .enter (.rdlock 0), .other (.call .schedYield), .enter .wrlock,
    .enter (.rdunlock 0), .enter (.rdlock 0), .other (.call .schedYield), .go, .enter (.rdlock 1)]

set_option maxRecDepth 8000 in
theorem rwlockRun_excludes :
    ∃ q, rwlockRun.foldlM (Reach.guarded (rwlock 0).step fun q _ => RwlockFits q)
        (rwlockStart (boot {})) = some q ∧
      q.data = { writer := false, readers := 2 } ∧ RwlockExcludes q := by
  have hrun : ((rwlockRun.foldlM (Reach.guarded (rwlock 0).step fun q _ => RwlockFits q)
      (rwlockStart (boot {}))).map fun q => q.data) = some { writer := false, readers := 2 } := by
    decide +kernel
  obtain ⟨q, hq, he⟩ := Option.map_eq_some_iff.1 hrun
  exact ⟨q, hq, he, reach_rwlockExcludes (b := {}) (Reach.refl _) (by decide)
    (Reach.of_guarded hq)⟩

set_option maxRecDepth 8000 in
theorem rwlockRun_attended :
    ∃ q, rwlockRun.foldlM (Reach.guarded ((rwlock 0).stepAs .off) fun q m =>
        RwlockFits q ∧ (rwlock 0).HeardIn .off q m) (rwlockStart (boot {})) = some q ∧
      q.pc 163 = .wrlock ∧ 163 ∉ q.sched.readylist ∧
      (RwlockAttended 0 q ∧ ∀ m q', RwlockFits q → (rwlock 0).stepAs .off q m = some q' →
        0 ∈ (rwlock 0).broadcasts q m → (RwlockAttended 0 q' ↔ q.sched.Heard .off 0)) := by
  have hrun : ((rwlockRun.foldlM (Reach.guarded ((rwlock 0).stepAs .off) fun q m =>
      RwlockFits q ∧ (rwlock 0).HeardIn .off q m) (rwlockStart (boot {}))).map fun q =>
      (q.pc 163, decide (163 ∈ q.sched.readylist))) = some (.wrlock, false) := by decide +kernel
  obtain ⟨q, hq, he⟩ := Option.map_eq_some_iff.1 hrun
  obtain ⟨h1, h2⟩ : q.pc 163 = .wrlock ∧ 163 ∉ q.sched.readylist := by simpa using he
  exact ⟨q, hq, h1, h2, reach_rwlockAttended (b := {}) (Reach.refl _) (by decide)
    (Reach.of_guarded hq)⟩

end Ptask.OneN
