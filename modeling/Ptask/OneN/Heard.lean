import Ptask.OneN.Client

/-!
# Programs that lose a broadcast

As the Makefile builds the library, a broadcast takes the tasks from the queue and makes none of
them ready. Until that happens a program runs as `task.c` says (`reach_heard`); then a task inside
its code is neither in the queue nor ready (`Placed.lost`).
-/

namespace Ptask.OneN

open Ptask.Lib

namespace Client

variable {δ κ : Type*} (P : Client δ κ)

/-- A step of the program over the library as it is built. -/
def stepAs (aliasing : Aliasing) (q : ClientState δ κ) (m : ClientMove κ) :
    Option (ClientState δ κ) :=
  P.stepBy (Sched.stepAs aliasing) q m

/-- The condition variable that a move broadcasts. -/
def broadcasts (q : ClientState δ κ) : ClientMove κ → Option CondId
  | .other m => m.broadcasts
  | m => (q.runsFrom m).bind fun k => (P.code k q.data).bind fun g => g.call.bind fun c =>
    (Move.call c).broadcasts

/-- The move loses nobody. -/
def HeardIn (aliasing : Aliasing) (q : ClientState δ κ) (m : ClientMove κ) : Prop :=
  ∀ i ∈ P.broadcasts q m, q.sched.Heard aliasing i

instance (aliasing : Aliasing) (q : ClientState δ κ) (m : ClientMove κ) :
    Decidable (P.HeardIn aliasing q m) :=
  inferInstanceAs (Decidable (∀ i ∈ P.broadcasts q m, q.sched.Heard aliasing i))

variable {P} {aliasing : Aliasing} {q q' q₀ : ClientState δ κ} {m : ClientMove κ} {k : κ} {b : Boot}
  {i : CondId} {ok : ClientState δ κ → ClientMove κ → Prop}

theorem runBy_stepAs (h : ∀ i ∈ P.broadcasts q m, q.sched.Heard aliasing i)
    (hm : q.runsFrom m = some k) :
    P.runBy (Sched.stepAs aliasing) q k = P.run q k := by
  unfold run runBy
  cases hg : P.code k q.data with
  | none => rfl
  | some g =>
    cases hc : g.call with
    | none => simp [hc]
    | some c =>
      have hheard : q.sched.HeardIn aliasing (.call c) := by
        intro i hi
        apply h i
        cases m with
        | other m => cases hm
        | _ => simp [broadcasts, hm, hg, hc, hi]
      simp [hc, Sched.stepAs_eq hheard]

theorem stepAs_eq (h : P.HeardIn aliasing q m) : P.stepAs aliasing q m = P.step q m := by
  cases m with
  | enter k =>
    have hrun := runBy_stepAs h (k := k) rfl
    unfold stepAs step stepBy
    dsimp only
    rw [hrun]
    rfl
  | go =>
    have hrun := runBy_stepAs h (k := q.pc q.sched.currentTask) rfl
    unfold stepAs step stepBy
    dsimp only
    rw [hrun]
    rfl
  | other m =>
    unfold stepAs step stepBy
    dsimp only
    rw [Sched.stepAs_eq h]

/-- **Until a broadcast loses somebody the program runs as `task.c` says.** -/
theorem reach_heard (hok : ∀ q m, ok q m → P.HeardIn aliasing q m)
    (h : Reach (P.stepAs aliasing) ok q₀ q) : Reach P.step ok q₀ q :=
  h.congr fun q m hm => stepAs_eq (hok q m hm)

/-- A broadcast of the program is called in a segment. -/
theorem call_of_broadcasts (hP : P.Sound) (hs : P.stepAs aliasing q m = some q')
    (hi : i ∈ P.broadcasts q m) (hobj : .cond i ∈ P.objects) :
    q.sched.stepAs aliasing (.call (.condBroadcast i)) = some q'.sched ∧
      ∀ t, t ≠ q.sched.currentTask → q'.pc t = q.pc t := by
  rcases stepBy_cases hP hs with ⟨k, hfrom, -, -, hrun⟩ | ⟨m', s, rfl, hp, -, rfl⟩
  · obtain ⟨g, s, hg, hcall, rfl⟩ := runBy_eq hrun
    have hb : (g.call.bind fun c => (Move.call c).broadcasts) = some i := by
      cases m with
      | other m => cases hfrom
      | _ => simpa [broadcasts, hfrom, hg] using hi
    obtain ⟨c, hc, hci⟩ := Option.bind_eq_some_iff.1 hb
    obtain rfl : c = .condBroadcast i := by
      unfold Move.broadcasts at hci
      split at hci
      · next he =>
        cases he
        cases hci
        rfl
      · cases hci
    rw [hc] at hcall
    exact ⟨hcall, fun t ht => Function.update_of_ne ht _ _⟩
  · obtain ⟨-, huses⟩ := Bool.and_eq_true_iff.1 hp
    have huses : Sched.uses (.cond i) m' = false := by
      simpa using List.all_eq_true.1 huses _ hobj
    have hm : m' = .call (.condBroadcast i) := by
      unfold broadcasts Move.broadcasts at hi
      dsimp only at hi
      split at hi
      · cases hi
        rfl
      · cases hi
    rw [hm] at huses
    simp [Sched.uses, Sched.usesCond] at huses

/-- **A task that is lost is neither in the queue nor ready**, and it is inside the code. -/
theorem Placed.lost (h : P.Placed b q) (hP : P.Sound) (hs : P.stepAs aliasing q m = some q')
    (hi : i ∈ P.broadcasts q m) (hobj : .cond i ∈ P.objects)
    (hlost : ¬q.sched.Heard aliasing i) :
    ∃ t, P.waitsOn (q'.pc t) = some (.cond i) ∧ t ∉ q'.sched.readylist ∧
      t ∉ (q'.sched.cond i).waitq := by
  obtain ⟨hcall, hpc⟩ := call_of_broadcasts hP hs hi hobj
  unfold Sched.Heard at hlost
  push Not at hlost
  obtain ⟨hon, hwait⟩ := hlost
  obtain ⟨t, ht⟩ := List.exists_mem_of_ne_nil _ hwait
  have htc : t ≠ q.sched.currentTask := by
    rintro rfl
    exact h.sched.idle.not_mem_cond ht
  obtain ⟨c, hc, -⟩ := h.sched.waits_of_cond ht
  cases aliasing with
  | off => exact absurd rfl hon
  | strict =>
    unfold Sched.stepAs at hcall
    dsimp only at hcall
    split at hcall
    case isFalse => cases hcall
    case isTrue hp =>
      obtain ⟨hready, hqueue⟩ := Sched.broadcastAs_strict (s := q.sched) (i := i)
      refine ⟨t, ?_, ?_, ?_⟩
      · rw [hpc t htc]
        exact h.parked _ hobj t ht
      · rw [← Option.some.inj hcall, hready]
        exact hc.not_ready
      · rw [← Option.some.inj hcall, hqueue]
        exact List.not_mem_nil

end Client

end Ptask.OneN
