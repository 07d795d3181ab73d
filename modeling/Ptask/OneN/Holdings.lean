import Ptask.OneN.Client

/-!
# What the tasks of a program hold

A task holds so much of something at each point of the code, and the data of the program record how
much is held in all. `Accounted` is what the segments have to do for it, and `reach_accounted` the
rule that in every run the record is right.
-/

namespace Ptask.OneN

open Ptask.Lib

namespace Sched

variable {b : Boot} {m : Move} {s s' : Sched}

/-- A quantity that only live tasks have, and that the current task has not when it exits, has the
same total. -/
theorem Inv.total_step (h : Inv b s) (hs : s.step m = some s') {f : TaskId → Nat}
    (hf : ∀ t, t ∉ s.live → f t = 0) (hx : m = .exit → f s.currentTask = 0) :
    (s'.live.map f).sum = (s.live.map f).sum := by
  rcases h.live_step hs with ⟨l, hl⟩ | ⟨he, hl⟩
  · have hnd : (l ++ s.live).Nodup := hl ▸ (h.step hs).lives
    have hzero : (l.map f).sum = 0 := by
      apply List.sum_eq_zero
      intro n hn
      obtain ⟨t, ht, rfl⟩ := List.mem_map.1 hn
      apply hf
      intro hlive
      exact (List.nodup_append.1 hnd).2.2 t ht t hlive rfl
    rw [hl, List.map_append, List.sum_append, hzero, Nat.zero_add]
  · have hsum := List.sum_map_erase f h.live
    rw [hx he, Nat.zero_add] at hsum
    rw [hl, hsum]

end Sched

/-- One entry changes. -/
theorem sum_map_update {τ : Type*} [DecidableEq τ] {l : List τ} {a : τ} (f f' : τ → Nat)
    (hl : l.Nodup) (ha : a ∈ l) (h : ∀ t, t ≠ a → f' t = f t) :
    (l.map f').sum + f a = (l.map f).sum + f' a := by
  have hrest : (l.erase a).map f' = (l.erase a).map f := by
    apply List.map_congr_left
    intro t ht
    exact h t (hl.mem_erase_iff.1 ht).1
  have h1 := List.sum_map_erase f ha
  have h2 := List.sum_map_erase f' ha
  rw [hrest] at h2
  omega

namespace Client

variable {δ κ ι : Type*} {P : Client δ κ} {b : Boot} {q q' q₀ : ClientState δ κ} {k : κ}
  {t u : TaskId} {m : ClientMove κ} {f : κ → Nat}

/-- What all tasks hold together, when a task holds `f k` at the point `k`. -/
def total (f : κ → Nat) (q : ClientState δ κ) : Nat := (q.sched.live.map fun t => f (q.pc t)).sum

/-- The segments record in the data what they take and give back. What the current task holds is
recorded, `fits` says how much may be held before the segment, and `I` is what else is known of the
data. -/
structure Accounted (P : Client δ κ) (I : δ → Prop) (held : ι → κ → Nat) (recorded : ι → δ → Int)
    (fits : ι → Int → Prop) : Prop where
  ends : ∀ i k, P.ends k = true → held i k = 0
  entry : ∀ i k k', P.entry k k' = true → held i k' = held i k
  code : ∀ k d g, P.outside k = false → I d → (∀ i, (held i k : Int) ≤ recorded i d) →
    (∀ i, fits i (recorded i d)) → P.code k d = some g →
      I g.data ∧ ∀ i, recorded i g.data + held i k = recorded i d + held i g.next

theorem Placed.held_of_not_live (h : P.Placed b q) (hf : ∀ k, P.ends k = true → f k = 0)
    (ht : t ∉ q.sched.live) : f (q.pc t) = 0 := by
  apply hf
  by_contra he
  exact ht (h.live t (by simpa using he))

theorem Placed.le_total (h : P.Placed b q) (hf : ∀ k, P.ends k = true → f k = 0) (t : TaskId) :
    f (q.pc t) ≤ total f q := by
  by_cases ht : t ∈ q.sched.live
  · have hsum := List.sum_map_erase (fun t => f (q.pc t)) ht
    unfold total
    omega
  · rw [h.held_of_not_live hf ht]
    exact Nat.zero_le _

/-- Two tasks hold no more than all together. -/
theorem Placed.add_le_total (h : P.Placed b q) (hf : ∀ k, P.ends k = true → f k = 0) (htu : t ≠ u) :
    f (q.pc t) + f (q.pc u) ≤ total f q := by
  by_cases ht : t ∈ q.sched.live
  · by_cases hu : u ∈ q.sched.live
    · have hu : u ∈ q.sched.live.erase t := (List.mem_erase_of_ne htu.symm).2 hu
      have hsum := List.sum_map_erase (fun t => f (q.pc t)) ht
      have hrest := List.sum_map_erase (fun t => f (q.pc t)) hu
      unfold total
      omega
    · rw [h.held_of_not_live hf hu]
      exact h.le_total hf t
  · rw [h.held_of_not_live hf ht, Nat.zero_add]
    exact h.le_total hf u

/-- When each task holds at most one, they hold no more than there are tasks. -/
theorem total_le_length (hf : ∀ k, f k ≤ 1) : total f q ≤ q.sched.live.length := by
  unfold total
  induction q.sched.live with
  | nil => exact Nat.le_refl 0
  | cons t l ih =>
    have ht := hf (q.pc t)
    rw [List.map_cons, List.sum_cons, List.length_cons]
    omega

/-- Where something is held, some task holds it. -/
theorem exists_of_total_pos (hpos : 0 < total f q) : ∃ t ∈ q.sched.live, 0 < f (q.pc t) := by
  by_contra hnone
  push Not at hnone
  have hzero : total f q = 0 := by
    apply List.sum_eq_zero
    intro n hn
    obtain ⟨t, ht, rfl⟩ := List.mem_map.1 hn
    exact Nat.le_zero.1 (hnone t ht)
  omega

theorem MayRun.held {held : κ → Nat} (hk : P.MayRun q k)
    (he : ∀ k k', P.entry k k' = true → held k' = held k) :
    held k = held (q.pc q.sched.currentTask) := by
  rcases hk with ⟨-, hentry⟩ | ⟨-, rfl⟩
  · exact he _ _ hentry
  · rfl

/-- The current task holds something else after its segment. -/
theorem Placed.total_run (h : P.Placed b q) (hP : P.Sound) (hk : P.outside k = false)
    (hr : P.run q k = some q') :
    total f q' + f (q.pc q.sched.currentTask) = total f q + f (q'.pc q.sched.currentTask) := by
  obtain ⟨g, s, hg, hs, rfl⟩ := run_eq hr
  have hlive : s.live = q.sched.live := by
    cases hc : g.call with
    | none =>
      rw [hc] at hs
      rw [hs]
    | some c =>
      have hcalls := hc ▸ hP.calls k q.data g hk hg
      rw [hc] at hs
      exact (effect_of_calls h.sched hcalls hs).1.live
  unfold total
  rw [hlive]
  apply sum_map_update (fun t => f (q.pc t)) (fun t => f (Function.update q.pc _ g.next t))
    h.sched.lives h.sched.live
  intro t ht
  rw [Function.update_of_ne ht]

/-- The rest of the program changes nothing of what the tasks hold. -/
theorem Placed.total_other (h : P.Placed b q) (hf : ∀ k, P.ends k = true → f k = 0) {m : Move}
    {s : Sched} (hp : P.permitted q m = true) (hs : q.sched.step m = some s) :
    total f { q with sched := s } = total f q := by
  apply h.sched.total_step hs
  · intro t ht
    exact h.held_of_not_live hf ht
  · rintro rfl
    obtain ⟨hpc, -⟩ := Bool.and_eq_true_iff.1 hp
    exact hf _ hpc

/-- Nobody holds anything when all tasks are at a point at which a task may end. -/
theorem total_start {s : Sched} {d : δ} {k₀ : κ} (hf : f k₀ = 0) :
    total f { sched := s, data := d, pc := fun _ => k₀ } = 0 := by
  apply List.sum_eq_zero
  intro n hn
  obtain ⟨t, -, rfl⟩ := List.mem_map.1 hn
  exact hf

/-- **The data record what the tasks hold**, in every run in which it always fits. -/
theorem reach_accounted {I : δ → Prop} {held : ι → κ → Nat} {recorded : ι → δ → Int}
    {fits : ι → Int → Prop} {ok : ClientState δ κ → ClientMove κ → Prop}
    (hP : P.Sound) (hA : P.Accounted I held recorded fits)
    (hfits : ∀ q m, ok q m → ∀ i, fits i (total (held i) q)) (h0 : P.Placed b q₀) (hI0 : I q₀.data)
    (hr0 : ∀ i, recorded i q₀.data = total (held i) q₀) (h : Reach P.step ok q₀ q) :
    I q.data ∧ ∀ i, recorded i q.data = total (held i) q := by
  induction h with
  | refl => exact ⟨hI0, hr0⟩
  | tail hq hlast ih =>
    obtain ⟨m, hok, hs⟩ := hlast
    obtain ⟨hI, hrec⟩ := ih
    have hplaced := reach_placed hP h0 hq
    rcases step_cases hP hs with ⟨k, -, hk, hmay, hrun⟩ | ⟨m, s, hp, hstep, rfl⟩
    · have hheld (i : ι) := hmay.held (hA.entry i)
      have htotal (i : ι) := hplaced.total_run (f := held i) hP hk hrun
      obtain ⟨g, s, hg, -, rfl⟩ := run_eq hrun
      obtain ⟨hI', hrec'⟩ := hA.code k _ g hk hI (fun i => by
        rw [hheld i, hrec i]
        exact_mod_cast hplaced.le_total (hA.ends i) _) (fun i => hrec i ▸ hfits _ _ hok i) hg
      refine ⟨hI', ?_⟩
      intro i
      have hafter := htotal i
      have hrecord := hrec' i
      dsimp only at hafter
      rw [Function.update_self, ← hheld i] at hafter
      rw [hrec i] at hrecord
      show recorded i g.data = _
      omega
    · refine ⟨hI, ?_⟩
      intro i
      rw [hplaced.total_other (hA.ends i) hp hstep]
      exact hrec i

end Client

end Ptask.OneN
