import Mathlib.Algebra.Order.BigOperators.Group.Finset
import Ptask.OneN.Holdings

/-!
# The semaphores of a program

From its call of `fiber_sem_wait` on a task has a permit of the semaphore, or it is in the queue for
one; `fiber_sem_post` gives one back. Which permits have been asked for follows from the points of
the tasks and from the data. `Balanced` is what the segments have to do for it, and `reach_permits`
the rule that in every run the count and the queue of the semaphore are what is asked for says.
-/

namespace Ptask.OneN

open Ptask.Lib

/-- As many tasks are in the queue as the count is below zero. -/
def Sched.Queued (j : SemId) (s : Sched) : Prop :=
  ((s.sem j).waitq.length : Int) = max 0 (-(s.sem j).count)

namespace Client

variable {δ κ : Type*} {P : Client δ κ} {b : Boot} {q q' q₀ : ClientState δ κ} {k next : κ}
  {m : ClientMove κ} {ok : ClientState δ κ → ClientMove κ → Prop} {j : SemId} {f held : κ → Nat}
  {recorded : δ → Int} {permits : Int} {s s' : Sched} {c : Call} {l : List TaskId} {t u : TaskId}

/-- What a call adds to the count of the semaphore. -/
def gives (j : SemId) : Option Call → Int
  | some (.semWait i) => if i = j then -1 else 0
  | some (.semPost i) => if i = j then 1 else 0
  | _ => 0

@[simp] theorem gives_none : gives j none = 0 := rfl

@[simp] theorem gives_semWait : gives j (some (.semWait j)) = -1 := if_pos rfl

@[simp] theorem gives_semPost : gives j (some (.semPost j)) = 1 := if_pos rfl

theorem gives_semWait_of_ne {i : SemId} (h : i ≠ j) : gives j (some (.semWait i)) = 0 := if_neg h

theorem gives_semPost_of_ne {i : SemId} (h : i ≠ j) : gives j (some (.semPost i)) = 0 := if_neg h

/-- The segments ask for a permit when they wait, and give one back when they post. A permit belongs
to a point of the code or is recorded in the data. -/
structure Balanced (P : Client δ κ) (j : SemId) (held : κ → Nat) (recorded : δ → Int) : Prop where
  object : .sem j ∈ P.objects
  ends : ∀ k, P.ends k = true → held k = 0
  entry : ∀ k k', P.entry k k' = true → held k' = held k
  code : ∀ k d g, P.outside k = false → P.code k d = some g →
    gives j g.call + recorded g.data + held g.next = recorded d + held k

/-- The count is what is left of the permits. -/
structure Permits (j : SemId) (held : κ → Nat) (recorded : δ → Int) (permits : Int)
    (q : ClientState δ κ) : Prop where
  count : (q.sched.sem j).count + recorded q.data + total held q = permits
  queued : q.sched.Queued j

/-- The task has a permit: it has asked for one and is not in the queue. -/
def Holds (j : SemId) (held : κ → Nat) (q : ClientState δ κ) (t : TaskId) : Prop :=
  0 < held (q.pc t) ∧ t ∉ (q.sched.sem j).waitq

/-! ## Sums over some of the tasks -/

/-- Where more is held than by the tasks in a list, another task holds some of it. -/
theorem Placed.exists_of_sum_lt (h : P.Placed b q) (hl : l.Nodup)
    (hlt : (l.map fun t => f (q.pc t)).sum < total f q) :
    ∃ t ∈ q.sched.live, t ∉ l ∧ 0 < f (q.pc t) := by
  by_contra hnone
  push Not at hnone
  unfold total at hlt
  rw [← List.sum_toFinset _ hl, ← List.sum_toFinset _ h.sched.lives] at hlt
  refine absurd hlt (Nat.not_lt.2 (Finset.sum_le_sum_of_ne_zero ?_))
  intro t ht hne
  by_contra hmem
  rw [List.mem_toFinset] at ht hmem
  exact hne (Nat.le_zero.1 (hnone t ht hmem))

/-- Some of the tasks hold no more than all together. -/
theorem Placed.sum_le_total (h : P.Placed b q) (hf : ∀ k, P.ends k = true → f k = 0)
    (hl : l.Nodup) : (l.map fun t => f (q.pc t)).sum ≤ total f q := by
  unfold total
  rw [← List.sum_toFinset _ hl, ← List.sum_toFinset _ h.sched.lives]
  apply Finset.sum_le_sum_of_ne_zero
  intro t _ hne
  by_contra hmem
  rw [List.mem_toFinset] at hmem
  exact hne (h.held_of_not_live hf hmem)

/-! ## One call -/

/-- What a call of a segment does to the semaphore. -/
theorem count_of_calls (h : Sched.Inv b s) (hc : P.Calls next (some c))
    (hs : s.step (.call c) = some s') (hu : s.SemUntimed j) (hq : s.Queued j) :
    (s'.sem j).count = (s.sem j).count + gives j (some c) ∧ s'.Queued j := by
  by_cases huses : Sched.usesSem j (.call c) = true
  · unfold Sched.Queued at hq ⊢
    cases c with
    | semWait i =>
      obtain rfl : i = j := by simpa [Sched.usesSem] using huses
      obtain ⟨-, hcount, -, hcase⟩ := h.semWait_step hs
      refine ⟨by rw [gives_semWait]; omega, ?_⟩
      rcases hcase with ⟨hpos, -, hqueue⟩ | ⟨hneg, hqueue⟩
      · rw [hqueue, hcount]
        omega
      · rw [hqueue, hcount, List.length_append, List.length_singleton]
        omega
    | semPost i =>
      obtain rfl : i = j := by simpa [Sched.usesSem] using huses
      obtain ⟨-, -, hcount, hqueue, -⟩ := h.semPost_step hs
      refine ⟨by rw [gives_semPost, hcount], ?_⟩
      rw [hqueue, hcount, List.length_tail]
      omega
    | condWait i => cases huses
    | condSignal i => cases huses
    | condBroadcast i => cases huses
    | _ => cases hc
  · have hsem : s'.sem j = s.sem j := (h.sem_step hs (by simpa using huses) hu).1
    have hzero : gives j (some c) = 0 := by
      cases c with
      | semWait i => exact gives_semWait_of_ne (by simpa [Sched.usesSem] using huses)
      | semPost i => exact gives_semPost_of_ne (by simpa [Sched.usesSem] using huses)
      | _ => rfl
    rw [hzero, Int.add_zero, hsem]
    refine ⟨rfl, ?_⟩
    unfold Sched.Queued
    rw [hsem]
    exact hq

/-- Who is in a queue after a segment has been there, or is the task that has run and waits. -/
theorem Placed.came_run (h : P.Placed b q) (hP : P.Sound) (hk : P.outside k = false)
    {g : Segment δ κ} (hg : P.code k q.data = some g) {d : Chain} (hd : d ∈ P.objects)
    (hs : match g.call with
      | none => s = q.sched
      | some c => q.sched.step (.call c) = some s) (ht : t ∈ s.chain d) :
    (t ∈ q.sched.chain d ∧ t ≠ q.sched.currentTask) ∨
      t = q.sched.currentTask ∧ ∃ c, g.call = some c ∧ c.waitChain = some d := by
  have old (ht : t ∈ q.sched.chain d) : t ∈ q.sched.chain d ∧ t ≠ q.sched.currentTask := by
    refine ⟨ht, ?_⟩
    rintro rfl
    exact h.sched.idle.not_mem_object (hP.objects d hd) ht
  cases hc : g.call with
  | none =>
    rw [hc] at hs
    subst hs
    exact .inl (old ht)
  | some c =>
    have hcalls := hc ▸ hP.calls k q.data g hk hg
    rw [hc] at hs
    have heff := (effect_of_calls h.sched hcalls hs).1
    rcases heff.came d (hP.objects d hd) (h.untimed d hd) t ht with ht | ⟨rfl, hwait⟩
    · exact .inl (old ht)
    · exact .inr ⟨rfl, c, rfl, hwait⟩

/-! ## Runs -/

theorem Placed.permits_run (h : P.Placed b q) (hP : P.Sound) (hB : P.Balanced j held recorded)
    (hq : Permits j held recorded permits q) (hk : P.outside k = false) (hmay : P.MayRun q k)
    (hr : P.run q k = some q') : Permits j held recorded permits q' := by
  have htotal := h.total_run (f := held) hP hk hr
  have hheld := hmay.held hB.entry
  obtain ⟨g, s, hg, hs, rfl⟩ := run_eq hr
  have hcode := hB.code k _ g hk hg
  have hbefore := hq.count
  dsimp only at htotal
  rw [Function.update_self, ← hheld] at htotal
  suffices hcount : (s.sem j).count = (q.sched.sem j).count + gives j g.call ∧ s.Queued j by
    refine ⟨?_, hcount.2⟩
    show (s.sem j).count + recorded g.data + _ = permits
    rw [hcount.1]
    omega
  cases hc : g.call with
  | none =>
    rw [hc] at hs
    subst hs
    exact ⟨(Int.add_zero _).symm, hq.queued⟩
  | some c =>
    have hcalls := hc ▸ hP.calls k q.data g hk hg
    rw [hc] at hs
    exact count_of_calls h.sched hcalls hs (h.untimed _ hB.object) hq.queued

theorem Placed.permits_step (h : P.Placed b q) (hP : P.Sound) (hB : P.Balanced j held recorded)
    (hq : Permits j held recorded permits q) (hs : P.step q m = some q') :
    Permits j held recorded permits q' := by
  rcases step_cases hP hs with ⟨k, -, hk, hmay, hrun⟩ | ⟨m, s, hp, hstep, rfl⟩
  · exact h.permits_run hP hB hq hk hmay hrun
  · obtain ⟨-, huses⟩ := Bool.and_eq_true_iff.1 hp
    have hm : Sched.usesSem j m = false := by
      simpa [Sched.uses] using List.all_eq_true.1 huses _ hB.object
    have hsem : s.sem j = q.sched.sem j :=
      (h.sched.sem_step hstep hm (h.untimed _ hB.object)).1
    refine ⟨?_, ?_⟩
    · show (s.sem j).count + recorded q.data + _ = permits
      rw [h.total_other hB.ends hp hstep, hsem]
      exact hq.count
    · show ((s.sem j).waitq.length : Int) = max 0 (-(s.sem j).count)
      rw [hsem]
      exact hq.queued

/-- **In every run the count of a semaphore is what is left of the permits.** -/
theorem reach_permits (hP : P.Sound) (hB : P.Balanced j held recorded) (h0 : P.Placed b q₀)
    (hq0 : Permits j held recorded permits q₀) (h : Reach P.step ok q₀ q) :
    Permits j held recorded permits q := by
  induction h with
  | refl => exact hq0
  | tail hq hlast ih =>
    obtain ⟨m, -, hs⟩ := hlast
    exact (reach_placed hP h0 hq).permits_step hP hB ih hs

/-- At the start nobody holds a permit. -/
theorem permits_start {d : δ} {k₀ : κ} (hu : s.unused (.sem j) = true) (hcount : (s.sem j).count = permits)
    (hpos : 0 ≤ permits) (hd : recorded d = 0) (hk : held k₀ = 0) :
    Permits j held recorded permits { sched := s, data := d, pc := fun _ => k₀ } := by
  have hempty : (s.sem j).waitq = [] := Sched.waitq_of_unused (k := .sem j) hu
  refine ⟨?_, ?_⟩
  · show (s.sem j).count + recorded d + _ = permits
    rw [total_start hk, hd, hcount]
    omega
  · show ((s.sem j).waitq.length : Int) = max 0 (-(s.sem j).count)
    rw [hempty, hcount, List.length_nil]
    omega

/-- What is asked for is what there is and what is waited for. -/
theorem Permits.eq (h : Permits j held recorded permits q) (hsome : (q.sched.sem j).waitq ≠ []) :
    recorded q.data + total held q = permits + (q.sched.sem j).waitq.length := by
  have hcount := h.count
  have hqueued : ((q.sched.sem j).waitq.length : Int) = max 0 (-(q.sched.sem j).count) := h.queued
  have hpos := List.length_pos_iff.2 hsome
  omega

/-- Those who have a permit and those who wait for one: as many as there are permits are not in the
queue. -/
theorem Placed.holders_le (h : P.Placed b q) (hB : P.Balanced j held recorded)
    (hp : Permits j held recorded permits q) (hl : l.Nodup)
    (hnot : ∀ t ∈ l, t ∉ (q.sched.sem j).waitq) :
    recorded q.data + (l.map fun t => held (q.pc t)).sum +
      ((q.sched.sem j).waitq.map fun t => held (q.pc t)).sum ≤
        permits + (q.sched.sem j).waitq.length := by
  have hqueue : (q.sched.sem j).waitq.Nodup := h.sched.distinct (.sem j)
  have hnodup : (l ++ (q.sched.sem j).waitq).Nodup := by
    refine List.nodup_append.2 ⟨hl, hqueue, ?_⟩
    rintro t ht u hu rfl
    exact hnot t ht hu
  have hsum := h.sum_le_total hB.ends hnodup
  rw [List.map_append, List.sum_append] at hsum
  have hcount := hp.count
  have hqueued : ((q.sched.sem j).waitq.length : Int) = max 0 (-(q.sched.sem j).count) := hp.queued
  omega

end Client

end Ptask.OneN
