import Mathlib.Algebra.Order.Group.Defs
import Mathlib.Algebra.Order.BigOperators.Group.List
import Mathlib.Tactic.Abel

/-!
# Delta lists

A delta list holds timers in the order in which they run out. The interval `δ t` of an entry is the
time from the end of the entry before it to its own, so that time passes for all of them by changing
the first interval only, and an insertion or a removal changes one interval besides its own. What an
entry means is `remaining`, the sum of the intervals up to it; the results say what each operation
does to `remaining`.
-/

namespace Ptask.Lib.DeltaList

variable {α M : Type*} [DecidableEq α] [AddCommGroup M]

/-- The time after which `t` runs out. -/
def remaining (δ : α → M) : List α → α → M
  | [], _ => 0
  | a :: l, t => δ a + if t = a then 0 else remaining δ l t

/-- The intervals of `l` after `x` has been removed: the entry behind `x` takes over its interval. -/
def remove (x : α) : List α → (α → M) → α → M
  | a :: b :: l, δ => if a = x then Function.update δ b (δ b + δ a) else remove x (b :: l) δ
  | _, δ => δ

section

variable {δ δ' : α → M} {l : List α} {a x t : α} {g : M}

omit [DecidableEq α] in
theorem ne_and_not_mem (h : t ∉ a :: l) : t ≠ a ∧ t ∉ l :=
  ⟨List.ne_of_not_mem_cons h, List.not_mem_of_not_mem_cons h⟩

@[simp] theorem remaining_cons_self : remaining δ (a :: l) a = δ a := by
  simp [remaining]

theorem remaining_cons_of_ne (h : t ≠ a) : remaining δ (a :: l) t = δ a + remaining δ l t := by
  simp [remaining, h]

theorem remaining_append_of_mem {p : List α} (ht : t ∈ p) :
    remaining δ (p ++ l) t = remaining δ p t := by
  induction p with
  | nil => exact absurd ht List.not_mem_nil
  | cons a p ih =>
    by_cases hta : t = a
    · subst hta
      rw [List.cons_append, remaining_cons_self, remaining_cons_self]
    · have htp : t ∈ p := List.mem_of_ne_of_mem hta ht
      rw [List.cons_append, remaining_cons_of_ne hta, remaining_cons_of_ne hta, ih htp]

/-- An entry waits for all entries in front of it. -/
theorem remaining_append_of_not_mem {p : List α} (ht : t ∉ p) :
    remaining δ (p ++ l) t = (p.map δ).sum + remaining δ l t := by
  induction p with
  | nil => simp
  | cons a p ih =>
    obtain ⟨hne, hp⟩ := ne_and_not_mem ht
    rw [List.cons_append, remaining_cons_of_ne hne, ih hp, List.map_cons, List.sum_cons, add_assoc]

/-- The last entry runs out after the sum of all intervals. -/
theorem remaining_getLast (hl : l.Nodup) (hne : l ≠ []) :
    remaining δ l (l.getLast hne) = (l.map δ).sum := by
  have hsplit : l.dropLast ++ [l.getLast hne] = l := List.dropLast_append_getLast hne
  have hlast : l.getLast hne ∉ l.dropLast := by
    rw [← hsplit] at hl
    intro hm
    exact (List.nodup_append.1 hl).2.2 _ hm _ (List.mem_singleton.2 rfl) rfl
  generalize l.getLast hne = t at hsplit hlast
  rw [← hsplit, remaining_append_of_not_mem hlast, remaining_cons_self, List.map_append,
    List.sum_append, List.map_singleton, List.sum_singleton]

omit [DecidableEq α] in
theorem sum_of_zero (hz : ∀ u ∈ l, δ u = 0) : (l.map δ).sum = 0 := by
  apply List.sum_eq_zero
  intro x hx
  obtain ⟨u, hu, rfl⟩ := List.mem_map.1 hx
  exact hz u hu

/-- Entries that run out at once. -/
theorem remaining_of_zero {p : List α} (hz : ∀ u ∈ p, δ u = 0) (ht : t ∈ p) :
    remaining δ (p ++ l) t = 0 := by
  induction p with
  | nil => exact absurd ht List.not_mem_nil
  | cons a p ih =>
    rw [List.cons_append, remaining, hz a List.mem_cons_self, zero_add]
    split
    · rfl
    · next hne =>
      exact ih (fun u hu => hz u (List.mem_cons_of_mem _ hu)) (List.mem_of_ne_of_mem hne ht)

theorem remaining_congr (h : ∀ u ∈ l, δ' u = δ u) : remaining δ' l t = remaining δ l t := by
  induction l with
  | nil => rfl
  | cons a l ih =>
    rw [remaining, remaining, h a List.mem_cons_self,
      ih fun u hu => h u (List.mem_cons_of_mem _ hu)]

/-- Entries at the front that run out at once do not delay the entries behind them. -/
theorem remaining_append_of_zero {p : List α} (hz : ∀ u ∈ p, δ u = 0) (ht : t ∉ p) :
    remaining δ (p ++ l) t = remaining δ l t := by
  rw [remaining_append_of_not_mem ht, sum_of_zero hz, zero_add]

/-- When the first interval gets shorter, time has passed for every entry. -/
theorem remaining_shorten (hl : (a :: l).Nodup) :
    remaining (Function.update δ a (δ a - g)) (a :: l) t = remaining δ (a :: l) t - g := by
  have ha := (List.nodup_cons.1 hl).1
  have hrest : remaining (Function.update δ a (δ a - g)) l t = remaining δ l t := by
    apply remaining_congr
    intro u hu
    have hne : u ≠ a := fun e => ha (e ▸ hu)
    rw [Function.update_of_ne hne]
  rw [remaining, remaining, hrest, Function.update_self]
  abel

theorem remove_of_ne_head (h : t ∉ l) : remove x (a :: l) δ t = δ t := by
  induction l generalizing a with
  | nil => rfl
  | cons b l ih =>
    obtain ⟨hne, hl⟩ := ne_and_not_mem h
    rw [remove]
    split
    · rw [Function.update_of_ne hne]
    · exact ih hl

/-- A removal does not change when the other entries run out. -/
theorem remaining_remove (hl : l.Nodup) (hx : t ≠ x) (ht : t ∈ l) :
    remaining (remove x l δ) (l.erase x) t = remaining δ l t := by
  induction l with
  | nil => exact absurd ht List.not_mem_nil
  | cons a l ih =>
    obtain ⟨ha, hl'⟩ := List.nodup_cons.1 hl
    cases l with
    | nil =>
      obtain rfl := List.mem_singleton.1 ht
      rw [List.erase_of_not_mem (by simpa using Ne.symm hx)]
      rfl
    | cons b l =>
      by_cases hax : a = x
      · subst hax
        have htl : t ∈ b :: l := List.mem_of_ne_of_mem hx ht
        rw [List.erase_cons_head, remove, if_pos rfl, remaining_cons_of_ne hx]
        have hb := (List.nodup_cons.1 hl').1
        have hshort := remaining_shorten (δ := δ) (g := -δ a) (t := t) hl'
        rw [sub_neg_eq_add, sub_neg_eq_add] at hshort
        rw [hshort, add_comm]
      · have hhead : remove x (a :: b :: l) δ a = δ a := remove_of_ne_head ha
        have hstep : remove x (a :: b :: l) δ = remove x (b :: l) δ := by rw [remove, if_neg hax]
        rw [List.erase_cons_tail (by simpa using hax)]
        by_cases hta : t = a
        · subst hta
          rw [remaining_cons_self, remaining_cons_self, hhead]
        · have htl : t ∈ b :: l := List.mem_of_ne_of_mem hta ht
          rw [remaining_cons_of_ne hta, remaining_cons_of_ne hta, hhead, hstep, ih hl' htl]

end

/-! ## Order -/

variable [LinearOrder M]

/-- The insertion of `x`, which is to run out after `d`: the list and its intervals. -/
def insert (x : α) : M → List α → (α → M) → List α × (α → M)
  | d, [], δ => ([x], Function.update δ x d)
  | d, a :: l, δ =>
    if d = 0 then (x :: a :: l, Function.update δ x d)
    else if d < δ a then
      (x :: a :: l, Function.update (Function.update δ a (δ a - d)) x d)
    else
      let r := insert x (d - δ a) l δ
      (a :: r.1, r.2)

section

variable {δ : α → M} {l : List α} {a x t : α} {d : M}

theorem mem_insert : t ∈ (insert x d l δ).1 ↔ t = x ∨ t ∈ l := by
  induction l generalizing d with
  | nil => simp [insert]
  | cons a l ih =>
    rw [insert]
    split
    · simp
    · split
      · simp
      · simp [ih, or_left_comm]

/-- Entries that are not on the list keep what is stored for them. -/
theorem insert_of_not_mem (hx : t ≠ x) (ht : t ∉ l) : (insert x d l δ).2 t = δ t := by
  induction l generalizing d with
  | nil => simp [insert, hx]
  | cons a l ih =>
    obtain ⟨hne, hl⟩ := ne_and_not_mem ht
    rw [insert]
    split
    · simp [hx]
    · split
      · simp [hx, hne]
      · exact ih hl

theorem remaining_insert_self (hl : l.Nodup) (hx : x ∉ l) :
    remaining (insert x d l δ).2 (insert x d l δ).1 x = d := by
  induction l generalizing d with
  | nil => simp [insert]
  | cons a l ih =>
    obtain ⟨hne, hxl⟩ := ne_and_not_mem hx
    obtain ⟨ha, hl⟩ := List.nodup_cons.1 hl
    rw [insert]
    split
    · simp
    · split
      · simp
      · dsimp only
        rw [remaining_cons_of_ne hne, insert_of_not_mem hne.symm ha, ih hl hxl]
        abel

/-- An insertion does not change when the other entries run out. -/
theorem remaining_insert_of_ne (hl : l.Nodup) (hx : x ∉ l) (ht : t ∈ l) :
    remaining (insert x d l δ).2 (insert x d l δ).1 t = remaining δ l t := by
  induction l generalizing d with
  | nil => exact absurd ht List.not_mem_nil
  | cons a l ih =>
    obtain ⟨hxa, hxl⟩ := ne_and_not_mem hx
    obtain ⟨ha, hl'⟩ := List.nodup_cons.1 hl
    have htx : t ≠ x := fun e => hx (e ▸ ht)
    have hne (u : α) (hu : u ∈ a :: l) : u ≠ x := fun e => hx (e ▸ hu)
    have hkeep (δ' : α → M) :
        remaining (Function.update δ' x d) (a :: l) t = remaining δ' (a :: l) t := by
      apply remaining_congr
      intro u hu
      rw [Function.update_of_ne (hne u hu)]
    rw [insert]
    split
    · next hd =>
      dsimp only
      rw [remaining_cons_of_ne htx, Function.update_self, hkeep, hd, zero_add]
    · split
      · dsimp only
        rw [remaining_cons_of_ne htx, Function.update_self, hkeep, remaining_shorten hl]
        abel
      · dsimp only
        by_cases hta : t = a
        · subst hta
          rw [remaining_cons_self, remaining_cons_self, insert_of_not_mem htx ha]
        · have htl : t ∈ l := List.mem_of_ne_of_mem hta ht
          rw [remaining_cons_of_ne hta, remaining_cons_of_ne hta,
            insert_of_not_mem (Ne.symm hxa) ha, ih hl' hxl htl]

/-- An insertion keeps the other entries in their order. -/
theorem insert_erase (hx : x ∉ l) : (insert x d l δ).1.erase x = l := by
  induction l generalizing d with
  | nil => simp [insert]
  | cons a l ih =>
    obtain ⟨hne, hxl⟩ := ne_and_not_mem hx
    rw [insert]
    split
    · exact List.erase_cons_head _ _
    · split
      · exact List.erase_cons_head _ _
      · dsimp only
        rw [List.erase_cons_tail (by simpa using hne.symm), ih hxl]

theorem insert_nodup (hl : l.Nodup) (hx : x ∉ l) : (insert x d l δ).1.Nodup := by
  induction l generalizing d with
  | nil => simp [insert]
  | cons a l ih =>
    obtain ⟨hne, hxl⟩ := ne_and_not_mem hx
    obtain ⟨ha, hl'⟩ := List.nodup_cons.1 hl
    rw [insert]
    split
    · exact List.nodup_cons.2 ⟨hx, hl⟩
    · split
      · exact List.nodup_cons.2 ⟨hx, hl⟩
      · refine List.nodup_cons.2 ⟨fun hm => ?_, ih hl' hxl⟩
        rcases mem_insert.1 hm with rfl | hm
        · exact hne rfl
        · exact ha hm

variable [IsOrderedAddMonoid M]

theorem insert_nonneg (hl : l.Nodup) (hx : x ∉ l) (hd : 0 ≤ d) (hn : ∀ u ∈ l, 0 ≤ δ u) :
    ∀ u ∈ (insert x d l δ).1, 0 ≤ (insert x d l δ).2 u := by
  induction l generalizing d with
  | nil =>
    intro u hu
    obtain rfl := List.mem_singleton.1 hu
    simpa [insert] using hd
  | cons a l ih =>
    obtain ⟨hxa, hxl⟩ := ne_and_not_mem hx
    obtain ⟨ha, hl'⟩ := List.nodup_cons.1 hl
    have hne (u : α) (hu : u ∈ a :: l) : u ≠ x := fun e => hx (e ▸ hu)
    rw [insert]
    split
    · intro u hu
      dsimp only
      rcases List.mem_cons.1 hu with rfl | hu
      · rwa [Function.update_self]
      · rw [Function.update_of_ne (hne u hu)]
        exact hn u hu
    · split
      · next hlt =>
        intro u hu
        dsimp only
        rcases List.mem_cons.1 hu with rfl | hu
        · rwa [Function.update_self]
        · rw [Function.update_of_ne (hne u hu)]
          by_cases hua : u = a
          · subst hua
            rw [Function.update_self]
            exact sub_nonneg.2 hlt.le
          · rw [Function.update_of_ne hua]
            exact hn u hu
      · next hlt =>
        intro u hu
        rcases List.mem_cons.1 hu with rfl | hu
        · rw [insert_of_not_mem (Ne.symm hxa) ha]
          exact hn u List.mem_cons_self
        · exact ih hl' hxl (sub_nonneg.2 (not_lt.1 hlt)) (fun v hv =>
            hn v (List.mem_cons_of_mem _ hv)) u hu

theorem remove_nonneg (hn : ∀ u ∈ l, 0 ≤ δ u) : ∀ u ∈ l, 0 ≤ remove x l δ u := by
  induction l with
  | nil => nofun
  | cons a l ih =>
    cases l with
    | nil => exact hn
    | cons b l =>
      intro u hu
      rw [remove]
      split
      · by_cases hub : u = b
        · subst hub
          rw [Function.update_self]
          exact add_nonneg (hn _ (by simp)) (hn _ (by simp))
        · rw [Function.update_of_ne hub]
          exact hn u hu
      · have hrest := ih fun v hv => hn v (List.mem_cons_of_mem _ hv)
        rcases List.mem_cons.1 hu with rfl | hu
        · by_cases hul : u ∈ b :: l
          · exact hrest u hul
          · rw [remove_of_ne_head fun h => hul (List.mem_cons_of_mem _ h)]
            exact hn u List.mem_cons_self
        · exact hrest u hu

theorem remaining_nonneg (hn : ∀ u ∈ l, 0 ≤ δ u) : 0 ≤ remaining δ l t := by
  induction l with
  | nil => exact le_rfl
  | cons a l ih =>
    rw [remaining]
    apply add_nonneg (hn a List.mem_cons_self)
    split
    · exact le_rfl
    · exact ih fun u hu => hn u (List.mem_cons_of_mem _ hu)

/-- The entries are in the order in which they run out. -/
theorem pairwise_remaining (hl : l.Nodup) (hn : ∀ u ∈ l, 0 ≤ δ u) :
    l.Pairwise fun t u => remaining δ l t ≤ remaining δ l u := by
  induction l with
  | nil => exact List.Pairwise.nil
  | cons a l ih =>
    obtain ⟨ha, hl'⟩ := List.nodup_cons.1 hl
    have hn' : ∀ u ∈ l, 0 ≤ δ u := fun u hu => hn u (List.mem_cons_of_mem _ hu)
    have hbehind (t : α) (ht : t ∈ l) : remaining δ (a :: l) t = δ a + remaining δ l t :=
      remaining_cons_of_ne fun e => ha (e ▸ ht)
    refine List.Pairwise.cons (fun u hu => ?_) ((ih hl' hn').imp_of_mem fun {t u} ht hu h => ?_)
    · rw [remaining_cons_self, hbehind u hu]
      exact le_add_of_nonneg_right (remaining_nonneg hn')
    · rw [hbehind t ht, hbehind u hu]
      exact add_le_add_right h (δ a)

/-- No entry runs out after the sum of all intervals. -/
theorem remaining_le_sum (hn : ∀ u ∈ l, 0 ≤ δ u) : remaining δ l t ≤ (l.map δ).sum := by
  induction l with
  | nil => exact le_rfl
  | cons a l ih =>
    have hl : ∀ u ∈ l, 0 ≤ δ u := fun u hu => hn u (List.mem_cons_of_mem _ hu)
    rw [remaining, List.map_cons, List.sum_cons]
    apply add_le_add_right
    split
    · exact (remaining_nonneg (t := t) hl).trans (ih hl)
    · exact ih hl

omit [DecidableEq α] in
theorem sum_map_nonneg (hn : ∀ u ∈ l, 0 ≤ δ u) : 0 ≤ (l.map δ).sum := by
  apply List.sum_nonneg
  intro x hx
  obtain ⟨u, hu, rfl⟩ := List.mem_map.1 hx
  exact hn u hu

omit [DecidableEq α] in
theorem sum_eq_zero_iff (hn : ∀ u ∈ l, 0 ≤ δ u) : (l.map δ).sum = 0 ↔ ∀ u ∈ l, δ u = 0 := by
  refine ⟨fun h => ?_, sum_of_zero⟩
  induction l with
  | nil => nofun
  | cons a l ih =>
    have ha : 0 ≤ δ a := hn a List.mem_cons_self
    have hl : ∀ u ∈ l, 0 ≤ δ u := fun u hu => hn u (List.mem_cons_of_mem _ hu)
    rw [List.map_cons, List.sum_cons] at h
    obtain ⟨h1, h2⟩ := (add_eq_zero_iff_of_nonneg ha (sum_map_nonneg hl)).1 h
    exact List.forall_mem_cons.2 ⟨h1, ih hl h2⟩

/-- All entries run out within `g` when the sum of the intervals is at most `g`. -/
theorem forall_remaining_le_iff (hl : l.Nodup) (hn : ∀ u ∈ l, 0 ≤ δ u) {g : M} (hg : 0 ≤ g) :
    (∀ u ∈ l, remaining δ l u ≤ g) ↔ (l.map δ).sum ≤ g := by
  constructor
  · intro h
    by_cases hne : l = []
    · subst hne
      exact hg
    · rw [← remaining_getLast hl hne]
      exact h _ (List.getLast_mem hne)
  · intro h u _
    exact (remaining_le_sum hn).trans h

/-! ## Ticks -/

/-- **A tick that compares every entry with the whole gap.** Of a list whose entries in `p` have
intervals of at most `g`, and whose first entry behind `p` has a longer one, it takes off `p` and
takes `g` off that interval. It has consumed the gap as the entries ask for exactly when those in `p`
run out at once, or when `p` is the whole list and runs out within the gap. -/
theorem tick_iff {p r : List α} {g : M} {ε : α → M} (hl : (p ++ r).Nodup)
    (hn : ∀ u ∈ p ++ r, 0 ≤ δ u) (hg : 0 ≤ g) (hhead : ∀ a q, r = a :: q →
      g < δ a ∧ ε = Function.update δ a (δ a - g)) :
    ((p ++ r).filter (fun t => g < remaining δ (p ++ r) t) = r ∧
        (p ++ r).filter (fun t => remaining δ (p ++ r) t ≤ g) = p ∧
        ∀ t ∈ r, remaining ε r t = remaining δ (p ++ r) t - g) ↔
      (∀ t ∈ p, δ t = 0) ∨ (r = [] ∧ (p.map δ).sum ≤ g) := by
  obtain ⟨hp, hr, hdisj⟩ := List.nodup_append.1 hl
  have hnp : ∀ u ∈ p, 0 ≤ δ u := fun u hu => hn u (List.mem_append_left _ hu)
  have hnr : ∀ u ∈ r, 0 ≤ δ u := fun u hu => hn u (List.mem_append_right _ hu)
  have hsum : 0 ≤ (p.map δ).sum := sum_map_nonneg hnp
  have hout (t : α) (ht : t ∈ r) : t ∉ p := fun hm => hdisj t hm t ht rfl
  have hbehind (t : α) (ht : t ∈ r) :
      remaining δ (p ++ r) t = (p.map δ).sum + remaining δ r t :=
    remaining_append_of_not_mem (hout t ht)
  -- entries behind `p` are never due
  have hlate (t : α) (ht : t ∈ r) : g < remaining δ (p ++ r) t := by
    rw [hbehind t ht]
    cases r with
    | nil => exact absurd ht List.not_mem_nil
    | cons a q =>
      have hq : ∀ u ∈ q, 0 ≤ δ u := fun u hu => hnr u (List.mem_cons_of_mem _ hu)
      have hfirst : g < remaining δ (a :: q) t := by
        rw [remaining]
        apply lt_of_lt_of_le (hhead a q rfl).1
        apply le_add_of_nonneg_right
        split
        · exact le_rfl
        · exact remaining_nonneg hq
      exact lt_of_lt_of_le hfirst (le_add_of_nonneg_left hsum)
  have hafter (t : α) (ht : t ∈ r) :
      remaining ε r t = remaining δ (p ++ r) t - g - (p.map δ).sum := by
    rw [hbehind t ht]
    cases r with
    | nil => exact absurd ht List.not_mem_nil
    | cons a q =>
      rw [(hhead a q rfl).2, remaining_shorten hr]
      abel
  constructor
  · rintro ⟨hstay, -, hleft⟩
    cases r with
    | nil =>
      right
      refine ⟨rfl, (forall_remaining_le_iff hp hnp hg).1 fun u hu => ?_⟩
      by_contra hlt
      have hm : u ∈ (p ++ []).filter (fun t => g < remaining δ (p ++ []) t) := by
        rw [List.mem_filter, List.append_nil]
        exact ⟨hu, decide_eq_true (not_le.1 hlt)⟩
      rw [hstay] at hm
      exact absurd hm List.not_mem_nil
    | cons a q =>
      left
      have ha : a ∈ a :: q := List.mem_cons_self
      have heq : remaining ε (a :: q) a = remaining δ (p ++ a :: q) a - g := hleft a ha
      rw [hafter a ha] at heq
      exact (sum_eq_zero_iff hnp).1 (sub_eq_self.1 heq)
  · intro hcond
    have hsum : (p.map δ).sum ≤ g := by
      rcases hcond with hz | ⟨-, hsum⟩
      · rw [sum_of_zero hz]
        exact hg
      · exact hsum
    have hdue (t : α) (ht : t ∈ p) : remaining δ (p ++ r) t ≤ g := by
      rw [remaining_append_of_mem ht]
      exact (remaining_le_sum hnp).trans hsum
    refine ⟨?_, ?_, fun t ht => ?_⟩
    · rw [List.filter_append, List.filter_eq_nil_iff.2, List.filter_eq_self.2, List.nil_append]
      · intro t ht
        exact decide_eq_true (hlate t ht)
      · intro t ht
        simpa using hdue t ht
    · rw [List.filter_append, List.filter_eq_self.2, List.filter_eq_nil_iff.2, List.append_nil]
      · intro t ht
        simpa using hlate t ht
      · intro t ht
        exact decide_eq_true (hdue t ht)
    · rcases hcond with hz | ⟨rfl, -⟩
      · rw [hafter t ht, sum_of_zero hz, sub_zero]
      · exact absurd ht List.not_mem_nil

/-- An entry and the one behind it run out after at least the sum of their intervals. -/
theorem add_le_remaining {p : List α} {b : α} (hn : ∀ u ∈ p, 0 ≤ δ u) (ha : b ∉ p) (hb : b ≠ a) :
    δ a + δ b ≤ remaining δ (p ++ a :: b :: l) b := by
  induction p with
  | nil => rw [List.nil_append, remaining_cons_of_ne hb, remaining_cons_self]
  | cons c p ih =>
    obtain ⟨hne, hp⟩ := ne_and_not_mem ha
    rw [List.cons_append, remaining_cons_of_ne hne]
    have hrest := ih (fun u hu => hn u (List.mem_cons_of_mem _ hu)) hp
    exact hrest.trans (le_add_of_nonneg_left (hn c List.mem_cons_self))

end

end Ptask.Lib.DeltaList
