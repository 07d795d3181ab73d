import Mathlib.Data.Set.Insert
import Mathlib.Logic.Function.Basic

/-!
# Exclusive ownership

Owners hold at most one resource each (`own : ω → Option ρ`). `Exclusive own rs` says that they hold
resources of `rs` only and that every resource of `rs` has exactly one owner: nothing is shared and
nothing is leaked. A resource can be acquired, handed over, and released.
-/

namespace Ptask.Lib

variable {ω ρ : Type*} {own own' : ω → Option ρ} {rs : Set ρ} {o o' : ω} {r r' : ρ}

structure Exclusive (own : ω → Option ρ) (rs : Set ρ) : Prop where
  /-- What is held is a resource. -/
  mem : ∀ {o r}, own o = some r → r ∈ rs
  /-- Every resource has exactly one owner. -/
  unique : ∀ r ∈ rs, ∃! o, own o = some r

namespace Exclusive

theorem inj (h : Exclusive own rs) (ho : own o = some r) (ho' : own o' = some r) : o = o' :=
  (h.unique r (h.mem ho)).unique ho ho'

variable [DecidableEq ω]

/-- An owner that holds nothing acquires a new resource. -/
theorem acquire (h : Exclusive own rs) (ho : own o = none) (hr : r ∉ rs) :
    Exclusive (Function.update own o (some r)) (insert r rs) := by
  constructor
  · intro p q hp
    by_cases hpo : p = o
    · subst hpo
      rw [Function.update_self] at hp
      exact .inl (Option.some.inj hp).symm
    · rw [Function.update_of_ne hpo] at hp
      exact .inr (h.mem hp)
  · rintro q (rfl | hq)
    · refine ⟨o, Function.update_self .., fun p hp => ?_⟩
      by_contra hpo
      dsimp only at hp
      rw [Function.update_of_ne hpo] at hp
      exact hr (h.mem hp)
    · obtain ⟨p, hp, huniq⟩ := h.unique q hq
      have hpo : p ≠ o := by
        rintro rfl
        rw [ho] at hp
        cases hp
      refine ⟨p, (Function.update_of_ne hpo ..).trans hp, fun p' hp' => ?_⟩
      dsimp only at hp'
      by_cases hpo' : p' = o
      · subst hpo'
        rw [Function.update_self] at hp'
        cases hp'
        exact absurd hq hr
      · rw [Function.update_of_ne hpo'] at hp'
        exact huniq p' hp'

/-- An owner gives its resource up. -/
theorem release (h : Exclusive own rs) (ho : own o = some r) :
    Exclusive (Function.update own o none) (rs \ {r}) := by
  have hne {p : ω} {q : ρ} (hp : Function.update own o none p = some q) : p ≠ o ∧ own p = some q := by
    have hpo : p ≠ o := by
      rintro rfl
      rw [Function.update_self] at hp
      cases hp
    rw [Function.update_of_ne hpo] at hp
    exact ⟨hpo, hp⟩
  constructor
  · intro p q hp
    obtain ⟨hpo, hp⟩ := hne hp
    refine ⟨h.mem hp, ?_⟩
    rintro rfl
    exact hpo (h.inj hp ho)
  · rintro q ⟨hq, hqr⟩
    obtain ⟨p, hp, huniq⟩ := h.unique q hq
    have hpo : p ≠ o := by
      rintro rfl
      rw [ho] at hp
      exact hqr (Option.some.inj hp).symm
    exact ⟨p, (Function.update_of_ne hpo ..).trans hp, fun p' hp' => huniq p' (hne hp').2⟩

/-- An owner hands its resource over to one that holds nothing. -/
theorem transfer {q : ω} (h : Exclusive own rs) (ho : own o = some r) (hq : own q = none) :
    Exclusive (Function.update (Function.update own o none) q (some r)) rs := by
  have hne : q ≠ o := by
    rintro rfl
    rw [ho] at hq
    cases hq
  have hr := h.mem ho
  have hrel := (h.release ho).acquire (o := q) (r := r)
    ((Function.update_of_ne hne ..).trans hq) fun hm => hm.2 rfl
  have hset : insert r (rs \ {r}) = rs := by
    ext x
    by_cases hx : x = r
    · simp [hx, hr]
    · simp [hx]
  rwa [hset] at hrel

omit [DecidableEq ω] in
/-- Two owners of one resource. -/
theorem not_of_shared (ho : own o = some r) (ho' : own o' = some r) (hne : o ≠ o') :
    ¬Exclusive own rs :=
  fun h => hne (h.inj ho ho')

end Exclusive

end Ptask.Lib
