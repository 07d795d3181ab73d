import Mathlib.Logic.Relation

/-!
# Runs of a partial step function

A system is given by `step : σ → α → Option σ`: the state after a move, or `none` when the move
is not enabled. `Reach step ok s s'` says that some run leads from `s` to `s'` all of whose moves
satisfy `ok` in the state in which they are taken. The side condition is what a result about
*restricted* runs is stated with; unrestricted runs are `Reach step (fun _ _ => True)`.

`Reach.invariant` is the induction rule of every safety result: an invariant that holds initially
and that each allowed move preserves holds of every state reached.
-/

namespace Ptask.Lib

variable {σ α : Type*} {step : σ → α → Option σ} {ok ok' : σ → α → Prop}

/-- One enabled move that satisfies the side condition. -/
def StepIn (step : σ → α → Option σ) (ok : σ → α → Prop) (s s' : σ) : Prop :=
  ∃ m, ok s m ∧ step s m = some s'

/-- `s'` is reached from `s` by moves that all satisfy the side condition. -/
def Reach (step : σ → α → Option σ) (ok : σ → α → Prop) : σ → σ → Prop :=
  Relation.ReflTransGen (StepIn step ok)

/-- A move that is always allowed. -/
abbrev anyMove : σ → α → Prop := fun _ _ => True

namespace Reach

theorem refl (s : σ) : Reach step ok s s := Relation.ReflTransGen.refl

theorem tail {s s' s'' : σ} {m : α} (h : Reach step ok s s') (hok : ok s' m)
    (hs : step s' m = some s'') : Reach step ok s s'' :=
  Relation.ReflTransGen.tail h ⟨m, hok, hs⟩

theorem trans {s s' s'' : σ} (h : Reach step ok s s') (h' : Reach step ok s' s'') :
    Reach step ok s s'' :=
  Relation.ReflTransGen.trans h h'

/-- Weakening the side condition. -/
theorem mono (hok : ∀ s m, ok s m → ok' s m) {s s' : σ} (h : Reach step ok s s') :
    Reach step ok' s s' := by
  induction h with
  | refl => exact refl _
  | tail _ hlast ih =>
    obtain ⟨m, hm, hs⟩ := hlast
    exact ih.tail (hok _ m hm) hs

/-- Where the side condition holds the two systems make the same moves. -/
theorem congr {step' : σ → α → Option σ} (hstep : ∀ s m, ok s m → step s m = step' s m) {s s' : σ}
    (h : Reach step ok s s') : Reach step' ok s s' := by
  induction h with
  | refl => exact refl _
  | tail _ hlast ih =>
    obtain ⟨m, hm, hs⟩ := hlast
    exact ih.tail hm (hstep _ m hm ▸ hs)

theorem any {s s' : σ} (h : Reach step ok s s') : Reach step anyMove s s' :=
  h.mono fun _ _ _ => trivial

/-- **The invariant rule.** -/
theorem invariant {P : σ → Prop} {s s' : σ} (h : Reach step ok s s') (h0 : P s)
    (hstep : ∀ s m s', P s → ok s m → step s m = some s' → P s') : P s' := by
  induction h with
  | refl => exact h0
  | tail _ hlast ih =>
    obtain ⟨m, hm, hs⟩ := hlast
    exact hstep _ m _ ih hm hs

/-- The invariant rule relative to an invariant that is already known. -/
theorem invariant_of {I P : σ → Prop} {s s' : σ} (h : Reach step ok s s') (hI : I s) (h0 : P s)
    (hIstep : ∀ s m s', I s → ok s m → step s m = some s' → I s')
    (hstep : ∀ s m s', I s → P s → ok s m → step s m = some s' → P s') : P s' :=
  (h.invariant (P := fun s => I s ∧ P s) ⟨hI, h0⟩ fun s m s' hs hm he =>
    ⟨hIstep s m s' hs.1 hm he, hstep s m s' hs.1 hs.2 hm he⟩).2

/-- An executed list of moves is a run. -/
theorem of_foldlM {ms : List α} {s s' : σ} (h : ms.foldlM step s = some s') :
    Reach step anyMove s s' := by
  induction ms generalizing s with
  | nil => cases h; exact refl _
  | cons m ms ih =>
    rw [List.foldlM_cons] at h
    obtain ⟨s1, h1, h2⟩ := Option.bind_eq_some_iff.1 h
    exact ((refl s).tail trivial h1).trans (ih h2)

/-- A move that is not taken when it does not satisfy the side condition. -/
def guarded (step : σ → α → Option σ) (ok : σ → α → Prop) [∀ s m, Decidable (ok s m)] (s : σ)
    (m : α) : Option σ :=
  if ok s m then step s m else none

/-- An executed list of moves that satisfy the side condition is a restricted run. -/
theorem of_guarded [∀ s m, Decidable (ok s m)] {ms : List α} {s s' : σ}
    (h : ms.foldlM (guarded step ok) s = some s') : Reach step ok s s' := by
  induction ms generalizing s with
  | nil => cases h; exact refl _
  | cons m ms ih =>
    rw [List.foldlM_cons] at h
    obtain ⟨s1, h1, h2⟩ := Option.bind_eq_some_iff.1 h
    unfold guarded at h1
    split at h1
    · next hok => exact ((refl s).tail hok h1).trans (ih h2)
    · cases h1

end Reach

end Ptask.Lib
