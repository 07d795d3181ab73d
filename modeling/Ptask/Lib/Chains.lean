import Mathlib.Data.List.Basic
import Mathlib.Data.List.Nodup
import Mathlib.Logic.Function.Basic

/-!
# Families of intrusive lists

An intrusive list threads its links through the elements, so an element with one pair of links is
on at most one list of a family `ch : κ → List τ` at a time. `Located ch x o` says which one: `o` is
the list that holds `x`, or `none`. The operations are those of a doubly linked chain: unlink an
element wherever it is, insert it before another one, append it, extract the first.
-/

namespace Ptask.Lib

variable {κ τ : Type*}

/-! ## One list -/

section

variable [DecidableEq τ]

/-- Insert `x` before `y`; at the end when `y` is not on the list. -/
def insertBefore (y x : τ) : List τ → List τ
  | [] => [x]
  | z :: l => if z = y then x :: z :: l else z :: insertBefore y x l

theorem insertBefore_append_singleton {y x : τ} :
    ∀ {l : List τ}, y ∉ l → insertBefore y x (l ++ [y]) = l ++ [x, y]
  | [], _ => by simp [insertBefore]
  | z :: l, h => by
    have hz : z ≠ y := fun e => h (e ▸ List.mem_cons_self)
    have hl : y ∉ l := fun e => h (List.mem_cons_of_mem _ e)
    simp [insertBefore, hz, insertBefore_append_singleton hl]

theorem insertBefore_perm (y x : τ) : ∀ l : List τ, (insertBefore y x l).Perm (x :: l)
  | [] => .refl _
  | z :: l => by
    unfold insertBefore
    split
    · exact .refl _
    · exact ((insertBefore_perm y x l).cons z).trans (.swap x z l)

@[simp] theorem mem_insertBefore {y x z : τ} {l : List τ} :
    z ∈ insertBefore y x l ↔ z = x ∨ z ∈ l := by
  rw [(insertBefore_perm y x l).mem_iff, List.mem_cons]

theorem insertBefore_nodup {y x : τ} {l : List τ} (hx : x ∉ l) (h : l.Nodup) :
    (insertBefore y x l).Nodup :=
  (insertBefore_perm y x l).nodup_iff.2 (List.nodup_cons.2 ⟨hx, h⟩)

theorem erase_append_singleton {x y : τ} {l : List τ} (h : x ≠ y) :
    (l ++ [y]).erase x = l.erase x ++ [y] := by
  by_cases hx : x ∈ l
  · exact List.erase_append_left _ hx
  · rw [List.erase_append_right _ hx, List.erase_of_not_mem hx]
    simp [Ne.symm h]

end

theorem append_singleton_nodup {x : τ} {l : List τ} (hx : x ∉ l) (h : l.Nodup) :
    (l ++ [x]).Nodup :=
  (List.perm_append_singleton x l).nodup_iff.2 (List.nodup_cons.2 ⟨hx, h⟩)

/-! ## Families -/

/-- `x` is on the list `o` of the family and on no other. -/
def Located (ch : κ → List τ) (x : τ) (o : Option κ) : Prop := ∀ c, x ∈ ch c ↔ o = some c

/-- No list of the family holds an element twice. -/
def Distinct (ch : κ → List τ) : Prop := ∀ c, (ch c).Nodup

/-- Unlink `x` from whatever list it is on. -/
def unlink [DecidableEq τ] (ch : κ → List τ) (x : τ) : κ → List τ := fun c => (ch c).erase x

/-- Replace one list of the family. -/
abbrev setChain [DecidableEq κ] (ch : κ → List τ) (c : κ) (l : List τ) : κ → List τ := Function.update ch c l

namespace Located

variable {ch : κ → List τ} {x : τ} {o : Option κ} {c : κ}

theorem mem (h : Located ch x (some c)) : x ∈ ch c := (h c).2 rfl

theorem not_mem (h : Located ch x none) : x ∉ ch c := fun hx => by cases (h c).1 hx

theorem not_mem_of_ne (h : Located ch x o) (hc : o ≠ some c) : x ∉ ch c := fun hx => hc ((h c).1 hx)

theorem eq_of_mem (h : Located ch x o) (hx : x ∈ ch c) : o = some c := (h c).1 hx

/-- An element is in one place. -/
theorem unique (h : Located ch x o) {o' : Option κ} (h' : Located ch x o') : o = o' := by
  cases o with
  | none =>
    cases o' with
    | none => rfl
    | some c => exact absurd h'.mem h.not_mem
  | some c => exact ((h' c).1 h.mem).symm

theorem congr {ch' : κ → List τ} (h : Located ch x o) (he : ∀ c, x ∈ ch' c ↔ x ∈ ch c) :
    Located ch' x o :=
  fun c => (he c).trans (h c)

/-- Unlinking takes an element off every list. -/
theorem unlink [DecidableEq τ] (hd : Distinct ch) : Located (unlink ch x) x none := fun c => by
  simp [Lib.unlink, (hd c).mem_erase_iff]

/-- An element on no list moves to the list it is put on. -/
theorem set [DecidableEq κ] {l : List τ} (h : Located ch x none) (hl : x ∈ l) :
    Located (setChain ch c l) x (some c) := fun d => by
  by_cases e : d = c
  · subst e; simp [hl]
  · have : some c ≠ some d := fun h => e (Option.some.inj h).symm
    simp [Function.update_of_ne e, h.not_mem, this]

/-- Taking an element off the one list it is on. -/
theorem off [DecidableEq κ] {l : List τ} (h : Located ch x (some c)) (hl : x ∉ l) :
    Located (setChain ch c l) x none := fun d => by
  by_cases e : d = c
  · subst e; simp [hl]
  · simp [Function.update_of_ne e, h.not_mem_of_ne (fun h => e (Option.some.inj h).symm)]

end Located

theorem mem_unlink_of_ne [DecidableEq τ] {ch : κ → List τ} {x y : τ} (h : y ≠ x) (c : κ) :
    y ∈ unlink ch x c ↔ y ∈ ch c := by
  simp [unlink, List.mem_erase_of_ne h]

/-- Replacing one list changes nothing for an element that both versions hold or lack alike. -/
theorem mem_setChain [DecidableEq κ] {ch : κ → List τ} {y : τ} {c : κ} {l : List τ} (h : y ∈ l ↔ y ∈ ch c) (d : κ) :
    y ∈ setChain ch c l d ↔ y ∈ ch d := by
  by_cases e : d = c
  · subst e; simp [h]
  · simp [Function.update_of_ne e]

theorem Distinct.unlink [DecidableEq τ] {ch : κ → List τ} (h : Distinct ch) (x : τ) : Distinct (unlink ch x) :=
  fun c => (h c).erase x

theorem Distinct.set [DecidableEq κ] {ch : κ → List τ} (h : Distinct ch) {c : κ} {l : List τ} (hl : l.Nodup) :
    Distinct (setChain ch c l) := fun d => by
  by_cases e : d = c
  · subst e; simpa using hl
  · simpa [Function.update_of_ne e] using h d

end Ptask.Lib
