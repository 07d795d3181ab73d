import Ptask.Lib.Chains

/-!
# Free lists

A free list threads its elements through a link that each element holds for itself (`IsList`). Only
the first element is ever taken and elements are only put in front, so a list changes by one link and
its head. Several such lists and a set of elements in use are a family of lists (`Ptask.Lib.Chains`)
between which elements move one at a time.
-/

namespace Ptask.Lib

variable {κ τ : Type*}

/-- The elements that the links lead through from `head` on. -/
def IsList (next : τ → Option τ) : Option τ → List τ → Prop
  | head, [] => head = none
  | head, x :: l => head = some x ∧ IsList next (next x) l

namespace IsList

variable {next next' : τ → Option τ} {head : Option τ} {x : τ} {l : List τ}

theorem congr (h : IsList next head l) (hn : ∀ x ∈ l, next' x = next x) : IsList next' head l := by
  induction l generalizing head with
  | nil => exact h
  | cons x l ih =>
    refine ⟨h.1, ?_⟩
    rw [hn x List.mem_cons_self]
    exact ih h.2 fun y hy => hn y (List.mem_cons_of_mem _ hy)

/-- The link of an element of none of the lists does not matter. -/
theorem update [DecidableEq τ] (h : IsList next head l) (hx : x ∉ l) (v : Option τ) :
    IsList (Function.update next x v) head l :=
  h.congr fun y hy => Function.update_of_ne (fun e : y = x => hx (e ▸ hy)) v next

theorem push [DecidableEq τ] (h : IsList next head l) (hx : x ∉ l) :
    IsList (Function.update next x head) (some x) (x :: l) := by
  refine ⟨rfl, ?_⟩
  rw [Function.update_self]
  exact h.update hx head

theorem pop (h : IsList next (some x) l) : ∃ rest, l = x :: rest ∧ IsList next (next x) rest := by
  cases l with
  | nil => cases h
  | cons y rest =>
    obtain rfl : x = y := Option.some.inj h.1
    exact ⟨rest, rfl, h.2⟩

theorem nil_iff (h : IsList next head l) : l = [] ↔ head = none := by
  cases l with
  | nil => exact iff_of_true rfl h
  | cons x l =>
    rw [h.1]
    exact iff_of_false nofun nofun

/-- The links lead through one list only. -/
theorem unique {l' : List τ} (h : IsList next head l) (h' : IsList next head l') : l = l' := by
  induction l generalizing head l' with
  | nil => exact (h'.nil_iff.2 h).symm
  | cons x l ih =>
    rw [h.1] at h'
    obtain ⟨rest, rfl, hrest⟩ := h'.pop
    rw [ih h.2 hrest]

end IsList

/-! ## Moving elements -/

section

variable {ch : κ → List τ} {x y : τ} {c d : κ} {o : Option κ}

section

variable [DecidableEq κ]

/-- An element on no list is put in front of one. -/
def put (ch : κ → List τ) (c : κ) (x : τ) : κ → List τ := setChain ch c (x :: ch c)

theorem put_self : put ch c x c = x :: ch c := Function.update_self ..

theorem put_of_ne (h : d ≠ c) : put ch c x d = ch d := Function.update_of_ne h ..

theorem Located.put (h : Located ch x none) : Located (put ch c x) x (some c) :=
  h.set List.mem_cons_self

theorem Located.put_of_ne (h : Located ch y o) (hy : y ≠ x) : Located (Lib.put ch c x) y o :=
  h.congr (mem_setChain (by simp [hy]))

theorem Distinct.put (h : Distinct ch) (hx : Located ch x none) : Distinct (put ch c x) :=
  h.set (List.nodup_cons.2 ⟨hx.not_mem, h c⟩)

end

theorem Located.unlink_of_ne [DecidableEq τ] (h : Located ch y o) (hy : y ≠ x) : Located (Lib.unlink ch x) y o :=
  h.congr (mem_unlink_of_ne hy)

end

end Ptask.Lib
