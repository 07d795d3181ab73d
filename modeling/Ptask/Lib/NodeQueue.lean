import Ptask.Lib.FreeList

/-!
# Queues of nodes

A queue threads its elements through a link that each element holds for itself, with a pointer to
the first element and one to the last. An element is appended by one write to the link of the last
element, and the first one is taken by moving the head.
-/

namespace Ptask.Lib

variable {τ : Type*}

/-- The links lead through `l` from `head` on, and `tail` is the last element. -/
structure IsQueue (next : τ → Option τ) (head tail : Option τ) (l : List τ) : Prop where
  list : IsList next head l
  last : tail = l.getLast?

namespace IsList

variable {next : τ → Option τ} {head : Option τ} {x y : τ} {l : List τ}

/-- One more element behind the last one. -/
theorem append [DecidableEq τ] (h : IsList next head (l ++ [y])) (hy : y ∉ l)
    (hx : x ∉ l ++ [y]) (hnext : next x = none) :
    IsList (Function.update next y (some x)) head (l ++ [y] ++ [x]) := by
  induction l generalizing head with
  | nil =>
    have hxy : x ≠ y := by simpa using hx
    refine ⟨h.1, ?_, ?_⟩
    · rw [Function.update_self]
    · rw [Function.update_of_ne hxy]
      exact hnext
  | cons z l ih =>
    have hzy : z ≠ y := fun e => hy (e ▸ List.mem_cons_self)
    refine ⟨h.1, ?_⟩
    rw [Function.update_of_ne hzy]
    exact ih h.2 (fun hm => hy (List.mem_cons_of_mem z hm)) fun hm =>
      hx (List.mem_cons_of_mem z hm)

end IsList

namespace IsQueue

variable {next : τ → Option τ} {head tail : Option τ} {x y : τ} {l : List τ}

theorem empty : IsQueue next none none [] := ⟨rfl, rfl⟩

theorem nil_iff (h : IsQueue next head tail l) : l = [] ↔ head = none := h.list.nil_iff

theorem congr {next' : τ → Option τ} (h : IsQueue next head tail l)
    (hn : ∀ x ∈ l, next' x = next x) : IsQueue next' head tail l :=
  ⟨h.list.congr hn, h.last⟩

/-- A write to the link of an element that is not in the queue. -/
theorem update [DecidableEq τ] (h : IsQueue next head tail l) (hx : x ∉ l) (v : Option τ) :
    IsQueue (Function.update next x v) head tail l :=
  ⟨h.list.update hx v, h.last⟩

/-- An element is appended to an empty queue. -/
theorem push_nil (h : IsQueue next head none l) (hnext : next x = none) :
    IsQueue next (some x) (some x) (l ++ [x]) := by
  obtain rfl : l = [] := List.getLast?_eq_none_iff.1 h.last.symm
  exact ⟨⟨rfl, hnext⟩, rfl⟩

/-- An element is appended to a queue whose last element is `y`. -/
theorem push_cons [DecidableEq τ] (h : IsQueue next head (some y) l) (hl : l.Nodup) (hx : x ∉ l)
    (hnext : next x = none) :
    IsQueue (Function.update next y (some x)) head (some x) (l ++ [x]) := by
  obtain ⟨p, rfl⟩ := List.getLast?_eq_some_iff.1 h.last.symm
  have hy : y ∉ p := fun hm => (List.nodup_append.1 hl).2.2 y hm y (by simp) rfl
  refine ⟨h.list.append hy hx hnext, ?_⟩
  rw [List.getLast?_concat]

/-- The first element is taken. -/
theorem pop (h : IsQueue next (some x) tail l) :
    ∃ rest, l = x :: rest ∧ IsQueue next (next x) (if next x = none then none else tail) rest := by
  obtain ⟨rest, rfl, hrest⟩ := h.list.pop
  refine ⟨rest, rfl, hrest, ?_⟩
  split
  · next hnone =>
    obtain rfl := hrest.nil_iff.2 hnone
    rfl
  · next hsome =>
    cases rest with
    | nil => exact absurd (hrest.nil_iff.1 rfl) hsome
    | cons y rest => exact h.last

end IsQueue

end Ptask.Lib
