import Mathlib.Logic.Function.Basic
import Mathlib.Data.List.Basic
import Mathlib.Data.Int.ModEq

/-!
# Ring buffers

A list that is kept in cells `0`, …, `n - 1` from some cell on, going round at the end. One element
more is written to the cell behind the last one, and the first one is dropped by starting at the
next cell.
-/

namespace Ptask.Lib

variable {α : Type*}

/-- The `k` elements read from cell `i` on. -/
def ring (cells : Nat → α) (n i k : Nat) : List α :=
  (List.range k).map fun j => cells ((i + j) % n)

variable {cells : Nat → α} {n i k : Nat}

@[simp] theorem length_ring : (ring cells n i k).length = k := by simp [ring]

@[simp] theorem ring_zero : ring cells n i 0 = [] := rfl

/-- Cells of one round are different. -/
theorem ring_index_ne {j : Nat} (hj : j < k) (hk : k < n) : (i + j) % n ≠ (i + k) % n := by
  intro he
  have hmod : j % n = k % n := Nat.ModEq.add_left_cancel' i he
  rw [Nat.mod_eq_of_lt (hj.trans hk), Nat.mod_eq_of_lt hk] at hmod
  omega

theorem ring_push (hk : k < n) (x : α) :
    ring (Function.update cells ((i + k) % n) x) n i (k + 1) = ring cells n i k ++ [x] := by
  unfold ring
  rw [List.range_succ, List.map_append, List.map_singleton, Function.update_self]
  congr 1
  apply List.map_congr_left
  intro j hj
  rw [Function.update_of_ne (ring_index_ne (List.mem_range.1 hj) hk)]

theorem ring_pop (hi : i < n) :
    ring cells n i (k + 1) = cells i :: ring cells n ((i + 1) % n) k := by
  unfold ring
  rw [List.range_succ_eq_map, List.map_cons, List.map_map, Nat.add_zero, Nat.mod_eq_of_lt hi]
  congr 1
  apply List.map_congr_left
  intro j _
  rw [Function.comp_apply, Nat.mod_add_mod, Nat.add_right_comm, Nat.add_assoc]

/-! ## Runs of cells -/

/-- The `k` cells from `i` on. -/
def slice (cells : Nat → α) (i k : Nat) : List α := (List.range k).map fun j => cells (i + j)

/-- The elements of `xs` are written to the cells from `i` on. -/
def blit (cells : Nat → α) (i : Nat) (xs : List α) : Nat → α :=
  fun j => if h : i ≤ j ∧ j - i < xs.length then xs[j - i] else cells j

variable {xs ys : List α} {j l : Nat}

@[simp] theorem length_slice : (slice cells i k).length = k := by simp [slice]

@[simp] theorem slice_zero : slice cells i 0 = [] := rfl

theorem blit_of_not_mem (h : j < i ∨ i + xs.length ≤ j) : blit cells i xs j = cells j :=
  dif_neg fun hj => by omega

theorem blit_add (h : j < xs.length) : blit cells i xs (i + j) = xs[j] := by
  unfold blit
  rw [dif_pos (by omega)]
  congr 1
  omega

theorem slice_blit : slice (blit cells i xs) i xs.length = xs := by
  apply List.ext_getElem
  · rw [length_slice]
  · intro j _ hj
    simp only [slice, List.getElem_map, List.getElem_range]
    exact blit_add hj

theorem blit_append : blit (blit cells i xs) (i + xs.length) ys = blit cells i (xs ++ ys) := by
  funext j
  by_cases hj : j < i ∨ i + (xs ++ ys).length ≤ j
  · rw [blit_of_not_mem hj]
    rw [List.length_append] at hj
    rw [blit_of_not_mem (by omega), blit_of_not_mem (by omega)]
  · rw [List.length_append] at hj
    obtain ⟨a, rfl⟩ := Nat.exists_eq_add_of_le (show i ≤ j by omega)
    rw [blit_add (by rw [List.length_append]; omega)]
    by_cases ha : a < xs.length
    · rw [blit_of_not_mem (by omega), blit_add ha, List.getElem_append_left ha]
    · obtain ⟨c, rfl⟩ := Nat.exists_eq_add_of_le (show xs.length ≤ a by omega)
      rw [← Nat.add_assoc, blit_add (by omega), List.getElem_append_right (by omega)]
      congr 1
      omega

theorem slice_append : slice cells i k ++ slice cells (i + k) l = slice cells i (k + l) := by
  unfold slice
  rw [List.range_add, List.map_append, List.map_map]
  congr 1
  apply List.map_congr_left
  intro j _
  rw [Function.comp_apply, Nat.add_assoc]

theorem ring_add : ring cells n i (k + l) = ring cells n i k ++ ring cells n (i + k) l := by
  unfold ring
  rw [List.range_add, List.map_append, List.map_map]
  congr 1
  apply List.map_congr_left
  intro j _
  rw [Function.comp_apply, Nat.add_assoc]

theorem ring_mod : ring cells n (i % n) k = ring cells n i k := by
  unfold ring
  apply List.map_congr_left
  intro j _
  rw [Nat.mod_add_mod]

/-- A run that does not go round. -/
theorem ring_eq_slice (h : i + k ≤ n) : ring cells n i k = slice cells i k := by
  unfold ring slice
  apply List.map_congr_left
  intro j hj
  have hj := List.mem_range.1 hj
  rw [Nat.mod_eq_of_lt (by omega)]

/-- A run that starts at the end goes round. -/
theorem ring_self : ring cells n n k = ring cells n 0 k := by
  rw [← ring_mod, Nat.mod_self]

/-- Elements are written behind those that are there, and this does not go round. -/
theorem ring_blit (hk : k + xs.length ≤ n) (hj : j + xs.length ≤ n) (hij : (i + k) % n = j) :
    ring (blit cells j xs) n i (k + xs.length) = ring cells n i k ++ xs := by
  rw [ring_add]
  congr 1
  · unfold ring
    apply List.map_congr_left
    intro a ha
    have ha := List.mem_range.1 ha
    apply blit_of_not_mem
    by_contra hmem
    obtain ⟨c, hc⟩ := Nat.exists_eq_add_of_le (show j ≤ (i + a) % n by omega)
    have hcell : (i + (k + c)) % n = j + c := by
      rw [← Nat.add_assoc, Nat.add_mod, hij, Nat.mod_eq_of_lt (a := c) (by omega),
        Nat.mod_eq_of_lt (by omega)]
    exact ring_index_ne (i := i) (show a < k + c by omega) (by omega) (hc.trans hcell.symm)
  · rw [← ring_mod, hij, ring_eq_slice hj, slice_blit]

end Ptask.Lib
