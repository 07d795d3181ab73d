import Mathlib.Data.Nat.Bitwise
import Mathlib.Data.Nat.Size

/-!
# Rounding up to a power of two by smearing bits

`x ||| x >>> w` spreads every bit of `x` over the `w` places below it. When the shifts double from
one step to the next, the top bit fills all the places below it in as many steps as its number has
bits; one more is then a power of two.
-/

namespace Ptask.Lib

/-- A bit of `x` is set where one of the next `w` bits of `n`, itself included, is. -/
def Smears (n w x : Nat) : Prop :=
  ∀ i, x.testBit i = true ↔ ∃ j < w, n.testBit (i + j) = true

namespace Smears

variable {n w x : Nat}

theorem refl (n : Nat) : Smears n 1 n := by
  intro i
  constructor
  · exact fun h => ⟨0, Nat.one_pos, h⟩
  · rintro ⟨j, hj, h⟩
    obtain rfl : j = 0 := by omega
    exact h

/-- One step doubles the width. -/
theorem double (h : Smears n w x) : Smears n (w + w) (x ||| x >>> w) := by
  intro i
  rw [Nat.testBit_or, Nat.testBit_shiftRight, Bool.or_eq_true, h i, h (w + i)]
  constructor
  · rintro (⟨j, hj, hbit⟩ | ⟨j, hj, hbit⟩)
    · exact ⟨j, by omega, hbit⟩
    · refine ⟨w + j, by omega, ?_⟩
      rwa [← Nat.add_assoc, Nat.add_comm i w]
  · rintro ⟨j, hj, hbit⟩
    by_cases hjw : j < w
    · exact .inl ⟨j, hjw, hbit⟩
    · refine .inr ⟨j - w, by omega, ?_⟩
      rwa [show w + i + (j - w) = i + j by omega]

/-- Steps with the shifts 1, 2, 4, and so on. -/
theorem foldl (n k : Nat) :
    Smears n (2 ^ k) (((List.range k).map (2 ^ ·)).foldl (fun x w => x ||| x >>> w) n) := by
  induction k with
  | zero => exact refl n
  | succ k ih =>
    rw [List.range_succ, List.map_append, List.foldl_append, Nat.pow_succ, Nat.mul_two]
    exact ih.double

/-- When the width covers the number, all bits below its length are set. -/
theorem eq_of_size_le (h : Smears n w x) (hw : n.size ≤ w) : x = 2 ^ n.size - 1 := by
  apply Nat.eq_of_testBit_eq
  intro i
  rw [Nat.testBit_two_pow_sub_one, Bool.eq_iff_iff, h i, decide_eq_true_iff]
  constructor
  · rintro ⟨j, -, hbit⟩
    have hle : 2 ^ (i + j) ≤ n := Nat.ge_two_pow_of_testBit hbit
    have hlt : i + j < n.size := Nat.lt_size.2 hle
    omega
  · intro hi
    have hne : n ≠ 0 := by
      rintro rfl
      rw [Nat.size_zero] at hi
      omega
    obtain ⟨top, hbit, hmax⟩ := Nat.exists_most_significant_bit hne
    have hsize : n.size ≤ top + 1 := by
      rw [Nat.size_le]
      exact Nat.lt_pow_two_of_testBit n fun k hk => hmax k (by omega)
    have htop : top < n.size := Nat.lt_size.2 (Nat.ge_two_pow_of_testBit hbit)
    exact ⟨top - i, by omega, by rwa [show i + (top - i) = top by omega]⟩

end Smears

end Ptask.Lib
