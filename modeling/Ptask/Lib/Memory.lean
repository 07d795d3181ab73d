import Mathlib

/-!
# Byte memory

A memory of bytes with 64-bit addresses, and the little-endian words in it. `span a n` are the `n`
addresses from `a` on; they may wrap around. A store changes the bytes of its span only, so words
whose spans are disjoint from it stay as they are.
-/

namespace Ptask.Lib

abbrev Memory := BitVec 64 → BitVec 8

/-- The addresses `a`, …, `a + n - 1`. -/
def span (a : BitVec 64) (n : Nat) : Set (BitVec 64) := {x | (x - a).toNat < n}

namespace Memory

/-- The byte at distance `k` from `a`. -/
def byte (m : Memory) (a : BitVec 64) (k : Nat) : BitVec 8 := m (a + BitVec.ofNat 64 k)

/-- The 64-bit word at `a`. -/
def load64 (m : Memory) (a : BitVec 64) : BitVec 64 :=
  m.byte a 7 ++ m.byte a 6 ++ m.byte a 5 ++ m.byte a 4 ++ m.byte a 3 ++ m.byte a 2 ++ m.byte a 1 ++
    m.byte a 0

def store64 (m : Memory) (a v : BitVec 64) : Memory := fun x =>
  if (x - a).toNat < 8 then v.extractLsb' (8 * (x - a).toNat) 8 else m x

end Memory

section

variable {m m' : Memory} {a b v : BitVec 64} {n k : Nat}

open Memory

theorem mem_span_add (hk : k < n) (hn : n ≤ 2 ^ 64) : a + BitVec.ofNat 64 k ∈ span a n := by
  show (a + BitVec.ofNat 64 k - a).toNat < n
  rw [BitVec.add_comm, BitVec.add_sub_cancel, BitVec.toNat_ofNat, Nat.mod_eq_of_lt (by omega)]
  exact hk

/-- Part of a span. -/
theorem span_add_subset {o : BitVec 64} (h : o.toNat + k ≤ n) (hn : n ≤ 2 ^ 64) :
    span (a + o) k ⊆ span a n := by
  intro x hx
  have hx : (x - (a + o)).toNat < k := hx
  show (x - a).toNat < n
  have hsplit : x - a = (x - (a + o)) + o := by bv_omega
  rw [hsplit, BitVec.toNat_add, Nat.mod_eq_of_lt (by omega)]
  omega

/-- Parts of one span that do not overlap. -/
theorem disjoint_span_add {o o' : BitVec 64} (h : o.toNat + k ≤ o'.toNat)
    (h' : o'.toNat + k ≤ 2 ^ 64) : Disjoint (span (a + o) k) (span (a + o') k) := by
  rw [Set.disjoint_left]
  intro x hx hx'
  have hx : (x - (a + o)).toNat < k := hx
  have hx' : (x - (a + o')).toNat < k := hx'
  have hsplit : x - (a + o) = (x - (a + o')) + (o' - o) := by bv_omega
  have hoff : (o' - o).toNat = o'.toNat - o.toNat := BitVec.toNat_sub_of_le (by
    rw [BitVec.le_def]
    omega)
  rw [hsplit, BitVec.toNat_add, hoff, Nat.mod_eq_of_lt (by omega)] at hx
  omega

/-- Two spans are apart when each begins behind the end of the other. -/
theorem disjoint_span (h : k ≤ (b - a).toNat) (h' : n ≤ (a - b).toNat) :
    Disjoint (span a k) (span b n) := by
  rw [Set.disjoint_left]
  intro x hx hx'
  have hx : (x - a).toNat < k := hx
  have hx' : (x - b).toNat < n := hx'
  bv_omega

theorem load64_congr (h : ∀ x ∈ span a 8, m' x = m x) : m'.load64 a = m.load64 a := by
  have hb (k : Nat) (hk : k < 8) : m'.byte a k = m.byte a k := h _ (mem_span_add hk (by omega))
  simp only [load64, hb 0 (by omega), hb 1 (by omega), hb 2 (by omega), hb 3 (by omega),
    hb 4 (by omega), hb 5 (by omega), hb 6 (by omega), hb 7 (by omega)]

theorem store64_of_not_mem {x : BitVec 64} (h : x ∉ span a 8) : m.store64 a v x = m x :=
  if_neg h

theorem byte_store64_self {k : Nat} (hk : k < 8) :
    (m.store64 a v).byte a k = v.extractLsb' (8 * k) 8 := by
  have hoff : (a + BitVec.ofNat 64 k - a).toNat = k := by
    rw [BitVec.add_comm, BitVec.add_sub_cancel, BitVec.toNat_ofNat, Nat.mod_eq_of_lt (by omega)]
  unfold byte store64
  rw [hoff, if_pos hk]

theorem load64_store64_self : (m.store64 a v).load64 a = v := by
  unfold load64
  rw [byte_store64_self, byte_store64_self, byte_store64_self, byte_store64_self,
    byte_store64_self, byte_store64_self, byte_store64_self, byte_store64_self]
  · apply BitVec.eq_of_getLsbD_eq
    intro i hi
    simp only [BitVec.getLsbD_append, BitVec.getLsbD_extractLsb']
    grind
  all_goals omega

theorem load64_store64_of_disjoint (h : Disjoint (span b 8) (span a 8)) :
    (m.store64 a v).load64 b = m.load64 b :=
  load64_congr fun _ hx => store64_of_not_mem (Set.disjoint_left.1 h hx)

/-- Two words that do not overlap. -/
def Apart (a b : BitVec 64) : Prop := Disjoint (span a 8) (span b 8)

theorem Apart.symm (h : Apart a b) : Apart b a := Disjoint.symm h

instance : Std.Symm Apart where
  symm _ _ h := h.symm

theorem Apart.ne (h : Apart a b) : a ≠ b := by
  rintro rfl
  have ha : a ∈ span a 8 := by
    show (a - a).toNat < 8
    rw [BitVec.sub_self]
    decide
  exact Set.disjoint_left.1 h ha ha

theorem apart_add {o : BitVec 64} (h : 8 ≤ o.toNat) (h' : o.toNat ≤ 2 ^ 64 - 8) :
    Apart a (a + o) := by
  refine disjoint_span ?_ ?_ <;> bv_omega

/-- Where the words of a list do not overlap, a store is an update of one of them. -/
theorem load64_store64 {ws : List (BitVec 64)} (hws : ws.Pairwise Apart) (ha : a ∈ ws)
    (hb : b ∈ ws) : (m.store64 a v).load64 b = Function.update m.load64 a v b := by
  by_cases hab : b = a
  · subst hab
    rw [load64_store64_self, Function.update_self]
  · rw [Function.update_of_ne hab]
    exact load64_store64_of_disjoint (hws.forall hb ha hab)

end

end Ptask.Lib
