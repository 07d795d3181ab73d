import Ptask.StackCache

/-!
# Lookup in the stack cache

The scan of `fiber_stackcache_get` goes through a mask four bits at a time and clears what is left of
it when a slot fits, but still calls back for the rest of the four bits. It tests only slots whose bit
is set, and every such slot up to the four bits with the first match (`callbackOnSetbit_scan`). So a
stack comes from the cache whenever some slot holds one that is large enough, and from the local
table if that has one (`get_lookup`).
-/

namespace Ptask

/-- The slots that `callback_on_setbit` calls back for, in order. -/
def callbackTests {w : Nat} (fits : Nat → Bool) : Nat → BitVec w → Nat → List Nat
  | 0, _, _ => []
  | fuel + 1, bitset, p =>
    if bitset = 0 then []
    else
      let ks := callbackCases (bitset.toNat % 16)
      let bitset := if ks.any fun k => fits (p + k) then 0 else bitset
      ks.map (p + ·) ++ callbackTests fits fuel (bitset >>> 4) (p + 4)

section

variable {w : Nat} {fits : Nat → Bool} {bitset : BitVec w} {p k : Nat} {index : Option Nat}

/-- The callbacks of four bits: nothing fits, or the last slot that fits is recorded. -/
theorem foldl_callbacks_any (fits : Nat → Bool) (p : Nat) (ks : List Nat)
    (st : BitVec w × Option Nat) :
    let r := ks.foldl (fun st k => if fits (p + k) then (0, some (p + k)) else st) st
    (ks.any (fun k => fits (p + k)) = false ∧ r = st) ∨
      (ks.any (fun k => fits (p + k)) = true ∧ r.1 = 0 ∧
        ∃ k ∈ ks, fits (p + k) = true ∧ r.2 = some (p + k)) := by
  induction ks generalizing st with
  | nil => exact .inl ⟨rfl, rfl⟩
  | cons k ks ih =>
    rw [List.foldl_cons, List.any_cons]
    by_cases hk : fits (p + k) = true
    · rw [if_pos hk, hk, Bool.true_or]
      refine .inr ⟨rfl, ?_⟩
      rcases ih (0, some (p + k)) with ⟨-, hr⟩ | ⟨-, hr, k', hmem, hfit, hk'⟩
      · rw [hr]
        exact ⟨rfl, k, List.mem_cons_self, hk, rfl⟩
      · exact ⟨hr, k', List.mem_cons_of_mem _ hmem, hfit, hk'⟩
    · rw [if_neg hk, Bool.eq_false_iff.2 hk, Bool.false_or]
      rcases ih st with ⟨hany, hr⟩ | ⟨hany, hr, k', hmem, hfit, hk'⟩
      · exact .inl ⟨hany, hr⟩
      · exact .inr ⟨hany, hr, k', List.mem_cons_of_mem _ hmem, hfit, hk'⟩

theorem callbackCases_complete : ∀ n < 16, ∀ k < 4, n.testBit k = true → k ∈ callbackCases n := by
  decide

/-- The callbacks of four bits are for the slots whose bits are set. -/
theorem mem_callbackCases : k ∈ callbackCases (bitset.toNat % 16) ↔
    k < 4 ∧ bitset.getLsbD k = true := by
  have hmod := Nat.testBit_mod_two_pow bitset.toNat 4 k
  have hlt : bitset.toNat % 16 < 16 := Nat.mod_lt _ (by decide)
  rw [BitVec.getLsbD]
  constructor
  · intro hk
    obtain ⟨h4, hbit⟩ := callbackCases_spec _ hlt k hk
    exact ⟨h4, by simpa [h4, hbit] using hmod.symm⟩
  · rintro ⟨h4, hbit⟩
    exact callbackCases_complete _ hlt k h4 (by simpa [h4, hbit] using hmod)

theorem callbackOnSetbit_zero (fuel : Nat) :
    callbackOnSetbit fits fuel (0 : BitVec w) p index = index := by
  cases fuel with
  | zero => rfl
  | succ fuel => simp [callbackOnSetbit]

theorem callbackTests_zero (fuel : Nat) : callbackTests fits fuel (0 : BitVec w) p = [] := by
  cases fuel with
  | zero => rfl
  | succ fuel => simp [callbackTests]

/-- What a scan of the slots in `bits` that has called back for `tests` has found. -/
structure Scan (fits : Nat → Bool) (bits : Nat → Prop) (tests : List Nat) (index : Option Nat) :
    Prop where
  /-- A slot that is tested has its bit set. -/
  sound : ∀ j ∈ tests, bits j
  /-- Every slot with its bit set is tested, unless one before it fits. -/
  covers : ∀ j, bits j → j ∈ tests ∨ ∃ i ∈ tests, i < j ∧ fits i = true
  found : ∀ i, index = some i → i ∈ tests ∧ fits i = true
  missed : index = none → ∀ j ∈ tests, fits j = false

theorem Scan.nil {bits : Nat → Prop} (h : ∀ j, ¬bits j) : Scan fits bits [] none where
  sound _ hj := absurd hj List.not_mem_nil
  covers j hj := absurd hj (h j)
  found i hi := absurd hi.symm (Option.some_ne_none i)
  missed _ _ hj := absurd hj List.not_mem_nil

/-- **The scan finds a slot that fits if there is one.** The induction is on the groups of four bits
that are left. -/
theorem callbackOnSetbit_scan (fits : Nat → Bool) (fuel : Nat) (bitset : BitVec w) (p : Nat)
    (hbits : ∀ k, 4 * fuel ≤ k → bitset.getLsbD k = false) :
    Scan fits (fun j => ∃ k, j = p + k ∧ bitset.getLsbD k = true)
      (callbackTests fits fuel bitset p) (callbackOnSetbit fits fuel bitset p none) := by
  induction fuel generalizing bitset p with
  | zero =>
    refine .nil ?_
    rintro j ⟨k, -, hk⟩
    rw [hbits k (Nat.zero_le _)] at hk
    cases hk
  | succ fuel ih =>
    rw [callbackTests, callbackOnSetbit]
    split
    · next h0 =>
      refine .nil ?_
      rintro j ⟨k, -, hk⟩
      simp [h0] at hk
    · dsimp only
      rcases foldl_callbacks_any fits p (callbackCases (bitset.toNat % 16))
        (bitset, none) with ⟨hany, hr⟩ | ⟨hany, hr0, k, hk, hfit, hrk⟩
      · -- No slot of the four fits: the scan goes on with the bits behind them.
        rw [hany, hr, if_neg Bool.false_ne_true]
        have hnone : ∀ k ∈ callbackCases (bitset.toNat % 16), fits (p + k) = false := by
          simpa using hany
        obtain ⟨hsound, hcovers, hfound, hmissed⟩ := ih (bitset >>> 4) (p + 4) fun k hk => by
          rw [BitVec.getLsbD_ushiftRight]
          exact hbits _ (by omega)
        refine ⟨fun j hj => ?_, ?_, fun i hi => ?_, fun hi j hj => ?_⟩
        · rcases List.mem_append.1 hj with hj | hj
          · obtain ⟨k, hk, rfl⟩ := List.mem_map.1 hj
            exact ⟨k, rfl, (mem_callbackCases.1 hk).2⟩
          · obtain ⟨k, rfl, hk⟩ := hsound j hj
            rw [BitVec.getLsbD_ushiftRight] at hk
            exact ⟨4 + k, by omega, hk⟩
        · rintro j ⟨k, rfl, hk⟩
          by_cases h4 : k < 4
          · exact .inl (List.mem_append_left _
              (List.mem_map_of_mem (mem_callbackCases.2 ⟨h4, hk⟩)))
          · rcases hcovers (p + k) ⟨k - 4, by omega, by
              rw [BitVec.getLsbD_ushiftRight, Nat.add_sub_cancel' (not_lt.1 h4)]
              exact hk⟩ with hmem | ⟨i, hi, hlt, hfit⟩
            · exact .inl (List.mem_append_right _ hmem)
            · exact .inr ⟨i, List.mem_append_right _ hi, hlt, hfit⟩
        · obtain ⟨hmem, hfit⟩ := hfound i hi
          exact ⟨List.mem_append_right _ hmem, hfit⟩
        · rcases List.mem_append.1 hj with hj | hj
          · obtain ⟨k, hk, rfl⟩ := List.mem_map.1 hj
            exact hnone k hk
          · exact hmissed hi j hj
      · -- A slot of the four fits: the scan ends after them.
        have hzero : (0 : BitVec w) >>> 4 = 0 := BitVec.zero_ushiftRight
        rw [hany, if_pos rfl, hr0, hrk, hzero, callbackTests_zero, callbackOnSetbit_zero,
          List.append_nil]
        refine ⟨fun j hj => ?_, ?_, fun i hi => ?_, fun h => by cases h⟩
        · obtain ⟨k', hk', rfl⟩ := List.mem_map.1 hj
          exact ⟨k', rfl, (mem_callbackCases.1 hk').2⟩
        · rintro j ⟨k', rfl, hk'⟩
          by_cases h4 : k' < 4
          · exact .inl (List.mem_map_of_mem (mem_callbackCases.2 ⟨h4, hk'⟩))
          · have hlt := (mem_callbackCases.1 hk).1
            exact .inr ⟨p + k, List.mem_map_of_mem hk, by omega, hfit⟩
        · obtain rfl := Option.some.inj hi
          exact ⟨List.mem_map_of_mem hk, hfit⟩

/-- A scan that finds nothing has gone through all the slots in `bits`. -/
theorem Scan.none_iff {fits : Nat → Bool} {bits : Nat → Prop} {tests : List Nat}
    {index : Option Nat} (h : Scan fits bits tests index) :
    index = none ↔ ¬∃ j, bits j ∧ fits j = true := by
  constructor
  · rintro hn ⟨j, hj, hfit⟩
    rcases h.covers j hj with hmem | ⟨i, hi, -, hi'⟩
    · rw [h.missed hn j hmem] at hfit
      cases hfit
    · rw [h.missed hn i hi] at hi'
      cases hi'
  · intro hn
    cases hi : index with
    | none => rfl
    | some i =>
      obtain ⟨hmem, hfit⟩ := h.found i hi
      exact absurd ⟨i, h.sound i hmem, hfit⟩ hn

end

namespace StackCache

variable {c c' : StackCache} {stacksize : BitVec 32} {i : Nat}

/-- A slot of the local table that holds a stack. -/
def LocalOccupied (c : StackCache) (i : Nat) : Prop := i < 8 ∧ c.cachedStackMask.getLsbD i = false

/-- A slot of the global table that holds a stack. -/
def GlobalOccupied (c : StackCache) (i : Nat) : Prop :=
  i < 64 ∧ c.globalCachedStackMask.getLsbD i = false

/-- A slot of the local table that holds a stack of this size or a larger one. -/
def LocalFits (c : StackCache) (stacksize : BitVec 32) (i : Nat) : Prop :=
  c.LocalOccupied i ∧ stacksize ≤ (c.cachedStack i).stacksize

def GlobalFits (c : StackCache) (stacksize : BitVec 32) (i : Nat) : Prop :=
  c.GlobalOccupied i ∧ stacksize ≤ (c.globalCachedStack i).stacksize

/-- The stack of slot `i` of the local table has been taken: that slot is free, and nothing else has
changed. -/
structure TakesLocal (c c' : StackCache) (r : Slot) (i : Nat) : Prop where
  slot : r = c.cachedStack i
  mask : ∀ j, c'.cachedStackMask.getLsbD j = (c.cachedStackMask.getLsbD j || j == i)
  rest : c' = { c with cachedStackMask := c'.cachedStackMask }

structure TakesGlobal (c c' : StackCache) (r : Slot) (i : Nat) : Prop where
  slot : r = c.globalCachedStack i
  mask : ∀ j, c'.globalCachedStackMask.getLsbD j = (c.globalCachedStackMask.getLsbD j || j == i)
  rest : c' = { c with globalCachedStackMask := c'.globalCachedStackMask }

/-- A stack of the cache has been taken. -/
def Takes (c c' : StackCache) (r : Slot) : Prop :=
  (∃ i, c.LocalOccupied i ∧ c.TakesLocal c' r i) ∨ ∃ i, c.GlobalOccupied i ∧ c.TakesGlobal c' r i

/-- A new region has been asked for: the tables and the masks are as before. -/
def Keeps (c c' : StackCache) : Prop := c' = { c with mapped := c'.mapped }

/-- The masks tell that no stack of the cache has been taken. -/
theorem Keeps.not_takes {r : Slot} (h : c.Keeps c') : ¬c.Takes c' r := by
  have hl : c'.cachedStackMask = c.cachedStackMask := by rw [h]
  have hg : c'.globalCachedStackMask = c.globalCachedStackMask := by rw [h]
  rintro (⟨i, ⟨-, ho⟩, ht⟩ | ⟨i, ⟨-, ho⟩, ht⟩)
  · have := ht.mask i
    rw [hl, ho] at this
    simp at this
  · have := ht.mask i
    rw [hg, ho] at this
    simp at this

/-- The slots that the scan of the local table tests. -/
def localTests (c : StackCache) (stacksize : BitVec 32) : List Nat :=
  callbackTests (fun p => stacksize ≤ (c.cachedStack p).stacksize) 8
    (~~~c.cachedStackMask &&& 0xFF#32) 0

/-- The slots that the scan of the global table tests. -/
def globalTests (c : StackCache) (stacksize : BitVec 32) : List Nat :=
  callbackTests (fun p => stacksize ≤ (c.globalCachedStack p).stacksize) 16
    (~~~c.globalCachedStackMask) 0

theorem localOccupied_iff : (~~~c.cachedStackMask &&& 0xFF#32).getLsbD i = true ↔
    c.LocalOccupied i := by
  have hff : (0xFF#32).getLsbD i = (decide (i < 32) && decide (i < 8)) := by
    rw [BitVec.getLsbD_ofNat, show (0xFF : Nat) = 2 ^ 8 - 1 from rfl, Nat.testBit_two_pow_sub_one]
  rw [BitVec.getLsbD_and, BitVec.getLsbD_not, hff, LocalOccupied]
  simp only [Bool.and_eq_true, decide_eq_true_eq, Bool.not_eq_true']
  grind

theorem globalOccupied_iff : (~~~c.globalCachedStackMask).getLsbD i = true ↔
    c.GlobalOccupied i := by
  rw [BitVec.getLsbD_not, GlobalOccupied]
  simp only [Bool.and_eq_true, decide_eq_true_eq, Bool.not_eq_true']

theorem scan_findLocal (c : StackCache) (stacksize : BitVec 32) :
    Scan (fun p => stacksize ≤ (c.cachedStack p).stacksize) c.LocalOccupied
      (c.localTests stacksize) (c.findLocal stacksize) := by
  obtain ⟨h1, h2, h3, h4⟩ := callbackOnSetbit_scan
    (fun p => stacksize ≤ (c.cachedStack p).stacksize) 8
    (~~~c.cachedStackMask &&& 0xFF#32) 0 fun k hk => by
      rw [BitVec.getLsbD_of_ge _ _ hk]
  refine ⟨fun j hj => ?_, fun j hj => h2 j ⟨j, by omega, localOccupied_iff.2 hj⟩, h3, h4⟩
  obtain ⟨k, rfl, hk⟩ := h1 j hj
  rw [Nat.zero_add]
  exact localOccupied_iff.1 hk

theorem scan_findGlobal (c : StackCache) (stacksize : BitVec 32) :
    Scan (fun p => stacksize ≤ (c.globalCachedStack p).stacksize) c.GlobalOccupied
      (c.globalTests stacksize) (c.findGlobal stacksize) := by
  obtain ⟨h1, h2, h3, h4⟩ := callbackOnSetbit_scan
    (fun p => stacksize ≤ (c.globalCachedStack p).stacksize) 16
    (~~~c.globalCachedStackMask) 0 fun k hk => by
      rw [BitVec.getLsbD_of_ge _ _ hk]
  refine ⟨fun j hj => ?_, fun j hj => h2 j ⟨j, by omega, globalOccupied_iff.2 hj⟩, h3, h4⟩
  obtain ⟨k, rfl, hk⟩ := h1 j hj
  rw [Nat.zero_add]
  exact globalOccupied_iff.1 hk

theorem findLocal_eq_none : c.findLocal stacksize = none ↔ ¬∃ i, c.LocalFits stacksize i := by
  simpa [LocalFits] using (c.scan_findLocal stacksize).none_iff

theorem findGlobal_eq_none : c.findGlobal stacksize = none ↔ ¬∃ i, c.GlobalFits stacksize i := by
  simpa [GlobalFits] using (c.scan_findGlobal stacksize).none_iff

theorem mmap_keeps (c : StackCache) (stacksize : BitVec 32) (env : AllocEnv) :
    c.Keeps (c.mmap stacksize env).1 := by
  unfold mmap
  split
  · rfl
  · split <;> rfl

/-- What a lookup does, and when it finds a stack. -/
structure Lookup (c c' : StackCache) (stacksize : BitVec 32) (r : Slot) : Prop where
  takes_iff : c.Takes c' r ↔ (∃ i, c.LocalFits stacksize i) ∨ ∃ i, c.GlobalFits stacksize i
  /-- The local table comes first, -/
  inLocal : (∃ i, c.LocalFits stacksize i) →
    ∃ i, c.LocalFits stacksize i ∧ c.TakesLocal c' r i
  /-- then the global table, -/
  inGlobal : (¬∃ i, c.LocalFits stacksize i) → (∃ i, c.GlobalFits stacksize i) →
    ∃ i, c.GlobalFits stacksize i ∧ c.TakesGlobal c' r i
  /-- and otherwise both are left alone. -/
  nowhere : (¬∃ i, c.LocalFits stacksize i) → (¬∃ i, c.GlobalFits stacksize i) → c.Keeps c'

/-- **A stack is taken from the cache if and only if there is one that is large enough**, from the
local table if possible, and only its slot becomes free. The scans test every stack of their table up
to one that fits, and never a free slot. -/
theorem get_lookup (c : StackCache) (theMaintask : TaskId) (stacksize : BitVec 32)
    (env : AllocEnv) :
    Lookup c (c.get (some theMaintask) stacksize env).1 stacksize
      (c.get (some theMaintask) stacksize env).2 ∧
    Scan (fun p => stacksize ≤ (c.cachedStack p).stacksize) c.LocalOccupied
      (c.localTests stacksize) (c.findLocal stacksize) ∧
    Scan (fun p => stacksize ≤ (c.globalCachedStack p).stacksize) c.GlobalOccupied
      (c.globalTests stacksize) (c.findGlobal stacksize) := by
  refine ⟨?_, c.scan_findLocal stacksize, c.scan_findGlobal stacksize⟩
  cases hl : c.findLocal stacksize with
  | some i =>
    have hget : c.get (some theMaintask) stacksize env =
        ({ c with cachedStackMask := c.cachedStackMask ||| 1#32 <<< i }, c.cachedStack i) := by
      simp [get, hl]
    have hfits : c.LocalFits stacksize i := ⟨findLocal_spec hl, findLocal_fits hl⟩
    have hlt : i < 32 := hfits.1.1.trans (by decide)
    rw [hget]
    have ht : c.TakesLocal { c with cachedStackMask := c.cachedStackMask ||| 1#32 <<< i }
        (c.cachedStack i) i := ⟨rfl, fun j => getLsbD_setBit hlt, rfl⟩
    exact ⟨iff_of_true (.inl ⟨i, hfits.1, ht⟩) (.inl ⟨i, hfits⟩), fun _ => ⟨i, hfits, ht⟩,
      fun hn => absurd ⟨i, hfits⟩ hn, fun hn => absurd ⟨i, hfits⟩ hn⟩
  | none =>
    have hno := findLocal_eq_none.1 hl
    cases hg : c.findGlobal stacksize with
    | some i =>
      have hget : c.get (some theMaintask) stacksize env =
          ({ c with globalCachedStackMask := c.globalCachedStackMask ||| 1#64 <<< i },
            c.globalCachedStack i) := by
        simp [get, hl, hg]
      have hfits : c.GlobalFits stacksize i := ⟨findGlobal_spec hg, findGlobal_fits hg⟩
      rw [hget]
      have ht : c.TakesGlobal
          { c with globalCachedStackMask := c.globalCachedStackMask ||| 1#64 <<< i }
          (c.globalCachedStack i) i := ⟨rfl, fun j => getLsbD_setBit hfits.1.1, rfl⟩
      exact ⟨iff_of_true (.inr ⟨i, hfits.1, ht⟩) (.inr ⟨i, hfits⟩), fun h => absurd h hno,
        fun _ _ => ⟨i, hfits, ht⟩, fun _ hn => absurd ⟨i, hfits⟩ hn⟩
    | none =>
      have hno' := findGlobal_eq_none.1 hg
      have hget : c.get (some theMaintask) stacksize env = c.mmap stacksize env := by
        simp [get, hl, hg]
      have hkeeps := c.mmap_keeps stacksize env
      rw [hget]
      exact ⟨iff_of_false hkeeps.not_takes fun h => h.elim hno hno', fun h => absurd h hno,
        fun _ h => absurd h hno', fun _ _ => hkeeps⟩

end StackCache

end Ptask
