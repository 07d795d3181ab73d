import Ptask.Tcb

/-!
# Allocation: the stack cache and the control block pool

`fiber_stackcache_put`, `fiber_stackcache_get`, `tcb_free` and `tcb_alloc` of `task.c`. Both stack
tables are indexed by inverted masks: a *set* bit is a free slot. The tables are total maps from
slot numbers; the masks decide which slots exist.
-/

namespace Ptask

/-- A stack region, or the contents of a cache slot. -/
structure Slot where
  stackbase : Addr := 0
  stacksize : BitVec 32 := 0
deriving DecidableEq, Repr

/-- The local table of a thread, the global table, and the regions obtained from `mmap` and not yet
unmapped. The defaults are the initial state: `fibscp_alloc` sets the local mask to `0xFF`, the
global table and its mask are zero. -/
structure StackCache where
  cachedStackMask : BitVec 32 := 0xFF#32
  cachedStack : Nat → Slot := fun _ => {}
  globalCachedStackMask : BitVec 64 := 0
  globalCachedStack : Nat → Slot := fun _ => {}
  mapped : List Slot := []

/-! ## Bit scans -/

/-- `__builtin_ffs`: one plus the index of the lowest set bit, `0` when no bit is set. -/
def ffs {w : Nat} (x : BitVec w) : Nat :=
  match (List.range w).find? fun i => x.getLsbD i with
  | some i => i + 1
  | none => 0

/-- The callbacks of `switch (bitset & 0xf)`, as offsets from `p`. -/
def callbackCases : Nat → List Nat
  | 0 => []
  | 1 => [0]
  | 2 => [1]
  | 3 => [0, 1]
  | 4 => [2]
  | 5 => [0, 2]
  | 6 => [1, 2]
  | 7 => [0, 1, 2]
  | 8 => [3]
  | 9 => [0, 3]
  | 10 => [1, 3]
  | 11 => [0, 1, 3]
  | 12 => [2, 3]
  | 13 => [0, 2, 3]
  | 14 => [1, 2, 3]
  | _ => [0, 1, 2, 3]

/-- `callback_on_setbit` with the callbacks of `fiber_stackcache_get`: a slot that fits clears the
bit set being scanned and is recorded. The first argument counts nibbles. -/
def callbackOnSetbit {w : Nat} (fits : Nat → Bool) :
    Nat → BitVec w → Nat → Option Nat → Option Nat
  | 0, _, _, index => index
  | fuel + 1, bitset, p, index =>
    if bitset = 0 then index
    else
      -- the remaining callbacks of the nibble still run after the bit set is cleared
      let (bitset, index) := (callbackCases (bitset.toNat % 16)).foldl
        (fun st k => if fits (p + k) then (0, some (p + k)) else st) (bitset, index)
      callbackOnSetbit fits fuel (bitset >>> 4) (p + 4) index

section

variable {w : Nat} {x : BitVec w} {i j : Nat}

theorem ffs_of_zero (h : ffs x = 0) (i : Nat) : x.getLsbD i = false := by
  unfold ffs at h
  split at h
  · cases h
  · next hn =>
    by_cases hi : i < w
    · simpa using List.find?_eq_none.1 hn i (List.mem_range.2 hi)
    · exact BitVec.getLsbD_of_ge x i (not_lt.1 hi)

theorem ffs_spec (h : ffs x = i + 1) : i < w ∧ x.getLsbD i = true := by
  unfold ffs at h
  split at h
  · next k hk =>
    obtain rfl : k = i := Nat.succ.inj h
    exact ⟨List.mem_range.1 (List.mem_of_find?_eq_some hk), List.find?_some hk⟩
  · cases h

/-- A slot is taken: its bit is cleared. -/
theorem getLsbD_clearBit (hi : i < w) :
    (x &&& ~~~(1#w <<< i)).getLsbD j = (x.getLsbD j && j != i) := by
  by_cases hj : j < w
  · by_cases hji : j = i
    · subst hji
      simp [hj]
    · rcases Nat.lt_or_gt_of_ne hji with h | h
      · simp [hj, h, hji]
      · have : j - i ≠ 0 := by omega
        simp [hj, hji, not_lt.2 h.le, this]
  · rw [BitVec.getLsbD_of_ge _ _ (not_lt.1 hj), BitVec.getLsbD_of_ge _ _ (not_lt.1 hj), Bool.false_and]

/-- A slot is freed: its bit is set. -/
theorem getLsbD_setBit (hi : i < w) :
    (x ||| 1#w <<< i).getLsbD j = (x.getLsbD j || j == i) := by
  by_cases hj : j < w
  · by_cases hji : j = i
    · subst hji
      simp [hj]
    · rcases Nat.lt_or_gt_of_ne hji with h | h
      · simp [hj, h, hji]
      · have : j - i ≠ 0 := by omega
        simp [hj, hji, not_lt.2 h.le, this]
  · have hji : j ≠ i := fun e => hj (e ▸ hi)
    rw [BitVec.getLsbD_of_ge _ _ (not_lt.1 hj), BitVec.getLsbD_of_ge _ _ (not_lt.1 hj)]
    simp [hji]

theorem callbackCases_spec : ∀ n < 16, ∀ k ∈ callbackCases n, k < 4 ∧ n.testBit k = true := by
  decide

/-- The callbacks of a nibble record only slots whose bit is set in it. -/
theorem foldl_callbacks {fits : Nat → Bool} {p : Nat} {b₀ : BitVec w} {o₀ : Option Nat} :
    ∀ (l : List Nat) (st : BitVec w × Option Nat), (st.1 = b₀ ∨ st.1 = 0) →
      (st.2 = o₀ ∨ ∃ k, b₀.getLsbD k = true ∧ st.2 = some (p + k)) →
      (∀ k ∈ l, b₀.getLsbD k = true) →
      let r := l.foldl (fun st k => if fits (p + k) then (0, some (p + k)) else st) st
      (r.1 = b₀ ∨ r.1 = 0) ∧ (r.2 = o₀ ∨ ∃ k, b₀.getLsbD k = true ∧ r.2 = some (p + k))
  | [], _, h1, h2, _ => ⟨h1, h2⟩
  | k :: l, st, h1, h2, hl => by
    obtain ⟨hk, hl⟩ := List.forall_mem_cons.1 hl
    rw [List.foldl_cons]
    split
    · exact foldl_callbacks l _ (.inr rfl) (.inr ⟨k, hk, rfl⟩) hl
    · exact foldl_callbacks l _ h1 h2 hl

/-- The slot that a scan finds has its bit set. -/
theorem callbackOnSetbit_spec {fits : Nat → Bool} : ∀ (fuel : Nat) (bitset : BitVec w) (p : Nat)
    (index : Option Nat), callbackOnSetbit fits fuel bitset p index = some i →
      index = some i ∨ ∃ k, i = p + k ∧ bitset.getLsbD k = true
  | 0, _, _, _, h => .inl h
  | fuel + 1, bitset, p, index, h => by
    rw [callbackOnSetbit] at h
    split at h
    · exact .inl h
    · have hbits : ∀ k ∈ callbackCases (bitset.toNat % 16), bitset.getLsbD k = true := by
        intro k hk
        obtain ⟨hlt, hbit⟩ := callbackCases_spec _ (Nat.mod_lt _ (by decide)) k hk
        have hmod := Nat.testBit_mod_two_pow bitset.toNat 4 k
        rw [BitVec.getLsbD]
        simpa [hlt, hbit] using hmod.symm
      obtain ⟨h1, h2⟩ := @foldl_callbacks _ fits p _ index _ (bitset, index)
        (.inl rfl) (.inl rfl) hbits
      generalize (callbackCases (bitset.toNat % 16)).foldl
        (fun st k => if fits (p + k) then (0, some (p + k)) else st) (bitset, index) = r at h h1 h2
      rcases callbackOnSetbit_spec fuel _ _ _ h with hr | ⟨k, rfl, hk⟩
      · rcases h2 with h2 | ⟨k, hk, h2⟩
        · exact .inl (h2.symm.trans hr)
        · rw [h2] at hr
          exact .inr ⟨k, (Option.some.inj hr).symm, hk⟩
      · rw [BitVec.getLsbD_ushiftRight] at hk
        rcases h1 with h1 | h1 <;> rw [h1] at hk
        · exact .inr ⟨4 + k, by omega, hk⟩
        · simp at hk

theorem foldl_callbacks_fits {fits : Nat → Bool} {p : Nat} {o₀ : Option Nat} (l : List Nat)
    (st : BitVec w × Option Nat) (h : st.2 = o₀ ∨ ∃ k, fits k = true ∧ st.2 = some k) :
    let r := l.foldl (fun st k => if fits (p + k) then (0, some (p + k)) else st) st
    r.2 = o₀ ∨ ∃ k, fits k = true ∧ r.2 = some k := by
  induction l generalizing st with
  | nil => exact h
  | cons k l ih =>
    rw [List.foldl_cons]
    split
    · next hfit => exact ih _ (.inr ⟨p + k, hfit, rfl⟩)
    · exact ih _ h

/-- The slot that a scan finds fits. -/
theorem callbackOnSetbit_fits {fits : Nat → Bool} (fuel : Nat) (bitset : BitVec w) (p : Nat)
    (index : Option Nat) (h : callbackOnSetbit fits fuel bitset p index = some i) :
    index = some i ∨ fits i = true := by
  induction fuel generalizing bitset p index with
  | zero => exact .inl h
  | succ fuel ih =>
    rw [callbackOnSetbit] at h
    split at h
    · exact .inl h
    · have hfold := @foldl_callbacks_fits _ fits p index
        (callbackCases (bitset.toNat % 16)) (bitset, index) (.inl rfl)
      rcases ih _ _ _ h with hr | hfit
      · rcases hfold with hkept | ⟨k, hfit, hk⟩
        · exact .inl (hkept.symm.trans hr)
        · obtain rfl : k = i := Option.some.inj (hk.symm.trans hr)
          exact .inr hfit
      · exact .inr hfit

end

/-! ## The stack cache -/

/-- The slot that a full cache evicts, computed from the address of the stack to store. -/
def evictIndex (stackbase : Addr) : Nat :=
  let u64 := (stackbase >>> 8) ^^^ (stackbase >>> 16) ^^^ (stackbase >>> 24) ^^^ (stackbase >>> 32)
  let u64 := (u64 >>> 4) + (u64 >>> 0)
  (u64 &&& 7).toNat

theorem evictIndex_lt (stackbase : Addr) : evictIndex stackbase < 8 := by
  unfold evictIndex
  dsimp only
  rw [BitVec.toNat_and]
  exact lt_of_le_of_lt Nat.and_le_right (by decide)

namespace StackCache

/-- `munmap`. -/
def munmap (c : StackCache) (r : Slot) : StackCache := { c with mapped := c.mapped.erase r }

/-- `fiber_stackcache_put`. -/
def put (c : StackCache) (stackbase : Addr) (stacksize : BitVec 32) : StackCache :=
  let index := ffs c.cachedStackMask
  if index = 0 then
    let index := ffs c.globalCachedStackMask
    let (c, index) :=
      if index ≠ 0 then
        let index := index - 1
        ({ c with
          globalCachedStackMask := c.globalCachedStackMask &&& ~~~(1#64 <<< index)
          globalCachedStack := Function.update c.globalCachedStack index ⟨stackbase, stacksize⟩ },
          index)
      else (c, index)
    -- the code tests the same variable again, which now is a slot number
    if index = 0 then
      let index := evictIndex stackbase
      let old := c.cachedStack index
      let c := { c with
        cachedStack := Function.update c.cachedStack index ⟨stackbase, stacksize⟩ }
      if old.stackbase ≠ 0 then c.munmap old else c
    else c
  else
    let index := index - 1
    { c with
      cachedStackMask := c.cachedStackMask &&& ~~~(1#32 <<< index)
      cachedStack := Function.update c.cachedStack index ⟨stackbase, stacksize⟩ }

/-- The scan of the local table. -/
def findLocal (c : StackCache) (stacksize : BitVec 32) : Option Nat :=
  callbackOnSetbit (fun p => stacksize ≤ (c.cachedStack p).stacksize) 8
    (~~~c.cachedStackMask &&& 0xFF#32) 0 none

/-- The scan of the global table. -/
def findGlobal (c : StackCache) (stacksize : BitVec 32) : Option Nat :=
  callbackOnSetbit (fun p => stacksize ≤ (c.globalCachedStack p).stacksize) 16
    (~~~c.globalCachedStackMask) 0 none

theorem findLocal_spec {c : StackCache} {stacksize : BitVec 32} {i : Nat}
    (h : c.findLocal stacksize = some i) : i < 8 ∧ c.cachedStackMask.getLsbD i = false := by
  rcases callbackOnSetbit_spec _ _ _ _ h with h | ⟨k, rfl, hk⟩
  · cases h
  · have hlt : k < 8 := by
      have hbit : (0xFF#32).getLsbD k = true := (Bool.and_eq_true_iff.1 (BitVec.getLsbD_and ▸ hk)).2
      rw [BitVec.getLsbD_ofNat, show (0xFF : Nat) = 2 ^ 8 - 1 from rfl,
        Nat.testBit_two_pow_sub_one] at hbit
      simpa using (Bool.and_eq_true_iff.1 hbit).2
    rw [Nat.zero_add]
    refine ⟨hlt, ?_⟩
    rw [BitVec.getLsbD_and, BitVec.getLsbD_not] at hk
    simp only [Bool.and_eq_true] at hk
    simpa using hk.1.2

theorem findGlobal_spec {c : StackCache} {stacksize : BitVec 32} {i : Nat}
    (h : c.findGlobal stacksize = some i) : i < 64 ∧ c.globalCachedStackMask.getLsbD i = false := by
  rcases callbackOnSetbit_spec _ _ _ _ h with h | ⟨k, rfl, hk⟩
  · cases h
  · rw [Nat.zero_add]
    rw [BitVec.getLsbD_not] at hk
    simp only [Bool.and_eq_true, decide_eq_true_eq] at hk
    exact ⟨hk.1, by simpa using hk.2⟩

theorem findLocal_fits {c : StackCache} {stacksize : BitVec 32} {i : Nat}
    (h : c.findLocal stacksize = some i) : stacksize ≤ (c.cachedStack i).stacksize := by
  rcases callbackOnSetbit_fits _ _ _ _ h with h | h
  · cases h
  · exact of_decide_eq_true h

theorem findGlobal_fits {c : StackCache} {stacksize : BitVec 32} {i : Nat}
    (h : c.findGlobal stacksize = some i) : stacksize ≤ (c.globalCachedStack i).stacksize := by
  rcases callbackOnSetbit_fits _ _ _ _ h with h | h
  · cases h
  · exact of_decide_eq_true h

/-- The last part of `fiber_stackcache_get`: a new region, or `NULL` when `mmap` or `mprotect`
fails. -/
def mmap (c : StackCache) (stacksize : BitVec 32) (env : AllocEnv) : StackCache × Slot :=
  match env.mmap with
  | none => (c, ⟨0, stacksize⟩)
  | some stackbase =>
    if stackbase ≠ 0 ∧ ¬env.mprotect then (c, ⟨0, stacksize⟩)
    else ({ c with mapped := ⟨stackbase, stacksize⟩ :: c.mapped }, ⟨stackbase, stacksize⟩)

/-- `fiber_stackcache_get`: the stack found (`NULL` for none) and its size. -/
def get (c : StackCache) (theMaintask : Option TaskId) (stacksize : BitVec 32) (env : AllocEnv) :
    StackCache × Slot :=
  match theMaintask.bind fun _ => c.findLocal stacksize with
  | some index =>
    ({ c with cachedStackMask := c.cachedStackMask ||| 1#32 <<< index }, c.cachedStack index)
  | none =>
    match c.findGlobal stacksize with
    | some index =>
      ({ c with globalCachedStackMask := c.globalCachedStackMask ||| 1#64 <<< index },
        c.globalCachedStack index)
    | none => c.mmap stacksize env

end StackCache

/-! ## The control block pool -/

def MAX_LOCAL_FREED_TASKS : Int := 128

def TCB_INCREASE_SIZE_AT_EMPTY : Nat := 64

/-- The free list of a thread with its recorded size, and the global free list. -/
structure TcbPool where
  freedlist : List TaskId := []
  freedsize : Int := 0
  globalFreedlist : List TaskId := []
deriving DecidableEq, Repr

namespace TcbPool

/-- `tcb_free`. -/
def free (p : TcbPool) (tcb : TaskId) : TcbPool :=
  if p.freedsize < MAX_LOCAL_FREED_TASKS then
    { p with freedlist := tcb :: p.freedlist, freedsize := p.freedsize + 1 }
  else { p with globalFreedlist := tcb :: p.globalFreedlist }

/-- `tcb_alloc` on a thread that has a maintask; `malloc` is the base of a fresh block of control
blocks. -/
def alloc (p : TcbPool) (malloc : Option TaskId) : Option TaskId × TcbPool :=
  match p.freedlist with
  | tcb :: rest => (some tcb, { p with freedlist := rest, freedsize := p.freedsize - 1 })
  | [] =>
    match p.globalFreedlist with
    | tcb :: rest => (some tcb, { p with globalFreedlist := rest })
    | [] =>
      match malloc with
      | none => (none, p)
      | some tcbs =>
        (some tcbs,
          (List.range (TCB_INCREASE_SIZE_AT_EMPTY - 1)).foldl (fun p i => p.free (tcbs + (i + 1))) p)

/-- All free control blocks. -/
def freeLists (p : TcbPool) : List TaskId := p.freedlist ++ p.globalFreedlist

theorem free_perm (p : TcbPool) (t : TaskId) : (p.free t).freeLists.Perm (t :: p.freeLists) := by
  unfold free freeLists
  split
  · exact .refl _
  · exact List.perm_middle

theorem foldl_free_perm (l : List TaskId) (p : TcbPool) :
    (l.foldl free p).freeLists.Perm (l ++ p.freeLists) := by
  induction l generalizing p with
  | nil => exact .refl _
  | cons t l ih => exact (ih (p.free t)).trans (((p.free_perm t).append_left l).trans List.perm_middle)

/-- The control blocks of a fresh block that `tcb_alloc` has asked `malloc` for. -/
def freshBlock (p : TcbPool) (malloc : Option TaskId) : List TaskId :=
  if p.freeLists = [] then
    match malloc with
    | none => []
    | some tcbs => (List.range TCB_INCREASE_SIZE_AT_EMPTY).map (tcbs + ·)
  else []

theorem freshBlock_of_ne {p : TcbPool} (h : p.freeLists ≠ []) (malloc : Option TaskId) :
    p.freshBlock malloc = [] :=
  if_neg h

theorem freshBlock_some {p : TcbPool} (h : p.freeLists = []) (tcbs : TaskId) :
    p.freshBlock (some tcbs) = (List.range TCB_INCREASE_SIZE_AT_EMPTY).map (tcbs + ·) :=
  if_pos h

/-- `tcb_alloc` takes one control block out of those that are free, or new. -/
theorem alloc_perm {p q : TcbPool} {malloc : Option TaskId} {t : TaskId}
    (h : p.alloc malloc = (some t, q)) :
    (p.freeLists ++ p.freshBlock malloc).Perm (t :: q.freeLists) := by
  unfold alloc at h
  split at h
  · next tcb rest hl =>
    cases h
    have hne : p.freeLists ≠ [] := by simp [freeLists, hl]
    rw [freshBlock_of_ne hne, List.append_nil]
    simp [freeLists, hl]
  · next hl =>
    split at h
    · next tcb rest hg =>
      cases h
      have hne : p.freeLists ≠ [] := by simp [freeLists, hg]
      rw [freshBlock_of_ne hne, List.append_nil]
      simp [freeLists, hl, hg]
    · next hg =>
      cases malloc with
      | none => cases h
      | some tcbs =>
        obtain ⟨rfl, rfl⟩ : tcbs = t ∧ _ = q := by simpa using h
        have hempty : p.freeLists = [] := by simp [freeLists, hl, hg]
        have hperm := foldl_free_perm
          ((List.range (TCB_INCREASE_SIZE_AT_EMPTY - 1)).map fun i => tcbs + (i + 1)) p
        rw [List.foldl_map, hempty, List.append_nil] at hperm
        rw [freshBlock_some hempty, hempty, List.nil_append]
        refine .trans ?_ (hperm.symm.cons tcbs)
        have hrange : List.range TCB_INCREASE_SIZE_AT_EMPTY =
            0 :: (List.range (TCB_INCREASE_SIZE_AT_EMPTY - 1)).map Nat.succ :=
          List.range_succ_eq_map
        rw [hrange, List.map_cons, List.map_map]
        exact .refl _

/-- Nothing happens to the pool when no control block can be had. -/
theorem alloc_none {p q : TcbPool} {malloc : Option TaskId} (h : p.alloc malloc = (none, q)) :
    q = p ∧ p.freshBlock malloc = [] := by
  unfold alloc at h
  split at h
  · cases h
  · split at h
    · cases h
    · cases malloc with
      | none =>
        cases h
        exact ⟨rfl, by simp [freshBlock]⟩
      | some => cases h

end TcbPool

end Ptask
