import Ptask.Create.Model

/-!
# The stack of a new task

A creation without a stack of the caller rounds the size up to whole pages and looks for a cached
stack that is large enough; only if there is none it maps a new one, whose first page is a guard
page. The rounding is done with 32 bits, and nothing keeps a page back for the guard.
-/

namespace Ptask.Create

open Lib

/-! ## Sizes -/

/-- The size of a stack, without the flags. -/
def stackBytes (stacksize : BitVec 32) : BitVec 32 := stacksize &&& ~~~15#32

theorem toNat_stackBytes (z : BitVec 32) : (stackBytes z).toNat = z.toNat / 16 * 16 := by
  have hmask (i : Nat) (hi : i < 32) : (15#32).getLsbD i = decide (i < 4) := by
    rw [BitVec.getLsbD_ofNat, show 15 = 2 ^ 4 - 1 from rfl, Nat.testBit_two_pow_sub_one]
    simp [hi]
  have hshift : stackBytes z = (z >>> 4) <<< 4 := by
    apply BitVec.eq_of_getLsbD_eq
    intro i hi
    rw [stackBytes, BitVec.getLsbD_and, BitVec.getLsbD_not, BitVec.getLsbD_shiftLeft,
      BitVec.getLsbD_ushiftRight, hmask i hi]
    by_cases h4 : i < 4
    · simp [h4]
    · simp [h4, hi, show 4 + (i - 4) = i by omega]
  rw [hshift, BitVec.toNat_shiftLeft, BitVec.toNat_ushiftRight, Nat.shiftRight_eq_div_pow,
    Nat.shiftLeft_eq]
  have := z.isLt
  omega

theorem stackBytes_eq_zero (z : BitVec 32) : stackBytes z = 0 ↔ z.toNat < 16 := by
  rw [← BitVec.toNat_inj, toNat_stackBytes, show (0 : BitVec 32).toNat = 0 from rfl]
  omega

/-- The flag of a stack of the library is not part of its size. -/
theorem stackBytes_or_flag (z : BitVec 32) : stackBytes (z ||| MASK_SYSTEM_STACK) = stackBytes z := by
  unfold stackBytes
  rw [BitVec.and_or_distrib_right, show MASK_SYSTEM_STACK &&& ~~~15#32 = 0#32 by decide,
    BitVec.or_zero]

theorem flag_or_ne_zero (z : BitVec 32) : (z ||| MASK_SYSTEM_STACK) &&& MASK_SYSTEM_STACK ≠ 0 := by
  intro hz
  have hbit := congrArg (BitVec.getLsbD · 0) hz
  simp [MASK_SYSTEM_STACK] at hbit

theorem toNat_roundUp (n : BitVec 32) :
    (roundUp n).toNat = (n.toNat + 4095) % 2 ^ 32 / 4096 * 4096 := by
  unfold roundUp
  rw [BitVec.toNat_mul, BitVec.toNat_udiv, BitVec.toNat_add,
    show (4095 : BitVec 32).toNat = 4095 from rfl, show (4096 : BitVec 32).toNat = 4096 from rfl]
  omega

/-- Up to the last page the rounding is upwards. -/
theorem le_roundUp_iff (n : BitVec 32) : n ≤ roundUp n ↔ n ≤ 0xFFFFF000#32 := by
  have := n.isLt
  rw [BitVec.le_def, BitVec.le_def, toNat_roundUp]
  simp only [BitVec.toNat_ofNat]
  omega

/-! ## The lookup -/

/-- The cached stack that a lookup finds. -/
def found (c : StackCache) (theMaintask : Option TaskId) (stacksize : BitVec 32) : Option Slot :=
  match theMaintask.bind fun _ => c.findLocal stacksize with
  | some index => some (c.cachedStack index)
  | none => (c.findGlobal stacksize).map c.globalCachedStack

section

variable {c : StackCache} {m : Option TaskId} {z : BitVec 32} {env : AllocEnv} {r : Slot}

theorem found_fits (h : found c m z = some r) : z ≤ r.stacksize := by
  unfold found at h
  split at h
  · next i hi =>
    cases h
    obtain ⟨_, -, hfind⟩ := Option.bind_eq_some_iff.1 hi
    exact StackCache.findLocal_fits hfind
  · obtain ⟨i, hfind, rfl⟩ := Option.map_eq_some_iff.1 h
    exact StackCache.findGlobal_fits hfind

theorem get_found (h : found c m z = some r) : (c.get m z env).2 = r := by
  cases hl : m.bind fun _ => c.findLocal z with
  | some i =>
    simp only [found, hl, Option.some.injEq] at h
    simp only [StackCache.get, hl]
    exact h
  | none =>
    simp only [found, hl] at h
    obtain ⟨i, hfind, rfl⟩ := Option.map_eq_some_iff.1 h
    simp only [StackCache.get, hl, hfind]

theorem get_notFound (h : found c m z = none) : (c.get m z env).2 = (c.mmap z env).2 := by
  cases hl : m.bind fun _ => c.findLocal z with
  | some i =>
    simp only [found, hl] at h
    cases h
  | none =>
    simp only [found, hl] at h
    simp only [StackCache.get, hl, Option.map_eq_none_iff.1 h]

/-- A new mapping has the size that was asked for. -/
theorem mmap_stacksize : (c.mmap z env).2.stacksize = z := by
  unfold StackCache.mmap
  split
  · rfl
  · split <;> rfl

end

/-! ## What a new task gets -/

/-- The word below the top of a stack. -/
def startWord (stack : Slot) : Addr :=
  stack.stackbase + (stackBytes stack.stacksize).zeroExtend 64 - 8

/-- A stack that the library has allocated. -/
def Flagged (stacksize : BitVec 32) : Prop := stacksize &&& MASK_SYSTEM_STACK ≠ 0

instance {stacksize : BitVec 32} : Decidable (Flagged stacksize) :=
  inferInstanceAs (Decidable (_ ≠ _))

/-- The control block of a task that was just created on `stack`. -/
structure Built (code : Code) (theTask : TaskId) (func args : Addr) (stack : Slot) (x : Tcb) :
    Prop where
  stackaddr : x.stackaddr = stack.stackbase
  stacksize : x.stacksize = stack.stacksize
  entry : x.entry = func
  args : x.args = args
  regR12 : x.regR12 = BitVec.ofNat 64 theTask
  regR15 : x.regR15 = code.cppTaskmain
  regRip : x.regRip = code.asmTaskmain
  regRsp : x.regRsp =
    if Flagged stack.stacksize then startWord stack
    else stack.stackbase + (stackBytes stack.stacksize).zeroExtend 64

namespace Proc

variable {s s' : Proc} {build : Build} {code : Code} {func args stackaddr : Addr} {n : BitVec 32}
  {env : Env} {t u : TaskId} {stack : Slot}

theorem prepare_built :
    Built code t func args stack ((s.prepare code t func args stack).tcb t) := by
  unfold prepare
  by_cases hflag : Flagged stack.stacksize
  · have hif : stack.stacksize &&& MASK_SYSTEM_STACK ≠ 0 := hflag
    simp only [if_pos hif]
    constructor <;> simp [modTcb, hflag, startWord, stackBytes]
  · have hif : ¬(stack.stacksize &&& MASK_SYSTEM_STACK ≠ 0) := hflag
    simp only [if_neg hif]
    constructor <;> simp [modTcb, hflag, stackBytes]

/-- The start address is stored on a stack of the library, where the stack pointer points. -/
theorem prepare_mem : (s.prepare code t func args stack).mem =
    if Flagged stack.stacksize then s.mem.store64 (startWord stack) code.asmTaskmain else s.mem := by
  unfold prepare
  by_cases hflag : Flagged stack.stacksize
  · have hif : stack.stacksize &&& MASK_SYSTEM_STACK ≠ 0 := hflag
    simp only [if_pos hif, if_pos hflag]
    simp [modTcb, startWord, stackBytes]
  · have hif : ¬(stack.stacksize &&& MASK_SYSTEM_STACK ≠ 0) := hflag
    simp only [if_neg hif, if_neg hflag]
    rfl

/-- The queues are linked with the scheduler field only. -/
theorem enqueue_built {x : Tcb} {m : TaskId} (hx : s.tcb t = x) (h : Built code t func args stack x) :
    Built code t func args stack ((s.enqueue build m t).tcb t) := by
  subst hx
  unfold enqueue
  dsimp only
  split
  · constructor <;> simp [modTcb, h.stackaddr, h.stacksize, h.entry, h.args, h.regR12, h.regR15,
      h.regRip, h.regRsp]
  · constructor <;> simp [modTcb, h.stackaddr, h.stacksize, h.entry, h.args, h.regR12, h.regR15,
      h.regRip, h.regRsp]

theorem enqueue_mem {m : TaskId} : (s.enqueue build m t).mem = s.mem := by
  unfold enqueue
  dsimp only
  split <;> rfl

theorem ensureMaintask_spec {r : TaskId × Proc} (h : s.ensureMaintask t env = some r) :
    r.2.tcb = s.tcb ∧ r.2.mem = s.mem := by
  unfold ensureMaintask at h
  split at h
  · cases h
    exact ⟨rfl, rfl⟩
  · split at h
    · cases h
      exact ⟨rfl, rfl⟩
    · cases h

theorem newStack_congr {q : Proc} (hm : q.theMaintask = s.theMaintask)
    (hc : q.cache = s.cache) :
    (q.newStack stackaddr n env).2 = (s.newStack stackaddr n env).2 := by
  unfold newStack
  rw [hm, hc]
  split <;> rfl

theorem newStack_mem : (s.newStack stackaddr n env).1.mem = s.mem := by
  unfold newStack
  split <;> rfl

/-- **What `fiber_create` builds.** -/
theorem fiberCreate_built
    (h : s.fiberCreate build code func args stackaddr n env = some (some t, s')) :
    let stack := (s.newStack stackaddr n env).2
    stack.stackbase ≠ 0 ∧ Built code t func args stack (s'.tcb t) ∧
      s'.mem = if Flagged stack.stacksize then
        s.mem.store64 (startWord stack) code.asmTaskmain else s.mem := by
  obtain ⟨p, hp⟩ := s.tcbAlloc_pool env.malloc
  unfold fiberCreate at h
  rw [hp] at h
  dsimp only at h
  split at h
  · cases h
  · next theTask _ =>
    generalize hq : Proc.modTcb _ theTask _ = q at h
    have hstack : (q.newStack stackaddr n env).2 = (s.newStack stackaddr n env).2 :=
      newStack_congr (by rw [← hq]; rfl) (by rw [← hq]; rfl)
    rw [hstack] at h
    split at h
    · obtain ⟨_, -, he⟩ := Option.map_eq_some_iff.1 h
      cases he
    · next hz =>
      obtain ⟨r, hr, he⟩ := Option.map_eq_some_iff.1 h
      obtain ⟨htask, hs'⟩ := Prod.mk.inj he
      obtain rfl : theTask = t := Option.some.inj htask
      obtain ⟨htcb, hmem⟩ := ensureMaintask_spec hr
      refine ⟨hz, ?_, ?_⟩
      · rw [← hs']
        exact enqueue_built (congrFun htcb _) prepare_built
      · rw [← hs', enqueue_mem, hmem, prepare_mem, newStack_mem, ← hq]
        rfl

end Proc

/-! ## The size and the word of the start address -/

/-- A stack as it was asked for: whole pages, large enough, and the word below its top lies above
the first page, which is the guard page. -/
structure RightStack (x : Tcb) (requested : BitVec 32) : Prop where
  wholePages : 4096 ∣ (stackBytes x.stacksize).toNat
  enough : requested ≤ stackBytes x.stacksize
  aboveGuard : 4096 ≤ (x.regRsp - x.stackaddr).toNat
  belowTop : (x.regRsp - x.stackaddr).toNat + 8 ≤ (stackBytes x.stacksize).toNat

/-- A page for the guard and at least one more. -/
def GuardedPages (stacksize : BitVec 32) : Prop :=
  4096 ∣ (stackBytes stacksize).toNat ∧ 2 * 4096 ≤ (stackBytes stacksize).toNat

/-- The rounding does not overflow, and the cached stack that is found has a page besides its guard
page; without one more than a page is asked for. -/
def Suits (s : Proc) (n : BitVec 32) : Prop :=
  n ≤ 0xFFFFF000#32 ∧
    match found s.cache s.theMaintask (roundUp n) with
    | some r => GuardedPages r.stacksize
    | none => 4096#32 < n

section

variable {s s' : Proc} {build : Build} {code : Code} {func args : Addr} {n z : BitVec 32}
  {env : Env} {t : TaskId} {x : Tcb}

theorem guardedPages_or_flag : GuardedPages (z ||| MASK_SYSTEM_STACK) ↔ GuardedPages z := by
  unfold GuardedPages
  rw [stackBytes_or_flag]

/-- The distance of the start address from the base of the stack. -/
theorem rightStack_iff_guardedPages
    (hrsp : x.regRsp = x.stackaddr + (stackBytes x.stacksize).zeroExtend 64 - 8) :
    RightStack x n ↔ n ≤ stackBytes x.stacksize ∧ GuardedPages x.stacksize := by
  have hlt := (stackBytes x.stacksize).isLt
  have hoff : (x.regRsp - x.stackaddr).toNat =
      (2 ^ 64 - 8 + (stackBytes x.stacksize).toNat) % 2 ^ 64 := by
    have hsub : x.regRsp - x.stackaddr = (stackBytes x.stacksize).zeroExtend 64 - 8 := by
      rw [hrsp]
      generalize (stackBytes x.stacksize).zeroExtend 64 = w
      bv_omega
    have hw : ((stackBytes x.stacksize).zeroExtend 64).toNat = (stackBytes x.stacksize).toNat :=
      BitVec.toNat_setWidth_of_le (by decide)
    rw [hsub, BitVec.toNat_sub, hw]
    rfl
  constructor
  · intro h
    have hguard := h.aboveGuard
    have htop := h.belowTop
    have hpages := h.wholePages
    rw [hoff] at hguard htop
    exact ⟨h.enough, hpages, by omega⟩
  · rintro ⟨henough, hpages, htwo⟩
    refine ⟨hpages, henough, ?_, ?_⟩ <;> rw [hoff] <;> omega

/-- **When a task gets the stack it asked for.** -/
theorem rightStack_iff (h : s.fiberCreate build code func args 0 n env = some (some t, s')) :
    RightStack (s'.tcb t) n ↔ Suits s n := by
  obtain ⟨-, hbuilt, -⟩ := Proc.fiberCreate_built h
  have hn := n.isLt
  have hround := toNat_roundUp n
  set got := (s.cache.get s.theMaintask (roundUp n) env.toAllocEnv).2 with hgot
  have hsize : (s'.tcb t).stacksize = got.stacksize ||| MASK_SYSTEM_STACK := hbuilt.stacksize
  have hrsp : (s'.tcb t).regRsp =
      (s'.tcb t).stackaddr + (stackBytes (s'.tcb t).stacksize).zeroExtend 64 - 8 := by
    rw [hbuilt.regRsp, hbuilt.stackaddr, hsize]
    exact if_pos (flag_or_ne_zero _)
  rw [rightStack_iff_guardedPages hrsp, hsize, stackBytes_or_flag, guardedPages_or_flag]
  unfold Suits
  cases hf : found s.cache s.theMaintask (roundUp n) with
  | some r =>
    have hfits := found_fits hf
    rw [get_found hf] at hgot
    simp only [hgot]
    refine and_congr_left fun hguard => ?_
    have hpages := hguard.1
    rw [BitVec.le_def] at hfits
    rw [BitVec.le_def, BitVec.le_def]
    rw [toNat_stackBytes] at *
    simp only [BitVec.toNat_ofNat]
    omega
  | none =>
    rw [get_notFound hf] at hgot
    have hz : got.stacksize = roundUp n := by rw [hgot, mmap_stacksize]
    unfold GuardedPages
    simp only [hz]
    rw [BitVec.le_def, BitVec.le_def, BitVec.lt_def]
    rw [toNat_stackBytes] at *
    simp only [BitVec.toNat_ofNat]
    omega

/-! ## An overflow, and a single page -/

/-- A thread with its maintask, task 7, one free control block and a stack of two pages in its
cache. -/
def cachingThread : Proc :=
  { theMaintask := some 7, currentTask := some 7, pool := { freedlist := [3], freedsize := 1 },
    cache := { cachedStackMask := 0xFE#32, cachedStack := fun _ => ⟨0x10000, 8192⟩ },
    readylist := [7], live := [7] }

/-- `mmap` and `mprotect` succeed. -/
def memory : Env := { mmap := some 0x700000 }

theorem exists_created {r : Option (Option TaskId × Proc)}
    (h : r.map (fun r => (r.1, (r.2.tcb t).stacksize)) = some (some t, z)) :
    ∃ s', r = some (some t, s') ∧ (s'.tcb t).stacksize = z := by
  obtain ⟨⟨u, s'⟩, rfl, he⟩ := Option.map_eq_some_iff.1 h
  obtain ⟨rfl, hz⟩ := Prod.mk.inj he
  exact ⟨s', rfl, hz⟩

/-- A request of two pages gets the cached stack. -/
theorem cachingThread_rightStack :
    ∃ s', cachingThread.fiberCreate .mN ⟨0x1000, 0x2000⟩ 0x3000 0 0 8192 memory =
      some (some 3, s') ∧ RightStack (s'.tcb 3) 8192 := by
  obtain ⟨s', hs', -⟩ := exists_created (t := 3) (z := 8193)
    (r := cachingThread.fiberCreate .mN ⟨0x1000, 0x2000⟩ 0x3000 0 0 8192 memory) (by decide)
  have hfound : found cachingThread.cache cachingThread.theMaintask (roundUp 8192) =
      some ⟨0x10000, 8192⟩ := by decide
  refine ⟨s', hs', (rightStack_iff hs').2 ?_⟩
  unfold Suits
  rw [hfound]
  exact ⟨by decide, by unfold GuardedPages; decide⟩

/-- A size near `2 ^ 32` rounds to 0 and takes any cached stack. A stack of one page is nothing but
its guard page: `fiber_create` dies when it stores the start address there, where the model, in which
no store faults, goes on and returns the task. -/
theorem not_rightStack :
    (∃ s', cachingThread.fiberCreate .mN ⟨0x1000, 0x2000⟩ 0x3000 0 0 0xFFFFF001 memory =
      some (some 3, s') ∧ ¬RightStack (s'.tcb 3) 0xFFFFF001) ∧
    ∃ s', Proc.fiberCreate { cachingThread with cache := {} } .mN ⟨0x1000, 0x2000⟩ 0x3000 0 0 1
        memory =
      some (some 3, s') ∧ ¬RightStack (s'.tcb 3) 1 := by
  constructor
  · obtain ⟨s', hs', hz⟩ := exists_created (t := 3) (z := 8193)
      (r := cachingThread.fiberCreate .mN ⟨0x1000, 0x2000⟩ 0x3000 0 0 0xFFFFF001 memory) (by decide)
    refine ⟨s', hs', fun h => ?_⟩
    have henough := h.enough
    rw [hz] at henough
    revert henough
    decide
  · obtain ⟨s', hs', hz⟩ := exists_created (t := 3) (z := 4097)
      (r := Proc.fiberCreate { cachingThread with cache := {} } .mN ⟨0x1000, 0x2000⟩ 0x3000 0 0 1
        memory) (by decide)
    refine ⟨s', hs', fun h => ?_⟩
    have hguard := h.aboveGuard
    have htop := h.belowTop
    rw [hz, show (stackBytes 4097).toNat = 4096 by decide] at htop
    omega

end

end Ptask.Create
