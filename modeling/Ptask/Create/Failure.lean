import Ptask.Create.Model

/-!
# A creation that fails

`fiber_create` fails when no control block or no stack can be had. It gives the control block back,
but through the `FibSCP` of a maintask that the first task of a thread does not have yet; and a
lookup that lands on a slot without a stack has already marked this slot as free.
-/

namespace Ptask.Create

open Lib

namespace Proc

/-! ## What a failure may change -/

/-- No control block, or no stack, can be obtained. -/
def Fails (s : Proc) (stackaddr : Addr) (stacksize : BitVec 32) (env : Env) : Prop :=
  (s.tcbAlloc env.malloc).1 = none ∨
    stackaddr = 0 ∧
      (s.cache.get s.theMaintask (roundUp stacksize) env.toAllocEnv).2.stackbase = 0

/-- Which slots of the two tables are occupied, and with what. -/
structure SameOccupancy (c c' : StackCache) : Prop where
  cachedStackMask : c'.cachedStackMask = c.cachedStackMask
  cachedStack : c'.cachedStack = c.cachedStack
  globalCachedStackMask : c'.globalCachedStackMask = c.globalCachedStackMask
  globalCachedStack : c'.globalCachedStack = c.globalCachedStack

/-- The control blocks of a block that this `tcb_alloc` has obtained from `malloc` for the pool. -/
def freshBlock (s : Proc) (malloc : Option TaskId) : List TaskId :=
  match s.theMaintask with
  | none => []
  | some _ => s.pool.freshBlock malloc

/-- The call has changed nothing: no control block is lost, and the one that was taken is back on a
free list once. -/
structure Unchanged (s s' : Proc) (env : Env) : Prop where
  readylist : s'.readylist = s.readylist
  globalReadylist : s'.globalReadylist = s.globalReadylist
  nLocalFibTasks : s'.nLocalFibTasks = s.nLocalFibTasks
  nGlobalFibTasks : s'.nGlobalFibTasks = s.nGlobalFibTasks
  live : s'.live = s.live
  theMaintask : s'.theMaintask = s.theMaintask
  occupancy : SameOccupancy s.cache s'.cache
  freeLists : s'.pool.freeLists.Perm (s.pool.freeLists ++ s.freshBlock env.malloc)
  once : ∀ t, (s.tcbAlloc env.malloc).1 = some t →
    (s.pool.freeLists ++ s.freshBlock env.malloc).Nodup → s'.pool.freeLists.count t = 1

/-- The call returns `NULL` and has changed nothing. -/
def FailsCleanly (s : Proc) (build : Build) (code : Code) (func args stackaddr : Addr)
    (stacksize : BitVec 32) (env : Env) : Prop :=
  ∃ s', s.fiberCreate build code func args stackaddr stacksize env = some (none, s') ∧
    Unchanged s s' env

/-- A slot that reads as occupied is at least as large as what is looked for. -/
def LandsOnSlot (c : StackCache) (theMaintask : Option TaskId) (stacksize : BitVec 32) : Prop :=
  (theMaintask.bind fun _ => c.findLocal stacksize) ≠ none ∨ c.findGlobal stacksize ≠ none

variable {s : Proc} {build : Build} {code : Code} {func args stackaddr : Addr} {n : BitVec 32}
  {env : Env} {t m : TaskId} {c : StackCache}

/-! ## The lookup -/

/-- A lookup that lands on a slot marks the slot as free. -/
theorem not_sameOccupancy_get (h : LandsOnSlot c s.theMaintask n) {e : AllocEnv} :
    ¬SameOccupancy c (c.get s.theMaintask n e).1 := by
  intro hsame
  cases hl : s.theMaintask.bind fun _ => c.findLocal n with
  | some i =>
    have hmask := hsame.cachedStackMask
    simp only [StackCache.get, hl] at hmask
    obtain ⟨_, -, hfind⟩ := Option.bind_eq_some_iff.1 hl
    obtain ⟨hlt, hbit⟩ := StackCache.findLocal_spec hfind
    have hset := getLsbD_setBit (x := c.cachedStackMask) (j := i) (show i < 32 by omega)
    rw [hmask, hbit, beq_self_eq_true, Bool.or_true] at hset
    cases hset
  | none =>
    obtain ⟨i, hg⟩ : ∃ i, c.findGlobal n = some i :=
      Option.ne_none_iff_exists'.1 (h.resolve_left fun hn => hn hl)
    have hmask := hsame.globalCachedStackMask
    simp only [StackCache.get, hl, hg] at hmask
    obtain ⟨hlt, hbit⟩ := StackCache.findGlobal_spec hg
    have hset := getLsbD_setBit (x := c.globalCachedStackMask) (j := i) hlt
    rw [hmask, hbit, beq_self_eq_true, Bool.or_true] at hset
    cases hset

/-- Any other lookup leaves the tables alone. -/
theorem sameOccupancy_get (h : ¬LandsOnSlot c s.theMaintask n) {e : AllocEnv} :
    SameOccupancy c (c.get s.theMaintask n e).1 := by
  obtain ⟨hl, hg⟩ := not_or.1 h
  simp only [StackCache.get, not_not.1 hl, not_not.1 hg]
  unfold StackCache.mmap
  split
  · exact ⟨rfl, rfl, rfl, rfl⟩
  · split <;> exact ⟨rfl, rfl, rfl, rfl⟩

/-! ## The control block -/

theorem freshBlock_none (hm : s.theMaintask = none) (malloc : Option TaskId) :
    s.freshBlock malloc = [] := by
  unfold freshBlock
  rw [hm]

theorem freshBlock_some (hm : s.theMaintask = some m) (malloc : Option TaskId) :
    s.freshBlock malloc = s.pool.freshBlock malloc := by
  unfold freshBlock
  rw [hm]

/-- A `tcb_alloc` without success keeps the state. -/
theorem tcbAlloc_fails (h : (s.tcbAlloc env.malloc).1 = none) :
    s.tcbAlloc env.malloc = (none, s) ∧ s.freshBlock env.malloc = [] := by
  obtain hm | ⟨m, hm⟩ := Option.eq_none_or_eq_some s.theMaintask
  · rw [tcbAlloc_none hm] at h ⊢
    exact ⟨Prod.ext h rfl, freshBlock_none hm _⟩
  · rw [tcbAlloc_some hm] at h ⊢
    obtain ⟨hq, hfresh⟩ := TcbPool.alloc_none (Prod.ext h rfl)
    refine ⟨Prod.ext h ?_, by rw [freshBlock_some hm, hfresh]⟩
    simp only [hq]

/-- Without a control block nothing else is tried. -/
theorem failsCleanly_of_noTcb (h : (s.tcbAlloc env.malloc).1 = none) :
    s.FailsCleanly build code func args stackaddr n env := by
  obtain ⟨hs, hfresh⟩ := tcbAlloc_fails h
  refine ⟨s, by simp only [fiberCreate, hs], rfl, rfl, rfl, rfl, rfl, rfl, ⟨rfl, rfl, rfl, rfl⟩,
    ?_, ?_⟩
  · rw [hfresh, List.append_nil]
  · intro t ht
    rw [h] at ht
    cases ht

/-- What is left when the control block goes back for want of a stack. -/
def givenBack (s : Proc) (t : TaskId) (stacksize : BitVec 32) (env : Env) : Proc :=
  { s with
    tcb := Function.update s.tcb t { s.tcb t with state := .ready }
    cache := (s.cache.get s.theMaintask (roundUp stacksize) env.toAllocEnv).1
    pool := (s.tcbAlloc env.malloc).2.pool.free t }

/-- Without a maintask there is no `FibSCP` to give the control block back to. -/
theorem fiberCreate_noStack (ha : (s.tcbAlloc env.malloc).1 = some t)
    (hz : (s.cache.get s.theMaintask (roundUp n) env.toAllocEnv).2.stackbase = 0) :
    s.fiberCreate build code func args 0 n env =
      s.theMaintask.map fun _ => (none, s.givenBack t n env) := by
  obtain ⟨p, hp⟩ := s.tcbAlloc_pool env.malloc
  rw [ha] at hp
  unfold fiberCreate givenBack
  rw [hp]
  simp only [newStack, modTcb, tcbFree, hz, if_true, Option.map_map]
  rfl

/-- A control block that was taken goes back. -/
theorem freeLists_back (hm : s.theMaintask = some m) (ha : (s.tcbAlloc env.malloc).1 = some t) :
    ((s.tcbAlloc env.malloc).2.pool.free t).freeLists.Perm
      (s.pool.freeLists ++ s.freshBlock env.malloc) := by
  rw [tcbAlloc_some hm] at ha ⊢
  rw [freshBlock_some hm]
  have hperm := TcbPool.alloc_perm (Prod.ext ha rfl)
  exact (TcbPool.free_perm _ t).trans hperm.symm

/-- **When a failed creation changes nothing.** If no control block can be obtained, or if the thread
has its maintask and the lookup lands on no slot of the cache. -/
theorem failsCleanly_iff (h : s.Fails stackaddr n env) :
    s.FailsCleanly build code func args stackaddr n env ↔
      (s.tcbAlloc env.malloc).1 = none ∨
        s.theMaintask ≠ none ∧ ¬LandsOnSlot s.cache s.theMaintask (roundUp n) := by
  cases ha : (s.tcbAlloc env.malloc).1 with
  | none => exact iff_of_true (failsCleanly_of_noTcb ha) (.inl rfl)
  | some t =>
    obtain ⟨rfl, hz⟩ : stackaddr = 0 ∧ _ = _ := h.resolve_left (by rw [ha]; nofun)
    have hret := @fiberCreate_noStack _ build code func args _ _ _ ha hz
    constructor
    · rintro ⟨s', hs', hun⟩
      rw [hret] at hs'
      obtain ⟨m, hm, he⟩ := Option.map_eq_some_iff.1 hs'
      refine .inr ⟨by rw [hm]; nofun, fun hland => ?_⟩
      have hocc := hun.occupancy
      rw [← (Prod.mk.inj he).2] at hocc
      exact not_sameOccupancy_get hland hocc
    · rintro (hnone | ⟨hmain, hland⟩)
      · cases hnone
      obtain ⟨m, hm⟩ := Option.ne_none_iff_exists'.1 hmain
      have hback := freeLists_back hm ha
      refine ⟨s.givenBack t n env, by rw [hret, hm]; rfl,
        ⟨rfl, rfl, rfl, rfl, rfl, rfl, sameOccupancy_get hland, hback, ?_⟩⟩
      · intro u hu hnd
        obtain rfl : t = u := Option.some.inj (ha.symm.trans hu)
        have hin : t ∈ (s.givenBack t n env).pool.freeLists :=
          (TcbPool.free_perm _ t).mem_iff.2 List.mem_cons_self
        exact List.count_eq_one_of_mem (hback.nodup_iff.2 hnd) hin

/-! ## A fresh thread, and a thread at work -/

/-- No memory for a stack. -/
def noMemory : Env := { malloc := some 100 }

/-- A thread that has its maintask, task 7, and one free control block. -/
def thread : Proc :=
  { theMaintask := some 7, currentTask := some 7, pool := { freedlist := [3], freedsize := 1 },
    readylist := [7], live := [7] }

/-- The thread finds no memory for a stack of two pages. -/
theorem thread_failsCleanly :
    thread.FailsCleanly .mN ⟨0x1000, 0x2000⟩ 0x3000 0 0 8192 noMemory := by
  have hfails : thread.Fails 0 8192 noMemory := .inr ⟨rfl, by decide⟩
  have hland : ¬LandsOnSlot thread.cache thread.theMaintask (roundUp 8192) :=
    not_or.2 ⟨not_not.2 (by decide), not_not.2 (by decide)⟩
  exact (failsCleanly_iff hfails).2 (.inr ⟨by decide, hland⟩)

/-- On a thread without tasks the control block goes back to a scheduler that is missing. And as
long as the global table is not used, its slots read as occupied by stacks of size 0. -/
theorem not_failsCleanly :
    (Fails {} 0 8192 noMemory ∧
      ¬FailsCleanly {} .mN ⟨0x1000, 0x2000⟩ 0x3000 0 0 8192 noMemory) ∧
    (thread.Fails 0 0 noMemory ∧
      ¬thread.FailsCleanly .mN ⟨0x1000, 0x2000⟩ 0x3000 0 0 0 noMemory) := by
  refine ⟨⟨.inr ⟨rfl, by decide⟩, ?_⟩, .inr ⟨rfl, by decide⟩, ?_⟩
  · rintro ⟨s', hs', -⟩
    have hnull : (fiberCreate {} .mN ⟨0x1000, 0x2000⟩ 0x3000 0 0 8192 noMemory).isNone := by decide
    rw [hs'] at hnull
    cases hnull
  · rintro ⟨s', hs', hun⟩
    have hmask : (thread.fiberCreate .mN ⟨0x1000, 0x2000⟩ 0x3000 0 0 0 noMemory).map
        (fun r => r.2.cache.globalCachedStackMask) ≠ some 0 := by decide
    rw [hs'] at hmask
    exact hmask (congrArg some hun.occupancy.globalCachedStackMask)

end Proc

end Ptask.Create
