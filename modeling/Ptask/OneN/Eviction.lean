import Ptask.OneN.Stacks

/-!
# When a stack is unmapped

`fiber_stackcache_put` unmaps a stack when it has found both tables full. It takes the global table
for full in two more cases: the mask of the global table starts as zero, which says that all of its
slots are taken, although they are empty; and the slot number `0` is read as "none" once it has been
decremented.
-/

namespace Ptask.OneN

open Ptask.Lib

/-! ## What a returned stack finds -/

/-- What the slots of the cache hold. -/
def cached (c : StackCache) : Owner → Option Slot := hold (fun _ => none) c

/-- All slots of both tables hold stacks. -/
def Full (c : StackCache) : Prop :=
  (∀ i < 8, cached c (.localSlot i) ≠ none) ∧ ∀ i < 64, cached c (.globalSlot i) ≠ none

instance (c : StackCache) : Decidable (Full c) :=
  inferInstanceAs (Decidable (_ ∧ _))

/-- The global table holds no stack. -/
def GlobalEmpty (c : StackCache) : Prop := ∀ i < 64, cached c (.globalSlot i) = none

instance (c : StackCache) : Decidable (GlobalEmpty c) :=
  inferInstanceAs (Decidable (∀ i < 64, cached c (.globalSlot i) = none))

/-- The stack that `fiber_stackcache_put` unmaps (`oldstack` and `oldsize`). -/
def unmaps (c : StackCache) (stackbase : Addr) : Option Slot :=
  let index := ffs c.cachedStackMask
  if index = 0 then
    let index := ffs c.globalCachedStackMask
    let index := if index ≠ 0 then index - 1 else index
    if index = 0 then
      let old := c.cachedStack (evictIndex stackbase)
      if old.stackbase ≠ 0 then some old else none
    else none
  else none

/-- One free slot has taken the stack; every other slot, and what is mapped, is as before. -/
def StoredOnce (c c' : StackCache) (r : Slot) : Prop :=
  ∃ o, cached c o = none ∧ cached c' = Function.update (cached c) o (some r) ∧ c'.mapped = c.mapped

/-- What the cache is for: a stack is unmapped only when all slots hold stacks, otherwise the returned
stack is stored in one free slot and every cached stack stays cached. -/
structure PutRight (c : StackCache) (r : Slot) : Prop where
  unmaps : ∀ old, unmaps c r.stackbase = some old → Full c
  stores : ¬Full c → StoredOnce c (c.put r.stackbase r.stacksize) r

/-- The masks show a free slot other than the first one of the global table, or there is none. -/
def SlotFound (c : StackCache) : Prop :=
  ffs c.cachedStackMask ≠ 0 ∨ 2 ≤ ffs c.globalCachedStackMask ∨ Full c

section

variable {f : TaskId → Option Slot} {c : StackCache} {r : Slot} {i : Nat}

/-- `munmap` is called on this stack and on no other. -/
theorem put_mapped (stackbase : Addr) (stacksize : BitVec 32) :
    (c.put stackbase stacksize).mapped =
      match unmaps c stackbase with
      | some old => c.mapped.erase old
      | none => c.mapped := by
  unfold StackCache.put unmaps
  dsimp only
  split
  · cases hg : ffs c.globalCachedStackMask with
    | zero =>
      simp only [ne_eq, not_true_eq_false, if_false, if_true]
      split <;> rfl
    | succ i =>
      by_cases hi : i = 0
      · subst hi
        simp only [ne_eq, Nat.zero_add, Nat.one_ne_zero, not_false_eq_true, if_true, Nat.sub_self]
        split <;> rfl
      · simp [hi]
  · rfl

/-- The masks and the contents of the tables tell occupied slots from free ones. -/
structure SlotsOK (c : StackCache) : Prop where
  mask : ∀ i, 8 ≤ i → c.cachedStackMask.getLsbD i = false
  used : ∀ i < 8, c.cachedStackMask.getLsbD i = false → (c.cachedStack i).stackbase ≠ 0

theorem cached_of_bit (h : c.cachedStackMask.getLsbD i = true) :
    cached c (.localSlot i) = none :=
  if_neg fun hi => by rw [h] at hi; cases hi.2

theorem cached_of_globalBit (h : c.globalCachedStackMask.getLsbD i = true) :
    cached c (.globalSlot i) = none :=
  if_neg fun hi => by rw [h] at hi; cases hi.2

theorem SlotsOK.lt_of_ffs (h : SlotsOK c) (hi : ffs c.cachedStackMask = i + 1) : i < 8 := by
  obtain ⟨-, hbit⟩ := ffs_spec hi
  by_contra hge
  rw [h.mask i (not_lt.1 hge)] at hbit
  cases hbit

theorem put_eq_local (hl : ffs c.cachedStackMask = i + 1) : c.put r.stackbase r.stacksize = { c with
    cachedStackMask := c.cachedStackMask &&& ~~~(1#32 <<< i)
    cachedStack := Function.update c.cachedStack i r } := by
  rw [StackCache.put, if_neg (by omega), hl]
  rfl

/-- A free local slot takes the stack. -/
theorem SlotsOK.put_local (h : SlotsOK c) (hr : r.stackbase ≠ 0) (hl : ffs c.cachedStackMask ≠ 0) :
    unmaps c r.stackbase = none ∧ StoredOnce c (c.put r.stackbase r.stacksize) r := by
  obtain ⟨i, hi⟩ := Nat.exists_eq_succ_of_ne_zero hl
  have hput := put_eq_local (r := r) hi
  refine ⟨if_neg hl, .localSlot i, cached_of_bit (ffs_spec hi).2, ?_, by rw [hput]⟩
  rw [hput]
  exact hold_fillLocal (h.lt_of_ffs hi) hr

theorem put_eq_global (hl : ffs c.cachedStackMask = 0) (hg : ffs c.globalCachedStackMask = i + 1)
    (hi : i ≠ 0) : c.put r.stackbase r.stacksize = { c with
      globalCachedStackMask := c.globalCachedStackMask &&& ~~~(1#64 <<< i)
      globalCachedStack := Function.update c.globalCachedStack i r } := by
  rw [StackCache.put, if_pos hl, hg]
  simp [hi]

/-- A free global slot other than the first one takes the stack. -/
theorem put_global (hr : r.stackbase ≠ 0) (hl : ffs c.cachedStackMask = 0)
    (hg : 2 ≤ ffs c.globalCachedStackMask) :
    unmaps c r.stackbase = none ∧ StoredOnce c (c.put r.stackbase r.stacksize) r := by
  obtain ⟨i, hi⟩ : ∃ i, ffs c.globalCachedStackMask = i + 1 :=
    Nat.exists_eq_succ_of_ne_zero (by omega)
  have hne : i ≠ 0 := by omega
  have hput := put_eq_global (r := r) hl hi hne
  refine ⟨?_, .globalSlot i, cached_of_globalBit (ffs_spec hi).2, ?_, by rw [hput]⟩
  · rw [Ptask.OneN.unmaps, if_pos hl, hi]
    simp [hne]
  · rw [hput]
    exact hold_fillGlobal (ffs_spec hi).1 hr

/-- In every other case a local stack makes room. -/
theorem SlotsOK.put_evicts (h : SlotsOK c) (hl : ffs c.cachedStackMask = 0)
    (hg : ffs c.globalCachedStackMask < 2) :
    unmaps c r.stackbase = some (c.cachedStack (evictIndex r.stackbase)) := by
  have hne := h.used _ (evictIndex_lt r.stackbase) (ffs_of_zero hl _)
  have hzero : (if ffs c.globalCachedStackMask ≠ 0 then ffs c.globalCachedStackMask - 1
      else ffs c.globalCachedStackMask) = 0 := by
    split <;> omega
  rw [Ptask.OneN.unmaps, if_pos hl]
  simp only [hzero, if_true]
  exact if_pos hne

theorem putRight_of_storedOnce (hu : unmaps c r.stackbase = none)
    (hs : StoredOnce c (c.put r.stackbase r.stacksize) r) : PutRight c r where
  unmaps old ho := by
    rw [hu] at ho
    cases ho
  stores _ := hs

/-- **When the cache does its work.** -/
theorem SlotsOK.putRight_iff (h : SlotsOK c) (hr : r.stackbase ≠ 0) :
    PutRight c r ↔ SlotFound c := by
  constructor
  · intro hput
    by_cases hl : ffs c.cachedStackMask = 0
    · by_cases hg : 2 ≤ ffs c.globalCachedStackMask
      · exact .inr (.inl hg)
      · exact .inr (.inr (hput.unmaps _ (h.put_evicts hl (not_le.1 hg))))
    · exact .inl hl
  · intro hs
    by_cases hl : ffs c.cachedStackMask = 0
    · rcases hs with hs | hg | hfull
      · exact absurd hl hs
      · obtain ⟨h1, h2⟩ := put_global hr hl hg
        exact putRight_of_storedOnce h1 h2
      · exact ⟨fun _ _ => hfull, fun hn => absurd hfull hn⟩
    · obtain ⟨h1, h2⟩ := h.put_local hr hl
      exact putRight_of_storedOnce h1 h2

/-! ## Occupied slots hold stacks -/

theorem SlotsOK.put (h : SlotsOK c) (hr : r.stackbase ≠ 0) :
    SlotsOK (c.put r.stackbase r.stacksize) := by
  have replace (k : Nat) (c' : StackCache) (hm : c'.cachedStackMask = c.cachedStackMask)
      (hs : c'.cachedStack = Function.update c.cachedStack k r) : SlotsOK c' := by
    refine ⟨fun i hi => by rw [hm]; exact h.mask i hi, fun i hi hbit => ?_⟩
    rw [hm] at hbit
    rw [hs]
    by_cases hik : i = k
    · subst hik
      simpa using hr
    · simpa [hik] using h.used i hi hbit
  by_cases hl : ffs c.cachedStackMask = 0
  · by_cases hg : 2 ≤ ffs c.globalCachedStackMask
    · have hne : ffs c.globalCachedStackMask ≠ 0 := by omega
      have hne' : ffs c.globalCachedStackMask - 1 ≠ 0 := by omega
      have hput : (c.put r.stackbase r.stacksize).cachedStackMask = c.cachedStackMask ∧
          (c.put r.stackbase r.stacksize).cachedStack = c.cachedStack := by
        unfold StackCache.put
        simp [hl, hne, hne']
      exact ⟨fun i hi => by rw [hput.1]; exact h.mask i hi, fun i hi hbit => by
        rw [hput.1] at hbit
        rw [hput.2]
        exact h.used i hi hbit⟩
    · obtain hg | hg : ffs c.globalCachedStackMask = 0 ∨ ffs c.globalCachedStackMask = 1 := by omega
      · obtain ⟨l, hput⟩ := put_eq_evict (r := r) hl hg
        exact hput ▸ replace (evictIndex r.stackbase) _ rfl rfl
      · obtain ⟨l, hput⟩ := put_eq_both (r := r) hl hg
        exact hput ▸ replace (evictIndex r.stackbase) _ rfl rfl
  · obtain ⟨k, hk⟩ := Nat.exists_eq_succ_of_ne_zero hl
    have hlt := h.lt_of_ffs hk
    rw [put_eq_local hk]
    have hbit (j : Nat) := getLsbD_clearBit (x := c.cachedStackMask) (j := j) (show k < 32 by omega)
    refine ⟨fun i hi => ?_, fun i hi hb => ?_⟩
    · rw [hbit, h.mask i hi, Bool.false_and]
    · dsimp only at hb ⊢
      by_cases hik : i = k
      · subst hik
        simpa using hr
      · rw [hbit, bne_iff_ne.2 hik, Bool.and_true] at hb
        simpa [hik] using h.used i hi hb

theorem SlotsOK.get (h : SlotsOK c) (m : Option TaskId) (n : BitVec 32) (env : AllocEnv) :
    SlotsOK (c.get m n env).1 := by
  unfold StackCache.get
  split
  · next k hk =>
    obtain ⟨_, -, hk⟩ := Option.bind_eq_some_iff.1 hk
    obtain ⟨hlt, -⟩ := StackCache.findLocal_spec hk
    have hbit (j : Nat) := getLsbD_setBit (x := c.cachedStackMask) (j := j) (show k < 32 by omega)
    refine ⟨fun i hi => ?_, fun i hi hb => ?_⟩
    · rw [hbit, h.mask i hi, Bool.false_or, beq_false_of_ne (by omega)]
    · dsimp only at hb ⊢
      rw [hbit, Bool.or_eq_false_iff] at hb
      exact h.used i hi hb.1
  · split
    · exact ⟨h.mask, h.used⟩
    · unfold StackCache.mmap
      split
      · exact h
      · split
        · exact h
        · exact ⟨h.mask, h.used⟩

end

namespace Sched

variable {b : Boot} {m : Move} {s s' : Sched} {t : TaskId} {r : Slot}

/-- Occupied local slots and tasks that are to give their stacks back have them. -/
structure StacksOK (s : Sched) : Prop where
  slots : SlotsOK s.cache
  tasks : ∀ t r, s.stackHeld t = some r → r.stackbase ≠ 0

theorem stackbase_of_stackOf {x : FibTCB} (h : stackOf x = some r) : r.stackbase = x.stackaddr := by
  unfold stackOf at h
  split at h
  · cases h
    rfl
  · cases h

theorem Inv.stacksOK_create (h : Inv b s) (hs : StacksOK s) {stackaddr : Addr} {n : BitVec 32}
    {env : AllocEnv} (hfresh : env.malloc.all s.freshTcbs = true) :
    StacksOK (s.fiberCreate stackaddr n env) := by
  have hcache : SlotsOK (s.newStack stackaddr n env).1 := by
    unfold newStack
    split
    · exact hs.slots.get _ _ _
    · exact hs.slots
  obtain ⟨-, hc, hheld⟩ | ⟨w, hw, hc, hnew⟩ := h.create_stacks stackaddr n hfresh
  · exact ⟨hc ▸ hs.slots, hheld ▸ hs.tasks⟩
  · refine ⟨hc ▸ hcache, ?_⟩
    obtain ⟨-, -, hheld⟩ | ⟨hz, -, -, hheld⟩ := hnew
    · exact hheld ▸ hs.tasks
    · rw [hheld]
      intro t r ht
      by_cases htw : t = w
      · subst htw
        rw [Function.update_self] at ht
        rw [stackbase_of_stackOf ht]
        exact hz
      · rw [Function.update_of_ne htw] at ht
        exact hs.tasks t r ht

theorem Inv.stacksOK_exit (h : Inv b s) (hs : StacksOK s) : StacksOK s.cppTaskmain := by
  obtain ⟨hcache, hheld⟩ := exit_stacks h
  refine ⟨?_, fun t r ht => ?_⟩
  · rw [hcache]
    by_cases hflag : (s.tcb s.currentTask).stacksize &&& MASK_SYSTEM_STACK ≠ 0
    · have hown : s.stackHeld s.currentTask = some ⟨(s.tcb s.currentTask).stackaddr,
          (s.tcb s.currentTask).stacksize &&& ~~~15#32⟩ := (if_pos h.live).trans (if_pos hflag)
      rw [show s.exitCache = _ from if_pos hflag]
      exact hs.slots.put (hs.tasks _ _ hown)
    · rw [show s.exitCache = _ from if_neg hflag]
      exact hs.slots
  · rw [hheld] at ht
    by_cases htc : t = s.currentTask
    · subst htc
      rw [Function.update_self] at ht
      cases ht
    · rw [Function.update_of_ne htc] at ht
      exact hs.tasks t r ht

theorem Inv.stacksOK_step (h : Inv b s) (hs : StacksOK s) (he : s.step m = some s') :
    StacksOK s' := by
  by_cases hu : usesStack m = true
  · unfold Sched.step at he
    split at he
    case isFalse => cases he
    case isTrue hp =>
      cases m with
      | call c =>
        cases c with
        | create stackaddr n env =>
          obtain rfl := Option.some.inj he
          have hp := (Bool.and_eq_true_iff.1 hp).1
          exact h.stacksOK_create hs (Bool.and_eq_true_iff.1 hp).1
        | _ => cases hu
      | exit =>
        obtain rfl := Option.some.inj he
        exact h.stacksOK_exit hs
      | _ => cases hu
  · obtain ⟨hcache, hheld⟩ := h.sameStacks_trs (h.trs_step he) (by simpa using hu)
    exact ⟨hcache ▸ hs.slots, hheld ▸ hs.tasks⟩

theorem stacksOK_boot (b : Boot) : StacksOK (boot b) := by
  refine ⟨⟨fun i hi => ?_, fun i hi hbit => ?_⟩, fun t r ht => ?_⟩
  · show (0xFF#32).getLsbD i = false
    rw [BitVec.getLsbD_ofNat, show (0xFF : Nat) = 2 ^ 8 - 1 from rfl, Nat.testBit_two_pow_sub_one]
    simp [not_lt.2 hi]
  · have hset : (0xFF#32).getLsbD i = true := by
      rw [BitVec.getLsbD_ofNat, show (0xFF : Nat) = 2 ^ 8 - 1 from rfl, Nat.testBit_two_pow_sub_one]
      simp only [Bool.and_eq_true, decide_eq_true_eq]
      omega
    exact absurd (hset.symm.trans hbit) nofun
  · have hmain : stackOf ((boot b).tcb b.maintask) = none := by simp [stackOf, boot]
    by_cases htm : t = b.maintask
    · subst htm
      simp [stackHeld, hmain] at ht
    · have hl : t ∉ (boot b).live := by simpa [boot] using htm
      simp [stackHeld, hl] at ht

end Sched

/-! ## Runs -/

theorem reachable_stacksOK {b : Boot} {s : Sched} (h : Reachable b s) : s.StacksOK :=
  h.invariant_of (I := Sched.Inv b) (Sched.inv_boot b) (Sched.stacksOK_boot b)
    (fun _ _ _ hi _ hs => hi.step hs) fun _ _ _ hi hp _ hs => hi.stacksOK_step hp hs

/-- **When the exit of a task treats the cache rightly.** In every reachable state, the stack that an
exiting task gives back is stored in one free slot, or makes a cached stack be unmapped when there is
none, exactly if the masks show a free slot other than the first global one or all slots hold
stacks. -/
theorem reachable_putRight_iff {b : Boot} {s s' : Sched} {r : Slot} (h : Reachable b s)
    (hr : s.stackHeld s.currentTask = some r) (hs : s.step .exit = some s') :
    s'.cache = s.cache.put r.stackbase r.stacksize ∧ (PutRight s.cache r ↔ SlotFound s.cache) := by
  have hok := reachable_stacksOK h
  refine ⟨?_, hok.slots.putRight_iff (hok.tasks _ _ hr)⟩
  unfold Sched.step at hs
  split at hs
  · obtain rfl := Option.some.inj hs
    rw [(Sched.exit_stacks h.inv).1]
    have hown : Sched.stackOf (s.tcb s.currentTask) = some r := (if_pos h.inv.live).symm.trans hr
    unfold Sched.stackOf at hown
    split at hown
    · next hflag =>
      cases hown
      exact if_pos hflag
    · cases hown
  · cases hs

/-- `n` tasks get new stacks of 64 KiB, the first of them is current. -/
def tasksRun (n : Nat) : List Move :=
  requestStack 65536 { malloc := some 100, mmap := some 0x100000 } ::
  (List.range (n - 1)).map (fun i =>
    requestStack 65536 { mmap := some (BitVec.ofNat 64 (65536 * (i + 1))) }) ++
  [.schedulerStart, .schedulerPass, .schedulerExhaust]

set_option maxRecDepth 4000 in
theorem tasksRun_putRight : ∃ s s' r, (tasksRun 2).foldlM Sched.step (boot {}) = some s ∧
    s.stackHeld s.currentTask = some r ∧ s.step .exit = some s' ∧
    s'.cache = s.cache.put r.stackbase r.stacksize ∧ PutRight s.cache r := by
  have hrun : (((tasksRun 2).foldlM Sched.step (boot {})).map fun s =>
      (s.stackHeld s.currentTask, s.permitted .exit, ffs s.cache.cachedStackMask)) =
        some (some ⟨0x100000, 65536⟩, true, 1) := by decide +kernel
  obtain ⟨s, hs, hl⟩ := Option.map_eq_some_iff.1 hrun
  simp only [Prod.mk.injEq] at hl
  obtain ⟨hr, hp, hffs⟩ := hl
  have hstep : s.step .exit = some s.cppTaskmain := if_pos hp
  obtain ⟨hc, hiff⟩ := reachable_putRight_iff (Reach.of_foldlM hs) hr hstep
  exact ⟨s, _, _, hs, hr, hstep, hc, hiff.2 (.inl (by rw [hffs]; decide))⟩

/-- Nine tasks; the first eight of them have exited. -/
def nineRun : List Move := tasksRun 9 ++ (List.replicate 8 [.exit, .schedulerExhaust]).flatten

set_option maxRecDepth 8000 in
/-- The ninth exit unmaps a cached stack although the global table is empty. -/
theorem nineRun_not_putRight : ∃ s r old, nineRun.foldlM Sched.step (boot {}) = some s ∧
    s.permitted .exit = true ∧ s.stackHeld s.currentTask = some r ∧
    unmaps s.cache r.stackbase = some old ∧ GlobalEmpty s.cache ∧ ¬PutRight s.cache r := by
  have hrun : ((nineRun.foldlM Sched.step (boot {})).map fun s : Sched =>
      (s.permitted .exit, s.stackHeld s.currentTask,
        (s.stackHeld s.currentTask).bind fun r => unmaps s.cache r.stackbase,
        decide (GlobalEmpty s.cache))) =
      some (true, some ⟨0x80000, 65536⟩, some ⟨0x100000, 65536⟩, true) := by decide +kernel
  obtain ⟨s, hs, hl⟩ := Option.map_eq_some_iff.1 hrun
  simp only [Prod.mk.injEq, decide_eq_true_eq] at hl
  obtain ⟨hp, hr, hu, hg⟩ := hl
  rw [hr] at hu
  refine ⟨s, _, _, hs, hp, hr, hu, hg, fun hput => ?_⟩
  exact (hput.unmaps _ hu).2 0 (by decide) (hg 0 (by decide))

end Ptask.OneN
