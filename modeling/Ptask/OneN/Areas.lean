import Ptask.Context.Start
import Ptask.Create.Stacks
import Ptask.OneN.Eviction

/-!
# The memory of the tasks

Control blocks and stacks lie in memory, and the task that runs writes to it. As long as no stack is
handed out twice, the memory of a task is apart from that of every other live task (`TasksApart`);
what `fiber_create` has prepared for a task is then still there when the task is switched to
(`Elsewhere.apart`).
-/

namespace Ptask.OneN

open Ptask.Lib Ptask.Context
open Create (stackBytes roundUp Flagged toNat_stackBytes)

/-! ## Where things lie -/

/-- The addresses of the control blocks and of the save areas in them, and the stack of the thread
itself, on which the maintask runs. -/
structure Areas (b : Boot) where
  blocks : Set TaskId
  tcb : TaskId → Word
  regs : TaskId → Word
  mainStack : Set Word
  maintask : b.maintask ∈ blocks
  disjoint : blocks.Pairwise fun t u => Disjoint (area (regs t)) (area (regs u))
  apart : ∀ t ∈ blocks, Disjoint (area (regs t)) mainStack

/-- The addresses of a stack; the flag in its size does not count. -/
def stackMemory (r : Slot) : Set Word := span r.stackbase (stackBytes r.stacksize).toNat

namespace Areas

variable {b : Boot} (A : Areas b)

def stack (s : Sched) (t : TaskId) : Set Word :=
  if t = b.maintask then A.mainStack
  else stackMemory ⟨(s.tcb t).stackaddr, (s.tcb t).stacksize⟩

/-- The memory of a task: its save area and its stack. -/
def owned (s : Sched) (t : TaskId) : Set Word := area (A.regs t) ∪ A.stack s t

/-- The control block of a new task is one of the control blocks, and a region that `mmap` returns is
apart from all memory in use. -/
def Fresh (s : Sched) : Move → Prop
  | .call (.create _ n env) =>
    (∀ t, (s.pool.alloc env.malloc).1 = some t → t ∈ A.blocks) ∧
      ∀ a, env.mmap = some a →
        Disjoint (stackMemory ⟨a, roundUp n⟩) A.mainStack ∧
        (∀ t ∈ A.blocks, Disjoint (area (A.regs t)) (stackMemory ⟨a, roundUp n⟩)) ∧
        ∀ r ∈ s.cache.mapped, Disjoint (stackMemory ⟨a, roundUp n⟩) (stackMemory r)
  | _ => True

end Areas

/-! ## What callers and `mmap` keep to -/

def FIBER_STACKSIZE_MIN : Nat := 8192

/-- A stack of the caller has the least size, and no region of length 0 is mapped. -/
def saneCreate : Move → Bool
  | .call (.create stackaddr n env) =>
    if stackaddr = 0 then roundUp n ≠ 0 || env.mmap.isNone else FIBER_STACKSIZE_MIN ≤ n.toNat
  | _ => true

/-- No stack is handed out twice (`KeepsStacks`), and memory is allocated as it should be. -/
def KeepsMemory {b : Boot} (A : Areas b) (s : Sched) (m : Move) : Prop :=
  saneCreate m = true ∧ KeepsStacks s m ∧ A.Fresh s m

/-! ## Stacks -/

section

variable {b : Boot} {A : Areas b} {c c' : StackCache} {r : Slot} {z n : BitVec 32} {env : AllocEnv}
  {m t : TaskId}

theorem stackBytes_stackBytes (z : BitVec 32) : stackBytes (stackBytes z) = stackBytes z := by
  apply BitVec.eq_of_toNat_eq
  rw [toNat_stackBytes, toNat_stackBytes]
  omega

theorem stackMemory_stackBytes (a : Addr) (z : BitVec 32) :
    stackMemory ⟨a, stackBytes z⟩ = stackMemory ⟨a, z⟩ := by
  unfold stackMemory
  rw [stackBytes_stackBytes]

/-- The regions that are mapped are apart from each other and from everything else. -/
structure Spread (A : Areas b) (c : StackCache) : Prop where
  mainStack : ∀ r ∈ c.mapped, Disjoint (stackMemory r) A.mainStack
  areas : ∀ r ∈ c.mapped, ∀ t ∈ A.blocks, Disjoint (area (A.regs t)) (stackMemory r)
  regions : ∀ r ∈ c.mapped, ∀ q ∈ c.mapped, r ≠ q → Disjoint (stackMemory r) (stackMemory q)

theorem Spread.of_subset (h : Spread A c) (hm : ∀ r ∈ c'.mapped, r ∈ c.mapped) : Spread A c' where
  mainStack r hr := h.mainStack r (hm r hr)
  areas r hr := h.areas r (hm r hr)
  regions r hr q hq := h.regions r (hm r hr) q (hm q hq)

theorem Spread.cons (h : Spread A c) (hmain : Disjoint (stackMemory r) A.mainStack)
    (hareas : ∀ t ∈ A.blocks, Disjoint (area (A.regs t)) (stackMemory r))
    (hregions : ∀ q ∈ c.mapped, Disjoint (stackMemory r) (stackMemory q))
    (hm : c'.mapped = r :: c.mapped) : Spread A c' where
  mainStack q hq := by
    rw [hm] at hq
    rcases List.mem_cons.1 hq with rfl | hq
    · exact hmain
    · exact h.mainStack q hq
  areas q hq := by
    rw [hm] at hq
    rcases List.mem_cons.1 hq with rfl | hq
    · exact hareas
    · exact h.areas q hq
  regions p hp q hq hne := by
    rw [hm] at hp hq
    rcases List.mem_cons.1 hp with hpr | hpc
    · rcases List.mem_cons.1 hq with hqr | hqc
      · exact absurd (hpr.trans hqr.symm) hne
      · exact hpr ▸ hregions q hqc
    · rcases List.mem_cons.1 hq with hqr | hqc
      · exact hqr ▸ (hregions p hpc).symm
      · exact h.regions p hpc q hqc hne

/-- `fiber_stackcache_get` maps at most what `mmap` returns. -/
theorem mapped_get : (c.get (some m) z env).1.mapped = c.mapped ∨
    ∃ a, env.mmap = some a ∧ (c.get (some m) z env).1.mapped = ⟨a, z⟩ :: c.mapped := by
  unfold StackCache.get
  split
  · exact .inl rfl
  · split
    · exact .inl rfl
    · unfold StackCache.mmap
      split
      · exact .inl rfl
      · next a ha =>
        split
        · exact .inl rfl
        · exact .inr ⟨a, ha, rfl⟩

theorem mem_mapped_put {a : Addr} (hr : r ∈ (c.put a z).mapped) : r ∈ c.mapped := by
  rw [put_mapped] at hr
  split at hr
  · exact List.mem_of_mem_erase hr
  · exact hr

end

/-! ## Who is there -/

namespace Sched

variable {b : Boot} {m : Move} {s s' : Sched} {t v : TaskId} {r : Slot}

/-- The control block of a new task is the one that `tcb_alloc` hands out. -/
theorem alloc_of_create {stackaddr : Addr} {n : BitVec 32} {env : AllocEnv} (hnew : t ∉ s.live)
    (hlive : t ∈ (s.fiberCreate stackaddr n env).live) : (s.pool.alloc env.malloc).1 = some t := by
  unfold fiberCreate at hlive
  dsimp only at hlive
  cases ha : (s.pool.alloc env.malloc).1 with
  | none =>
    rw [ha] at hlive
    exact absurd hlive hnew
  | some w =>
    rw [ha] at hlive
    dsimp only at hlive
    have hcons (htw : t ∈ w :: s.live) : some w = some t := by
      rcases List.mem_cons.1 htw with rfl | htw
      · rfl
      · exact absurd htw hnew
    repeat' split at hlive
    all_goals first
      | exact absurd hlive hnew
      | exact hcons hlive

theorem live_exit (h : Inv b s) : s.cppTaskmain.live = s.live.erase s.currentTask := by
  rw [cppTaskmain_eq h.idle]
  exact live_arrive

theorem Inv.maintask_live (h : Inv b s) : s.theMaintask ∈ s.live := by
  obtain ⟨l, hr⟩ := h.ready
  exact (h.stand _).live_of_ready (by simp [chain, hr])

/-- A task keeps what it has to give back until it exits. -/
theorem Inv.held_step (h : Inv b s) (ht : t ∈ s.live) (hm : m = .exit → s.currentTask ≠ t)
    (hs : s.step m = some s') : t ∈ s'.live ∧ s'.stackHeld t = s.stackHeld t := by
  by_cases hu : usesStack m = true
  · unfold Sched.step at hs
    split at hs
    case isFalse => cases hs
    case isTrue hp =>
      cases m with
      | call c =>
        cases c with
        | create stackaddr n env =>
          obtain rfl := Option.some.inj hs
          have hp := (Bool.and_eq_true_iff.1 hp).1
          obtain ⟨hl, -, hheld⟩ | ⟨w, hw, -, ⟨-, hl, hheld⟩ | ⟨-, hl, -, hheld⟩⟩ :=
            h.create_stacks stackaddr n (Bool.and_eq_true_iff.1 hp).1
          · exact ⟨hl ▸ ht, congrFun hheld t⟩
          · exact ⟨hl ▸ ht, congrFun hheld t⟩
          · refine ⟨hl ▸ List.mem_cons_of_mem _ ht, ?_⟩
            rw [hheld, Function.update_of_ne (ne_of_mem_of_not_mem ht hw)]
        | _ => cases hu
      | exit =>
        obtain rfl := Option.some.inj hs
        have hlive : s.cppTaskmain.live = s.live.erase s.currentTask := live_exit h
        refine ⟨hlive ▸ (List.mem_erase_of_ne (hm rfl).symm).2 ht, ?_⟩
        rw [(exit_stacks h).2, Function.update_of_ne (hm rfl).symm]
      | _ => cases hu
  · have hu : usesStack m = false := by simpa using hu
    exact ⟨(h.trs_step hs).members.2 hu ▸ ht,
      congrFun (h.sameStacks_trs (h.trs_step hs) hu).held t⟩

/-- The stack of a task that was just created. -/
theorem Inv.create_new {s₁ : Sched} {stackaddr : Addr} {n : BitVec 32} {env : AllocEnv}
    (h : Inv b s)
    (hcreate : s.step (.call (.create stackaddr n env)) = some s₁) (hnew : t ∉ s.live)
    (hlive : t ∈ s₁.live) :
    let stack := (s.newStack stackaddr n env).2
    stack.stackbase ≠ 0 ∧ s₁.tcb t = s.newTcb t stack ∧
      s₁.stackHeld t = stackOf (s₁.tcb t) := by
  unfold Sched.step at hcreate
  split at hcreate
  case isFalse => cases hcreate
  case isTrue hp =>
    have hp := (Bool.and_eq_true_iff.1 hp).1
    obtain rfl := Option.some.inj hcreate
    obtain ⟨hl, -, -⟩ | ⟨w, hw, -, hmade⟩ :=
      h.create_stacks stackaddr n (Bool.and_eq_true_iff.1 hp).1
    · exact absurd (hl ▸ hlive) hnew
    · obtain ⟨-, hl, -⟩ | ⟨hz, hl, htcb, -⟩ := hmade
      · exact absurd (hl ▸ hlive) hnew
      · obtain rfl : t = w := (List.mem_cons.1 (hl ▸ hlive)).resolve_right hnew
        exact ⟨hz, htcb, if_pos hlive⟩

end Sched

/-! ## No memory is shared -/

open Sched

variable {b : Boot} {A : Areas b} {X : Set TaskId} {m : Move} {s s' s₁ : Sched} {t v : TaskId}
  {r : Slot}

/-- Stacks have one owner each, and what is mapped is apart. The tasks outside `X` are on stacks of
the library. -/
structure TasksApart (A : Areas b) (X : Set TaskId) (s : Sched) : Prop where
  inv : Inv b s
  owned : StacksOwned s
  cache : CacheOK s.cache
  spread : Spread A s.cache
  maintask : s.theMaintask = b.maintask
  blocks : ∀ t ∈ s.live, t ∈ A.blocks
  library : ∀ t ∈ s.live, t ∉ X → s.stackHeld t ≠ none

/-- The stack that a task holds is the one it runs on. -/
theorem stack_of_held (hr : s.stackHeld t = some r) (ht : t ≠ b.maintask) :
    A.stack s t = stackMemory r := by
  unfold stackHeld stackOf at hr
  split at hr
  · split at hr
    · cases hr
      rw [Areas.stack, if_neg ht]
      exact (stackMemory_stackBytes _ _).symm
    · cases hr
  · cases hr

/-- A task that lives beside `t` owns nothing of its save area, nor of its stack if that is one of the
library. -/
theorem TasksApart.disjoint (h : TasksApart A X s) (ht : t ∈ s.live) (hv : v ∈ s.live) (hne : v ≠ t)
    (hX : v = b.maintask ∨ v ∉ X) :
    Disjoint (area (A.regs t)) (A.owned s v) ∧
      ∀ r, s.stackHeld t = some r → Disjoint (stackMemory r) (A.owned s v) := by
  have howner {t : TaskId} {r : Slot} (hr : s.stackHeld t = some r) :
      s.holding (.task t) = some r := hr
  have hmem {t : TaskId} {r : Slot} (hr : s.stackHeld t = some r) : r ∈ s.cache.mapped :=
    h.owned.mem (howner hr)
  have hstack : A.stack s v = A.mainStack ∨
      ∃ q, s.stackHeld v = some q ∧ A.stack s v = stackMemory q := by
    by_cases hmain : v = b.maintask
    · exact .inl (if_pos hmain)
    · obtain ⟨q, hq⟩ := Option.ne_none_iff_exists'.1 (h.library v hv (hX.resolve_left hmain))
      exact .inr ⟨q, hq, stack_of_held hq hmain⟩
  have hareas := A.disjoint (h.blocks t ht) (h.blocks v hv) hne.symm
  unfold Areas.owned
  refine ⟨Set.disjoint_union_right.2 ⟨hareas, ?_⟩, fun r hr => Set.disjoint_union_right.2
    ⟨(h.spread.areas r (hmem hr) v (h.blocks v hv)).symm, ?_⟩⟩
  · rcases hstack with hs | ⟨q, hq, hs⟩
    · exact hs ▸ A.apart t (h.blocks t ht)
    · exact hs ▸ h.spread.areas q (hmem hq) t (h.blocks t ht)
  · rcases hstack with hs | ⟨q, hq, hs⟩
    · exact hs ▸ h.spread.mainStack r (hmem hr)
    · have hrq : r ≠ q := by
        rintro rfl
        exact hne (Owner.task.inj (h.owned.inj (howner hr) (howner hq))).symm
      exact hs ▸ h.spread.regions r (hmem hr) q (hmem hq) hrq

/-! ## Steps -/

theorem Spread.newStack {stackaddr : Addr} {n : BitVec 32} {env : AllocEnv} (h : Spread A s.cache)
    (hf : A.Fresh s (.call (.create stackaddr n env))) :
    Spread A (s.newStack stackaddr n env).1 := by
  unfold Sched.newStack
  split
  · rcases @mapped_get s.cache (roundUp n) env s.theMaintask with hm | ⟨a, ha, hm⟩
    · exact h.of_subset fun r hr => hm ▸ hr
    · obtain ⟨hmain, hareas, hregions⟩ := hf.2 a ha
      exact h.cons hmain hareas hregions hm
  · exact h

/-- A new task whose stack the caller provides belongs to `X`. -/
theorem TasksApart.create {stackaddr : Addr} {n : BitVec 32} {env : AllocEnv} (h : TasksApart A X s)
    (hf : A.Fresh s (.call (.create stackaddr n env)))
    (hs : s.step (.call (.create stackaddr n env)) = some s')
    (how : StacksOwned s' ∧ CacheOK s'.cache)
    (hX : ∀ t ∈ s'.live, t ∉ s.live → t ∉ X → stackOf (s'.tcb t) ≠ none) : TasksApart A X s' := by
  have hinv := h.inv.step hs
  have hmain := (h.inv.trs_step hs).members.1
  unfold Sched.step at hs
  split at hs
  case isFalse => cases hs
  case isTrue hp =>
    obtain rfl := Option.some.inj hs
    have hp := (Bool.and_eq_true_iff.1 hp).1
    have hspec := h.inv.create_stacks stackaddr n (Bool.and_eq_true_iff.1 hp).1
    have hnewStack := h.spread.newStack hf
    dsimp only at hspec
    refine ⟨hinv, how.1, how.2, ?_, hmain.trans h.maintask, ?_, ?_⟩
    · obtain ⟨-, hc, -⟩ | ⟨w, -, hc, -⟩ := hspec
      · exact hc ▸ h.spread
      · exact hc ▸ hnewStack
    · intro t ht
      by_cases hold : t ∈ s.live
      · exact h.blocks t hold
      · exact hf.1 t (alloc_of_create hold ht)
    · intro t ht htX
      by_cases hold : t ∈ s.live
      · have hkept : (s.fiberCreate stackaddr n env).stackHeld t = s.stackHeld t := by
          obtain ⟨-, -, hheld⟩ | ⟨w, hw, -, ⟨-, -, hheld⟩ | ⟨-, -, -, hheld⟩⟩ := hspec
          · rw [hheld]
          · rw [hheld]
          · rw [hheld, Function.update_of_ne (ne_of_mem_of_not_mem hold hw)]
        rw [hkept]
        exact h.library t hold htX
      · unfold stackHeld
        rw [if_pos ht]
        exact hX t ht hold htX

theorem TasksApart.exit (h : TasksApart A X s) (hok : KeepsStacks s .exit)
    (hs : s.step .exit = some s') : TasksApart A X s' := by
  have hinv := h.inv.step hs
  have hmain := (h.inv.trs_step hs).members.1
  have how := h.inv.stacks_step h.owned h.cache hs hok
  unfold Sched.step at hs
  split at hs
  case isFalse => cases hs
  case isTrue hp =>
    obtain rfl := Option.some.inj hs
    have hcur : s.cppTaskmain.live = s.live.erase s.currentTask := live_exit h.inv
    obtain ⟨hcache, hheld⟩ := exit_stacks h.inv
    refine ⟨hinv, how.1, how.2, ?_, hmain.trans h.maintask, ?_, ?_⟩
    · rw [hcache]
      refine h.spread.of_subset fun r hr => ?_
      unfold exitCache at hr
      dsimp only at hr
      split at hr
      · exact mem_mapped_put hr
      · exact hr
    · intro t ht
      rw [hcur] at ht
      exact h.blocks t (List.mem_of_mem_erase ht)
    · intro t ht htX
      rw [hcur] at ht
      have hne : t ≠ s.currentTask := (h.inv.lives.mem_erase_iff.1 ht).1
      rw [hheld, Function.update_of_ne hne]
      exact h.library t (List.mem_of_mem_erase ht) htX

/-- A stack that `fiber_create` has taken from the library is flagged. -/
theorem stackOf_newTcb {n : BitVec 32} {env : AllocEnv} :
    stackOf (s.newTcb t (s.newStack 0 n env).2) ≠ none := by
  have hflag : (s.newTcb t (s.newStack 0 n env).2).stacksize &&& MASK_SYSTEM_STACK ≠ 0 :=
    Create.flag_or_ne_zero _
  rw [show stackOf (s.newTcb t (s.newStack 0 n env).2) = some _ from if_pos hflag]
  nofun

/-- **A move keeps the memory of the tasks apart**, if it hands out no stack twice. -/
theorem TasksApart.step (h : TasksApart A X s) (hok : KeepsMemory A s m) (hs : s.step m = some s') :
    TasksApart A X s' := by
  obtain ⟨-, hkeeps, hfresh⟩ := hok
  have how := h.inv.stacks_step h.owned h.cache hs hkeeps
  have hmembers := (h.inv.trs_step hs).members
  have keep (hm : usesStack m = false) : TasksApart A X s' := by
    obtain ⟨hcache, hheld⟩ := h.inv.sameStacks_trs (h.inv.trs_step hs) hm
    exact ⟨h.inv.step hs, how.1, how.2, hcache ▸ h.spread, hmembers.1.trans h.maintask,
      hmembers.2 hm ▸ h.blocks, by rw [hmembers.2 hm, hheld]; exact h.library⟩
  cases m with
  | call c =>
    cases c with
    | create stackaddr n env =>
      obtain rfl : stackaddr = 0 := by simpa [Move.ownStack] using hkeeps.1
      refine h.create hfresh hs how fun t ht hnew _ => ?_
      obtain ⟨-, htcb, -⟩ := h.inv.create_new hs hnew ht
      rw [htcb]
      exact stackOf_newTcb
    | _ => exact keep rfl
  | exit => exact h.exit hkeeps hs
  | _ => exact keep rfl

theorem apart_boot (A : Areas b) : TasksApart A {b.maintask} (boot b) where
  inv := inv_boot b
  owned := (stacksOwned_boot b).1
  cache := (stacksOwned_boot b).2
  spread := ⟨nofun, nofun, nofun⟩
  maintask := rfl
  blocks t ht := by
    obtain rfl := List.mem_singleton.1 ht
    exact A.maintask
  library t ht hX := absurd (List.mem_singleton.1 ht) hX

theorem reach_apart (h : Reach Sched.step (KeepsMemory A) (boot b) s) :
    TasksApart A {b.maintask} s :=
  h.invariant (apart_boot A) fun _ _ _ ha hok hs => ha.step hok hs

/-! ## While a task is not switched to -/

/-- What the task that runs may write during a move: its own memory, that of a task which it creates,
and memory that belongs to no task. -/
def Writes {b : Boot} (A : Areas b) (s s' : Sched) (mem mem' : Memory) : Prop :=
  ∀ x, mem' x ≠ mem x → x ∈ A.owned s s.currentTask ∨
    (∃ t ∈ s'.live, t ∉ s.live ∧ x ∈ A.owned s' t) ∨ ∀ t ∈ s.live, x ∉ A.owned s t

/-- The moves that are made while `t` is not switched to, and what they leave in memory. -/
inductive Elsewhere {b : Boot} (A : Areas b) (t : TaskId) (s₁ : Sched) (mem₁ : Memory) :
    Sched → Memory → Prop
  | refl : Elsewhere A t s₁ mem₁ s₁ mem₁
  | step {s s' : Sched} {m : Move} {mem mem' : Memory} (head : Elsewhere A t s₁ mem₁ s mem)
      (hcur : s.currentTask ≠ t) (hok : KeepsMemory A s m) (hs : s.step m = some s')
      (hw : Writes A s s' mem mem') : Elsewhere A t s₁ mem₁ s' mem'

/-- What a task holds of memory: its save area, and its stack if that is one of the library. -/
def kept {b : Boot} (A : Areas b) (s : Sched) (t : TaskId) : Set Word :=
  area (A.regs t) ∪ (s.stackHeld t).elim ∅ stackMemory

/-- The task `t` is not the maintask, and every other task is on a stack of the library. -/
structure Beside {b : Boot} (A : Areas b) (t : TaskId) (s : Sched) : Prop where
  apart : TasksApart A {b.maintask, t} s
  live : t ∈ s.live
  ne : t ≠ b.maintask

theorem Beside.disjoint (h : Beside A t s) (hv : v ∈ s.live) (hne : v ≠ t) :
    Disjoint (kept A s t) (A.owned s v) := by
  have hX : v = b.maintask ∨ v ∉ ({b.maintask, t} : Set TaskId) := by
    by_cases hmain : v = b.maintask
    · exact .inl hmain
    · exact .inr (by simp [hmain, hne])
  obtain ⟨harea, hstack⟩ := h.apart.disjoint h.live hv hne hX
  unfold kept
  rw [Set.disjoint_union_left]
  refine ⟨harea, ?_⟩
  cases hr : s.stackHeld t with
  | none => exact Set.empty_disjoint _
  | some r => exact hstack r hr

theorem Beside.kept_subset (h : Beside A t s) : kept A s t ⊆ A.owned s t := by
  refine Set.union_subset_union_right _ ?_
  cases hr : s.stackHeld t with
  | none => exact Set.empty_subset _
  | some r => exact (stack_of_held hr h.ne).ge

theorem Beside.step (h : Beside A t s) (hcur : s.currentTask ≠ t) (hok : KeepsMemory A s m)
    (hs : s.step m = some s') : Beside A t s' ∧ kept A s' t = kept A s t := by
  obtain ⟨hlive, hheld⟩ := h.apart.inv.held_step h.live (fun _ => hcur) hs
  refine ⟨⟨h.apart.step hok hs, hlive, h.ne⟩, ?_⟩
  unfold kept
  rw [hheld]

/-- A move of another task writes nothing of what `t` holds. -/
theorem Beside.mem_step {mem mem' : Memory} (h : Beside A t s) (hcur : s.currentTask ≠ t)
    (hok : KeepsMemory A s m) (hs : s.step m = some s') (hw : Writes A s s' mem mem') {x : Word}
    (hx : x ∈ kept A s t) : mem' x = mem x := by
  obtain ⟨h', hkept⟩ := h.step hcur hok hs
  by_contra hne
  rcases hw x hne with hown | ⟨v, hv, hnew, hown⟩ | hnone
  · exact Set.disjoint_left.1 (h.disjoint h.apart.inv.live hcur) hx hown
  · have hvt : v ≠ t := fun he => hnew (he ▸ h.live)
    exact Set.disjoint_left.1 (h'.disjoint hv hvt) (hkept ▸ hx) hown
  · exact hnone t h.live (h.kept_subset hx)

/-- **What a task holds stays as it is** while the task is not switched to. -/
theorem Elsewhere.apart {mem₁ mem : Memory} (h : Elsewhere A t s₁ mem₁ s mem)
    (h₁ : Beside A t s₁) :
    Beside A t s ∧ kept A s t = kept A s₁ t ∧ ∀ x ∈ kept A s₁ t, mem x = mem₁ x := by
  induction h with
  | refl => exact ⟨h₁, rfl, fun _ _ => rfl⟩
  | step head hcur hok hs hw ih =>
    obtain ⟨hb, hkept, hmem⟩ := ih
    obtain ⟨hb', hkept'⟩ := hb.step hcur hok hs
    refine ⟨hb', hkept'.trans hkept, fun x hx => ?_⟩
    rw [hb.mem_step hcur hok hs hw (hkept ▸ hx), hmem x hx]

end Ptask.OneN
