import Ptask.OneN.Areas

/-!
# From the first switch to a task to its exit

The flag in the size of a stack tells `fiber_create` to put the start address on it, and
`cpp_taskmain` to put the stack into the cache. For a stack of the caller the flag is whatever the
lowest bit of the given size is: without it the task does not begin, and with it the library keeps
the stack at the end.
-/

namespace Ptask.OneN

open Ptask.Lib Ptask.Context
open Create (stackBytes roundUp Flagged toNat_stackBytes)

/-! ## Storing and taking a stack -/

section

variable {f : TaskId → Option Slot} {c c' : StackCache} {r : Slot} {o : Owner} {z : BitVec 32}
  {env : AllocEnv} {m : TaskId}

/-- Some slots hold `r` now, the others what they held. -/
structure Stored (f : TaskId → Option Slot) (c c' : StackCache) (r : Slot) : Prop where
  each : ∀ o, hold f c' o = some r ∨ hold f c' o = hold f c o
  some : ∃ o, hold f c' o = some r

theorem stored_of_update (h : hold f c' = Function.update (hold f c) o (some r)) :
    Stored f c c' r := by
  refine ⟨fun o' => ?_, o, by rw [h, Function.update_self]⟩
  by_cases ho : o' = o
  · subst ho
    exact .inl (by rw [h, Function.update_self])
  · exact .inr (by rw [h, Function.update_of_ne ho])

theorem Stored.trans {c'' : StackCache} (h : Stored f c c' r) (h' : Stored f c' c'' r) :
    Stored f c c'' r := by
  refine ⟨fun o => ?_, h'.some⟩
  rcases h'.each o with he | he
  · exact .inl he
  · rw [he]
    exact h.each o

/-- An occupied local slot is given to `r`. -/
theorem stored_evict (hm : ffs c.cachedStackMask = 0) (hr : r.stackbase ≠ 0) (l : List Slot) :
    Stored f c { c with
      cachedStack := Function.update c.cachedStack (evictIndex r.stackbase) r, mapped := l } r := by
  apply stored_of_update (o := .localSlot (evictIndex r.stackbase))
  rw [← hold_replaceLocal (evictIndex_lt r.stackbase) (ffs_of_zero hm _) hr]
  exact hold_mapped (c := { c with
    cachedStack := Function.update c.cachedStack (evictIndex r.stackbase) r }) l

/-- **`fiber_stackcache_put` stores the stack**, wherever it finds room for it. -/
theorem SlotsOK.stored (h : SlotsOK c) (hr : r.stackbase ≠ 0) :
    Stored f c (c.put r.stackbase r.stacksize) r := by
  by_cases hl : ffs c.cachedStackMask = 0
  · by_cases hg : 2 ≤ ffs c.globalCachedStackMask
    · obtain ⟨i, hi⟩ := Nat.exists_eq_succ_of_ne_zero (show ffs c.globalCachedStackMask ≠ 0 by omega)
      rw [put_eq_global hl hi (by omega)]
      exact stored_of_update (hold_fillGlobal (ffs_spec hi).1 hr)
    · obtain hg | hg : ffs c.globalCachedStackMask = 0 ∨ ffs c.globalCachedStackMask = 1 := by omega
      · obtain ⟨l, hput⟩ := put_eq_evict (r := r) hl hg
        rw [hput]
        exact stored_evict hl hr l
      · obtain ⟨l, hput⟩ := put_eq_both (r := r) hl hg
        rw [hput]
        exact (stored_of_update (hold_fillGlobal (ffs_spec hg).1 hr)).trans (stored_evict
          (c := { c with
            globalCachedStackMask := c.globalCachedStackMask &&& ~~~(1#64 <<< 0)
            globalCachedStack := Function.update c.globalCachedStack 0 r }) hl hr l)
  · obtain ⟨i, hi⟩ := Nat.exists_eq_succ_of_ne_zero hl
    rw [put_eq_local hi]
    exact stored_of_update (hold_fillLocal (h.lt_of_ffs hi) hr)

/-- `fiber_stackcache_get` only frees slots. -/
theorem get_frees (h : cached (c.get (some m) z env).1 o = some r) : cached c o = some r := by
  have hfreed (p : Owner) {g : Owner → Option Slot} (hg : g = Function.update (cached c) p none)
      (ho : g o = some r) : cached c o = some r := by
    rw [hg] at ho
    by_cases hop : o = p
    · subst hop
      rw [Function.update_self] at ho
      cases ho
    · rwa [Function.update_of_ne hop] at ho
  unfold StackCache.get at h
  split at h
  · next i hi =>
    obtain ⟨_, -, hfind⟩ := Option.bind_eq_some_iff.1 hi
    exact hfreed _ (hold_freeLocal (StackCache.findLocal_spec hfind).1) h
  · split at h
    · next i hi => exact hfreed _ (hold_freeGlobal (StackCache.findGlobal_spec hi).1) h
    · unfold StackCache.mmap at h
      split at h
      · exact h
      · split at h
        · exact h
        · rwa [cached, hold_mapped] at h

/-- What `fiber_stackcache_get` returns was cached, or is a new region of the size asked for. -/
theorem get_from (hr : (c.get (some m) z env).2.stackbase ≠ 0) :
    (∃ o, cached c o = some (c.get (some m) z env).2) ∨
      (c.get (some m) z env).2.stacksize = z ∧ env.mmap ≠ none := by
  unfold StackCache.get at hr ⊢
  split at hr
  · next i hi =>
    obtain ⟨_, -, hfind⟩ := Option.bind_eq_some_iff.1 hi
    obtain ⟨hlt, hbit⟩ := StackCache.findLocal_spec hfind
    refine .inl ⟨.localSlot i, ?_⟩
    simp only [cached, hold, hlt, hbit, and_self, if_true]
    exact regionOf_of_ne hr
  · split at hr
    · next i hg =>
      obtain ⟨hlt, hbit⟩ := StackCache.findGlobal_spec hg
      refine .inl ⟨.globalSlot i, ?_⟩
      simp only [cached, hold, hlt, hbit, and_self, if_true]
      exact regionOf_of_ne hr
    · refine .inr ⟨Create.mmap_stacksize, fun hm => hr ?_⟩
      unfold StackCache.mmap
      rw [hm]

end

namespace Sched

/-! ## Stacks with room -/

variable {b : Boot} {m : Move} {s s' s₁ s₂ s₃ : Sched} {t : TaskId} {r : Slot}

/-- No stack that is held has size 0. -/
structure Roomy (s : Sched) : Prop where
  slots : ∀ o r, cached s.cache o = some r → stackBytes r.stacksize ≠ 0
  tasks : ∀ t r, s.stackHeld t = some r → stackBytes r.stacksize ≠ 0

theorem stacksize_of_stackOf {x : FibTCB} (h : stackOf x = some r) :
    r.stacksize = stackBytes x.stacksize := by
  unfold stackOf at h
  split at h
  · cases h
    rfl
  · cases h

/-- The stack that a creation finds has room. -/
theorem Roomy.newStack (h : Roomy s) {stackaddr : Addr} {n : BitVec 32} {env : AllocEnv}
    (hsane : saneCreate (.call (.create stackaddr n env)) = true)
    (hz : (s.newStack stackaddr n env).2.stackbase ≠ 0) :
    stackBytes (s.newStack stackaddr n env).2.stacksize ≠ 0 := by
  unfold saneCreate at hsane
  unfold Sched.newStack at hz ⊢
  by_cases ha : stackaddr = 0
  · simp only [if_pos ha] at hz hsane ⊢
    rw [Create.stackBytes_or_flag]
    rcases get_from hz with ⟨o, ho⟩ | ⟨hsize, hmap⟩
    · exact h.slots o _ ho
    · have hround : roundUp n ≠ 0 := by
        simpa [hmap] using hsane
      rw [hsize]
      show stackBytes (roundUp n) ≠ 0
      rw [ne_eq, Create.stackBytes_eq_zero, Create.toNat_roundUp]
      have hne : (roundUp n).toNat ≠ 0 := fun hz => hround (BitVec.eq_of_toNat_eq hz)
      rw [Create.toNat_roundUp] at hne
      omega
  · simp only [if_neg ha] at hsane ⊢
    have hmin : FIBER_STACKSIZE_MIN ≤ n.toNat := by simpa using hsane
    rw [ne_eq, Create.stackBytes_eq_zero]
    unfold FIBER_STACKSIZE_MIN at hmin
    omega

theorem roomy_boot (b : Boot) : Roomy (boot b) := by
  refine ⟨fun o r ho => ?_, fun t r ht => ?_⟩
  · cases o <;> simp [cached, hold, boot, regionOf] at ho
  · have hmain : stackOf ((boot b).tcb b.maintask) = none := by simp [stackOf, boot]
    by_cases htm : t = b.maintask
    · subst htm
      simp [stackHeld, hmain] at ht
    · have hl : t ∉ (boot b).live := by simpa [boot] using htm
      simp [stackHeld, hl] at ht

theorem cached_newStack {stackaddr : Addr} {n : BitVec 32} {env : AllocEnv} {o : Owner}
    (h : cached (s.newStack stackaddr n env).1 o = some r) : cached s.cache o = some r := by
  unfold Sched.newStack at h
  split at h
  · exact get_frees h
  · exact h

theorem Inv.roomy_create (h : Inv b s) (hs : Roomy s) {stackaddr : Addr} {n : BitVec 32}
    {env : AllocEnv} (hfresh : env.malloc.all s.freshTcbs = true)
    (hsane : saneCreate (.call (.create stackaddr n env)) = true) :
    Roomy (s.fiberCreate stackaddr n env) := by
  obtain ⟨-, hc, hheld⟩ | ⟨w, hw, hc, hnew⟩ := h.create_stacks stackaddr n hfresh
  · exact ⟨hc ▸ hs.slots, hheld ▸ hs.tasks⟩
  · refine ⟨fun o r ho => hs.slots o r (cached_newStack (hc ▸ ho)), ?_⟩
    obtain ⟨-, -, hheld⟩ | ⟨hz, -, -, hheld⟩ := hnew
    · exact hheld ▸ hs.tasks
    · rw [hheld]
      intro t r ht
      by_cases htw : t = w
      · subst htw
        rw [Function.update_self] at ht
        rw [stacksize_of_stackOf ht, stackBytes_stackBytes]
        exact hs.newStack hsane hz
      · rw [Function.update_of_ne htw] at ht
        exact hs.tasks t r ht

theorem Inv.roomy_exit (h : Inv b s) (hok : StacksOK s) (hs : Roomy s) : Roomy s.cppTaskmain := by
  obtain ⟨hcache, hheld⟩ := exit_stacks h
  refine ⟨fun o r ho => ?_, fun t r ht => ?_⟩
  · rw [hcache] at ho
    unfold exitCache at ho
    dsimp only at ho
    split at ho
    · next hflag =>
      have hown : s.stackHeld s.currentTask = some ⟨(s.tcb s.currentTask).stackaddr,
          (s.tcb s.currentTask).stacksize &&& ~~~15#32⟩ := (if_pos h.live).trans (if_pos hflag)
      rcases (hok.slots.stored (f := fun _ => none) (hok.tasks _ _ hown)).each o with hr | hsame
      · obtain rfl := Option.some.inj (hr.symm.trans ho)
        exact hs.tasks _ _ hown
      · exact hs.slots o r (hsame.symm.trans ho)
    · exact hs.slots o r ho
  · rw [hheld] at ht
    by_cases htc : t = s.currentTask
    · subst htc
      rw [Function.update_self] at ht
      cases ht
    · rw [Function.update_of_ne htc] at ht
      exact hs.tasks t r ht

theorem Inv.roomy_step (h : Inv b s) (hok : StacksOK s) (hs : Roomy s) (hsane : saneCreate m = true)
    (he : s.step m = some s') : Roomy s' := by
  by_cases hu : usesStack m = true
  · unfold Sched.step at he
    split at he
    case isFalse => cases he
    case isTrue hp =>
      cases m with
      | call c =>
        cases c with
        | create stackaddr n env =>
          obtain rfl := Option.some.inj he
          have hp := (Bool.and_eq_true_iff.1 hp).1
          exact h.roomy_create hs (Bool.and_eq_true_iff.1 hp).1 hsane
        | _ => cases hu
      | exit =>
        obtain rfl := Option.some.inj he
        exact h.roomy_exit hok hs
      | _ => cases hu
  · obtain ⟨hcache, hheld⟩ := h.sameStacks_trs (h.trs_step he) (by simpa using hu)
    exact ⟨hcache ▸ hs.slots, hheld ▸ hs.tasks⟩

/-! ## From the creation to the exit -/

/-- The exit of `t` is not taken. -/
def NotExitOf (t : TaskId) (s : Sched) (m : Move) : Prop := m = .exit → s.currentTask ≠ t

instance (t : TaskId) (s : Sched) (m : Move) : Decidable (NotExitOf t s m) :=
  inferInstanceAs (Decidable (m = .exit → s.currentTask ≠ t))

theorem live_of_stackHeld (hr : s.stackHeld t = some r) : t ∈ s.live := by
  by_contra hl
  rw [stackHeld, if_neg hl] at hr
  cases hr

/-- The exit of a task that has a stack to give back puts it into the cache. -/
theorem Inv.exit_caches (h : Inv b s) (hok : StacksOK s) (hr : s.stackHeld s.currentTask = some r) :
    ∃ o, cached s.cppTaskmain.cache o = some r := by
  rw [(exit_stacks h).1]
  have hown : stackOf (s.tcb s.currentTask) = some r := (if_pos h.live).symm.trans hr
  unfold stackOf at hown
  split at hown
  · next hflag =>
    have hstored := (hok.slots.stored (f := fun _ => none) (hok.tasks _ _ hr)).some
    cases hown
    rw [show s.exitCache = _ from if_pos hflag]
    exact hstored
  · cases hown

end Sched

/-- From the state in which `t` was created to the state after its exit. -/
structure Life (t : TaskId) (s₁ s₂ s₃ : Sched) : Prop where
  run : Reach Sched.step (Sched.NotExitOf t) s₁ s₂
  current : s₂.currentTask = t
  exit : s₂.step .exit = some s₃

/-- The running task calls `swap_context` with the save area of `t` as its second argument. The first
one is its own save area, or in `cpp_taskmain` a variable on its stack. -/
structure SwitchCall {b : Boot} (A : Areas b) (s : Sched) (t : TaskId) (σ : Machine) : Prop where
  source : σ.reg .rdi = A.regs s.currentTask ∨ area (σ.reg .rdi) ⊆ A.stack s s.currentTask
  dest : σ.reg .rsi = A.regs t
  room : span (σ.reg .rsp - 8) 8 ⊆ A.stack s s.currentTask

/-- The first `swap_context` to `t` after `fiber_create` has prepared its registers and its stack, in
the state `s₁`. -/
def FirstSwitch {b : Boot} (A : Areas b) (code : Create.Code) (t : TaskId) (s₁ : Sched)
    (σ : Machine) : Prop :=
  let x := s₁.tcb t
  let top := x.stackaddr + BitVec.ofNat 64 (stackBytes x.stacksize).toNat
  ∃ mem₀ s m s' mem,
    Elsewhere A t s₁ (fiberCreateRegs mem₀ (A.regs t) (A.tcb t) code.cppTaskmain code.asmTaskmain
      top (Flagged x.stacksize)) s mem ∧
    s.currentTask ≠ t ∧ KeepsMemory A s m ∧ s.step m = some s' ∧ s'.currentTask = t ∧
    Writes A s s' mem σ.mem ∧ SwitchCall A s t σ

/-- The task begins in `cpp_taskmain`, and its stack is in the cache after its exit exactly if the
library has allocated it. -/
structure LivesRight {b : Boot} (A : Areas b) (code : Create.Code) (t : TaskId) (s₁ : Sched)
    (σ : Machine) (next : Word) (library : Prop) (s₃ : Sched) : Prop where
  begins : Begins σ next (A.stack s₁ t) (A.tcb t) code.cppTaskmain code.asmTaskmain
  ends : (∃ o, cached s₃.cache o =
    some ⟨(s₁.tcb t).stackaddr, stackBytes (s₁.tcb t).stacksize⟩) ↔ library

theorem reach_roomy {b : Boot} {A : Areas b} {s : Sched}
    (h : Reach Sched.step (KeepsMemory A) (boot b) s) : s.Roomy :=
  h.invariant_of (I := fun s => Sched.Inv b s ∧ s.StacksOK)
    ⟨Sched.inv_boot b, Sched.stacksOK_boot b⟩ (Sched.roomy_boot b)
    (fun _ _ _ hi _ hs => ⟨hi.1.step hs, hi.1.stacksOK_step hi.2 hs⟩)
    fun _ _ _ hi hr hok hs => hi.1.roomy_step hi.2 hr hok.1 hs

/-- A flagged stack is in the cache after the exit of its task. -/
theorem Life.caches {b : Boot} {t : TaskId} {r : Slot} {s₁ s₂ s₃ : Sched} (h : Life t s₁ s₂ s₃)
    (h₁ : Reachable b s₁) (hr : s₁.stackHeld t = some r) : ∃ o, cached s₃.cache o = some r := by
  have h₂ : Reachable b s₂ := Reach.trans h₁ h.run.any
  have hheld : s₂.stackHeld t = some r :=
    h.run.invariant_of (I := Sched.Inv b) h₁.inv hr (fun _ _ _ hi _ hs => hi.step hs)
      fun _ _ _ hi hp hm hs => (hi.held_step (Sched.live_of_stackHeld hp) hm hs).2.trans hp
  have hexit := h.exit
  unfold Sched.step at hexit
  split at hexit
  · obtain rfl := Option.some.inj hexit
    rw [← h.current] at hheld
    exact h₂.inv.exit_caches (reachable_stacksOK h₂) hheld
  · cases hexit

section

variable {b : Boot} {A : Areas b} {X : Set TaskId} {s s₁ s₂ s₃ : Sched} {stackaddr : Addr}
  {n : BitVec 32} {env : AllocEnv} {t : TaskId} {code : Create.Code} {σ : Machine} {next : Word}
  {r : Slot}

theorem TasksApart.mono {Y : Set TaskId} (h : TasksApart A X s) (hXY : X ⊆ Y) : TasksApart A Y s :=
  { h with library := fun t ht hY => h.library t ht fun hX => hY (hXY hX) }

/-- A new task on a stack of the library. -/
theorem TasksApart.beside (h : TasksApart A {b.maintask} s)
    (hsane : saneCreate (.call (.create 0 n env)) = true)
    (hfresh : A.Fresh s (.call (.create 0 n env)))
    (hcreate : s.step (.call (.create 0 n env)) = some s₁) (hnew : t ∉ s.live)
    (hlive : t ∈ s₁.live) : Beside A t s₁ := by
  have hkeeps : KeepsMemory A s (.call (.create 0 n env)) := ⟨hsane, ⟨rfl, nofun⟩, hfresh⟩
  refine ⟨(h.step hkeeps hcreate).mono (by simp), hlive, ?_⟩
  exact fun he => hnew (he ▸ h.maintask ▸ h.inv.maintask_live)

/-- A new task on a stack of the caller, without the flag. -/
theorem TasksApart.beside_own (h : TasksApart A {b.maintask} s) (h0 : stackaddr ≠ 0)
    (hfresh : A.Fresh s (.call (.create stackaddr n env)))
    (hcreate : s.step (.call (.create stackaddr n env)) = some s₁) (hnew : t ∉ s.live)
    (hlive : t ∈ s₁.live) (hflag : ¬Flagged (s₁.tcb t).stacksize) : Beside A t s₁ := by
  have hmain : t ≠ b.maintask := fun he => hnew (he ▸ h.maintask ▸ h.inv.maintask_live)
  have hnone : Sched.stackOf (s₁.tcb t) = none := if_neg hflag
  have hstep := hcreate
  unfold Sched.step at hstep
  split at hstep
  case isFalse => cases hstep
  case isTrue hp =>
    have hp := (Bool.and_eq_true_iff.1 hp).1
    obtain rfl := Option.some.inj hstep
    have hcache : (s.newStack stackaddr n env).1 = s.cache := by
      rw [Sched.newStack, if_neg h0]
    have how : (s.fiberCreate stackaddr n env).StacksOwned ∧
        CacheOK (s.fiberCreate stackaddr n env).cache ∧
        ∀ u ∈ (s.fiberCreate stackaddr n env).live, u ∉ s.live → u = t := by
      obtain ⟨hl, hc, hheld⟩ | ⟨w, hw, hc, hmade⟩ :=
        h.inv.create_stacks stackaddr n (Bool.and_eq_true_iff.1 hp).1
      · exact absurd (hl ▸ hlive) hnew
      · obtain ⟨-, hl, -⟩ | ⟨-, hl, htcb, hheld⟩ := hmade
        · exact absurd (hl ▸ hlive) hnew
        · obtain rfl : t = w := (List.mem_cons.1 (hl ▸ hlive)).resolve_right hnew
          have hsame : s.stackHeld t = none := if_neg hnew
          rw [htcb] at hnone
          rw [hnone, ← hsame, Function.update_eq_self] at hheld
          rw [hcache] at hc
          refine ⟨?_, hc ▸ h.cache, fun u hu hold => ?_⟩
          · rw [Sched.StacksOwned, Sched.holding, hc, hheld]
            exact h.owned
          · exact (List.mem_cons.1 (hl ▸ hu)).resolve_right hold
    refine ⟨TasksApart.create (h.mono (by simp)) hfresh hcreate ⟨how.1, how.2.1⟩ ?_, hlive, hmain⟩
    intro u hu hold hX
    exact absurd (how.2.2 u hu hold) fun he => hX (by simp [he])

/-- What the task holds is, at its first switch, as `fiber_create` has left it, and the call of
`swap_context` does not write to it. -/
theorem FirstSwitch.prepared (h : FirstSwitch A code t s₁ σ) (hb : Beside A t s₁) :
    σ.reg .rsi = A.regs t ∧ σ.Spares (kept A s₁ t) ∧ ∃ mem₀, ∀ x ∈ kept A s₁ t, σ.mem x =
      fiberCreateRegs mem₀ (A.regs t) (A.tcb t) code.cppTaskmain code.asmTaskmain
        ((s₁.tcb t).stackaddr + BitVec.ofNat 64 (stackBytes (s₁.tcb t).stacksize).toNat)
        (Flagged (s₁.tcb t).stacksize) x := by
  obtain ⟨mem₀, s, m, s', mem, helse, hcur, hok, hs, -, hw, hcalls⟩ := h
  obtain ⟨hbs, hkept, hmem⟩ := helse.apart hb
  refine ⟨hcalls.dest, fun x hx => ?_, mem₀, fun x hx => ?_⟩
  · have hown : x ∉ A.owned s s.currentTask :=
      Set.disjoint_left.1 (hbs.disjoint hbs.apart.inv.live hcur) (hkept ▸ hx)
    refine ⟨fun hx' => hown ?_, fun hx' => hown (.inr (hcalls.room hx'))⟩
    rcases hcalls.source with hrdi | hrdi
    · exact .inl (hrdi ▸ hx')
    · exact .inr (hrdi hx')
  · rw [hbs.mem_step hcur hok hs hw (hkept ▸ hx), hmem x hx]

/-- A task on a stack of the library begins as it should. -/
theorem FirstSwitch.begins (h : FirstSwitch A code t s₁ σ) (hb : Beside A t s₁)
    (hr : s₁.stackHeld t = some r) (hflag : Flagged (s₁.tcb t).stacksize)
    (hbytes : 16 ≤ (s₁.tcb t).stacksize.toNat) :
    Begins σ next (A.stack s₁ t) (A.tcb t) code.cppTaskmain code.asmTaskmain := by
  obtain ⟨hrsi, hspare, mem₀, hmem⟩ := h.prepared hb
  have hstack : A.stack s₁ t = stackMemory r := stack_of_held hr hb.ne
  have hspan : A.stack s₁ t =
      span (s₁.tcb t).stackaddr (stackBytes (s₁.tcb t).stacksize).toNat := if_neg hb.ne
  have hkept : kept A s₁ t = area (A.regs t) ∪ A.stack s₁ t := by
    rw [kept, hr, hstack]
    rfl
  have hlt := (stackBytes (s₁.tcb t).stacksize).isLt
  have hsize := toNat_stackBytes (s₁.tcb t).stacksize
  have hroom : span ((s₁.tcb t).stackaddr +
      BitVec.ofNat 64 (stackBytes (s₁.tcb t).stacksize).toNat - 8) 8 ⊆ A.stack s₁ t := by
    rw [hspan]
    exact below_top_subset (by omega) (by omega)
  have hareas : Disjoint (area (A.regs t)) (A.stack s₁ t) := by
    rw [hstack]
    exact hb.apart.spread.areas r (hb.apart.owned.mem (o := .task t) hr) t
      (hb.apart.blocks t hb.live)
  rw [hkept] at hmem hspare
  rw [decide_eq_true hflag] at hmem
  have hheld := (@fiberCreateRegs_holds mem₀ _ (A.tcb t) code.cppTaskmain code.asmTaskmain _
    (hareas.symm.mono_left hroom)).congr fun x hx =>
      hmem x (Set.union_subset_union_right _ hroom hx)
  rw [← hrsi] at hheld hspare
  exact hheld.begins hroom hspare

/-- A task on a stack of the caller does not, without the flag. -/
theorem FirstSwitch.not_begins (h : FirstSwitch A code t s₁ σ) (hb : Beside A t s₁)
    (hflag : ¬Flagged (s₁.tcb t).stacksize) :
    ¬Begins σ next (A.stack s₁ t) (A.tcb t) code.cppTaskmain code.asmTaskmain := by
  obtain ⟨hrsi, hspare, mem₀, hmem⟩ := h.prepared hb
  rw [decide_eq_false hflag] at hmem
  have hspan : A.stack s₁ t =
      span (s₁.tcb t).stackaddr (stackBytes (s₁.tcb t).stacksize).toNat := if_neg hb.ne
  have hlt := (stackBytes (s₁.tcb t).stacksize).isLt
  rw [hspan]
  refine Context.not_begins ?_ (by omega) (hspare.mono ?_)
  · rw [hrsi, load64_congr fun x hx => hmem x (.inl (slot_subset (by decide) hx))]
    exact load64_fiberCreateRegs
  · rw [hrsi]
    exact Set.subset_union_left

end

/-- **When a task begins and ends as it should.** In a run in which no stack is handed out twice,
exactly if the library has allocated its stack. -/
theorem livesRight_iff {b : Boot} {A : Areas b} {s s₁ s₂ s₃ : Sched} {stackaddr : Addr}
    {n : BitVec 32} {env : AllocEnv} {t : TaskId} {code : Create.Code} {σ : Machine} {next : Word}
    (h : Reach Sched.step (KeepsMemory A) (boot b) s)
    (hsane : saneCreate (.call (.create stackaddr n env)) = true)
    (hfresh : A.Fresh s (.call (.create stackaddr n env)))
    (hcreate : s.step (.call (.create stackaddr n env)) = some s₁) (hnew : t ∉ s.live)
    (hlive : t ∈ s₁.live) (hlife : Life t s₁ s₂ s₃) (hfirst : FirstSwitch A code t s₁ σ) :
    LivesRight A code t s₁ σ next (stackaddr = 0) s₃ ↔ stackaddr = 0 := by
  have ha := reach_apart h
  have h₁ : Reachable b s₁ := Reach.tail h.any trivial hcreate
  obtain ⟨hz, htcb, hheld⟩ := ha.inv.create_new hcreate hnew hlive
  have hbytes := (reach_roomy h).newStack hsane hz
  have hsize : (s₁.tcb t).stacksize = (s.newStack stackaddr n env).2.stacksize := by
    rw [htcb]
    rfl
  rw [← hsize, ne_eq, Create.stackBytes_eq_zero, not_lt] at hbytes
  have hstack (hflag : Flagged (s₁.tcb t).stacksize) : s₁.stackHeld t =
      some ⟨(s₁.tcb t).stackaddr, stackBytes (s₁.tcb t).stacksize⟩ := hheld.trans (if_pos hflag)
  constructor
  · intro hlives
    by_cases hflag : Flagged (s₁.tcb t).stacksize
    · exact hlives.ends.1 (hlife.caches h₁ (hstack hflag))
    · by_contra h0
      exact hfirst.not_begins (ha.beside_own h0 hfresh hcreate hnew hlive hflag) hflag hlives.begins
  · rintro rfl
    have hflag : Flagged (s₁.tcb t).stacksize := by
      rw [hsize, Sched.newStack, if_pos rfl]
      exact Create.flag_or_ne_zero _
    have hb := ha.beside hsane hfresh hcreate hnew hlive
    exact ⟨hfirst.begins hb (hstack hflag) hflag hbytes,
      iff_of_true (hlife.caches h₁ (hstack hflag)) rfl⟩

/-! ## A stack of the library, and two of the caller -/

/-- No move of `t`, and none that creates or ends a task. -/
def NotSwitchedTo (t : TaskId) (s : Sched) (m : Move) : Prop :=
  s.currentTask ≠ t ∧ Sched.usesStack m = false

instance (t : TaskId) (s : Sched) (m : Move) : Decidable (NotSwitchedTo t s m) :=
  inferInstanceAs (Decidable (_ ∧ _))

section

variable {b : Boot} {A : Areas b} {s s₁ s₂ s₃ s₄ : Sched} {t : TaskId} {m c : Move}
  {ms : List Move} {mem : Memory} {code : Create.Code} {sp : Word}

theorem keeps_of_usesStack (h : Sched.usesStack m = false) : KeepsMemory A s m := by
  cases m with
  | call c =>
    cases c with
    | create => cases h
    | _ => exact ⟨rfl, ⟨rfl, nofun⟩, trivial⟩
  | exit => cases h
  | _ => exact ⟨rfl, ⟨rfl, nofun⟩, trivial⟩

theorem elsewhere_of_reach (h : Reach Sched.step (NotSwitchedTo t) s₁ s) :
    Elsewhere A t s₁ mem s mem := by
  induction h with
  | refl => exact .refl
  | tail _ hs ih =>
    obtain ⟨_, hok, hs⟩ := hs
    exact .step ih hok.1 (keeps_of_usesStack hok.2) hs fun _ hne => absurd rfl hne

/-- The machine when the current task of `s` calls `swap_context` to switch to `t`. -/
def atSwitch (A : Areas b) (code : Create.Code) (s₁ s : Sched) (t : TaskId) (sp : Word) :
    Machine where
  reg
    | .rdi => A.regs s.currentTask
    | .rsi => A.regs t
    | .rsp => sp
    | _ => 0
  rip := 0
  mem :=
    let x := s₁.tcb t
    fiberCreateRegs (fun _ => 0) (A.regs t) (A.tcb t) code.cppTaskmain code.asmTaskmain
      (x.stackaddr + BitVec.ofNat 64 (stackBytes x.stacksize).toNat) (Flagged x.stacksize)

/-- The move `c` creates `t`, after the moves `ms` the move `m` switches to it, and it exits. -/
def lifeOf (t : TaskId) (s : Sched) (c : Move) (ms : List Move) (m : Move) :
    Option (Sched × Sched × Sched × Sched) := do
  let s₁ ← s.step c
  let s₂ ← ms.foldlM (Reach.guarded Sched.step (NotSwitchedTo t)) s₁
  let s₃ ← Reach.guarded Sched.step (NotSwitchedTo t) s₂ m
  let s₄ ← s₃.step .exit
  some (s₁, s₂, s₃, s₄)

theorem lifeOf_spec (h : lifeOf t s c ms m = some (s₁, s₂, s₃, s₄)) (ht : s₃.currentTask = t) :
    s.step c = some s₁ ∧ Life t s₁ s₃ s₄ ∧ (span (sp - 8) 8 ⊆ A.stack s₂ s₂.currentTask →
      FirstSwitch A code t s₁ (atSwitch A code s₁ s₂ t sp)) := by
  obtain ⟨_, hcreate, h⟩ := Option.bind_eq_some_iff.1 h
  obtain ⟨_, hrun, h⟩ := Option.bind_eq_some_iff.1 h
  obtain ⟨_, hlast, h⟩ := Option.bind_eq_some_iff.1 h
  obtain ⟨_, hexit, h⟩ := Option.bind_eq_some_iff.1 h
  cases h
  have hrun := Reach.of_guarded hrun
  unfold Reach.guarded at hlast
  split at hlast
  case isFalse => cases hlast
  case isTrue hok =>
    have hlife : Reach Sched.step (NotSwitchedTo t) s₁ s₃ := hrun.tail hok hlast
    refine ⟨hcreate, ⟨hlife.mono fun _ _ hn _ => hn.1, ht, hexit⟩, fun hroom => ?_⟩
    exact ⟨fun _ => 0, s₂, m, s₃, _, elsewhere_of_reach hrun, hok.1, keeps_of_usesStack hok.2,
      hlast, ht, fun _ hne => absurd rfl hne, .inl rfl, rfl, hroom⟩

end

/-- Save areas side by side, and a page for the stack of the thread. -/
def threeBlocks : Areas {} where
  blocks := {0, 100, 163}
  tcb t := BitVec.ofNat 64 t
  regs t := if t = 100 then 0x1040 else if t = 163 then 0x1080 else 0x1000
  mainStack := span 0x2000 0x1000
  maintask := .inl rfl
  disjoint := by
    rintro t (rfl | rfl | rfl) u (rfl | rfl | rfl) htu
    all_goals first
      | exact absurd rfl htu
      | exact disjoint_span (by decide) (by decide)
  apart := by
    rintro t (rfl | rfl | rfl)
    all_goals exact disjoint_span (by decide) (by decide)

def code : Create.Code := ⟨0x401000, 0x402000⟩

theorem below_subset {a sp : Word} {n : Nat} (h : (sp - 8 - a).toNat + 8 ≤ n) (hn : n ≤ 2 ^ 64) :
    span (sp - 8) 8 ⊆ span a n := by
  have := span_add_subset (a := a) h hn
  rwa [BitVec.add_comm, BitVec.sub_add_cancel] at this

/-- A task on two pages at `0x4000`. -/
def firstTask : Move := .call (.create 0 8192 { malloc := some 100, mmap := some 0x4000 })

/-- A task on two pages at `0x6000`. -/
def secondTask : Move := .call (.create 0 8192 { mmap := some 0x6000 })

def startTasks : List Move := [.schedulerStart, .schedulerPass, .schedulerExhaust]

theorem fresh_secondTask {s : Sched} (halloc : (s.pool.alloc none).1 = some 163)
    (hmapped : s.cache.mapped = [⟨0x4000, 8192⟩]) : threeBlocks.Fresh s secondTask := by
  refine ⟨fun t ht => ?_, fun a ha => ?_⟩
  · obtain rfl : 163 = t := Option.some.inj (halloc.symm.trans ht)
    exact .inr (.inr rfl)
  · obtain rfl : 0x6000 = a := Option.some.inj ha
    rw [hmapped]
    refine ⟨disjoint_span (by decide) (by decide), ?_, fun r hr => ?_⟩
    · rintro t (rfl | rfl | rfl)
      all_goals exact disjoint_span (by decide) (by decide)
    · obtain rfl := List.mem_singleton.1 hr
      exact disjoint_span (by decide) (by decide)

theorem firstTask_keeps : KeepsMemory threeBlocks (boot {}) firstTask := by
  refine ⟨by decide, by decide, fun t ht => ?_, fun a ha => ?_⟩
  · obtain rfl : 100 = t := Option.some.inj ht
    exact .inr (.inl rfl)
  · obtain rfl : 0x4000 = a := Option.some.inj ha
    refine ⟨disjoint_span (by decide) (by decide), ?_, nofun⟩
    rintro t (rfl | rfl | rfl)
    all_goals exact disjoint_span (by decide) (by decide)

/-- The first of two tasks yields to the second one, which exits at once. -/
def twoLives : Option (Sched × Sched × Sched × Sched × Sched) := do
  let s ← (boot {}).step firstTask
  let r ← lifeOf 163 s secondTask startTasks (.call .schedYield)
  some (s, r)

theorem twoLives_spec : ∃ s s₁ s₂ s₃ s₄, (boot {}).step firstTask = some s ∧
    lifeOf 163 s secondTask startTasks (.call .schedYield) = some (s₁, s₂, s₃, s₄) ∧
    (s.live = [100, 0] ∧ (s.pool.alloc none).1 = some 163 ∧ s.cache.mapped = [⟨0x4000, 8192⟩]) ∧
      (s₁.live = [163, 100, 0] ∧ s₂.stackHeld 100 = some ⟨0x4000, 8192⟩) ∧
      s₂.currentTask = 100 ∧ s₃.currentTask = 163 := by
  have hlives : twoLives.map (fun (s, s₁, s₂, s₃, _) =>
      ((s.live, (s.pool.alloc none).1, s.cache.mapped), (s₁.live, s₂.stackHeld 100),
        s₂.currentTask, s₃.currentTask)) =
      some (([100, 0], some 163, [⟨0x4000, 8192⟩]), ([163, 100, 0], some ⟨0x4000, 8192⟩),
        100, 163) := by
    decide +kernel
  obtain ⟨⟨s, s₁, s₂, s₃, s₄⟩, hrun, he⟩ := Option.map_eq_some_iff.1 hlives
  unfold twoLives at hrun
  obtain ⟨_, hfirst, hrun⟩ := Option.bind_eq_some_iff.1 hrun
  obtain ⟨_, hlife, hrun⟩ := Option.bind_eq_some_iff.1 hrun
  cases hrun
  simp only [Prod.mk.injEq] at he
  exact ⟨s, s₁, s₂, s₃, s₄, hfirst, hlife, he⟩

theorem secondTask_livesRight : ∃ s s₁ s₂ s₃ σ, Reach Sched.step (KeepsMemory threeBlocks) (boot {}) s ∧
    s.step secondTask = some s₁ ∧ Life 163 s₁ s₂ s₃ ∧ FirstSwitch threeBlocks code 163 s₁ σ ∧
    (LivesRight threeBlocks code 163 s₁ σ 0x403000 ((0 : Addr) = 0) s₃ ↔ (0 : Addr) = 0) := by
  obtain ⟨s, s₁, s₂, s₃, s₄, hs, hlife, ⟨hl, halloc, hmapped⟩, ⟨hl₁, hheld⟩, hc₂, hc₃⟩ :=
    twoLives_spec
  obtain ⟨hcreate, hlife, hfirst⟩ := lifeOf_spec hlife hc₃
  have hroom : span (0x5800 - 8) 8 ⊆ threeBlocks.stack s₂ s₂.currentTask := by
    rw [hc₂, stack_of_held hheld (by decide)]
    exact below_subset (by decide) (by decide)
  have hrun : Reach Sched.step (KeepsMemory threeBlocks) (boot {}) s :=
    (Reach.refl _).tail firstTask_keeps hs
  exact ⟨s, s₁, s₃, s₄, _, hrun, hcreate, hlife, hfirst hroom,
    livesRight_iff hrun (by decide) (fresh_secondTask halloc hmapped) hcreate (by rw [hl]; decide)
      (by rw [hl₁]; decide) hlife (hfirst hroom)⟩

/-- A task on two pages of the caller at `0x4000`, with the given size. -/
def ownTask (n : BitVec 32) : Move := .call (.create 0x4000 n { malloc := some 100 })

def ownLife (n : BitVec 32) : Option (Sched × Sched × Sched × Sched) :=
  lifeOf 100 (boot {}) (ownTask n) (startTasks.take 2) .schedulerExhaust

theorem ownLife_spec {n : BitVec 32} {q : Option Slot}
    (h : (ownLife n).map (fun (s₁, s₂, s₃, s₄) => ((s₁.live, (s₁.tcb 100).stackaddr,
      (s₁.tcb 100).stacksize), s₂.currentTask, s₃.currentTask, cached s₄.cache (.localSlot 0))) =
        some (([100, 0], 0x4000, n), 0, 100, q)) :
    ∃ s₁ s₂ s₃ σ, (boot {}).step (ownTask n) = some s₁ ∧ Life 100 s₁ s₂ s₃ ∧
      FirstSwitch threeBlocks code 100 s₁ σ ∧ (s₁.live = [100, 0] ∧
        (s₁.tcb 100).stackaddr = 0x4000 ∧ (s₁.tcb 100).stacksize = n) ∧
      cached s₃.cache (.localSlot 0) = q := by
  obtain ⟨⟨s₁, s₂, s₃, s₄⟩, hlife, he⟩ := Option.map_eq_some_iff.1 h
  simp only [Prod.mk.injEq] at he
  obtain ⟨hmade, hc₂, hc₃, hq⟩ := he
  obtain ⟨hcreate, hlife, hfirst⟩ := lifeOf_spec hlife hc₃
  have hroom : span (0x2800 - 8) 8 ⊆ threeBlocks.stack s₂ s₂.currentTask := by
    rw [hc₂, Areas.stack, if_pos rfl]
    exact below_subset (by decide) (by decide)
  exact ⟨s₁, s₃, s₄, _, hcreate, hlife, hfirst hroom, hmade, hq⟩

theorem fresh_ownTask (n : BitVec 32) : threeBlocks.Fresh (boot {}) (ownTask n) := by
  refine ⟨fun t ht => ?_, nofun⟩
  obtain rfl : 100 = t := Option.some.inj ht
  exact .inr (.inl rfl)

set_option maxRecDepth 4000 in
/-- The caller supplies two pages. If it gives their size, the task does not begin; with the lowest
bit set, its stack is in the cache at the end. -/
theorem ownStack_not_livesRight :
    (∃ s₁ s₂ s₃ σ, (boot {}).step (ownTask 8192) = some s₁ ∧ Life 100 s₁ s₂ s₃ ∧
      FirstSwitch threeBlocks code 100 s₁ σ ∧
      ¬LivesRight threeBlocks code 100 s₁ σ 0x403000 ((0x4000 : Addr) = 0) s₃) ∧
    ∃ s₁ s₂ s₃ σ, (boot {}).step (ownTask 8193) = some s₁ ∧ Life 100 s₁ s₂ s₃ ∧
      FirstSwitch threeBlocks code 100 s₁ σ ∧
      ¬LivesRight threeBlocks code 100 s₁ σ 0x403000 ((0x4000 : Addr) = 0) s₃ := by
  constructor
  · obtain ⟨s₁, s₂, s₃, σ, hcreate, hlife, hfirst, ⟨hl, ha, hz⟩, -⟩ :=
      @ownLife_spec 8192 none (by decide +kernel)
    have hflag : ¬Flagged (s₁.tcb 100).stacksize := by
      rw [hz]
      decide
    have hb : Beside threeBlocks 100 s₁ := (apart_boot threeBlocks).beside_own (by decide)
      (fresh_ownTask 8192) hcreate (by decide) (by rw [hl]; decide) hflag
    exact ⟨s₁, s₂, s₃, σ, hcreate, hlife, hfirst, fun hlives =>
      hfirst.not_begins hb hflag hlives.begins⟩
  · obtain ⟨s₁, s₂, s₃, σ, hcreate, hlife, hfirst, ⟨hl, ha, hz⟩, hq⟩ :=
      @ownLife_spec 8193 (some ⟨0x4000, 8192⟩) (by decide +kernel)
    refine ⟨s₁, s₂, s₃, σ, hcreate, hlife, hfirst, fun hlives => ?_⟩
    have hlib := hlives.ends.1 ⟨.localSlot 0, by rw [hq, ha, hz]; decide⟩
    exact absurd hlib (by decide)

end Ptask.OneN
