import Ptask.Lib.Ownership
import Ptask.OneN.Simulation

/-!
# Who owns a stack

A stack region is held by a live task, by an occupied slot of the local cache or by an occupied slot
of the global table (`Sched.holding`). `fiber_stackcache_get` hands a region over from a slot to a
task, `fiber_stackcache_put` hands it back, and a full cache releases the region that it evicts. One
branch of the latter stores a region twice: the slot number `0` in the global table reads as "no free
slot" in the test that follows.
-/

namespace Ptask.OneN

open Ptask.Lib

/-- What can hold a stack region. -/
inductive Owner
  | task (t : TaskId)
  | localSlot (i : Nat)
  | globalSlot (i : Nat)
deriving DecidableEq, Repr

/-! ## The cache -/

/-- The region that is stored in a slot. -/
def regionOf (r : Slot) : Option Slot := if r.stackbase = 0 then none else some r

/-- What tasks, of which `f` says what they hold, and the slots of `c` hold. -/
def hold (f : TaskId → Option Slot) (c : StackCache) : Owner → Option Slot
  | .task t => f t
  | .localSlot i =>
    if i < 8 ∧ c.cachedStackMask.getLsbD i = false then regionOf (c.cachedStack i) else none
  | .globalSlot i =>
    if i < 64 ∧ c.globalCachedStackMask.getLsbD i = false then regionOf (c.globalCachedStack i)
    else none

/-- The regions that are mapped. -/
def regions (c : StackCache) : Set Slot := {r | r ∈ c.mapped}

/-- What the cache keeps about itself: mapped regions are apart and not `NULL`, their sizes leave
room for the flag, and the local mask has eight bits. -/
structure CacheOK (c : StackCache) : Prop where
  bases : (c.mapped.map (·.stackbase)).Nodup
  regular : ∀ r ∈ c.mapped, r.stackbase ≠ 0 ∧ r.stacksize &&& 15#32 = 0#32
  mask : ∀ i, 8 ≤ i → c.cachedStackMask.getLsbD i = false

/-- An exit that stores a stack finds a free slot, unless it is the first one of the global table. -/
def SlotSeen (c : StackCache) : Prop :=
  ¬(ffs c.cachedStackMask = 0 ∧ ffs c.globalCachedStackMask = 1)

instance (c : StackCache) : Decidable (SlotSeen c) :=
  inferInstanceAs (Decidable ¬(ffs c.cachedStackMask = 0 ∧ ffs c.globalCachedStackMask = 1))

section

variable {f : TaskId → Option Slot} {c : StackCache} {t : TaskId} {r : Slot} {i : Nat}

theorem regionOf_of_ne (h : r.stackbase ≠ 0) : regionOf r = some r := if_neg h

theorem hold_task (v : Option Slot) :
    hold (Function.update f t v) c = Function.update (hold f c) (.task t) v := by
  funext o
  cases o with
  | task u =>
    by_cases hu : u = t
    · subst hu
      simp [hold]
    · simp [hold, hu]
  | localSlot j => simp [hold]
  | globalSlot j => simp [hold]

/-- A free local slot is filled. -/
theorem hold_fillLocal (hi : i < 8) (hr : r.stackbase ≠ 0) :
    hold f { c with
      cachedStackMask := c.cachedStackMask &&& ~~~(1#32 <<< i)
      cachedStack := Function.update c.cachedStack i r } =
      Function.update (hold f c) (.localSlot i) (some r) := by
  funext o
  cases o with
  | task u => simp [hold]
  | localSlot j =>
    have hbit := getLsbD_clearBit (x := c.cachedStackMask) (j := j) (show i < 32 by omega)
    by_cases hj : j = i
    · subst hj
      rw [Function.update_self]
      simp only [hold, hbit, Function.update_self, bne_self_eq_false, Bool.and_false, hi, and_self,
        if_true, regionOf_of_ne hr]
    · rw [Function.update_of_ne (by simpa using hj)]
      simp only [hold, hbit, Function.update_of_ne hj, bne_iff_ne.2 hj, Bool.and_true]
  | globalSlot j => simp [hold]

/-- A free global slot is filled. -/
theorem hold_fillGlobal (hi : i < 64) (hr : r.stackbase ≠ 0) :
    hold f { c with
      globalCachedStackMask := c.globalCachedStackMask &&& ~~~(1#64 <<< i)
      globalCachedStack := Function.update c.globalCachedStack i r } =
      Function.update (hold f c) (.globalSlot i) (some r) := by
  funext o
  cases o with
  | task u => simp [hold]
  | localSlot j => simp [hold]
  | globalSlot j =>
    have hbit := getLsbD_clearBit (x := c.globalCachedStackMask) (j := j) hi
    by_cases hj : j = i
    · subst hj
      rw [Function.update_self]
      simp only [hold, hbit, Function.update_self, bne_self_eq_false, Bool.and_false, hi, and_self,
        if_true, regionOf_of_ne hr]
    · rw [Function.update_of_ne (by simpa using hj)]
      simp only [hold, hbit, Function.update_of_ne hj, bne_iff_ne.2 hj, Bool.and_true]

/-- The contents of an occupied local slot are replaced. -/
theorem hold_replaceLocal (hi : i < 8) (hm : c.cachedStackMask.getLsbD i = false)
    (hr : r.stackbase ≠ 0) : hold f { c with cachedStack := Function.update c.cachedStack i r } =
      Function.update (hold f c) (.localSlot i) (some r) := by
  funext o
  cases o with
  | task u => simp [hold]
  | localSlot j =>
    by_cases hj : j = i
    · subst hj
      rw [Function.update_self]
      simp only [hold, hm, Function.update_self, hi, and_self, if_true, regionOf_of_ne hr]
    · rw [Function.update_of_ne (by simpa using hj)]
      simp only [hold, Function.update_of_ne hj]
  | globalSlot j => simp [hold]

/-- A local slot is freed. -/
theorem hold_freeLocal (hi : i < 8) :
    hold f { c with cachedStackMask := c.cachedStackMask ||| 1#32 <<< i } =
      Function.update (hold f c) (.localSlot i) none := by
  funext o
  cases o with
  | task u => simp [hold]
  | localSlot j =>
    have hbit := getLsbD_setBit (x := c.cachedStackMask) (j := j) (show i < 32 by omega)
    by_cases hj : j = i
    · subst hj
      rw [Function.update_self]
      simp [hold, hbit]
    · rw [Function.update_of_ne (by simpa using hj)]
      simp only [hold, hbit, beq_false_of_ne hj, Bool.or_false]
  | globalSlot j => simp [hold]

/-- A global slot is freed. -/
theorem hold_freeGlobal (hi : i < 64) :
    hold f { c with globalCachedStackMask := c.globalCachedStackMask ||| 1#64 <<< i } =
      Function.update (hold f c) (.globalSlot i) none := by
  funext o
  cases o with
  | task u => simp [hold]
  | localSlot j => simp [hold]
  | globalSlot j =>
    have hbit := getLsbD_setBit (x := c.globalCachedStackMask) (j := j) hi
    by_cases hj : j = i
    · subst hj
      rw [Function.update_self]
      simp [hold, hbit]
    · rw [Function.update_of_ne (by simpa using hj)]
      simp only [hold, hbit, beq_false_of_ne hj, Bool.or_false]

theorem hold_mapped (m : List Slot) : hold f { c with mapped := m } = hold f c := by
  funext o
  cases o <;> rfl

/-! ## Giving a stack back -/

theorem CacheOK.localSlot (h : CacheOK c) (hi : ffs c.cachedStackMask = i + 1) :
    i < 8 ∧ hold f c (.localSlot i) = none := by
  obtain ⟨-, hbit⟩ := ffs_spec hi
  have hlt : i < 8 := by
    by_contra hge
    rw [h.mask i (not_lt.1 hge)] at hbit
    cases hbit
  exact ⟨hlt, by simp [hold, hbit]⟩

/-- The slot that a full cache selects is emptied: its region is unmapped. -/
theorem evict_owned (h : Exclusive (hold f c) (regions c)) (hc : CacheOK c) (hi : i < 8)
    (hocc : c.cachedStackMask.getLsbD i = false) (hold' : (c.cachedStack i).stackbase ≠ 0) :
    Exclusive (Function.update (hold f c) (.localSlot i) none) (regions (c.munmap (c.cachedStack i))) ∧
      CacheOK (c.munmap (c.cachedStack i)) := by
  have hev : hold f c (.localSlot i) = some (c.cachedStack i) := by
    simp only [hold, hi, hocc, and_self, if_true, regionOf_of_ne hold']
  have hset : regions (c.munmap (c.cachedStack i)) = regions c \ {c.cachedStack i} := by
    ext q
    have hnd : c.mapped.Nodup := hc.bases.of_map
    simp [regions, StackCache.munmap, hnd.mem_erase_iff, and_comm]
  refine ⟨hset ▸ h.release hev, ?_, ?_, hc.mask⟩
  · exact hc.bases.sublist (List.erase_sublist.map _)
  · exact fun q hq => hc.regular q (List.mem_of_mem_erase hq)

theorem put_full (h : Exclusive (hold f c) (regions c)) (hc : CacheOK c) (ht : f t = some r)
    (hr : r.stackbase ≠ 0) (hi : i < 8) (hocc : c.cachedStackMask.getLsbD i = false) :
    let c' := { c with cachedStack := Function.update c.cachedStack i r }
    let c'' := if (c.cachedStack i).stackbase ≠ 0 then c'.munmap (c.cachedStack i) else c'
    Exclusive (hold (Function.update f t none) c'') (regions c'') ∧ CacheOK c'' := by
  dsimp only
  have hto (own : Owner → Option Slot) (ho : own = hold f c) :
      Function.update (Function.update (Function.update own (.localSlot i) none) (.task t) none)
        (.localSlot i) (some r) =
      hold (Function.update f t none) { c with cachedStack := Function.update c.cachedStack i r } := by
    have hne : Owner.localSlot i ≠ Owner.task t := nofun
    rw [hold_replaceLocal hi hocc hr, hold_task, ho, Function.update_comm hne none none (hold f c),
      Function.update_idem]
  split
  · next hne =>
    obtain ⟨hrel, hc'⟩ := evict_owned h hc hi hocc hne
    have htr := hrel.transfer (o := .task t) (q := .localSlot i) (r := r)
      (by rw [Function.update_of_ne (by simp)]; exact ht) (Function.update_self ..)
    rw [hto _ rfl] at htr
    exact ⟨htr, hc'.bases, hc'.regular, hc'.mask⟩
  · next hnull =>
    have hnone : hold f c (.localSlot i) = none := by
      have : (c.cachedStack i).stackbase = 0 := not_not.1 hnull
      simp [hold, regionOf, this]
    have hsame : Function.update (hold f c) (.localSlot i) none = hold f c := by
      rw [← hnone, Function.update_eq_self]
    have htr := (hsame.symm ▸ h : Exclusive (Function.update (hold f c) (.localSlot i) none)
      (regions c)).transfer (o := .task t) (q := .localSlot i) (r := r)
        (by rw [Function.update_of_ne (by simp)]; exact ht) (Function.update_self ..)
    rw [hto _ rfl] at htr
    exact ⟨htr, hc.bases, hc.regular, hc.mask⟩

/-- A task gives its stack back. -/
theorem put_owned (h : Exclusive (hold f c) (regions c)) (hc : CacheOK c) (ht : f t = some r)
    (hs : SlotSeen c) : Exclusive (hold (Function.update f t none) (c.put r.stackbase r.stacksize))
      (regions (c.put r.stackbase r.stacksize)) ∧ CacheOK (c.put r.stackbase r.stacksize) := by
  have htask : hold f c (.task t) = some r := ht
  have hr : r.stackbase ≠ 0 := (hc.regular r (h.mem htask)).1
  unfold StackCache.put
  dsimp only
  split
  · next hfull =>
    cases hg : ffs c.globalCachedStackMask with
    | zero =>
      simp only [ne_eq, not_true_eq_false, if_false, if_true]
      exact put_full h hc ht hr (evictIndex_lt _) (ffs_of_zero hfull _)
    | succ i =>
      -- the first global slot reads as "none": excluded by `hs`
      have hi : i ≠ 0 := by
        rintro rfl
        exact hs ⟨hfull, hg⟩
      obtain ⟨hlt, hbit⟩ := ffs_spec hg
      have hnone : hold f c (.globalSlot i) = none := by simp [hold, hbit]
      have htr := h.transfer htask hnone
      rw [← hold_task, ← hold_fillGlobal hlt hr] at htr
      simp only [ne_eq, Nat.add_eq_zero_iff, Nat.one_ne_zero, and_false, not_false_eq_true, if_true,
        Nat.add_sub_cancel, hi, if_false]
      exact ⟨htr, hc.bases, hc.regular, hc.mask⟩
  · next hfree =>
    obtain ⟨i, hi⟩ := Nat.exists_eq_succ_of_ne_zero hfree
    obtain ⟨hlt, hnone⟩ := hc.localSlot hi
    have htr := h.transfer htask hnone
    rw [← hold_task, ← hold_fillLocal hlt hr] at htr
    rw [hi, Nat.succ_sub_one]
    refine ⟨htr, hc.bases, hc.regular, fun j hj => ?_⟩
    rw [getLsbD_clearBit (show i < 32 by omega), hc.mask j hj, Bool.false_and]

/-- Both tables are full: a local slot is replaced. -/
theorem put_eq_evict (hl : ffs c.cachedStackMask = 0) (hg : ffs c.globalCachedStackMask = 0) :
    ∃ m, c.put r.stackbase r.stacksize = { c with
      cachedStack := Function.update c.cachedStack (evictIndex r.stackbase) r
      mapped := m } := by
  simp only [StackCache.put, hl, hg, if_true, ne_eq, not_true_eq_false, if_false]
  split <;> exact ⟨_, rfl⟩

/-- The first global slot is filled, and a local slot is replaced nevertheless. -/
theorem put_eq_both (hl : ffs c.cachedStackMask = 0) (hg : ffs c.globalCachedStackMask = 1) :
    ∃ m, c.put r.stackbase r.stacksize = { c with
      globalCachedStackMask := c.globalCachedStackMask &&& ~~~(1#64 <<< 0)
      globalCachedStack := Function.update c.globalCachedStack 0 r
      cachedStack := Function.update c.cachedStack (evictIndex r.stackbase) r
      mapped := m } := by
  simp only [StackCache.put, hl, hg, if_true, ne_eq, Nat.one_ne_zero, not_false_eq_true,
    Nat.sub_self]
  split <;> exact ⟨_, rfl⟩

/-- A stack that is stored in the first global slot is stored in a local slot as well. -/
theorem put_shared (hr : r.stackbase ≠ 0) (hs : ¬SlotSeen c) (rs : Set Slot) :
    ¬Exclusive (hold f (c.put r.stackbase r.stacksize)) rs := by
  obtain ⟨hfull, hg⟩ := not_not.1 hs
  have hi := evictIndex_lt r.stackbase
  obtain ⟨hlt, -⟩ := ffs_spec hg
  obtain ⟨m, hput⟩ := put_eq_both (r := r) hfull hg
  rw [hput]
  have hglobal : hold f { c with
      globalCachedStackMask := c.globalCachedStackMask &&& ~~~(1#64 <<< 0)
      globalCachedStack := Function.update c.globalCachedStack 0 r
      cachedStack := Function.update c.cachedStack (evictIndex r.stackbase) r
      mapped := m } (.globalSlot 0) = some r := by
    have hbit := getLsbD_clearBit (x := c.globalCachedStackMask) (j := 0) hlt
    simp only [hold, hbit, hlt, bne_self_eq_false, Bool.and_false, and_self, if_true,
      Function.update_self, regionOf_of_ne hr]
  have hlocal : hold f { c with
      globalCachedStackMask := c.globalCachedStackMask &&& ~~~(1#64 <<< 0)
      globalCachedStack := Function.update c.globalCachedStack 0 r
      cachedStack := Function.update c.cachedStack (evictIndex r.stackbase) r
      mapped := m } (.localSlot (evictIndex r.stackbase)) = some r := by
    simp only [hold, hi, ffs_of_zero hfull, and_self, if_true, Function.update_self,
      regionOf_of_ne hr]
  exact Exclusive.not_of_shared hglobal hlocal nofun

/-! ## Taking a stack -/

/-- A task takes the region of a slot. -/
theorem take_owned {c' : StackCache} {o : Owner} (h : Exclusive (hold f c) (regions c))
    (hc : CacheOK c) (ht : f t = none) (ho : hold f c o = regionOf r)
    (hfree : hold f c' = Function.update (hold f c) o none) (hm : c'.mapped = c.mapped) :
    (r.stackbase = 0 → hold f c' = hold f c ∧ c'.mapped = c.mapped) ∧
      (r.stackbase ≠ 0 → r.stacksize &&& 15#32 = 0#32 ∧
        Exclusive (hold (Function.update f t (some r)) c') (regions c')) := by
  constructor
  · intro hr
    have hnone : hold f c o = none := ho.trans (if_pos hr)
    exact ⟨by rw [hfree, ← hnone, Function.update_eq_self], hm⟩
  · intro hr
    have hsome : hold f c o = some r := ho.trans (regionOf_of_ne hr)
    have htask : hold f c (.task t) = none := ht
    have htr := h.transfer hsome htask
    rw [← hfree, ← hold_task] at htr
    refine ⟨(hc.regular r (h.mem hsome)).2, ?_⟩
    rwa [show regions c' = regions c by rw [regions, regions, hm]]

/-- The stack that `fiber_stackcache_get` finds, for a task that holds none. -/
theorem get_owned (h : Exclusive (hold f c) (regions c)) (hc : CacheOK c) (ht : f t = none)
    {n : BitVec 32} {env : AllocEnv} {m : TaskId} (hn : n &&& 15#32 = 0#32)
    (henv : env.mmap.all (fun a => a ≠ 0 && c.mapped.all (·.stackbase ≠ a)) = true) :
    let g := c.get (some m) n env
    CacheOK g.1 ∧
      (g.2.stackbase = 0 → hold f g.1 = hold f c ∧ g.1.mapped = c.mapped) ∧
      (g.2.stackbase ≠ 0 → g.2.stacksize &&& 15#32 = 0#32 ∧
        Exclusive (hold (Function.update f t (some g.2)) g.1) (regions g.1)) := by
  dsimp only
  unfold StackCache.get
  rw [Option.bind_some]
  cases hl : c.findLocal n with
  | some i =>
    obtain ⟨hi, hbit⟩ := StackCache.findLocal_spec hl
    have ho : hold f c (.localSlot i) = regionOf (c.cachedStack i) := by
      simp only [hold, hi, hbit, and_self, if_true]
    refine ⟨⟨hc.bases, hc.regular, fun j hj => ?_⟩, take_owned h hc ht ho (hold_freeLocal hi) rfl⟩
    have hji : j ≠ i := by omega
    rw [getLsbD_setBit (show i < 32 by omega), hc.mask j hj, beq_false_of_ne hji, Bool.false_or]
  | none =>
    dsimp only
    cases hg : c.findGlobal n with
    | some i =>
      obtain ⟨hi, hbit⟩ := StackCache.findGlobal_spec hg
      have ho : hold f c (.globalSlot i) = regionOf (c.globalCachedStack i) := by
        simp only [hold, hi, hbit, and_self, if_true]
      exact ⟨⟨hc.bases, hc.regular, hc.mask⟩, take_owned h hc ht ho (hold_freeGlobal hi) rfl⟩
    | none =>
      dsimp only
      unfold StackCache.mmap
      cases hm : env.mmap with
      | none => exact ⟨hc, fun _ => ⟨rfl, rfl⟩, fun hr => absurd rfl hr⟩
      | some a =>
        rw [hm] at henv
        obtain ⟨ha, hfresh⟩ : a ≠ 0 ∧ ∀ r ∈ c.mapped, r.stackbase ≠ a := by simpa using henv
        dsimp only
        split
        · exact ⟨hc, fun _ => ⟨rfl, rfl⟩, fun hr => absurd rfl hr⟩
        · refine ⟨⟨?_, ?_, hc.mask⟩, fun hr => absurd hr ha, fun _ => ⟨hn, ?_⟩⟩
          · rw [List.map_cons, List.nodup_cons]
            refine ⟨fun hmem => ?_, hc.bases⟩
            obtain ⟨q, hq, hqa⟩ := List.mem_map.1 hmem
            exact hfresh q hq hqa
          · intro q hq
            rcases List.mem_cons.1 hq with rfl | hq
            · exact ⟨ha, hn⟩
            · exact hc.regular q hq
          · have hnew : (⟨a, n⟩ : Slot) ∉ regions c := fun hmem => hfresh _ hmem rfl
            have htask : hold f c (.task t) = none := ht
            have hacq := h.acquire htask hnew
            rw [← hold_task, ← hold_mapped (⟨a, n⟩ :: c.mapped)] at hacq
            have hset : regions { c with mapped := ⟨a, n⟩ :: c.mapped } =
                insert ⟨a, n⟩ (regions c) := by
              ext q
              simp [regions]
            rwa [hset]

end

namespace Sched

variable {b : Boot} {m : Move} {s s' : Sched} {t : TaskId}

/-! ## Tasks -/

/-- The region of a task whose stack came from `fiber_stackcache_get`. -/
def stackOf (x : FibTCB) : Option Slot :=
  if x.stacksize &&& MASK_SYSTEM_STACK ≠ 0 then some ⟨x.stackaddr, x.stacksize &&& ~~~15#32⟩
  else none

/-- What a task holds. -/
def stackHeld (s : Sched) (t : TaskId) : Option Slot :=
  if t ∈ s.live then stackOf (s.tcb t) else none

/-- What an owner holds. -/
def holding (s : Sched) : Owner → Option Slot := hold s.stackHeld s.cache

/-- **Unique ownership of stacks**: every region that is mapped is held by exactly one owner, and
owners hold regions that are mapped. -/
def StacksOwned (s : Sched) : Prop := Exclusive s.holding (regions s.cache)

/-- The stacks and the cache are the same in both states. -/
structure SameStacks (s s' : Sched) : Prop where
  cache : s'.cache = s.cache
  held : s'.stackHeld = s.stackHeld

theorem SameStacks.refl (s : Sched) : SameStacks s s := ⟨rfl, rfl⟩

theorem SameStacks.trans {s'' : Sched} (h : SameStacks s s') (h' : SameStacks s' s'') :
    SameStacks s s'' :=
  ⟨h'.cache.trans h.cache, h'.held.trans h.held⟩

theorem stackOf_congr {x y : FibTCB} (ha : y.stackaddr = x.stackaddr)
    (hs : y.stacksize = x.stacksize) : stackOf y = stackOf x := by
  rw [stackOf, stackOf, ha, hs]

/-- The control block of one task changes in other fields, or the task is not live. -/
theorem sameStacks_of_update {w : TaskId} {x : FibTCB} (hc : s'.cache = s.cache)
    (hl : s'.live = s.live) (ht : s'.tcb = Function.update s.tcb w x)
    (hx : w ∈ s.live → stackOf x = stackOf (s.tcb w)) : SameStacks s s' := by
  refine ⟨hc, funext fun u => ?_⟩
  rw [stackHeld, stackHeld, hl, ht]
  by_cases hu : u = w
  · subst hu
    rw [Function.update_self]
    split
    · next hlive => exact hx hlive
    · rfl
  · rw [Function.update_of_ne hu]

theorem sameStacks_of_tcb (hc : s'.cache = s.cache) (hl : s'.live = s.live) (ht : s'.tcb = s.tcb) :
    SameStacks s s' :=
  ⟨hc, funext fun u => by rw [stackHeld, stackHeld, hl, ht]⟩

theorem sameStacks_arrive : SameStacks s s.arrive := by
  rcases arrive_eq (s := s) with ha | ⟨c, -, ha⟩ <;> rw [ha]
  · exact .refl s
  · exact sameStacks_of_update rfl rfl rfl fun _ => rfl

theorem sameStacks_schedule (hr : Settled b s) (hs : s.schedule = some s') : SameStacks s s' := by
  obtain ⟨t, l, -, -, -, he⟩ := hr.schedule
  rw [hs] at he
  obtain rfl := Option.some.inj he
  have hq : SameStacks s { s with currentTask := t, readylist := l } := ⟨rfl, rfl⟩
  exact hq.trans sameStacks_arrive

/-- A transition of a move that neither creates nor ends a task. -/
theorem Inv.sameStacks_tr (h : Inv b s) (htr : Tr m s s') (hm : usesStack m = false) :
    SameStacks s s' := by
  cases htr with
  | quiet _ hq => exact sameStacks_of_tcb (hq.cache hm) hq.live hq.tcb
  | localdata w => exact sameStacks_of_update rfl rfl rfl fun _ => rfl
  | scrap w => exact sameStacks_of_update rfl rfl rfl fun _ => rfl
  | spawn hm' => rw [hm] at hm'; cases hm'
  | exit hm' => subst hm'; cases hm
  | ret => exact ⟨rfl, rfl⟩
  | semInit => exact ⟨rfl, rfl⟩
  | take => exact ⟨rfl, rfl⟩
  | unit => exact ⟨rfl, rfl⟩
  | unitGrant _ w => exact sameStacks_of_update rfl rfl rfl fun _ => rfl
  | grant w => exact sameStacks_of_update rfl rfl rfl fun _ => rfl
  | expire _ w => exact sameStacks_of_update rfl rfl rfl fun _ => rfl
  | took => exact sameStacks_of_update rfl rfl rfl fun _ => rfl
  | posted w => exact sameStacks_of_update rfl rfl rfl fun _ => rfl
  | eventGrant w => exact sameStacks_of_update rfl rfl rfl fun _ => rfl
  | park c x _ _ hne hb hk hd _ hs =>
    have hsus : SameStacks s (s.suspend c x) := by
      refine sameStacks_of_update (w := s.currentTask) ?_ (live_suspend x) rfl fun _ => ?_
      · unfold Sched.suspend joinQueue
        split <;> rfl
      · exact stackOf_congr hk.stackaddr hk.stacksize
    exact hsus.trans (sameStacks_schedule (h.suspend hne hb
      (hk.scheduler.trans h.idle.scheduler) hd hk.pendingEvents) hs)
  | schedYield _ _ hs =>
    have hy : SameStacks s s.yielded := sameStacks_of_update (w := s.currentTask) rfl rfl rfl fun _ => rfl
    exact hy.trans (sameStacks_schedule h.yielded hs)

theorem Inv.sameStacks_trs (h : Inv b s) (htr : Trs m s s') (hm : usesStack m = false) :
    SameStacks s s' := by
  induction htr with
  | refl => exact .refl s
  | tail htr hlast ih => exact ih.trans ((h.trs htr).sameStacks_tr hlast hm)

/-! ## Creation and exit -/

theorem roundUp_and (n : BitVec 32) : ((n + 4095) / 4096) * 4096 &&& 15#32 = 0#32 := by
  apply BitVec.eq_of_toNat_eq
  rw [BitVec.toNat_and, BitVec.toNat_mul, show (15#32).toNat = 2 ^ 4 - 1 from rfl,
    Nat.and_two_pow_sub_one_eq_mod, show (4096 : BitVec 32).toNat = 4096 from rfl]
  simp only [BitVec.toNat_ofNat]
  omega

/-- The flag in the size says that the stack is to be given back; the rest is the size. -/
theorem stackOf_flagged {x : FibTCB} {r : Slot} (hr : r.stacksize &&& 15#32 = 0#32)
    (ha : x.stackaddr = r.stackbase) (hs : x.stacksize = r.stacksize ||| MASK_SYSTEM_STACK) :
    stackOf x = some r := by
  have hall : r.stacksize &&& ~~~15#32 = r.stacksize := by
    calc r.stacksize &&& ~~~15#32 = (r.stacksize &&& 15#32) ||| (r.stacksize &&& ~~~15#32) := by
          rw [hr, BitVec.zero_or]
      _ = r.stacksize &&& (15#32 ||| ~~~15#32) := BitVec.and_or_distrib_left.symm
      _ = r.stacksize := by
          rw [show 15#32 ||| ~~~15#32 = BitVec.allOnes 32 by decide, BitVec.and_allOnes]
  have hsize : x.stacksize &&& ~~~15#32 = r.stacksize := by
    rw [hs, BitVec.and_or_distrib_right, hall,
      show MASK_SYSTEM_STACK &&& ~~~15#32 = 0#32 by decide, BitVec.or_zero]
  have hflag : x.stacksize &&& MASK_SYSTEM_STACK ≠ 0 := by
    intro hz
    have hbit := congrArg (BitVec.getLsbD · 0) hz
    rw [hs] at hbit
    simp [MASK_SYSTEM_STACK] at hbit
  rw [stackOf, if_pos hflag, ha, hsize]

/-- A creation finds no control block, or no stack, or makes a new task that has its stack. -/
theorem Inv.create_stacks (h : Inv b s) (stackaddr : Addr) (n : BitVec 32) {env : AllocEnv}
    (hfresh : env.malloc.all s.freshTcbs = true) :
    let q := s.newStack stackaddr n env
    let s' := s.fiberCreate stackaddr n env
    (s'.live = s.live ∧ s'.cache = s.cache ∧ s'.stackHeld = s.stackHeld) ∨
      ∃ w, w ∉ s.live ∧ s'.cache = q.1 ∧
        (q.2.stackbase = 0 ∧ s'.live = s.live ∧ s'.stackHeld = s.stackHeld ∨
          q.2.stackbase ≠ 0 ∧ s'.live = w :: s.live ∧ s'.tcb w = s.newTcb w q.2 ∧
            s'.stackHeld = Function.update s.stackHeld w (stackOf (s.newTcb w q.2))) := by
  dsimp only
  rcases ha : s.pool.alloc env.malloc with ⟨_ | w, p⟩
  · have hs : s.fiberCreate stackaddr n env =
        ({ s with pool := p } : Sched).ret s.currentTask (.create stackaddr n env) (.task none) := by
      simp only [fiberCreate, ha]
    rw [hs]
    exact .inl ⟨rfl, rfl, rfl⟩
  · obtain ⟨hl, -, -, -⟩ := alloc_spec h.pool hfresh ha
    have hne : w ≠ s.theMaintask := fun e => hl (by
      obtain ⟨l, hr⟩ := h.ready
      exact e ▸ (h.stand _).live_of_ready (by simp [chain, hr]))
    rw [fiberCreate_eq ha hne rfl]
    generalize s.newStack stackaddr n env = q
    split
    · next hz =>
      refine .inr ⟨w, hl, rfl, .inl ⟨hz, rfl, funext fun u => ?_⟩⟩
      by_cases hu : u = w
      · simp [stackHeld, Sched.ret, Sched.emit, hu, hl]
      · simp [stackHeld, Sched.ret, Sched.emit, hu]
    · next hz =>
      refine .inr ⟨w, hl, rfl, .inr ⟨hz, rfl, by simp [Sched.ret, Sched.emit, Sched.spawn],
        funext fun u => ?_⟩⟩
      by_cases hu : u = w
      · simp [stackHeld, Sched.ret, Sched.emit, Sched.spawn, hu]
      · simp [stackHeld, Sched.ret, Sched.emit, Sched.spawn, hu]

/-- A new task gets its stack, or none. -/
theorem Inv.create_owned (h : Inv b s) (ho : StacksOwned s) (hc : CacheOK s.cache)
    {n : BitVec 32} {env : AllocEnv} (hp : s.permittedCall (.create 0 n env) = true) :
    StacksOwned (s.fiberCreate 0 n env) ∧ CacheOK (s.fiberCreate 0 n env).cache := by
  obtain ⟨hfresh, hmap⟩ := Bool.and_eq_true_iff.1 hp
  have hspec := h.create_stacks 0 n hfresh
  set s' := s.fiberCreate 0 n env
  have hstack : s.newStack 0 n env =
      ((s.cache.get (some s.theMaintask) (((n + 4095) / 4096) * 4096) env).1,
        { (s.cache.get (some s.theMaintask) (((n + 4095) / 4096) * 4096) env).2 with
          stacksize := (s.cache.get (some s.theMaintask) (((n + 4095) / 4096) * 4096) env).2.stacksize
            ||| MASK_SYSTEM_STACK }) := rfl
  rw [hstack] at hspec
  have hgot {w : TaskId} (hw : s.stackHeld w = none) :=
    get_owned (m := s.theMaintask) ho hc hw (roundUp_and n) hmap
  generalize s.cache.get (some s.theMaintask) (((n + 4095) / 4096) * 4096) env = g at hspec hgot
  rw [StacksOwned, holding]
  obtain ⟨-, hcache, hheld⟩ | ⟨w, hw, hcache, hnew⟩ := hspec
  · rw [hcache, hheld]
    exact ⟨ho, hc⟩
  · obtain ⟨hc', hfail, hown⟩ := hgot (if_neg hw)
    rw [hcache]
    refine ⟨?_, hc'⟩
    obtain ⟨hz, -, hheld⟩ | ⟨hz, -, -, hheld⟩ := hnew
    · obtain ⟨h1, h2⟩ := hfail hz
      rw [hheld, h1, show regions g.1 = regions s.cache by rw [regions, regions, h2]]
      exact ho
    · obtain ⟨hsize, hex⟩ := hown hz
      rw [hheld, stackOf_flagged hsize rfl rfl]
      exact hex

/-- The stack of the task that exits goes into the cache. -/
theorem exit_stacks (h : Inv b s) : s.cppTaskmain.cache = s.exitCache ∧
    s.cppTaskmain.stackHeld = Function.update s.stackHeld s.currentTask none := by
  rw [cppTaskmain_eq h.idle]
  obtain ⟨hcache, hheld⟩ := sameStacks_arrive
    (s := { ({ s with cache := s.exitCache } : Sched).bury with currentTask := s.theMaintask })
  refine ⟨hcache, hheld.trans (funext fun u => ?_)⟩
  by_cases hu : u = s.currentTask
  · subst hu
    have : s.currentTask ∉ s.live.erase s.currentTask := fun hm => (h.lives.mem_erase_iff.1 hm).1 rfl
    simp [stackHeld, Sched.bury, this]
  · simp [stackHeld, Sched.bury, hu, List.mem_erase_of_ne hu]

end Sched

open Sched

/-! ## Runs -/

/-- The move creates a task on a stack that the caller provides. -/
def Move.ownStack : Move → Bool
  | .call (.create stackaddr _ _) => stackaddr ≠ 0
  | _ => false

/-- Stacks are requested from the library, and no stack is stored in the first slot of the global
table. -/
def KeepsStacks (s : Sched) (m : Move) : Prop :=
  (m.ownStack = false) ∧
    (m = .exit → stackOf (s.tcb s.currentTask) ≠ none → SlotSeen s.cache)

instance (s : Sched) (m : Move) : Decidable (KeepsStacks s m) :=
  inferInstanceAs (Decidable (_ ∧ (m = .exit → stackOf (s.tcb s.currentTask) ≠ none → SlotSeen s.cache)))

namespace Sched

variable {b : Boot} {m : Move} {s s' : Sched}

/-- An exit keeps stacks apart exactly if it does not use the first slot of the global table. -/
theorem Inv.exit_owned (h : Inv b s) (ho : StacksOwned s) (hc : CacheOK s.cache) :
    (StacksOwned s.cppTaskmain ↔ KeepsStacks s .exit) ∧
      (KeepsStacks s .exit → CacheOK s.cppTaskmain.cache) := by
  obtain ⟨hcache, hheld⟩ := exit_stacks h
  have hiff : StacksOwned s.cppTaskmain ↔
      Exclusive (hold (Function.update s.stackHeld s.currentTask none) s.exitCache)
        (regions s.exitCache) := by
    rw [StacksOwned, holding, hcache, hheld]
  have hown : s.stackHeld s.currentTask = stackOf (s.tcb s.currentTask) := if_pos h.live
  rw [hiff, hcache]
  by_cases hflag : (s.tcb s.currentTask).stacksize &&& MASK_SYSTEM_STACK ≠ 0
  · have hstack : stackOf (s.tcb s.currentTask) = some ⟨(s.tcb s.currentTask).stackaddr,
        (s.tcb s.currentTask).stacksize &&& ~~~15#32⟩ := if_pos hflag
    have hexit : s.exitCache = s.cache.put (s.tcb s.currentTask).stackaddr
        ((s.tcb s.currentTask).stacksize &&& ~~~15#32) := if_pos hflag
    have hne : stackOf (s.tcb s.currentTask) ≠ none := by rw [hstack]; nofun
    have hheld' := hown.trans hstack
    rw [hexit]
    refine ⟨⟨fun hex => ⟨rfl, fun _ _ => ?_⟩, fun hk => (put_owned ho hc hheld' (hk.2 rfl hne)).1⟩,
      fun hk => (put_owned ho hc hheld' (hk.2 rfl hne)).2⟩
    by_contra hs
    have hreg : (⟨(s.tcb s.currentTask).stackaddr,
        (s.tcb s.currentTask).stacksize &&& ~~~15#32⟩ : Slot) ∈ regions s.cache :=
      ho.mem (o := .task s.currentTask) hheld'
    exact put_shared (hc.regular _ hreg).1 hs _ hex
  · have hstack : stackOf (s.tcb s.currentTask) = none := if_neg hflag
    have hexit : s.exitCache = s.cache := if_neg hflag
    have hsame : Function.update s.stackHeld s.currentTask none = s.stackHeld := by
      rw [← hown.trans hstack, Function.update_eq_self]
    rw [hexit, hsame]
    exact ⟨⟨fun _ => ⟨rfl, fun _ hne => absurd hstack hne⟩, fun _ => ho⟩, fun _ => hc⟩

theorem Inv.stacks_step (h : Inv b s) (ho : StacksOwned s) (hc : CacheOK s.cache)
    (hs : s.step m = some s') (hok : KeepsStacks s m) : StacksOwned s' ∧ CacheOK s'.cache := by
  have keep (hm : usesStack m = false) : StacksOwned s' ∧ CacheOK s'.cache := by
    obtain ⟨hcache, hheld⟩ := h.sameStacks_trs (h.trs_step hs) hm
    rw [StacksOwned, holding, hcache, hheld]
    exact ⟨ho, hc⟩
  have hexec : s.permitted m = true ∧ s.exec m = some s' := by
    unfold Sched.step at hs
    split at hs
    · next hp => exact ⟨hp, hs⟩
    · cases hs
  obtain ⟨hp, he⟩ := hexec
  cases m with
  | call c =>
    cases c with
    | create stackaddr n env =>
      obtain rfl : stackaddr = 0 := by simpa [Move.ownStack] using hok.1
      obtain rfl := Option.some.inj he
      exact h.create_owned ho hc (Bool.and_eq_true_iff.1 hp).1
    | _ => exact keep rfl
  | exit =>
    obtain rfl := Option.some.inj he
    obtain ⟨h1, h2⟩ := h.exit_owned ho hc
    exact ⟨h1.2 hok, h2 hok⟩
  | _ => exact keep rfl

theorem stacksOwned_boot (b : Boot) : StacksOwned (boot b) ∧ CacheOK (boot b).cache := by
  have hnone (o : Owner) : (boot b).holding o = none := by
    cases o with
    | task t =>
      have : stackOf ((boot b).tcb b.maintask) = none := by simp [stackOf, boot]
      by_cases ht : t = b.maintask
      · subst ht
        simp [holding, hold, stackHeld, this]
      · have hl : t ∉ (boot b).live := by simpa [boot] using ht
        simp [holding, hold, stackHeld, hl]
    | localSlot i => simp [holding, hold, boot, regionOf]
    | globalSlot i => simp [holding, hold, boot, regionOf]
  refine ⟨⟨fun {o r} ho => ?_, fun r hr => absurd hr List.not_mem_nil⟩,
    ⟨List.nodup_nil, (by rintro _ ⟨⟩), fun i hi => ?_⟩⟩
  · rw [hnone o] at ho
    cases ho
  · show (0xFF#32).getLsbD i = false
    rw [BitVec.getLsbD_ofNat, show (0xFF : Nat) = 2 ^ 8 - 1 from rfl, Nat.testBit_two_pow_sub_one]
    simp [not_lt.2 hi]

end Sched

/-- **Every stack region has exactly one owner**, in every run in which no stack is stored in the
first slot of the global table; an exit that stores one there gives its region two owners. -/
theorem reach_stacksOwned {b : Boot} {s : Sched} (h : Reach Sched.step KeepsStacks (boot b) s) :
    StacksOwned s ∧ ∀ s', s.step .exit = some s' → (StacksOwned s' ↔ KeepsStacks s .exit) := by
  have hrun : Inv b s ∧ StacksOwned s ∧ CacheOK s.cache := by
    refine h.invariant (P := fun s => Inv b s ∧ StacksOwned s ∧ CacheOK s.cache)
      ⟨inv_boot b, stacksOwned_boot b⟩ ?_
    intro s m s' ⟨hi, ho, hc⟩ hok hs
    exact ⟨hi.step hs, hi.stacks_step ho hc hs hok⟩
  obtain ⟨hi, ho, hc⟩ := hrun
  refine ⟨ho, fun s' hs => ?_⟩
  unfold Sched.step at hs
  split at hs
  · obtain rfl := Option.some.inj hs
    exact (hi.exit_owned ho hc).1
  · cases hs

/-- A call of `fiber_create` that requests a stack of the library. -/
def requestStack (stacksize : BitVec 32) (env : AllocEnv) : Move := .call (.create 0 stacksize env)

/-- Two tasks get new stacks and exit; a third one gets a stack from the cache. -/
def reuseRun : List Move :=
  [requestStack 16384 { malloc := some 100, mmap := some 0x10000 },
    requestStack 8192 { mmap := some 0x20000 }, .schedulerStart, .schedulerPass,
    .schedulerExhaust, .exit, .schedulerExhaust, .exit, .schedulerExhaust, requestStack 16384 {}]

set_option maxRecDepth 4000 in
theorem reuseRun_stacksOwned :
    ∃ s, reuseRun.foldlM (Reach.guarded Sched.step KeepsStacks) (boot {}) = some s ∧
      s.stackHeld 163 = some ⟨0x10000, 16384⟩ ∧
      (StacksOwned s ∧ ∀ s', s.step .exit = some s' → (StacksOwned s' ↔ KeepsStacks s .exit)) := by
  have hrun : ((reuseRun.foldlM (Reach.guarded Sched.step KeepsStacks) (boot {})).map fun s =>
      s.stackHeld 163) = some (some ⟨0x10000, 16384⟩) := by
    decide +kernel
  obtain ⟨s, hs, he⟩ := Option.map_eq_some_iff.1 hrun
  exact ⟨s, hs, he, reach_stacksOwned (Reach.of_guarded hs)⟩

/-- Four requests for a stack of size `0` free the first four slots of the empty global table; then
nine tasks get new stacks and exit, one more than the local cache has slots, and nine more tasks
are created. -/
def sharedRun : List Move :=
  requestStack 0 { malloc := some 100 } :: List.replicate 3 (requestStack 0 {}) ++
  (List.range 9).map (fun i =>
    requestStack 65536 { mmap := some (BitVec.ofNat 64 (65536 * (i + 1))) }) ++
  [.schedulerStart, .schedulerPass] ++ (List.replicate 9 [.schedulerExhaust, .exit]).flatten ++
  [.schedulerExhaust] ++ List.replicate 9 (requestStack 65536 {})

set_option maxRecDepth 8000 in
/-- The last exit stored its stack in global slot `0` and in a local slot: two tasks run on it. -/
theorem sharedRun_not_stacksOwned :
    ∃ s, Reachable {} s ∧ 100 ∈ s.live ∧ 158 ∈ s.live ∧
      s.stackHeld 100 = some ⟨0x90000, 0x10000⟩ ∧ s.stackHeld 158 = some ⟨0x90000, 0x10000⟩ ∧
      ¬ StacksOwned s := by
  have hrun : ((sharedRun.foldlM Sched.step (boot {})).map fun s =>
      (decide (100 ∈ s.live), decide (158 ∈ s.live), s.stackHeld 100, s.stackHeld 158)) =
        some (true, true, some ⟨0x90000, 0x10000⟩, some ⟨0x90000, 0x10000⟩) := by
    decide +kernel
  obtain ⟨s, hs, he⟩ := Option.map_eq_some_iff.1 hrun
  obtain ⟨h1, h2, h3, h4⟩ : 100 ∈ s.live ∧ 158 ∈ s.live ∧
      s.stackHeld 100 = some ⟨0x90000, 0x10000⟩ ∧ s.stackHeld 158 = some ⟨0x90000, 0x10000⟩ := by
    simpa using he
  refine ⟨s, Reach.of_foldlM hs, h1, h2, h3, h4, ?_⟩
  have o1 : s.holding (.task 100) = some ⟨0x90000, 0x10000⟩ := h3
  have o2 : s.holding (.task 158) = some ⟨0x90000, 0x10000⟩ := h4
  exact Lib.Exclusive.not_of_shared o1 o2 (by decide)

end Ptask.OneN
