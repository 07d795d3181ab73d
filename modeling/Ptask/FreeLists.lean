import Ptask.Lib.FreeList
import Ptask.Lib.Reach
import Ptask.StackCache

/-!
# The free control blocks of all threads

`tcb_alloc` and `tcb_free` on any number of service threads, with the links that the free control
blocks hold in their first word. A control block that is in use has a link of the ready list or a wait
queue there, so its first word may change at any time. The local list of a thread is its own; the
global one is changed under its lock, in one step. A call that finds both lists empty asks `malloc`
for a block in a step of its own, and frees all but the first of it, which goes to its own list.

Every control block is in use or on one of the lists, and there once (`reach_places`); on one thread
this is the pool of `Ptask.StackCache` (`abs_tcbFree`, `abs_tcbAlloc`, `abs_refill`).
-/

namespace Ptask.Frees

open Lib

abbrev ThreadId := Nat

/-- The first words of the control blocks, the free lists of the threads with their recorded sizes,
and the global free list. `refilling` tells that the thread is in `tcb_alloc` and has found the lists
empty, `ended` that its maintask has returned. `live`, the control blocks in use, and `made`, all that
there are, are ghost state. -/
structure Pools where
  next : TaskId → Option TaskId
  theMaintask : ThreadId → Option TaskId := fun _ => none
  freedlist : ThreadId → Option TaskId := fun _ => none
  freedsize : ThreadId → Int := fun _ => 0
  globalFreedlist : Option TaskId := none
  refilling : ThreadId → Bool := fun _ => false
  ended : ThreadId → Bool := fun _ => false
  live : List TaskId := []
  made : List TaskId := []

namespace Pools

/-- `tcb_free`, on the thread `k`. -/
def tcbFree (p : Pools) (k : ThreadId) (tcb : TaskId) : Pools :=
  if p.freedsize k < MAX_LOCAL_FREED_TASKS then
    { p with
      next := Function.update p.next tcb (p.freedlist k)
      freedlist := Function.update p.freedlist k (some tcb)
      freedsize := Function.update p.freedsize k (p.freedsize k + 1) }
  else
    { p with
      next := Function.update p.next tcb p.globalFreedlist
      globalFreedlist := some tcb }

section

variable (p : Pools) (k : ThreadId) (tcb : TaskId)

@[simp] theorem tcbFree_refilling : (p.tcbFree k tcb).refilling = p.refilling := by
  unfold tcbFree
  split <;> rfl

@[simp] theorem tcbFree_live : (p.tcbFree k tcb).live = p.live := by
  unfold tcbFree
  split <;> rfl

end

/-- `tcb_alloc` on the thread `k`, which has a maintask, as far as the lists: the control block taken,
or `none` when they are empty. -/
def tcbAlloc (p : Pools) (k : ThreadId) : Option TaskId × Pools :=
  match p.freedlist k with
  | some tcb =>
    (some tcb, { p with
      freedlist := Function.update p.freedlist k (p.next tcb)
      freedsize := Function.update p.freedsize k (p.freedsize k - 1) })
  | none =>
    match p.globalFreedlist with
    | some tcb => (some tcb, { p with globalFreedlist := p.next tcb })
    | none => (none, p)

/-- The loop of `tcb_alloc` over the control blocks of a fresh block but the first. -/
def freeRest (p : Pools) (k : ThreadId) (tcbs : TaskId) : Pools :=
  (List.range (TCB_INCREASE_SIZE_AT_EMPTY - 1)).foldl (fun p i => p.tcbFree k (tcbs + (i + 1))) p

end Pools

/-- The control blocks that one `malloc` of `tcb_alloc` gives. -/
def block (tcbs : TaskId) : List TaskId := (List.range TCB_INCREASE_SIZE_AT_EMPTY).map (tcbs + ·)

inductive Move
  /-- The first `fiber_create` of the thread `k` asks `malloc` for the control block `t` of its
  maintask. -/
  | start (k : ThreadId) (t : TaskId)
  | alloc (k : ThreadId)
  /-- `tcb_alloc` goes on with `malloc`. -/
  | refill (k : ThreadId) (malloc : Option TaskId)
  /-- A task that ends on `k`, or a `fiber_create` on `k` that has no stack, frees the control
  block. -/
  | free (k : ThreadId) (t : TaskId)
  /-- The first word of a control block that is in use changes. -/
  | link (t : TaskId) (v : Option TaskId)
deriving DecidableEq, Repr

/-- All of a block but the first control block. -/
def rest (tcbs : TaskId) : List TaskId :=
  (List.range (TCB_INCREASE_SIZE_AT_EMPTY - 1)).map fun i => tcbs + (i + 1)

theorem block_eq (tcbs : TaskId) : block tcbs = tcbs :: rest tcbs := by
  have hrange : List.range TCB_INCREASE_SIZE_AT_EMPTY =
      0 :: (List.range (TCB_INCREASE_SIZE_AT_EMPTY - 1)).map Nat.succ := List.range_succ_eq_map
  rw [block, hrange, List.map_cons, List.map_map]
  rfl

theorem block_nodup (tcbs : TaskId) : (block tcbs).Nodup :=
  List.nodup_range.map fun _ _ => Nat.add_left_cancel

theorem freeRest_eq (p : Pools) (k : ThreadId) (tcbs : TaskId) :
    p.freeRest k tcbs = (rest tcbs).foldl (fun p t => p.tcbFree k t) p :=
  List.foldl_map.symm

theorem tcbAlloc_none {p p' : Pools} {k : ThreadId} (h : p.tcbAlloc k = (none, p')) :
    p.freedlist k = none ∧ p.globalFreedlist = none ∧ p' = p := by
  unfold Pools.tcbAlloc at h
  split at h
  · cases h
  · next hfreed =>
    split at h
    · cases h
    · next hglobal =>
      cases h
      exact ⟨hfreed, hglobal, rfl⟩

theorem tcbAlloc_live {p p' : Pools} {k : ThreadId} {t : TaskId} (h : p.tcbAlloc k = (some t, p')) :
    p'.live = p.live := by
  unfold Pools.tcbAlloc at h
  split at h
  · cases h
    rfl
  · split at h
    · cases h
      rfl
    · cases h

namespace Pools

/-- The thread is between two calls. -/
def runs (p : Pools) (k : ThreadId) : Bool :=
  (p.theMaintask k).isSome && !p.refilling k && !p.ended k

theorem refilling_of_runs {p : Pools} {k : ThreadId} (h : p.runs k) : p.refilling k = false := by
  simp only [runs, Bool.and_eq_true, Bool.not_eq_true'] at h
  exact h.1.2

/-- `malloc` returns memory that is not in use. The thread ends with its maintask. -/
def step (p : Pools) : Move → Option Pools
  | .start k t =>
    if p.theMaintask k = none ∧ t ∉ p.made then
      some { p with
        theMaintask := Function.update p.theMaintask k (some t)
        live := t :: p.live
        made := t :: p.made }
    else none
  | .alloc k =>
    if p.runs k then
      match p.tcbAlloc k with
      | (some t, p) => some { p with live := t :: p.live }
      | (none, p) => some { p with refilling := Function.update p.refilling k true }
    else none
  | .refill k none =>
    if p.refilling k = true then
      some { p with refilling := Function.update p.refilling k false }
    else none
  | .refill k (some tcbs) =>
    if p.refilling k = true ∧ ∀ t ∈ block tcbs, t ∉ p.made then
      let p := { p with
        refilling := Function.update p.refilling k false
        live := tcbs :: p.live
        made := block tcbs ++ p.made }
      some (p.freeRest k tcbs)
    else none
  | .free k t =>
    if p.runs k ∧ t ∈ p.live then
      some ({ p with
        ended := Function.update p.ended k (p.theMaintask k = some t)
        live := p.live.erase t }.tcbFree k t)
    else none
  | .link t v => if t ∈ p.live then some { p with next := Function.update p.next t v } else none

end Pools

/-- Before the first thread has started. -/
def init (next : TaskId → Option TaskId) : Pools where
  next := next

/-! ## The invariant -/

/-- Where a control block is. -/
inductive Place
  | live
  | freed (k : ThreadId)
  | global
deriving DecidableEq, Repr

/-- The lists `ch` are what the links lead through; the control blocks `pend` are in none of them. -/
structure PoolsOk (p : Pools) (ch : Place → List TaskId) (pend : List TaskId) : Prop where
  live : ch .live = p.live
  freed : ∀ k, IsList p.next (p.freedlist k) (ch (.freed k))
  global : IsList p.next p.globalFreedlist (ch .global)
  size : ∀ k, p.freedsize k = (ch (.freed k)).length
  bound : ∀ k, p.freedsize k ≤ MAX_LOCAL_FREED_TASKS
  distinct : Distinct ch
  located : ∀ t, ∃ o, Located ch t o ∧ (o = none ↔ t ∉ p.made ∨ t ∈ pend)
  pending : pend.Nodup
  known : ∀ t ∈ pend, t ∈ p.made
  refilling : ∀ k, p.refilling k = true → p.freedlist k = none

section

variable {p p' : Pools} {ch : Place → List TaskId} {pend : List TaskId} {k : ThreadId} {t : TaskId}

namespace PoolsOk

theorem located_none (h : PoolsOk p ch pend) (ht : t ∉ p.made ∨ t ∈ pend) : Located ch t none := by
  obtain ⟨o, ho, hiff⟩ := h.located t
  rwa [hiff.2 ht] at ho

theorem located_live (h : PoolsOk p ch pend) (ht : t ∈ p.live) : Located ch t (some .live) := by
  obtain ⟨o, ho, -⟩ := h.located t
  rwa [ho.eq_of_mem (h.live ▸ ht)] at ho

theorem made_of_located {c : Place} (h : PoolsOk p ch pend) (hloc : Located ch t (some c)) :
    t ∈ p.made := by
  obtain ⟨o, ho, hiff⟩ := h.located t
  by_contra hm
  have hn := hiff.2 (.inl hm)
  rw [ho.unique hloc] at hn
  cases hn

/-- A control block that is taken off its list is in the hands of a call. -/
theorem located_unlink (h : PoolsOk p ch []) (t u : TaskId) :
    ∃ o, Located (Lib.unlink ch t) u o ∧ (o = none ↔ u ∉ p.made ∨ u ∈ [t]) := by
  by_cases hut : u = t
  · subst hut
    exact ⟨none, .unlink h.distinct, iff_of_true rfl (.inr List.mem_cons_self)⟩
  · obtain ⟨o, ho, hiff⟩ := h.located u
    refine ⟨o, ho.unlink_of_ne hut, ?_⟩
    rw [hiff, List.mem_singleton]
    simp [hut]

/-- A control block that is put on a list is on that list only. -/
theorem located_put (h : PoolsOk p ch (t :: pend)) (c : Place) (u : TaskId) :
    ∃ o, Located (put ch c t) u o ∧ (o = none ↔ u ∉ p.made ∨ u ∈ pend) := by
  have hnd := List.nodup_cons.1 h.pending
  by_cases hut : u = t
  · subst hut
    refine ⟨some c, (h.located_none (.inr List.mem_cons_self)).put, iff_of_false nofun ?_⟩
    rintro (hm | hp)
    · exact hm (h.known u List.mem_cons_self)
    · exact hnd.1 hp
  · obtain ⟨o, ho, hiff⟩ := h.located u
    refine ⟨o, ho.put_of_ne hut, ?_⟩
    rw [hiff, List.mem_cons, or_iff_right hut]

/-- A control block in the hands of a call is freed. -/
theorem tcbFree (h : PoolsOk p ch (t :: pend)) (hk : p.refilling k = false) :
    ∃ ch', PoolsOk (p.tcbFree k t) ch' pend := by
  have ht := h.located_none (.inr List.mem_cons_self)
  have hnd := List.nodup_cons.1 h.pending
  have hknown : ∀ u ∈ pend, u ∈ p.made := fun u hu => h.known u (List.mem_cons_of_mem _ hu)
  have hne {c d : Place} (hc : d ≠ c) : put ch c t d = ch d := put_of_ne hc
  have hlive (c : Place) (hc : .live ≠ c) : put ch c t .live = p.live := by
    rw [hne hc, h.live]
  unfold Pools.tcbFree
  split
  · next hlt =>
    refine ⟨put ch (.freed k) t, hlive _ nofun, fun j => ?_, ?_, fun j => ?_, fun j => ?_,
      h.distinct.put ht, h.located_put _, hnd.2, hknown, fun j hj => ?_⟩
    · by_cases hj : j = k
      · subst hj
        rw [put_self]
        simpa using (h.freed j).push ht.not_mem
      · rw [put_of_ne fun e => hj (Place.freed.inj e)]
        simpa [hj] using (h.freed j).update ht.not_mem _
    · have hglobal : put ch (.freed k) t .global = ch .global := hne nofun
      rw [hglobal]
      exact h.global.update ht.not_mem _
    · by_cases hj : j = k
      · subst hj
        rw [put_self]
        simp [h.size]
      · rw [put_of_ne fun e => hj (Place.freed.inj e)]
        simp [hj, h.size]
    · by_cases hj : j = k
      · subst hj
        simp only [Function.update_self]
        omega
      · simpa [hj] using h.bound j
    · have hjk : j ≠ k := by
        rintro rfl
        rw [hk] at hj
        cases hj
      simpa [hjk] using h.refilling j hj
  · refine ⟨put ch .global t, hlive _ nofun, fun j => ?_, ?_, fun j => ?_, h.bound,
      h.distinct.put ht, h.located_put _, hnd.2, hknown, h.refilling⟩
    · have hfreed : put ch .global t (.freed j) = ch (.freed j) := hne nofun
      rw [hfreed]
      exact (h.freed j).update ht.not_mem _
    · rw [put_self]
      exact h.global.push ht.not_mem
    · have hfreed : put ch .global t (.freed j) = ch (.freed j) := hne nofun
      rw [hfreed]
      exact h.size j

/-- The lists and the size of the thread are all that matters for `tcb_free`. -/
theorem foldl_tcbFree (ts : List TaskId) (h : PoolsOk p ch (ts ++ pend))
    (hk : p.refilling k = false) :
    ∃ ch', PoolsOk (ts.foldl (fun p t => p.tcbFree k t) p) ch' pend := by
  induction ts generalizing p ch with
  | nil => exact ⟨ch, h⟩
  | cons t ts ih =>
    obtain ⟨ch', h'⟩ := h.tcbFree hk
    exact ih h' (by simpa using hk)

/-- What is in use is taken into the hands of a call. -/
theorem release (h : PoolsOk p ch []) (ht : t ∈ p.live) :
    ∃ ch', PoolsOk { p with live := p.live.erase t } ch' [t] := by
  have hloc := h.located_live ht
  have hne (c : Place) (hc : c ≠ .live) : Lib.unlink ch t c = ch c :=
    List.erase_of_not_mem (hloc.not_mem_of_ne fun e => hc (Option.some.inj e).symm)
  refine ⟨Lib.unlink ch t, ?_, fun k => ?_, ?_, fun k => ?_, h.bound, h.distinct.unlink t,
    h.located_unlink t, List.nodup_singleton t, fun u hu => ?_, h.refilling⟩
  · rw [Lib.unlink, h.live]
  · rw [hne (.freed k) (by rintro ⟨⟩)]
    exact h.freed k
  · rw [hne .global (by rintro ⟨⟩)]
    exact h.global
  · rw [hne (.freed k) (by rintro ⟨⟩)]
    exact h.size k
  · obtain rfl := List.mem_singleton.1 hu
    exact h.made_of_located hloc

/-- A call puts what it has in its hands to use. -/
theorem use (h : PoolsOk p ch (t :: pend)) :
    ∃ ch', PoolsOk { p with live := t :: p.live } ch' pend := by
  have ht := h.located_none (.inr List.mem_cons_self)
  have hnd := List.nodup_cons.1 h.pending
  have hne {d : Place} (hd : d ≠ .live) : put ch .live t d = ch d := put_of_ne hd
  refine ⟨put ch .live t, ?_, fun k => ?_, ?_, fun k => ?_, h.bound, h.distinct.put ht,
    h.located_put _, hnd.2, fun u hu => h.known u (List.mem_cons_of_mem _ hu), h.refilling⟩
  · rw [put_self, h.live]
  · rw [hne (d := .freed k) nofun]
    exact h.freed k
  · rw [hne (d := .global) nofun]
    exact h.global
  · rw [hne (d := .freed k) nofun]
    exact h.size k

/-- The links of what is in use are on no free list. -/
theorem link (h : PoolsOk p ch []) (ht : t ∈ p.live) (v : Option TaskId) :
    PoolsOk { p with next := Function.update p.next t v } ch [] := by
  have hloc := h.located_live ht
  have hnot (c : Place) (hc : c ≠ .live) : t ∉ ch c :=
    hloc.not_mem_of_ne fun e => hc (Option.some.inj e).symm
  exact ⟨h.live, fun k => (h.freed k).update (hnot (.freed k) nofun) v,
    h.global.update (hnot .global nofun) v, h.size, h.bound, h.distinct, h.located, h.pending,
    h.known, h.refilling⟩

/-- Fresh memory is in the hands of the call that has asked for it. -/
theorem fresh {ts : List TaskId} (h : PoolsOk p ch []) (hts : ∀ t ∈ ts, t ∉ p.made)
    (hnd : ts.Nodup) : PoolsOk { p with made := ts ++ p.made } ch ts := by
  refine ⟨h.live, h.freed, h.global, h.size, h.bound, h.distinct, fun u => ?_, hnd,
    fun u hu => List.mem_append_left _ hu, h.refilling⟩
  obtain ⟨o, ho, hiff⟩ := h.located u
  refine ⟨o, ho, ?_⟩
  rw [hiff, List.mem_append]
  by_cases hu : u ∈ ts
  · simp [hu, hts u hu]
  · simp [hu]

theorem update_refilling (h : PoolsOk p ch pend) {b : Bool}
    (hb : b = true → p.freedlist k = none) :
    PoolsOk { p with refilling := Function.update p.refilling k b } ch pend := by
  refine ⟨h.live, h.freed, h.global, h.size, h.bound, h.distinct, h.located, h.pending, h.known,
    fun j hj => ?_⟩
  by_cases hjk : j = k
  · subst hjk
    exact hb (by simpa using hj)
  · exact h.refilling j (by simpa [hjk] using hj)

/-- **What `tcb_alloc` takes off a list is on it, and on no other.** -/
theorem tcbAlloc (h : PoolsOk p ch []) (ha : p.tcbAlloc k = (some t, p')) :
    ∃ ch', PoolsOk p' ch' [t] := by
  have hne {c d : Place} (hloc : Located ch t (some c)) (hd : d ≠ c) :
      Lib.unlink ch t d = ch d :=
    List.erase_of_not_mem (hloc.not_mem_of_ne fun e => hd (Option.some.inj e).symm)
  have hmem {c : Place} {rest : List TaskId} (hl : ch c = t :: rest) : Located ch t (some c) := by
    obtain ⟨o, ho, -⟩ := h.located t
    have hc : t ∈ ch c := by
      rw [hl]
      exact List.mem_cons_self
    rwa [ho.eq_of_mem hc] at ho
  unfold Pools.tcbAlloc at ha
  split at ha
  · next tcb hhead =>
    cases ha
    have hlist := h.freed k
    rw [hhead] at hlist
    obtain ⟨rest, hl, hrest⟩ := hlist.pop
    have hloc := hmem hl
    refine ⟨Lib.unlink ch t, ?_, fun j => ?_, ?_, fun j => ?_, fun j => ?_, h.distinct.unlink t,
      h.located_unlink t, List.nodup_singleton t, ?_, fun j hj => ?_⟩
    · rw [hne (d := .live) hloc (by rintro ⟨⟩), h.live]
    · by_cases hj : j = k
      · subst hj
        rw [Lib.unlink, hl, List.erase_cons_head]
        simpa using hrest
      · rw [hne hloc fun e => hj (Place.freed.inj e)]
        simpa [hj] using h.freed j
    · rw [hne (d := .global) hloc (by rintro ⟨⟩)]
      exact h.global
    · by_cases hj : j = k
      · subst hj
        rw [Lib.unlink, hl, List.erase_cons_head]
        simp [h.size, hl]
      · rw [hne hloc fun e => hj (Place.freed.inj e)]
        simp [hj, h.size]
    · have hold := h.bound j
      by_cases hj : j = k
      · subst hj
        simp only [Function.update_self]
        omega
      · simpa [hj] using hold
    · rintro u hu
      obtain rfl := List.mem_singleton.1 hu
      exact h.made_of_located hloc
    · have hjk : j ≠ k := by
        rintro rfl
        rw [h.refilling j hj] at hhead
        cases hhead
      simpa [hjk] using h.refilling j hj
  · split at ha
    · next tcb hhead =>
      cases ha
      have hlist := h.global
      rw [hhead] at hlist
      obtain ⟨rest, hl, hrest⟩ := hlist.pop
      have hloc := hmem hl
      refine ⟨Lib.unlink ch t, ?_, fun j => ?_, ?_, fun j => ?_, h.bound, h.distinct.unlink t,
        h.located_unlink t, List.nodup_singleton t, ?_, h.refilling⟩
      · rw [hne (d := .live) hloc (by rintro ⟨⟩), h.live]
      · rw [hne (d := .freed j) hloc (by rintro ⟨⟩)]
        exact h.freed j
      · rw [Lib.unlink, hl, List.erase_cons_head]
        exact hrest
      · rw [hne (d := .freed j) hloc (by rintro ⟨⟩)]
        exact h.size j
      · rintro u hu
        obtain rfl := List.mem_singleton.1 hu
        exact h.made_of_located hloc
    · cases ha

/-- **Every move keeps the control blocks in their places.** -/
theorem step {mv : Move} (h : PoolsOk p ch []) (hs : p.step mv = some p') :
    ∃ ch', PoolsOk p' ch' [] := by
  unfold Pools.step at hs
  cases mv with
  | start k t =>
    simp only [Option.ite_none_right_eq_some, Option.some.injEq] at hs
    obtain ⟨⟨-, hfresh⟩, rfl⟩ := hs
    obtain ⟨ch', h'⟩ := (h.fresh (by simpa using hfresh) (List.nodup_singleton t)).use
    exact ⟨ch', { h' with }⟩
  | alloc k =>
    simp only [Option.ite_none_right_eq_some] at hs
    obtain ⟨-, hs⟩ := hs
    split at hs
    · next t p₁ ha =>
      cases hs
      obtain ⟨ch₁, h₁⟩ := h.tcbAlloc ha
      exact h₁.use
    · next p₁ ha =>
      cases hs
      obtain ⟨hfreed, -, rfl⟩ := tcbAlloc_none ha
      exact ⟨ch, h.update_refilling fun _ => hfreed⟩
  | refill k malloc =>
    cases malloc with
    | none =>
      simp only [Option.ite_none_right_eq_some, Option.some.injEq] at hs
      obtain ⟨-, rfl⟩ := hs
      exact ⟨ch, h.update_refilling nofun⟩
    | some tcbs =>
      simp only [Option.ite_none_right_eq_some, Option.some.injEq] at hs
      obtain ⟨⟨-, hfresh⟩, rfl⟩ := hs
      have hblock := h.fresh hfresh (block_nodup tcbs)
      rw [block_eq] at hblock
      obtain ⟨ch₁, h₁⟩ := hblock.use
      have h₂ : PoolsOk { p with
          refilling := Function.update p.refilling k false
          live := tcbs :: p.live
          made := block tcbs ++ p.made } ch₁ (rest tcbs ++ []) := by
        rw [List.append_nil, block_eq]
        exact h₁.update_refilling nofun
      rw [freeRest_eq]
      exact foldl_tcbFree _ h₂ (Function.update_self ..)
  | free k t =>
    simp only [Option.ite_none_right_eq_some, Option.some.injEq] at hs
    obtain ⟨⟨hruns, hlive⟩, rfl⟩ := hs
    obtain ⟨ch₁, h₁⟩ := h.release hlive
    have h₂ : PoolsOk { p with
        ended := Function.update p.ended k (p.theMaintask k = some t)
        live := p.live.erase t } ch₁ [t] := { h₁ with }
    have hrefilling := Pools.refilling_of_runs hruns
    exact h₂.tcbFree hrefilling
  | link t v =>
    simp only [Option.ite_none_right_eq_some, Option.some.injEq] at hs
    obtain ⟨hlive, rfl⟩ := hs
    exact ⟨ch, h.link hlive v⟩

end PoolsOk

end

/-- Before the first thread has started, there is no control block. -/
theorem init_ok (next : TaskId → Option TaskId) : PoolsOk (init next) (fun _ => []) [] where
  live := rfl
  freed _ := rfl
  global := rfl
  size _ := rfl
  bound _ := (by decide : (0 : Int) ≤ MAX_LOCAL_FREED_TASKS)
  distinct _ := List.nodup_nil
  located _ := ⟨none, fun _ => iff_of_false nofun nofun, iff_of_true rfl (.inl nofun)⟩
  pending := List.nodup_nil
  known := nofun
  refilling := nofun

/-! ## The lists of one thread -/

/-- The links lead through the lists of the pool `q`, as the thread `k` sees them. -/
structure Abs (p : Pools) (k : ThreadId) (q : TcbPool) : Prop where
  freed : IsList p.next (p.freedlist k) q.freedlist
  size : p.freedsize k = q.freedsize
  global : IsList p.next p.globalFreedlist q.globalFreedlist

section

variable {p p' : Pools} {ch : Place → List TaskId} {pend : List TaskId} {k : ThreadId} {t : TaskId}
  {q : TcbPool}

theorem PoolsOk.abs (h : PoolsOk p ch pend) (k : ThreadId) :
    Abs p k ⟨ch (.freed k), p.freedsize k, ch .global⟩ :=
  ⟨h.freed k, rfl, h.global⟩

theorem abs_tcbFree (h : Abs p k q) (ht : t ∉ q.freeLists) : Abs (p.tcbFree k t) k (q.free t) := by
  obtain ⟨hfreed, hglobal⟩ := not_or.1 (mt List.mem_append.2 ht)
  unfold Pools.tcbFree TcbPool.free
  rw [h.size]
  by_cases hlt : q.freedsize < MAX_LOCAL_FREED_TASKS
  · rw [if_pos hlt, if_pos hlt]
    refine ⟨?_, Function.update_self .., h.global.update hglobal _⟩
    simpa using h.freed.push hfreed
  · rw [if_neg hlt, if_neg hlt]
    exact ⟨h.freed.update hfreed _, h.size, h.global.push hglobal⟩

theorem abs_tcbAlloc (h : Abs p k q) :
    (p.tcbAlloc k).1 = (q.alloc none).1 ∧ Abs (p.tcbAlloc k).2 k (q.alloc none).2 := by
  have hfreed := h.freed
  have hglobal := h.global
  unfold Pools.tcbAlloc TcbPool.alloc
  cases hl : q.freedlist with
  | cons t rest =>
    rw [hl] at hfreed
    simp only [hfreed.1, true_and]
    exact ⟨by simpa using hfreed.2, by simp [h.size], h.global⟩
  | nil =>
    simp only [hfreed.nil_iff.1 hl]
    cases hg : q.globalFreedlist with
    | cons t rest =>
      rw [hg] at hglobal
      simp only [hglobal.1, true_and]
      exact ⟨hl ▸ h.freed, h.size, hglobal.2⟩
    | nil =>
      simp only [hglobal.nil_iff.1 hg, true_and]
      exact h

theorem abs_foldl_tcbFree {ts : List TaskId} (h : Abs p k q) (hts : ∀ t ∈ ts, t ∉ q.freeLists)
    (hnd : ts.Nodup) : Abs (ts.foldl (fun p t => p.tcbFree k t) p) k (ts.foldl TcbPool.free q) := by
  induction ts generalizing p q with
  | nil => exact h
  | cons t ts ih =>
    have hnd' := List.nodup_cons.1 hnd
    refine ih (abs_tcbFree h (hts t List.mem_cons_self)) (fun u hu hmem => ?_) hnd'.2
    rcases List.mem_cons.1 ((q.free_perm t).mem_iff.1 hmem) with rfl | hold
    · exact hnd'.1 hu
    · exact hts u (List.mem_cons_of_mem _ hu) hold

/-- The pool of one thread does what its lists do, also with a fresh block. -/
theorem abs_refill (h : Abs p k q) (ha : (p.tcbAlloc k).1 = none) (tcbs : TaskId) :
    (q.alloc (some tcbs)).1 = some tcbs ∧
      Abs (p.freeRest k tcbs) k (q.alloc (some tcbs)).2 := by
  have hpair : p.tcbAlloc k = (none, (p.tcbAlloc k).2) := Prod.ext ha rfl
  obtain ⟨hfreed, hglobal, -⟩ := tcbAlloc_none hpair
  have hempty : q.freedlist = [] := h.freed.nil_iff.2 hfreed
  have hempty' : q.globalFreedlist = [] := h.global.nil_iff.2 hglobal
  have hq : (q.alloc (some tcbs)).1 = some tcbs ∧
      (q.alloc (some tcbs)).2 = (rest tcbs).foldl TcbPool.free q := by
    simp only [TcbPool.alloc, hempty, hempty', rest, List.foldl_map, and_self]
  have hnd := block_nodup tcbs
  rw [block_eq] at hnd
  have hnone (t : TaskId) : t ∉ q.freeLists := by simp [TcbPool.freeLists, hempty, hempty']
  have hfold := abs_foldl_tcbFree h (fun t (_ : t ∈ rest tcbs) => hnone t) (List.nodup_cons.1 hnd).2
  rw [hq.2, freeRest_eq]
  exact ⟨hq.1, hfold⟩

theorem foldl_tcbFree_global {ts : List TaskId}
    (h : p.freedsize k + ts.length ≤ MAX_LOCAL_FREED_TASKS) :
    (ts.foldl (fun p t => p.tcbFree k t) p).globalFreedlist = p.globalFreedlist := by
  induction ts generalizing p with
  | nil => rfl
  | cons t ts ih =>
    have hlt : p.freedsize k < MAX_LOCAL_FREED_TASKS := by
      rw [List.length_cons] at h
      omega
    rw [List.foldl_cons, ih]
    · rw [Pools.tcbFree, if_pos hlt]
    · rw [Pools.tcbFree, if_pos hlt]
      simp only [Function.update_self]
      rw [List.length_cons] at h
      omega

/-- `tcb_alloc` has the rest of a fresh block go to the list of its own thread, so it does not lock
the global one. -/
theorem freeRest_global (h : PoolsOk p ch pend) (hr : p.refilling k = true) (tcbs : TaskId) :
    (p.freeRest k tcbs).globalFreedlist = p.globalFreedlist := by
  have hempty : ch (.freed k) = [] := (h.freed k).nil_iff.2 (h.refilling k hr)
  have hsize := h.size k
  rw [hempty] at hsize
  rw [freeRest_eq]
  refine foldl_tcbFree_global ?_
  rw [hsize, rest, List.length_map, List.length_range]
  decide

end

/-! ## Every run -/

/-- What `tcb_alloc` returns in a move. -/
def Pools.allocated (p : Pools) : Move → Option TaskId
  | .start _ t => some t
  | .alloc k => (p.tcbAlloc k).1
  | .refill _ malloc => malloc
  | _ => none

/-- Every control block there is is in use, or on the list of one thread, or on the global one, and it
is there once. -/
structure Placed (p : Pools) (ch : Place → List TaskId) : Prop where
  live : ch .live = p.live
  freed : ∀ k, IsList p.next (p.freedlist k) (ch (.freed k))
  global : IsList p.next p.globalFreedlist (ch .global)
  once : ∀ c, (ch c).Nodup
  place : ∀ t ∈ p.made, ∃! c, t ∈ ch c
  made : ∀ c, ∀ t ∈ ch c, t ∈ p.made
  size : ∀ k, p.freedsize k = (ch (.freed k)).length
  bound : ∀ k, p.freedsize k ≤ MAX_LOCAL_FREED_TASKS

section

variable {p p' : Pools} {ch : Place → List TaskId} {next : TaskId → Option TaskId}

theorem PoolsOk.placed (h : PoolsOk p ch []) : Placed p ch where
  live := h.live
  freed := h.freed
  global := h.global
  once := h.distinct
  place t ht := by
    obtain ⟨o, ho, hiff⟩ := h.located t
    cases o with
    | none => exact absurd ht ((hiff.1 rfl).resolve_right nofun)
    | some c => exact ⟨c, ho.mem, fun d hd => (Option.some.inj (ho.eq_of_mem hd)).symm⟩
  made c t ht := by
    obtain ⟨o, ho, -⟩ := h.located t
    exact h.made_of_located (ho.eq_of_mem ht ▸ ho)
  size := h.size
  bound := h.bound

theorem reach_ok (h : Reach Pools.step anyMove (init next) p) : ∃ ch, PoolsOk p ch [] :=
  h.invariant (P := fun p => ∃ ch, PoolsOk p ch []) ⟨_, init_ok next⟩
    fun _ _ _ ⟨_, hok⟩ _ hs => hok.step hs

@[simp] theorem foldl_tcbFree_live (p : Pools) (k : ThreadId) (ts : List TaskId) :
    (ts.foldl (fun p t => p.tcbFree k t) p).live = p.live := by
  induction ts generalizing p with
  | nil => rfl
  | cons t ts ih => rw [List.foldl_cons, ih, Pools.tcbFree_live]

/-- What `tcb_alloc` returns is in use from then on. -/
theorem live_of_allocated {mv : Move} {t : TaskId} (hs : p.step mv = some p')
    (ha : p.allocated mv = some t) : p'.live = t :: p.live := by
  unfold Pools.step at hs
  cases mv with
  | start k u =>
    simp only [Option.ite_none_right_eq_some, Option.some.injEq] at hs
    obtain ⟨-, rfl⟩ := hs
    rw [Option.some.inj ha]
  | alloc k =>
    simp only [Option.ite_none_right_eq_some] at hs
    obtain ⟨-, hs⟩ := hs
    split at hs
    · next u p₁ hu =>
      cases hs
      obtain rfl : u = t := by simpa [Pools.allocated, hu] using ha
      rw [tcbAlloc_live hu]
    · next p₁ hu => simp [Pools.allocated, hu] at ha
  | refill k malloc =>
    obtain rfl : malloc = some t := ha
    simp only [Option.ite_none_right_eq_some, Option.some.injEq] at hs
    obtain ⟨-, rfl⟩ := hs
    rw [freeRest_eq, foldl_tcbFree_live]
  | free k u => cases ha
  | link u v => cases ha

/-- **The pool of control blocks.** In every run, on any number of threads, each control block is in
one place, the sizes are those of the lists, and `tcb_alloc` returns none that is in use. -/
theorem reach_places (h : Reach Pools.step anyMove (init next) p) :
    (∃ ch, Placed p ch) ∧ ∀ mv p' t, p.step mv = some p' → p.allocated mv = some t →
      t ∉ p.live ∧ p'.live = t :: p.live := by
  refine ⟨?_, fun mv p' t hs ha => ?_⟩
  · obtain ⟨ch, hok⟩ := reach_ok h
    exact ⟨ch, hok.placed⟩
  · have hlive := live_of_allocated hs ha
    obtain ⟨ch, hok⟩ := reach_ok (h.tail trivial hs)
    have hnd := hok.placed.once .live
    rw [hok.live, hlive] at hnd
    exact ⟨(List.nodup_cons.1 hnd).1, hlive⟩

end

/-- The first thread starts, creates two tasks out of a block, whose first words change, and the
second thread frees one of them, and its own maintask. -/
def poolRun : List Move :=
  [.start 0 7, .alloc 0, .refill 0 (some 100), .link 100 (some 7), .alloc 0, .start 1 8, .free 1 100,
    .free 1 8]

theorem poolRun_places : ∃ p, Reach Pools.step anyMove (init fun _ => none) p ∧
    p.live = [163, 7] ∧ p.freedsize 0 = 62 ∧ p.freedsize 1 = 2 ∧ p.freedlist 1 = some 8 ∧
    (∃ ch, Placed p ch) ∧ ∀ p', p.step (.alloc 0) = some p' → 162 ∉ p.live ∧
      p'.live = [162, 163, 7] := by
  have hrun : ((poolRun.foldlM Pools.step (init fun _ => none)).map fun p =>
      decide (p.live = [163, 7] ∧ p.freedsize 0 = 62 ∧ p.freedsize 1 = 2 ∧ p.freedlist 1 = some 8 ∧
        p.allocated (.alloc 0) = some 162)) = some true := by decide +kernel
  obtain ⟨p, hs, hq⟩ := Option.map_eq_some_iff.1 hrun
  obtain ⟨hlive, h0, h1, hl, ha⟩ := of_decide_eq_true hq
  have hreach := Reach.of_foldlM hs
  obtain ⟨hplaced, halloc⟩ := reach_places hreach
  refine ⟨p, hreach, hlive, h0, h1, hl, hplaced, fun p' hs' => ?_⟩
  have h162 := halloc _ p' 162 hs' ha
  rwa [hlive] at h162 ⊢

end Ptask.Frees
