import Ptask.Lib.NodeQueue
import Ptask.OneN.Client

/-!
# The blocking queue of `blockq.c`

A queue of nodes with a limit, and a free list of nodes that `blockq_new` allocates at once; the
waits are the `while` loops of the monitor pattern. In the 1:N build the calls on the lock are empty,
so that an operation is one segment from the test of its loop to its signal or its wait.

A pointer to a node is the index of the node in the block behind `blockq_t`. `pushed` and `popped`
(oldest first) are ghost state.
-/

namespace Ptask.OneN

open Ptask.Lib

variable {α : Type*}

/-- `blockq_t` and its nodes: `head` and `tail` are the fields of `q`, `next` and `object` those of
the nodes. -/
structure Blockq (α : Type*) where
  head : Option Nat
  tail : Option Nat
  freelist : Option Nat
  limit : Int32
  count : Int32
  next : Nat → Option Nat
  object : Nat → α
  pushed : List α
  popped : List α

namespace Blockq

/-- `queue_init`. -/
def queueInit (bq : Blockq α) : Blockq α := { bq with head := none, tail := none }

/-- `queue_push`. -/
def queuePush (bq : Blockq α) (node : Nat) : Blockq α :=
  match bq.tail with
  | some tail => { bq with next := Function.update bq.next tail (some node), tail := some node }
  | none => { bq with head := some node, tail := some node }

/-- `queue_pop`; its assertion fails on an empty queue. -/
def queuePop (bq : Blockq α) : Option (Nat × Blockq α) :=
  match bq.head with
  | none => none
  | some oldhead =>
    let bq := { bq with head := bq.next oldhead }
    some (oldhead, if bq.head = none then { bq with tail := none } else bq)

/-- The body of the loop in `blockq_new`. -/
def setupNode (bq : Blockq α) (i : Nat) : Blockq α :=
  { bq with next := Function.update bq.next i bq.freelist, freelist := some i }

/-- `blockq_new`; `malloc` returns nodes that contain `object`. -/
def new (limit : UInt64) (object : Nat → α) : Blockq α :=
  let bq : Blockq α :=
    { head := none, tail := none, freelist := none, limit := 0, count := 0
      next := fun _ => none, object := object, pushed := [], popped := [] }
  let bq := (List.range (limit + 8).toNat).foldl setupNode bq
  { bq.queueInit with limit := limit.toUInt32.toInt32, count := 0 }

end Blockq

/-- Where a task is: outside, or in front of the test of the loop of an operation. -/
inductive BlockqPoint (α : Type*)
  | outside
  | push (object : α)
  | pop

/-- `blockq_push` from the test of the loop on. -/
def blockqPush (empt full : CondId) (bq : Blockq α) (object : α) :
    Option (Segment (Blockq α) (BlockqPoint α)) :=
  if bq.limit ≤ bq.count then
    some { data := bq, call := some (.condWait full), next := .push object }
  else
    bq.freelist.map fun node =>
      let bq := { bq with freelist := bq.next node }
      let bq := { bq with
        object := Function.update bq.object node object
        next := Function.update bq.next node none }
      let bq := bq.queuePush node
      let bq := { bq with count := bq.count + 1, pushed := bq.pushed ++ [object] }
      { data := bq, call := some (.condSignal empt), next := .outside }

/-- `blockq_pop` from the test of the loop on. -/
def blockqPop (empt full : CondId) (bq : Blockq α) :
    Option (Segment (Blockq α) (BlockqPoint α)) :=
  if bq.count = 0 then
    some { data := bq, call := some (.condWait empt), next := .pop }
  else
    bq.queuePop.map fun (node, bq) =>
      let object := bq.object node
      let bq := { bq with next := Function.update bq.next node bq.freelist, freelist := some node }
      let bq := { bq with count := bq.count - 1, popped := bq.popped ++ [object] }
      { data := bq, call := some (.condSignal full), next := .outside }

/-- The program of the queue, whose condition variables are `empt` and `full`. -/
def blockq (empt full : CondId) : Client (Blockq α) (BlockqPoint α) where
  code
    | .outside, _ => none
    | .push object, bq => blockqPush empt full bq object
    | .pop, bq => blockqPop empt full bq
  outside
    | .outside => true
    | _ => false
  ends
    | .outside => true
    | _ => false
  entry
    | _, .outside => false
    | _, _ => true
  waitsOn
    | .outside => none
    | .push _ => some (.cond full)
    | .pop => some (.cond empt)
  objects := [.cond empt, .cond full]

/-- `blockq_new` has been called in the state `s`. -/
def blockqStart (s : Sched) (limit : UInt64) (object : Nat → α) :
    ClientState (Blockq α) (BlockqPoint α) where
  sched := s
  data := Blockq.new limit object
  pc := fun _ => .outside

/-! ## The queue as a list -/

/-- The nodes of the block are those of the queue, in their order, and those of the free list; the queue
holds what was pushed and not yet popped. -/
structure Blockq.Holds (n : Nat) (bq : Blockq α) (nodes frees : List Nat) : Prop where
  queue : IsQueue bq.next bq.head bq.tail nodes
  free : IsList bq.next bq.freelist frees
  blocks : (nodes ++ frees).Perm (List.range (n + 8))
  limit : bq.limit.toInt = n
  count : bq.count.toInt = nodes.length
  bounded : nodes.length ≤ n
  pushed : bq.pushed = bq.popped ++ nodes.map bq.object

/-- **A bounded queue**: the queue holds the elements pushed and not yet popped in the order of the
pushes, at most `n` of them, no node is lost or in two places, and a free node is left for
everybody who may push. -/
def Blockq.RefinesBounded (n : Nat) (bq : Blockq α) : Prop :=
  ∃ nodes frees, bq.Holds n nodes frees

namespace Blockq

variable {n : Nat} {bq : Blockq α} {nodes frees : List Nat} {empt full : CondId}
  {g : Segment (Blockq α) (BlockqPoint α)}

/-- The loop of `blockq_new` puts the nodes on the free list, the last one first. -/
theorem foldl_setupNode (m : Nat) (bq : Blockq α) (hfree : bq.freelist = none) :
    let bq' := (List.range m).foldl setupNode bq
    IsList bq'.next bq'.freelist (List.range m).reverse := by
  induction m with
  | zero => exact hfree
  | succ m ih =>
    intro bq'
    have hstep : bq' = ((List.range m).foldl setupNode bq).setupNode m := by
      show (List.range (m + 1)).foldl setupNode bq = _
      rw [List.range_succ, List.foldl_append]
      rfl
    have hnot : m ∉ (List.range m).reverse := by simp
    rw [hstep, List.range_succ, List.reverse_append]
    exact IsList.push ih hnot

theorem foldl_setupNode_eq (is : List Nat) (bq : Blockq α) :
    (is.foldl setupNode bq).pushed = bq.pushed ∧ (is.foldl setupNode bq).popped = bq.popped := by
  induction is generalizing bq with
  | nil => exact ⟨rfl, rfl⟩
  | cons i is ih => exact ih (bq.setupNode i)

theorem new_holds {l : UInt64} (hmax : l.toNat ≤ 2 ^ 31 - 9) (object : Nat → α) :
    (new l object).Holds l.toNat [] (List.range (l.toNat + 8)).reverse := by
  have hsum : (l + 8).toNat = l.toNat + 8 := by
    rw [UInt64.toNat_add]
    exact Nat.mod_eq_of_lt (by show l.toNat + 8 < 2 ^ 64; omega)
  have hfold := foldl_setupNode (l + 8).toNat
    { head := none, tail := none, freelist := none, limit := 0, count := 0
      next := fun _ => none, object := object, pushed := [], popped := [] } rfl
  have hghost := foldl_setupNode_eq (List.range (l + 8).toNat)
    { head := none, tail := none, freelist := none, limit := 0, count := 0
      next := fun _ => none, object := object, pushed := [], popped := [] }
  refine ⟨⟨rfl, rfl⟩, ?_, List.reverse_perm _, ?_, rfl, Nat.zero_le _, ?_⟩
  · rw [← hsum]
    exact hfold
  · exact toInt_toInt32 (by omega)
  · rw [List.map_nil, List.append_nil]
    exact hghost.1.trans hghost.2.symm

theorem Holds.nodup (h : bq.Holds n nodes frees) : (nodes ++ frees).Nodup :=
  h.blocks.nodup_iff.2 List.nodup_range

theorem Holds.free_length (h : bq.Holds n nodes frees) :
    frees.length = n + 8 - nodes.length := by
  have hlen := h.blocks.length_eq
  rw [List.length_append, List.length_range] at hlen
  omega

theorem Holds.toInt_succ (h : bq.Holds n nodes frees) (hmax : n ≤ 2 ^ 31 - 9)
    (hroom : nodes.length < n) : (bq.count + 1).toInt = nodes.length + 1 := by
  have hcount := h.count
  rw [toInt_add_one (by omega) (by omega), hcount]

theorem Holds.toInt_pred (h : bq.Holds n nodes frees) :
    (bq.count - 1).toInt = nodes.length - 1 := by
  have hcount := h.count
  rw [toInt_sub_one (by omega), hcount]

theorem Holds.full_iff (h : bq.Holds n nodes frees) :
    bq.limit ≤ bq.count ↔ nodes.length = n := by
  have hbound := h.bounded
  rw [Int32.le_iff_toInt_le, h.limit, h.count]
  omega

theorem Holds.empty_iff (h : bq.Holds n nodes frees) : bq.count = 0 ↔ nodes = [] := by
  rw [← Int32.toInt_inj, h.count, Int32.toInt_zero, ← List.length_eq_zero_iff]
  omega

/-- The end of `blockq_push`: a node of the free list is appended to the queue. -/
theorem Holds.push (h : bq.Holds n nodes frees) (hmax : n ≤ 2 ^ 31 - 9)
    (hroom : nodes.length < n) (object : α) :
    ∃ node rest, bq.freelist = some node ∧ frees = node :: rest ∧
      let bq₁ := { bq with
        freelist := bq.next node
        object := Function.update bq.object node object
        next := Function.update bq.next node none }
      let bq₂ := bq₁.queuePush node
      ({ bq₂ with count := bq₂.count + 1, pushed := bq₂.pushed ++ [object] } : Blockq α).Holds n
        (nodes ++ [node]) rest := by
  have hlen := h.free_length
  cases frees with
  | nil =>
    have hbound := h.bounded
    simp only [List.length_nil] at hlen
    omega
  | cons node rest =>
    obtain ⟨hfirst, hrest⟩ := h.free
    refine ⟨node, rest, hfirst, rfl, ?_⟩
    have hnd : node ∉ nodes ∧ node ∉ rest := by
      have hperm : (node :: (nodes ++ rest)).Nodup := List.perm_middle.nodup_iff.1 h.nodup
      simpa using (List.nodup_cons.1 hperm).1
    have hnodes : nodes.Nodup := (List.nodup_append.1 h.nodup).1
    have hsplit : nodes ++ [node] ++ rest = nodes ++ node :: rest := by simp
    have hqueue := h.queue.update hnd.1 none
    have hfree := hrest.update hnd.2 none
    have hlink : Function.update bq.next node none node = none := Function.update_self _ _ _
    have hobjects : (nodes ++ [node]).map (Function.update bq.object node object) =
        nodes.map bq.object ++ [object] := by
      rw [List.map_append, List.map_singleton, Function.update_self]
      congr 1
      apply List.map_congr_left
      intro x hx
      have hne : x ≠ node := fun e => hnd.1 (e ▸ hx)
      rw [Function.update_of_ne hne]
    have hpushed : bq.pushed ++ [object] =
        bq.popped ++ (nodes ++ [node]).map (Function.update bq.object node object) := by
      rw [hobjects, h.pushed, List.append_assoc]
    have hcount := h.toInt_succ hmax hroom
    intro bq₁ bq₂
    cases htail : bq.tail with
    | none =>
      have heq : bq₂ = { bq₁ with head := some node, tail := some node } := by
        show (match bq.tail with | some _ => _ | none => _) = _
        rw [htail]
      rw [htail] at hqueue
      rw [heq]
      exact ⟨hqueue.push_nil hlink, hfree, hsplit ▸ h.blocks, h.limit, by simpa using hcount,
        by simpa using Nat.succ_le_of_lt hroom, hpushed⟩
    | some y =>
      have heq : bq₂ =
          { bq₁ with next := Function.update bq₁.next y (some node), tail := some node } := by
        show (match bq.tail with | some _ => _ | none => _) = _
        rw [htail]
      rw [htail] at hqueue
      have hy : y ∈ nodes := List.mem_of_getLast? hqueue.last.symm
      have hyr : y ∉ rest := by
        intro hm
        exact (List.nodup_append.1 h.nodup).2.2 y hy y (List.mem_cons_of_mem _ hm) rfl
      rw [heq]
      exact ⟨hqueue.push_cons hnodes hnd.1 hlink, hfree.update hyr _, hsplit ▸ h.blocks,
        h.limit, by simpa using hcount, by simpa using Nat.succ_le_of_lt hroom, hpushed⟩

/-- The end of `blockq_pop`: the first node goes to the free list. -/
theorem Holds.pop (h : bq.Holds n nodes frees) (hsome : nodes ≠ []) :
    ∃ node rest bq₁, bq.queuePop = some (node, bq₁) ∧ nodes = node :: rest ∧
      bq₁.count = bq.count ∧ bq₁.freelist = bq.freelist ∧
      ({ bq₁ with
        next := Function.update bq₁.next node bq₁.freelist
        freelist := some node
        count := bq₁.count - 1
        popped := bq₁.popped ++ [bq₁.object node] } : Blockq α).Holds n rest
          (node :: frees) := by
  cases hhead : bq.head with
  | none => exact absurd (h.queue.nil_iff.2 hhead) hsome
  | some node =>
    have hqueue := h.queue
    rw [hhead] at hqueue
    obtain ⟨rest, rfl, hrest⟩ := hqueue.pop
    have hnd := List.nodup_cons.1 (show (node :: (rest ++ frees)).Nodup from h.nodup)
    have hnr : node ∉ rest ∧ node ∉ frees := by simpa using hnd.1
    have hcount := h.toInt_pred
    have hperm : (rest ++ node :: frees).Perm (node :: rest ++ frees) := List.perm_middle
    have hbound := h.bounded
    have hpushed : bq.pushed = bq.popped ++ [bq.object node] ++ rest.map bq.object := by
      rw [h.pushed, List.map_cons, List.append_assoc]
      rfl
    have hpop : bq.queuePop = some (node,
        { bq with
          head := bq.next node
          tail := if bq.next node = none then none else bq.tail }) := by
      unfold queuePop
      rw [hhead]
      by_cases hnone : bq.next node = none
      · simp [hnone]
      · simp [hnone]
    refine ⟨node, rest, _, hpop, rfl, rfl, rfl, ?_⟩
    refine ⟨hrest.update hnr.1 _, h.free.push hnr.2, hperm.trans h.blocks, h.limit, ?_, ?_, hpushed⟩
    · show (bq.count - 1).toInt = _
      rw [hcount]
      simp
    · exact Nat.le_of_succ_le hbound

/-! ## Runs -/

theorem sound (empt full : CondId) : (blockq (α := α) empt full).Sound where
  objects c hc := by
    have hc : c = .cond empt ∨ c = .cond full := by simpa [blockq] using hc
    rcases hc with rfl | rfl
    · exact .inl ⟨empt, rfl⟩
    · exact .inl ⟨full, rfl⟩
  ends k hk := by
    cases k with
    | outside => rfl
    | _ => cases hk
  outside k hk := by
    cases k with
    | outside => rfl
    | _ => cases hk
  entry k k' hk := by
    cases k' with
    | outside => cases k <;> cases hk
    | _ => rfl
  calls k bq g hk hg := by
    cases k with
    | outside => cases hk
    | push object =>
      have hg : blockqPush empt full bq object = some g := hg
      unfold blockqPush at hg
      split at hg
      · obtain rfl := Option.some.inj hg
        exact ⟨by simp [blockq], rfl⟩
      · obtain ⟨node, -, rfl⟩ := Option.map_eq_some_iff.1 hg
        show Chain.cond empt ∈ (blockq (α := α) empt full).objects
        simp [blockq]
    | pop =>
      have hg : blockqPop empt full bq = some g := hg
      unfold blockqPop at hg
      split at hg
      · obtain rfl := Option.some.inj hg
        exact ⟨by simp [blockq], rfl⟩
      · obtain ⟨⟨node, bq'⟩, -, rfl⟩ := Option.map_eq_some_iff.1 hg
        show Chain.cond full ∈ (blockq (α := α) empt full).objects
        simp [blockq]

theorem Holds.code (h : bq.Holds n nodes frees) (hmax : n ≤ 2 ^ 31 - 9)
    {k : BlockqPoint α} (hk : (blockq (α := α) empt full).outside k = false) :
    ∃ g, (blockq empt full).code k bq = some g ∧ g.data.RefinesBounded n := by
  cases k with
  | outside => cases hk
  | push object =>
    show ∃ g, blockqPush empt full bq object = some g ∧ _
    unfold blockqPush
    split
    · exact ⟨_, rfl, nodes, frees, h⟩
    · next hroom =>
      have hbound := h.bounded
      have hlt : nodes.length < n := by
        rw [h.full_iff] at hroom
        omega
      obtain ⟨node, rest, hfree, -, hholds⟩ := h.push hmax hlt object
      rw [hfree]
      exact ⟨_, rfl, _, _, hholds⟩
  | pop =>
    show ∃ g, blockqPop empt full bq = some g ∧ _
    unfold blockqPop
    split
    · exact ⟨_, rfl, nodes, frees, h⟩
    · next hsome =>
      obtain ⟨node, rest, bq₁, hpop, -, -, -, hholds⟩ := h.pop fun e => hsome (h.empty_iff.2 e)
      rw [hpop]
      exact ⟨_, rfl, _, _, hholds⟩

theorem RefinesBounded.code (h : bq.RefinesBounded n) (hmax : n ≤ 2 ^ 31 - 9)
    {k : BlockqPoint α} (hk : (blockq (α := α) empt full).outside k = false)
    (hg : (blockq empt full).code k bq = some g) : g.data.RefinesBounded n := by
  obtain ⟨nodes, frees, hholds⟩ := h
  obtain ⟨g', hg', hr⟩ := hholds.code hmax hk
  rw [hg] at hg'
  obtain rfl := Option.some.inj hg'
  exact hr

/-- What the producers wait for, and what the consumers wait for. -/
def available (empt : CondId) (i : CondId) (bq : Blockq α) : Nat :=
  if i = empt then bq.count.toInt.toNat else (bq.limit.toInt - bq.count.toInt).toNat

theorem counted (hmax : n ≤ 2 ^ 31 - 9) (hne : empt ≠ full) :
    (blockq (α := α) empt full).Counted (fun _ => RefinesBounded n) (available empt) where
  begins k bq g i h hg hc := by
    obtain ⟨nodes, frees, h⟩ := h
    cases k with
    | outside => cases hg
    | push object =>
      have hg : blockqPush empt full bq object = some g := hg
      unfold blockqPush at hg
      split at hg
      · next hfull =>
        obtain rfl := Option.some.inj hg
        obtain rfl : full = i := by simpa using hc
        have hcount := h.count
        have hlimit := h.limit
        rw [h.full_iff] at hfull
        simp only [available, hne.symm, if_false]
        omega
      · obtain ⟨node, -, rfl⟩ := Option.map_eq_some_iff.1 hg
        cases hc
    | pop =>
      have hg : blockqPop empt full bq = some g := hg
      unfold blockqPop at hg
      split at hg
      · next hzero =>
        obtain rfl := Option.some.inj hg
        obtain rfl : empt = i := by simpa using hc
        simp [available, hzero]
      · obtain ⟨node, -, rfl⟩ := Option.map_eq_some_iff.1 hg
        cases hc
  keeps k bq g i h hk hg hi hwait hb := by
    right
    obtain ⟨nodes, frees, h⟩ := h
    have hbound := h.bounded
    have hcount := h.count
    have hlimit := h.limit
    have hi : i = empt ∨ i = full := by simpa [blockq] using hi
    cases k with
    | outside => cases hk
    | push object =>
      have hg : blockqPush empt full bq object = some g := hg
      unfold blockqPush at hg
      split at hg
      · obtain rfl := Option.some.inj hg
        have hif : ¬full = i := by simpa using hwait
        simp [blockq, hif]
      · next hroom =>
        have hlt : nodes.length < n := by
          rw [h.full_iff] at hroom
          omega
        obtain ⟨node, rest, hfree, -, hholds⟩ := h.push hmax hlt object
        rw [hfree] at hg
        obtain rfl := Option.some.inj hg
        have hcount' := hholds.count
        have hlimit' := hholds.limit
        rw [List.length_append, List.length_singleton] at hcount'
        rcases hi with rfl | rfl
        · simp only [available, blockq, hne.symm, if_true, Option.some.injEq, Chain.cond.injEq,
            if_false, reduceCtorEq] at hcount' ⊢
          omega
        · simp only [available, blockq, hne, hne.symm, if_true, Option.some.injEq,
            if_false, reduceCtorEq, Call.condSignal.injEq] at hcount' hlimit' ⊢
          omega
    | pop =>
      have hg : blockqPop empt full bq = some g := hg
      unfold blockqPop at hg
      split at hg
      · obtain rfl := Option.some.inj hg
        have hif : ¬empt = i := by simpa using hwait
        simp [blockq, hif]
      · next hsome =>
        obtain ⟨node, rest, bq₁, hpop, rfl, -, -, hholds⟩ :=
          h.pop fun e => hsome (h.empty_iff.2 e)
        rw [hpop] at hg
        obtain rfl := Option.some.inj hg
        have hcount' := hholds.count
        have hlimit' := hholds.limit
        rw [List.length_cons] at hcount hbound
        rcases hi with rfl | rfl
        · simp only [available, blockq, hne.symm, if_true, Option.some.injEq,
            if_false, reduceCtorEq, Call.condSignal.injEq] at hcount' ⊢
          omega
        · simp only [available, blockq, hne, hne.symm, if_true, Option.some.injEq, Chain.cond.injEq,
            if_false, reduceCtorEq] at hcount' hlimit' ⊢
          omega

end Blockq

variable {empt full : CondId} {limit : UInt64} {object : Nat → α} {s : Sched}
  {q : ClientState (Blockq α) (BlockqPoint α)}

theorem Blockq.reach_refinesBounded (hmax : limit.toNat ≤ 2 ^ 31 - 9)
    (h : Reach (blockq empt full).step anyMove (blockqStart s limit object) q) :
    q.data.RefinesBounded limit.toNat := by
  refine Client.reach_data (Blockq.sound empt full) ?_ ⟨_, _, Blockq.new_holds hmax object⟩ h
  intro k bq g hk hbq hg
  exact hbq.code hmax hk hg

/-- **The blocking queue refines a bounded queue.** In every run from `blockq_new`, by any number of
producers and consumers: the queue holds the elements pushed and not yet popped, in the order of the
pushes and at most `limit` of them; every node is in exactly one of the two lists; and no operation
finds the free list or the queue empty where it takes a node. -/
theorem reach_blockqBounded (hmax : limit.toNat ≤ 2 ^ 31 - 9)
    (h : Reach (blockq empt full).step anyMove (blockqStart s limit object) q) :
    q.data.RefinesBounded limit.toNat ∧ (blockq empt full).NoFault q := by
  have hbounded := Blockq.reach_refinesBounded hmax h
  refine ⟨hbounded, ?_⟩
  intro k hk hnone
  obtain ⟨nodes, frees, hholds⟩ := hbounded
  obtain ⟨g, hg, -⟩ := hholds.code hmax (hk.inside (Blockq.sound empt full))
  rw [hnone] at hg
  cases hg

/-- **No producer and no consumer sleeps while it could go on.** While a consumer waits, as many
consumers have been signalled and have not yet gone on as the queue holds elements; the same holds
of the producers and what is left up to the limit; and those who are signalled are ready. -/
theorem reach_blockqAttended {b : Boot} (hs : Reachable b s) (hne : empt ≠ full)
    (he : s.unused (.cond empt) = true) (hf : s.unused (.cond full) = true)
    (hmax : limit.toNat ≤ 2 ^ 31 - 9)
    (h : Reach (blockq empt full).step anyMove (blockqStart s limit object) q) :
    (blockq empt full).NobodyStranded (Blockq.available empt) q := by
  have hsound := Blockq.sound (α := α) empt full
  have hunused : ∀ c ∈ (blockq (α := α) empt full).objects, s.unused c = true := by
    intro c hc
    have hc : c = .cond empt ∨ c = .cond full := by simpa [blockq] using hc
    rcases hc with rfl | rfl
    · exact he
    · exact hf
  have hstart : (blockq empt full).Placed b (blockqStart s limit object) :=
    Client.Placed.start hs hsound rfl hunused
  refine Client.reach_nobodyStranded hsound (Blockq.counted hmax hne) ?_ hstart ?_ h
  · intro q m q₁ k hq _ _ _
    exact Blockq.reach_refinesBounded hmax hq
  · intro i hi hwait
    exact absurd (Client.start_empty hunused hi) hwait

/-- A queue for one element. Two consumers come first, then a producer fills the queue twice: the
second time it waits for the consumer that it has signalled. -/
def blockqRun : List (ClientMove (BlockqPoint Nat)) :=
  (newTasks 3).map .other ++ [.other .schedulerStart, .other .schedulerPass,
    .other .schedulerExhaust, .enter .pop, .enter .pop, .enter (.push 7), .enter (.push 8)]

set_option maxRecDepth 8000 in
theorem blockqRun_bounded :
    ∃ q, blockqRun.foldlM (blockq 0 1).step (blockqStart (boot {}) 1 fun _ => 0) = some q ∧
      q.data.pushed = [7] ∧ (q.sched.cond 0).waitq.length = 1 ∧
      (q.sched.cond 1).waitq.length = 1 ∧
      q.data.RefinesBounded 1 ∧ (blockq 0 1).NoFault q := by
  have hrun : ((blockqRun.foldlM (blockq 0 1).step (blockqStart (boot {}) 1 fun _ => 0)).map fun q =>
      (q.data.pushed, (q.sched.cond 0).waitq.length, (q.sched.cond 1).waitq.length)) =
        some ([7], 1, 1) := by decide +kernel
  obtain ⟨q, hq, he⟩ := Option.map_eq_some_iff.1 hrun
  obtain ⟨h1, h2, h3⟩ : _ ∧ _ ∧ _ := by simpa using he
  obtain ⟨h4, h5⟩ := reach_blockqBounded (by decide) (Reach.of_foldlM hq)
  exact ⟨q, hq, h1, h2, h3, h4, h5⟩

set_option maxRecDepth 8000 in
theorem blockqRun_attended :
    ∃ q, blockqRun.foldlM (blockq 0 1).step (blockqStart (boot {}) 1 fun _ => 0) = some q ∧
      (blockq 0 1).signalled q 0 = 1 ∧ q.data.count = 1 ∧
      (blockq 0 1).NobodyStranded (Blockq.available 0) q := by
  have hrun : ((blockqRun.foldlM (blockq 0 1).step (blockqStart (boot {}) 1 fun _ => 0)).map fun q =>
      ((blockq 0 1).signalled q 0, q.data.count)) = some (1, 1) := by decide +kernel
  obtain ⟨q, hq, he⟩ := Option.map_eq_some_iff.1 hrun
  obtain ⟨h1, h2⟩ : _ ∧ _ := by simpa using he
  exact ⟨q, hq, h1, h2, reach_blockqAttended (b := {}) (Reach.refl _) (by decide)
    (by decide) (by decide) (by decide) (Reach.of_foldlM hq)⟩

end Ptask.OneN
