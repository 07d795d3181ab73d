import Ptask.Lib.Linked
import Ptask.Lib.Memory

/-!
# Chains

The macros of `chain.h` on a byte memory. A chain is a head of three words, `first`, `null_` and
`last`, and nodes that each hold a forward and a backward link in a field at some offset. The words
`first` and `null_` are the field of a node before the first one, `null_` and `last` that of a node
behind the last one, so both ends of a chain are nodes, and no operation tests for them.

A chain is represented by a list when its nodes are linked from the one end to the other and no two
of its words overlap (`Represents`). Every operation turns the list into the edited one and changes no
byte of another chain (`Edits`, `chain_macros`).

Every access goes to the bytes at its address, in the order of the source. A compiler that takes the
head and the nodes for objects of different types may read a link from before the last write to it;
the macros are given the meaning that they have without strict aliasing.
-/

namespace Ptask.Intrusive

open Lib

abbrev Addr := BitVec 64

/-! ## Fields at an offset -/

/-- `CHAIN_HEAD_NODE`. -/
def chainHeadNode (theList fld : Addr) : Addr := theList - fld

/-- `CHAIN_TAIL_NODE`. -/
def chainTailNode (theList fld : Addr) : Addr := theList + 8 - fld

/-- `CHAIN_FRST`. -/
def chainFrst (m : Memory) (theList : Addr) : Addr := m.load64 theList

/-- `CHAIN_LAST`. -/
def chainLast (m : Memory) (theList : Addr) : Addr := m.load64 (theList + 16)

/-- `CHAIN_NEXT`. -/
def chainNext (m : Memory) (fld theNode : Addr) : Addr := m.load64 (theNode + fld)

/-- `CHAIN_PREV`. -/
def chainPrev (m : Memory) (fld theNode : Addr) : Addr := m.load64 (theNode + fld + 8)

/-- `theNode->fld.next = v`. -/
def setNext (m : Memory) (fld theNode v : Addr) : Memory := m.store64 (theNode + fld) v

/-- `theNode->fld.previous = v`. -/
def setPrev (m : Memory) (fld theNode v : Addr) : Memory := m.store64 (theNode + fld + 8) v

/-- `CHAIN_INIT_EMPTY`. -/
def chainInitEmpty (m : Memory) (theList fld : Addr) : Memory :=
  let theHead := chainHeadNode theList fld
  let theTail := chainTailNode theList fld
  let m := m.store64 theList theTail
  let m := m.store64 (theList + 16) theHead
  m.store64 (theList + 8) 0

/-- `CHAIN_INSERT_AFTER`. -/
def chainInsertAfter (m : Memory) (afterNode theNode fld : Addr) : Memory :=
  let beforeNode := chainNext m fld afterNode
  let m := setPrev m fld theNode afterNode
  let m := setNext m fld afterNode theNode
  let m := setNext m fld theNode beforeNode
  setPrev m fld beforeNode theNode

/-- `CHAIN_INSERT_BEFORE`. -/
def chainInsertBefore (m : Memory) (beforeNode theNode fld : Addr) : Memory :=
  let afterNode := chainPrev m fld beforeNode
  let m := setPrev m fld theNode afterNode
  let m := setNext m fld afterNode theNode
  let m := setNext m fld theNode beforeNode
  setPrev m fld beforeNode theNode

/-- `CHAIN_REMOVE`. -/
def chainRemove (m : Memory) (theNode fld : Addr) : Memory :=
  let next := chainNext m fld theNode
  let previous := chainPrev m fld theNode
  let m := setPrev m fld next previous
  setNext m fld previous next

/-- `CHAIN_REPLACE`. -/
def chainReplace (m : Memory) (theOldnode theNewnode fld : Addr) : Memory :=
  let next := chainNext m fld theOldnode
  let previous := chainPrev m fld theOldnode
  let m := setPrev m fld next theNewnode
  let m := setNext m fld previous theNewnode
  let m := setNext m fld theNewnode next
  setPrev m fld theNewnode previous

/-- `CHAIN_APPEND`, also `CHAIN_INSERT_TAIL`. -/
def chainAppend (m : Memory) (theList theNode fld : Addr) : Memory :=
  let m := setNext m fld theNode (chainTailNode theList fld)
  let oldLastNode := chainLast m theList
  let m := m.store64 (theList + 16) theNode
  let m := setNext m fld oldLastNode theNode
  setPrev m fld theNode oldLastNode

/-- `CHAIN_PREPPEND`, also `CHAIN_INSERT_HEAD`. -/
def chainPreppend (m : Memory) (theList theNode fld : Addr) : Memory :=
  let m := setPrev m fld theNode (chainHeadNode theList fld)
  let oldFrstNode := chainFrst m theList
  let m := m.store64 theList theNode
  let m := setPrev m fld oldFrstNode theNode
  setNext m fld theNode oldFrstNode

/-- The loop of `CHAIN_FOREACH_SAFE` from `theNode` on: the nodes for which `body` ran, and the memory
in the end. -/
def chainForeachSafe.loop (fld : Addr) (body : Addr → Memory → Memory) :
    Nat → Addr → Memory → Option (List Addr × Memory)
  | 0, _, _ => none
  | fuel + 1, theNode, m =>
    let theNext := chainNext m fld theNode
    if theNext = 0 then some ([], m)
    else (loop fld body fuel theNext (body theNode m)).map fun r => (theNode :: r.1, r.2)

/-- `CHAIN_FOREACH_SAFE`. -/
def chainForeachSafe (m : Memory) (theList fld : Addr) (body : Addr → Memory → Memory)
    (fuel : Nat) : Option (List Addr × Memory) :=
  chainForeachSafe.loop fld body fuel (chainFrst m theList) m

/-! ## Links at the start of a node -/

/-- `_CHAIN_INIT_EMPTY`. -/
def _chainInitEmpty (m : Memory) (theList : Addr) : Memory := chainInitEmpty m theList 0

/-- `_CHAIN_INSERT_AFTER`. -/
def _chainInsertAfter (m : Memory) (afterNode theNode : Addr) : Memory :=
  chainInsertAfter m afterNode theNode 0

/-- `_CHAIN_INSERT_BEFORE`. -/
def _chainInsertBefore (m : Memory) (beforeNode theNode : Addr) : Memory :=
  chainInsertBefore m beforeNode theNode 0

/-- `_CHAIN_REMOVE`. -/
def _chainRemove (m : Memory) (theNode : Addr) : Memory := chainRemove m theNode 0

/-- `_CHAIN_REPLACE`. -/
def _chainReplace (m : Memory) (theOldnode theNewnode : Addr) : Memory :=
  chainReplace m theOldnode theNewnode 0

/-- `_CHAIN_APPEND`, also `_CHAIN_INSERT_TAIL`. -/
def _chainAppend (m : Memory) (theList theNode : Addr) : Memory := chainAppend m theList theNode 0

/-- `_CHAIN_PREPPEND`, also `_CHAIN_INSERT_HEAD`. -/
def _chainPreppend (m : Memory) (theList theNode : Addr) : Memory :=
  chainPreppend m theList theNode 0

/-- `_CHAIN_IS_EMPTY`. -/
def _chainIsEmpty (m : Memory) (theList : Addr) : Bool :=
  chainFrst m theList == chainTailNode theList 0

/-- `_CHAIN_EXTRACT_FIRST`: the value of the expression, and the memory after the statement behind
it. -/
def _chainExtractFirst (m : Memory) (theList : Addr) : Addr × Memory :=
  let value := if _chainIsEmpty m theList then 0 else chainFrst m theList
  if !_chainIsEmpty m theList then (value, chainRemove m (chainFrst m theList) 0) else (value, m)

/-- `_CHAIN_EXTRACT_LAST`. -/
def _chainExtractLast (m : Memory) (theList : Addr) : Addr × Memory :=
  let value := if chainPrev m 0 (chainLast m theList) ≠ 0 then chainLast m theList else 0
  if chainPrev m 0 (chainLast m theList) ≠ 0 then
    (value, chainRemove m (chainLast m theList) 0)
  else (value, m)

/-- `_CHAIN_FOREACH_SAFE`. -/
def _chainForeachSafe (m : Memory) (theList : Addr) (body : Addr → Memory → Memory) (fuel : Nat) :
    Option (List Addr × Memory) :=
  chainForeachSafe m theList 0 body fuel

/-! ## Representation -/

structure Chain where
  head : Addr
  fld : Addr
  nodes : List Addr

namespace Chain

/-- The node before the first one. -/
def headNode (c : Chain) : Addr := chainHeadNode c.head c.fld

/-- The node behind the last one. -/
def tailNode (c : Chain) : Addr := chainTailNode c.head c.fld

/-- The nodes with both ends. -/
def spine (c : Chain) : List Addr := c.headNode :: (c.nodes ++ [c.tailNode])

/-- The words of the link field of a node. -/
def nodeWords (fld x : Addr) : List Addr := [x + fld, x + fld + 8]

/-- The words of a chain: `null_`, the forward links, of which `first` is one, and the backward links,
of which `last` is one. -/
def words (c : Chain) : List Addr :=
  (c.head + 8) :: ((c.headNode :: c.nodes).map (· + c.fld) ++
    (c.nodes ++ [c.tailNode]).map (· + c.fld + 8))

/-- The chain with other nodes. -/
def withNodes (c : Chain) (xs : List Addr) : Chain := { c with nodes := xs }

end Chain

/-- No word of the one list overlaps a word of the other. -/
def ApartFrom (ws ws' : List Addr) : Prop := ∀ w ∈ ws, ∀ w' ∈ ws', Apart w w'

/-- The chain is well formed, and its nodes are those of `c`. -/
structure Represents (m : Memory) (c : Chain) : Prop where
  apart : c.words.Pairwise Apart
  linked : Linked (chainNext m c.fld) (chainPrev m c.fld) c.spine
  null_ : m.load64 (c.head + 8) = 0
  ne_null : ∀ x ∈ c.spine, x ≠ 0

/-- `n` can be put on the chain: it is on no place that the chain uses. -/
structure Chain.Free (c : Chain) (n : Addr) : Prop where
  apart : ApartFrom (Chain.nodeWords c.fld n) c.words
  ne_null : n ≠ 0

/-- The nodes of `c` become `xs`, also `ins` have changed, and nothing else in the memory has; so all
chains that overlap neither are still represented. -/
structure Edits (m m' : Memory) (c : Chain) (xs ins : List Addr) : Prop where
  represents : Represents m' (c.withNodes xs)
  frame : ∀ a, (∀ w ∈ c.words ++ ins.flatMap (Chain.nodeWords c.fld), a ∉ span w 8) → m' a = m a
  others : ∀ d, Represents m d →
    ApartFrom d.words (c.words ++ ins.flatMap (Chain.nodeWords c.fld)) → Represents m' d

section

variable {m m' m₀ : Memory} {c d : Chain} {next prev : Addr → Addr} {a b n x v : Addr}
  {xs ys ins pre post l : List Addr}

namespace Chain

theorem headNode_add (c : Chain) : c.headNode + c.fld = c.head := BitVec.sub_add_cancel ..

theorem tailNode_add (c : Chain) : c.tailNode + c.fld + 8 = c.head + 16 := by
  have htail : c.tailNode + c.fld = c.head + 8 := BitVec.sub_add_cancel ..
  rw [htail, BitVec.add_assoc]
  rfl

/-- The node before a place of the chain. -/
def before (c : Chain) (pre : List Addr) : Addr := pre.getLastD c.headNode

/-- The node behind a place of the chain. -/
def behind (c : Chain) (post : List Addr) : Addr := post.headD c.tailNode

theorem exists_before (c : Chain) (pre : List Addr) : ∃ p, c.headNode :: pre = p ++ [c.before pre] := by
  induction pre using List.reverseRecOn with
  | nil => exact ⟨[], rfl⟩
  | append_singleton pre x _ =>
    refine ⟨c.headNode :: pre, ?_⟩
    rw [before, List.getLastD_concat, List.cons_append]

theorem exists_behind (c : Chain) (post : List Addr) : ∃ q, post ++ [c.tailNode] = c.behind post :: q := by
  cases post with
  | nil => exact ⟨[], rfl⟩
  | cons x post => exact ⟨post ++ [c.tailNode], rfl⟩

/-- A place of the chain is between two nodes. -/
theorem exists_spine (c : Chain) (pre post : List Addr) : ∃ p q, ∀ mid,
    (c.withNodes (pre ++ (mid ++ post))).spine = p ++ c.before pre :: (mid ++ c.behind post :: q) := by
  obtain ⟨p, hp⟩ := c.exists_before pre
  obtain ⟨q, hq⟩ := c.exists_behind post
  refine ⟨p, q, fun mid => ?_⟩
  calc (c.withNodes (pre ++ (mid ++ post))).spine
      = (c.headNode :: pre) ++ (mid ++ (post ++ [c.tailNode])) := by
        simp [spine, withNodes, headNode, tailNode]
    _ = p ++ c.before pre :: (mid ++ c.behind post :: q) := by
        rw [hp, hq, List.append_assoc, List.singleton_append]

theorem before_mem (c : Chain) (pre : List Addr) : c.before pre ∈ c.headNode :: pre := by
  obtain ⟨p, hp⟩ := c.exists_before pre
  rw [hp]
  exact List.mem_append_right _ List.mem_cons_self

theorem behind_mem (c : Chain) (post : List Addr) : c.behind post ∈ post ++ [c.tailNode] := by
  obtain ⟨q, hq⟩ := c.exists_behind post
  rw [hq]
  exact List.mem_cons_self

theorem next_mem (ha : a ∈ c.headNode :: c.nodes) : a + c.fld ∈ c.words :=
  List.mem_cons_of_mem _ (List.mem_append_left _ (List.mem_map_of_mem ha))

theorem prev_mem (ha : a ∈ c.nodes ++ [c.tailNode]) : a + c.fld + 8 ∈ c.words :=
  List.mem_cons_of_mem _ (List.mem_append_right _ (List.mem_map_of_mem ha))

theorem null_mem (c : Chain) : c.head + 8 ∈ c.words := List.mem_cons_self

theorem words_cons_perm (c : Chain) (n : Addr) (ys : List Addr) :
    (c.withNodes (n :: ys)).words.Perm (nodeWords c.fld n ++ (c.withNodes ys).words) := by
  have hprev : (c.withNodes (n :: ys)).words.Perm
      ([c.head + 8, c.headNode + c.fld] ++ nodeWords c.fld n ++
        (ys.map (· + c.fld) ++ (ys ++ [c.tailNode]).map (· + c.fld + 8))) :=
    ((List.perm_middle.cons _).cons _).cons _
  have hcomm : ([c.head + 8, c.headNode + c.fld] ++ nodeWords c.fld n).Perm
      (nodeWords c.fld n ++ [c.head + 8, c.headNode + c.fld]) := List.perm_append_comm
  exact hprev.trans (hcomm.append_right _)

/-- The words of fewer nodes in another order do not overlap either. -/
theorem apart_of_subperm (h : (c.withNodes ys).words.Pairwise Apart) (hs : xs.Subperm ys) :
    (c.withNodes xs).words.Pairwise Apart := by
  obtain ⟨l, hperm, hsub⟩ := hs
  have hl : (c.withNodes l).words.Sublist (c.withNodes ys).words :=
    .cons_cons _ (.append ((hsub.cons_cons _).map _) ((hsub.append (.refl _)).map _))
  have hxs : (c.withNodes l).words.Perm (c.withNodes xs).words :=
    .cons _ (((hperm.cons _).map _).append ((hperm.append (.refl _)).map _))
  exact (hxs.pairwise_iff Apart.symm).1 (h.sublist hl)

theorem Free.apart_words (hn : c.Free n) (h : c.words.Pairwise Apart) :
    (c.withNodes (n :: c.nodes)).words.Pairwise Apart := by
  refine ((c.words_cons_perm n c.nodes).pairwise_iff Apart.symm).2 ?_
  refine List.pairwise_append.2 ⟨List.pairwise_pair.2 ?_, h, hn.apart⟩
  exact apart_add (by decide) (by decide)

/-- The words of a chain are different words. -/
theorem nodup (h : c.words.Pairwise Apart) : c.words.Nodup := h.imp Apart.ne

theorem spine_nodup (h : c.words.Pairwise Apart) : c.spine.Nodup := by
  obtain ⟨-, hnd⟩ := List.nodup_cons.1 (nodup h)
  obtain ⟨hnext, hprev, -⟩ := List.nodup_append.1 hnd
  have hhead := List.nodup_cons.1 hnext.of_map
  refine List.nodup_cons.2 ⟨fun hmem => ?_, ?_⟩
  · rcases List.mem_append.1 hmem with hmem | hmem
    · exact hhead.1 hmem
    · have heq : c.head - c.fld = c.head + 8 - c.fld := List.mem_singleton.1 hmem
      bv_omega
  · exact (hprev.of_map)

theorem words_cons_mem (c : Chain) {w : Addr} (hw : w ∈ (c.withNodes (n :: c.nodes)).words) :
    w ∈ c.words ++ [n].flatMap (nodeWords c.fld) := by
  rcases List.mem_append.1 ((c.words_cons_perm n c.nodes).mem_iff.1 hw) with hw | hw
  · exact List.mem_append_right _ (by simpa using hw)
  · exact List.mem_append_left _ hw

theorem Free.not_mem_spine (hn : c.Free n) (h : c.words.Pairwise Apart) : n ∉ c.spine := by
  have hnd : (c.headNode :: n :: (c.nodes ++ [c.tailNode])).Nodup := spine_nodup (hn.apart_words h)
  exact (List.nodup_cons.1 ((List.Perm.swap ..).nodup_iff.1 hnd)).1

theorem next_ne_prev (h : c.words.Pairwise Apart) (ha : a ∈ c.headNode :: c.nodes)
    (hb : b ∈ c.nodes ++ [c.tailNode]) : a + c.fld ≠ b + c.fld + 8 := by
  obtain ⟨-, hnd⟩ := List.nodup_cons.1 (nodup h)
  obtain ⟨-, -, hne⟩ := List.nodup_append.1 hnd
  exact hne _ (List.mem_map_of_mem ha) _ (List.mem_map_of_mem hb)

theorem null_ne_next (h : c.words.Pairwise Apart) (ha : a ∈ c.headNode :: c.nodes) :
    c.head + 8 ≠ a + c.fld := by
  obtain ⟨hnull, -⟩ := List.nodup_cons.1 (nodup h)
  rintro heq
  exact hnull (heq ▸ List.mem_append_left _ (List.mem_map_of_mem ha))

theorem null_ne_prev (h : c.words.Pairwise Apart) (hb : b ∈ c.nodes ++ [c.tailNode]) :
    c.head + 8 ≠ b + c.fld + 8 := by
  obtain ⟨hnull, -⟩ := List.nodup_cons.1 (nodup h)
  rintro heq
  exact hnull (heq ▸ List.mem_append_right _ (List.mem_map_of_mem hb))

end Chain

theorem chainFrst_eq (m : Memory) (c : Chain) :
    chainFrst m c.head = chainNext m c.fld c.headNode := by
  rw [chainFrst, chainNext, c.headNode_add]

theorem chainLast_eq (m : Memory) (c : Chain) :
    chainLast m c.head = chainPrev m c.fld c.tailNode := by
  rw [chainLast, chainPrev, c.tailNode_add]

theorem store64_first (m : Memory) (c : Chain) (v : Addr) :
    m.store64 c.head v = setNext m c.fld c.headNode v := by
  rw [setNext, c.headNode_add]

theorem store64_last (m : Memory) (c : Chain) (v : Addr) :
    m.store64 (c.head + 16) v = setPrev m c.fld c.tailNode v := by
  rw [setPrev, c.tailNode_add]

/-! ## Links of a chain in memory -/

/-- The links of the nodes of `c` are `next` and `prev`, and only its words differ from `m₀`. -/
structure View (m₀ m : Memory) (c : Chain) (next prev : Addr → Addr) : Prop where
  next : ∀ x ∈ c.headNode :: c.nodes, chainNext m c.fld x = next x
  prev : ∀ x ∈ c.nodes ++ [c.tailNode], chainPrev m c.fld x = prev x
  null_ : m.load64 (c.head + 8) = 0
  frame : ∀ a, (∀ w ∈ c.words, a ∉ span w 8) → m a = m₀ a

namespace View

theorem setNext (h : View m₀ m c next prev) (hc : c.words.Pairwise Apart)
    (ha : a ∈ c.headNode :: c.nodes) :
    View m₀ (setNext m c.fld a v) c (Function.update next a v) prev := by
  refine ⟨fun x hx => ?_, fun x hx => ?_, ?_, fun b hb => ?_⟩
  · have hload := load64_store64 (m := m) (v := v) hc (Chain.next_mem ha) (Chain.next_mem hx)
    by_cases hxa : x = a
    · subst hxa
      rw [Function.update_self] at hload ⊢
      exact hload
    · have hne : x + c.fld ≠ a + c.fld := fun e => hxa ((BitVec.add_left_inj _).1 e)
      rw [Function.update_of_ne hne] at hload
      rw [Function.update_of_ne hxa]
      exact hload.trans (h.next x hx)
  · have hload := load64_store64 (m := m) (v := v) hc (Chain.next_mem ha) (Chain.prev_mem hx)
    rw [Function.update_of_ne (Chain.next_ne_prev hc ha hx).symm] at hload
    exact hload.trans (h.prev x hx)
  · have hload := load64_store64 (m := m) (v := v) hc (Chain.next_mem ha) c.null_mem
    rw [Function.update_of_ne (Chain.null_ne_next hc ha)] at hload
    exact hload.trans h.null_
  · exact (store64_of_not_mem (hb _ (Chain.next_mem ha))).trans (h.frame b hb)

theorem setPrev (h : View m₀ m c next prev) (hc : c.words.Pairwise Apart)
    (ha : a ∈ c.nodes ++ [c.tailNode]) :
    View m₀ (setPrev m c.fld a v) c next (Function.update prev a v) := by
  refine ⟨fun x hx => ?_, fun x hx => ?_, ?_, fun b hb => ?_⟩
  · have hload := load64_store64 (m := m) (v := v) hc (Chain.prev_mem ha) (Chain.next_mem hx)
    rw [Function.update_of_ne (Chain.next_ne_prev hc hx ha)] at hload
    exact hload.trans (h.next x hx)
  · have hload := load64_store64 (m := m) (v := v) hc (Chain.prev_mem ha) (Chain.prev_mem hx)
    by_cases hxa : x = a
    · subst hxa
      rw [Function.update_self] at hload ⊢
      exact hload
    · have hne : x + c.fld + 8 ≠ a + c.fld + 8 := fun e =>
        hxa ((BitVec.add_left_inj _).1 ((BitVec.add_left_inj _).1 e))
      rw [Function.update_of_ne hne] at hload
      rw [Function.update_of_ne hxa]
      exact hload.trans (h.prev x hx)
  · have hload := load64_store64 (m := m) (v := v) hc (Chain.prev_mem ha) c.null_mem
    rw [Function.update_of_ne (Chain.null_ne_prev hc ha)] at hload
    exact hload.trans h.null_
  · exact (store64_of_not_mem (hb _ (Chain.prev_mem ha))).trans (h.frame b hb)

end View

namespace Represents

theorem view (h : Represents m c) (ys : List Addr) :
    View m m (c.withNodes ys) (chainNext m c.fld) (chainPrev m c.fld) :=
  ⟨fun _ _ => rfl, fun _ _ => rfl, h.null_, fun _ _ => rfl⟩

/-- A memory with the same words represents the same chain. -/
theorem congr (h : Represents m d) (hm : ∀ w ∈ d.words, m'.load64 w = m.load64 w) :
    Represents m' d := by
  refine ⟨h.apart, h.linked.congr (fun x hx => ?_) fun x hx => ?_, ?_, h.ne_null⟩
  · rw [Chain.spine, ← List.cons_append, List.dropLast_concat] at hx
    exact hm _ (Chain.next_mem hx)
  · exact hm _ (Chain.prev_mem hx)
  · exact (hm _ d.null_mem).trans h.null_

theorem of_frame {ws : List Addr} (h : Represents m d) (hd : ApartFrom d.words ws)
    (hm : ∀ a, (∀ w ∈ ws, a ∉ span w 8) → m' a = m a) : Represents m' d :=
  h.congr fun w hw => load64_congr fun a ha => hm a fun w' hw' ha' =>
    Set.disjoint_left.1 (hd w hw w' hw') ha ha'

theorem of_view (h : Represents m c) (hv : View m m' (c.withNodes ys) next prev)
    (hc : (c.withNodes ys).words.Pairwise Apart) (hs : xs.Subperm ys)
    (hl : Linked next prev (c.withNodes xs).spine) (hne : ∀ x ∈ xs, x ≠ 0) :
    Represents m' (c.withNodes xs) := by
  have hsub := hs.subset
  refine ⟨Chain.apart_of_subperm hc hs, hl.congr (fun x hx => ?_) fun x hx => ?_, hv.null_,
    fun x hx => ?_⟩
  · rw [Chain.spine, ← List.cons_append, List.dropLast_concat] at hx
    exact hv.next x (List.cons_subset_cons _ hsub hx)
  · exact hv.prev x (List.mem_append.2 ((List.mem_append.1 hx).imp_left fun hmem => hsub hmem))
  · rcases List.mem_cons.1 hx with rfl | hx
    · exact h.ne_null _ List.mem_cons_self
    · rcases List.mem_append.1 hx with hx | hx
      · exact hne x hx
      · exact h.ne_null x (List.mem_cons_of_mem _ (List.mem_append_right _ hx))

theorem edits (h : Represents m c) (hv : View m m' (c.withNodes ys) next prev)
    (hc : (c.withNodes ys).words.Pairwise Apart)
    (hw : ∀ w ∈ (c.withNodes ys).words, w ∈ c.words ++ ins.flatMap (Chain.nodeWords c.fld))
    (hs : xs.Subperm ys) (hl : Linked next prev (c.withNodes xs).spine) (hne : ∀ x ∈ xs, x ≠ 0) :
    Edits m m' c xs ins := by
  have hframe : ∀ a, (∀ w ∈ c.words ++ ins.flatMap (Chain.nodeWords c.fld), a ∉ span w 8) →
      m' a = m a := fun a ha => hv.frame a fun w hmem => ha w (hw w hmem)
  exact ⟨h.of_view hv hc hs hl hne, hframe, fun d hd hapart => hd.of_frame hapart hframe⟩

/-- The spine around a place of the chain. -/
theorem exists_spine (hnodes : c.nodes = pre ++ (l ++ post)) : ∃ p q,
    c.spine = p ++ c.before pre :: (l ++ c.behind post :: q) ∧
      ∀ xs, (c.withNodes (pre ++ (xs ++ post))).spine =
        p ++ c.before pre :: (xs ++ c.behind post :: q) := by
  obtain ⟨p, q, hspine⟩ := c.exists_spine pre post
  refine ⟨p, q, ?_, hspine⟩
  rw [← hspine l, ← hnodes]
  rfl

/-- What the nodes on both sides of a place hold. -/
theorem links (h : Represents m c) (hnodes : c.nodes = pre ++ post) :
    chainNext m c.fld (c.before pre) = c.behind post ∧
      chainPrev m c.fld (c.behind post) = c.before pre := by
  obtain ⟨p, q, hc, -⟩ := exists_spine (l := []) hnodes
  exact (hc ▸ h.linked).pair

theorem before_mem (hnodes : c.nodes = pre ++ post) : c.before pre ∈ c.headNode :: c.nodes :=
  List.cons_subset_cons _ (hnodes ▸ List.subset_append_left _ _) (c.before_mem pre)

theorem behind_mem (hnodes : c.nodes = pre ++ (l ++ post)) :
    c.behind post ∈ c.nodes ++ [c.tailNode] := by
  rw [hnodes, List.append_assoc, List.append_assoc]
  exact List.mem_append_right _ (List.mem_append_right _ (c.behind_mem post))

theorem first (h : Represents m c) : chainFrst m c.head = c.behind c.nodes := by
  rw [chainFrst_eq]
  exact (h.links (List.nil_append _).symm).1

theorem last (h : Represents m c) : chainLast m c.head = c.before c.nodes := by
  rw [chainLast_eq]
  exact (h.links (List.append_nil _).symm).2

/-- What a node holds. -/
theorem links_node (h : Represents m c) (hnodes : c.nodes = pre ++ x :: post) :
    chainNext m c.fld x = c.behind post ∧ chainPrev m c.fld x = c.before pre := by
  have hnodes' : c.nodes = (pre ++ [x]) ++ post := by
    rw [hnodes, List.append_assoc, List.singleton_append]
  have hx : c.before (pre ++ [x]) = x := by rw [Chain.before, List.getLastD_concat]
  have hnext := (h.links hnodes').1
  rw [hx] at hnext
  exact ⟨hnext, (h.links hnodes).2⟩

theorem nodes_ne_null (h : Represents m c) (hx : x ∈ c.nodes) : x ≠ 0 :=
  h.ne_null x (List.mem_cons_of_mem _ (List.mem_append_left _ hx))

/-! ## Operations -/

/-- **A node is put between two nodes.** -/
theorem edits_insert (h : Represents m c) (hn : c.Free n) (hnodes : c.nodes = pre ++ post)
    (hv : View m m' (c.withNodes (n :: c.nodes))
      (Function.update (Function.update (chainNext m c.fld) (c.before pre) n) n (c.behind post))
      (Function.update (Function.update (chainPrev m c.fld) n (c.before pre)) (c.behind post) n)) :
    Edits m m' c (pre ++ n :: post) [n] := by
  have hwords := hn.apart_words h.apart
  have hmem := hn.not_mem_spine h.apart
  obtain ⟨p, q, hc, hspine⟩ := exists_spine (l := []) hnodes
  refine h.edits hv hwords (fun _ => c.words_cons_mem) ?_ ?_ fun x hx => ?_
  · rw [hnodes]
    exact List.perm_middle.subperm
  · have hlinked := h.linked
    have hnodup := Chain.spine_nodup h.apart
    rw [hc] at hlinked hnodup hmem
    exact (hspine [n]) ▸ hlinked.insert hnodup hmem
  · rcases List.mem_cons.1 (List.perm_middle.mem_iff.1 hx) with rfl | hx
    · exact hn.ne_null
    · exact h.nodes_ne_null (hnodes ▸ hx)

/-- `CHAIN_INSERT_AFTER` and `CHAIN_INSERT_BEFORE` do the same stores. -/
theorem view_insert (h : Represents m c) (hn : c.Free n)
    (ha : a ∈ c.headNode :: c.nodes) (hb : b ∈ c.nodes ++ [c.tailNode]) :
    View m (setPrev (setNext (setNext (setPrev m c.fld n a) c.fld a n) c.fld n b) c.fld b n)
      (c.withNodes (n :: c.nodes))
      (Function.update (Function.update (chainNext m c.fld) a n) n b)
      (Function.update (Function.update (chainPrev m c.fld) n a) b n) := by
  have hwords := hn.apart_words h.apart
  have ha' : a ∈ c.headNode :: n :: c.nodes := by grind
  have hb' : b ∈ (n :: c.nodes) ++ [c.tailNode] := List.mem_cons_of_mem _ hb
  have hnext : n ∈ c.headNode :: n :: c.nodes := by grind
  have hprev : n ∈ (n :: c.nodes) ++ [c.tailNode] := List.mem_cons_self
  exact ((((h.view _).setPrev hwords hprev).setNext hwords ha').setNext hwords hnext).setPrev
    hwords hb'

theorem insertAfter (h : Represents m c) (hn : c.Free n) (hnodes : c.nodes = pre ++ post) :
    Edits m (chainInsertAfter m (c.before pre) n c.fld) c (pre ++ n :: post) [n] := by
  unfold chainInsertAfter
  rw [(h.links hnodes).1]
  exact h.edits_insert hn hnodes (h.view_insert hn (before_mem hnodes) (behind_mem (l := []) hnodes))

theorem insertBefore (h : Represents m c) (hn : c.Free n) (hnodes : c.nodes = pre ++ post) :
    Edits m (chainInsertBefore m (c.behind post) n c.fld) c (pre ++ n :: post) [n] := by
  unfold chainInsertBefore
  rw [(h.links hnodes).2]
  exact h.edits_insert hn hnodes (h.view_insert hn (before_mem hnodes) (behind_mem (l := []) hnodes))

theorem append (h : Represents m c) (hn : c.Free n) :
    Edits m (chainAppend m c.head n c.fld) c (c.nodes ++ [n]) [n] := by
  have hnodes : c.nodes = c.nodes ++ [] := (List.append_nil _).symm
  have hwords := hn.apart_words h.apart
  have hmem := hn.not_mem_spine h.apart
  have hlast := c.before_mem c.nodes
  have htail : c.tailNode ∈ (n :: c.nodes) ++ [c.tailNode] := by simp
  have hv := (h.view (n :: c.nodes)).setNext (v := c.tailNode) hwords
    (List.mem_cons_of_mem _ List.mem_cons_self)
  have hold : chainLast (setNext m c.fld n c.tailNode) c.head = c.before c.nodes := by
    rw [chainLast_eq]
    exact (hv.prev _ htail).trans (h.links hnodes).2
  have hv' := ((hv.setPrev (v := n) hwords htail).setNext (v := n) hwords
    (show c.before c.nodes ∈ c.headNode :: n :: c.nodes by grind)).setPrev (v := c.before c.nodes)
      hwords (List.mem_cons_self : n ∈ (n :: c.nodes) ++ [c.tailNode])
  rw [Function.update_comm (show n ≠ c.before c.nodes by rintro rfl; grind [Chain.spine]),
    Function.update_comm (show c.tailNode ≠ n by rintro rfl; grind [Chain.spine])] at hv'
  unfold chainAppend
  simp only [store64_last]
  rw [show chainTailNode c.head c.fld = c.tailNode from rfl, hold]
  exact h.edits_insert hn hnodes hv'

theorem preppend (h : Represents m c) (hn : c.Free n) :
    Edits m (chainPreppend m c.head n c.fld) c (n :: c.nodes) [n] := by
  have hnodes : c.nodes = [] ++ c.nodes := rfl
  have hwords := hn.apart_words h.apart
  have hhead : c.headNode ∈ c.headNode :: n :: c.nodes := List.mem_cons_self
  have hv := (h.view (n :: c.nodes)).setPrev (v := c.headNode) hwords
    (List.mem_cons_self : n ∈ (n :: c.nodes) ++ [c.tailNode])
  have hold : chainFrst (setPrev m c.fld n c.headNode) c.head = c.behind c.nodes := by
    rw [chainFrst_eq]
    exact (hv.next _ hhead).trans (h.links hnodes).1
  have hv' := ((hv.setNext (v := n) hwords hhead).setPrev (v := n) hwords
    (List.mem_cons_of_mem _ (c.behind_mem c.nodes))).setNext (v := c.behind c.nodes) hwords
      (List.mem_cons_of_mem _ List.mem_cons_self)
  unfold chainPreppend
  simp only [store64_first]
  rw [show chainHeadNode c.head c.fld = c.headNode from rfl, hold]
  exact h.edits_insert hn hnodes hv'

theorem remove (h : Represents m c) (hnodes : c.nodes = pre ++ x :: post) :
    Edits m (chainRemove m x c.fld) c (pre ++ post) [] := by
  obtain ⟨hnext, hprev⟩ := h.links_node hnodes
  have hsub := (List.Sublist.refl pre).append (List.sublist_cons_self x post)
  have hv := ((h.view c.nodes).setPrev (v := c.before pre) h.apart (behind_mem (l := [x]) hnodes)).setNext
    (v := c.behind post) h.apart (before_mem hnodes)
  obtain ⟨p, q, hc, hspine⟩ := exists_spine (l := [x]) hnodes
  unfold chainRemove
  rw [hnext, hprev]
  refine h.edits hv h.apart (fun w hw => List.mem_append_left _ hw) ?_ ?_ fun y hy => ?_
  · rw [hnodes]
    exact hsub.subperm
  · have hlinked := h.linked
    have hnodup := Chain.spine_nodup h.apart
    rw [hc] at hlinked hnodup
    exact (hspine []) ▸ hlinked.remove hnodup
  · exact h.nodes_ne_null (hnodes ▸ hsub.subset hy)

theorem replace (h : Represents m c) (hn : c.Free n) (hnodes : c.nodes = pre ++ x :: post) :
    Edits m (chainReplace m x n c.fld) c (pre ++ n :: post) [n] := by
  obtain ⟨hnext, hprev⟩ := h.links_node hnodes
  have hsub := (List.Sublist.refl pre).append (List.sublist_cons_self x post)
  have hwords := hn.apart_words h.apart
  have hmem := hn.not_mem_spine h.apart
  have ha : c.before pre ∈ c.headNode :: n :: c.nodes := by
    have := before_mem hnodes
    grind
  have hb : c.behind post ∈ (n :: c.nodes) ++ [c.tailNode] :=
    List.mem_cons_of_mem _ (behind_mem (l := [x]) hnodes)
  have hv := ((((h.view (n :: c.nodes)).setPrev (v := n) hwords hb).setNext (v := n) hwords
    ha).setNext (v := c.behind post) hwords (List.mem_cons_of_mem _ List.mem_cons_self)).setPrev
      (v := c.before pre) hwords (List.mem_cons_self : n ∈ (n :: c.nodes) ++ [c.tailNode])
  obtain ⟨p, q, hc, hspine⟩ := exists_spine (l := [x]) hnodes
  unfold chainReplace
  rw [hnext, hprev]
  refine h.edits hv hwords (fun _ => c.words_cons_mem) ?_ ?_ fun y hy => ?_
  · rw [hnodes]
    exact List.perm_middle.subperm.trans (hsub.cons_cons n).subperm
  · have hlinked := h.linked
    have hnodup := Chain.spine_nodup h.apart
    rw [hc] at hlinked hnodup hmem
    exact (hspine [n]) ▸ hlinked.replace hnodup (by grind)
  · rcases List.mem_cons.1 (List.perm_middle.mem_iff.1 hy) with rfl | hy
    · exact hn.ne_null
    · exact h.nodes_ne_null (hnodes ▸ hsub.subset hy)

end Represents

theorem chainInitEmpty_edits (m : Memory) {theList fld : Addr}
    (hhead : chainHeadNode theList fld ≠ 0) (htail : chainTailNode theList fld ≠ 0) :
    Edits m (chainInitEmpty m theList fld) ⟨theList, fld, []⟩ [] [] := by
  let c : Chain := ⟨theList, fld, []⟩
  have hwords : c.words = [theList + 8, theList, theList + 16] := by
    show [theList + 8, c.headNode + c.fld, c.tailNode + c.fld + 8] = _
    rw [c.headNode_add, c.tailNode_add]
  have hsum : theList + 8 + 8 = theList + 16 := by rw [BitVec.add_assoc]; rfl
  have h8 : Apart theList (theList + 8) := apart_add (by decide) (by decide)
  have h16 : Apart theList (theList + 16) := apart_add (by decide) (by decide)
  have h8' : Apart (theList + 8) (theList + 16) := hsum ▸ apart_add (by decide) (by decide)
  have hapart : c.words.Pairwise Apart := by
    rw [hwords]
    exact List.pairwise_cons.2 ⟨List.forall_mem_cons.2 ⟨h8.symm, List.forall_mem_singleton.2 h8'⟩,
      List.pairwise_pair.2 h16⟩
  have hfrst : chainFrst (chainInitEmpty m theList fld) c.head = c.tailNode :=
    (load64_store64_of_disjoint h8).trans
      ((load64_store64_of_disjoint h16).trans load64_store64_self)
  have hlast : chainLast (chainInitEmpty m theList fld) c.head = c.headNode :=
    (load64_store64_of_disjoint h8'.symm).trans load64_store64_self
  rw [chainFrst_eq] at hfrst
  rw [chainLast_eq] at hlast
  have hrep : Represents (chainInitEmpty m theList fld) c := by
    refine ⟨hapart, List.isChain_pair.2 ⟨hfrst, hlast⟩, load64_store64_self, fun x hx => ?_⟩
    rcases List.mem_cons.1 hx with rfl | hx
    · exact hhead
    · rwa [List.mem_singleton.1 hx]
  have hframe : ∀ a, (∀ w ∈ c.words ++ [], a ∉ span w 8) → chainInitEmpty m theList fld a = m a := by
    intro a ha
    rw [hwords] at ha
    unfold chainInitEmpty
    rw [store64_of_not_mem (ha _ (by simp)), store64_of_not_mem (ha _ (by simp)),
      store64_of_not_mem (ha _ (by simp))]
  exact ⟨hrep, hframe, fun d hd hdc => hd.of_frame hdc hframe⟩

namespace Represents

theorem isEmpty (h : Represents m c) (hfld : c.fld = 0) :
    _chainIsEmpty m c.head = true ↔ c.nodes = [] := by
  have htail : chainTailNode c.head 0 = c.tailNode := by rw [Chain.tailNode, hfld]
  rw [_chainIsEmpty, beq_iff_eq, h.first, htail]
  cases hnodes : c.nodes with
  | nil => exact iff_of_true rfl rfl
  | cons x xs =>
    have hnd := (List.nodup_cons.1 (Chain.spine_nodup h.apart)).2
    rw [hnodes] at hnd
    refine iff_of_false (fun heq => ?_) nofun
    have heq : x = c.tailNode := heq
    simp [heq] at hnd

theorem extractFirst_nil (h : Represents m c) (hfld : c.fld = 0) (hnodes : c.nodes = []) :
    _chainExtractFirst m c.head = (0, m) := by
  simp [_chainExtractFirst, (h.isEmpty hfld).2 hnodes]

theorem extractFirst (h : Represents m c) (hfld : c.fld = 0) (hnodes : c.nodes = x :: post) :
    (_chainExtractFirst m c.head).1 = x ∧ Edits m (_chainExtractFirst m c.head).2 c post [] := by
  have hempty : _chainIsEmpty m c.head = false := by
    rw [← Bool.not_eq_true, h.isEmpty hfld, hnodes]
    nofun
  have hfrst : chainFrst m c.head = x := by
    rw [h.first, hnodes]
    rfl
  have hnodes : c.nodes = [] ++ x :: post := hnodes
  have hremove := h.remove hnodes
  rw [hfld] at hremove
  simpa [_chainExtractFirst, hempty, hfrst] using hremove

/-- The node before the first one holds `null_`. -/
theorem prev_headNode (h : Represents m c) : chainPrev m c.fld c.headNode = 0 := by
  rw [chainPrev, c.headNode_add]
  exact h.null_

/-- So does the node behind the last one. -/
theorem next_tailNode (h : Represents m c) : chainNext m c.fld c.tailNode = 0 := by
  have htail : c.tailNode + c.fld = c.head + 8 := BitVec.sub_add_cancel ..
  rw [chainNext, htail]
  exact h.null_

theorem before_ne_null (h : Represents m c) (hnodes : c.nodes = pre ++ post) : c.before pre ≠ 0 := by
  rcases List.mem_cons.1 (before_mem hnodes) with heq | hmem
  · exact heq ▸ h.ne_null _ List.mem_cons_self
  · exact h.nodes_ne_null hmem

theorem behind_ne_null (h : Represents m c) (hnodes : c.nodes = pre ++ post) : c.behind post ≠ 0 :=
  h.ne_null _ (List.mem_cons_of_mem _ (behind_mem (l := []) hnodes))

theorem extractLast_nil (h : Represents m c) (hfld : c.fld = 0) (hnodes : c.nodes = []) :
    _chainExtractLast m c.head = (0, m) := by
  have hlast : chainLast m c.head = c.headNode := by
    rw [h.last, hnodes]
    rfl
  have hprev := h.prev_headNode
  rw [hfld] at hprev
  simp only [_chainExtractLast, hlast, hprev, ne_eq, not_true_eq_false, if_false]

theorem extractLast (h : Represents m c) (hfld : c.fld = 0) (hnodes : c.nodes = pre ++ [x]) :
    (_chainExtractLast m c.head).1 = x ∧ Edits m (_chainExtractLast m c.head).2 c pre [] := by
  have hlast : chainLast m c.head = x := by
    rw [h.last, hnodes, Chain.before, List.getLastD_concat]
  have hprev : chainPrev m 0 x ≠ 0 := by
    have hlink := (h.links_node hnodes).2
    rw [hfld] at hlink
    exact hlink ▸ h.before_ne_null hnodes
  have hremove := h.remove hnodes
  rw [hfld, List.append_nil] at hremove
  simp only [_chainExtractLast, hlast, if_pos hprev]
  exact ⟨trivial, hremove⟩

/-- An extraction from a chain that is not empty changes it. -/
theorem extractFirst_ne (h : Represents m c) (hfld : c.fld = 0) (hnodes : c.nodes = x :: post) :
    (_chainExtractFirst m c.head).2 ≠ m := by
  intro heq
  have hnew : chainFrst _ c.head = c.behind post := (h.extractFirst hfld hnodes).2.represents.first
  rw [heq, h.first, hnodes] at hnew
  have hnew : x = c.behind post := hnew
  have hnd := (List.nodup_cons.1 (Chain.spine_nodup h.apart)).2
  rw [hnodes] at hnd
  exact (List.nodup_cons.1 hnd).1 (hnew ▸ c.behind_mem post)

theorem extractLast_ne (h : Represents m c) (hfld : c.fld = 0) (hnodes : c.nodes = pre ++ [x]) :
    (_chainExtractLast m c.head).2 ≠ m := by
  intro heq
  have hnew : chainLast _ c.head = c.before pre := (h.extractLast hfld hnodes).2.represents.last
  rw [heq, h.last, hnodes, Chain.before, List.getLastD_concat] at hnew
  have hnd := Chain.spine_nodup h.apart
  rw [Chain.spine, hnodes, List.append_assoc, ← List.cons_append] at hnd
  obtain ⟨-, -, hne⟩ := List.nodup_append.1 hnd
  exact hne _ (c.before_mem pre) x List.mem_cons_self hnew.symm

/-! ## Into another chain -/

/-- A node that is off the chain uses no place of it. -/
theorem apart_unlinked (h : Represents m c) (hnodes : c.nodes = pre ++ x :: post) :
    ApartFrom (Chain.nodeWords c.fld x) (c.withNodes (pre ++ post)).words := by
  have hperm : (x :: (pre ++ post)).Perm c.nodes := by
    rw [hnodes]
    exact List.perm_middle.symm
  have hwhole : (c.withNodes c.nodes).words.Pairwise Apart := h.apart
  have hwords := Chain.apart_of_subperm hwhole hperm.subperm
  exact (List.pairwise_append.1
    (((c.words_cons_perm x _).pairwise_iff Apart.symm).1 hwords)).2.2

end Represents

theorem ApartFrom.symm {ws ws' : List Addr} (h : ApartFrom ws ws') : ApartFrom ws' ws :=
  fun w hw w' hw' => (h w' hw' w hw).symm

theorem Chain.mem_words (hs : xs ⊆ ys) {w : Addr} (hw : w ∈ (c.withNodes xs).words) :
    w ∈ (c.withNodes ys).words := by
  rcases List.mem_cons.1 hw with rfl | hw
  · exact List.mem_cons_self
  · refine List.mem_cons_of_mem _ (List.mem_append.2 ?_)
    rcases List.mem_append.1 hw with hw | hw
    · exact .inl (List.map_subset _ (List.cons_subset_cons _ hs) hw)
    · refine .inr (List.map_subset _ (fun y hy => ?_) hw)
      exact List.mem_append.2 ((List.mem_append.1 hy).imp_left fun hmem => hs hmem)

/-- `x`, a node of `c`, can also be a node of `d`: the field is the same, or one that neither chain
uses. -/
def Chain.Takes (d c : Chain) (x : Addr) : Prop :=
  d.fld = c.fld ∨ ApartFrom (nodeWords d.fld x) (c.words ++ d.words)

/-- A node that has been unlinked can be linked into another chain by any operation, and the chain
that it was on stays as it is. -/
structure Unlinked (m : Memory) (c d : Chain) (x : Addr) (xs : List Addr) : Prop where
  rest : Represents m (c.withNodes xs)
  other : Represents m d
  free : d.Free x
  apart : ApartFrom (c.withNodes xs).words d.words
  link : ∀ m' ys, Edits m m' d ys [x] → Represents m' (c.withNodes xs)
  link_apart : ∀ ys, ys ⊆ x :: d.nodes → ApartFrom (c.withNodes xs).words (d.withNodes ys).words

theorem Represents.unlinked (h : Represents m c) (hd : Represents m d)
    (hcd : ApartFrom c.words d.words) (hnodes : c.nodes = pre ++ x :: post) (hx : d.Takes c x) :
    Unlinked (chainRemove m x c.fld) c d x (pre ++ post) := by
  have hedits := h.remove hnodes
  have hsub : pre ++ post ⊆ c.nodes :=
    hnodes ▸ ((List.Sublist.refl pre).append (List.sublist_cons_self x post)).subset
  have hrest (w : Addr) (hw : w ∈ (c.withNodes (pre ++ post)).words) : w ∈ c.words :=
    Chain.mem_words hsub hw
  have hmem : x ∈ c.nodes := hnodes ▸ List.mem_append_right _ List.mem_cons_self
  have hwords : ∀ w ∈ Chain.nodeWords c.fld x, w ∈ c.words := by
    refine List.forall_mem_cons.2 ⟨?_, List.forall_mem_singleton.2 ?_⟩
    · exact Chain.next_mem (List.mem_cons_of_mem _ hmem)
    · exact Chain.prev_mem (List.mem_append_left _ hmem)
  have hfree : ApartFrom (Chain.nodeWords d.fld x) d.words := by
    rcases hx with hfld | hx
    · rw [hfld]
      exact fun w hw => hcd w (hwords w hw)
    · exact fun w hw w' hw' => hx w hw w' (List.mem_append_right _ hw')
  have hfree' : ApartFrom (Chain.nodeWords d.fld x) (c.withNodes (pre ++ post)).words := by
    rcases hx with hfld | hx
    · rw [hfld]
      exact h.apart_unlinked hnodes
    · exact fun w hw w' hw' => hx w hw w' (List.mem_append_left _ (hrest w' hw'))
  have hapart : ApartFrom (c.withNodes (pre ++ post)).words d.words :=
    fun w hw => hcd w (hrest w hw)
  have hboth : ApartFrom (c.withNodes (pre ++ post)).words
      (d.words ++ [x].flatMap (Chain.nodeWords d.fld)) := by
    intro w hw w' hw'
    rcases List.mem_append.1 hw' with hw' | hw'
    · exact hapart w hw w' hw'
    · exact hfree'.symm w hw w' (by simpa using hw')
  have hother : ApartFrom d.words (c.words ++ [].flatMap (Chain.nodeWords c.fld)) := by
    rw [List.flatMap_nil, List.append_nil]
    exact hcd.symm
  refine ⟨hedits.represents, hedits.others d hd hother, ⟨hfree, h.nodes_ne_null hmem⟩, hapart,
    fun m' ys he => he.others _ hedits.represents hboth, fun ys hys w hw w' hw' => ?_⟩
  exact hboth w hw w' (d.words_cons_mem (Chain.mem_words hys hw'))

/-! ## Traversal -/

/-- The memory after `body` has run for some nodes. -/
def runBody (body : Addr → Memory → Memory) (m : Memory) (xs : List Addr) : Memory :=
  xs.foldl (fun m x => body x m) m

theorem runBody_concat (body : Addr → Memory → Memory) (m : Memory) (xs : List Addr) (x : Addr) :
    runBody body m (xs ++ [x]) = body x (runBody body m xs) :=
  List.foldl_concat ..

variable {body : Addr → Memory → Memory} {fuel : Nat}

/-- The loop reads the link of a node before the body runs for it, so it visits all nodes when each
link still is what it was at that time. -/
theorem chainForeachSafe.loop_eq {fld t : Addr} (hfuel : xs.length < fuel)
    (hnext : ∀ pre x post, xs = pre ++ x :: post →
      chainNext (runBody body m pre) fld x = post.headD t ∧ post.headD t ≠ 0)
    (hend : chainNext (runBody body m xs) fld t = 0) :
    chainForeachSafe.loop fld body fuel (xs.headD t) m = some (xs, runBody body m xs) := by
  induction xs generalizing m fuel with
  | nil =>
    obtain ⟨fuel, rfl⟩ := Nat.exists_eq_add_one_of_ne_zero (Nat.ne_of_gt hfuel)
    unfold loop
    exact if_pos hend
  | cons x xs ih =>
    obtain ⟨fuel, rfl⟩ := Nat.exists_eq_add_one_of_ne_zero (Nat.ne_of_gt (Nat.zero_lt_of_lt hfuel))
    obtain ⟨hx, hne⟩ := hnext [] x xs rfl
    have hx : chainNext m fld x = xs.headD t := hx
    have hrest : loop fld body fuel (xs.headD t) (body x m) =
        some (xs, runBody body (body x m) xs) := by
      refine ih (Nat.lt_of_succ_lt_succ hfuel) (fun pre y post hxs => ?_) hend
      exact hnext (x :: pre) y post (by rw [hxs, List.cons_append])
    unfold loop
    simp only [List.headD_cons, hx, if_neg hne, hrest, Option.map_some]
    rfl

/-- **A traversal visits every node once and in order**, as long as the body leaves the rest of the
chain in place. It may unlink the node that it is called for. -/
theorem Represents.foreachSafe (h : Represents m c) (hfuel : c.nodes.length < fuel)
    (hbody : ∀ pre x post, c.nodes = pre ++ x :: post → ∀ kept,
      Represents (runBody body m pre) (c.withNodes (kept ++ x :: post)) →
        ∃ kept', Represents (runBody body m (pre ++ [x])) (c.withNodes (kept' ++ post))) :
    chainForeachSafe m c.head c.fld body fuel = some (c.nodes, runBody body m c.nodes) ∧
      ∃ kept, Represents (runBody body m c.nodes) (c.withNodes kept) := by
  have hrun (pre post : List Addr) (hnodes : c.nodes = pre ++ post) :
      ∃ kept, Represents (runBody body m pre) (c.withNodes (kept ++ post)) := by
    induction pre using List.reverseRecOn generalizing post with
    | nil => exact ⟨[], hnodes ▸ h⟩
    | append_singleton pre x ih =>
      have hnodes : c.nodes = pre ++ x :: post := by
        rw [hnodes, List.append_assoc, List.singleton_append]
      obtain ⟨kept, hkept⟩ := ih _ hnodes
      exact hbody pre x post hnodes kept hkept
  obtain ⟨kept, hkept⟩ := hrun c.nodes [] (List.append_nil _).symm
  refine ⟨?_, kept, by rwa [List.append_nil] at hkept⟩
  rw [chainForeachSafe, h.first]
  refine chainForeachSafe.loop_eq hfuel (fun pre x post hnodes => ?_) hkept.next_tailNode
  obtain ⟨kept, hkept⟩ := hrun pre _ hnodes
  have hsplit : (c.withNodes (kept ++ x :: post)).nodes = (kept ++ [x]) ++ post := by
    rw [List.append_assoc, List.singleton_append]
    rfl
  exact ⟨(hkept.links_node rfl).1, hkept.behind_ne_null hsplit⟩

/-- The body of `fiber_cond_broadcast`: the node goes to the end of another chain, if `p` says so. -/
def moveTo (c d : Chain) (p : Addr → Bool) (x : Addr) (m : Memory) : Memory :=
  if p x then chainAppend (chainRemove m x c.fld) d.head x d.fld else m

/-- Nodes that the body moves to another chain leave in the order of the traversal. -/
theorem Represents.moveTo (h : Represents m c) (hd : Represents m d)
    (hcd : ApartFrom c.words d.words) (hfld : d.fld = c.fld) (p : Addr → Bool)
    (hnodes : c.nodes = pre ++ post) :
    Represents (runBody (moveTo c d p) m pre) (c.withNodes (pre.filter (!p ·) ++ post)) ∧
      Represents (runBody (moveTo c d p) m pre) (d.withNodes (d.nodes ++ pre.filter p)) ∧
      ApartFrom (c.withNodes (pre.filter (!p ·) ++ post)).words
        (d.withNodes (d.nodes ++ pre.filter p)).words := by
  induction pre using List.reverseRecOn generalizing post with
  | nil =>
    rw [List.nil_append] at hnodes
    rw [List.filter_nil, List.filter_nil, List.nil_append, List.append_nil, ← hnodes]
    exact ⟨h, hd, hcd⟩
  | append_singleton pre x ih =>
    have hnodes : c.nodes = pre ++ x :: post := by
      rw [hnodes, List.append_assoc, List.singleton_append]
    obtain ⟨hc, hd, hapart⟩ := ih hnodes
    rw [runBody_concat, List.filter_append, List.filter_append]
    cases hp : p x with
    | true =>
      have hu := hc.unlinked hd hapart rfl (.inl hfld)
      have hedits := hu.other.append hu.free
      have hsub : d.nodes ++ pre.filter p ++ [x] ⊆ x :: (d.nodes ++ pre.filter p) :=
        (List.perm_append_singleton x _).subset
      simp only [Intrusive.moveTo, hp, if_true, List.filter_cons, List.filter_nil, Bool.not_true,
        Bool.false_eq_true, if_false, List.append_nil]
      rw [← List.append_assoc]
      exact ⟨hu.link _ _ hedits, hedits.represents, hu.link_apart _ hsub⟩
    | false =>
      simp only [Intrusive.moveTo, hp, Bool.false_eq_true, if_false, List.filter_cons, List.filter_nil,
        Bool.not_false, if_true, List.append_nil]
      rw [List.append_assoc, List.singleton_append]
      exact ⟨hc, hd, hapart⟩

end

/-! ## All macros -/

/-- The macros for one field. -/
structure Macros where
  initEmpty : Memory → Addr → Memory
  insertAfter : Memory → Addr → Addr → Memory
  insertBefore : Memory → Addr → Addr → Memory
  append : Memory → Addr → Addr → Memory
  preppend : Memory → Addr → Addr → Memory
  remove : Memory → Addr → Memory
  replace : Memory → Addr → Addr → Memory
  foreachSafe : Memory → Addr → (Addr → Memory → Memory) → Nat → Option (List Addr × Memory)

/-- `CHAIN_INIT_EMPTY` and the others, for the field at the offset `fld`. -/
def fieldMacros (fld : Addr) : Macros where
  initEmpty m theList := chainInitEmpty m theList fld
  insertAfter m afterNode theNode := chainInsertAfter m afterNode theNode fld
  insertBefore m beforeNode theNode := chainInsertBefore m beforeNode theNode fld
  append m theList theNode := chainAppend m theList theNode fld
  preppend m theList theNode := chainPreppend m theList theNode fld
  remove m theNode := chainRemove m theNode fld
  replace m theOldnode theNewnode := chainReplace m theOldnode theNewnode fld
  foreachSafe m theList := chainForeachSafe m theList fld

/-- `_CHAIN_INIT_EMPTY` and the others. -/
def zeroMacros : Macros where
  initEmpty := _chainInitEmpty
  insertAfter := _chainInsertAfter
  insertBefore := _chainInsertBefore
  append := _chainAppend
  preppend := _chainPreppend
  remove := _chainRemove
  replace := _chainReplace
  foreachSafe := _chainForeachSafe

theorem zeroMacros_eq : zeroMacros = fieldMacros 0 := rfl

/-- The macros do what the list operations of their names do. -/
structure Implements (ops : Macros) (m : Memory) (c : Chain) : Prop where
  insertAfter : ∀ pre post n, c.nodes = pre ++ post → c.Free n →
    Edits m (ops.insertAfter m (c.before pre) n) c (pre ++ n :: post) [n]
  insertBefore : ∀ pre post n, c.nodes = pre ++ post → c.Free n →
    Edits m (ops.insertBefore m (c.behind post) n) c (pre ++ n :: post) [n]
  append : ∀ n, c.Free n → Edits m (ops.append m c.head n) c (c.nodes ++ [n]) [n]
  preppend : ∀ n, c.Free n → Edits m (ops.preppend m c.head n) c (n :: c.nodes) [n]
  remove : ∀ pre x post, c.nodes = pre ++ x :: post →
    Edits m (ops.remove m x) c (pre ++ post) []
  replace : ∀ pre x post n, c.nodes = pre ++ x :: post → c.Free n →
    Edits m (ops.replace m x n) c (pre ++ n :: post) [n]
  /-- The body may do anything that leaves the nodes still to come in place. -/
  foreachSafe : ∀ body fuel, c.nodes.length < fuel →
    (∀ pre x post, c.nodes = pre ++ x :: post → ∀ kept,
      Represents (runBody body m pre) (c.withNodes (kept ++ x :: post)) →
        ∃ kept', Represents (runBody body m (pre ++ [x])) (c.withNodes (kept' ++ post))) →
    ops.foreachSafe m c.head body fuel = some (c.nodes, runBody body m c.nodes)
  /-- To unlink the node and link it into another chain is such a thing. -/
  unlinked : ∀ d pre x post, Represents m d → ApartFrom c.words d.words →
    c.nodes = pre ++ x :: post → d.Takes c x →
    Unlinked (ops.remove m x) c d x (pre ++ post)
  /-- A traversal that moves nodes to the end of another chain. -/
  moveTo : ∀ d p fuel, Represents m d → ApartFrom c.words d.words → d.fld = c.fld →
    c.nodes.length < fuel → ∃ m', ops.foreachSafe m c.head (moveTo c d p) fuel = some (c.nodes, m') ∧
      Represents m' (c.withNodes (c.nodes.filter (!p ·))) ∧
      Represents m' (d.withNodes (d.nodes ++ c.nodes.filter p))

/-- The macros that exist for links at the start of a node only. -/
structure Extracts (m : Memory) (c : Chain) : Prop where
  isEmpty : _chainIsEmpty m c.head = true ↔ c.nodes = []
  first : ∀ x post, c.nodes = x :: post →
    (_chainExtractFirst m c.head).1 = x ∧ Edits m (_chainExtractFirst m c.head).2 c post []
  last : ∀ pre x, c.nodes = pre ++ [x] →
    (_chainExtractLast m c.head).1 = x ∧ Edits m (_chainExtractLast m c.head).2 c pre []
  null : c.nodes = [] →
    _chainExtractFirst m c.head = (0, m) ∧ _chainExtractLast m c.head = (0, m)
  first_iff : ((_chainExtractFirst m c.head).1 = 0 ↔ c.nodes = []) ∧
    ((_chainExtractFirst m c.head).2 = m ↔ c.nodes = [])
  last_iff : ((_chainExtractLast m c.head).1 = 0 ↔ c.nodes = []) ∧
    ((_chainExtractLast m c.head).2 = m ↔ c.nodes = [])

section

variable {m : Memory} {c : Chain}

theorem Represents.implements (h : Represents m c) : Implements (fieldMacros c.fld) m c where
  insertAfter _ _ _ hnodes hn := h.insertAfter hn hnodes
  insertBefore _ _ _ hnodes hn := h.insertBefore hn hnodes
  append _ hn := h.append hn
  preppend _ hn := h.preppend hn
  remove _ _ _ hnodes := h.remove hnodes
  replace _ _ _ _ hnodes hn := h.replace hn hnodes
  foreachSafe _ _ hfuel hbody := (h.foreachSafe hfuel hbody).1
  unlinked _ _ _ _ hd hcd hnodes hx := h.unlinked hd hcd hnodes hx
  moveTo d p fuel hd hcd hfld hfuel := by
    obtain ⟨hc, hd', -⟩ := h.moveTo hd hcd hfld p (List.append_nil _).symm
    rw [List.append_nil] at hc
    refine ⟨_, (h.foreachSafe hfuel fun pre x post hnodes kept _ => ?_).1, hc, hd'⟩
    have hnodes' : c.nodes = (pre ++ [x]) ++ post := by
      rw [hnodes, List.append_assoc, List.singleton_append]
    exact ⟨_, (h.moveTo hd hcd hfld p hnodes').1⟩

theorem Represents.extracts (h : Represents m c) (hfld : c.fld = 0) : Extracts m c where
  isEmpty := h.isEmpty hfld
  first _ _ hnodes := h.extractFirst hfld hnodes
  last _ _ hnodes := h.extractLast hfld hnodes
  null hnodes := ⟨h.extractFirst_nil hfld hnodes, h.extractLast_nil hfld hnodes⟩
  first_iff := by
    cases hnodes : c.nodes with
    | nil =>
      rw [h.extractFirst_nil hfld hnodes]
      exact ⟨iff_of_true rfl rfl, iff_of_true rfl rfl⟩
    | cons x post =>
      have hx := h.nodes_ne_null (hnodes ▸ List.mem_cons_self : x ∈ c.nodes)
      rw [(h.extractFirst hfld hnodes).1]
      exact ⟨iff_of_false hx nofun, iff_of_false (h.extractFirst_ne hfld hnodes) nofun⟩
  last_iff := by
    rcases List.eq_nil_or_concat c.nodes with hnodes | ⟨pre, x, hnodes⟩
    · rw [h.extractLast_nil hfld hnodes]
      exact ⟨iff_of_true rfl hnodes, iff_of_true rfl hnodes⟩
    · rw [List.concat_eq_append] at hnodes
      have hmem : x ∈ c.nodes := hnodes ▸ List.mem_append_right _ List.mem_cons_self
      have hne : c.nodes ≠ [] := List.ne_nil_of_mem hmem
      rw [(h.extractLast hfld hnodes).1]
      exact ⟨iff_of_false (h.nodes_ne_null hmem) hne,
        iff_of_false (h.extractLast_ne hfld hnodes) hne⟩

end

/-- **The macros implement lists**, for fields at any offset and for links at the start of the
nodes. -/
theorem chain_macros :
    (∀ m theList fld, chainHeadNode theList fld ≠ 0 → chainTailNode theList fld ≠ 0 →
      Edits m ((fieldMacros fld).initEmpty m theList) ⟨theList, fld, []⟩ [] []) ∧
    (∀ m theList, chainHeadNode theList 0 ≠ 0 → chainTailNode theList 0 ≠ 0 →
      Edits m (zeroMacros.initEmpty m theList) ⟨theList, 0, []⟩ [] []) ∧
    ∀ m c, Represents m c → Implements (fieldMacros c.fld) m c ∧
      (c.fld = 0 → Implements zeroMacros m c ∧ Extracts m c) := by
  refine ⟨fun m _ _ hhead htail => chainInitEmpty_edits m hhead htail,
    fun m _ hhead htail => chainInitEmpty_edits m hhead htail,
    fun m c h => ⟨h.implements, fun hfld => ⟨?_, h.extracts hfld⟩⟩⟩
  rw [zeroMacros_eq, ← hfld]
  exact h.implements

/-- Words that are eight bytes apart do not overlap. -/
theorem apartFrom_of_all {ws ws' : List Addr}
    (h : (ws.all fun w => ws'.all fun w' => 8 ≤ (w' - w).toNat && 8 ≤ (w - w').toNat) = true) :
    ApartFrom ws ws' := by
  intro w hw w' hw'
  have hle := List.all_eq_true.1 (List.all_eq_true.1 h w hw) w' hw'
  rw [Bool.and_eq_true_iff, decide_eq_true_iff, decide_eq_true_iff] at hle
  exact disjoint_span hle.1 hle.2

/-- Two chains are initialised, and two nodes are appended to the first one. A traversal moves one of
them to the second chain; then the other one is extracted. -/
theorem chain_macros_extract : ∃ m m' : Memory,
    Represents m ⟨0x1000, 0, [0x2000, 0x3000]⟩ ∧ Represents m ⟨0x5000, 0, []⟩ ∧
    _chainForeachSafe m 0x1000 (moveTo ⟨0x1000, 0, [0x2000, 0x3000]⟩ ⟨0x5000, 0, []⟩ (· = 0x2000)) 3 =
      some ([0x2000, 0x3000], m') ∧
    Represents m' ⟨0x1000, 0, [0x3000]⟩ ∧ Represents m' ⟨0x5000, 0, [0x2000]⟩ ∧
    (_chainExtractLast m' 0x1000).1 = 0x3000 ∧
    Represents (_chainExtractLast m' 0x1000).2 ⟨0x1000, 0, []⟩ ∧
    Represents (_chainExtractLast m' 0x1000).2 ⟨0x5000, 0, [0x2000]⟩ := by
  have init (m : Memory) (theList : Addr) (hhead : chainHeadNode theList 0 ≠ 0)
      (htail : chainTailNode theList 0 ≠ 0) :
      Edits m (_chainInitEmpty m theList) ⟨theList, 0, []⟩ [] [] :=
    chain_macros.2.1 m theList hhead htail
  have macros {m : Memory} {nodes : List Addr} (h : Represents m ⟨0x1000, 0, nodes⟩) :=
    (chain_macros.2.2 m _ h).2 rfl
  -- the first chain, and then the second one
  obtain ⟨m₀, hc₀⟩ : ∃ m₀ : Memory, Represents m₀ ⟨0x1000, 0, []⟩ :=
    ⟨_, (init (fun _ => 0) 0x1000 (by decide) (by decide)).represents⟩
  have hinit := init m₀ 0x5000 (by decide) (by decide)
  have hc₁ := hinit.others ⟨0x1000, 0, []⟩ hc₀ (apartFrom_of_all (by decide +kernel))
  -- the nodes
  have happend₁ := (macros hc₁).1.append 0x2000 ⟨apartFrom_of_all (by decide +kernel), by decide⟩
  have hd₁ := happend₁.others ⟨0x5000, 0, []⟩ hinit.represents (apartFrom_of_all (by decide +kernel))
  have happend₂ := (macros happend₁.represents).1.append 0x3000
    ⟨apartFrom_of_all (by decide +kernel), by decide⟩
  have hd₂ := happend₂.others ⟨0x5000, 0, []⟩ hd₁ (apartFrom_of_all (by decide +kernel))
  obtain ⟨m', hmoved, hc, hd⟩ := (macros happend₂.represents).1.moveTo ⟨0x5000, 0, []⟩ (· = 0x2000) 3
    hd₂ (apartFrom_of_all (by decide +kernel)) rfl (by decide)
  have hc : Represents m' ⟨0x1000, 0, [0x3000]⟩ := hc
  have hd : Represents m' ⟨0x5000, 0, [0x2000]⟩ := hd
  obtain ⟨hlast, hedits⟩ := (macros hc).2.last [] 0x3000 rfl
  exact ⟨_, m', happend₂.represents, hd₂, hmoved, hc, hd, hlast, hedits.represents,
    hedits.others _ hd (apartFrom_of_all (by decide +kernel))⟩

end Ptask.Intrusive
