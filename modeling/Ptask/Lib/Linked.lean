import Mathlib.Data.List.Chain
import Mathlib.Logic.Function.Basic

/-!
# Doubly linked lists

Consecutive nodes of a doubly linked list are linked both ways (`Linked`). An edit of the list
changes the links between two of its nodes only, so what comes before and behind stays linked
(`Linked.edit`); to insert, to remove and to replace a node are such edits. The two ends of the list
are nodes as well.
-/

namespace Ptask.Lib

variable {ν : Type*}

/-- Consecutive nodes are linked both ways. -/
def Linked (next prev : ν → ν) (ns : List ν) : Prop :=
  ns.IsChain fun a b => next a = b ∧ prev b = a

namespace Linked

variable {next prev next' prev' : ν → ν} {pre post ns k l : List ν} {a b x y : ν}

theorem append_cons_iff :
    Linked next prev (pre ++ a :: post) ↔
      Linked next prev (pre ++ [a]) ∧ Linked next prev (a :: post) :=
  List.isChain_split

theorem pair (h : Linked next prev (pre ++ a :: b :: post)) : next a = b ∧ prev b = a :=
  (List.isChain_cons_cons.1 (append_cons_iff.1 h).2).1

/-- The forward link of the last node and the backward link of the first do not matter. -/
theorem congr (h : Linked next prev ns) (hn : ∀ y ∈ ns.dropLast, next' y = next y)
    (hp : ∀ y ∈ ns.tail, prev' y = prev y) : Linked next' prev' ns := by
  induction ns with
  | nil => exact List.isChain_nil
  | cons a ns ih =>
    cases ns with
    | nil => exact List.isChain_singleton a
    | cons b ns =>
      obtain ⟨hab, hrest⟩ := List.isChain_cons_cons.1 h
      rw [List.dropLast_cons_cons] at hn
      have ha := hn a List.mem_cons_self
      have hb := hp b List.mem_cons_self
      refine List.isChain_cons_cons.2 ⟨⟨ha.trans hab.1, hb.trans hab.2⟩, ?_⟩
      exact ih hrest (fun y hy => hn y (List.mem_cons_of_mem _ hy))
        fun y hy => hp y (List.mem_cons_of_mem _ hy)

/-- **Only the links between two nodes change.** -/
theorem edit (h : Linked next prev (pre ++ a :: (k ++ b :: post)))
    (hnew : Linked next' prev' (a :: (l ++ [b]))) (hn : ∀ y ∈ pre ++ b :: post, next' y = next y)
    (hp : ∀ y ∈ pre ++ a :: post, prev' y = prev y) :
    Linked next' prev' (pre ++ a :: (l ++ b :: post)) := by
  obtain ⟨hpre, hrest⟩ := append_cons_iff.1 h
  rw [← List.cons_append] at hrest
  have hpost := (append_cons_iff.1 hrest).2
  refine append_cons_iff.2 ⟨hpre.congr (fun y hy => ?_) fun y hy => ?_, ?_⟩
  · rw [List.dropLast_concat] at hy
    exact hn y (List.mem_append_left _ hy)
  · rcases List.mem_append.1 (List.mem_of_mem_tail hy) with hmem | hmem
    · exact hp y (List.mem_append_left _ hmem)
    · obtain rfl := List.mem_singleton.1 hmem
      exact hp y (List.mem_append_right _ List.mem_cons_self)
  · rw [← List.cons_append]
    refine append_cons_iff.2 ⟨hnew, hpost.congr (fun y hy => ?_) fun y hy => ?_⟩
    · exact hn y (List.mem_append_right _ (List.dropLast_subset _ hy))
    · exact hp y (List.mem_append_right _ (List.mem_cons_of_mem _ hy))

section

variable [DecidableEq ν]

theorem insert (h : Linked next prev (pre ++ a :: b :: post)) (hnd : (pre ++ a :: b :: post).Nodup)
    (hx : x ∉ pre ++ a :: b :: post) :
    Linked (Function.update (Function.update next a x) x b)
      (Function.update (Function.update prev x a) b x) (pre ++ a :: x :: b :: post) := by
  simp only [List.mem_append, List.mem_cons, not_or] at hx
  obtain ⟨hxpre, hxa, hxb, hxpost⟩ := hx
  simp only [List.nodup_append, List.nodup_cons, List.mem_cons] at hnd
  refine edit (k := []) (l := [x]) h ?_ (fun y hy => ?_) fun y hy => ?_
  · simp [Linked, List.isChain_cons_cons, Ne.symm hxa, hxb]
  · have hyx : y ≠ x := by grind
    have hya : y ≠ a := by grind
    rw [Function.update_of_ne hyx, Function.update_of_ne hya]
  · have hyb : y ≠ b := by grind
    have hyx : y ≠ x := by grind
    rw [Function.update_of_ne hyb, Function.update_of_ne hyx]

theorem remove (h : Linked next prev (pre ++ a :: x :: b :: post))
    (hnd : (pre ++ a :: x :: b :: post).Nodup) :
    Linked (Function.update next a b) (Function.update prev b a) (pre ++ a :: b :: post) := by
  simp only [List.nodup_append, List.nodup_cons, List.mem_cons] at hnd
  refine edit (k := [x]) (l := []) h ?_ (fun y hy => ?_) fun y hy => ?_
  · simp [Linked, List.isChain_cons_cons]
  · have hya : y ≠ a := by grind
    rw [Function.update_of_ne hya]
  · have hyb : y ≠ b := by grind
    rw [Function.update_of_ne hyb]

theorem replace (h : Linked next prev (pre ++ a :: x :: b :: post))
    (hnd : (pre ++ a :: x :: b :: post).Nodup) (hy : y ∉ pre ++ a :: b :: post) :
    Linked (Function.update (Function.update next a y) y b)
      (Function.update (Function.update prev b y) y a) (pre ++ a :: y :: b :: post) := by
  simp only [List.mem_append, List.mem_cons, not_or] at hy
  obtain ⟨hypre, hya, hyb, hypost⟩ := hy
  simp only [List.nodup_append, List.nodup_cons, List.mem_cons] at hnd
  refine edit (k := [x]) (l := [y]) h ?_ (fun z hz => ?_) fun z hz => ?_
  · simp [Linked, List.isChain_cons_cons, Ne.symm hya, Ne.symm hyb]
  · have hzy : z ≠ y := by grind
    have hza : z ≠ a := by grind
    rw [Function.update_of_ne hzy, Function.update_of_ne hza]
  · have hzy : z ≠ y := by grind
    have hzb : z ≠ b := by grind
    rw [Function.update_of_ne hzy, Function.update_of_ne hzb]

end

end Linked

end Ptask.Lib
