import Ptask.OneN.Waits

/-!
# A broadcast is a sequence of signals

`fiber_cond_broadcast` collects the whole wait queue and then makes its tasks ready, a signal does
everything for one task. Both end the waits one after the other (`Sched.signalled`), so that as many
signals as there are tasks in the queue end in the state in which one broadcast ends. Only the
returns of the signals themselves differ.

That is what `task.c` says. It is compiled with strict aliasing, though, and then the second loop of
the broadcast does not see what the first one has collected (`Aliasing`).
-/

namespace Ptask.OneN

open Ptask.Lib

namespace Sched

variable {b : Boot} {s : Sched} {w : TaskId} {i : CondId}

/-- The state without what was observed, apart from the waits that other tasks have ended. -/
def endsOnly (s : Sched) : Sched := { s with log := s.log.filter Ev.isGrant }

/-- `n` calls of `fiber_cond_signal`, one after the other. -/
def signals (i : CondId) : Nat → Sched → Sched
  | 0, s => s
  | n + 1, s => signals i n (s.fiberCondSignal i)

theorem endsOnly_ret {t : TaskId} {c : Call} {r : Ret} : (s.ret t c r).endsOnly = s.endsOnly := rfl

/-- Ending a wait does not depend on what was observed. -/
theorem endsOnly_signalled : (s.signalled w).endsOnly = s.endsOnly.signalled w := by
  have hframe : (s.endsOnly.tcb w).frame = (s.tcb w).frame := rfl
  unfold signalled
  rw [hframe]
  cases (s.tcb w).frame with
  | none => rfl
  | some c =>
    simp only [endsOnly, grant, wake, unlink, List.singleton_append]
    rfl

theorem endsOnly_foldl : ∀ (l : List TaskId) (s : Sched),
    (l.foldl signalled s).endsOnly = l.foldl signalled s.endsOnly := by
  intro l
  induction l with
  | nil => exact fun _ => rfl
  | cons w l ih =>
    intro s
    rw [List.foldl_cons, List.foldl_cons, ih, endsOnly_signalled]

theorem Inv.waits_of_cond (h : Inv b s) {u : TaskId} (hu : u ∈ (s.cond i).waitq) :
    ∃ c, s.Waits u c ∧ c.waitChain = some (.cond i) := by
  obtain ⟨c, hw, hc, -⟩ := (h.stand u).waits_of_queue (k := .cond i) nofun hu
  exact ⟨c, hw, hc⟩

theorem Inv.condSignal (h : Inv b s) (i : CondId) : Inv b (s.fiberCondSignal i) :=
  h.trs h.trs_condSignal

/-- A signal ends the wait of the first task in the queue. -/
theorem Inv.condSignal_cons (h : Inv b s) {rest : List TaskId} (hq : (s.cond i).waitq = w :: rest) :
    s.fiberCondSignal i = (s.signalled w).ret s.currentTask (.condSignal i) (.bool true) ∧
      ((s.fiberCondSignal i).cond i).waitq = rest := by
  obtain ⟨c, hw, hc⟩ := h.waits_of_cond (i := i) (u := w) (by rw [hq]; exact List.mem_cons_self)
  have hs := fiberCondSignal_cons h.idle hq hw hc
  refine ⟨by rw [hs, hw.signalled], ?_⟩
  rw [hs]
  simp [Sched.ret, Sched.emit, Sched.grant, Sched.wake, Sched.unlink, hq]

/-- As many signals as there are tasks in the queue end the waits of all of them, in their order. -/
theorem Inv.signals_eq {l : List TaskId} (h : Inv b s) (hq : (s.cond i).waitq = l) :
    (signals i l.length s).endsOnly = (l.foldl signalled s).endsOnly := by
  induction l generalizing s with
  | nil => rfl
  | cons w l ih =>
    obtain ⟨he, hrest⟩ := h.condSignal_cons hq
    have hstep := ih (h.condSignal i) hrest
    rw [List.length_cons, signals, hstep, List.foldl_cons, endsOnly_foldl, endsOnly_foldl, he,
      endsOnly_ret]

theorem Inv.broadcast_eq (h : Inv b s) (i : CondId) :
    (s.fiberCondBroadcast i).endsOnly = ((s.cond i).waitq.foldl signalled s).endsOnly := by
  rw [fiberCondBroadcast_eq h.idle (h.distinct (.cond i)) fun u hu => h.waits_of_cond hu,
    endsOnly_ret]

/-- The signals have emptied the queue. -/
theorem Inv.signals_waitq {l : List TaskId} (h : Inv b s) (hq : (s.cond i).waitq = l) :
    ((signals i l.length s).cond i).waitq = [] := by
  induction l generalizing s with
  | nil => exact hq
  | cons w l ih => exact ih (h.condSignal i) (h.condSignal_cons hq).2

/-- All tasks of the queue become ready. -/
theorem Inv.foldl_signalled (h : Inv b s) {l : List TaskId} (hl : l = (s.cond i).waitq) :
    ((l.foldl signalled s).cond i).waitq = [] ∧
      (l.foldl signalled s).live = s.live ∧
      (∀ t ∈ s.readylist, t ∈ (l.foldl signalled s).readylist) ∧
      ∀ t ∈ l, t ∈ (l.foldl signalled s).readylist := by
  induction l generalizing s with
  | nil =>
    refine ⟨hl.symm, rfl, fun _ ht => ht, ?_⟩
    intro t ht
    cases ht
  | cons w l ih =>
    obtain ⟨c, hw, hc, ht⟩ := trs_signalled (m := .call (.condBroadcast i)) (i := i)
      (by simp [usesCond]) (h.stand w) (hl ▸ List.mem_cons_self)
    have hrest : l = ((s.signalled w).cond i).waitq := by
      rw [hw.signalled]
      simp [Sched.grant, Sched.wake, Sched.unlink, ← hl]
    have hinv : Inv b (s.signalled w) := by
      rw [hw.signalled]
      exact h.trs ht
    have hready (t : TaskId) (ht : t = w ∨ t ∈ s.readylist) : t ∈ (s.signalled w).readylist := by
      rw [hw.signalled]
      apply (insertBefore_perm _ _ _).mem_iff.2
      by_cases htw : t = w
      · exact htw ▸ List.mem_cons_self
      · exact List.mem_cons_of_mem w ((List.mem_erase_of_ne htw).2 (ht.resolve_left htw))
    have hlive : (s.signalled w).live = s.live := by
      rw [hw.signalled]
      rfl
    obtain ⟨h1, h2, h3, h4⟩ := ih hinv hrest
    rw [List.foldl_cons]
    refine ⟨h1, h2.trans hlive, fun t ht => h3 t (hready t (.inr ht)), ?_⟩
    intro t ht
    rcases List.mem_cons.1 ht with rfl | ht
    · exact h3 t (hready t (.inl rfl))
    · exact h4 t ht

end Sched

/-! ## Runs -/

/-- **A broadcast ends as the signals do.** Everything is the same, the ready list, the watchdog list
with its intervals, the states and results of all tasks and the waits that have been ended, in their
order; and the queue is empty. -/
theorem reachable_broadcast_eq {b : Boot} {s : Sched} (h : Reachable b s) (i : CondId) :
    (s.fiberCondBroadcast i).endsOnly = (Sched.signals i (s.cond i).waitq.length s).endsOnly ∧
      ((s.fiberCondBroadcast i).cond i).waitq = [] := by
  have he := (h.inv.broadcast_eq i).trans (h.inv.signals_eq rfl).symm
  have hcond : (s.fiberCondBroadcast i).endsOnly.cond i =
      (Sched.signals i (s.cond i).waitq.length s).endsOnly.cond i := by rw [he]
  have hwaitq := h.inv.signals_waitq (i := i) rfl
  exact ⟨he, (congrArg FibCondition.waitq hcond).trans hwaitq⟩

/-! ## As the compiler builds it -/

/-- The macros of `chain.h` write the local chain as a `_chain_head_t`, the second loop of
`fiber_cond_broadcast` reads it as a `fibchain_t`. -/
inductive Aliasing
  /-- With `-O3`, as in the Makefile, the compiler takes these for two objects: the loop reads the
  chain as it was before the first loop, without a task. -/
  | strict
  /-- With `-fno-strict-aliasing` the loop reads what was written. -/
  | off
  deriving DecidableEq

/-- The local chain as the second loop reads it. -/
def Aliasing.read : Aliasing → List TaskId → List TaskId
  | .strict, _ => []
  | .off, localchain => localchain

namespace Sched

/-- `fiber_cond_broadcast` as it is built. -/
def fiberCondBroadcastAs (aliasing : Aliasing) (s : Sched) (i : CondId) : Sched :=
  let theTask := s.currentTask
  let localchain := (s.cond i).waitq
  let s := s.modCond i fun p => { p with waitq := [] }
  let s := localchain.foldl broadcastCollect s
  let s := (aliasing.read localchain).foldl
    (fun s theTcb => s.readyWaiter (s.tcb theTask).scheduler theTcb) s
  s.ret theTask (.condBroadcast i) (.bool true)

/-- A move of the library as it is built. -/
def stepAs (aliasing : Aliasing) (s : Sched) : Move → Option Sched
  | .call (.condBroadcast i) =>
    if s.permitted (.call (.condBroadcast i)) then some (s.fiberCondBroadcastAs aliasing i) else none
  | m => s.step m

end Sched

/-- The condition variable that a move broadcasts. -/
def Move.broadcasts : Move → Option CondId
  | .call (.condBroadcast i) => some i
  | _ => none

namespace Sched

/-- A broadcast loses nobody: it is built without strict aliasing, or nobody waits. -/
def Heard (aliasing : Aliasing) (s : Sched) (i : CondId) : Prop :=
  aliasing = .off ∨ (s.cond i).waitq = []

/-- The move loses nobody. -/
def HeardIn (aliasing : Aliasing) (s : Sched) (m : Move) : Prop :=
  ∀ i ∈ m.broadcasts, s.Heard aliasing i

instance (aliasing : Aliasing) (s : Sched) (i : CondId) : Decidable (s.Heard aliasing i) :=
  inferInstanceAs (Decidable (_ ∨ _))

instance (aliasing : Aliasing) (s : Sched) (m : Move) : Decidable (s.HeardIn aliasing m) :=
  inferInstanceAs (Decidable (∀ i ∈ m.broadcasts, s.Heard aliasing i))

variable {aliasing : Aliasing} {b : Boot} {s : Sched} {w : TaskId} {i : CondId} {m : Move}

theorem fiberCondBroadcastAs_eq (h : s.Heard aliasing i) :
    s.fiberCondBroadcastAs aliasing i = s.fiberCondBroadcast i := by
  have hread : aliasing.read (s.cond i).waitq = (s.cond i).waitq := by
    rcases h with rfl | hq
    · rfl
    · rw [hq]
      cases aliasing <;> rfl
  unfold fiberCondBroadcastAs fiberCondBroadcast
  dsimp only
  rw [hread]

/-- Until somebody is lost, the library does what `task.c` says. -/
theorem stepAs_eq (h : s.HeardIn aliasing m) : s.stepAs aliasing m = s.step m := by
  unfold stepAs
  split
  · next i => rw [fiberCondBroadcastAs_eq (h i rfl)]; rfl
  · rfl

/-- The first loop changes control blocks only. -/
theorem foldl_broadcastCollect (l : List TaskId) (s : Sched) :
    ∃ tcb log, l.foldl broadcastCollect s = { s with tcb := tcb, log := log } := by
  induction l generalizing s with
  | nil => exact ⟨s.tcb, s.log, rfl⟩
  | cons w l ih =>
    obtain ⟨tcb, log, hw⟩ : ∃ tcb log, s.broadcastCollect w = { s with tcb := tcb, log := log } := by
      unfold broadcastCollect emitFor
      dsimp only
      split <;> exact ⟨_, _, rfl⟩
    obtain ⟨tcb', log', hl⟩ := ih (s.broadcastCollect w)
    refine ⟨tcb', log', ?_⟩
    rw [List.foldl_cons, hl, hw]

/-- With strict aliasing the queue is emptied, and nobody is made ready. -/
theorem broadcastAs_strict : (s.fiberCondBroadcastAs .strict i).readylist = s.readylist ∧
    ((s.fiberCondBroadcastAs .strict i).cond i).waitq = [] := by
  obtain ⟨tcb, log, hl⟩ :=
    foldl_broadcastCollect (s.cond i).waitq (s.modCond i fun p => { p with waitq := [] })
  have hs : s.fiberCondBroadcastAs .strict i =
      ((s.cond i).waitq.foldl broadcastCollect (s.modCond i fun p => { p with waitq := [] })).ret
        s.currentTask (.condBroadcast i) (.bool true) := rfl
  rw [hs, hl]
  exact ⟨rfl, congrArg FibCondition.waitq (Function.update_self _ _ _)⟩

/-- A task that waits is made ready by a broadcast, unless the broadcast loses it. -/
theorem Inv.broadcastAs_ne (h : Inv b s) (hlost : ¬s.Heard aliasing i) :
    (s.fiberCondBroadcastAs aliasing i).readylist ≠ (s.fiberCondBroadcast i).readylist := by
  unfold Heard at hlost
  push Not at hlost
  obtain ⟨hon, hwait⟩ := hlost
  obtain ⟨w, hw⟩ := List.exists_mem_of_ne_nil _ hwait
  obtain ⟨-, -, -, hready⟩ := h.foldl_signalled (rfl : (s.cond i).waitq = _)
  cases aliasing with
  | off => exact absurd rfl hon
  | strict =>
    intro he
    rw [broadcastAs_strict.1, fiberCondBroadcast_eq h.idle (h.distinct (.cond i)) fun u hu =>
      h.waits_of_cond hu] at he
    obtain ⟨c, hc, -⟩ := h.waits_of_cond hw
    exact hc.not_ready (he ▸ hready w hw)

end Sched

/-- **When a broadcast ends as the signals do.** In a run in which no broadcast has lost anybody,
exactly if the next one loses nobody either. -/
theorem reach_broadcastAs_iff {b : Boot} {aliasing : Aliasing} {s : Sched}
    (h : Reach (Sched.stepAs aliasing) (Sched.HeardIn aliasing) (boot b) s) (i : CondId) :
    ((s.fiberCondBroadcastAs aliasing i).endsOnly =
        (Sched.signals i (s.cond i).waitq.length s).endsOnly ∧
      ((s.fiberCondBroadcastAs aliasing i).cond i).waitq = []) ↔ s.Heard aliasing i := by
  have hs : Reachable b s := (h.congr fun _ _ => Sched.stepAs_eq).any
  have hsignals := reachable_broadcast_eq hs i
  constructor
  · rintro ⟨hends, -⟩
    by_contra hlost
    have he : (s.fiberCondBroadcastAs aliasing i).endsOnly = (s.fiberCondBroadcast i).endsOnly :=
      hends.trans hsignals.1.symm
    exact hs.inv.broadcastAs_ne hlost (congrArg (fun s => s.readylist) he)
  · intro hheard
    rw [Sched.fiberCondBroadcastAs_eq hheard]
    exact hsignals

/-- Two tasks wait, the first with a timeout, the second without; a third task is current. -/
def waitersRun : List Move :=
  newTasks 3 ++ [.schedulerStart, .schedulerPass, .schedulerExhaust, .call (.condTimedwait 0 10),
    .call (.condWait 0)]

set_option maxRecDepth 4000 in
theorem waitersRun_broadcastAs : ∃ s,
    waitersRun.foldlM (Reach.guarded (Sched.stepAs .off) (Sched.HeardIn .off)) (boot {}) = some s ∧
    (s.cond 0).waitq.length = 2 ∧ s.wadoglist.length = 1 ∧
    (((s.fiberCondBroadcastAs .off 0).endsOnly =
        (Sched.signals 0 (s.cond 0).waitq.length s).endsOnly ∧
      ((s.fiberCondBroadcastAs .off 0).cond 0).waitq = []) ↔ s.Heard .off 0) := by
  have hrun : ((waitersRun.foldlM (Reach.guarded (Sched.stepAs .off) (Sched.HeardIn .off))
      (boot {})).map fun s => ((s.cond 0).waitq.length, s.wadoglist.length)) = some (2, 1) := by
    decide +kernel
  obtain ⟨s, hs, hl⟩ := Option.map_eq_some_iff.1 hrun
  exact ⟨s, hs, congrArg Prod.fst hl, congrArg Prod.snd hl,
    reach_broadcastAs_iff (Reach.of_guarded hs) 0⟩

/-- Three tasks wait, the second with a timeout; a fourth task is current. -/
def lostRun : List Move :=
  newTasks 4 ++ [.schedulerStart, .schedulerPass, .schedulerExhaust, .call (.condWait 0),
    .call (.condTimedwait 0 10), .call (.condWait 0)]

set_option maxRecDepth 4000 in
/-- As the Makefile builds it, the broadcast empties the queue and leaves the timer; three signals
make three tasks ready. -/
theorem lostRun_broadcastAs_ne : ∃ s, lostRun.foldlM (Sched.stepAs .strict) (boot {}) = some s ∧
    (s.cond 0).waitq.length = 3 ∧
    ((s.fiberCondBroadcastAs .strict 0).readylist.length,
      (s.fiberCondBroadcastAs .strict 0).wadoglist.length) = (2, 1) ∧
    ((Sched.signals 0 3 s).readylist.length, (Sched.signals 0 3 s).wadoglist.length) = (5, 0) ∧
    ¬((s.fiberCondBroadcastAs .strict 0).endsOnly = (Sched.signals 0 3 s).endsOnly ∧
      ((s.fiberCondBroadcastAs .strict 0).cond 0).waitq = []) := by
  have hrun : ((lostRun.foldlM (Sched.stepAs .strict) (boot {})).map fun s =>
      ((s.cond 0).waitq.length,
        ((s.fiberCondBroadcastAs .strict 0).readylist.length,
          (s.fiberCondBroadcastAs .strict 0).wadoglist.length),
        (Sched.signals 0 3 s).readylist.length, (Sched.signals 0 3 s).wadoglist.length)) =
      some (3, (2, 1), 5, 0) := by
    decide +kernel
  obtain ⟨s, hs, he⟩ := Option.map_eq_some_iff.1 hrun
  simp only [Prod.mk.injEq] at he
  obtain ⟨hq, ⟨hready, hdog⟩, hready', hdog'⟩ := he
  refine ⟨s, hs, hq, by rw [hready, hdog], by rw [hready', hdog'], fun hsame => ?_⟩
  have hlen : (s.fiberCondBroadcastAs .strict 0).readylist.length =
      (Sched.signals 0 3 s).readylist.length := congrArg (fun s => s.readylist.length) hsame.1
  rw [hready, hready'] at hlen
  cases hlen

end Ptask.OneN
