import Ptask.OneN.Fifo

/-!
# Candidates for a switch

`fiber_sched` stays with its caller when the caller is the first entry of the ready list. A task that
waits has left the list, so it is never found there. A task that yields has been put back in front of
the maintask: it finds itself when nobody else but the maintask is ready.
-/

namespace Ptask.OneN

open Ptask.Lib

namespace Sched

variable {b : Boot} {m : Move} {s s' σ : Sched} {c : Call}

/-! ## Where `fiber_sched` is called -/

/-- The control block, apart from frame and state, with which the current task goes to sleep in the
call; `none` when the call returns without `fiber_sched`. -/
def parks (s : Sched) : Call → Option FibTCB
  | .yield code => some { s.tcb s.currentTask with yieldCode := code }
  | .usleep _ => some (s.tcb s.currentTask)
  | .eventWait eventsIn options timeout =>
    let x := s.tcb s.currentTask
    if eventsSatisfy (x.pendingEvents &&& eventsIn) eventsIn options then none
    else if timeout = 0 then none
    else some { x with seizedEvents := 0, waitingEvents := eventsIn, waitingOptions := options }
  | .mutexLock i =>
    if (s.mutex i).holder = some s.currentTask then none
    else if (s.mutex i).holder = none then none
    else some (s.tcb s.currentTask)
  | .semWait i => if 0 < (s.sem i).count then none else some (s.tcb s.currentTask)
  | .semTimedwait i timeout =>
    if 0 < (s.sem i).count then none
    else if timeout = 0 then none
    else some { s.tcb s.currentTask with yieldCode := 0 }
  | .condWait _ => some (s.tcb s.currentTask)
  | .condTimedwait _ timeout =>
    if timeout = 0 then none else some { s.tcb s.currentTask with yieldCode := 0 }
  | _ => none

/-- The state in which the move calls `fiber_sched`. -/
def atSched (s : Sched) : Move → Option Sched
  | .call .schedYield => some s.yielded
  | .call c => (s.parks c).map (s.suspend c)
  | .schedulerExhaust =>
    if s.readylist.head? ≠ s.readylist.getLast? then some s.yielded else none
  | _ => none

/-- A call that goes to sleep calls `fiber_sched` once it has left the ready list. -/
theorem call_of_parks (h : s.Idle) {x : FibTCB} (hx : s.parks c = some x) :
    s.call c = (s.suspend c x).schedule := by
  cases c with
  | yield code =>
    cases hx
    exact fiberYield_eq h code
  | usleep usec =>
    cases hx
    exact fiberUsleep_eq h usec
  | eventWait events options timeout =>
    refine (fiberEventWait_eq h events options timeout).trans ?_
    simp only [parks] at hx
    split at hx
    · cases hx
    · next hsat =>
      split at hx
      · cases hx
      · next ht =>
        cases hx
        rw [if_neg hsat, if_neg ht]
  | mutexLock i =>
    refine (fiberMutexLock_eq h i).trans ?_
    simp only [parks] at hx
    split at hx
    · cases hx
    · next hh =>
      split at hx
      · cases hx
      · next hn =>
        cases hx
        rw [if_neg hh, if_neg hn]
  | semWait i =>
    refine (fiberSemWait_eq h i).trans ?_
    simp only [parks] at hx
    split at hx
    · cases hx
    · next hc =>
      cases hx
      rw [if_neg hc]
  | semTimedwait i timeout =>
    refine (fiberSemTimedwait_eq h i timeout).trans ?_
    simp only [parks] at hx
    split at hx
    · cases hx
    · next hc =>
      split at hx
      · cases hx
      · next ht =>
        cases hx
        rw [if_neg hc, if_neg ht]
  | condWait i =>
    cases hx
    exact fiberCondWait_eq h i
  | condTimedwait i timeout =>
    refine (fiberCondTimedwait_eq h i timeout).trans ?_
    simp only [parks] at hx
    split at hx
    · cases hx
    · next ht =>
      cases hx
      rw [if_neg ht]
  | _ => cases hx

/-- A call that can wait and does not go to sleep keeps the processor. -/
theorem current_of_not_parks (h : s.Idle) (hb : c.blocks = true) (hx : s.parks c = none)
    (hs : s.call c = some s') : s'.currentTask = s.currentTask := by
  cases c with
  | yield => cases hx
  | usleep => cases hx
  | eventWait events options timeout =>
    have hs := (fiberEventWait_eq h events options timeout).symm.trans hs
    simp only [parks] at hx
    split at hs
    · exact Option.some.inj hs ▸ rfl
    · next hsat =>
      split at hs
      · exact Option.some.inj hs ▸ rfl
      · next ht =>
        rw [if_neg hsat, if_neg ht] at hx
        cases hx
  | mutexLock i =>
    have hs := (fiberMutexLock_eq h i).symm.trans hs
    simp only [parks] at hx
    split at hs
    · exact Option.some.inj hs ▸ rfl
    · next hh =>
      split at hs
      · exact Option.some.inj hs ▸ rfl
      · next hn =>
        rw [if_neg hh, if_neg hn] at hx
        cases hx
  | semWait i =>
    have hs := (fiberSemWait_eq h i).symm.trans hs
    simp only [parks] at hx
    split at hs
    · exact Option.some.inj hs ▸ rfl
    · next hc =>
      rw [if_neg hc] at hx
      cases hx
  | semTimedwait i timeout =>
    have hs := (fiberSemTimedwait_eq h i timeout).symm.trans hs
    simp only [parks] at hx
    split at hs
    · exact Option.some.inj hs ▸ rfl
    · next hc =>
      split at hs
      · exact Option.some.inj hs ▸ rfl
      · next ht =>
        rw [if_neg hc, if_neg ht] at hx
        cases hx
  | condWait => cases hx
  | condTimedwait i timeout =>
    have hs := (fiberCondTimedwait_eq h i timeout).symm.trans hs
    simp only [parks] at hx
    split at hs
    · exact Option.some.inj hs ▸ rfl
    · next ht =>
      rw [if_neg ht] at hx
      cases hx
  | _ => cases hb

theorem parks_blocks {x : FibTCB} (hx : s.parks c = some x) : c.blocks = true := by
  cases c with
  | yield => rfl
  | usleep => rfl
  | eventWait events options timeout =>
    simp only [parks] at hx
    split at hx
    · cases hx
    · split at hx
      · cases hx
      · next ht => simpa [Call.blocks] using ht
  | mutexLock => rfl
  | semWait => rfl
  | semTimedwait i timeout =>
    simp only [parks] at hx
    split at hx
    · cases hx
    · split at hx
      · cases hx
      · next ht => simpa [Call.blocks] using ht
  | condWait => rfl
  | condTimedwait i timeout =>
    simp only [parks] at hx
    split at hx
    · cases hx
    · next ht => simpa [Call.blocks] using ht
  | _ => cases hx

theorem atSched_call (hc : c ≠ .schedYield) :
    s.atSched (.call c) = (s.parks c).map (s.suspend c) := by
  cases c <;> first | rfl | exact absurd rfl hc

/-- The move goes through `fiber_sched` in this state. -/
theorem exec_of_atSched (h : s.Idle) (hσ : s.atSched m = some σ) : s.exec m = σ.schedule := by
  cases m with
  | call c =>
    by_cases hc : c = .schedYield
    · subst hc
      cases hσ
      exact fiberSchedYield_eq h
    · rw [atSched_call hc] at hσ
      obtain ⟨x, hx, rfl⟩ := Option.map_eq_some_iff.1 hσ
      exact call_of_parks h hx
  | schedulerExhaust =>
    simp only [atSched] at hσ
    split at hσ
    · next hne =>
      cases hσ
      rw [exec, schedulerExhaust, if_pos hne]
      exact fiberSchedYield_eq h
    · cases hσ
  | _ => cases hσ

/-- Only `fiber_sched` and the end of a task change the current task. -/
theorem Inv.current_of_not_atSched (h : Inv b s) (hσ : s.atSched m = none) (hm : m ≠ .exit)
    (hs : s.step m = some s') : s'.currentTask = s.currentTask := by
  by_cases hsw : Move.maySwitch m = true
  · unfold Sched.step at hs
    split at hs
    case isFalse => cases hs
    cases m with
    | call c =>
      by_cases hc : c = .schedYield
      · subst hc
        cases hσ
      · rw [atSched_call hc] at hσ
        refine current_of_not_parks h.idle ?_ (Option.map_eq_none_iff.1 hσ) hs
        simpa [Move.maySwitch, hc] using hsw
    | exit => exact absurd rfl hm
    | schedulerExhaust =>
      simp only [atSched] at hσ
      split at hσ
      · cases hσ
      · next heq =>
        rw [exec, schedulerExhaust, if_neg heq] at hs
        exact Option.some.inj hs ▸ rfl
    | _ => cases hsw
  · exact (h.more_trs (h.trs_step hs) (by simpa using hsw)).1

/-! ## The choice of `fiber_sched` -/

/-- `fiber_sched` returns to its caller without a switch. -/
def Stays (s : Sched) : Prop := s.fiberSched = some s

/-- `fiber_sched` switches to another task. -/
def Switches (s : Sched) : Prop :=
  ∃ s', s.fiberSched = some s' ∧ s'.currentTask ≠ s.currentTask

/-- What the comment in `fiber_sched` says: it stays with the caller if and only if this is the
maintask and nobody else is ready. -/
def StaysOnlyAlone (s : Sched) : Prop :=
  (s.Stays ↔ s.currentTask = s.theMaintask ∧ s.readylist = [s.theMaintask]) ∧
    (¬s.Stays → s.Switches)

theorem stays_of_head (h : s.readylist.head? = some s.currentTask) : s.Stays := by
  obtain ⟨l, hl⟩ := List.head?_eq_some_iff.1 h
  unfold Stays fiberSched
  rw [hl]
  exact if_pos rfl

theorem switches_of_head {t : TaskId} (h : s.readylist.head? = some t) (hne : t ≠ s.currentTask) :
    s.Switches := by
  obtain ⟨l, hl⟩ := List.head?_eq_some_iff.1 h
  unfold Switches fiberSched
  rw [hl]
  refine ⟨_, if_neg hne, ?_⟩
  dsimp only
  split <;> exact hne

theorem Switches.not_stays (h : s.Switches) : ¬s.Stays := by
  obtain ⟨s', hs, hne⟩ := h
  intro hstay
  obtain rfl : s = s' := Option.some.inj (hstay.symm.trans hs)
  exact hne rfl

/-- When another task is first, the comment is right: the maintask is not alone. -/
theorem staysOnlyAlone_of_head {t : TaskId} (h : s.readylist.head? = some t)
    (hne : t ≠ s.currentTask) : s.StaysOnlyAlone := by
  have hsw := switches_of_head h hne
  refine ⟨⟨fun hs => absurd hs hsw.not_stays, ?_⟩, fun _ => hsw⟩
  rintro ⟨hc, hr⟩
  rw [hr] at h
  exact absurd (hc.trans (Option.some.inj h)).symm hne

/-- A caller that is first is the maintask alone, or the comment is wrong. -/
theorem staysOnlyAlone_iff_of_head (h : s.readylist.head? = some s.currentTask) :
    s.StaysOnlyAlone ↔ s.currentTask = s.theMaintask ∧ s.readylist = [s.theMaintask] := by
  have hs := stays_of_head h
  exact ⟨fun hp => hp.1.1 hs, fun hp => ⟨⟨fun _ => hp, fun _ => hs⟩, fun hn => absurd hs hn⟩⟩

/-- A task that waits has left the ready list. -/
theorem Inv.staysOnlyAlone_suspend (h : Inv b s) {x : FibTCB}
    (hne : s.currentTask ≠ s.theMaintask) : (s.suspend c x).StaysOnlyAlone := by
  have hcur : (s.suspend c x).currentTask = s.currentTask := by
    unfold Sched.suspend joinQueue
    split <;> rfl
  have hr : (s.suspend c x).readylist = s.readyTasks.erase s.currentTask ++ [s.theMaintask] := by
    rw [readylist_suspend]
    exact erase_main h hne
  have hoff : s.currentTask ∉ s.readyTasks.erase s.currentTask := fun hm =>
    (h.readyTasks_nodup.1.mem_erase_iff.1 hm).1 rfl
  cases hl : s.readyTasks.erase s.currentTask with
  | nil =>
    refine staysOnlyAlone_of_head (t := s.theMaintask) (by rw [hr, hl]; rfl) ?_
    rw [hcur]
    exact hne.symm
  | cons t l =>
    refine staysOnlyAlone_of_head (t := t) (by rw [hr, hl]; rfl) ?_
    rw [hcur]
    exact fun e => hoff (by rw [hl, e]; exact List.mem_cons_self)

/-- The ready list when the current task has yielded. -/
theorem Inv.readylist_yielded (h : Inv b s) (hne : s.currentTask ≠ s.theMaintask) :
    s.yielded.readylist = s.readyTasks.erase s.currentTask ++ [s.currentTask, s.theMaintask] := by
  have hm : s.theMaintask ∉ s.readyTasks.erase s.currentTask := fun hm =>
    h.readyTasks_nodup.2 (List.mem_of_mem_erase hm)
  rw [Sched.yielded]
  simp only [hne, if_false]
  rw [erase_main h hne, insertBefore_append_singleton hm]

theorem Inv.readylist_yielded_main (h : Inv b s) (hc : s.currentTask = s.theMaintask) :
    s.yielded.readylist = s.readylist := by
  rw [Sched.yielded]
  simp only [hc, if_true]
  rw [h.readylist_eq, List.erase_append_right _ h.readyTasks_nodup.2, List.erase_cons_head,
    List.append_nil]

/-- A task that yields gets itself back when only the maintask is ready besides it. -/
theorem Inv.staysOnlyAlone_yielded (h : Inv b s) (hne : s.currentTask ≠ s.theMaintask) :
    s.yielded.StaysOnlyAlone ↔ s.readylist ≠ [s.currentTask, s.theMaintask] := by
  have hr := h.readylist_yielded hne
  have hmem := h.current_mem hne
  have hoff : s.currentTask ∉ s.readyTasks.erase s.currentTask := fun hm =>
    (h.readyTasks_nodup.1.mem_erase_iff.1 hm).1 rfl
  cases hl : s.readyTasks.erase s.currentTask with
  | nil =>
    have halone : s.readyTasks = [s.currentTask] := by
      have hperm := List.perm_cons_erase hmem
      rw [hl] at hperm
      exact List.perm_singleton.1 hperm
    have hhead : s.yielded.readylist.head? = some s.yielded.currentTask := by rw [hr, hl]; rfl
    rw [staysOnlyAlone_iff_of_head hhead]
    refine ⟨fun hp => absurd hp.1 hne, fun hp => absurd ?_ hp⟩
    rw [h.readylist_eq, halone]
    rfl
  | cons t l =>
    have ht : t ≠ s.currentTask := fun e => hoff (by rw [hl, e]; exact List.mem_cons_self)
    refine ⟨fun _ hp => ?_, fun _ => staysOnlyAlone_of_head (t := t) (by rw [hr, hl]; rfl) ht⟩
    have halone : s.readyTasks = [s.currentTask] := readyTasks_eq (l := [s.currentTask]) hp
    rw [halone, List.erase_cons_head] at hl
    cases hl

/-- The maintask yields to whoever is first. -/
theorem Inv.staysOnlyAlone_yielded_main (h : Inv b s) (hc : s.currentTask = s.theMaintask) :
    s.yielded.StaysOnlyAlone := by
  have hr := h.readylist_yielded_main hc
  cases hl : s.readyTasks with
  | nil =>
    have hone : s.yielded.readylist = [s.theMaintask] := by rw [hr, h.readylist_eq, hl]; rfl
    have hhead : s.yielded.readylist.head? = some s.yielded.currentTask := by
      rw [hone]
      exact congrArg some hc.symm
    exact (staysOnlyAlone_iff_of_head hhead).2 ⟨hc, hone⟩
  | cons t l =>
    have hmain := h.readyTasks_nodup.2
    refine staysOnlyAlone_of_head (t := t) (by rw [hr, h.readylist_eq, hl]; rfl) ?_
    intro e
    exact hmain (by rw [hl, e, ← hc]; exact List.mem_cons_self)

/-- The move is a yield of a task that is ready alone with the maintask. -/
def YieldsAlone (s : Sched) (m : Move) : Prop :=
  m = .call .schedYield ∧ s.currentTask ≠ s.theMaintask ∧
    s.readylist = [s.currentTask, s.theMaintask]

theorem Inv.staysOnlyAlone_iff (h : Inv b s) (hp : s.permitted m = true)
    (hσ : s.atSched m = some σ) : σ.StaysOnlyAlone ↔ ¬s.YieldsAlone m := by
  have hnot (hm : m ≠ .call .schedYield) : ¬s.YieldsAlone m := fun hy => hm hy.1
  cases m with
  | call c =>
    by_cases hc : c = .schedYield
    · subst hc
      cases hσ
      by_cases hmain : s.currentTask = s.theMaintask
      · exact iff_of_true (h.staysOnlyAlone_yielded_main hmain) fun hy => hy.2.1 hmain
      · rw [h.staysOnlyAlone_yielded hmain]
        exact ⟨fun hr hy => hr hy.2.2, fun hn hr => hn ⟨rfl, hmain, hr⟩⟩
    · rw [atSched_call hc] at hσ
      obtain ⟨x, hx, rfl⟩ := Option.map_eq_some_iff.1 hσ
      have hb := parks_blocks hx
      have hne : s.currentTask ≠ s.theMaintask := by
        have hp := (Bool.and_eq_true_iff.1 hp).2
        simpa [hb] using hp
      exact iff_of_true (h.staysOnlyAlone_suspend hne) (hnot (by simpa using hc))
  | schedulerExhaust =>
    simp only [atSched] at hσ
    split at hσ
    · cases hσ
      have hmain : s.currentTask = s.theMaintask := by
        simp only [permitted, Bool.and_eq_true, decide_eq_true_eq] at hp
        exact hp.1
      exact iff_of_true (h.staysOnlyAlone_yielded_main hmain) (hnot (by rintro ⟨⟩))
    · cases hσ
  | _ => cases hσ

end Sched

/-! ## Runs -/

/-- **When the comment in `fiber_sched` is right.** In every reachable state, a move that calls
`fiber_sched` stays with its caller exactly when the maintask calls it and nobody else is ready, and
switches to another task otherwise, if and only if it is not the yield of a task that is ready alone
with the maintask. -/
theorem reachable_staysOnlyAlone_iff {b : Boot} {s σ : Sched} {m : Move} (h : Reachable b s)
    (hp : s.permitted m = true) (hσ : s.atSched m = some σ) :
    s.exec m = σ.schedule ∧ (σ.StaysOnlyAlone ↔ ¬s.YieldsAlone m) :=
  ⟨Sched.exec_of_atSched h.inv.idle hσ, h.inv.staysOnlyAlone_iff hp hσ⟩

/-- Two tasks are ready; the second is current. -/
def pairRun : List Move :=
  newTasks 2 ++ [.schedulerStart, .schedulerPass, .schedulerExhaust]

set_option maxRecDepth 4000 in
theorem pairRun_staysOnlyAlone : ∃ s, pairRun.foldlM Sched.step (boot {}) = some s ∧
    s.readylist = [163, 100, 0] ∧ s.exec (.call .schedYield) = s.yielded.schedule ∧
    s.yielded.StaysOnlyAlone := by
  have hrun : ((pairRun.foldlM Sched.step (boot {})).map fun s =>
      (s.readylist, s.permitted (.call .schedYield))) = some ([163, 100, 0], true) := by
    decide +kernel
  obtain ⟨s, hs, hl⟩ := Option.map_eq_some_iff.1 hrun
  obtain ⟨hr, hp⟩ := Prod.mk.inj hl
  obtain ⟨he, hiff⟩ := reachable_staysOnlyAlone_iff (Reach.of_foldlM hs) hp rfl
  refine ⟨s, hs, hr, he, hiff.2 fun hy => ?_⟩
  have hlen := congrArg List.length (hr.symm.trans hy.2.2)
  cases hlen

/-- One task is ready besides the maintask, and current. -/
def loneRun : List Move :=
  newTasks 1 ++ [.schedulerStart, .schedulerPass, .schedulerExhaust]

set_option maxRecDepth 4000 in
/-- The task yields and gets itself back: neither the maintask nor its timers run. -/
theorem loneRun_not_staysOnlyAlone : ∃ s σ, loneRun.foldlM Sched.step (boot {}) = some s ∧
    s.permitted (.call .schedYield) = true ∧ s.atSched (.call .schedYield) = some σ ∧
    σ.currentTask = 100 ∧ σ.theMaintask = 0 ∧ σ.Stays ∧ ¬σ.StaysOnlyAlone := by
  have hrun : ((loneRun.foldlM Sched.step (boot {})).map fun s =>
      (s.permitted (.call .schedYield), s.yielded.currentTask, s.yielded.theMaintask,
        s.yielded.readylist)) = some (true, 100, 0, [100, 0]) := by decide +kernel
  obtain ⟨s, hs, hl⟩ := Option.map_eq_some_iff.1 hrun
  simp only [Prod.mk.injEq] at hl
  obtain ⟨hp, hcur, hmain, hr⟩ := hl
  have hhead : s.yielded.readylist.head? = some s.yielded.currentTask := by rw [hr, hcur]; rfl
  refine ⟨s, _, hs, hp, rfl, hcur, hmain, Sched.stays_of_head hhead, ?_⟩
  rw [Sched.staysOnlyAlone_iff_of_head hhead, hcur, hmain]
  rintro ⟨he, -⟩
  cases he

end Ptask.OneN
