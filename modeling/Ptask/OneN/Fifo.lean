import Mathlib.Data.List.Rotate
import Ptask.OneN.Simulation

/-!
# The order of the ready list

The maintask is the last entry of the ready list. A task that becomes ready goes in front of it, and
so does the task that `fiber_sched` switches to, the first one of the list. A ready task is therefore
only waiting for those that are in front of it (`ahead`); nobody ever gets in front of it, and each
of those that are there leaves when it is switched to.
-/

namespace Ptask.OneN

open Ptask.Lib

namespace Sched

/-- The ready tasks other than the maintask, in their order. -/
def readyTasks (s : Sched) : List TaskId := s.readylist.dropLast

/-- The ready tasks in front of `t`. -/
def ahead (s : Sched) (t : TaskId) : List TaskId := s.readyTasks.takeWhile (· ≠ t)

/-- The move can call `fiber_sched` or end the current task. -/
def Move.maySwitch : Move → Bool
  | .call c => c.blocks || c = .schedYield
  | .exit => true
  | .schedulerExhaust => true
  | _ => false

variable {b : Boot} {m : Move} {s s' : Sched} {t u w a : TaskId} {c : Call} {l q : List TaskId}

theorem readyTasks_eq (h : s.readylist = l ++ [w]) : s.readyTasks = l := by
  rw [readyTasks, h, List.dropLast_concat]

theorem Settled.readylist_eq (h : Settled b s) : s.readylist = s.readyTasks ++ [s.theMaintask] := by
  obtain ⟨l, hl⟩ := h.ready
  rw [readyTasks_eq hl, hl]

theorem Settled.readyTasks_nodup (h : Settled b s) :
    s.readyTasks.Nodup ∧ s.theMaintask ∉ s.readyTasks := by
  have hnd : (s.readyTasks ++ [s.theMaintask]).Nodup := h.readylist_eq ▸ h.distinct .ready
  obtain ⟨h1, -, h3⟩ := List.nodup_append.1 hnd
  exact ⟨h1, fun hm => h3 _ hm _ (List.mem_singleton.2 rfl) rfl⟩

theorem Settled.mem_readyTasks (h : Settled b s) (ht : t ≠ s.theMaintask) :
    t ∈ s.readyTasks ↔ t ∈ s.readylist := by
  rw [h.readylist_eq, List.mem_append, List.mem_singleton, or_iff_left ht]

theorem Inv.current_mem (h : Inv b s) (hne : s.currentTask ≠ s.theMaintask) :
    s.currentTask ∈ s.readyTasks :=
  (h.mem_readyTasks hne).2 h.idle.place.mem

/-! ## Switches -/

/-- `fiber_sched` switches to the first ready task, which goes to the end. -/
theorem schedule_turn (hr : s.readylist = l ++ [s.theMaintask]) (hm : s.theMaintask ∉ l)
    (hs : s.schedule = some s') : s'.theMaintask = s.theMaintask ∧
      (l = [] → s'.readyTasks = [] ∧ s'.currentTask = s.theMaintask) ∧
      ∀ a q, l = a :: q → s'.currentTask = a ∧
        s'.readyTasks = if a = s.currentTask then l else q ++ [a] := by
  obtain ⟨s1, h1, rfl⟩ := Option.map_eq_some_iff.1 hs
  have harr : s1.arrive.readylist = s1.readylist ∧ s1.arrive.currentTask = s1.currentTask ∧
      s1.arrive.theMaintask = s1.theMaintask := by
    rcases arrive_eq (s := s1) with ha | ⟨c, -, ha⟩ <;> rw [ha] <;> exact ⟨rfl, rfl, rfl⟩
  rw [readyTasks, harr.1, harr.2.1, harr.2.2]
  cases l with
  | nil =>
    have hr : s.readylist = [s.theMaintask] := hr
    rw [fiberSched, hr] at h1
    dsimp only at h1
    by_cases he : s.theMaintask = s.currentTask
    · rw [if_pos he] at h1
      obtain rfl := Option.some.inj h1
      exact ⟨rfl, fun _ => ⟨by rw [hr]; rfl, he.symm⟩, fun _ _ h => by cases h⟩
    · have h2 : ¬s.theMaintask ≠ (s.unlink s.theMaintask).theMaintask := fun hne => hne rfl
      rw [if_neg he, if_neg h2] at h1
      obtain rfl := Option.some.inj h1
      exact ⟨rfl, fun _ => ⟨by simp [readyInsertTail, unlink, hr], rfl⟩, fun _ _ h => by cases h⟩
  | cons a q =>
    have hne : a ≠ s.theMaintask := fun e => hm (e ▸ List.mem_cons_self)
    have hq : s.theMaintask ∉ q := fun h => hm (List.mem_cons_of_mem _ h)
    have hr : s.readylist = a :: (q ++ [s.theMaintask]) := hr
    rw [fiberSched, hr] at h1
    dsimp only at h1
    by_cases he : a = s.currentTask
    · rw [if_pos he] at h1
      obtain rfl := Option.some.inj h1
      refine ⟨rfl, (by rintro ⟨⟩), fun a' q' hl => ?_⟩
      obtain ⟨rfl, rfl⟩ := List.cons.inj hl
      refine ⟨he.symm, ?_⟩
      rw [hr, if_pos he, ← List.cons_append, List.dropLast_concat]
    · have h2 : a ≠ (s.unlink a).theMaintask := hne
      rw [if_neg he, if_pos h2] at h1
      obtain rfl := Option.some.inj h1
      refine ⟨rfl, (by rintro ⟨⟩), fun a' q' hl => ?_⟩
      obtain ⟨rfl, rfl⟩ := List.cons.inj hl
      have herase : (s.unlink a).readylist = q ++ [s.theMaintask] := by simp [unlink, hr]
      have hlast : insertBefore s.theMaintask a (s.unlink a).readylist =
          q ++ [a] ++ [s.theMaintask] := by
        rw [herase, insertBefore_append_singleton hq, List.append_assoc]
        rfl
      refine ⟨rfl, ?_⟩
      rw [if_neg he]
      exact (congrArg List.dropLast hlast).trans List.dropLast_concat

/-- A call that waits does not switch, or it puts its task to sleep. -/
theorem Inv.block_cases (h : Inv b s) (hb : c.blocks = true) (hs : s.call c = some s') :
    (s'.currentTask = s.currentTask ∧ s'.theMaintask = s.theMaintask ∧ s'.readylist = s.readylist) ∨
      ∃ x, (s.suspend c x).schedule = some s' := by
  have same {s'' : Sched} (hs : some s'' = some s') (h1 : s''.currentTask = s.currentTask)
      (h2 : s''.theMaintask = s.theMaintask) (h3 : s''.readylist = s.readylist) :
      s'.currentTask = s.currentTask ∧ s'.theMaintask = s.theMaintask ∧
        s'.readylist = s.readylist := by
    obtain rfl := Option.some.inj hs
    exact ⟨h1, h2, h3⟩
  cases c with
  | yield code => exact .inr ⟨_, (fiberYield_eq h.idle code).symm.trans hs⟩
  | usleep usec => exact .inr ⟨_, (fiberUsleep_eq h.idle usec).symm.trans hs⟩
  | eventWait events options timeout =>
    have hs := (fiberEventWait_eq h.idle events options timeout).symm.trans hs
    split at hs
    · exact .inl (same hs rfl rfl rfl)
    · split at hs
      · exact .inl (same hs rfl rfl rfl)
      · exact .inr ⟨_, hs⟩
  | mutexLock i =>
    have hs := (fiberMutexLock_eq h.idle i).symm.trans hs
    split at hs
    · exact .inl (same hs rfl rfl rfl)
    · split at hs
      · exact .inl (same hs rfl rfl rfl)
      · exact .inr ⟨_, hs⟩
  | semWait i =>
    have hs := (fiberSemWait_eq h.idle i).symm.trans hs
    split at hs
    · exact .inl (same hs rfl rfl rfl)
    · exact .inr ⟨_, hs⟩
  | semTimedwait i timeout =>
    have hs := (fiberSemTimedwait_eq h.idle i timeout).symm.trans hs
    split at hs
    · exact .inl (same hs rfl rfl rfl)
    · split at hs
      · exact .inl (same hs rfl rfl rfl)
      · exact .inr ⟨_, hs⟩
  | condWait i => exact .inr ⟨_, (fiberCondWait_eq h.idle i).symm.trans hs⟩
  | condTimedwait i timeout =>
    have hs := (fiberCondTimedwait_eq h.idle i timeout).symm.trans hs
    split at hs
    · exact .inl (same hs rfl rfl rfl)
    · exact .inr ⟨_, hs⟩
  | _ => cases hb

/-! ## Moves that do not switch -/

theorem Settled.readyTasks_insert (h : Settled b s) {r : List TaskId}
    (hr : r = insertBefore s.theMaintask w s.readylist) : r.dropLast = s.readyTasks ++ [w] := by
  have hsplit : s.readyTasks ++ [w, s.theMaintask] = s.readyTasks ++ [w] ++ [s.theMaintask] := by
    rw [List.append_assoc]
    rfl
  rw [hr, h.readylist_eq, insertBefore_append_singleton h.readyTasks_nodup.2, hsplit,
    List.dropLast_concat]

/-- A transition that does not switch adds tasks to the end. -/
theorem Inv.more_tr (h : Inv b s) (htr : Tr m s s') (hm : Move.maySwitch m = false) :
    s'.currentTask = s.currentTask ∧ s'.theMaintask = s.theMaintask ∧
      ∃ es, s'.readyTasks = s.readyTasks ++ es := by
  have same {s' : Sched} (h1 : s'.currentTask = s.currentTask) (h2 : s'.theMaintask = s.theMaintask)
      (h3 : s'.readylist = s.readylist) : s'.currentTask = s.currentTask ∧
        s'.theMaintask = s.theMaintask ∧ ∃ es, s'.readyTasks = s.readyTasks ++ es :=
    ⟨h1, h2, [], by rw [readyTasks, h3, List.append_nil]; rfl⟩
  have wake {w : TaskId} {c : Call} (hw : s.Waits w c) :
      insertBefore s.theMaintask w (s.readylist.erase w) =
        insertBefore s.theMaintask w s.readylist := by
    rw [List.erase_of_not_mem hw.not_ready]
  cases htr with
  | quiet _ hq => exact same hq.currentTask hq.theMaintask (congrFun hq.chain .ready)
  | localdata w => exact same rfl rfl rfl
  | scrap w => exact same rfl rfl rfl
  | spawn _ w => exact ⟨rfl, rfl, [w], h.readyTasks_insert rfl⟩
  | exit hx => rw [hx] at hm; cases hm
  | ret c r => exact same rfl rfl rfl
  | semInit i v => exact same rfl rfl rfl
  | take i c => exact same rfl rfl rfl
  | unit i => exact same rfl rfl rfl
  | unitGrant i w rest c hq hw => exact ⟨rfl, rfl, [w], h.readyTasks_insert (wake hw)⟩
  | grant w c y r hw => exact ⟨rfl, rfl, [w], h.readyTasks_insert (wake hw)⟩
  | expire _ w c hw => exact ⟨rfl, rfl, [w], h.readyTasks_insert (wake hw)⟩
  | took => exact same rfl rfl rfl
  | posted w events => exact same rfl rfl rfl
  | eventGrant w events options timeout eventsIn pending seized hw =>
    exact ⟨rfl, rfl, [w], h.readyTasks_insert (wake hw)⟩
  | park c x _ hc _ hb =>
    rw [hc, Move.maySwitch, hb] at hm
    cases hm
  | schedYield _ hy => rcases hy with rfl | rfl <;> cases hm

theorem Inv.more_trs (h : Inv b s) (htr : Trs m s s') (hm : Move.maySwitch m = false) :
    s'.currentTask = s.currentTask ∧ s'.theMaintask = s.theMaintask ∧
      ∃ es, s'.readyTasks = s.readyTasks ++ es := by
  induction htr with
  | refl => exact ⟨rfl, rfl, [], (List.append_nil _).symm⟩
  | tail htr hlast ih =>
    obtain ⟨h1, h2, es, h3⟩ := ih
    obtain ⟨i1, i2, es', i3⟩ := (h.trs htr).more_tr hlast hm
    exact ⟨i1.trans h1, i2.trans h2, es ++ es', by rw [i3, h3, List.append_assoc]⟩

/-! ## Moves -/

/-- What a move does to the order of the ready tasks. -/
inductive Turn (s s' : Sched) : Prop
  /-- Tasks become ready. -/
  | more (es : List TaskId) (ready : s'.readyTasks = s.readyTasks ++ es)
    (current : s'.currentTask = s.currentTask)
  /-- The current task waits, exits or yields, and the maintask is next. -/
  | main (ready : s'.readyTasks = s.readyTasks.erase s.currentTask)
    (current : s'.currentTask = s.theMaintask)
  /-- The current task waits or yields, and the first one of the others is next. -/
  | next (a : TaskId) (q : List TaskId) (l : List TaskId)
    (left : s.readyTasks.erase s.currentTask ++ l = a :: q) (yields : l = [] ∨ l = [s.currentTask])
    (ready : s'.readyTasks = q ++ [a]) (current : s'.currentTask = a)

/-- The switch after the current task has left the front of the list: `l` is the current task again
when it yields. -/
theorem turn_of_schedule {σ : Sched} (h : Inv b s) (hσ : σ.theMaintask = s.theMaintask)
    (hc : σ.currentTask = s.currentTask) (hl : l = [] ∨ l = [s.currentTask])
    (hne : s.theMaintask ∉ l) (hr : σ.readylist = s.readyTasks.erase s.currentTask ++ l ++ [s.theMaintask])
    (hs : σ.schedule = some s') : s'.theMaintask = s.theMaintask ∧
      (s.readyTasks.erase s.currentTask ++ l = [] →
        s'.readyTasks = [] ∧ s'.currentTask = s.theMaintask) ∧
      ∀ a q, s.readyTasks.erase s.currentTask ++ l = a :: q →
        s'.currentTask = a ∧ s'.readyTasks = q ++ [a] := by
  have hm : σ.theMaintask ∉ s.readyTasks.erase s.currentTask ++ l := by
    rw [hσ, List.mem_append, not_or]
    exact ⟨fun hm => h.readyTasks_nodup.2 (List.mem_of_mem_erase hm), hne⟩
  obtain ⟨h1, h2, h3⟩ := schedule_turn (hσ ▸ hr) hm hs
  refine ⟨h1.trans hσ, fun hnil => hσ ▸ h2 hnil, fun a q hcase => ?_⟩
  obtain ⟨i1, i2⟩ := h3 a q hcase
  refine ⟨i1, ?_⟩
  rw [i2, hc]
  split
  · next he =>
    -- the task that yields is the only one
    have hnot : a ∉ s.readyTasks.erase s.currentTask := fun hm =>
      (h.readyTasks_nodup.1.mem_erase_iff.1 hm).1 he
    cases hpre : s.readyTasks.erase s.currentTask with
    | nil =>
      rw [hpre, List.nil_append] at hcase
      rcases hl with rfl | rfl
      · cases hcase
      · obtain ⟨rfl, rfl⟩ := List.cons.inj hcase
        rfl
    | cons x y =>
      rw [hpre] at hcase hnot
      obtain ⟨rfl, -⟩ := List.cons.inj hcase
      exact absurd List.mem_cons_self hnot
  · rfl

theorem turn_of_next (hl : l = [] ∨ l = [s.currentTask])
    (hs : (s.readyTasks.erase s.currentTask ++ l = [] →
        s'.readyTasks = [] ∧ s'.currentTask = s.theMaintask) ∧
      ∀ a q, s.readyTasks.erase s.currentTask ++ l = a :: q →
        s'.currentTask = a ∧ s'.readyTasks = q ++ [a]) : Turn s s' := by
  cases hcase : s.readyTasks.erase s.currentTask ++ l with
  | nil =>
    obtain ⟨h1, h2⟩ := hs.1 hcase
    exact .main (by rw [h1, (List.append_eq_nil_iff.1 hcase).1]) h2
  | cons a q =>
    obtain ⟨h1, h2⟩ := hs.2 a q hcase
    exact .next a q l hcase hl h2 h1

theorem erase_main (h : Inv b s) (hne : s.currentTask ≠ s.theMaintask) :
    s.readylist.erase s.currentTask = s.readyTasks.erase s.currentTask ++ [s.theMaintask] := by
  conv_lhs => rw [h.readylist_eq]
  exact erase_append_singleton hne

/-- A yield of a task: it goes to the end. -/
theorem turn_of_yield (h : Inv b s) (hc : s.currentTask ≠ s.theMaintask)
    (hs : s.yielded.schedule = some s') : s'.theMaintask = s.theMaintask ∧
      ∀ a q, s.readyTasks.erase s.currentTask ++ [s.currentTask] = a :: q →
        s'.currentTask = a ∧ s'.readyTasks = q ++ [a] := by
  have hr : s.yielded.readylist = s.readyTasks.erase s.currentTask ++ [s.currentTask] ++
      [s.theMaintask] := by
    have hr : s.yielded.readylist =
        insertBefore s.theMaintask s.currentTask (s.readylist.erase s.currentTask) := if_neg hc
    have hm : s.theMaintask ∉ s.readyTasks.erase s.currentTask := fun hm =>
      h.readyTasks_nodup.2 (List.mem_of_mem_erase hm)
    rw [hr, erase_main h hc, insertBefore_append_singleton hm, List.append_assoc]
    rfl
  obtain ⟨h1, -, h3⟩ := turn_of_schedule (σ := s.yielded) h rfl rfl (.inr rfl)
    (by simpa using hc.symm) hr hs
  exact ⟨h1, h3⟩

theorem turn_of_yielded (h : Inv b s) (hs : s.yielded.schedule = some s') :
    s'.theMaintask = s.theMaintask ∧ Turn s s' := by
  by_cases hc : s.currentTask = s.theMaintask
  · have hm := h.readyTasks_nodup.2
    have hr : s.yielded.readylist = s.readyTasks.erase s.currentTask ++ [] ++ [s.theMaintask] := by
      have hr : s.yielded.readylist = s.readylist.erase s.currentTask ++ [s.currentTask] := if_pos hc
      rw [hr, List.append_nil, hc, h.readylist_eq, List.erase_append_right _ hm,
        List.erase_of_not_mem hm]
      simp
    obtain ⟨h1, h2⟩ := turn_of_schedule (σ := s.yielded) h rfl rfl (.inl rfl) List.not_mem_nil hr hs
    exact ⟨h1, turn_of_next (.inl rfl) h2⟩
  · obtain ⟨h1, h2⟩ := turn_of_yield h hc hs
    exact ⟨h1, turn_of_next (.inr rfl) ⟨by simp, h2⟩⟩

/-- **Every move takes a turn.** -/
theorem Inv.turn (h : Inv b s) (hs : s.step m = some s') :
    s'.theMaintask = s.theMaintask ∧ Turn s s' := by
  by_cases hm : Move.maySwitch m = false
  · obtain ⟨h1, h2, es, h3⟩ := h.more_trs (h.trs_step hs) hm
    exact ⟨h2, .more es h3 h1⟩
  · have hexec : s.permitted m = true ∧ s.exec m = some s' := by
      unfold Sched.step at hs
      split at hs
      · next hp => exact ⟨hp, hs⟩
      · cases hs
    obtain ⟨hp, he⟩ := hexec
    cases m with
    | call c =>
      by_cases hb : c.blocks = true
      · have hne : s.currentTask ≠ s.theMaintask := fun e => by
          have := (Bool.and_eq_true_iff.1 hp).2
          simp [e, hb] at this
        rcases h.block_cases hb he with ⟨h1, h2, h3⟩ | ⟨x, hx⟩
        · exact ⟨h2, .more [] (by rw [readyTasks, h3, List.append_nil]; rfl) h1⟩
        · have hcur : (s.suspend c x).currentTask = s.currentTask := by
            unfold Sched.suspend joinQueue
            split <;> rfl
          have hr : (s.suspend c x).readylist =
              s.readyTasks.erase s.currentTask ++ [] ++ [s.theMaintask] := by
            rw [readylist_suspend, List.append_nil]
            exact erase_main h hne
          obtain ⟨h1, h2⟩ := turn_of_schedule h (main_suspend x) hcur (.inl rfl) List.not_mem_nil
            hr hx
          exact ⟨h1, turn_of_next (.inl rfl) h2⟩
      · obtain rfl : c = .schedYield := by simpa [Move.maySwitch, hb] using hm
        exact turn_of_yielded h ((fiberSchedYield_eq h.idle).symm.trans he)
    | exit =>
      have hne : s.currentTask ≠ s.theMaintask := by simpa [permitted] using hp
      obtain rfl := Option.some.inj he
      rw [cppTaskmain_eq h.idle]
      generalize hσ : ({ ({ s with cache := s.exitCache } : Sched).bury with
        currentTask := s.theMaintask } : Sched) = σ
      have hr : σ.readylist = s.readyTasks.erase s.currentTask ++ [s.theMaintask] := by
        rw [← hσ, ← erase_main h hne]
        rfl
      have hmain : σ.theMaintask = s.theMaintask ∧ σ.currentTask = s.theMaintask := by
        rw [← hσ]
        exact ⟨rfl, rfl⟩
      rcases arrive_eq (s := σ) with ha | ⟨c, -, ha⟩ <;> rw [ha]
      · exact ⟨hmain.1, .main (readyTasks_eq hr) hmain.2⟩
      · exact ⟨hmain.1, .main (readyTasks_eq hr) hmain.2⟩
    | schedulerExhaust =>
      rw [exec, schedulerExhaust] at he
      split at he
      · exact turn_of_yielded h ((fiberSchedYield_eq h.idle).symm.trans he)
      · obtain rfl := Option.some.inj he
        exact ⟨rfl, .more [] (List.append_nil _).symm rfl⟩
    | _ => exact absurd rfl hm

/-! ## Waiting for a turn -/

theorem ahead_split {p : List TaskId} (h : s.readyTasks = p ++ t :: q) (ht : t ∉ p) :
    s.ahead t = p := by
  rw [ahead, h, List.takeWhile_append_of_pos, List.takeWhile_cons_of_neg, List.append_nil]
  · simp
  · intro u hu
    simpa using fun e : u = t => ht (e ▸ hu)

/-- A task that is taken out leaves the others in their order. -/
theorem erase_split {p : List TaskId} (hu : t ≠ u) : ∃ p' q', (p ++ t :: q).erase u = p' ++ t :: q' ∧
    p'.Sublist p := by
  by_cases hm : u ∈ p
  · exact ⟨p.erase u, q, List.erase_append_left _ hm, List.erase_sublist⟩
  · refine ⟨p, q.erase u, ?_, .refl _⟩
    rw [List.erase_append_right _ hm, List.erase_cons_tail (by simpa using hu)]

/-- **Nobody gets in front of a ready task**, and a task that is switched to is no longer there. -/
theorem Inv.ahead_step (h : Inv b s) (hs : s.step m = some s') (ht : t ∈ s.readyTasks)
    (hc : t ≠ s.currentTask) (hrun : s'.currentTask ≠ t) :
    t ∈ s'.readyTasks ∧ s'.ahead t ⊆ s.ahead t ∧
      (s'.currentTask ≠ s.currentTask → s'.currentTask ≠ s.theMaintask →
        s'.currentTask ∈ s.ahead t ∧ s'.currentTask ∉ s'.ahead t) := by
  obtain ⟨p, q, hpq, htp⟩ := List.eq_append_cons_of_mem ht
  have hnd : (p ++ t :: q).Nodup := hpq ▸ h.readyTasks_nodup.1
  have hs0 : s.ahead t = p := ahead_split hpq htp
  obtain ⟨p', q', herase, hsub⟩ := erase_split (p := p) (q := q) hc
  have htp' : t ∉ p' := fun hm => htp (hsub.subset hm)
  rw [← hpq] at herase
  rw [hs0]
  cases (h.turn hs).2 with
  | more es hr hcur =>
    have hr' : s'.readyTasks = p ++ t :: (q ++ es) := by rw [hr, hpq, List.append_assoc]; rfl
    rw [ahead_split hr' htp, hr']
    exact ⟨by simp, List.Subset.refl _, fun hne => absurd hcur hne⟩
  | main hr hcur =>
    rw [ahead_split (hr.trans herase) htp', hr, herase]
    exact ⟨by simp, hsub.subset, fun _ hne => absurd hcur hne⟩
  | next a r l hleft _ hr hcur =>
    rw [hcur] at hrun ⊢
    rw [herase] at hleft
    cases p' with
    | nil =>
      obtain ⟨rfl, -⟩ := List.cons.inj hleft
      exact absurd rfl hrun
    | cons a' p' =>
      obtain ⟨rfl, rfl⟩ := List.cons.inj hleft
      have hr' : s'.readyTasks = p' ++ t :: (q' ++ l ++ [a']) := by rw [hr]; simp
      have hnd' : (a' :: p').Nodup := (List.nodup_append.1 hnd).1.sublist hsub
      rw [ahead_split hr' fun hm => htp' (List.mem_cons_of_mem _ hm), hr']
      refine ⟨by simp, fun u hu => hsub.subset (List.mem_cons_of_mem _ hu), fun _ _ => ?_⟩
      exact ⟨hsub.subset List.mem_cons_self, (List.nodup_cons.1 hnd').1⟩

/-- A task that has just been switched to is behind every ready task. -/
theorem Inv.not_ahead_of_switch (h : Inv b s) (hs : s.step m = some s')
    (hsw : s'.currentTask ≠ s.currentTask) (hmain : s'.currentTask ≠ s.theMaintask)
    (ht : t ∈ s'.readyTasks) (hrun : s'.currentTask ≠ t) : s'.currentTask ∉ s'.ahead t := by
  have hnd := (h.step hs).readyTasks_nodup.1
  cases (h.turn hs).2 with
  | more _ _ hcur => exact absurd hcur hsw
  | main _ hcur => exact absurd hcur hmain
  | next a r l _ _ hr hcur =>
    rw [hcur] at hrun ⊢
    rw [hr] at ht hnd
    have htr : t ∈ r := by
      rcases List.mem_append.1 ht with ht | ht
      · exact ht
      · exact absurd (List.mem_singleton.1 ht).symm hrun
    obtain ⟨p, q, rfl, htp⟩ := List.eq_append_cons_of_mem htr
    have hr' : s'.readyTasks = p ++ t :: (q ++ [a]) := by rw [hr]; simp
    rw [ahead_split hr' htp]
    intro hm
    exact (List.nodup_append.1 hnd).2.2 a (List.mem_append_left _ hm) a (List.mem_singleton.2 rfl) rfl

/-- The tasks that a run switches to. -/
def switches : Sched → List Move → List TaskId
  | _, [] => []
  | s, m :: ms =>
    match s.step m with
    | none => []
    | some s' => if s'.currentTask = s.currentTask then switches s' ms
      else s'.currentTask :: switches s' ms

theorem Inv.waits_turn (h : Inv b s) {ms : List Move} (hms : ms.foldlM Sched.step s = some s')
    (ht : t ∈ s.readyTasks) (hc : t ≠ s.currentTask) (hrun : t ∉ switches s ms) :
    t ∈ s'.readyTasks ∧ ∀ u, u ≠ s.theMaintask →
      (switches s ms).count u ≤ if u ∈ s.ahead t then 1 else 0 := by
  induction ms generalizing s with
  | nil =>
    obtain rfl := Option.some.inj hms
    exact ⟨ht, fun u _ => Nat.zero_le _⟩
  | cons m ms ih =>
    rw [List.foldlM_cons] at hms
    obtain ⟨s1, h1, hms⟩ := Option.bind_eq_some_iff.1 hms
    rw [switches, h1] at hrun ⊢
    dsimp only at hrun ⊢
    have hmain := (h.turn h1).1
    by_cases hsw : s1.currentTask = s.currentTask
    · rw [if_pos hsw] at hrun ⊢
      obtain ⟨i1, i2, -⟩ := h.ahead_step h1 ht hc (hsw ▸ hc.symm)
      obtain ⟨j1, j2⟩ := ih (h.step h1) hms i1 (hsw ▸ hc) hrun
      refine ⟨j1, fun u hu => (j2 u (hmain ▸ hu)).trans ?_⟩
      split
      · next hm => rw [if_pos (i2 hm)]
      · exact Nat.zero_le _
    · rw [if_neg hsw] at hrun ⊢
      obtain ⟨hne, hrun⟩ := List.ne_and_not_mem_of_not_mem_cons hrun
      obtain ⟨i1, i2, i3⟩ := h.ahead_step h1 ht hc hne.symm
      obtain ⟨j1, j2⟩ := ih (h.step h1) hms i1 hne hrun
      refine ⟨j1, fun u hu => ?_⟩
      have hj := j2 u (hmain ▸ hu)
      by_cases hcu : s1.currentTask = u
      · obtain ⟨k1, k2⟩ := i3 hsw (hcu ▸ hu)
        rw [hcu] at k1 k2 ⊢
        rw [if_neg k2] at hj
        rw [if_pos k1, List.count_cons_self]
        omega
      · rw [List.count_cons_of_ne hcu]
        refine hj.trans ?_
        split
        · next hm => rw [if_pos (i2 hm)]
        · exact Nat.zero_le _

/-! ## Yielding in turns -/

/-- The task that runs after each yield of a run. -/
def turns : Sched → List Move → List TaskId
  | _, [] => []
  | s, m :: ms =>
    match s.step m with
    | none => []
    | some s' => if m = .call .schedYield then s'.currentTask :: turns s' ms else turns s' ms

/-- The ready tasks in the order in which they will run when everybody yields. -/
def rounds (s : Sched) : List TaskId := s.readyTasks.erase s.currentTask ++ [s.currentTask]

theorem Inv.rounds_perm (h : Inv b s) (hc : s.currentTask ≠ s.theMaintask) :
    s.rounds.Perm s.readyTasks :=
  (List.perm_append_singleton _ _).trans (List.perm_cons_erase (h.current_mem hc)).symm

/-- After a yield the first task of the round runs, and it will be the last one of the next. -/
theorem Inv.rounds_yield (h : Inv b s) (hc : s.currentTask ≠ s.theMaintask)
    (hs : s.step (.call .schedYield) = some s') : s'.theMaintask = s.theMaintask ∧
      s'.currentTask ≠ s'.theMaintask ∧ s.rounds[0]? = some s'.currentTask ∧
      s'.rounds = s.rounds.rotate 1 := by
  have he : s.fiberSchedYield = some s' := by
    unfold Sched.step at hs
    split at hs
    · exact hs
    · cases hs
  obtain ⟨h1, h2⟩ := turn_of_yield h hc ((fiberSchedYield_eq h.idle).symm.trans he)
  obtain ⟨a, q, haq⟩ : ∃ a q, s.rounds = a :: q := List.exists_cons_of_ne_nil (by simp [rounds])
  obtain ⟨i1, i2⟩ := h2 a q haq
  have hnd : (a :: q).Nodup := haq ▸ (h.rounds_perm hc).nodup_iff.2 h.readyTasks_nodup.1
  have haready : a ∈ s.readyTasks := (h.rounds_perm hc).mem_iff.1 (haq ▸ List.mem_cons_self)
  refine ⟨h1, ?_, ?_, ?_⟩
  · rw [i1, h1]
    exact fun e => h.readyTasks_nodup.2 (e ▸ haready)
  · rw [haq, i1]
    rfl
  · have haq' := (List.nodup_cons.1 hnd).1
    rw [haq, rounds, i1, i2, List.erase_append_right _ haq']
    simp

theorem Inv.turns_eq (h : Inv b s) {ms : List Move} (hc : s.currentTask ≠ s.theMaintask)
    (hms : ms.foldlM Sched.step s = some s')
    (hy : ∀ m ∈ ms, m = .call .schedYield ∨ ∃ us, m = .elapse us) :
    ∀ i < (turns s ms).length, (turns s ms)[i]? = s.rounds[i % s.rounds.length]? := by
  induction ms generalizing s with
  | nil => nofun
  | cons m ms ih =>
    rw [List.foldlM_cons] at hms
    obtain ⟨s1, h1, hrest⟩ := Option.bind_eq_some_iff.1 hms
    obtain ⟨hm, hy'⟩ := List.forall_mem_cons.1 hy
    rw [turns, h1]
    dsimp only
    rcases hm with rfl | ⟨us, rfl⟩
    · obtain ⟨i1, i2, i3, i4⟩ := h.rounds_yield hc h1
      have hpos : 0 < s.rounds.length := by simp [rounds]
      rw [if_pos rfl]
      intro i hi
      cases i with
      | zero => rw [Nat.zero_mod, i3]; rfl
      | succ i =>
        rw [List.length_cons] at hi
        rw [List.getElem?_cons_succ, ih (h.step h1) i2 hrest hy' i (by omega), i4, List.length_rotate,
          List.getElem?_rotate (Nat.mod_lt _ hpos), Nat.mod_add_mod]
    · rw [if_neg nofun]
      have he : some ({ s with clock := s.clock + us } : Sched) = some s1 := h1
      obtain rfl := Option.some.inj he
      exact ih (h.step h1) hc hrest hy'

end Sched

open Sched

/-- **The ready list is first come, first served.** -/
structure Fifo (s : Sched) : Prop where
  /-- While a task that the move `m` has put on the ready list waits for its turn, no other task but
  the maintask is switched to twice. -/
  overtaken : ∀ t m s₁ ms s', t ≠ s.theMaintask → (t ∉ s.readylist ∨ t = s.currentTask) →
    s.step m = some s₁ → t ∈ s₁.readylist → s₁.currentTask ≠ t →
    ms.foldlM Sched.step s₁ = some s' → t ∉ switches s₁ ms →
    t ∈ s'.readylist ∧ ∀ u, u ≠ s.theMaintask → (switches s (m :: ms)).count u ≤ 1
  /-- While the running tasks only yield, any `n` turns in a row are one turn of each of the `n` ready
  tasks, in the order of the ready list. -/
  cyclic : s.currentTask ≠ s.theMaintask → ∀ ms s', ms.foldlM Sched.step s = some s' →
    (∀ m ∈ ms, m = .call .schedYield ∨ ∃ us, m = .elapse us) →
    ∀ k, k + s.readyTasks.length ≤ (turns s ms).length →
      ((turns s ms).drop k).take s.readyTasks.length = s.rounds.rotate k ∧
        (s.rounds.rotate k).Perm s.readyTasks ∧ s.readyTasks.Nodup

theorem reachable_fifo {b : Boot} {s : Sched} (h : Reachable b s) : Fifo s := by
  have hi := h.inv
  constructor
  · intro t m s₁ ms s' hmain hput hs hready hrun hms hsw
    have h1 := hi.step hs
    have hm1 := (hi.turn hs).1
    have hready' : t ∈ s₁.readyTasks := (h1.mem_readyTasks (hm1 ▸ hmain)).2 hready
    obtain ⟨i1, i2⟩ := h1.waits_turn hms hready' hrun.symm hsw
    refine ⟨List.mem_of_mem_dropLast i1, fun u hu => ?_⟩
    have hcount := i2 u (hm1 ▸ hu)
    rw [switches, hs]
    dsimp only
    split
    · refine hcount.trans ?_
      split <;> omega
    · next hne =>
      by_cases hcu : s₁.currentTask = u
      · have hnot : u ∉ s₁.ahead t := hcu ▸ hi.not_ahead_of_switch hs hne (hcu ▸ hu) hready' hrun
        rw [if_neg hnot] at hcount
        rw [hcu, List.count_cons_self]
        omega
      · rw [List.count_cons_of_ne hcu]
        refine hcount.trans ?_
        split <;> omega
  · intro hc ms s' hms hy k hk
    have hperm := hi.rounds_perm hc
    have hlen := hperm.length_eq
    refine ⟨?_, (List.rotate_perm _ _).trans hperm, hi.readyTasks_nodup.1⟩
    apply List.ext_getElem?
    intro i
    by_cases hlt : i < s.readyTasks.length
    · rw [List.getElem?_take_of_lt hlt, List.getElem?_drop,
        hi.turns_eq hc hms hy (k + i) (by omega), List.getElem?_rotate (by omega), Nat.add_comm]
    · rw [List.getElem?_eq_none, List.getElem?_eq_none]
      · rw [List.length_rotate]
        omega
      · rw [List.length_take]
        omega

/-- Three tasks are created, and the first one runs. -/
def yieldRun : List Move :=
  newTasks 3 ++ [.schedulerStart, .schedulerPass, .schedulerExhaust]

set_option maxRecDepth 4000 in
theorem yieldRun_fifo : ∃ s, yieldRun.foldlM Sched.step (boot {}) = some s ∧
    turns s (List.replicate 4 (.call .schedYield)) = [163, 162, 100, 163] ∧ Fifo s := by
  have hrun : ((yieldRun.foldlM Sched.step (boot {})).map fun s =>
      turns s (List.replicate 4 (.call .schedYield))) = some [163, 162, 100, 163] := by
    decide +kernel
  obtain ⟨s, hs, he⟩ := Option.map_eq_some_iff.1 hrun
  exact ⟨s, hs, he, reachable_fifo (Reach.of_foldlM hs)⟩

end Ptask.OneN
