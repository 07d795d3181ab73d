import Ptask.OneN.Fifo

/-!
# One condition variable

What a move does to the wait queue of a condition variable that it does not call: nothing, provided
that the tasks in the queue wait without a timeout. And what the calls on it do: a wait appends the
current task and switches, a signal makes the first task ready.
-/

namespace Ptask.OneN.Sched

open Ptask.Lib

variable {b : Boot} {m : Move} {s s' : Sched} {t w : TaskId} {c : Call} {i j : CondId}

/-- Nobody in the queue waits with a timeout. -/
def Untimed (s : Sched) (i : CondId) : Prop := ∀ t ∈ (s.cond i).waitq, t ∉ s.wadoglist

/-! ## Switching -/

theorem schedule_kept {σ : Sched} (h : Settled b σ) (hs : σ.schedule = some s') :
    s'.cond = σ.cond ∧ s'.wadoglist = σ.wadoglist ∧ s'.live = σ.live := by
  obtain ⟨t, l, -, -, -, he⟩ := h.schedule
  obtain rfl := Option.some.inj (he.symm.trans hs)
  rcases arrive_eq (s := { σ with currentTask := t, readylist := l }) with ha | ⟨c, -, ha⟩
  · rw [ha]
    exact ⟨rfl, rfl, rfl⟩
  · rw [ha]
    exact ⟨rfl, rfl, rfl⟩

theorem cond_unlink (h : w ∉ (s.cond i).waitq) : ((s.unlink w).cond i).waitq = (s.cond i).waitq :=
  List.erase_of_not_mem h

theorem Waits.not_mem_cond (hw : s.Waits w c) (hc : c.waitChain ≠ some (.cond i)) :
    w ∉ (s.cond i).waitq := by
  have hmem : w ∉ s.chain (.cond i) := hw.place.not_mem_of_ne hc
  exact hmem

theorem Idle.not_mem_cond (h : s.Idle) : s.currentTask ∉ (s.cond i).waitq := by
  have hmem : s.currentTask ∉ s.chain (.cond i) := h.place.not_mem_of_ne (by simp)
  exact hmem

theorem cond_joinQueue {o : Option Chain} (ho : o ≠ some (.cond i)) :
    ((s.joinQueue t o).cond i).waitq = (s.cond i).waitq := by
  unfold joinQueue
  split
  · rfl
  · next j =>
    have hij : i ≠ j := fun h => ho (by rw [h])
    simp [modCond, hij]
  · rfl
  · rfl

theorem cond_suspend (h : s.Idle) (x : FibTCB) (hc : c.waitChain ≠ some (.cond i)) :
    ((s.suspend c x).cond i).waitq = (s.cond i).waitq := by
  unfold suspend
  exact (cond_joinQueue hc).trans (cond_unlink h.not_mem_cond)

theorem mem_wadoglist_suspend {x : FibTCB} (ht : t ∈ (s.suspend c x).wadoglist) :
    t = s.currentTask ∨ t ∈ s.wadoglist := by
  unfold suspend at ht
  dsimp only at ht
  split at ht
  · exact List.mem_cons.1 ((watchdogLoop_perm _ _ _).mem_iff.1 ht)
  · exact .inr ht

/-! ## Moves that do not call it -/

/-- The queue is as before, and its tasks still wait without a timeout. -/
theorem Inv.cond_tr (h : Inv b s) (htr : Tr m s s') (hm : usesCond i m = false)
    (hu : Untimed s i) : (s'.cond i).waitq = (s.cond i).waitq ∧ Untimed s' i := by
  have same (hq : (s'.cond i).waitq = (s.cond i).waitq)
      (hd : ∀ t ∈ (s.cond i).waitq, t ∈ s'.wadoglist → t ∈ s.wadoglist) :
      (s'.cond i).waitq = (s.cond i).waitq ∧ Untimed s' i := by
    refine ⟨hq, ?_⟩
    intro t ht htd
    rw [hq] at ht
    exact hu t ht (hd t ht htd)
  cases htr with
  | quiet _ hq =>
    apply same
    · exact congrFun hq.chain (.cond i)
    · intro t _ ht
      rwa [hq.wadoglist] at ht
  | localdata | scrap | spawn | ret | semInit | take | unit | took | posted =>
    exact same rfl fun _ _ ht => ht
  | exit =>
    have hkept : ∀ σ : Sched, σ.arrive.cond = σ.cond ∧ σ.arrive.wadoglist = σ.wadoglist := by
      intro σ
      rcases arrive_eq (s := σ) with ha | ⟨c, -, ha⟩ <;> rw [ha] <;> exact ⟨rfl, rfl⟩
    obtain ⟨h1, h2⟩ := hkept { s.bury with currentTask := s.theMaintask }
    apply same
    · rw [h1]
      rfl
    · intro t _ ht
      rw [h2] at ht
      exact ht
  | unitGrant j w rest c hq hw hc =>
    have hmem : w ∉ (s.cond i).waitq := hw.not_mem_cond (by simp [hc])
    exact same (cond_unlink hmem) fun _ _ ht => List.mem_of_mem_erase ht
  | grant w c y r hw hl hb hph hr hres hsem hcond =>
    have hc : c.waitChain ≠ some (.cond i) := by
      intro hc
      rw [hcond i hc] at hm
      cases hm
    exact same (cond_unlink (hw.not_mem_cond hc)) fun _ _ ht => List.mem_of_mem_erase ht
  | expire _ w c hw hl ht =>
    have hc : w ∉ (s.cond i).waitq := fun hmem => hu w hmem (hw.dog.2 ht)
    exact same (cond_unlink hc) fun _ _ ht => List.mem_of_mem_erase ht
  | eventGrant w events options timeout eventsIn pending seized hw =>
    have hmem : w ∉ (s.cond i).waitq := hw.not_mem_cond (by simp [Call.waitChain])
    exact same (cond_unlink hmem) fun _ _ ht => List.mem_of_mem_erase ht
  | park c x _ hc hne hb hk hd hsem hs =>
    have hcond : c.waitChain ≠ some (.cond i) := by
      intro hw
      subst hc
      cases c <;> cases hw <;> simp [usesCond] at hm
    have hset := h.suspend hne hb (hk.scheduler.trans h.idle.scheduler) hd hk.pendingEvents
    obtain ⟨h1, h2, -⟩ := schedule_kept hset hs
    apply same
    · rw [h1, cond_suspend h.idle x hcond]
    · intro t ht htd
      rw [h2] at htd
      refine (mem_wadoglist_suspend htd).resolve_left ?_
      rintro rfl
      exact h.idle.not_mem_cond ht
  | schedYield _ _ hs =>
    obtain ⟨h1, h2, -⟩ := schedule_kept h.yielded hs
    apply same
    · rw [h1]
      rfl
    · intro t _ ht
      rw [h2] at ht
      exact ht

theorem Inv.cond_trs (h : Inv b s) (htr : Trs m s s') (hm : usesCond i m = false)
    (hu : Untimed s i) : (s'.cond i).waitq = (s.cond i).waitq ∧ Untimed s' i := by
  induction htr with
  | refl => exact ⟨rfl, hu⟩
  | tail htr hlast ih =>
    obtain ⟨h1, h2⟩ := ih
    obtain ⟨i1, i2⟩ := (h.trs htr).cond_tr hlast hm h2
    exact ⟨i1.trans h1, i2⟩

/-- **A move that does not call a condition variable leaves its queue alone.** -/
theorem Inv.cond_step (h : Inv b s) (hs : s.step m = some s') (hm : usesCond i m = false)
    (hu : Untimed s i) : (s'.cond i).waitq = (s.cond i).waitq ∧ Untimed s' i :=
  h.cond_trs (h.trs_step hs) hm hu

/-! ## The calls on it -/

/-- `fiber_cond_wait`: the current task is last in the queue. -/
theorem Inv.condWait_step (h : Inv b s) (hs : s.step (.call (.condWait i)) = some s') :
    s.currentTask ≠ s.theMaintask ∧ (s'.cond i).waitq = (s.cond i).waitq ++ [s.currentTask] ∧
      s'.live = s.live ∧ (Untimed s i → Untimed s' i) := by
  unfold Sched.step at hs
  split at hs
  case isFalse => cases hs
  case isTrue hp =>
    have hne : s.currentTask ≠ s.theMaintask := by
      simpa [permitted, permittedCall, Call.blocks] using hp
    have hs : (s.suspend (.condWait i) (s.tcb s.currentTask)).schedule = some s' :=
      (fiberCondWait_eq h.idle i).symm.trans hs
    have hset := h.suspend (c := .condWait i) hne rfl h.idle.scheduler trivial rfl
    obtain ⟨h1, h2, h3⟩ := schedule_kept hset hs
    have hq : (s'.cond i).waitq = (s.cond i).waitq ++ [s.currentTask] := by
      have hmem := h.idle.not_mem_cond (i := i)
      rw [h1]
      simp [Sched.suspend, Call.waitChain, joinQueue, modCond, unlink, List.erase_of_not_mem hmem]
    refine ⟨hne, hq, h3.trans (live_suspend _), ?_⟩
    intro hu t ht htd
    have htd : t ∈ s.wadoglist := by rwa [h2] at htd
    rw [hq, List.mem_append, List.mem_singleton] at ht
    rcases ht with ht | rfl
    · exact hu t ht htd
    · exact h.idle.dog htd

/-- `fiber_cond_signal`: the first task of the queue becomes ready. -/
theorem Inv.condSignal_step (h : Inv b s) (hs : s.step (.call (.condSignal i)) = some s') :
    s'.currentTask = s.currentTask ∧ (s'.cond i).waitq = (s.cond i).waitq.tail ∧
      s'.live = s.live ∧ (Untimed s i → Untimed s' i) ∧
      ∀ w, (s.cond i).waitq.head? = some w → w ∈ s'.readylist := by
  unfold Sched.step at hs
  split at hs
  case isFalse => cases hs
  case isTrue hp =>
    obtain rfl := Option.some.inj hs
    cases hq : (s.cond i).waitq with
    | nil =>
      rw [fiberCondSignal_nil hq]
      exact ⟨rfl, hq, rfl, id, nofun⟩
    | cons w rest =>
      obtain ⟨c, hw, hc, -⟩ := (h.stand w).waits_of_queue (k := .cond i) nofun (by simp [chain, hq])
      rw [fiberCondSignal_cons h.idle hq hw hc]
      have hq' : ((s.unlink w).cond i).waitq = rest := by simp [unlink, hq]
      refine ⟨rfl, hq', rfl, ?_, ?_⟩
      · intro hu t ht htd
        have ht : t ∈ rest := hq' ▸ ht
        exact hu t (hq ▸ List.mem_cons_of_mem w ht) (List.mem_of_mem_erase htd)
      · intro u hu
        obtain rfl := Option.some.inj hu
        exact (insertBefore_perm _ _ _).mem_iff.2 List.mem_cons_self

/-! ## Live and ready tasks -/

theorem Inv.live_tr (h : Inv b s) (htr : Tr m s s') (hm : m ≠ .exit) :
    ∃ l, s'.live = l ++ s.live := by
  cases htr with
  | quiet _ hq => exact ⟨[], hq.live⟩
  | spawn _ w => exact ⟨[w], rfl⟩
  | exit hx => exact absurd hx hm
  | park c x _ hc hne hb hk hd hsem hs =>
    have hset := h.suspend hne hb (hk.scheduler.trans h.idle.scheduler) hd hk.pendingEvents
    exact ⟨[], (schedule_kept hset hs).2.2.trans (live_suspend _)⟩
  | schedYield _ _ hs => exact ⟨[], (schedule_kept h.yielded hs).2.2⟩
  | _ => exact ⟨[], rfl⟩

theorem Inv.live_trs (h : Inv b s) (htr : Trs m s s') (hm : m ≠ .exit) :
    ∃ l, s'.live = l ++ s.live := by
  induction htr with
  | refl => exact ⟨[], rfl⟩
  | tail htr hlast ih =>
    obtain ⟨l, hl⟩ := ih
    obtain ⟨l', hl'⟩ := (h.trs htr).live_tr hlast hm
    exact ⟨l' ++ l, by rw [hl', hl, List.append_assoc]⟩

theorem Inv.live_step (h : Inv b s) (hs : s.step m = some s') :
    (∃ l, s'.live = l ++ s.live) ∨ m = .exit ∧ s'.live = s.live.erase s.currentTask := by
  by_cases hm : m = .exit
  · subst hm
    unfold Sched.step at hs
    split at hs
    case isFalse => cases hs
    case isTrue =>
      have he := (cppTaskmain_eq h.idle).symm.trans (Option.some.inj hs)
      refine .inr ⟨rfl, ?_⟩
      rw [← he]
      rcases arrive_eq (s := { ({ s with cache := s.exitCache } : Sched).bury with
        currentTask := s.theMaintask }) with ha | ⟨c, -, ha⟩ <;> rw [ha] <;> rfl
  · exact .inl (h.live_trs (h.trs_step hs) hm)

/-- A property that only live tasks have, and that the current task has not when it exits, is had by
as many live tasks as before. -/
theorem Inv.countP_step (h : Inv b s) (hs : s.step m = some s') {p : TaskId → Bool}
    (hp : ∀ t, p t = true → t ∈ s.live) (hx : m = .exit → p s.currentTask = false) :
    s'.live.countP p = s.live.countP p ∧ ∀ t, p t = true → t ∈ s'.live := by
  rcases h.live_step hs with ⟨l, hl⟩ | ⟨he, hl⟩
  · have hnd : (l ++ s.live).Nodup := hl ▸ (h.step hs).lives
    have hzero : l.countP p = 0 := by
      rw [List.countP_eq_zero]
      intro t ht hpt
      exact (List.nodup_append.1 hnd).2.2 t ht t (hp t hpt) rfl
    refine ⟨by rw [hl, List.countP_append, hzero, Nat.zero_add], ?_⟩
    intro t hpt
    rw [hl]
    exact List.mem_append_right _ (hp t hpt)
  · have hcur := hx he
    have hcount := (List.perm_cons_erase h.live).countP_eq p
    rw [List.countP_cons, hcur] at hcount
    refine ⟨by rw [hl]; exact hcount.symm, ?_⟩
    intro t hpt
    have hne : t ≠ s.currentTask := by
      rintro rfl
      rw [hcur] at hpt
      cases hpt
    rw [hl]
    exact (List.mem_erase_of_ne hne).2 (hp t hpt)

/-- A ready task stays ready until it runs. -/
theorem Inv.ready_step (h : Inv b s) (hs : s.step m = some s') (ht : t ∈ s.readylist)
    (hne : t ≠ s.currentTask) : t ∈ s'.readylist := by
  obtain ⟨hmain, hturn⟩ := h.turn hs
  have hlast : s'.theMaintask ∈ s'.readylist := by
    rw [(h.step hs).readylist_eq]
    exact List.mem_append_right _ (List.mem_singleton.2 rfl)
  by_cases htm : t = s.theMaintask
  · rw [htm, ← hmain]
    exact hlast
  · have ht : t ∈ s.readyTasks := (h.mem_readyTasks htm).2 ht
    have hleft : t ∈ s.readyTasks.erase s.currentTask := (List.mem_erase_of_ne hne).2 ht
    rw [← (h.step hs).mem_readyTasks (hmain ▸ htm)]
    cases hturn with
    | more es ready => exact ready ▸ List.mem_append_left es ht
    | main ready => exact ready ▸ hleft
    | next a q l left _ ready =>
      have hmem : t ∈ a :: q := left ▸ List.mem_append_left l hleft
      rw [ready]
      exact (List.perm_append_singleton a q).mem_iff.2 hmem

end Ptask.OneN.Sched
