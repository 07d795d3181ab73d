import Ptask.OneN.Semaphore

/-!
# First come, first served

The fast path of a semaphore wait looks at the count only, and a post takes whoever is first in the
queue. Nobody is overtaken, because the count is negative while somebody is queued, and the queue is
in the order in which its tasks were parked: tasks join it at the end, and an expiry takes a task out
of the middle without moving the others.
-/

namespace Ptask.OneN

open Ptask.Lib

/-! ## The order of the waits in a log -/

/-- The position in the log at which `t` was parked last. -/
def parkedAt (t : TaskId) : List Ev → Nat
  | [] => 0
  | .park u _ _ :: l => if u = t then l.length + 1 else parkedAt t l
  | _ :: l => parkedAt t l

/-- `t` is parked in a wait on `i`. -/
def WaitsOn (i : SemId) (log : List Ev) (t : TaskId) : Prop :=
  ∃ c : Call, c.waitChain = some (.sem i) ∧ phase t log = some (.parked c)

/-- The event, after the events `l`, does not overtake anybody who waits on `i`: a post grants to the
task that was parked first, and a wait that returns `true` at once does so while nobody is parked. -/
def InTurn (i : SemId) (l : List Ev) : Ev → Prop
  | .grant t c _ => c.waitChain = some (.sem i) →
    ∀ u, WaitsOn i l u → u ≠ t → parkedAt t l < parkedAt u l
  | .ret t c r => c.waitChain = some (.sem i) → r = .bool true → phase t l = some .idle →
    ∀ u, ¬WaitsOn i l u
  | _ => True

/-- Nobody who waits on `i` was ever overtaken. -/
def NoOvertaking (i : SemId) (log : List Ev) : Prop :=
  ∀ l₁ e l₂, log = l₁ ++ e :: l₂ → InTurn i l₂ e

/-- The event gives somebody a unit of `i`. -/
def Ev.serves (i : SemId) : Ev → Bool
  | .grant _ c _ => c.waitChain = some (.sem i)
  | .ret _ c r => c.waitChain = some (.sem i) && r = .bool true
  | _ => false

/-- The event starts a wait. -/
def Ev.parks : Ev → Bool
  | .park .. => true
  | _ => false

section

variable {i : SemId} {t u : TaskId} {e : Ev} {es log : List Ev} {c : Call}

theorem NoOvertaking.cons (h : NoOvertaking i log) (he : InTurn i log e) :
    NoOvertaking i (e :: log) := by
  intro l₁ e' l₂ hl
  cases l₁ with
  | nil =>
    obtain ⟨rfl, rfl⟩ : e = e' ∧ log = l₂ := by simpa using hl
    exact he
  | cons a l₁ =>
    obtain ⟨-, rfl⟩ : e = a ∧ log = l₁ ++ e' :: l₂ := by simpa using hl
    exact h l₁ e' l₂ rfl

theorem inTurn_of_serves (h : e.serves i = false) : InTurn i log e := by
  cases e with
  | grant t c r =>
    intro hc
    simp [Ev.serves, hc] at h
  | ret t c r =>
    intro hc hr
    simp [Ev.serves, hc, hr] at h
  | _ => trivial

theorem NoOvertaking.append (h : NoOvertaking i log) (hes : ∀ e ∈ es, e.serves i = false) :
    NoOvertaking i (es ++ log) := by
  induction es with
  | nil => exact h
  | cons e es ih =>
    obtain ⟨he, hes⟩ := List.forall_mem_cons.1 hes
    exact (ih hes).cons (inTurn_of_serves he)

theorem parkedAt_cons (h : e.parks = false) : parkedAt t (e :: log) = parkedAt t log := by
  cases e <;> first | rfl | cases h

theorem parkedAt_append (h : ∀ e ∈ es, e.parks = false) :
    parkedAt t (es ++ log) = parkedAt t log := by
  induction es with
  | nil => rfl
  | cons e es ih =>
    obtain ⟨he, hes⟩ := List.forall_mem_cons.1 h
    exact (parkedAt_cons he).trans (ih hes)

theorem parkedAt_park_of_ne (h : u ≠ t) (now : Nat) :
    parkedAt t (.park u c now :: log) = parkedAt t log :=
  if_neg h

theorem parkedAt_park (t : TaskId) (now : Nat) :
    parkedAt t (.park t c now :: log) = log.length + 1 :=
  if_pos rfl

theorem parkedAt_le (t : TaskId) (log : List Ev) : parkedAt t log ≤ log.length := by
  induction log with
  | nil => exact Nat.le_refl 0
  | cons e log ih =>
    by_cases he : e.parks = true
    · cases e with
      | park u c now =>
        simp only [parkedAt, List.length_cons]
        split <;> omega
      | _ => cases he
    · rw [parkedAt_cons (by simpa using he), List.length_cons]
      omega

end

namespace Sched

/-! ## The queue -/

variable {i : SemId} {b : Boot} {m : Move} {s s' : Sched} {t w : TaskId} {c : Call} {es : List Ev}

/-- The queue of `i` is in the order of arrival, each of its tasks has a unit of the count, and nobody
was overtaken. -/
structure FirstCome (i : SemId) (s : Sched) : Prop where
  sorted : (s.sem i).waitq.Pairwise fun t u => parkedAt t s.log < parkedAt u s.log
  count : (s.sem i).waitq ≠ [] → (s.sem i).count + (s.sem i).waitq.length ≤ 0
  kept : NoOvertaking i s.log

/-- The queue consists of those who wait. -/
theorem Settled.waitsOn_iff (h : Settled b s) : WaitsOn i s.log t ↔ t ∈ (s.sem i).waitq := by
  constructor
  · rintro ⟨c, hc, hph⟩
    cases h.stand t with
    | dead _ _ _ phase => rw [phase] at hph; cases hph
    | idle _ _ _ _ _ _ phase => rw [phase] at hph; cases hph
    | waits c' _ waits _ _ phase =>
      rw [phase] at hph
      cases hph
      exact (waits.place (.sem i)).2 hc
    | ended _ _ _ _ _ _ _ _ phase => rw [phase] at hph; cases hph
  · intro ht
    obtain ⟨c, -, hc, -, -, hph, -⟩ := (h.stand t).waits_of_queue (k := .sem i) nofun ht
    exact ⟨c, hc, hph⟩

/-- Tasks leave the queue; the others keep their places. -/
theorem FirstCome.shrink (h : FirstCome i s)
    (hpark : ∀ t ∈ (s.sem i).waitq, parkedAt t s'.log = parkedAt t s.log)
    (hsub : (s'.sem i).waitq.Sublist (s.sem i).waitq)
    (hcount : (s'.sem i).waitq ≠ [] → (s'.sem i).count + (s'.sem i).waitq.length ≤ 0)
    (hlog : NoOvertaking i s'.log) : FirstCome i s' := by
  refine ⟨(h.sorted.sublist hsub).imp_of_mem fun ha hb hlt => ?_, hcount, hlog⟩
  rw [hpark _ (hsub.subset ha), hpark _ (hsub.subset hb)]
  exact hlt

/-- Events that nobody in the queue notices. -/
theorem FirstCome.keep (h : FirstCome i s) (es : List Ev) (hlog : s'.log = es ++ s.log)
    (hsem : s'.sem i = s.sem i) (hpark : ∀ e ∈ es, e.parks = false)
    (hes : ∀ e ∈ es, e.serves i = false) : FirstCome i s' := by
  refine h.shrink (fun t _ => ?_) (by rw [hsem]) (by rw [hsem]; exact h.count) ?_
  · rw [hlog, parkedAt_append hpark]
  · rw [hlog]
    exact h.kept.append hes

/-- Nothing happens to the semaphore. -/
theorem FirstCome.silent (h : FirstCome i s) (hlog : s'.log = s.log) (hsem : s'.sem i = s.sem i) :
    FirstCome i s' :=
  h.keep [] hlog hsem (List.forall_mem_nil _) (List.forall_mem_nil _)

/-- The wait of a task ends without a change of the count. -/
theorem FirstCome.wake (h : FirstCome i s) {x : FibTCB} (es : List Ev) (hpark : ∀ e ∈ es, e.parks = false)
    (hes : ∀ e ∈ es, e.serves i = false) : FirstCome i (s.wake w x es) := by
  have hsem : (s.wake w x es).sem i = { s.sem i with waitq := (s.sem i).waitq.erase w } := rfl
  refine h.shrink (fun t _ => parkedAt_append hpark) ?_ ?_ (h.kept.append hes)
  · rw [hsem]
    exact List.erase_sublist
  · rw [hsem]
    intro hne
    have hne : (s.sem i).waitq ≠ [] := fun e => hne (by simp [e])
    have hlen := List.length_erase_le (a := w) (l := (s.sem i).waitq)
    have hcount := h.count hne
    simp only
    omega

/-- A task that returns from its wait was served before. -/
theorem FirstCome.arrive (h : FirstCome i s) (hs : Settled b s)
    (ht : s.currentTask ∈ s.chain .ready) : FirstCome i s.arrive := by
  rcases arrive_eq (s := s) with ha | ⟨c, hf, ha⟩
  · rwa [ha]
  · rw [ha]
    refine h.shrink (fun t _ => parkedAt_cons rfl) (List.Sublist.refl _) h.count (h.kept.cons ?_)
    intro hc _ hph
    exfalso
    cases hs.stand s.currentTask with
    | dead _ place => exact place.not_mem ht
    | idle _ _ _ _ _ frame =>
      rcases frame with hf' | hf' <;> rw [hf] at hf' <;> cases hf'
      cases hc
    | waits _ _ waits => exact waits.not_ready ht
    | ended _ _ _ _ _ _ _ _ phase => rw [phase] at hph; cases hph

theorem FirstCome.schedule (h : FirstCome i s) (hs : Settled b s) (he : s.schedule = some s') :
    FirstCome i s' := by
  obtain ⟨t, l, ht, -, hr, hsched⟩ := hs.schedule
  rw [hsched] at he
  obtain rfl := Option.some.inj he
  have hf : FirstCome i { s with currentTask := t, readylist := l } := ⟨h.sorted, h.count, h.kept⟩
  exact hf.arrive hr ht

/-- The current task joins the queue at the end, or waits for something else. -/
theorem FirstCome.suspend (h : FirstCome i s) (hid : s.Idle) {x : FibTCB}
    (hc : c.waitChain = some (.sem i) → (s.sem i).count ≤ 0) : FirstCome i (s.suspend c x) := by
  have hlog : (s.suspend c x).log = .park s.currentTask c s.clock :: s.log := rfl
  have hoff : s.currentTask ∉ (s.sem i).waitq := hid.place.not_mem_of_ne (c := .sem i) nofun
  have hold (t : TaskId) (ht : t ∈ (s.sem i).waitq) :
      parkedAt t (s.suspend c x).log = parkedAt t s.log :=
    parkedAt_park_of_ne (fun e : s.currentTask = t => hoff (e ▸ ht)) _
  have hkept : NoOvertaking i (s.suspend c x).log := h.kept.cons trivial
  by_cases hq : c.waitChain = some (.sem i)
  · have hsem := (sem_suspend (i := i) (c := c) hid x).trans (if_pos hq)
    refine ⟨?_, fun _ => ?_, hkept⟩
    · rw [hsem]
      refine List.pairwise_append.2 ⟨?_, List.pairwise_singleton _ _, fun t ht u hu => ?_⟩
      · refine h.sorted.imp_of_mem fun ha hb hlt => ?_
        rw [hold _ ha, hold _ hb]
        exact hlt
      · obtain rfl := List.mem_singleton.1 hu
        rw [hold t ht, hlog, parkedAt_park]
        exact Nat.lt_succ_of_le (parkedAt_le t s.log)
    · have hz := hc hq
      rw [hsem]
      simp only [List.length_append, List.length_cons, List.length_nil]
      cases hl : (s.sem i).waitq with
      | nil =>
        simp only [List.length_nil]
        omega
      | cons a l =>
        have hcount := h.count (by simp [hl])
        rw [hl] at hcount
        omega
  · have hsem := (sem_suspend (i := i) (c := c) hid x).trans (if_neg hq)
    exact h.shrink hold (by rw [hsem]) (by rw [hsem]; exact h.count) hkept

/-- A post takes the first of the queue. -/
theorem FirstCome.unitGrant (h : FirstCome i s) (hs : Inv b s) {rest : List TaskId}
    (hq : (s.sem i).waitq = w :: rest) {x : FibTCB} {r : Ret} :
    FirstCome i ((s.postUnit i).grant w x [.grant w c r]) := by
  have hsem : ((s.postUnit i).grant w x [.grant w c r]).sem i =
      { count := (s.sem i).count + 1, waitq := rest } := by
    simp [Sched.grant, Sched.wake, Sched.unlink, Sched.postUnit, Sched.modSem, Sched.emit, hq]
  have hlog : ((s.postUnit i).grant w x [.grant w c r]).log =
      .grant w c r :: (s.postUnit i).log := rfl
  have hpost (u : TaskId) : parkedAt u (s.postUnit i).log = parkedAt u s.log := parkedAt_cons rfl
  have hkept : NoOvertaking i (s.postUnit i).log := h.kept.cons trivial
  refine h.shrink (fun t _ => (parkedAt_cons rfl).trans (hpost t)) ?_ ?_ ?_
  · rw [hsem, hq]
    exact List.sublist_cons_self w rest
  · intro _
    have hcount := h.count (by simp [hq])
    rw [hq, List.length_cons] at hcount
    rw [hsem]
    push_cast at hcount
    simp only
    omega
  · rw [hlog]
    refine hkept.cons fun _ u hu hne => ?_
    have hmem := (hs.postUnit i).waitsOn_iff.1 hu
    have hwaitq : ((s.postUnit i).sem i).waitq = w :: rest := by
      simp [Sched.postUnit, Sched.modSem, Sched.emit, hq]
    rw [hwaitq, List.mem_cons] at hmem
    have hsorted := h.sorted
    rw [hq, List.pairwise_cons] at hsorted
    rw [hpost, hpost]
    exact hsorted.1 u (hmem.resolve_left hne)

/-- The queue of another semaphore. -/
theorem FirstCome.modSem (h : FirstCome i s) {j : SemId} (hj : j ≠ i)
    (f : FibSemaphore → FibSemaphore) : FirstCome i (s.modSem j f) :=
  h.silent rfl (Function.update_of_ne (Ne.symm hj) _ _)

/-- **Every transition serves those who wait in the order of their arrival.** -/
theorem Inv.firstCome_tr (h : Inv b s) (hf : FirstCome i s) (htr : Tr m s s') :
    FirstCome i s' := by
  cases htr with
  | quiet _ hq => exact hf.silent hq.log (by rw [hq.sem])
  | localdata => exact hf.silent rfl rfl
  | scrap => exact hf.silent rfl rfl
  | spawn => exact hf.keep [_] rfl rfl (by simp [Ev.parks]) (by simp [Ev.serves])
  | exit _ hne =>
    have hb := h.bury hne
    obtain ⟨p, hp⟩ := hb.ready
    have hmain : s.theMaintask ∈ s.bury.readylist := by
      rw [hp]
      exact List.mem_append_right _ (List.mem_singleton.2 rfl)
    have hbury : FirstCome i ({ s.bury with currentTask := s.theMaintask } : Sched) :=
      hf.keep [_] rfl rfl (by simp [Ev.parks]) (by simp [Ev.serves])
    exact hbury.arrive (hb.rotate (.refl _) ⟨p, hp⟩ s.theMaintask) hmain
  | ret c r _ _ hsem =>
    refine hf.keep [_] rfl rfl (by simp [Ev.parks]) (List.forall_mem_singleton.2 ?_)
    by_cases hc : c.waitChain = some (.sem i)
    · simp [Ev.serves, hsem i hc]
    · simp [Ev.serves, hc]
  | semInit j v hu =>
    by_cases hj : j = i
    · subst hj
      have hsem : ((s.fiberSemInit j v).sem j).waitq = [] := by
        simp [fiberSemInit, Sched.modSem, Sched.ret, Sched.emit]
      refine ⟨by rw [hsem]; exact .nil, fun hne => absurd hsem hne, ?_⟩
      exact hf.kept.cons (inTurn_of_serves rfl)
    · have hmod := hf.modSem hj fun _ => { count := v.toInt }
      exact hmod.keep [_] rfl rfl (by simp [Ev.parks]) (by simp [Ev.serves, Call.waitChain])
  | take j c hc hpos =>
    by_cases hj : j = i
    · subst hj
      -- a positive count: nobody is queued
      have hq : (s.sem j).waitq = [] := by
        by_contra hne
        have hcount := hf.count hne
        omega
      have hsem : (((s.take j).ret s.currentTask c (.bool true)).sem j).waitq = [] := by
        simp [Sched.take, Sched.modSem, Sched.ret, Sched.emit, hq]
      refine ⟨by rw [hsem]; exact .nil, fun hne => absurd hsem hne, ?_⟩
      refine hf.kept.cons fun _ _ _ u hu => ?_
      have hmem := h.waitsOn_iff.1 hu
      rw [hq] at hmem
      cases hmem
    · have hmod := hf.modSem hj fun p => { p with count := p.count - 1 }
      exact hmod.keep [_] rfl rfl (by simp [Ev.parks]) (by simp [Ev.serves, hc, hj])
  | unit j hq =>
    by_cases hj : j = i
    · subst hj
      have hsem : ((s.postUnit j).sem j).waitq = [] := by
        simp [Sched.postUnit, Sched.modSem, Sched.emit, hq]
      exact ⟨by rw [hsem]; exact .nil, fun hne => absurd hsem hne, hf.kept.cons trivial⟩
    · have hmod := hf.modSem hj fun p => { p with count := p.count + 1 }
      exact hmod.keep [_] rfl rfl (by simp [Ev.parks]) (by simp [Ev.serves])
  | unitGrant j w rest c hq hw hc =>
    by_cases hj : j = i
    · subst hj
      exact hf.unitGrant h hq
    · have hmod := hf.modSem hj fun p => { p with count := p.count + 1 }
      have hpost : FirstCome i (s.postUnit j) :=
        hmod.keep [_] rfl rfl (by simp [Ev.parks]) (by simp [Ev.serves])
      have hwake := hpost.wake (w := w) (x := { s.tcb w with yieldCode := 1 })
        [.grant w c (.bool true)] (by simp [Ev.parks]) (by simp [Ev.serves, hc, hj])
      exact ⟨hwake.sorted, hwake.count, hwake.kept⟩
  | grant w c y r hw _ _ _ _ _ hsem =>
    have hwake := hf.wake (w := w) (x := { s.tcb w with yieldCode := y }) [.grant w c r]
      (by simp [Ev.parks]) (by simp [Ev.serves, hsem i])
    exact ⟨hwake.sorted, hwake.count, hwake.kept⟩
  | expire => exact hf.wake [_] (by simp [Ev.parks]) (by simp [Ev.serves])
  | took =>
    exact hf.keep [_, _] rfl rfl (by simp [Ev.parks]) (by simp [Ev.serves, Call.waitChain])
  | posted => exact hf.keep [_] rfl rfl (by simp [Ev.parks]) (by simp [Ev.serves])
  | eventGrant w events options timeout eventsIn pending seized =>
    have hwake := hf.wake (w := w)
      (x := { s.tcb w with pendingEvents := pending &&& ~~~seized, seizedEvents := seized })
      [.grant w (.eventWait events options timeout) (.word seized), .seize w seized,
        .posted w eventsIn] (by simp [Ev.parks]) (by simp [Ev.serves, Call.waitChain])
    exact ⟨hwake.sorted, hwake.count, hwake.kept⟩
  | park c x _ _ hne hb hk hd hsem hs =>
    exact (hf.suspend h.idle (hsem i)).schedule
      (h.suspend hne hb (hk.scheduler.trans h.idle.scheduler) hd hk.pendingEvents) hs
  | schedYield _ _ hs =>
    have hy : FirstCome i s.yielded := hf.silent rfl rfl
    exact hy.schedule h.yielded hs

theorem Inv.firstCome_trs (h : Inv b s) (hf : FirstCome i s) (htr : Trs m s s') :
    FirstCome i s' := by
  induction htr with
  | refl => exact hf
  | tail htr hlast ih => exact (h.trs htr).firstCome_tr ih hlast

end Sched

/-! ## Runs -/

theorem reachable_firstCome {b : Boot} {s : Sched} (h : Reachable b s) (i : SemId) :
    s.FirstCome i :=
  h.invariant_of (I := Sched.Inv b) (P := fun s => s.FirstCome i) (Sched.inv_boot b)
    ⟨.nil, fun hne => absurd rfl hne, fun l₁ e l₂ hl => by cases l₁ <;> cases hl⟩
    (fun s m s' hi _ hs => hi.step hs) fun s m s' hi hp _ hs => hi.firstCome_trs hp (hi.trs_step hs)

/-- What a semaphore promises to those who wait: while somebody is queued its count is negative; the
queue is made of the tasks that are parked on it; and nobody is overtaken, neither by a wait that
returns `true` at once nor by a task that was parked later and is granted a unit earlier. -/
structure FirstComeFirstServed (i : SemId) (s : Sched) : Prop where
  negative : (s.sem i).waitq ≠ [] → (s.sem i).count < 0
  queued : ∀ t, t ∈ (s.sem i).waitq ↔ WaitsOn i s.log t
  noOvertaking : NoOvertaking i s.log

/-- **Semaphores serve in the order of arrival.** -/
theorem reachable_firstComeFirstServed {b : Boot} {s : Sched} (h : Reachable b s) (i : SemId) :
    FirstComeFirstServed i s := by
  have hf := reachable_firstCome h i
  refine ⟨fun hne => ?_, fun t => h.inv.waitsOn_iff.symm, hf.kept⟩
  have hlen := List.length_pos_iff.2 hne
  have hcount := hf.count hne
  omega

/-- Three tasks wait on a semaphore without units, the second with a timeout; a fourth task posts
once. -/
def queueRun : List Move :=
  newTasks 4 ++ [.schedulerStart, .schedulerPass, .schedulerExhaust,
    .call (.semWait 0), .call (.semTimedwait 0 10), .call (.semWait 0), .call (.semPost 0)]

set_option maxRecDepth 4000 in
theorem queueRun_firstComeFirstServed : ∃ s, queueRun.foldlM Sched.step (boot {}) = some s ∧
    s.sem 0 = { count := -2, waitq := [163, 162] } ∧ FirstComeFirstServed 0 s := by
  have hrun : ((queueRun.foldlM Sched.step (boot {})).map fun s => s.sem 0) =
      some { count := -2, waitq := [163, 162] } := by decide +kernel
  obtain ⟨s, hs, hq⟩ := Option.map_eq_some_iff.1 hrun
  exact ⟨s, hs, hq, reachable_firstComeFirstServed (Reach.of_foldlM hs) 0⟩

end Ptask.OneN
