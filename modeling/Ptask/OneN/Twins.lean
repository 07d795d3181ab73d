import Ptask.OneN.Simulation

/-!
# Two runs side by side

What a control block holds besides `pendingEvents` and the local data is written before it is read.
`Alike` relates two states that may differ in the rest of it, and in what was logged before; the
moves lead from such a pair to such a pair and log the same events (`Alike.step`).
-/

namespace Ptask.OneN.Sched

open Ptask.Lib

/-! ## States that are alike -/

/-- The control blocks of `t` agree in everything that a later call reads before it writes it. -/
structure Twin (t : TaskId) (x y : FibTCB) : Prop where
  stackaddr : y.stackaddr = x.stackaddr
  stacksize : y.stacksize = x.stacksize
  state : y.state = x.state
  frame : y.frame = x.frame
  scheduler : y.scheduler = x.scheduler
  pendingEvents : y.pendingEvents = x.pendingEvents
  localdata : ∀ i, 0 ≤ i → i < MAX_TASK_LOCALDATAS → y.taskLocalStorages i = x.taskLocalStorages i
  /-- What the call that the task is in would return now. -/
  result : ∀ c, x.frame = some c → result t y c = result t x c

/-- The control blocks, the intervals and the log of the state are `τ`, `δ` and `g` instead. -/
def withTcbs (s : Sched) (τ : TaskId → FibTCB) (δ : TaskId → Int32) (g : List Ev) : Sched :=
  { s with tcb := τ, delta := δ, log := g }

/-- The states agree but for fields that are not read, and have logged the same events after `l` and
`l'`. -/
inductive Alike (l l' : List Ev) (s : Sched) : Sched → Prop
  | mk (τ : TaskId → FibTCB) (δ : TaskId → Int32) (g : List Ev)
    (tcb : ∀ u, Twin u (s.tcb u) (τ u)) (delta : ∀ u ∈ s.wadoglist, δ u = s.delta u)
    (log : ∃ es, s.log = es ++ l ∧ g = es ++ l') : Alike l l' s (s.withTcbs τ δ g)

section

variable {b b' : Boot} {m : Move} {l l' : List Ev} {s s' r : Sched} {t w : TaskId} {c : Call}
  {x y : FibTCB}

theorem Twin.refl (t : TaskId) (x : FibTCB) : Twin t x x :=
  ⟨rfl, rfl, rfl, rfl, rfl, rfl, fun _ _ _ => rfl, fun _ _ => rfl⟩

/-- The task is ready again. -/
theorem Twin.clear (h : Twin t x y) : Twin t { x with state := {} } { y with state := {} } :=
  ⟨h.stackaddr, h.stacksize, rfl, h.frame, h.scheduler, h.pendingEvents, h.localdata, fun c hc => by
    have hr := h.result c hc
    cases c <;> exact hr⟩

theorem Twin.yieldCode (h : Twin t x y) (v : BitVec 64) :
    Twin t { x with yieldCode := v } { y with yieldCode := v } :=
  ⟨h.stackaddr, h.stacksize, h.state, h.frame, h.scheduler, h.pendingEvents, h.localdata,
    fun c hc => by
      have hr := h.result c hc
      cases c <;> first | rfl | exact hr⟩

theorem Twin.setPending (h : Twin t x y) (p : EventMask) :
    Twin t { x with pendingEvents := p } { y with pendingEvents := p } :=
  ⟨h.stackaddr, h.stacksize, h.state, h.frame, h.scheduler, rfl, h.localdata, fun c hc => by
    have hr := h.result c hc
    cases c <;> exact hr⟩

theorem twin_update {f g : TaskId → FibTCB} (h : ∀ u, Twin u (f u) (g u)) (hxy : Twin w x y)
    (u : TaskId) : Twin u (Function.update f w x u) (Function.update g w y u) := by
  by_cases hu : u = w
  · subst hu
    simpa using hxy
  · simpa [hu] using h u

namespace Alike

theorem chain (h : Alike l l' s s') : s'.chain = s.chain := by
  obtain ⟨τ, δ, g, -, -, -⟩ := h
  funext c
  cases c <;> rfl

theorem cur (h : Alike l l' s s') : s'.currentTask = s.currentTask := by
  cases h
  rfl

theorem main (h : Alike l l' s s') : s'.theMaintask = s.theMaintask := by
  cases h
  rfl

theorem sem (h : Alike l l' s s') : s'.sem = s.sem := by
  cases h
  rfl

theorem cond (h : Alike l l' s s') : s'.cond = s.cond := by
  cases h
  rfl

theorem mutex (h : Alike l l' s s') : s'.mutex = s.mutex := by
  cases h
  rfl

theorem twin (h : Alike l l' s s') (u : TaskId) : Twin u (s.tcb u) (s'.tcb u) := by
  obtain ⟨τ, δ, g, ht, -, -⟩ := h
  exact ht u

theorem waits (h : Alike l l' s s') (hw : s.Waits w c) : s'.Waits w c := by
  have ht := h.twin w
  have hc := h.chain
  obtain ⟨τ, δ, g, -, -, -⟩ := h
  exact ⟨ht.frame.trans hw.frame, ht.state.trans hw.state, hc ▸ hw.place,
    ht.scheduler.trans hw.scheduler, hw.dog⟩

/-! ## Operators -/

theorem note (h : Alike l l' s s') (hxy : Twin w x y) (es : List Ev) :
    Alike l l' (s.note w x es) (s'.note w y es) := by
  obtain ⟨τ, δ, g, ht, hd, es', hl, rfl⟩ := h
  exact .mk (s := s.note w x es) (Function.update τ w y) δ (es ++ (es' ++ l'))
    (twin_update ht hxy) hd ⟨es ++ es', by simp [Sched.note, hl], by simp⟩

theorem emit (h : Alike l l' s s') (e : Ev) : Alike l l' (s.emit e) (s'.emit e) := by
  obtain ⟨τ, δ, g, ht, hd, es, hl, rfl⟩ := h
  exact .mk (s := s.emit e) τ δ (e :: (es ++ l')) ht hd ⟨e :: es, by simp [Sched.emit, hl], rfl⟩

theorem modTcb {f : FibTCB → FibTCB} (h : Alike l l' s s')
    (hf : Twin w (f (s.tcb w)) (f (s'.tcb w))) : Alike l l' (s.modTcb w f) (s'.modTcb w f) :=
  h.note hf []

theorem ret (h : Alike l l' s s') (t : TaskId) (c : Call) (v : Ret) :
    Alike l l' (s.ret t c v) (s'.ret t c v) := h.emit _

theorem ret_of_eq (h : Alike l l' s s') {t' : TaskId} (ht : t' = t) (c : Call) (v : Ret) :
    Alike l l' (s.ret t c v) (s'.ret t' c v) := ht ▸ h.emit _

theorem modSem (h : Alike l l' s s') (i : SemId) (f : FibSemaphore → FibSemaphore) :
    Alike l l' (s.modSem i f) (s'.modSem i f) := by
  obtain ⟨τ, δ, g, ht, hd, hl⟩ := h
  exact .mk (s := s.modSem i f) τ δ g ht hd hl

theorem modCond (h : Alike l l' s s') (i : CondId) (f : FibCondition → FibCondition) :
    Alike l l' (s.modCond i f) (s'.modCond i f) := by
  obtain ⟨τ, δ, g, ht, hd, hl⟩ := h
  exact .mk (s := s.modCond i f) τ δ g ht hd hl

theorem modMutex (h : Alike l l' s s') (i : MutexId) (f : FibMutex → FibMutex) :
    Alike l l' (s.modMutex i f) (s'.modMutex i f) := by
  obtain ⟨τ, δ, g, ht, hd, hl⟩ := h
  exact .mk (s := s.modMutex i f) τ δ g ht hd hl

/-- The wait of a task ends. -/
theorem wake (h : Alike l l' s s') (hxy : Twin w { x with state := {} } { y with state := {} })
    (es : List Ev) : Alike l l' (s.wake w x es) (s'.wake w y es) := by
  obtain ⟨τ, δ, g, ht, hd, es', hl, rfl⟩ := h
  exact .mk (s := s.wake w x es) (Function.update τ w { y with state := {} }) δ
    (es ++ (es' ++ l')) (twin_update ht hxy) (fun u hu => hd u (List.mem_of_mem_erase hu))
    ⟨es ++ es', by simp [Sched.wake, hl], by simp⟩

end Alike

/-! ## The watchdog list -/

theorem mem_of_nextOf {n : TaskId} : ∀ {q : List TaskId}, nextOf w q = some n → w ∈ q ∧ n ∈ q
  | [], h => by cases h
  | u :: q, h => by
    rw [nextOf] at h
    split at h
    · next hu => exact ⟨hu ▸ List.mem_cons_self, List.mem_cons_of_mem _ (List.mem_of_head? h)⟩
    · obtain ⟨hw, hn⟩ := mem_of_nextOf h
      exact ⟨List.mem_cons_of_mem _ hw, List.mem_cons_of_mem _ hn⟩

/-- The loop reads the intervals of the tasks on the list only. -/
theorem watchdogLoop_congr {δ δ' : TaskId → Int32} : ∀ {q : List TaskId} {d : Int32},
    (∀ u ∈ q, δ' u = δ u) → (watchdogLoop t d q δ').1 = (watchdogLoop t d q δ).1 ∧
      ∀ u, u = t ∨ δ' u = δ u → (watchdogLoop t d q δ').2 u = (watchdogLoop t d q δ).2 u := by
  have hset {f f' : TaskId → Int32} {d : Int32} {u : TaskId} (hu : u = t ∨ f' u = f u) :
      Function.update f' t d u = Function.update f t d u := by
    by_cases hut : u = t
    · subst hut
      simp
    · simpa [hut] using hu.resolve_left hut
  intro q
  induction q with
  | nil => exact fun _ => ⟨rfl, fun u hu => hset hu⟩
  | cons a q ih =>
    intro d h
    have ha := h a List.mem_cons_self
    have hq := fun u hu => h u (List.mem_cons_of_mem a hu)
    simp only [watchdogLoop, ha]
    split
    · exact ⟨rfl, fun u hu => hset hu⟩
    · split
      · refine ⟨rfl, fun u hu => hset (hu.imp_right fun hu => ?_)⟩
        by_cases hua : u = a
        · subst hua
          simp
        · simpa [hua] using hu
      · obtain ⟨h1, h2⟩ := ih (d := d - δ a) hq
        exact ⟨by rw [h1], h2⟩

namespace Alike

theorem deltaWithout (h : Alike l l' s s') :
    ∀ u ∈ s.wadoglist, s'.deltaWithout w u = s.deltaWithout w u := by
  obtain ⟨τ, δ, g, -, hd, -⟩ := h
  intro u hu
  have hdog : (s.withTcbs τ δ g).wadoglist = s.wadoglist := rfl
  have hdelta : (s.withTcbs τ δ g).delta = δ := rfl
  rw [Sched.deltaWithout, Sched.deltaWithout, hdog, hdelta]
  cases hn : nextOf w s.wadoglist with
  | none => exact hd u hu
  | some nxt =>
    obtain ⟨hw, hm⟩ := mem_of_nextOf hn
    by_cases hun : u = nxt
    · subst hun
      simp [hd w hw, hd u hm]
    · simpa [hun] using hd u hu

/-- The wait of a task is ended by another one. -/
theorem grant (h : Alike l l' s s') (hxy : Twin w { x with state := {} } { y with state := {} })
    (es : List Ev) : Alike l l' (s.grant w x es) (s'.grant w y es) := by
  have hdelta := h.deltaWithout (w := w)
  obtain ⟨τ, δ, g, ht, hd, es', hl, rfl⟩ := h
  exact .mk (s := s.grant w x es) (Function.update τ w { y with state := {} })
    ((s.withTcbs τ δ (es' ++ l')).deltaWithout w) (es ++ (es' ++ l')) (twin_update ht hxy)
    (fun u hu => hdelta u (List.mem_of_mem_erase hu))
    ⟨es ++ es', by simp [Sched.grant, Sched.wake, hl], by simp⟩

/-- The current task starts to wait. -/
theorem suspend (h : Alike l l' s s') (hxy : Twin s.currentTask
      { x with frame := c, state := c.waitStates } { y with frame := c, state := c.waitStates }) :
    Alike l l' (s.suspend c x) (s'.suspend c y) := by
  obtain ⟨τ, δ, g, ht, hd, es, hl, rfl⟩ := h
  have hmem {u : TaskId} (hu : u ∈ s.wadoglist) : Function.update δ s.currentTask c.timeout u =
      Function.update s.delta s.currentTask c.timeout u := by
    by_cases hut : u = s.currentTask
    · subst hut
      simp
    · simpa [hut] using hd u hu
  obtain ⟨hlist, hdelta⟩ := watchdogLoop_congr (t := s.currentTask) (d := c.timeout)
    (q := s.wadoglist) fun u hu => hmem hu
  have hjoin (o : Option Chain) : ((s.withTcbs τ δ (es ++ l')).unlink s.currentTask).joinQueue
      s.currentTask o = ((s.unlink s.currentTask).joinQueue s.currentTask o).withTcbs τ δ
        (es ++ l') := by
    rcases o with _ | _ | _ | _ | _ <;> rfl
  have hs : (s.withTcbs τ δ (es ++ l')).suspend c y = (s.suspend c x).withTcbs
      (Function.update τ s.currentTask { y with frame := c, state := c.waitStates })
      (if c.timed then (watchdogLoop s.currentTask c.timeout s.wadoglist
        (Function.update δ s.currentTask c.timeout)).2 else δ)
      (.park s.currentTask c s.clock :: (es ++ l')) := by
    change ({ ((s.withTcbs τ δ (es ++ l')).unlink s.currentTask).joinQueue s.currentTask
      c.waitChain with
        tcb := _, wadoglist := _, delta := _, log := _ } : Sched) = _
    rw [hjoin]
    simp only [Sched.suspend, withTcbs, hlist]
  rw [hs]
  refine .mk _ _ _ (twin_update ht hxy) (fun u hu => ?_)
    ⟨.park s.currentTask c s.clock :: es, ?_, rfl⟩
  · simp only [Sched.suspend] at hu ⊢
    split at hu
    · next htimed =>
      rw [if_pos htimed, if_pos htimed]
      rcases List.mem_cons.1 ((watchdogLoop_perm _ _ _).mem_iff.1 hu) with rfl | hu
      · exact hdelta _ (.inl rfl)
      · exact hdelta u (.inr (hmem hu))
    · next htimed =>
      rw [if_neg htimed, if_neg htimed]
      exact hd u hu
  · simp [Sched.suspend, hl]

/-! ## Switching -/

/-- The task that is switched to returns the same from its call. -/
theorem arrive (h : Alike l l' s s') : Alike l l' s.arrive s'.arrive := by
  have ht := h.twin s.currentTask
  have hcur : s'.currentTask = s.currentTask := by
    obtain ⟨τ, δ, g, -, -, -⟩ := h
    rfl
  unfold Sched.arrive
  dsimp only
  rw [hcur, ht.frame]
  split
  · exact h
  · next c hc =>
    rw [ht.result c hc]
    refine Alike.ret ?_ _ _ _
    have hn := h.note (w := s.currentTask) (x := { s.tcb s.currentTask with frame := none })
      (y := { s'.tcb s.currentTask with frame := none }) ⟨ht.stackaddr, ht.stacksize, ht.state, rfl,
        ht.scheduler, ht.pendingEvents, ht.localdata, fun _ h => by cases h⟩ []
    exact hn

theorem fiberSched (h : Alike l l' s s') (hs : s.fiberSched = some r) :
    ∃ r', s'.fiberSched = some r' ∧ Alike l l' r r' := by
  obtain ⟨τ, δ, g, ht, hd, hl⟩ := h
  refine ⟨r.withTcbs τ δ g, ?_, ?_⟩
  · have hr : (s.withTcbs τ δ g).readylist = s.readylist := rfl
    unfold Sched.fiberSched at hs ⊢
    rw [hr]
    cases hq : s.readylist with
    | nil =>
      rw [hq] at hs
      cases hs
    | cons theNext rest =>
      rw [hq] at hs
      dsimp only at hs ⊢
      change (if theNext = s.currentTask then _ else _) = _
      split at hs
      · next he =>
        obtain rfl := Option.some.inj hs
        rw [if_pos he]
      · next he =>
        obtain rfl := Option.some.inj hs
        rw [if_neg he]
        change some (if theNext ≠ s.theMaintask then _ else _) =
          some ((if theNext ≠ s.theMaintask then _ else _ : Sched).withTcbs τ δ g)
        split <;> rfl
  · unfold Sched.fiberSched at hs
    split at hs
    · cases hs
    · split at hs
      · obtain rfl := Option.some.inj hs
        exact .mk τ δ g ht hd hl
      · obtain rfl := Option.some.inj hs
        split <;> exact .mk τ δ g ht hd hl

theorem schedule (h : Alike l l' s s') (hs : s.schedule = some r) :
    ∃ r', s'.schedule = some r' ∧ Alike l l' r r' := by
  obtain ⟨q, hq, rfl⟩ := Option.map_eq_some_iff.1 hs
  obtain ⟨q', hq', ha⟩ := h.fiberSched hq
  exact ⟨q'.arrive, by rw [Sched.schedule, hq']; rfl, ha.arrive⟩

theorem park (h : Alike l l' s s') (hxy : Twin s.currentTask
      { x with frame := c, state := c.waitStates } { y with frame := c, state := c.waitStates })
    (hs : (s.suspend c x).schedule = some r) :
    ∃ r', (s'.suspend c y).schedule = some r' ∧ Alike l l' r r' := (h.suspend hxy).schedule hs

theorem yielded (h : Alike l l' s s') : Alike l l' s.yielded s'.yielded := by
  obtain ⟨τ, δ, g, ht, hd, es, hl, rfl⟩ := h
  have hx := ht s.currentTask
  exact .mk (s := s.yielded) (Function.update τ s.currentTask
    { τ s.currentTask with frame := some .schedYield }) δ (es ++ l')
    (twin_update ht ⟨hx.stackaddr, hx.stacksize, hx.state, rfl, hx.scheduler, hx.pendingEvents,
      hx.localdata, fun c hc => by cases hc; rfl⟩) hd ⟨es, hl, rfl⟩

/-! ## Creation and exit -/

theorem spawn (h : Alike l l' s s') (hxy : Twin w x y) :
    Alike l l' (s.spawn w x) (s'.spawn w y) := by
  obtain ⟨τ, δ, g, ht, hd, es, hl, rfl⟩ := h
  exact .mk (s := s.spawn w x) (Function.update τ w y) δ (.created w :: (es ++ l'))
    (twin_update ht hxy) hd ⟨.created w :: es, by simp [Sched.spawn, hl], rfl⟩

theorem bury (h : Alike l l' s s') : Alike l l' s.bury s'.bury := by
  obtain ⟨τ, δ, g, ht, hd, es, hl, rfl⟩ := h
  exact .mk (s := s.bury) τ δ (.exited s.currentTask :: (es ++ l')) ht hd
    ⟨.exited s.currentTask :: es, by simp [Sched.bury, hl], rfl⟩

theorem setPool (h : Alike l l' s s') (p : TcbPool) (k : StackCache) :
    Alike l l' { s with pool := p, cache := k } { s' with pool := p, cache := k } := by
  obtain ⟨τ, δ, g, ht, hd, hl⟩ := h
  exact .mk τ δ g ht hd hl

theorem setTcbs (h : Alike l l' s s') (p : TcbPool) :
    Alike l l' { s with pool := p } { s' with pool := p } := by
  obtain ⟨τ, δ, g, ht, hd, hl⟩ := h
  exact .mk τ δ g ht hd hl

theorem setCache (h : Alike l l' s s') {k k' : StackCache} (hk : k' = k) :
    Alike l l' { s with cache := k } { s' with cache := k' } := by
  subst hk
  obtain ⟨τ, δ, g, ht, hd, hl⟩ := h
  exact .mk τ δ g ht hd hl

theorem setCurrent (h : Alike l l' s s') {t' : TaskId} (ht : t' = t) :
    Alike l l' { s with currentTask := t } { s' with currentTask := t' } := by
  subst ht
  obtain ⟨τ, δ, g, ht, hd, hl⟩ := h
  exact .mk τ δ g ht hd hl

theorem setLoop (h : Alike l l' s s') (stmp : UInt64) (p : LoopPc) :
    Alike l l' { s with prevStmp := stmp, loop := p } { s' with prevStmp := stmp, loop := p } := by
  obtain ⟨τ, δ, g, ht, hd, hl⟩ := h
  exact .mk τ δ g ht hd hl

/-! ## Loops -/

theorem signalled (h : Alike l l' s s') (w : TaskId) :
    Alike l l' (s.signalled w) (s'.signalled w) := by
  have ht := h.twin w
  unfold Sched.signalled
  rw [ht.frame]
  split
  · exact h.grant (ht.yieldCode 1).clear _
  · exact h

theorem foldl_signalled {q : List TaskId} (h : Alike l l' s s') :
    Alike l l' (q.foldl Sched.signalled s) (q.foldl Sched.signalled s') := by
  induction q generalizing s s' with
  | nil => exact h
  | cons w q ih => exact ih (h.signalled w)

theorem tickleLoop (gap : Int32) {q : List TaskId} (hi : Inv b s) (h : Alike l l' s s')
    (hq : q.Nodup) (hmem : ∀ w ∈ q, w ∈ s.wadoglist) :
    Alike l l' (tickleLoop gap q s) (tickleLoop gap q s') := by
  induction q generalizing s s' with
  | nil => exact h
  | cons w q ih =>
    have hw := hmem w List.mem_cons_self
    obtain ⟨hwq, hq⟩ := List.nodup_cons.1 hq
    have hdelta : s'.delta w = s.delta w := by
      obtain ⟨τ, δ, g, -, hd, -⟩ := h
      exact hd w hw
    rw [Sched.tickleLoop, Sched.tickleLoop, hdelta]
    split
    · obtain ⟨c, hwaits, htimed, hdata, hph, hlive⟩ := (hi.stand w).waits_of_dog hw
      have hclock : s'.clock = s.clock := by
        obtain ⟨τ, δ, g, -, -, -⟩ := h
        rfl
      rw [tickleExpired_eq hwaits htimed, tickleExpired_eq (h.waits hwaits) htimed, hclock]
      refine ih (hi.tr (.expire rfl w c hwaits hlive htimed hdata hph))
        (h.wake (h.twin w).clear _) hq fun u hu => ?_
      have hne : u ≠ w := fun e => hwq (e ▸ hu)
      exact (List.mem_erase_of_ne hne).2 (hmem u (List.mem_cons_of_mem _ hu))
    · obtain ⟨τ, δ, g, ht, hd, hl⟩ := h
      refine .mk (s := { s with delta := Function.update s.delta w (s.delta w - gap) }) τ
        (Function.update δ w (s.delta w - gap)) g ht (fun u hu => ?_) hl
      by_cases huw : u = w
      · subst huw
        simp
      · simpa [huw] using hd u hu

/-! ## Calls -/

variable (hi : Inv b s) (hi' : Inv b' s') (h : Alike l l' s s')
include hi hi' h

theorem semPost (i : SemId) : Alike l l' (s.fiberSemPost i) (s'.fiberSemPost i) := by
  have hunit : Alike l l' (s.postUnit i) (s'.postUnit i) := by
    rw [postUnit, postUnit, h.cur]
    exact (h.modSem i _).emit _
  cases hq : (s.sem i).waitq with
  | nil =>
    rw [fiberSemPost_nil hq, fiberSemPost_nil (h.sem ▸ hq), h.cur]
    exact hunit.ret _ _ _
  | cons w rest =>
    obtain ⟨c, hw, hc, -⟩ := (hi.stand w).waits_of_queue (k := .sem i) (by rintro ⟨⟩)
      (by simp [Sched.chain, hq])
    rw [fiberSemPost_cons hi.idle hq hw hc,
      fiberSemPost_cons hi'.idle (h.sem ▸ hq) (h.waits hw) hc, h.cur]
    exact (hunit.grant ((h.twin w).yieldCode 1).clear _).ret _ _ _

theorem condSignal (i : CondId) : Alike l l' (s.fiberCondSignal i) (s'.fiberCondSignal i) := by
  cases hq : (s.cond i).waitq with
  | nil =>
    rw [fiberCondSignal_nil hq, fiberCondSignal_nil (h.cond ▸ hq), h.cur]
    exact h.ret _ _ _
  | cons w rest =>
    obtain ⟨c, hw, hc, -⟩ := (hi.stand w).waits_of_queue (k := .cond i) (by rintro ⟨⟩)
      (by simp [Sched.chain, hq])
    rw [fiberCondSignal_cons hi.idle hq hw hc,
      fiberCondSignal_cons hi'.idle (h.cond ▸ hq) (h.waits hw) hc, h.cur]
    exact (h.grant ((h.twin w).yieldCode 1).clear _).ret _ _ _

theorem condBroadcast (i : CondId) :
    Alike l l' (s.fiberCondBroadcast i) (s'.fiberCondBroadcast i) := by
  have hw (u : TaskId) (hu : u ∈ (s.cond i).waitq) : ∃ c, s.Waits u c ∧
      c.waitChain = some (.cond i) := by
    obtain ⟨c, hw, hc, -⟩ := (hi.stand u).waits_of_queue (k := .cond i) (by rintro ⟨⟩) hu
    exact ⟨c, hw, hc⟩
  rw [fiberCondBroadcast_eq hi.idle (hi.distinct (.cond i)) hw,
    fiberCondBroadcast_eq hi'.idle (hi'.distinct (.cond i)) fun u hu => ?_, h.cur, h.cond]
  · exact h.foldl_signalled.ret _ _ _
  · obtain ⟨c, hw, hc⟩ := hw u (h.cond ▸ hu)
    exact ⟨c, h.waits hw, hc⟩

omit hi' in
theorem mutexUnlock (i : MutexId) :
    Alike l l' (s.fiberMutexUnlock i) (s'.fiberMutexUnlock i) := by
  by_cases hh : (s.mutex i).holder = some s.currentTask
  · have hh' : (s'.mutex i).holder = some s'.currentTask := by rw [h.mutex, h.cur, hh]
    by_cases hr : (s.mutex i).reentries = 1
    · cases hq : (s.mutex i).waitq with
      | nil =>
        rw [fiberMutexUnlock_nil hh hr hq,
          fiberMutexUnlock_nil hh' (h.mutex ▸ hr) (h.mutex ▸ hq), h.cur]
        exact (h.modMutex i _).ret _ _ _
      | cons w rest =>
        obtain ⟨c, hw, hc, -⟩ := (hi.stand w).waits_of_queue (k := .mutex i) (by rintro ⟨⟩)
          (by simp [Sched.chain, hq])
        rw [fiberMutexUnlock_cons hh hr hq hw hc,
          fiberMutexUnlock_cons hh' (h.mutex ▸ hr) (h.mutex ▸ hq) (h.waits hw) hc, h.cur]
        exact ((h.modMutex i _).grant (h.twin w).clear _).ret _ _ _
    · rw [fiberMutexUnlock_nested hh hr, fiberMutexUnlock_nested hh' (h.mutex ▸ hr), h.cur]
      exact (h.modMutex i _).ret _ _ _
  · rw [fiberMutexUnlock_other hh, fiberMutexUnlock_other (by rwa [h.mutex, h.cur]), h.cur]
    exact h.ret _ _ _

theorem resume {w : TaskId} (hl : w ∈ s.live) (hw : (s.tcb w).state.suspended = true) :
    Alike l l' (s.fiberResume w) (s'.fiberResume w) := by
  obtain ⟨code, hwaits, hcode, -⟩ := (hi.stand w).waits_of_suspended hw hl
  have hl' : w ∈ s'.live := by
    cases h
    exact hl
  obtain ⟨code', hwaits', hcode', -⟩ :=
    (hi'.stand w).waits_of_suspended (by rwa [(h.twin w).state]) hl'
  have he : code' = code := by
    have hf := (h.twin w).frame
    rw [hwaits.frame, hwaits'.frame] at hf
    cases hf
    rfl
  subst he
  rw [fiberResume_eq hwaits, fiberResume_eq hwaits', h.cur, hcode, hcode']
  exact (h.grant (h.twin w).clear _).ret _ _ _

theorem eventPost {w : TaskId} (hl : w ∈ s.live) (eventsIn : EventMask) :
    Alike l l' (s.fiberEventPost w eventsIn) (s'.fiberEventPost w eventsIn) := by
  have ht := h.twin w
  have hkeep : Alike l l' (((s.modTcb w fun x => { x with
        pendingEvents := x.pendingEvents ||| eventsIn }).emit (.posted w eventsIn)).ret
          s.currentTask (.eventPost w eventsIn) (.word 0))
      (((s'.modTcb w fun x => { x with
        pendingEvents := x.pendingEvents ||| eventsIn }).emit (.posted w eventsIn)).ret
          s.currentTask (.eventPost w eventsIn) (.word 0)) := by
    refine ((h.modTcb ?_).emit _).ret _ _ _
    rw [ht.pendingEvents]
    exact ht.setPending _
  by_cases hb : (s.tcb w).state.waitforEvent = true
  · have hl' : w ∈ s'.live := by
      cases h
      exact hl
    obtain ⟨events, options, timeout, hw, -, hd, -⟩ := (hi.stand w).waits_of_event hb hl
    obtain ⟨events', options', timeout', hw', -, hd', -⟩ :=
      (hi'.stand w).waits_of_event (by rwa [ht.state]) hl'
    have hf := ht.frame
    rw [hw.frame, hw'.frame] at hf
    cases hf
    have hevents : (s'.tcb w).waitingEvents = (s.tcb w).waitingEvents := by rw [hd.1, hd'.1]
    have hoptions : (s'.tcb w).waitingOptions = (s.tcb w).waitingOptions := by
      rw [hd.2.1, hd'.2.1]
    by_cases hsat : eventsSatisfy (((s.tcb w).pendingEvents ||| eventsIn) &&&
        (s.tcb w).waitingEvents) (s.tcb w).waitingEvents (s.tcb w).waitingOptions = true
    · rw [fiberEventPost_grant hw hsat,
        fiberEventPost_grant hw' (by rwa [ht.pendingEvents, hevents, hoptions]), h.cur,
        ht.pendingEvents, hevents]
      refine Alike.ret (h.grant ?_ _) _ _ _
      refine ⟨ht.stackaddr, ht.stacksize, rfl, ht.frame, ht.scheduler, rfl, ht.localdata,
        fun c hc => ?_⟩
      rw [hw.frame] at hc
      cases hc
      rfl
    · rw [fiberEventPost_keep fun _ => by simpa using hsat, fiberEventPost_keep fun _ => by
        rw [ht.pendingEvents, hevents, hoptions]
        simpa using hsat, h.cur]
      exact hkeep
  · rw [fiberEventPost_keep fun hw => absurd hw hb, fiberEventPost_keep fun hw => absurd hw (by
      rwa [ht.state]), h.cur]
    exact hkeep

/-! ## Calls that may wait -/

omit hi hi' in
/-- A task that starts to wait has stored what its call would return. -/
theorem parks {f : FibTCB → FibTCB} (hf : ∀ x : FibTCB, Kept x (f x)) (hd : ∀ x,
      result s.currentTask (f x) c = result s.currentTask (f (s.tcb s.currentTask)) c)
    (hs : (s.suspend c (f (s.tcb s.currentTask))).schedule = some r) :
    ∃ r', (s'.suspend c (f (s'.tcb s'.currentTask))).schedule = some r' ∧ Alike l l' r r' := by
  have ht := h.twin s.currentTask
  have hk := hf (s.tcb s.currentTask)
  have hk' := hf (s'.tcb s.currentTask)
  rw [h.cur]
  refine h.park ?_ hs
  refine ⟨?_, ?_, rfl, rfl, ?_, ?_, fun i h0 h1 => ?_, fun c' hc => ?_⟩
  · exact hk'.stackaddr.trans (ht.stackaddr.trans hk.stackaddr.symm)
  · exact hk'.stacksize.trans (ht.stacksize.trans hk.stacksize.symm)
  · exact hk'.scheduler.trans (ht.scheduler.trans hk.scheduler.symm)
  · exact hk'.pendingEvents.trans (ht.pendingEvents.trans hk.pendingEvents.symm)
  · have hl := ht.localdata i h0 h1
    rwa [← hk.taskLocalStorages, ← hk'.taskLocalStorages] at hl
  · cases hc
    have he := hd (s'.tcb s.currentTask)
    cases c <;> exact he

theorem mutexLock {i : MutexId} (hs : s.fiberMutexLock i = some r) :
    ∃ r', s'.fiberMutexLock i = some r' ∧ Alike l l' r r' := by
  rw [fiberMutexLock_eq hi.idle] at hs
  rw [fiberMutexLock_eq hi'.idle, h.mutex]
  rw [h.cur]
  split at hs
  · next hh =>
    obtain rfl := Option.some.inj hs
    rw [if_pos hh]
    exact ⟨_, rfl, (h.modMutex i _).ret _ _ _⟩
  · next hh =>
    rw [if_neg hh]
    split at hs
    · next hn =>
      obtain rfl := Option.some.inj hs
      rw [if_pos hn]
      exact ⟨_, rfl, (h.modMutex i _).ret _ _ _⟩
    · next hn =>
      rw [if_neg hn, ← h.cur]
      exact h.parks (f := fun x => x) (fun x => ⟨rfl, rfl, rfl, rfl, rfl⟩) (fun _ => rfl) hs

theorem semWait {i : SemId} (hs : s.fiberSemWait i = some r) :
    ∃ r', s'.fiberSemWait i = some r' ∧ Alike l l' r r' := by
  rw [fiberSemWait_eq hi.idle] at hs
  rw [fiberSemWait_eq hi'.idle, h.sem]
  split at hs
  · next hc =>
    obtain rfl := Option.some.inj hs
    rw [if_pos hc, h.cur]
    exact ⟨_, rfl, (h.modSem i _).ret _ _ _⟩
  · next hc =>
    rw [if_neg hc]
    exact h.parks (f := fun x => x) (fun x => ⟨rfl, rfl, rfl, rfl, rfl⟩) (fun _ => rfl) hs

theorem semTimedwait {i : SemId} {timeout : Int32} (hs : s.fiberSemTimedwait i timeout = some r) :
    ∃ r', s'.fiberSemTimedwait i timeout = some r' ∧ Alike l l' r r' := by
  rw [fiberSemTimedwait_eq hi.idle] at hs
  rw [fiberSemTimedwait_eq hi'.idle, h.sem]
  split at hs
  · next hc =>
    obtain rfl := Option.some.inj hs
    rw [if_pos hc, h.cur]
    exact ⟨_, rfl, (h.modSem i _).ret _ _ _⟩
  · next hc =>
    rw [if_neg hc]
    split at hs
    · next ht =>
      obtain rfl := Option.some.inj hs
      rw [if_pos ht, h.cur]
      exact ⟨_, rfl, h.ret _ _ _⟩
    · next ht =>
      rw [if_neg ht]
      exact h.parks (f := fun x => { x with yieldCode := 0 }) (fun x => ⟨rfl, rfl, rfl, rfl, rfl⟩)
        (fun _ => rfl) hs

theorem condTimedwait {i : CondId} {timeout : Int32}
    (hs : s.fiberCondTimedwait i timeout = some r) :
    ∃ r', s'.fiberCondTimedwait i timeout = some r' ∧ Alike l l' r r' := by
  rw [fiberCondTimedwait_eq hi.idle] at hs
  rw [fiberCondTimedwait_eq hi'.idle]
  split at hs
  · next ht =>
    obtain rfl := Option.some.inj hs
    rw [if_pos ht, h.cur]
    exact ⟨_, rfl, h.ret _ _ _⟩
  · next ht =>
    rw [if_neg ht]
    exact h.parks (f := fun x => { x with yieldCode := 0 }) (fun x => ⟨rfl, rfl, rfl, rfl, rfl⟩)
      (fun _ => rfl) hs

theorem eventWait {events : EventMask} {options : BitVec 32} {timeout : Int32}
    (hs : s.fiberEventWait events options timeout = some r) :
    ∃ r', s'.fiberEventWait events options timeout = some r' ∧ Alike l l' r r' := by
  have ht := h.twin s.currentTask
  rw [fiberEventWait_eq hi.idle] at hs
  rw [fiberEventWait_eq hi'.idle, h.cur]
  split at hs
  · next hsat =>
    obtain rfl := Option.some.inj hs
    rw [if_pos (by rwa [ht.pendingEvents])]
    refine ⟨_, rfl, ?_⟩
    rw [ht.pendingEvents]
    refine Alike.ret (Alike.emit (h.modTcb ?_) _) _ _ _
    rw [ht.pendingEvents]
    exact ht.setPending _
  · next hsat =>
    rw [if_neg (by rwa [ht.pendingEvents])]
    split at hs
    · next h0 =>
      obtain rfl := Option.some.inj hs
      rw [if_pos h0]
      exact ⟨_, rfl, h.ret _ _ _⟩
    · next h0 =>
      rw [if_neg h0, ← h.cur]
      exact h.parks (f := fun x => { x with
          seizedEvents := 0, waitingEvents := events, waitingOptions := options })
        (fun x => ⟨rfl, rfl, rfl, rfl, rfl⟩) (fun _ => rfl) hs

/-! ## Creation, exit and local data -/

omit hi' in
theorem create {stackaddr : Addr} {n : BitVec 32} {env : AllocEnv}
    (hfresh : env.malloc.all s.freshTcbs = true) :
    Alike l l' (s.fiberCreate stackaddr n env) (s'.fiberCreate stackaddr n env) := by
  have hpool : s'.pool = s.pool := by
    cases h
    rfl
  have hstack : s'.newStack stackaddr n env = s.newStack stackaddr n env := by
    cases h
    rfl
  rcases ha : s.pool.alloc env.malloc with ⟨_ | t, p⟩
  · have hret := (h.setTcbs p).ret s.currentTask (.create stackaddr n env) (.task none)
    unfold fiberCreate
    rw [hpool, ha]
    cases h
    exact hret
  · have hne : t ≠ s.theMaintask := fun e => (alloc_spec hi.pool hfresh ha).1 (by
      obtain ⟨q, hr⟩ := hi.ready
      exact e ▸ (hi.stand _).live_of_ready (by simp [Sched.chain, hr]))
    have ht := h.twin t
    rw [fiberCreate_eq ha hne rfl, fiberCreate_eq (hpool ▸ ha) (h.main ▸ hne) hstack]
    split
    · refine Alike.ret_of_eq ?_ h.cur _ _
      have hn := (h.note ht.clear []).setPool (p.free t) (s.newStack stackaddr n env).1
      exact hn
    · refine Alike.ret_of_eq ?_ h.cur _ _
      refine (h.setPool p _).spawn ?_
      exact ⟨rfl, rfl, rfl, rfl, h.main, ht.pendingEvents, ht.localdata, fun _ h => by cases h⟩

theorem exit : Alike l l' s.cppTaskmain s'.cppTaskmain := by
  have ht := h.twin s.currentTask
  have hcache : s'.exitCache = s.exitCache := by
    have hc : s'.cache = s.cache := by
      cases h
      rfl
    unfold exitCache
    dsimp only
    rw [h.cur, hc, ht.stackaddr, ht.stacksize]
  rw [cppTaskmain_eq hi.idle, cppTaskmain_eq hi'.idle]
  exact ((h.setCache hcache).bury.setCurrent h.main).arrive

omit hi hi' in
theorem setLocaldata {w : TaskId} {index : Int32} (data : BitVec 64) :
    Alike l l' (s.fiberSetLocaldata w index data) (s'.fiberSetLocaldata w index data) := by
  have ht := h.twin w
  unfold fiberSetLocaldata
  dsimp only
  split
  · exact h.ret_of_eq h.cur _ _
  · refine (h.modTcb ?_).ret_of_eq h.cur _ _
    refine ⟨ht.stackaddr, ht.stacksize, ht.state, ht.frame, ht.scheduler, ht.pendingEvents,
      fun i h0 h1 => ?_, fun c hc => ?_⟩
    · by_cases hi : i = index
      · subst hi
        simp
      · simpa [hi] using ht.localdata i h0 h1
    · have hr := ht.result c hc
      cases c <;> exact hr

omit hi hi' in
theorem getLocaldata {w : TaskId} {index : Int32} (h0 : 0 ≤ index) :
    Alike l l' (s.fiberGetLocaldata w index) (s'.fiberGetLocaldata w index) := by
  unfold fiberGetLocaldata
  dsimp only
  split
  · exact h.ret_of_eq h.cur _ _
  · next hlt =>
    rw [(h.twin w).localdata index h0 (Int32.not_le.1 hlt)]
    exact h.ret_of_eq h.cur _ _

/-! ## Moves -/

omit hi hi' in
/-- The same moves are permitted. -/
theorem permitted (m : Move) : s'.permitted m = s.permitted m := by
  have ht := h.twin
  obtain ⟨τ, δ, g, -, -, -⟩ := h
  have hunused (k : Chain) : (s.withTcbs τ δ g).unused k = s.unused k := by
    have hframe : (fun u => ((s.withTcbs τ δ g).tcb u).frame.all fun c => c.waitChain ≠ some k) =
        fun u => (s.tcb u).frame.all fun c => c.waitChain ≠ some k := by
      funext u
      rw [(ht u).frame]
    have hchain : (s.withTcbs τ δ g).chain k = s.chain k := by cases k <;> rfl
    unfold unused
    rw [hframe, hchain]
    rfl
  cases m with
  | call c =>
    have hc : (s.withTcbs τ δ g).permittedCall c = s.permittedCall c := by
      cases c with
      | resume u =>
        change (_ && ((s.withTcbs τ δ g).tcb u).state.suspended) = _
        rw [(ht u).state]
        rfl
      | mutexInit i =>
        change ((s.withTcbs τ δ g).unused _ && _) = _
        rw [hunused]
        rfl
      | semInit i v => exact hunused _
      | condInit i => exact hunused _
      | _ => rfl
    change ((s.withTcbs τ δ g).permittedCall c && _) = _
    rw [hc]
    rfl
  | _ => rfl

/-- A call leads from states that are alike to states that are alike. -/
theorem call (hp : s.permitted (.call c) = true) (hs : s.call c = some r) :
    ∃ r', s'.call c = some r' ∧ Alike l l' r r' := by
  have hpc : s.permittedCall c = true := (Bool.and_eq_true_iff.1 hp).1
  cases c with
  | create stackaddr stacksize env =>
    cases hs
    exact ⟨_, rfl, create hi h (Bool.and_eq_true_iff.1 hpc).1⟩
  | yield code =>
    rw [Sched.call, fiberYield_eq hi.idle] at hs
    rw [Sched.call, fiberYield_eq hi'.idle]
    exact h.parks (f := fun x => { x with yieldCode := code }) (fun x => ⟨rfl, rfl, rfl, rfl, rfl⟩)
      (fun _ => rfl) hs
  | resume w =>
    cases hs
    obtain ⟨hl, hw⟩ := Bool.and_eq_true_iff.1 hpc
    exact ⟨_, rfl, resume hi hi' h (by simpa using hl) hw⟩
  | schedYield =>
    rw [Sched.call, fiberSchedYield_eq hi.idle] at hs
    rw [Sched.call, fiberSchedYield_eq hi'.idle]
    exact h.yielded.schedule hs
  | usleep usec =>
    rw [Sched.call, fiberUsleep_eq hi.idle] at hs
    rw [Sched.call, fiberUsleep_eq hi'.idle]
    exact h.parks (f := fun x => x) (fun x => ⟨rfl, rfl, rfl, rfl, rfl⟩) (fun _ => rfl) hs
  | eventWait events options timeout => exact eventWait hi hi' h hs
  | eventPost w events =>
    cases hs
    exact ⟨_, rfl, eventPost hi hi' h (by simpa [permittedCall] using hpc) events⟩
  | mutexInit i =>
    cases hs
    exact ⟨_, rfl, (h.modMutex i _).ret_of_eq h.cur _ _⟩
  | mutexLock i => exact mutexLock hi hi' h hs
  | mutexUnlock i =>
    cases hs
    exact ⟨_, rfl, mutexUnlock hi h i⟩
  | semInit i v =>
    cases hs
    exact ⟨_, rfl, (h.modSem i _).ret_of_eq h.cur _ _⟩
  | semWait i => exact semWait hi hi' h hs
  | semTimedwait i timeout => exact semTimedwait hi hi' h hs
  | semPost i =>
    cases hs
    exact ⟨_, rfl, semPost hi hi' h i⟩
  | condInit i =>
    cases hs
    exact ⟨_, rfl, (h.modCond i _).ret_of_eq h.cur _ _⟩
  | condWait i =>
    rw [Sched.call, fiberCondWait_eq hi.idle] at hs
    rw [Sched.call, fiberCondWait_eq hi'.idle]
    exact h.parks (f := fun x => x) (fun x => ⟨rfl, rfl, rfl, rfl, rfl⟩) (fun _ => rfl) hs
  | condTimedwait i timeout => exact condTimedwait hi hi' h hs
  | condSignal i =>
    cases hs
    exact ⟨_, rfl, condSignal hi hi' h i⟩
  | condBroadcast i =>
    cases hs
    exact ⟨_, rfl, condBroadcast hi hi' h i⟩
  | setLocaldata w index data =>
    cases hs
    exact ⟨_, rfl, h.setLocaldata data⟩
  | getLocaldata w index =>
    cases hs
    exact ⟨_, rfl, h.getLocaldata (by simpa using (Bool.and_eq_true_iff.1 hpc).2)⟩

omit hi' in
theorem pass : Alike l l' s.schedulerPass s'.schedulerPass := by
  have hloop := h.tickleLoop (toInt (s.utime - s.prevStmp)) hi hi.dogs fun _ hw => hw
  have hticked := hloop.setLoop s.utime .exhaust
  have hset := h.setLoop s.prevStmp .exhaust
  have hclock : s'.utime = s.utime := by
    cases h
    rfl
  have hprev : s'.prevStmp = s.prevStmp := by
    cases h
    rfl
  have hdogs : s'.wadoglist = s.wadoglist := by
    cases h
    rfl
  unfold schedulerPass fiberWatchdogTickle
  rw [hclock, hprev, hdogs]
  by_cases hgap : s.utime - s.prevStmp = 0
  · simp only [hgap, ne_eq, not_true_eq_false, if_false]
    cases h
    exact hset
  · simp only [hgap, ne_eq, not_false_eq_true, if_true]
    exact hticked

/-- **A move leads from states that are alike to states that are alike.** -/
theorem step (hs : s.step m = some r) : ∃ r', s'.step m = some r' ∧ Alike l l' r r' := by
  unfold Sched.step at hs ⊢
  rw [h.permitted m]
  split at hs
  case isFalse => cases hs
  case isTrue hp =>
    rw [if_pos hp]
    cases m with
    | call c => exact call hi hi' h hp hs
    | exit =>
      cases hs
      exact ⟨_, rfl, exit hi hi' h⟩
    | elapse us =>
      cases hs
      refine ⟨_, rfl, ?_⟩
      obtain ⟨τ, δ, g, ht, hd, hl⟩ := h
      exact .mk τ δ g ht hd hl
    | schedulerStart =>
      cases hs
      have hset := h.setLoop s.utime .top
      refine ⟨_, rfl, ?_⟩
      obtain ⟨τ, δ, g, -, -, -⟩ := h
      exact hset
    | schedulerPass =>
      cases hs
      exact ⟨_, rfl, pass hi h⟩
    | schedulerExhaust =>
      have hset := h.setLoop s.prevStmp .msgloop
      have hyield {q : Sched} (hq : s.yielded.schedule = some q) := h.yielded.schedule hq
      rw [exec, schedulerExhaust, fiberSchedYield_eq hi.idle] at hs
      rw [exec, schedulerExhaust, fiberSchedYield_eq hi'.idle]
      have hready : s'.readylist = s.readylist := congrFun h.chain .ready
      rw [hready]
      split at hs
      · next hne =>
        rw [if_pos hne]
        exact hyield hs
      · next hne =>
        cases hs
        rw [if_neg hne]
        refine ⟨_, rfl, ?_⟩
        obtain ⟨τ, δ, g, -, -, -⟩ := h
        exact hset
    | schedulerLoopEnd =>
      cases hs
      refine ⟨_, rfl, ?_⟩
      have hset := h.setLoop s.prevStmp (if s.nLocalFibTasks = 1 then .left else .top)
      obtain ⟨τ, δ, g, -, -, -⟩ := h
      exact hset

/-- **Runs of the same moves log the same events.** -/
theorem run {ms : List Move} (hs : ms.foldlM Sched.step s = some r) :
    ∃ r', ms.foldlM Sched.step s' = some r' ∧ Alike l l' r r' := by
  induction ms generalizing s s' with
  | nil =>
    cases hs
    exact ⟨s', rfl, h⟩
  | cons m ms ih =>
    rw [List.foldlM_cons] at hs
    obtain ⟨q, hq, hs⟩ := Option.bind_eq_some_iff.1 hs
    obtain ⟨q', hq', hqq⟩ := step hi hi' h hq
    obtain ⟨r', hr', hrr⟩ := ih (hi.step hq) (hi'.step hq') hqq hs
    refine ⟨r', ?_, hrr⟩
    rw [List.foldlM_cons, hq']
    exact hr'

end Alike

end

end Ptask.OneN.Sched
