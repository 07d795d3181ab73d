import Ptask.OneN.Candidates
import Ptask.OneN.Fifo
import Ptask.OneN.Places
import Ptask.OneN.Twins
import Ptask.OneN.Waits

/-!
# What a new task finds in its control block

`fiber_create` writes neither `pendingEvents` nor the task local data, and `tcb_alloc` hands out
blocks as their last task left them, or as `malloc` returned them. What else is in the block is
written before it is read. So a task is independent of what its block held before exactly when no
event was pending in it and its local data was 0.
-/

namespace Ptask.OneN

open Ptask.Lib Sched

/-! ## What a task observes -/

/-- Events that `fiber_event_wait` returns to `t` have been posted to it before, within `es`. -/
def OwnEvents (t : TaskId) (es : List Ev) : Prop :=
  ∀ l₁ l₂ mask options timeout w,
    es = l₁ ++ .ret t (.eventWait mask options timeout) (.word w) :: l₂ →
    ∀ k, w.getLsbD k = true → ∃ events, .posted t events ∈ l₂ ∧ events.getLsbD k = true

/-- `fiber_get_localdata` returns 0 for a slot of `t` that has not been set before, within `es`. -/
def OwnLocaldata (t : TaskId) (es : List Ev) : Prop :=
  ∀ l₁ l₂ u index r, es = l₁ ++ .ret u (.getLocaldata t index) r :: l₂ →
    (∀ v data r, .ret v (.setLocaldata t index data) r ∉ l₂) → r = .word 0

/-- No event is pending in the control block, and its local data is 0. -/
structure Clean (x : FibTCB) : Prop where
  pendingEvents : x.pendingEvents = 0
  localdata : ∀ i, 0 ≤ i → i < MAX_TASK_LOCALDATAS → x.taskLocalStorages i = 0

/-- The states differ in what the control block of `t` holds, and in what has been logged. -/
inductive Apart (t : TaskId) (s : Sched) : Sched → Prop
  | mk (x : FibTCB) (d : Int32) (g : List Ev) :
    Apart t s (s.withTcbs (Function.update s.tcb t x) (Function.update s.delta t d) g)

/-- Whatever is done after the move `m`, from the two states alike: the runs log the same, and `t`
observes only what is its own. -/
def Independent (t : TaskId) (s s' : Sched) (m : Move) : Prop :=
  ∀ ms s₂, (m :: ms).foldlM Sched.step s = some s₂ → ∃ s₂' es,
    (m :: ms).foldlM Sched.step s' = some s₂' ∧ s₂.log = es ++ s.log ∧ s₂'.log = es ++ s'.log ∧
      OwnEvents t es ∧ OwnLocaldata t es

namespace Sched

section

variable {b b' : Boot} {m : Move} {s s' s₁ s₂ : Sched} {t u : TaskId} {l l' : List Ev} {e : Ev}

/-! ## Events -/

/-- Events have been seized for the task that its call has still to return. -/
def Phase.holds : Phase → Bool
  | .took _ => true
  | .seized _ _ => true
  | .ended _ _ => true
  | _ => false

theorem Phase.holds_next {p q : Phase} (h : Phase.holds p = true) (he : e.returns = false)
    (hn : Phase.next t p e = some q) : Phase.holds q = true := by
  cases e with
  | ret => cases he
  | posted | unit =>
    obtain rfl : p = q := by cases p <;> simpa [Phase.next] using hn
    exact h
  | grant =>
    cases p with
    | seized c events =>
      obtain ⟨-, rfl⟩ : _ ∧ Phase.ended _ _ = q := by simpa [Phase.next] using hn
      rfl
    | took | ended => cases hn
    | _ => cases h
  | _ =>
    cases p with
    | took | seized | ended => cases hn
    | _ => cases h

/-- After a seizure a task is not in its own code before its call has returned. -/
theorem holds_of_seize {w : EventMask} {p : Phase} : ∀ {l₁ l₂ : List Ev},
    phaseOf t (l₁ ++ .seize u w :: l₂) = some p → (∀ e ∈ l₁, e.returns = false) →
      Phase.holds p = true
  | [], l₂, h, _ => by
    obtain ⟨q, -, hn⟩ := Option.bind_eq_some_iff.1 h
    cases q with
    | idle =>
      cases hn
      rfl
    | parked c =>
      obtain ⟨-, rfl⟩ : _ ∧ Phase.seized c w = p := by simpa [Phase.next] using hn
      rfl
    | _ => cases hn
  | e :: l₁, l₂, h, hl => by
    obtain ⟨q, hq, hn⟩ := Option.bind_eq_some_iff.1 h
    obtain ⟨he, hl⟩ := List.forall_mem_cons.1 hl
    exact Phase.holds_next (holds_of_seize hq hl) he hn

/-- What was seized for a task since it was in its own code with no pending event has been posted
since. -/
theorem ownEvents_of_phase {l₀ es : List Ev} {p : EventMask}
    (hp : phaseOf t (evs t l₀) = some .idle)
    (hz : pendingOf p (evs t l₀) = 0) (hne : phaseOf t (evs t (es ++ l₀)) ≠ none)
    (hs : SeizedPending p (evs t (es ++ l₀))) : OwnEvents t es := by
  rintro l₁ l₂ mask options timeout w rfl k hk
  have hlog : evs t (l₁ ++ .ret t (.eventWait mask options timeout) (.word w) :: l₂ ++ l₀) =
      evs t l₁ ++ .ret t (.eventWait mask options timeout) (.word w) :: (evs t l₂ ++ evs t l₀) := by
    simp [evs, Ev.task]
  rw [hlog] at hne hs
  rcases ret_events hne with ⟨hr, -⟩ | ⟨hr, -⟩ | ⟨w', hr, -, l₃, u, l₄, hseize, hl₃⟩
  · cases hr
    simp at hk
  · cases hr
    simp at hk
  · cases hr
    have hz' := seizedPending_append (evs t l₁ ++ .ret t _ _ :: l₃) (by simpa [hseize] using hs)
    have hw : w &&& pendingOf p l₄ = w := hz'.1
    have hidle {a : List Ev} (ha : evs t l₀ = a ++ .seize u w :: l₄) (hsub : a ⊆ l₃) : False := by
      -- seized before: the task would not have been in its own code
      rw [ha] at hp
      have hheld := holds_of_seize hp fun e he => hl₃ e (hsub he)
      cases hheld
    rcases List.append_eq_append_iff.1 hseize with ⟨a, ha, hb⟩ | ⟨a, ha, hb⟩
    · exact (hidle hb (ha ▸ List.subset_append_right _ _)).elim
    · cases a with
      | nil => exact (hidle (a := []) (by simpa using hb.symm) (List.nil_subset _)).elim
      | cons e a =>
        obtain ⟨rfl, hl₄⟩ := List.cons.inj hb
        rw [show l₄ = a ++ evs t l₀ from hl₄, pendingOf_append, hz] at hw
        have hbit : (pendingOf 0 a).getLsbD k = true := by
          rw [← hw, BitVec.getLsbD_and, Bool.and_eq_true] at hk
          exact hk.2
        obtain ⟨hk0, -⟩ | ⟨a₁, e, a₂, rfl, he, -⟩ :=
          (pendingOf_bit (BitVec.lt_of_getLsbD hk) 0 a).1 hbit
        · simp at hk0
        · have hmem : e ∈ evs t l₂ := by simp [ha]
          cases e with
          | posted v events =>
            obtain rfl : v = t := mem_evs hmem
            exact ⟨events, List.mem_of_mem_filter hmem, he⟩
          | _ => cases he

/-! ## Local data -/

/-- The event is the return of an access to local data. -/
def Ev.accesses : Ev → Bool
  | .ret _ (.setLocaldata ..) _ => true
  | .ret _ (.getLocaldata ..) _ => true
  | _ => false

/-- The move is an access to local data. -/
def Move.accesses : Move → Bool
  | .call (.setLocaldata ..) => true
  | .call (.getLocaldata ..) => true
  | _ => false

/-- No local data is changed or read. -/
structure Untouched (s s' : Sched) : Prop where
  localdata : ∀ u, (s'.tcb u).taskLocalStorages = (s.tcb u).taskLocalStorages
  log : ∃ es, s'.log = es ++ s.log ∧ ∀ e ∈ es, Ev.accesses e = false

theorem Untouched.trans (h : Untouched s s₁) (h' : Untouched s₁ s₂) : Untouched s s₂ := by
  refine ⟨fun u => (h'.localdata u).trans (h.localdata u), ?_⟩
  obtain ⟨es, he, hes⟩ := h.log
  obtain ⟨es', he', hes'⟩ := h'.log
  refine ⟨es' ++ es, by rw [he', he, List.append_assoc], fun e hm => ?_⟩
  exact (List.mem_append.1 hm).elim (hes' e) (hes e)

/-- The control block of one task is written, but for its local data. -/
theorem untouched_of_update (es : List Ev) {w : TaskId} {x : FibTCB}
    (htcb : s'.tcb = Function.update s.tcb w x)
    (hx : x.taskLocalStorages = (s.tcb w).taskLocalStorages) (hlog : s'.log = es ++ s.log)
    (hes : ∀ e ∈ es, Ev.accesses e = false) : Untouched s s' := by
  refine ⟨fun u => ?_, es, hlog, hes⟩
  rw [htcb]
  by_cases hu : u = w
  · subst hu
    rw [Function.update_self, hx]
  · rw [Function.update_of_ne hu]

/-- A call that a task is in is no access to local data. -/
theorem Stand.accesses (h : Stand s t) {c : Call} (hl : t ∈ s.live) (hf : (s.tcb t).frame = some c)
    (r : Ret) : Ev.accesses (.ret t c r) = false := by
  have hc : c.blocks = true ∨ c = .schedYield := by
    cases h with
    | dead live => exact absurd hl live
    | idle _ _ _ _ _ frame => exact .inr (by simpa [hf] using frame)
    | waits c' _ waits blocks => exact .inl (Option.some.inj (hf.symm.trans waits.frame) ▸ blocks)
    | ended c' _ _ _ _ _ frame blocks =>
      exact .inl (Option.some.inj (hf.symm.trans frame) ▸ blocks)
  cases c <;> first | rfl | simp [Call.blocks] at hc

theorem Settled.untouched_arrive (h : Settled b s) (hl : s.currentTask ∈ s.live) :
    Untouched s s.arrive := by
  rcases arrive_eq (s := s) with ha | ⟨c, hf, ha⟩
  · rw [ha]
    exact ⟨fun _ => rfl, [], rfl, List.forall_mem_nil _⟩
  · rw [ha]
    refine untouched_of_update [_] (w := s.currentTask) rfl rfl rfl ?_
    exact List.forall_mem_singleton.2 ((h.stand _).accesses hl hf _)

theorem Settled.untouched_schedule (h : Settled b s) (hs : s.schedule = some s') :
    Untouched s s' := by
  obtain ⟨t, l, ht, -, hr, he⟩ := h.schedule
  obtain rfl := Option.some.inj (he.symm.trans hs)
  have hlive : t ∈ s.live := (hr.stand t).live_of_ready ht
  have hsame : Untouched s { s with currentTask := t, readylist := l } :=
    ⟨fun _ => rfl, [], rfl, List.forall_mem_nil _⟩
  exact hsame.trans (hr.untouched_arrive hlive)

theorem Inv.untouched_tr (h : Inv b s) (htr : Tr m s s') (hm : Move.accesses m = false) :
    Untouched s s' := by
  have hone {e : Ev} (he : Ev.accesses e = false) : ∀ e' ∈ [e], Ev.accesses e' = false :=
    List.forall_mem_singleton.2 he
  cases htr with
  | quiet _ hq => exact ⟨fun u => by rw [hq.tcb], [], hq.log, List.forall_mem_nil _⟩
  | localdata w index data hc =>
    subst hc
    cases hm
  | scrap w => exact untouched_of_update [] rfl rfl rfl (List.forall_mem_nil _)
  | spawn _ w => exact untouched_of_update [_] rfl rfl rfl (hone rfl)
  | exit _ hne =>
    have hb := h.bury hne
    obtain ⟨p, hp⟩ := hb.ready
    have hmain : s.theMaintask ∈ s.bury.readylist := by
      rw [hp]
      exact List.mem_append_right _ (List.mem_singleton.2 rfl)
    have hr := hb.rotate (.refl _) ⟨p, hp⟩ s.theMaintask
    have hburied : Untouched s { s.bury with currentTask := s.theMaintask } :=
      ⟨fun _ => rfl, [_], rfl, hone rfl⟩
    exact hburied.trans (hr.untouched_arrive ((hr.stand _).live_of_ready hmain))
  | ret c r hc =>
    refine ⟨fun _ => rfl, [_], rfl, hone ?_⟩
    subst hc
    cases c with
    | setLocaldata | getLocaldata => cases hm
    | _ => rfl
  | semInit => exact ⟨fun _ => rfl, [_], rfl, hone rfl⟩
  | take i c hc =>
    refine ⟨fun _ => rfl, [_], rfl, hone ?_⟩
    cases c with
    | setLocaldata | getLocaldata => cases hc
    | _ => rfl
  | unit => exact ⟨fun _ => rfl, [_], rfl, hone rfl⟩
  | unitGrant => exact untouched_of_update [_, _] rfl rfl rfl (by simp [Ev.accesses])
  | grant => exact untouched_of_update [_] rfl rfl rfl (hone rfl)
  | expire => exact untouched_of_update [_] rfl rfl rfl (hone rfl)
  | took => exact untouched_of_update [_, _] rfl rfl rfl (by simp [Ev.accesses])
  | posted => exact untouched_of_update [_] rfl rfl rfl (hone rfl)
  | eventGrant => exact untouched_of_update [_, _, _] rfl rfl rfl (by simp [Ev.accesses])
  | park c x _ _ hne hb hk hd _ hs =>
    have hparked : Untouched s (s.suspend c x) :=
      untouched_of_update [_] rfl hk.taskLocalStorages rfl (hone rfl)
    exact hparked.trans ((h.suspend hne hb (hk.scheduler.trans h.idle.scheduler) hd
      hk.pendingEvents).untouched_schedule hs)
  | schedYield _ _ hs =>
    have hyields : Untouched s s.yielded :=
      untouched_of_update [] rfl rfl rfl (List.forall_mem_nil _)
    exact hyields.trans (h.yielded.untouched_schedule hs)

theorem Inv.untouched_trs (h : Inv b s) (htr : Trs m s s') (hm : Move.accesses m = false) :
    Untouched s s' := by
  induction htr with
  | refl => exact ⟨fun _ => rfl, [], rfl, List.forall_mem_nil _⟩
  | tail htr hlast ih => exact ih.trans ((h.trs htr).untouched_tr hlast hm)

/-- What the slots of `t` hold, when `es` has been logged since they held 0. -/
structure SlotsSince (t : TaskId) (s : Sched) (es : List Ev) : Prop where
  reads : OwnLocaldata t es
  unset : ∀ i, 0 ≤ i → i < MAX_TASK_LOCALDATAS →
    (∀ v data r, .ret v (.setLocaldata t i data) r ∉ es) → (s.tcb t).taskLocalStorages i = 0

/-- The return of another call. -/
theorem ownLocaldata_cons {es : List Ev} (h : OwnLocaldata t es)
    (he : ∀ u index r, e = .ret u (.getLocaldata t index) r →
      (∀ v data r, .ret v (.setLocaldata t index data) r ∉ es) → r = .word 0) :
    OwnLocaldata t (e :: es) := by
  rintro (_ | ⟨e', l₁⟩) l₂ u index r hes hset
  · obtain ⟨rfl, rfl⟩ := List.cons.inj hes
    exact he u index r rfl hset
  · obtain ⟨rfl, rfl⟩ := List.cons.inj hes
    exact h l₁ l₂ u index r rfl hset

theorem ownLocaldata_append {es es' : List Ev} (h : OwnLocaldata t es)
    (hes : ∀ e ∈ es', Ev.accesses e = false) : OwnLocaldata t (es' ++ es) := by
  induction es' with
  | nil => exact h
  | cons e es' ih =>
    obtain ⟨he, hes⟩ := List.forall_mem_cons.1 hes
    refine ownLocaldata_cons (ih hes) ?_
    rintro u index r rfl
    cases he

/-- `fiber_set_localdata` changes at most the slot that it is given. -/
theorem setLocaldata_eq (s : Sched) (w : TaskId) (index : Int32) (data : BitVec 64) :
    ∃ r, (s.fiberSetLocaldata w index data).log =
        .ret s.currentTask (.setLocaldata w index data) r :: s.log ∧
      ∀ u i, (w = u → i ≠ index) → ((s.fiberSetLocaldata w index data).tcb u).taskLocalStorages i =
        (s.tcb u).taskLocalStorages i := by
  unfold fiberSetLocaldata
  dsimp only
  split
  · exact ⟨_, rfl, fun _ _ _ => rfl⟩
  · refine ⟨_, rfl, fun u i hne => ?_⟩
    by_cases hu : u = w
    · subst hu
      simp [Sched.ret, Sched.emit, modTcb, hne rfl]
    · simp [Sched.ret, Sched.emit, modTcb, hu]

theorem Inv.slotsSince_step (h : Inv b s) {es : List Ev} (hsl : SlotsSince t s es)
    (hlog : s.log = es ++ l) (hs : s.step m = some s') :
    ∃ es', s'.log = es' ++ l ∧ SlotsSince t s' es' := by
  by_cases hm : Move.accesses m = false
  · obtain ⟨hdata, es', he, hes'⟩ := h.untouched_trs (h.trs_step hs) hm
    refine ⟨es' ++ es, by rw [he, hlog, List.append_assoc], ownLocaldata_append hsl.reads hes', ?_⟩
    intro i h0 h1 hset
    rw [hdata]
    exact hsl.unset i h0 h1 fun v data r hmem => hset v data r (List.mem_append_right _ hmem)
  · unfold Sched.step at hs
    split at hs
    case isFalse => cases hs
    case isTrue hp =>
      cases m with
      | call c =>
        cases c with
        | setLocaldata w index data =>
          obtain rfl := Option.some.inj hs
          obtain ⟨r, hr, hdata⟩ := setLocaldata_eq s w index data
          refine ⟨.ret s.currentTask (.setLocaldata w index data) r :: es, by rw [hr, hlog]; rfl,
            ownLocaldata_cons hsl.reads (by rintro u i r ⟨⟩), fun i h0 h1 hset => ?_⟩
          have hne : w = t → i ≠ index := by
            rintro rfl rfl
            exact hset _ _ _ List.mem_cons_self
          rw [hdata t i hne]
          exact hsl.unset i h0 h1 fun v data r hmem => hset v data r (List.mem_cons_of_mem _ hmem)
        | getLocaldata w index =>
          obtain rfl := Option.some.inj hs
          have h0 : 0 ≤ index := by
            simpa using (Bool.and_eq_true_iff.1 (Bool.and_eq_true_iff.1 hp).1).2
          refine ⟨_ :: es, congrArg (List.cons _) hlog, ownLocaldata_cons hsl.reads ?_, ?_⟩
          · rintro u i r he hset
            obtain ⟨-, hc, rfl⟩ := Ev.ret.inj he
            obtain ⟨rfl, rfl⟩ := Call.getLocaldata.inj hc
            split
            · rfl
            · next hlt => exact congrArg Ret.word (hsl.unset _ h0 (Int32.not_le.1 hlt) hset)
          · intro i h0 h1 hset
            exact hsl.unset i h0 h1 fun v data r hmem => hset v data r (List.mem_cons_of_mem _ hmem)
        | _ => exact absurd rfl hm
      | _ => exact absurd rfl hm

theorem Inv.slotsSince_run (h : Inv b s) {es : List Ev} (hsl : SlotsSince t s es)
    (hlog : s.log = es ++ l) (hr : Reach Sched.step anyMove s s') :
    ∃ es', s'.log = es' ++ l ∧ SlotsSince t s' es' :=
  hr.invariant_of (I := Inv b) (P := fun s' => ∃ es', s'.log = es' ++ l ∧ SlotsSince t s' es') h
    ⟨es, hlog, hsl⟩ (fun _ _ _ hi _ hs => hi.step hs) fun _ _ _ hi hp _ hs => by
      obtain ⟨es', he, hsl⟩ := hp
      exact hi.slotsSince_step hsl he hs

/-- A task whose control block was clean observes only what is its own. -/
theorem Inv.own (h : Inv b s) (hnew : t ∉ s.live) (hclean : Clean (s.tcb t))
    (hr : Reach Sched.step anyMove s s₂) :
    ∃ es, s₂.log = es ++ s.log ∧ OwnEvents t es ∧ OwnLocaldata t es := by
  have hslots : SlotsSince t s [] := ⟨(by rintro (_ | _) _ _ _ _ ⟨⟩), fun i h0 h1 _ =>
    hclean.localdata i h0 h1⟩
  obtain ⟨es, he, hsl⟩ := h.slotsSince_run hslots rfl hr
  have h₂ : Inv b s₂ := hr.invariant h fun _ _ _ hi _ hs => hi.step hs
  have hphase : phase t s.log = some .idle := by
    cases h.stand t with
    | dead _ _ _ phase => exact phase
    | idle live | waits _ live | ended _ live => exact absurd live hnew
  obtain ⟨p, hp, -⟩ := inHand_of_stand (h₂.stand t)
  have hne : phaseOf t (evs t (es ++ s.log)) ≠ none := by
    rw [← he, hp]
    exact Option.some_ne_none p
  exact ⟨es, he, ownEvents_of_phase hphase ((h.pending t).pending.symm.trans hclean.pendingEvents)
    hne (he ▸ (h₂.pending t).seized), hsl.reads⟩

/-! ## Creation -/

theorem Inv.not_mem_dogs (h : Inv b s) (hnew : t ∉ s.live) : t ∉ s.wadoglist := fun hd => by
  obtain ⟨-, -, -, -, -, hlive⟩ := (h.stand t).waits_of_dog hd
  exact hnew hlive

/-- What `fiber_create` does when it hands out the control block of `t`. -/
theorem Inv.create_spawn (h : Inv b s) {stackaddr : Addr} {n : BitVec 32} {env : AllocEnv}
    (hs : s.step (.call (.create stackaddr n env)) = some s₁) (hnew : t ∉ s.live)
    (hlive : t ∈ s₁.live) : ∃ p, s.permitted (.call (.create stackaddr n env)) = true ∧
      s.pool.alloc env.malloc = (some t, p) ∧ t ≠ s.theMaintask ∧
      (s.newStack stackaddr n env).2.stackbase ≠ 0 ∧
      s₁ = (({ s with pool := p, cache := (s.newStack stackaddr n env).1 } : Sched).spawn t
        (s.newTcb t (s.newStack stackaddr n env).2)).ret s.currentTask (.create stackaddr n env)
          (.task (some t)) := by
  unfold Sched.step at hs
  split at hs
  case isFalse => cases hs
  case isTrue hp =>
    obtain rfl := Option.some.inj hs
    have hfresh := (Bool.and_eq_true_iff.1 (Bool.and_eq_true_iff.1 hp).1).1
    rcases ha : s.pool.alloc env.malloc with ⟨_ | w, p⟩
    · have hsame : (s.fiberCreate stackaddr n env).live = s.live := by
        simp [fiberCreate, ha, Sched.ret, Sched.emit]
      exact absurd (hsame ▸ hlive) hnew
    · have hne : w ≠ s.theMaintask := fun e => (alloc_spec h.pool hfresh ha).1 (by
        obtain ⟨q, hr⟩ := h.ready
        exact e ▸ (h.stand _).live_of_ready (by simp [chain, hr]))
      have heq := fiberCreate_eq ha hne (rfl : s.newStack stackaddr n env = _)
      by_cases hz : (s.newStack stackaddr n env).2.stackbase = 0
      · rw [if_pos hz] at heq
        rw [heq] at hlive
        exact absurd hlive hnew
      · rw [if_neg hz] at heq
        rw [heq] at hlive ⊢
        obtain rfl : t = w := (List.mem_cons.1 hlive).resolve_right hnew
        exact ⟨p, hp, rfl, hne, hz, rfl⟩

/-- The other state makes the same creation. -/
theorem Inv.create_apart (hi : Inv b s) (h : Apart t s s') {stackaddr : Addr} {n : BitVec 32}
    {env : AllocEnv} (hs : s.step (.call (.create stackaddr n env)) = some s₁) (hnew : t ∉ s.live)
    (hlive : t ∈ s₁.live) : ∃ p k slot,
      s₁ = (({ s with pool := p, cache := k } : Sched).spawn t (s.newTcb t slot)).ret s.currentTask
        (.create stackaddr n env) (.task (some t)) ∧
      s'.step (.call (.create stackaddr n env)) = some
        ((({ s' with pool := p, cache := k } : Sched).spawn t (s'.newTcb t slot)).ret s'.currentTask
          (.create stackaddr n env) (.task (some t))) := by
  obtain ⟨p, hp, ha, hne, hz, rfl⟩ := hi.create_spawn hs hnew hlive
  refine ⟨p, _, _, rfl, ?_⟩
  obtain ⟨x, d, g⟩ := h
  generalize hs' : s.withTcbs (Function.update s.tcb t x) (Function.update s.delta t d) g = s'
  have hp' : s'.permitted (.call (.create stackaddr n env)) = true := hs' ▸ hp
  have hstack : s'.newStack stackaddr n env = s.newStack stackaddr n env := by
    rw [← hs']
    rfl
  have heq := fiberCreate_eq (s := s') (by rw [← hs']; exact ha) (by rw [← hs']; exact hne) hstack
  rw [if_neg hz] at heq
  exact (if_pos hp').trans (congrArg some heq)

/-- Two creations on control blocks that are clean lead to states that are alike. -/
theorem Inv.alike_create (hi : Inv b s) (h : Apart t s s') {stackaddr : Addr} {n : BitVec 32}
    {env : AllocEnv} (hs : s.step (.call (.create stackaddr n env)) = some s₁) (hnew : t ∉ s.live)
    (hlive : t ∈ s₁.live) (hc : Clean (s.tcb t)) (hc' : Clean (s'.tcb t)) :
    ∃ s₁', s'.step (.call (.create stackaddr n env)) = some s₁' ∧ Alike s.log s'.log s₁ s₁' := by
  obtain ⟨p, k, slot, rfl, hs'⟩ := hi.create_apart h hs hnew hlive
  refine ⟨_, hs', ?_⟩
  have hdog := hi.not_mem_dogs hnew
  have hcur : s'.currentTask = s.currentTask ∧ s'.theMaintask = s.theMaintask := by
    cases h
    exact ⟨rfl, rfl⟩
  have hnew : Twin t (s.newTcb t slot) (s'.newTcb t slot) :=
    ⟨rfl, rfl, rfl, rfl, hcur.2, hc'.pendingEvents.trans hc.pendingEvents.symm,
      fun i h0 h1 => (hc'.localdata i h0 h1).trans (hc.localdata i h0 h1).symm,
      fun _ h => by cases h⟩
  refine Alike.ret_of_eq ?_ hcur.1 _ _
  obtain ⟨x, d, g⟩ := h
  refine .mk (s := ({ s with pool := p, cache := k } : Sched).spawn t _) (Function.update
    (Function.update s.tcb t x) t _) _ (.created t :: g) (fun u => ?_) (fun u hu => ?_)
    ⟨[.created t], rfl, rfl⟩
  · by_cases hu : u = t
    · subst hu
      simpa [Sched.spawn] using hnew
    · simpa [Sched.spawn, hu] using Twin.refl u (s.tcb u)
  · have hne : u ≠ t := fun e => hdog (e ▸ hu)
    exact Function.update_of_ne hne _ _

/-! ## A task that only yields -/

/-- A yield changes no pending events, and only calls return. -/
structure Yielded (s s' : Sched) : Prop where
  pendingEvents : ∀ u, (s'.tcb u).pendingEvents = (s.tcb u).pendingEvents
  log : ∃ es, s'.log = es ++ s.log ∧ ∀ e ∈ es, e.returns = true

theorem Yielded.trans (h : Yielded s s₁) (h' : Yielded s₁ s₂) : Yielded s s₂ := by
  refine ⟨fun u => (h'.pendingEvents u).trans (h.pendingEvents u), ?_⟩
  obtain ⟨es, he, hes⟩ := h.log
  obtain ⟨es', he', hes'⟩ := h'.log
  refine ⟨es' ++ es, by rw [he', he, List.append_assoc], fun e hm => ?_⟩
  exact (List.mem_append.1 hm).elim (hes' e) (hes e)

theorem Inv.yielded_step (h : Inv b s) (hs : s.step (.call .schedYield) = some s') :
    s.yielded.schedule = some s' ∧ Yielded s s' := by
  have he : s.yielded.schedule = some s' := by
    unfold Sched.step at hs
    split at hs
    · rw [← fiberSchedYield_eq h.idle]
      exact hs
    · cases hs
  refine ⟨he, ?_⟩
  obtain ⟨u, q, -, -, -, hq⟩ := h.yielded.schedule
  obtain rfl := Option.some.inj (hq.symm.trans he)
  have hone {s s' : Sched} {w : TaskId} {x : FibTCB} (htcb : s'.tcb = Function.update s.tcb w x)
      (hx : x.pendingEvents = (s.tcb w).pendingEvents) (v : TaskId) :
      (s'.tcb v).pendingEvents = (s.tcb v).pendingEvents := by
    rw [htcb]
    by_cases hv : v = w
    · subst hv
      rw [Function.update_self, hx]
    · rw [Function.update_of_ne hv]
  have hyields : Yielded s { s.yielded with currentTask := u, readylist := q } :=
    ⟨hone (w := s.currentTask) rfl rfl, [], rfl, List.forall_mem_nil _⟩
  refine hyields.trans ?_
  rcases arrive_eq (s := { s.yielded with currentTask := u, readylist := q }) with ha | ⟨c, -, ha⟩
  · rw [ha]
    exact ⟨fun _ => rfl, [], rfl, List.forall_mem_nil _⟩
  · rw [ha]
    exact ⟨hone (w := u) rfl rfl, [_], rfl, List.forall_mem_singleton.2 rfl⟩

theorem Inv.yielded_run (h : Inv b s) {n : Nat}
    (hs : (List.replicate n (Move.call .schedYield)).foldlM Sched.step s = some s') :
    Yielded s s' := by
  induction n generalizing s with
  | zero =>
    obtain rfl := Option.some.inj hs
    exact ⟨fun _ => rfl, [], rfl, List.forall_mem_nil _⟩
  | succ n ih =>
    rw [List.replicate_succ, List.foldlM_cons] at hs
    obtain ⟨s₁, h₁, hs⟩ := Option.bind_eq_some_iff.1 hs
    exact (h.yielded_step h₁).2.trans (ih (h.step h₁) hs)

/-- A ready task comes to run when everybody yields. -/
theorem Inv.turn_comes (h : Inv b s) (hc : s.currentTask ≠ s.theMaintask) {i : Nat}
    (hi : s.rounds[i]? = some t) : ∃ n s',
      (List.replicate n (Move.call .schedYield)).foldlM Sched.step s = some s' ∧
        s'.currentTask = t ∧ t ≠ s'.theMaintask := by
  obtain ⟨s₁, h₁⟩ := h.step_some (m := .call .schedYield) (by simp [permitted, permittedCall, hc])
  obtain ⟨-, hc₁, hfirst, hrotate⟩ := h.rounds_yield hc h₁
  induction i generalizing s s₁ with
  | zero =>
    obtain rfl := Option.some.inj (hfirst.symm.trans hi)
    exact ⟨1, s₁, by simp [h₁], rfl, hc₁⟩
  | succ i ih =>
    have hlt : i + 1 < s.rounds.length := (List.getElem?_eq_some_iff.1 hi).1
    have hi₁ : s₁.rounds[i]? = some t := by
      rw [hrotate, List.getElem?_rotate (by omega), Nat.mod_eq_of_lt hlt, hi]
    have hi' := h.step h₁
    obtain ⟨s₂, h₂⟩ := hi'.step_some (m := .call .schedYield) (by
      simp [permitted, permittedCall, hc₁])
    obtain ⟨-, hc₂, hfirst₂, hrotate₂⟩ := hi'.rounds_yield hc₁ h₂
    obtain ⟨n, s', hn, ht⟩ := ih hi' hc₁ hi₁ s₂ h₂ hc₂ hfirst₂ hrotate₂
    exact ⟨n + 1, s', by simp [List.replicate_succ, h₁, hn], ht⟩

/-- So it does when the maintask yields in a callback. -/
theorem Inv.comes_to_run (h : Inv b s) (hp : s.permitted (.call .schedYield) = true)
    (ht : t ∈ s.readyTasks) : ∃ n s',
      (List.replicate n (Move.call .schedYield)).foldlM Sched.step s = some s' ∧
        s'.currentTask = t ∧ t ≠ s'.theMaintask := by
  have hruns {s : Sched} (h : Inv b s) (hc : s.currentTask ≠ s.theMaintask)
      (ht : t ∈ s.readyTasks) : ∃ n s',
        (List.replicate n (Move.call .schedYield)).foldlM Sched.step s = some s' ∧
          s'.currentTask = t ∧ t ≠ s'.theMaintask := by
    obtain ⟨i, hi⟩ := List.mem_iff_getElem?.1 ((h.rounds_perm hc).mem_iff.2 ht)
    exact h.turn_comes hc hi
  by_cases hc : s.currentTask = s.theMaintask
  · obtain ⟨s₁, h₁⟩ := h.step_some hp
    obtain ⟨hmain, -, hnext⟩ := schedule_turn (s := s.yielded) ((h.readylist_yielded_main hc).trans
      h.readylist_eq) h.readyTasks_nodup.2 (h.yielded_step h₁).1
    obtain ⟨a, q, haq⟩ := List.exists_cons_of_ne_nil (List.ne_nil_of_mem ht)
    obtain ⟨hcur, hready⟩ := hnext a q haq
    have ha : a ≠ s.theMaintask := fun e => h.readyTasks_nodup.2 (e ▸ haq ▸ List.mem_cons_self)
    have hac : a ≠ s.yielded.currentTask := fun e => ha (e.trans hc)
    rw [if_neg hac] at hready
    have ht₁ : t ∈ s₁.readyTasks := by
      rw [hready, List.mem_append, List.mem_singleton, or_comm, ← List.mem_cons, ← haq]
      exact ht
    have hc₁ : s₁.currentTask ≠ s₁.theMaintask := by
      rw [hcur, hmain]
      exact ha
    obtain ⟨n, s', hn, htask⟩ := hruns (h.step h₁) hc₁ ht₁
    exact ⟨n + 1, s', by simp [List.replicate_succ, h₁, hn], htask⟩
  · exact hruns h hc ht

/-! ## What a block that is not clean gives away -/

/-- A wait for any event, which returns at once. -/
def anyEvent : Call := .eventWait (BitVec.allOnes 64) TASK_EVENT_WAIT_ANY 0

theorem Inv.anyEvent_step (h : Inv b s) (hs : s.step (.call anyEvent) = some s') : ∃ es, s'.log =
    .ret s.currentTask anyEvent (.word (s.tcb s.currentTask).pendingEvents) :: es ++ s.log ∧
      ∀ u events, .posted u events ∉ es := by
  unfold Sched.step at hs
  split at hs
  case isFalse => cases hs
  case isTrue =>
    change s.fiberEventWait _ _ _ = some s' at hs
    rw [fiberEventWait_eq h.idle, BitVec.and_allOnes] at hs
    by_cases hz : (s.tcb s.currentTask).pendingEvents = 0
    · rw [hz] at hs ⊢
      obtain rfl := Option.some.inj hs
      exact ⟨[], rfl, (by rintro _ _ ⟨⟩)⟩
    · have hsat : eventsSatisfy (s.tcb s.currentTask).pendingEvents (BitVec.allOnes 64)
          TASK_EVENT_WAIT_ANY = true := by
        simpa [eventsSatisfy, TASK_EVENT_WAIT_ANY] using hz
      rw [if_pos hsat] at hs
      obtain rfl := Option.some.inj hs
      exact ⟨[.seize _ _], rfl, by simp⟩

/-- After a creation any call that does not wait is permitted if its arguments are. -/
theorem Inv.created_step (h : Inv b s) {stackaddr : Addr} {n : BitVec 32} {env : AllocEnv}
    (hs : s.step (.call (.create stackaddr n env)) = some s₁) (hnew : t ∉ s.live)
    (hlive : t ∈ s₁.live) {c : Call} (hc : c.blocks = false) (hpc : s₁.permittedCall c = true) :
    s₁.permitted (.call c) = true := by
  obtain ⟨p, hp, -, -, -, rfl⟩ := h.create_spawn hs hnew hlive
  have hcur := (Bool.and_eq_true_iff.1 hp).2
  refine Bool.and_eq_true_iff.2 ⟨hpc, ?_⟩
  rw [hc]
  exact hcur

/-- The task that has created `t` reads a slot. -/
theorem Inv.reads_slot (h : Inv b s) {stackaddr : Addr} {n : BitVec 32} {env : AllocEnv}
    (hs : s.step (.call (.create stackaddr n env)) = some s₁) (hnew : t ∉ s.live)
    (hlive : t ∈ s₁.live) {i : Int32} (h0 : 0 ≤ i) (h1 : i < MAX_TASK_LOCALDATAS) :
    ∃ s₂, s₁.step (.call (.getLocaldata t i)) = some s₂ ∧ s₂.log =
      [.ret s.currentTask (.getLocaldata t i) (.word ((s.tcb t).taskLocalStorages i)),
        .ret s.currentTask (.create stackaddr n env) (.task (some t)), .created t] ++ s.log := by
  have hp : s₁.permitted (.call (.getLocaldata t i)) = true :=
    h.created_step hs hnew hlive rfl (by simp [permittedCall, hlive, h0])
  refine ⟨s₁.fiberGetLocaldata t i, if_pos hp, ?_⟩
  obtain ⟨p, -, -, -, -, rfl⟩ := h.create_spawn hs hnew hlive
  have hlt : ¬MAX_TASK_LOCALDATAS ≤ i := Int32.not_le.2 h1
  simp [fiberGetLocaldata, hlt, Sched.ret, Sched.emit, Sched.spawn, newTcb]

/-- Everybody yields until the new task runs, and it asks for its events. -/
theorem Inv.asks_events (h : Inv b s) {stackaddr : Addr} {n : BitVec 32} {env : AllocEnv}
    (hs : s.step (.call (.create stackaddr n env)) = some s₁) (hnew : t ∉ s.live)
    (hlive : t ∈ s₁.live) : ∃ k s₂ s₃,
      (List.replicate k (Move.call .schedYield)).foldlM Sched.step s₁ = some s₂ ∧
        s₂.step (.call anyEvent) = some s₃ ∧ s₂.currentTask = t := by
  have h₁ := h.step hs
  have hp : s₁.permitted (.call .schedYield) = true := h.created_step hs hnew hlive rfl rfl
  have hready : t ∈ s₁.readyTasks := by
    obtain ⟨p, -, -, hne, -, rfl⟩ := h.create_spawn hs hnew hlive
    refine (h₁.mem_readyTasks hne).2 ?_
    change t ∈ insertBefore s.theMaintask t s.readylist
    exact (insertBefore_perm _ _ _).mem_iff.2 List.mem_cons_self
  obtain ⟨k, s₂, hk, ht, hmain⟩ := h₁.comes_to_run hp hready
  have h₂ : Inv b s₂ := (Reach.of_foldlM hk).invariant h₁ fun _ _ _ hi _ hs => hi.step hs
  obtain ⟨s₃, h₃⟩ := h₂.step_some (m := .call anyEvent) (by
    simp [permitted, permittedCall, anyEvent, Call.blocks, ht, hmain])
  exact ⟨k, s₂, s₃, hk, h₃, ht⟩

/-- What the creation and the yields have logged, and the events that the new task has then. -/
theorem Inv.asked_events (h : Inv b s) {stackaddr : Addr} {n : BitVec 32} {env : AllocEnv}
    (hs : s.step (.call (.create stackaddr n env)) = some s₁) (hnew : t ∉ s.live)
    (hlive : t ∈ s₁.live) {k : Nat}
    (hk : (List.replicate k (Move.call .schedYield)).foldlM Sched.step s₁ = some s₂)
    (hask : s₂.step (.call anyEvent) = some s') : ∃ es,
      s'.log = .ret s₂.currentTask anyEvent (.word (s.tcb s₂.currentTask).pendingEvents) :: es ++
        s.log ∧ ∀ u events, .posted u events ∉ es := by
  have h₁ := h.step hs
  have hy := h₁.yielded_run hk
  have h₂ : Inv b s₂ := (Reach.of_foldlM hk).invariant h₁ fun _ _ _ hi _ hs => hi.step hs
  obtain ⟨es, he, hes⟩ := h₂.anyEvent_step hask
  obtain ⟨es', he', hes'⟩ := hy.log
  obtain ⟨p, -, -, -, -, rfl⟩ := h.create_spawn hs hnew hlive
  have hpend : (s₂.tcb s₂.currentTask).pendingEvents = (s.tcb s₂.currentTask).pendingEvents := by
    rw [hy.pendingEvents]
    by_cases hu : s₂.currentTask = t
    · rw [hu]
      simp [Sched.ret, Sched.emit, Sched.spawn, newTcb]
    · simp [Sched.ret, Sched.emit, Sched.spawn, hu]
  refine ⟨es ++ (es' ++
    [.ret s.currentTask (.create stackaddr n env) (.task (some t)), .created t]),
    ?_, fun u events hmem => ?_⟩
  · rw [he, he', hpend]
    simp [Sched.ret, Sched.emit, Sched.spawn]
  · rcases List.mem_append.1 hmem with hmem | hmem
    · exact hes u events hmem
    · rcases List.mem_append.1 hmem with hmem | hmem
      · cases hes' _ hmem
      · simp at hmem

/-- The other state makes the same creation. -/
theorem Inv.create_other (h : Inv b s) (hapart : Apart t s s') {stackaddr : Addr} {n : BitVec 32}
    {env : AllocEnv} (hs : s.step (.call (.create stackaddr n env)) = some s₁) (hnew : t ∉ s.live)
    (hlive : t ∈ s₁.live) : ∃ s₁', s'.step (.call (.create stackaddr n env)) = some s₁' ∧
      t ∉ s'.live ∧ t ∈ s₁'.live := by
  obtain ⟨p, k, slot, -, hs'⟩ := h.create_apart hapart hs hnew hlive
  refine ⟨_, hs', ?_, List.mem_cons_self⟩
  cases hapart
  exact hnew

section

variable {stackaddr : Addr} {n : BitVec 32} {env : AllocEnv} (h : Inv b s) (h' : Inv b' s')
  (hapart : Apart t s s') (hs : s.step (.call (.create stackaddr n env)) = some s₁)
  (hnew : t ∉ s.live) (hlive : t ∈ s₁.live)
  (hind : Independent t s s' (.call (.create stackaddr n env)))
include h h' hapart hs hnew hlive hind

theorem slots_of_independent {i : Int32} (h0 : 0 ≤ i) (h1 : i < MAX_TASK_LOCALDATAS) :
    (s.tcb t).taskLocalStorages i = 0 ∧ (s'.tcb t).taskLocalStorages i = 0 := by
  obtain ⟨s₁', hs', hnew', hlive'⟩ := h.create_other hapart hs hnew hlive
  obtain ⟨s₂, hread, hlog⟩ := h.reads_slot hs hnew hlive h0 h1
  obtain ⟨r, hread', hlog'⟩ := h'.reads_slot hs' hnew' hlive' h0 h1
  obtain ⟨s₂', es, hrun, hes, hes', -, hdata⟩ := hind [.call (.getLocaldata t i)] s₂ (by
    simp [hs, hread])
  obtain rfl : r = s₂' := by simpa [hs', hread'] using hrun
  obtain rfl := List.append_cancel_right (hlog.symm.trans hes)
  have hzero : Ret.word ((s.tcb t).taskLocalStorages i) = .word 0 :=
    hdata [] _ _ _ _ rfl (by simp)
  have hsame := List.append_cancel_right (hlog'.symm.trans hes')
  simp only [Ret.word.injEq] at hzero
  simp only [List.cons.injEq, Ev.ret.injEq, Ret.word.injEq] at hsame
  exact ⟨hzero, hsame.1.2.2.trans hzero⟩

theorem pending_of_independent :
    (s.tcb t).pendingEvents = 0 ∧ (s'.tcb t).pendingEvents = 0 := by
  obtain ⟨s₁', hs', hnew', hlive'⟩ := h.create_other hapart hs hnew hlive
  obtain ⟨k, s₂, s₃, hk, hask, ht⟩ := h.asks_events hs hnew hlive
  obtain ⟨fs, hlog, hposts⟩ := h.asked_events hs hnew hlive hk hask
  obtain ⟨s₃', es, hrun, hes, hes', hevents, -⟩ :=
    hind (List.replicate k (.call .schedYield) ++ [.call anyEvent]) s₃ (by
      simp [hs, List.foldlM_append, hk, hask])
  rw [List.foldlM_cons, hs'] at hrun
  obtain ⟨s₂', hk', hask'⟩ := Option.bind_eq_some_iff.1 ((List.foldlM_append ..).symm.trans hrun)
  obtain ⟨fs', hlog', -⟩ := h'.asked_events hs' hnew' hlive' hk' (by simpa using hask')
  rw [ht] at hlog
  obtain rfl := List.append_cancel_right (hlog.symm.trans hes)
  have hzero : (s.tcb t).pendingEvents = 0 := by
    apply BitVec.eq_of_getLsbD_eq
    intro j hj
    refine (Bool.eq_false_of_not_eq_true fun hbit => ?_).trans BitVec.getLsbD_zero.symm
    obtain ⟨events, hmem, -⟩ := hevents [] _ _ _ _ _ rfl j hbit
    exact hposts t events hmem
  have hsame := (List.cons.inj (List.append_cancel_right (hlog'.symm.trans hes'))).1
  obtain ⟨hcur, -, hword⟩ := Ev.ret.inj hsame
  rw [hcur] at hword
  exact ⟨hzero, (Ret.word.inj hword).trans hzero⟩

end

end

end Sched

/-- **When a new task is independent of what its control block held.** Exactly if no event was
pending there and the local data was 0. -/
theorem independent_iff {b b' : Boot} {s s' s₁ : Sched} {t : TaskId} {stackaddr : Addr}
    {n : BitVec 32} {env : AllocEnv} (h : Reachable b s) (h' : Reachable b' s')
    (hapart : Apart t s s') (hcreate : s.step (.call (.create stackaddr n env)) = some s₁)
    (hnew : t ∉ s.live) (hlive : t ∈ s₁.live) :
    Independent t s s' (.call (.create stackaddr n env)) ↔ Clean (s.tcb t) ∧ Clean (s'.tcb t) := by
  constructor
  · intro hind
    have hevents := pending_of_independent h.inv h'.inv hapart hcreate hnew hlive hind
    have hslots (i : Int32) (h0 : 0 ≤ i) (h1 : i < MAX_TASK_LOCALDATAS) :=
      slots_of_independent h.inv h'.inv hapart hcreate hnew hlive hind h0 h1
    exact ⟨⟨hevents.1, fun i h0 h1 => (hslots i h0 h1).1⟩, hevents.2, fun i h0 h1 =>
      (hslots i h0 h1).2⟩
  · rintro ⟨hc, hc'⟩ ms s₂ hms
    obtain ⟨s₁', hcreate', halike⟩ := h.inv.alike_create hapart hcreate hnew hlive hc hc'
    obtain ⟨es, hes, hevents, hdata⟩ := h.inv.own hnew hc (Reach.of_foldlM hms)
    rw [List.foldlM_cons, hcreate] at hms
    obtain ⟨s₂', hms', halike₂⟩ := Alike.run (h.inv.step hcreate) (h'.inv.step hcreate') halike hms
    refine ⟨s₂', es, ?_, hes, ?_, hevents, hdata⟩
    · rw [List.foldlM_cons, hcreate']
      exact hms'
    · obtain ⟨τ, δ, g, -, -, es', hl, rfl⟩ := halike₂
      rw [List.append_cancel_right (hes.symm.trans hl)]
      rfl

/-! ## Fresh memory, and a block with a past -/

/-- Memory in which the first block that `malloc` will return holds 7 in two fields. -/
def usedBlock : Boot where
  mem := Function.update (fun _ => {}) 100 { yieldCode := 7, waitingEvents := 7 }

theorem apart_usedBlock : Apart 100 (boot {}) (boot usedBlock) := by
  have htcb : (boot usedBlock).tcb = Function.update (boot {}).tcb 100
      { yieldCode := 7, waitingEvents := 7 } := by
    funext u
    by_cases hu : u = 100
    · subst hu
      simp [boot, usedBlock]
    · by_cases hm : u = 0
      · subst hm
        simp [boot, usedBlock]
      · simp [boot, usedBlock, hu, hm]
  have hs : boot usedBlock = (boot {}).withTcbs (Function.update (boot {}).tcb 100
      { yieldCode := 7, waitingEvents := 7 }) (Function.update (boot {}).delta 100 0) [] := by
    rw [← htcb]
    simp [withTcbs, boot, usedBlock]
  rw [hs]
  exact .mk _ _ _

/-- The first task that is created does not see them. -/
theorem usedBlock_independent : ∃ s₁,
    (boot {}).step (newTask 0) = some s₁ ∧ 100 ∈ s₁.live ∧
      (Independent 100 (boot {}) (boot usedBlock) (newTask 0) ↔
        Clean ((boot {}).tcb 100) ∧ Clean ((boot usedBlock).tcb 100)) ∧
      Clean ((boot {}).tcb 100) ∧ Clean ((boot usedBlock).tcb 100) := by
  have hrun : ((boot {}).step (newTask 0)).map
      (fun s => s.live) = some [100, 0] := by decide +kernel
  obtain ⟨s₁, hs, hl⟩ := Option.map_eq_some_iff.1 hrun
  have hlive : 100 ∈ s₁.live := by simp [hl]
  have h : Reachable {} (boot {}) := Reach.refl _
  have h' : Reachable usedBlock (boot usedBlock) := Reach.refl _
  exact ⟨s₁, hs, hlive, independent_iff h h' apart_usedBlock hs (by decide) hlive,
    ⟨rfl, fun _ _ _ => rfl⟩, rfl, fun _ _ _ => rfl⟩

/-- A task posts an event to itself, sets a slot and exits. -/
def pastRun : List Move :=
  newTasks 1 ++ [.schedulerStart, .schedulerPass, .schedulerExhaust,
    .call (.eventPost 100 4), .call (.setLocaldata 100 0 7), .exit, .schedulerExhaust]

/-- The maintask creates a task again and reads its slot, and the new task waits for the event. -/
def againRun : List Move :=
  [.call (.create 0 65536 {}), .call (.getLocaldata 100 0), .schedulerLoopEnd, .schedulerPass,
    .schedulerExhaust, .call (.eventWait 4 0 0)]

/-- What `againRun` logs. -/
def againEvs : List Ev :=
  [.ret 100 (.eventWait 4 0 0) (.word 4), .seize 100 4, .ret 0 (.getLocaldata 100 0) (.word 7),
    .ret 0 (.create 0 65536 {}) (.task (some 100)), .created 100]

theorem not_ownEvents_again : ¬OwnEvents 100 againEvs := fun h => by
  obtain ⟨events, hmem, -⟩ := h [] _ 4 0 0 4 rfl 2 (by decide)
  simp at hmem

theorem not_ownLocaldata_again : ¬OwnLocaldata 100 againEvs := fun h => by
  have hzero : Ret.word 7 = .word 0 :=
    h [.ret 100 (.eventWait 4 0 0) (.word 4), .seize 100 4] _ 0 0 _ rfl (by simp)
  revert hzero
  decide

set_option maxRecDepth 4000 in
/-- The new task gets the slot and the event of the one before it. -/
theorem pastRun_not_independent : ∃ s s₁ s₂, Reachable {} s ∧ 100 ∉ s.live ∧
    s.step (.call (.create 0 65536 {})) = some s₁ ∧ 100 ∈ s₁.live ∧
    againRun.foldlM Sched.step s = some s₂ ∧ s₂.log = againEvs ++ s.log ∧
    ¬OwnEvents 100 againEvs ∧ ¬OwnLocaldata 100 againEvs ∧
    ¬Independent 100 s s (.call (.create 0 65536 {})) := by
  have hrun : ((pastRun.foldlM Sched.step (boot {})).bind fun s =>
      (s.step (.call (.create 0 65536 {}))).bind fun s₁ => (againRun.foldlM Sched.step s).map fun s₂ =>
        (s.live, s₁.live, decide (s₂.log = againEvs ++ s.log))) = some ([0], [100, 0], true) := by
    decide +kernel
  obtain ⟨s, hs, hrun⟩ := Option.bind_eq_some_iff.1 hrun
  obtain ⟨s₁, hs₁, hrun⟩ := Option.bind_eq_some_iff.1 hrun
  obtain ⟨s₂, hs₂, he⟩ := Option.map_eq_some_iff.1 hrun
  simp only [Prod.mk.injEq, decide_eq_true_eq] at he
  obtain ⟨hl, hl₁, hlog⟩ := he
  refine ⟨s, s₁, s₂, Reach.of_foldlM hs, by simp [hl], hs₁, by simp [hl₁], hs₂, hlog,
    not_ownEvents_again, not_ownLocaldata_again, fun hind => ?_⟩
  obtain ⟨_, es, -, hes, -, -, hdata⟩ := hind _ s₂ hs₂
  obtain rfl := List.append_cancel_right (hlog.symm.trans hes)
  exact not_ownLocaldata_again hdata

end Ptask.OneN
