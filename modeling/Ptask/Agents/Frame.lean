import Ptask.Agents.Moves

/-!
# What a task does not do to others

Other tasks and the ticks change where a task is, its state and what it is given; its call, how far
it is with it and everything that it has noted for itself change only in its own steps
(`Inv.passive_step`).
-/

namespace Ptask.Agents

/-- The places in which a call with a timeout has not armed its timer yet. -/
def Pc.begins : Pc → Bool
  | .enter | .arm => true
  | _ => false

/-- The task has made no step of its own, and if `b`, its timer is as before and it has not been made
ready. -/
structure Passive (b : Bool) (x x' : Task) : Prop where
  waitingObject : x'.waitingObject = x.waitingObject
  scheduler : x'.scheduler = x.scheduler
  call : x'.call = x.call
  pc : x'.pc = x.pc
  calls : x'.calls = x.calls
  depth : x'.depth = x.depth
  since : x'.since = x.since
  timer : b = true → x'.state.waitTimeoutb = x.state.waitTimeoutb ∧
    (x'.place = .woken → x.place = .woken)

/-- The task has begun no call. If `o`, it has not noted what it waits for either, nor is it about to
arm its timer; if `b`, its timer is as before and it has not been made ready. -/
structure Keeps (o b : Bool) (x x' : Task) : Prop where
  calls : x'.calls = x.calls
  call : x'.call = x.call ∨ x'.call = none
  noted : o = true →
    x'.waitingObject = x.waitingObject ∧ (x'.pc = x.pc ∨ x'.pc.begins = false)
  timer : b = true → x'.state.waitTimeoutb = x.state.waitTimeoutb ∧
    (x'.place = .woken → x.place = .woken)

/-- The next step inserts or removes a timer or makes a task ready. -/
def Pc.movesOthers : Pc → Bool
  | .arm | .waking .remove .. | .waking .ready .. | .unlock (.ready _) _ => true
  | _ => false

/-- The task that makes the move. -/
def Move.agent : Move → Option TaskId
  | .call t _ | .go t | .resume t _ => some t
  | _ => none

/-- The timer that the tick has taken off the list: its task, and the number of its call. -/
def TickPc.timer : TickPc → Option (TaskId × Nat)
  | .test w n | .object w n | .locked w _ n | .event w n => some (w, n)
  | _ => none

/-- No task has begun a call, and those that satisfy `P` have made no step of their own. -/
structure PassiveOn (o b : Bool) (P : TaskId → Prop) (s s' : Sys) : Prop where
  keeps : ∀ u, Keeps o b (s.task u) (s'.task u)
  passive : ∀ u, P u → Passive b (s.task u) (s'.task u)
  wadoglist : b = true → s'.wadoglist = s.wadoglist
  tick : s'.tick = s.tick

section

variable {s s' s'' : Sys} {o b : Bool} {P : TaskId → Prop} {t u w : TaskId} {pc : Pc} {q : Wait}
  {r : Ret} {f : Task → Task}

theorem Passive.refl (x : Task) : Passive b x x :=
  ⟨rfl, rfl, rfl, rfl, rfl, rfl, rfl, fun _ => ⟨rfl, id⟩⟩

theorem Passive.trans {x x' x'' : Task} (h : Passive b x x') (h' : Passive b x' x'') :
    Passive b x x'' :=
  ⟨h'.1.trans h.1, h'.2.trans h.2, h'.3.trans h.3, h'.4.trans h.4, h'.5.trans h.5, h'.6.trans h.6,
    h'.7.trans h.7, fun hb => ⟨(h'.8 hb).1.trans (h.8 hb).1, fun hw => (h.8 hb).2 ((h'.8 hb).2 hw)⟩⟩

theorem Passive.keeps {x x' : Task} (h : Passive b x x') : Keeps o b x x' :=
  ⟨h.calls, .inl h.call, fun _ => ⟨h.waitingObject, .inl h.pc⟩, h.timer⟩

theorem Passive.put (x : Task) {p : Place} (hp : b = true → p ≠ .woken) : Passive b x (x.put p) :=
  ⟨rfl, rfl, rfl, rfl, rfl, rfl, rfl, fun hb => ⟨rfl, fun hw => absurd hw (hp hb)⟩⟩

theorem Keeps.trans {x x' x'' : Task} (h : Keeps o b x x') (h' : Keeps o b x' x'') :
    Keeps o b x x'' := by
  refine ⟨h'.calls.trans h.calls, ?_, fun ho => ⟨?_, ?_⟩, fun hb => ⟨?_, fun hw => ?_⟩⟩
  · rcases h'.call with hc | hc
    · rw [hc]
      exact h.call
    · exact .inr hc
  · exact (h'.noted ho).1.trans (h.noted ho).1
  · rcases (h'.noted ho).2 with hpc | hpc
    · rw [hpc]
      exact (h.noted ho).2
    · exact .inr hpc
  · exact (h'.timer hb).1.trans (h.timer hb).1
  · exact (h.timer hb).2 ((h'.timer hb).2 hw)

theorem Keeps.goto (x : Task) {pc : Pc} (hpc : o = true → pc.begins = false) :
    Keeps o b x (x.goto pc) :=
  ⟨rfl, .inl rfl, fun ho => ⟨rfl, .inr (hpc ho)⟩, fun _ => ⟨rfl, id⟩⟩

theorem Keeps.join (x : Task) {pc : Pc} (n : Nat) (hpc : o = true → pc.begins = false) :
    Keeps o b x (x.join pc n) :=
  ⟨rfl, .inl rfl, fun ho => ⟨rfl, .inr (hpc ho)⟩, fun _ => ⟨rfl, nofun⟩⟩

theorem Keeps.done (x : Task) : Keeps o b x x.done :=
  ⟨rfl, .inr rfl, fun _ => ⟨rfl, .inr rfl⟩, fun _ => ⟨rfl, id⟩⟩

theorem Keeps.setDepth (x : Task) (m : MutexId) (n : Nat) : Keeps o b x (x.setDepth m n) :=
  ⟨rfl, .inl rfl, fun _ => ⟨rfl, .inl rfl⟩, fun _ => ⟨rfl, id⟩⟩

namespace PassiveOn

/-! ## Operators -/

theorem of_task (ht : s'.task = s.task) (hl : s'.wadoglist = s.wadoglist) (hk : s'.tick = s.tick) :
    PassiveOn o b P s s' :=
  ⟨fun u => by rw [ht]; exact (Passive.refl _).keeps, fun u _ => by rw [ht]; exact .refl _,
    fun _ => hl, hk⟩

/-- A step of a task itself. -/
theorem own (h : PassiveOn o b P s s') (ht : ¬P t) (hf : ∀ x, Keeps o b x (f x)) :
    PassiveOn o b P s (s'.modTask t f) := by
  refine ⟨fun u => ?_, fun u hu => ?_, h.wadoglist, h.tick⟩
  · by_cases hut : u = t
    · subst hut
      refine (h.keeps u).trans ?_
      simpa using hf _
    · simpa [hut] using h.keeps u
  · have hut : u ≠ t := by
      rintro rfl
      exact ht hu
    simpa [hut] using h.passive u hu

/-- A step that only changes what others may change. -/
theorem trans_passive (h : PassiveOn o b P s s') (hx : ∀ u, Passive b (s'.task u) (s''.task u))
    (hl : b = true → s''.wadoglist = s'.wadoglist) (hk : s''.tick = s'.tick) :
    PassiveOn o b P s s'' :=
  ⟨fun u => (h.keeps u).trans (hx u).keeps, fun u hu => (h.passive u hu).trans (hx u),
    fun hb => (hl hb).trans (h.wadoglist hb), hk.trans h.tick⟩

theorem modTask (h : PassiveOn o b P s s') (hf : ∀ x, Passive b x (f x)) :
    PassiveOn o b P s (s'.modTask t f) := by
  refine h.trans_passive (fun u => ?_) (fun _ => rfl) rfl
  by_cases hut : u = t
  · subst hut
    simpa using hf _
  · simpa [hut] using .refl _

theorem emit {e : Ev} (h : PassiveOn o b P s s') : PassiveOn o b P s (s'.emit e) :=
  ⟨h.keeps, h.passive, h.wadoglist, h.tick⟩

theorem unlink (h : PassiveOn o b P s s') : PassiveOn o b P s (s'.unlink w) :=
  ⟨h.keeps, h.passive, h.wadoglist, h.tick⟩

theorem wake (h : PassiveOn o false P s s') :
    PassiveOn o false P s (s'.modTask w fun x => x.put .woken) :=
  h.modTask fun x => .put x nofun

theorem expire (h : PassiveOn o false P s s') : PassiveOn o false P s (s'.expire w) := h.wake.emit

theorem take {ws : List TaskId} (h : PassiveOn o b P s s') (hf : ∀ x, Passive b x (f x)) :
    PassiveOn o b P s (s'.take t ws f) := by
  refine h.trans_passive (fun u => ?_) (fun _ => rfl) rfl
  by_cases huw : u ∈ ws
  · simp only [Sys.take_task, huw, if_true]
    exact (hf _).trans (.put _ fun _ => nofun)
  · simp only [Sys.take_task, huw, if_false]
    exact .refl _

theorem goto (h : PassiveOn o b P s s') (ht : ¬P t) (hpc : o = true → pc.begins = false) :
    PassiveOn o b P s (s'.goto t pc) :=
  h.own ht fun x => .goto x hpc

theorem block (h : PassiveOn o b P s s') (ht : ¬P t) (hpc : o = true → pc.begins = false)
    (hf : ∀ x, Keeps o b x (f x)) : PassiveOn o b P s (s'.block t q pc f) :=
  .emit (.own h ht fun x => (hf x).trans (.join (f x) _ hpc))

theorem ret (h : PassiveOn o b P s s') (ht : ¬P t) : PassiveOn o b P s (s'.ret t r) := by
  unfold Sys.ret
  split
  · exact .emit (.own h ht .done)
  · exact h

theorem setDepth {m : MutexId} {n : Task → Nat} (h : PassiveOn o b P s s') (ht : ¬P t) :
    PassiveOn o b P s (s'.modTask t fun x => x.setDepth m (n x)) :=
  h.own ht fun x => .setDepth x m (n x)

theorem finishLock {m : MutexId} (h : PassiveOn o b P s s') (ht : ¬P t) :
    PassiveOn o b P s (s'.finishLock t m) := by
  unfold Sys.finishLock
  dsimp only
  split <;> exact (h.setDepth ht).ret ht

theorem finishUnlock {v : Bool} (h : PassiveOn o b P s s') (ht : ¬P t) :
    PassiveOn o b P s (s'.finishUnlock t v) := by
  unfold Sys.finishUnlock
  split
  · exact h.ret ht
  · exact h.goto ht fun _ => rfl

theorem fiberWatchdogInsert : PassiveOn o false P s (s.fiberWatchdogInsert t) := by
  refine .trans_passive (.of_task rfl rfl rfl) (fun u => ?_) nofun (by simp)
  rw [Sys.fiberWatchdogInsert_task]
  exact ⟨rfl, rfl, rfl, rfl, rfl, rfl, rfl, nofun⟩

theorem fiberWatchdogRemove : PassiveOn o false P s (s.fiberWatchdogRemove t) := by
  refine .trans_passive (.of_task rfl rfl rfl) (fun u => ?_) nofun (by simp)
  rw [Sys.fiberWatchdogRemove_task]
  exact ⟨rfl, rfl, rfl, rfl, rfl, rfl, rfl, nofun⟩

end PassiveOn

/-! ## Steps -/

namespace Sys

theorem passive_enter {c : Call} (ht : ¬P t) : PassiveOn false b P s (s.enter t c) := by
  have hk : PassiveOn false b P s s := .of_task rfl rfl rfl
  cases c with
  | semWait i =>
    simp only [enter]
    split
    · exact .ret (.of_task rfl rfl rfl) ht
    · refine .block (.of_task rfl rfl rfl) ht nofun fun _ => ?_
      exact ⟨rfl, .inl rfl, nofun, fun _ => ⟨rfl, id⟩⟩
  | semTimedwait i timeout =>
    simp only [enter]
    split
    · exact .ret (.of_task rfl rfl rfl) ht
    · split
      · exact .ret (.of_task rfl rfl rfl) ht
      · refine .block (.of_task rfl rfl rfl) ht nofun fun _ => ?_
        exact ⟨rfl, .inl rfl, nofun, fun _ => ⟨rfl, id⟩⟩
  | semPost i =>
    simp only [enter]
    split
    · exact .ret (.of_task rfl rfl rfl) ht
    · refine .goto (.take (.of_task rfl rfl rfl) fun _ => ?_) ht nofun
      exact ⟨rfl, rfl, rfl, rfl, rfl, rfl, rfl, fun _ => ⟨rfl, id⟩⟩
  | condWait c m =>
    refine .block (.of_task rfl rfl rfl) ht nofun fun _ => ?_
    exact ⟨rfl, .inl rfl, nofun, fun _ => ⟨rfl, id⟩⟩
  | condTimedwait c m timeout =>
    simp only [enter]
    split
    · exact hk.ret ht
    · refine .block (.of_task rfl rfl rfl) ht nofun fun _ => ?_
      exact ⟨rfl, .inl rfl, nofun, fun _ => ⟨rfl, id⟩⟩
  | condSignal c | condBroadcast c =>
    simp only [enter]
    split
    · exact hk.ret ht
    · refine .goto (.take (.of_task rfl rfl rfl) fun _ => ?_) ht nofun
      exact ⟨rfl, rfl, rfl, rfl, rfl, rfl, rfl, fun _ => ⟨rfl, id⟩⟩
  | eventWait eventsIn options timeout =>
    simp only [enter]
    split
    · exact .ret (.own hk ht fun _ => ⟨rfl, .inl rfl, nofun, fun _ => ⟨rfl, id⟩⟩) ht
    · split
      · exact hk.ret ht
      · exact .block hk ht nofun fun _ => ⟨rfl, .inl rfl, nofun, fun _ => ⟨rfl, id⟩⟩
  | eventPost w eventsIn =>
    have hm : PassiveOn false b P s (s.modTask w fun x =>
        { x with pendingEvents := x.pendingEvents ||| eventsIn }) :=
      hk.modTask fun _ => ⟨rfl, rfl, rfl, rfl, rfl, rfl, rfl, fun _ => ⟨rfl, id⟩⟩
    simp only [enter]
    split
    · refine .goto (.take hm fun _ => ?_) ht nofun
      exact ⟨rfl, rfl, rfl, rfl, rfl, rfl, rfl, fun _ => ⟨rfl, id⟩⟩
    · exact hm.ret ht
  | _ => exact hk

theorem passive_mutexLock {m : MutexId} {p : LockPc} (hs : s.mutexLock t m p = some s')
    (ht : ¬P t) : PassiveOn o b P s s' := by
  cases p with
  | test =>
    obtain rfl := Option.some.inj hs
    exact .goto (.of_task rfl rfl rfl) ht fun _ => rfl
  | nest | own =>
    obtain rfl := Option.some.inj hs
    exact .finishLock (.of_task rfl rfl rfl) ht
  | section_ =>
    simp only [mutexLock] at hs
    split at hs
    · obtain rfl := Option.some.inj hs
      exact .goto (.of_task rfl rfl rfl) ht fun _ => rfl
    · obtain rfl := Option.some.inj hs
      refine .block (.of_task rfl rfl rfl) ht (fun _ => rfl) fun _ => ?_
      exact ⟨rfl, .inl rfl, fun _ => ⟨rfl, .inl rfl⟩, fun _ => ⟨rfl, id⟩⟩
  | parked => cases hs

theorem passive_mutexUnlock {m : MutexId} {p : UnlockPc}
    (hb : b = true → (Pc.unlock p m).movesOthers = false) (ht : ¬P t) :
    PassiveOn o b P s (s.mutexUnlock t m p) := by
  have hk : PassiveOn o b P s s := .of_task rfl rfl rfl
  cases p with
  | test =>
    simp only [mutexUnlock]
    split
    · exact hk.finishUnlock ht
    · exact hk.goto ht fun _ => rfl
  | dec | reent w => exact .goto (.of_task rfl rfl rfl) ht fun _ => rfl
  | retest =>
    simp only [mutexUnlock]
    split
    · exact .finishUnlock (hk.setDepth ht) ht
    · exact hk.goto ht fun _ => rfl
  | release =>
    have hd : PassiveOn o b P s ((s.modMutex m fun p => { p with
        waitq := p.waitq.tail, holder := (s.mutex m).waitq.head? }).modTask t fun x =>
          x.setDepth m (x.depth m - 1)) := .setDepth (.of_task rfl rfl rfl) ht
    simp only [mutexUnlock]
    split
    · exact hd.finishUnlock ht
    · exact .goto (.take hd fun _ => .refl _) ht fun _ => rfl
  | clear w =>
    refine .goto (.modTask hk fun _ => ?_) ht fun _ => rfl
    exact ⟨rfl, rfl, rfl, rfl, rfl, rfl, rfl, fun _ => ⟨rfl, id⟩⟩
  | ready w =>
    cases b with
    | false => exact .finishUnlock (.emit hk.wake) ht
    | true => cases hb rfl

theorem passive_wake {rest : List TaskId} {p : WakePc} (hs : s.wake t w rest p = some s')
    (hb : b = true → (Pc.waking p w rest).movesOthers = false) (ht : ¬P t) :
    PassiveOn o b P s s' := by
  have hk : PassiveOn o b P s s := .of_task rfl rfl rfl
  cases p with
  | spin =>
    simp only [wake] at hs
    split at hs
    · cases hs
    · obtain rfl := Option.some.inj hs
      exact hk.goto ht fun _ => rfl
  | test =>
    obtain rfl := Option.some.inj hs
    exact hk.goto ht fun _ => rfl
  | remove =>
    cases b with
    | false =>
      simp only [wake] at hs
      split at hs
      · obtain rfl := Option.some.inj hs
        exact .goto .fiberWatchdogRemove ht fun _ => rfl
      · cases hs
    | true => cases hb rfl
  | ready =>
    cases b with
    | false =>
      have hw : PassiveOn o false P s ((s.modTask w fun x => x.put .woken).emit (.woken t w)) :=
        .emit hk.wake
      cases rest with
      | nil =>
        obtain rfl := Option.some.inj hs
        exact hw.ret ht
      | cons w' rest =>
        obtain rfl := Option.some.inj hs
        exact hw.goto ht fun _ => rfl
    | true => cases hb rfl

theorem passive_go (hs : s.go t = some s') (ho : o = true → (s.task t).pc ≠ .enter)
    (hb : b = true → (s.task t).pc.movesOthers = false) (ht : ¬P t) : PassiveOn o b P s s' := by
  have hk : PassiveOn o b P s s := .of_task rfl rfl rfl
  unfold go at hs
  dsimp only at hs
  split at hs
  · cases hs
  · cases hs
  · next hpc =>
    obtain ⟨c, -, rfl⟩ := Option.map_eq_some_iff.1 hs
    cases o with
    | false => exact passive_enter ht
    | true => exact absurd hpc (ho rfl)
  · next hpc =>
    obtain rfl := Option.some.inj hs
    cases b with
    | false =>
      refine .goto .fiberWatchdogInsert ht fun _ => ?_
      unfold afterArm
      split <;> rfl
    | true =>
      rw [hpc] at hb
      cases hb rfl
  · obtain rfl := Option.some.inj hs
    refine .own hk ht fun x => ⟨rfl, .inl rfl, fun _ => ⟨rfl, .inr ?_⟩, fun _ => ⟨rfl, id⟩⟩
    change (afterArmed x.call).begins = false
    unfold afterArmed
    split <;> rfl
  · obtain rfl := Option.some.inj hs
    refine .block hk ht (fun _ => rfl) fun _ => ?_
    exact ⟨rfl, .inl rfl, fun _ => ⟨rfl, .inl rfl⟩, fun _ => ⟨rfl, id⟩⟩
  · exact passive_mutexLock hs ht
  · next hpc =>
    obtain rfl := Option.some.inj hs
    exact passive_mutexUnlock (hpc ▸ hb) ht
  · next hpc => exact passive_wake hs (hpc ▸ hb) ht

theorem passive_resume {k : ThreadId}
    (hs : (s.modTask t fun x => { x with scheduler := k }).resume t = some s') (ht : ¬P t) :
    PassiveOn o b P s s' := by
  have hk : PassiveOn o b P s ((s.modTask t fun x => { x with scheduler := k }).modTask t
      fun x => x.put .runs) := by
    refine .own (.own (.of_task rfl rfl rfl) ht fun _ => ?_) ht fun _ => ?_
    · exact ⟨rfl, .inl rfl, fun _ => ⟨rfl, .inl rfl⟩, fun _ => ⟨rfl, id⟩⟩
    · exact ⟨rfl, .inl rfl, fun _ => ⟨rfl, .inl rfl⟩, fun _ => ⟨rfl, nofun⟩⟩
  unfold resume at hs
  dsimp only at hs
  split at hs
  · split at hs
    · obtain rfl := Option.some.inj hs
      exact hk.finishLock ht
    · obtain rfl := Option.some.inj hs
      exact hk.goto ht fun _ => rfl
    · obtain rfl := Option.some.inj hs
      exact hk.goto ht fun _ => rfl
    all_goals
      first
      | obtain rfl := Option.some.inj hs
        exact hk.ret ht
      | cases hs
  · cases hs

/-- The task whose wait the next step of the tick ends, and the number of the call in which the timer
was armed. -/
def expires (s : Sys) (k : ThreadId) : Option (TaskId × Nat) :=
  match s.tick k with
  | .test w n =>
    let st := (s.task w).state
    if st.waitforSemph || st.waitforCondv || st.waitforEvent then none
    else if st.inUsleep then some (w, n) else none
  | .locked w _ n =>
    let st := (s.task w).state
    if st.waitforSemph || st.waitforCondv then some (w, n) else none
  | .event w n => if (s.task w).state.waitforEvent then some (w, n) else none
  | _ => none

/-- What a tick that ends no wait goes on to do. -/
structure TickGoes (s : Sys) (k : ThreadId) (p : TickPc) : Prop where
  timer : p.timer = none ∨ p.timer = (s.tick k).timer
  object : ∀ w o n, p = .locked w o n → (s.task w).waitingObject = some o

/-- The step of a tick makes at most one task ready. -/
theorem passive_tickGo {k : ThreadId} (hs : s.tickGo k = some s') :
    (∃ p, s' = s.setTick k p ∧ s.TickGoes k p) ∨ ∃ s₁ w n, s.expires k = some (w, n) ∧
      PassiveOn o b P s s₁ ∧ s' = (s₁.expire w).setTick k .pass := by
  have hk : PassiveOn o b P s s := .of_task rfl rfl rfl
  have hpass : s.TickGoes k .pass := ⟨.inl rfl, nofun⟩
  unfold tickGo at hs
  dsimp only at hs
  unfold expires
  split at hs
  · cases hs
  · cases hs
  · next w n htick =>
    split at hs
    · exact .inl ⟨_, (Option.some.inj hs).symm, .inr (by rw [htick]; rfl), nofun⟩
    · next h1 =>
      split at hs
      · exact .inl ⟨_, (Option.some.inj hs).symm, .inr (by rw [htick]; rfl), nofun⟩
      · next h2 =>
        split at hs
        · next h3 =>
          refine .inr ⟨_, w, n, by simp_all, .modTask hk fun _ => ?_, (Option.some.inj hs).symm⟩
          exact ⟨rfl, rfl, rfl, rfl, rfl, rfl, rfl, fun _ => ⟨rfl, id⟩⟩
        · exact .inl ⟨_, (Option.some.inj hs).symm, hpass⟩
  · next w n htick =>
    obtain ⟨o, ho, rfl⟩ := Option.map_eq_some_iff.1 hs
    refine .inl ⟨_, rfl, .inr (by rw [htick]; rfl), fun w' o' n' he => ?_⟩
    cases he
    exact ho
  · next w o n htick =>
    split at hs
    · next h1 =>
      refine .inr ⟨_, w, n, by simp_all, .unlink (.modTask hk fun _ => ?_),
        (Option.some.inj hs).symm⟩
      exact ⟨rfl, rfl, rfl, rfl, rfl, rfl, rfl, fun _ => ⟨rfl, id⟩⟩
    · exact .inl ⟨_, (Option.some.inj hs).symm, hpass⟩
  · next w n htick =>
    split at hs
    · next h1 =>
      refine .inr ⟨_, w, n, by simp_all, .modTask hk fun _ => ?_, (Option.some.inj hs).symm⟩
      exact ⟨rfl, rfl, rfl, rfl, rfl, rfl, rfl, fun _ => ⟨rfl, id⟩⟩
    · exact .inl ⟨_, (Option.some.inj hs).symm, hpass⟩

/-- **A step changes nothing that other tasks have noted for themselves.** -/
theorem passive_step {mv : Move} (hs : s.step mv = some s') (hu : mv.agent ≠ some u) :
    Passive false (s.task u) (s'.task u) := by
  cases mv with
  | call t c =>
    have hut : u ≠ t := fun e => hu (e ▸ rfl)
    simp only [step] at hs
    split at hs
    · obtain rfl := Option.some.inj hs
      simpa [hut] using .refl _
    · cases hs
  | go t =>
    simp only [step] at hs
    split at hs
    · exact (passive_go (o := false) (b := false) (P := fun u => u ≠ t) hs (by rintro ⟨⟩) (by rintro ⟨⟩)
        (not_not.2 rfl)).passive u fun e => hu (e ▸ rfl)
    · cases hs
  | resume t k =>
    simp only [step] at hs
    split at hs
    · exact (passive_resume (o := false) (P := fun u => u ≠ t) hs (not_not.2 rfl)).passive u
        fun e => hu (e ▸ rfl)
    · cases hs
  | tickle k | tickEnd k =>
    simp only [step] at hs
    split at hs
    · obtain rfl := Option.some.inj hs
      exact .refl _
    · cases hs
  | timer k w =>
    simp only [step] at hs
    split at hs
    · obtain rfl := Option.some.inj hs
      by_cases huw : u = w
      · subst huw
        simpa using ⟨rfl, rfl, rfl, rfl, rfl, rfl, rfl, (by rintro ⟨⟩)⟩
      · simpa [huw] using .refl _
    · cases hs
  | tickGo k =>
    rcases passive_tickGo (o := false) (b := false) (P := fun _ => True) hs with
      ⟨p, rfl, -⟩ | ⟨s₁, w, n, -, h, rfl⟩
    · exact .refl _
    · exact h.expire.passive u trivial

/-- A task that goes on is in the same call until it returns. -/
theorem keeps_go (hs : s.go t = some s') (ho : o = true → (s.task t).pc ≠ .enter) :
    Keeps o false (s.task t) (s'.task t) :=
  (passive_go (b := false) (P := fun u => u ≠ t) hs ho nofun (not_not.2 rfl)).keeps t

theorem keeps_resume {k : ThreadId}
    (hs : (s.modTask t fun x => { x with scheduler := k }).resume t = some s') :
    Keeps true true (s.task t) (s'.task t) :=
  (passive_resume (P := fun u => u ≠ t) hs (not_not.2 rfl)).keeps t

end Sys

end

end Ptask.Agents
