import Ptask.Agents.Frame

/-!
# The timers

A timer is on the list of one thread at most, and only while its task is in the call that armed it
(`TimersOk`). A tick takes a timer off its list before it looks at the task, so that by then the task
may be in another call; `calls` tells whether it is. As long as every tick that ends a wait does so
in the call whose timer it has taken (`Sys.punctual`), it only ends waits with a timeout, in the queue
of the object that it has locked (`TimersOk.fired_of_expires`, `TimersOk.locked_object`).
-/

namespace Ptask.Agents

open Ptask.Lib

/-- What the call notes in `waitingObject`. -/
def Call.object : Call → Option Obj
  | .semTimedwait i _ => some (.sem i)
  | .condTimedwait c _ _ => some (.cond c)
  | _ => none

/-- The places in which a task can have a timer. -/
def Pc.timing : Pc → Bool
  | .armed | .doze | .parked | .unlock .. => true
  | _ => false

/-- The task can have a timer: it is in a call with a timeout and has not been made ready. -/
structure Timing (x : Task) : Prop where
  pc : x.pc.timing = true
  place : x.place ≠ .woken
  call : ∀ c, x.call = some c → c.timed = true

/-- The timer of the call has been armed and is on no list any more. -/
structure Fired (x : Task) : Prop where
  bit : x.state.waitTimeoutb = false
  pc : x.pc.begins = false
  call : ∀ c, x.call = some c → c.timed = true

/-- The invariant. -/
structure TimersOk (s : Sys) : Prop where
  nodup : ∀ k, (s.wadoglist k).Nodup
  bit : ∀ k, ∀ w ∈ s.wadoglist k, (s.task w).state.waitTimeoutb = true
  unique : ∀ k k' w, w ∈ s.wadoglist k → w ∈ s.wadoglist k' → k = k'
  timing : ∀ w, (s.task w).state.waitTimeoutb = true → Timing (s.task w)
  arming : ∀ w, (s.task w).pc = .arm → (s.task w).place ≠ .woken
  settled : ∀ p q w rest, (s.task p).pc = .waking q w rest → q ≠ .spin → (s.task w).pc ≠ .arm
  ready : ∀ p w rest, (s.task p).pc = .waking .ready w rest →
    (s.task w).state.waitTimeoutb = false
  held : ∀ k w n, (s.tick k).timer = some (w, n) → n ≤ (s.task w).calls
  fired : ∀ k w n, (s.tick k).timer = some (w, n) → (s.task w).calls = n → Fired (s.task w)
  object : ∀ k w o n, s.tick k = .locked w o n → (s.task w).calls = n →
    (s.task w).waitingObject = some o
  noted : ∀ t c o, (s.task t).call = some c → c.object = some o → (s.task t).pc ≠ .enter →
    (s.task t).waitingObject = some o

section

variable {s s' : Sys} {t u w : TaskId} {c : Call} {m : MutexId} {k : ThreadId} {n : Nat}

/-! ## Steps of a task that leave the timers alone -/

/-- The timers stay on their lists while tasks go on. -/
theorem TimersOk.passiveOn {P : TaskId → Prop} (h : TimersOk s) (hp : PassiveOn false true P s s')
    (htiming : ∀ t, ¬P t → (s.task t).state.waitTimeoutb = true → Timing (s'.task t))
    (harming : ∀ t, ¬P t → (s'.task t).pc = .arm →
      (s'.task t).place ≠ .woken ∧ ∀ p, t ∉ (s.task p).pc.held)
    (hfired : ∀ t, ¬P t → Fired (s.task t) →
      Fired (s'.task t) ∧ (s'.task t).waitingObject = (s.task t).waitingObject)
    (hnoted : ∀ t, ¬P t → ∀ c o, (s'.task t).call = some c → c.object = some o →
      (s'.task t).pc ≠ .enter → (s'.task t).waitingObject = some o)
    (hwaking : ∀ t, ¬P t → ∀ q w rest, (s'.task t).pc = .waking q w rest → q ≠ .spin →
      (s.task w).pc ≠ .arm ∧ P w ∧ (q = .ready → (s.task w).state.waitTimeoutb = false)) :
    TimersOk s' := by
  have hbit (u : TaskId) : (s'.task u).state.waitTimeoutb = (s.task u).state.waitTimeoutb :=
    ((hp.keeps u).timer rfl).1
  have hcalls (u : TaskId) : (s'.task u).calls = (s.task u).calls := (hp.keeps u).calls
  have hlist := hp.wadoglist rfl
  have hf (u : TaskId) (hu : Fired (s.task u)) :
      Fired (s'.task u) ∧ (s'.task u).waitingObject = (s.task u).waitingObject := by
    by_cases hut : P u
    · have hx := hp.passive u hut
      exact ⟨⟨(hbit u).trans hu.bit, hx.pc ▸ hu.pc, hx.call ▸ hu.call⟩, hx.waitingObject⟩
    · exact hfired u hut hu
  refine ⟨fun k => hlist ▸ h.nodup k, fun k w hw => ?_, fun k k' w hk hk' => ?_, fun w hw => ?_,
    fun w hw => ?_, fun p q w rest hpc hq => ?_, fun p w rest hpc => ?_, fun k w n hk => ?_,
    fun k w n hk hn => ?_, fun k w o n hk hn => ?_, fun u c o hc ho hpc => ?_⟩
  · rw [hlist] at hw
    rw [hbit]
    exact h.bit k w hw
  · rw [hlist] at hk hk'
    exact h.unique k k' w hk hk'
  · rw [hbit] at hw
    by_cases hwt : P w
    · have hx := hp.passive w hwt
      have hold := h.timing w hw
      exact ⟨hx.pc ▸ hold.pc, fun hpl => hold.place ((hx.timer rfl).2 hpl), hx.call ▸ hold.call⟩
    · exact htiming w hwt hw
  · by_cases hwt : P w
    · have hx := hp.passive w hwt
      exact fun hpl => h.arming w (hx.pc ▸ hw) ((hx.timer rfl).2 hpl)
    · exact (harming w hwt hw).1
  · by_cases hpt : P p
    · rw [(hp.passive p hpt).pc] at hpc
      by_cases hwt : P w
      · rw [(hp.passive w hwt).pc]
        exact h.settled p q w rest hpc hq
      · intro harm
        exact (harming w hwt harm).2 p (by rw [hpc]; exact List.mem_cons_self)
    · obtain ⟨harm, hwp, -⟩ := hwaking p hpt q w rest hpc hq
      rw [(hp.passive w hwp).pc]
      exact harm
  · rw [hbit]
    by_cases hpt : P p
    · exact h.ready p w rest ((hp.passive p hpt).pc ▸ hpc)
    · exact (hwaking p hpt _ w rest hpc nofun).2.2 rfl
  · rw [hp.tick] at hk
    rw [hcalls]
    exact h.held k w n hk
  · rw [hp.tick] at hk
    rw [hcalls] at hn
    exact (hf w (h.fired k w n hk hn)).1
  · rw [hp.tick] at hk
    rw [hcalls] at hn
    rw [(hf w (h.fired k w n (by rw [hk]; rfl) hn)).2]
    exact h.object k w o n hk hn
  · by_cases hut : P u
    · have hx := hp.passive u hut
      rw [hx.waitingObject]
      exact h.noted u c o (hx.call ▸ hc) ho (hx.pc ▸ hpc)
    · exact hnoted u hut c o hc ho hpc

/-- A timer stays on its list while its task goes on. -/
theorem TimersOk.own (h : TimersOk s) (hp : PassiveOn false true (fun u => u ≠ t) s s')
    (htiming : (s.task t).state.waitTimeoutb = true → Timing (s'.task t))
    (harming : (s'.task t).pc = .arm →
      (s'.task t).place ≠ .woken ∧ ∀ p, t ∉ (s.task p).pc.held)
    (hfired : Fired (s.task t) →
      Fired (s'.task t) ∧ (s'.task t).waitingObject = (s.task t).waitingObject)
    (hnoted : ∀ c o, (s'.task t).call = some c → c.object = some o → (s'.task t).pc ≠ .enter →
      (s'.task t).waitingObject = some o)
    (hwaking : ∀ q w rest, (s'.task t).pc = .waking q w rest → q ≠ .spin →
      (s.task w).pc ≠ .arm ∧ w ≠ t ∧ (q = .ready → (s.task w).state.waitTimeoutb = false)) :
    TimersOk s' := by
  refine h.passiveOn hp ?_ ?_ ?_ ?_ ?_ <;> (intro u hu; obtain rfl := not_not.1 hu) <;> assumption

/-- A task that has no timer and is not about to arm one is made ready. -/
theorem TimersOk.wake (h : TimersOk s) (hb : (s.task w).state.waitTimeoutb = false)
    (hpc : (s.task w).pc ≠ .arm) : TimersOk (s.modTask w fun x => x.put .woken) := by
  have hx (u : TaskId) : Passive false (s.task u) ((s.modTask w fun x => x.put .woken).task u) ∧
      ((s.modTask w fun x => x.put .woken).task u).state = (s.task u).state := by
    by_cases hu : u = w
    · subst hu
      simpa using Passive.put (b := false) (s.task u) nofun
    · simpa [hu] using .refl _
  have hplace (u : TaskId) (hu : u ≠ w) :
      ((s.modTask w fun x => x.put .woken).task u).place = (s.task u).place := by simp [hu]
  refine ⟨h.nodup, fun k u hu => ?_, h.unique, fun u hu => ?_, fun u hu => ?_,
    fun p q u rest hp hq => ?_, fun p u rest hp => ?_, fun k u n hk => ?_, fun k u n hk hn => ?_,
    fun k u o n hk hn => ?_, fun u c o hc ho hpc => ?_⟩
  · rw [(hx u).2]
    exact h.bit k u hu
  · rw [(hx u).2] at hu
    have huw : u ≠ w := by
      rintro rfl
      rw [hb] at hu
      cases hu
    have hold := h.timing u hu
    exact ⟨(hx u).1.pc ▸ hold.pc, hplace u huw ▸ hold.place, (hx u).1.call ▸ hold.call⟩
  · rw [(hx u).1.pc] at hu
    have huw : u ≠ w := by
      rintro rfl
      exact hpc hu
    exact hplace u huw ▸ h.arming u hu
  · rw [(hx u).1.pc]
    exact h.settled p q u rest ((hx p).1.pc ▸ hp) hq
  · rw [(hx u).2]
    exact h.ready p u rest ((hx p).1.pc ▸ hp)
  · rw [(hx u).1.calls]
    exact h.held k u n hk
  · rw [(hx u).1.calls] at hn
    have hold := h.fired k u n hk hn
    exact ⟨(hx u).2 ▸ hold.bit, (hx u).1.pc ▸ hold.pc, (hx u).1.call ▸ hold.call⟩
  · rw [(hx u).1.calls] at hn
    rw [(hx u).1.waitingObject]
    exact h.object k u o n hk hn
  · rw [(hx u).1.waitingObject]
    exact h.noted u c o ((hx u).1.call ▸ hc) ho ((hx u).1.pc ▸ hpc)

/-- A timer is taken off its list. -/
theorem TimersOk.clear (h : TimersOk s)
    (ht : s'.task = fun u => (s.task u).setTimeoutb ((s.task u).state.waitTimeoutb && decide (u ≠ w)))
    (htick : s'.tick = s.tick) (hnd : ∀ k, (s'.wadoglist k).Nodup)
    (hmem : ∀ k u, u ∈ s'.wadoglist k ↔ u ∈ s.wadoglist k ∧ u ≠ w) : TimersOk s' := by
  have hbit (u : TaskId) : (s'.task u).state.waitTimeoutb =
      ((s.task u).state.waitTimeoutb && decide (u ≠ w)) := by rw [ht]; rfl
  have hpc (u : TaskId) : (s'.task u).pc = (s.task u).pc := by rw [ht]; rfl
  have hplace (u : TaskId) : (s'.task u).place = (s.task u).place := by rw [ht]; rfl
  have hcall (u : TaskId) : (s'.task u).call = (s.task u).call := by rw [ht]; rfl
  have hcalls (u : TaskId) : (s'.task u).calls = (s.task u).calls := by rw [ht]; rfl
  have hobj (u : TaskId) : (s'.task u).waitingObject = (s.task u).waitingObject := by rw [ht]; rfl
  refine ⟨hnd, fun k u hu => ?_, fun k k' u hk hk' => ?_, fun u hu => ?_, fun u hu => ?_,
    fun p q u rest hp hq => ?_, fun p u rest hp => ?_, fun k u n hk => ?_, fun k u n hk hn => ?_,
    fun k u o n hk hn => ?_, fun u c o hc ho hu => ?_⟩
  · obtain ⟨hu, hne⟩ := (hmem k u).1 hu
    rw [hbit, h.bit k u hu]
    simpa using hne
  · exact h.unique k k' u ((hmem k u).1 hk).1 ((hmem k' u).1 hk').1
  · rw [hbit, Bool.and_eq_true] at hu
    have hold := h.timing u hu.1
    exact ⟨hpc u ▸ hold.pc, hplace u ▸ hold.place, hcall u ▸ hold.call⟩
  · exact hplace u ▸ h.arming u (hpc u ▸ hu)
  · exact hpc u ▸ h.settled p q u rest (hpc p ▸ hp) hq
  · rw [hbit, h.ready p u rest (hpc p ▸ hp), Bool.false_and]
  · rw [htick] at hk
    exact hcalls u ▸ h.held k u n hk
  · rw [htick] at hk
    have hold := h.fired k u n hk (hcalls u ▸ hn)
    exact ⟨by rw [hbit, hold.bit, Bool.false_and], hpc u ▸ hold.pc, hcall u ▸ hold.call⟩
  · rw [htick] at hk
    exact hobj u ▸ h.object k u o n hk (hcalls u ▸ hn)
  · exact hobj u ▸ h.noted u c o (hcall u ▸ hc) ho (hpc u ▸ hu)

theorem TimersOk.fiberWatchdogRemove (h : TimersOk s) : TimersOk (s.fiberWatchdogRemove w) := by
  refine h.clear (w := w) (s.fiberWatchdogRemove_task w) (by simp) (fun k => ?_) fun k u => ?_
  · unfold Sys.fiberWatchdogRemove
    split
    · exact (h.nodup k).erase w
    · exact h.nodup k
  · unfold Sys.fiberWatchdogRemove
    split
    · exact (h.nodup k).mem_erase_iff.trans and_comm
    · next hb =>
      refine ⟨fun hu => ⟨hu, ?_⟩, And.left⟩
      rintro rfl
      exact hb (h.bit k u hu)

/-- The tick goes on. -/
theorem TimersOk.setTick {p : TickPc} (h : TimersOk s)
    (ht : ∀ w n, p.timer = some (w, n) →
      n ≤ (s.task w).calls ∧ ((s.task w).calls = n → Fired (s.task w)))
    (ho : ∀ w o n, p = .locked w o n → (s.task w).calls = n →
      (s.task w).waitingObject = some o) : TimersOk (s.setTick k p) := by
  refine ⟨h.nodup, h.bit, h.unique, h.timing, h.arming, h.settled, h.ready, fun k' w n hk => ?_,
    fun k' w n hk hn => ?_, fun k' w o n hk hn => ?_, h.noted⟩ <;>
  · rw [Sys.setTick_tick] at hk
    by_cases hkk : k' = k
    · subst hkk
      rw [Function.update_self] at hk
      first
      | exact (ht w n hk).1
      | exact (ht w n hk).2 hn
      | exact ho w o n hk hn
    · rw [Function.update_of_ne hkk] at hk
      first
      | exact h.held k' w n hk
      | exact h.fired k' w n hk hn
      | exact h.object k' w o n hk hn

theorem TimersOk.emit {e : Ev} (h : TimersOk s) : TimersOk (s.emit e) :=
  ⟨h.nodup, h.bit, h.unique, h.timing, h.arming, h.settled, h.ready, h.held, h.fired, h.object,
    h.noted⟩

theorem Timing.keeps {o : Bool} {x x' : Task} (h : Timing x) (hk : Keeps o true x x')
    (hpc : x'.pc.timing = true) : Timing x' := by
  refine ⟨hpc, fun hp => h.place ((hk.timer rfl).2 hp), fun c hc => ?_⟩
  rcases hk.call with he | he
  · exact h.call c (he ▸ hc)
  · rw [hc] at he
    cases he

/-- The steps of a task that has noted what it waits for. -/
theorem TimersOk.goes (h : TimersOk s) (hp : PassiveOn true true (fun u => u ≠ t) s s')
    (hpc : (s.task t).pc.begins = false)
    (htiming : (s.task t).state.waitTimeoutb = true → Timing (s'.task t))
    (hwaking : ∀ q w rest, (s'.task t).pc = .waking q w rest → q ≠ .spin →
      (s.task w).pc ≠ .arm ∧ w ≠ t ∧ (q = .ready → (s.task w).state.waitTimeoutb = false)) :
    TimersOk s' := by
  have hk := hp.keeps t
  have hbegins : (s'.task t).pc.begins = false := by
    rcases (hk.noted rfl).2 with he | he
    · rw [he, hpc]
    · exact he
  have hcall {c : Call} (hc : (s'.task t).call = some c) : (s.task t).call = some c := by
    rcases hk.call with he | he
    · rw [← he, hc]
    · rw [hc] at he
      cases he
  refine h.own ⟨fun u => ?_, hp.passive, hp.wadoglist, hp.tick⟩ htiming (fun harm => ?_)
    (fun hf => ⟨⟨(hk.timer rfl).1.trans hf.bit, hbegins, fun c hc => hf.call c (hcall hc)⟩,
      (hk.noted rfl).1⟩) (fun c o hc ho _ => ?_) hwaking
  · have := hp.keeps u
    exact ⟨this.calls, this.call, nofun, this.timer⟩
  · rw [harm] at hbegins
    cases hbegins
  · rw [(hk.noted rfl).1]
    refine h.noted t c o (hcall hc) ho fun he => ?_
    rw [he] at hpc
    cases hpc

/-! ## Where the steps of a task lead -/

namespace Sys

theorem finishUnlock_pc (b : Bool) : ((s.finishUnlock t b).task t).pc = .parked ∨
    ((s.finishUnlock t b).task t).pc = .idle ∧ ∃ m, (s.task t).call = some (.mutexUnlock m) := by
  unfold finishUnlock
  split
  · next m hc =>
    rw [ret_eq hc]
    exact .inr ⟨by simp, m, hc⟩
  · exact .inl (by simp)

/-- An unlock goes on, or it returns if it is not part of a wait. -/
theorem mutexUnlock_pc (s : Sys) (t : TaskId) (m : MutexId) (p : UnlockPc) :
    ((s.mutexUnlock t m p).task t).pc.timing = true ∨
    ((s.mutexUnlock t m p).task t).pc = .idle ∧ ∃ m, (s.task t).call = some (.mutexUnlock m) := by
  have hfin {s₁ : Sys} {b : Bool} (hc : (s₁.task t).call = (s.task t).call) :
      ((s₁.finishUnlock t b).task t).pc.timing = true ∨
      ((s₁.finishUnlock t b).task t).pc = .idle ∧ ∃ m, (s.task t).call = some (.mutexUnlock m) := by
    rcases s₁.finishUnlock_pc (t := t) b with hpc | ⟨hpc, hcall⟩
    · exact .inl (by rw [hpc]; rfl)
    · exact .inr ⟨hpc, hc ▸ hcall⟩
  have hgo {s₁ : Sys} {p' : UnlockPc} : ((s₁.goto t (.unlock p' m)).task t).pc.timing = true := by
    simp [Pc.timing]
  cases p with
  | test =>
    simp only [mutexUnlock]
    split
    · exact hfin rfl
    · exact .inl hgo
  | dec | reent w | clear w => exact .inl hgo
  | retest =>
    simp only [mutexUnlock]
    split
    · exact hfin (by simp)
    · exact .inl hgo
  | release =>
    simp only [mutexUnlock]
    split
    · exact hfin (by simp)
    · exact .inl hgo
  | ready w =>
    refine hfin ?_
    by_cases hw : t = w
    · subst hw
      simp
    · simp [hw]

theorem mutexLock_pc {p : LockPc} (hc : (s.task t).call = some c)
    (hs : s.mutexLock t m p = some s') : (s'.task t).pc = .idle ∨ ∃ p, (s'.task t).pc = .lock p m := by
  have hfin {s₁ : Sys} (hc₁ : (s₁.task t).call = some c) :
      ((s₁.finishLock t m).task t).pc = .idle := by
    obtain ⟨r, hr⟩ := s₁.finishLock_eq (m := m) hc₁
    rw [hr]
    simp
  cases p with
  | test =>
    obtain rfl := Option.some.inj hs
    exact .inr ⟨_, by simp; rfl⟩
  | nest | own =>
    obtain rfl := Option.some.inj hs
    exact .inl (hfin hc)
  | section_ =>
    simp only [mutexLock] at hs
    split at hs
    · obtain rfl := Option.some.inj hs
      exact .inr ⟨.own, by simp⟩
    · obtain rfl := Option.some.inj hs
      exact .inr ⟨.parked, by simp⟩
  | parked => cases hs

theorem resume_pc (hc : (s.task t).call = some c)
    (hs : (s.modTask t fun x => { x with scheduler := k }).resume t = some s') :
    (s.task t).place = .woken ∧
      ((s'.task t).pc = .idle ∨ ∃ m, (s'.task t).pc = .lock .test m) := by
  unfold resume at hs
  simp only [modTask_task, Function.update_self] at hs
  split at hs
  · next hp =>
    refine ⟨hp, ?_⟩
    have hret {s₁ : Sys} {r : Ret} (hc₁ : (s₁.task t).call = some c) :
        ((s₁.ret t r).task t).pc = .idle := by
      rw [ret_eq hc₁]
      simp
    split at hs
    · next m hpc =>
      obtain rfl := Option.some.inj hs
      obtain ⟨r, hr⟩ := ((s.modTask t fun x => { x with scheduler := k }).modTask t
        fun x => x.put .runs).finishLock_eq (t := t) (m := m) (c := c) (by simpa using hc)
      rw [hr]
      exact .inl (by simp)
    · obtain rfl := Option.some.inj hs
      exact .inr ⟨_, by simp; rfl⟩
    · obtain rfl := Option.some.inj hs
      exact .inr ⟨_, by simp; rfl⟩
    all_goals
      first
      | obtain rfl := Option.some.inj hs
        exact .inl (hret (by simpa using hc))
      | cases hs
  · cases hs

/-- The first section of a call takes tasks off a queue, and begins to make them ready. -/
theorem enter_waking {q : WakePc} {rest : List TaskId} (hpc : (s.task t).pc = .enter)
    (he : ((s.enter t c).task t).pc = .waking q w rest) : q = .spin := by
  have hret {s₁ : Sys} {r : Ret} (h₁ : (s₁.task t).pc = .enter) :
      ((s₁.ret t r).task t).pc ≠ .waking q w rest := by
    unfold ret
    split
    · simp
    · rw [h₁]
      rintro ⟨⟩
  have hafter {timeout : Int32} {pc : Pc} (h₁ : ∀ q w rest, pc ≠ .waking q w rest) :
      afterJoin timeout pc ≠ .waking q w rest := by
    unfold afterJoin
    split
    · rintro ⟨⟩
    · exact h₁ q w rest
  cases c with
  | semWait i =>
    simp only [enter] at he
    split at he
    · exact absurd he (hret hpc)
    · simp at he
  | semTimedwait i timeout =>
    simp only [enter] at he
    split at he
    · exact absurd he (hret hpc)
    · split at he
      · exact absurd he (hret hpc)
      · rw [block_task, Function.update_self] at he
        exact absurd he (hafter fun _ _ _ h => by cases h)
  | semPost i | condSignal c | condBroadcast c =>
    simp only [enter] at he
    split at he
    · exact absurd he (hret hpc)
    · simp only [goto_task, Function.update_self, Task.goto_pc, Pc.waking.injEq] at he
      exact he.1.symm
  | condWait c m => simp [enter] at he
  | condTimedwait c m timeout =>
    simp only [enter] at he
    split at he
    · exact absurd he (hret hpc)
    · rw [block_task, Function.update_self] at he
      exact absurd he (hafter fun _ _ _ h => by cases h)
  | eventWait eventsIn options timeout =>
    simp only [enter] at he
    split at he
    · exact absurd he (hret (by simpa using hpc))
    · split at he
      · exact absurd he (hret hpc)
      · rw [block_task, Function.update_self] at he
        exact absurd he (hafter fun _ _ _ h => by cases h)
  | eventPost w' eventsIn =>
    simp only [enter] at he
    split at he
    · simp only [goto_task, Function.update_self, Task.goto_pc, Pc.waking.injEq] at he
      exact he.1.symm
    · refine absurd he (hret ?_)
      by_cases hw : t = w'
      · subst hw
        simpa using hpc
      · simpa [hw] using hpc
  | _ =>
    rw [enter, hpc] at he
    cases he

/-- A task that joins a queue notes what it waits for. -/
theorem enter_noted {o : Obj} (hc : (s.task t).call = some c) (ho : c.object = some o)
    (he : ((s.enter t c).task t).call = some c) :
    ((s.enter t c).task t).waitingObject = some o := by
  have hret {s₁ : Sys} {r : Ret} (hc₁ : (s₁.task t).call = some c) :
      ((s₁.ret t r).task t).call ≠ some c := by
    rw [ret_eq hc₁]
    simp
  cases c with
  | semTimedwait i timeout =>
    obtain rfl := Option.some.inj ho
    simp only [enter] at he ⊢
    split at he
    · exact absurd he (hret hc)
    · next hn =>
      split at he
      · exact absurd he (hret hc)
      · next h0 => simp only [hn, h0, if_false, block_task, Function.update_self, Task.join_waitingObject]
  | condTimedwait d m timeout =>
    obtain rfl := Option.some.inj ho
    simp only [enter] at he ⊢
    split at he
    · exact absurd he (hret hc)
    · next h0 => simp only [h0, if_false, block_task, Function.update_self, Task.join_waitingObject]
  | _ => cases ho

end Sys

/-- A task that is not waiting is not made ready. -/
theorem Shift.place_ne_woken (hs : Shift s s') (hp : (s.task t).place = .runs) (h : Inv s) :
    (s'.task t).place ≠ .woken := by
  have hsame {u : TaskId} (he : (s'.task u).place = (s.task u).place) (hu : u = t) :
      (s'.task t).place ≠ .woken := by
    subst hu
    rw [he, hp]
    nofun
  cases hs with
  | stay es hlog hes hq hx => exact hsame (hx t).place rfl
  | join t' q hlog hq hx hp₁ hp' =>
    by_cases ht : t = t'
    · subst ht
      rw [hp']
      nofun
    · exact hsame (by rw [hx t ht]) rfl
  | take t' q ws rest hws hlog hq hq' hnd hw hx hp' =>
    by_cases ht : t ∈ ws
    · have hq := (hw t ht).1
      rw [hp] at hq
      cases hq
    · by_cases htt : t = t'
      · exact hsame hp' htt.symm
      · exact hsame (by rw [hx t ht htt]) rfl
  | wake t' w rest es hlog hes hq hh hh' hm hp' ht hne hw hw' hpc hx =>
    by_cases htw : t = w
    · subst htw
      have hheld := (h.held t' t).1 (by rw [hh]; exact List.mem_cons_self)
      rw [hp] at hheld
      cases hheld
    · by_cases htt : t = t'
      · exact hsame hp' htt.symm
      · exact hsame (by rw [hx t htt htw]) rfl
  | resume t' es hlog hes hq hx hp₁ =>
    by_cases htt : t = t'
    · subst htt
      rw [hp] at hp₁
      cases hp₁
    · exact hsame (by rw [hx t htt]) rfl
  | expire w hlog hq hx hp₁ =>
    by_cases htw : t = w
    · subst htw
      rw [hp] at hp₁
      cases hp₁
    · exact hsame (by rw [hx t htw]) rfl

namespace Inv

variable (h : Inv s)
include h

theorem timersOk_enter (ht : TimersOk s) (hpc : (s.task t).pc = .enter)
    (hc : (s.task t).call = some c) : TimersOk (s.enter t c) := by
  have hplain : (s.task t).Plain := Task.plain_of_pc (by rw [hpc]; rfl)
  have hp := h.place_of_plain hplain
  have hk : PassiveOn false true (fun u => u ≠ t) s (s.enter t c) :=
    Sys.passive_enter (not_not.2 rfl)
  refine ht.own hk (fun hb => ?_) (fun _ => ⟨?_, fun p => h.not_mem_held (by rw [hp]; nofun)⟩)
    (fun hf => ?_) (fun c' o hc' ho _ => ?_) fun q w rest hq hne => ?_
  · have := (ht.timing t hb).pc
    rw [hpc] at this
    cases this
  · exact (h.moved_enter hpc hc).2.place_ne_woken hp h
  · have := hf.pc
    rw [hpc] at this
    cases this
  · have hcc : c' = c := by
      rcases (hk.keeps t).call with he | he
      · rw [he, hc] at hc'
        exact (Option.some.inj hc').symm
      · rw [hc'] at he
        cases he
    subst hcc
    exact Sys.enter_noted hc ho hc'
  · exact absurd (Sys.enter_waking hpc hq) hne

theorem timersOk_arm (ht : TimersOk s) (hpc : (s.task t).pc = .arm) :
    TimersOk ((s.fiberWatchdogInsert t).goto t (Sys.afterArm (s.task t).call)) := by
  obtain ⟨c, hc, hfit⟩ := h.call_of_pc hpc nofun
  have hb : (s.task t).state.waitTimeoutb = false := by
    by_contra hb
    have := (ht.timing t (by simpa using hb)).pc
    rw [hpc] at this
    cases this
  have hnot (k : ThreadId) : t ∉ s.wadoglist k := fun hm => by
    rw [ht.bit k t hm] at hb
    cases hb
  have hlist (k : ThreadId) : (s.fiberWatchdogInsert t).wadoglist k =
      if k = (s.task t).scheduler then s.wadoglist k ++ [t] else s.wadoglist k := by
    simp only [Sys.fiberWatchdogInsert, hb]
    by_cases hk : k = (s.task t).scheduler
    · subst hk
      simp
    · simp [hk]
  have hafter : (Sys.afterArm (s.task t).call).timing = true ∧
      (Sys.afterArm (s.task t).call).begins = false ∧
      ∀ q w rest, Sys.afterArm (s.task t).call ≠ .waking q w rest := by
    unfold Sys.afterArm
    split <;> exact ⟨rfl, rfl, nofun⟩
  generalize hpc' : Sys.afterArm (s.task t).call = pc' at hafter ⊢
  -- Only `t` changes, and of `t` only its place in the call and the bit.
  have hother (u : TaskId) (hu : u ≠ t) :
      ((s.fiberWatchdogInsert t).goto t pc').task u = s.task u := by
    rw [Sys.goto_task, Function.update_of_ne hu, Sys.fiberWatchdogInsert_task]
    exact Task.setTimeoutb_of_eq (by simp [hu])
  have hself : ((s.fiberWatchdogInsert t).goto t pc').task t =
      ((s.task t).setTimeoutb true).goto pc' := by
    rw [Sys.goto_task, Function.update_self, Sys.fiberWatchdogInsert_task]
    simp
  have htick : ((s.fiberWatchdogInsert t).goto t pc').tick = s.tick := by simp
  have hwad : ((s.fiberWatchdogInsert t).goto t pc').wadoglist =
      (s.fiberWatchdogInsert t).wadoglist := rfl
  generalize (s.fiberWatchdogInsert t).goto t pc' = s' at hother hself htick hwad
  have hmem {k : ThreadId} {w : TaskId} (hw : w ∈ s'.wadoglist k) :
      w ∈ s.wadoglist k ∨ w = t ∧ k = (s.task t).scheduler := by
    rw [hwad, hlist] at hw
    split at hw
    · next hk =>
      rcases List.mem_append.1 hw with hw | hw
      · exact .inl hw
      · exact .inr ⟨List.mem_singleton.1 hw, hk⟩
    · exact .inl hw
  have hfired {k : ThreadId} {w : TaskId} {n : Nat} (hk : (s'.tick k).timer = some (w, n))
      (hn : (s'.task w).calls = n) : w ≠ t ∧ (s.tick k).timer = some (w, n) ∧
        (s.task w).calls = n := by
    rw [htick] at hk
    have hwt : w ≠ t := by
      rintro rfl
      rw [hself] at hn
      have := (ht.fired k w n hk hn).pc
      rw [hpc] at this
      cases this
    rw [hother w hwt] at hn
    exact ⟨hwt, hk, hn⟩
  refine ⟨fun k => ?_, fun k w hw => ?_, fun k k' w hk hk' => ?_, fun w hw => ?_, fun w hw => ?_,
    fun p q w rest hp hq => ?_, fun p w rest hp => ?_, fun k w n hk => ?_, fun k w n hk hn => ?_,
    fun k w o n hk hn => ?_, fun u c' o hc' ho hu => ?_⟩
  · rw [hwad, hlist]
    split
    · exact Lib.append_singleton_nodup (hnot k) (ht.nodup k)
    · exact ht.nodup k
  · by_cases hwt : w = t
    · rw [hwt, hself]
      rfl
    · rw [hother w hwt]
      rcases hmem hw with hw | hw
      · exact ht.bit k w hw
      · exact absurd hw.1 hwt
  · rcases hmem hk with hk | ⟨rfl, hk⟩
    · rcases hmem hk' with hk' | ⟨rfl, -⟩
      · exact ht.unique k k' w hk hk'
      · exact absurd hk (hnot k)
    · rcases hmem hk' with hk' | ⟨-, hk'⟩
      · exact absurd hk' (hnot k')
      · exact hk.trans hk'.symm
  · by_cases hwt : w = t
    · rw [hwt, hself]
      refine ⟨hafter.1, ht.arming t hpc, fun c' hc' => ?_⟩
      have hc' : (s.task t).call = some c' := hc'
      rw [hc] at hc'
      exact Option.some.inj hc' ▸ hfit
    · rw [hother w hwt] at hw ⊢
      exact ht.timing w hw
  · by_cases hwt : w = t
    · rw [hwt, hself] at hw
      have hw : pc' = .arm := hw
      rw [hw] at hafter
      cases hafter.2.1
    · rw [hother w hwt] at hw ⊢
      exact ht.arming w hw
  · have hpt : p ≠ t := by
      rintro rfl
      rw [hself] at hp
      exact hafter.2.2 q w rest hp
    rw [hother p hpt] at hp
    by_cases hwt : w = t
    · subst hwt
      exact absurd hpc (ht.settled p q w rest hp hq)
    · rw [hother w hwt]
      exact ht.settled p q w rest hp hq
  · have hpt : p ≠ t := by
      rintro rfl
      rw [hself] at hp
      exact hafter.2.2 _ w rest hp
    rw [hother p hpt] at hp
    by_cases hwt : w = t
    · subst hwt
      exact absurd hpc (ht.settled p _ w rest hp nofun)
    · rw [hother w hwt]
      exact ht.ready p w rest hp
  · rw [htick] at hk
    by_cases hwt : w = t
    · subst hwt
      rw [hself]
      exact ht.held k w n hk
    · rw [hother w hwt]
      exact ht.held k w n hk
  · obtain ⟨hwt, hk, hn⟩ := hfired hk hn
    rw [hother w hwt]
    exact ht.fired k w n hk hn
  · obtain ⟨hwt, -, hn⟩ := hfired (by rw [hk]; rfl) hn
    rw [htick] at hk
    rw [hother w hwt]
    exact ht.object k w o n hk hn
  · by_cases hut : u = t
    · subst hut
      rw [hself] at hc' ⊢
      exact ht.noted u c' o hc' ho (by rw [hpc]; nofun)
    · rw [hother u hut] at hc' hu ⊢
      exact ht.noted u c' o hc' ho hu

theorem timersOk_mutexUnlock (ht : TimersOk s) {p : UnlockPc} (hpc : (s.task t).pc = .unlock p m) :
    TimersOk (s.mutexUnlock t m p) := by
  have hnw {x : Task} (hx : x.pc.timing = true ∨
      x.pc = .idle ∧ ∃ m, (s.task t).call = some (.mutexUnlock m)) (q : WakePc) (w : TaskId)
      (rest : List TaskId) : x.pc ≠ .waking q w rest := by
    intro he
    rw [he] at hx
    rcases hx with hx | ⟨hx, -⟩ <;> cases hx
  have hpc' := s.mutexUnlock_pc t m p
  have hkeep {x x' : Task} (hx : Timing x) (hcall : x.call = (s.task t).call)
      (hk : Keeps true true x x') (hx' : x'.pc.timing = true ∨
        x'.pc = .idle ∧ ∃ m, (s.task t).call = some (.mutexUnlock m)) : Timing x' := by
    rcases hx' with hx' | ⟨-, m', hm'⟩
    · exact hx.keeps hk hx'
    · have := hx.call _ (hcall.trans hm')
      cases this
  by_cases hr : (Pc.unlock p m).movesOthers = false
  · have hk : PassiveOn true true (fun u => u ≠ t) s (s.mutexUnlock t m p) :=
      Sys.passive_mutexUnlock (fun _ => hr) (not_not.2 rfl)
    exact ht.goes hk (by rw [hpc]; rfl) (fun hb => hkeep (ht.timing t hb) rfl (hk.keeps t) hpc')
      fun q w rest hq => absurd hq (hnw hpc' q w rest)
  · obtain ⟨w, rfl⟩ : ∃ w, p = .ready w := by
      cases p with
      | ready w => exact ⟨w, rfl⟩
      | _ => exact absurd rfl hr
    have hheld : w ∈ (s.task t).pc.held := by
      rw [hpc]
      exact List.mem_singleton_self w
    have hpcw : (s.task w).pc = .lock .parked m :=
      Task.pc_of_waiting (h.handoff t m w (by rw [hpc]; rfl) hheld)
    have hwt := h.ne_of_held hheld
    have hb : (s.task w).state.waitTimeoutb = false := by
      by_contra hb
      have := (ht.timing w (by simpa using hb)).pc
      rw [hpcw] at this
      cases this
    have h₁ : TimersOk ((s.modTask w fun x => x.put .woken).emit (.woken t w)) :=
      (ht.wake hb (by rw [hpcw]; nofun)).emit
    have ht₁ : ((s.modTask w fun x => x.put .woken).emit (.woken t w)).task t = s.task t := by
      simp [Ne.symm hwt]
    have hk : PassiveOn true true (fun u => u ≠ t)
        ((s.modTask w fun x => x.put .woken).emit (.woken t w)) (s.mutexUnlock t m (.ready w)) :=
      .finishUnlock (.of_task rfl rfl rfl) (not_not.2 rfl)
    refine h₁.goes hk (by rw [ht₁, hpc]; rfl) (fun hb => ?_) fun q w rest hq =>
      absurd hq (hnw hpc' q w rest)
    exact hkeep (h₁.timing t hb) (by rw [ht₁]) (hk.keeps t) hpc'

/-- A task that has been taken off its queue has armed its timer once `STATES_TRANSIENT` is clear. -/
theorem pc_ne_arm_of_held (hw : w ∈ (s.task t).pc.held) (htr : (s.task w).state.transient = false) :
    (s.task w).pc ≠ .arm := by
  intro harm
  have hwait := h.waiting_of_held hw
  rw [(h.task w).transient] at htr
  rw [Task.waiting, harm] at hwait
  rw [Task.arming, harm] at htr
  cases hc : (s.task w).call with
  | none =>
    rw [hc] at hwait
    exact hwait rfl
  | some c =>
    rw [hc] at hwait htr
    cases hu : c.isUsleep with
    | true => simp [hu] at hwait
    | false => simp [hu] at htr

theorem timersOk_wake (ht : TimersOk s) {p : WakePc} {rest : List TaskId}
    (hpc : (s.task t).pc = .waking p w rest) (hs : s.wake t w rest p = some s') : TimersOk s' := by
  have hheld : w ∈ (s.task t).pc.held := by
    rw [hpc]
    exact List.mem_cons_self
  have hwt := h.ne_of_held hheld
  -- The task itself has no timer.
  have hnb : (s.task t).state.waitTimeoutb ≠ true := fun hb => by
    have := (ht.timing t hb).pc
    rw [hpc] at this
    cases this
  have hgo {s₁ : Sys} {p' : WakePc} (h₁ : TimersOk s₁) (hpc₁ : (s₁.task t).pc = (s.task t).pc)
      (hb₁ : (s₁.task t).state.waitTimeoutb = (s.task t).state.waitTimeoutb) {w' : TaskId}
      {rest' : List TaskId} (hw' : p' ≠ .spin → (s₁.task w').pc ≠ .arm ∧ w' ≠ t ∧
        (p' = .ready → (s₁.task w').state.waitTimeoutb = false)) :
      TimersOk (s₁.goto t (.waking p' w' rest')) := by
    refine h₁.goes (t := t) (.goto (.of_task rfl rfl rfl) (not_not.2 rfl) fun _ => rfl)
      (by rw [hpc₁, hpc]; rfl) (fun hb => absurd (hb₁ ▸ hb) hnb) fun q w rest hq hne => ?_
    rw [Sys.goto_task, Function.update_self, Task.goto_pc, Pc.waking.injEq] at hq
    obtain ⟨rfl, rfl, rfl⟩ := hq
    exact hw' hne
  cases p with
  | spin =>
    simp only [Sys.wake] at hs
    split at hs
    · cases hs
    · next htr =>
      obtain rfl := Option.some.inj hs
      exact hgo ht rfl rfl fun _ => ⟨h.pc_ne_arm_of_held hheld (by simpa using htr), hwt, (by rintro ⟨⟩)⟩
  | test =>
    obtain rfl := Option.some.inj hs
    refine hgo ht rfl rfl fun _ => ⟨ht.settled t _ w rest hpc (by rintro ⟨⟩), hwt, fun hr => ?_⟩
    split at hr
    · cases hr
    · next hb => simpa using hb
  | remove =>
    simp only [Sys.wake] at hs
    split at hs
    · obtain rfl := Option.some.inj hs
      refine hgo ht.fiberWatchdogRemove ?_ ?_ fun _ => ⟨?_, hwt, fun _ => ?_⟩
      all_goals rw [Sys.fiberWatchdogRemove_task]
      · rfl
      · simp [Task.setTimeoutb, Ne.symm hwt]
      · exact ht.settled t _ w rest hpc (by rintro ⟨⟩)
      · simp [Task.setTimeoutb]
    · cases hs
  | ready =>
    have harm : (s.task w).pc ≠ .arm := ht.settled t _ w rest hpc (by rintro ⟨⟩)
    have h₁ : TimersOk ((s.modTask w fun x => x.put .woken).emit (.woken t w)) :=
      (ht.wake (ht.ready t w rest hpc) harm).emit
    have ht₁ : ((s.modTask w fun x => x.put .woken).emit (.woken t w)).task t = s.task t := by
      simp [Ne.symm hwt]
    cases rest with
    | nil =>
      obtain rfl := Option.some.inj hs
      have hret {r : Ret} : ((((s.modTask w fun x => x.put .woken).emit (.woken t w)).ret t r).task
          t).pc.held = [] ∨ (s.task t).call = none := by
        unfold Sys.ret
        rw [ht₁]
        split
        · exact .inl (by simp [Pc.held])
        · next hc => exact .inr hc
      refine h₁.goes (.ret (.of_task rfl rfl rfl) (not_not.2 rfl)) (by rw [ht₁, hpc]; rfl)
        (fun hb => absurd (ht₁ ▸ hb) hnb) fun q w' rest hq => ?_
      obtain ⟨c, hc, -⟩ := h.call_of_pc hpc (by rintro ⟨⟩)
      rcases hret with hret | hret
      · rw [hq] at hret
        cases hret
      · rw [hc] at hret
        cases hret
    | cons w' rest =>
      obtain rfl := Option.some.inj hs
      exact hgo h₁ (by rw [ht₁]) (by rw [ht₁]) fun hne => absurd rfl hne

theorem timersOk_go (ht : TimersOk s) (hs : s.go t = some s') : TimersOk s' := by
  unfold Sys.go at hs
  dsimp only at hs
  split at hs
  · cases hs
  · cases hs
  · next hpc =>
    obtain ⟨c, hc, rfl⟩ := Option.map_eq_some_iff.1 hs
    exact h.timersOk_enter ht hpc hc
  · next hpc =>
    obtain rfl := Option.some.inj hs
    exact h.timersOk_arm ht hpc
  · next hpc =>
    obtain rfl := Option.some.inj hs
    have hafter (c : Option Call) : (Sys.afterArmed c).timing = true ∧
        (Sys.afterArmed c).begins = false ∧
        ∀ q w rest, Sys.afterArmed c ≠ .waking q w rest := by
      unfold Sys.afterArmed
      split <;> exact ⟨rfl, rfl, nofun⟩
    have hk : PassiveOn true true (fun u => u ≠ t) s (s.modTask t fun x =>
        { x with state := { x.state with transient := false }, pc := Sys.afterArmed x.call }) := by
      refine .own (.of_task rfl rfl rfl) (not_not.2 rfl) fun x => ?_
      exact ⟨rfl, .inl rfl, fun _ => ⟨rfl, .inr (hafter x.call).2.1⟩, fun _ => ⟨rfl, id⟩⟩
    refine ht.goes hk (by rw [hpc]; rfl) (fun hb => (ht.timing t hb).keeps (hk.keeps t) ?_)
      fun q w rest hq => ?_
    · rw [Sys.modTask_task, Function.update_self]
      exact (hafter _).1
    · rw [Sys.modTask_task, Function.update_self] at hq
      exact absurd hq ((hafter _).2.2 q w rest)
  · next hpc =>
    obtain rfl := Option.some.inj hs
    have hk : PassiveOn true true (fun u => u ≠ t) s (s.block t .sleep .parked fun x =>
        { x with state := { x.state with inUsleep := true } }) := by
      refine .block (.of_task rfl rfl rfl) (not_not.2 rfl) (fun _ => rfl) fun _ => ?_
      exact ⟨rfl, .inl rfl, fun _ => ⟨rfl, .inl rfl⟩, fun _ => ⟨rfl, id⟩⟩
    refine ht.goes hk (by rw [hpc]; rfl) (fun hb => (ht.timing t hb).keeps (hk.keeps t) ?_)
      fun q w rest hq => ?_
    · simp [Pc.timing]
    · simp at hq
  · next p m hpc =>
    obtain ⟨c, hc, -⟩ := h.call_of_pc hpc nofun
    have hk : PassiveOn true true (fun u => u ≠ t) s s' :=
      Sys.passive_mutexLock hs (not_not.2 rfl)
    refine ht.goes hk (by rw [hpc]; rfl) (fun hb => ?_) fun q w rest hq => ?_
    · have := (ht.timing t hb).pc
      rw [hpc] at this
      cases this
    · rcases Sys.mutexLock_pc hc hs with he | ⟨p, he⟩ <;>
      · rw [hq] at he
        cases he
  · next hpc =>
    obtain rfl := Option.some.inj hs
    exact h.timersOk_mutexUnlock ht hpc
  · next hpc => exact h.timersOk_wake ht hpc hs

theorem timersOk_resume (ht : TimersOk s)
    (hs : (s.modTask t fun x => { x with scheduler := k }).resume t = some s') : TimersOk s' := by
  have hk : PassiveOn true true (fun u => u ≠ t) s s' := Sys.passive_resume hs (not_not.2 rfl)
  have hidle : (s.task t).call ≠ none := fun hn => by
    rcases (h.task t).fits with ⟨hpc, -⟩ | ⟨c, hc, -⟩
    · simp [Sys.resume, hpc] at hs
    · rw [hn] at hc
      cases hc
  obtain ⟨c, hc⟩ := Option.ne_none_iff_exists'.1 hidle
  obtain ⟨hp, hpc'⟩ := Sys.resume_pc hc hs
  refine ht.goes hk ?_ (fun hb => absurd hp (ht.timing t hb).place) fun q w rest hq => ?_
  · generalize hpc : (s.task t).pc = pc
    cases pc with
    | enter =>
      rw [h.place_of_plain (Task.plain_of_pc (by rw [hpc]; rfl))] at hp
      cases hp
    | arm => exact absurd hp (ht.arming t hpc)
    | _ => rfl
  · rcases hpc' with he | ⟨m, he⟩ <;>
    · rw [hq] at he
      cases he

/-- A call that begins has no timer. -/
theorem timersOk_call (ht : TimersOk s) (hpc : (s.task t).pc = .idle) :
    TimersOk ((s.modTask t fun x =>
      { x with call := some c, pc := Sys.firstPc c, calls := x.calls + 1 }).emit (.begin t c)) := by
  have hp : (s.task t).place = .runs := h.place_of_plain (Task.plain_of_pc (by rw [hpc]; rfl))
  have hnb : (s.task t).state.waitTimeoutb ≠ true := fun hb => by
    have := (ht.timing t hb).pc
    rw [hpc] at this
    cases this
  have hfirst : (∀ q w rest, Sys.firstPc c ≠ .waking q w rest) ∧
      (c.object ≠ none → Sys.firstPc c = .enter) := by
    cases c <;> exact ⟨nofun, fun ho => by first | rfl | exact absurd rfl ho⟩
  refine .emit ⟨ht.nodup, fun k w hw => ?_, ht.unique, fun w hw => ?_, fun w hw => ?_,
    fun p q w rest hpq hq => ?_, fun p w rest hpq => ?_, fun k w n hk => ?_, fun k w n hk hn => ?_,
    fun k w o n hk hn => ?_, fun u c' o hc' ho hu => ?_⟩
  · by_cases hwt : w = t
    · subst hwt
      exact absurd (ht.bit k w hw) hnb
    · simpa [hwt] using ht.bit k w hw
  · by_cases hwt : w = t
    · subst hwt
      simp at hw
      exact absurd hw hnb
    · simp only [Sys.modTask_task, Function.update_of_ne hwt] at hw ⊢
      exact ht.timing w hw
  · by_cases hwt : w = t
    · subst hwt
      simp [hp]
    · simp only [Sys.modTask_task, Function.update_of_ne hwt] at hw ⊢
      exact ht.arming w hw
  · have hpt : p ≠ t := by
      rintro rfl
      simp only [Sys.modTask_task, Function.update_self] at hpq
      exact hfirst.1 q w rest hpq
    simp only [Sys.modTask_task, Function.update_of_ne hpt] at hpq
    have hwt : w ≠ t := by
      rintro rfl
      have hheld := (h.held p w).1 (by rw [hpq]; exact List.mem_cons_self)
      rw [hp] at hheld
      cases hheld
    simp only [Sys.modTask_task, Function.update_of_ne hwt]
    exact ht.settled p q w rest hpq hq
  · have hpt : p ≠ t := by
      rintro rfl
      simp only [Sys.modTask_task, Function.update_self] at hpq
      exact hfirst.1 _ w rest hpq
    simp only [Sys.modTask_task, Function.update_of_ne hpt] at hpq
    by_cases hwt : w = t
    · subst hwt
      simpa using ht.ready p w rest hpq
    · simp only [Sys.modTask_task, Function.update_of_ne hwt]
      exact ht.ready p w rest hpq
  · have hold := ht.held k w n hk
    by_cases hwt : w = t
    · subst hwt
      simpa using hold.trans (Nat.le_succ _)
    · simpa [hwt] using hold
  · have hold := ht.held k w n hk
    by_cases hwt : w = t
    · subst hwt
      simp at hn
      omega
    · simp only [Sys.modTask_task, Function.update_of_ne hwt] at hn ⊢
      exact ht.fired k w n hk hn
  · have hk : s.tick k = .locked w o n := hk
    have hold := ht.held k w n (by rw [hk]; rfl)
    by_cases hwt : w = t
    · subst hwt
      simp at hn
      omega
    · simp only [Sys.modTask_task, Function.update_of_ne hwt] at hn ⊢
      exact ht.object k w o n hk hn
  · by_cases hut : u = t
    · subst hut
      simp only [Sys.modTask_task, Function.update_self] at hc' hu
      obtain rfl := Option.some.inj hc'
      exact absurd (hfirst.2 (by rw [ho]; nofun)) hu
    · simp only [Sys.modTask_task, Function.update_of_ne hut] at hc' hu ⊢
      exact ht.noted u c' o hc' ho hu

end Inv

/-! ## Steps of a tick -/

/-- The tick takes a timer off its list. -/
theorem TimersOk.timer (h : TimersOk s) (hw : w ∈ s.wadoglist k)
    (hs : s.step (.timer k w) = some s') : TimersOk s' := by
  simp only [Sys.step] at hs
  split at hs
  · obtain rfl := Option.some.inj hs
    have hold := h.timing w (h.bit k w hw)
    have hbegins : (s.task w).pc.begins = false := by
      have := hold.pc
      generalize (s.task w).pc = pc at this
      cases pc <;> first | rfl | cases this
    refine .setTick (h.clear (w := w) ?_ rfl (fun k' => ?_) fun k' u => ?_) (fun w' n he => ?_) fun _ _ _ h => by cases h
    · funext u
      by_cases hu : u = w
      · subst hu
        simp [Task.setTimeoutb]
      · simpa [hu] using (Task.setTimeoutb_of_eq rfl).symm
    · by_cases hk : k' = k
      · subst hk
        simpa using (h.nodup k').erase w
      · simpa [hk] using h.nodup k'
    · by_cases hk : k' = k
      · subst hk
        simpa using (h.nodup k').mem_erase_iff.trans and_comm
      · have hne (hu : u ∈ s.wadoglist k') : u ≠ w := by
          rintro rfl
          exact hk (h.unique k' k u hu hw)
        simpa [hk] using hne
    · simp only [TickPc.timer, Option.some.injEq, Prod.mk.injEq] at he
      obtain ⟨rfl, rfl⟩ := he
      simp only [Sys.modTask_task, Function.update_self, le_refl, true_and]
      exact fun _ => ⟨rfl, hbegins, hold.call⟩
  · cases hs

/-- The task whose wait the tick ends has armed the timer in this call. -/
theorem TimersOk.fired_of_expires (h : TimersOk s) (he : s.expires k = some (w, n))
    (hn : (s.task w).calls = n) : Fired (s.task w) := by
  refine h.fired k w n ?_ hn
  unfold Sys.expires at he
  generalize s.tick k = p at he
  cases p with
  | test w' n' =>
    dsimp only at he
    split at he
    · cases he
    · split at he
      · exact he
      · cases he
  | locked w' o n' | event w' n' =>
    dsimp only at he
    split at he
    · exact he
    · cases he
  | _ => cases he

/-- **A step of a tick that is not late keeps the invariant.** -/
theorem TimersOk.tickGo (h : TimersOk s) (hs : s.tickGo k = some s')
    (hn : ∀ w n, s.expires k = some (w, n) → (s.task w).calls = n) : TimersOk s' := by
  rcases Sys.passive_tickGo (o := false) (b := true) (P := fun _ => True) hs with
    ⟨p, rfl, hp⟩ | ⟨s₁, w, n, he, hk, rfl⟩
  · refine h.setTick (fun w n ht => ?_) fun w o n ht _ => hp.object w o n ht
    rcases hp.timer with hnone | hsame
    · rw [hnone] at ht
      cases ht
    · rw [hsame] at ht
      exact ⟨h.held k w n ht, h.fired k w n ht⟩
  · have hf := h.fired_of_expires he (hn w n he)
    have hx := hk.passive w trivial
    have h₁ : TimersOk s₁ := h.passiveOn hk (fun _ hu => absurd trivial hu)
      (fun _ hu => absurd trivial hu) (fun _ hu => absurd trivial hu)
      (fun _ hu => absurd trivial hu) fun _ hu => absurd trivial hu
    refine .setTick (.emit (h₁.wake ((hx.timer rfl).1.trans hf.bit) fun harm => ?_)) nofun nofun
    have hpc := hf.pc
    rw [← hx.pc, harm] at hpc
    cases hpc

/-! ## Runs -/

/-- Every tick that ends a wait does so in the call whose timer it has taken off the list. -/
def Sys.punctual (s : Sys) : Move → Bool
  | .tickGo k => (s.expires k).all fun (w, n) => (s.task w).calls == n
  | _ => true

theorem Sys.calls_of_punctual (hd : s.punctual (.tickGo k) = true)
    (he : s.expires k = some (w, n)) : (s.task w).calls = n := by
  simpa [punctual, he] using hd

theorem TimersOk.step (h : TimersOk s) (hi : Inv s) {mv : Move} (hd : s.punctual mv = true)
    (hs : s.step mv = some s') : TimersOk s' := by
  cases mv with
  | call t c =>
    simp only [Sys.step] at hs
    split at hs
    · next hidle =>
      obtain rfl := Option.some.inj hs
      exact hi.timersOk_call h hidle.1
    · cases hs
  | go t =>
    simp only [Sys.step] at hs
    split at hs
    · exact hi.timersOk_go h hs
    · cases hs
  | resume t k =>
    simp only [Sys.step] at hs
    split at hs
    · exact hi.timersOk_resume h hs
    · cases hs
  | tickle k | tickEnd k =>
    simp only [Sys.step] at hs
    split at hs
    · obtain rfl := Option.some.inj hs
      exact h.setTick (fun _ _ h => by cases h) fun _ _ _ h => by cases h
    · cases hs
  | timer k w =>
    have hw : w ∈ s.wadoglist k := by
      simp only [Sys.step] at hs
      split at hs
      · next hw => exact hw.2
      · cases hs
    exact h.timer hw hs
  | tickGo k => exact h.tickGo hs fun w n => Sys.calls_of_punctual hd

theorem TimersOk.init (v : SemId → Int32) (mem : TaskId → Task) : TimersOk (init v mem) := by
  refine ⟨fun _ => List.nodup_nil, nofun, nofun, nofun, nofun, nofun, nofun, nofun, nofun, nofun,
    nofun⟩

theorem reach_timersOk {v : SemId → Int32} {mem : TaskId → Task}
    (h : Reach Sys.step (fun s mv => s.punctual mv) (init v mem) s) : TimersOk s :=
  Reach.invariant_of (I := Inv) (P := TimersOk) h (.init v mem) (.init v mem)
    (fun _ _ _ hi _ hs => hi.step hs) fun _ _ _ hi ht hd hs => ht.step hi hd hs

/-! ## What a tick takes -/

/-- The queue of an object. -/
def Obj.wait : Obj → Wait
  | .sem i => .sem i
  | .cond c => .cond c

theorem Task.call_of_waiting {x : Task} {q : Wait} (h : x.waiting = some q)
    (hq : ∀ m, q ≠ .mutex m) : ∃ c, x.call = some c ∧ c.wait = some q := by
  unfold Task.waiting at h
  split at h
  · exact absurd (Option.some.inj h).symm (hq _)
  · obtain ⟨c, hc, hw⟩ := Option.bind_eq_some_iff.1 h
    split at hw
    · cases hw
    · exact ⟨c, hc, hw⟩
  · exact Option.bind_eq_some_iff.1 h
  · exact Option.bind_eq_some_iff.1 h
  · exact Option.bind_eq_some_iff.1 h
  · cases h

/-- A wait with a timeout in the queue of an object is for the object that it notes. -/
theorem Call.object_of_wait {q : Wait} (ht : c.timed = true) (hw : c.wait = some q)
    (hq : (∃ i, q = .sem i) ∨ ∃ d, q = .cond d) : ∃ o, c.object = some o ∧ o.wait = q := by
  cases c with
  | semTimedwait i timeout => exact ⟨.sem i, rfl, Option.some.inj hw⟩
  | condTimedwait d m timeout => exact ⟨.cond d, rfl, Option.some.inj hw⟩
  | eventWait | usleep =>
    obtain rfl := Option.some.inj hw
    rcases hq with ⟨i, hi⟩ | ⟨d, hd⟩
    · cases hi
    · cases hd
  | _ => cases ht

/-- **A tick takes a task only out of the queue of the object that it has locked**, if it is not
late. -/
theorem TimersOk.locked_object (h : TimersOk s) (hi : Inv s) {o : Obj}
    (ht : s.tick k = .locked w o n) (he : s.expires k = some (w, n))
    (hn : (s.task w).calls = n) : w ∈ s.queue o.wait := by
  have hf := h.fired_of_expires he hn
  have hobj := h.object k w o n ht hn
  have hb : ((s.task w).state.waitforSemph || (s.task w).state.waitforCondv) = true := by
    by_contra hb
    simp [Sys.expires, ht, hb] at he
  obtain ⟨q, hp, hw, hq⟩ := hi.queue_of_bit hb
  have hm (m : MutexId) : q ≠ .mutex m := by
    rcases hq with ⟨i, rfl⟩ | ⟨d, rfl⟩ <;> nofun
  obtain ⟨c, hc, hcw⟩ := Task.call_of_waiting hw hm
  obtain ⟨o', ho', rfl⟩ := Call.object_of_wait (hf.call c hc) hcw hq
  have hpc : (s.task w).pc ≠ .enter := fun hpc => by
    rw [Task.waiting, hpc] at hw
    cases hw
  rw [h.noted w c o' hc ho' hpc] at hobj
  obtain rfl := Option.some.inj hobj
  exact (hi.queue _ w).2 ⟨by cases o' <;> rfl, hp, hw⟩

end

end Ptask.Agents

