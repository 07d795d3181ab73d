import Ptask.Agents.Timers
import Ptask.Lib.Ledger

/-!
# Semaphores

A post takes the first task off the queue and leaves in `yieldCode` that it has; the wait returns
when the task goes on, and tells by it whether it was given a unit. `Books` relates a semaphore to
its ledger: units that tasks have been given and have not yet returned with are taken, posts that have
begun and not come to their section are not posted. As long as no tick is late, every step is one in
the ledger (`Inv.books_step`), so a semaphore never grants more than it has (`reach_grantsBounded`).

A tick that is late ends a wait that has no timeout, which then returns `true`, and takes the task
off the queue of a semaphore that it has not locked (`not_grantsBounded`).
-/

namespace Ptask.Agents

open Ptask.Lib

/-- What a wait for a semaphore returns. -/
def Call.answer (yieldCode : BitVec 64) : Call → Ret
  | .semTimedwait .. => .bool (yieldCode == 1)
  | _ => .bool true

/-- A wait for `i` returns `true`. -/
def Ev.grants (i : SemId) : Ev → Bool
  | .ret _ c r => c.wait = some (.sem i) && r = .bool true
  | _ => false

/-- A post on `i` begins. -/
def Ev.posts (i : SemId) : Ev → Bool
  | .begin _ c => c = .semPost i
  | _ => false

/-- The task has been taken off its queue and has not gone on. -/
def Place.off : Place → Bool
  | .held _ | .woken => true
  | _ => false

/-- The wait of the task for `i` has ended, and will return `true`. -/
def Task.Granted (i : SemId) (x : Task) : Prop :=
  x.place.off = true ∧
    ∃ c, x.call = some c ∧ c.wait = some (.sem i) ∧ c.answer x.yieldCode = .bool true

/-- The post of the task has not come to its section. -/
def Task.Posting (i : SemId) (x : Task) : Prop := x.pc = .enter ∧ x.call = some (.semPost i)

/-- A task that waits with a timeout has not been given a unit. -/
def Task.Unpaid (i : SemId) (x : Task) : Prop :=
  x.place = .queued → ∀ timeout, x.call = some (.semTimedwait i timeout) → x.yieldCode = 0

/-- The ledger agrees with the semaphore; `gs` has the tasks whose waits will return `true`, and `ps`
those whose posts have not come to their sections. -/
structure Books (i : SemId) (gs ps : List TaskId) (s : Sys) (l : Ledger) : Prop where
  count : l.count = (s.sem i).count
  waiting : l.waiting = (s.sem i).waitq.length
  granted : ∀ t, (s.task t).Granted i → t ∈ gs
  posting : ∀ t, (s.task t).Posting i → t ∈ ps
  taken : s.log.countP (Ev.grants i) + gs.length ≤ l.taken
  posted : l.posted + ps.length ≤ s.log.countP (Ev.posts i)
  unpaid : ∀ t, (s.task t).Unpaid i

/-- Nothing happens that concerns the semaphore. -/
structure Settles (i : SemId) (x x' : Task) : Prop where
  granted : x'.Granted i → x.Granted i
  posting : x'.Posting i → x.Posting i
  unpaid : x.Unpaid i → x'.Unpaid i

/-- The step does nothing with the semaphore. -/
structure Quiet (i : SemId) (s s' : Sys) : Prop where
  sem : s'.sem i = s.sem i
  grants : s'.log.countP (Ev.grants i) = s.log.countP (Ev.grants i)
  posts : s.log.countP (Ev.posts i) ≤ s'.log.countP (Ev.posts i)
  task : ∀ t, Settles i (s.task t) (s'.task t)

section

variable {s s' s'' : Sys} {i j : SemId} {l : Ledger} {t u w : TaskId} {c : Call} {m : MutexId}
  {pc : Pc} {q : Wait} {r : Ret} {f : Task → Task} {k : ThreadId} {gs ps : List TaskId}

/-! ## Tasks -/

namespace Settles

theorem refl (x : Task) : Settles i x x := ⟨id, id, id⟩

theorem trans {x x' x'' : Task} (h : Settles i x x') (h' : Settles i x' x'') : Settles i x x'' :=
  ⟨fun hg => h.granted (h'.granted hg), fun hp => h.posting (h'.posting hp),
    fun hu => h'.unpaid (h.unpaid hu)⟩

/-- The call and what the task is given stay the same. -/
theorem of_same {x x' : Task} (hcall : x'.call = x.call) (hy : x'.yieldCode = x.yieldCode)
    (hoff : x'.place.off = true → x.place.off = true)
    (hq : x'.place = .queued → x.place = .queued) (hpc : x'.pc = .enter → x.pc = .enter) :
    Settles i x x' := by
  refine ⟨fun hg => ⟨hoff hg.1, ?_⟩, fun hp => ⟨hpc hp.1, hcall ▸ hp.2⟩, fun hu hx timeout hc => ?_⟩
  · rw [← hcall, ← hy]
    exact hg.2
  · rw [hy]
    exact hu (hq hx) timeout (hcall ▸ hc)

/-- The task is in a call that does not wait for the semaphore. -/
theorem of_call {x x' : Task} (hw : ∀ c, x'.call = some c → c.wait ≠ some (.sem i))
    (hp : x'.Posting i → x.Posting i) : Settles i x x' := by
  refine ⟨fun hg => ?_, hp, fun _ _ timeout hc => absurd rfl (hw _ hc)⟩
  obtain ⟨-, c, hc, hwait, -⟩ := hg
  exact absurd hwait (hw c hc)

theorem goto (x : Task) (hpc : pc ≠ .enter) : Settles i x (x.goto pc) :=
  of_same rfl rfl id id fun h => absurd h hpc

theorem done (x : Task) : Settles i x x.done :=
  of_call (fun _ hc => by cases hc) fun hp => by cases hp.1

end Settles

/-- A task that has returned is in no call. -/
theorem Sys.ret_call (s : Sys) (t : TaskId) (r : Ret) : ((s.ret t r).task t).call = none := by
  unfold ret
  split
  · simp
  · next hc => exact hc

/-! ## Operators -/

namespace Quiet

theorem of_task (ht : s'.task = s.task) (hs : s'.sem i = s.sem i) (hl : s'.log = s.log) :
    Quiet i s s' :=
  ⟨hs, by rw [hl], by rw [hl], fun u => by rw [ht]; exact .refl _⟩

theorem trans (h : Quiet i s s') (h' : Quiet i s' s'') : Quiet i s s'' :=
  ⟨h'.sem.trans h.sem, h'.grants.trans h.grants, h.posts.trans h'.posts,
    fun u => (h.task u).trans (h'.task u)⟩

theorem modTask (h : Quiet i s s') (hf : Settles i (s'.task t) (f (s'.task t))) :
    Quiet i s (s'.modTask t f) := by
  refine h.trans ⟨rfl, rfl, le_rfl, fun u => ?_⟩
  by_cases hut : u = t
  · subst hut
    simpa using hf
  · simpa [hut] using .refl _

theorem emit {e : Ev} (h : Quiet i s s') (he : e.grants i = false) : Quiet i s (s'.emit e) :=
  h.trans ⟨rfl, by simp [he], by simp [List.countP_cons], fun u => .refl _⟩

theorem goto (h : Quiet i s s') (hpc : pc ≠ .enter) : Quiet i s (s'.goto t pc) :=
  h.modTask (.goto _ hpc)

theorem ret (h : Quiet i s s')
    (hr : ∀ c, (s'.task t).call = some c → c.wait = some (.sem i) → r ≠ .bool true) :
    Quiet i s (s'.ret t r) := by
  unfold Sys.ret
  split
  · next c hc =>
    refine (h.modTask (.done _)).emit ?_
    simpa [Ev.grants] using hr c hc
  · exact h

theorem block (h : Quiet i s s') (hpc : pc ≠ .enter)
    (hf : ((f (s'.task t)).join pc s'.log.length).Unpaid i) :
    Quiet i s (s'.block t q pc f) := by
  refine .emit (.modTask h ⟨fun hg => ?_, fun hp => absurd hp.1 hpc, fun _ => hf⟩) rfl
  cases hg.1

/-- Tasks are taken that do not wait for the semaphore. -/
theorem take {ws : List TaskId} (h : Quiet i s s')
    (hws : ∀ w ∈ ws, ∀ c, (s'.task w).call = some c → c.wait ≠ some (.sem i))
    (hf : ∀ x, (f x).call = x.call ∧ (f x).pc = x.pc) : Quiet i s (s'.take t ws f) := by
  refine h.trans ⟨rfl, ?_, ?_, fun u => ?_⟩
  · simp [List.countP_append, List.countP_eq_zero.2, Ev.grants]
  · simp [List.countP_append]
  · by_cases hu : u ∈ ws
    · simp only [Sys.take_task, hu, if_true]
      refine .of_call (fun c hc => hws u hu c ((hf _).1 ▸ hc)) fun hp => ?_
      exact ⟨(hf _).2 ▸ hp.1, (hf _).1 ▸ hp.2⟩
    · simp only [Sys.take_task, hu, if_false]
      exact .refl _

theorem finishLock (h : Quiet i s s')
    (hw : ∀ c, (s'.task t).call = some c → c.wait ≠ some (.sem i)) :
    Quiet i s (s'.finishLock t m) := by
  have hd : Quiet i s (s'.modTask t fun x => x.setDepth m (x.depth m + 1)) :=
    h.modTask (.of_same rfl rfl id id id)
  unfold Sys.finishLock
  dsimp only
  split <;> exact hd.ret fun c hc hwait => absurd hwait (hw c (by simpa using hc))

theorem finishUnlock {b : Bool} (h : Quiet i s s') : Quiet i s (s'.finishUnlock t b) := by
  unfold Sys.finishUnlock
  split
  · next hcall =>
    refine h.ret fun c hc hwait => ?_
    rw [hcall] at hc
    obtain rfl := Option.some.inj hc
    cases hwait
  · exact h.goto nofun

/-- A task that has been taken is made ready. -/
theorem wake (h : Quiet i s s') (hp : (s'.task w).place = .held t) :
    Quiet i s ((s'.modTask w fun x => x.put .woken).emit (.woken t w)) := by
  refine .emit (h.modTask (.of_same rfl rfl (fun _ => ?_) nofun id)) rfl
  rw [hp]
  rfl

end Quiet

theorem Books.quiet (h : Books i gs ps s l) (hq : Quiet i s s') : Books i gs ps s' l :=
  ⟨by rw [hq.sem, h.count], by rw [hq.sem, h.waiting],
    fun t ht => h.granted t ((hq.task t).granted ht),
    fun t ht => h.posting t ((hq.task t).posting ht), hq.grants ▸ h.taken, h.posted.trans hq.posts,
    fun t => (hq.task t).unpaid (h.unpaid t)⟩

/-! ## Steps of a task that do nothing with the semaphore -/

/-- A call that locks or unlocks a mutex does not wait for a semaphore. -/
theorem Call.wait_of_fits (hf : c.fits pc = true)
    (hpc : (∃ p m, pc = .lock p m) ∨ (∃ p m, pc = .unlock p m) ∨ ∃ p w rest, pc = .waking p w rest) :
    c.wait ≠ some (.sem i) := by
  intro hw
  rcases hpc with ⟨p, m, rfl⟩ | ⟨p, m, rfl⟩ | ⟨p, w, rest, rfl⟩ <;>
  · cases c <;> first | cases hf; done | cases hw

namespace Inv

variable (h : Inv s)
include h

/-- A task in another queue is in a call that does not wait for the semaphore. -/
theorem wait_of_waiting (hw : (s.task w).waiting = some q) (hq : q ≠ .sem i) :
    ∀ c, (s.task w).call = some c → c.wait ≠ some (.sem i) := by
  intro c hc hwait
  by_cases hm : ∃ m, q = .mutex m
  · obtain ⟨m, rfl⟩ := hm
    have hpc := Task.pc_of_waiting hw
    obtain ⟨c', hc', hf⟩ := h.call_of_pc hpc nofun
    rw [hc] at hc'
    obtain rfl := Option.some.inj hc'
    exact Call.wait_of_fits hf (.inl ⟨_, m, rfl⟩) hwait
  · obtain ⟨c', hc', hwait'⟩ := Task.call_of_waiting hw fun m hm' => hm ⟨m, hm'⟩
    rw [hc] at hc'
    obtain rfl := Option.some.inj hc'
    rw [hwait] at hwait'
    exact hq (Option.some.inj hwait').symm

theorem wait_of_mem_queue (hw : w ∈ s.queue q) (hq : q ≠ .sem i) :
    ∀ c, (s.task w).call = some c → c.wait ≠ some (.sem i) :=
  h.wait_of_waiting ((h.queue q w).1 hw).2.2 hq

theorem wait_of_pc {pc : Pc} (hpc : (s.task t).pc = pc) (hne : pc ≠ .idle)
    (hp : (∃ p m, pc = .lock p m) ∨ (∃ p m, pc = .unlock p m) ∨ ∃ p w rest, pc = .waking p w rest) :
    ∀ c, (s.task t).call = some c → c.wait ≠ some (.sem i) := by
  intro c hc
  obtain ⟨c', hc', hf⟩ := h.call_of_pc hpc hne
  rw [hc] at hc'
  obtain rfl := Option.some.inj hc'
  exact Call.wait_of_fits hf hp

theorem quiet_mutexLock {p : LockPc} (hpc : (s.task t).pc = .lock p m)
    (hs : s.mutexLock t m p = some s') : Quiet i s s' := by
  have hw := h.wait_of_pc (i := i) hpc (by rintro ⟨⟩) (.inl ⟨p, m, rfl⟩)
  cases p with
  | test =>
    obtain rfl := Option.some.inj hs
    exact .goto (.of_task rfl rfl rfl) (by rintro ⟨⟩)
  | nest | own =>
    obtain rfl := Option.some.inj hs
    exact .finishLock (.of_task rfl rfl rfl) hw
  | section_ =>
    simp only [Sys.mutexLock] at hs
    split at hs
    · obtain rfl := Option.some.inj hs
      exact .goto (.of_task rfl rfl rfl) (by rintro ⟨⟩)
    · obtain rfl := Option.some.inj hs
      refine .block (.of_task rfl rfl rfl) (by rintro ⟨⟩) fun _ timeout hc => ?_
      exact absurd rfl (hw _ hc)
  | parked => cases hs

theorem quiet_mutexUnlock {p : UnlockPc} (hpc : (s.task t).pc = .unlock p m) :
    Quiet i s (s.mutexUnlock t m p) := by
  have hk : Quiet i s s := .of_task rfl rfl rfl
  cases p with
  | test =>
    simp only [Sys.mutexUnlock]
    split
    · exact hk.finishUnlock
    · exact hk.goto (by rintro ⟨⟩)
  | dec | reent w => exact .goto (.of_task rfl rfl rfl) (by rintro ⟨⟩)
  | retest =>
    simp only [Sys.mutexUnlock]
    split
    · exact .finishUnlock (hk.modTask (.of_same rfl rfl id id id))
    · exact hk.goto (by rintro ⟨⟩)
  | release =>
    have hd : Quiet i s ((s.modMutex m fun p => { p with
        waitq := p.waitq.tail, holder := (s.mutex m).waitq.head? }).modTask t fun x =>
          x.setDepth m (x.depth m - 1)) :=
      .modTask (.of_task rfl rfl rfl) (.of_same rfl rfl id id id)
    simp only [Sys.mutexUnlock]
    split
    · exact hd.finishUnlock
    · next w hhead =>
      refine .goto (hd.take (fun w' hw' c hc => ?_) fun _ => ⟨rfl, rfl⟩) (by rintro ⟨⟩)
      obtain rfl := List.mem_singleton.1 hw'
      have hmem : w' ∈ s.queue (.mutex m) := List.mem_of_mem_head? hhead
      refine h.wait_of_mem_queue hmem (by rintro ⟨⟩) c ?_
      by_cases hwt : w' = t
      · subst hwt
        simpa using hc
      · simpa [hwt] using hc
  | clear w => exact .goto (.modTask hk (.of_same rfl rfl id id id)) (by rintro ⟨⟩)
  | ready w =>
    refine .finishUnlock (hk.wake ((h.held t w).1 ?_))
    rw [hpc]
    exact List.mem_singleton_self w

theorem quiet_wake {p : WakePc} {rest : List TaskId} (hpc : (s.task t).pc = .waking p w rest)
    (hs : s.wake t w rest p = some s') : Quiet i s s' := by
  have hk : Quiet i s s := .of_task rfl rfl rfl
  have hheld : w ∈ (s.task t).pc.held := by
    rw [hpc]
    exact List.mem_cons_self
  cases p with
  | spin =>
    simp only [Sys.wake] at hs
    split at hs
    · cases hs
    · obtain rfl := Option.some.inj hs
      exact hk.goto (by rintro ⟨⟩)
  | test =>
    obtain rfl := Option.some.inj hs
    exact hk.goto (by rintro ⟨⟩)
  | remove =>
    simp only [Sys.wake] at hs
    split at hs
    · obtain rfl := Option.some.inj hs
      refine .goto ⟨by simp, by simp, by simp, fun u => ?_⟩ (by rintro ⟨⟩)
      rw [Sys.fiberWatchdogRemove_task]
      exact .of_same rfl rfl id id id
    · cases hs
  | ready =>
    have hwt := h.ne_of_held hheld
    have hw : Quiet i s ((s.modTask w fun x => x.put .woken).emit (.woken t w)) :=
      hk.wake ((h.held t w).1 hheld)
    cases rest with
    | nil =>
      obtain rfl := Option.some.inj hs
      refine hw.ret fun c hc hwait => ?_
      refine absurd hwait (h.wait_of_pc hpc (by rintro ⟨⟩) (.inr (.inr ⟨_, w, [], rfl⟩)) c ?_)
      simpa [Ne.symm hwt] using hc
    | cons w' rest =>
      obtain rfl := Option.some.inj hs
      exact hw.goto (by rintro ⟨⟩)

/-- The first section of a call that has nothing to do with the semaphore. -/
theorem quiet_enter (hc : (s.task t).call = some c) (hw : c.wait ≠ some (.sem i))
    (hp : c ≠ .semPost i) : Quiet i s (s.enter t c) := by
  have hk : Quiet i s s := .of_task rfl rfl rfl
  have hwait : ∀ c', (s.task t).call = some c' → c'.wait ≠ some (.sem i) := by
    rw [hc]
    rintro c' ⟨⟩
    exact hw
  have hnr (r : Ret) :
      ∀ c', (s.task t).call = some c' → c'.wait = some (.sem i) → r ≠ .bool true :=
    fun c' hc' hwait' => absurd hwait' (hwait c' hc')
  have hafter (timeout : Int32) {pc : Pc} (h₁ : pc ≠ .enter) :
      Sys.afterJoin timeout pc ≠ .enter := by
    unfold Sys.afterJoin
    split
    · rintro ⟨⟩
    · exact h₁
  cases c with
  | semWait j =>
    have hj : i ≠ j := fun e => hw (e ▸ rfl)
    simp only [Sys.enter]
    split
    · exact .ret (.of_task rfl (by simp [hj]) rfl) (hnr _)
    · exact .block (.of_task rfl (by simp [hj]) rfl) (by rintro ⟨⟩) fun _ _ hc' => absurd rfl (hwait _ hc')
  | semTimedwait j timeout =>
    have hj : i ≠ j := fun e => hw (e ▸ rfl)
    simp only [Sys.enter]
    split
    · exact .ret (.of_task rfl (by simp [hj]) rfl) (hnr _)
    · split
      · exact .ret (.of_task rfl (by simp [hj]) rfl) (hnr _)
      · exact .block (.of_task rfl (by simp [hj]) rfl) (hafter timeout (by rintro ⟨⟩))
          fun _ _ hc' => absurd rfl (hwait _ hc')
  | semPost j =>
    have hj : i ≠ j := fun e => hp (e ▸ rfl)
    simp only [Sys.enter]
    split
    · exact .ret (.of_task rfl (by simp [hj]) rfl) (hnr _)
    · next v rest hq =>
      have hmem : v ∈ s.queue (.sem j) := by
        have hq : (s.sem j).waitq = v :: rest := by simpa using hq
        simp [Sys.queue, hq]
      refine .goto (.take (.of_task rfl (by simp [hj]) rfl) ?_ fun _ => ⟨rfl, rfl⟩) (by rintro ⟨⟩)
      simpa using h.wait_of_mem_queue hmem (by simpa using hj.symm)
  | condWait d m =>
    exact .block (.of_task rfl rfl rfl) (by rintro ⟨⟩) fun _ _ hc' => absurd rfl (hwait _ hc')
  | condTimedwait d m timeout =>
    simp only [Sys.enter]
    split
    · exact hk.ret (hnr _)
    · exact .block (.of_task rfl rfl rfl) (hafter timeout (by rintro ⟨⟩))
        fun _ _ hc' => absurd rfl (hwait _ hc')
  | condSignal d | condBroadcast d =>
    simp only [Sys.enter]
    split
    · exact hk.ret (hnr _)
    · next v rest hq =>
      have hmem (u : TaskId) (hu : u ∈ v :: rest) : u ∈ s.queue (.cond d) := by
        simpa [Sys.queue, hq] using hu
      refine .goto (.take (.of_task rfl rfl rfl) (fun u hu => ?_) fun _ => ⟨rfl, rfl⟩) (by rintro ⟨⟩)
      exact h.wait_of_mem_queue (hmem u (by simp_all)) (by rintro ⟨⟩)
  | eventWait eventsIn options timeout =>
    simp only [Sys.enter]
    split
    · refine .ret (hk.modTask (.of_same rfl rfl id id id)) fun c' hc' => hnr _ c' ?_
      simpa using hc'
    · split
      · exact hk.ret (hnr _)
      · exact .block hk (hafter timeout (by rintro ⟨⟩)) fun _ _ hc' => absurd rfl (hwait _ hc')
  | eventPost v eventsIn =>
    have hm : Quiet i s (s.modTask v fun x =>
        { x with pendingEvents := x.pendingEvents ||| eventsIn }) :=
      hk.modTask (.of_same rfl rfl id id id)
    simp only [Sys.enter]
    split
    · next hsat =>
      have hbit : (s.task v).state.waitforEvent = true := by simpa using hsat.1
      refine .goto (.take hm (fun u hu => ?_) fun _ => ⟨rfl, rfl⟩) (by rintro ⟨⟩)
      obtain rfl : u = v := by simpa using hu
      simpa using h.wait_of_waiting (h.event_of_bit hbit).2 (by rintro ⟨⟩)
    · refine hm.ret fun c' hc' => hnr _ c' ?_
      by_cases hv : t = v
      · subst hv
        simpa using hc'
      · simpa [hv] using hc'
  | _ => exact hk

end Inv

/-! ## Steps of the ledger -/

namespace Books

/-- The count or the queue changes. -/
theorem modSem (h : Books i gs ps s l) (f : FibSemaphore → FibSemaphore) :
    Books i gs ps (s.modSem i f) { l with
      count := (f (s.sem i)).count, waiting := (f (s.sem i)).waitq.length } :=
  ⟨by simp, by simp, h.granted, h.posting, h.taken, h.posted, h.unpaid⟩

/-- A unit is set aside for `w`. -/
theorem grant (h : Books i gs ps s l) (w : TaskId) :
    Books i (w :: gs) ps s { l with taken := l.taken + 1 } :=
  ⟨h.count, h.waiting, fun t ht => List.mem_cons_of_mem _ (h.granted t ht), h.posting,
    Nat.succ_le_succ h.taken, h.posted, h.unpaid⟩

/-- The post of `t` has come to its section. -/
theorem post (h : Books i gs ps s l) (ht : t ∈ ps) (hn : ¬(s.task t).Posting i) :
    Books i gs (ps.erase t) s { l with posted := l.posted + 1 } := by
  refine ⟨h.count, h.waiting, h.granted, fun u hu => ?_, h.taken, ?_, h.unpaid⟩
  · have hut : u ≠ t := by
      rintro rfl
      exact hn hu
    exact (List.mem_erase_of_ne hut).2 (h.posting u hu)
  · have hlen := List.length_erase_of_mem ht
    have hpos := List.length_pos_of_mem ht
    have hold := h.posted
    simp only
    omega

/-- A task for which a unit is set aside returns. -/
theorem ret (h : Books i gs ps s l) (ht : t ∈ gs) : Books i (gs.erase t) ps (s.ret t r) l := by
  have hlen := List.length_erase_of_mem ht
  have hpos := List.length_pos_of_mem ht
  have hold := h.taken
  cases hc : (s.task t).call with
  | none =>
    have hs : s.ret t r = s := by
      unfold Sys.ret
      rw [hc]
    rw [hs]
    refine ⟨h.count, h.waiting, fun u hu => ?_, h.posting, by omega, h.posted, h.unpaid⟩
    have hut : u ≠ t := by
      rintro rfl
      obtain ⟨-, c, hc', -⟩ := hu
      rw [hc] at hc'
      cases hc'
    exact (List.mem_erase_of_ne hut).2 (h.granted u hu)
  | some c =>
    rw [Sys.ret_eq hc]
    have hx (u : TaskId) : Settles i (s.task u) ((s.modTask t Task.done).task u) := by
      by_cases hut : u = t
      · subst hut
        simpa using .done _
      · simpa [hut] using .refl _
    refine ⟨h.count, h.waiting, fun u hu => ?_, fun u hu => h.posting u ((hx u).posting hu), ?_,
      ?_, fun u => (hx u).unpaid (h.unpaid u)⟩
    · have hut : u ≠ t := by
        rintro rfl
        obtain ⟨-, c, hc', -⟩ := hu
        simp at hc'
      exact (List.mem_erase_of_ne hut).2 (h.granted u ((hx u).granted hu))
    · rw [Sys.emit_log, List.countP_cons, Sys.modTask_log]
      split <;> omega
    · simpa [List.countP_cons] using h.posted.trans (Nat.le_add_right _ _)

/-- A task that a unit is set aside for is taken off the queue. -/
theorem take (h : Books i gs ps s l) (hw : w ∈ gs)
    (hf : ∀ x, (f x).call = x.call ∧ (f x).pc = x.pc) : Books i gs ps (s.take t [w] f) l := by
  have hx (u : TaskId) : u ≠ w → (s.take t [w] f).task u = s.task u := fun hu => by simp [hu]
  have hpc : ((s.take t [w] f).task w).pc = (s.task w).pc ∧
      ((s.take t [w] f).task w).call = (s.task w).call ∧
      ((s.take t [w] f).task w).place = .held t := by simp [hf]
  refine ⟨h.count, h.waiting, fun u hu => ?_, fun u hu => ?_, ?_, ?_, fun u hq => ?_⟩
  · by_cases huw : u = w
    · exact huw ▸ hw
    · exact h.granted u (hx u huw ▸ hu)
  · by_cases huw : u = w
    · subst huw
      exact h.posting u ⟨hpc.1 ▸ hu.1, hpc.2.1 ▸ hu.2⟩
    · exact h.posting u (hx u huw ▸ hu)
  · simpa [Ev.grants] using h.taken
  · simpa [Ev.posts] using h.posted
  · by_cases huw : u = w
    · subst huw
      rw [hpc.2.2] at hq
      cases hq
    · rw [hx u huw] at hq ⊢
      exact h.unpaid u hq

end Books

/-- The state agrees with the ledger after a step in it. -/
def Advances (i : SemId) (s' : Sys) (l : Ledger) : Prop :=
  ∃ l' gs ps, Ledger.Step True l l' ∧ l'.initial = l.initial ∧ Books i gs ps s' l'

theorem Books.of_quiet (h : Books i gs ps s l) (hq : Quiet i s s') : Advances i s' l :=
  ⟨l, gs, ps, .keep, rfl, h.quiet hq⟩

/-- A wait joins the queue. -/
theorem Books.join (h : Books i gs ps s l) (t : TaskId) :
    Books i gs ps ((s.modSem i fun p => { p with count := p.count - 1 }).modSem i fun p =>
      { p with waitq := p.waitq ++ [t] })
      { l with count := l.count - 1, waiting := l.waiting + 1 } := by
  have hb := (h.modSem fun p => { p with count := p.count - 1 }).modSem fun p =>
    { p with waitq := p.waitq ++ [t] }
  simpa [h.count, h.waiting] using hb

/-- A wait finds a unit. -/
theorem Books.pass (h : Books i gs ps s l) :
    Books i ((t :: gs).erase t) ps ((s.modSem i fun p => { p with count := p.count - 1 }).ret t r)
      { l with count := l.count - 1, taken := l.taken + 1 } := by
  have hb := ((h.modSem fun p => { p with count := p.count - 1 }).grant t).ret (t := t) (r := r)
    List.mem_cons_self
  simpa [h.count, h.waiting] using hb

section

variable (h : Books i gs ps s l)
include h

theorem Books.enter_semWait (hc : (s.task t).call = some (.semWait i)) :
    Advances i (s.enter t (.semWait i)) l := by
  have hcount := h.count
  simp only [Sys.enter]
  split
  · next hn =>
    have hn : 0 ≤ (s.sem i).count - 1 := by simpa using hn
    exact ⟨_, _, ps, .take (by omega), rfl, h.pass⟩
  · next hn =>
    have hn : ¬0 ≤ (s.sem i).count - 1 := by simpa using hn
    refine ⟨_, gs, ps, .wait (by omega), rfl, (h.join t).quiet ?_⟩
    refine .block (.of_task rfl rfl rfl) (by rintro ⟨⟩) fun _ timeout hc' => ?_
    have hc' : (s.task t).call = some (.semTimedwait i timeout) := hc'
    rw [hc] at hc'
    cases hc'

theorem Books.enter_semTimedwait {timeout : Int32} :
    Advances i (s.enter t (.semTimedwait i timeout)) l := by
  have hcount := h.count
  simp only [Sys.enter]
  split
  · next hn =>
    have hn : 0 ≤ (s.sem i).count - 1 := by simpa using hn
    exact ⟨_, _, ps, .take (by omega), rfl, h.pass⟩
  · next hn =>
    have hn : ¬0 ≤ (s.sem i).count - 1 := by simpa using hn
    split
    · exact h.of_quiet (.ret (.of_task rfl (by simp) rfl) fun _ _ _ => (by rintro ⟨⟩))
    · refine ⟨_, gs, ps, .wait (by omega), rfl, (h.join t).quiet ?_⟩
      refine .block (.of_task rfl rfl rfl) ?_ fun _ _ _ => rfl
      unfold Sys.afterJoin
      split <;> rintro ⟨⟩

theorem Books.enter_semPost (hi : Inv s) (hpc : (s.task t).pc = .enter)
    (hc : (s.task t).call = some (.semPost i)) : Advances i (s.enter t (.semPost i)) l := by
  have ht : t ∈ ps := h.posting t ⟨hpc, hc⟩
  have hcount := h.count
  have hwaiting := h.waiting
  have hb := h.modSem fun p => { p with count := p.count + 1 }
  simp only [Sys.enter]
  split
  · next hq =>
    have hq : (s.sem i).waitq = [] := by simpa using hq
    have hret := hb.quiet (.ret (t := t) (r := .bool true) (.of_task rfl rfl rfl) fun c hc' hw => by
      simp only [Sys.modSem_task, hc] at hc'
      obtain rfl := Option.some.inj hc'
      cases hw)
    have hpost := hret.post ht fun hp => by
      have hcall := hp.2
      rw [Sys.ret_call] at hcall
      cases hcall
    refine ⟨_, gs, ps.erase t, .post (by rw [hwaiting, hq]; rfl), rfl, ?_⟩
    simpa [← hcount, ← hwaiting] using hpost
  · next w rest hq =>
    have hq : (s.sem i).waitq = w :: rest := by simpa using hq
    have hwq : w ∈ s.queue (.sem i) := by simp [Sys.queue, hq]
    have htq : t ∉ s.queue (.sem i) := hi.not_mem_queue (by
      rw [hi.place_of_plain (Task.plain_of_pc (by rw [hpc]; rfl))]
      rintro ⟨⟩)
    have hwt : w ≠ t := fun e => htq (e ▸ hwq)
    have htake := ((hb.modSem fun p => { p with waitq := rest }).grant w).take (t := t) (w := w)
      (f := fun x => { x with state := { x.state with waitforSemph := false }, yieldCode := 1 })
      List.mem_cons_self fun _ => ⟨rfl, rfl⟩
    have hne : Pc.waking .spin w [] ≠ .enter := (by rintro ⟨⟩)
    have hpost := (htake.quiet (.goto (t := t) (.of_task rfl rfl rfl) hne)).post ht fun hp => by
      have := hp.1
      simp at this
    refine ⟨_, w :: gs, ps.erase t, .give rest.length (by rw [hwaiting, hq]; rfl), rfl, ?_⟩
    simpa [← hcount] using hpost

end

/-- A tick takes a task off the queues. -/
theorem Books.unlink (h : Books i gs ps s l) (w : TaskId) :
    Advances i (s.unlink w) l := by
  have hwaiting := h.waiting
  by_cases hw : w ∈ (s.sem i).waitq
  · have hlen := List.length_erase_of_mem hw
    have hpos := List.length_pos_of_mem hw
    refine ⟨_, gs, ps, .expire trivial ((s.sem i).waitq.erase w).length (by omega), rfl, ?_⟩
    exact ⟨h.count, rfl, h.granted, h.posting, h.taken, h.posted, h.unpaid⟩
  · have hsem : (s.unlink w).sem i = s.sem i := by
      change { s.sem i with waitq := (s.sem i).waitq.erase w } = s.sem i
      rw [List.erase_of_not_mem hw]
    exact h.of_quiet (.of_task rfl hsem rfl)

/-- The wait of a task that has armed a timer is ended by the tick. -/
theorem Books.expire (h : Books i gs ps s l) (hp : (s.task w).place = .queued)
    (ht : ∀ c, (s.task w).call = some c → c.timed = true) : Books i gs ps (s.expire w) l := by
  refine h.quiet (.emit (.modTask (.of_task rfl rfl rfl) ⟨fun hg => ?_, id, fun _ => nofun⟩) rfl)
  obtain ⟨-, c, hc, hw, ha⟩ := hg
  have hc : (s.task w).call = some c := hc
  exfalso
  cases c with
  | semTimedwait j timeout =>
    obtain rfl : j = i := by simpa [Call.wait] using hw
    have hy := h.unpaid w hp timeout hc
    simp [Call.answer, hy] at ha
  | semWait j => cases ht _ hc
  | _ => cases hw

/-! ## Steps -/

namespace Inv

variable (h : Inv s)
include h

theorem books_go (hb : Books i gs ps s l) (hs : s.go t = some s') : Advances i s' l := by
  have hk : Quiet i s s := .of_task rfl rfl rfl
  unfold Sys.go at hs
  dsimp only at hs
  split at hs
  · cases hs
  · cases hs
  · next hpc =>
    obtain ⟨c, hc, rfl⟩ := Option.map_eq_some_iff.1 hs
    by_cases hw : c.wait = some (.sem i)
    · cases c with
      | semWait j =>
        obtain rfl : j = i := by simpa [Call.wait] using hw
        exact hb.enter_semWait hc
      | semTimedwait j timeout =>
        obtain rfl : j = i := by simpa [Call.wait] using hw
        exact hb.enter_semTimedwait
      | _ => cases hw
    · by_cases hp : c = .semPost i
      · subst hp
        exact hb.enter_semPost h hpc hc
      · exact hb.of_quiet (h.quiet_enter hc hw hp)
  · obtain rfl := Option.some.inj hs
    refine hb.of_quiet (.goto ⟨by simp, by simp, by simp, fun u => ?_⟩ ?_)
    · rw [Sys.fiberWatchdogInsert_task]
      exact .of_same rfl rfl id id id
    · unfold Sys.afterArm
      split <;> rintro ⟨⟩
  · obtain rfl := Option.some.inj hs
    refine hb.of_quiet (hk.modTask (.of_same rfl rfl id id fun he => ?_))
    unfold Sys.afterArmed at he
    dsimp only at he
    split at he <;> cases he
  · next hpc =>
    obtain rfl := Option.some.inj hs
    obtain ⟨c, hc, hf⟩ := h.call_of_pc hpc (by rintro ⟨⟩)
    refine hb.of_quiet (hk.block (by rintro ⟨⟩) fun _ timeout hc' => ?_)
    have hc' : (s.task t).call = some (.semTimedwait i timeout) := hc'
    rw [hc] at hc'
    obtain rfl := Option.some.inj hc'
    cases hf
  · next hpc => exact hb.of_quiet (h.quiet_mutexLock hpc hs)
  · next hpc =>
    obtain rfl := Option.some.inj hs
    exact hb.of_quiet (h.quiet_mutexUnlock hpc)
  · next hpc => exact hb.of_quiet (h.quiet_wake hpc hs)

/-- A task that goes on after a wait returns what it was given. -/
theorem books_resume (hb : Books i gs ps s l)
    (hs : (s.modTask t fun x => { x with scheduler := k }).resume t = some s') :
    Advances i s' l := by
  have hk : Quiet i s ((s.modTask t fun x => { x with scheduler := k }).modTask t
      fun x => x.put .runs) := by
    refine .modTask (.modTask (.of_task rfl rfl rfl) (.of_same rfl rfl id id id)) ?_
    exact .of_same rfl rfl nofun nofun id
  unfold Sys.resume at hs
  simp only [Sys.modTask_task, Function.update_self] at hs
  split at hs
  · next hp =>
    -- A wait for the semaphore returns `true` only if a unit has been set aside for it.
    have hret {c : Call} (hc : (s.task t).call = some c) :
        Advances i (((s.modTask t fun x => { x with scheduler := k }).modTask t
          fun x => x.put .runs).ret t (c.answer (s.task t).yieldCode)) l := by
      by_cases hg : c.wait = some (.sem i) ∧ c.answer (s.task t).yieldCode = .bool true
      · have ht : t ∈ gs := hb.granted t ⟨by rw [hp]; rfl, c, hc, hg⟩
        exact ⟨l, _, ps, .keep, rfl, (hb.quiet hk).ret ht⟩
      · refine hb.of_quiet (hk.ret fun c' hc' hw => ?_)
        obtain rfl : c = c' := by simpa [hc] using hc'
        exact fun ha => hg ⟨hw, ha⟩
    split at hs
    · next m hpc =>
      obtain rfl := Option.some.inj hs
      refine hb.of_quiet (hk.finishLock fun c hc => ?_)
      exact h.wait_of_pc hpc nofun (.inl ⟨_, m, rfl⟩) c (by simpa using hc)
    · obtain rfl := Option.some.inj hs
      exact hb.of_quiet (hk.goto nofun)
    · obtain rfl := Option.some.inj hs
      exact hb.of_quiet (hk.goto nofun)
    · next hc =>
      obtain rfl := Option.some.inj hs
      exact hret hc
    · next hc =>
      obtain rfl := Option.some.inj hs
      exact hret hc
    · obtain rfl := Option.some.inj hs
      exact hb.of_quiet (hk.ret fun _ _ _ => nofun)
    · obtain rfl := Option.some.inj hs
      exact hb.of_quiet (hk.ret fun _ _ _ => nofun)
    · cases hs
  · cases hs

omit h in
/-- The bits of a task whose timer has run out are cleared. -/
theorem books_clear (hb : Books i gs ps s l) (hp : (s.task w).place = .queued)
    (hw : Fired (s.task w)) (hx : (f (s.task w)).call = (s.task w).call ∧
      (f (s.task w)).yieldCode = (s.task w).yieldCode ∧
      (f (s.task w)).place = (s.task w).place ∧ (f (s.task w)).pc = (s.task w).pc) :
    Books i gs ps (s.modTask w f) l ∧ ((s.modTask w f).task w).place = .queued ∧
      ∀ c, ((s.modTask w f).task w).call = some c → c.timed = true := by
  obtain ⟨h1, h2, h3, h4⟩ := hx
  refine ⟨hb.quiet (.modTask (.of_task rfl rfl rfl) (.of_same h1 h2 ?_ ?_ ?_)), ?_, ?_⟩
  · exact fun ho => h3 ▸ ho
  · exact fun hq => h3 ▸ hq
  · exact fun he => h4 ▸ he
  · simpa [h3] using hp
  · simpa [h1] using hw.call

omit h in
/-- A wait that a tick ends returns `false`, or it is none for the semaphore. -/
theorem books_expire (hb : Books i gs ps s l) (hp : (s.task w).place = .queued)
    (hw : Fired (s.task w)) (hx : (f (s.task w)).call = (s.task w).call ∧
      (f (s.task w)).yieldCode = (s.task w).yieldCode ∧
      (f (s.task w)).place = (s.task w).place ∧ (f (s.task w)).pc = (s.task w).pc) :
    Advances i (((s.modTask w f).expire w).setTick k .pass) l := by
  obtain ⟨hbit, hplace, htimed⟩ := books_clear hb hp hw hx
  exact (hbit.expire hplace htimed).of_quiet (.of_task rfl rfl rfl)

omit h in
theorem books_expire_unlink (hb : Books i gs ps s l) (hp : (s.task w).place = .queued)
    (hw : Fired (s.task w)) (hx : (f (s.task w)).call = (s.task w).call ∧
      (f (s.task w)).yieldCode = (s.task w).yieldCode ∧
      (f (s.task w)).place = (s.task w).place ∧ (f (s.task w)).pc = (s.task w).pc) :
    Advances i ((((s.modTask w f).unlink w).expire w).setTick k .pass) l := by
  obtain ⟨hbit, hplace, htimed⟩ := books_clear hb hp hw hx
  obtain ⟨l', gs', ps', hstep, hinit, hb'⟩ := hbit.unlink w
  exact ⟨l', gs', ps', hstep, hinit, (hb'.expire hplace htimed).quiet (.of_task rfl rfl rfl)⟩

theorem books_tickGo (hb : Books i gs ps s l) (hs : s.tickGo k = some s')
    (hf : ∀ w n, s.expires k = some (w, n) → Fired (s.task w)) : Advances i s' l := by
  have hset {p : TickPc} : Advances i (s.setTick k p) l := hb.of_quiet (.of_task rfl rfl rfl)
  unfold Sys.expires at hf
  unfold Sys.tickGo at hs
  dsimp only at hs
  split at hs
  · cases hs
  · cases hs
  · next w n htick =>
    split at hs
    · obtain rfl := Option.some.inj hs
      exact hset
    · next h1 =>
      split at hs
      · obtain rfl := Option.some.inj hs
        exact hset
      · next h2 =>
        split at hs
        · next h3 =>
          obtain rfl := Option.some.inj hs
          have hw := hf w n (by simp_all)
          exact books_expire hb (h.sleep_of_bit h3).1 hw ⟨rfl, rfl, rfl, rfl⟩
        · obtain rfl := Option.some.inj hs
          exact hset
  · obtain ⟨o, -, rfl⟩ := Option.map_eq_some_iff.1 hs
    exact hset
  · next w o n htick =>
    split at hs
    · next hbit =>
      obtain rfl := Option.some.inj hs
      obtain ⟨q, hp, -⟩ := h.queue_of_bit hbit
      have hw := hf w n (by simp_all)
      exact books_expire_unlink hb hp hw ⟨rfl, rfl, rfl, rfl⟩
    · obtain rfl := Option.some.inj hs
      exact hset
  · next w n htick =>
    split at hs
    · next hbit =>
      obtain rfl := Option.some.inj hs
      have hw := hf w n (by simp_all)
      exact books_expire hb (h.event_of_bit hbit).1 hw ⟨rfl, rfl, rfl, rfl⟩
    · obtain rfl := Option.some.inj hs
      exact hset

/-- A post that begins is not posted yet. -/
theorem books_call (hb : Books i gs ps s l) (hpc : (s.task t).pc = .idle) :
    Advances i ((s.modTask t fun x =>
      { x with call := some c, pc := Sys.firstPc c, calls := x.calls + 1 }).emit (.begin t c)) l := by
  have hp : (s.task t).place = .runs := h.place_of_plain (Task.plain_of_pc (by rw [hpc]; rfl))
  have hother (u : TaskId) (hu : u ≠ t) : ((s.modTask t fun x =>
      { x with call := some c, pc := Sys.firstPc c, calls := x.calls + 1 }).task u) = s.task u := by
    simp [hu]
  have hgranted (u : TaskId) (hu : ((s.modTask t fun x =>
      { x with call := some c, pc := Sys.firstPc c, calls := x.calls + 1 }).task u).Granted i) :
      u ∈ gs := by
    by_cases hut : u = t
    · subst hut
      have hoff := hu.1
      simp [hp, Place.off] at hoff
    · exact hb.granted u (hother u hut ▸ hu)
  have hunpaid (u : TaskId) : ((s.modTask t fun x =>
      { x with call := some c, pc := Sys.firstPc c, calls := x.calls + 1 }).task u).Unpaid i := by
    by_cases hut : u = t
    · subst hut
      intro hq
      simp [hp] at hq
    · rw [hother u hut]
      exact hb.unpaid u
  by_cases hc : c = .semPost i
  · subst hc
    refine ⟨l, gs, t :: ps, .keep, rfl, hb.count, hb.waiting, hgranted, fun u hu => ?_, ?_, ?_,
      hunpaid⟩
    · by_cases hut : u = t
      · exact hut ▸ List.mem_cons_self
      · exact List.mem_cons_of_mem _ (hb.posting u (hother u hut ▸ hu))
    · simpa [Ev.grants] using hb.taken
    · have hold := hb.posted
      simp only [Sys.emit_log, Sys.modTask_log, List.countP_cons, Ev.posts, decide_true, if_true,
        List.length_cons]
      omega
  · refine ⟨l, gs, ps, .keep, rfl, hb.count, hb.waiting, hgranted, fun u hu => ?_, ?_, ?_, hunpaid⟩
    · by_cases hut : u = t
      · subst hut
        have hcall := hu.2
        simp only [Sys.emit_task, Sys.modTask_task, Function.update_self] at hcall
        exact absurd (Option.some.inj hcall) hc
      · exact hb.posting u (hother u hut ▸ hu)
    · simpa [Ev.grants] using hb.taken
    · simpa [Ev.posts, hc] using hb.posted

/-- **Every step is one of the semaphore's ledger**, if no tick is late. -/
theorem books_step (ht : TimersOk s) (hb : Books i gs ps s l) {mv : Move}
    (hd : s.punctual mv = true) (hs : s.step mv = some s') : Advances i s' l := by
  cases mv with
  | call t c =>
    simp only [Sys.step] at hs
    split at hs
    · next hidle =>
      obtain rfl := Option.some.inj hs
      exact h.books_call hb hidle.1
    · cases hs
  | go t =>
    simp only [Sys.step] at hs
    split at hs
    · exact h.books_go hb hs
    · cases hs
  | resume t k =>
    simp only [Sys.step] at hs
    split at hs
    · exact h.books_resume hb hs
    · cases hs
  | tickle k | tickEnd k =>
    simp only [Sys.step] at hs
    split at hs
    · obtain rfl := Option.some.inj hs
      exact hb.of_quiet (.of_task rfl rfl rfl)
    · cases hs
  | timer k w =>
    simp only [Sys.step] at hs
    split at hs
    · obtain rfl := Option.some.inj hs
      refine hb.of_quiet ⟨rfl, rfl, le_rfl, fun u => ?_⟩
      by_cases huw : u = w
      · subst huw
        simpa using .of_same rfl rfl id id id
      · simpa [huw] using .refl _
    · cases hs
  | tickGo k =>
    exact h.books_tickGo hb hs fun w n he => ht.fired_of_expires he (Sys.calls_of_punctual hd he)

end Inv

/-! ## Runs -/

/-- The number of waits for `i` that have returned `true`. -/
def Sys.granted (s : Sys) (i : SemId) : Nat := s.log.countP (Ev.grants i)

/-- The number of posts on `i` that have begun. -/
def Sys.posts (s : Sys) (i : SemId) : Nat := s.log.countP (Ev.posts i)

/-- What a step of a tick does to the waits and the queues. -/
structure TickOk (s s' : Sys) (k : ThreadId) : Prop where
  /-- Only waits with a timeout are ended, -/
  timed : ∀ w n, s.expires k = some (w, n) →
    ∃ c, (s.task w).call = some c ∧ c.timed = true ∧ (s.task w).calls = n
  /-- and a semaphore that the tick has not locked keeps its queue. -/
  queue : ∀ j, (∀ w n, s.tick k ≠ .locked w (.sem j) n) → (s'.sem j).waitq = (s.sem j).waitq

variable {v : SemId → Int32} {mem : TaskId → Task}

theorem books_init (i : SemId) : Books i [] [] (init v mem)
    { count := (v i).toInt, waiting := 0, taken := 0, posted := 0, initial := (v i).toInt,
      expired := 0 } := by
  refine ⟨rfl, rfl, fun t ht => ?_, fun t ht => ?_, le_rfl, le_rfl, fun _ => nofun⟩
  · cases ht.1
  · cases ht.1

/-- In a run without a late tick every semaphore agrees with a ledger that is in order. -/
theorem reach_books (h : Reach Sys.step (fun s mv => s.punctual mv) (init v mem) s) (i : SemId) :
    ∃ l gs ps, Books i gs ps s l ∧ l.Sound ∧ l.Covered ∧ l.initial = (v i).toInt := by
  refine Reach.invariant_of (I := fun s => Inv s ∧ TimersOk s)
    (P := fun s => ∃ l gs ps, Books i gs ps s l ∧ l.Sound ∧ l.Covered ∧ l.initial = (v i).toInt) h
    ⟨.init v mem, .init v mem⟩ ⟨_, [], [], books_init i, ⟨by simp, ?_⟩, ?_, rfl⟩ ?_ ?_
  · exact fun hv _ => .inl ⟨hv, rfl⟩
  · intro hv
    simpa using hv
  · rintro s mv s' ⟨hi, ht⟩ hd hs
    exact ⟨hi.step hs, ht.step hi hd hs⟩
  · rintro s mv s' ⟨hi, ht⟩ ⟨l, gs, ps, hb, hsound, hcov, hv⟩ hd hs
    obtain ⟨l', gs', ps', hstep, hinit, hb'⟩ := hi.books_step ht hb hd hs
    exact ⟨l', gs', ps', hb', hsound.step hstep, hcov.step hstep, hinit.trans hv⟩

/-- The task whose wait a tick ends is waiting. -/
theorem Inv.waiting_of_expires (h : Inv s) {n : Nat} (he : s.expires k = some (w, n)) :
    ∃ q, (s.task w).waiting = some q ∧ ∀ m, q ≠ .mutex m := by
  unfold Sys.expires at he
  dsimp only at he
  split at he
  · split at he
    · cases he
    · split at he
      · next hb =>
        cases he
        exact ⟨_, (h.sleep_of_bit hb).2, nofun⟩
      · cases he
  · split at he
    · next hb =>
      cases he
      obtain ⟨q, -, hw, hq⟩ := h.queue_of_bit hb
      refine ⟨q, hw, fun m hm => ?_⟩
      subst hm
      rcases hq with ⟨i, hi⟩ | ⟨d, hd⟩
      · cases hi
      · cases hd
    · cases he
  · split at he
    · next hb =>
      cases he
      exact ⟨_, (h.event_of_bit hb).2, nofun⟩
    · cases he
  · cases he

theorem TimersOk.tickOk (h : TimersOk s) (hi : Inv s) (hd : s.punctual (.tickGo k) = true)
    (hs : s.step (.tickGo k) = some s') : TickOk s s' k := by
  refine ⟨fun w n he => ?_, fun j hj => ?_⟩
  · have hn := Sys.calls_of_punctual hd he
    obtain ⟨q, hw, hm⟩ := hi.waiting_of_expires he
    obtain ⟨c, hc, -⟩ := Task.call_of_waiting hw hm
    exact ⟨c, hc, (h.fired_of_expires he hn).call c hc, hn⟩
  · simp only [Sys.step, Sys.tickGo] at hs
    split at hs
    · cases hs
    · cases hs
    · split at hs
      · obtain rfl := Option.some.inj hs
        rfl
      · split at hs
        · obtain rfl := Option.some.inj hs
          rfl
        · split at hs <;>
          · obtain rfl := Option.some.inj hs
            rfl
    · obtain ⟨o, -, rfl⟩ := Option.map_eq_some_iff.1 hs
      rfl
    · next w o n htick =>
      split at hs
      · next hb =>
        obtain rfl := Option.some.inj hs
        have he : s.expires k = some (w, n) := by simp only [Sys.expires, htick, hb, if_true]
        have hmem := h.locked_object hi htick he (Sys.calls_of_punctual hd he)
        have hnot : w ∉ (s.sem j).waitq := fun hw => by
          have h1 := ((hi.queue _ w).1 hmem).2.2
          have h2 := ((hi.queue (.sem j) w).1 hw).2.2
          rw [h1] at h2
          cases o with
          | sem i =>
            obtain rfl : i = j := by simpa [Obj.wait] using h2
            exact hj w n htick
          | cond d => cases h2
        exact List.erase_of_not_mem hnot
      · obtain rfl := Option.some.inj hs
        rfl
    · split at hs <;>
      · obtain rfl := Option.some.inj hs
        rfl

/-- **A semaphore never grants more than it has**, if no tick is late: the waits that have returned
`true` are at most its initial value and the posts that have begun; and a tick ends only waits with a
timeout, and takes tasks only out of the queue whose lock it holds. -/
theorem reach_grantsBounded (h : Reach Sys.step (fun s mv => s.punctual mv) (init v mem) s)
    (i : SemId) : (0 ≤ (v i).toInt → (s.granted i : Int) ≤ (v i).toInt + s.posts i) ∧
      ∀ k s', s.punctual (.tickGo k) = true → s.step (.tickGo k) = some s' → TickOk s s' k := by
  refine ⟨fun hv => ?_, fun k s' hd hs => ?_⟩
  · obtain ⟨l, gs, ps, hb, hsound, hcov, hinit⟩ := reach_books h i
    have hle := hsound.taken_le hcov (hinit ▸ hv)
    have htaken := hb.taken
    have hposted := hb.posted
    unfold Sys.granted Sys.posts
    omega
  · exact (reach_timersOk h).tickOk (Reachable.inv h.any) hd hs

/-- The timer of task 1 runs out, and a tick ends its wait for the semaphore. Then task 2 waits, task 3
posts the semaphore, and task 2 goes on. -/
def grantRun : List Move :=
  [.call 1 (.semTimedwait 0 10), .go 1, .go 1, .go 1, .tickle 1, .timer 1 1, .tickGo 1, .tickGo 1,
    .tickGo 1, .tickEnd 1, .resume 1 1, .call 2 (.semWait 0), .go 2, .call 3 (.semPost 0), .go 3,
    .go 3, .go 3, .go 3, .resume 2 2]

theorem grantRun_grantsBounded : ∃ s,
    Reach Sys.step (fun s mv => s.punctual mv) (init (fun _ => 0) fun t => { scheduler := t }) s ∧
    .expired 1 ∈ s.log ∧ s.granted 0 = 1 ∧ s.posts 0 = 1 ∧
    (0 ≤ Int32.toInt 0 → (s.granted 0 : Int) ≤ Int32.toInt 0 + s.posts 0) ∧
    ∀ k s', s.punctual (.tickGo k) = true → s.step (.tickGo k) = some s' → TickOk s s' k := by
  have hrun : ((grantRun.foldlM (Reach.guarded Sys.step fun s mv => s.punctual mv = true)
      (init (fun _ => 0) fun t => { scheduler := t })).map fun s =>
        (decide (.expired 1 ∈ s.log), s.granted 0, s.posts 0)) = some (true, 1, 1) := by
    decide +kernel
  obtain ⟨s, hs, hq⟩ := Option.map_eq_some_iff.1 hrun
  simp only [Prod.mk.injEq, decide_eq_true_eq] at hq
  obtain ⟨he, hg, hp⟩ := hq
  have hreach := Reach.of_guarded hs
  obtain ⟨hbound, htick⟩ := reach_grantsBounded hreach 0
  exact ⟨s, hreach, he, hg, hp, hbound, htick⟩

/-- The timer of task 1, which waits for the first semaphore, runs out on thread 1, and the tick goes
on to lock that semaphore. Before it does, task 2 posts it, task 1 goes on on thread 3 and waits for
the second semaphore, without a timeout. -/
def lateRun : List Move :=
  [.call 1 (.semTimedwait 1 10), .go 1, .go 1, .go 1, .tickle 1, .timer 1 1, .tickGo 1, .tickGo 1,
    .call 2 (.semPost 1), .go 2, .go 2, .go 2, .go 2, .resume 1 3, .call 1 (.semWait 2), .go 1]

theorem not_grantsBounded : ∃ s s₁ s₂,
    Reach Sys.step anyMove (init (fun _ => 0) fun t => { scheduler := t }) s ∧
    s.tick 1 = .locked 1 (.sem 1) 1 ∧ (s.task 1).call = some (.semWait 2) ∧
    (s.sem 2).waitq = [1] ∧ s.step (.tickGo 1) = some s₁ ∧ (s₁.sem 2).waitq = [] ∧
    s₁.step (.resume 1 3) = some s₂ ∧ s₂.posts 2 = 0 ∧ s₂.granted 2 = 1 ∧
    ¬((s₂.granted 2 : Int) ≤ Int32.toInt 0 + s₂.posts 2) := by
  have hrun : ((lateRun.foldlM Sys.step (init (fun _ => 0) fun t => { scheduler := t })).map
      fun s => (decide (s.tick 1 = .locked 1 (.sem 1) 1 ∧ (s.task 1).call = some (.semWait 2) ∧
        (s.sem 2).waitq = [1]), (s.step (.tickGo 1)).map fun s₁ => ((s₁.sem 2).waitq,
          (s₁.step (.resume 1 3)).map fun s₂ => decide (s₂.posts 2 = 0 ∧ s₂.granted 2 = 1)))) =
            some (true, some ([], some true)) := by decide +kernel
  obtain ⟨s, hs, hq⟩ := Option.map_eq_some_iff.1 hrun
  simp only [Prod.mk.injEq, Option.map_eq_some_iff, decide_eq_true_eq] at hq
  obtain ⟨⟨htick, hcall, hwaitq⟩, s₁, hs₁, hq₁, s₂, hs₂, hp, hg⟩ := hq
  refine ⟨s, s₁, s₂, Reach.of_foldlM hs, htick, hcall, hwaitq, hs₁, hq₁, hs₂, hp, hg, ?_⟩
  rw [hp, hg]
  decide

end

end Ptask.Agents
