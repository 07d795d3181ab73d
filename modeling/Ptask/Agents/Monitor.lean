import Ptask.Agents.Mutex

/-!
# The mutex of a wait for a condition

`fiber_cond_wait` and `fiber_cond_timedwait` release the mutex with one unlock and take it again with
one lock. If the task holds the mutex once, it does not hold it while it waits, and holds it once
when the call returns (`reach_waitsRelease`). If it holds the mutex more than once, one unlock does
not release it.
-/

namespace Ptask.Agents

open Ptask.Lib Ptask.Lib.Handoff

/-- The mutex that a wait for a condition releases, and takes again before it returns. -/
def Call.releases : Call → Option MutexId
  | .condWait _ m => some m
  | .condTimedwait _ m timeout => if timeout = 0 then none else some m
  | _ => none

/-- The wait has released its mutex and not yet begun to take it again. -/
def Pc.released : Pc → Bool
  | .unlock (.reent _) _ | .unlock (.clear _) _ | .unlock (.ready _) _ | .parked => true
  | _ => false

/-- How many times a task holds the mutex of its wait, if it was once in the beginning. -/
def Pc.depthIn : Pc → Option Nat
  | .arm | .armed => some 1
  | .unlock (.reent _) _ | .unlock (.clear _) _ | .unlock (.ready _) _ => some 0
  | .unlock .. => some 1
  | .parked | .lock .. => some 0
  | _ => none

/-- The depth at which a task holds the mutex with which it begins to wait satisfies `P`. -/
def Task.waitsAt (P : Nat → Bool) (x : Task) : Bool :=
  match x.pc, x.call.bind Call.releases with
  | .enter, some m => P (x.depth m)
  | _, _ => true

def Sys.waitsAt (P : Nat → Bool) (s : Sys) : Move → Bool
  | .go t => (s.task t).waitsAt P
  | _ => true

/-- The invariant: a task that waits holds the mutex once or not at all. -/
def HeldOnce (x : Task) : Prop :=
  ∀ c m n, x.call = some c → c.releases = some m → x.pc.depthIn = some n → x.depth m = n

section

variable {s s' : Sys} {t u w : TaskId} {m m' : MutexId} {c : Call}

namespace Call

theorem unlocks_of_releases (h : c.releases = some m) : c.unlocks m' = true ↔ m' = m := by
  cases c with
  | condWait c m₁ =>
    obtain rfl := Option.some.inj h
    simp [unlocks, eq_comm]
  | condTimedwait c m₁ timeout =>
    simp only [releases, Option.ite_none_left_eq_some] at h
    obtain rfl := Option.some.inj h.2
    simp [unlocks, eq_comm]
  | _ => cases h

theorem locks_of_releases (h : c.releases = some m) : c.locks m' = true ↔ m' = m := by
  cases c with
  | condWait c m₁ =>
    obtain rfl := Option.some.inj h
    simp [locks, eq_comm]
  | condTimedwait c m₁ timeout =>
    simp only [releases, Option.ite_none_left_eq_some] at h
    obtain rfl := Option.some.inj h.2
    simp [locks, eq_comm]
  | _ => cases h

end Call

theorem Pc.depthIn_of_released {pc : Pc} (h : pc.released = true) : pc.depthIn = some 0 := by
  cases pc with
  | unlock p m => cases p <;> first | rfl | cases h
  | parked => rfl
  | _ => cases h

theorem Task.role_of_released {x : Task} (m : MutexId) (h : x.pc.released = true) :
    x.role m = .out ∨ ∃ w b, x.role m = .giving w b := by
  unfold Task.role
  generalize x.pc = pc at h
  cases pc with
  | unlock p m' =>
    by_cases hm : m' = m
    · cases p with
      | reent w | clear w | ready w => exact .inr ⟨w, _, if_pos hm⟩
      | _ => cases h
    · exact .inl (if_neg hm)
  | parked => exact .inl rfl
  | _ => cases h

/-! ## A step of a wait -/

/-- The task is still in the call and holds the mutex as often as it should, or has returned. -/
def Goes (c : Call) (m : MutexId) (x' : Task) : Prop :=
  (x'.call = some c ∧ ∀ n, x'.pc.depthIn = some n → x'.depth m = n) ∨
    (x'.call = none ∧ x'.depth m = 1)

namespace Sys

/-- The unlock of a wait is followed by `fiber_sched`. -/
theorem finishUnlock_of_releases {b : Bool} (hc : (s.task t).call = some c)
    (hm : c.releases = some m) : s.finishUnlock t b = s.goto t .parked := by
  unfold finishUnlock
  split
  · next hu =>
    rw [hc] at hu
    obtain rfl := Option.some.inj hu
    cases hm
  · rfl

theorem enter_condTimedwait {d : CondId} {timeout : Int32} (h0 : timeout ≠ 0) :
    ((s.enter t (.condTimedwait d m timeout)).task t).call = (s.task t).call ∧
    ((s.enter t (.condTimedwait d m timeout)).task t).depth m = (s.task t).depth m ∧
    ((s.enter t (.condTimedwait d m timeout)).task t).pc =
      afterJoin timeout (.unlock .test m) := by
  simp [enter, h0]

theorem finishLock_task (hc : (s.task t).call = some c) :
    (s.finishLock t m).task t = ((s.task t).setDepth m ((s.task t).depth m + 1)).done := by
  obtain ⟨r, hr⟩ := s.finishLock_eq (m := m) hc
  rw [hr, emit_task, modTask_task, Function.update_self]

end Sys

theorem goes_enter (hc : (s.task t).call = some c) (hm : c.releases = some m)
    (hd : (s.task t).depth m = 1) : Goes c m ((s.enter t c).task t) := by
  cases c with
  | condWait cond m₁ =>
    obtain rfl := Option.some.inj hm
    refine .inl ⟨by simpa [Sys.enter] using hc, fun n hn => ?_⟩
    obtain rfl : 1 = n := by simpa [Sys.enter, Pc.depthIn] using hn
    simpa [Sys.enter] using hd
  | condTimedwait cond m₁ timeout =>
    obtain ⟨h0, rfl⟩ : timeout ≠ 0 ∧ m₁ = m := by simpa [Call.releases] using hm
    obtain ⟨hcall, hdepth, hpc⟩ := Sys.enter_condTimedwait (s := s) (t := t) (m := m₁)
      (d := cond) h0
    refine .inl ⟨hcall.trans hc, fun n hn => ?_⟩
    rw [hpc, Sys.afterJoin] at hn
    rw [hdepth, hd]
    split at hn <;> exact Option.some.inj hn
  | _ => cases hm

namespace Inv

variable (h : Inv s)
include h

omit h in
theorem goes_lock (hok : (s.view m).Ok) {p : LockPc} (hpc : (s.task t).pc = .lock p m)
    (hc : (s.task t).call = some c) (hd : (s.task t).depth m = 0)
    (hs : s.mutexLock t m p = some s') : Goes c m (s'.task t) := by
  have hlock (p' : LockPc) (n : Nat) (hn : Pc.depthIn (.lock p' m) = some n) :
      (s.task t).depth m = n := by
    rw [hd]
    exact Option.some.inj hn
  cases p with
  | test =>
    obtain rfl := Option.some.inj hs
    refine .inl ⟨by simpa using hc, fun n hn => ?_⟩
    rw [Sys.goto_task, Function.update_self] at hn ⊢
    exact hlock _ n hn
  | nest =>
    have hrel := hok.relies t
    have hr : (s.view m).role t = .nest := Task.role_lock hpc
    simp only [Lock.Relies, hr] at hrel
    exact absurd hd hrel.2.1.ne'
  | section_ =>
    simp only [Sys.mutexLock] at hs
    split at hs
    · obtain rfl := Option.some.inj hs
      refine .inl ⟨by simpa using hc, fun n hn => ?_⟩
      rw [Sys.goto_task, Function.update_self] at hn ⊢
      exact hlock _ n hn
    · obtain rfl := Option.some.inj hs
      refine .inl ⟨by simpa using hc, fun n hn => ?_⟩
      rw [Sys.block_task, Function.update_self] at hn ⊢
      exact hlock _ n hn
  | own =>
    obtain rfl := Option.some.inj hs
    rw [Sys.finishLock_task (s := s.modMutex m _) hc]
    exact .inr ⟨rfl, by simp [hd]⟩
  | parked => cases hs

theorem goes_unlock (hok : (s.view m).Ok) {p : UnlockPc} (hpc : (s.task t).pc = .unlock p m)
    (hc : (s.task t).call = some c) (hm : c.releases = some m)
    (hd : ∀ n, (s.task t).pc.depthIn = some n → (s.task t).depth m = n) :
    Goes c m ((s.mutexUnlock t m p).task t) := by
  have hrel := hok.relies t
  have hr : (s.view m).role t = p.role := Task.role_unlock hpc
  -- The steps that only go on in the unlock function.
  have hgo {s₁ : Sys} {p' : UnlockPc} (ht : s₁.task t = s.task t)
      (hp : Pc.depthIn (.unlock p' m) = (Pc.unlock p m).depthIn) :
      Goes c m ((s₁.goto t (.unlock p' m)).task t) := by
    refine .inl ⟨?_, fun n hn => ?_⟩
    · simpa [ht] using hc
    · rw [Sys.goto_task, Function.update_self, Task.goto_pc, hp, ← hpc] at hn
      simpa [ht] using hd n hn
  cases p with
  | test =>
    have hh : (s.mutex m).holder = some t := hok.holder_of_depth (by
      change 0 < (s.task t).depth m
      rw [hd 1 (by rw [hpc]; rfl)]
      exact Nat.one_pos)
    simp only [Sys.mutexUnlock, hh, ne_eq, not_true, if_false]
    exact hgo rfl rfl
  | dec => exact hgo rfl rfl
  | retest =>
    have hcount : (s.mutex m).reentries = 0 := by
      simp only [Lock.Relies, hr, UnlockPc.role] at hrel
      have h1 : (s.view m).depth t = 1 := hd 1 (by rw [hpc]; rfl)
      have h0 : (s.mutex m).reentries.toNat = 0 := Nat.succ.inj (hrel.2.trans h1)
      exact BitVec.eq_of_toNat_eq h0
    simp only [Sys.mutexUnlock, hcount, ne_eq, not_true, if_false]
    exact hgo rfl rfl
  | release =>
    have h1 : (s.task t).depth m = 1 := hd 1 (by rw [hpc]; rfl)
    simp only [Sys.mutexUnlock]
    split
    · rw [Sys.finishUnlock_of_releases (by simpa using hc) hm]
      refine .inl ⟨by simpa using hc, fun n hn => ?_⟩
      obtain rfl : 0 = n := by simpa [Pc.depthIn] using hn
      simp [h1]
    · next w hq =>
      refine .inl ⟨?_, fun n hn => ?_⟩
      · by_cases hw : t = w <;> simpa [hw] using hc
      · obtain rfl : 0 = n := by simpa [Pc.depthIn] using hn
        by_cases hw : t = w
        · subst hw
          simp [h1]
        · simp [hw, h1]
  | reent w => exact hgo rfl rfl
  | clear w =>
    have hwt := h.ne_of_held (t := t) (w := w) (by rw [hpc]; exact List.mem_singleton_self w)
    exact hgo (by simp [Ne.symm hwt]) rfl
  | ready w =>
    have hwt := h.ne_of_held (t := t) (w := w) (by rw [hpc]; exact List.mem_singleton_self w)
    have ht : ((s.modTask w fun x => x.put .woken).emit (.woken t w)).task t = s.task t := by
      simp [Ne.symm hwt]
    have hc₁ : (((s.modTask w fun x => x.put .woken).emit (.woken t w)).task t).call = some c := by
      rw [ht, hc]
    rw [Sys.mutexUnlock, Sys.finishUnlock_of_releases hc₁ hm]
    refine .inl ⟨?_, fun n hn => ?_⟩
    · rw [Sys.goto_task, Function.update_self, Task.goto_call, hc₁]
    · rw [Sys.goto_task, Function.update_self] at hn ⊢
      rw [Task.goto_depth, ht]
      exact hd n (by rw [hpc]; exact hn)

/-- **What the steps of a wait do.** -/
theorem goes_go (hok : (s.view m).Ok) (hc : (s.task t).call = some c) (hm : c.releases = some m)
    (hdepth : ∀ n, (s.task t).pc.depthIn = some n → (s.task t).depth m = n)
    (hd : (s.task t).pc = .enter → (s.task t).depth m = 1) (hs : s.go t = some s') :
    Goes c m (s'.task t) := by
  obtain ⟨c', hc', hfit⟩ := h.call_of_pc (t := t) rfl (by
    intro hidle
    simp [Sys.go, hidle] at hs)
  rw [hc] at hc'
  obtain rfl := Option.some.inj hc'
  unfold Sys.go at hs
  dsimp only at hs
  split at hs
  · cases hs
  · cases hs
  · next hpc =>
    rw [hc] at hs
    obtain rfl := Option.some.inj hs
    exact goes_enter hc hm (hd hpc)
  · next hpc =>
    obtain rfl := Option.some.inj hs
    refine .inl ⟨?_, fun n hn => ?_⟩
    · simpa [Sys.fiberWatchdogInsert_task] using hc
    · have hafter : Sys.afterArm (some c) = .armed := by cases c <;> first | rfl | cases hm
      rw [Sys.goto_task, Function.update_self, Task.goto_pc, hc, hafter] at hn
      rw [Sys.goto_task, Function.update_self, Task.goto_depth, Sys.fiberWatchdogInsert_task]
      exact hdepth n (by rw [hpc]; exact hn)
  · next hpc =>
    obtain rfl := Option.some.inj hs
    refine .inl ⟨by simpa using hc, fun n hn => ?_⟩
    have hafter : Sys.afterArmed (some c) = .unlock .test m := by
      rw [hpc] at hfit
      cases c with
      | condWait => cases hfit
      | condTimedwait cond m₁ timeout =>
        obtain ⟨-, rfl⟩ : timeout ≠ 0 ∧ m₁ = m := by simpa [Call.releases] using hm
        rfl
      | _ => cases hm
    rw [Sys.modTask_task, Function.update_self] at hn ⊢
    simp only [hc, hafter] at hn
    exact hdepth n (by rw [hpc]; exact hn)
  · next hpc =>
    rw [hpc] at hfit
    cases c with
    | condWait | condTimedwait => cases hfit
    | _ => cases hm
  · next p m' hpc =>
    rw [hpc] at hfit
    obtain rfl := (Call.locks_of_releases hm).1 hfit
    exact goes_lock hok hpc hc (hdepth 0 (by rw [hpc]; rfl)) hs
  · next p m' hpc =>
    obtain rfl := Option.some.inj hs
    rw [hpc] at hfit
    obtain rfl := (Call.unlocks_of_releases hm).1 hfit
    exact h.goes_unlock hok hpc hc hm hdepth
  · next hpc =>
    rw [hpc] at hfit
    cases c with
    | condWait | condTimedwait => cases hfit
    | _ => cases hm

/-- The wait goes on to take the mutex, or it has taken it and returns. -/
theorem goes_resume (hc : (s.task t).call = some c) (hm : c.releases = some m)
    (hdepth : ∀ n, (s.task t).pc.depthIn = some n → (s.task t).depth m = n) {k : ThreadId}
    (hs : (s.modTask t fun x => { x with scheduler := k }).resume t = some s') :
    Goes c m (s'.task t) := by
  unfold Sys.resume at hs
  simp only [Sys.modTask_task, Function.update_self] at hs
  split at hs
  · split at hs
    · next m' hpc =>
      obtain rfl := Option.some.inj hs
      obtain ⟨c', hc', hfit⟩ := h.call_of_pc hpc nofun
      rw [hc] at hc'
      obtain rfl := Option.some.inj hc'
      obtain rfl := (Call.locks_of_releases hm).1 hfit
      rw [Sys.finishLock_task (c := c) (by simpa using hc)]
      refine .inr ⟨rfl, ?_⟩
      simpa using hdepth 0 (by rw [hpc]; rfl)
    · next hpc hcall =>
      obtain rfl := Option.some.inj hs
      refine .inl ⟨by simpa using hc, fun n hn => ?_⟩
      rw [Sys.goto_task, Function.update_self] at hn
      simpa using hdepth n (by rw [hpc]; exact hn)
    · next hpc hcall =>
      obtain rfl := Option.some.inj hs
      refine .inl ⟨by simpa using hc, fun n hn => ?_⟩
      rw [Sys.goto_task, Function.update_self] at hn
      simpa using hdepth n (by rw [hpc]; exact hn)
    all_goals
      first
      | next hcall =>
        rw [hc] at hcall
        obtain rfl := Option.some.inj hcall
        cases hm
      | cases hs
  · cases hs

/-- **What the steps of a task that waits for a condition do.** -/
theorem goes_step (hok : (s.view m).Ok) (hc : (s.task t).call = some c) (hm : c.releases = some m)
    (hdepth : ∀ n, (s.task t).pc.depthIn = some n → (s.task t).depth m = n) {mv : Move}
    (hd : mv = .go t → (s.task t).pc = .enter → (s.task t).depth m = 1) (ha : mv.agent = some t)
    (hs : s.step mv = some s') : Goes c m (s'.task t) := by
  cases mv with
  | call t' c' =>
    obtain rfl := Option.some.inj ha
    simp only [Sys.step] at hs
    split at hs
    · next hidle =>
      rcases (h.task t').fits with ⟨-, hn⟩ | ⟨c₀, -, hf⟩
      · rw [hc] at hn
        cases hn
      · rw [hidle.1] at hf
        cases hf
    · cases hs
  | go t' =>
    obtain rfl := Option.some.inj ha
    simp only [Sys.step] at hs
    split at hs
    · exact h.goes_go hok hc hm hdepth (hd rfl) hs
    · cases hs
  | resume t' k =>
    obtain rfl := Option.some.inj ha
    simp only [Sys.step] at hs
    split at hs
    · exact h.goes_resume hc hm hdepth hs
    · cases hs
  | _ => cases ha

end Inv

/-! ## Runs -/

/-- A task that waits for a condition and has released the mutex does not hold it. -/
def WaitsRelease (s : Sys) : Prop :=
  ∀ t c m, (s.task t).call = some c → c.releases = some m → (s.task t).pc.released = true →
    (s.mutex m).holder ≠ some t

/-- A wait that returns in this step has taken its mutex, once. -/
def WaitsRetake (s s' : Sys) : Prop :=
  ∀ t c m, (s.task t).call = some c → c.releases = some m → (s'.task t).call = none →
    (s'.mutex m).holder = some t ∧ (s'.task t).depth m = 1

/-- No counter overflows, and a task that begins to wait for a condition holds the mutex at a depth
that satisfies `P`. -/
def WaitsAt (P : Nat → Bool) (s : Sys) (mv : Move) : Prop :=
  s.shallow mv = true ∧ s.waitsAt P mv = true

instance (P : Nat → Bool) (s : Sys) (mv : Move) : Decidable (WaitsAt P s mv) :=
  inferInstanceAs (Decidable (_ ∧ _))

theorem WaitsAt.depth_of_enter {mv : Move} (hd : WaitsAt (fun n => n == 1) s mv)
    (hc : (s.task t).call = some c) (hm : c.releases = some m) (hgo : mv = .go t)
    (hpc : (s.task t).pc = .enter) : (s.task t).depth m = 1 := by
  subst hgo
  have h := hd.2
  simpa [Sys.waitsAt, Task.waitsAt, hpc, hc, hm] using h

theorem HeldOnce.step (h : Inv s) (hok : ∀ m, (s.view m).Ok) (hx : ∀ t, HeldOnce (s.task t))
    {mv : Move} (hd : WaitsAt (fun n => n == 1) s mv) (hs : s.step mv = some s') (t : TaskId) :
    HeldOnce (s'.task t) := by
  intro c m n hc hm hn
  by_cases ha : mv.agent = some t
  · by_cases hcall : (s.task t).call = some c
    · rcases h.goes_step (hok m) hcall hm (fun n => hx t c m n hcall hm)
        (hd.depth_of_enter hcall hm) ha hs with ⟨-, hdepth⟩ | ⟨hnone, -⟩
      · exact hdepth n hn
      · rw [hc] at hnone
        cases hnone
    · exfalso
      cases mv with
      | call t' c' =>
        obtain rfl := Option.some.inj ha
        simp only [Sys.step] at hs
        split at hs
        · obtain rfl := Option.some.inj hs
          obtain rfl : c' = c := by simpa using hc
          cases c' with
          | condWait | condTimedwait =>
            simp [Sys.firstPc, Pc.depthIn] at hn
          | _ => cases hm
        · cases hs
      | go t' =>
        obtain rfl := Option.some.inj ha
        simp only [Sys.step] at hs
        split at hs
        · rcases (Sys.keeps_go (o := false) hs (by rintro ⟨⟩)).call with he | he <;> rw [hc] at he
          · exact hcall he.symm
          · cases he
        · cases hs
      | resume t' k =>
        obtain rfl := Option.some.inj ha
        simp only [Sys.step] at hs
        split at hs
        · rcases (Sys.keeps_resume hs).call with he | he <;> rw [hc] at he
          · exact hcall he.symm
          · cases he
        · cases hs
      | _ => cases ha
  · have hp := Sys.passive_step hs ha
    rw [hp.depth]
    exact hx t c m n (hp.call ▸ hc) hm (hp.pc ▸ hn)

variable {v : SemId → Int32} {mem : TaskId → Task}

theorem heldOnce_init (t : TaskId) : HeldOnce ((init v mem).task t) := nofun

/-- The invariants of a run in which tasks wait with a mutex that they hold once. -/
theorem reach_heldOnce (h : Reach Sys.step (WaitsAt fun n => n == 1) (init v mem) s) :
    Inv s ∧ (∀ m, (s.view m).Ok) ∧ ∀ t, HeldOnce (s.task t) := by
  refine Reach.invariant (P := fun s => Inv s ∧ (∀ m, (s.view m).Ok) ∧ ∀ t, HeldOnce (s.task t)) h
    ⟨.init v mem, fun m => view_init, heldOnce_init⟩ ?_
  rintro s mv s' ⟨hi, hok, hx⟩ hd hs
  exact ⟨hi.step hs, fun m => (hok m).step (hi.step_view (hok m) hs hd.1),
    HeldOnce.step hi hok hx hd hs⟩

/-- **A task that waits for a condition does not hold the mutex, and holds it again in the end.** In a
run in which every wait begins while the task holds its mutex once, a task that has released the
mutex of its wait does not hold it, and a wait that returns has taken its mutex, once. A wait with
timeout 0 returns at once and leaves the mutexes alone. -/
theorem reach_waitsRelease (h : Reach Sys.step (WaitsAt fun n => n == 1) (init v mem) s) :
    WaitsRelease s ∧
    (∀ mv s', WaitsAt (fun n => n == 1) s mv → s.step mv = some s' → WaitsRetake s s') ∧
    ∀ t c m s', (s.task t).pc = .enter → (s.task t).call = some (.condTimedwait c m 0) →
      s.step (.go t) = some s' → s' = s.ret t (.bool false) := by
  obtain ⟨hi, hok, hx⟩ := reach_heldOnce h
  refine ⟨fun t c m hc hm hpc hh => ?_, fun mv s' hd hs t c m hc hm hret => ?_, ?_⟩
  · have hzero : (s.task t).depth m = 0 := hx t c m 0 hc hm (Pc.depthIn_of_released hpc)
    have hrel := (hok m).relies t
    rcases Task.role_of_released m hpc with hr | ⟨w, b, hr⟩
    · have hr : (s.view m).role t = .out := hr
      simp only [Lock.Relies, hr] at hrel
      rcases hrel with hrel | hrel
      · exact hrel.2.1.ne' hzero
      · exact hrel.1 hh
    · have hr : (s.view m).role t = .giving w b := hr
      simp only [Lock.Relies, hr] at hrel
      exact hrel.2.1 (Option.some.inj (hrel.1.symm.trans hh))
  · have ha : mv.agent = some t := by
      by_contra ha
      rw [(Sys.passive_step hs ha).call, hc] at hret
      cases hret
    rcases hi.goes_step (hok m) hc hm (fun n => hx t c m n hc hm)
      (hd.depth_of_enter hc hm) ha hs with ⟨hcall, -⟩ | ⟨-, hdepth⟩
    · rw [hcall] at hret
      cases hret
    · have hok' : (s'.view m).Ok := (hok m).step (hi.step_view (hok m) hs hd.1)
      refine ⟨hok'.holder_of_depth (t := t) ?_, hdepth⟩
      change 0 < (s'.task t).depth m
      rw [hdepth]
      exact Nat.one_pos
  · intro t c m s' hpc hc hs
    simp only [Sys.step, Sys.go, hpc, hc, Option.map_some, Sys.enter, if_true] at hs
    split at hs
    · exact (Option.some.inj hs).symm
    · cases hs

/-- Task 1 locks the mutex and waits; task 2 locks it, signals and unlocks it; task 1 goes on. -/
def signalRun : List Move :=
  [.call 1 (.mutexLock 0), .go 1, .go 1, .go 1, .call 1 (.condWait 0 0), .go 1, .go 1, .go 1, .go 1,
    .go 1, .call 2 (.mutexLock 0), .go 2, .go 2, .go 2, .call 2 (.condSignal 0), .go 2, .go 2, .go 2,
    .go 2, .call 2 (.mutexUnlock 0), .go 2, .go 2, .go 2, .go 2, .resume 1 0, .go 1, .go 1]

theorem signalRun_waitsRelease : ∃ s s',
    Reach Sys.step (WaitsAt fun n => n == 1) (init (fun _ => 0) fun _ => {}) s ∧
    (s.task 1).call = some (.condWait 0 0) ∧ s.step (.go 1) = some s' ∧
    (s'.task 1).call = none ∧ (s'.mutex 0).holder = some 1 ∧ (s'.task 1).depth 0 = 1 := by
  have hrun : ((signalRun.foldlM (Reach.guarded Sys.step (WaitsAt fun n => n == 1))
      (init (fun _ => 0) fun _ => {})).map fun s => ((s.task 1).call,
        decide (WaitsAt (fun n => n == 1) s (.go 1)),
        (s.step (.go 1)).map fun s' => (s'.task 1).call)) =
          some (some (.condWait 0 0), true, some none) := by decide +kernel
  obtain ⟨s, hs, hq⟩ := Option.map_eq_some_iff.1 hrun
  simp only [Prod.mk.injEq, Option.map_eq_some_iff] at hq
  obtain ⟨hc, hd, s', hs', hret⟩ := hq
  have hreach := Reach.of_guarded hs
  obtain ⟨-, hretake, -⟩ := reach_waitsRelease hreach
  have h := hretake (.go 1) s' (of_decide_eq_true hd) hs' 1 (.condWait 0 0) 0 hc rfl hret
  exact ⟨s, s', hreach, hc, hs', hret, h⟩

/-- Task 1 locks the mutex twice and waits. -/
def nestedRun : List Move :=
  [.call 1 (.mutexLock 0), .go 1, .go 1, .go 1, .call 1 (.mutexLock 0), .go 1, .go 1,
    .call 1 (.condWait 0 0), .go 1, .go 1, .go 1, .go 1]

theorem not_waitsRelease : ∃ s,
    Reach Sys.step (WaitsAt fun n => 1 ≤ n) (init (fun _ => 0) fun _ => {}) s ∧
    1 ∈ (s.cond 0).waitq ∧ (s.task 1).pc = .parked ∧
    (s.mutex 0).holder = some 1 ∧ ¬ WaitsRelease s := by
  have hrun : ((nestedRun.foldlM (Reach.guarded Sys.step (WaitsAt fun n => 1 ≤ n))
      (init (fun _ => 0) fun _ => {})).map fun s =>
        ((s.cond 0).waitq, (s.task 1).call, (s.task 1).pc, (s.mutex 0).holder)) =
          some ([1], some (.condWait 0 0), .parked, some 1) := by decide +kernel
  obtain ⟨s, hs, hq⟩ := Option.map_eq_some_iff.1 hrun
  simp only [Prod.mk.injEq] at hq
  obtain ⟨hq, hc, hpc, hh⟩ := hq
  refine ⟨s, Reach.of_guarded hs, by simp [hq], hpc, hh, fun hw => ?_⟩
  exact hw 1 (.condWait 0 0) 0 hc rfl (by rw [hpc]; rfl) hh

end

end Ptask.Agents
