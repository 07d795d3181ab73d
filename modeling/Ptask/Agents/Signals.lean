import Ptask.Agents.Monitor
import Ptask.Agents.Order
import Ptask.Agents.Timers

/-!
# Signals are not lost

A wait for a condition joins the queue before it releases its mutex. From then on its task is in the
queue until a signal, a broadcast or its own timer takes it off (`Sys.kept_step`), whoever holds the
mutex. A signal takes the first task of the queue, a broadcast all of them, and the call makes each
of these ready once before it returns (`Woken.sum_step`).
-/

namespace Ptask.Agents

open Ptask.Lib

/-! ## Signals and broadcasts -/

namespace Sys

variable (s : Sys)

/-- The condition of a signal or of a broadcast, and the tasks that its section takes off the
queue. -/
def signals : Call → Option (CondId × List TaskId)
  | .condSignal d => some (d, (s.cond d).waitq.take 1)
  | .condBroadcast d => some (d, (s.cond d).waitq)
  | _ => none

/-- The section is the next step of `t`. -/
def signalsNext (t : TaskId) : Option (CondId × List TaskId) :=
  if (s.task t).pc = .enter then (s.task t).call.bind s.signals else none

/-- The move takes `w` out of the queue of `d`: it is the section of a signal or of a broadcast, or
the timer of the call in which `w` waits has run out. -/
def takesOut (d : CondId) (w : TaskId) : Move → Bool
  | .go t => (s.signalsNext t).any fun p => p.1 = d ∧ w ∈ p.2
  | .tickGo k => s.expires k = some (w, (s.task w).calls) ∧ w ∈ (s.cond d).waitq
  | _ => false

/-- A move of the run takes `w` out of the queue of `d`. -/
def takenOut (d : CondId) (w : TaskId) : Sys → List Move → Bool
  | _, [] => false
  | s, mv :: ms => s.takesOut d w mv || (s.step mv).any fun s' => s'.takenOut d w ms

/-- No tick is late and no counter overflows. -/
def regular (mv : Move) : Bool := s.punctual mv && s.shallow mv

/-- The state after a run of such moves. -/
def run (ms : List Move) : Option Sys :=
  ms.foldlM (Reach.guarded Sys.step fun s mv => s.regular mv) s

end Sys

/-- The task that the call of `t` makes ready. -/
def Ev.readied (t : TaskId) : Ev → Option TaskId
  | .woken t' w => if t' = t then some w else none
  | _ => none

/-- The tasks that the calls of `t` have made ready, one after the other. -/
def Sys.readied (s : Sys) (t : TaskId) : List TaskId := s.log.reverse.filterMap (Ev.readied t)

/-- The places of a signal or of a broadcast after its section. -/
def Pc.wakes : Pc → Bool
  | .idle | .waking .. => true
  | _ => false

/-- The section of a signal or of a broadcast takes the tasks `ws` off the queue of `d`. -/
structure Signals (s s' : Sys) (t : TaskId) (d : CondId) (ws : List TaskId) : Prop where
  queue : (s.cond d).waitq = ws ++ (s'.cond d).waitq
  others : ∀ q, q ≠ .cond d → s'.queue q = s.queue q
  /-- They have waited for longer than those that stay. -/
  oldest : ∀ w ∈ ws, ∀ u ∈ (s'.cond d).waitq, (s.task w).since < (s.task u).since
  nodup : ws.Nodup

/-- Of the tasks `ws`, the call of `t` that began in `s₀` has made some ready, and the others are in
its hands. -/
structure Woken (s₀ s : Sys) (t : TaskId) (ws : List TaskId) : Prop where
  readied : s.readied t ++ (s.task t).pc.held = s₀.readied t ++ ws
  held : ∀ u ∈ (s.task t).pc.held, (s.task u).place = .held t
  all : (s.task t).call = none → s.readied t = s₀.readied t ++ ws

/-- After the section of a wait for `d` with the mutex `m`, which led from `s₀` to `s₁`, the run
`ms` has led to `s`. -/
structure Waits (s₀ s₁ s : Sys) (ms : List Move) (t : TaskId) (d : CondId) (m : MutexId) :
    Prop where
  /-- The task is still in the queue, or it has been taken out. -/
  queued : t ∈ (s.cond d).waitq ∧ (s.task t).calls = (s₀.task t).calls ∨
    s₁.takenOut d t ms = true
  /-- If it held the mutex once and the call has returned, it holds the mutex once. -/
  retaken : (s₀.task t).depth m = 1 → (s.task t).calls = (s₀.task t).calls →
    (s.task t).call = none → (s.mutex m).holder = some t ∧ (s.task t).depth m = 1

section

variable {s s' s₀ s₁ : Sys} {t u w : TaskId} {c : Call} {d : CondId} {m : MutexId} {k : ThreadId}
  {ws : List TaskId} {mv : Move} {ms : List Move}

/-! ## Steps that leave the conditions alone -/

namespace Sys

theorem ret_cond (s : Sys) (t : TaskId) (r : Ret) : (s.ret t r).cond = s.cond := by
  unfold ret
  split <;> rfl

theorem finishLock_cond (s : Sys) (t : TaskId) (m : MutexId) :
    (s.finishLock t m).cond = s.cond := by
  unfold finishLock
  dsimp only
  split <;> rw [ret_cond] <;> rfl

theorem finishUnlock_cond (s : Sys) (t : TaskId) (b : Bool) :
    (s.finishUnlock t b).cond = s.cond := by
  unfold finishUnlock
  split
  · exact ret_cond ..
  · rfl

theorem mutexLock_cond {p : LockPc} (hs : s.mutexLock t m p = some s') : s'.cond = s.cond := by
  cases p with
  | test =>
    obtain rfl := Option.some.inj hs
    rfl
  | nest | own =>
    obtain rfl := Option.some.inj hs
    exact finishLock_cond ..
  | section_ =>
    simp only [mutexLock] at hs
    split at hs <;>
    · obtain rfl := Option.some.inj hs
      rfl
  | parked => cases hs

theorem mutexUnlock_cond (s : Sys) (t : TaskId) (m : MutexId) (p : UnlockPc) :
    (s.mutexUnlock t m p).cond = s.cond := by
  cases p with
  | test =>
    simp only [mutexUnlock]
    split
    · exact finishUnlock_cond ..
    · rfl
  | retest =>
    simp only [mutexUnlock]
    split
    · exact finishUnlock_cond ..
    · rfl
  | release =>
    simp only [mutexUnlock]
    split
    · exact finishUnlock_cond ..
    · rfl
  | ready w => exact finishUnlock_cond ..
  | _ => rfl

theorem wake_cond {rest : List TaskId} {p : WakePc} (hs : s.wake t w rest p = some s') :
    s'.cond = s.cond := by
  cases p with
  | spin =>
    simp only [wake] at hs
    split at hs
    · cases hs
    · obtain rfl := Option.some.inj hs
      rfl
  | test =>
    obtain rfl := Option.some.inj hs
    rfl
  | remove =>
    simp only [wake] at hs
    split at hs
    · obtain rfl := Option.some.inj hs
      exact (fiberWatchdogRemove_frame s w).2.2.1
    · cases hs
  | ready =>
    cases rest with
    | nil =>
      obtain rfl := Option.some.inj hs
      exact ret_cond ..
    | cons w' rest =>
      obtain rfl := Option.some.inj hs
      rfl

/-- Apart from the first sections of its calls, a task leaves the conditions alone. -/
theorem go_cond (hpc : (s.task t).pc ≠ .enter) (hs : s.go t = some s') : s'.cond = s.cond := by
  unfold go at hs
  dsimp only at hs
  split at hs
  · cases hs
  · cases hs
  · next he => exact absurd he hpc
  · obtain rfl := Option.some.inj hs
    exact (fiberWatchdogInsert_frame s t).2.2.1
  · obtain rfl := Option.some.inj hs
    rfl
  · obtain rfl := Option.some.inj hs
    rfl
  · exact mutexLock_cond hs
  · obtain rfl := Option.some.inj hs
    exact mutexUnlock_cond ..
  · exact wake_cond hs

theorem resume_cond (hs : s.resume t = some s') : s'.cond = s.cond := by
  unfold resume at hs
  dsimp only at hs
  split at hs
  · split at hs
    · obtain rfl := Option.some.inj hs
      exact finishLock_cond ..
    · obtain rfl := Option.some.inj hs
      rfl
    · obtain rfl := Option.some.inj hs
      rfl
    all_goals
      first
      | obtain rfl := Option.some.inj hs
        exact ret_cond ..
      | cases hs
  · cases hs

/-! ## First sections -/

/-- A task stays in the queue of a condition unless a signal or a broadcast takes it off. -/
theorem kept_enter (hw : w ∈ (s.cond d).waitq) :
    (s.signals c).any (fun p => p.1 = d ∧ w ∈ p.2) = true ∨ w ∈ ((s.enter t c).cond d).waitq := by
  cases c with
  | condWait d' m =>
    refine .inr ?_
    by_cases hd : d = d'
    · subst hd
      simp [enter, hw]
    · simpa [enter, hd] using hw
  | condTimedwait d' m timeout =>
    refine .inr ?_
    simp only [enter]
    split
    · rwa [ret_cond]
    · by_cases hd : d = d'
      · subst hd
        simp [hw]
      · simpa [hd] using hw
  | condSignal d' =>
    simp only [enter]
    split
    · exact .inr (by rwa [ret_cond])
    · next w' rest hq =>
      by_cases hd : d' = d
      · subst hd
        rw [hq] at hw
        rcases List.mem_cons.1 hw with rfl | hw
        · exact .inl (by simp [signals, hq])
        · exact .inr (by simpa using hw)
      · exact .inr (by simpa [Ne.symm hd] using hw)
  | condBroadcast d' =>
    by_cases hd : d' = d
    · exact .inl (by simpa [signals, hd] using hw)
    · simp only [enter]
      split
      · exact .inr (by rwa [ret_cond])
      · exact .inr (by simpa [Ne.symm hd] using hw)
  | semWait i =>
    simp only [enter]
    split
    · exact .inr (by rwa [ret_cond])
    · exact .inr hw
  | semTimedwait i timeout =>
    simp only [enter]
    split
    · exact .inr (by rwa [ret_cond])
    · split
      · exact .inr (by rwa [ret_cond])
      · exact .inr hw
  | semPost i =>
    simp only [enter]
    split
    · exact .inr (by rwa [ret_cond])
    · exact .inr hw
  | eventWait eventsIn options timeout =>
    simp only [enter]
    split
    · exact .inr (by rwa [ret_cond])
    · split
      · exact .inr (by rwa [ret_cond])
      · exact .inr hw
  | eventPost u eventsIn =>
    simp only [enter]
    split
    · exact .inr hw
    · exact .inr (by rwa [ret_cond])
  | _ => exact .inr hw

theorem kept_tickGo (hw : w ∈ (s.cond d).waitq)
    (hn : ∀ w n, s.expires k = some (w, n) → (s.task w).calls = n) (hs : s.tickGo k = some s') :
    s.takesOut d w (.tickGo k) = true ∨ w ∈ (s'.cond d).waitq := by
  unfold tickGo at hs
  dsimp only at hs
  split at hs
  · cases hs
  · cases hs
  · split at hs
    · obtain rfl := Option.some.inj hs
      exact .inr hw
    · split at hs
      · obtain rfl := Option.some.inj hs
        exact .inr hw
      · split at hs <;>
        · obtain rfl := Option.some.inj hs
          exact .inr hw
  · obtain ⟨o, -, rfl⟩ := Option.map_eq_some_iff.1 hs
    exact .inr hw
  · next w' o n htick =>
    split at hs
    · next hb =>
      obtain rfl := Option.some.inj hs
      have he : s.expires k = some (w', n) := by simp only [expires, htick, hb, if_true]
      by_cases hww : w = w'
      · subst hww
        exact .inl (by simp [takesOut, he, hn w n he, hw])
      · exact .inr ((List.mem_erase_of_ne hww).2 hw)
    · obtain rfl := Option.some.inj hs
      exact .inr hw
  · split at hs <;>
    · obtain rfl := Option.some.inj hs
      exact .inr hw

/-- **A task stays in the queue of a condition until it is taken out**, if no tick is late. -/
theorem kept_step (hw : w ∈ (s.cond d).waitq) (hd : s.punctual mv = true)
    (hs : s.step mv = some s') : s.takesOut d w mv = true ∨ w ∈ (s'.cond d).waitq := by
  cases mv with
  | call t c =>
    simp only [step] at hs
    split at hs
    · obtain rfl := Option.some.inj hs
      exact .inr hw
    · cases hs
  | go t =>
    simp only [step] at hs
    split at hs
    · by_cases hpc : (s.task t).pc = .enter
      · simp only [go, hpc] at hs
        obtain ⟨c, hc, rfl⟩ := Option.map_eq_some_iff.1 hs
        simpa [takesOut, signalsNext, hpc, hc] using kept_enter hw
      · exact .inr (by rwa [go_cond hpc hs])
    · cases hs
  | resume t k =>
    simp only [step] at hs
    split at hs
    · exact .inr (by rwa [resume_cond hs])
    · cases hs
  | tickle k | tickEnd k =>
    simp only [step] at hs
    split at hs
    · obtain rfl := Option.some.inj hs
      exact .inr hw
    · cases hs
  | timer k w' =>
    simp only [step] at hs
    split at hs
    · obtain rfl := Option.some.inj hs
      exact .inr hw
    · cases hs
  | tickGo k => exact kept_tickGo hw (fun _ _ he => calls_of_punctual hd he) hs

/-! ## The calls of a task -/

/-- A task that is in no call begins one in its next step. -/
theorem calls_of_idle (h : Inv s) (hpc : (s.task t).pc = .idle) (ha : mv.agent = some t)
    (hs : s.step mv = some s') : (s'.task t).calls = (s.task t).calls + 1 := by
  cases mv with
  | call t' c =>
    obtain rfl := Option.some.inj ha
    simp only [step] at hs
    split at hs
    · obtain rfl := Option.some.inj hs
      simp
    · cases hs
  | go t' =>
    obtain rfl := Option.some.inj ha
    simp [step, go, hpc] at hs
  | resume t' k =>
    obtain rfl := Option.some.inj ha
    have hp := h.place_of_plain (Task.plain_of_pc (x := s.task t') (by rw [hpc]; rfl))
    simp [step, resume, hp] at hs
  | _ => cases ha

/-- A task begins a call only when it is in none. -/
theorem calls_step (t : TaskId) (hs : s.step mv = some s') :
    (s'.task t).calls = (s.task t).calls ∨
      (s.task t).pc = .idle ∧ (s'.task t).calls = (s.task t).calls + 1 := by
  by_cases ha : mv.agent = some t
  · cases mv with
    | call t' c =>
      obtain rfl := Option.some.inj ha
      simp only [step] at hs
      split at hs
      · next hidle =>
        obtain rfl := Option.some.inj hs
        exact .inr ⟨hidle.1, by simp⟩
      · cases hs
    | go t' =>
      obtain rfl := Option.some.inj ha
      simp only [step] at hs
      split at hs
      · exact .inl (keeps_go (o := false) hs (by rintro ⟨⟩)).calls
      · cases hs
    | resume t' k =>
      obtain rfl := Option.some.inj ha
      simp only [step] at hs
      split at hs
      · exact .inl (keeps_resume hs).calls
      · cases hs
    | _ => cases ha
  · exact .inl (passive_step hs ha).calls

/-- A call does not return to its first section. -/
theorem ne_enter_step (hpc : (s.task t).pc ≠ .enter) (hs : s.step mv = some s')
    (hc : (s'.task t).calls = (s.task t).calls) : (s'.task t).pc ≠ .enter := by
  have hkeeps {b : Bool} (hk : Keeps true b (s.task t) (s'.task t)) : (s'.task t).pc ≠ .enter := by
    rcases (hk.noted rfl).2 with he | he
    · rwa [he]
    · intro hpc'
      rw [hpc'] at he
      cases he
  by_cases ha : mv.agent = some t
  · cases mv with
    | call t' c =>
      obtain rfl := Option.some.inj ha
      simp only [step] at hs
      split at hs
      · obtain rfl := Option.some.inj hs
        simp at hc
      · cases hs
    | go t' =>
      obtain rfl := Option.some.inj ha
      simp only [step] at hs
      split at hs
      · exact hkeeps (keeps_go hs fun _ => hpc)
      · cases hs
    | resume t' k =>
      obtain rfl := Option.some.inj ha
      simp only [step] at hs
      split at hs
      · exact hkeeps (keeps_resume hs)
      · cases hs
    | _ => cases ha
  · exact hkeeps (passive_step hs ha).keeps

end Sys

namespace Inv

theorem idle_of_call (h : Inv s) (hc : (s.task t).call = none) : (s.task t).pc = .idle := by
  by_contra hne
  obtain ⟨c, hc', -⟩ := h.call_of_pc (t := t) rfl hne
  rw [hc] at hc'
  cases hc'

/-- A task that is waiting begins no call. -/
theorem calls_of_waiting (h : Inv s) (hp : (s.task t).place ≠ .runs) (hs : s.step mv = some s') :
    (s'.task t).calls = (s.task t).calls := by
  refine (Sys.calls_step t hs).resolve_right fun hidle => hp ?_
  exact h.place_of_plain (Task.plain_of_pc (by rw [hidle.1]; rfl))

/-- What the steps of one call keep holds as long as the task has begun no other. -/
theorem within_call {ok : Sys → Move → Prop} {P : Sys → Prop} (hr : Reach Sys.step ok s₁ s)
    (h : Inv s₁) (h0 : P s₁) (hstep : ∀ s mv s', Inv s → P s → ok s mv → s.step mv = some s' →
      (s'.task t).calls = (s.task t).calls → P s')
    (hc : (s.task t).calls = (s₁.task t).calls) : Inv s ∧ P s := by
  have hinv : Inv s ∧ (s₁.task t).calls ≤ (s.task t).calls ∧
      ((s.task t).calls = (s₁.task t).calls → P s) := by
    refine hr.invariant (P := fun s => Inv s ∧ (s₁.task t).calls ≤ (s.task t).calls ∧
      ((s.task t).calls = (s₁.task t).calls → P s)) ⟨h, le_rfl, fun _ => h0⟩ ?_
    rintro s mv s' ⟨hi, hle, hP⟩ hok hs
    have hle' : (s.task t).calls ≤ (s'.task t).calls := by
      rcases Sys.calls_step t hs with he | ⟨-, he⟩ <;> omega
    refine ⟨hi.step hs, hle.trans hle', fun he => ?_⟩
    have hsame : (s.task t).calls = (s₁.task t).calls := by omega
    exact hstep s mv s' hi (hP hsame) hok hs (he.trans hsame.symm)
  exact ⟨hinv.1, hinv.2.2 hc⟩

/-! ## The mutex of a wait -/

/-- After its first section, a wait that began with the mutex held once goes on or has returned. -/
theorem goes_within (h : Inv s) (hok : (s.view m).Ok) (hm : c.releases = some m)
    (hpc : (s.task t).pc ≠ .enter) (hg : Goes c m (s.task t)) (hs : s.step mv = some s')
    (hc : (s'.task t).calls = (s.task t).calls) : Goes c m (s'.task t) := by
  by_cases ha : mv.agent = some t
  · rcases hg with ⟨hcall, hdepth⟩ | ⟨hcall, -⟩
    · exact h.goes_step hok hcall hm hdepth (fun _ he => absurd he hpc) ha hs
    · have hbegins := Sys.calls_of_idle h (h.idle_of_call hcall) ha hs
      omega
  · have hp := Sys.passive_step hs ha
    rw [Goes, hp.call, hp.pc, hp.depth]
    exact hg

end Inv

/-! ## Tasks that are made ready -/

theorem Sys.readied_of_log (es : List Ev) (hlog : s'.log = es ++ s.log) :
    s'.readied t = s.readied t ++ es.reverse.filterMap (Ev.readied t) := by
  rw [Sys.readied, hlog, List.reverse_append, List.filterMap_append]
  rfl

/-- Events that make no task ready. -/
theorem Sys.readied_of_quiet (es : List Ev) (hlog : s'.log = es ++ s.log)
    (hes : ∀ e ∈ es, Ev.readied t e = none) : s'.readied t = s.readied t := by
  have hnil : es.reverse.filterMap (Ev.readied t) = [] :=
    List.filterMap_eq_nil_iff.2 fun e he => hes e (List.mem_reverse.1 he)
  rw [readied_of_log es hlog, hnil, List.append_nil]

theorem Ev.readied_of_outer {e : Ev} (he : e.outer = true) : Ev.readied t e = none := by
  cases e <;> first | rfl | cases he

/-- A task is made ready when it leaves the hands of the task that has taken it off its queue. -/
theorem Shift.readied (hs : Shift s s') (t : TaskId) :
    s'.readied t ++ (s'.task t).pc.held = s.readied t ++ (s.task t).pc.held ∨
      (s.task t).pc.held = [] ∧ (s'.task t).pc.held ≠ [] := by
  cases hs with
  | stay es hlog hes hq hx =>
    left
    rw [Sys.readied_of_quiet _ hlog fun e he => Ev.readied_of_outer (hes e he), (hx t).held]
  | join t' q hlog hq hx hp hp' hw hh hh' hs =>
    left
    rw [Sys.readied_of_quiet [.joined t' q] hlog (by simp [Ev.readied])]
    by_cases ht : t = t'
    · rw [ht, hh, hh']
    · rw [hx t ht]
  | take t' q ws rest hws hlog hq hq' hnd hw hx hp ht hh hh' hm =>
    by_cases htt : t = t'
    · exact .inr (by rw [htt, hh, hh']; exact ⟨rfl, hws⟩)
    · left
      rw [Sys.readied_of_quiet _ hlog (by simp [Ev.readied])]
      by_cases htw : t ∈ ws
      · rw [(hw t htw).2.2.2.2.2]
      · rw [hx t htw htt]
  | wake t' w rest es hlog hes hq hh hh' hm hp ht hne hw hw' hpc hx =>
    left
    have hes' : es.reverse.filterMap (Ev.readied t) = [] :=
      List.filterMap_eq_nil_iff.2 fun e he => Ev.readied_of_outer (hes e (List.mem_reverse.1 he))
    rw [Sys.readied_of_log (es ++ [.woken t' w]) (by simpa using hlog), List.reverse_append,
      List.filterMap_append, hes', List.append_nil]
    by_cases htt : t = t'
    · subst htt
      rw [hh, hh']
      simp [Ev.readied]
    · have hnone : Ev.readied t (.woken t' w) = none := by simp [Ev.readied, Ne.symm htt]
      have hheld : (s'.task t).pc.held = (s.task t).pc.held := by
        by_cases htw : t = w
        · rw [htw, hpc]
        · rw [hx t htt htw]
      simp [hnone, hheld]
  | resume t' es hlog hes hq hx hp hp' ht hh hh' =>
    left
    rw [Sys.readied_of_quiet _ hlog fun e he => Ev.readied_of_outer (hes e he)]
    by_cases htt : t = t'
    · rw [htt, hh, hh']
    · rw [hx t htt]
  | expire w hlog hq hx hp hp' hw hpc =>
    left
    rw [Sys.readied_of_quiet [.expired w] hlog (by simp [Ev.readied])]
    by_cases htw : t = w
    · rw [htw, hpc]
    · rw [hx t htw]

namespace Sys

theorem ret_pc (s : Sys) (t : TaskId) (r : Ret) : ((s.ret t r).task t).pc = .idle ∨
    ((s.ret t r).task t).pc = (s.task t).pc := by
  unfold ret
  split
  · exact .inl (by simp)
  · exact .inr rfl

/-- A task that makes others ready goes on to do so, or its call returns. -/
theorem wakes_wake {rest : List TaskId} {p : WakePc} (hpc : (s.task t).pc.wakes = true)
    (hs : s.wake t w rest p = some s') : (s'.task t).pc.wakes = true := by
  cases p with
  | spin =>
    simp only [wake] at hs
    split at hs
    · cases hs
    · obtain rfl := Option.some.inj hs
      simp [Pc.wakes]
  | test =>
    obtain rfl := Option.some.inj hs
    simp [Pc.wakes]
  | remove =>
    simp only [wake] at hs
    split at hs
    · obtain rfl := Option.some.inj hs
      simp [Pc.wakes]
    · cases hs
  | ready =>
    have hput : (((s.modTask w fun x => x.put .woken).emit (.woken t w)).task t).pc =
        (s.task t).pc := by
      by_cases htw : t = w <;> simp [htw]
    cases rest with
    | nil =>
      obtain rfl := Option.some.inj hs
      rcases ret_pc _ t _ with he | he
      · rw [he]
        rfl
      · rw [he, hput, hpc]
    | cons w' rest =>
      obtain rfl := Option.some.inj hs
      simp [Pc.wakes]

theorem wakes_step (h : Inv s) (hpc : (s.task t).pc.wakes = true) (hs : s.step mv = some s')
    (hc : (s'.task t).calls = (s.task t).calls) : (s'.task t).pc.wakes = true := by
  by_cases ha : mv.agent = some t
  · by_cases hidle : (s.task t).pc = .idle
    · have hbegins := calls_of_idle h hidle ha hs
      omega
    · obtain ⟨p, w, rest, hw⟩ : ∃ p w rest, (s.task t).pc = .waking p w rest := by
        generalize (s.task t).pc = pc at hpc hidle
        cases pc with
        | waking p w rest => exact ⟨p, w, rest, rfl⟩
        | idle => exact absurd rfl hidle
        | _ => cases hpc
      cases mv with
      | call t' c =>
        obtain rfl := Option.some.inj ha
        simp [step, hw] at hs
      | go t' =>
        obtain rfl := Option.some.inj ha
        simp only [step, go, hw] at hs
        split at hs
        · exact wakes_wake hpc hs
        · cases hs
      | resume t' k =>
        obtain rfl := Option.some.inj ha
        simp [step, resume, hw] at hs
      | _ => cases ha
  · rwa [(passive_step hs ha).pc]

end Sys

namespace Woken

theorem of_sum (h : Inv s) (hsum : s.readied t ++ (s.task t).pc.held = s₀.readied t ++ ws) :
    Woken s₀ s t ws := by
  refine ⟨hsum, fun u hu => (h.held t u).1 hu, fun hc => ?_⟩
  rw [h.idle_of_call hc] at hsum
  simpa [Pc.held] using hsum

theorem sum_step (h : Inv s) (hpc : (s.task t).pc.wakes = true)
    (hsum : s.readied t ++ (s.task t).pc.held = s₀.readied t ++ ws) (hs : s.step mv = some s')
    (hc : (s'.task t).calls = (s.task t).calls) :
    s'.readied t ++ (s'.task t).pc.held = s₀.readied t ++ ws := by
  rcases (h.moved_step hs).2.readied t with he | ⟨hnil, hne⟩
  · rw [he, hsum]
  · -- The task would have taken others off a queue, which it does only in the first section.
    exfalso
    by_cases ha : mv.agent = some t
    · have hidle : (s.task t).pc = .idle := by
        generalize (s.task t).pc = pc at hpc hnil
        cases pc with
        | idle => rfl
        | waking p w rest => cases hnil
        | _ => cases hpc
      have hbegins := Sys.calls_of_idle h hidle ha hs
      omega
    · rw [(Sys.passive_step hs ha).pc] at hne
      exact hne hnil

end Woken

/-! ## The section of a signal -/

/-- What the section of a signal or of a broadcast does. -/
theorem signals_enter (hc : (s.task t).call = some c) (hws : s.signals c = some (d, ws)) :
    (s.cond d).waitq = ws ++ ((s.enter t c).cond d).waitq ∧
    (∀ q, q ≠ .cond d → (s.enter t c).queue q = s.queue q) ∧
    (((s.enter t c).task t).pc.wakes = true ∧ ((s.enter t c).task t).pc.held = ws) ∧
    (s.enter t c).readied t = s.readied t := by
  have hother {s₁ : Sys} (hm : s₁.mutex = s.mutex) (hi : s₁.sem = s.sem)
      (hd : ∀ d', d' ≠ d → s₁.cond d' = s.cond d') (q : Wait) (hq : q ≠ .cond d) :
      s₁.queue q = s.queue q := by
    cases q with
    | cond d' => simp [Sys.queue, hd d' fun e => hq (by rw [e])]
    | _ => simp [Sys.queue, hm, hi]
  cases c with
  | condSignal d' =>
    obtain ⟨rfl, rfl⟩ : d' = d ∧ (s.cond d').waitq.take 1 = ws := by simpa [Sys.signals] using hws
    simp only [Sys.enter]
    split
    · next hq =>
      rw [Sys.ret_eq hc]
      refine ⟨by simp [hq], hother rfl rfl fun _ _ => rfl,
        ⟨by simp [Pc.wakes], by simp [hq, Pc.held]⟩, ?_⟩
      exact Sys.readied_of_quiet [_] rfl (by simp [Ev.readied])
    · next w rest hq =>
      refine ⟨by simp [hq], hother rfl rfl fun d hd => ?_,
        ⟨by simp [Pc.wakes], by simp [hq, Pc.held]⟩, ?_⟩
      · simp [hd]
      · exact Sys.readied_of_quiet [.taken t w] rfl (by simp [Ev.readied])
  | condBroadcast d' =>
    obtain ⟨rfl, rfl⟩ : d' = d ∧ (s.cond d').waitq = ws := by simpa [Sys.signals] using hws
    simp only [Sys.enter]
    split
    · next hq =>
      rw [Sys.ret_eq hc]
      refine ⟨by simp [hq], hother rfl rfl fun _ _ => rfl,
        ⟨by simp [Pc.wakes], by simp [hq, Pc.held]⟩, ?_⟩
      exact Sys.readied_of_quiet [_] rfl (by simp [Ev.readied])
    · next w rest hq =>
      refine ⟨by simp [hq], hother rfl rfl fun d hd => ?_,
        ⟨by simp [Pc.wakes], by simp [hq, Pc.held]⟩, ?_⟩
      · simp [hd]
      · exact Sys.readied_of_quiet ((w :: rest).map (.taken t)) rfl (by simp [Ev.readied])
  | _ => cases hws

/-- The section of a wait puts the task into the queue. -/
theorem joined_enter (hw : c.wait = some (.cond d)) (hm : c.releases = some m) :
    t ∈ ((s.enter t c).cond d).waitq ∧ ((s.enter t c).task t).pc ≠ .enter := by
  cases c with
  | condWait d' m' =>
    obtain rfl : d' = d := by simpa [Call.wait] using hw
    simp [Sys.enter]
  | condTimedwait d' m' timeout =>
    obtain rfl : d' = d := by simpa [Call.wait] using hw
    have h0 : timeout ≠ 0 := fun h0 => by simp [Call.releases, h0] at hm
    refine ⟨by simp [Sys.enter, h0], ?_⟩
    rw [(Sys.enter_condTimedwait (s := s) (m := m') h0).2.2, Sys.afterJoin]
    split <;> exact fun h => by cases h
  | _ => cases hm

/-! ## Runs -/

theorem Sys.regular_iff (s : Sys) (mv : Move) :
    s.regular mv = true ↔ s.punctual mv = true ∧ s.shallow mv = true := by
  simp [regular]

theorem Sys.run_cons (s s' : Sys) (mv : Move) (ms : List Move) : s.run (mv :: ms) = some s' ↔
    s.regular mv = true ∧ ∃ s₁, s.step mv = some s₁ ∧ s₁.run ms = some s' := by
  unfold run Reach.guarded
  rw [List.foldlM_cons, Option.bind_eq_bind, Option.bind_eq_some_iff]
  by_cases hd : s.regular mv = true <;> simp [hd]

theorem Sys.reach_run (hrun : s.run ms = some s') :
    Reach Sys.step (fun s mv => s.regular mv) s s' := Reach.of_guarded hrun

/-- A task that has joined the queue of a condition is in it until it is taken out. -/
theorem Inv.queued_run (h : Inv s₁) (hw : t ∈ (s₁.cond d).waitq) (hrun : s₁.run ms = some s) :
    t ∈ (s.cond d).waitq ∧ (s.task t).calls = (s₁.task t).calls ∨ s₁.takenOut d t ms = true := by
  induction ms generalizing s₁ with
  | nil =>
    obtain rfl := Option.some.inj hrun
    exact .inl ⟨hw, rfl⟩
  | cons mv ms ih =>
    obtain ⟨hd, s₂, hs, hrun⟩ := (s₁.run_cons s mv ms).1 hrun
    have hqueued : (s₁.task t).place ≠ .runs := by
      rw [((h.queue (.cond d) t).1 hw).2.1]
      rintro ⟨⟩
    rcases Sys.kept_step hw ((Sys.regular_iff _ _).1 hd).1 hs with htaken | hw
    · exact .inr (by simp [Sys.takenOut, htaken])
    · rcases ih (h.step hs) hw hrun with ⟨hw, hc⟩ | htaken
      · exact .inl ⟨hw, hc.trans (h.calls_of_waiting hqueued hs)⟩
      · exact .inr (by simp [Sys.takenOut, hs, htaken])

/-- A wait that began with the mutex held once returns with the mutex held once. -/
theorem Inv.retaken_run (h : Inv s₁) (hok : (s₁.view m).Ok) (hm : c.releases = some m)
    (hpc : (s₁.task t).pc ≠ .enter) (hg : Goes c m (s₁.task t)) (hrun : s₁.run ms = some s)
    (hc : (s.task t).calls = (s₁.task t).calls) (hret : (s.task t).call = none) :
    (s.mutex m).holder = some t ∧ (s.task t).depth m = 1 := by
  obtain ⟨-, hok', -, hg'⟩ := within_call (t := t)
    (P := fun s => (s.view m).Ok ∧ (s.task t).pc ≠ .enter ∧ Goes c m (s.task t))
    (Sys.reach_run hrun) h ⟨hok, hpc, hg⟩ (fun s mv s' hi hP hd hs hc => by
      obtain ⟨hok, hpc, hg⟩ := hP
      exact ⟨hok.step (hi.step_view hok hs ((Sys.regular_iff _ _).1 hd).2),
        Sys.ne_enter_step hpc hs hc, hi.goes_within hok hm hpc hg hs hc⟩) hc
  rcases hg' with ⟨hcall, -⟩ | ⟨-, hdepth⟩
  · rw [hret] at hcall
    cases hcall
  · refine ⟨hok'.holder_of_depth (t := t) ?_, hdepth⟩
    change 0 < (s.task t).depth m
    rw [hdepth]
    exact Nat.one_pos

/-- A signal or a broadcast makes each task ready once that it has taken. -/
theorem Inv.woken_run (h : Inv s₁) (hpc : (s₁.task t).pc.wakes = true)
    (hsum : s₁.readied t ++ (s₁.task t).pc.held = s₀.readied t ++ ws) (hrun : s₁.run ms = some s)
    (hc : (s.task t).calls = (s₁.task t).calls) : Woken s₀ s t ws := by
  obtain ⟨hi, -, hsum'⟩ := within_call (t := t)
    (P := fun s => (s.task t).pc.wakes = true ∧
      s.readied t ++ (s.task t).pc.held = s₀.readied t ++ ws)
    (Sys.reach_run hrun) h ⟨hpc, hsum⟩ (fun s mv s' hi hP hd hs hc => by
      obtain ⟨hpc, hsum⟩ := hP
      exact ⟨Sys.wakes_step hi hpc hs hc, Woken.sum_step hi hpc hsum hs hc⟩) hc
  exact .of_sum hi hsum'

variable {v : SemId → Int32} {mem : TaskId → Task}

/-- **No signal is lost**, if no tick is late. From the section in which a task begins to wait for a
condition, and so whenever another task that has taken the mutex signals, the task is in the queue
or has been taken out by a signal, a broadcast or its own timer; and the wait returns with the
mutex. A signal takes the task that has waited for longest and a broadcast takes all, and each is
made ready once. -/
theorem reach_noLostSignal (h : Reach Sys.step (fun s mv => s.regular mv) (init v mem) s₀)
    (hpc : (s₀.task t).pc = .enter) (hs : s₀.step (.go t) = some s₁) (hrun : s₁.run ms = some s) :
    (∀ c d m, (s₀.task t).call = some c → c.wait = some (.cond d) → c.releases = some m →
      Waits s₀ s₁ s ms t d m) ∧
    ∀ c d ws, (s₀.task t).call = some c → s₀.signals c = some (d, ws) →
      Signals s₀ s₁ t d ws ∧
        ((s.task t).calls = (s₀.task t).calls → Woken s₀ s t ws) := by
  have hi : Inv s₀ := Reachable.inv h.any
  have hi₁ : Inv s₁ := hi.step hs
  have hordered : Ordered s₀ := Reachable.ordered h.any
  have hok (m : MutexId) : (s₀.view m).Ok :=
    reach_view (h.mono fun _ _ hd => ((Sys.regular_iff _ _).1 hd).2)
  have hshallow : s₀.shallow (.go t) = true := by simp [Sys.shallow, Task.shallow, hpc]
  have hgo := hs
  simp only [Sys.step] at hgo
  split at hgo
  · have hkeeps := (Sys.keeps_go (o := false) hgo (by rintro ⟨⟩)).calls
    simp only [Sys.go, hpc] at hgo
    obtain ⟨c₀, hc₀, henter⟩ := Option.map_eq_some_iff.1 hgo
    refine ⟨fun c d m hc hw hm => ?_, fun c d ws hc hws => ?_⟩
    · obtain rfl : c₀ = c := Option.some.inj (hc₀.symm.trans hc)
      obtain ⟨hjoined, hne⟩ := joined_enter (s := s₀) (t := t) hw hm
      rw [henter] at hjoined hne
      refine ⟨?_, fun hdepth hcalls hret => ?_⟩
      · rw [← hkeeps]
        exact hi₁.queued_run hjoined hrun
      · exact hi₁.retaken_run ((hok m).step (hi.step_view (hok m) hs hshallow)) hm hne
          (henter ▸ goes_enter hc hm hdepth) hrun (hcalls.trans hkeeps.symm) hret
    · obtain rfl : c₀ = c := Option.some.inj (hc₀.symm.trans hc)
      obtain ⟨hqueue, hothers, ⟨hwakes, hheld⟩, hreadied⟩ := signals_enter hc hws
      rw [henter] at hqueue hothers hwakes hheld hreadied
      have hnodup : (ws ++ (s₁.cond d).waitq).Nodup := hqueue ▸ hi.queueNodup (.cond d)
      have hsorted := hordered.sorted (.cond d)
      rw [Sys.queue, hqueue] at hsorted
      refine ⟨⟨hqueue, hothers, ?_, (List.nodup_append.1 hnodup).1⟩, fun hcalls => ?_⟩
      · exact fun w hw u hu => (List.pairwise_append.1 hsorted).2.2 w hw u hu
      · exact hi₁.woken_run hwakes (by rw [hreadied, hheld]) hrun (hcalls.trans hkeeps.symm)
  · cases hgo

/-- Task 3 waits with a timeout; then task 1 locks the mutex and begins to wait, with one too. -/
def waitStart : List Move :=
  [.call 3 (.mutexLock 0), .go 3, .go 3, .go 3, .call 3 (.condTimedwait 0 0 10), .go 3, .go 3, .go 3,
    .go 3, .go 3, .go 3, .go 3, .call 1 (.mutexLock 0), .go 1, .go 1, .go 1,
    .call 1 (.condTimedwait 0 0 10)]

/-- Task 1 releases the mutex. A tick ends the wait of task 3, which locks the mutex and unlocks it.
Task 2 locks it, signals and unlocks it; task 1 returns. -/
def waitRest : List Move :=
  [.go 1, .go 1, .go 1, .go 1, .go 1, .go 1, .tickle 3, .timer 3 3, .tickGo 3, .tickGo 3, .tickGo 3,
    .tickEnd 3, .resume 3 3, .go 3, .go 3, .go 3, .call 3 (.mutexUnlock 0), .go 3, .go 3, .go 3,
    .go 3, .call 2 (.mutexLock 0), .go 2, .go 2, .go 2, .call 2 (.condSignal 0), .go 2, .go 2, .go 2,
    .go 2, .go 2, .call 2 (.mutexUnlock 0), .go 2, .go 2, .go 2, .go 2, .resume 1 1, .go 1, .go 1,
    .go 1]

theorem waitRest_noLostSignal : ∃ s₀ s₁ s,
    Reach Sys.step (fun s mv => s.regular mv) (init (fun _ => 0) fun t => { scheduler := t }) s₀ ∧
    s₀.step (.go 1) = some s₁ ∧ s₁.run waitRest = some s ∧ .expired 3 ∈ s.log ∧
    .taken 2 1 ∈ s.log ∧ (s.task 1).call = none ∧
    Waits s₀ s₁ s waitRest 1 0 0 ∧ (s.mutex 0).holder = some 1 ∧ (s.task 1).depth 0 = 1 := by
  have hrun : (((init (fun _ => 0) fun t => { scheduler := t }).run waitStart).bind fun s₀ =>
      (s₀.step (.go 1)).bind fun s₁ => (s₁.run waitRest).map fun s =>
        decide ((s₀.task 1).pc = .enter ∧ (s₀.task 1).call = some (.condTimedwait 0 0 10) ∧
          (s₀.task 1).depth 0 = 1 ∧ (s.task 1).calls = (s₀.task 1).calls ∧
          (s.task 1).call = none ∧ .expired 3 ∈ s.log ∧ .taken 2 1 ∈ s.log)) = some true := by
    decide +kernel
  obtain ⟨s₀, hs₀, hrun⟩ := Option.bind_eq_some_iff.1 hrun
  obtain ⟨s₁, hs₁, hrun⟩ := Option.bind_eq_some_iff.1 hrun
  obtain ⟨s, hs, hq⟩ := Option.map_eq_some_iff.1 hrun
  obtain ⟨hpc, hc, hdepth, hcalls, hret, hexpired, htaken⟩ := of_decide_eq_true hq
  have hreach := Sys.reach_run hs₀
  have hwaits := (reach_noLostSignal hreach hpc hs₁ hs).1 (.condTimedwait 0 0 10) 0 0 hc rfl rfl
  exact ⟨s₀, s₁, s, hreach, hs₁, hs, hexpired, htaken, hret, hwaits,
    hwaits.retaken hdepth hcalls hret⟩

/-- The timer of task 1, which waits for condition 1 with the mutex, runs out on thread 1, and the
tick goes on to lock that condition. Before it does, task 2 signals it, and task 1 returns on thread
3 and begins to wait for condition 2, without a timeout. -/
def lateStart : List Move :=
  [.call 1 (.mutexLock 0), .go 1, .go 1, .go 1, .call 1 (.condTimedwait 1 0 10), .go 1, .go 1,
    .go 1, .go 1, .go 1, .go 1, .go 1, .tickle 1, .timer 1 1, .tickGo 1, .tickGo 1,
    .call 2 (.condSignal 1), .go 2, .go 2, .go 2, .go 2, .resume 1 3, .go 1, .go 1, .go 1,
    .call 1 (.condWait 2 0)]

/-- Task 1 releases the mutex and parks; the tick takes it out of the queue of condition 2; task 2
locks the mutex and is about to signal. -/
def lateRest : List Move :=
  [.go 1, .go 1, .go 1, .go 1, .tickGo 1, .call 2 (.mutexLock 0), .go 2, .go 2, .go 2,
    .call 2 (.condSignal 2)]

theorem not_noLostSignal : ∃ s₀ s₁ s,
    Reach Sys.step anyMove (init (fun _ => 0) fun t => { scheduler := t }) s₀ ∧
    (s₀.task 1).pc = .enter ∧ (s₀.task 1).call = some (.condWait 2 0) ∧ (s₀.task 1).depth 0 = 1 ∧
    s₀.step (.go 1) = some s₁ ∧ lateRest.foldlM Sys.step s₁ = some s ∧
    (s.mutex 0).holder = some 2 ∧ s.signalsNext 2 = some (2, []) ∧
    (s.task 1).calls = (s₀.task 1).calls ∧ (s.task 1).pc = .parked ∧
    ¬ Waits s₀ s₁ s lateRest 1 2 0 := by
  have hrun : ((lateStart.foldlM Sys.step (init (fun _ => 0) fun t => { scheduler := t })).bind
      fun s₀ => (s₀.step (.go 1)).bind fun s₁ => (lateRest.foldlM Sys.step s₁).map fun s =>
        decide ((s₀.task 1).pc = .enter ∧ (s₀.task 1).call = some (.condWait 2 0) ∧
          (s₀.task 1).depth 0 = 1 ∧ (s.mutex 0).holder = some 2 ∧ s.signalsNext 2 = some (2, []) ∧
          (s.task 1).calls = (s₀.task 1).calls ∧ (s.task 1).pc = .parked ∧
          (s.cond 2).waitq = [] ∧ s₁.takenOut 2 1 lateRest = false)) = some true := by
    decide +kernel
  obtain ⟨s₀, hs₀, hrun⟩ := Option.bind_eq_some_iff.1 hrun
  obtain ⟨s₁, hs₁, hrun⟩ := Option.bind_eq_some_iff.1 hrun
  obtain ⟨s, hs, hq⟩ := Option.map_eq_some_iff.1 hrun
  obtain ⟨hpc, hc, hdepth, hholder, hnext, hcalls, hparked, hwaitq, htaken⟩ := of_decide_eq_true hq
  refine ⟨s₀, s₁, s, Reach.of_foldlM hs₀, hpc, hc, hdepth, hs₁, hs, hholder, hnext, hcalls, hparked,
    fun hw => ?_⟩
  rcases hw.queued with ⟨hmem, -⟩ | htaken'
  · rw [hwaitq] at hmem
    exact absurd hmem List.not_mem_nil
  · rw [htaken] at htaken'
    cases htaken'

end

end Ptask.Agents
