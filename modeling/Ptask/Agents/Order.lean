import Ptask.Agents.Frame

/-!
# The queues are in the order of arrival

`since` says when a task joined the queue it was on last, and only a task that joins a queue sets it
(`Inv.since_step`). So every queue is sorted by it (`Reachable.ordered`), and the first task of a
queue is the one that has waited for longest.
-/

namespace Ptask.Agents

/-- The tasks that are waiting joined their queues when they did. -/
def SinceKept (s s' : Sys) : Prop :=
  ∀ u, (s.task u).place ≠ .runs → (s'.task u).since = (s.task u).since

/-- The invariant. -/
structure Ordered (s : Sys) : Prop where
  sorted : ∀ q, (s.queue q).Pairwise fun a b => (s.task a).since < (s.task b).since
  past : ∀ q, ∀ t ∈ s.queue q, (s.task t).since < s.log.length

section

variable {s s' : Sys} {t u w : TaskId} {pc : Pc} {q : Wait} {r : Ret} {f : Task → Task}

/-! ## Operators -/

namespace SinceKept

theorem of_task (ht : s'.task = s.task) : SinceKept s s' := fun u _ => by rw [ht]

theorem modTask (hk : SinceKept s s') (hf : ∀ x : Task, (f x).since = x.since) :
    SinceKept s (s'.modTask t f) := by
  intro u hu
  rw [← hk u hu]
  by_cases hut : u = t
  · subst hut
    simp [hf]
  · simp [hut]

theorem emit {e : Ev} (hk : SinceKept s s') : SinceKept s (s'.emit e) := hk

theorem goto (hk : SinceKept s s') : SinceKept s (s'.goto t pc) := hk.modTask fun _ => rfl

theorem ret (hk : SinceKept s s') : SinceKept s (s'.ret t r) := by
  unfold Sys.ret
  split
  · exact hk.modTask fun _ => rfl
  · exact hk

theorem take {ws : List TaskId} (hk : SinceKept s s') (hf : ∀ x : Task, (f x).since = x.since) :
    SinceKept s (s'.take t ws f) := by
  intro u hu
  rw [← hk u hu]
  by_cases huw : u ∈ ws <;> simp [huw, hf]

theorem finishLock {m : MutexId} (hk : SinceKept s s') : SinceKept s (s'.finishLock t m) := by
  have hd : SinceKept s (s'.modTask t fun x => x.setDepth m (x.depth m + 1)) :=
    hk.modTask fun _ => rfl
  unfold Sys.finishLock
  dsimp only
  split <;> exact hd.ret

theorem finishUnlock {b : Bool} (hk : SinceKept s s') : SinceKept s (s'.finishUnlock t b) := by
  unfold Sys.finishUnlock
  split
  · exact hk.ret
  · exact hk.goto

theorem mutexUnlock {m : MutexId} {p : UnlockPc} : SinceKept s (s.mutexUnlock t m p) := by
  have hk : SinceKept s s := .of_task rfl
  have hm (f : FibMutex → FibMutex) : SinceKept s (s.modMutex m f) := .of_task rfl
  cases p with
  | test =>
    simp only [Sys.mutexUnlock]
    split
    · exact hk.finishUnlock
    · exact hk.goto
  | dec => exact (hm _).goto
  | retest =>
    simp only [Sys.mutexUnlock]
    split
    · exact .finishUnlock (.modTask hk fun _ => rfl)
    · exact hk.goto
  | release =>
    have hd : SinceKept s ((s.modMutex m fun p => { p with
        waitq := p.waitq.tail, holder := (s.mutex m).waitq.head? }).modTask t fun x =>
          x.setDepth m (x.depth m - 1)) := (hm _).modTask fun _ => rfl
    simp only [Sys.mutexUnlock]
    split
    · exact hd.finishUnlock
    · exact .goto (.take hd fun _ => rfl)
  | reent w => exact (hm _).goto
  | clear w => exact .goto (.modTask hk fun _ => rfl)
  | ready w => exact .finishUnlock (.emit (.modTask hk fun _ => rfl))

end SinceKept

/-! ## Steps -/

namespace Inv

variable (h : Inv s)
include h

theorem since_go (hs : s.go t = some s') (hp : (s.task t).place ≠ .runs) :
    (s'.task t).since = (s.task t).since := by
  have hplain (hpc : (s.task t).pc.plain = true) : False :=
    hp (h.place_of_plain (Task.plain_of_pc hpc))
  unfold Sys.go at hs
  dsimp only at hs
  split at hs
  · cases hs
  · cases hs
  · next hpc => exact (hplain (by rw [hpc]; rfl)).elim
  · obtain rfl := Option.some.inj hs
    rw [Sys.goto_task, Function.update_self, Sys.fiberWatchdogInsert_task]
    rfl
  · obtain rfl := Option.some.inj hs
    rw [Sys.modTask_task, Function.update_self]
  · next hpc => exact (hplain (by rw [hpc]; rfl)).elim
  · next p m hpc =>
    cases p with
    | parked => cases hs
    | _ => exact (hplain (by rw [hpc]; rfl)).elim
  · obtain rfl := Option.some.inj hs
    exact SinceKept.mutexUnlock t hp
  · next hpc =>
    have hw : (s.task t).waiting = none := by simp [Task.waiting, hpc]
    exact absurd ((h.task t).runs.2 hw) hp

omit h in
theorem since_resume {k : ThreadId}
    (hs : (s.modTask t fun x => { x with scheduler := k }).resume t = some s') :
    SinceKept s s' := by
  have hk : SinceKept s ((s.modTask t fun x => { x with scheduler := k }).modTask t
      fun x => x.put .runs) := .modTask (.modTask (.of_task rfl) fun _ => rfl) fun _ => rfl
  unfold Sys.resume at hs
  dsimp only at hs
  split at hs
  · split at hs
    · obtain rfl := Option.some.inj hs
      exact hk.finishLock
    · obtain rfl := Option.some.inj hs
      exact hk.goto
    · obtain rfl := Option.some.inj hs
      exact hk.goto
    all_goals
      first
      | obtain rfl := Option.some.inj hs
        exact hk.ret
      | cases hs
  · cases hs

/-- Only a task that joins a queue sets `since`. -/
theorem since_step {mv : Move} (hs : s.step mv = some s') : SinceKept s s' := by
  intro u hu
  by_cases ha : mv.agent = some u
  · cases mv with
    | call t c =>
      obtain rfl := Option.some.inj ha
      simp only [Sys.step] at hs
      split at hs
      · next hidle =>
        exact absurd (h.place_of_plain (Task.plain_of_pc (by rw [hidle.1]; rfl))) hu
      · cases hs
    | go t =>
      obtain rfl := Option.some.inj ha
      simp only [Sys.step] at hs
      split at hs
      · exact h.since_go hs hu
      · cases hs
    | resume t k =>
      obtain rfl := Option.some.inj ha
      simp only [Sys.step] at hs
      split at hs
      · exact since_resume hs t hu
      · cases hs
    | _ => cases ha
  · exact (Sys.passive_step hs ha).since

end Inv

/-! ## Runs -/

theorem Ordered.step (ho : Ordered s) (h : Inv s) {mv : Move} (hs : s.step mv = some s') :
    Ordered s' := by
  have hkept := h.since_step hs
  -- A queue that only loses tasks stays in order.
  have hsub (hlog : s.log.length ≤ s'.log.length)
      (hq : ∀ q, (s'.queue q).Sublist (s.queue q)) : Ordered s' := by
    have hsince {q : Wait} {t : TaskId} (ht : t ∈ s.queue q) :
        (s'.task t).since = (s.task t).since :=
      hkept t (by rw [((h.queue q t).1 ht).2.1]; nofun)
    refine ⟨fun q => ?_, fun q t ht => ?_⟩
    · refine ((ho.sorted q).imp_of_mem fun ha hb hlt => ?_).sublist (hq q)
      rwa [hsince ha, hsince hb]
    · rw [hsince ((hq q).subset ht)]
      exact (ho.past q t ((hq q).subset ht)).trans_le hlog
  cases (h.moved_step hs).2 with
  | stay es hlog hes hq hx => exact hsub (by simp [hlog]) fun q => by rw [hq]
  | join t q hlog hq hx hp hp' hw hh hh' hsince =>
    have hnt (q' : Wait) : t ∉ s.queue q' := h.not_mem_queue (by rw [hp]; nofun)
    have hold {q' : Wait} {u : TaskId} (hu : u ∈ s.queue q') : s'.task u = s.task u :=
      hx u fun e => hnt q' (e ▸ hu)
    have hsorted (q' : Wait) :
        (s.queue q').Pairwise fun a b => (s'.task a).since < (s'.task b).since :=
      (ho.sorted q').imp_of_mem fun ha hb hlt => by rwa [hold ha, hold hb]
    have hpast {q' : Wait} {u : TaskId} (hu : u ∈ s.queue q') :
        (s'.task u).since < s.log.length := by
      rw [hold hu]
      exact ho.past q' u hu
    refine ⟨fun q' => ?_, fun q' u hu => ?_⟩
    · rw [hq]
      split
      · refine List.pairwise_append.2 ⟨hsorted q, List.pairwise_singleton _ t, fun a ha b hb => ?_⟩
        rw [List.mem_singleton.1 hb, hsince]
        exact hpast ha
      · exact hsorted q'
    · rw [hlog, List.length_cons]
      rw [hq] at hu
      split at hu
      · rcases List.mem_append.1 hu with hu | hu
        · exact (hpast hu).trans (Nat.lt_succ_self _)
        · rw [List.mem_singleton.1 hu, hsince]
          exact Nat.lt_succ_self _
      · exact (hpast hu).trans (Nat.lt_succ_self _)
  | take t q ws rest hws hlog hq hq' =>
    refine hsub (by simp [hlog]) fun q' => ?_
    by_cases hqq : q' = q ∧ q.hasQueue = true
    · obtain ⟨rfl, hhas⟩ := hqq
      obtain ⟨e1, e2⟩ := hq hhas
      rw [e1, e2]
      exact List.sublist_append_right ws rest
    · rw [hq' q' hqq]
  | wake t w rest es hlog hes hq => exact hsub (by simp [hlog]; omega) fun q => by rw [hq]
  | resume t es hlog hes hq => exact hsub (by simp [hlog]) fun q => by rw [hq]
  | expire w hlog hq =>
    refine hsub (by simp [hlog]) fun q => ?_
    rw [hq]
    exact List.erase_sublist

theorem Ordered.init (v : SemId → Int32) (mem : TaskId → Task) : Ordered (init v mem) := by
  have hnil (q : Wait) : (Ptask.Agents.init v mem).queue q = [] := by cases q <;> rfl
  refine ⟨fun q => ?_, fun q t ht => ?_⟩
  · rw [hnil]
    exact .nil
  · rw [hnil] at ht
    exact absurd ht List.not_mem_nil

/-- **In every reachable state the queues are in the order of arrival.** -/
theorem Reachable.ordered {v : SemId → Int32} {mem : TaskId → Task} (h : Reachable v mem s) :
    Ordered s :=
  Lib.Reach.invariant_of h (.init v mem) (.init v mem) (fun _ _ _ hi _ hs => hi.step hs)
    fun _ _ _ hi ho _ hs => ho.step hi hs

end

end Ptask.Agents
