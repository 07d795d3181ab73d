import Ptask.OneN.Step

/-!
# What one task may observe

The specification that the log of a run is compared with, task by task. A task is outside calls
(`idle`), has seized pending events in a call that returns at once (`took`), waits (`parked`), waits
with its result already seized (`seized`), or has had its wait ended with the result it will return
(`ended`). `Phase.next` says which events may follow: a wait is ended once, by a grant or by its
expiry; then it returns the result that this end has fixed.

The pending events of a task are what was posted to it and not yet seized (`pendingAfter`).
-/

namespace Ptask.OneN

/-! ## Results of waits -/

end Ptask.OneN

namespace Ptask.Call

/-- What a wait that its own timer has ended returns. -/
def expiredRet : Call → Ret
  | .eventWait .. => .word 0
  | .semTimedwait .. => .bool false
  | .condTimedwait .. => .bool false
  | _ => .none

/-- What a wait that another task has ended returns; event waits return what was seized. -/
def grantRet (t : TaskId) : Call → Option Ret
  | .yield _ => some (.task (some t))
  | .mutexLock _ => some (.bool true)
  | .semWait _ => some (.bool true)
  | .semTimedwait .. => some (.bool true)
  | .condWait _ => some (.bool true)
  | .condTimedwait .. => some (.bool true)
  | _ => none

/-- `events` is a result that an event wait may have: a non-empty part of its mask, the whole mask
unless any event will do. -/
def accepts (events : EventMask) : Call → Bool
  | .eventWait eventsIn options _ =>
    eventsSatisfy events eventsIn options && events &&& eventsIn == events
  | _ => false

end Ptask.Call

namespace Ptask.OneN

/-! ## Phases -/

/-- The task that an event is about. -/
def Ev.task : Ev → TaskId
  | .ret t _ _ => t
  | .park t _ _ => t
  | .grant t _ _ => t
  | .expire t _ _ => t
  | .posted t _ => t
  | .unit t _ => t
  | .seize t _ => t
  | .created t => t
  | .exited t => t

inductive Phase
  | idle
  | took (events : EventMask)
  | parked (c : Call)
  | seized (c : Call) (events : EventMask)
  | ended (c : Call) (r : Ret)
deriving DecidableEq, Repr

/-- The phase after an event about the task, `none` when the event may not happen. -/
def Phase.next (t : TaskId) : Phase → Ev → Option Phase
  | p, .posted _ _ => some p
  | p, .unit _ _ => some p
  | .idle, .created _ => some .idle
  | .idle, .exited _ => some .idle
  -- a call that does not wait; an event wait that seizes nothing is a poll and returns `0`
  | .idle, .ret _ (.eventWait _ _ timeout) r =>
    if r = .word 0 ∧ timeout = 0 then some .idle else none
  | .idle, .ret _ _ _ => some .idle
  | .idle, .park _ c _ => if c.blocks then some (.parked c) else none
  | .idle, .seize _ events => some (.took events)
  | .took events, .ret _ c r =>
    if r = .word events ∧ c.accepts events then some .idle else none
  | .parked c, .seize _ events => if c.accepts events then some (.seized c events) else none
  | .parked c, .grant _ c' r =>
    if c' = c ∧ c.grantRet t = some r then some (.ended c r) else none
  | .seized c events, .grant _ c' r =>
    if c' = c ∧ r = .word events then some (.ended c r) else none
  | .parked c, .expire _ c' _ =>
    if c' = c ∧ c.timed then some (.ended c c.expiredRet) else none
  | .ended c r, .ret _ c' r' => if c' = c ∧ r' = r then some .idle else none
  | _, _ => none

/-- The events of a log that are about `t`. -/
def evs (t : TaskId) (log : List Ev) : List Ev := log.filter fun e => e.task = t

/-- The phase after a list of events about `t`, newest first. -/
def phaseOf (t : TaskId) : List Ev → Option Phase
  | [] => some .idle
  | e :: l => (phaseOf t l).bind (Phase.next t · e)

/-- The phase of `t` after a log; `none` when the log is not allowed. -/
def phase (t : TaskId) (log : List Ev) : Option Phase := phaseOf t (evs t log)

@[simp] theorem evs_cons_self {e : Ev} {log : List Ev} : evs e.task (e :: log) = e :: evs e.task log := by
  simp [evs]

theorem evs_cons_of_eq {t : TaskId} {e : Ev} {log : List Ev} (h : e.task = t) :
    evs t (e :: log) = e :: evs t log := by
  subst h; simp

theorem evs_cons_of_ne {t : TaskId} {e : Ev} {log : List Ev} (h : e.task ≠ t) :
    evs t (e :: log) = evs t log := by
  simp [evs, h]

theorem evs_append_of_eq {t : TaskId} {es log : List Ev} (h : ∀ e ∈ es, e.task = t) :
    evs t (es ++ log) = es ++ evs t log := by
  rw [evs, List.filter_append, List.filter_eq_self.2 fun e he => by simpa using h e he]
  rfl

theorem evs_append_of_ne {t : TaskId} {es log : List Ev} (h : ∀ e ∈ es, e.task ≠ t) :
    evs t (es ++ log) = evs t log := by
  rw [evs, List.filter_append, List.filter_eq_nil_iff.2 fun e he => by simpa using h e he]
  rfl

theorem phase_cons_of_eq {t : TaskId} {e : Ev} {log : List Ev} (h : e.task = t) :
    phase t (e :: log) = (phase t log).bind (Phase.next t · e) := by
  rw [phase, evs_cons_of_eq h]; rfl

theorem phase_congr {t : TaskId} {log log' : List Ev} (h : evs t log' = evs t log) :
    phase t log' = phase t log := by
  rw [phase, h]; rfl

/-! ## Pending events -/

/-- The pending events after events about `t`, newest first, from the pending events `p` before. -/
def pendingOf (p : EventMask) : List Ev → EventMask
  | [] => p
  | .posted _ events :: l => pendingOf p l ||| events
  | .seize _ events :: l => pendingOf p l &&& ~~~events
  | _ :: l => pendingOf p l

def pendingAfter (t : TaskId) (p : EventMask) (log : List Ev) : EventMask := pendingOf p (evs t log)

/-- Whatever was seized was pending at that moment, and what a poll failed to get was not. -/
def SeizedPending (p : EventMask) : List Ev → Prop
  | [] => True
  | .seize _ events :: l => events &&& pendingOf p l = events ∧ SeizedPending p l
  | .ret _ c r :: l =>
    (∀ events options, c = .eventWait events options 0 → r = .word 0 →
      eventsSatisfy (pendingOf p l &&& events) events options = false) ∧ SeizedPending p l
  | _ :: l => SeizedPending p l

theorem pendingOf_append (p : EventMask) (τ l : List Ev) :
    pendingOf p (τ ++ l) = pendingOf (pendingOf p l) τ := by
  induction τ with
  | nil => rfl
  | cons e τ ih => cases e <;> simp [pendingOf, ih]

theorem pendingAfter_append (t : TaskId) (p : EventMask) (τ log : List Ev) :
    pendingAfter t p (τ ++ log) = pendingAfter t (pendingAfter t p log) τ := by
  rw [pendingAfter, evs, List.filter_append]
  exact pendingOf_append p _ _

/-! ## Single bits -/

def Ev.postsBit (k : Nat) : Ev → Bool
  | .posted _ events => events.getLsbD k
  | _ => false

def Ev.seizesBit (k : Nat) : Ev → Bool
  | .seize _ events => events.getLsbD k
  | _ => false

theorem pendingOf_cons_bit {k : Nat} (hk : k < 64) (p : EventMask) (e : Ev) (l : List Ev) :
    (pendingOf p (e :: l)).getLsbD k =
      (e.postsBit k || ((pendingOf p l).getLsbD k && !e.seizesBit k)) := by
  cases e <;> simp [pendingOf, Ev.postsBit, Ev.seizesBit, hk, Bool.or_comm]

/-- A bit is pending exactly when it was pending before and has not been seized since, or has been
posted and not been seized since. -/
theorem pendingOf_bit {k : Nat} (hk : k < 64) (p : EventMask) : ∀ l : List Ev,
    (pendingOf p l).getLsbD k = true ↔
      (p.getLsbD k = true ∧ ∀ e ∈ l, e.seizesBit k = false) ∨
      ∃ l₁ e l₂, l = l₁ ++ e :: l₂ ∧ e.postsBit k = true ∧ ∀ e ∈ l₁, e.seizesBit k = false
  | [] => by simp [pendingOf]
  | e :: l => by
    rw [pendingOf_cons_bit hk, Bool.or_eq_true, Bool.and_eq_true, pendingOf_bit hk p l]
    constructor
    · rintro (he | ⟨⟨hp, hl⟩ | ⟨l₁, e', l₂, rfl, he', hl⟩, hs⟩)
      · exact .inr ⟨[], e, l, rfl, he, nofun⟩
      · exact .inl ⟨hp, List.forall_mem_cons.2 ⟨by simpa using hs, hl⟩⟩
      · exact .inr ⟨e :: l₁, e', l₂, rfl, he', List.forall_mem_cons.2 ⟨by simpa using hs, hl⟩⟩
    · rintro (⟨hp, hl⟩ | ⟨l₁, e', l₂, hl, he', hs⟩)
      · obtain ⟨he, hl⟩ := List.forall_mem_cons.1 hl
        exact .inr ⟨.inl ⟨hp, hl⟩, by simpa using he⟩
      · cases l₁ with
        | nil =>
          obtain ⟨rfl, rfl⟩ : e = e' ∧ l = l₂ := by simpa using hl
          exact .inl he'
        | cons a l₁ =>
          obtain ⟨rfl, rfl⟩ : e = a ∧ l = l₁ ++ e' :: l₂ := by simpa using hl
          obtain ⟨he, hs⟩ := List.forall_mem_cons.1 hs
          exact .inr ⟨.inr ⟨l₁, e', l₂, rfl, he', hs⟩, by simpa using he⟩

end Ptask.OneN
