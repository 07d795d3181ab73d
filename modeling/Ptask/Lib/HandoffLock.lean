import Mathlib.Data.BitVec
import Mathlib.Data.List.Nodup
import Mathlib.Logic.Function.Basic

/-!
# A re-entrant lock with hand-off

The holder counts its nested locks; the test of the holder and the writes of the counter are steps of
their own, outside of the section that protects the queue. A release gives the lock to the first
agent in the queue, and the releasing agent writes the counter on behalf of the new holder before it
wakes it.

`depth` is how many locks an agent has not yet released. `Lock.Ok` is the invariant: the counter is
the depth of the holder wherever the holder may rely on it, an agent in the queue is not the holder,
and the lock is free only while the queue is empty.
-/

namespace Ptask.Lib.Handoff

/-- What an agent is doing with the lock, as far as its next step depends on it. -/
inductive Role (α : Type*)
  /-- It is not inside the lock's functions, or about to test the holder. -/
  | out
  /-- It holds the lock; the increment of the counter is next. -/
  | nest
  /-- The section of the lock function is next. -/
  | arriving
  /-- It has taken the lock; the write of the counter is next. -/
  | own
  | queued
  /-- It has been taken off the queue by `p` and holds the lock. -/
  | given (p : α)
  | woken
  /-- The decrement of the counter is next. -/
  | dec
  /-- The test of the counter is next. -/
  | retest
  /-- The section of the unlock function is next. -/
  | release
  /-- It has given the lock to `w`; `marked` says that it has written the counter. -/
  | giving (w : α) (marked : Bool)

/-- A role in which an agent is neither in the queue nor part of a hand-off. -/
def Role.loose {α : Type*} : Role α → Bool
  | .queued | .given _ | .giving .. => false
  | _ => true

structure Lock (α : Type*) where
  holder : Option α
  count : BitVec 32
  waitq : List α
  role : α → Role α
  depth : α → Nat

section

variable {α : Type*} [DecidableEq α]

/-- One agent goes on. -/
def Lock.set (l : Lock α) (t : α) (r : Role α) (d : Nat) : Lock α :=
  { l with role := Function.update l.role t r, depth := Function.update l.depth t d }

/-- The steps of the agents, with the agent whose step it is; a holder does not nest so deep that the counter overflows. -/
inductive Lock.Step (l : Lock α) : Option α → Lock α → Prop
  | quiet (o : Option α) : Step l o l
  | test (t : α) (hr : l.role t = .out) :
      Step l (some t) (l.set t (if l.holder = some t then .nest else .arriving) (l.depth t))
  | nest (t : α) (hr : l.role t = .nest) (hd : l.depth t + 1 < 2 ^ 32) :
      Step l (some t) { l.set t .out (l.depth t + 1) with count := l.count + 1 }
  | seize (t : α) (hr : l.role t = .arriving) (hh : l.holder = none) :
      Step l (some t) { l.set t .own (l.depth t) with holder := some t }
  | park (t : α) (hr : l.role t = .arriving) (hh : l.holder ≠ none) :
      Step l (some t) { l.set t .queued (l.depth t) with waitq := l.waitq ++ [t] }
  | own (t : α) (hr : l.role t = .own) : Step l (some t) { l.set t .out (l.depth t + 1) with count := 1 }
  | resume (t : α) (hr : l.role t = .woken) : Step l (some t) (l.set t .out (l.depth t + 1))
  | check (t : α) (hr : l.role t = .out) (hh : l.holder = some t) : Step l (some t) (l.set t .dec (l.depth t))
  | dec (t : α) (hr : l.role t = .dec) :
      Step l (some t) { l.set t .retest (l.depth t) with count := l.count - 1 }
  | inner (t : α) (hr : l.role t = .retest) (hc : l.count ≠ 0) :
      Step l (some t) (l.set t .out (l.depth t - 1))
  | outer (t : α) (hr : l.role t = .retest) (hc : l.count = 0) :
      Step l (some t) (l.set t .release (l.depth t))
  | free (t : α) (hr : l.role t = .release) (hq : l.waitq = []) :
      Step l (some t) { l.set t .out (l.depth t - 1) with holder := none }
  | give (t w : α) (rest : List α) (hr : l.role t = .release) (hq : l.waitq = w :: rest) :
      Step l (some t) { (l.set w (.given t) (l.depth w)).set t (.giving w false) (l.depth t - 1) with
        holder := some w, waitq := rest }
  | mark (t w : α) (hr : l.role t = .giving w false) :
      Step l (some t) { l.set t (.giving w true) (l.depth t) with count := 1 }
  | wake (t w : α) (hr : l.role t = .giving w true) :
      Step l (some t) ((l.set w .woken (l.depth w)).set t .out (l.depth t))

/-! ## The invariant -/

/-- What an agent may rely on. -/
def Lock.Relies (l : Lock α) (t : α) : Prop :=
  match l.role t with
  | .out => (l.holder = some t ∧ 0 < l.depth t ∧ l.count.toNat = l.depth t) ∨
      (l.holder ≠ some t ∧ l.depth t = 0)
  | .nest | .dec => l.holder = some t ∧ 0 < l.depth t ∧ l.count.toNat = l.depth t
  | .arriving => l.holder ≠ some t ∧ l.depth t = 0
  | .own | .given _ => l.holder = some t ∧ l.depth t = 0
  | .queued => l.holder ≠ some t ∧ l.holder ≠ none ∧ l.depth t = 0
  | .woken => l.holder = some t ∧ l.depth t = 0 ∧ l.count = 1
  | .retest => l.holder = some t ∧ l.count.toNat + 1 = l.depth t
  | .release => l.holder = some t ∧ l.depth t = 1
  | .giving w marked => l.holder = some w ∧ w ≠ t ∧ l.depth t = 0 ∧ (marked = true → l.count = 1)

structure Lock.Ok (l : Lock α) : Prop where
  relies : ∀ t, l.Relies t
  queue : ∀ t, t ∈ l.waitq ↔ l.role t = .queued
  nodup : l.waitq.Nodup
  giving : ∀ p w b, l.role p = .giving w b → l.role w = .given p
  given : ∀ w p, l.role w = .given p → ∃ b, l.role p = .giving w b

variable {l l' : Lock α} {o : Option α} {t u w : α} {r : Role α} {d : Nat}

namespace Lock

@[simp] theorem set_role_self : (l.set t r d).role t = r := Function.update_self ..

@[simp] theorem set_depth_self : (l.set t r d).depth t = d := Function.update_self ..

@[simp] theorem set_holder : (l.set t r d).holder = l.holder := rfl

@[simp] theorem set_count : (l.set t r d).count = l.count := rfl

@[simp] theorem set_waitq : (l.set t r d).waitq = l.waitq := rfl

theorem set_role_of_ne (h : u ≠ t) : (l.set t r d).role u = l.role u := Function.update_of_ne h ..

theorem set_depth_of_ne (h : u ≠ t) : (l.set t r d).depth u = l.depth u := Function.update_of_ne h ..

theorem set_self (hr : l.role t = r) (hd : l.depth t = d) : l.set t r d = l := by
  subst hr hd
  simp [set]

theorem set_set (r' : Role α) (d' : Nat) : (l.set t r d).set t r' d' = l.set t r' d' := by
  simp [set]

theorem set_set_set (u : α) (r₁ r₂ : Role α) (d₁ d₂ : Nat) :
    ((l.set t r d).set u r₁ d₁).set t r₂ d₂ = (l.set u r₁ d₁).set t r₂ d₂ := by
  simp only [set, mk.injEq, true_and]
  refine ⟨funext fun v => ?_, funext fun v => ?_⟩ <;>
  · by_cases hv : v = t
    · simp [hv]
    · by_cases hu : v = u <;> simp [Function.update_apply, hv, hu]

/-! ### What other agents do -/

omit [DecidableEq α] in
/-- An agent relies on the counter only if it holds the lock or has marked it for the holder. -/
theorem Relies.frame (h : l.Relies u) (hr : l'.role u = l.role u) (hd : l'.depth u = l.depth u)
    (hh : l'.holder = l.holder)
    (hc : l'.count = l.count ∨ l.holder ≠ some u ∧ ∀ w b, l.role u ≠ .giving w b) :
    l'.Relies u := by
  unfold Relies at *
  rw [hr, hd, hh]
  rcases hc with hc | ⟨hne, hg⟩
  · rw [hc]
    exact h
  · cases hu : l.role u <;> simp_all

omit [DecidableEq α] in
/-- An agent that does not hold the lock, does not wait for it and has not given it away relies on
that only. -/
theorem Relies.of_ne (h : l.Relies u) (hr : l'.role u = l.role u) (hd : l'.depth u = l.depth u)
    (hh : l.holder ≠ some u) (hh' : l'.holder ≠ some u) (hq : l.role u = .queued → l'.holder ≠ none)
    (hg : ∀ w b, l.role u ≠ .giving w b) : l'.Relies u := by
  unfold Relies at *
  rw [hr, hd]
  cases hu : l.role u <;> simp_all

omit [DecidableEq α] in
theorem Ok.not_giving (h : l.Ok) (hh : l.holder = some t) (ht : (l.role t).loose = true) (w : α)
    (b : Bool) : l.role u ≠ .giving w b := by
  intro hu
  have hrel := h.relies u
  simp only [Relies, hu] at hrel
  obtain rfl : t = w := Option.some.inj (hh.symm.trans hrel.1)
  rw [h.giving u t b hu] at ht
  cases ht

/-! ### One agent goes on -/

/-- The queue and the hand-offs are as before when an agent goes from one loose role to another. -/
theorem Ok.settle (h : l.Ok) (ht : (l.role t).loose = true) (hr : r.loose = true)
    (hrole : l'.role = Function.update l.role t r) (hq : l'.waitq = l.waitq)
    (hrel : ∀ u, l'.Relies u) : l'.Ok := by
  have hsame (x : Role α) (hx : x.loose = false) (u : α) : l'.role u = x ↔ l.role u = x := by
    rw [hrole]
    by_cases hu : u = t
    · subst hu
      rw [Function.update_self]
      refine iff_of_false ?_ ?_
      · rintro rfl
        rw [hr] at hx
        cases hx
      · rintro rfl
        rw [ht] at hx
        cases hx
    · rw [Function.update_of_ne hu]
  refine ⟨hrel, fun u => ?_, hq ▸ h.nodup, fun p w b hp => ?_, fun w p hw => ?_⟩
  · rw [hq, h.queue, hsame _ rfl]
  · rw [hsame _ rfl] at hp ⊢
    exact h.giving p w b hp
  · rw [hsame _ rfl] at hw
    obtain ⟨b, hb⟩ := h.given w p hw
    exact ⟨b, (hsame _ rfl p).2 hb⟩

/-- An agent moves on, and possibly writes the counter, which only the holder does. -/
theorem Ok.move (h : l.Ok) {c : BitVec 32} (ht : (l.role t).loose = true) (hr : r.loose = true)
    (hc : c = l.count ∨ l.holder = some t) (hrel : ({ l.set t r d with count := c }).Relies t) :
    Ok { l.set t r d with count := c } := by
  refine h.settle ht hr rfl rfl fun u => ?_
  by_cases hu : u = t
  · exact hu ▸ hrel
  · refine (h.relies u).frame (Function.update_of_ne hu ..) (Function.update_of_ne hu ..) rfl ?_
    rcases hc with rfl | hh
    · exact .inl rfl
    · refine .inr ⟨fun hhu => hu ?_, h.not_giving hh ht⟩
      exact Option.some.inj (hhu.symm.trans hh)

theorem Ok.seize (h : l.Ok) (hr : l.role t = .arriving) (hh : l.holder = none) :
    Ok { l.set t .own (l.depth t) with holder := some t } := by
  have ht := h.relies t
  simp only [Relies, hr] at ht
  refine h.settle (by rw [hr]; rfl) rfl rfl rfl fun u => ?_
  by_cases hu : u = t
  · subst hu
    simp [Relies, ht.2]
  · refine (h.relies u).of_ne (Function.update_of_ne hu ..) (Function.update_of_ne hu ..) (by simp [hh])
      (by simpa using Ne.symm hu) (fun _ => by simp) fun w b hg => ?_
    have hrel := h.relies u
    simp [Relies, hg, hh] at hrel

theorem Ok.free (h : l.Ok) (hr : l.role t = .release) (hq : l.waitq = []) :
    Ok { l.set t .out (l.depth t - 1) with holder := none } := by
  have ht := h.relies t
  simp only [Relies, hr] at ht
  refine h.settle (by rw [hr]; rfl) rfl rfl rfl fun u => ?_
  by_cases hu : u = t
  · subst hu
    simp [Relies, ht.2]
  · refine (h.relies u).of_ne (Function.update_of_ne hu ..) (Function.update_of_ne hu ..)
      (by simpa [ht.1] using Ne.symm hu) (by simp) (fun huq => ?_)
      (h.not_giving ht.1 (by rw [hr]; rfl))
    rw [← h.queue, hq] at huq
    exact absurd huq List.not_mem_nil

theorem Ok.park (h : l.Ok) (hr : l.role t = .arriving) (hh : l.holder ≠ none) :
    Ok { l.set t .queued (l.depth t) with waitq := l.waitq ++ [t] } := by
  have ht := h.relies t
  simp only [Relies, hr] at ht
  have hnq : t ∉ l.waitq := by
    rw [h.queue, hr]
    nofun
  refine ⟨fun u => ?_, fun u => ?_, ?_, fun p w b hp => ?_, fun w p hw => ?_⟩
  · by_cases hu : u = t
    · subst hu
      simpa [Relies, ht] using hh
    · exact (h.relies u).frame (Function.update_of_ne hu ..) (Function.update_of_ne hu ..) rfl (.inl rfl)
  · by_cases hu : u = t
    · simp [hu]
    · simp [set_role_of_ne hu, hu, h.queue]
  · exact List.nodup_append.2 ⟨h.nodup, List.nodup_singleton t, by
      rintro a ha b hb rfl
      rw [List.mem_singleton.1 hb] at ha
      exact hnq ha⟩
  · by_cases hpt : p = t
    · simp [hpt] at hp
    · have hw := h.giving p w b (by simpa [set_role_of_ne hpt] using hp)
      have hwt : w ≠ t := by
        rintro rfl
        rw [hr] at hw
        cases hw
      simpa [set_role_of_ne hwt] using hw
  · by_cases hwt : w = t
    · simp [hwt] at hw
    · obtain ⟨b, hb⟩ := h.given w p (by simpa [set_role_of_ne hwt] using hw)
      have hpt : p ≠ t := by
        rintro rfl
        rw [hr] at hb
        cases hb
      exact ⟨b, by simpa [set_role_of_ne hpt] using hb⟩

/-! ### The hand-off -/

theorem Ok.give {rest : List α} (h : l.Ok) (hr : l.role t = .release) (hq : l.waitq = w :: rest) :
    Ok { (l.set w (.given t) (l.depth w)).set t (.giving w false) (l.depth t - 1) with
      holder := some w, waitq := rest } := by
  have ht := h.relies t
  simp only [Relies, hr] at ht
  have hw : l.role w = .queued := (h.queue w).1 (by simp [hq])
  have hdw := h.relies w
  simp only [Relies, hw] at hdw
  have hnd := h.nodup
  rw [hq] at hnd
  obtain ⟨hwr, hnd⟩ := List.nodup_cons.1 hnd
  have hwt : w ≠ t := by
    rintro rfl
    rw [hr] at hw
    cases hw
  have hnot (p w' : α) (b : Bool) : l.role p ≠ .giving w' b :=
    h.not_giving ht.1 (by rw [hr]; rfl) w' b
  have hrole (u : α) (hut : u ≠ t) (huw : u ≠ w) :
      ((l.set w (.given t) (l.depth w)).set t (.giving w false) (l.depth t - 1)).role u =
        l.role u := by
    rw [set_role_of_ne hut, set_role_of_ne huw]
  have hdepth (u : α) (hut : u ≠ t) (huw : u ≠ w) :
      ((l.set w (.given t) (l.depth w)).set t (.giving w false) (l.depth t - 1)).depth u =
        l.depth u := by
    rw [set_depth_of_ne hut, set_depth_of_ne huw]
  refine ⟨fun u => ?_, fun u => ?_, hnd, fun p w' b hp => ?_, fun w' p hw' => ?_⟩
  · by_cases hut : u = t
    · subst hut
      simp [Relies, hwt, ht.2]
    · by_cases huw : u = w
      · subst huw
        simp [Relies, set_role_of_ne hut, set_depth_of_ne hut, hdw]
      · exact (h.relies u).of_ne (hrole u hut huw) (hdepth u hut huw)
          (by simpa [ht.1] using Ne.symm hut) (by simpa using Ne.symm huw) (fun _ => by simp) (hnot u)
  · by_cases hut : u = t
    · subst hut
      have : u ∉ l.waitq := by
        rw [h.queue, hr]
        nofun
      rw [hq] at this
      simpa using fun hu => this (List.mem_cons_of_mem w hu)
    · by_cases huw : u = w
      · subst huw
        simpa [set_role_of_ne hut] using hwr
      · have := h.queue u
        rw [hq] at this
        simpa [hrole u hut huw, huw] using this
  · by_cases hpt : p = t
    · subst hpt
      obtain ⟨rfl, -⟩ : w = w' ∧ false = b := by simpa using hp
      simp [set_role_of_ne hwt]
    · by_cases hpw : p = w
      · subst hpw
        simp [set_role_of_ne hpt] at hp
      · exact absurd ((hrole p hpt hpw).symm.trans hp) (hnot p w' b)
  · by_cases hut : w' = t
    · simp [hut] at hw'
    · by_cases huw : w' = w
      · subst huw
        obtain rfl : t = p := by simpa [set_role_of_ne hut] using hw'
        exact ⟨false, by simp⟩
      · obtain ⟨b, hb⟩ := h.given w' p ((hrole w' hut huw).symm.trans hw')
        exact absurd hb (hnot p w' b)

omit [DecidableEq α] in
/-- There is one hand-off at a time. -/
theorem Ok.giving_unique {b b' : Bool} (h : l.Ok) (ht : l.role t = .giving w b) {p w' : α}
    (hp : l.role p = .giving w' b') : p = t ∧ w' = w := by
  have h1 := h.relies t
  have h2 := h.relies p
  simp only [Relies, ht] at h1
  simp only [Relies, hp] at h2
  obtain rfl : w = w' := Option.some.inj (h1.1.symm.trans h2.1)
  have h3 := (h.giving p w b' hp).symm.trans (h.giving t w b ht)
  exact ⟨by simpa using h3, rfl⟩

theorem Ok.mark (h : l.Ok) (hr : l.role t = .giving w false) :
    Ok { l.set t (.giving w true) (l.depth t) with count := 1 } := by
  have ht := h.relies t
  simp only [Relies, hr] at ht
  have hw := h.giving t w false hr
  refine ⟨fun u => ?_, fun u => ?_, h.nodup, fun p w' b hp => ?_, fun w' p hw' => ?_⟩
  · by_cases hut : u = t
    · subst hut
      simp [Relies, ht.1, ht.2.1, ht.2.2.1]
    · by_cases huw : u = w
      · subst huw
        have hu := h.relies u
        simp only [Relies, hw] at hu
        simp [Relies, set_role_of_ne hut, set_depth_of_ne hut, hw, hu]
      · refine (h.relies u).frame (Function.update_of_ne hut ..) (Function.update_of_ne hut ..) rfl (.inr ⟨?_, ?_⟩)
        · simpa [ht.1] using Ne.symm huw
        · exact fun w' b hg => hut (h.giving_unique hr hg).1
  · by_cases hut : u = t
    · subst hut
      simp [h.queue, hr]
    · simp [set_role_of_ne hut, h.queue]
  · have hwt := ht.2.1
    by_cases hpt : p = t
    · subst hpt
      obtain ⟨rfl, -⟩ : w = w' ∧ true = b := by simpa using hp
      simpa [set_role_of_ne hwt] using hw
    · exact absurd (h.giving_unique hr ((Function.update_of_ne hpt ..).symm.trans hp)).1 hpt
  · by_cases hut : w' = t
    · simp [hut] at hw'
    · obtain ⟨b, hb⟩ := h.given w' p ((Function.update_of_ne hut ..).symm.trans hw')
      obtain ⟨rfl, rfl⟩ := h.giving_unique hr hb
      exact ⟨true, by simp⟩

theorem Ok.wake (h : l.Ok) (hr : l.role t = .giving w true) :
    Ok ((l.set w .woken (l.depth w)).set t .out (l.depth t)) := by
  have ht := h.relies t
  simp only [Relies, hr] at ht
  obtain ⟨hh, hwt, hd, hc⟩ := ht
  have hw := h.giving t w true hr
  have hrole (u : α) (hut : u ≠ t) (huw : u ≠ w) :
      ((l.set w .woken (l.depth w)).set t .out (l.depth t)).role u = l.role u := by
    rw [set_role_of_ne hut, set_role_of_ne huw]
  refine ⟨fun u => ?_, fun u => ?_, h.nodup, fun p w' b hp => ?_, fun w' p hw' => ?_⟩
  · by_cases hut : u = t
    · subst hut
      simpa [Relies, hh, hd] using hwt
    · by_cases huw : u = w
      · subst huw
        have hu := h.relies u
        simp only [Relies, hw] at hu
        simp [Relies, set_role_of_ne hut, set_depth_of_ne hut, hh, hu.2, hc]
      · refine (h.relies u).frame (hrole u hut huw) ?_ rfl (.inl rfl)
        rw [set_depth_of_ne hut, set_depth_of_ne huw]
  · by_cases hut : u = t
    · subst hut
      simp [h.queue, hr]
    · by_cases huw : u = w
      · subst huw
        simp [h.queue, hw, set_role_of_ne hut]
      · exact (h.queue u).trans (by rw [hrole u hut huw])
  · by_cases hpt : p = t
    · simp [hpt] at hp
    · by_cases hpw : p = w
      · subst hpw
        simp [set_role_of_ne hpt] at hp
      · exact absurd (h.giving_unique hr ((hrole p hpt hpw).symm.trans hp)).1 hpt
  · by_cases hut : w' = t
    · simp [hut] at hw'
    · by_cases huw : w' = w
      · subst huw
        simp [set_role_of_ne hut] at hw'
      · obtain ⟨b, hb⟩ := h.given w' p ((hrole w' hut huw).symm.trans hw')
        exact absurd (h.giving_unique hr hb).2 huw

/-! ## Steps -/

theorem Step.of_eq (h : l' = l) : l.Step o l' := h ▸ .quiet o

/-- **Every step keeps the invariant.** -/
theorem Ok.step (h : l.Ok) (hstep : l.Step o l') : l'.Ok := by
  cases hstep with
  | quiet o => exact h
  | test t hr =>
    have ht := h.relies t
    simp only [Relies, hr] at ht
    split
    · next hh =>
      refine h.move (by rw [hr]; rfl) rfl (.inl rfl) ?_
      simpa [Relies, hh] using ht
    · next hh =>
      refine h.move (by rw [hr]; rfl) rfl (.inl rfl) ?_
      simpa [Relies, hh] using ht
  | nest t hr hlt =>
    have ht := h.relies t
    simp only [Relies, hr] at ht
    refine h.move (by rw [hr]; rfl) rfl (.inr ht.1) ?_
    have hc : (l.count + 1).toNat = l.depth t + 1 := by
      rw [BitVec.toNat_add, ht.2.2]
      exact Nat.mod_eq_of_lt hlt
    simpa [Relies, ht.1] using hc
  | seize t hr hh => exact h.seize hr hh
  | park t hr hh => exact h.park hr hh
  | own t hr =>
    have ht := h.relies t
    simp only [Relies, hr] at ht
    refine h.move (by rw [hr]; rfl) rfl (.inr ht.1) ?_
    simp [Relies, ht]
  | resume t hr =>
    have ht := h.relies t
    simp only [Relies, hr] at ht
    refine h.move (by rw [hr]; rfl) rfl (.inl rfl) ?_
    simp [Relies, ht]
  | check t hr hh =>
    have ht := h.relies t
    simp only [Relies, hr] at ht
    refine h.move (by rw [hr]; rfl) rfl (.inl rfl) ?_
    simpa [Relies, hh] using ht
  | dec t hr =>
    have ht := h.relies t
    simp only [Relies, hr] at ht
    refine h.move (by rw [hr]; rfl) rfl (.inr ht.1) ?_
    have hc : (l.count - 1).toNat + 1 = l.depth t := by
      have := l.count.isLt
      rw [BitVec.toNat_sub, ← ht.2.2]
      have : (1 : BitVec 32).toNat = 1 := rfl
      omega
    simpa [Relies, ht.1] using hc
  | inner t hr hc =>
    have ht := h.relies t
    simp only [Relies, hr] at ht
    refine h.move (by rw [hr]; rfl) rfl (.inl rfl) ?_
    have hc : l.count.toNat ≠ 0 := fun h0 => hc (BitVec.eq_of_toNat_eq h0)
    have hd : 0 < l.depth t - 1 ∧ l.count.toNat = l.depth t - 1 := by omega
    simp only [Relies, set_role_self, set_holder, set_depth_self]
    exact .inl ⟨ht.1, hd⟩
  | outer t hr hc =>
    have ht := h.relies t
    simp only [Relies, hr] at ht
    refine h.move (by rw [hr]; rfl) rfl (.inl rfl) ?_
    have hd : 1 = l.depth t := by simpa [hc] using ht.2
    simpa [Relies, ht.1] using hd.symm
  | free t hr hq => exact h.free hr hq
  | give t w rest hr hq => exact h.give hr hq
  | mark t w hr => exact h.mark hr
  | wake t w hr => exact h.wake hr

/-- **A step that changes the queue appends the agent that is parked, or takes the first off it.** -/
theorem Step.waitq (hstep : l.Step o l') :
    l'.waitq = l.waitq ∨
    (∃ t, o = some t ∧ l.role t = .arriving ∧ l.holder ≠ none ∧ l'.waitq = l.waitq ++ [t]) ∨
    ∃ t w, o = some t ∧ l.role t = .release ∧ l.waitq = w :: l'.waitq ∧ l'.holder = some w := by
  cases hstep with
  | park t hr hh => exact .inr (.inl ⟨t, rfl, hr, hh, rfl⟩)
  | give t w rest hr hq => exact .inr (.inr ⟨t, w, rfl, hr, hq, rfl⟩)
  | _ => exact .inl rfl

/-- **The lock is taken while it is free, or it is released and goes to the first of the queue.** -/
theorem Step.holder (hstep : l.Step o l') :
    l'.holder = l.holder ∨
    (∃ t, o = some t ∧ l.role t = .arriving ∧ l.holder = none ∧ l'.holder = some t) ∨
    ∃ t, o = some t ∧ l.role t = .release ∧ l'.depth t = l.depth t - 1 ∧
      l'.holder = l.waitq.head? ∧ l'.waitq = l.waitq.tail := by
  cases hstep with
  | seize t hr hh => exact .inr (.inl ⟨t, rfl, hr, hh, rfl⟩)
  | free t hr hq => exact .inr (.inr ⟨t, rfl, hr, by simp, by simp [hq], by simp [hq]⟩)
  | give t w rest hr hq => exact .inr (.inr ⟨t, rfl, hr, by simp, by simp [hq], by simp [hq]⟩)
  | _ => exact .inl rfl

/-! ## What the invariant says -/

omit [DecidableEq α] in
/-- **Only the holder has locks that it has not released.** -/
theorem Ok.holder_of_depth (h : l.Ok) (ht : 0 < l.depth t) : l.holder = some t := by
  have hrel := h.relies t
  unfold Relies at hrel
  split at hrel <;> grind

end Lock

end

end Ptask.Lib.Handoff
