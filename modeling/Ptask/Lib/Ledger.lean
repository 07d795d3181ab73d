import Mathlib.Algebra.Order.Ring.Int

/-!
# The ledger of a counting semaphore

A waiter of the semaphore takes its unit in advance: the count goes below zero, and a later post hands
a unit over to the first waiter. The ledger records what has happened to the units. When nobody gives
up waiting, a negative count is the number of waiters; a waiter that leaves the queue on its own
without returning its unit (`Step.expire`) leaves the count too low by one for good.
-/

namespace Ptask.Lib

/-- The count and the queue length of a semaphore, and the number of units taken and posted and of
waiters that gave up since the count was `initial`. -/
structure Ledger where
  count : Int
  waiting : Nat
  taken : Nat
  posted : Nat
  initial : Int
  expired : Nat

namespace Ledger

/-- The operations on a semaphore; waiters give up only when `p` holds. -/
inductive Step (p : Prop) (l : Ledger) : Ledger → Prop
  | keep : Step p l l
  /-- The semaphore is initialised while nobody uses it. -/
  | init (v : Int) : Step p l ⟨v, 0, 0, 0, v, 0⟩
  /-- A unit is there and is taken. -/
  | take (h : 0 < l.count) : Step p l { l with count := l.count - 1, taken := l.taken + 1 }
  /-- No unit is there: a waiter joins the queue. -/
  | wait (h : l.count ≤ 0) : Step p l { l with count := l.count - 1, waiting := l.waiting + 1 }
  /-- A unit is posted and nobody waits for it. -/
  | post (h : l.waiting = 0) : Step p l { l with count := l.count + 1, posted := l.posted + 1 }
  /-- A unit is posted and handed over to a waiter. -/
  | give (n : Nat) (h : l.waiting = n + 1) :
    Step p l { l with
      count := l.count + 1, posted := l.posted + 1, waiting := n, taken := l.taken + 1 }
  /-- A waiter leaves the queue without a unit. -/
  | expire (hp : p) (n : Nat) (h : l.waiting = n + 1) :
    Step p l { l with waiting := n, expired := l.expired + 1 }

/-- The invariant: the units are all accounted for, and as long as nobody has given up, there are
waiters only when the count is negative, and as many as it says. -/
structure Sound (l : Ledger) : Prop where
  balance : l.count + l.taken + l.waiting + l.expired = l.initial + l.posted
  queue : 0 ≤ l.initial → l.expired = 0 →
    (0 ≤ l.count ∧ l.waiting = 0) ∨ (l.count < 0 ∧ (l.waiting : Int) = -l.count)

theorem Sound.step {p : Prop} {l l' : Ledger} (h : l.Sound) (hs : Step p l l') : l'.Sound := by
  obtain ⟨hb, hq⟩ := h
  cases hs with
  | keep => exact ⟨hb, hq⟩
  | init v => exact ⟨by simp, fun hv _ => .inl ⟨hv, rfl⟩⟩
  | take hc =>
    refine ⟨by simp only [Nat.cast_add, Nat.cast_one]; omega, fun hi he => ?_⟩
    rcases hq hi he with ⟨-, hw⟩ | ⟨hn, -⟩
    · exact .inl ⟨by simp only; omega, hw⟩
    · omega
  | wait hc =>
    refine ⟨by simp only [Nat.cast_add, Nat.cast_one]; omega, fun hi he => .inr ?_⟩
    rcases hq hi he with ⟨hn, hw⟩ | ⟨hn, hw⟩ <;> simp only <;> omega
  | post hw =>
    refine ⟨by simp only [Nat.cast_add, Nat.cast_one]; omega, fun hi he => .inl ?_⟩
    rcases hq hi he with ⟨hn, -⟩ | ⟨hn, hw'⟩ <;> simp only <;> omega
  | give n hw =>
    refine ⟨by simp only [Nat.cast_add, Nat.cast_one]; omega, fun hi he => ?_⟩
    rcases hq hi he with ⟨-, hw'⟩ | ⟨hn, hw'⟩
    · omega
    · simp only
      omega
  | expire _ n hw =>
    refine ⟨by simp only [Nat.cast_add, Nat.cast_one]; omega, fun _ he => ?_⟩
    exact absurd he (Nat.succ_ne_zero _)

/-- Where waiters do not give up, none has given up afterwards. -/
theorem Step.expired {p : Prop} {l l' : Ledger} (hs : Step p l l') (hp : ¬p) (h : l.expired = 0) :
    l'.expired = 0 := by
  cases hs with
  | expire hp' => exact absurd hp' hp
  | init => rfl
  | _ => exact h

/-- As long as nobody has given up, every unit is available or was taken. -/
theorem Sound.units {l : Ledger} (h : l.Sound) (hi : 0 ≤ l.initial) (he : l.expired = 0) :
    max l.count 0 = l.initial + l.posted - l.taken := by
  have hb := h.balance
  rcases h.queue hi he with ⟨hn, hw⟩ | ⟨hn, hw⟩
  · rw [max_eq_left hn]; omega
  · rw [max_eq_right hn.le]; omega

/-- The count is too low only for the units that waiters have taken in advance, whether they still
wait or have given up. -/
def Covered (l : Ledger) : Prop := 0 ≤ l.initial → 0 ≤ l.count + l.waiting + l.expired

theorem Covered.step {p : Prop} {l l' : Ledger} (h : l.Covered) (hs : Step p l l') :
    l'.Covered := by
  unfold Covered at h ⊢
  cases hs <;> grind

/-- **Not more units are taken than there were**, even if waiters give up. -/
theorem Sound.taken_le {l : Ledger} (h : l.Sound) (hc : l.Covered) (hi : 0 ≤ l.initial) :
    (l.taken : Int) ≤ l.initial + l.posted := by
  have hb := h.balance
  have := hc hi
  omega

end Ledger

end Ptask.Lib
