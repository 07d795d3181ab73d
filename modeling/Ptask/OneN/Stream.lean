import Ptask.OneN.Heard
import Ptask.OneN.Pipe

/-!
# The pipe in every run

What the operations of `pipe.c` rely on is said by `PipePoint.Allowed`: who pushes or pops holds a
handle, and a pipe that cannot grow is not filled beyond its buffer. `After` says what a segment then
does; the results about runs, on the stream of bytes, on who sleeps, and on the end of the stream,
follow from it. That the limit of a pipe makes nobody wait holds in all runs.
-/

namespace Ptask.OneN

open Ptask.Lib

variable {β : Type*}

/-! ## The discipline -/

/-- What `pipe_reserve` asks for, in bytes. -/
def Pipe.reserved (p : Pipe β) (count : Nat) : Nat :=
  if count * p.elemSize % 2 ^ 64 = 0 then DEFAULT_MINCAP else count * p.elemSize % 2 ^ 64

namespace PipePoint

/-- What the operations rely on: the handles, and that the assertions of `pipe_reserve` hold. -/
def Allowed (p : Pipe β) : PipePoint β → Prop
  | .outside => True
  | .producerNew => 0 < p.producerRefcount ∧ 0 < p.consumerRefcount
  | .consumerNew => 0 < p.producerRefcount ∧ 0 < p.consumerRefcount
  | .free => 0 < p.producerRefcount ∧ 0 < p.consumerRefcount
  | .producerFree => 0 < p.producerRefcount
  | .consumerFree => 0 < p.consumerRefcount
  | .push elems => 0 < p.producerRefcount ∧
    (0 < p.consumerRefcount → p.maxCap ≤ p.minCap → p.bytesInUse + elems.length ≤ p.capacity)
  | .pop .. => 0 < p.consumerRefcount
  | .reserve count => 0 < p.consumerRefcount ∧ (p.reserved count ≤ p.bytesInUse ∨
    DEFAULT_MINCAP * p.elemSize ≤ min (p.reserved count) p.maxCap ∧
      min (p.reserved count) p.maxCap ≤ p.bufend)

instance (p : Pipe β) : (k : PipePoint β) → Decidable (k.Allowed p)
  | .outside => .isTrue trivial
  | .producerNew => inferInstanceAs (Decidable (_ ∧ _))
  | .consumerNew => inferInstanceAs (Decidable (_ ∧ _))
  | .free => inferInstanceAs (Decidable (_ ∧ _))
  | .producerFree => inferInstanceAs (Decidable (0 < _))
  | .consumerFree => inferInstanceAs (Decidable (0 < _))
  | .push elems => inferInstanceAs (Decidable (0 < p.producerRefcount ∧
      (0 < p.consumerRefcount → p.maxCap ≤ p.minCap → p.bytesInUse + elems.length ≤ p.capacity)))
  | .pop .. => inferInstanceAs (Decidable (0 < _))
  | .reserve count => inferInstanceAs (Decidable (0 < p.consumerRefcount ∧
      (p.reserved count ≤ p.bytesInUse ∨
        DEFAULT_MINCAP * p.elemSize ≤ min (p.reserved count) p.maxCap ∧
          min (p.reserved count) p.maxCap ≤ p.bufend)))

/-- Who runs holds a handle. -/
theorem Allowed.pos {p : Pipe β} {k : PipePoint β} (h : k.Allowed p) (hk : k ≠ .outside) :
    0 < p.producerRefcount ∨ 0 < p.consumerRefcount := by
  cases k with
  | outside => exact absurd rfl hk
  | producerNew => exact .inl h.1
  | consumerNew => exact .inl h.1
  | free => exact .inl h.1
  | producerFree => exact .inl h
  | consumerFree => exact .inr h
  | push elems => exact .inl h.1
  | pop eager left target => exact .inr h
  | reserve count => exact .inr h.1

/-- The last consumer leaves. -/
def leaves (p : Pipe β) : PipePoint β → Bool
  | .free => p.consumerRefcount = 1
  | .consumerFree => p.consumerRefcount = 1
  | _ => false

def pops : PipePoint β → Bool
  | .pop .. => true
  | _ => false

/-- The buffer that a push or a pop needs cannot be had. -/
def lacks (heap : Heap β) (p : Pipe β) : PipePoint β → Bool
  | .push elems => 0 < p.consumerRefcount && p.growFails heap elems.length
  | .pop _ left _ =>
    left ≠ 0 && p.bytesInUse ≠ 0 && p.shrinkFails heap (p.bytesInUse - left)
  | _ => false

/-- The bytes are those of whole elements. -/
def Whole (p : Pipe β) : PipePoint β → Prop
  | .push elems => p.elemSize ∣ elems.length
  | .pop _ left target => p.elemSize ∣ left ∧ p.elemSize ∣ target.length
  | _ => True

end PipePoint

/-- The handles are used as `Allowed` says, and the last consumer leaves when nobody is in a pop. -/
def PipeUse (q : ClientState (Pipe β) (PipePoint β)) : ClientMove (PipePoint β) → Prop
  | .enter k => k.Allowed q.data ∧
    (k.leaves q.data = true → ∀ t ∈ q.sched.live, (q.pc t).pops = false)
  | _ => True

instance (q : ClientState (Pipe β) (PipePoint β)) : (m : ClientMove (PipePoint β)) →
    Decidable (PipeUse q m)
  | .enter k => inferInstanceAs (Decidable (k.Allowed q.data ∧
      (k.leaves q.data = true → ∀ t ∈ q.sched.live, (q.pc t).pops = false)))
  | .go => .isTrue trivial
  | .other _ => .isTrue trivial

/-! ## The operations -/

namespace Pipe

variable {heap : Heap β} {p p' p₁ : Pipe β} {elems : List β} {n : Nat}

/-- The pipe is a stream of whole elements: the bytes pushed are those popped and then those in the
buffer, for as long as there is one; a pop comes back with less than it was asked for only at the end
of the stream. -/
structure Kept (p : Pipe β) : Prop extends p.Sized where
  buffer_some : 0 < p.consumerRefcount → ∃ cells, p.buffer = some cells
  counts : p.freed = true ↔ p.producerRefcount = 0 ∧ p.consumerRefcount = 0
  popped_prefix : p.popped <+: p.pushed
  stream : p.buffer ≠ none → p.pushed = p.popped ++ p.contents
  whole : ∀ r ∈ p.returns, p.elemSize ∣ r.data.length
  ended : ∀ r ∈ p.returns, r.data.length = r.requested ∨ (r.eager = true ∧ r.data ≠ []) ∨
    (p.producerRefcount = 0 ∧ p.contents = [])

/-- The operation has changed the buffer only. -/
structure Rest (p p' : Pipe β) : Prop where
  elemSize : p'.elemSize = p.elemSize
  minCap : p'.minCap = p.minCap
  maxCap : p'.maxCap = p.maxCap
  producerRefcount : p'.producerRefcount = p.producerRefcount
  consumerRefcount : p'.consumerRefcount = p.consumerRefcount
  freed : p'.freed = p.freed
  returns : p'.returns = p.returns

theorem Rest.refl (p : Pipe β) : Rest p p := ⟨rfl, rfl, rfl, rfl, rfl, rfl, rfl⟩

theorem Resized.rest (h : Resized p p' n) : Rest p p' := by
  obtain ⟨cells, rfl⟩ := h.eq
  exact ⟨rfl, rfl, rfl, rfl, rfl, rfl, rfl⟩

theorem Resized.ghost (h : Resized p p' n) : p'.pushed = p.pushed ∧ p'.popped = p.popped := by
  obtain ⟨cells, rfl⟩ := h.eq
  exact ⟨rfl, rfl⟩

theorem Resized.buffer_some (h : Resized p p' n) : ∃ cells, p'.buffer = some cells := by
  obtain ⟨cells, rfl⟩ := h.eq
  exact ⟨cells, rfl⟩

namespace Kept

/-- Handles come and go; the buffer may go with the last consumer. -/
theorem recount (h : p.Kept) (buffer : Option (Nat → β)) (producers consumers : Nat)
    (freed : Bool)
    (hbuffer : buffer = p.buffer ∧ (0 < consumers → 0 < p.consumerRefcount) ∨
      buffer = none ∧ consumers = 0)
    (hfreed : freed = true ↔ producers = 0 ∧ consumers = 0)
    (hproducers : p.producerRefcount = 0 → producers = 0) :
    Kept { p with
      buffer := buffer, producerRefcount := producers, consumerRefcount := consumers
      freed := freed } := by
  refine ⟨h.congr rfl rfl rfl rfl rfl rfl, fun hc => ?_, hfreed, h.popped_prefix, fun hb => ?_,
    h.whole, fun r hr => ?_⟩
  · rcases hbuffer with ⟨rfl, hcons⟩ | ⟨-, rfl⟩
    · exact h.buffer_some (hcons hc)
    · exact absurd hc (Nat.lt_irrefl 0)
  · rcases hbuffer with ⟨rfl, -⟩ | ⟨rfl, -⟩
    · exact h.stream hb
    · exact absurd rfl hb
  · rcases h.ended r hr with hfull | heager | ⟨hnone, hnil⟩
    · exact .inl hfull
    · exact .inr (.inl heager)
    · refine .inr (.inr ⟨hproducers hnone, ?_⟩)
      rcases hbuffer with ⟨rfl, -⟩ | ⟨rfl, -⟩
      · exact hnil
      · rfl

/-- Bytes are appended. -/
theorem pushed (h : p.Kept) (hproducer : 0 < p.producerRefcount)
    (hconsumer : 0 < p.consumerRefcount) (hrest : Rest p p') (hsized : p'.Sized)
    (hbuffer : ∃ cells, p'.buffer = some cells) (hpushed : p'.pushed = p.pushed ++ elems)
    (hpopped : p'.popped = p.popped) (hcontents : p'.contents = p.contents ++ elems) :
    p'.Kept := by
  obtain ⟨cells, hbuf⟩ := h.buffer_some hconsumer
  refine ⟨hsized, fun _ => hbuffer, ?_, ?_, fun _ => ?_, ?_, ?_⟩
  · rw [hrest.freed, hrest.producerRefcount, hrest.consumerRefcount]
    exact h.counts
  · rw [hpushed, hpopped]
    exact h.popped_prefix.trans (List.prefix_append _ _)
  · rw [hpushed, hpopped, hcontents, h.stream (by simp [hbuf]), List.append_assoc]
  · rw [hrest.elemSize, hrest.returns]
    exact h.whole
  · rw [hrest.returns, hrest.producerRefcount]
    intro r hr
    rcases h.ended r hr with hfull | heager | ⟨hnone, -⟩
    · exact .inl hfull
    · exact .inr (.inl heager)
    · omega

/-- Bytes are taken. -/
theorem popped (h : p.Kept) (hconsumer : 0 < p.consumerRefcount) (hrest : Rest p p')
    (hsized : p'.Sized) (hbuffer : ∃ cells, p'.buffer = some cells)
    (hpushed : p'.pushed = p.pushed) (hpopped : p'.popped = p.popped ++ elems)
    (hcontents : p.contents = elems ++ p'.contents) : p'.Kept := by
  obtain ⟨cells, hbuf⟩ := h.buffer_some hconsumer
  have hstream : p'.pushed = p'.popped ++ p'.contents := by
    rw [hpushed, hpopped, h.stream (by simp [hbuf]), hcontents, List.append_assoc]
  refine ⟨hsized, fun _ => hbuffer, ?_, ?_, fun _ => hstream, ?_, ?_⟩
  · rw [hrest.freed, hrest.producerRefcount, hrest.consumerRefcount]
    exact h.counts
  · rw [hstream]
    exact List.prefix_append _ _
  · rw [hrest.elemSize, hrest.returns]
    exact h.whole
  · rw [hrest.returns, hrest.producerRefcount]
    intro r hr
    rcases h.ended r hr with hfull | heager | ⟨hnone, hnil⟩
    · exact .inl hfull
    · exact .inr (.inl heager)
    · rw [hcontents] at hnil
      exact .inr (.inr ⟨hnone, (List.append_eq_nil_iff.1 hnil).2⟩)

/-- The buffer is replaced. -/
theorem resized (h : p.Kept) (hbuf : p.buffer ≠ none) (hr : Resized p p' n)
    (hsized : p'.Sized) : p'.Kept := by
  have hrest := hr.rest
  obtain ⟨hpushed, hpopped⟩ := hr.ghost
  have hcontents := hr.contents
  refine ⟨hsized, fun _ => hr.buffer_some, ?_, ?_, fun _ => ?_, ?_, ?_⟩
  · rw [hrest.freed, hrest.producerRefcount, hrest.consumerRefcount]
    exact h.counts
  · rw [hpushed, hpopped]
    exact h.popped_prefix
  · rw [hpushed, hpopped, hcontents, h.stream hbuf]
  · rw [hrest.elemSize, hrest.returns]
    exact h.whole
  · rw [hrest.returns, hrest.producerRefcount, hcontents]
    exact h.ended

/-- A pop comes back. -/
theorem returned (h : p.Kept) {eager : Bool} {left : Nat} {target : List β}
    (hwhole : p.elemSize ∣ target.length)
    (hend : left = 0 ∨ (eager = true ∧ target ≠ []) ∨
      (p.producerRefcount = 0 ∧ p.contents = [])) :
    (p.returned eager left target).Kept := by
  refine ⟨h.congr rfl rfl rfl rfl rfl rfl, h.buffer_some, h.counts, h.popped_prefix, h.stream,
    fun r hr => ?_, fun r hr => ?_⟩
  · rcases List.mem_append.1 hr with hr | hr
    · exact h.whole r hr
    · rw [List.mem_singleton.1 hr]
      exact hwhole
  · rcases List.mem_append.1 hr with hr | hr
    · exact h.ended r hr
    · rw [List.mem_singleton.1 hr]
      rcases hend with rfl | hend
      · exact .inl rfl
      · exact .inr hend

end Kept

end Pipe

/-- The bytes for which a task at the point has been woken, if it has been. -/
def PipePoint.share (elemSize : Nat) : PipePoint β → Nat
  | .pop _ left _ => if left = 0 then 0 else elemSize
  | _ => 0

/-- Where a task may be between two segments. -/
def PipePoint.Fine (p : Pipe β) : PipePoint β → Prop
  | .outside => True
  | .pop eager left target =>
    left ≠ 0 ∧ (PipePoint.pop eager left target).Whole p ∧ 0 < p.consumerRefcount
  | _ => False

/-- What a segment does from the point `k` on. -/
structure After (justPushed : CondId) (p : Pipe β) (k : PipePoint β)
    (g : Segment (Pipe β) (PipePoint β)) : Prop where
  kept : g.data.Kept
  elem : g.data.elemSize = p.elemSize
  next : g.next.Fine g.data
  consumers : k.leaves p = false → 0 < p.consumerRefcount → 0 < g.data.consumerRefcount
  /-- The last producer wakes the consumers. -/
  closes : 0 < p.producerRefcount → g.data.producerRefcount = 0 →
    g.call = some (.condBroadcast justPushed) ∨ g.data.consumerRefcount = 0
  sleeps : ∀ i, g.call = some (.condWait i) →
    i = justPushed ∧ g.data.bytesInUse = 0 ∧ 0 < g.data.producerRefcount
  /-- One more element is announced by a signal, more by a broadcast. -/
  announced : g.call ≠ some (.condWait justPushed) → g.call ≠ some (.condBroadcast justPushed) →
    g.data.bytesInUse = 0 ∨ g.data.bytesInUse + k.share p.elemSize ≤
      p.bytesInUse + g.next.share p.elemSize +
        if g.call = some (.condSignal justPushed) then p.elemSize else 0

section

variable {heap : Heap β} {p : Pipe β} {justPushed justPopped : CondId} {k : PipePoint β}
  {call : Option Call}

/-- An operation that changes the counts. -/
theorem After.recount (h : p.Kept) {buffer : Option (Nat → β)} {producers consumers : Nat}
    {freed : Bool}
    (hbuffer : buffer = p.buffer ∧ (0 < consumers → 0 < p.consumerRefcount) ∨
      buffer = none ∧ consumers = 0)
    (hfreed : freed = true ↔ producers = 0 ∧ consumers = 0)
    (hproducers : p.producerRefcount = 0 → producers = 0)
    (hconsumers : k.leaves p = false → 0 < p.consumerRefcount → 0 < consumers)
    (hcloses : 0 < p.producerRefcount → producers = 0 →
      call = some (.condBroadcast justPushed) ∨ consumers = 0)
    (hcall : ∀ i, call ≠ some (.condWait i)) (hk : k.share p.elemSize = 0) :
    After justPushed p k (Pipe.done { p with
      buffer := buffer, producerRefcount := producers, consumerRefcount := consumers
      freed := freed } call) := by
  refine ⟨h.recount buffer producers consumers freed hbuffer hfreed hproducers, rfl, trivial,
    hconsumers, hcloses, fun i hi => absurd hi (hcall i), fun _ _ => .inr ?_⟩
  rw [hk]
  show p.bytesInUse + 0 ≤ p.bytesInUse + 0 + _
  omega

/-- An operation that changes nothing. -/
theorem After.same (h : p.Kept) (hk : k.share p.elemSize = 0) :
    After justPushed p k (p.done none) :=
  After.recount h (.inl ⟨rfl, id⟩) h.counts id (fun _ => id) (fun hp hz => absurd hz hp.ne')
    (by simp) hk

theorem pipeProducerNew_after (h : p.Kept) (hfreed : p.freed = false)
    (ha : PipePoint.producerNew.Allowed p) :
    ∃ g, pipeProducerNew p = some g ∧ After justPushed p .producerNew g := by
  obtain ⟨hproducer, hconsumer⟩ := ha
  refine ⟨_, rfl, After.recount h (.inl ⟨rfl, id⟩) ?_ ?_ (fun _ _ => hconsumer) ?_ (by simp) rfl⟩
  · rw [hfreed]
    simp
  · omega
  · omega

theorem pipeConsumerNew_after (h : p.Kept) (hfreed : p.freed = false)
    (ha : PipePoint.consumerNew.Allowed p) :
    ∃ g, pipeConsumerNew p = some g ∧ After justPushed p .consumerNew g := by
  obtain ⟨hproducer, hconsumer⟩ := ha
  refine ⟨_, rfl, After.recount h (.inl ⟨rfl, fun _ => hconsumer⟩) ?_ id (fun _ _ => Nat.succ_pos _)
    ?_ (by simp) rfl⟩
  · rw [hfreed]
    simp
  · omega

theorem pipeProducerFree_after (h : p.Kept) (hfreed : p.freed = false)
    (ha : PipePoint.producerFree.Allowed p) :
    ∃ g, pipeProducerFree justPushed p = some g ∧ After justPushed p .producerFree g := by
  have ha : 0 < p.producerRefcount := ha
  unfold pipeProducerFree
  rw [assertume_pos ha]
  dsimp only
  by_cases hlast : p.producerRefcount - 1 = 0
  · rw [if_pos hlast]
    by_cases hconsumer : 0 < p.consumerRefcount
    · rw [if_pos hconsumer]
      refine ⟨_, rfl, After.recount h (.inl ⟨rfl, id⟩) ?_ ?_ (fun _ => id) (fun _ _ => .inl rfl)
        (by simp) rfl⟩
      · rw [hfreed]
        simp [hconsumer.ne']
      · omega
    · rw [if_neg hconsumer]
      unfold Pipe.deallocate
      rw [assertume_pos hlast, assertume_pos (by simpa using hconsumer)]
      refine ⟨_, rfl, After.recount h (.inr ⟨rfl, by simpa using hconsumer⟩) ?_ ?_ (fun _ => id) ?_
        (by simp) rfl⟩
      · simpa [hlast] using hconsumer
      · omega
      · exact fun _ _ => .inr (by simpa using hconsumer)
  · rw [if_neg hlast]
    refine ⟨_, rfl, After.recount h (.inl ⟨rfl, id⟩) ?_ ?_ (fun _ => id) ?_ (by simp) rfl⟩
    · rw [hfreed]
      simp [hlast]
    · omega
    · exact fun _ hzero => absurd hzero hlast

theorem pipeConsumerFree_after (h : p.Kept) (hfreed : p.freed = false)
    (ha : PipePoint.consumerFree.Allowed p) :
    ∃ g, pipeConsumerFree justPopped p = some g ∧ After justPushed p .consumerFree g := by
  have ha : 0 < p.consumerRefcount := ha
  have hleaves : PipePoint.consumerFree.leaves p = decide (p.consumerRefcount = 1) := rfl
  unfold pipeConsumerFree
  dsimp only
  rw [if_neg ha.ne']
  by_cases hlast : p.consumerRefcount - 1 = 0
  · have hone : p.consumerRefcount = 1 := by omega
    rw [if_pos hlast]
    by_cases hproducer : 0 < p.producerRefcount
    · rw [if_pos hproducer]
      refine ⟨_, rfl, After.recount h (.inl ⟨rfl, by omega⟩) ?_ id ?_ ?_ (by simp) rfl⟩
      · rw [hfreed]
        simp [hproducer.ne']
      · simp [hleaves, hone]
      · exact fun _ _ => .inr hlast
    · rw [if_neg hproducer]
      unfold Pipe.deallocate
      rw [assertume_pos (by simpa using hproducer), assertume_pos hlast]
      refine ⟨_, rfl, After.recount h (.inr ⟨rfl, hlast⟩) ?_ id ?_ ?_ (by simp) rfl⟩
      · simpa [hlast] using hproducer
      · simp [hleaves, hone]
      · exact fun _ _ => .inr hlast
  · rw [if_neg hlast]
    refine ⟨_, rfl, After.recount h (.inl ⟨rfl, by omega⟩) ?_ id ?_ ?_ (by simp) rfl⟩
    · rw [hfreed]
      simp [hlast]
    · exact fun _ _ => by omega
    · omega

theorem pipeFree_after (h : p.Kept) (hfreed : p.freed = false)
    (ha : PipePoint.free.Allowed p) :
    ∃ g, pipeFree justPushed justPopped p = some g ∧ After justPushed p .free g := by
  obtain ⟨hproducer, hconsumer⟩ := ha
  have hleaves : PipePoint.free.leaves p = decide (p.consumerRefcount = 1) := rfl
  unfold pipeFree
  rw [assertume_pos hproducer]
  dsimp only
  rw [assertume_pos hconsumer]
  by_cases hlast : p.consumerRefcount - 1 = 0
  · have hone : p.consumerRefcount = 1 := by omega
    rw [if_pos hlast]
    by_cases hleft : 0 < p.producerRefcount - 1
    · rw [if_pos hleft]
      refine ⟨_, rfl, After.recount h (.inr ⟨rfl, hlast⟩) ?_ ?_ ?_ ?_ (by simp) rfl⟩
      · rw [hfreed]
        simp [hleft.ne']
      · omega
      · simp [hleaves, hone]
      · exact fun _ _ => .inr hlast
    · rw [if_neg hleft]
      have hzero := Nat.eq_zero_of_not_pos hleft
      unfold Pipe.deallocate
      rw [assertume_pos hzero, assertume_pos hlast]
      refine ⟨_, rfl, After.recount h (.inr ⟨rfl, hlast⟩) ?_ ?_ ?_ ?_ (by simp) rfl⟩
      · exact ⟨fun _ => ⟨hzero, hlast⟩, fun _ => rfl⟩
      · omega
      · simp [hleaves, hone]
      · exact fun _ _ => .inr hlast
  · rw [if_neg hlast]
    by_cases hzero : p.producerRefcount - 1 = 0
    · rw [if_pos hzero]
      refine ⟨_, rfl, After.recount h (.inl ⟨rfl, fun _ => hconsumer⟩) ?_ ?_ ?_ ?_ (by simp) rfl⟩
      · rw [hfreed]
        simp [hlast]
      · omega
      · exact fun _ _ => by omega
      · exact fun _ _ => .inl rfl
    · rw [if_neg hzero]
      refine ⟨_, rfl, After.recount h (.inl ⟨rfl, fun _ => hconsumer⟩) ?_ ?_ ?_ ?_ (by simp) rfl⟩
      · rw [hfreed]
        simp [hlast]
      · omega
      · exact fun _ _ => by omega
      · exact fun _ hz => absurd hz hzero

/-- The buffer is as it was, or has been replaced. -/
theorem Pipe.Kept.room (h : p.Kept) {cells : Nat → β} {n : Nat} (hbuf : p.buffer = some cells)
    (hconsumer : 0 < p.consumerRefcount) (hdvd : p.elemSize ∣ n)
    (hfits : p.maxCap ≤ p.minCap → p.bytesInUse + n ≤ p.capacity) :
    (p.validateSize heap n = none ∧ p.growFails heap n = true) ∨
    ∃ p', p.validateSize heap n = some p' ∧ p.growFails heap n = false ∧ p'.Sized ∧
      Pipe.Rest p p' ∧ (∃ cells, p'.buffer = some cells) ∧ p'.pushed = p.pushed ∧
      p'.popped = p.popped ∧ p'.bytesInUse = p.bytesInUse ∧ p'.contents = p.contents ∧
      p.bytesInUse + n ≤ p'.capacity := by
  by_cases hroom : p.bytesInUse + n ≤ p.capacity
  · have hno : ¬p.capacity < p.bytesInUse + n := by omega
    exact .inr ⟨p, if_neg hno, by simp [Pipe.growFails, hno], h.toSized, Pipe.Rest.refl p,
      ⟨cells, hbuf⟩, rfl, rfl, rfl, rfl, hroom⟩
  · rcases h.toSized.validateSize hbuf hconsumer hdvd (by omega) (by omega) with
      hnone | ⟨p', size, hp', hgrow, hr, hsized, hroom'⟩
    · exact .inl hnone
    · exact .inr ⟨p', hp', hgrow, hsized, hr.rest, hr.buffer_some, hr.ghost.1, hr.ghost.2, hr.inUse,
        hr.contents, hroom'⟩

theorem pipePush_after (h : p.Kept) {elems : List β}
    (ha : (PipePoint.push elems).Allowed p) (hwhole : (PipePoint.push elems).Whole p) :
    (pipePush heap justPushed justPopped p elems = none ∧
      (PipePoint.push elems).lacks heap p = true) ∨
    ∃ g, pipePush heap justPushed justPopped p elems = some g ∧
      (PipePoint.push elems).lacks heap p = false ∧ After justPushed p (.push elems) g := by
  obtain ⟨hproducer, hfits⟩ := ha
  have hinUse := h.inUse_le
  have hcap : p.capacity = p.bufend - p.elemSize := rfl
  unfold pipePush
  by_cases hnil : elems.length = 0
  · right
    rw [if_pos hnil]
    refine ⟨_, rfl, ?_, After.same h rfl⟩
    have hno : ¬p.capacity < p.bytesInUse + elems.length := by omega
    simp [PipePoint.lacks, Pipe.growFails, hno]
  rw [if_neg hnil]
  by_cases hconsumer : 0 < p.consumerRefcount
  · obtain ⟨cells, hbuf⟩ := h.buffer_some hconsumer
    have hpos := h.pos
    have hmax := h.le_max
    rw [if_neg (by omega), if_neg (by omega)]
    rcases h.room hbuf hconsumer hwhole (hfits hconsumer) with
      ⟨hnone, hfails⟩ | ⟨p₁, hp₁, hgrow, hsized, hrest, ⟨cells₁, hbuf₁⟩, hpushed, hpopped, huse,
        hcontents, hroom⟩
    · left
      dsimp only
      rw [hnone]
      exact ⟨rfl, by simp [PipePoint.lacks, hconsumer, hfails]⟩
    · right
      have hmin : min elems.length (p.maxCap - p₁.bytesInUse) = elems.length := by
        have hle := hsized.le_max
        have hle₁ := hsized.inUse_le
        have hcap₁ : p₁.capacity = p₁.bufend - p₁.elemSize := rfl
        rw [hrest.maxCap] at hle
        omega
      obtain ⟨cells₂, endPtr, hpush, hsized₂, huse₂, hcontents₂⟩ :=
        hsized.push hbuf₁ hnil (by rw [hrest.elemSize]; exact hwhole) (by rw [huse]; exact hroom)
      dsimp only
      rw [hp₁, Option.bind_some]
      simp only [hmin, List.take_length, List.drop_length, hpush, Option.map_some, List.length_nil,
        ne_eq, not_true_eq_false, if_false]
      refine ⟨_, rfl, ?_, ?_⟩
      · simp [PipePoint.lacks, hgrow]
      · have hkept : Pipe.Kept { p₁ with
            buffer := some cells₂, endPtr := endPtr, pushed := p₁.pushed ++ elems } :=
          h.pushed hproducer hconsumer
            ⟨hrest.elemSize, hrest.minCap, hrest.maxCap, hrest.producerRefcount,
              hrest.consumerRefcount, hrest.freed, hrest.returns⟩
            (hsized₂.congr rfl rfl rfl rfl rfl rfl) ⟨cells₂, rfl⟩ (by rw [hpushed]) hpopped
            (by rw [← hcontents]; exact hcontents₂)
        refine ⟨hkept, hrest.elemSize, trivial, fun _ _ => hrest.consumerRefcount ▸ hconsumer,
          fun _ hzero => ?_, ?_, ?_⟩
        · have hzero : p₁.producerRefcount = 0 := hzero
          rw [hrest.producerRefcount] at hzero
          omega
        · intro i hi
          split at hi <;> cases hi
        · intro _ hb
          have hone : elems.length = p₁.elemSize := by
            by_contra hmore
            exact hb (congrArg some (if_neg hmore))
          have helem := hrest.elemSize
          right
          rw [if_pos (congrArg some (if_pos hone))]
          show Pipe.bytesInUse { p₁ with buffer := some cells₂, endPtr := endPtr } + 0 ≤ _
          rw [huse₂, huse]
          omega
  · right
    rw [if_neg (fun hw => hconsumer hw.2), if_pos (by simpa using hconsumer)]
    refine ⟨_, rfl, ?_, After.same h rfl⟩
    simp [PipePoint.lacks, hconsumer]

variable (heap) in
/-- A pop takes the bytes that there are, up to those that it wants, and then trims the buffer. -/
theorem Pipe.Kept.take (h : p.Kept) {left : Nat} (hconsumer : 0 < p.consumerRefcount)
    (hdvd : p.elemSize ∣ left) :
    ∃ elems beginPtr, let p₁ := { p with beginPtr := beginPtr, popped := p.popped ++ elems }
      p.popWithoutLocking (min left p.bytesInUse) = some (elems, beginPtr) ∧
        p₁.checkInvariants = true ∧ elems.length = min left p.bytesInUse ∧
        p.elemSize ∣ elems.length ∧
        ((p₁.trimBuffer heap = none ∧ p.shrinkFails heap (p.bytesInUse - left) = true) ∨
          ∃ p', p₁.trimBuffer heap = some p' ∧
            p.shrinkFails heap (p.bytesInUse - left) = false ∧ p'.Kept ∧ Pipe.Rest p p' ∧
            p'.bytesInUse + elems.length = p.bytesInUse) := by
  obtain ⟨cells, hbuf⟩ := h.buffer_some hconsumer
  have hmin : p.elemSize ∣ min left p.bytesInUse := by
    rcases min_choice left p.bytesInUse with he | he
    · rwa [he]
    · rw [he]
      exact h.dvd_inUse
  obtain ⟨elems, beginPtr, hpop, hsized, huse, hcontents, hlen⟩ :=
    h.toSized.pop hbuf (Nat.min_le_right left p.bytesInUse) hmin
  have hkept : Pipe.Kept { p with beginPtr := beginPtr, popped := p.popped ++ elems } :=
    h.popped hconsumer ⟨rfl, rfl, rfl, rfl, rfl, rfl, rfl⟩ (hsized.congr rfl rfl rfl rfl rfl rfl)
      ⟨cells, hbuf⟩ rfl rfl hcontents
  have hcheck := hkept.toSized.check hbuf hconsumer
  have hbefore : Pipe.bytesInUse { p with beginPtr := beginPtr, popped := p.popped ++ elems } =
      p.bytesInUse - min left p.bytesInUse := huse
  have hsub : p.bytesInUse - left = p.bytesInUse - min left p.bytesInUse := by omega
  have hle := Nat.min_le_right left p.bytesInUse
  refine ⟨elems, beginPtr, hpop, hcheck, hlen, hlen ▸ hmin, ?_⟩
  have htrim := hkept.toSized.trimBuffer heap hbuf hconsumer
  rw [hbefore, ← hsub] at htrim
  rcases htrim with hfails | ⟨p', htrim, hshrink, hcase⟩
  · exact .inl hfails
  refine .inr ⟨p', htrim, hshrink, ?_⟩
  rcases hcase with rfl | ⟨size, hr, hsized'⟩
  · exact ⟨hkept, ⟨rfl, rfl, rfl, rfl, rfl, rfl, rfl⟩, by omega⟩
  · have hbuf' : (p.buffer : Option (Nat → β)) ≠ none := by simp [hbuf]
    have hrest := hr.rest
    have hinUse := hr.inUse
    exact ⟨hkept.resized hbuf' hr hsized',
      ⟨hrest.elemSize, hrest.minCap, hrest.maxCap, hrest.producerRefcount, hrest.consumerRefcount,
        hrest.freed, hrest.returns⟩, by omega⟩

/-- A pop that finds nothing waits for a producer; without producers it returns. -/
theorem pipePop_empty (h : p.Kept) {eager : Bool} {left : Nat} {target : List β}
    (hconsumer : 0 < p.consumerRefcount) (hwhole : (PipePoint.pop eager left target).Whole p)
    (hzero : left ≠ 0) (hempty : p.bytesInUse = 0) :
    ∃ g, pipePop heap justPushed justPopped p eager left target = some g ∧
      After justPushed p (.pop eager left target) g := by
  unfold pipePop
  rw [if_neg hzero]
  by_cases hproducer : 0 < p.producerRefcount
  · rw [if_pos ⟨hempty, hproducer⟩]
    refine ⟨_, rfl, h, rfl, ⟨hzero, hwhole, hconsumer⟩, fun _ => id,
      fun hp hz => absurd hz hp.ne', fun i hi => ?_, fun hw => absurd rfl hw⟩
    cases hi
    exact ⟨rfl, hempty, hproducer⟩
  · obtain ⟨cells, hbuf⟩ := h.buffer_some hconsumer
    rw [if_neg (fun hw => hproducer hw.2), if_pos hempty]
    have hnil : p.contents = [] := by
      rw [← List.length_eq_zero_iff, Pipe.length_contents hbuf, hempty]
    have hkept : (p.returned eager left target).Kept :=
      h.returned hwhole.2 (.inr (.inr ⟨by simpa using hproducer, hnil⟩))
    exact ⟨_, rfl, hkept, rfl, trivial, fun _ => id, fun hp hz => absurd hz hp.ne',
      by simp [Pipe.done], fun _ _ => .inl hempty⟩

/-- A pop that finds elements takes them and goes on if it still wants more. -/
theorem pipePop_takes (h : p.Kept) {eager : Bool} {left : Nat} {target : List β}
    (hconsumer : 0 < p.consumerRefcount) (hwhole : (PipePoint.pop eager left target).Whole p)
    (hzero : left ≠ 0) (hempty : p.bytesInUse ≠ 0) :
    (pipePop heap justPushed justPopped p eager left target = none ∧
      p.shrinkFails heap (p.bytesInUse - left) = true) ∨
    ∃ g, pipePop heap justPushed justPopped p eager left target = some g ∧
      p.shrinkFails heap (p.bytesInUse - left) = false ∧
      After justPushed p (.pop eager left target) g := by
  obtain ⟨hdvd, htarget⟩ := hwhole
  obtain ⟨cells, hbuf⟩ := h.buffer_some hconsumer
  obtain ⟨elems, beginPtr, hpop, hcheck, hlen, hmin, htrim⟩ := h.take heap hconsumer hdvd
  have hpos := h.pos
  have hmore : p.elemSize ≤ elems.length := Nat.le_of_dvd (by omega) hmin
  unfold pipePop
  rw [if_neg hzero, if_neg (fun hw => hempty hw.1), if_neg hempty,
    assertume_pos (h.toSized.check hbuf hconsumer)]
  dsimp only
  rw [hpop, Option.bind_some]
  dsimp only
  rw [assertume_pos hcheck]
  rcases htrim with ⟨hnone, hfails⟩ | ⟨p', htrim, hshrink, hkept, hrest, huse⟩
  · left
    rw [hnone]
    exact ⟨rfl, hfails⟩
  right
  have hwhole' : p'.elemSize ∣ (target ++ elems).length := by
    rw [hrest.elemSize, List.length_append]
    exact Nat.dvd_add htarget hmin
  rw [htrim, Option.map_some]
  refine ⟨_, rfl, hshrink, ?_⟩
  obtain ⟨call, hcall⟩ : ∃ c, c = if min left p.bytesInUse = p'.elemSize
    then Call.condSignal justPopped else .condBroadcast justPopped := ⟨_, rfl⟩
  have hnowait (i : CondId) : some call ≠ some (.condWait i) := by
    rw [hcall]
    split <;> simp
  have hshare : (PipePoint.pop eager left target).share p.elemSize = p.elemSize := if_neg hzero
  have hproducers (hp : 0 < p.producerRefcount) : p'.producerRefcount ≠ 0 := by
    rw [hrest.producerRefcount]
    exact hp.ne'
  have hconsumers : 0 < p'.consumerRefcount := hrest.consumerRefcount ▸ hconsumer
  have hannounced : p'.bytesInUse + p.elemSize ≤ p.bytesInUse := by omega
  simp only [← hcall]
  split
  · next hdone =>
    have hend : left - min left p.bytesInUse = 0 ∨ (eager = true ∧ target ++ elems ≠ []) ∨
        (p'.producerRefcount = 0 ∧ p'.contents = []) := by
      rw [Bool.or_eq_true, decide_eq_true_iff] at hdone
      rcases hdone with heager | hdone
      · refine .inr (.inl ⟨heager, fun hnil => ?_⟩)
        rw [(List.append_eq_nil_iff.1 hnil).2, List.length_nil] at hmore
        omega
      · exact .inl hdone
    refine ⟨hkept.returned hwhole' hend, hrest.elemSize, trivial, fun _ _ => hconsumers,
      fun hp hz => absurd hz (hproducers hp), fun i hi => absurd hi (hnowait i), fun _ _ => .inr ?_⟩
    rw [hshare]
    show p'.bytesInUse + p.elemSize ≤ _
    omega
  · next hdone =>
    have hleft : left - min left p.bytesInUse ≠ 0 := by
      intro hnone
      rw [hnone] at hdone
      simp at hdone
    refine ⟨hkept, hrest.elemSize, ⟨hleft, ⟨?_, hwhole'⟩, hconsumers⟩, fun _ _ => hconsumers,
      fun hp hz => absurd hz (hproducers hp), fun i hi => absurd hi (hnowait i), fun _ _ => .inr ?_⟩
    · rw [hrest.elemSize, ← hlen]
      exact Nat.dvd_sub hdvd hmin
    · rw [hshare]
      show p'.bytesInUse + p.elemSize ≤ _
      omega

theorem pipePop_after (h : p.Kept) {eager : Bool} {left : Nat} {target : List β}
    (ha : (PipePoint.pop eager left target).Allowed p)
    (hwhole : (PipePoint.pop eager left target).Whole p) :
    (pipePop heap justPushed justPopped p eager left target = none ∧
      (PipePoint.pop eager left target).lacks heap p = true) ∨
    ∃ g, pipePop heap justPushed justPopped p eager left target = some g ∧
      (PipePoint.pop eager left target).lacks heap p = false ∧
      After justPushed p (.pop eager left target) g := by
  by_cases hzero : left = 0
  · right
    unfold pipePop
    rw [if_pos hzero]
    have hkept : (p.returned eager left target).Kept := h.returned hwhole.2 (.inl hzero)
    refine ⟨_, rfl, by simp [PipePoint.lacks, hzero], hkept, rfl, trivial, fun _ => id,
      fun hp hz => absurd hz hp.ne', by simp [Pipe.done], fun _ _ => .inr ?_⟩
    simp [PipePoint.share, hzero, Pipe.done, Pipe.returned, Pipe.bytesInUse, Pipe.wrapsAround]
  by_cases hempty : p.bytesInUse = 0
  · obtain ⟨g, hg, hafter⟩ := pipePop_empty h ha hwhole hzero hempty
    exact .inr ⟨g, hg, by simp [PipePoint.lacks, hempty], hafter⟩
  · rcases pipePop_takes h ha hwhole hzero hempty with
      ⟨hnone, hfails⟩ | ⟨g, hg, hshrink, hafter⟩
    · exact .inl ⟨hnone, by simp [PipePoint.lacks, hzero, hempty, hfails]⟩
    · exact .inr ⟨g, hg, by simp [PipePoint.lacks, hshrink], hafter⟩

/-- `pipe_reserve` raises the minimum; the buffer stays. -/
theorem reserve_after (h : p.Kept) {count : Nat} (ha : (PipePoint.reserve count).Allowed p) :
    ∃ p', p.reserve heap count = some p' ∧ After justPushed p (.reserve count) (p'.done none) := by
  obtain ⟨hconsumer, hcount⟩ := ha
  obtain ⟨cells, hbuf⟩ := h.buffer_some hconsumer
  have hcheck := h.toSized.check hbuf hconsumer
  unfold Pipe.reserve
  rw [assertume_pos hcheck, assertume_pos (by simp [hbuf])]
  show ∃ p', (if p.reserved count ≤ p.bytesInUse then _ else _) = _ ∧ _
  by_cases hle : p.reserved count ≤ p.bytesInUse
  · rw [if_pos hle]
    exact ⟨p, rfl, After.same h rfl⟩
  · rw [if_neg hle]
    obtain ⟨hlow, hhigh⟩ := hcount.resolve_left hle
    have hmax := h.le_max
    have hsized : Pipe.Sized { p with minCap := min (p.reserved count) p.maxCap } :=
      ⟨⟨h.pos, h.size, h.begins, h.ends, h.begin_lt, h.end_lt⟩, hlow, hhigh, h.le_max, h.power⟩
    have hcheck' := hsized.check hbuf hconsumer
    have hresize : Pipe.resizeBuffer heap { p with minCap := min (p.reserved count) p.maxCap }
        (p.reserved count) = some { p with minCap := min (p.reserved count) p.maxCap } :=
      Pipe.resizeBuffer_small hcheck' (Nat.le_of_not_le hle) (le_refl _)
    refine ⟨{ p with minCap := min (p.reserved count) p.maxCap }, ?_, ?_⟩
    · show (Pipe.resizeBuffer heap { p with minCap := min (p.reserved count) p.maxCap }
        (p.reserved count)).bind _ = _
      rw [hresize, Option.bind_some]
      exact assertume_pos hcheck' _
    · have hkept : Pipe.Kept { p with minCap := min (p.reserved count) p.maxCap } :=
        ⟨hsized, h.buffer_some, h.counts, h.popped_prefix, h.stream, h.whole, h.ended⟩
      exact ⟨hkept, rfl, trivial, fun _ => id, fun hp hz => absurd hz hp.ne', by simp [Pipe.done],
        fun _ _ => .inr (by show p.bytesInUse + 0 ≤ p.bytesInUse + 0 + _; omega)⟩

/-- **What the operations do.** A segment fails only in a push or a pop that needs a buffer that it
cannot have. -/
theorem Pipe.Kept.code (h : p.Kept) {elemSize : Nat}
    (hk : (pipe heap elemSize justPushed justPopped).outside k = false) (ha : k.Allowed p)
    (hwhole : k.Whole p) :
    ((pipe heap elemSize justPushed justPopped).code k p = none ∧ k.lacks heap p = true) ∨
    ∃ g, (pipe heap elemSize justPushed justPopped).code k p = some g ∧ k.lacks heap p = false ∧
      After justPushed p k g := by
  have hinside : k ≠ .outside := by
    rintro rfl
    cases hk
  have hfreed : p.freed = false := by
    by_contra hf
    obtain ⟨hproducer, hconsumer⟩ := h.counts.1 (by simpa using hf)
    have hpos := ha.pos hinside
    omega
  have hcode : (pipe heap elemSize justPushed justPopped).code k p =
      pipeCode heap justPushed justPopped p k := by
    show (if p.freed then none else _) = _
    rw [hfreed]
    rfl
  rw [hcode]
  have done {k : PipePoint β} (hlacks : k.lacks heap p = false)
      (hg : ∃ g, pipeCode heap justPushed justPopped p k = some g ∧ After justPushed p k g) :
      (pipeCode heap justPushed justPopped p k = none ∧ k.lacks heap p = true) ∨
        ∃ g, pipeCode heap justPushed justPopped p k = some g ∧ k.lacks heap p = false ∧
          After justPushed p k g := by
    obtain ⟨g, hg, hafter⟩ := hg
    exact .inr ⟨g, hg, hlacks, hafter⟩
  cases k with
  | outside => exact absurd rfl hinside
  | producerNew => exact done rfl (pipeProducerNew_after h hfreed ha)
  | consumerNew => exact done rfl (pipeConsumerNew_after h hfreed ha)
  | free => exact done rfl (pipeFree_after h hfreed ha)
  | producerFree => exact done rfl (pipeProducerFree_after h hfreed ha)
  | consumerFree => exact done rfl (pipeConsumerFree_after h hfreed ha)
  | push elems => exact pipePush_after h ha hwhole
  | pop eager left target => exact pipePop_after h ha hwhole
  | reserve count =>
    obtain ⟨p', hp', hafter⟩ := reserve_after h ha
    exact done rfl ⟨_, congrArg (Option.map fun p : Pipe β => p.done none) hp', hafter⟩

end

/-! ## Runs -/

/-- The operations on the handles. -/
def PipePoint.recounts : PipePoint β → Bool
  | .producerNew => true
  | .consumerNew => true
  | .free => true
  | .producerFree => true
  | .consumerFree => true
  | _ => false

theorem Pipe.deallocate_eq {p r : Pipe β} (h : p.deallocate = some r) :
    r = { p with freed := true, buffer := none } := by
  obtain ⟨-, h⟩ := assertume_eq_some.1 h
  obtain ⟨-, h⟩ := assertume_eq_some.1 h
  exact (Option.some.inj h).symm

/-- The operations on the handles change the counts, and may free the buffer; some broadcast. -/
theorem pipeCode_recounts {heap : Heap β} {justPushed justPopped : CondId} {p : Pipe β}
    {k : PipePoint β} {g : Segment (Pipe β) (PipePoint β)} (hk : k.recounts = true)
    (hg : pipeCode heap justPushed justPopped p k = some g) :
    ∃ buffer producers consumers freed call, g = Pipe.done { p with
        buffer := buffer, producerRefcount := producers, consumerRefcount := consumers
        freed := freed } call ∧
      ∀ c, call = some c → c = .condBroadcast justPushed ∨ c = .condBroadcast justPopped := by
  cases k with
  | producerNew =>
    obtain rfl := Option.some.inj hg
    exact ⟨_, _, _, _, none, rfl, by simp⟩
  | consumerNew =>
    obtain rfl := Option.some.inj hg
    exact ⟨_, _, _, _, none, rfl, by simp⟩
  | free =>
    obtain ⟨-, hg⟩ := assertume_eq_some.1 hg
    obtain ⟨-, hg⟩ := assertume_eq_some.1 hg
    dsimp only at hg
    split at hg
    · split at hg
      · obtain rfl := Option.some.inj hg
        exact ⟨_, _, _, _, some (.condBroadcast justPopped), rfl, by simp⟩
      · obtain ⟨r, hr, rfl⟩ := Option.map_eq_some_iff.1 hg
        obtain rfl := Pipe.deallocate_eq hr
        exact ⟨_, _, _, _, none, rfl, by simp⟩
    · split at hg
      · obtain rfl := Option.some.inj hg
        exact ⟨_, _, _, _, some (.condBroadcast justPushed), rfl, by simp⟩
      · obtain rfl := Option.some.inj hg
        exact ⟨_, _, _, _, none, rfl, by simp⟩
  | producerFree =>
    obtain ⟨-, hg⟩ := assertume_eq_some.1 hg
    dsimp only at hg
    split at hg
    · split at hg
      · obtain rfl := Option.some.inj hg
        exact ⟨_, _, _, _, some (.condBroadcast justPushed), rfl, by simp⟩
      · obtain ⟨r, hr, rfl⟩ := Option.map_eq_some_iff.1 hg
        obtain rfl := Pipe.deallocate_eq hr
        exact ⟨_, _, _, _, none, rfl, by simp⟩
    · obtain rfl := Option.some.inj hg
      exact ⟨_, _, _, _, none, rfl, by simp⟩
  | consumerFree =>
    have hg : pipeConsumerFree justPopped p = some g := hg
    unfold pipeConsumerFree at hg
    generalize (if p.consumerRefcount = 0 then 2 ^ 64 - 1 else p.consumerRefcount - 1) = n at hg
    dsimp only at hg
    split at hg
    · split at hg
      · obtain rfl := Option.some.inj hg
        exact ⟨_, _, _, _, some (.condBroadcast justPopped), rfl, by simp⟩
      · obtain ⟨r, hr, rfl⟩ := Option.map_eq_some_iff.1 hg
        obtain rfl := Pipe.deallocate_eq hr
        exact ⟨_, _, _, _, none, rfl, by simp⟩
    · obtain rfl := Option.some.inj hg
      exact ⟨_, _, _, _, none, rfl, by simp⟩
  | _ => cases hk

/-- Where the calls lead, from any point and any state of the pipe. -/
theorem pipeCode_calls {heap : Heap β} {elemSize : Nat} {justPushed justPopped : CondId}
    {p : Pipe β} {k : PipePoint β} {g : Segment (Pipe β) (PipePoint β)}
    (hg : pipeCode heap justPushed justPopped p k = some g) :
    (pipe heap elemSize justPushed justPopped).Calls g.next g.call := by
  have hpushed : Chain.cond justPushed ∈ (pipe heap elemSize justPushed justPopped).objects := by
    simp [pipe]
  have hpopped : Chain.cond justPopped ∈ (pipe heap elemSize justPushed justPopped).objects := by
    simp [pipe]
  have wakes (c : Prop) [Decidable c] (next : PipePoint β) {i : CondId}
      (hi : Chain.cond i ∈ (pipe heap elemSize justPushed justPopped).objects) :
      (pipe heap elemSize justPushed justPopped).Calls next
        (some (if c then .condSignal i else .condBroadcast i)) := by
    split <;> exact hi
  by_cases hk : k.recounts = true
  · obtain ⟨buffer, producers, consumers, freed, call, rfl, hcall⟩ := pipeCode_recounts hk hg
    show (pipe heap elemSize justPushed justPopped).Calls .outside call
    cases call with
    | none => trivial
    | some c =>
      rcases hcall c rfl with rfl | rfl
      · exact hpushed
      · exact hpopped
  cases k with
  | push elems =>
    have hg : pipePush heap justPushed justPopped p elems = some g := hg
    unfold pipePush at hg
    split at hg
    · obtain rfl := Option.some.inj hg
      trivial
    split at hg
    · obtain rfl := Option.some.inj hg
      exact ⟨hpopped, rfl⟩
    split at hg
    · obtain rfl := Option.some.inj hg
      trivial
    · obtain ⟨p₁, -, hg⟩ := Option.bind_eq_some_iff.1 hg
      obtain ⟨p₂, -, rfl⟩ := Option.map_eq_some_iff.1 hg
      exact wakes _ _ hpushed
  | pop eager left target =>
    have hg : pipePop heap justPushed justPopped p eager left target = some g := hg
    unfold pipePop at hg
    split at hg
    · obtain rfl := Option.some.inj hg
      trivial
    next hleft =>
    split at hg
    · obtain rfl := Option.some.inj hg
      exact ⟨hpushed, if_neg hleft⟩
    split at hg
    · obtain rfl := Option.some.inj hg
      trivial
    · obtain ⟨-, hg⟩ := assertume_eq_some.1 hg
      obtain ⟨⟨elems, beginPtr⟩, -, hg⟩ := Option.bind_eq_some_iff.1 hg
      obtain ⟨-, hg⟩ := assertume_eq_some.1 hg
      obtain ⟨p₁, -, rfl⟩ := Option.map_eq_some_iff.1 hg
      dsimp only
      split
      · exact wakes _ _ hpopped
      · exact wakes _ _ hpopped
  | reserve count =>
    obtain ⟨p', -, rfl⟩ := Option.map_eq_some_iff.1 hg
    trivial
  | outside => cases hg
  | _ => exact absurd rfl hk

theorem pipe_sound (heap : Heap β) (elemSize : Nat) (justPushed justPopped : CondId) :
    (pipe heap elemSize justPushed justPopped).Sound where
  objects c hc := by
    have hc : c = .cond justPushed ∨ c = .cond justPopped := by simpa [pipe] using hc
    rcases hc with rfl | rfl
    · exact .inl ⟨justPushed, rfl⟩
    · exact .inl ⟨justPopped, rfl⟩
  ends k hk := by
    cases k with
    | outside => rfl
    | _ => cases hk
  outside k hk := by
    cases k with
    | outside => rfl
    | _ => cases hk
  entry k k' hk := by
    cases k' with
    | outside => cases k <;> cases hk
    | _ => rfl
  calls k p g hk hg := by
    have hg : (if p.freed then none else pipeCode heap justPushed justPopped p k) = some g := hg
    split at hg
    · cases hg
    · exact pipeCode_calls hg

/-- Between two segments the pipe is a stream, and those inside are in a pop and hold a handle. -/
structure PipeKept (q : ClientState (Pipe β) (PipePoint β)) : Prop where
  data : q.data.Kept
  points : ∀ t, (q.pc t).Fine q.data

section

variable {heap : Heap β} {elemSize limit : Nat} {justPushed justPopped : CondId} {p : Pipe β}
  {k : PipePoint β} {m : ClientMove (PipePoint β)} {q q' : ClientState (Pipe β) (PipePoint β)}
  {b : Boot} {s : Sched} {t : TaskId}

theorem PipePoint.Fine.whole (h : k.Fine p) : k.Whole p := by
  cases k with
  | outside => trivial
  | pop eager left target => exact h.2.1
  | _ => cases h

theorem PipePoint.whole_of_entry {k₀ : PipePoint β} (he : p.elemSize = elemSize)
    (h : (pipe heap elemSize justPushed justPopped).entry k₀ k = true) : k.Whole p := by
  subst he
  cases k with
  | push elems =>
    have h : decide (elems.length % p.elemSize = 0) = true := by cases k₀ <;> exact h
    exact Nat.dvd_of_mod_eq_zero (of_decide_eq_true h)
  | pop eager left target =>
    have h : (decide (left % p.elemSize = 0) && target.isEmpty) = true := by cases k₀ <;> exact h
    obtain ⟨hleft, hnil⟩ := Bool.and_eq_true_iff.1 h
    rw [List.isEmpty_iff.1 hnil]
    exact ⟨Nat.dvd_of_mod_eq_zero (of_decide_eq_true hleft), Nat.dvd_zero _⟩
  | _ => trivial

/-- A task that runs may do what it does. -/
theorem PipeKept.allowed (h : PipeKept q) (he : q.data.elemSize = elemSize)
    (hfrom : q.runsFrom m = some k) (huse : PipeUse q m)
    (hk : (pipe heap elemSize justPushed justPopped).outside k = false)
    (hmay : (pipe heap elemSize justPushed justPopped).MayRun q k) :
    k.Allowed q.data ∧ k.Whole q.data ∧
      (k.leaves q.data = true → ∀ t ∈ q.sched.live, (q.pc t).pops = false) := by
  have hwhole : k.Whole q.data := by
    rcases hmay with ⟨-, hentry⟩ | ⟨-, rfl⟩
    · exact PipePoint.whole_of_entry he hentry
    · exact (h.points _).whole
  cases m with
  | enter k' =>
    obtain rfl : k' = k := Option.some.inj hfrom
    exact ⟨huse.1, hwhole, huse.2⟩
  | go =>
    obtain rfl : q.pc q.sched.currentTask = k := Option.some.inj hfrom
    have hfine := h.points q.sched.currentTask
    cases hpc : q.pc q.sched.currentTask with
    | outside =>
      rw [hpc] at hk
      cases hk
    | pop eager left target =>
      rw [hpc] at hfine hwhole
      exact ⟨hfine.2.2, hwhole, fun hl => by cases hl⟩
    | _ =>
      rw [hpc] at hfine
      cases hfine
  | other m => cases hfrom

theorem PipeKept.step (h : PipeKept q)
    (he : q.data.elemSize = elemSize)
    (hplaced : (pipe heap elemSize justPushed justPopped).Placed b q) (huse : PipeUse q m)
    (hs : (pipe heap elemSize justPushed justPopped).step q m = some q') :
    PipeKept q' ∧ q'.data.elemSize = elemSize := by
  have hsound := pipe_sound heap elemSize justPushed justPopped
  rcases Client.step_cases hsound hs with ⟨k, hfrom, hk, hmay, hrun⟩ | ⟨m, s, -, -, rfl⟩
  · obtain ⟨hallowed, hwhole, hleaves⟩ := h.allowed he hfrom huse hk hmay
    obtain ⟨g, s, hg, -, rfl⟩ := Client.run_eq hrun
    rcases h.data.code hk hallowed hwhole with ⟨hnone, -⟩ | ⟨g', hg', -, hafter⟩
    · rw [hnone] at hg
      cases hg
    rw [hg'] at hg
    obtain rfl := Option.some.inj hg
    refine ⟨⟨hafter.kept, fun t => ?_⟩, hafter.elem.trans he⟩
    show (Function.update q.pc q.sched.currentTask g'.next t).Fine g'.data
    by_cases ht : t = q.sched.currentTask
    · rw [ht, Function.update_self]
      exact hafter.next
    · rw [Function.update_of_ne ht]
      have hfine := h.points t
      cases hpc : q.pc t with
      | outside => trivial
      | pop eager left target =>
        rw [hpc] at hfine
        obtain ⟨hleft, ⟨hdvd, htarget⟩, hconsumer⟩ := hfine
        have hstays : k.leaves q.data = false := by
          by_contra hl
          have hnone := hleaves (by simpa using hl) t (hplaced.live t (by rw [hpc]; rfl))
          rw [hpc] at hnone
          cases hnone
        exact ⟨hleft, ⟨hafter.elem ▸ hdvd, hafter.elem ▸ htarget⟩,
          hafter.consumers hstays hconsumer⟩
      | _ =>
        rw [hpc] at hfine
        cases hfine
  · exact ⟨⟨h.data, h.points⟩, he⟩

/-- What is known when a task runs from `k`. -/
structure PipeKnown (elemSize : Nat) (k : PipePoint β) (p : Pipe β) : Prop where
  kept : p.Kept
  elem : p.elemSize = elemSize
  inside : k ≠ .outside
  allowed : k.Allowed p
  whole : k.Whole p

theorem PipeKnown.after (h : PipeKnown elemSize k p)
    {g : Segment (Pipe β) (PipePoint β)}
    (hg : (pipe heap elemSize justPushed justPopped).code k p = some g) :
    After justPushed p k g := by
  have hk : (pipe heap elemSize justPushed justPopped).outside k = false := by
    cases k with
    | outside => exact absurd rfl h.inside
    | _ => rfl
  rcases h.kept.code hk h.allowed h.whole with ⟨hnone, -⟩ | ⟨g', hg', -, hafter⟩
  · rw [hnone] at hg
    cases hg
  · rw [hg'] at hg
    obtain rfl := Option.some.inj hg
    exact hafter

/-- Why a task may wait in a pop. -/
def PipePoint.reason : PipePoint β → Pipe β → Prop
  | .pop .., p => 0 < p.consumerRefcount → 0 < p.producerRefcount
  | _, _ => True

end

/-! ## The limit -/

/-- The maximum is `most`, and the buffer, with the sentinel, is not larger. -/
structure Pipe.Bounded (most : Nat) (p : Pipe β) : Prop where
  pos : 0 < p.elemSize
  sentinel : p.elemSize ≤ p.bufend
  end_le : p.endPtr ≤ p.bufend
  le_max : p.bufend ≤ most
  max_eq : p.maxCap = most

namespace Pipe.Bounded

variable {heap : Heap β} {p p' : Pipe β} {elems : List β} {n most : Nat}
  {justPushed justPopped : CondId}
  {k : PipePoint β} {g : Segment (Pipe β) (PipePoint β)}

/-- There is never as much in the pipe as a producer would wait for. -/
theorem lt_max (h : p.Bounded most) : p.bytesInUse < most := by
  have hpos := h.pos
  have hsentinel := h.sentinel
  have hend := h.end_le
  have hmax := h.le_max
  rcases Nat.lt_or_ge p.beginPtr p.endPtr with hw | hw
  · rw [bytesInUse_of_lt hw]
    omega
  · rw [bytesInUse_of_le hw]
    omega

theorem wrap_le (i n : Nat) (h : i ≤ n) : wrapPtrIfNecessary i n ≤ n := by
  unfold wrapPtrIfNecessary
  split <;> omega

theorem resizeBuffer (h : p.Bounded most) (hp : p.resizeBuffer heap n = some p') : p'.Bounded most := by
  obtain ⟨-, hp⟩ := assertume_eq_some.1 hp
  obtain ⟨-, hp⟩ := assertume_eq_some.1 hp
  dsimp only at hp
  generalize (if p.maxCap ≤ n then p.maxCap else n) = size at hp
  split at hp
  · obtain rfl := Option.some.inj hp
    exact h
  · obtain ⟨-, hp⟩ := assertume_eq_some.1 hp
    obtain ⟨⟨newBuf, endPtr⟩, -, hp⟩ := Option.bind_eq_some_iff.1 hp
    obtain ⟨hend, hp⟩ := assertume_eq_some.1 hp
    obtain ⟨hcheck, hp⟩ := assertume_eq_some.1 hp
    obtain rfl := Option.some.inj hp
    have hmax : size + p.elemSize - p.elemSize + p.elemSize ≤ p.maxCap :=
      capacity_le_of_checkInvariants hcheck rfl
    rw [h.max_eq] at hmax
    refine ⟨h.pos, Nat.le_add_left _ _, hend, ?_, h.max_eq⟩
    show size + p.elemSize ≤ most
    omega

theorem store {i e : Nat} (h : p.Bounded most) (hp : p.store i elems = some (p', e)) :
    p'.Bounded most ∧ e ≤ p'.bufend := by
  unfold Pipe.store at hp
  split at hp
  · next hle =>
    obtain ⟨cells, -, hp⟩ := Option.map_eq_some_iff.1 hp
    cases hp
    exact ⟨⟨h.pos, h.sentinel, h.end_le, h.le_max, h.max_eq⟩, hle⟩
  · cases hp

theorem processPush (h : p.Bounded most) (hp : p.processPush elems = some p') : p'.Bounded most := by
  obtain ⟨-, hp⟩ := assertume_eq_some.1 hp
  obtain ⟨-, hp⟩ := assertume_eq_some.1 hp
  generalize (if p.wrapsAround = true then 0 else min elems.length (p.bufend - p.endPtr)) = atEnd at hp
  obtain ⟨⟨p₁, e₁⟩, hstore₁, hp⟩ := Option.bind_eq_some_iff.1 hp
  obtain ⟨h₁, hle₁⟩ := h.store hstore₁
  dsimp only at hp
  split at hp
  · obtain ⟨⟨p₂, e₂⟩, hstore₂, rfl⟩ := Option.map_eq_some_iff.1 hp
    obtain ⟨h₂, hle₂⟩ := h₁.store hstore₂
    exact ⟨h₂.pos, h₂.sentinel, wrap_le _ _ hle₂, h₂.le_max, h₂.max_eq⟩
  · obtain rfl := Option.some.inj hp
    exact ⟨h₁.pos, h₁.sentinel, wrap_le _ _ hle₁, h₁.le_max, h₁.max_eq⟩

/-- Every segment keeps the buffer within the maximum, however the pipe is used, and none waits for
room. -/
theorem code (h : p.Bounded most) (hg : pipeCode heap justPushed justPopped p k = some g) :
    g.data.Bounded most ∧ ∀ i, g.call = some (.condWait i) → g.next.pops = true := by
  have nowait (c : Prop) [Decidable c] (i j : CondId) :
      some (if c then Call.condSignal j else .condBroadcast j) ≠ some (.condWait i) := by
    split <;> simp
  by_cases hk : k.recounts = true
  · obtain ⟨buffer, producers, consumers, freed, call, rfl, hcall⟩ := pipeCode_recounts hk hg
    refine ⟨⟨h.pos, h.sentinel, h.end_le, h.le_max, h.max_eq⟩, fun i hi => ?_⟩
    rcases hcall _ hi with hi | hi <;> cases hi
  cases k with
  | push elems =>
    have hg : pipePush heap justPushed justPopped p elems = some g := hg
    have hlt := h.lt_max
    have hmax := h.max_eq
    unfold pipePush at hg
    rw [if_neg (show ¬(p.bytesInUse = p.maxCap ∧ _) from fun hw => by omega)] at hg
    split at hg
    · obtain rfl := Option.some.inj hg
      exact ⟨h, by simp [done]⟩
    split at hg
    · obtain rfl := Option.some.inj hg
      exact ⟨h, by simp [done]⟩
    · obtain ⟨p₁, hp₁, hg⟩ := Option.bind_eq_some_iff.1 hg
      obtain ⟨p₂, hp₂, rfl⟩ := Option.map_eq_some_iff.1 hg
      have h₁ : p₁.Bounded most := by
        unfold validateSize at hp₁
        dsimp only at hp₁
        split at hp₁
        · exact h.resizeBuffer hp₁
        · obtain rfl := Option.some.inj hp₁
          exact h
      have h₂ := h₁.processPush hp₂
      exact ⟨⟨h₂.pos, h₂.sentinel, h₂.end_le, h₂.le_max, h₂.max_eq⟩, fun i hi => absurd hi (nowait _ i _)⟩
  | pop eager left target =>
    have hg : pipePop heap justPushed justPopped p eager left target = some g := hg
    have hreturned {q : Pipe β} (hq : q.Bounded most) (left : Nat) (target : List β) :
        (q.returned eager left target).Bounded most := ⟨hq.pos, hq.sentinel, hq.end_le, hq.le_max, hq.max_eq⟩
    unfold pipePop at hg
    split at hg
    · obtain rfl := Option.some.inj hg
      exact ⟨hreturned h _ _, by simp [done]⟩
    split at hg
    · obtain rfl := Option.some.inj hg
      exact ⟨h, fun i hi => rfl⟩
    split at hg
    · obtain rfl := Option.some.inj hg
      exact ⟨hreturned h _ _, by simp [done]⟩
    · obtain ⟨-, hg⟩ := assertume_eq_some.1 hg
      obtain ⟨⟨elems, beginPtr⟩, -, hg⟩ := Option.bind_eq_some_iff.1 hg
      obtain ⟨-, hg⟩ := assertume_eq_some.1 hg
      obtain ⟨p₁, hp₁, rfl⟩ := Option.map_eq_some_iff.1 hg
      have h₀ : Bounded most { p with beginPtr := beginPtr, popped := p.popped ++ elems } :=
        ⟨h.pos, h.sentinel, h.end_le, h.le_max, h.max_eq⟩
      have h₁ : p₁.Bounded most := by
        unfold trimBuffer at hp₁
        split at hp₁
        · obtain rfl := Option.some.inj hp₁
          exact h₀
        · exact h₀.resizeBuffer hp₁
      dsimp only
      split
      · exact ⟨hreturned h₁ _ _, fun i hi => absurd hi (nowait _ i _)⟩
      · exact ⟨h₁, fun i hi => absurd hi (nowait _ i _)⟩
  | reserve count =>
    obtain ⟨p', hp, rfl⟩ := Option.map_eq_some_iff.1 hg
    refine ⟨?_, by simp [done]⟩
    obtain ⟨-, hp⟩ := assertume_eq_some.1 hp
    obtain ⟨-, hp⟩ := assertume_eq_some.1 hp
    generalize (if count * p.elemSize % 2 ^ 64 = 0 then DEFAULT_MINCAP
      else count * p.elemSize % 2 ^ 64) = n at hp
    dsimp only at hp
    split at hp
    · obtain rfl := Option.some.inj hp
      exact h
    · obtain ⟨p₁, hp₁, hp⟩ := Option.bind_eq_some_iff.1 hp
      obtain ⟨-, hp⟩ := assertume_eq_some.1 hp
      obtain rfl := Option.some.inj hp
      have h₀ : Bounded most { p with minCap := min n p.maxCap } :=
        ⟨h.pos, h.sentinel, h.end_le, h.le_max, h.max_eq⟩
      exact h₀.resizeBuffer hp₁
  | outside => cases hg
  | _ => exact absurd rfl hk

end Pipe.Bounded

end Ptask.OneN
