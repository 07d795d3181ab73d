import Ptask.Lib.Ring
import Ptask.Lib.Smear
import Ptask.OneN.Client

/-!
# The pipe of `pipe.c`

A queue of elements of `elem_size` bytes in a ring buffer that grows and shrinks with its contents.
`begin` points to a sentinel element, behind which the contents start; `end` points behind the
contents. In the 1:N build the calls on the two locks are empty, so that an operation is one segment
from the test of its loop to its signal or its wait, and a snapshot is the pipe itself.

Pointers into the buffer are offsets from it, and sizes are natural numbers; only the limit of
`pipe_new` and the number of `pipe_reserve`, which may be any numbers, wrap around (an element has
less than 2^59 bytes). Each call of `malloc` may fail, and the contents of a new buffer are
arbitrary (`Heap`). `pushed` and `popped` (the bytes, oldest first), `returns` and `mallocs` are
ghost state.
-/

namespace Ptask.OneN

open Ptask.Lib

variable {β : Type*}

/-! ## The functions -/

/-- Whether the `n`-th call of `malloc` returns a block of the size, and what the block contains. -/
structure Heap (β : Type*) where
  malloc : Nat → Nat → Bool
  garbage : Nat → Nat → β
  /-- No block is larger than `PTRDIFF_MAX`. -/
  small : ∀ n size, malloc n size = true → size < 2 ^ 63

/-- What `pipe_pop` or `pipe_pop_eager` was asked for, in bytes, and what it has returned. -/
structure PipeReturn (β : Type*) where
  eager : Bool
  requested : Nat
  data : List β
deriving DecidableEq, Repr

/-- `pipe_t`; `beginPtr` and `endPtr` are the fields `begin` and `end`. -/
structure Pipe (β : Type*) where
  elemSize : Nat
  minCap : Nat
  maxCap : Nat
  buffer : Option (Nat → β)
  bufend : Nat
  beginPtr : Nat
  endPtr : Nat
  producerRefcount : Nat
  consumerRefcount : Nat
  /-- `deallocate` has freed the pipe. -/
  freed : Bool
  pushed : List β
  popped : List β
  returns : List (PipeReturn β)
  /-- How many buffers have been allocated. -/
  mallocs : Nat

/-- `assertume`, and the other ways to come to a bad end: a `malloc` whose failure is not checked, an
access behind the end of a block. -/
def assertume {γ : Type*} (c : Prop) [Decidable c] (next : Option γ) : Option γ :=
  if c then next else none

def DEFAULT_MINCAP : Nat := 32

/-- `next_pow2`. -/
def nextPow2 (n : Nat) : Nat :=
  if 2 ^ 63 ≤ n then n
  else [1, 2, 4, 8, 16, 32].foldl (fun n shift => n ||| n >>> shift) (n - 1) + 1

/-- `wrap_ptr_if_necessary`. -/
def wrapPtrIfNecessary (p bufend : Nat) : Nat := if bufend ≤ p then p - bufend else p

namespace Pipe

/-- `capacity`. -/
def capacity (p : Pipe β) : Nat := p.bufend - p.elemSize

/-- `wraps_around`. -/
def wrapsAround (p : Pipe β) : Bool := p.endPtr ≤ p.beginPtr

/-- `bytes_in_use`. -/
def bytesInUse (p : Pipe β) : Nat :=
  (if p.wrapsAround then p.endPtr + (p.bufend - p.beginPtr) else p.endPtr - p.beginPtr) - p.elemSize

/-- `memcpy` from the buffer. -/
def load (p : Pipe β) (i n : Nat) : Option (List β) :=
  if i + n ≤ p.bufend then p.buffer.map fun cells => slice cells i n else none

/-- `offset_memcpy` to the buffer. -/
def store (p : Pipe β) (i : Nat) (elems : List β) : Option (Pipe β × Nat) :=
  if i + elems.length ≤ p.bufend then
    p.buffer.map fun cells => ({ p with buffer := some (blit cells i elems) }, i + elems.length)
  else none

/-- The assertions of `check_invariants`. -/
def checkInvariants (p : Pipe β) : Bool :=
  match p.buffer with
  | none => p.consumerRefcount = 0
  | some _ =>
    p.consumerRefcount ≠ 0 && p.elemSize ≠ 0 && p.bytesInUse ≤ p.capacity &&
    p.beginPtr ≤ p.bufend && p.endPtr ≤ p.bufend &&
    (p.beginPtr ≠ p.endPtr || p.bytesInUse = p.capacity) &&
    (DEFAULT_MINCAP * p.elemSize ≤ p.minCap && p.minCap ≤ p.maxCap) &&
    (p.minCap ≤ p.capacity + p.elemSize && p.capacity + p.elemSize ≤ p.maxCap)

/-- `pipe_new`; `none` when an assertion or `malloc` fails. -/
def new (heap : Heap β) (elemSize originalLimit : Nat) : Option (Pipe β) :=
  assertume (elemSize ≠ 0) <|
  let cap := DEFAULT_MINCAP * elemSize
  assertume (heap.malloc 0 cap) <|
  let limit := (originalLimit + 1) * elemSize % 2 ^ 64
  let p : Pipe β :=
    { elemSize := elemSize
      minCap := cap
      maxCap := if originalLimit ≠ 0 then nextPow2 (max limit cap) else 2 ^ 64 - 1
      buffer := some (heap.garbage 0)
      bufend := cap
      beginPtr := 0
      endPtr := elemSize
      producerRefcount := 1
      consumerRefcount := 1
      freed := false
      pushed := []
      popped := []
      returns := []
      mallocs := 1 }
  assertume p.checkInvariants (some p)

/-- `copy_pipe_into_new_buf`: the new contents, and the end of what was copied. -/
def copyPipeIntoNewBuf (p : Pipe β) (buf : Nat → β) : Option ((Nat → β) × Nat) :=
  if p.wrapsAround then do
    let right ← p.load p.beginPtr (p.bufend - p.beginPtr)
    let left ← p.load 0 p.endPtr
    some (blit (blit buf 0 right) right.length left, right.length + left.length)
  else do
    let elems ← p.load p.beginPtr (p.endPtr - p.beginPtr)
    some (blit buf 0 elems, elems.length)

/-- `resize_buffer`. -/
def resizeBuffer (heap : Heap β) (p : Pipe β) (newSize : Nat) : Option (Pipe β) :=
  assertume p.checkInvariants <|
  assertume (p.bytesInUse ≤ newSize) <|
  let newSize := if p.maxCap ≤ newSize then p.maxCap else newSize
  if newSize ≤ p.minCap then some p
  else
    assertume (heap.malloc p.mallocs (newSize + p.elemSize)) <|
    (p.copyPipeIntoNewBuf (heap.garbage p.mallocs)).bind fun (newBuf, endPtr) =>
    assertume (endPtr ≤ newSize + p.elemSize) <|
    let p := { p with
      buffer := some newBuf, beginPtr := 0, endPtr := endPtr, bufend := newSize + p.elemSize
      mallocs := p.mallocs + 1 }
    assertume p.checkInvariants (some p)

/-- `validate_size`. -/
def validateSize (heap : Heap β) (p : Pipe β) (newBytes : Nat) : Option (Pipe β) :=
  let bytesNeeded := p.bytesInUse + newBytes
  if p.capacity < bytesNeeded then
    p.resizeBuffer heap (nextPow2 (bytesNeeded / p.elemSize + 1) * p.elemSize)
  else some p

/-- `process_push`. -/
def processPush (p : Pipe β) (elems : List β) : Option (Pipe β) :=
  assertume (elems.length ≠ 0) <|
  assertume (p.endPtr ≠ p.bufend) <|
  -- as much as fits behind the end, if this is not in front of the beginning
  let atEnd := if p.wrapsAround then 0 else min elems.length (p.bufend - p.endPtr)
  (p.store p.endPtr (elems.take atEnd)).bind fun (p, endPtr) =>
  let elems := elems.drop atEnd
  if elems.length ≠ 0 then
    (p.store (wrapPtrIfNecessary endPtr p.bufend) elems).map fun (p, endPtr) =>
      { p with endPtr := wrapPtrIfNecessary endPtr p.bufend }
  else
    some { p with endPtr := wrapPtrIfNecessary endPtr p.bufend }

/-- `pop_without_locking`: the bytes popped, and the new `begin`. -/
def popWithoutLocking (p : Pipe β) (bytesToCopy : Nat) : Option (List β × Nat) :=
  assertume (p.beginPtr ≠ p.bufend) <|
  let firstBytesToCopy := min bytesToCopy (p.bufend - p.beginPtr - p.elemSize)
  (p.load (p.beginPtr + p.elemSize) firstBytesToCopy).bind fun target =>
  let bytesToCopy := bytesToCopy - firstBytesToCopy
  let beginPtr := wrapPtrIfNecessary (p.beginPtr + firstBytesToCopy) p.bufend
  if 0 < bytesToCopy then
    let beginPtr := wrapPtrIfNecessary (beginPtr + p.elemSize) p.bufend
    (p.load beginPtr bytesToCopy).map fun rest =>
    let beginPtr := wrapPtrIfNecessary (beginPtr + bytesToCopy) p.bufend
    -- back by an element, with `rev_wrap_ptr_if_necessary`
    (target ++ rest, if beginPtr < p.elemSize then p.bufend - (p.elemSize - beginPtr)
      else beginPtr - p.elemSize)
  else
    some (target, beginPtr)

/-- `trim_buffer`. -/
def trimBuffer (heap : Heap β) (p : Pipe β) : Option (Pipe β) :=
  if p.capacity / 4 < p.bytesInUse then some p else p.resizeBuffer heap (p.capacity / 2)

/-- `deallocate`. -/
def deallocate (p : Pipe β) : Option (Pipe β) :=
  assertume (p.producerRefcount = 0) <|
  assertume (p.consumerRefcount = 0) <|
  some { p with freed := true, buffer := none }

/-- `pipe_reserve`. -/
def reserve (heap : Heap β) (p : Pipe β) (count : Nat) : Option (Pipe β) :=
  let count := count * p.elemSize % 2 ^ 64
  let count := if count = 0 then DEFAULT_MINCAP else count
  assertume p.checkInvariants <|
  -- without a buffer, `begin` and `end` point into a block that has been freed
  assertume p.buffer.isSome <|
  if count ≤ p.bytesInUse then some p
  else
    let p := { p with minCap := min count p.maxCap }
    (p.resizeBuffer heap count).bind fun p => assertume p.checkInvariants (some p)

end Pipe

/-- Where a task is: outside, at the start of an operation, or in front of the test of the loop of a
push (with the bytes that are left) or of a pop (with the number of bytes left, and those that it
has). -/
inductive PipePoint (β : Type*)
  | outside
  | producerNew
  | consumerNew
  | free
  | producerFree
  | consumerFree
  | push (elems : List β)
  | pop (eager : Bool) (left : Nat) (target : List β)
  | reserve (count : Nat)

/-- The end of an operation. -/
def Pipe.done (p : Pipe β) (call : Option Call) : Segment (Pipe β) (PipePoint β) :=
  { data := p, call := call, next := .outside }

/-- `pipe_producer_new`. -/
def pipeProducerNew (p : Pipe β) : Option (Segment (Pipe β) (PipePoint β)) :=
  some ({ p with producerRefcount := p.producerRefcount + 1 }.done none)

/-- `pipe_consumer_new`. -/
def pipeConsumerNew (p : Pipe β) : Option (Segment (Pipe β) (PipePoint β)) :=
  some ({ p with consumerRefcount := p.consumerRefcount + 1 }.done none)

/-- `pipe_free`. -/
def pipeFree (justPushed justPopped : CondId) (p : Pipe β) :
    Option (Segment (Pipe β) (PipePoint β)) :=
  assertume (0 < p.producerRefcount) <|
  let p := { p with producerRefcount := p.producerRefcount - 1 }
  assertume (0 < p.consumerRefcount) <|
  let p := { p with consumerRefcount := p.consumerRefcount - 1 }
  if p.consumerRefcount = 0 then
    let p := { p with buffer := none }
    if 0 < p.producerRefcount then some (p.done (some (.condBroadcast justPopped)))
    else p.deallocate.map fun p => p.done none
  else if p.producerRefcount = 0 then some (p.done (some (.condBroadcast justPushed)))
  else some (p.done none)

/-- `pipe_producer_free`. -/
def pipeProducerFree (justPushed : CondId) (p : Pipe β) :
    Option (Segment (Pipe β) (PipePoint β)) :=
  assertume (0 < p.producerRefcount) <|
  let p := { p with producerRefcount := p.producerRefcount - 1 }
  if p.producerRefcount = 0 then
    if 0 < p.consumerRefcount then some (p.done (some (.condBroadcast justPushed)))
    else p.deallocate.map fun p => p.done none
  else some (p.done none)

/-- `pipe_consumer_free`, in which the count is not checked: it may wrap around. -/
def pipeConsumerFree (justPopped : CondId) (p : Pipe β) :
    Option (Segment (Pipe β) (PipePoint β)) :=
  let p := { p with
    consumerRefcount := if p.consumerRefcount = 0 then 2 ^ 64 - 1 else p.consumerRefcount - 1 }
  if p.consumerRefcount = 0 then
    if 0 < p.producerRefcount then some (p.done (some (.condBroadcast justPopped)))
    else p.deallocate.map fun p => p.done none
  else some (p.done none)

/-- `__pipe_push` from the test of the loop of `wait_for_room` on. -/
def pipePush (heap : Heap β) (justPushed justPopped : CondId) (p : Pipe β) (elems : List β) :
    Option (Segment (Pipe β) (PipePoint β)) :=
  if elems.length = 0 then some (p.done none)
  else if p.bytesInUse = p.maxCap ∧ 0 < p.consumerRefcount then
    some { data := p, call := some (.condWait justPopped), next := .push elems }
  else if p.consumerRefcount = 0 then some (p.done none)
  else
    let maxCap := p.maxCap
    (p.validateSize heap elems.length).bind fun p =>
    let pushed := min elems.length (maxCap - p.bytesInUse)
    (p.processPush (elems.take pushed)).map fun p =>
    let call := if pushed = p.elemSize then .condSignal justPushed else .condBroadcast justPushed
    let left := elems.drop pushed
    { data := { p with pushed := p.pushed ++ elems.take pushed }
      call := some call
      next := if left.length ≠ 0 then .push left else .outside }

/-- The end of `pipe_pop` or `pipe_pop_eager`. -/
def Pipe.returned (p : Pipe β) (eager : Bool) (left : Nat) (target : List β) : Pipe β :=
  { p with returns :=
      p.returns ++ [{ eager := eager, requested := target.length + left, data := target }] }

/-- `__pipe_pop` from the test of the loop of `wait_for_elements` on, and the test of the loop of
`pipe_pop`, which `pipe_pop_eager` does not have. -/
def pipePop (heap : Heap β) (justPushed justPopped : CondId) (p : Pipe β) (eager : Bool)
    (left : Nat) (target : List β) : Option (Segment (Pipe β) (PipePoint β)) :=
  if left = 0 then some ((p.returned eager left target).done none)
  else if p.bytesInUse = 0 ∧ 0 < p.producerRefcount then
    some { data := p, call := some (.condWait justPushed), next := .pop eager left target }
  else if p.bytesInUse = 0 then some ((p.returned eager left target).done none)
  else
    assertume p.checkInvariants <|
    let popped := min left p.bytesInUse
    (p.popWithoutLocking popped).bind fun (elems, beginPtr) =>
    let p := { p with beginPtr := beginPtr, popped := p.popped ++ elems }
    assertume p.checkInvariants <|
    (p.trimBuffer heap).map fun p =>
    let call := if popped = p.elemSize then .condSignal justPopped else .condBroadcast justPopped
    let left := left - popped
    let target := target ++ elems
    if eager || left = 0 then (p.returned eager left target).done (some call)
    else { data := p, call := some call, next := .pop eager left target }

/-- The code from a point on. -/
def pipeCode (heap : Heap β) (justPushed justPopped : CondId) (p : Pipe β) :
    PipePoint β → Option (Segment (Pipe β) (PipePoint β))
  | .outside => none
  | .producerNew => pipeProducerNew p
  | .consumerNew => pipeConsumerNew p
  | .free => pipeFree justPushed justPopped p
  | .producerFree => pipeProducerFree justPushed p
  | .consumerFree => pipeConsumerFree justPopped p
  | .push elems => pipePush heap justPushed justPopped p elems
  | .pop eager left target => pipePop heap justPushed justPopped p eager left target
  | .reserve count => (p.reserve heap count).map fun p => p.done none

/-- The program of the pipe. -/
def pipe (heap : Heap β) (elemSize : Nat) (justPushed justPopped : CondId) :
    Client (Pipe β) (PipePoint β) where
  -- `p` is read first
  code k p := if p.freed then none else pipeCode heap justPushed justPopped p k
  outside
    | .outside => true
    | _ => false
  ends
    | .outside => true
    | _ => false
  -- `count` elements are `count * elem_size` bytes
  entry
    | _, .outside => false
    | _, .push elems => elems.length % elemSize = 0
    | _, .pop _ left target => left % elemSize = 0 && target.isEmpty
    | _, _ => true
  waitsOn
    | .push _ => some (.cond justPopped)
    | .pop _ left _ => if left = 0 then none else some (.cond justPushed)
    | _ => none
  objects := [.cond justPushed, .cond justPopped]

theorem assertume_pos {γ : Type*} {c : Prop} [Decidable c] (h : c) (next : Option γ) :
    assertume c next = next := if_pos h

theorem assertume_neg {γ : Type*} {c : Prop} [Decidable c] (h : ¬c) (next : Option γ) :
    assertume c next = none := if_neg h

theorem assertume_eq_some {γ : Type*} {c : Prop} [Decidable c] {next : Option γ} {x : γ} :
    assertume c next = some x ↔ c ∧ next = some x := by
  unfold assertume
  split
  · next h => simp [h]
  · next h => simp [h]

theorem wrapPtrIfNecessary_eq {p n : Nat} (h : p < 2 * n) : wrapPtrIfNecessary p n = p % n := by
  unfold wrapPtrIfNecessary
  split
  · next hn => rw [Nat.mod_eq_sub_mod hn, Nat.mod_eq_of_lt (by omega)]
  · next hn => rw [Nat.mod_eq_of_lt (by omega)]

/-- Between two multiples there is room for an element. -/
theorem add_le_of_multiples {e a c : Nat} (ha : e ∣ a) (hc : e ∣ c) (h : a < c) : a + e ≤ c := by
  obtain ⟨x, rfl⟩ := ha
  obtain ⟨y, rfl⟩ := hc
  have hxy : x + 1 ≤ y := lt_of_mul_lt_mul_left' h
  calc e * x + e = e * (x + 1) := by rw [Nat.mul_succ]
    _ ≤ e * y := Nat.mul_le_mul_left e hxy

namespace Pipe

variable {p : Pipe β} {cells : Nat → β} {elems : List β} {n : Nat} {heap : Heap β}

/-- The bytes behind the sentinel. -/
def contents (p : Pipe β) : List β :=
  match p.buffer with
  | none => []
  | some cells => ring cells p.bufend (p.beginPtr + p.elemSize) p.bytesInUse

theorem contents_eq (h : p.buffer = some cells) :
    p.contents = ring cells p.bufend (p.beginPtr + p.elemSize) p.bytesInUse := by
  unfold contents
  rw [h]

theorem length_contents (h : p.buffer = some cells) : p.contents.length = p.bytesInUse := by
  rw [contents_eq h, length_ring]

/-- The pointers point to elements of the buffer. -/
structure Formed (p : Pipe β) : Prop where
  pos : 0 < p.elemSize
  size : p.elemSize ∣ p.bufend
  begins : p.elemSize ∣ p.beginPtr
  ends : p.elemSize ∣ p.endPtr
  begin_lt : p.beginPtr < p.bufend
  end_lt : p.endPtr < p.bufend

theorem bytesInUse_of_le (h : p.endPtr ≤ p.beginPtr) :
    p.bytesInUse = p.endPtr + (p.bufend - p.beginPtr) - p.elemSize := by
  unfold bytesInUse wrapsAround
  rw [if_pos (by rwa [decide_eq_true_iff])]

theorem bytesInUse_of_lt (h : p.beginPtr < p.endPtr) :
    p.bytesInUse = p.endPtr - p.beginPtr - p.elemSize := by
  unfold bytesInUse wrapsAround
  rw [if_neg (by rw [decide_eq_true_iff]; omega)]

theorem bytesInUse_eq (he : 0 < p.elemSize) (hb : p.beginPtr < p.bufend)
    (hn : n + p.elemSize ≤ p.bufend)
    (hend : p.endPtr = (p.beginPtr + p.elemSize + n) % p.bufend) : p.bytesInUse = n := by
  by_cases hlt : p.beginPtr + p.elemSize + n < p.bufend
  · rw [Nat.mod_eq_of_lt hlt] at hend
    rw [bytesInUse_of_lt (by omega)]
    omega
  · rw [Nat.mod_eq_sub_mod (by omega), Nat.mod_eq_of_lt (by omega)] at hend
    rw [bytesInUse_of_le (by omega)]
    omega

namespace Formed

theorem begin_le (h : p.Formed) : p.beginPtr + p.elemSize ≤ p.bufend :=
  add_le_of_multiples h.begins h.size h.begin_lt

theorem inUse_le (h : p.Formed) : p.bytesInUse + p.elemSize ≤ p.bufend := by
  have he := h.end_lt
  have hbe := h.begin_le
  rcases Nat.lt_or_ge p.beginPtr p.endPtr with hw | hw
  · rw [bytesInUse_of_lt hw]
    omega
  · rw [bytesInUse_of_le hw]
    omega

theorem end_eq (h : p.Formed) :
    p.endPtr = (p.beginPtr + p.elemSize + p.bytesInUse) % p.bufend := by
  have he := h.end_lt
  have hbe := h.begin_le
  rcases Nat.lt_or_ge p.beginPtr p.endPtr with hw | hw
  · have hroom := add_le_of_multiples h.begins h.ends hw
    rw [bytesInUse_of_lt hw, show p.beginPtr + p.elemSize + (p.endPtr - p.beginPtr - p.elemSize) =
      p.endPtr by omega, Nat.mod_eq_of_lt he]
  · rw [bytesInUse_of_le hw,
      show p.beginPtr + p.elemSize + (p.endPtr + (p.bufend - p.beginPtr) - p.elemSize) =
        p.endPtr + p.bufend by omega, Nat.add_mod_right, Nat.mod_eq_of_lt he]

theorem dvd_inUse (h : p.Formed) : p.elemSize ∣ p.bytesInUse := by
  have hmod : (p.beginPtr + p.elemSize + p.bytesInUse) % p.bufend = p.endPtr := h.end_eq.symm
  have hsum : p.elemSize ∣ p.beginPtr + p.elemSize + p.bytesInUse := by
    rw [← Nat.mod_add_div (p.beginPtr + p.elemSize + p.bytesInUse) p.bufend, hmod]
    exact Nat.dvd_add h.ends (Nat.dvd_mul_right_of_dvd h.size _)
  exact (Nat.dvd_add_right (Nat.dvd_add h.begins (Nat.dvd_refl _))).1 hsum

/-- Where the bytes of a run of the ring are, when it goes round and when it does not. -/
theorem load_eq (hbuf : p.buffer = some cells) {i : Nat} (h : i + n ≤ p.bufend) :
    p.load i n = some (ring cells p.bufend i n) := by
  unfold load
  rw [if_pos h, hbuf, Option.map_some, ring_eq_slice h]

/-- `process_push` appends the elements. -/
theorem processPush_eq (h : p.Formed) (hbuf : p.buffer = some cells) (hne : elems.length ≠ 0)
    (hroom : p.bytesInUse + elems.length ≤ p.capacity) :
    ∃ cells', p.processPush elems = some { p with
        buffer := some cells', endPtr := (p.endPtr + elems.length) % p.bufend } ∧
      ring cells' p.bufend (p.beginPtr + p.elemSize) (p.bytesInUse + elems.length) =
        p.contents ++ elems := by
  have hb := h.begin_lt
  have he := h.end_lt
  have hbe := h.begin_le
  have huse := h.inUse_le
  have hend := h.end_eq
  unfold capacity at hroom
  have hcontents := contents_eq hbuf
  unfold processPush
  rw [assertume_pos hne, assertume_pos (Nat.ne_of_lt he)]
  by_cases hfits : p.endPtr + elems.length ≤ p.bufend ∧ p.wrapsAround = false
  · -- at once
    obtain ⟨hfits, hw⟩ := hfits
    have htake : min elems.length (p.bufend - p.endPtr) = elems.length := by omega
    refine ⟨blit cells p.endPtr elems, ?_, ?_⟩
    · simp only [hw, Bool.false_eq_true, if_false, htake, List.take_length, List.drop_length, store,
        hfits, if_true, hbuf, Option.map_some, Option.bind_some, List.length_nil, ne_eq,
        not_true_eq_false]
      rw [wrapPtrIfNecessary_eq (by omega)]
    · rw [hcontents]
      exact ring_blit (by omega) hfits hend.symm
  · -- what fits behind the end, and the rest from where the ring goes round
    obtain ⟨atEnd, hatEnd⟩ : ∃ n, n =
      if p.wrapsAround then 0 else min elems.length (p.bufend - p.endPtr) := ⟨_, rfl⟩
    have hcase : atEnd < elems.length ∧ p.endPtr + atEnd ≤ p.bufend ∧
        (p.endPtr + atEnd) % p.bufend + (elems.length - atEnd) < p.bufend := by
      unfold wrapsAround at hfits hatEnd
      rcases Nat.lt_or_ge p.beginPtr p.endPtr with hw | hw
      · have hinUse := bytesInUse_of_lt hw
        rw [if_neg (by rw [decide_eq_true_iff]; omega)] at hatEnd
        rw [decide_eq_false_iff_not] at hfits
        have hsum : p.endPtr + atEnd = p.bufend := by omega
        rw [hsum, Nat.mod_self]
        omega
      · have hinUse := bytesInUse_of_le hw
        rw [if_pos (by rwa [decide_eq_true_iff])] at hatEnd
        rw [hatEnd, Nat.add_zero, Nat.mod_eq_of_lt he]
        omega
    obtain ⟨hlt, hfirst, hrest⟩ := hcase
    have htake : (elems.take atEnd).length = atEnd := by rw [List.length_take]; omega
    have hdrop : (elems.drop atEnd).length = elems.length - atEnd := List.length_drop
    have hwrap : wrapPtrIfNecessary (p.endPtr + atEnd) p.bufend = (p.endPtr + atEnd) % p.bufend :=
      wrapPtrIfNecessary_eq (by omega)
    have hnew : wrapPtrIfNecessary ((p.endPtr + atEnd) % p.bufend + (elems.length - atEnd)) p.bufend =
        (p.endPtr + elems.length) % p.bufend := by
      rw [wrapPtrIfNecessary_eq (by omega), Nat.mod_add_mod]
      congr 1
      omega
    refine ⟨blit (blit cells p.endPtr (elems.take atEnd)) ((p.endPtr + atEnd) % p.bufend)
      (elems.drop atEnd), ?_, ?_⟩
    · have hne : elems.length - atEnd ≠ 0 := by omega
      simp only [← hatEnd, store, htake, hfirst, if_true, hbuf, Option.map_some, Option.bind_some,
        hdrop, hne, ne_eq, not_false_eq_true, hwrap, hrest.le, hnew]
    · have h₁ : ring (blit cells p.endPtr (elems.take atEnd)) p.bufend (p.beginPtr + p.elemSize)
          (p.bytesInUse + atEnd) = p.contents ++ elems.take atEnd := by
        have hback : ring (blit cells p.endPtr (elems.take atEnd)) p.bufend
            (p.beginPtr + p.elemSize) (p.bytesInUse + (elems.take atEnd).length) = _ :=
          ring_blit (by rw [htake]; omega) (by rw [htake]; exact hfirst) hend.symm
        rwa [htake, ← hcontents] at hback
      have hij : (p.beginPtr + p.elemSize + (p.bytesInUse + atEnd)) % p.bufend =
          (p.endPtr + atEnd) % p.bufend := by
        rw [hend, Nat.mod_add_mod, Nat.add_assoc, Nat.add_assoc, Nat.add_assoc]
      have h₂ : ring (blit (blit cells p.endPtr (elems.take atEnd))
          ((p.endPtr + atEnd) % p.bufend) (elems.drop atEnd)) p.bufend (p.beginPtr + p.elemSize)
          (p.bytesInUse + atEnd + (elems.drop atEnd).length) = _ :=
        ring_blit (by rw [hdrop]; omega) (by rw [hdrop]; omega) hij
      rw [h₁, List.append_assoc, List.take_append_drop, hdrop] at h₂
      rwa [show p.bytesInUse + elems.length =
        p.bytesInUse + atEnd + (elems.length - atEnd) by omega]

/-- `pop_without_locking` takes the first bytes. -/
theorem popWithoutLocking_eq (h : p.Formed) (hbuf : p.buffer = some cells) (hn : n ≤ p.bytesInUse) :
    p.popWithoutLocking n = some (ring cells p.bufend (p.beginPtr + p.elemSize) n,
      (p.beginPtr + n) % p.bufend) := by
  have hpos := h.pos
  have hb := h.begin_lt
  have hbe := h.begin_le
  have huse := h.inUse_le
  unfold popWithoutLocking
  rw [assertume_pos (Nat.ne_of_lt hb)]
  by_cases hfits : n ≤ p.bufend - p.beginPtr - p.elemSize
  · have hload := load_eq (n := n) hbuf (show p.beginPtr + p.elemSize + n ≤ p.bufend by omega)
    simp only [Nat.min_eq_left hfits, hload, Option.bind_some, Nat.sub_self, Nat.lt_irrefl, if_false]
    rw [wrapPtrIfNecessary_eq (by omega)]
  · -- up to the end, and from the start
    obtain ⟨first, hfirst⟩ : ∃ m, m = p.bufend - p.beginPtr - p.elemSize := ⟨_, rfl⟩
    rw [← hfirst] at hfits ⊢
    have hfirstload := load_eq (n := first) hbuf
      (show p.beginPtr + p.elemSize + first ≤ p.bufend by omega)
    have hload : p.load 0 (n - first) = some (ring cells p.bufend
        (p.beginPtr + p.elemSize + first) (n - first)) := by
      rw [load_eq hbuf (by omega), show p.beginPtr + p.elemSize + first = p.bufend by omega, ring_self]
    have hbegin : wrapPtrIfNecessary (p.beginPtr + first) p.bufend = p.bufend - p.elemSize := by
      rw [wrapPtrIfNecessary_eq (by omega), Nat.mod_eq_of_lt (by omega)]
      omega
    have hstart : wrapPtrIfNecessary (p.bufend - p.elemSize + p.elemSize) p.bufend = 0 := by
      rw [show p.bufend - p.elemSize + p.elemSize = p.bufend by omega,
        wrapPtrIfNecessary_eq (by omega), Nat.mod_self]
    have hleft : wrapPtrIfNecessary (0 + (n - first)) p.bufend = n - first := by
      rw [wrapPtrIfNecessary_eq (by omega), Nat.mod_eq_of_lt (by omega), Nat.zero_add]
    have hmin : min n first = first := by omega
    simp only [hmin, hfirstload, Option.bind_some, hbegin, hstart, hload, hleft, Option.map_some]
    rw [if_pos (by omega), ← ring_add, show first + (n - first) = n by omega]
    congr 2
    split
    · next hlt => rw [Nat.mod_eq_of_lt (by omega)]; omega
    · next hge => rw [Nat.mod_eq_sub_mod (by omega), Nat.mod_eq_of_lt (by omega)]; omega

/-- What is copied to a new buffer. -/
theorem copyPipeIntoNewBuf_eq (h : p.Formed) (hbuf : p.buffer = some cells) (buf : Nat → β) :
    p.copyPipeIntoNewBuf buf =
      some (blit buf 0 (ring cells p.bufend p.beginPtr (p.elemSize + p.bytesInUse)),
        p.elemSize + p.bytesInUse) := by
  have hb := h.begin_lt
  have he := h.end_lt
  have hbe := h.begin_le
  unfold copyPipeIntoNewBuf wrapsAround
  rcases Nat.lt_or_ge p.beginPtr p.endPtr with hw | hw
  · have hroom := add_le_of_multiples h.begins h.ends hw
    have huse := bytesInUse_of_lt hw
    have hlen : p.endPtr - p.beginPtr = p.elemSize + p.bytesInUse := by omega
    rw [if_neg (by rw [decide_eq_true_iff]; omega), load_eq hbuf (by omega), hlen]
    simp only [bind, Option.bind_some, length_ring]
  · have huse := bytesInUse_of_le hw
    have hlen : p.elemSize + p.bytesInUse = p.bufend - p.beginPtr + p.endPtr := by omega
    have hround : ring cells p.bufend 0 p.endPtr =
        ring cells p.bufend (p.beginPtr + (p.bufend - p.beginPtr)) p.endPtr := by
      rw [show p.beginPtr + (p.bufend - p.beginPtr) = p.bufend by omega, ring_self]
    rw [if_pos (by rwa [decide_eq_true_iff]), load_eq hbuf (by omega), load_eq hbuf (by omega), hlen,
      ring_add, ← hround]
    simp only [bind, Option.bind_some, length_ring]
    rw [← blit_append, Nat.zero_add, length_ring]

theorem checkInvariants_iff (h : p.Formed) (hbuf : p.buffer = some cells)
    (hc : 0 < p.consumerRefcount) : p.checkInvariants = true ↔
      DEFAULT_MINCAP * p.elemSize ≤ p.minCap ∧ p.minCap ≤ p.maxCap ∧ p.minCap ≤ p.bufend ∧
        p.bufend ≤ p.maxCap := by
  have hpos := h.pos
  have hb := h.begin_lt
  have hbe := h.begin_le
  have he := h.end_lt
  have huse := h.inUse_le
  have hcap : p.capacity + p.elemSize = p.bufend := Nat.sub_add_cancel (by omega)
  have hinUse : p.bytesInUse ≤ p.capacity := by omega
  have hfull : p.beginPtr = p.endPtr → p.bytesInUse = p.capacity := by
    intro heq
    have hle := bytesInUse_of_le heq.ge
    omega
  have hor : p.beginPtr ≠ p.endPtr ∨ p.bytesInUse = p.capacity := by
    by_cases heq : p.beginPtr = p.endPtr
    · exact .inr (hfull heq)
    · exact .inl heq
  unfold checkInvariants
  rw [hbuf]
  simp only [Bool.and_eq_true, Bool.or_eq_true, decide_eq_true_iff, hcap]
  constructor
  · rintro ⟨⟨-, hmin, hmax⟩, hle, hge⟩
    exact ⟨hmin, hmax, hle, hge⟩
  · rintro ⟨hmin, hmax, hle, hge⟩
    exact ⟨⟨⟨⟨⟨⟨⟨hc.ne', hpos.ne'⟩, hinUse⟩, hb.le⟩, he.le⟩, hor⟩, hmin, hmax⟩, hle, hge⟩

end Formed

theorem capacity_le_of_checkInvariants (h : p.checkInvariants = true) (hbuf : p.buffer = some cells) :
    p.capacity + p.elemSize ≤ p.maxCap := by
  unfold checkInvariants at h
  rw [hbuf] at h
  simp only [Bool.and_eq_true, decide_eq_true_iff] at h
  exact h.2.2

/-- A size up to the minimum leaves the buffer. -/
theorem resizeBuffer_small (h : p.checkInvariants = true) {newSize : Nat}
    (hle : p.bytesInUse ≤ newSize) (hsmall : min newSize p.maxCap ≤ p.minCap) :
    p.resizeBuffer heap newSize = some p := by
  unfold resizeBuffer
  rw [assertume_pos h, assertume_pos hle]
  apply if_pos
  split <;> omega

/-- The pipe with a new buffer for `newSize` bytes. -/
def replaced (p : Pipe β) (cells : Nat → β) (newSize : Nat) : Pipe β := { p with
  buffer := some cells, beginPtr := 0, endPtr := p.elemSize + p.bytesInUse
  bufend := newSize + p.elemSize, mallocs := p.mallocs + 1 }

/-- `p'` is `p` with its contents in a new buffer for `newSize` bytes. -/
structure Resized (p p' : Pipe β) (newSize : Nat) : Prop where
  eq : ∃ cells, p' = p.replaced cells newSize
  formed : p'.Formed
  inUse : p'.bytesInUse = p.bytesInUse
  contents : p'.contents = p.contents

namespace Formed

theorem inUse_replaced (h : p.Formed) {newSize : Nat} (hlt : p.bytesInUse < newSize)
    (buf : Nat → β) : (p.replaced buf newSize).bytesInUse = p.bytesInUse := by
  have hpos := h.pos
  refine bytesInUse_eq hpos ?_ ?_ ?_
  · show 0 < newSize + p.elemSize
    omega
  · show p.bytesInUse + p.elemSize ≤ newSize + p.elemSize
    omega
  · show p.elemSize + p.bytesInUse = (0 + p.elemSize + p.bytesInUse) % (newSize + p.elemSize)
    rw [Nat.mod_eq_of_lt (by omega)]
    omega

theorem resized (h : p.Formed) (hbuf : p.buffer = some cells) {newSize : Nat}
    (hdvd : p.elemSize ∣ newSize) (hlt : p.bytesInUse < newSize) (buf : Nat → β) :
    Resized p (p.replaced
      (blit buf 0 (ring cells p.bufend p.beginPtr (p.elemSize + p.bytesInUse))) newSize) newSize := by
  have hpos := h.pos
  have huse := h.inUse_replaced hlt
    (blit buf 0 (ring cells p.bufend p.beginPtr (p.elemSize + p.bytesInUse)))
  refine ⟨⟨_, rfl⟩, ⟨hpos, ?_, Nat.dvd_zero _, ?_, ?_, ?_⟩, huse, ?_⟩
  · exact Nat.dvd_add hdvd (Nat.dvd_refl _)
  · exact Nat.dvd_add (Nat.dvd_refl _) h.dvd_inUse
  · show 0 < newSize + p.elemSize
    omega
  · show p.elemSize + p.bytesInUse < newSize + p.elemSize
    omega
  · -- the sentinel is copied with the contents
    have hcopy : slice (blit buf 0 (ring cells p.bufend p.beginPtr (p.elemSize + p.bytesInUse))) 0
        (ring cells p.bufend p.beginPtr (p.elemSize + p.bytesInUse)).length = _ := slice_blit
    rw [length_ring, ← slice_append] at hcopy
    have hsplit := hcopy.trans (ring_add (i := p.beginPtr) (k := p.elemSize) (l := p.bytesInUse))
    have hbehind := (List.append_inj hsplit (by rw [length_slice, length_ring])).2
    show ring _ (newSize + p.elemSize) (0 + p.elemSize) (bytesInUse _) = p.contents
    rw [huse, ring_eq_slice (by omega), hbehind, contents_eq hbuf]

theorem resizeBuffer_some (h : p.Formed) (hbuf : p.buffer = some cells)
    (hc : 0 < p.consumerRefcount) (hinv : p.checkInvariants = true) {newSize : Nat}
    (hdvd : p.elemSize ∣ newSize) (hlt : p.bytesInUse < newSize) (hmin : p.minCap < newSize)
    (hmalloc : heap.malloc p.mallocs (newSize + p.elemSize) = true)
    (hmax : newSize + p.elemSize ≤ p.maxCap) :
    ∃ p', p.resizeBuffer heap newSize = some p' ∧ Resized p p' newSize := by
  have hpos := h.pos
  obtain ⟨hmin₀, hminmax, -, -⟩ := (h.checkInvariants_iff hbuf hc).1 hinv
  have hresized := h.resized hbuf hdvd hlt (heap.garbage p.mallocs)
  have hcheck := (hresized.formed.checkInvariants_iff rfl hc).2
    ⟨hmin₀, hminmax, show p.minCap ≤ newSize + p.elemSize by omega, hmax⟩
  refine ⟨_, ?_, hresized⟩
  unfold resizeBuffer
  rw [assertume_pos hinv, assertume_pos hlt.le]
  simp only [if_neg (show ¬p.maxCap ≤ newSize by omega)]
  rw [if_neg (by omega), assertume_pos hmalloc, h.copyPipeIntoNewBuf_eq hbuf, Option.bind_some,
    assertume_pos (by omega)]
  exact assertume_pos hcheck _

/-- The buffer cannot grow to the maximum, nor beyond what `malloc` returns. -/
theorem resizeBuffer_none (h : p.Formed) (hbuf : p.buffer = some cells)
    (hinv : p.checkInvariants = true) {newSize : Nat} (hle : p.bytesInUse ≤ newSize)
    (hmin : p.minCap < newSize) (hmax : p.minCap < p.maxCap)
    (hbig : heap.malloc p.mallocs (newSize + p.elemSize) = false ∨
      p.maxCap < newSize + p.elemSize) :
    p.resizeBuffer heap newSize = none := by
  have hpos := h.pos
  obtain ⟨size, hsize⟩ : ∃ n, n = if p.maxCap ≤ newSize then p.maxCap else newSize := ⟨_, rfl⟩
  have hcase : p.minCap < size ∧ (heap.malloc p.mallocs (size + p.elemSize) = false ∨
      p.maxCap < size + p.elemSize) := by
    split at hsize
    · exact ⟨by omega, .inr (by omega)⟩
    · exact hsize ▸ ⟨hmin, hbig⟩
  unfold resizeBuffer
  rw [assertume_pos hinv, assertume_pos hle]
  simp only [← hsize]
  rw [if_neg (by omega), h.copyPipeIntoNewBuf_eq hbuf, Option.bind_some]
  rcases hcase.2 with hfails | hover
  · exact assertume_neg (by simp [hfails]) _
  · unfold assertume
    split
    · split
      · rw [if_neg]
        intro hcheck
        have hcap := capacity_le_of_checkInvariants hcheck rfl
        have hcap : size + p.elemSize - p.elemSize + p.elemSize ≤ p.maxCap := hcap
        omega
      · rfl
    · rfl

end Formed

end Pipe

/-! ## The sizes of the buffer -/

theorem nextPow2_eq {n : Nat} (h : n < 2 ^ 63) : nextPow2 n = 2 ^ (n - 1).size := by
  have hsize : (n - 1).size ≤ 2 ^ 6 := by
    rw [Nat.size_le]
    omega
  have heq := (Smears.foldl (n - 1) 6).eq_of_size_le hsize
  rw [show (List.range 6).map (2 ^ ·) = [1, 2, 4, 8, 16, 32] by decide] at heq
  unfold nextPow2
  rw [if_neg (by omega), heq, Nat.sub_add_cancel Nat.one_le_two_pow]

theorem le_nextPow2 (n : Nat) : n ≤ nextPow2 n := by
  by_cases h : n < 2 ^ 63
  · have hlt := Nat.lt_size_self (n - 1)
    rw [nextPow2_eq h]
    omega
  · unfold nextPow2
    rw [if_pos (by omega)]

/-- From 33 on the next power of two has at least 6 zeros. -/
theorem nextPow2_of_large {n : Nat} (hlow : 32 < n) (h : n < 2 ^ 63) :
    ∃ k, 6 ≤ k ∧ nextPow2 n = 2 ^ k := by
  refine ⟨(n - 1).size, ?_, nextPow2_eq h⟩
  have hsize : 5 < (n - 1).size := Nat.lt_size.2 (by omega)
  omega

namespace Pipe

variable {p p' : Pipe β} {cells : Nat → β} {elems : List β} {n : Nat} {heap : Heap β}

/-- The buffer has its first size, with the sentinel in it, or that of a power of two and a sentinel;
it is within its bounds. -/
structure Sized (p : Pipe β) : Prop extends p.Formed where
  first_le : DEFAULT_MINCAP * p.elemSize ≤ p.minCap
  min_le : p.minCap ≤ p.bufend
  le_max : p.bufend ≤ p.maxCap
  power : p.bufend = DEFAULT_MINCAP * p.elemSize ∨
    ∃ k, 6 ≤ k ∧ p.bufend = 2 ^ k * p.elemSize + p.elemSize

/-- The size of the buffer in which there is room for `n` bytes more. -/
def needs (p : Pipe β) (n : Nat) : Nat :=
  nextPow2 ((p.bytesInUse + n) / p.elemSize + 1) * p.elemSize + p.elemSize

/-- A push of `n` bytes needs a larger buffer, beyond the maximum or what `malloc` returns. -/
def growFails (heap : Heap β) (p : Pipe β) (n : Nat) : Bool :=
  p.capacity < p.bytesInUse + n && (p.maxCap < p.needs n || !heap.malloc p.mallocs (p.needs n))

/-- With `n` bytes left `trim_buffer` halves the buffer, and `malloc` does not return one. -/
def shrinkFails (heap : Heap β) (p : Pipe β) (n : Nat) : Bool :=
  n ≤ p.capacity / 4 && p.minCap < p.capacity / 2 &&
    !heap.malloc p.mallocs (p.capacity / 2 + p.elemSize)

namespace Sized

/-- Only the sizes and the pointers count. -/
theorem congr (h : p.Sized) (helem : p'.elemSize = p.elemSize) (hmin : p'.minCap = p.minCap)
    (hmax : p'.maxCap = p.maxCap) (hsize : p'.bufend = p.bufend)
    (hbegin : p'.beginPtr = p.beginPtr) (hend : p'.endPtr = p.endPtr) : p'.Sized := by
  refine ⟨⟨?_, ?_, ?_, ?_, ?_, ?_⟩, ?_, ?_, ?_, ?_⟩
  · exact helem ▸ h.pos
  · exact helem ▸ hsize ▸ h.size
  · exact helem ▸ hbegin ▸ h.begins
  · exact helem ▸ hend ▸ h.ends
  · exact hbegin ▸ hsize ▸ h.begin_lt
  · exact hend ▸ hsize ▸ h.end_lt
  · exact helem ▸ hmin ▸ h.first_le
  · exact hmin ▸ hsize ▸ h.min_le
  · exact hsize ▸ hmax ▸ h.le_max
  · exact hsize ▸ helem ▸ h.power

theorem check (h : p.Sized) (hbuf : p.buffer = some cells) (hc : 0 < p.consumerRefcount) :
    p.checkInvariants = true :=
  (h.checkInvariants_iff hbuf hc).2 ⟨h.first_le, h.min_le.trans h.le_max, h.min_le, h.le_max⟩

/-- A new buffer of a good size. -/
theorem resized (h : p.Sized) {newSize : Nat} (hr : Resized p p' newSize)
    (hpower : ∃ k, 6 ≤ k ∧ newSize = 2 ^ k * p.elemSize) (hmin : p.minCap < newSize)
    (hmax : newSize + p.elemSize ≤ p.maxCap) : p'.Sized := by
  obtain ⟨cells', rfl⟩ := hr.eq
  obtain ⟨k, hk, rfl⟩ := hpower
  exact ⟨hr.formed, h.first_le, le_of_lt (hmin.trans_le (Nat.le_add_right _ _)), hmax,
    .inr ⟨k, hk, rfl⟩⟩

/-- `validate_size` makes room, up to the maximum and what `malloc` returns. -/
theorem validateSize (h : p.Sized) (hbuf : p.buffer = some cells)
    (hc : 0 < p.consumerRefcount) (hdvd : p.elemSize ∣ n)
    (hgrow : p.capacity < p.bytesInUse + n) (hmax : p.minCap < p.maxCap) :
    (p.validateSize heap n = none ∧ p.growFails heap n = true) ∨
      ∃ p' size, p.validateSize heap n = some p' ∧ p.growFails heap n = false ∧
        Resized p p' size ∧ p'.Sized ∧ p.bytesInUse + n ≤ p'.capacity := by
  have hpos := h.pos
  have huse := h.dvd_inUse
  obtain ⟨m, hm⟩ : p.elemSize ∣ p.bytesInUse + n := Nat.dvd_add huse hdvd
  obtain ⟨size, hsize⟩ : ∃ a, a = nextPow2 (m + 1) := ⟨_, rfl⟩
  have hcap : p.bufend ≤ p.bytesInUse + n := by
    have hle := add_le_of_multiples (e := p.elemSize) (a := p.capacity) ?_
      (Nat.dvd_add huse hdvd) hgrow
    · unfold capacity at hle
      have hbe := h.begin_le
      omega
    · exact Nat.dvd_sub h.size (Nat.dvd_refl _)
  have hdiv : (p.bytesInUse + n) / p.elemSize = m := by
    rw [hm, Nat.mul_div_cancel_left m hpos]
  have hmsize : m + 1 ≤ size := hsize ▸ le_nextPow2 (m + 1)
  have hbytes : p.bytesInUse + n + p.elemSize ≤ size * p.elemSize := by
    rw [hm, Nat.mul_comm p.elemSize m, ← Nat.succ_mul]
    exact Nat.mul_le_mul_right _ hmsize
  have hneeds : p.needs n = size * p.elemSize + p.elemSize := by
    unfold needs
    rw [hdiv, hsize]
  have heq : p.validateSize heap n = p.resizeBuffer heap (size * p.elemSize) := by
    unfold Pipe.validateSize
    rw [if_pos hgrow, hdiv, hsize]
  have hmin := h.min_le
  unfold growFails
  rw [heq, hneeds]
  by_cases hfits : size * p.elemSize + p.elemSize ≤ p.maxCap ∧
      heap.malloc p.mallocs (size * p.elemSize + p.elemSize) = true
  · right
    obtain ⟨hbm, hmalloc⟩ := hfits
    have hbl := heap.small _ _ hmalloc
    obtain ⟨p', hp', hr⟩ := h.resizeBuffer_some hbuf hc (h.check hbuf hc)
      (Nat.dvd_mul_left _ _) (by omega) (by omega) hmalloc hbm
    have hpower : ∃ k, 6 ≤ k ∧ size = 2 ^ k := by
      rw [hsize]
      have hfirst := h.first_le.trans hmin
      have hm32 : 32 ≤ m := by
        have hmul : p.elemSize * 32 ≤ p.elemSize * m := by
          unfold DEFAULT_MINCAP at hfirst
          omega
        exact Nat.le_of_mul_le_mul_left hmul hpos
      refine nextPow2_of_large (by omega) ?_
      have hle : size ≤ size * p.elemSize := Nat.le_mul_of_pos_right _ hpos
      omega
    obtain ⟨k, hk, hsizek⟩ := hpower
    refine ⟨p', size * p.elemSize, hp', ?_, hr,
      h.resized hr ⟨k, hk, by rw [hsizek]⟩ (by omega) hbm, ?_⟩
    · simp [hmalloc, hbm]
    obtain ⟨cells', rfl⟩ := hr.eq
    show p.bytesInUse + n ≤ size * p.elemSize + p.elemSize - p.elemSize
    omega
  · left
    have hcase : heap.malloc p.mallocs (size * p.elemSize + p.elemSize) = false ∨
        p.maxCap < size * p.elemSize + p.elemSize := by
      rw [not_and_or, not_le, Bool.not_eq_true] at hfits
      exact hfits.symm
    refine ⟨h.resizeBuffer_none hbuf (h.check hbuf hc) (by omega) (by omega) hmax hcase, ?_⟩
    rcases hcase with hfails | hover
    · simp [hgrow, hfails]
    · simp [hgrow, hover]

variable (heap) in
/-- `trim_buffer` halves the buffer or leaves it. -/
theorem trimBuffer (h : p.Sized) (hbuf : p.buffer = some cells) (hc : 0 < p.consumerRefcount) :
    (p.trimBuffer heap = none ∧ p.shrinkFails heap p.bytesInUse = true) ∨
      ∃ p', p.trimBuffer heap = some p' ∧ p.shrinkFails heap p.bytesInUse = false ∧
        (p' = p ∨ ∃ size, Resized p p' size ∧ p'.Sized) := by
  have hpos := h.pos
  have hfirst := h.first_le
  have hcheck := h.check hbuf hc
  unfold Pipe.trimBuffer shrinkFails
  by_cases hquarter : p.capacity / 4 < p.bytesInUse
  · right
    rw [if_pos hquarter]
    have hno : ¬p.bytesInUse ≤ p.capacity / 4 := by omega
    exact ⟨p, rfl, by simp [hno], .inl rfl⟩
  · rw [if_neg hquarter]
    by_cases hsmall : p.capacity / 2 ≤ p.minCap
    · right
      have hno : ¬p.minCap < p.capacity / 2 := by omega
      exact ⟨p, resizeBuffer_small hcheck (by omega) (by omega), by simp [hno], .inl rfl⟩
    · have hcap : p.capacity = p.bufend - p.elemSize := rfl
      have hmax := h.le_max
      cases hmalloc : heap.malloc p.mallocs (p.capacity / 2 + p.elemSize) with
      | false =>
        left
        have hle : p.bytesInUse ≤ p.capacity / 4 := by omega
        have hlt : p.minCap < p.capacity / 2 := by omega
        exact ⟨h.resizeBuffer_none hbuf hcheck (by omega) hlt (by omega) (.inl hmalloc),
          by simp [hle, hlt]⟩
      | true =>
        right
        rcases h.power with hbufend | ⟨k, hk, hbufend⟩
        · unfold DEFAULT_MINCAP at hfirst hbufend
          omega
        · have hk6 : 6 < k := by
            by_contra hle
            obtain rfl : k = 6 := by omega
            unfold DEFAULT_MINCAP at hfirst
            omega
          have hhalf : p.capacity / 2 = 2 ^ (k - 1) * p.elemSize := by
            obtain ⟨j, rfl⟩ := Nat.exists_eq_add_of_lt hk6
            rw [hcap, hbufend, Nat.add_sub_cancel, show 6 + j + 1 - 1 = 6 + j by omega, Nat.pow_succ,
              Nat.mul_right_comm, Nat.mul_div_cancel _ (by omega)]
          rw [hhalf] at hsmall hmalloc ⊢
          have hfits : 2 ^ (k - 1) * p.elemSize + p.elemSize ≤ p.bufend := by omega
          obtain ⟨p', hp', hr⟩ := h.resizeBuffer_some hbuf hc hcheck (Nat.dvd_mul_left _ _)
            (by omega) (by omega) hmalloc (hfits.trans hmax)
          exact ⟨p', hp', by simp, .inr ⟨_, hr,
            h.resized hr ⟨k - 1, by omega, rfl⟩ (by omega) (hfits.trans hmax)⟩⟩

/-- Elements are appended. -/
theorem push (h : p.Sized) (hbuf : p.buffer = some cells) (hne : elems.length ≠ 0)
    (hdvd : p.elemSize ∣ elems.length) (hroom : p.bytesInUse + elems.length ≤ p.capacity) :
    ∃ cells' endPtr, let p' := { p with buffer := some cells', endPtr := endPtr }
      p.processPush elems = some p' ∧ p'.Sized ∧
        p'.bytesInUse = p.bytesInUse + elems.length ∧ p'.contents = p.contents ++ elems := by
  have hpos := h.pos
  have hb := h.begin_lt
  have huse := h.inUse_le
  have hbe := h.begin_le
  obtain ⟨cells', hpush, hring⟩ := h.processPush_eq hbuf hne hroom
  unfold capacity at hroom
  have hinUse : bytesInUse { p with
      buffer := some cells', endPtr := (p.endPtr + elems.length) % p.bufend } =
        p.bytesInUse + elems.length := by
    refine bytesInUse_eq hpos hb ?_ ?_
    · show p.bytesInUse + elems.length + p.elemSize ≤ p.bufend
      omega
    · show (p.endPtr + elems.length) % p.bufend = _
      rw [h.end_eq, Nat.mod_add_mod, Nat.add_assoc]
  refine ⟨cells', _, hpush, ⟨⟨hpos, h.size, h.begins, ?_, hb, ?_⟩, h.first_le, h.min_le, h.le_max,
    h.power⟩, hinUse, ?_⟩
  · exact (Nat.dvd_mod_iff h.size).2 (Nat.dvd_add h.ends hdvd)
  · exact Nat.mod_lt _ (by omega)
  · rw [← hring, ← hinUse]
    rfl

/-- The first bytes are taken. -/
theorem pop (h : p.Sized) (hbuf : p.buffer = some cells) (hn : n ≤ p.bytesInUse)
    (hdvd : p.elemSize ∣ n) :
    ∃ elems beginPtr, let p' := { p with beginPtr := beginPtr }
      p.popWithoutLocking n = some (elems, beginPtr) ∧ p'.Sized ∧
        p'.bytesInUse = p.bytesInUse - n ∧ p.contents = elems ++ p'.contents ∧
        elems.length = n := by
  have hpos := h.pos
  have hb := h.begin_lt
  have huse := h.inUse_le
  have hmod : (p.beginPtr + n) % p.bufend < p.bufend := Nat.mod_lt _ (by omega)
  have hinUse : bytesInUse { p with beginPtr := (p.beginPtr + n) % p.bufend } = p.bytesInUse - n := by
    refine bytesInUse_eq hpos hmod ?_ ?_
    · show p.bytesInUse - n + p.elemSize ≤ p.bufend
      omega
    · show p.endPtr = ((p.beginPtr + n) % p.bufend + p.elemSize + (p.bytesInUse - n)) % p.bufend
      rw [Nat.add_assoc, Nat.mod_add_mod]
      exact h.end_eq.trans (congrArg (· % p.bufend) (by omega))
  refine ⟨_, _, h.popWithoutLocking_eq hbuf hn, ⟨⟨hpos, h.size, ?_, h.ends, hmod, h.end_lt⟩,
    h.first_le, h.min_le, h.le_max, h.power⟩, hinUse, ?_, length_ring⟩
  · exact (Nat.dvd_mod_iff h.size).2 (Nat.dvd_add h.begins hdvd)
  · have hbehind : ring cells p.bufend ((p.beginPtr + n) % p.bufend + p.elemSize)
        (p.bytesInUse - n) = ring cells p.bufend (p.beginPtr + p.elemSize + n) (p.bytesInUse - n) := by
      rw [← ring_mod, Nat.mod_add_mod, ring_mod, Nat.add_right_comm]
    have hleft : contents { p with beginPtr := (p.beginPtr + n) % p.bufend } =
        ring cells p.bufend ((p.beginPtr + n) % p.bufend + p.elemSize) (p.bytesInUse - n) := by
      rw [← hinUse]
      exact contents_eq hbuf
    show p.contents = _ ++ contents { p with beginPtr := (p.beginPtr + n) % p.bufend }
    rw [hleft, hbehind, ← ring_add, Nat.add_sub_cancel' hn]
    exact contents_eq hbuf

end Sized

end Pipe

end Ptask.OneN
