import Ptask.Context.Machine

/-!
# One switch

What `swap_context` leaves of the task that calls it: its callee-saved registers and its stack
pointer in the save area, its return address in the word below the stack pointer of the call. The
pair is read back by the next `swap_context` to that task. `fiber_create` prepares a save area and
a stack that look as if a task had left them.
-/

namespace Ptask.Context

open Lib

/-! ## Saved frames -/

/-- The save area at `a` and the word on the stack hold the frame: `reg_rsp` points at the return
address, one word below the stack pointer before the call. -/
structure Holds (m : Memory) (a : Word) (f : Frame) : Prop where
  rsp : m.load64 (a + 0x28) = f.rsp - 8
  rip : m.load64 (f.rsp - 8) = f.rip
  rbx : m.load64 (a + 0x30) = f.rbx
  rbp : m.load64 (a + 0x38) = f.rbp
  r12 : m.load64 (a + 0x00) = f.r12
  r13 : m.load64 (a + 0x08) = f.r13
  r14 : m.load64 (a + 0x10) = f.r14
  r15 : m.load64 (a + 0x18) = f.r15

/-- The register save area `FibCTX`. -/
def area (a : Word) : Set Word := span a 64

section

variable {m m' : Memory} {a b : Word} {f g : Frame}

theorem slot_subset {o : Word} (h : o.toNat + 8 ≤ 64) : span (a + o) 8 ⊆ area a :=
  span_add_subset h (by omega)

theorem Holds.congr (h : Holds m a f)
    (hm : ∀ x ∈ area a ∪ span (f.rsp - 8) 8, m' x = m x) : Holds m' a f := by
  have hslot {o : Word} (ho : o.toNat + 8 ≤ 64) : m'.load64 (a + o) = m.load64 (a + o) := by
    apply load64_congr
    intro x hx
    exact hm x (Or.inl (slot_subset ho hx))
  have hword : m'.load64 (f.rsp - 8) = m.load64 (f.rsp - 8) := by
    apply load64_congr
    intro x hx
    exact hm x (Or.inr hx)
  constructor
  · rw [hslot (by decide), h.rsp]
  · rw [hword, h.rip]
  · rw [hslot (by decide), h.rbx]
  · rw [hslot (by decide), h.rbp]
  · rw [hslot (by decide), h.r12]
  · rw [hslot (by decide), h.r13]
  · rw [hslot (by decide), h.r14]
  · rw [hslot (by decide), h.r15]

/-- The stores of `swap_context` stay inside its save area. -/
theorem saveMem_of_not_mem {x : Word} (h : x ∉ area a) : saveMem m a f x = m x := by
  have hslot {o : Word} (ho : o.toNat + 8 ≤ 64) : x ∉ span (a + o) 8 :=
    fun hx => h (slot_subset ho hx)
  unfold saveMem
  rw [store64_of_not_mem (hslot (by decide)), store64_of_not_mem (hslot (by decide)),
    store64_of_not_mem (hslot (by decide)), store64_of_not_mem (hslot (by decide)),
    store64_of_not_mem (hslot (by decide)), store64_of_not_mem (hslot (by decide)),
    store64_of_not_mem (hslot (by decide))]

theorem load64_saveMem_of_disjoint (h : Disjoint (span b 8) (area a)) :
    (saveMem m a f).load64 b = m.load64 b := by
  apply load64_congr
  intro x hx
  exact saveMem_of_not_mem (Set.disjoint_left.1 h hx)

/-- Two slots of one save area. -/
theorem load64_store64_slot {o o' v : Word} (h : o.toNat + 8 ≤ o'.toNat ∨ o'.toNat + 8 ≤ o.toNat)
    (ho : o.toNat + 8 ≤ 64) (ho' : o'.toNat + 8 ≤ 64) :
    (m.store64 (a + o') v).load64 (a + o) = m.load64 (a + o) := by
  apply load64_store64_of_disjoint
  rcases h with h | h
  · exact disjoint_span_add h (by omega)
  · exact (disjoint_span_add h (by omega)).symm

/-- What `swap_context` stores is held, once the return address lies outside the save area. -/
theorem holds_saveMem (hrip : m.load64 f.rsp = f.rip) (hdisj : Disjoint (span f.rsp 8) (area a)) :
    Holds (saveMem m a f) a { f with rsp := f.rsp + 8 } := by
  have hsp : f.rsp + 8 - 8 = f.rsp := BitVec.add_sub_cancel f.rsp 8
  constructor
  · simp (disch := decide) only [saveMem, load64_store64_slot, load64_store64_self, hsp]
  · rw [hsp, load64_saveMem_of_disjoint hdisj, hrip]
  all_goals simp (disch := decide) only [saveMem, load64_store64_slot, load64_store64_self]

end

/-! ## The call -/

/-- `swap_context(from, to)` as the caller sees it, with the arguments in `rdi` and `rsi`. -/
def Machine.swap (σ : Machine) (next : Word) : Machine := (σ.call next).run swapContext

namespace Machine

variable {σ : Machine} {next : Word} {f : Frame}

@[simp] theorem call_rdi : (σ.call next).reg .rdi = σ.reg .rdi := by simp [call, setReg, store]

@[simp] theorem call_rsi : (σ.call next).reg .rsi = σ.reg .rsi := by simp [call, setReg, store]

@[simp] theorem call_rsp : (σ.call next).reg .rsp = σ.reg .rsp - 8 := by simp [call, setReg, store]

theorem call_frame : (σ.call next).frame = { σ.frame with rsp := σ.reg .rsp - 8 } := by
  simp [frame, call, setReg, store]

theorem call_mem : (σ.call next).mem = σ.mem.store64 (σ.reg .rsp - 8) next := rfl

/-- Outside the own save area and the pushed word the memory is as before. -/
theorem swap_mem_of_not_mem {x : Word} (ha : x ∉ area (σ.reg .rdi))
    (hs : x ∉ span (σ.reg .rsp - 8) 8) : (σ.swap next).mem x = σ.mem x := by
  unfold swap
  rw [run_swapContext_mem, call_rdi, saveMem_of_not_mem ha, call_mem, store64_of_not_mem hs]

/-- **A task that leaves is held by its save area**, with the return address of its call. -/
theorem swap_holds (hdisj : Disjoint (span (σ.reg .rsp - 8) 8) (area (σ.reg .rdi))) :
    Holds (σ.swap next).mem (σ.reg .rdi) { σ.frame with rip := next } := by
  have hrip : (σ.call next).mem.load64 (σ.reg .rsp - 8) = next := by
    rw [call_mem, load64_store64_self]
  have hsp : σ.reg .rsp - 8 + 8 = σ.reg .rsp := BitVec.sub_add_cancel _ 8
  have hsaved := holds_saveMem (f := { σ.frame with rip := next, rsp := σ.reg .rsp - 8 }) hrip hdisj
  rw [hsp] at hsaved
  unfold swap
  rw [run_swapContext_mem, call_rdi, call_frame]
  exact hsaved

/-- **A task that is held comes back**, with its registers as they were. -/
theorem swap_restores (hheld : Holds σ.mem (σ.reg .rsi) f)
    (hkept : ∀ x ∈ area (σ.reg .rsi) ∪ span (f.rsp - 8) 8,
      x ∉ area (σ.reg .rdi) ∧ x ∉ span (σ.reg .rsp - 8) 8) :
    (σ.swap next).frame = f := by
  have hsp : f.rsp - 8 + 8 = f.rsp := BitVec.sub_add_cancel _ 8
  -- The pushed word, the stored stack pointer and the other stores miss what is loaded.
  have hearly : Holds ((σ.call next).mem.store64 (σ.reg .rdi + 0x28) (σ.reg .rsp - 8))
      (σ.reg .rsi) f := by
    apply hheld.congr
    intro x hx
    obtain ⟨ha, hs⟩ := hkept x hx
    rw [store64_of_not_mem fun h => ha (slot_subset (by decide) h), call_mem,
      store64_of_not_mem hs]
  have hlate : Holds (saveMem (σ.call next).mem (σ.reg .rdi) (σ.call next).frame)
      (σ.reg .rsi) f := by
    apply hheld.congr
    intro x hx
    obtain ⟨ha, hs⟩ := hkept x hx
    rw [saveMem_of_not_mem ha, call_mem, store64_of_not_mem hs]
  unfold swap
  rw [run_swapContext_frame, call_rdi, call_rsi, call_rsp, hearly.rsp, hearly.rip, hsp, hlate.rbx,
    hlate.rbp, hlate.r12, hlate.r13, hlate.r14, hlate.r15]

end Machine

/-! ## A new task -/

/-- The part of `fiber_create` that prepares the save area and, on a stack of the library, the word
below its top. -/
def fiberCreateRegs (m : Memory) (a theTask cppTaskmain asmTaskmain top : Word)
    (systemStack : Bool) : Memory :=
  let m := m.store64 (a + 0x00) theTask
  let m := m.store64 (a + 0x18) cppTaskmain
  let m := m.store64 (a + 0x20) asmTaskmain
  if systemStack then
    let sp := top - 8
    let m := m.store64 sp (m.load64 (a + 0x20))
    m.store64 (a + 0x28) sp
  else
    m.store64 (a + 0x28) top

section

variable {m : Memory} {a theTask cppTaskmain asmTaskmain top : Word}

theorem fiberCreateRegs_of_not_mem {systemStack : Bool} {x : Word} (ha : x ∉ area a)
    (hs : x ∉ span (top - 8) 8) :
    fiberCreateRegs m a theTask cppTaskmain asmTaskmain top systemStack x = m x := by
  have hslot {o : Word} (ho : o.toNat + 8 ≤ 64) : x ∉ span (a + o) 8 :=
    fun hx => ha (slot_subset ho hx)
  unfold fiberCreateRegs
  cases systemStack with
  | false =>
    simp (disch := first | exact hslot (by decide)) only [store64_of_not_mem, Bool.false_eq_true,
      if_false]
  | true =>
    simp (disch := first | exact hs | exact hslot (by decide)) only [store64_of_not_mem, if_true]

/-- The frame a new task is switched to with. -/
def startFrame (m : Memory) (a theTask cppTaskmain asmTaskmain top : Word) : Frame where
  rip := asmTaskmain
  rsp := top
  rbx := m.load64 (a + 0x30)
  rbp := m.load64 (a + 0x38)
  r12 := theTask
  r13 := m.load64 (a + 0x08)
  r14 := m.load64 (a + 0x10)
  r15 := cppTaskmain

theorem fiberCreateRegs_holds (hdisj : Disjoint (span (top - 8) 8) (area a)) :
    Holds (fiberCreateRegs m a theTask cppTaskmain asmTaskmain top true) a
      (startFrame m a theTask cppTaskmain asmTaskmain top) := by
  have hword {v : Word} {m : Memory} {o : Word} (ho : o.toNat + 8 ≤ 64) :
      (m.store64 (top - 8) v).load64 (a + o) = m.load64 (a + o) :=
    load64_store64_of_disjoint (hdisj.symm.mono_left (slot_subset ho))
  have hslot {v : Word} {m : Memory} {o : Word} (ho : o.toNat + 8 ≤ 64) :
      (m.store64 (a + o) v).load64 (top - 8) = m.load64 (top - 8) :=
    load64_store64_of_disjoint (hdisj.mono_right (slot_subset ho))
  unfold fiberCreateRegs startFrame
  constructor <;>
    simp (disch := decide) only [if_true, load64_store64_self, hslot, hword, load64_store64_slot]

end

end Ptask.Context
