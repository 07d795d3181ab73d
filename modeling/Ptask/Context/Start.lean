import Ptask.Context.Switch

/-!
# The first switch to a task

`swap_context` pops its jump target from the stack it switches to. For a task that was never switched
to, `fiber_create` has put `asm_taskmain` there, but only on a stack of the library; on any other
stack the word above the top is popped, which is not part of the stack.
-/

namespace Ptask.Context

open Lib

/-! ## The way into a task -/

/-- The address that the `popq` of `swap_context` reads. -/
def Machine.popAddress (σ : Machine) (next : Word) : Word :=
  ((σ.call next).run (swapContext.take 2)).reg .rsp

/-- A call of `swap_context` pops a word of the stack, jumps to `asm_taskmain`, and from there to
`cpp_taskmain` with the task as its argument. -/
structure Begins (σ : Machine) (next : Word) (stack : Set Word)
    (theTask cppTaskmain asmTaskmain : Word) : Prop where
  inside : span (σ.popAddress next) 8 ⊆ stack
  target : (σ.swap next).rip = asmTaskmain
  entry : ((σ.swap next).run Context.asmTaskmain).rip = cppTaskmain
  argument : ((σ.swap next).run Context.asmTaskmain).reg .rdi = theTask

theorem Machine.popAddress_eq (σ : Machine) (next : Word) : σ.popAddress next =
    ((σ.mem.store64 (σ.reg .rsp - 8) next).store64 (σ.reg .rdi + 0x28) (σ.reg .rsp - 8)).load64
      (σ.reg .rsi + 0x28) := by
  simp [popAddress, run, swapContext, exec, setReg, store, call]

/-! ## Switching to a task without writing to its memory -/

/-- What the call of `swap_context` writes, it writes outside `p`: the registers to the save area of
its first argument and the return address to the word below the stack pointer. -/
def Machine.Spares (σ : Machine) (p : Set Word) : Prop :=
  ∀ x ∈ p, x ∉ area (σ.reg .rdi) ∧ x ∉ span (σ.reg .rsp - 8) 8

section

variable {σ : Machine} {next theTask cppTaskmain asmTaskmain top base : Word} {stack p q : Set Word}
  {m₀ : Memory} {n : Nat}

theorem Machine.Spares.mono (h : σ.Spares p) (hq : q ⊆ p) : σ.Spares q := fun x hx => h x (hq hx)

/-- The stack pointer of the target is read as the target left it. -/
theorem Machine.Spares.popAddress (h : σ.Spares (area (σ.reg .rsi))) :
    σ.popAddress next = σ.mem.load64 (σ.reg .rsi + 0x28) := by
  rw [Machine.popAddress_eq]
  apply load64_congr
  intro x hx
  obtain ⟨harea, hpush⟩ := h x (slot_subset (by decide) hx)
  rw [store64_of_not_mem fun h => harea (slot_subset (by decide) h), store64_of_not_mem hpush]

theorem frame_startFrame {a : Word}
    (h : σ.frame = startFrame m₀ a theTask cppTaskmain asmTaskmain top) :
    σ.rip = asmTaskmain ∧ σ.reg .r12 = theTask ∧ σ.reg .r15 = cppTaskmain :=
  ⟨congrArg Frame.rip h, congrArg Frame.r12 h, congrArg Frame.r15 h⟩

/-- A stack of the library: the start address is popped from the word below the top. -/
theorem Holds.begins
    (h : Holds σ.mem (σ.reg .rsi)
      (startFrame m₀ (σ.reg .rsi) theTask cppTaskmain asmTaskmain top))
    (hroom : span (top - 8) 8 ⊆ stack) (hspare : σ.Spares (area (σ.reg .rsi) ∪ stack)) :
    Begins σ next stack theTask cppTaskmain asmTaskmain := by
  have hframe : (σ.swap next).frame =
      startFrame m₀ (σ.reg .rsi) theTask cppTaskmain asmTaskmain top :=
    Machine.swap_restores h (hspare.mono (Set.union_subset_union_right _ hroom))
  obtain ⟨hrip, hr12, hr15⟩ := frame_startFrame hframe
  obtain ⟨hentry, hargument⟩ := run_asmTaskmain (σ.swap next)
  refine ⟨?_, hrip, hentry.trans hr15, hargument.trans hr12⟩
  rw [(hspare.mono Set.subset_union_left).popAddress, h.rsp]
  exact hroom

/-- Any other stack: the word that is popped lies above the top. -/
theorem not_begins (h : σ.mem.load64 (σ.reg .rsi + 0x28) = base + BitVec.ofNat 64 n)
    (hn : n < 2 ^ 64) (hspare : σ.Spares (area (σ.reg .rsi))) :
    ¬Begins σ next (span base n) theTask cppTaskmain asmTaskmain := by
  intro hbegins
  have htop := hbegins.inside
  rw [hspare.popAddress, h] at htop
  have hmem : (base + BitVec.ofNat 64 n - base).toNat < n := htop (by
    show (base + BitVec.ofNat 64 n - (base + BitVec.ofNat 64 n)).toNat < 8
    rw [BitVec.sub_self]
    decide)
  rw [BitVec.add_comm, BitVec.add_sub_cancel, BitVec.toNat_ofNat, Nat.mod_eq_of_lt hn] at hmem
  exact absurd hmem (lt_irrefl n)

/-! ## A task that was just created -/

/-- The word below the top of a stack. -/
theorem below_top_subset (hn : 8 ≤ n) (hn' : n < 2 ^ 64) :
    span (base + BitVec.ofNat 64 n - 8) 8 ⊆ span base n := by
  have hsplit : base + BitVec.ofNat 64 n - 8 = base + BitVec.ofNat 64 (n - 8) := by bv_omega
  rw [hsplit]
  apply span_add_subset
  · rw [BitVec.toNat_ofNat, Nat.mod_eq_of_lt (by omega)]
    omega
  · omega

/-- The stack pointer of a task that does not start on a stack of the library. -/
theorem load64_fiberCreateRegs {a : Word} :
    (fiberCreateRegs m₀ a theTask cppTaskmain asmTaskmain top false).load64 (a + 0x28) = top := by
  simp only [fiberCreateRegs, Bool.false_eq_true, if_false, load64_store64_self]

end

end Ptask.Context
