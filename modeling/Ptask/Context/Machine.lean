import Mathlib.Logic.Function.Basic
import Ptask.Lib.Memory

/-!
# The machine under the context switch

The registers that `context.S` names, the instructions it is written with, and the two routines
themselves, instruction by instruction. `rip` is the address of the next instruction; inside a
routine it is left alone, since both routines are straight-line code up to their last jump.
-/

namespace Ptask.Context

open Lib

abbrev Word := BitVec 64

inductive Reg where
  | rax | rdi | rsi | rsp | rbx | rbp | r12 | r13 | r14 | r15
  deriving DecidableEq, Repr

structure Machine where
  reg : Reg → Word
  rip : Word
  mem : Memory

/-- AT&T order: the source operand first. -/
inductive Instr where
  | store (src : Reg) (disp : Word) (base : Reg)
  | load (disp : Word) (base dst : Reg)
  | mov (src dst : Reg)
  | pop (dst : Reg)
  | jmp (target : Reg)
  deriving DecidableEq, Repr

namespace Machine

def setReg (σ : Machine) (r : Reg) (v : Word) : Machine :=
  { σ with reg := Function.update σ.reg r v }

def store (σ : Machine) (a v : Word) : Machine := { σ with mem := σ.mem.store64 a v }

def exec (σ : Machine) : Instr → Machine
  | .store src disp base => σ.store (σ.reg base + disp) (σ.reg src)
  | .load disp base dst => σ.setReg dst (σ.mem.load64 (σ.reg base + disp))
  | .mov src dst => σ.setReg dst (σ.reg src)
  | .pop dst => (σ.setReg .rsp (σ.reg .rsp + 8)).setReg dst (σ.mem.load64 (σ.reg .rsp))
  | .jmp target => { σ with rip := σ.reg target }

def run (σ : Machine) (is : List Instr) : Machine := is.foldl exec σ

/-- A call instruction: the return address goes onto the stack. -/
def call (σ : Machine) (next : Word) : Machine :=
  (σ.setReg .rsp (σ.reg .rsp - 8)).store (σ.reg .rsp - 8) next

end Machine

def asmTaskmain : List Instr := [
  .mov .r12 .rdi,
  .jmp .r15]

def swapContext : List Instr := [
  .store .rsp 0x28 .rdi,
  .load 0x28 .rsi .rsp,
  .pop .rax,
  .store .r12 0x00 .rdi,
  .store .r13 0x08 .rdi,
  .store .r14 0x10 .rdi,
  .store .r15 0x18 .rdi,
  .store .rbx 0x30 .rdi,
  .store .rbp 0x38 .rdi,
  .load 0x00 .rsi .r12,
  .load 0x08 .rsi .r13,
  .load 0x10 .rsi .r14,
  .load 0x18 .rsi .r15,
  .load 0x30 .rsi .rbx,
  .load 0x38 .rsi .rbp,
  .jmp .rax]

/-- What a task keeps across a call: where it goes on, its stack pointer and the callee-saved
registers. -/
structure Frame where
  rip : Word
  rsp : Word
  rbx : Word
  rbp : Word
  r12 : Word
  r13 : Word
  r14 : Word
  r15 : Word

def Machine.frame (σ : Machine) : Frame where
  rip := σ.rip
  rsp := σ.reg .rsp
  rbx := σ.reg .rbx
  rbp := σ.reg .rbp
  r12 := σ.reg .r12
  r13 := σ.reg .r13
  r14 := σ.reg .r14
  r15 := σ.reg .r15

/-- The memory after the stores of `swap_context`, for a save area at `a`. -/
def saveMem (m : Memory) (a : Word) (f : Frame) : Memory :=
  ((((((m.store64 (a + 0x28) f.rsp).store64 (a + 0x00) f.r12).store64 (a + 0x08) f.r13).store64
    (a + 0x10) f.r14).store64 (a + 0x18) f.r15).store64 (a + 0x30) f.rbx).store64 (a + 0x38) f.rbp

section

variable (σ : Machine)

/-- The stack pointer is stored before the target's is loaded, the other registers after. -/
theorem run_swapContext_mem :
    (σ.run swapContext).mem = saveMem σ.mem (σ.reg .rdi) σ.frame := by
  simp [Machine.run, swapContext, Machine.exec, Machine.setReg, Machine.store, saveMem,
    Machine.frame]

theorem run_swapContext_frame :
    let m₁ := σ.mem.store64 (σ.reg .rdi + 0x28) (σ.reg .rsp)
    let m₂ := saveMem σ.mem (σ.reg .rdi) σ.frame
    let sp := m₁.load64 (σ.reg .rsi + 0x28)
    (σ.run swapContext).frame =
      { rip := m₁.load64 sp
        rsp := sp + 8
        rbx := m₂.load64 (σ.reg .rsi + 0x30)
        rbp := m₂.load64 (σ.reg .rsi + 0x38)
        r12 := m₂.load64 (σ.reg .rsi + 0x00)
        r13 := m₂.load64 (σ.reg .rsi + 0x08)
        r14 := m₂.load64 (σ.reg .rsi + 0x10)
        r15 := m₂.load64 (σ.reg .rsi + 0x18) } := by
  simp [Machine.run, swapContext, Machine.exec, Machine.setReg, Machine.store, saveMem,
    Machine.frame]

theorem run_asmTaskmain :
    (σ.run asmTaskmain).rip = σ.reg .r15 ∧ (σ.run asmTaskmain).reg .rdi = σ.reg .r12 := by
  simp [Machine.run, asmTaskmain, Machine.exec, Machine.setReg]

end

end Ptask.Context
