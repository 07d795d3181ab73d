import Mathlib.Data.Finset.Insert
import Ptask.Context.Switch

/-!
# Switching between tasks

Tasks with save areas and stacks of their own, one of them running. The running task may do
anything to the registers, to its own stack and to the memory that no suspended task owns; it makes
new tasks as `fiber_create` prepares them, and it leaves through `swap_context`. What a suspended
task left behind stays until it is switched to again, and then it is back in the registers.
-/

namespace Ptask.Context

open Lib

/-- Where the save areas and the stacks lie: all apart from each other. -/
structure Layout (τ : Type*) where
  ctx : τ → Word
  stack : τ → Set Word
  disjointAreas : Pairwise fun t u => Disjoint (area (ctx t)) (area (ctx u))
  disjointStacks : Pairwise fun t u => Disjoint (stack t) (stack u)
  apart : ∀ t u, Disjoint (area (ctx t)) (stack u)

/-- The machine, the running task and the tasks that wait to be switched to. -/
structure Sys (τ : Type*) where
  machine : Machine
  current : τ
  suspended : Finset τ
  running : current ∉ suspended

inductive Move (τ : Type*) where
  | compute
  | create (u : τ)
  | swap (dst : τ) (next : Word)
  | exit (dst : τ) (next : Word)

/-- The task a move switches to. -/
def Move.target {τ : Type*} : Move τ → Option τ
  | .swap dst _ | .exit dst _ => some dst
  | _ => none

section

variable {τ : Type*} (L : Layout τ)

def Layout.owned (t : τ) : Set Word := area (L.ctx t) ∪ L.stack t

theorem Layout.owned_disjoint {t u : τ} (h : t ≠ u) : Disjoint (L.owned t) (L.owned u) := by
  unfold Layout.owned
  rw [Set.disjoint_union_left, Set.disjoint_union_right, Set.disjoint_union_right]
  exact ⟨⟨L.disjointAreas h, L.apart t u⟩, (L.apart u t).symm, L.disjointStacks h⟩

variable [DecidableEq τ]

/-- The steps of the running task. Its save area is the first argument of its calls of
`swap_context`, except for the last one in `cpp_taskmain`, where it is a variable on its stack. -/
inductive Step : Sys τ → Move τ → Sys τ → Prop where
  | compute {s : Sys τ} {σ : Machine}
      (kept : ∀ u ∈ s.suspended, ∀ x ∈ L.owned u, σ.mem x = s.machine.mem x) :
      Step s .compute { s with machine := σ }
  | create {s : Sys τ} {u : τ} {theTask cppTaskmain asmTaskmain top : Word} {systemStack : Bool}
      (new : u ∉ insert s.current s.suspended) (room : span (top - 8) 8 ⊆ L.stack u) :
      Step s (.create u)
        { machine := { s.machine with
            mem := fiberCreateRegs s.machine.mem (L.ctx u) theTask cppTaskmain asmTaskmain top
              systemStack }
          current := s.current
          suspended := insert u s.suspended
          running := by
            have := s.running
            grind }
  | swap {s : Sys τ} {dst : τ} {next : Word} (parked : dst ∈ s.suspended)
      (source : s.machine.reg .rdi = L.ctx s.current) (dest : s.machine.reg .rsi = L.ctx dst)
      (room : span (s.machine.reg .rsp - 8) 8 ⊆ L.stack s.current) :
      Step s (.swap dst next)
        { machine := s.machine.swap next
          current := dst
          suspended := insert s.current (s.suspended.erase dst)
          running := by
            have := s.running
            grind }
  | exit {s : Sys τ} {dst : τ} {next : Word} (parked : dst ∈ s.suspended)
      (source : area (s.machine.reg .rdi) ⊆ L.stack s.current)
      (dest : s.machine.reg .rsi = L.ctx dst)
      (room : span (s.machine.reg .rsp - 8) 8 ⊆ L.stack s.current) :
      Step s (.exit dst next)
        { machine := s.machine.swap next
          current := dst
          suspended := s.suspended.erase dst
          running := by grind }

inductive Run : Sys τ → List (Move τ) → Sys τ → Prop where
  | nil {s : Sys τ} : Run s [] s
  | cons {s s₁ s₂ : Sys τ} {m : Move τ} {ms : List (Move τ)} (head : Step L s m s₁)
      (tail : Run s₁ ms s₂) : Run s (m :: ms) s₂

/-- `t` is suspended and will be switched to with the frame `f`. -/
structure Parked (t : τ) (f : Frame) (s : Sys τ) : Prop where
  mem : t ∈ s.suspended
  held : Holds s.machine.mem (L.ctx t) f
  room : span (f.rsp - 8) 8 ⊆ L.stack t

variable {L} {t : τ} {f : Frame} {s s' : Sys τ} {m : Move τ} {ms : List (Move τ)}

/-! ## What a step keeps -/

omit [DecidableEq τ] in
theorem Parked.owned (h : Parked L t f s) :
    area (L.ctx t) ∪ span (f.rsp - 8) 8 ⊆ L.owned t :=
  Set.union_subset_union_right _ h.room

/-- A step writes nothing that a task owns which stays suspended. -/
theorem Step.mem_kept (hstep : Step L s m s') (ht : t ∈ s.suspended) {x : Word}
    (hx : x ∈ L.owned t) : s'.machine.mem x = s.machine.mem x := by
  have hother {u : τ} (hu : t ≠ u) : x ∉ L.owned u := Set.disjoint_left.1 (L.owned_disjoint hu) hx
  have hcur : t ≠ s.current := fun h => s.running (h ▸ ht)
  cases hstep with
  | compute kept => exact kept t ht x hx
  | @create u _ _ _ top _ new room =>
    have hu : t ≠ u := fun h => new (Finset.mem_insert_of_mem (h ▸ ht))
    exact fiberCreateRegs_of_not_mem (fun h => hother hu (Or.inl h))
      fun h => hother hu (Or.inr (room h))
  | swap parked source dest room =>
    apply Machine.swap_mem_of_not_mem
    · rw [source]
      exact fun h => hother hcur (Or.inl h)
    · exact fun h => hother hcur (Or.inr (room h))
  | exit parked source dest room =>
    apply Machine.swap_mem_of_not_mem
    · exact fun h => hother hcur (Or.inr (source h))
    · exact fun h => hother hcur (Or.inr (room h))

theorem Step.suspended (hstep : Step L s m s') (ht : t ∈ s.suspended)
    (hm : m.target ≠ some t) : t ∈ s'.suspended := by
  cases hstep with
  | compute => exact ht
  | create => exact Finset.mem_insert_of_mem ht
  | @swap dst =>
    have hne : t ≠ dst := fun h => hm (congrArg some h.symm)
    exact Finset.mem_insert_of_mem (Finset.mem_erase.2 ⟨hne, ht⟩)
  | @exit dst =>
    have hne : t ≠ dst := fun h => hm (congrArg some h.symm)
    exact Finset.mem_erase.2 ⟨hne, ht⟩

theorem Parked.step (h : Parked L t f s) (hstep : Step L s m s') (hm : m.target ≠ some t) :
    Parked L t f s' where
  mem := hstep.suspended h.mem hm
  held := h.held.congr fun _ hx => hstep.mem_kept h.mem (h.owned hx)
  room := h.room

theorem Parked.run (h : Parked L t f s) (hrun : Run L s ms s')
    (hms : ∀ m ∈ ms, m.target ≠ some t) : Parked L t f s' := by
  induction hrun with
  | nil => exact h
  | cons head tail ih =>
    apply ih (h.step head (hms _ List.mem_cons_self))
    intro m hm
    exact hms m (List.mem_cons_of_mem _ hm)

/-! ## Leaving and coming back -/

/-- A task that calls `swap_context` is parked with its registers and the address after the call. -/
theorem Step.parked {dst : τ} {next : Word} (hstep : Step L s (.swap dst next) s') :
    Parked L s.current { s.machine.frame with rip := next } s' := by
  cases hstep with
  | swap parked source dest room =>
    have hdisj : Disjoint (span (s.machine.reg .rsp - 8) 8) (area (s.machine.reg .rdi)) := by
      rw [source]
      exact ((L.apart s.current s.current).mono_right room).symm
    refine ⟨Finset.mem_insert_self _ _, ?_, room⟩
    have hheld : Holds (s.machine.swap next).mem _ _ := Machine.swap_holds hdisj
    rw [source] at hheld
    exact hheld

theorem Parked.resumes (h : Parked L t f s) (hstep : Step L s m s') (hm : m.target = some t) :
    s'.current = t ∧ s'.machine.frame = f := by
  have hcur : t ≠ s.current := fun he => s.running (he ▸ h.mem)
  have hother {x : Word} (hx : x ∈ area (L.ctx t) ∪ span (f.rsp - 8) 8) : x ∉ L.owned s.current :=
    Set.disjoint_left.1 (L.owned_disjoint hcur) (h.owned hx)
  cases hstep with
  | compute => cases hm
  | create => cases hm
  | @swap dst next parked source dest room =>
    obtain rfl : dst = t := Option.some.inj hm
    refine ⟨rfl, Machine.swap_restores (dest ▸ h.held) ?_⟩
    intro x hx
    rw [dest] at hx
    rw [source]
    exact ⟨fun hx' => hother hx (Or.inl hx'), fun hx' => hother hx (Or.inr (room hx'))⟩
  | @exit dst next parked source dest room =>
    obtain rfl : dst = t := Option.some.inj hm
    refine ⟨rfl, Machine.swap_restores (dest ▸ h.held) ?_⟩
    intro x hx
    rw [dest] at hx
    exact ⟨fun hx' => hother hx (Or.inr (source hx')), fun hx' => hother hx (Or.inr (room hx'))⟩

/-- **A task comes back where it left.** Between a call of `swap_context` and the next switch to
its caller the other tasks compute, are created, switch and exit in any order; then the caller goes
on behind its call, with its stack pointer and its callee-saved registers as before the call. -/
theorem run_resumes {s₁ s₂ s₃ : Sys τ} {dst : τ} {next : Word}
    (hcall : Step L s (.swap dst next) s₁) (hrun : Run L s₁ ms s₂)
    (hms : ∀ m ∈ ms, m.target ≠ some s.current) (hback : Step L s₂ m s₃)
    (hm : m.target = some s.current) :
    s₃.current = s.current ∧ s₃.machine.rip = next ∧
      ∀ r ∈ [Reg.rsp, .rbx, .rbp, .r12, .r13, .r14, .r15],
        s₃.machine.reg r = s.machine.reg r := by
  obtain ⟨hcur, hframe⟩ := (hcall.parked.run hrun hms).resumes hback hm
  refine ⟨hcur, congrArg Frame.rip hframe, ?_⟩
  intro r hr
  simp only [List.mem_cons, List.not_mem_nil, or_false] at hr
  rcases hr with rfl | rfl | rfl | rfl | rfl | rfl | rfl
  · exact congrArg Frame.rsp hframe
  · exact congrArg Frame.rbx hframe
  · exact congrArg Frame.rbp hframe
  · exact congrArg Frame.r12 hframe
  · exact congrArg Frame.r13 hframe
  · exact congrArg Frame.r14 hframe
  · exact congrArg Frame.r15 hframe

end

/-! ## Two tasks -/

/-- Save areas side by side, each stack a page. -/
def twoTasks : Layout Bool where
  ctx u := if u then 0x1040 else 0x1000
  stack u := span (if u then 0x3000 else 0x2000) 0x1000
  disjointAreas := by
    intro t u htu
    cases t <;> cases u <;> first | exact absurd rfl htu | skip
    all_goals
      rw [Set.disjoint_left]
      simp only [area, span, Set.mem_ofPred_eq, Bool.false_eq_true, if_false, if_true]
      intro x
      bv_omega
  disjointStacks := by
    intro t u htu
    cases t <;> cases u <;> first | exact absurd rfl htu | skip
    all_goals
      rw [Set.disjoint_left]
      simp only [span, Set.mem_ofPred_eq, Bool.false_eq_true, if_false, if_true]
      intro x
      bv_omega
  apart := by
    intro t u
    rw [Set.disjoint_left]
    cases t <;> cases u <;>
      simp only [area, span, Set.mem_ofPred_eq, Bool.false_eq_true, if_false, if_true] <;>
      intro x <;> bv_omega

/-- The arguments of `swap_context` and the stack pointer of the caller. -/
def atCall (σ : Machine) (source dest sp : Word) : Machine :=
  ((σ.setReg .rdi source).setReg .rsi dest).setReg .rsp sp

def firstCall : Sys Bool where
  machine := atCall { reg := fun _ => 7, rip := 0, mem := fun _ => 0 } 0x1000 0x1040 0x2800
  current := false
  suspended := {true}
  running := by decide

/-- The first task calls, the second one puts its arguments into the registers and calls back. -/
theorem twoTasks_resumes :
    ∃ s₁ s₂ s₃, Step twoTasks firstCall (.swap true 0x401000) s₁ ∧
      Step twoTasks s₁ .compute s₂ ∧ Step twoTasks s₂ (.swap false 0x402000) s₃ ∧
      s₃.machine.rip = 0x401000 ∧ s₃.machine.reg .rsp = 0x2800 ∧ s₃.machine.reg .rbx = 7 := by
  have hroom {a b : Word} (h : (b - a).toNat + 8 ≤ 0x1000) : span b 8 ⊆ span a 0x1000 := by
    have := span_add_subset (a := a) h (by decide)
    rwa [BitVec.add_comm, BitVec.sub_add_cancel] at this
  obtain ⟨s₁, s₂, s₃, hcall, hcompute, hback⟩ :
      ∃ s₁ s₂ s₃, Step twoTasks firstCall (.swap true 0x401000) s₁ ∧
        Step twoTasks s₁ .compute s₂ ∧ Step twoTasks s₂ (.swap false 0x402000) s₃ :=
    ⟨_, _, _, .swap (by decide) rfl rfl (hroom (by decide)),
      .compute (σ := atCall (firstCall.machine.swap 0x401000) 0x1040 0x1000 0x3800)
        fun _ _ _ _ => rfl,
      .swap (by decide) rfl rfl (hroom (by decide))⟩
  refine ⟨s₁, s₂, s₃, hcall, hcompute, hback, ?_⟩
  obtain ⟨-, hrip, hreg⟩ := run_resumes hcall (.cons hcompute .nil) (by decide) hback rfl
  exact ⟨hrip, hreg .rsp (by decide), hreg .rbx (by decide)⟩

end Ptask.Context
