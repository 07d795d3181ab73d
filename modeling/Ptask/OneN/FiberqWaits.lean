import Ptask.OneN.Fiberq

/-!
# Nobody sleeps while there is work

Every push and every pop signals one task. A task that was signalled finds its element or its room
taken when another one has come first, and then it waits again; but then nothing is left for those
who wait. So while a consumer waits, there are at least as many consumers that are signalled and
have not gone on as there are elements, and the same holds of producers and free cells.
-/

namespace Ptask.OneN

open Ptask.Lib

variable {α : Type*}

/-! ## Counting -/

theorem countP_update {τ : Type*} [DecidableEq τ] {l : List τ} {a : τ} (p p' : τ → Bool)
    (hl : l.Nodup) (ha : a ∈ l) (h : ∀ t, t ≠ a → p' t = p t) :
    l.countP p' + (if p a then 1 else 0) = l.countP p + if p' a then 1 else 0 := by
  have hrest : (l.erase a).countP p' = (l.erase a).countP p := by
    apply List.countP_congr
    intro t ht
    rw [h t (hl.mem_erase_iff.1 ht).1]
  have h1 := (List.perm_cons_erase ha).countP_eq p
  have h2 := (List.perm_cons_erase ha).countP_eq p'
  rw [List.countP_cons] at h1 h2
  omega

namespace FiberqSys

/-- The condition variables of the queue. -/
def owns (q : FiberqSys α) (i : CondId) : Prop := i = q.rbq.empt ∨ i = q.rbq.full

/-- The task is in an operation that waits on `i`. -/
def isInside (q : FiberqSys α) (i : CondId) (t : TaskId) : Bool :=
  (q.inside t).any fun op => op.waitsOn q.rbq = i

/-- The task is in an operation that waits on `i`, has been signalled and has not yet gone on. -/
def isSignalled (q : FiberqSys α) (i : CondId) (t : TaskId) : Bool :=
  q.isInside i t && t ∉ (q.sched.cond i).waitq

/-- How many tasks have been signalled on `i` and have not yet gone on. -/
def signalled (q : FiberqSys α) (i : CondId) : Nat := q.sched.live.countP (q.isSignalled i)

end FiberqSys

/-- What those who wait on `i` wait for: elements or free cells. -/
def Fiberq.available (rbq : Fiberq α) (i : CondId) : Nat :=
  if i = rbq.empt then rbq.ndat.toNat else rbq.size.toNat - rbq.ndat.toNat

/-- No task waits for what is there, unless as many have been signalled. -/
structure NoneStranded (q : FiberqSys α) : Prop where
  bounded : q.rbq.ndat ≤ q.rbq.size
  consumers : (q.sched.cond q.rbq.empt).waitq ≠ [] →
    q.rbq.ndat.toNat ≤ q.signalled q.rbq.empt
  producers : (q.sched.cond q.rbq.full).waitq ≠ [] →
    q.rbq.size.toNat - q.rbq.ndat.toNat ≤ q.signalled q.rbq.full
  /-- Those who wait on a condition variable of the queue are in an operation of the right kind. -/
  parked : ∀ i, q.owns i → ∀ t ∈ (q.sched.cond i).waitq, q.isInside i t = true
  /-- Those who are signalled are ready to run. -/
  ready : ∀ i t, q.isSignalled i t = true → t ∈ q.sched.readylist
  /-- Where something is there for those who wait, somebody is left to run and take it. -/
  left : ∀ i, q.owns i → (q.sched.cond i).waitq ≠ [] → 0 < q.rbq.available i →
    ∃ t ∈ q.sched.readylist, q.isSignalled i t = true

/-- The state that the runs keep. -/
structure Watched (b : Boot) (q : FiberqSys α) : Prop where
  sched : Sched.Inv b q.sched
  distinct : q.rbq.empt ≠ q.rbq.full
  bounded : q.rbq.ndat.toNat ≤ q.rbq.size.toNat
  live : ∀ t, q.inside t ≠ none → t ∈ q.sched.live
  place : ∀ t op, q.inside t = some op →
    t ∈ (q.sched.cond (op.waitsOn q.rbq)).waitq ∨ t ∈ q.sched.readylist
  parked : ∀ i, q.owns i → ∀ t ∈ (q.sched.cond i).waitq, q.isInside i t = true
  untimed : ∀ i, q.owns i → q.sched.Untimed i
  enough : ∀ i, q.owns i → (q.sched.cond i).waitq ≠ [] → q.rbq.available i ≤ q.signalled i

namespace Watched

variable {b : Boot} {q q' : FiberqSys α} {m : FiberqMove α} {op : FiberqOp α} {i : CondId}
  {t : TaskId}

theorem isInside_iff : q.isInside i t = true ↔ ∃ op, q.inside t = some op ∧ op.waitsOn q.rbq = i := by
  simp [FiberqSys.isInside, Option.any_eq_true]

theorem isSignalled_iff : q.isSignalled i t = true ↔
    q.isInside i t = true ∧ t ∉ (q.sched.cond i).waitq := by
  simp [FiberqSys.isSignalled]

theorem owns_waitsOn (op : FiberqOp α) : q.owns (op.waitsOn q.rbq) := by
  cases op with
  | push => exact .inr rfl
  | pop => exact .inl rfl

theorem live_of_signalled (h : Watched b q) (ht : q.isSignalled i t = true) : t ∈ q.sched.live := by
  obtain ⟨op, hop, -⟩ := isInside_iff.1 (isSignalled_iff.1 ht).1
  exact h.live t (by rw [hop]; simp)

theorem ready_of_signalled (h : Watched b q) (ht : q.isSignalled i t = true) :
    t ∈ q.sched.readylist := by
  obtain ⟨hin, hnot⟩ := isSignalled_iff.1 ht
  obtain ⟨op, hop, rfl⟩ := isInside_iff.1 hin
  exact (h.place t op hop).resolve_left hnot

theorem noneStranded (h : Watched b q) : NoneStranded q where
  bounded := UInt64.le_iff_toNat_le.2 h.bounded
  consumers hq := by
    have := h.enough _ (.inl rfl) hq
    rwa [Fiberq.available, if_pos rfl] at this
  producers hq := by
    have := h.enough _ (.inr rfl) hq
    rwa [Fiberq.available, if_neg h.distinct.symm] at this
  parked := h.parked
  ready i t ht := h.ready_of_signalled ht
  left i hi hq hpos := by
    obtain ⟨t, -, ht⟩ := List.countP_pos_iff.1 (hpos.trans_le (h.enough i hi hq))
    exact ⟨t, h.ready_of_signalled ht, ht⟩

/-! ## The other moves -/

theorem other (h : Watched b q) {m : Move} {s : Sched} (hp : q.permitted m = true)
    (hs : q.sched.step m = some s) : Watched b { q with sched := s } := by
  obtain ⟨⟨hcur, he⟩, hf⟩ : (((q.inside q.sched.currentTask).isNone = true ∨ ∃ us, m = .elapse us) ∧
      Sched.usesCond q.rbq.empt m = false) ∧ Sched.usesCond q.rbq.full m = false := by
    unfold FiberqSys.permitted at hp
    rw [Bool.and_eq_true, Bool.and_eq_true, Bool.not_eq_true', Bool.not_eq_true',
      Bool.or_eq_true] at hp
    obtain ⟨⟨hcur, he⟩, hf⟩ := hp
    refine ⟨⟨hcur.imp_right ?_, he⟩, hf⟩
    intro hm
    split at hm
    · exact ⟨_, rfl⟩
    · cases hm
  have huses (i : CondId) (hi : q.owns i) : Sched.usesCond i m = false := by
    rcases hi with rfl | rfl
    · exact he
    · exact hf
  have hcond (i : CondId) (hi : q.owns i) := h.sched.cond_step hs (huses i hi) (h.untimed i hi)
  have hready (t : TaskId) (ht : t ∈ q.sched.readylist) (hin : q.inside t ≠ none) :
      t ∈ s.readylist := by
    rcases hcur with hcur | ⟨us, rfl⟩
    · apply h.sched.ready_step hs ht
      rintro rfl
      exact hin (Option.isNone_iff_eq_none.1 hcur)
    · obtain rfl := Option.some.inj hs
      exact ht
  have hexit : m = .exit → q.inside q.sched.currentTask = none := by
    rintro rfl
    rcases hcur with hcur | ⟨us, hus⟩
    · exact Option.isNone_iff_eq_none.1 hcur
    · cases hus
  have hlive : ∀ t, q.inside t ≠ none → t ∈ s.live := by
    intro t ht
    refine (h.sched.countP_step hs (p := fun t => (q.inside t).isSome) ?_ ?_).2 t ?_
    · intro t ht
      exact h.live t (Option.isSome_iff_ne_none.1 ht)
    · intro he
      rw [hexit he]
      rfl
    · exact Option.isSome_iff_ne_none.2 ht
  have hsignalled (i : CondId) (hi : q.owns i) :
      ({ q with sched := s } : FiberqSys α).signalled i = q.signalled i := by
    have hsame : ({ q with sched := s } : FiberqSys α).isSignalled i = q.isSignalled i := by
      funext t
      show (_ && decide (t ∉ (s.cond i).waitq)) = _
      rw [(hcond i hi).1]
      rfl
    unfold FiberqSys.signalled
    rw [hsame]
    refine (h.sched.countP_step hs (fun t => h.live_of_signalled) ?_).1
    intro he
    unfold FiberqSys.isSignalled FiberqSys.isInside
    rw [hexit he]
    rfl
  refine ⟨h.sched.step hs, h.distinct, h.bounded, hlive, ?_, ?_, fun i hi => (hcond i hi).2, ?_⟩
  · intro t op hop
    rcases h.place t op hop with hq | hr
    · left
      show t ∈ (s.cond _).waitq
      rwa [(hcond _ (owns_waitsOn op)).1]
    · exact .inr (hready t hr (by rw [hop]; simp))
  · intro i hi t ht
    have ht : t ∈ (q.sched.cond i).waitq := (hcond i hi).1 ▸ ht
    exact h.parked i hi t ht
  · intro i hi hne
    rw [hsignalled i hi]
    exact h.enough i hi fun hnil => hne ((hcond i hi).1.trans hnil)

/-! ## The operations -/

/-- The current task is between two operations, or goes on with the operation `op`. -/
def MayRun (q : FiberqSys α) (op : FiberqOp α) : Prop :=
  q.inside q.sched.currentTask = none ∨ q.inside q.sched.currentTask = some op

theorem MayRun.not_inside (hcur : MayRun q op) (hi : i ≠ op.waitsOn q.rbq) :
    q.isInside i q.sched.currentTask = false := by
  unfold FiberqSys.isInside
  rcases hcur with hc | hc
  · rw [hc]
    rfl
  · rw [hc]
    simpa using hi.symm

theorem waitsOn_congr {rbq rbq' : Fiberq α} (he : rbq'.empt = rbq.empt)
    (hf : rbq'.full = rbq.full) (op : FiberqOp α) : op.waitsOn rbq' = op.waitsOn rbq := by
  cases op with
  | push => exact hf
  | pop => exact he

theorem isInside_congr (hin : q'.inside t = q.inside t) (he : q'.rbq.empt = q.rbq.empt)
    (hf : q'.rbq.full = q.rbq.full) : q'.isInside i t = q.isInside i t := by
  unfold FiberqSys.isInside
  rw [hin]
  congr 1
  funext op
  rw [waitsOn_congr he hf]

theorem mem_signalled_congr (hin : q'.isInside i t = q.isInside i t)
    (hq : t ∈ (q'.sched.cond i).waitq ↔ t ∈ (q.sched.cond i).waitq) :
    q'.isSignalled i t = q.isSignalled i t := by
  unfold FiberqSys.isSignalled
  rw [hin, decide_eq_decide.2 (not_congr hq)]

/-- The operation goes to sleep: nothing is there of what it waits for. -/
theorem wait (h : Watched b q) (hcur : MayRun q op) (hi : op.waitsOn q.rbq = i)
    (hnone : q.rbq.available i = 0)
    (hs : q.sched.step (.call (.condWait i)) = some q'.sched) (hrbq : q'.rbq = q.rbq)
    (hin : q'.inside = Function.update q.inside q.sched.currentTask (some op)) :
    Watched b q' := by
  obtain ⟨hne, hqueue, hlive, huntimed⟩ := h.sched.condWait_step hs
  have howns (k : CondId) : q'.owns k ↔ q.owns k := by rw [FiberqSys.owns, FiberqSys.owns, hrbq]
  have hother (k : CondId) (hk : q.owns k) (hki : i ≠ k) :=
    h.sched.cond_step hs (by simpa [Sched.usesCond] using hki) (h.untimed k hk)
  have hcurrent : q'.inside q.sched.currentTask = some op := by rw [hin, Function.update_self]
  have hrest {t : TaskId} (ht : t ≠ q.sched.currentTask) : q'.inside t = q.inside t := by
    rw [hin, Function.update_of_ne ht]
  have hinside {t : TaskId} (k : CondId) (ht : t ≠ q.sched.currentTask) :
      q'.isInside k t = q.isInside k t :=
    isInside_congr (hrest ht) (by rw [hrbq]) (by rw [hrbq])
  refine ⟨h.sched.step hs, hrbq ▸ h.distinct, hrbq ▸ h.bounded, ?_, ?_, ?_, ?_, ?_⟩
  · intro t ht
    rw [hlive]
    by_cases htc : t = q.sched.currentTask
    · exact htc ▸ h.sched.live
    · exact h.live t (hrest htc ▸ ht)
  · intro t op' hop'
    rw [hrbq]
    by_cases htc : t = q.sched.currentTask
    · subst htc
      obtain rfl := Option.some.inj (hcurrent.symm.trans hop')
      left
      rw [hi, hqueue]
      exact List.mem_append_right _ (List.mem_singleton.2 rfl)
    · rw [hrest htc] at hop'
      rcases h.place t op' hop' with hq | hr
      · left
        by_cases hk : i = op'.waitsOn q.rbq
        · rw [← hk] at hq ⊢
          rw [hqueue]
          exact List.mem_append_left _ hq
        · rwa [(hother _ (owns_waitsOn op') hk).1]
      · exact .inr (h.sched.ready_step hs hr htc)
  · intro k hk t ht
    rw [howns] at hk
    by_cases hki : i = k
    · subst hki
      rw [hqueue, List.mem_append, List.mem_singleton] at ht
      by_cases htc : t = q.sched.currentTask
      · rw [htc]
        exact isInside_iff.2 ⟨op, hcurrent, by rw [hrbq, hi]⟩
      · rw [hinside i htc]
        exact h.parked i hk t (ht.resolve_right htc)
    · rw [(hother k hk hki).1] at ht
      have htc : t ≠ q.sched.currentTask := by
        rintro rfl
        exact h.sched.idle.not_mem_cond ht
      rw [hinside k htc]
      exact h.parked k hk t ht
  · intro k hk
    rw [howns] at hk
    by_cases hki : i = k
    · exact hki ▸ huntimed (h.untimed i (hki ▸ hk))
    · exact (hother k hk hki).2
  · intro k hk hwait
    rw [howns] at hk
    rw [hrbq]
    by_cases hki : i = k
    · rw [← hki, hnone]
      exact Nat.zero_le _
    · rw [(hother k hk hki).1] at hwait
      have hsame : q'.signalled k = q.signalled k := by
        unfold FiberqSys.signalled
        rw [hlive]
        congr 1
        funext t
        apply mem_signalled_congr
        · by_cases htc : t = q.sched.currentTask
          · rw [htc, hcur.not_inside (hi ▸ Ne.symm hki)]
            unfold FiberqSys.isInside
            rw [hcurrent, hrbq]
            simpa [hi] using hki
          · exact hinside k htc
        · rw [(hother k hk hki).1]
      rw [hsame]
      exact h.enough k hk hwait

/-- The operation is done and signals the other side: `i` has lost one of what is there, `j` has
gained one. -/
theorem done (h : Watched b q) (hcur : MayRun q op) (hi : op.waitsOn q.rbq = i) {j : CondId}
    (hj : q.owns j) (hij : i ≠ j) (hs : q.sched.step (.call (.condSignal j)) = some q'.sched)
    (he : q'.rbq.empt = q.rbq.empt) (hf : q'.rbq.full = q.rbq.full)
    (hbound : q'.rbq.ndat.toNat ≤ q'.rbq.size.toNat)
    (hless : q'.rbq.available i + 1 = q.rbq.available i)
    (hmore : q'.rbq.available j = q.rbq.available j + 1)
    (hin : q'.inside = Function.update q.inside q.sched.currentTask none) : Watched b q' := by
  obtain ⟨-, hqueue, hlive, huntimed, hfirst⟩ := h.sched.condSignal_step hs
  have howns (k : CondId) : q'.owns k ↔ q.owns k := by
    rw [FiberqSys.owns, FiberqSys.owns, he, hf]
  have hown : i ≠ j ∧ ∀ k, q.owns k → k = i ∨ k = j := by
    refine ⟨hij, ?_⟩
    have hio : q.owns i := hi ▸ owns_waitsOn op
    unfold FiberqSys.owns at *
    grind
  have hother := h.sched.cond_step (i := i) hs (by simpa [Sched.usesCond] using hij.symm)
    (h.untimed i (hi ▸ owns_waitsOn op))
  have hcurrent : q'.inside q.sched.currentTask = none := by rw [hin, Function.update_self]
  have hrest {t : TaskId} (ht : t ≠ q.sched.currentTask) : q'.inside t = q.inside t := by
    rw [hin, Function.update_of_ne ht]
  have hinside {t : TaskId} (k : CondId) (ht : t ≠ q.sched.currentTask) :
      q'.isInside k t = q.isInside k t := isInside_congr (hrest ht) he hf
  have hgone (k : CondId) : q'.isInside k q.sched.currentTask = false := by
    unfold FiberqSys.isInside
    rw [hcurrent]
    rfl
  have hne_of_mem {t : TaskId} {k : CondId} (ht : t ∈ (q.sched.cond k).waitq) :
      t ≠ q.sched.currentTask := by
    rintro rfl
    exact h.sched.idle.not_mem_cond ht
  have htail {t : TaskId} (ht : t ∈ (q'.sched.cond j).waitq) : t ∈ (q.sched.cond j).waitq :=
    List.mem_of_mem_tail (hqueue ▸ ht)
  refine ⟨h.sched.step hs, he ▸ hf ▸ h.distinct, hbound, ?_, ?_, ?_, ?_, ?_⟩
  · intro t ht
    rw [hlive]
    by_cases htc : t = q.sched.currentTask
    · exact htc ▸ h.sched.live
    · exact h.live t (hrest htc ▸ ht)
  · intro t op' hop'
    have htc : t ≠ q.sched.currentTask := by
      rintro rfl
      rw [hcurrent] at hop'
      cases hop'
    rw [hrest htc] at hop'
    rw [waitsOn_congr he hf]
    rcases h.place t op' hop' with hq | hr
    · rcases hown.2 _ (owns_waitsOn op') with hk | hk
      · left
        rw [hk] at hq ⊢
        rwa [hother.1]
      · rw [hk] at hq ⊢
        cases hcase : (q.sched.cond j).waitq with
        | nil =>
          rw [hcase] at hq
          cases hq
        | cons w rest =>
          rw [hcase] at hq hqueue hfirst
          rcases List.mem_cons.1 hq with rfl | hq
          · exact .inr (hfirst t rfl)
          · exact .inl (hqueue ▸ hq)
    · exact .inr (h.sched.ready_step hs hr htc)
  · intro k hk t ht
    rw [howns] at hk
    have hmem : t ∈ (q.sched.cond k).waitq := by
      rcases hown.2 k hk with rfl | rfl
      · rwa [hother.1] at ht
      · exact htail ht
    rw [hinside k (hne_of_mem hmem)]
    exact h.parked k hk t hmem
  · intro k hk
    rw [howns] at hk
    rcases hown.2 k hk with rfl | rfl
    · exact hother.2
    · exact huntimed (h.untimed k hk)
  · intro k hk hwait
    rw [howns] at hk
    rcases hown.2 k hk with rfl | rfl
    · -- the caller itself may have been one of those that were signalled
      rw [hother.1] at hwait
      have henough := h.enough k hk hwait
      have hcount := countP_update (q.isSignalled k) (q'.isSignalled k) h.sched.lives h.sched.live
        fun t ht => mem_signalled_congr (hinside k ht) (by rw [hother.1])
      have hone : (if q.isSignalled k q.sched.currentTask = true then 1 else 0) ≤ 1 := by
        split <;> omega
      have hnew : q'.isSignalled k q.sched.currentTask = false := by
        unfold FiberqSys.isSignalled
        rw [hgone k]
        rfl
      rw [hnew, if_neg Bool.false_ne_true] at hcount
      unfold FiberqSys.signalled at henough ⊢
      rw [hlive]
      omega
    · cases hcase : (q.sched.cond k).waitq with
      | nil =>
        rw [hcase] at hqueue
        exact absurd hqueue hwait
      | cons w rest =>
        have hw : w ∈ (q.sched.cond k).waitq := hcase ▸ List.mem_cons_self
        have hnd : (w :: rest).Nodup := hcase ▸ h.sched.distinct (.cond k)
        have henough := h.enough k hk (by rw [hcase]; simp)
        have hwin : q.isInside k w = true := h.parked k hk w hw
        have hwlive : w ∈ q.sched.live := by
          obtain ⟨op', hop', -⟩ := isInside_iff.1 hwin
          exact h.live w (by rw [hop']; simp)
        -- apart from the first task, everybody is counted as before
        have hsame (t : TaskId) (ht : t ≠ w) : q'.isSignalled k t = q.isSignalled k t := by
          apply mem_signalled_congr
          · by_cases htc : t = q.sched.currentTask
            · rw [htc, hgone k, hcur.not_inside (hi ▸ hij.symm)]
            · exact hinside k htc
          · rw [hqueue, hcase, List.tail_cons, List.mem_cons, or_iff_right ht]
        have hcount := countP_update (q.isSignalled k) (q'.isSignalled k) h.sched.lives hwlive hsame
        have hbefore : q.isSignalled k w = false := by
          unfold FiberqSys.isSignalled
          simp [hw]
        have hafter : q'.isSignalled k w = true := by
          rw [isSignalled_iff, hinside k (hne_of_mem hw), hqueue, hcase]
          exact ⟨hwin, (List.nodup_cons.1 hnd).1⟩
        rw [hbefore, hafter, if_pos rfl, if_neg Bool.false_ne_true] at hcount
        unfold FiberqSys.signalled at henough ⊢
        rw [hlive]
        omega

/-! ## Runs -/

theorem run (h : Watched b q) (hcur : MayRun q op) (hs : q.run op = some q') : Watched b q' := by
  have hsize := q.rbq.size.toNat_lt
  have hbound := h.bounded
  cases op with
  | push pdata =>
    unfold FiberqSys.run FiberqSys.push at hs
    dsimp only at hs
    split at hs
    · next hfull =>
      obtain ⟨s, hstep, rfl⟩ := FiberqSys.wait_eq hs
      refine h.wait hcur rfl ?_ hstep rfl rfl
      rw [UInt64.le_iff_toNat_le] at hfull
      rw [FiberqOp.waitsOn, Fiberq.available, if_neg h.distinct.symm]
      omega
    · next hroom =>
      obtain ⟨s, hstep, rfl⟩ := FiberqSys.done_eq hs
      rw [UInt64.le_iff_toNat_le] at hroom
      have hadd : (q.rbq.ndat + 1).toNat = q.rbq.ndat.toNat + 1 := by
        rw [UInt64.toNat_add]
        exact Nat.mod_eq_of_lt (by show q.rbq.ndat.toNat + 1 < 2 ^ 64; omega)
      refine h.done hcur rfl (.inl rfl) h.distinct.symm hstep rfl rfl ?_ ?_ ?_ rfl
      · show (q.rbq.ndat + 1).toNat ≤ q.rbq.size.toNat
        omega
      · simp only [FiberqOp.waitsOn, Fiberq.available, h.distinct.symm, if_false, hadd]
        omega
      · simp only [Fiberq.available, if_pos, hadd]
  | pop =>
    unfold FiberqSys.run FiberqSys.pop at hs
    dsimp only at hs
    split at hs
    · next hnone =>
      obtain ⟨s, hstep, rfl⟩ := FiberqSys.wait_eq hs
      refine h.wait hcur rfl ?_ hstep rfl rfl
      rw [FiberqOp.waitsOn, Fiberq.available, if_pos rfl]
      exact Nat.le_zero.1 (UInt64.le_iff_toNat_le.1 hnone)
    · next hsome =>
      obtain ⟨s, hstep, rfl⟩ := FiberqSys.done_eq hs
      have hone : (1 : UInt64) ≤ q.rbq.ndat := by
        rw [UInt64.le_iff_toNat_le] at hsome ⊢
        exact Nat.not_le.1 hsome
      have hsub : (q.rbq.ndat - 1).toNat = q.rbq.ndat.toNat - 1 :=
        UInt64.toNat_sub_of_le _ _ hone
      have hpos : 1 ≤ q.rbq.ndat.toNat := UInt64.le_iff_toNat_le.1 hone
      refine h.done hcur rfl (.inr rfl) h.distinct hstep rfl rfl ?_ ?_ ?_ rfl
      · show (q.rbq.ndat - 1).toNat ≤ q.rbq.size.toNat
        omega
      · simp only [FiberqOp.waitsOn, Fiberq.available, if_pos, hsub]
        omega
      · simp only [Fiberq.available, h.distinct.symm, if_false, hsub]
        omega

theorem step (h : Watched b q) (hs : q.step m = some q') : Watched b q' := by
  cases m with
  | start op =>
    unfold FiberqSys.step at hs
    dsimp only at hs
    split at hs
    · next hcur => exact h.run (.inl (Option.isNone_iff_eq_none.1 hcur)) hs
    · cases hs
  | resume =>
    obtain ⟨op, hop, hs⟩ := Option.bind_eq_some_iff.1 hs
    exact h.run (.inr hop) hs
  | other m =>
    unfold FiberqSys.step at hs
    dsimp only at hs
    split at hs
    · next hp =>
      obtain ⟨s, hstep, rfl⟩ := Option.map_eq_some_iff.1 hs
      exact h.other hp hstep
    · cases hs

theorem init {s : Sched} (hs : Reachable b s) {qsize : UInt64} {empt full : CondId} {zero : α}
    (hne : empt ≠ full) (he : s.unused (.cond empt) = true) (hf : s.unused (.cond full) = true) :
    Watched b (.init s qsize empt full zero) := by
  have hempty (i : CondId) (hi : i = empt ∨ i = full) : (s.cond i).waitq = [] := by
    rcases hi with rfl | rfl
    · exact Sched.waitq_of_unused he
    · exact Sched.waitq_of_unused hf
  refine ⟨hs.inv, hne, Nat.zero_le _, fun t ht => absurd rfl ht, nofun, ?_, ?_, ?_⟩
  · intro i hi t ht
    have ht : t ∈ (s.cond i).waitq := ht
    rw [hempty i hi] at ht
    cases ht
  · intro i hi t ht
    have ht : t ∈ (s.cond i).waitq := ht
    rw [hempty i hi] at ht
    cases ht
  · intro i hi hwait
    exact absurd (hempty i hi) hwait

end Watched

/-- **No task sleeps on the queue while it could go on.** In every run from `name##_init` on two
condition variables that nobody else uses: while a consumer waits, as many consumers have been
signalled and have not yet gone on as the queue holds elements; the same holds of the producers and
the free cells; and those who are signalled are ready. -/
theorem reach_noneStranded {b : Boot} {s : Sched} {qsize : UInt64} {empt full : CondId} {zero : α}
    {q : FiberqSys α} (hs : Reachable b s) (hne : empt ≠ full)
    (he : s.unused (.cond empt) = true) (hf : s.unused (.cond full) = true)
    (h : Reach FiberqSys.step anyMove (.init s qsize empt full zero) q) : NoneStranded q :=
  (h.invariant (Watched.init hs hne he hf) fun _ _ _ hw _ hstep => hw.step hstep).noneStranded

/-- Two consumers wait, and one element is pushed: one of them is signalled. -/
def twoConsumersRun : List (FiberqMove Nat) :=
  (newTasks 3).map .other ++ [.other .schedulerStart, .other .schedulerPass,
    .other .schedulerExhaust, .start .pop, .start .pop, .start (.push 7)]

set_option maxRecDepth 4000 in
theorem twoConsumersRun_noneStranded :
    ∃ q, twoConsumersRun.foldlM FiberqSys.step (.init (boot {}) 4 0 1 0) = some q ∧
      (q.sched.cond 0).waitq.length = 1 ∧ q.rbq.ndat = 1 ∧ q.signalled 0 = 1 ∧
      NoneStranded q := by
  have hrun : ((twoConsumersRun.foldlM FiberqSys.step (.init (boot {}) 4 0 1 0)).map fun q =>
      ((q.sched.cond 0).waitq.length, q.rbq.ndat, q.signalled 0)) = some (1, 1, 1) := by
    decide +kernel
  obtain ⟨q, hq, he⟩ := Option.map_eq_some_iff.1 hrun
  obtain ⟨h1, h2, h3⟩ : _ ∧ _ ∧ _ := by simpa using he
  exact ⟨q, hq, h1, h2, h3, reach_noneStranded (b := {}) (Reach.refl _) (by decide) (by decide)
    (by decide) (Reach.of_foldlM hq)⟩

end Ptask.OneN
