import Ptask.OneN.Permits

/-!
# Readers and writers of `reader_writer.c`

Readers share the database, and a writer has it alone. Who wants it takes the semaphore `q` first and
keeps it until it has the database. The semaphore `db` stands for the database: each writer takes it
and gives it back, the first reader takes it for all readers and the last one gives it back. Both
sleep while they have the database, so that other tasks run. In the 1:N build the calls on the mutex
are empty.

There may be any number of readers and of writers, and the numbers that a writer draws are those that
it starts with.
-/

namespace Ptask.OneN

open Ptask.Lib

abbrev MAXTHREAD : Nat := 8

/-- The variables of the program; `nreaders` does not overflow, as there are no more readers than tasks
(`DatabaseExcludes`). `values` is ghost state: what the readers have read. -/
structure Database where
  nreaders : Int
  dbase : Fin MAXTHREAD → Int
  values : List Int

/-- Where a task is: at the start of an operation, behind the first or the second wait of one, or
outside, where it may have the database. -/
inductive DatabasePoint
  | outside
  | reader (index : Fin MAXTHREAD)
  | readerEnter (index : Fin MAXTHREAD)
  | readerAccess (index : Fin MAXTHREAD)
  | reading
  | readerLeave
  | writer (drawn : Fin MAXTHREAD → Int)
  | writerEnter (drawn : Fin MAXTHREAD → Int)
  | writerAccess (drawn : Fin MAXTHREAD → Int)
  | writing
  | writerLeave

/-- `access_database`. -/
def accessDatabase (d : Database) (index : Fin MAXTHREAD) : Int := d.dbase index

/-- `write_database`. -/
def writeDatabase (d : Database) (drawn : Fin MAXTHREAD → Int) : Database :=
  { d with dbase := drawn }

variable (q db : SemId)

/-- `reader` from `nreaders++` on. -/
def readerEnter (d : Database) (index : Fin MAXTHREAD) : Segment Database DatabasePoint :=
  let d := { d with nreaders := d.nreaders + 1 }
  { data := d
    call := if d.nreaders = 1 then some (.semWait db) else none
    next := .readerAccess index }

/-- `reader` from `access_database` on. -/
def readerAccess (d : Database) (index : Fin MAXTHREAD) : Segment Database DatabasePoint :=
  { data := { d with values := d.values ++ [accessDatabase d index] }
    call := some (.semPost q)
    next := .reading }

/-- `reader` from `nreaders--` on. -/
def readerLeave (d : Database) : Segment Database DatabasePoint :=
  let d := { d with nreaders := d.nreaders - 1 }
  { data := d
    call := if d.nreaders = 0 then some (.semPost db) else none
    next := .outside }

/-- `writer` from `write_database` on. -/
def writerAccess (d : Database) (drawn : Fin MAXTHREAD → Int) : Segment Database DatabasePoint :=
  { data := writeDatabase d drawn
    call := some (.semPost q)
    next := .writing }

/-- The program: `reader` and `writer`. -/
def readerWriter : Client Database DatabasePoint where
  code
    | .reader index, d => some { data := d, call := some (.semWait q), next := .readerEnter index }
    | .readerEnter index, d => some (readerEnter db d index)
    | .readerAccess index, d => some (readerAccess q d index)
    | .readerLeave, d => some (readerLeave db d)
    | .writer drawn, d => some { data := d, call := some (.semWait q), next := .writerEnter drawn }
    | .writerEnter drawn, d =>
      some { data := d, call := some (.semWait db), next := .writerAccess drawn }
    | .writerAccess drawn, d => some (writerAccess q d drawn)
    | .writerLeave, d => some { data := d, call := some (.semPost db), next := .outside }
    | _, _ => none
  outside
    | .outside => true
    | .reading => true
    | .writing => true
    | _ => false
  ends
    | .outside => true
    | _ => false
  entry
    | .outside, .reader _ => true
    | .outside, .writer _ => true
    | .reading, .readerLeave => true
    | .writing, .writerLeave => true
    | _, _ => false
  waitsOn
    | .readerEnter _ => some (.sem q)
    | .writerEnter _ => some (.sem q)
    | .readerAccess _ => some (.sem db)
    | .writerAccess _ => some (.sem db)
    | _ => none
  objects := [.sem q, .sem db]

/-- `initializeTasks` has set both semaphores in the state `s`. -/
def databaseStart (s : Sched) (dbase : Fin MAXTHREAD → Int) :
    ClientState Database DatabasePoint where
  sched := s
  data := { nreaders := 0, dbase := dbase, values := [] }
  pc := fun _ => .outside

/-! ## Permits -/

namespace DatabasePoint

/-- The task has asked for `q`. -/
def queues : DatabasePoint → Nat
  | .readerEnter _ => 1
  | .readerAccess _ => 1
  | .writerEnter _ => 1
  | .writerAccess _ => 1
  | _ => 0

/-- The task is counted in `nreaders`. -/
def reads : DatabasePoint → Nat
  | .readerAccess _ => 1
  | .reading => 1
  | .readerLeave => 1
  | _ => 0

/-- The task has asked for `db` to write. -/
def writes : DatabasePoint → Nat
  | .writerAccess _ => 1
  | .writing => 1
  | .writerLeave => 1
  | _ => 0

end DatabasePoint

/-- The readers have asked for `db`. -/
def Database.shared (d : Database) : Int := if 0 < d.nreaders then 1 else 0

variable {q db} {d : Database} {k : DatabasePoint} {st st' : ClientState Database DatabasePoint}
  {m : ClientMove DatabasePoint} {g : Segment Database DatabasePoint} {t u : TaskId} {b : Boot}
  {s : Sched} {dbase : Fin MAXTHREAD → Int}

theorem readerWriter_sound (q db : SemId) : (readerWriter q db).Sound where
  objects c hc := by
    have hc : c = .sem q ∨ c = .sem db := by simpa [readerWriter] using hc
    rcases hc with rfl | rfl
    · exact .inr ⟨q, rfl⟩
    · exact .inr ⟨db, rfl⟩
  ends k hk := by
    cases k with
    | outside => rfl
    | _ => cases hk
  outside k hk := by
    cases k with
    | outside => rfl
    | reading => rfl
    | writing => rfl
    | _ => cases hk
  entry k k' hk := by
    cases k' with
    | outside => cases k <;> cases hk
    | reading => cases k <;> cases hk
    | writing => cases k <;> cases hk
    | _ => rfl
  calls k d g hk hg := by
    have hq : Chain.sem q ∈ (readerWriter q db).objects := List.mem_cons_self
    have hdb : Chain.sem db ∈ (readerWriter q db).objects :=
      List.mem_cons_of_mem _ List.mem_cons_self
    cases k with
    | outside => cases hk
    | reading => cases hk
    | writing => cases hk
    | reader index =>
      obtain rfl := Option.some.inj hg
      exact ⟨hq, rfl⟩
    | readerEnter index =>
      obtain rfl := Option.some.inj hg
      unfold readerEnter
      dsimp only
      split
      · exact ⟨hdb, rfl⟩
      · trivial
    | readerAccess index =>
      obtain rfl := Option.some.inj hg
      exact hq
    | readerLeave =>
      obtain rfl := Option.some.inj hg
      unfold readerLeave
      dsimp only
      split
      · exact hdb
      · trivial
    | writer drawn =>
      obtain rfl := Option.some.inj hg
      exact ⟨hq, rfl⟩
    | writerEnter drawn =>
      obtain rfl := Option.some.inj hg
      exact ⟨hdb, rfl⟩
    | writerAccess drawn =>
      obtain rfl := Option.some.inj hg
      exact hq
    | writerLeave =>
      obtain rfl := Option.some.inj hg
      exact hdb

/-- `nreaders` counts the readers. -/
theorem readerWriter_accounted (q db : SemId) :
    (readerWriter q db).Accounted (fun _ => True) (fun _ : Unit => DatabasePoint.reads)
      (fun _ d => d.nreaders) (fun _ _ => True) where
  ends _ k hk := by
    cases k with
    | outside => rfl
    | _ => cases hk
  entry _ k k' hk := by
    cases k <;> cases k' <;> first | rfl | cases hk
  code k d g hk _ _ _ hg := by
    refine ⟨trivial, fun _ => ?_⟩
    cases k with
    | outside => cases hk
    | reading => cases hk
    | writing => cases hk
    | readerEnter index =>
      obtain rfl := Option.some.inj hg
      show d.nreaders + 1 + 0 = d.nreaders + 1
      omega
    | readerLeave =>
      obtain rfl := Option.some.inj hg
      show d.nreaders - 1 + 1 = d.nreaders + 0
      omega
    | _ =>
      obtain rfl := Option.some.inj hg
      rfl

theorem balanced_q (hne : q ≠ db) :
    (readerWriter q db).Balanced q DatabasePoint.queues (fun _ => 0) where
  object := List.mem_cons_self
  ends k hk := by
    cases k with
    | outside => rfl
    | _ => cases hk
  entry k k' hk := by
    cases k <;> cases k' <;> first | rfl | cases hk
  code k d g hk hg := by
    cases k with
    | outside => cases hk
    | reading => cases hk
    | writing => cases hk
    | reader index =>
      obtain rfl := Option.some.inj hg
      rw [Client.gives_semWait]
      rfl
    | readerEnter index =>
      obtain rfl := Option.some.inj hg
      unfold readerEnter
      dsimp only
      split
      · rw [Client.gives_semWait_of_ne hne.symm]
        rfl
      · rfl
    | readerAccess index =>
      obtain rfl := Option.some.inj hg
      show Client.gives q (some (.semPost q)) + 0 + 0 = 0 + 1
      rw [Client.gives_semPost]
      rfl
    | readerLeave =>
      obtain rfl := Option.some.inj hg
      unfold readerLeave
      dsimp only
      split
      · rw [Client.gives_semPost_of_ne hne.symm]
        rfl
      · rfl
    | writer drawn =>
      obtain rfl := Option.some.inj hg
      rw [Client.gives_semWait]
      rfl
    | writerEnter drawn =>
      obtain rfl := Option.some.inj hg
      rw [Client.gives_semWait_of_ne hne.symm]
      rfl
    | writerAccess drawn =>
      obtain rfl := Option.some.inj hg
      show Client.gives q (some (.semPost q)) + 0 + 0 = 0 + 1
      rw [Client.gives_semPost]
      rfl
    | writerLeave =>
      obtain rfl := Option.some.inj hg
      rw [Client.gives_semPost_of_ne hne.symm]
      rfl

theorem balanced_db (hne : q ≠ db) :
    (readerWriter q db).Balanced db DatabasePoint.writes Database.shared where
  object := List.mem_cons_of_mem _ List.mem_cons_self
  ends k hk := by
    cases k with
    | outside => rfl
    | _ => cases hk
  entry k k' hk := by
    cases k <;> cases k' <;> first | rfl | cases hk
  code k d g hk hg := by
    cases k with
    | outside => cases hk
    | reading => cases hk
    | writing => cases hk
    | reader index =>
      obtain rfl := Option.some.inj hg
      rw [Client.gives_semWait_of_ne hne, Int.zero_add]
      rfl
    | readerEnter index =>
      obtain rfl := Option.some.inj hg
      show Client.gives db (if d.nreaders + 1 = 1 then some (.semWait db) else none) +
        (if 0 < d.nreaders + 1 then 1 else 0) + 0 = (if 0 < d.nreaders then 1 else 0) + 0
      by_cases hfirst : d.nreaders + 1 = 1
      · rw [if_pos hfirst, Client.gives_semWait, if_pos (by omega), if_neg (by omega)]
        rfl
      · rw [if_neg hfirst, Client.gives_none]
        split <;> split <;> omega
    | readerAccess index =>
      obtain rfl := Option.some.inj hg
      show Client.gives db (some (.semPost q)) + d.shared + 0 = d.shared + 0
      rw [Client.gives_semPost_of_ne hne, Int.zero_add]
    | readerLeave =>
      obtain rfl := Option.some.inj hg
      show Client.gives db (if d.nreaders - 1 = 0 then some (.semPost db) else none) +
        (if 0 < d.nreaders - 1 then 1 else 0) + 0 = (if 0 < d.nreaders then 1 else 0) + 0
      by_cases hlast : d.nreaders - 1 = 0
      · rw [if_pos hlast, Client.gives_semPost, if_neg (by omega), if_pos (by omega)]
        rfl
      · rw [if_neg hlast, Client.gives_none]
        split <;> split <;> omega
    | writer drawn =>
      obtain rfl := Option.some.inj hg
      rw [Client.gives_semWait_of_ne hne, Int.zero_add]
      rfl
    | writerEnter drawn =>
      obtain rfl := Option.some.inj hg
      show Client.gives db (some (.semWait db)) + d.shared + 1 = d.shared + 0
      rw [Client.gives_semWait]
      omega
    | writerAccess drawn =>
      obtain rfl := Option.some.inj hg
      show Client.gives db (some (.semPost q)) + d.shared + 1 = d.shared + 1
      rw [Client.gives_semPost_of_ne hne, Int.zero_add]
    | writerLeave =>
      obtain rfl := Option.some.inj hg
      show Client.gives db (some (.semPost db)) + d.shared + 0 = d.shared + 1
      rw [Client.gives_semPost]
      omega

/-! ## Runs -/

/-- What is known in every run. -/
structure DatabaseKept (q db : SemId) (st : ClientState Database DatabasePoint) : Prop where
  turn : Client.Permits q DatabasePoint.queues (fun _ => 0) 1 st
  access : Client.Permits db DatabasePoint.writes Database.shared 1 st
  nreaders : st.data.nreaders = Client.total DatabasePoint.reads st
  /-- Only the first reader waits for the database. -/
  first : ∀ t ∈ (st.sched.sem db).waitq, 0 < (st.pc t).reads → st.data.nreaders = 1

theorem sum_map_one {l : List TaskId} {f : TaskId → Nat} (h : ∀ t ∈ l, f t = 1) :
    (l.map f).sum = l.length := by
  induction l with
  | nil => rfl
  | cons t l ih =>
    rw [List.map_cons, List.sum_cons, h t List.mem_cons_self,
      ih fun u hu => h u (List.mem_cons_of_mem t hu), List.length_cons, Nat.add_comm]

section

variable (hplaced : (readerWriter q db).Placed b st)

include hplaced

/-- Who is in the queue of `q` has asked for it, and for nothing else. -/
theorem queues_of_waitq (ht : t ∈ (st.sched.sem q).waitq) (hne : q ≠ db) :
    ((st.pc t).queues = 1 ∧ (st.pc t).reads = 0 ∧ (st.pc t).writes = 0) ∧
      t ∉ (st.sched.sem db).waitq := by
  have hwait := hplaced.parked (.sem q) List.mem_cons_self t ht
  refine ⟨?_, fun hdb => ?_⟩
  · cases hpc : st.pc t <;> rw [hpc] at hwait
    case readerEnter => exact ⟨rfl, rfl, rfl⟩
    case writerEnter => exact ⟨rfl, rfl, rfl⟩
    case readerAccess =>
      obtain rfl : db = q := by simpa [readerWriter] using hwait
      exact absurd rfl hne
    case writerAccess =>
      obtain rfl : db = q := by simpa [readerWriter] using hwait
      exact absurd rfl hne
    all_goals cases hwait
  · have hwait' := hplaced.parked (.sem db) (List.mem_cons_of_mem _ List.mem_cons_self) t hdb
    rw [hwait] at hwait'
    exact hne (by simpa using hwait')

/-- Who is in the queue of `db` waits to read or to write. -/
theorem asks_of_waitq (ht : t ∈ (st.sched.sem db).waitq) (hne : q ≠ db) :
    (st.pc t).writes + (st.pc t).reads = 1 ∧ (st.pc t).queues = 1 := by
  have hwait := hplaced.parked (.sem db) (List.mem_cons_of_mem _ List.mem_cons_self) t ht
  cases hpc : st.pc t <;> rw [hpc] at hwait
  case readerEnter => exact absurd (by simpa [readerWriter] using hwait) hne
  case writerEnter => exact absurd (by simpa [readerWriter] using hwait) hne
  case readerAccess => exact ⟨rfl, rfl⟩
  case writerAccess => exact ⟨rfl, rfl⟩
  all_goals cases hwait

/-- One task at a time is between its wait for `q` and its post. -/
theorem one_in_turn (hk : DatabaseKept q db st) (hne : q ≠ db)
    (ht : Client.Holds q DatabasePoint.queues st t) (hu : Client.Holds q DatabasePoint.queues st u) :
    t = u := by
  by_contra htu
  have hl : [t, u].Nodup := by simpa using htu
  have hle := hplaced.holders_le (balanced_q hne) hk.turn hl (by
    intro v hv
    rcases List.mem_cons.1 hv with rfl | hv
    · exact ht.2
    · exact List.mem_singleton.1 hv ▸ hu.2)
  rw [sum_map_one fun v hv => (queues_of_waitq hplaced hv hne).1.1] at hle
  have ht := ht.1
  have hu := hu.1
  simp only [List.map_cons, List.map_nil, List.sum_cons, List.sum_nil] at hle
  omega

theorem queued_sum (hne : q ≠ db) :
    ((st.sched.sem db).waitq.map fun t => (st.pc t).writes).sum +
      ((st.sched.sem db).waitq.map fun t => (st.pc t).reads).sum =
        (st.sched.sem db).waitq.length := by
  rw [← List.sum_map_add]
  exact sum_map_one fun t ht => (asks_of_waitq hplaced ht hne).1

/-- The readers in the queue of `db` are counted in `nreaders`, and there is at most one of them. -/
theorem queued_reads_le (hk : DatabaseKept q db st) :
    (((st.sched.sem db).waitq.map fun t => (st.pc t).reads).sum : Int) ≤ st.data.shared := by
  by_cases hsome : ∃ t ∈ (st.sched.sem db).waitq, 0 < (st.pc t).reads
  · obtain ⟨t, ht, hpos⟩ := hsome
    have hone := hk.first t ht hpos
    have hqueue : (st.sched.sem db).waitq.Nodup := hplaced.sched.distinct (.sem db)
    have hsum := hplaced.sum_le_total ((readerWriter_accounted q db).ends ()) hqueue
    have htotal := hk.nreaders
    have hshared : st.data.shared = 1 := if_pos (by omega)
    omega
  · push Not at hsome
    have hzero : ((st.sched.sem db).waitq.map fun t => (st.pc t).reads).sum = 0 := by
      apply List.sum_eq_zero
      intro n hn
      obtain ⟨t, ht, rfl⟩ := List.mem_map.1 hn
      exact Nat.le_zero.1 (hsome t ht)
    rw [hzero]
    unfold Database.shared
    split <;> decide

/-- Only the first reader waits for the database, also after a segment. -/
theorem first_run (hk : DatabaseKept q db st) (hne : q ≠ db)
    (hinside : (readerWriter q db).outside k = false) (hmay : (readerWriter q db).MayRun st k)
    (hr : (readerWriter q db).run st k = some st') (ht : t ∈ (st'.sched.sem db).waitq)
    (hpos : 0 < (st'.pc t).reads) : st'.data.nreaders = 1 := by
  have hsound := readerWriter_sound q db
  have hA := readerWriter_accounted q db
  have hdb : Chain.sem db ∈ (readerWriter q db).objects := (balanced_db hne).object
  have hheld := hmay.held ((balanced_q hne).entry)
  have hreads := hmay.held (hA.entry ())
  obtain ⟨g, s, hg, hs, rfl⟩ := Client.run_eq hr
  rcases hplaced.came_run hsound hinside hg hdb hs ht with ⟨hold, hcur⟩ | ⟨rfl, c, hcall, hwait⟩
  · have hpos : 0 < (Function.update st.pc st.sched.currentTask g.next t).reads := hpos
    rw [Function.update_of_ne hcur] at hpos
    have hone := hk.first t hold hpos
    cases k with
    | outside => cases hinside
    | reading => cases hinside
    | writing => cases hinside
    | readerEnter index =>
      -- the current task and the one in the queue would both be in turn
      have hturn : Client.Holds q DatabasePoint.queues st t := by
        refine ⟨?_, fun hq => (queues_of_waitq hplaced hq hne).2 hold⟩
        rw [(asks_of_waitq hplaced hold hne).2]
        exact Nat.one_pos
      have hcurrent : Client.Holds q DatabasePoint.queues st st.sched.currentTask :=
        ⟨hheld ▸ Nat.one_pos, hplaced.sched.idle.not_mem_sem⟩
      exact absurd (one_in_turn hplaced hk hne hturn hcurrent) hcur
    | readerLeave =>
      have hadd := hplaced.add_le_total (hA.ends ()) hcur
      have htotal := hk.nreaders
      rw [← hreads] at hadd
      simp only [DatabasePoint.reads] at hadd hpos
      omega
    | _ =>
      obtain rfl := Option.some.inj hg
      exact hone
  · have hpos : 0 < (Function.update st.pc st.sched.currentTask g.next
        st.sched.currentTask).reads := hpos
    rw [Function.update_self] at hpos
    cases k with
    | readerEnter index =>
      obtain rfl := Option.some.inj hg
      have hcall : (if st.data.nreaders + 1 = 1 then some (.semWait db) else none) = some c := hcall
      split at hcall
      · next hone => exact hone
      · cases hcall
    | readerAccess index =>
      obtain rfl := Option.some.inj hg
      cases hcall
      cases hwait
    | outside => cases hinside
    | reading => cases hinside
    | writing => cases hinside
    | _ =>
      obtain rfl := Option.some.inj hg
      cases hpos

theorem DatabaseKept.first_step (hk : DatabaseKept q db st) (hne : q ≠ db)
    (hs : (readerWriter q db).step st m = some st') :
    ∀ t ∈ (st'.sched.sem db).waitq, 0 < (st'.pc t).reads → st'.data.nreaders = 1 := by
  have hsound := readerWriter_sound q db
  rcases Client.step_cases hsound hs with ⟨k, -, hinside, hmay, hrun⟩ | ⟨m, s, hp, hstep, rfl⟩
  · intro t ht hpos
    exact first_run hplaced hk hne hinside hmay hrun ht hpos
  · intro t ht hpos
    have hqueue := (hplaced.other_queues hsound hp hstep (balanced_db hne).object).1
    have ht : t ∈ s.chain (.sem db) := ht
    rw [hqueue] at ht
    exact hk.first t ht hpos

end

/-- What is known in every run. -/
theorem reach_databaseKept (hs : Reachable b s) (hne : q ≠ db) (hq : (s.sem q).count = 1)
    (hdb : (s.sem db).count = 1) (huq : s.unused (.sem q) = true)
    (hudb : s.unused (.sem db) = true)
    (h : Reach (readerWriter q db).step anyMove (databaseStart s dbase) st) :
    DatabaseKept q db st ∧ (readerWriter q db).Placed b st := by
  have hsound := readerWriter_sound q db
  have hstart : (readerWriter q db).Placed b (databaseStart s dbase) := by
    apply Client.Placed.start hs hsound rfl
    intro c hc
    have hc : c = .sem q ∨ c = .sem db := by simpa [readerWriter] using hc
    rcases hc with rfl | rfl
    · exact huq
    · exact hudb
  have hzero : (0 : Int) = Client.total DatabasePoint.reads (databaseStart s dbase) := by
    have htotal : Client.total DatabasePoint.reads (databaseStart s dbase) = 0 :=
      Client.total_start rfl
    rw [htotal]
    rfl
  have hturn0 : Client.Permits q DatabasePoint.queues (fun _ => 0) 1 (databaseStart s dbase) :=
    Client.permits_start huq hq (by decide) rfl rfl
  have haccess0 : Client.Permits db DatabasePoint.writes Database.shared 1 (databaseStart s dbase) :=
    Client.permits_start hudb hdb (by decide) rfl rfl
  induction h with
  | refl =>
    refine ⟨⟨hturn0, haccess0, hzero, ?_⟩, hstart⟩
    intro t ht
    have ht : t ∈ (s.sem db).waitq := ht
    rw [show (s.sem db).waitq = [] from Sched.waitq_of_unused (k := .sem db) hudb] at ht
    cases ht
  | tail hr hlast ih =>
    obtain ⟨m, hm, hs⟩ := hlast
    obtain ⟨hk, hplaced⟩ := ih
    have hnreaders := (Client.reach_accounted hsound (readerWriter_accounted q db)
      (fun _ _ _ _ => trivial) hstart trivial (fun _ => hzero) (Relation.ReflTransGen.tail hr ⟨m, hm, hs⟩)).2 ()
    exact ⟨⟨hplaced.permits_step hsound (balanced_q hne) hk.turn hs,
      hplaced.permits_step hsound (balanced_db hne) hk.access hs, hnreaders,
      DatabaseKept.first_step hplaced hk hne hs⟩, hplaced.step hsound hs⟩

/-! ## Exclusion -/

/-- The database is shared by readers, or one writer has it alone. -/
structure DatabaseExcludes (q db : SemId) (st : ClientState Database DatabasePoint) : Prop where
  nreaders : st.data.nreaders = Client.total DatabasePoint.reads st
  /-- There are no more readers than tasks. -/
  bounded : st.data.nreaders ≤ st.sched.live.length
  /-- One task at a time is between its wait for `q` and its post. -/
  turn : ∀ t u, Client.Holds q DatabasePoint.queues st t →
    Client.Holds q DatabasePoint.queues st u → t = u
  alone : ∀ t u, t ≠ u → Client.Holds db DatabasePoint.writes st t →
    ¬Client.Holds db DatabasePoint.writes st u ∧ ¬Client.Holds db DatabasePoint.reads st u

/-- **Readers and writers exclude each other.** In every run from `initializeTasks`, by any number of
readers and writers, which sleep and are interrupted while they have the database: `nreaders` counts
the readers, one task at a time is between the two calls on `q`, and while a writer has the database
nobody else has it. -/
theorem reach_databaseExcludes (hs : Reachable b s) (hne : q ≠ db) (hq : (s.sem q).count = 1)
    (hdb : (s.sem db).count = 1) (huq : s.unused (.sem q) = true)
    (hudb : s.unused (.sem db) = true)
    (h : Reach (readerWriter q db).step anyMove (databaseStart s dbase) st) :
    DatabaseExcludes q db st := by
  obtain ⟨hk, hplaced⟩ := reach_databaseKept hs hne hq hdb huq hudb h
  have hA := readerWriter_accounted q db
  have hqueued := queued_reads_le hplaced hk
  have hsum := queued_sum hplaced hne
  refine ⟨hk.nreaders, ?_, fun t u => one_in_turn hplaced hk hne, ?_⟩
  · rw [hk.nreaders]
    exact_mod_cast Client.total_le_length fun k => by cases k <;> simp [DatabasePoint.reads]
  intro t u htu ht
  refine ⟨fun hu => ?_, fun hu => ?_⟩
  · have hl : [t, u].Nodup := by simpa using htu
    have hle := hplaced.holders_le (balanced_db hne) hk.access hl (by
      intro v hv
      rcases List.mem_cons.1 hv with rfl | hv
      · exact ht.2
      · exact List.mem_singleton.1 hv ▸ hu.2)
    have ht := ht.1
    have hu := hu.1
    simp only [List.map_cons, List.map_nil, List.sum_cons, List.sum_nil] at hle
    omega
  · have hle := hplaced.holders_le (balanced_db hne) hk.access (List.nodup_singleton t) (by
      intro v hv
      exact List.mem_singleton.1 hv ▸ ht.2)
    have hpos := hplaced.le_total (hA.ends ()) u
    have htotal := hk.nreaders
    have ht := ht.1
    have hread := hu.1
    have hshared : st.data.shared = 1 := if_pos (by omega)
    -- a reader in the queue would be the only one
    have hnone : ((st.sched.sem db).waitq.map fun t => (st.pc t).reads).sum = 0 := by
      apply List.sum_eq_zero
      intro n hn
      obtain ⟨v, hv, rfl⟩ := List.mem_map.1 hn
      by_contra hsome
      have hone := hk.first v hv (Nat.pos_of_ne_zero hsome)
      have hvu : v ≠ u := by
        rintro rfl
        exact hu.2 hv
      have hadd := hplaced.add_le_total (hA.ends ()) hvu
      omega
    simp only [List.map_cons, List.map_nil, List.sum_cons, List.sum_nil] at hle
    omega

/-! ## Waiting -/

/-- A task that waits for nothing stands in the way of `t`: it has the database, or `t` waits for `q`
and it is in turn. A reader waits for a writer. -/
def DatabaseBlocks (q db : SemId) (st : ClientState Database DatabasePoint) (t : TaskId) : Prop :=
  ∃ u ∈ st.sched.live, u ≠ t ∧ u ∉ (st.sched.sem q).waitq ∧ u ∉ (st.sched.sem db).waitq ∧
    (0 < (st.pc u).writes ∨ (0 < (st.pc u).reads ∧ (st.pc t).reads = 0) ∨
      (0 < (st.pc u).queues ∧ t ∈ (st.sched.sem q).waitq))

/-- Who waits for `db` waits for somebody who has the database. -/
theorem access_blocked (hplaced : (readerWriter q db).Placed b st) (hk : DatabaseKept q db st)
    (hne : q ≠ db) (ht : t ∈ (st.sched.sem db).waitq) :
    ∃ u ∈ st.sched.live, u ∉ (st.sched.sem q).waitq ∧ u ∉ (st.sched.sem db).waitq ∧
      (0 < (st.pc u).writes ∨ (0 < (st.pc u).reads ∧ (st.pc t).reads = 0)) := by
  have hqueue : (st.sched.sem db).waitq.Nodup := hplaced.sched.distinct (.sem db)
  have hasked := hk.access.eq (List.ne_nil_of_mem ht)
  have hsum := queued_sum hplaced hne
  have hqueued := queued_reads_le hplaced hk
  have outside_q (u : TaskId) (hu : 0 < (st.pc u).writes ∨ 0 < (st.pc u).reads) :
      u ∉ (st.sched.sem q).waitq := by
    intro huq
    obtain ⟨-, hreads, hwrites⟩ := (queues_of_waitq hplaced huq hne).1
    omega
  by_cases hwriter : ((st.sched.sem db).waitq.map fun t => (st.pc t).writes).sum <
      Client.total DatabasePoint.writes st
  · obtain ⟨u, hlive, hu, hpos⟩ := hplaced.exists_of_sum_lt hqueue hwriter
    exact ⟨u, hlive, outside_q u (.inl hpos), hu, .inl hpos⟩
  · -- all writers wait, so that the readers have it and none of them waits
    have hle : st.data.shared ≤ 1 := by
      unfold Database.shared
      split <;> decide
    have hnone : ((st.sched.sem db).waitq.map fun t => (st.pc t).reads).sum = 0 := by omega
    have hshared : 0 < st.data.shared := by omega
    have hsome : 0 < st.data.nreaders := by
      by_contra hno
      rw [Database.shared, if_neg hno] at hshared
      omega
    have htotal := hk.nreaders
    obtain ⟨u, hlive, hu, hpos⟩ := hplaced.exists_of_sum_lt (f := DatabasePoint.reads) hqueue
      (by omega)
    refine ⟨u, hlive, outside_q u (.inr hpos), hu, .inr ⟨hpos, ?_⟩⟩
    exact List.sum_eq_zero_iff.1 hnone _ (List.mem_map.2 ⟨t, ht, rfl⟩)

/-- **Nobody waits for the database without need.** In every run a task in an operation is ready to
run, or it waits for another task that waits for neither semaphore: one that has the database (a
reader waits for a writer), or that is in turn when the task waits for `q`. -/
theorem reach_databaseAttended (hs : Reachable b s) (hne : q ≠ db) (hq : (s.sem q).count = 1)
    (hdb : (s.sem db).count = 1) (huq : s.unused (.sem q) = true)
    (hudb : s.unused (.sem db) = true)
    (h : Reach (readerWriter q db).step anyMove (databaseStart s dbase) st)
    (hinside : (readerWriter q db).outside (st.pc t) = false) :
    t ∈ st.sched.readylist ∨ DatabaseBlocks q db st t := by
  obtain ⟨hk, hplaced⟩ := reach_databaseKept hs hne hq hdb huq hudb h
  rcases hplaced.place t hinside with ⟨c, hc, ht⟩ | hready
  case inr => exact .inl hready
  right
  have hc : c = .sem q ∨ c = .sem db := by simpa [readerWriter] using hc
  rcases hc with rfl | rfl
  · have ht : t ∈ (st.sched.sem q).waitq := ht
    have hqueue : (st.sched.sem q).waitq.Nodup := hplaced.sched.distinct (.sem q)
    have hasked := hk.turn.eq (List.ne_nil_of_mem ht)
    have hsum := sum_map_one fun v hv => (queues_of_waitq hplaced hv hne).1.1
    obtain ⟨u, hlive, hu, hpos⟩ := hplaced.exists_of_sum_lt (f := DatabasePoint.queues) hqueue
      (by omega)
    have apart {v : TaskId} (hv : v ∉ (st.sched.sem q).waitq) : v ≠ t := by
      rintro rfl
      exact hv ht
    by_cases hudb : u ∈ (st.sched.sem db).waitq
    · obtain ⟨v, hvlive, hvq, hvdb, hhas⟩ := access_blocked hplaced hk hne hudb
      refine ⟨v, hvlive, apart hvq, hvq, hvdb, hhas.imp_right fun hread => .inl ⟨hread.1, ?_⟩⟩
      exact (queues_of_waitq hplaced ht hne).1.2.1
    · exact ⟨u, hlive, apart hu, hu, hudb, .inr (.inr ⟨hpos, ht⟩)⟩
  · have ht : t ∈ (st.sched.sem db).waitq := ht
    obtain ⟨u, hlive, huq, hudb, hhas⟩ := access_blocked hplaced hk hne ht
    refine ⟨u, hlive, ?_, huq, hudb, hhas.imp_right .inl⟩
    rintro rfl
    exact hudb ht

/-- Both semaphores are set, and three tasks are created. -/
def databaseTasks : List Move :=
  [.call (.semInit 1 1), .call (.semInit 0 1)] ++ newTasks 3 ++
  [.schedulerStart, .schedulerPass, .schedulerExhaust]

/-- A reader has the database, a writer in turn waits for it, and another reader waits for its
turn. -/
def databaseRun : List (ClientMove DatabasePoint) :=
  [.enter (.reader 0), .go, .go, .other (.call .schedYield), .enter (.writer fun _ => 5), .go,
    .enter (.reader 1)]

/-- The reader leaves, and the writer writes. -/
def databaseEnd : List (ClientMove DatabasePoint) :=
  [.enter .readerLeave, .other (.call .schedYield), .go]

set_option maxRecDepth 8000 in
theorem databaseTasks_start :
    ∃ s, databaseTasks.foldlM Sched.step (boot {}) = some s ∧ s.unused (.sem 0) = true ∧
      s.unused (.sem 1) = true ∧ (s.sem 0).count = 1 ∧ (s.sem 1).count = 1 := by
  have hrun : ((databaseTasks.foldlM Sched.step (boot {})).map fun s =>
      (s.unused (.sem 0), s.unused (.sem 1), (s.sem 0).count, (s.sem 1).count)) =
      some (true, true, 1, 1) := by decide +kernel
  obtain ⟨s, hs, he⟩ := Option.map_eq_some_iff.1 hrun
  simp only [Prod.mk.injEq] at he
  exact ⟨s, hs, he⟩

set_option maxRecDepth 8000 in
theorem databaseRun_excludes :
    ∃ s st, databaseTasks.foldlM Sched.step (boot {}) = some s ∧
      (databaseRun ++ databaseEnd).foldlM (readerWriter 0 1).step
        (databaseStart s fun _ => 0) = some st ∧
      Client.Holds 1 DatabasePoint.writes st 163 ∧ DatabaseExcludes 0 1 st := by
  have hrun : ((databaseTasks.foldlM Sched.step (boot {})).bind fun s =>
      ((databaseRun ++ databaseEnd).foldlM (readerWriter 0 1).step
        (databaseStart s fun _ => 0)).map fun st =>
          ((st.pc 163).writes, decide (163 ∈ (st.sched.sem 1).waitq))) = some (1, false) := by
    decide +kernel
  obtain ⟨s, hs, hu0, hu1, hc0, hc1⟩ := databaseTasks_start
  rw [hs, Option.bind_some] at hrun
  obtain ⟨st, hst, he⟩ := Option.map_eq_some_iff.1 hrun
  obtain ⟨h1, h2⟩ : (st.pc 163).writes = 1 ∧ 163 ∉ (st.sched.sem 1).waitq := by simpa using he
  exact ⟨s, st, hs, hst, ⟨h1 ▸ Nat.one_pos, h2⟩,
    reach_databaseExcludes (b := {}) (Reach.of_foldlM hs) (by decide) hc0 hc1 hu0 hu1
      (Reach.of_foldlM hst)⟩

set_option maxRecDepth 8000 in
theorem databaseRun_attended :
    ∃ s st, databaseTasks.foldlM Sched.step (boot {}) = some s ∧
      databaseRun.foldlM (readerWriter 0 1).step (databaseStart s fun _ => 0) = some st ∧
      162 ∉ st.sched.readylist ∧ (162 ∈ st.sched.readylist ∨ DatabaseBlocks 0 1 st 162) := by
  have hrun : ((databaseTasks.foldlM Sched.step (boot {})).bind fun s =>
      (databaseRun.foldlM (readerWriter 0 1).step (databaseStart s fun _ => 0)).map fun st =>
        ((readerWriter 0 1).outside (st.pc 162), decide (162 ∈ st.sched.readylist))) =
      some (false, false) := by
    decide +kernel
  obtain ⟨s, hs, hu0, hu1, hc0, hc1⟩ := databaseTasks_start
  rw [hs, Option.bind_some] at hrun
  obtain ⟨st, hst, he⟩ := Option.map_eq_some_iff.1 hrun
  obtain ⟨h1, h2⟩ : (readerWriter 0 1).outside (st.pc 162) = false ∧ 162 ∉ st.sched.readylist := by
    simpa using he
  exact ⟨s, st, hs, hst, h2,
    reach_databaseAttended (b := {}) (Reach.of_foldlM hs) (by decide) hc0 hc1 hu0 hu1
      (Reach.of_foldlM hst) h1⟩

end Ptask.OneN
