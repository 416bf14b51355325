import CronManager.Executor.Texts
import CronManager.Scheduler.Records

/-!
# The history table

`PostgresRecorder` of `src/history/postgres.rs`, with the columns that `migrations/` gives the
table: `record` issues one `INSERT` for each row, and an error of the database is logged and
absorbed.  What the database does with the statement is not modelled; whether a column can hold a
text is a parameter (`Database`), with what is documented about it as a named hypothesis.

* `fits_iff` : of the texts of an `INSERT`, only those that come from the job and the error message
  can be more than their columns hold;
* `history_insertable` : in every run of the scheduler, nothing that an upstream server answers or a
  child writes makes a text that its column cannot hold.
-/

namespace CronManager

open Rust

/-! ### The recorder -/

/-- `PostgresRecorder`, without its pool. -/
structure PostgresRecorder where
  storedBodyMaxBytes : ℕ

/-- The types of the text columns of `job_execution_history`. -/
inductive SqlType where
  | text
  | varchar (n : ℕ)
  deriving DecidableEq, Repr

/-- Which texts a column of a type can hold, which the database decides. -/
structure Database where
  takes : SqlType → String → Bool

/-- What is documented: no text may have a NUL, and of a text that is too long for a `VARCHAR(n)`
only spaces past the limit are cut off. -/
structure Database.Documented (db : Database) : Prop where
  text : ∀ s, db.takes .text s = true ↔ NulFree s
  varchar : ∀ n s, db.takes (.varchar n) s = true ↔
    NulFree s ∧ (s.toList.drop n).all (· == ' ') = true

/-- The values that `record` binds to the parameters of its `INSERT`. -/
structure HistoryInsert where
  executionTime : ℤ
  jobName : String
  jobGroup : String
  jobType : String
  durationMs : Option ℤ
  status : String
  httpMethod : Option String
  httpUrl : Option String
  httpStatusCode : Option ℤ
  attemptNumber : ℤ
  maxAttempts : ℤ
  responseBody : Option String
  errorMessage : Option String
  deriving DecidableEq, Repr

/-- The texts among them, with the types of their columns. -/
def HistoryInsert.texts (i : HistoryInsert) : List (SqlType × String) :=
  [(.varchar 255, i.jobName), (.varchar 255, i.jobGroup), (.varchar 50, i.jobType),
    (.varchar 50, i.status)] ++ i.httpMethod.toList.map ((.varchar 10, ·)) ++
    i.httpUrl.toList.map ((.text, ·)) ++ i.responseBody.toList.map ((.text, ·)) ++
    i.errorMessage.toList.map ((.text, ·))

/-- Every column can hold its text. -/
def HistoryInsert.Fits (db : Database) (i : HistoryInsert) : Prop :=
  ∀ x ∈ i.texts, db.takes x.1 x.2 = true

namespace PostgresRecorder

/-- `body_capped`; `none` when `truncate_response_body` panics. -/
def bodyCapped (r : PostgresRecorder) (entry : HistoryEntry) : Option (Option String) :=
  entry.responseBody.mapM fun s =>
    (truncateResponseBody s.toList r.storedBodyMaxBytes).map String.ofList

/-- The `INSERT` of `record`. -/
def insert (r : PostgresRecorder) (entry : HistoryEntry) : Option HistoryInsert :=
  (r.bodyCapped entry).map fun body =>
    ⟨entry.executionTime, entry.jobName, entry.jobGroup, entry.jobType, entry.durationMs,
      entry.status.asStr, entry.httpMethod, entry.httpUrl, entry.httpStatusCode,
      entry.attemptNumber, entry.maxAttempts, body, entry.errorMessage⟩

end PostgresRecorder

/-- The columns can hold the texts that a job gives its rows. -/
def HistoryEntry.JobFits (db : Database) (entry : HistoryEntry) : Prop :=
  db.takes (.varchar 255) entry.jobName = true ∧ db.takes (.varchar 255) entry.jobGroup = true ∧
    (∀ m ∈ entry.httpMethod, db.takes (.varchar 10) m = true) ∧
      ∀ url ∈ entry.httpUrl, db.takes .text url = true

variable {db : Database} {r : PostgresRecorder} {entry : HistoryEntry} {c : Crates}
  {b : ExecutorBundle} {P : JobSpec → Prop} {W : DispatchWorld → Prop} {s s' : Sched}
  {as : List Act}

/-! ### One call -/

theorem bodyCapped_eq_some (r : PostgresRecorder) (entry : HistoryEntry) :
    ∃ body, r.bodyCapped entry = some body ∧ ∀ text ∈ body, NulFree text := by
  unfold PostgresRecorder.bodyCapped
  cases entry.responseBody with
  | none => exact ⟨none, rfl, by rintro text ⟨⟩⟩
  | some s =>
    obtain ⟨out, hout⟩ : ∃ out, truncateResponseBody s.toList r.storedBodyMaxBytes = some out := by
      rcases truncateResponseBody_eq s.toList r.storedBodyMaxBytes with
        ⟨-, h⟩ | ⟨-, head, mid, tail, -, h, -⟩
      · exact ⟨_, h⟩
      · exact ⟨_, h⟩
    refine ⟨some (String.ofList out), ?_, ?_⟩
    · rw [Option.mapM_some, hout]
      rfl
    · rintro text ⟨⟩
      exact nulFree_ofList.2 (nulFree_truncateResponseBody hout)

theorem takes_status (hdb : db.Documented) (status : ExecutionStatus) :
    db.takes (.varchar 50) status.asStr = true := by
  rw [hdb.varchar]
  cases status <;> decide +kernel

theorem takes_typeLabel (hdb : db.Documented) (kind : JobKind) :
    db.takes (.varchar 50) kind.typeLabel = true := by
  cases kind with
  | http =>
    show db.takes (.varchar 50) "http" = true
    exact (hdb.varchar _ _).2 (by decide)
  | exec =>
    show db.takes (.varchar 50) "exec" = true
    exact (hdb.varchar _ _).2 (by decide)

/-- **One call** of `record` does not fail, and of the texts that it binds only those of the job and
the error message can be too much for their columns. -/
theorem fits_iff (hdb : db.Documented) (r : PostgresRecorder) (entry : HistoryEntry) :
    ∃ i, r.insert entry = some i ∧ (i.Fits db ↔ entry.JobFits db ∧
      db.takes (.varchar 50) entry.jobType = true ∧
        ∀ text ∈ entry.errorMessage, NulFree text) := by
  obtain ⟨body, hbody, hnul⟩ := bodyCapped_eq_some r entry
  refine ⟨_, by rw [PostgresRecorder.insert, hbody, Option.map_some], ?_⟩
  have hstatus := takes_status hdb entry.status
  have hcapped : ∀ text ∈ body, db.takes .text text = true :=
    fun text htext => (hdb.text text).2 (hnul text htext)
  simp only [HistoryInsert.Fits, HistoryInsert.texts, HistoryEntry.JobFits, List.forall_mem_append,
    List.forall_mem_cons, List.forall_mem_map, Option.mem_toList, hstatus, ← hdb.text]
  constructor
  · rintro ⟨⟨⟨⟨⟨hname, hgroup, htype, -, -⟩, hmethod⟩, hurl⟩, -⟩, herror⟩
    exact ⟨⟨hname, hgroup, hmethod, hurl⟩, htype, herror⟩
  · rintro ⟨⟨hname, hgroup, hmethod, hurl⟩, htype, herror⟩
    exact ⟨⟨⟨⟨⟨hname, hgroup, htype, trivial, by rintro x ⟨⟩⟩, hmethod⟩, hurl⟩, hcapped⟩, herror⟩

/-! ### The rows of a job -/

/-- **The texts of a row of a dispatch fit exactly when those of its job do**, whatever an upstream
server answers and whatever a child writes. -/
theorem fits_dispatch {spec : JobSpec} {extras : DispatchExtras} {w : DispatchWorld}
    (hdb : db.Documented) (hc : c.NulFree) (hw : w.NulFree) (hnames : spec.kind.NamesNulFree)
    (h : entry ∈ (b.dispatch c spec extras w).rows) :
    ∃ i, r.insert entry = some i ∧ (i.Fits db ↔ entry.JobFits db) := by
  obtain ⟨i, hi, hiff⟩ := fits_iff hdb r entry
  refine ⟨i, hi, hiff.trans (and_iff_left_of_imp ?_)⟩
  rintro ⟨-, -, hmethod, hurl⟩
  cases hoff : b.offlineMode with
  | true =>
    simp only [ExecutorBundle.dispatch, hoff, if_true, offlineStub, List.mem_singleton] at h
    subst h
    refine ⟨takes_typeLabel hdb _, ?_⟩
    rintro text ⟨⟩
    decide
  | false =>
    simp only [ExecutorBundle.dispatch, hoff, Bool.false_eq_true, if_false,
      (dispatchLoop_rows _ _ _).rows, List.mem_map] at h
    obtain ⟨n, -, rfl⟩ := h
    refine ⟨takes_typeLabel hdb _, fun text htext => ?_⟩
    have htarget : spec.kind.TargetNulFree := by
      cases hkind : spec.kind with
      | http method url headers =>
        simp only [ExecutorBundle.rowAt, attemptRow, hkind, JobKind.httpFields] at hmethod hurl
        exact ⟨((hdb.varchar 10 method).1 (hmethod method rfl)).1, (hdb.text url).1 (hurl url rfl)⟩
      | exec => trivial
    simp only [ExecutorBundle.rowAt, attemptRow] at htext
    cases hresult : b.resultAt c spec extras w n with
    | ok res =>
      rw [hresult] at htext
      cases htext
    | error res =>
      rw [hresult] at htext
      exact nulFree_attempt hc (hw.http n) (hw.shell n) hnames htarget hresult text htext

theorem fits_skip (hdb : db.Documented) (spec : JobSpec) (now : ℤ) :
    ∃ i, r.insert (windowSkipRow spec now) = some i ∧
      (i.Fits db ↔ (windowSkipRow spec now).JobFits db) := by
  obtain ⟨i, hi, hiff⟩ := fits_iff hdb r (windowSkipRow spec now)
  refine ⟨i, hi, hiff.trans (and_iff_left_of_imp fun _ => ⟨takes_typeLabel hdb _, ?_⟩)⟩
  rintro text ⟨⟩
  decide

/-! ### Where the rows of a run come from -/

section

variable (c b P W)

/-- A row of a dispatch of one of the jobs in one of the worlds, or of a skipped fire. -/
def HistoryEntry.From (entry : HistoryEntry) : Prop :=
  (∃ spec extras w, P spec ∧ W w ∧ entry ∈ (b.dispatch c spec extras w).rows) ∨
    ∃ spec now, entry = windowSkipRow spec now

/-- The dispatch of the task is in one of the worlds. -/
def Pc.InWorld : Pc → Prop
  | .dispatching _ _ d => W d.world
  | _ => True

/-- The rows and the dispatches in progress come from the given jobs and worlds. -/
structure Sched.FromWorlds (s : Sched) : Prop where
  rows : ∀ entry ∈ s.mem.history, entry.From c b P W
  tasks : ∀ t pc, s.tasks t = some pc → pc.InWorld W

end

variable {m : Shared} {pc : Pc} {w : DispatchWorld} {e : Effect Shared Pc}

theorem from_of_mem_records (hpc : pc.Sound c b P) (hworld : pc.InWorld W)
    (h : entry ∈ pc.records c b m) : entry.From c b P W := by
  cases pc with
  | dispatching run cancel d =>
    simp only [Pc.records] at h
    cases hd : d.step c b with
    | none =>
      rw [hd] at h
      cases h
    | some d' =>
      rw [hd] at h
      have hmem := (hpc.2.step hd).prefix_rows.subset (List.drop_subset _ _ h)
      refine .inl ⟨run.spec, run.extras, d'.world, hpc.1.spec, ?_, hmem⟩
      rw [(Dispatch.step_fixed hd).2.2]
      exact hworld
  | loopSkipRow l checked => exact .inr ⟨l.spec, m.now, List.mem_singleton.1 h⟩
  | _ => cases h

theorem inWorld_next (hworld : pc.InWorld W) (hw : W w) (h : pc.step c b m w = some e) :
    e.next.InWorld W := by
  have hgoes := step_goes h
  generalize e.next = next at hgoes ⊢
  cases hgoes with
  | fetchCron run cancel => exact hw
  | advance run cancel d d' hd =>
    show W d'.world
    rw [(Dispatch.step_fixed hd).2.2]
    exact hworld
  | _ => trivial

theorem fromWorlds_step {a : Act} (h : s.FromWorlds c b P W) (hsound : s.Sound c b P)
    (ha : ∀ t w, a = .run t w → W w) (hs : (schedMachine c b).step s a = some s') :
    s'.FromWorlds c b P W := by
  cases a with
  | call api =>
    obtain rfl := Option.some.inj hs
    refine ⟨h.rows, fun u p hu => ?_⟩
    rcases Pool.tasks_add_cases hu with ⟨-, rfl⟩ | ⟨-, hq⟩
    · cases api <;> trivial
    · exact h.tasks u p hq
  | run t w =>
    obtain ⟨pc, e, hpc, he, rfl⟩ := run_step hs
    have hworld := h.tasks t pc hpc
    constructor
    · intro entry hentry
      rw [Pool.mem_apply, history_step he] at hentry
      rcases List.mem_append.1 hentry with hold | hnew
      · exact h.rows entry hold
      · exact from_of_mem_records (hsound.tasks t pc hpc) hworld hnew
    · refine Pool.forall_tasks_apply (inWorld_next hworld (ha t w rfl) he) ?_ ?_
      · intro v p hv
        rcases (step_does he).spawn_cases hv with ⟨spec, todo, reply, expr, -, -, -, -, rfl⟩ |
          ⟨run, cancel, -, -, -, rfl⟩
        · trivial
        · exact ha t w rfl
      · intro u q hq
        obtain ⟨ns, hns⟩ := (step_does he).touch_eq
        rw [hns]
        have hold := h.tasks u q hq
        cases q with
        | dispatching run cancel d =>
          simp only [Pc.notify]
          split_ifs <;> exact hold
        | _ => trivial
  | clock now =>
    obtain rfl := Option.some.inj hs
    exact ⟨h.rows, h.tasks⟩

/-- **Where the rows of a run come from**: from dispatches of the jobs that were handed over, in
the worlds that its steps were taken in, and from skipped fires. -/
theorem from_of_run (h : (schedMachine c b).run Sched.init as = some s)
    (hP : ∀ spec ∈ as.flatMap Act.specs, P spec) (hW : ∀ t w, Act.run t w ∈ as → W w) :
    ∀ entry ∈ s.mem.history, entry.From c b P W := by
  let I (s : Sched) := s.Sound c b P ∧ s.FromWorlds c b P W
  have hinit : I Sched.init := by
    refine ⟨sound_init, ⟨?_, ?_⟩⟩
    · rintro entry ⟨⟩
    · rintro t pc ⟨⟩
  refine (((Machine.runs_of_run h).imp_mem fun _ a ha _ => ha).invariant (I := I) hinit ?_).2.rows
  rintro s a s' ⟨hsound, hfrom⟩ ha hs
  refine ⟨sound_step hsound (fun spec hspec => ?_) hs, fromWorlds_step hfrom hsound ?_ hs⟩
  · exact hP spec (List.mem_flatMap.2 ⟨a, ha, hspec⟩)
  · rintro t w rfl
    exact hW t w ha

/-! ### The history of a run -/

/-- **Answers and outputs never keep a row out of the table.**  In every run of the scheduler,
`record` issues an `INSERT` for each row of the history, and the columns can hold its texts exactly
when they can hold the name, the group, the method and the URL of the job. -/
theorem history_insertable (hdb : db.Documented) (r : PostgresRecorder)
    (hrun : (schedMachine c b).run Sched.init as = some s) (hc : c.NulFree)
    (hworlds : ∀ t w, Act.run t w ∈ as → w.NulFree)
    (hnames : ∀ spec ∈ as.flatMap Act.specs, spec.kind.NamesNulFree) :
    ∀ entry ∈ s.mem.history, ∃ i, r.insert entry = some i ∧ (i.Fits db ↔ entry.JobFits db) := by
  intro entry hentry
  rcases from_of_run hrun hnames hworlds entry hentry with
    ⟨spec, extras, w, hspec, hw, hrow⟩ | ⟨spec, now, rfl⟩
  · exact fits_dispatch hdb hc hw hspec hrow
  · exact fits_skip hdb spec now

/-- A database that holds what it is documented to hold. -/
def demoDatabase : Database where
  takes
    | .text, s => decide (NulFree s)
    | .varchar n, s => decide (NulFree s) && (s.toList.drop n).all (· == ' ')

theorem documented_demoDatabase : demoDatabase.Documented where
  text s := decide_eq_true_iff
  varchar n s := by simp only [demoDatabase, Bool.and_eq_true, decide_eq_true_eq]

/-- Every child writes a NUL to both pipes and exits with code 1. -/
def nulWorld : DispatchWorld where
  __ := demoWorld .timeout
  attempt a := { (demoWorld .timeout).attempt a with
    shell := ⟨fun _ => .spawned, .exited (some 1), ⟨[[0]], none⟩, ⟨[[0]], none⟩⟩ }

/-- A run of `demoSpec` with such children. -/
def nulActs : List Act := demoTriggered nulWorld ++ List.replicate 14 (.run 5 nulWorld)

/-- Its two rows fit, with the NUL escaped. -/
theorem history_insertable_nul :
    ∃ s, (schedMachine noCrates demoBundle).run Sched.init nulActs = some s ∧
      s.mem.history.map (·.errorMessage) =
        List.replicate 2 (some "shell command exited non-zero: exit 1: \\u0000") ∧
      ∀ entry ∈ s.mem.history, ∃ i, (PostgresRecorder.mk 65536).insert entry = some i ∧
        i.Fits demoDatabase := by
  let s := ((schedMachine noCrates demoBundle).run Sched.init nulActs).getD Sched.init
  have hs : (schedMachine noCrates demoBundle).run Sched.init nulActs = some s :=
    eq_some_getD (by decide +kernel)
  have hc : noCrates.NulFree := ⟨by rintro url e ⟨⟩; decide, by rintro url u d ⟨⟩⟩
  have hw : nulWorld.NulFree := by
    refine ⟨fun n => ⟨?_, ?_, ?_⟩, fun n => ⟨?_, ?_, ?_⟩⟩
    · rintro target e ⟨⟩
      decide
    · rintro e ⟨⟩
    · rintro status body e ⟨⟩
    · rintro n e (h | h) <;> cases h
    · rintro e ⟨⟩
    · rintro e (h | h) <;> cases h
  have hworlds : ∀ t w, Act.run t w ∈ nulActs → w.NulFree := by
    intro t w hmem
    have hsteps : t = 0 ∧ w = nulWorld ∨ t = 3 ∧ w = nulWorld ∨ t = 5 ∧ w = nulWorld := by
      simpa [nulActs, demoTriggered] using hmem
    rcases hsteps with ⟨-, rfl⟩ | ⟨-, rfl⟩ | ⟨-, rfl⟩ <;> exact hw
  have hnames : ∀ spec ∈ nulActs.flatMap Act.specs, spec.kind.NamesNulFree := by
    intro spec hspec
    obtain rfl := List.mem_singleton.1 (show spec ∈ [demoSpec] from hspec)
    trivial
  have hfits : ∀ entry ∈ s.mem.history, entry.jobName = "backup" ∧ entry.jobGroup = "nightly" ∧
      entry.httpMethod = none ∧ entry.httpUrl = none := by decide +kernel
  refine ⟨s, hs, by decide +kernel, fun entry hentry => ?_⟩
  obtain ⟨i, hi, hiff⟩ := history_insertable documented_demoDatabase ⟨65536⟩ hs hc hworlds hnames
    entry hentry
  obtain ⟨hname, hgroup, hmethod, hurl⟩ := hfits entry hentry
  refine ⟨i, hi, hiff.2 ⟨?_, ?_, ?_, ?_⟩⟩
  · rw [hname]
    decide
  · rw [hgroup]
    decide
  · rw [hmethod]
    rintro m ⟨⟩
  · rw [hurl]
    rintro url ⟨⟩

end CronManager
