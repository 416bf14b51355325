import CronManager.Executor.Step
import CronManager.Rust.HashMap

/-!
# The shared state of the scheduler

The maps that the tasks of `src/scheduler.rs` share, and the operations that the source performs
under one lock acquisition each.  The objects behind an `Arc` have identities: the runtime states
of the jobs, the `Notify` of a running instance and the Tokio tasks are numbered by one counter.

`begun`, `taken` and `signals` are not in the source: they count, for each `Notify`, the phases
that the dispatch it belongs to has begun, the cancel branches it has taken, and the calls of
`notify_waiters`.
-/

namespace CronManager

open Rust

/-- Per-job runtime state, updated as fires happen. -/
structure JobRuntimeState where
  lastExecutionMs : Option ℤ
  lastResult : String
  deriving DecidableEq, Repr

/-- `JobRuntimeState::default`. -/
def JobRuntimeState.default : JobRuntimeState := ⟨none, ""⟩

/-- The identity of a Tokio task. -/
abbrev TaskId := ℕ

/-- The identity of an `Arc<Mutex<JobRuntimeState>>`. -/
abbrev ArcId := ℕ

/-- The identity of an `Arc<Notify>`. -/
abbrev NotifyId := ℕ

/-- Per-job registration; `task` is the scheduling loop behind the `JoinHandle`. -/
structure RegisteredJob where
  spec : JobSpec
  state : ArcId
  task : Option TaskId
  deriving DecidableEq, Repr

/-- A running instance. -/
structure RunningInstance where
  startedAtMs : ℤ
  schedule : String
  cancel : NotifyId
  deriving DecidableEq, Repr

/-- What the tasks of the scheduler share. -/
structure Shared where
  jobs : HashMap JobKey RegisteredJob
  running : HashMap JobKey RunningInstance
  states : ArcId → JobRuntimeState
  history : List HistoryEntry
  /-- The wall clock. -/
  now : ℤ
  /-- Every identity from here on is unused. -/
  fresh : ℕ
  begun : NotifyId → ℕ
  taken : NotifyId → ℕ
  signals : NotifyId → ℕ

/-- The schedule text of a trigger. -/
def Trigger.scheduleStr : Trigger → String
  | .cron expr => expr
  | .manual => ""

namespace Shared

/-- The state of `Scheduler::new`. -/
def init : Shared where
  jobs := ∅
  running := ∅
  states _ := .default
  history := []
  now := 0
  fresh := 0
  begun _ := 0
  taken _ := 0
  signals _ := 0

/-- `jobs.remove(key)`. -/
def removeJob (m : Shared) (key : JobKey) : Shared := { m with jobs := m.jobs.erase key }

/-- `jobs.insert(key, job)`. -/
def insertJob (m : Shared) (job : RegisteredJob) : Shared :=
  { m with jobs := m.jobs.insert job.spec.key job }

/-- `jobs.clear()`. -/
def clearJobs (m : Shared) : Shared := { m with jobs := ∅ }

/-- The new runtime state of `register` and, for a cron trigger, the identity of the task it
spawns. -/
def prepareJob (m : Shared) (spec : JobSpec) : Shared × RegisteredJob :=
  let task := match spec.trigger with
    | .cron _ => some (m.fresh + 1)
    | .manual => none
  ({ m with states := Function.update m.states m.fresh .default, fresh := m.fresh + 2 },
    ⟨spec, m.fresh, task⟩)

/-- `begin_running`, with the identity of the new `Notify`. -/
def beginRunning (m : Shared) (key : JobKey) (schedule : String) :
    Except CronManagerError (Shared × NotifyId) :=
  if (m.running.lookup key).isSome then .error (.jobAlreadyRunning key.group key.name)
  else .ok ({ m with
    running := m.running.insert key ⟨m.now, schedule, m.fresh⟩
    fresh := m.fresh + 1 }, m.fresh)

/-- `running.remove(key)`. -/
def removeRunning (m : Shared) (key : JobKey) : Shared :=
  { m with running := m.running.erase key }

/-- `record_outcome`. -/
def recordOutcome (m : Shared) (state : ArcId) (outcome : DispatchOutcome) : Shared :=
  { m with states := Function.update m.states state ⟨some m.now, outcome.status.asStr⟩ }

/-- `record_skip`. -/
def recordSkip (m : Shared) (state : ArcId) (nowMs : ℤ) : Shared :=
  { m with states := Function.update m.states state ⟨some nowMs, "SKIPPED"⟩ }

/-- `history.record`. -/
def record (m : Shared) (rows : List HistoryEntry) : Shared :=
  { m with history := m.history ++ rows }

/-- Count the calls of `notify_waiters` on the given objects. -/
def countSignals (m : Shared) (ns : List NotifyId) : Shared :=
  { m with signals := fun n => m.signals n + ns.count n }

/-- Count what one step of a dispatch from `d` to `d'` begins and takes, and keep its rows. -/
def advance (m : Shared) (cancel : NotifyId) (d d' : Dispatch) : Shared :=
  { m with
    history := m.history ++ d'.rows.drop d.rows.length
    begun := Function.update m.begun cancel (m.begun cancel + d'.phase.begins.toNat)
    taken := Function.update m.taken cancel (m.taken cancel + d.takesCancel.toNat) }

/-- A fresh identity. -/
def alloc (m : Shared) : Shared := { m with fresh := m.fresh + 1 }

/-- When `begin_running` succeeds, and what it does then. -/
theorem beginRunning_eq_ok {m m' : Shared} {key : JobKey} {schedule : String} {n : NotifyId} :
    m.beginRunning key schedule = .ok (m', n) ↔
      m.running.lookup key = none ∧ n = m.fresh ∧
        m' = { m with
          running := m.running.insert key ⟨m.now, schedule, m.fresh⟩
          fresh := m.fresh + 1 } := by
  simp only [beginRunning]
  cases m.running.lookup key with
  | some inst => simp
  | none =>
    simp only [Option.isSome_none, Bool.false_eq_true, if_false, Except.ok.injEq, Prod.mk.injEq,
      true_and]
    constructor
    · rintro ⟨rfl, rfl⟩
      exact ⟨rfl, rfl⟩
    · rintro ⟨rfl, rfl⟩
      exact ⟨rfl, rfl⟩

end Shared

/-- The row of a fire outside its time window. -/
def windowSkipRow (spec : JobSpec) (now : ℤ) : HistoryEntry where
  executionTime := now
  jobName := spec.key.name
  jobGroup := spec.key.group
  jobType := spec.kind.typeLabel
  durationMs := some 0
  status := .skipped
  httpMethod := none
  httpUrl := none
  httpStatusCode := none
  attemptNumber := 1
  maxAttempts := 1
  responseBody := none
  errorMessage := some "outside time window"

end CronManager
