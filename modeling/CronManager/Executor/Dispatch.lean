import CronManager.Executor.Shell
import CronManager.History

/-!
# Dispatch: the retry loop

`ExecutorBundle::dispatch` of `src/executor/mod.rs`, as a function of what the outside world
does (`DispatchWorld`): the world of each attempt, and for each retry delay whether
`cancel.notified()` cut it short.  A `DispatchRun` keeps the attempts that were started, the
history rows in the order in which they were recorded, and the outcome.
-/

namespace CronManager

/-- `ExecutorBundle`; the recorder is the list of rows of a `DispatchRun`. -/
structure ExecutorBundle where
  http : HttpExecutor
  shell : ShellExecutor
  offlineMode : Bool

/-- Extra environment of a shell invocation. -/
structure DispatchExtras where
  envOverrides : List (String × String)
  deriving DecidableEq, Repr

/-- Result of a full retry sequence. -/
structure DispatchOutcome where
  status : ExecutionStatus
  attempts : ℕ
  lastError : Option String
  deriving DecidableEq, Repr

/-- The carrier that unifies HTTP and shell outcomes. -/
structure HttpDispatchResult where
  responseBody : Option String
  httpStatusCode : Option ℤ
  errorMessage : Option String
  isShellTimeout : Bool
  deriving DecidableEq, Repr

namespace HttpDispatchResult

/-- `from_ok`. -/
def fromOk (res : HttpAttempt) : HttpDispatchResult := ⟨some res.body, some res.status, none, false⟩

/-- `from_err`. -/
def fromErr (err : CronManagerError) : HttpDispatchResult :=
  let code := match err with
    | .upstreamHttpError status _ => some (status : ℤ)
    | _ => none
  ⟨none, code, some err.display, false⟩

/-- `from_shell_ok`. -/
def fromShellOk (res : ShellAttempt) : HttpDispatchResult := ⟨some res.stdout, none, none, false⟩

/-- `from_shell_err`. -/
def fromShellErr (err : CronManagerError) : HttpDispatchResult :=
  let timeout := match err with
    | .shellTimeout _ => true
    | _ => false
  ⟨none, none, some err.display, timeout⟩

end HttpDispatchResult

/-- What the outside world does during one attempt. -/
structure AttemptWorld where
  /-- `Utc::now()` at the start of the attempt. -/
  startedAt : ℤ
  durationMs : ℤ
  http : HttpWorld
  shell : ShellWorld

/-- An await that nothing in the program bounds.  The client's timeout bounds the request and the
read of its body. -/
inductive Await where
  /-- `lookup_host` in the pre-flight. -/
  | lookup
  /-- `child.kill()`. -/
  | kill
  /-- The two tasks that read the child's pipes, until whoever inherited them has closed them. -/
  | pipes
  /-- The write of a history row. -/
  | row
  deriving DecidableEq, Repr

/-- What the outside world does during one dispatch. -/
structure DispatchWorld where
  attempt : ℕ → AttemptWorld
  /-- The retry delay after this attempt ends through `cancel.notified()`. -/
  delayCut : ℕ → Bool
  /-- `Utc::now()` in `offline_stub`. -/
  offlineAt : ℤ
  /-- This await of this attempt never ends; `ExecutorBundle.dispatch` is about dispatches whose
  awaits end. -/
  hangs : ℕ → Await → Bool := fun _ _ => false

/-- What a dispatch did. -/
structure DispatchRun where
  /-- The attempts that were started, in order. -/
  started : List ℕ
  rows : List HistoryEntry
  outcome : DispatchOutcome
  deriving DecidableEq, Repr

/-- `n as i32`. -/
def asI32 (n : ℕ) : ℤ := (Int32.ofNat n).toInt

/-- `max_attempts`: wraps like the `u32` addition it is. -/
def RetryPolicy.maxAttempts (r : RetryPolicy) : ℕ := (r.count + 1).toNat

/-- The method and the URL that history rows carry. -/
def JobKind.httpFields : JobKind → Option String × Option String
  | .http method url _ => (some method, some url)
  | .exec .. => (none, none)

variable (c : Crates) (b : ExecutorBundle)

/-- One attempt. -/
def ExecutorBundle.attempt (spec : JobSpec) (extras : DispatchExtras) (w : AttemptWorld) :
    Except HttpDispatchResult HttpDispatchResult :=
  match spec.kind with
  | .http method url headers => match (b.http.execute c method url headers w.http).result with
    | .ok res => .ok (.fromOk res)
    | .error e => .error (.fromErr e)
  | .exec argv allowedEnvs =>
    match (b.shell.execute argv allowedEnvs extras.envOverrides w.shell).result with
    | .ok res => .ok (.fromShellOk res)
    | .error e => .error (.fromShellErr e)

/-- The status of the history row of attempt `attempt`. -/
def rowStatus (attempt maxAttempts : ℕ) :
    Except HttpDispatchResult HttpDispatchResult → ExecutionStatus
  | .ok _ => .success
  | .error r =>
    if r.isShellTimeout then .timeout
    else if attempt < maxAttempts then .retrying
    else .failed

/-- The history row of attempt `attempt`. -/
def attemptRow (spec : JobSpec) (w : AttemptWorld) (attempt maxAttempts : ℕ)
    (result : Except HttpDispatchResult HttpDispatchResult) : HistoryEntry where
  executionTime := w.startedAt
  jobName := spec.key.name
  jobGroup := spec.key.group
  jobType := spec.kind.typeLabel
  durationMs := some w.durationMs
  status := rowStatus attempt maxAttempts result
  httpMethod := spec.kind.httpFields.1
  httpUrl := spec.kind.httpFields.2
  httpStatusCode := match result with
    | .ok r | .error r => r.httpStatusCode
  attemptNumber := asI32 attempt
  maxAttempts := asI32 maxAttempts
  responseBody := match result with
    | .ok r => r.responseBody
    | .error _ => none
  errorMessage := match result with
    | .ok _ => none
    | .error r => r.errorMessage

/-- Put an attempt and its row in front of a run. -/
def DispatchRun.cons (attempt : ℕ) (row : HistoryEntry) (r : DispatchRun) : DispatchRun :=
  ⟨attempt :: r.started, row :: r.rows, r.outcome⟩

/-- The outcome when every attempt failed. -/
def exhausted (spec : JobSpec) (maxAttempts : ℕ) (lastError : Option String) : DispatchOutcome :=
  ⟨if spec.retry.ignoreFailures then .skipped else .failed, maxAttempts, lastError⟩

/-- The outcome when a retry delay was cut short. -/
def delayAborted (attempt : ℕ) : DispatchOutcome := ⟨.failed, attempt, some "aborted by /stop"⟩

/-- The retry loop from `attempt` on, with `left` iterations to go. -/
def ExecutorBundle.dispatchLoop (spec : JobSpec) (extras : DispatchExtras) (w : DispatchWorld)
    (maxAttempts : ℕ) : (left attempt : ℕ) → (lastError : Option String) → DispatchRun
  | 0, _, lastError => ⟨[], [], exhausted spec maxAttempts lastError⟩
  | left + 1, attempt, _ =>
    let result := b.attempt c spec extras (w.attempt attempt)
    let row := attemptRow spec (w.attempt attempt) attempt maxAttempts result
    match result with
    | .ok _ => ⟨[attempt], [row], ⟨.success, attempt, none⟩⟩
    | .error r =>
      -- a timeout is not retried
      if r.isShellTimeout then ⟨[attempt], [row], ⟨.timeout, attempt, r.errorMessage⟩⟩
      -- there is no delay after the last attempt
      else if attempt < maxAttempts ∧ w.delayCut attempt = true then
        ⟨[attempt], [row], delayAborted attempt⟩
      else (dispatchLoop spec extras w maxAttempts left (attempt + 1) r.errorMessage).cons
        attempt row

/-- `offline_stub`. -/
def offlineStub (spec : JobSpec) (now : ℤ) : DispatchRun where
  started := []
  rows := [{
    executionTime := now
    jobName := spec.key.name
    jobGroup := spec.key.group
    jobType := spec.kind.typeLabel
    durationMs := some 0
    status := .offline
    httpMethod := spec.kind.httpFields.1
    httpUrl := spec.kind.httpFields.2
    httpStatusCode := none
    attemptNumber := 1
    maxAttempts := 1
    responseBody := none
    errorMessage := some "CRONMANAGER_OFFLINE=true" }]
  outcome := ⟨.offline, 1, none⟩

/-- `ExecutorBundle::dispatch`. -/
def ExecutorBundle.dispatch (spec : JobSpec) (extras : DispatchExtras) (w : DispatchWorld) :
    DispatchRun :=
  if b.offlineMode then offlineStub spec w.offlineAt
  else b.dispatchLoop c spec extras w spec.retry.maxAttempts spec.retry.maxAttempts 1 none

end CronManager
