import Mathlib.Data.Int.Notation
import Mathlib.Data.Nat.Notation

/-!
# Execution history

One row of `job_execution_history` and the status it carries (`src/history/mod.rs`).
-/

namespace CronManager

/-- The status of an attempt or of a whole dispatch. -/
inductive ExecutionStatus where
  | success
  | failed
  | retrying
  | skipped
  | timeout
  /-- Short-circuited by `CRONMANAGER_OFFLINE`. -/
  | offline
  deriving DecidableEq, Repr

/-- `ExecutionStatus::as_str`. -/
def ExecutionStatus.asStr : ExecutionStatus → String
  | .success => "SUCCESS"
  | .failed => "FAILED"
  | .retrying => "RETRYING"
  | .skipped => "SKIPPED"
  | .timeout => "TIMEOUT"
  | .offline => "OFFLINE"

/-- One row in `job_execution_history`. -/
structure HistoryEntry where
  executionTime : ℤ
  jobName : String
  jobGroup : String
  jobType : String
  durationMs : Option ℤ
  status : ExecutionStatus
  httpMethod : Option String
  httpUrl : Option String
  httpStatusCode : Option ℤ
  attemptNumber : ℤ
  maxAttempts : ℤ
  responseBody : Option String
  errorMessage : Option String
  deriving DecidableEq, Repr

end CronManager
