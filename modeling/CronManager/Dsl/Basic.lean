import Mathlib.Data.Int.Notation
import Mathlib.Data.Nat.Notation

/-!
# Jobs

The types of `src/dsl/mod.rs` that the loader produces and the scheduler and the executors
consume.  Instants are Unix milliseconds, delays are milliseconds; `count` is a `u32`, so
`count + 1` wraps the way the executor's arithmetic does.
-/

namespace CronManager

/-- Fully qualified job identity. -/
@[ext]
structure JobKey where
  group : String
  name : String
  deriving DecidableEq, Repr

/-- The two firing modes. -/
inductive Trigger where
  /-- A cron expression, kept as written. -/
  | cron (expr : String)
  /-- Fired through `/execute` only. -/
  | manual
  deriving DecidableEq, Repr

/-- Optional wall-clock window. -/
structure TimeWindow where
  startMs : Option ℤ
  endMs : Option ℤ
  deriving DecidableEq, Repr

/-- `TimeWindow::allows`. -/
def TimeWindow.allows (w : TimeWindow) (nowMs : ℤ) : Bool :=
  (match w.startMs with
    | some s => !decide (nowMs < s)
    | none => true) &&
  (match w.endMs with
    | some e => !decide (e < nowMs)
    | none => true)

/-- Retry policy: `count` retries after the first attempt, `delay` milliseconds apart. -/
structure RetryPolicy where
  count : UInt32
  delay : ℕ
  ignoreFailures : Bool
  deriving DecidableEq, Repr

/-- `RetryPolicy::default`. -/
def RetryPolicy.default : RetryPolicy := ⟨0, 1000, false⟩

/-- Where a header value comes from. -/
inductive HeaderSource where
  /-- Literal value from the DSL. -/
  | literal (value : String)
  /-- Name of an environment variable read at fire time. -/
  | env (var : String)
  deriving DecidableEq, Repr

/-- One extra request header of an HTTP job. -/
structure HttpHeader where
  name : String
  source : HeaderSource
  deriving DecidableEq, Repr

/-- The two job kinds. -/
inductive JobKind where
  | http (method url : String) (headers : List HttpHeader)
  | exec (argv allowedEnvs : List String)
  deriving DecidableEq, Repr

/-- `JobKind::type_label`. -/
def JobKind.typeLabel : JobKind → String
  | .http .. => "http"
  | .exec .. => "exec"

/-- One scheduled unit of work. -/
structure JobSpec where
  key : JobKey
  trigger : Trigger
  window : TimeWindow
  retry : RetryPolicy
  kind : JobKind
  deriving DecidableEq, Repr

/-- A job with the text of the path it was loaded from. -/
structure LoadedJob where
  spec : JobSpec
  sourcePath : String
  deriving DecidableEq, Repr

end CronManager
