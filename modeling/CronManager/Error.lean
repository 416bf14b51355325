import Mathlib.Data.Nat.Notation

/-!
# Structured errors

`CronManagerError` of `src/error.rs` with the texts of its `Display` implementation, which is
what ends up in history rows.  The errors of the standard library and of other crates that a
variant wraps are their texts.
-/

namespace CronManager

/-- Every failure surfaced to a caller. -/
inductive CronManagerError where
  | jobNotFound (group name : String)
  | jobAlreadyRunning (group name : String)
  | invalidJobDefinition (sourcePath reason : String)
  | invalidConfig (path reason : String)
  | invalidCron (expression reason : String)
  | requestTooLarge (limit : ℕ)
  | tooManyQueryParams (count limit : ℕ)
  | unauthorized
  | forbidden (message : String)
  | tooManyRequests (retryAfterSecs : ℕ)
  | badRequest (message : String)
  | upstreamHttpError (status : ℕ) (body : String)
  | upstreamTimeout (seconds : ℕ)
  | upstreamBodyTooLarge (limit : ℕ)
  | shellFailed (message : String)
  | shellTimeout (seconds : ℕ)
  | io (error : String)
  | yamlParse (path source : String)
  | database (message : String)
  | internal (message : String)
  deriving DecidableEq, Repr

namespace CronManagerError

/-- The `Display` text of an error. -/
def display : CronManagerError → String
  | jobNotFound group name => s!"job not found: {group}/{name}"
  | jobAlreadyRunning group name => s!"job already running: {group}/{name}"
  | invalidJobDefinition sourcePath reason => s!"invalid job definition {sourcePath}: {reason}"
  | invalidConfig path reason => s!"invalid config file {path}: {reason}"
  | invalidCron expression reason => s!"invalid cron expression '{expression}': {reason}"
  | requestTooLarge limit => s!"request body exceeds {limit} bytes"
  | tooManyQueryParams count limit =>
    s!"too many query parameters: {count} exceeds cap {limit}"
  | unauthorized => "missing or invalid admin bearer token"
  | forbidden message => s!"forbidden: {message}"
  | tooManyRequests retryAfterSecs =>
    s!"too many requests: {retryAfterSecs}s minimum interval"
  | badRequest message => s!"bad request: {message}"
  | upstreamHttpError status body => s!"upstream HTTP error {status}: {body}"
  | upstreamTimeout seconds => s!"upstream request timed out after {seconds}s"
  | upstreamBodyTooLarge limit => s!"upstream response exceeds {limit} bytes"
  | shellFailed message => s!"shell command exited non-zero: {message}"
  | shellTimeout seconds => s!"shell command exceeded {seconds}s wall clock"
  | io error => s!"io error: {error}"
  | yamlParse path source => s!"yaml parse error at {path}: {source}"
  | database message => s!"database error: {message}"
  | internal message => s!"internal error: {message}"

/-- `CronManagerError::status`: the HTTP status of the response. -/
def status : CronManagerError → ℕ
  | jobNotFound .. => 404
  | jobAlreadyRunning .. => 409
  | invalidJobDefinition .. | invalidConfig .. | invalidCron .. | badRequest _ => 400
  | unauthorized => 401
  | forbidden _ => 403
  | tooManyRequests _ => 429
  | requestTooLarge _ | tooManyQueryParams .. => 413
  | upstreamHttpError .. | upstreamBodyTooLarge _ => 502
  | upstreamTimeout _ => 504
  | shellFailed _ | shellTimeout _ | io _ | yamlParse .. | database _ | internal _ => 500

end CronManagerError

end CronManager
