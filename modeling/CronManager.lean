import CronManager.Machine
import CronManager.Pool
import CronManager.Lease
import CronManager.Rust.Str
import CronManager.Rust.Slice
import CronManager.Rust.Net
import CronManager.Rust.Cidr
import CronManager.Rust.Result
import CronManager.Rust.BTreeMap
import CronManager.Rust.HashMap
import CronManager.Error
import CronManager.Security
import CronManager.Sanitize
import CronManager.AddressClasses
import CronManager.EnvSafety
import CronManager.Creds
import CronManager.History
import CronManager.Dsl.Basic
import CronManager.Dsl.Raw
import CronManager.Dsl.Spec
import CronManager.Dsl.Headers
import CronManager.Dsl.Loader
import CronManager.Dsl.Walk
import CronManager.Executor.Http
import CronManager.Executor.Ssrf
import CronManager.Executor.Headers
import CronManager.Executor.Shell
import CronManager.Executor.Bounded
import CronManager.Executor.Dispatch
import CronManager.Executor.Retry
import CronManager.Executor.Rows
import CronManager.Executor.Attempts
import CronManager.Executor.Secrets
import CronManager.Executor.Texts
import CronManager.Executor.Step
import CronManager.Scheduler.State
import CronManager.Scheduler.Step
import CronManager.Scheduler.Flow
import CronManager.Scheduler.Ownership
import CronManager.Scheduler.Identity
import CronManager.Scheduler.Loops
import CronManager.Scheduler.Stop
import CronManager.Scheduler.Stoppable
import CronManager.Scheduler.Window
import CronManager.Scheduler.Ticks
import CronManager.Scheduler.Describe
import CronManager.Scheduler.Listing
import CronManager.Scheduler.LastExecution
import CronManager.Scheduler.Api
import CronManager.Scheduler.Reload
import CronManager.Scheduler.Strictness
import CronManager.Scheduler.Records
import CronManager.History.Postgres
import CronManager.Scheduler.Results
import CronManager.Scheduler.Replies
import CronManager.Scheduler.Progress
import CronManager.Scheduler.Runs
import CronManager.Scheduler.Causes
import CronManager.Scheduler.Firing
import CronManager.Config
import CronManager.Executor.Preconditions
import CronManager.Executor.Preflight
import CronManager.AllowedHosts
import CronManager.Executor.Timeout
import CronManager.Dsn
import CronManager.Rfc3986
import CronManager.Splice
import CronManager.Router.Gate
import CronManager.Router.Handlers
import CronManager.Router.Throttle
import CronManager.Router.Admission
import CronManager.Router.Execute
import CronManager.Boot
import CronManager.App.Step
import CronManager.App.Policy
import CronManager.App.Trust
import CronManager.App.Reloads
import CronManager.App.Serve
import CronManager.Router.Token
import CronManager.Router.Trace
import CronManager.Router.Layers
import CronManager.Doctor
import CronManager.Startup
