import CronManager.Dsl.Basic
import CronManager.Rust.BTreeMap
import CronManager.Rust.Net

/-!
# What comes from other crates

The loader and the executors call `serde_yaml_ng`, `cron`, `url` and `http`, whose code is not
part of the repository.  `Crates` collects the functions they use.  The types of their results
are the repository's own (`RawJob`, the YAML shape of a job) or follow the crates' documented
types (`Url`, `Host`).  A domain host carries the fact that its text is not an IP address: for the
schemes that the loader accepts, the URL parser turns every such text into an address host.
-/

namespace CronManager

open Rust

/-- A process environment, as `std::env::var` reads it. -/
abbrev ProcEnv := String → Option String

/-! ### The YAML shape of a job -/

/-- The `trigger:` field: a boolean or a string. -/
inductive RawTrigger where
  | bool (b : Bool)
  | str (s : String)
  deriving DecidableEq, Repr

/-- The `command:` field: a whitespace-tokenised string or an explicit list. -/
inductive RawCommand where
  | string (s : String)
  | list (argv : List String)
  deriving DecidableEq, Repr

/-- A job as it stands in the YAML file. -/
structure RawJob where
  trigger : RawTrigger
  ty : String
  startDate : Option ℤ
  endDate : Option ℤ
  retryCount : Option UInt32
  retryDelayMs : Option ℕ
  ignoreFailures : Option Bool
  method : Option String
  url : Option String
  headers : Option (BTreeMap String String)
  headerEnvs : Option (BTreeMap String String)
  command : Option RawCommand
  allowedEnvs : Option (List String)

/-! ### URLs -/

/-- The text of a domain host. -/
structure DomainName where
  text : String
  notIp : parseIpAddr text.toList = none

/-- `url::Host`. -/
inductive Host where
  | domain (d : DomainName)
  | ipv4 (a : Ipv4Addr)
  | ipv6 (a : Ipv6Addr)

/-- What the source reads off a parsed `url::Url`. -/
structure Url where
  scheme : String
  host : Option Host
  port : Option ℕ

/-- The text of a host: IPv6 literals are bracketed. -/
def Host.text : Host → String
  | .domain d => d.text
  | .ipv4 a => String.ofList a.display
  | .ipv6 a => String.ofList ('[' :: a.display ++ [']'])

/-- `Url::host_str`. -/
def Url.hostStr (u : Url) : Option String := u.host.map Host.text

/-- The address that an IP literal stands for. -/
def Host.literal : Host → Option IpAddr
  | .domain _ => none
  | .ipv4 a => some (.v4 a)
  | .ipv6 a => some (.v6 a)

/-! ### The crates -/

/-- The functions of other crates that the source calls. -/
structure Crates where
  /-- `serde_yaml_ng::from_str` at `BTreeMap<String, RawJob>`. -/
  yamlFromStr : String → Except String (BTreeMap String RawJob)
  /-- `cron::Schedule::from_str`. -/
  cronFromStr : String → Except String Unit
  /-- `Schedule::upcoming(Utc).next()` of a parsed expression, at an instant. -/
  cronUpcoming : String → ℤ → Option ℤ
  /-- `url::Url::parse`. -/
  urlParse : String → Except String Url
  /-- `Method::from_bytes` of the upper-cased text. -/
  methodFromBytes : String → Option String
  /-- `HeaderName::from_bytes`, with the canonical text of the name. -/
  headerName : String → Option String
  /-- `HeaderValue::from_str` accepts the text. -/
  headerValueOk : String → Bool
  /-- `AllowOrigin::list` returns; it panics otherwise. -/
  allowOriginList : List (List UInt8) → Bool

/-- Other crates' functions for runs that never call them. -/
def noCrates : Crates where
  yamlFromStr _ := .error "unused"
  cronFromStr _ := .error "unused"
  cronUpcoming _ _ := none
  urlParse _ := .error "unused"
  methodFromBytes _ := none
  headerName _ := none
  headerValueOk _ := false
  allowOriginList origins := !origins.contains [0x2A]

end CronManager
