import CronManager.Dsl.Loader
import CronManager.Executor.Dispatch

/-!
# Configuration

`AppConfig` of `src/config.rs`, as the YAML parser has filled it in, with what the rest of the
program reads off it and the process environment: the admin token, the per-group tokens, the
allow-listed hosts and the database DSN.  `bindIsLoopback` classifies a listen address.

The boot gates of `src/env_safety.rs` that look at a configuration (`credChecksFor`,
`postureChecksFor`) are at the end.
-/

namespace CronManager

open Rust

/-! ### The shape of the file -/

/-- Resource limits. -/
structure Limits where
  maxRequestBytes : ℕ
  maxResponseBytes : ℕ
  requestTimeoutSecs : ℕ
  shellTimeoutSecs : ℕ
  deriving DecidableEq, Repr

/-- Admin-gate configuration. -/
structure AdminConfig where
  bearerTokenEnv : String
  trustNetwork : Bool
  deriving DecidableEq, Repr

/-- Security hardening knobs. -/
structure SecurityConfig where
  blockPrivateNetworks : Bool
  allowDangerousEnvOverrides : Bool
  maxQueryParams : ℕ
  maxDslFileBytes : ℕ
  dslLoadTimeoutSecs : ℕ
  maxRetryCount : UInt32
  minCronIntervalSecs : ℤ
  reloadMinIntervalSecs : ℕ
  exposeJobsPublicly : Bool
  exposeRunningPublicly : Bool
  /-- Group name to the name of the environment variable with its token. -/
  perGroupTokenEnvs : BTreeMap String String
  allowedPrivateHosts : List String
  allowDevFixtureDsls : Bool

/-- The history database. -/
structure DatabaseCfg where
  url : String
  passwordEnv : String
  deriving DecidableEq, Repr

/-- Runtime configuration. -/
structure AppConfig where
  port : UInt16
  dslPath : OsStr
  allowedOrigins : List String
  shellEnvironment : BTreeMap String String
  limits : Limits
  admin : AdminConfig
  security : SecurityConfig
  database : Option DatabaseCfg

/-- `Limits::default`. -/
def Limits.default : Limits := ⟨1048576, 16777216, 30, 300⟩

/-- `AdminConfig::default`. -/
def AdminConfig.default : AdminConfig := ⟨"CRONMANAGER_ADMIN_TOKEN", false⟩

/-- `SecurityConfig::default`. -/
def SecurityConfig.default : SecurityConfig where
  blockPrivateNetworks := true
  allowDangerousEnvOverrides := false
  maxQueryParams := 64
  maxDslFileBytes := 1048576
  dslLoadTimeoutSecs := 15
  maxRetryCount := 10
  minCronIntervalSecs := 10
  reloadMinIntervalSecs := 60
  exposeJobsPublicly := true
  exposeRunningPublicly := true
  perGroupTokenEnvs := .empty
  allowedPrivateHosts := []
  allowDevFixtureDsls := false

/-- `AppConfig::default`. -/
def AppConfig.default : AppConfig where
  port := 8080
  dslPath := bytes "./DSL".toList
  allowedOrigins := []
  shellEnvironment := .empty
  limits := .default
  admin := .default
  security := .default
  database := none

/-! ### Tokens -/

/-- `resolve_admin_token`. -/
def AppConfig.resolveAdminToken (cfg : AppConfig) (env : ProcEnv) : Option String :=
  (env cfg.admin.bearerTokenEnv).filter (· ≠ "")

/-- `resolve_per_group_tokens`. -/
def AppConfig.resolvePerGroupTokens (cfg : AppConfig) (env : ProcEnv) : BTreeMap String String :=
  cfg.security.perGroupTokenEnvs.filterMap fun _ var => (env var).filter (· ≠ "")

/-- `split_allowed_private_hosts`: the usable entries and the others. -/
def SecurityConfig.splitAllowedPrivateHosts (sec : SecurityConfig) :
    List String × List String :=
  (sec.allowedPrivateHosts.filterMap normalizeAllowedHost,
    sec.allowedPrivateHosts.filter fun entry => (normalizeAllowedHost entry).isNone)

/-! ### The database DSN -/

/-- One byte of `percent_encode`. -/
def percentEncodeByte (b : UInt8) : List Char :=
  let ch := Char.ofNat b.toNat
  if isAsciiAlphanumeric ch || ch ∈ ['-', '.', '_', '~'] then [ch]
  else ['%', (Nat.digitChar (b.toNat / 16)).toUpper, (Nat.digitChar (b.toNat % 16)).toUpper]

/-- `percent_encode`. -/
def percentEncode (s : List Char) : List Char := (bytes s).flatMap percentEncodeByte

/-- `splice_password`. -/
def splicePassword (url password : List Char) : List Char :=
  match splitBefore "://".toList url with
  | none => url
  | some (scheme, sepAfter) =>
    let after := sepAfter.drop 3
    let (authority, rest) := (splitBefore ['/'] after).getD (after, [])
    let (userinfo, host) := (rsplitOnce (· == '@') authority).getD ([], authority)
    let user := ((splitOnce (· == ':') userinfo).map (·.1)).getD userinfo
    scheme ++ "://".toList ++ user ++ ':' :: percentEncode password ++ '@' :: host ++ rest

/-- `database_dsn`. -/
def AppConfig.databaseDsn (cfg : AppConfig) (env : ProcEnv) :
    Except CronManagerError (Option String) :=
  match cfg.database with
  | none => .ok none
  | some db => match env db.passwordEnv with
    | none =>
      let var := db.passwordEnv
      .error (.internal s!"env var {var} is unset but database.url is configured")
    | some password =>
      .ok (some (String.ofList (splicePassword db.url.toList password.toList)))

/-! ### The listen address -/

/-- The host part of a listen address. -/
def bindHost (bind : List Char) : List Char :=
  match stripPrefix ['['] bind with
  | some rest => ((splitOnce (· == ']') rest).map (·.1)).getD rest
  | none => ((rsplitOnce (· == ':') bind).map (·.1)).getD bind

/-- `bind_is_loopback`. -/
def bindIsLoopback (bind : List Char) : Bool :=
  let host := bindHost bind
  if host.isEmpty || host == ['*'] then false
  else match parseIpAddr host with
    | some ip => ip.isLoopback
    | none => host == "localhost".toList

/-- The address that `main` listens on. -/
def AppConfig.bind (cfg : AppConfig) : List Char :=
  "0.0.0.0:".toList ++ decimal cfg.port.toNat

/-- **The address that `main` listens on is never a loopback one.** -/
theorem bindIsLoopback_bind (cfg : AppConfig) : bindIsLoopback cfg.bind = false := by
  have hdigits : ∀ ch ∈ decimal cfg.port.toNat, (ch == ':') = false := by
    intro ch hch
    have hdigit := isDigit_decimal hch
    rw [beq_eq_false_iff_ne]
    rintro rfl
    cases hdigit
  have hbind : cfg.bind = "0.0.0.0".toList ++ ':' :: decimal cfg.port.toNat := rfl
  have hsplit : rsplitOnce (· == ':') cfg.bind =
      some ("0.0.0.0".toList, decimal cfg.port.toNat) := by
    rw [hbind]
    exact rsplitOnce_append hdigits rfl
  have hhost : bindHost cfg.bind = "0.0.0.0".toList := by
    have hstrip : stripPrefix ['['] cfg.bind = none := rfl
    simp only [bindHost, hstrip, hsplit, Option.map_some, Option.getD_some]
  simp only [bindIsLoopback, hhost]
  decide

/-! ### What is built from a configuration -/

/-- The `LoadPolicy` of `load_all_bounded`'s callers. -/
def SecurityConfig.loadPolicy (sec : SecurityConfig) (environment : Environment) :
    LoadPolicy where
  maxFileBytes := sec.maxDslFileBytes
  maxRetryCount := sec.maxRetryCount
  minCronIntervalSecs := sec.minCronIntervalSecs
  blockPrivateNetworks := sec.blockPrivateNetworks
  devFixtureAction := .fromEnv environment sec.allowDevFixtureDsls

/-- `offline_from_env`. -/
def offlineFromEnv (env : ProcEnv) : Bool :=
  match env "CRONMANAGER_OFFLINE" with
  | some v => String.ofList (toAsciiLowercase (trim v.toList)) ∈ ["true", "1", "yes", "on"]
  | none => false

/-- `ExecutorBundle::new`, once the HTTP client is built. -/
def AppConfig.bundle (cfg : AppConfig) (env : ProcEnv) : ExecutorBundle where
  http := ⟨cfg.limits.maxResponseBytes, cfg.limits.requestTimeoutSecs,
    cfg.security.blockPrivateNetworks, cfg.security.splitAllowedPrivateHosts.1⟩
  shell := ⟨cfg.shellEnvironment, cfg.limits.shellTimeoutSecs, cfg.limits.maxResponseBytes⟩
  offlineMode := offlineFromEnv env

/-! ### Boot gates -/

/-- `Environment::from_env`; the source keeps the first answer. -/
def Environment.fromEnv (env : ProcEnv) : Environment :=
  .fromEnvStr ((((env "APP_ENV").or (env "ENVIRONMENT")).or (env "DEPLOY_ENV")).getD "dev")

/-- `cred_checks_for`. -/
def credChecksFor (cfg : AppConfig) (env : ProcEnv) : List CredCheck :=
  ⟨"admin", "token", (cfg.resolveAdminToken env).getD "", 32⟩ ::
    match cfg.database with
    | some db => [⟨"database", "password", (env db.passwordEnv).getD "", 12⟩]
    | none => []

/-- `posture_checks_for`. -/
def postureChecksFor (cfg : AppConfig) : List PostureCheck :=
  [{ name := "admin.trust_network"
     isSafe := !cfg.admin.trustNetwork
     description := "the boot-time refusal on non-loopback binds without a token is DISABLED"
     fix := "set admin.trust_network=false and configure a bearer token" },
   { name := "security.block_private_networks"
     isSafe := cfg.security.blockPrivateNetworks
     description := "SSRF pre-flight is disabled; HTTP jobs may target link-local, RFC 1918, " ++
       "or ULA endpoints (cloud metadata included)"
     fix := "set security.block_private_networks=true (default)" },
   { name := "security.allow_dangerous_env_overrides"
     isSafe := !cfg.security.allowDangerousEnvOverrides
     description := "PATH / LD_* / DYLD_* / PYTHONPATH / NODE_OPTIONS can be set from " ++
       "/execute query params"
     fix := "set security.allow_dangerous_env_overrides=false (default)" },
   { name := "security.allow_dev_fixture_dsls"
     isSafe := !cfg.security.allowDevFixtureDsls
     description := "FLEET §11.3 — any file under dsl_path matching a dev-fixture pattern " ++
       "(dev-login, mock-, -mock, /test/, example-, -example, /dev/, /mocks/) loads with only " ++
       "a WARN in non-dev environments; otherwise refused"
     fix := "set security.allow_dev_fixture_dsls=false (default) and rename any dev-fixture " ++
       "files out of dsl_path" }]

end CronManager
