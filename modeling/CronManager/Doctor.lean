import CronManager.Boot

/-!
# Doctor

`cronmanager doctor` (`src/doctor.rs`) audits the configuration that the process would boot with:
`Doctor.run` lists its findings, and the exit code is 1 if one of them is `FATAL`.  Its
documentation says that it runs every check that boot itself would run.

* `exitCode_run_iff` : the exit code is 1 exactly if one of the three boot gates refuses;
* `boot_error_iff` : when `main` stops before it listens, socket and timeout failures aside;
* `doctor_replays_boot_iff` : when the two agree.  Doctor never builds the DSN, walks `dsl_path` or
  builds the router, so it misses an unset database password in a dev environment, every tree that
  does not load and the origin `*`; and it panics where the credential check does.
-/

namespace CronManager

open Rust

/-- Severity of a finding. -/
inductive Severity where
  | info
  | weak
  | brk
  | fatal
  deriving DecidableEq, Repr

/-- `Severity::label`. -/
def Severity.label : Severity → String
  | .fatal => "FATAL"
  | .brk => "BREAK"
  | .weak => "WEAK "
  | .info => "INFO "

/-- One finding produced by a check. -/
structure Finding where
  severity : Severity
  name : String
  message : String
  deriving DecidableEq, Repr

/-- Full doctor result. -/
structure DoctorReport where
  env : Environment
  findings : List Finding
  deriving DecidableEq, Repr

namespace DoctorReport

variable (r : DoctorReport)

/-- The number of findings of a severity. -/
def count (severity : Severity) : ℕ := (r.findings.filter (·.severity = severity)).length

/-- `fatal_count`. -/
def fatalCount : ℕ := r.count .fatal

/-- `exit_code`. -/
def exitCode : ℤ := if 0 < r.fatalCount then 1 else 0

/-- One line of `render`. -/
def line (f : Finding) : String :=
  let label := f.severity.label
  let name := f.name
  let message := f.message
  s!"[{label}] {name}: {message}\n"

/-- `render`. -/
def render : String :=
  let env := String.ofList (toAsciiLowercase r.env.debug.toList)
  let lines := "".intercalate (r.findings.map line)
  let fatal := r.fatalCount
  let breaks := r.count .brk
  let weaks := r.count .weak
  let infos := r.count .info
  s!"cronmanager doctor — {env} environment\n{lines}" ++
    s!"summary: {fatal} fatal, {breaks} break, {weaks} weak, {infos} info\n"

end DoctorReport

namespace Doctor

/-- `{:?}` of one character of a string; `unprintable` are the characters that the tables of the
standard library have as not printable or as grapheme extensions. -/
def debugChar (unprintable : Char → Bool) (ch : Char) : List Char :=
  if ch.toNat = 0 then "\\0".toList
  else if ch.toNat = 9 then "\\t".toList
  else if ch.toNat = 10 then "\\n".toList
  else if ch.toNat = 13 then "\\r".toList
  else if ch.toNat = 0x22 ∨ ch.toNat = 0x5C then "\\".toList ++ [ch]
  else if unprintable ch then
    "\\u\x7b".toList ++ Nat.toDigits 16 ch.toNat ++ "\x7d".toList
  else [ch]

/-- `{:?}` of a string. -/
def debugStr (unprintable : Char → Bool) (s : String) : String :=
  "\"" ++ String.ofList (s.toList.flatMap (debugChar unprintable)) ++ "\""

/-- A finding that is made if `b`. -/
def pushIf (b : Bool) (f : Finding) : List Finding := if b then [f] else []

variable (unprintable : Char → Bool) (cfg : AppConfig) (env : ProcEnv) (tree : Option FsNode)
  (environment : Environment)

/-- The text of `dsl_path`. -/
def dslPathText : String := displayPath cfg.dslPath []

/-- `admin_token_present`. -/
def adminTokenPresent : Bool := (cfg.resolveAdminToken env).isSome

/-- The `INFO` block. -/
def infoFindings : List Finding :=
  let port := cfg.port
  let dslPath := dslPathText cfg
  let token := if adminTokenPresent cfg env then "resolved from env" else "NOT set"
  [⟨.info, "port", s!"bind port {port}"⟩] ++
    pushIf (offlineFromEnv env) ⟨.info, "offline_mode",
      "CRONMANAGER_OFFLINE=true — every dispatch will be stubbed to status=OFFLINE"⟩ ++
    [⟨.info, "dsl_path", s!"DSL directory: {dslPath}"⟩,
      ⟨.info, "history", if cfg.database.isSome then "database persistence configured"
        else "history persistence disabled (NoopRecorder)"⟩,
      ⟨.info, "admin.token", s!"admin bearer token {token}"⟩]

/-- The `BREAK` findings about `dsl_path`. -/
def dslPathFindings : List Finding :=
  let dslPath := dslPathText cfg
  match tree with
  | none => [⟨.brk, "dsl_path",
      s!"DSL directory does not exist: {dslPath} — scheduler will boot with 0 jobs"⟩]
  | some (.file ..) => [⟨.brk, "dsl_path", s!"DSL path is not a directory: {dslPath}"⟩]
  | some (.dir ..) => []

/-- The `BREAK` findings about the database. -/
def databaseFindings : List Finding :=
  match cfg.database with
  | none => []
  | some db =>
    let var := db.passwordEnv
    match env db.passwordEnv with
    | none => [⟨.brk, "database.password_env",
        s!"env var `{var}` is not set; database.url is configured"⟩]
    | some v => pushIf (v = "") ⟨.brk, "database.password_env",
        s!"env var `{var}` is empty; database.url is configured"⟩

/-- The replay of `refuse_to_start_without_token`. -/
def refuseFindings : List Finding :=
  let bind := String.ofList cfg.bind
  match refuseToStartWithoutToken cfg cfg.bind (adminTokenPresent cfg env) with
  | .ok () => []
  | .error _ => [⟨.fatal, "refuse_to_start", "process would REFUSE to boot: non-loopback bind " ++
      s!"{bind} without an admin token and admin.trust_network=false"⟩]

/-- The findings about the allow-listed hosts. -/
def allowedHostFindings : List Finding :=
  let (valid, invalid) := cfg.security.splitAllowedPrivateHosts
  let hosts := ", ".intercalate valid
  if cfg.security.allowedPrivateHosts.isEmpty then []
  else
    pushIf (!valid.isEmpty) ⟨.info, "security.allowed_private_hosts",
        s!"private-address access allowed for: {hosts} (link-local / metadata still refused)"⟩ ++
      invalid.map fun entry =>
        let shown := debugStr unprintable entry
        ⟨.weak, "security.allowed_private_hosts",
          s!"entry {shown} is not a plain hostname and is ignored"⟩

/-- The findings about the tokens of the groups. -/
def groupTokenFindings : List Finding :=
  cfg.security.perGroupTokenEnvs.entries.flatMap fun (group, var) =>
    pushIf ((env var).getD "" = "") ⟨.weak, "security.per_group_token_envs",
      s!"group {group}: env var {var} is unset or empty — falls back to master-only"⟩

/-- The `WEAK` block. -/
def weakFindings : List Finding :=
  let present := adminTokenPresent cfg env
  let var := cfg.admin.bearerTokenEnv
  pushIf (cfg.limits.requestTimeoutSecs = 0) ⟨.weak, "limits.request_timeout_secs",
      "request timeout disabled (0) — slow upstream can pin the executor"⟩ ++
    pushIf (cfg.limits.shellTimeoutSecs = 0) ⟨.weak, "limits.shell_timeout_secs",
      "shell timeout disabled (0) — runaway process will not be SIGKILLed"⟩ ++
    pushIf (cfg.allowedOrigins.any (· == "*")) ⟨.weak, "allowed_origins",
      "`*` is treated as an exact origin string, not a wildcard — CORS will not match browsers"⟩ ++
    pushIf (!present) ⟨.weak, "admin.token", "admin bearer token not configured — set env " ++
      s!"{var} for the token, or admin.trust_network=true if a proxy authenticates every request"⟩ ++
    pushIf cfg.admin.trustNetwork ⟨.weak, "admin.trust_network", "trust_network=true — the " ++
      "loopback-only boot refusal is DISABLED; only safe behind an authenticating proxy"⟩ ++
    pushIf (!cfg.security.blockPrivateNetworks) ⟨.weak, "security.block_private_networks",
      "block_private_networks=false — HTTP jobs can reach cloud metadata endpoints"⟩ ++
    allowedHostFindings unprintable cfg ++
    pushIf cfg.security.allowDangerousEnvOverrides
      ⟨.weak, "security.allow_dangerous_env_overrides", "allow_dangerous_env_overrides=true — " ++
        "PATH / LD_* / PYTHONPATH may be set from /execute query params"⟩ ++
    pushIf cfg.security.allowDevFixtureDsls ⟨.weak, "security.allow_dev_fixture_dsls",
      "allow_dev_fixture_dsls=true — FLEET §11.3 dev-fixture DSL gate is DISABLED; files " ++
        "matching dev-login / mock- / -mock / /test/ / example- / -example / /dev/ / /mocks/ " ++
        "load with only a WARN"⟩ ++
    pushIf (cfg.security.exposeJobsPublicly && present) ⟨.weak, "security.expose_jobs_publicly",
      "GET /jobs is anonymous even though an admin token is configured"⟩ ++
    pushIf (cfg.security.exposeRunningPublicly && present)
      ⟨.weak, "security.expose_running_publicly",
        "GET /running is anonymous even though an admin token is configured"⟩ ++
    groupTokenFindings cfg env

/-- The `FATAL` block, given the verdict of `enforce_creds`. -/
def fatalFindings (creds : Except String Unit) : List Finding :=
  (match creds with
    | .ok () => []
    | .error msg => [⟨.fatal, "env_safety.creds", msg⟩]) ++
  (match enforcePosture environment (postureChecksFor cfg) with
    | .ok () => []
    | .error msg => [⟨.fatal, "env_safety.posture", msg⟩]) ++
  -- redundant with the posture gate, as the source says
  pushIf (cfg.security.allowDangerousEnvOverrides && environment.requiresProdCreds)
    ⟨.fatal, "security.allow_dangerous_env_overrides",
      "allow_dangerous_env_overrides=true in a non-dev environment"⟩

/-- `doctor::run`; `none` when `enforce_creds` panics. -/
def run : Option DoctorReport :=
  (enforceCreds environment (credChecksFor cfg env)).map fun creds =>
    ⟨environment, infoFindings cfg env ++ dslPathFindings cfg tree ++ databaseFindings cfg env ++
      refuseFindings cfg env ++ weakFindings unprintable cfg env ++
      fatalFindings cfg environment creds⟩

/-! ### The exit code -/

variable {unprintable : Char → Bool} {cfg : AppConfig} {env : ProcEnv} {tree : Option FsNode}
  {environment : Environment}

/-- None of the findings is `FATAL`. -/
def NoFatal (fs : List Finding) : Prop := ∀ f ∈ fs, f.severity ≠ .fatal

theorem noFatal_append {fs gs : List Finding} : NoFatal (fs ++ gs) ↔ NoFatal fs ∧ NoFatal gs :=
  List.forall_mem_append

theorem noFatal_pushIf {b : Bool} {f : Finding} :
    NoFatal (pushIf b f) ↔ (b = true → f.severity ≠ .fatal) := by
  cases b with
  | true => simp [NoFatal, pushIf]
  | false => simp [NoFatal, pushIf]

theorem noFatal_infoFindings : NoFatal (infoFindings cfg env) := by
  simp only [infoFindings, noFatal_append, noFatal_pushIf]
  simp [NoFatal]

theorem noFatal_dslPathFindings : NoFatal (dslPathFindings cfg tree) := by
  match tree with
  | none => simp [dslPathFindings, NoFatal]
  | some (.file ..) => simp [dslPathFindings, NoFatal]
  | some (.dir ..) => simp [dslPathFindings, NoFatal]

theorem noFatal_databaseFindings : NoFatal (databaseFindings cfg env) := by
  simp only [databaseFindings]
  cases cfg.database with
  | none => simp [NoFatal]
  | some db =>
    cases hvar : env db.passwordEnv with
    | none => simp [NoFatal, hvar]
    | some v => simp [noFatal_pushIf, hvar]

theorem noFatal_allowedHostFindings : NoFatal (allowedHostFindings unprintable cfg) := by
  simp only [allowedHostFindings]
  split_ifs
  · simp [NoFatal]
  · rw [noFatal_append, noFatal_pushIf]
    refine ⟨by simp, ?_⟩
    intro f hf
    obtain ⟨entry, -, rfl⟩ := List.mem_map.1 hf
    simp

theorem noFatal_groupTokenFindings : NoFatal (groupTokenFindings cfg env) := by
  intro f hf
  obtain ⟨e, -, hf⟩ := List.mem_flatMap.1 hf
  exact noFatal_pushIf.2 (fun _ => by simp) f hf

theorem noFatal_weakFindings : NoFatal (weakFindings unprintable cfg env) := by
  simp [weakFindings, noFatal_append, noFatal_pushIf, noFatal_allowedHostFindings,
    noFatal_groupTokenFindings]

theorem noFatal_refuseFindings : NoFatal (refuseFindings cfg env) ↔
    refuseToStartWithoutToken cfg cfg.bind (cfg.resolveAdminToken env).isSome = .ok () := by
  simp only [refuseFindings, adminTokenPresent]
  cases refuseToStartWithoutToken cfg cfg.bind (cfg.resolveAdminToken env).isSome with
  | ok u => simp [NoFatal]
  | error e => simp [NoFatal]

/-- The last `FATAL` finding adds nothing to the posture gate. -/
theorem posture_of_dangerous
    (h : enforcePosture environment (postureChecksFor cfg) = .ok ()) :
    (cfg.security.allowDangerousEnvOverrides && environment.requiresProdCreds) = false := by
  cases hdangerous : cfg.security.allowDangerousEnvOverrides with
  | false => rfl
  | true =>
    cases henv : environment.requiresProdCreds with
    | false => rfl
    | true => simp [enforcePosture, postureChecksFor, hdangerous, henv] at h

theorem noFatal_fatalFindings {creds : Except String Unit} :
    NoFatal (fatalFindings cfg environment creds) ↔
      creds = .ok () ∧ enforcePosture environment (postureChecksFor cfg) = .ok () := by
  simp only [fatalFindings, noFatal_append, noFatal_pushIf, and_assoc]
  refine and_congr ?_ ?_
  · cases creds with
    | ok u => simp [NoFatal]
    | error e => simp [NoFatal]
  · cases hposture : enforcePosture environment (postureChecksFor cfg) with
    | ok u => simp [NoFatal, posture_of_dangerous hposture]
    | error e => simp [NoFatal]

theorem exitCode_eq_one_iff {r : DoctorReport} : r.exitCode = 1 ↔ ¬ NoFatal r.findings := by
  simp only [DoctorReport.exitCode, DoctorReport.fatalCount, DoctorReport.count, NoFatal,
    List.length_pos_iff_exists_mem, List.mem_filter, decide_eq_true_eq]
  constructor
  · intro h hno
    split_ifs at h with hex
    · obtain ⟨f, hf, hfatal⟩ := hex
      exact hno f hf hfatal
    · exact absurd h (by decide)
  · intro h
    push Not at h
    rw [if_pos h]

end Doctor

/-! ### Boot and doctor -/

variable {unprintable : Char → Bool} {c : Crates} {cfg : AppConfig} {env : ProcEnv}
  {tree : Option FsNode}

/-- The three gates that boot and doctor share: credentials, posture and the admin token. -/
def GatesPass (cfg : AppConfig) (env : ProcEnv) : Prop :=
  enforceCreds (.fromEnv env) (credChecksFor cfg env) = some (.ok ()) ∧
    enforcePosture (.fromEnv env) (postureChecksFor cfg) = .ok () ∧
    refuseToStartWithoutToken cfg cfg.bind (cfg.resolveAdminToken env).isSome = .ok ()

/-- The credential check panics. -/
def CredsPanic (cfg : AppConfig) (env : ProcEnv) : Prop :=
  enforceCreds (.fromEnv env) (credChecksFor cfg env) = none

/-- **The exit code of doctor**: 1 exactly if one of the shared gates refuses. -/
theorem exitCode_run_iff :
    (∃ r, Doctor.run unprintable cfg env tree (.fromEnv env) = some r ∧ r.exitCode = 1) ↔
      ¬ CredsPanic cfg env ∧ ¬ GatesPass cfg env := by
  simp only [Doctor.run, CredsPanic, GatesPass]
  cases hcreds : enforceCreds (.fromEnv env) (credChecksFor cfg env) with
  | none => simp
  | some creds =>
    simp only [Option.map_some, Option.some.injEq, exists_eq_left', reduceCtorEq, not_false_iff,
      true_and, Doctor.exitCode_eq_one_iff, Doctor.noFatal_append, Doctor.noFatal_infoFindings,
      Doctor.noFatal_dslPathFindings, Doctor.noFatal_databaseFindings,
      Doctor.noFatal_refuseFindings, Doctor.noFatal_weakFindings, Doctor.noFatal_fatalFindings]
    tauto

/-- How the boot gates end. -/
theorem bootGates_cases :
    (CredsPanic cfg env ∧ cfg.bootGates env = .error .panicked) ∨
      (¬ CredsPanic cfg env ∧ ¬ GatesPass cfg env ∧
        ∃ message, cfg.bootGates env = .error (.refused message)) ∨
      (¬ CredsPanic cfg env ∧ GatesPass cfg env ∧ cfg.bootGates env = .ok ()) := by
  simp only [CredsPanic, GatesPass, AppConfig.bootGates]
  cases enforceCreds (.fromEnv env) (credChecksFor cfg env) with
  | none => exact .inl ⟨rfl, rfl⟩
  | some creds =>
    cases creds with
    | error message => exact .inr (.inl ⟨by simp, by simp, message, rfl⟩)
    | ok u =>
      cases enforcePosture (.fromEnv env) (postureChecksFor cfg) with
      | error message => exact .inr (.inl ⟨by simp, by simp, message, rfl⟩)
      | ok u =>
        cases refuseToStartWithoutToken cfg cfg.bind (cfg.resolveAdminToken env).isSome with
        | error message => exact .inr (.inl ⟨by simp, by simp, message, rfl⟩)
        | ok u => exact .inr (.inr ⟨by simp, ⟨rfl, rfl, rfl⟩, rfl⟩)

/-- The database block, if there is one, names a variable that is set. -/
def DatabaseEnvSet (cfg : AppConfig) (env : ProcEnv) : Prop :=
  ∀ db, cfg.database = some db → (env db.passwordEnv).isSome

theorem databaseDsn_ok_iff :
    (∃ dsn, cfg.databaseDsn env = .ok dsn) ↔ DatabaseEnvSet cfg env := by
  simp only [AppConfig.databaseDsn, DatabaseEnvSet]
  cases cfg.database with
  | none => simp
  | some db =>
    cases hvar : env db.passwordEnv with
    | none => simp [hvar]
    | some password => simp [hvar]

/-- `dsl_path` loads: it is missing, or a directory all of whose directories can be listed, and no
YAML file below it is refused as a dev fixture. -/
def TreeLoads (cfg : AppConfig) (env : ProcEnv) (tree : Option FsNode) : Prop :=
  treeReadable tree = true ∧ ∀ f, TreeHolds tree f → f.isYaml = true →
    ¬ Refused (cfg.security.loadPolicy (.fromEnv env)) cfg.dslPath f

theorem loads_ok_iff {environment : Environment} (henv : environment = .fromEnv env) :
    (∃ jobs, loadAllWithPolicy c env (cfg.security.loadPolicy environment) cfg.dslPath tree =
      .ok jobs) ↔ TreeLoads cfg env tree := by
  rw [henv, loadAll_ok_iff, TreeLoads]
  simp only [mem_dslFiles]
  refine and_congr_right fun _ => ⟨fun h f hf hyaml => h f ⟨hyaml, hf⟩, ?_⟩
  rintro h f ⟨hyaml, hf⟩
  exact h f hf hyaml

/-- A boot in which neither the network nor a timeout fails. -/
def quietBoot (tree : Option FsNode) : BootWorld := ⟨.ok (), .finished tree, .ok ()⟩

theorem boot_of_gates_error {w : BootWorld} {e : BootError} (h : cfg.bootGates env = .error e) :
    boot c env cfg w = .error e := by
  unfold boot
  rw [h]
  rfl

/-- No origin is the wildcard, on which `build` panics. -/
def OriginsBuild (cfg : AppConfig) : Prop := "*" ∉ cfg.allowedOrigins

/-- Past the gates, `main` listens exactly if the DSN, the jobs and the router are built. -/
theorem boot_quiet_ok_iff (hgates : cfg.bootGates env = .ok ()) (hc : c.PanicsOnWildcard) :
    (∃ booted, boot c env cfg (quietBoot tree) = .ok booted) ↔
      DatabaseEnvSet cfg env ∧ TreeLoads cfg env tree ∧ OriginsBuild cfg := by
  rw [← databaseDsn_ok_iff, ← @loads_ok_iff c cfg env tree _ rfl, OriginsBuild,
    ← buildCors_eq_none_iff hc, ← ne_eq, Option.ne_none_iff_exists']
  constructor
  · rintro ⟨booted, h⟩
    unfold boot at h
    obtain ⟨⟨⟩, -, h⟩ := bind_eq_ok h
    obtain ⟨dsn, hdsn, h⟩ := bind_eq_ok h
    obtain ⟨⟨⟩, -, h⟩ := bind_eq_ok h
    obtain ⟨jobs, hjobs, h⟩ := bind_eq_ok h
    obtain ⟨cors, hcors, h⟩ := bind_eq_ok h
    refine ⟨⟨dsn, mapError_eq_ok hdsn⟩, ⟨jobs, mapError_eq_ok hjobs⟩, cors, ?_⟩
    cases hbuild : buildCors c cfg.allowedOrigins with
    | none =>
      rw [hbuild] at hcors
      cases hcors
    | some list =>
      rw [hbuild] at hcors
      exact congrArg some (Except.ok.inj hcors)
  · rintro ⟨⟨dsn, hdsn⟩, ⟨jobs, hload⟩, cors, hcors⟩
    rw [boot, hgates, hdsn, hcors]
    show ∃ booted, (Except.mapError BootError.error (loadAllWithPolicy c env
      (cfg.security.loadPolicy (.fromEnv env)) cfg.dslPath tree) >>= _) = .ok booted
    rw [hload]
    exact ⟨_, rfl⟩

/-- **When `main` stops before it listens**: a gate refuses or panics, the DSN or the jobs fail, or
the router is not built. -/
theorem boot_error_iff (hc : c.PanicsOnWildcard) :
    (∃ e, boot c env cfg (quietBoot tree) = .error e) ↔
      ¬ (GatesPass cfg env ∧ DatabaseEnvSet cfg env ∧ TreeLoads cfg env tree ∧
        OriginsBuild cfg) := by
  obtain ⟨hpanic, hgates⟩ | ⟨-, hpass, message, hgates⟩ | ⟨-, hpass, hgates⟩ :=
    @bootGates_cases cfg env
  · have hnot : ¬ GatesPass cfg env := by
      rintro ⟨hcreds, -⟩
      rw [CredsPanic] at hpanic
      rw [hpanic] at hcreds
      cases hcreds
    exact iff_of_true ⟨_, boot_of_gates_error hgates⟩ fun h => hnot h.1
  · exact iff_of_true ⟨_, boot_of_gates_error hgates⟩ fun h => hpass h.1
  · rw [and_iff_right hpass, ← boot_quiet_ok_iff hgates hc]
    cases boot c env cfg (quietBoot tree) with
    | error e => simp
    | ok booted => simp

/-- **When doctor replays boot**: exactly if the credential check does not panic, and a shared gate
refuses already, or the database password is set wherever a database is configured, `dsl_path` loads
and no origin is the wildcard. -/
theorem doctor_replays_boot_iff (hc : c.PanicsOnWildcard) :
    ((∃ e, boot c env cfg (quietBoot tree) = .error e) ↔
        ∃ r, Doctor.run unprintable cfg env tree (.fromEnv env) = some r ∧ r.exitCode = 1) ↔
      ¬ CredsPanic cfg env ∧ (¬ GatesPass cfg env ∨
        (DatabaseEnvSet cfg env ∧ TreeLoads cfg env tree ∧ OriginsBuild cfg)) := by
  rw [boot_error_iff hc, exitCode_run_iff]
  by_cases hpanic : CredsPanic cfg env
  · have hnot : ¬ GatesPass cfg env := by
      rintro ⟨hcreds, -⟩
      rw [CredsPanic] at hpanic
      rw [hpanic] at hcreds
      cases hcreds
    simp [hpanic, hnot]
  · by_cases hpass : GatesPass cfg env
    · simp [hpanic, hpass]
    · simp [hpanic, hpass]

/-- A production environment with a strong admin token. -/
def demoProdEnv : ProcEnv := fun var => if var = "APP_ENV" then some "production" else demoEnv var

theorem gatesPass_demoProdEnv : GatesPass .default demoProdEnv :=
  ⟨by decide +kernel, by decide +kernel, by decide +kernel⟩

theorem panicsOnWildcard_demoCrates : demoCrates.PanicsOnWildcard := panicsOnWildcard_noCrates

/-- With the defaults and no jobs, `main` comes to listen and doctor does not exit with 1. -/
theorem doctor_replays_boot_default :
    (¬ ∃ e, boot demoCrates demoProdEnv .default (quietBoot none) = .error e) ∧
      ¬ ∃ r, Doctor.run (fun _ => false) .default demoProdEnv none (.fromEnv demoProdEnv) = some r ∧
        r.exitCode = 1 := by
  have hiff := (@doctor_replays_boot_iff (fun _ => false) demoCrates .default demoProdEnv none
    panicsOnWildcard_demoCrates).2
  have hpanic : ¬ CredsPanic .default demoProdEnv := by
    rw [CredsPanic, gatesPass_demoProdEnv.1]
    rintro ⟨⟩
  have hquiet : DatabaseEnvSet .default demoProdEnv ∧ TreeLoads .default demoProdEnv none ∧
      OriginsBuild .default := by
    refine ⟨by rintro db ⟨⟩, ⟨rfl, ?_⟩, by rw [OriginsBuild]; decide⟩
    rintro f ⟨e, he, -⟩
    cases he
  have hdoctor : ¬ ∃ r, Doctor.run (fun _ => false) .default demoProdEnv none
      (.fromEnv demoProdEnv) = some r ∧ r.exitCode = 1 := by
    rw [exitCode_run_iff]
    exact fun h => h.2 gatesPass_demoProdEnv
  exact ⟨fun h => hdoctor ((hiff ⟨hpanic, .inr hquiet⟩).1 h), hdoctor⟩

/-- `main` refuses `mock-weekly.yml` in production, and doctor exits with 0. -/
theorem doctor_misses_dev_fixture :
    ¬ ∀ unprintable c cfg env tree, c.PanicsOnWildcard →
      ((∃ e, boot c env cfg (quietBoot tree) = .error e) ↔
        ∃ r, Doctor.run unprintable cfg env tree (.fromEnv env) = some r ∧ r.exitCode = 1) := by
  intro h
  have hiff := h (fun _ => false) demoCrates .default demoProdEnv
    (demoTree "nightly.yaml" "mock-weekly.yml") panicsOnWildcard_demoCrates
  rw [boot_error_iff panicsOnWildcard_demoCrates, exitCode_run_iff] at hiff
  have hpass := gatesPass_demoProdEnv
  have hloads : ¬ TreeLoads .default demoProdEnv (demoTree "nightly.yaml" "mock-weekly.yml") := by
    rintro ⟨-, hnone⟩
    have hfile : FsNode.Holds [] (demoFile "mock-weekly.yml" "/opt/quick.sh")
      ⟨[bytes "mock-weekly.yml".toList], _, _⟩ := .file
    exact hnone _ ⟨_, by simp [treeEntries, demoTree], hfile⟩ (by decide)
      ⟨by decide +kernel, by decide +kernel⟩
  exact (hiff.1 fun hall => hloads hall.2.2.1).2 hpass

end CronManager
