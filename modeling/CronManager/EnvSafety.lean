import CronManager.Rust.Str

/-!
# Environment-aware safety gates

The pure part of `src/env_safety.rs`: the deployment environment, the dev-fixture gate of the DSL
loader, and the boot gates for weak credentials and unsafe posture flags.  `redact` slices its
argument at byte offsets, and a slice off a character boundary panics: `none`.
-/

namespace CronManager

open Rust

/-! ### Environments -/

/-- Deployment environment class. -/
inductive Environment where
  | dev
  | test
  | staging
  | production
  deriving DecidableEq, Repr

namespace Environment

/-- `Environment::from_env_str`; an unknown value is `production`. -/
def fromEnvStr (raw : String) : Environment :=
  let word := String.ofList (toAsciiLowercase (trim raw.toList))
  if word ∈ ["dev", "development", "local"] then .dev
  else if word ∈ ["test", "testing", "ci"] then .test
  else if word ∈ ["stage", "staging", "preprod"] then .staging
  else .production

/-- `requires_prod_creds`. -/
def requiresProdCreds : Environment → Bool
  | .dev => false
  | _ => true

/-- The `Debug` text. -/
def debug : Environment → String
  | .dev => "Dev"
  | .test => "Test"
  | .staging => "Staging"
  | .production => "Production"

end Environment

/-! ### Dev fixtures -/

/-- `DEV_ONLY_DSL_PATTERNS`. -/
def devOnlyDslPatterns : List String :=
  ["dev-login", "mock-", "-mock", "/test/", "example-", "-example", "/dev/", "/mocks/"]

/-- `dev_fixture_pattern`. -/
def devFixturePattern (path : String) : Option String :=
  let normalised := toAsciiLowercase (replaceChars (· == '\\') '/' path.toList)
  devOnlyDslPatterns.find? fun pat => contains normalised pat.toList

/-- What to do with a DSL file that matches a dev-fixture pattern. -/
inductive DevFixtureAction where
  | ignore
  | warn
  | refuse
  deriving DecidableEq, Repr

/-- `DevFixtureAction::from_env`. -/
def DevFixtureAction.fromEnv (env : Environment) (allowDevFixtureDsls : Bool) :
    DevFixtureAction :=
  if !env.requiresProdCreds || allowDevFixtureDsls then .warn else .refuse

/-! ### Credentials -/

/-- `WEAK_PATTERNS`. -/
def weakPatterns : List String :=
  ["changeit", "changeme", "change-me", "changethis", "letmein", "password", "qwerty", "welcome",
    "01234", "12345", "123456", "abcdef", "dev-", "-dev", "test-", "-test", "example", "sample",
    "default-", "-default", "todo", "tbd", "fixme", "-poc", "poc-", "mock-", "-mock", "staging-",
    "-staging", "test-admin-token"]

/-- Reason a credential failed the weak-value check. -/
inductive WeakReason where
  | empty
  | tooShort
  | pattern (p : String)
  deriving DecidableEq, Repr

/-- The `Display` text of a reason. -/
def WeakReason.display : WeakReason → String
  | .empty => "empty"
  | .tooShort => "too_short"
  | .pattern p => s!"weak-pattern:{p}"

/-- One credential to validate at boot. -/
structure CredCheck where
  context : String
  field : String
  value : String
  minLen : ℕ
  deriving DecidableEq, Repr

/-- `CredCheck::is_weak`. -/
def CredCheck.isWeak (c : CredCheck) : Option WeakReason :=
  let v := trim c.value.toList
  if v.isEmpty then some .empty
  else if byteLen v < c.minLen then some .tooShort
  else (weakPatterns.find? fun pat => contains (toAsciiLowercase v) pat.toList).map .pattern

/-- `redact`. -/
def redact (v : List Char) : Option (List Char) :=
  if byteLen v ≤ 4 then some "****".toList
  else match splitAtByte v 2, splitAtByte v (byteLen v - 2) with
    | some (first, _), some (_, last) => some (first ++ "****".toList ++ last)
    | _, _ => none

/-- The line of one weak credential. -/
def credLine (c : CredCheck) (reason : WeakReason) : Option String :=
  (redact (trim c.value.toList)).map fun v =>
    let shown := String.ofList v
    let why := reason.display
    let context := c.context
    let field := c.field
    s!"  - {context}.{field} = {shown} (weak: {why})"

/-- The lines of the weak credentials. -/
def credFailures (checks : List CredCheck) : Option (List String) :=
  (checks.filterMap fun c => c.isWeak.map fun reason => (c, reason)).mapM
    fun cr => credLine cr.1 cr.2

/-- `enforce_creds`. -/
def enforceCreds (env : Environment) (checks : List CredCheck) : Option (Except String Unit) :=
  (credFailures checks).map fun failures =>
    if failures.isEmpty || !env.requiresProdCreds then .ok ()
    else
      let name := env.debug
      let count := failures.length
      let lines := "\n".intercalate failures
      .error (s!"REFUSING TO START in {name}: {count} weak/default credential(s) detected:\n" ++
        s!"{lines}\nRotate these before starting in a non-dev environment. Set APP_ENV=dev " ++
        "(or ENVIRONMENT=dev, DEPLOY_ENV=dev) to permit dev defaults locally.")

/-! ### Posture -/

/-- One security-posture flag to validate at boot. -/
structure PostureCheck where
  name : String
  isSafe : Bool
  description : String
  fix : String
  deriving DecidableEq, Repr

/-- The line of one unsafe posture flag. -/
def postureLine (c : PostureCheck) : String :=
  let name := c.name
  let description := c.description
  let fix := c.fix
  s!"  - {name}: {description}\n      fix: {fix}"

/-- `enforce_posture`. -/
def enforcePosture (env : Environment) (checks : List PostureCheck) : Except String Unit :=
  let unsafeItems := checks.filter fun c => !c.isSafe
  if unsafeItems.isEmpty || !env.requiresProdCreds then .ok ()
  else
    let name := env.debug
    let count := unsafeItems.length
    let lines := "\n".intercalate (unsafeItems.map postureLine)
    .error s!"REFUSING TO START in {name}: {count} unsafe posture item(s):\n{lines}"

end CronManager
