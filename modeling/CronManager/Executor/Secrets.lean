import CronManager.Executor.Retry
import CronManager.Executor.Ssrf

/-!
# Header secrets

The value of an environment variable that `headerEnvs` names goes into the request and nowhere
else.  This is a statement about two runs: if two process environments give every variable the
same **class** (unset, empty or not, a valid header value or not), then the loader returns the
same, specs or error, and a dispatch against the same answers of the outside world starts the same
attempts, has the same outcome and records the same rows, up to their times.

`SameClasses` relates the environments, `SameAnswers` the worlds of two dispatches.  The proof
goes up the call tree: each function that reads the environment gives the same under related
ones, and its callers follow by rewriting.
-/

namespace CronManager

open Rust

/-! ### Environments that only secrets tell apart -/

/-- What the source may tell about the value of a variable: whether it is set, and then whether
it is empty and whether it is a valid header value. -/
def headerClass (c : Crates) (v : Option String) : Option (Bool × Bool) :=
  v.map fun v => (v == "", c.headerValueOk v)

/-- The environments give every variable the same class. -/
def SameClasses (c : Crates) (env env' : ProcEnv) : Prop :=
  ∀ var, headerClass c (env var) = headerClass c (env' var)

theorem headerClass_cases {c : Crates} {v v' : Option String}
    (h : headerClass c v = headerClass c v') :
    (v = none ∧ v' = none) ∨ ∃ t t', v = some t ∧ v' = some t' ∧ (t = "" ↔ t' = "") ∧
      c.headerValueOk t = c.headerValueOk t' := by
  cases v with
  | none =>
    cases v' with
    | none => exact .inl ⟨rfl, rfl⟩
    | some t' => cases h
  | some t =>
    cases v' with
    | none => cases h
    | some t' =>
      obtain ⟨hempty, hvalid⟩ := Prod.mk.inj (Option.some.inj h)
      refine .inr ⟨t, t', rfl, rfl, ?_, hvalid⟩
      rw [← @beq_iff_eq _ _ _ t, ← @beq_iff_eq _ _ _ t', hempty]

variable {c : Crates} {env env' : ProcEnv}

/-! ### Loading -/

theorem envHeader_congr (h : SameClasses c env env') : envHeader c env = envHeader c env' := by
  funext source key out entry
  simp only [envHeader]
  obtain ⟨hv, hv'⟩ | ⟨t, t', hv, hv', hempty, hvalid⟩ := headerClass_cases (h entry.2)
  · simp only [hv, hv']
  · simp only [hv, hv', hvalid, ne_eq, hempty]

theorem kindOf_congr (h : SameClasses c env env') (raw : RawJob) :
    raw.kindOf c env = raw.kindOf c env' := by
  funext policy source key
  simp only [RawJob.kindOf, RawJob.httpKind, buildHttpHeaders, envHeader_congr h]

theorem intoSpec_congr (h : SameClasses c env env') (raw : RawJob) :
    raw.intoSpec c env = raw.intoSpec c env' := by
  funext policy source key
  simp only [RawJob.intoSpec, kindOf_congr h]

/-- **A load does not depend on secrets.** -/
theorem loadFile_congr (h : SameClasses c env env') :
    loadFileWithPolicy c env = loadFileWithPolicy c env' := by
  funext policy root f
  simp only [loadFileWithPolicy, intoJobs, intoSpec_congr h]

/-! ### One attempt -/

/-- The header of one entry: under related environments it fails in the same way, or it has a
value in both. -/
theorem headerValue_congr (h : SameClasses c env env') (header : HttpHeader) :
    (headerValue c env header).map Prod.fst = (headerValue c env' header).map Prod.fst := by
  simp only [headerValue, sourceText]
  cases header.source with
  | literal v => rfl
  | env var =>
    obtain ⟨hv, hv'⟩ | ⟨t, t', hv, hv', -, hvalid⟩ := headerClass_cases (h var)
    · simp only [hv, hv']
    · simp only [hv, hv', hvalid]
      split_ifs <;> rfl

theorem resolveHeaders_congr (h : SameClasses c env env') (headers : List HttpHeader) :
    (resolveHeaders c env headers).map (List.map Prod.fst) =
      (resolveHeaders c env' headers).map (List.map Prod.fst) := by
  induction headers with
  | nil => rfl
  | cons header headers ih =>
    have hhead := headerValue_congr h header
    simp only [resolveHeaders, List.mapM_cons] at ih ⊢
    obtain ⟨e, he, he'⟩ | ⟨x, x', hx, hx', hname⟩ := map_eq_map_cases hhead
    · simp only [he, he', bind, Except.bind]
    · simp only [hx, hx', bind, Except.bind, pure, Except.pure]
      obtain ⟨e, he, he'⟩ | ⟨xs, xs', hxs, hxs', hnames⟩ := map_eq_map_cases ih
      · simp only [he, he']
      · simp only [hxs, hxs', Except.map, List.map_cons, hname, hnames]

/-- The attempts get the same answers from the outside world, at whatever times, in environments
that only secrets tell apart. -/
structure AttemptWorld.SameAnswers (c : Crates) (w w' : AttemptWorld) : Prop where
  lookup : w.http.lookup = w'.http.lookup
  clientLookup : w.http.clientLookup = w'.http.clientLookup
  send : w.http.send = w'.http.send
  env : SameClasses c w.http.env w'.http.env
  shell : w.shell = w'.shell

theorem httpResult_congr {x : HttpExecutor} {method url : String} {headers : List HttpHeader}
    {w w' : AttemptWorld} (h : w.SameAnswers c w') :
    (x.execute c method url headers w.http).result =
      (x.execute c method url headers w'.http).result := by
  simp only [HttpExecutor.execute, HttpExecutor.prepare, HttpExecutor.prepareAs, ← h.lookup,
    ← h.clientLookup, ← h.send]
  cases c.methodFromBytes method with
  | none => rfl
  | some m =>
    cases x.preflight c url w.http.lookup with
    | error e => rfl
    | ok u =>
      obtain ⟨e, he, he'⟩ | ⟨hs, hs', hres, hres', -⟩ :=
        map_eq_map_cases (resolveHeaders_congr h.env headers)
      · simp only [he, he']
      · simp only [hres, hres']

/-- **An attempt does not depend on secrets.** -/
theorem attempt_congr {b : ExecutorBundle} {spec : JobSpec} {extras : DispatchExtras}
    {w w' : AttemptWorld} (h : w.SameAnswers c w') :
    b.attempt c spec extras w = b.attempt c spec extras w' := by
  simp only [ExecutorBundle.attempt, ← h.shell, httpResult_congr h]

/-! ### A whole dispatch -/

/-- The dispatches get the same answers, attempt by attempt, and the same cut delays. -/
structure DispatchWorld.SameAnswers (c : Crates) (w w' : DispatchWorld) : Prop where
  attempt : ∀ a, (w.attempt a).SameAnswers c (w'.attempt a)
  delayCut : w.delayCut = w'.delayCut

/-- A row without its timestamp and duration. -/
def HistoryEntry.timeless (row : HistoryEntry) : HistoryEntry :=
  { row with executionTime := 0, durationMs := none }

/-- The runs are the same but for the times of their rows. -/
structure DispatchRun.SameButTimes (r r' : DispatchRun) : Prop where
  started : r.started = r'.started
  rows : r.rows.map HistoryEntry.timeless = r'.rows.map HistoryEntry.timeless
  outcome : r.outcome = r'.outcome

theorem timeless_attemptRow {spec : JobSpec} {w w' : AttemptWorld} {attempt maxAttempts : ℕ}
    {result : Except HttpDispatchResult HttpDispatchResult} :
    (attemptRow spec w attempt maxAttempts result).timeless =
      (attemptRow spec w' attempt maxAttempts result).timeless := rfl

theorem DispatchRun.SameButTimes.single {spec : JobSpec} {w w' : AttemptWorld}
    {attempt maxAttempts : ℕ} {result : Except HttpDispatchResult HttpDispatchResult}
    {outcome : DispatchOutcome} :
    SameButTimes ⟨[attempt], [attemptRow spec w attempt maxAttempts result], outcome⟩
      ⟨[attempt], [attemptRow spec w' attempt maxAttempts result], outcome⟩ :=
  ⟨rfl, rfl, rfl⟩

theorem DispatchRun.SameButTimes.cons {r r' : DispatchRun} (h : r.SameButTimes r')
    {row row' : HistoryEntry} (hrow : row.timeless = row'.timeless) (attempt : ℕ) :
    (r.cons attempt row).SameButTimes (r'.cons attempt row') where
  started := congrArg (attempt :: ·) h.started
  rows := by simp only [DispatchRun.cons, List.map_cons, hrow, h.rows]
  outcome := h.outcome

variable {b : ExecutorBundle} {spec : JobSpec} {extras : DispatchExtras} {w w' : DispatchWorld}

theorem dispatchLoop_congr (h : w.SameAnswers c w') {maxAttempts : ℕ} :
    ∀ (left attempt : ℕ) (lastError : Option String),
      (b.dispatchLoop c spec extras w maxAttempts left attempt lastError).SameButTimes
        (b.dispatchLoop c spec extras w' maxAttempts left attempt lastError) := by
  intro left
  induction left with
  | zero => intro attempt lastError; exact ⟨rfl, rfl, rfl⟩
  | succ left ih =>
    intro attempt lastError
    have hattempt := @attempt_congr c b spec extras _ _ (h.attempt attempt)
    simp only [ExecutorBundle.dispatchLoop, ← hattempt, ← h.delayCut]
    -- the loop branches on the result and on the cut delay, which are the same
    cases b.attempt c spec extras (w.attempt attempt) with
    | ok r => exact .single
    | error r =>
      simp only
      split_ifs
      · exact .single
      · exact .single
      · exact (ih (attempt + 1) r.errorMessage).cons timeless_attemptRow attempt

theorem dispatch_congr (h : w.SameAnswers c w') :
    (b.dispatch c spec extras w).SameButTimes (b.dispatch c spec extras w') := by
  simp only [ExecutorBundle.dispatch]
  split_ifs
  · exact ⟨rfl, rfl, rfl⟩
  · exact dispatchLoop_congr h _ _ _

/-- **Header secrets do not flow into loaded specs, errors or history.** -/
theorem header_secrets_confined :
    (∀ env env', SameClasses c env env' → ∀ policy root f,
      loadFileWithPolicy c env policy root f = loadFileWithPolicy c env' policy root f) ∧
    ∀ (b : ExecutorBundle) (spec : JobSpec) (extras : DispatchExtras) (w w' : DispatchWorld),
      w.SameAnswers c w' →
        (b.dispatch c spec extras w).SameButTimes (b.dispatch c spec extras w') := by
  constructor
  · intro env env' h policy root f
    rw [loadFile_congr h]
  · intro b spec extras w w' h
    exact dispatch_congr h

/-- `probe.yaml` with an API key in its headers. -/
def keyedFile : DslFile :=
  let body := pingBody ++ "  headerEnvs:\n    X-Api-Key: API_KEY\n"
  ⟨[bytes "probe.yaml".toList], .ok body.utf8ByteSize, .ok body⟩

/-- The crates on what this file uses. -/
def keyedCrates : Crates :=
  { pingCrates with
    yamlFromStr := fun body =>
      if keyedFile.body.toOption = some body then
        .ok (.singleton "ping"
          { pingRaw with headerEnvs := some (.singleton "X-Api-Key" "API_KEY") })
      else .error "unused"
    headerName := fun name => if name = "X-Api-Key" then some "x-api-key" else none
    headerValueOk := fun v =>
      v.toList.all fun ch => ch.toNat == 9 || (0x20 ≤ ch.toNat && ch.toNat < 0x7F) }

/-- An environment that holds this API key. -/
def keyedEnv (secret : String) : ProcEnv := fun var =>
  if var = "API_KEY" then some secret else none

/-- The job of the file. -/
def keyedSpec : JobSpec :=
  { pingJob.spec with
    kind := .http "GET" "http://rebind.example/" [⟨"x-api-key", .env "API_KEY"⟩] }

/-- The outside world answers alike, `secret` is the API key. -/
def keyedWorld (secret : String) (now : ℤ) : DispatchWorld :=
  { demoWorld .timeout with
    attempt := fun a =>
      { (demoWorld .timeout).attempt a with
        startedAt := now
        http := { pingWorld ⟨8, 8, 8, 8⟩ with env := keyedEnv secret } } }

/-- Two API keys are both sent, and tell no loads and no dispatches apart. -/
theorem header_secrets_confined_key :
    (∀ secret ∈ ["alpha", "bravo"],
      (pingExecutor.execute keyedCrates "GET" "http://rebind.example/"
        [⟨"x-api-key", .env "API_KEY"⟩] ((keyedWorld secret 0).attempt 1).http).sent.map
          (·.headers) = some [("x-api-key", secret)]) ∧
      loadFileWithPolicy keyedCrates (keyedEnv "alpha") .permissive (bytes "DSL".toList)
        keyedFile = .ok [⟨keyedSpec, "DSL/probe.yaml"⟩] ∧
      loadFileWithPolicy keyedCrates (keyedEnv "bravo") .permissive (bytes "DSL".toList)
        keyedFile = .ok [⟨keyedSpec, "DSL/probe.yaml"⟩] ∧
      (demoBundle.dispatch keyedCrates keyedSpec noExtras (keyedWorld "alpha" 10)).SameButTimes
        (demoBundle.dispatch keyedCrates keyedSpec noExtras (keyedWorld "bravo" 20)) := by
  have hclasses : SameClasses keyedCrates (keyedEnv "alpha") (keyedEnv "bravo") := by
    intro var
    simp only [keyedEnv]
    split_ifs
    · decide
    · rfl
  obtain ⟨hload, hdispatch⟩ := @header_secrets_confined keyedCrates
  have halpha : loadFileWithPolicy keyedCrates (keyedEnv "alpha") .permissive
      (bytes "DSL".toList) keyedFile = .ok [⟨keyedSpec, "DSL/probe.yaml"⟩] := by
    decide +kernel
  refine ⟨by decide, halpha, ?_, hdispatch _ _ _ _ _ ⟨?_, rfl⟩⟩
  · rw [← hload _ _ hclasses, halpha]
  · intro a
    exact ⟨rfl, rfl, rfl, hclasses, rfl⟩

end CronManager
