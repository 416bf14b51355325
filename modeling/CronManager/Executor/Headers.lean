import CronManager.Dsl.Headers
import CronManager.Executor.Ssrf

/-!
# Headers at fire time

A request carries the headers of its job under the same names, so that it repeats one exactly when
the loader has let a name through twice (`headers_distinct_iff`).

The loader refuses a `headerEnvs` variable that is unset, empty or not a valid header value.  The
executor reads the variable again on every fire and repeats the check without its first part:
`HeaderValue::from_str` accepts the empty text.  `sendsResolved_iff` is the exact condition under
which a fire keeps the loader's rule.
-/

namespace CronManager

open Rust

variable {c : Crates} {env : ProcEnv} {policy : LoadPolicy} {root : OsStr} {x : HttpExecutor}
  {method url : String} {headers : List HttpHeader} {w : HttpWorld}

/-! ### Names -/

theorem name_of_headerValue {h : HttpHeader} {p : String × String}
    (hp : headerValue c env h = .ok p) : p.1 = h.name := by
  unfold headerValue at hp
  split at hp
  · cases hp
  · split_ifs at hp
    rw [← Except.ok.inj hp]

theorem names_of_resolveHeaders {hs : List (String × String)}
    (h : resolveHeaders c env headers = .ok hs) : hs.map (·.1) = headers.map (·.name) := by
  have hall := forall₂_of_mapM h
  clear h
  induction hall with
  | nil => rfl
  | cons hx _ ih => rw [List.map_cons, List.map_cons, name_of_headerValue hx, ih]

theorem resolveHeaders_of_sent {req : HttpRequest}
    (h : (x.execute c method url headers w).sent = some req) :
    resolveHeaders c w.env headers = .ok req.headers := by
  obtain ⟨m, hs, -, -, hresolve, rfl⟩ := prepare_ok_iff.1 (sent_eq_some.1 h)
  exact hresolve

/-- **No header is sent twice exactly when no two keys of `headers` differ in case only.**  For
every `headers` and `headerEnvs` that the loader accepts, the job has one header for each entry in
order, with lower-case names that are not reserved and pairwise distinct, and no request of it
repeats a name. -/
theorem headers_distinct_iff {source : String} {key : JobKey}
    {literal envs : BTreeMap String String} (hname : c.LowersHeaderNames)
    (hok : buildHttpHeaders c env source key literal envs = .ok headers) :
    (WellFormedHeaders literal envs headers ∧
        ∀ (x : HttpExecutor) method url w req,
          (x.execute c method url headers w).sent = some req → (req.headers.map (·.1)).Nodup) ↔
      (literal.entries.map fun e => lowerName e.1).Nodup := by
  rw [← buildHttpHeaders_wellFormed_iff hname hok]
  refine ⟨fun h => h.1, fun hwf => ⟨hwf, fun x method url w req hsent => ?_⟩⟩
  rw [names_of_resolveHeaders (resolveHeaders_of_sent hsent)]
  exact hwf.distinct

/-- A file with one manual HTTP job that takes a header from the environment. -/
def tokenBody : String :=
  "ping:\n  trigger: off\n  type: http\n  method: GET\n  url: http://rebind.example/\n" ++
    "  headerEnvs:\n    X-Token: PING_TOKEN\n"

/-- The crates on what this job uses. -/
def tokenCrates : Crates where
  __ := pingCrates
  yamlFromStr body :=
    if body = tokenBody then
      .ok (.singleton "ping"
        { pingRaw with headerEnvs := some (.singleton "X-Token" "PING_TOKEN") })
    else .error "unused"
  headerName := headerCrates.headerName
  headerValueOk := headerCrates.headerValueOk

/-- `X-A` and `x-a` are two keys. -/
def twoSpellings : BTreeMap String String := ⟨[("X-A", "one"), ("x-a", "two")], by decide⟩

theorem tokenCrates_lowersHeaderNames : tokenCrates.LowersHeaderNames :=
  headerCrates_lowersHeaderNames

/-- One key of `headers` and one of `headerEnvs`. -/
theorem headers_distinct_xSource :
    WellFormedHeaders (.singleton "X-Source" "cronmanager") (.singleton "X-Token" "PING_TOKEN")
      [⟨"x-source", .literal "cronmanager"⟩, ⟨"x-token", .env "PING_TOKEN"⟩] := by
  have hok : buildHttpHeaders tokenCrates (fun _ => some "s3cret") "probe.yaml" ⟨"probe", "ping"⟩
      (.singleton "X-Source" "cronmanager") (.singleton "X-Token" "PING_TOKEN") =
        .ok [⟨"x-source", .literal "cronmanager"⟩, ⟨"x-token", .env "PING_TOKEN"⟩] := by
    decide +kernel
  exact ((headers_distinct_iff tokenCrates_lowersHeaderNames hok).2 (List.nodup_singleton _)).1

/-- Both spellings are accepted, and the request carries `x-a` twice. -/
theorem headers_sent_twice :
    buildHttpHeaders tokenCrates (fun _ => none) "probe.yaml" ⟨"probe", "ping"⟩ twoSpellings
        .empty = .ok [⟨"x-a", .literal "one"⟩, ⟨"x-a", .literal "two"⟩] ∧
      (pingExecutor.execute tokenCrates "GET" "http://rebind.example/"
        [⟨"x-a", .literal "one"⟩, ⟨"x-a", .literal "two"⟩] (pingWorld ⟨8, 8, 8, 8⟩)).sent.map
          (·.headers) = some [("x-a", "one"), ("x-a", "two")] ∧
      ¬ WellFormedHeaders twoSpellings .empty
        [⟨"x-a", .literal "one"⟩, ⟨"x-a", .literal "two"⟩] := by
  refine ⟨by decide +kernel, by decide +kernel, fun hwf => ?_⟩
  exact absurd hwf.distinct (by decide)

/-! ### Values -/

/-- Every header from the environment has a value that is set, not empty and valid. -/
def HeadersResolve (c : Crates) (env : ProcEnv) (headers : List HttpHeader) : Prop :=
  ∀ h ∈ headers, ∀ var, h.source = .env var →
    ∃ v, env var = some v ∧ v ≠ "" ∧ c.headerValueOk v = true

/-- A request is sent only if these headers resolve; otherwise the fire is an error and sends
nothing. -/
def HttpExecutor.SendsResolved (c : Crates) (x : HttpExecutor) (method url : String)
    (headers : List HttpHeader) (w : HttpWorld) : Prop :=
  ((x.execute c method url headers w).sent.isSome = true → HeadersResolve c w.env headers) ∧
    (¬ HeadersResolve c w.env headers →
      (∃ e, (x.execute c method url headers w).result = .error e) ∧
        (x.execute c method url headers w).sent = none)

/-- Every variable of a header is set to a text that `HeaderValue::from_str` accepts. -/
def VariablesValid (c : Crates) (env : ProcEnv) (headers : List HttpHeader) : Prop :=
  ∀ h ∈ headers, ∀ var, h.source = .env var → ∃ v, env var = some v ∧ c.headerValueOk v = true

/-- No variable of a header is set to the empty text. -/
def NoVariableEmpty (env : ProcEnv) (headers : List HttpHeader) : Prop :=
  ∀ h ∈ headers, ∀ var, h.source = .env var → env var ≠ some ""

theorem headersResolve_iff :
    HeadersResolve c env headers ↔ VariablesValid c env headers ∧ NoVariableEmpty env headers := by
  constructor
  · intro h
    refine ⟨fun header hmem var hvar => ?_, fun header hmem var hvar hempty => ?_⟩
    · obtain ⟨v, hv, -, hok⟩ := h header hmem var hvar
      exact ⟨v, hv, hok⟩
    · obtain ⟨v, hv, hne, -⟩ := h header hmem var hvar
      rw [hempty] at hv
      exact hne (Option.some.inj hv).symm
  · rintro ⟨hvalid, hnonempty⟩ header hmem var hvar
    obtain ⟨v, hv, hok⟩ := hvalid header hmem var hvar
    refine ⟨v, hv, fun hempty => ?_, hok⟩
    exact hnonempty header hmem var hvar (hempty ▸ hv)

/-! ### When a request is sent -/

theorem headerValue_env {h : HttpHeader} {var : String} (hsource : h.source = .env var) :
    (∃ p, headerValue c env h = .ok p) ↔ ∃ v, env var = some v ∧ c.headerValueOk v = true := by
  simp only [headerValue, sourceText, hsource]
  cases env var with
  | none => simp
  | some v =>
    by_cases hv : c.headerValueOk v = true
    · simp [hv]
    · simp [hv]

theorem exists_resolveHeaders
    (hliteral : ∀ h ∈ headers, ∀ v, h.source = .literal v → c.headerValueOk v = true) :
    (∃ hs, resolveHeaders c env headers = .ok hs) ↔ VariablesValid c env headers := by
  unfold resolveHeaders
  rw [exists_mapM_eq_ok]
  constructor
  · intro h header hmem var hvar
    exact (headerValue_env hvar).1 (h header hmem)
  · intro h header hmem
    cases hsource : header.source with
    | literal v =>
      have hv := hliteral header hmem v hsource
      exact ⟨(header.name, v), by simp [headerValue, sourceText, hsource, hv]⟩
    | env var => exact (headerValue_env hsource).2 (h header hmem var hsource)

/-- A request is sent when each of the three steps before it succeeds. -/
theorem sent_isSome_iff :
    (x.execute c method url headers w).sent.isSome = true ↔
      c.methodFromBytes method ≠ none ∧ x.preflight c url w.lookup = .ok () ∧
        ∃ hs, resolveHeaders c w.env headers = .ok hs := by
  rw [Option.isSome_iff_exists]
  constructor
  · rintro ⟨req, hsent⟩
    obtain ⟨m, hs, hm, hpre, hresolve, -⟩ := prepare_ok_iff.1 (sent_eq_some.1 hsent)
    exact ⟨by simp [hm], hpre, hs, hresolve⟩
  · rintro ⟨hm, hpre, hs, hresolve⟩
    obtain ⟨m, hm⟩ := Option.ne_none_iff_exists'.1 hm
    exact ⟨_, sent_eq_some.2 (prepare_ok_iff.2 ⟨m, hs, hm, hpre, hresolve, rfl⟩)⟩

theorem result_of_not_sent (h : ¬ (x.execute c method url headers w).sent.isSome = true) :
    (∃ e, (x.execute c method url headers w).result = .error e) ∧
      (x.execute c method url headers w).sent = none := by
  unfold HttpExecutor.execute at h ⊢
  cases hp : x.prepare c method url headers w with
  | error e => exact ⟨⟨e, rfl⟩, rfl⟩
  | ok req => simp [hp] at h

theorem sendsResolved_iff_imp :
    x.SendsResolved c method url headers w ↔
      ((x.execute c method url headers w).sent.isSome = true → HeadersResolve c w.env headers) :=
  ⟨fun h => h.1, fun h => ⟨h, fun hno => result_of_not_sent fun hsent => hno (h hsent)⟩⟩

/-! ### Accepted jobs -/

theorem mem_loadAll_literal {tree : Option FsNode} {jobs : List LoadedJob} {job : LoadedJob}
    (hload : loadAllWithPolicy c env policy root tree = .ok jobs) (hjob : job ∈ jobs)
    (hkind : job.spec.kind = .http method url headers) :
    ∀ h ∈ headers, ∀ v, h.source = .literal v → c.headerValueOk v = true := by
  obtain ⟨f, -, hf⟩ := mem_loadAll hload hjob
  obtain ⟨raw, key, hspec⟩ := mem_jobs_intoSpec hf
  obtain ⟨-, -, hheaders⟩ := intoSpec_http hspec hkind
  exact headerValueOk_of_literal hheaders

/-- **When a fire keeps the loader's rule.**  For every HTTP job that the loader accepts and every
environment at fire time: no variable of its headers is empty, or the fire ends before `send()`
because the method is refused, the pre-flight refuses the URL, or a variable is unset or no valid
header value. -/
theorem sendsResolved_iff {tree : Option FsNode} {jobs : List LoadedJob} {job : LoadedJob}
    (hload : loadAllWithPolicy c env policy root tree = .ok jobs) (hjob : job ∈ jobs)
    (hkind : job.spec.kind = .http method url headers) :
    x.SendsResolved c method url headers w ↔
      NoVariableEmpty w.env headers ∨ c.methodFromBytes method = none ∨
        x.preflight c url w.lookup ≠ .ok () ∨ ¬ VariablesValid c w.env headers := by
  have hliteral := mem_loadAll_literal hload hjob hkind
  rw [sendsResolved_iff_imp, sent_isSome_iff, exists_resolveHeaders hliteral, headersResolve_iff]
  tauto

/-! ### A token that is emptied after the load -/

/-- The directory with the file `tokenBody`, loaded while the variable is set. -/
def tokenLoad : Except CronManagerError (List LoadedJob) :=
  loadAllWithPolicy tokenCrates (fun _ => some "s3cret") LoadPolicy.permissive
    (bytes "DSL".toList)
    (some (.dir (bytes "DSL".toList) none
      [.file (bytes "probe.yaml".toList) (.ok tokenBody.utf8ByteSize) (.ok tokenBody)]))

/-- The header of the job. -/
def tokenHeaders : List HttpHeader := [⟨"x-token", .env "PING_TOKEN"⟩]

/-- The loaded job. -/
def tokenJob : LoadedJob :=
  ⟨⟨⟨"probe", "ping"⟩, .manual, ⟨none, none⟩, .default,
    .http "GET" "http://rebind.example/" tokenHeaders⟩, "DSL/probe.yaml"⟩

/-- A fire at which the variable has the given value. -/
def tokenWorld (value : String) : HttpWorld where
  __ := pingWorld ⟨8, 8, 8, 8⟩
  env _ := some value

theorem sendsResolved_token :
    tokenLoad = .ok [tokenJob] ∧
      pingExecutor.SendsResolved tokenCrates "GET" "http://rebind.example/" tokenHeaders
        (tokenWorld "rotated") := by
  have hload : tokenLoad = .ok [tokenJob] := by decide +kernel
  refine ⟨hload, ?_⟩
  refine (sendsResolved_iff hload (List.mem_singleton_self _) rfl).2 (.inl ?_)
  intro h _ var _ hempty
  exact absurd (Option.some.inj hempty) (by decide)

/-- The variable is set to the empty text after the load, and the fire sends an empty header. -/
theorem sends_empty_token :
    tokenLoad = .ok [tokenJob] ∧
      (pingExecutor.execute tokenCrates "GET" "http://rebind.example/" tokenHeaders
        (tokenWorld "")).sent.map (·.headers) = some [("x-token", "")] ∧
      ¬ pingExecutor.SendsResolved tokenCrates "GET" "http://rebind.example/" tokenHeaders
        (tokenWorld "") := by
  refine ⟨by decide +kernel, by decide, fun h => ?_⟩
  obtain ⟨v, hv, hne, -⟩ := h.1 (by decide) ⟨"x-token", .env "PING_TOKEN"⟩
    (List.mem_singleton_self _) "PING_TOKEN" rfl
  exact hne (Option.some.inj hv).symm

end CronManager
