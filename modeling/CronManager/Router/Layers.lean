import CronManager.Boot
import CronManager.Router.Trace

/-!
# The layers around the router

`build` of `src/router.rs` wraps the routes in layers.  From the inside out these are the limit on
the body, the rewriting of bare 413 answers, the security headers of `src/security_headers.rs`,
the two layers of `Router.Trace`, the deadline and CORS.  What `axum` and `tower-http` answer
themselves is a parameter, of which `LayerCrates.Documented` says what the layers of the source rely
on.  The answer to `HEAD` is that to `GET`, whose body the server does not send.

* `content_structuredErrorBody`, `structuredErrorBody_intoResponse` : the rewriting layer gives a
  bare 413 the object of `RequestTooLarge`, and leaves the errors of the service alone;
* `logged` : what the layers up to the access log put into an answer;
* `answers_hardened` : every answer carries it, but for that of the deadline and that to a preflight
  request, and a page of another origin reads an answer only if its origin is listed.
-/

namespace CronManager

open Rust

/-! ### Answers -/

/-- A field of a JSON object. -/
inductive JsonField where
  | str (s : String)
  | num (n : ℕ)
  deriving DecidableEq, Repr

/-- The body of a response. -/
inductive Content where
  /-- Written by a crate. -/
  | foreign
  /-- The string of `index`. -/
  | started
  /-- `Json` of what a handler returns. -/
  | body (b : Body)
  /-- `Json` of an object. -/
  | object (fields : List (String × JsonField))
  deriving DecidableEq, Repr

/-- A response with its body. -/
structure Answer extends Response where
  content : Content

/-- The content type of a rewritten answer. -/
def applicationJson : List UInt8 := bytes "application/json".toList

/-- `HeaderMap::remove`. -/
def HeaderMap.remove (headers : HeaderMap) (name : String) : HeaderMap :=
  headers.filter fun field => field.1 != name

/-- `entry(name).or_insert(value)`. -/
def HeaderMap.orInsert (headers : HeaderMap) (name : String) (value : List UInt8) : HeaderMap :=
  if headers.containsKey name then headers else headers.insert name value

namespace CronManagerError

/-- `CronManagerError::code`. -/
def code : CronManagerError → String
  | jobNotFound .. => "job_not_found"
  | jobAlreadyRunning .. => "job_already_running"
  | invalidJobDefinition .. => "invalid_job_definition"
  | invalidConfig .. => "invalid_config"
  | invalidCron .. => "invalid_cron"
  | requestTooLarge _ => "request_too_large"
  | tooManyQueryParams .. => "too_many_query_params"
  | unauthorized => "unauthorized"
  | forbidden _ => "forbidden"
  | tooManyRequests _ => "too_many_requests"
  | badRequest _ => "bad_request"
  | upstreamHttpError .. => "upstream_http_error"
  | upstreamTimeout _ => "upstream_timeout"
  | upstreamBodyTooLarge _ => "upstream_body_too_large"
  | shellFailed _ => "shell_failed"
  | shellTimeout _ => "shell_timeout"
  | io _ => "io_error"
  | yamlParse .. => "yaml_parse_error"
  | database _ => "database_error"
  | internal _ => "internal_error"

/-- What the object of an error has besides its code and its message. -/
def details : CronManagerError → List (String × JsonField)
  | requestTooLarge limit | upstreamBodyTooLarge limit => [("limit", .num limit)]
  | tooManyQueryParams count limit => [("count", .num count), ("limit", .num limit)]
  | tooManyRequests retryAfterSecs => [("retry_after_secs", .num retryAfterSecs)]
  | _ => []

end CronManagerError

/-- A request as it arrives. -/
structure Inbound where
  method : String
  path : String
  query : Option String
  headers : HeaderMap
  contentLength : Option ℕ

/-- What `axum` and `tower-http` do around the functions of the service. -/
structure LayerCrates where
  /-- The content type of `Json`. -/
  json : List UInt8
  /-- The content type of a string. -/
  text : List UInt8
  /-- The answer of `axum` to a request that no handler and no layer of the service answers. -/
  refused : Refusal → Inbound → Answer
  /-- The answer of `RequestBodyLimitLayer` to a body that is too long. -/
  limited : Answer
  /-- The answer of `TimeoutLayer` after its deadline. -/
  timedOut : Answer
  /-- The answer of a `CorsLayer` with these origins to `OPTIONS`, which it does not pass on. -/
  preflight : List (List UInt8) → Inbound → Answer
  /-- What a `CorsLayer` with these origins makes of any other answer. -/
  cors : List (List UInt8) → Inbound → Answer → Answer

variable (l : LayerCrates) (k : UriCrates)

/-- `into_response`. -/
def CronManagerError.intoResponse (e : CronManagerError) : Answer where
  status := e.status
  headers := [("content-type", l.json)]
  content := .object (("error", .str e.code) :: ("message", .str e.display) :: e.details)

/-- The answer when no handler has run. -/
def Refusal.answer (i : Inbound) : Refusal → Answer
  | .error e => e.intoResponse l
  | r => l.refused r i

/-- The answer of a handler. -/
def Body.answer (path : String) (b : Body) : Answer :=
  if k.matchPath path = some .index then ⟨⟨200, [("content-type", l.text)]⟩, .started⟩
  else ⟨⟨200, [("content-type", l.json)]⟩, .body b⟩

/-! ### The layers -/

/-- The response is JSON already. -/
def Response.isJson (r : Response) : Bool :=
  ((r.headers.get "content-type").bind headerToStr).any fun s =>
    "application/json".toList.isPrefixOf s

/-- `structured_error_body_middleware`, on the response of the inner layers. -/
def structuredErrorBody (limit : ℕ) (a : Answer) : Answer :=
  if a.status ≠ 413 then a
  else if a.isJson then a
  else {
    status := a.status
    headers := (a.headers.insert "content-type" applicationJson).remove "content-length"
    content := .object [("error", .str "request_too_large"),
      ("message", .str s!"request body exceeds {limit} bytes"), ("limit", .num limit)] }

/-- The headers of `security_headers_middleware`. -/
def securityHeaders : List (String × List UInt8) :=
  [("content-security-policy", bytes "default-src 'none'; frame-ancestors 'none'".toList),
    ("strict-transport-security", bytes "max-age=63072000; includeSubDomains; preload".toList),
    ("x-frame-options", bytes "DENY".toList),
    ("x-content-type-options", bytes "nosniff".toList),
    ("referrer-policy", bytes "no-referrer".toList)]

/-- `security_headers_middleware`, on the response of the inner layers. -/
def securityHeadersMiddleware (a : Answer) : Answer :=
  { a with headers := securityHeaders.foldl (fun headers h => headers.orInsert h.1 h.2) a.headers }

/-! ### A request and its answer -/

/-- The method as the routes tell it apart. -/
def Method.ofString : String → Method
  | "GET" => .get
  | "HEAD" => .head
  | "POST" => .post
  | _ => .other

/-- The pattern of the route that a path matches; most patterns are paths. -/
def matchedPath (path : String) : Option String :=
  (k.matchPath path).map fun
    | .jobsGroup _ => "/jobs/:group"
    | .runningGroup _ => "/running/:group"
    | .executeJob .. => "/execute/:group/:job"
    | .stopJob .. => "/stop/:group/:job"
    | .reloadJobs _ => "/reload/:group"
    | _ => path

namespace Inbound

/-- What the routes read off the request. -/
def request (i : Inbound) : Request :=
  ⟨.ofString i.method, i.path, i.query, i.headers.get "authorization", i.contentLength⟩

/-- What the trace layers read off it. -/
def traced (i : Inbound) : TracedRequest := ⟨i.method, matchedPath k i.path, i.headers⟩

end Inbound

/-- What the outside world does while a request is answered. -/
structure AnswerWorld where
  serve : ServeWorld
  trace : TraceWorld
  /-- The deadline passes before there is an answer. -/
  late : Bool

variable (c : Crates) (env : ProcEnv) (environment : Environment)

/-- What comes out of the routes and the limit on the body. -/
def AppState.inner (st : AppState) (s : Server) (i : Inbound) (w : ServeWorld) : Answer :=
  if i.contentLength.any fun n => decide (st.cfg.limits.maxRequestBytes < n) then
    l.limited
  else match (st.serve k c env environment s i.request w).2 with
    | .ok body => body.answer l k i.path
    | .error r => r.answer l i

/-- The answer of the layers up to the access log, and its line. -/
def AppState.logged (st : AppState) (s : Server) (i : Inbound) (w : AnswerWorld) :
    Answer × AccessLine :=
  let a := securityHeadersMiddleware (structuredErrorBody st.cfg.limits.maxRequestBytes
    (st.inner l k c env environment s i w.serve))
  let r := tracedCall w.trace (fun _ => a.toResponse) (i.traced k)
  ({ a with toResponse := r.1 }, r.2)

/-- The answer with the deadline around it, when there is one. -/
def AppState.timed (st : AppState) (s : Server) (i : Inbound) (w : AnswerWorld) :
    Answer × Option AccessLine :=
  if 0 < st.cfg.limits.requestTimeoutSecs ∧ w.late = true then (l.timedOut, none)
  else
    let r := st.logged l k c env environment s i w
    (r.1, some r.2)

/-- The answer of the whole stack, with the origins of the CORS layer. -/
def AppState.answer (st : AppState) (cors : Option (List (List UInt8))) (s : Server) (i : Inbound)
    (w : AnswerWorld) : Answer × Option AccessLine :=
  match cors with
  | none => st.timed l k c env environment s i w
  | some origins =>
    -- a preflight request does not get to the inner layers
    if i.method = "OPTIONS" then (l.preflight origins i, none)
    else
      let r := st.timed l k c env environment s i w
      (l.cors origins i r.1, r.2)

/-! ### What the layers rely on -/

/-- The headers that the layers of the service set. -/
def serviceHeaders : List String := securityHeaders.map (·.1) ++ ["traceparent", "x-trace-id"]

/-- The answer has none of the headers that the layers set. -/
structure Response.Bare (r : Response) : Prop where
  service : ∀ name ∈ serviceHeaders, r.headers.get name = none
  origin : r.headers.get "access-control-allow-origin" = none

/-- The origin that a request comes from, if it is one of the list. -/
def Inbound.listedOrigin (i : Inbound) (origins : List (List UInt8)) : Option (List UInt8) :=
  (i.headers.get "origin").filter fun o => o ∈ origins

/-- What the documentation of `axum` and `tower-http` says: their own answers have none of the
headers of the service, only the body limit answers 413, which is no JSON, and `CorsLayer` lets the
listed origins read an answer that it leaves alone otherwise. -/
structure LayerCrates.Documented (l : LayerCrates) : Prop where
  json : (headerToStr l.json).any (fun s => "application/json".toList.isPrefixOf s) = true
  refused : ∀ r i, (l.refused r i).status ≠ 413 ∧ (l.refused r i).Bare
  limited : l.limited.status = 413 ∧ l.limited.isJson = false ∧ l.limited.Bare
  timedOut : l.timedOut.status ≠ 413 ∧ l.timedOut.Bare
  preflight : ∀ origins i, (l.preflight origins i).status ≠ 413 ∧
    ∀ name ∈ serviceHeaders, (l.preflight origins i).headers.get name = none
  preflightOrigin : ∀ origins i, (l.preflight origins i).headers.get
    "access-control-allow-origin" = i.listedOrigin origins
  cors : ∀ origins i a, (l.cors origins i a).status = a.status ∧
    (l.cors origins i a).content = a.content ∧
    ∀ name ∈ serviceHeaders, (l.cors origins i a).headers.get name = a.headers.get name
  corsOrigin : ∀ origins i a, a.headers.get "access-control-allow-origin" = none →
    (l.cors origins i a).headers.get "access-control-allow-origin" = i.listedOrigin origins

variable {l k c env environment} {st : AppState} {s : Server} {i : Inbound} {w : AnswerWorld}
  {a : Answer} {e : CronManagerError} {headers : HeaderMap} {name name' : String}
  {value : List UInt8} {cors : Option (List (List UInt8))}

/-! ### What comes out of the routes -/

theorem get_singleton :
    HeaderMap.get [(name, value)] name' = if name' = name then some value else none :=
  lookup_cons_eq ..

theorem isJson_intoResponse (hl : l.Documented) (e : CronManagerError) :
    (e.intoResponse l).isJson = true := by
  unfold Response.isJson CronManagerError.intoResponse
  rw [get_singleton, if_pos rfl]
  exact hl.json

theorem code_of_status (h : e.status = 413) :
    e.code = "request_too_large" ∨ e.code = "too_many_query_params" := by
  cases e <;> first | exact .inl rfl | exact .inr rfl | cases h

theorem bare_singleton {status : ℕ} : Response.Bare ⟨status, [("content-type", value)]⟩ := by
  have hnames : ∀ name ∈ serviceHeaders, name ≠ "content-type" := by decide
  refine ⟨fun name hname => ?_, ?_⟩
  · exact get_singleton.trans (if_neg (hnames name hname))
  · exact get_singleton.trans (if_neg (by decide))

theorem bare_inner (hl : l.Documented) {w : ServeWorld} :
    (st.inner l k c env environment s i w).Bare := by
  unfold AppState.inner
  split_ifs
  · exact hl.limited.2.2
  · split
    · unfold Body.answer
      split_ifs <;> exact bare_singleton
    · rename_i r _
      cases r with
      | error e => exact bare_singleton
      | notFound => exact (hl.refused .notFound i).2
      | methodNotAllowed => exact (hl.refused .methodNotAllowed i).2
      | invalidPath => exact (hl.refused .invalidPath i).2

/-- The object of an error with one of these codes. -/
def Content.HasCode (content : Content) (codes : List String) : Prop :=
  ∃ fields code, content = .object fields ∧ fields.lookup "error" = some (.str code) ∧
    code ∈ codes

/-- A 413 that is JSON already is that of an error of the service. -/
theorem hasCode_inner (hl : l.Documented) {w : ServeWorld}
    (hstatus : (st.inner l k c env environment s i w).status = 413)
    (hjson : (st.inner l k c env environment s i w).isJson = true) :
    (st.inner l k c env environment s i w).content.HasCode
      ["request_too_large", "too_many_query_params"] := by
  unfold AppState.inner at hstatus hjson ⊢
  split_ifs at hstatus hjson ⊢
  · rw [hl.limited.2.1] at hjson
    cases hjson
  · split at hstatus
    · unfold Body.answer at hstatus
      split_ifs at hstatus <;> cases hstatus
    · rename_i r hr
      cases r with
      | error e =>
        refine ⟨_, e.code, rfl, rfl, ?_⟩
        rcases code_of_status (e := e) hstatus with h | h <;> rw [h] <;> decide
      | notFound => exact absurd hstatus (hl.refused .notFound i).1
      | methodNotAllowed => exact absurd hstatus (hl.refused .methodNotAllowed i).1
      | invalidPath => exact absurd hstatus (hl.refused .invalidPath i).1

/-! ### The inner layers -/

theorem HeaderMap.get_orInsert : (headers.orInsert name value).get name' =
    if name' = name then (headers.get name).or (some value) else headers.get name' := by
  unfold orInsert containsKey
  cases hget : headers.get name with
  | none =>
    rw [if_neg (by rw [Option.isSome_none]; exact Bool.false_ne_true), get_insert]
    split_ifs <;> rfl
  | some old =>
    rw [if_pos (by rfl)]
    split_ifs with hname
    · rw [hname, hget]
      rfl
    · rfl

theorem HeaderMap.get_remove (hname : name' ≠ name) :
    (headers.remove name).get name' = headers.get name' := by
  unfold remove get
  rw [lookup_filter fun n => n != name, if_pos (by simpa using hname)]

/-- The rewriting layer keeps the headers but those of the body. -/
theorem get_structuredErrorBody {limit : ℕ} (htype : name ≠ "content-type")
    (hlength : name ≠ "content-length") :
    (structuredErrorBody limit a).headers.get name = a.headers.get name := by
  unfold structuredErrorBody
  split_ifs
  · rfl
  · rfl
  · show HeaderMap.get _ name = _
    rw [HeaderMap.get_remove hlength, HeaderMap.get_insert, if_neg htype]

theorem bare_structuredErrorBody {limit : ℕ} (h : a.Bare) :
    (structuredErrorBody limit a).Bare := by
  have hnames : ∀ name ∈ serviceHeaders, name ≠ "content-type" ∧ name ≠ "content-length" := by
    decide
  refine ⟨fun name hname => ?_, ?_⟩
  · rw [get_structuredErrorBody (hnames name hname).1 (hnames name hname).2]
    exact h.service name hname
  · rw [get_structuredErrorBody (by decide) (by decide)]
    exact h.origin

/-- **A bare 413 gets the object of `RequestTooLarge`.** -/
theorem content_structuredErrorBody {limit : ℕ} (hstatus : a.status = 413)
    (hjson : a.isJson = false) : (structuredErrorBody limit a).content =
      ((CronManagerError.requestTooLarge limit).intoResponse l).content := by
  unfold structuredErrorBody
  rw [if_neg (not_not.2 hstatus), if_neg (by rw [hjson]; exact Bool.false_ne_true)]
  rfl

/-- **The errors of the service keep their objects.** -/
theorem structuredErrorBody_intoResponse (hl : l.Documented) {limit : ℕ} (e : CronManagerError) :
    structuredErrorBody limit (e.intoResponse l) = e.intoResponse l := by
  unfold structuredErrorBody
  rw [if_pos (isJson_intoResponse hl e), ite_self]

theorem get_foldl_orInsert {list : List (String × List UInt8)} (h : name ∉ list.map (·.1)) :
    (list.foldl (fun headers h => headers.orInsert h.1 h.2) headers).get name =
      headers.get name := by
  induction list generalizing headers with
  | nil => rfl
  | cons field list ih =>
    rw [List.map_cons, List.mem_cons, not_or] at h
    rw [List.foldl_cons, ih h.2, HeaderMap.get_orInsert, if_neg h.1]

theorem get_foldl_orInsert_of_mem {list : List (String × List UInt8)}
    (hnodup : (list.map (·.1)).Nodup) (habsent : ∀ h ∈ list, headers.get h.1 = none) :
    ∀ h ∈ list, (list.foldl (fun headers h => headers.orInsert h.1 h.2) headers).get h.1 =
      some h.2 := by
  induction list generalizing headers with
  | nil => exact fun h hh => absurd hh List.not_mem_nil
  | cons field list ih =>
    rw [List.map_cons, List.nodup_cons] at hnodup
    intro h hh
    rw [List.foldl_cons]
    rcases List.mem_cons.1 hh with rfl | hh
    · rw [get_foldl_orInsert hnodup.1, HeaderMap.get_orInsert, if_pos rfl,
        habsent h List.mem_cons_self]
      rfl
    · refine ih hnodup.2 (fun h' hh' => ?_) h hh
      have hne : h'.1 ≠ field.1 := by
        rintro heq
        exact hnodup.1 (heq ▸ List.mem_map_of_mem hh')
      rw [HeaderMap.get_orInsert, if_neg hne]
      exact habsent h' (List.mem_cons_of_mem _ hh')

/-- The security headers are in the response. -/
def Response.Hardened (r : Response) : Prop := ∀ h ∈ securityHeaders, r.headers.get h.1 = some h.2

theorem hardened_securityHeaders (h : a.Bare) : (securityHeadersMiddleware a).Hardened :=
  get_foldl_orInsert_of_mem (by decide) fun _ hfield =>
    h.service _ (List.mem_append_left _ (List.mem_map_of_mem hfield))

theorem untraced_securityHeaders (h : a.Bare) : (securityHeadersMiddleware a).Untraced := by
  have habsent {name : String} (hname : name ∈ serviceHeaders)
      (hnot : name ∉ securityHeaders.map (·.1)) :
      (securityHeadersMiddleware a).headers.containsKey name = false := by
    rw [HeaderMap.containsKey, securityHeadersMiddleware, get_foldl_orInsert hnot,
      h.service name hname]
    rfl
  exact ⟨habsent (by decide) (by decide), habsent (by decide) (by decide)⟩

theorem get_tracedCall {w : TraceWorld} {next : TracedRequest → Response} {req : TracedRequest}
    (hnext : (next req).Untraced) (hname : name ≠ "traceparent") (hname' : name ≠ "x-trace-id") :
    (tracedCall w next req).1.headers.get name = (next req).headers.get name := by
  have hid := headerId_extractOrGenerate req w.traceUuid
  have htext := traceparent_text hid (headerId_short w.spanUuid)
  have habsent : ((next req).headers.setAbsent "traceparent" ("00-".toList ++
      extractOrGenerateTraceId req w.traceUuid ++ '-' :: w.spanUuid.short ++
        "-01".toList)).containsKey "x-trace-id" = false := by
    rw [HeaderMap.containsKey, HeaderMap.get_setAbsent hnext.1 htext, if_neg (by decide)]
    exact hnext.2
  show (HeaderMap.setAbsent _ "x-trace-id" _).get name = _
  rw [HeaderMap.get_setAbsent habsent hid.text, if_neg hname',
    HeaderMap.get_setAbsent hnext.1 htext, if_neg hname]

theorem hasCode_structuredErrorBody {limit : ℕ} {codes : List String}
    (hcode : "request_too_large" ∈ codes)
    (h : a.status = 413 → a.isJson = true → a.content.HasCode codes)
    (hstatus : (structuredErrorBody limit a).status = 413) :
    (structuredErrorBody limit a).content.HasCode codes := by
  unfold structuredErrorBody at hstatus ⊢
  split_ifs at hstatus ⊢ with hother hjson
  · exact absurd hstatus hother
  · exact h hstatus hjson
  · exact ⟨_, _, rfl, rfl, hcode⟩

/-! ### What an answer carries -/

/-- The answer of a request comes out of the routes. -/
def AppState.Reaches (st : AppState) (cors : Option (List (List UInt8))) (i : Inbound)
    (w : AnswerWorld) : Prop :=
  (cors = none ∨ i.method ≠ "OPTIONS") ∧
    ¬ (0 < st.cfg.limits.requestTimeoutSecs ∧ w.late = true)

/-- What the layers up to the access log put into an answer. -/
structure Logged (req : TracedRequest) (w : AnswerWorld) (r : Answer × AccessLine) : Prop where
  hardened : r.1.Hardened
  ids : r.1.traceparentId = some (extractOrGenerateTraceId req w.trace.traceUuid) ∧
    r.1.xTraceId = some (extractOrGenerateTraceId req w.trace.traceUuid)
  line : r.2.status = r.1.status
  code : r.1.status = 413 → r.1.content.HasCode ["request_too_large", "too_many_query_params"]
  origin : r.1.headers.get "access-control-allow-origin" = none

theorem logged_of_untraced {req : TracedRequest} (hhardened : a.Hardened)
    (huntraced : a.Untraced)
    (hcode : a.status = 413 → a.content.HasCode ["request_too_large", "too_many_query_params"])
    (horigin : a.headers.get "access-control-allow-origin" = none) :
    Logged req w ({ a with toResponse := (tracedCall w.trace (fun _ => a.toResponse) req).1 },
      (tracedCall w.trace (fun _ => a.toResponse) req).2) where
  hardened := by
    intro h hh
    have hnames : ∀ f ∈ securityHeaders, f.1 ≠ "traceparent" ∧ f.1 ≠ "x-trace-id" := by decide
    exact (get_tracedCall huntraced (hnames h hh).1 (hnames h hh).2).trans (hhardened h hh)
  ids := @ids_of_response req (fun _ => a.toResponse) huntraced w.trace.traceUuid
    w.trace.spanUuid
  line := rfl
  code := hcode
  origin := (get_tracedCall huntraced (by decide) (by decide)).trans horigin

theorem logged (hl : l.Documented) (st : AppState) (s : Server) (i : Inbound) (w : AnswerWorld) :
    Logged (i.traced k) w (st.logged l k c env environment s i w) := by
  have hbare := @bare_structuredErrorBody _ st.cfg.limits.maxRequestBytes
    (@bare_inner l k c env environment st s i hl w.serve)
  refine logged_of_untraced (hardened_securityHeaders hbare) (untraced_securityHeaders hbare)
    (hasCode_structuredErrorBody (by decide) (hasCode_inner hl)) ?_
  exact (get_foldl_orInsert (by decide)).trans hbare.origin

theorem mem_buildCors {origins : List String} (h : buildCors c origins = some cors) :
    (∃ list, cors = some list ∧ value ∈ list) ↔
      ∃ o ∈ origins, headerFromStr o.toList = some value := by
  unfold buildCors at h
  simp only at h
  split_ifs at h with hnone hlist
  · obtain rfl := Option.some.inj h
    refine iff_of_false (by rintro ⟨list, ⟨⟩, -⟩) ?_
    rintro ⟨o, ho, hvalue⟩
    rcases hnone with hempty | hempty
    · rw [List.isEmpty_iff.1 hempty] at ho
      exact absurd ho List.not_mem_nil
    · have hmem : value ∈ origins.filterMap fun o => headerFromStr o.toList :=
        List.mem_filterMap.2 ⟨o, ho, hvalue⟩
      rw [List.isEmpty_iff.1 hempty] at hmem
      exact absurd hmem List.not_mem_nil
  · obtain rfl := Option.some.inj h
    constructor
    · rintro ⟨list, hsome, hvalue⟩
      obtain rfl := Option.some.inj hsome
      exact List.mem_filterMap.1 hvalue
    · exact fun hvalue => ⟨_, rfl, List.mem_filterMap.2 hvalue⟩

theorem not_hardened {r : Response} (h : ∀ name ∈ serviceHeaders, r.headers.get name = none) :
    ¬ r.Hardened := by
  intro hhardened
  have hget := hhardened ("x-frame-options", bytes "DENY".toList) (by simp [securityHeaders])
  rw [h "x-frame-options" (by decide)] at hget
  cases hget

/-- What an answer carries, and who may read it. -/
structure Carries (reaches : Prop) (origin : Option (List UInt8))
    (r : Answer × Option AccessLine) : Prop where
  hardened : r.1.Hardened ↔ reaches
  logged : reaches → ∃ id line, r.2 = some line ∧ line.status = r.1.status ∧
    r.1.traceparentId = some id ∧ r.1.xTraceId = some id
  code : r.1.status = 413 → r.1.content.HasCode ["request_too_large", "too_many_query_params"]
  origin : r.1.headers.get "access-control-allow-origin" = origin

theorem carries_timed (hl : l.Documented) (st : AppState) (s : Server) (i : Inbound)
    (w : AnswerWorld) :
    Carries (¬ (0 < st.cfg.limits.requestTimeoutSecs ∧ w.late = true)) none
      (st.timed l k c env environment s i w) := by
  unfold AppState.timed
  split_ifs with hlate
  · obtain ⟨hstatus, hbare⟩ := hl.timedOut
    exact ⟨iff_of_false (not_hardened hbare.service) fun h => h hlate, fun h => absurd hlate h,
      fun h => absurd h hstatus, hbare.origin⟩
  · have hlogged := @logged l k c env environment hl st s i w
    exact ⟨iff_of_true hlogged.hardened hlate, fun _ => ⟨_, _, rfl, hlogged.line, hlogged.ids⟩,
      hlogged.code, hlogged.origin⟩

theorem Carries.withCors {reaches : Prop} {r : Answer × Option AccessLine}
    (h : Carries reaches none r) (hl : l.Documented) (origins : List (List UInt8)) (i : Inbound) :
    Carries reaches (i.listedOrigin origins) (l.cors origins i r.1, r.2) := by
  obtain ⟨hstatus, hcontent, hkeep⟩ := hl.cors origins i r.1
  refine ⟨?_, fun hreaches => ?_, ?_, hl.corsOrigin origins i r.1 h.origin⟩
  · rw [← h.hardened]
    refine forall₂_congr fun f hf => ?_
    rw [hkeep f.1 (List.mem_append_left _ (List.mem_map_of_mem hf))]
  · obtain ⟨id, line, hline, hlinestatus, htraceparent, hxTraceId⟩ := h.logged hreaches
    refine ⟨id, line, hline, hlinestatus.trans hstatus.symm, ?_, ?_⟩
    · rw [← htraceparent, Response.traceparentId, Response.traceparentId, hkeep _ (by decide)]
    · rw [← hxTraceId, Response.xTraceId, Response.xTraceId, hkeep _ (by decide)]
  · rw [hstatus, hcontent]
    exact h.code

theorem carries_answer (hl : l.Documented) (st : AppState) (cors : Option (List (List UInt8)))
    (s : Server) (i : Inbound) (w : AnswerWorld) :
    Carries (st.Reaches cors i w) (cors.bind i.listedOrigin)
      (st.answer l k c env environment cors s i w) := by
  have htimed := @carries_timed l k c env environment hl st s i w
  cases cors with
  | none =>
    have hreaches : st.Reaches none i w ↔
        ¬ (0 < st.cfg.limits.requestTimeoutSecs ∧ w.late = true) :=
      and_iff_right (.inl rfl)
    rw [hreaches]
    exact htimed
  | some origins =>
    unfold AppState.answer
    by_cases hmethod : i.method = "OPTIONS"
    · have hreaches : ¬ st.Reaches (some origins) i w := by
        rintro ⟨hnone | hne, -⟩
        · cases hnone
        · exact hne hmethod
      simp only [if_pos hmethod]
      obtain ⟨hstatus, hnone⟩ := hl.preflight origins i
      exact ⟨iff_of_false (not_hardened hnone) hreaches, fun h => absurd h hreaches,
        fun h => absurd h hstatus, hl.preflightOrigin origins i⟩
    · have hreaches : st.Reaches (some origins) i w ↔
          ¬ (0 < st.cfg.limits.requestTimeoutSecs ∧ w.late = true) :=
        and_iff_right (.inr hmethod)
      simp only [if_neg hmethod]
      rw [hreaches]
      exact htimed.withCors hl origins i

/-- **What every answer carries.**  For every request, with the CORS layer of the configuration and
crates that do what they document: an answer has the five security headers exactly when it comes out
of the routes, that is when it is not that of the deadline and not that to a preflight request, and
then it has a trace id in both headers and one line in the access log with its status; a 413 is an
object with one of the two codes; and a page of another origin may read the answer exactly when that
origin is listed. -/
theorem answers_hardened (hl : l.Documented) (hcors : buildCors c st.cfg.allowedOrigins = some cors)
    (s : Server) (i : Inbound) (w : AnswerWorld) :
    ((st.answer l k c env environment cors s i w).1.Hardened ↔ st.Reaches cors i w) ∧
      (st.Reaches cors i w → ∃ id line,
        (st.answer l k c env environment cors s i w).2 = some line ∧
        line.status = (st.answer l k c env environment cors s i w).1.status ∧
        (st.answer l k c env environment cors s i w).1.traceparentId = some id ∧
        (st.answer l k c env environment cors s i w).1.xTraceId = some id) ∧
      ((st.answer l k c env environment cors s i w).1.status = 413 →
        (st.answer l k c env environment cors s i w).1.content.HasCode
          ["request_too_large", "too_many_query_params"]) ∧
      ∀ value, (st.answer l k c env environment cors s i w).1.headers.get
          "access-control-allow-origin" = some value ↔
        i.headers.get "origin" = some value ∧
          ∃ o ∈ st.cfg.allowedOrigins, headerFromStr o.toList = some value := by
  have hcarries := @carries_answer l k c env environment hl st cors s i w
  refine ⟨hcarries.hardened, hcarries.logged, hcarries.code, fun value => ?_⟩
  rw [hcarries.origin, ← mem_buildCors hcors]
  simp only [Inbound.listedOrigin, Option.bind_eq_some_iff, Option.filter_eq_some_iff,
    decide_eq_true_eq]
  constructor
  · rintro ⟨origins, hsome, horigin, hmem⟩
    exact ⟨horigin, origins, hsome, hmem⟩
  · rintro ⟨horigin, origins, hsome, hmem⟩
    exact ⟨origins, hsome, horigin, hmem⟩

/-- The answers of the crates, without the headers that the answers of the service do not have. -/
def demoLayers : LayerCrates where
  json := applicationJson
  text := bytes "text/plain; charset=utf-8".toList
  refused r _ := match r with
    | .notFound => ⟨⟨404, []⟩, .foreign⟩
    | .methodNotAllowed => ⟨⟨405, []⟩, .foreign⟩
    | _ => ⟨⟨400, [("content-type", bytes "text/plain; charset=utf-8".toList)]⟩, .foreign⟩
  limited := ⟨⟨413, [("content-type", bytes "text/plain; charset=utf-8".toList)]⟩, .foreign⟩
  timedOut := ⟨⟨408, []⟩, .foreign⟩
  preflight origins i := ⟨⟨200, ((i.listedOrigin origins).map fun o =>
    ("access-control-allow-origin", o)).toList⟩, .foreign⟩
  cors origins i a := match i.listedOrigin origins with
    | some o => { a with headers := a.headers.insert "access-control-allow-origin" o }
    | none => a

theorem documented_demoLayers : demoLayers.Documented where
  json := by decide +kernel
  refused r i := by
    cases r with
    | notFound => exact ⟨by rintro ⟨⟩, ⟨fun _ _ => rfl, rfl⟩⟩
    | methodNotAllowed => exact ⟨by rintro ⟨⟩, ⟨fun _ _ => rfl, rfl⟩⟩
    | invalidPath => exact ⟨by rintro ⟨⟩, bare_singleton⟩
    | error e => exact ⟨by rintro ⟨⟩, bare_singleton⟩
  limited := ⟨rfl, by decide +kernel, bare_singleton⟩
  timedOut := ⟨by rintro ⟨⟩, ⟨fun _ _ => rfl, rfl⟩⟩
  preflight origins i := by
    refine ⟨by rintro ⟨⟩, fun name hname => ?_⟩
    have hnames : ∀ name ∈ serviceHeaders, name ≠ "access-control-allow-origin" := by decide
    simp only [demoLayers]
    cases i.listedOrigin origins with
    | none => rfl
    | some o => exact get_singleton.trans (if_neg (hnames name hname))
  preflightOrigin origins i := by
    simp only [demoLayers]
    cases i.listedOrigin origins with
    | none => rfl
    | some o => exact get_singleton.trans (if_pos rfl)
  cors origins i a := by
    have hnames : ∀ name ∈ serviceHeaders, name ≠ "access-control-allow-origin" := by decide
    simp only [demoLayers]
    cases i.listedOrigin origins with
    | none => exact ⟨rfl, rfl, fun _ _ => rfl⟩
    | some o =>
      exact ⟨rfl, rfl, fun name hname => HeaderMap.get_insert.trans (if_neg (hnames name hname))⟩
  corsOrigin origins i a hnone := by
    simp only [demoLayers]
    cases i.listedOrigin origins with
    | none => exact hnone
    | some o => exact HeaderMap.get_insert.trans (if_pos rfl)

/-- A state whose answers one other origin may read. -/
def corsState (origin : String) : AppState :=
  ⟨{ AppConfig.default with allowedOrigins := [origin] }, none, .empty⟩

/-- A request for `/health` by a page of the given origin. -/
def originRequest (origin : String) : Inbound :=
  ⟨"GET", "/health", none, [("origin", bytes origin.toList)], none⟩

theorem answers_hardened_cors :
    ((corsState "https://ops.example").answer demoLayers demoUri noCrates (fun _ => none) .dev
        (some [bytes "https://ops.example".toList]) ⟨demoRegistered.mem, ∅⟩
        (originRequest "https://ops.example") ⟨⟨0, .timedOut⟩, demoTraces, false⟩).1.Hardened ∧
      ((corsState "https://ops.example").answer demoLayers demoUri noCrates (fun _ => none) .dev
        (some [bytes "https://ops.example".toList]) ⟨demoRegistered.mem, ∅⟩
        (originRequest "https://ops.example")
        ⟨⟨0, .timedOut⟩, demoTraces, false⟩).1.headers.get "access-control-allow-origin" =
          some (bytes "https://ops.example".toList) := by
  have hcors : buildCors noCrates (corsState "https://ops.example").cfg.allowedOrigins =
      some (some [bytes "https://ops.example".toList]) := by decide +kernel
  have h := @answers_hardened demoLayers demoUri noCrates (fun _ => none) .dev
    (corsState "https://ops.example") _ documented_demoLayers hcors ⟨demoRegistered.mem, ∅⟩
    (originRequest "https://ops.example") ⟨⟨0, .timedOut⟩, demoTraces, false⟩
  refine ⟨h.1.2 ⟨.inr (by decide), fun hlate => absurd hlate.2 (by decide)⟩,
    (h.2.2.2 _).2 ⟨rfl, _, List.mem_cons_self, by decide +kernel⟩⟩

end CronManager
