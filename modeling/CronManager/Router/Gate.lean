import CronManager.Config

/-!
# Routing and the admin gate

`build` and `admin_gate` of `src/router.rs`: which endpoint a path belongs to, which endpoints the
gate protects, and when the gate lets a request through.  The path that the gate reads is the raw
one; the group that a handler gets is the percent-decoded segment.

* `extractGroupFromPath_of_match` : on the routed paths the gate's own parser finds the raw group
  segment, unless that is empty;
* `adminGate_eq_ok` : when the gate admits a request;
* `gate_agrees_iff` : the gate decides by the group that the handler gets, for all tokens and
  headers, exactly on the paths whose group segment is not empty and decodes to itself.
-/

namespace CronManager

open Rust

/-- The methods that `build` tells apart. -/
inductive Method where
  | get
  | head
  | post
  | other
  deriving DecidableEq, Repr

/-- What the router reads off a request. -/
structure Request where
  method : Method
  /-- `uri().path()`, not decoded. -/
  path : String
  query : Option String
  /-- The first `Authorization` header. -/
  authorization : Option (List UInt8)
  contentLength : Option ℕ

/-! ### Endpoints -/

/-- The routes of `build`, with the segments of the path that are parameters. -/
inductive Endpoint where
  | index
  | health
  | info
  | jobsAll
  | jobsGroup (group : String)
  | runningAll
  | runningGroup (group : String)
  | executeJob (group job : String)
  | stopJob (group job : String)
  | reloadJobs (group : String)
  deriving DecidableEq, Repr

/-- The group segment of a state-changing endpoint. -/
def Endpoint.adminGroup : Endpoint → Option String
  | .executeJob group _ | .stopJob group _ | .reloadJobs group => some group
  | _ => none

/-- The segments of a path. -/
def pathSegments (path : String) : Option (List String) :=
  (stripPrefix ['/'] path.toList).map fun rest => (rest.splitOn '/').map String.ofList

/-- What `axum` and `form_urlencoded` do to the parts of a URI. -/
structure UriCrates where
  /-- The route of `build` that a path matches, if there is one. -/
  matchPath : String → Option Endpoint
  /-- The decoding of a path parameter; `none` when it is not valid UTF-8. -/
  percentDecode : String → Option String
  /-- `form_urlencoded::parse`. -/
  formUrlencoded : String → List (String × String)

/-- The parameters of the gated patterns `/execute/:group/:job`, `/stop/:group/:job` and
`/reload/:group` are single segments of the path. -/
structure UriCrates.CapturesSegments (k : UriCrates) : Prop where
  execute : ∀ path group job, k.matchPath path = some (.executeJob group job) →
    pathSegments path = some ["execute", group, job]
  stop : ∀ path group job, k.matchPath path = some (.stopJob group job) →
    pathSegments path = some ["stop", group, job]
  reload : ∀ path group, k.matchPath path = some (.reloadJobs group) →
    pathSegments path = some ["reload", group]

/-- The endpoints in the gated tree of `build`. -/
def Endpoint.gated (sec : SecurityConfig) : Endpoint → Bool
  | .executeJob .. | .stopJob .. | .reloadJobs _ => true
  | .jobsAll | .jobsGroup _ => !sec.exposeJobsPublicly
  | .runningAll | .runningGroup _ => !sec.exposeRunningPublicly
  | .index | .health | .info => false

/-- The methods an endpoint is registered for; `get` also serves `HEAD`. -/
def Endpoint.allows : Endpoint → Method → Bool
  | .executeJob .., m | .stopJob .., m | .reloadJobs _, m => m == .post
  | _, m => m == .get || m == .head

/-! ### The gate -/

/-- The part of `AppState` that does not change while the server runs. -/
structure AppState where
  cfg : AppConfig
  adminToken : Option String
  perGroupTokens : BTreeMap String String

/-- `AppState::new`. -/
def AppState.new (cfg : AppConfig) : AppState := ⟨cfg, none, .empty⟩

/-- `with_admin_token`. -/
def AppState.withAdminToken (st : AppState) (token : String) : AppState :=
  { st with adminToken := some token }

/-- `with_per_group_tokens`. -/
def AppState.withPerGroupTokens (st : AppState) (tokens : BTreeMap String String) : AppState :=
  { st with perGroupTokens := tokens }

/-- `extract_group_from_path`. -/
def extractGroupFromPath (path : String) : Option String :=
  match (stripPrefix ['/'] path.toList).map fun rest =>
      (splitn 3 '/' rest).map String.ofList with
  | some (verb :: group :: _) =>
    if verb ∈ ["execute", "stop", "reload"] ∧ group ≠ "" then some group else none
  | _ => none

/-- `HeaderValue::to_str`: visible ASCII and tabs only. -/
def headerToStr (value : List UInt8) : Option (List Char) :=
  if value.all fun b => (32 ≤ b && b < 127) || b == 9 then
    some (value.map fun b => Char.ofNat b.toNat)
  else none

/-- `HeaderValue::from_str`. -/
def headerFromStr (s : List Char) : Option (List UInt8) :=
  if (bytes s).all fun b => (32 ≤ b && b != 127) || b == 9 then some (bytes s) else none

/-- `bearer_token_bytes`. -/
def bearerTokenBytes (header : List Char) : Option (List UInt8) :=
  let trimmed := trim header
  let scheme := trimmed.takeWhile fun ch => !isWhitespace ch
  let rest := trim (trimmed.dropWhile fun ch => !isWhitespace ch)
  if scheme.length = trimmed.length then none
  else if !eqIgnoreAsciiCase scheme "Bearer".toList then none
  else if rest.isEmpty then none
  else some (bytes rest)

/-- The token a request presents. -/
def presentedToken (authorization : Option (List UInt8)) : Option (List UInt8) :=
  (authorization.bind headerToStr).bind bearerTokenBytes

/-- `ct_token_matches`. -/
def ctTokenMatches (presented expected : List UInt8) : Bool :=
  if presented.length ≠ expected.length then false else presented == expected

/-- `admin_gate`, up to `next.run`. -/
def AppState.adminGate (st : AppState) (path : String) (authorization : Option (List UInt8)) :
    Except CronManagerError Unit :=
  match st.adminToken with
  -- without a master token the gate is open, whatever group tokens there are
  | none => .ok ()
  | some master => match presentedToken authorization with
    | none => .error .unauthorized
    | some presented =>
      let masterOk := ctTokenMatches presented (bytes master.toList)
      let groupOk := (((extractGroupFromPath path).bind st.perGroupTokens.get).map fun token =>
        ctTokenMatches presented (bytes token.toList)).getD false
      if !(masterOk || groupOk) then .error .unauthorized else .ok ()

/-! ### What the gate decides -/

variable {st : AppState} {path : String} {authorization : Option (List UInt8)}

theorem ctTokenMatches_iff {presented expected : List UInt8} :
    ctTokenMatches presented expected = true ↔ presented = expected := by
  unfold ctTokenMatches
  split
  · rename_i hlen
    refine iff_of_false Bool.false_ne_true ?_
    rintro rfl
    exact hlen rfl
  · exact beq_iff_eq

/-- The token is the one of some group of the map. -/
def AppState.GroupToken (st : AppState) (group : Option String) (token : List UInt8) : Prop :=
  ∃ g t, group = some g ∧ st.perGroupTokens.get g = some t ∧ token = bytes t.toList

theorem groupOk_iff {group : Option String} {presented : List UInt8} :
    ((group.bind st.perGroupTokens.get).map fun token =>
        ctTokenMatches presented (bytes token.toList)).getD false = true ↔
      st.GroupToken group presented := by
  unfold AppState.GroupToken
  cases group with
  | none => simp
  | some g =>
    cases hget : st.perGroupTokens.get g with
    | none => simp [hget]
    | some t => simp [hget, ctTokenMatches_iff]

/-- **When the gate lets a request through.** -/
theorem adminGate_eq_ok {master : String} (hmaster : st.adminToken = some master) :
    st.adminGate path authorization = .ok () ↔
      ∃ token, presentedToken authorization = some token ∧
        (token = bytes master.toList ∨ st.GroupToken (extractGroupFromPath path) token) := by
  unfold AppState.adminGate
  rw [hmaster]
  cases presentedToken authorization with
  | none => simp
  | some presented =>
    have hok : (ctTokenMatches presented (bytes master.toList) ||
        (((extractGroupFromPath path).bind st.perGroupTokens.get).map fun token =>
          ctTokenMatches presented (bytes token.toList)).getD false) = true ↔
        presented = bytes master.toList ∨ st.GroupToken (extractGroupFromPath path) presented := by
      rw [Bool.or_eq_true, ctTokenMatches_iff, groupOk_iff]
    simp only
    split
    · rename_i hrejected
      refine iff_of_false (by rintro ⟨⟩) ?_
      rintro ⟨token, ⟨⟩, htoken⟩
      rw [hok.2 htoken] at hrejected
      cases hrejected
    · rename_i hadmitted
      refine iff_of_true rfl ⟨presented, rfl, hok.1 ?_⟩
      simpa only [Bool.not_eq_true', Bool.not_eq_false] using hadmitted

/-! ### The two parsers of the path -/

/-- The group segment of a path: the second one. -/
def groupSegment (path : String) : Option String := (pathSegments path).bind fun segs => segs[1]?

theorem groupSegment_of_extract {group : String} (h : extractGroupFromPath path = some group) :
    groupSegment path = some group ∧ group ≠ "" := by
  unfold extractGroupFromPath at h
  unfold groupSegment pathSegments
  cases hstrip : stripPrefix ['/'] path.toList with
  | none => simp [hstrip] at h
  | some rest =>
    simp only [hstrip, Option.map_some] at h
    split at h
    · rename_i verb g parts hparts
      split at h
      · rename_i hverb
        cases h
        refine ⟨?_, hverb.2⟩
        have hsecond : (splitn 3 '/' rest)[1]? = (rest.splitOn '/')[1]? :=
          getElem?_one_splitn
        simp only [Option.map_some, Option.bind_some, List.getElem?_map, ← hsecond]
        rw [← List.getElem?_map, Option.some.inj hparts]
        rfl
      · cases h
    · cases h

variable {k : UriCrates}

theorem pathSegments_of_match {ep : Endpoint} {group : String} (hroutes : k.CapturesSegments)
    (h : k.matchPath path = some ep) (hgroup : ep.adminGroup = some group) :
    ∃ verb rest, pathSegments path = some (verb :: group :: rest) ∧
      verb ∈ ["execute", "stop", "reload"] ∧ rest.length ≤ 1 := by
  cases ep with
  | executeJob g job =>
    cases hgroup
    exact ⟨_, _, hroutes.execute path _ job h, by decide, le_refl _⟩
  | stopJob g job =>
    cases hgroup
    exact ⟨_, _, hroutes.stop path _ job h, by decide, le_refl _⟩
  | reloadJobs g =>
    cases hgroup
    exact ⟨_, _, hroutes.reload path _ h, by decide, Nat.zero_le _⟩
  | _ => cases hgroup

/-- On a routed path the gate's parser finds the raw group segment, or nothing where it is empty. -/
theorem extractGroupFromPath_of_match {ep : Endpoint} {group : String}
    (hroutes : k.CapturesSegments) (h : k.matchPath path = some ep)
    (hgroup : ep.adminGroup = some group) :
    extractGroupFromPath path = if group = "" then none else some group := by
  obtain ⟨verb, rest, hsegs, hverb, hrest⟩ := pathSegments_of_match hroutes h hgroup
  have hsplit : (stripPrefix ['/'] path.toList).map (fun rest =>
      (splitn 3 '/' rest).map String.ofList) = some (verb :: group :: rest) := by
    obtain ⟨tail, htail, hmap⟩ := Option.map_eq_some_iff.1 hsegs
    -- a routed path has at most three segments, so `splitn` cuts at all its slashes
    have hlen : (tail.splitOn '/').length ≤ 3 := by
      have := congrArg List.length hmap
      simp only [List.length_map, List.length_cons] at this
      omega
    rw [htail, Option.map_some, splitn_eq_splitOn hlen, hmap]
  unfold extractGroupFromPath
  rw [hsplit]
  by_cases hempty : group = ""
  · simp only [hempty, ne_eq, not_true_eq_false, and_false, if_false, if_true]
  · simp only [hverb, hempty, ne_eq, not_false_eq_true, and_self, if_true, if_false]

/-- **The gate and the handler agree on the group exactly where it is not empty and decodes to
itself.**  On a path routed to a state-changing handler, whose raw group segment `raw` is decoded
to `group`: for every state with a master token and every header the gate admits exactly the master
token and the token of `group`, if and only if `group = raw` and `raw` is not empty. -/
theorem gate_agrees_iff {ep : Endpoint} {raw group : String} (hroutes : k.CapturesSegments)
    (hmatch : k.matchPath path = some ep) (hraw : ep.adminGroup = some raw)
    (hgroup : k.percentDecode raw = some group) :
    (∀ (st : AppState) (master : String) (authorization : Option (List UInt8)),
        st.adminToken = some master →
        (st.adminGate path authorization = .ok () ↔
          ∃ token, presentedToken authorization = some token ∧
            (token = bytes master.toList ∨ st.GroupToken (some group) token))) ↔
      group = raw ∧ raw ≠ "" := by
  have hpresented : presentedToken (some (bytes "Bearer t".toList)) = some (bytes "t".toList) := by
    decide
  constructor
  · intro h
    -- the only group token of the state is that of the decoded group, and it is presented
    let st : AppState := ⟨.default, some "m", .singleton group "t"⟩
    have hadmit : st.adminGate path (some (bytes "Bearer t".toList)) = .ok () := by
      refine (h st "m" (some (bytes "Bearer t".toList)) rfl).2
        ⟨bytes "t".toList, hpresented, .inr ⟨group, "t", rfl, ?_, rfl⟩⟩
      simp [st, BTreeMap.get, BTreeMap.singleton]
    obtain ⟨token, htoken, hor⟩ := (adminGate_eq_ok rfl).1 hadmit
    obtain rfl : bytes "t".toList = token := Option.some.inj (hpresented.symm.trans htoken)
    rcases hor with hmaster | ⟨g, t, hg, hget, -⟩
    · exact absurd hmaster (by decide)
    · -- so the gate has found it at the raw segment
      rw [extractGroupFromPath_of_match hroutes hmatch hraw] at hg
      split at hg
      · cases hg
      · rename_i hne
        cases hg
        refine ⟨?_, hne⟩
        by_contra hdiff
        simp [st, BTreeMap.get, BTreeMap.singleton, Ne.symm hdiff] at hget
  · rintro ⟨rfl, hne⟩ st master authorization hmaster
    rw [adminGate_eq_ok hmaster, extractGroupFromPath_of_match hroutes hmatch hraw, if_neg hne]

/-- The routes of `build` as `axum` matches them.  A parameter at the end of a path is never empty;
one in the middle can be, as the group of `/execute//backup`. -/
def matchPath (path : String) : Option Endpoint :=
  match pathSegments path with
  | some [""] => some .index
  | some ["health"] | some ["healthz"] | some ["actuator", "health"] => some .health
  | some ["actuator", "info"] => some .info
  | some ["jobs"] | some ["jobs", ""] => some .jobsAll
  | some ["jobs", group] => some (.jobsGroup group)
  | some ["running"] | some ["running", ""] => some .runningAll
  | some ["running", group] => some (.runningGroup group)
  | some ["execute", group, job] => if job = "" then none else some (.executeJob group job)
  | some ["stop", group, job] => if job = "" then none else some (.stopJob group job)
  | some ["reload", group] => if group = "" then none else some (.reloadJobs group)
  | _ => none

/-- Routing and percent-decoding as `axum` does them; the query is not looked at. -/
def demoUri : UriCrates := ⟨matchPath, percentDecode, fun _ => []⟩

theorem capturesSegments_demoUri : demoUri.CapturesSegments where
  execute path group job h := by
    simp only [demoUri, matchPath] at h
    split at h <;> grind
  stop path group job h := by
    simp only [demoUri, matchPath] at h
    split at h <;> grind
  reload path group h := by
    simp only [demoUri, matchPath] at h
    split at h <;> grind

/-- A state with a master token and one group token. -/
def demoState (group : String) : AppState :=
  ⟨.default, some "master-secret", .singleton group "shift-secret"⟩

/-- The header that presents the group token. -/
def demoAuthorization : Option (List UInt8) := some (bytes "Bearer shift-secret".toList)

theorem gate_agrees_nightly :
    (demoState "nightly").adminGate "/execute/nightly/backup" demoAuthorization = .ok () := by
  have hiff := @gate_agrees_iff "/execute/nightly/backup" demoUri
    (.executeJob "nightly" "backup") "nightly" "nightly" capturesSegments_demoUri (by decide) rfl
    (by decide)
  refine (hiff.2 ⟨rfl, by decide⟩ (demoState "nightly") "master-secret" demoAuthorization rfl).2 ?_
  exact ⟨bytes "shift-secret".toList, by decide, .inr ⟨"nightly", _, rfl, by decide, rfl⟩⟩

/-- The handler gets the group `night shift`, whose token the gate refuses. -/
theorem gate_refuses_encoded_group :
    demoUri.matchPath "/execute/night%20shift/backup" =
        some (.executeJob "night%20shift" "backup") ∧
      demoUri.percentDecode "night%20shift" = some "night shift" ∧
      presentedToken demoAuthorization = some (bytes "shift-secret".toList) ∧
      (demoState "night shift").perGroupTokens.get "night shift" = some "shift-secret" ∧
      (demoState "night shift").adminGate "/execute/night%20shift/backup" demoAuthorization =
        .error .unauthorized := by
  refine ⟨by decide, by decide, by decide, by decide, by decide⟩

/-- The path of a job of the group with the empty name is routed, and the gate refuses the token of
that group. -/
example : demoUri.matchPath "/execute//backup" = some (.executeJob "" "backup") ∧
    (demoState "").adminGate "/execute//backup" demoAuthorization = .error .unauthorized := by
  refine ⟨by decide, by decide⟩

end CronManager
