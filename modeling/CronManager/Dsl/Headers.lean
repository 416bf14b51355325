import CronManager.Dsl.Spec
import Mathlib.Data.List.Nodup

/-!
# The headers of an HTTP job

`build_http_headers` of `src/dsl/loader.rs` runs over the two maps of a job, first `headers`, then
`headerEnvs`.  The maps are keyed by the text in the file, so that names which differ in case
are different keys.  The second loop compares each name with all headers so far; the first one
does not, and two keys of `headers` may become one name (`buildHttpHeaders_wellFormed_iff`).
-/

namespace CronManager

open Rust

/-- The lower-case form of a header name. -/
def lowerName (name : String) : String := String.ofList (toAsciiLowercase name.toList)

/-- The header that an entry of `headers` stands for. -/
def literalEntry (entry : String × String) : HttpHeader := ⟨lowerName entry.1, .literal entry.2⟩

/-- The header that an entry of `headerEnvs` stands for. -/
def envEntry (entry : String × String) : HttpHeader := ⟨lowerName entry.1, .env entry.2⟩

/-- The headers of a job are those of its two maps in order, with lower-case names that are not
reserved and pairwise distinct. -/
structure WellFormedHeaders (literal envs : BTreeMap String String) (out : List HttpHeader) :
    Prop where
  entries : out = literal.entries.map literalEntry ++ envs.entries.map envEntry
  allowed : ∀ h ∈ out, h.name ∉ forbiddenHeaders
  distinct : (out.map (·.name)).Nodup

/-- `HeaderName::from_bytes` returns the name in lower case. -/
def Crates.LowersHeaderNames (c : Crates) : Prop :=
  ∀ name parsed, c.headerName name = some parsed → parsed = lowerName name

/-! ### One entry -/

section

variable {c : Crates} {env : ProcEnv} {source : String} {key : JobKey} {name parsed : String}
  {entry : String × String} {h : HttpHeader} {out : List HttpHeader}

theorem checkHeaderName_ok (hok : checkHeaderName c source key name = .ok parsed) :
    c.headerName name = some parsed ∧ parsed ∉ forbiddenHeaders := by
  unfold checkHeaderName at hok
  split at hok
  · cases hok
  · rename_i parsed' hparsed
    split_ifs at hok with hforbidden
    obtain rfl := Except.ok.inj hok
    exact ⟨hparsed, hforbidden⟩

theorem literalHeader_ok (hok : literalHeader c source key entry = .ok h) :
    c.headerName entry.1 = some h.name ∧ h.name ∉ forbiddenHeaders ∧
      h.source = .literal entry.2 ∧ c.headerValueOk entry.2 = true := by
  unfold literalHeader at hok
  split at hok
  · cases hok
  · rename_i name hcheck
    obtain ⟨hparsed, hallowed⟩ := checkHeaderName_ok hcheck
    split_ifs at hok with hvalue
    obtain rfl := Except.ok.inj hok
    exact ⟨hparsed, hallowed, rfl, hvalue⟩

theorem envHeader_ok (hok : envHeader c env source key out entry = .ok h) :
    c.headerName entry.1 = some h.name ∧ h.name ∉ forbiddenHeaders ∧
      h.source = .env entry.2 ∧ h.name ∉ out.map (·.name) := by
  unfold envHeader at hok
  split at hok
  · cases hok
  · rename_i name hcheck
    obtain ⟨hparsed, hallowed⟩ := checkHeaderName_ok hcheck
    simp only at hok
    split_ifs at hok with hdup henv
    have hnew : name ∉ out.map (·.name) := by
      intro hmem
      obtain ⟨h', hh', rfl⟩ := List.mem_map.1 hmem
      exact hdup (List.any_eq_true.2 ⟨h', hh', beq_self_eq_true _⟩)
    split at hok
    · split_ifs at hok
      obtain rfl := Except.ok.inj hok
      exact ⟨hparsed, hallowed, rfl, hnew⟩
    · cases hok

/-! ### The two loops -/

/-- The body of the loop over `headerEnvs`. -/
def pushEnvHeader (c : Crates) (env : ProcEnv) (source : String) (key : JobKey)
    (out : List HttpHeader) (entry : String × String) :
    Except CronManagerError (List HttpHeader) :=
  (envHeader c env source key out entry).map fun h => out ++ [h]

theorem buildHttpHeaders_eq_ok {literal envs : BTreeMap String String}
    (hok : buildHttpHeaders c env source key literal envs = .ok out) :
    ∃ lits, List.Forall₂ (fun e h => literalHeader c source key e = .ok h) literal.entries lits ∧
      envs.entries.foldlM (pushEnvHeader c env source key) lits = .ok out := by
  unfold buildHttpHeaders at hok
  split at hok
  · cases hok
  · rename_i lits hlits
    exact ⟨lits, forall₂_of_mapM hlits, hok⟩

theorem forall_mem_buildHttpHeaders {Q : HttpHeader → Prop}
    (hliteral : ∀ e h, literalHeader c source key e = .ok h → Q h)
    (henv : ∀ out e h, envHeader c env source key out e = .ok h → Q h)
    {literal envs : BTreeMap String String}
    (hok : buildHttpHeaders c env source key literal envs = .ok out) : ∀ h ∈ out, Q h := by
  obtain ⟨lits, hlits, hloop⟩ := buildHttpHeaders_eq_ok hok
  have hstart : ∀ h ∈ lits, Q h := by
    intro h hmem
    obtain ⟨i, hi, rfl⟩ := List.getElem_of_mem hmem
    exact hliteral _ _ (hlits.get (hlits.length_eq ▸ hi) hi)
  clear hlits hok
  -- induction on the second loop, for every list of headers that it starts from
  generalize envs.entries = entries at hloop
  induction entries generalizing lits with
  | nil =>
    obtain rfl := Except.ok.inj hloop
    exact hstart
  | cons entry entries ih =>
    rw [List.foldlM_cons] at hloop
    obtain ⟨out₁, hstep, hrest⟩ := bind_eq_ok hloop
    obtain ⟨h, hh, rfl⟩ := map_eq_ok hstep
    refine ih _ (fun h' hmem => ?_) hrest
    rcases List.mem_append.1 hmem with hold | hnew
    · exact hstart h' hold
    · rw [List.mem_singleton.1 hnew]
      exact henv _ _ _ hh

theorem headerValueOk_of_literal {literal envs : BTreeMap String String}
    (hok : buildHttpHeaders c env source key literal envs = .ok out) :
    ∀ h ∈ out, ∀ v, h.source = .literal v → c.headerValueOk v = true := by
  refine forall_mem_buildHttpHeaders ?_ ?_ hok
  · intro e h he v hv
    obtain ⟨-, -, hsource, hvalue⟩ := literalHeader_ok he
    rw [hsource] at hv
    exact HeaderSource.literal.inj hv ▸ hvalue
  · intro out e h he v hv
    obtain ⟨-, -, hsource, -⟩ := envHeader_ok he
    rw [hsource] at hv
    cases hv

variable (hname : c.LowersHeaderNames)

include hname

theorem literalLoop_eq {entries : List (String × String)}
    (hall : List.Forall₂ (fun e h => literalHeader c source key e = .ok h) entries out) :
    out = entries.map literalEntry := by
  induction hall with
  | nil => rfl
  | cons hx _ ih =>
    obtain ⟨hparsed, -, hsource, -⟩ := literalHeader_ok hx
    rw [List.map_cons, ← ih, literalEntry, ← hname _ _ hparsed, ← hsource]

/-- The loop over `headerEnvs`: it adds its headers in order and keeps the names distinct. -/
theorem envLoop_eq {entries : List (String × String)} {out' : List HttpHeader}
    (hok : entries.foldlM (pushEnvHeader c env source key) out = .ok out') :
    out' = out ++ entries.map envEntry ∧
      ((out.map (·.name)).Nodup → (out'.map (·.name)).Nodup) := by
  induction entries generalizing out with
  | nil =>
    obtain rfl := Except.ok.inj hok
    exact ⟨by simp, id⟩
  | cons entry entries ih =>
    rw [List.foldlM_cons] at hok
    obtain ⟨out₁, hstep, hrest⟩ := bind_eq_ok hok
    obtain ⟨h, hh, rfl⟩ := map_eq_ok hstep
    obtain ⟨hparsed, -, hsource, hnew⟩ := envHeader_ok hh
    have hentry : h = envEntry entry := by rw [envEntry, ← hname _ _ hparsed, ← hsource]
    obtain ⟨hout', hnodup⟩ := ih hrest
    refine ⟨by rw [hout', hentry]; simp, fun hnd => hnodup ?_⟩
    rw [List.map_append]
    refine hnd.append (List.nodup_singleton _) ?_
    simpa [List.disjoint_singleton] using hnew

/-- The headers of a job are well formed exactly when no two keys of `headers` differ in case
only. -/
theorem buildHttpHeaders_wellFormed_iff {literal envs : BTreeMap String String}
    (hok : buildHttpHeaders c env source key literal envs = .ok out) :
    WellFormedHeaders literal envs out ↔
      (literal.entries.map fun e => lowerName e.1).Nodup := by
  have hallowed : ∀ h ∈ out, h.name ∉ forbiddenHeaders :=
    forall_mem_buildHttpHeaders (fun _ _ he => (literalHeader_ok he).2.1)
      (fun _ _ _ he => (envHeader_ok he).2.1) hok
  obtain ⟨lits, hlits, hloop⟩ := buildHttpHeaders_eq_ok hok
  obtain rfl := literalLoop_eq hname hlits
  obtain ⟨hentries, hnodup⟩ := envLoop_eq hname hloop
  rw [List.map_map] at hnodup
  constructor
  · intro hwf
    have hdistinct := hwf.distinct
    rw [hentries, List.map_append, List.map_map] at hdistinct
    exact hdistinct.of_append_left
  · intro hnd
    exact ⟨hentries, hallowed, hnodup hnd⟩

end

/-! ### Names and values of the `http` crate -/

/-- The characters of a header name (RFC 9110 `tchar`). -/
def isTokenChar (ch : Char) : Bool := isAsciiAlphanumeric ch || "!#$%&'*+-.^_`|~".toList.contains ch

/-- `HeaderName::from_bytes` and `HeaderValue::from_str`, with no other crate. -/
def headerCrates : Crates where
  __ := noCrates
  headerName name :=
    if name ≠ "" ∧ name.toList.all isTokenChar = true then some (lowerName name) else none
  headerValueOk v := v.toList.all fun ch => ch == '\t' || (0x20 ≤ ch.toNat && ch.toNat != 0x7f)

theorem headerCrates_lowersHeaderNames : headerCrates.LowersHeaderNames := by
  intro name parsed h
  simp only [headerCrates, Option.ite_none_right_eq_some, Option.some.injEq] at h
  exact h.2.symm

end CronManager
