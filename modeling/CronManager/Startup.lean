import CronManager.Doctor

/-!
# From the command line to the configuration

`main` of `src/main.rs` before it boots: it looks for the word `doctor` among its arguments, and
`AppConfig::load_or_default` of `src/config.rs` looks for a configuration file.  The YAML parser is
a parameter, which leaves `allowed_origins` as it stands in the file; `de_origins` makes a list of
it.

* `load_ok_iff` : which file is loaded, and that a candidate which exists decides alone: if it
  cannot be read, is in the layout of the JVM version or does not parse, no other candidate is
  tried;
* `doctor_foretells_main` : `cronmanager doctor` audits the file that `main` loads, wherever the
  word stands on the command line, its exit code says whether the boot gates refuse, and it warns of
  an origin on which `main` panics;
* `origins_normal` : the origins are trimmed and not empty, and writing them back as a list or as a
  comma-separated text gives the same origins.
-/

namespace CronManager

open Rust

namespace Rust

/-- A line without the carriage return before its line feed. -/
def stripCr (line : List Char) : List Char :=
  if line.getLast? = some '\r' then line.dropLast else line

/-- `str::lines`: a line feed at the end of the text begins no further line. -/
def lines (s : List Char) : List (List Char) :=
  let parts := s.splitOn '\n'
  parts.dropLast.map stripCr ++ parts.getLast?.toList.filter (· ≠ [])

end Rust

/-! ### Where the configuration comes from -/

/-- `allowed_origins` as it stands in the file. -/
inductive OneOrMany where
  | one (s : String)
  | many (list : List String)
  deriving DecidableEq, Repr

/-- `de_origins`. -/
def deOrigins (val : OneOrMany) : List String :=
  let parts := match val with
    | .one s => s.toList.splitOn ','
    | .many list => list.map String.toList
  ((parts.map trim).filter (· ≠ [])).map String.ofList

/-- What the YAML parser makes of a file, with `allowed_origins` apart. -/
structure RawConfig where
  allowedOrigins : Option OneOrMany
  rest : AppConfig

/-- The configuration; `allowed_origins` is empty by default. -/
def RawConfig.config (raw : RawConfig) : AppConfig :=
  { raw.rest with allowedOrigins := raw.allowedOrigins.elim [] deOrigins }

/-- What the process finds when it starts. -/
structure StartWorld where
  /-- `std::env::args()`, with the name of the program first. -/
  args : List String
  env : ProcEnv
  /-- The text of the file at a path, where there is one. -/
  file : String → Option (Except String String)
  /-- The YAML parser. -/
  yaml : String → Except String RawConfig

/-- The path that the arguments give. -/
def configArg : List String → Option String
  | [] => none
  | arg :: rest =>
    if arg = "--config" ∧ rest ≠ [] then rest.head?
    else match stripPrefix "--config=".toList arg.toList with
      | some path => some (String.ofList path)
      | none => configArg rest

/-- `config_search_paths`. -/
def configSearchPaths (w : StartWorld) : List String :=
  (configArg w.args.tail).toList ++ ((w.env "CRONMANAGER_CONFIG").filter (· ≠ "")).toList ++
    ["./cronmanager.yaml", "./cronmanager.yml"]

/-- The keys that the files of the JVM version have at their top. -/
def jvmWrappers : List String := ["application:", "spring:", "management:", "logging:"]

/-- The wrapper that a line begins with. -/
def jvmWrapper (line : List Char) : Option String :=
  if line.head?.any fun ch => isWhitespace ch || ch == '#' then none
  else jvmWrappers.find? (·.toList.isPrefixOf line)

/-- `reject_jvm_wrappers`. -/
def rejectJvmWrappers (body path : String) : Except CronManagerError Unit :=
  match (lines body.toList).findSome? jvmWrapper with
  | some wrapper => .error (.invalidConfig path (s!"top-level `{wrapper}` is the JVM Spring " ++
      "wrapper. CronManager uses a flat config schema — unwrap the child fields to the top " ++
      "level (e.g. `application.configPath: X` becomes `dsl_path: X` at the top level; " ++
      "`spring.datasource.*` becomes `database.url` + env-var `CRONMANAGER_DB_PASSWORD`)."))
  | none => .ok ()

/-- What `load_or_default` does with the file that it has found. -/
def loadBody (w : StartWorld) (path : String) (text : Except String String) :
    Except CronManagerError AppConfig := do
  let body ← text.mapError .io
  rejectJvmWrappers body path
  let raw ← (w.yaml body).mapError (.yamlParse path)
  return raw.config

/-- The loop of `load_or_default`. -/
def loadFirst (w : StartWorld) : List String → Except CronManagerError (AppConfig × Option String)
  | [] => .ok (.default, none)
  | path :: paths => match w.file path with
    | some text => (loadBody w path text).map (·, some path)
    | none => loadFirst w paths

/-- `load_or_default`. -/
def loadOrDefault (w : StartWorld) : Except CronManagerError (AppConfig × Option String) :=
  loadFirst w (configSearchPaths w)

/-! ### The two commands -/

/-- What `main` comes to. -/
inductive Started where
  | doctor (report : DoctorReport)
  | served (booted : Booted)

/-- `cli_entry`, up to the printing. -/
def cliEntry (unprintable : Char → Bool) (w : StartWorld) (tree : Option FsNode) :
    Except BootError DoctorReport := do
  let (cfg, _) ← (loadOrDefault w).mapError .error
  match Doctor.run unprintable cfg w.env tree (.fromEnv w.env) with
  | some report => return report
  | none => throw .panicked

/-- `main`, up to `axum::serve`. -/
def main (c : Crates) (unprintable : Char → Bool) (w : StartWorld) (tree : Option FsNode)
    (boots : BootWorld) : Except BootError Started :=
  if "doctor" ∈ w.args then return .doctor (← cliEntry unprintable w tree)
  else do
    let (cfg, _) ← (loadOrDefault w).mapError .error
    return .served (← boot c w.env cfg boots)

/-! ### Lines -/

variable {s line pat : List Char}

theorem prefix_stripCr (hcr : '\r' ∉ pat) : pat <+: stripCr line ↔ pat <+: line := by
  simp only [stripCr]
  split_ifs with h
  · obtain ⟨init, rfl⟩ := List.getLast?_eq_some_iff.1 h
    rw [List.dropLast_concat, List.prefix_concat_iff]
    constructor
    · exact .inr
    · rintro (rfl | hpre)
      · exact absurd (List.mem_append_right _ (List.mem_singleton_self _)) hcr
      · exact hpre
  · rfl

theorem exists_prefix_lines (hne : pat ≠ []) (hcr : '\r' ∉ pat) :
    (∃ line ∈ lines s, pat <+: line) ↔ ∃ part ∈ s.splitOn '\n', pat <+: part := by
  obtain ⟨init, last, hsplit⟩ : ∃ init last, s.splitOn '\n' = init ++ [last] :=
    ⟨_, _, (List.dropLast_append_getLast (List.splitOn_ne_nil _ _)).symm⟩
  simp only [lines, hsplit, List.dropLast_concat, List.getLast?_concat, Option.toList_some]
  constructor
  · rintro ⟨line, hline, hpre⟩
    rcases List.mem_append.1 hline with hline | hline
    · obtain ⟨part, hpart, rfl⟩ := List.mem_map.1 hline
      exact ⟨part, List.mem_append_left _ hpart, (prefix_stripCr hcr).1 hpre⟩
    · exact ⟨line, List.mem_append_right _ (List.mem_of_mem_filter hline), hpre⟩
  · rintro ⟨part, hpart, hpre⟩
    rcases List.mem_append.1 hpart with hpart | hpart
    · exact ⟨stripCr part, List.mem_append_left _ (List.mem_map_of_mem hpart),
        (prefix_stripCr hcr).2 hpre⟩
    · refine ⟨part, List.mem_append_right _ (List.mem_filter.2 ⟨hpart, ?_⟩), hpre⟩
      rw [decide_eq_true_eq]
      rintro rfl
      exact hne (List.prefix_nil.1 hpre)

/-- The first part between line feeds is the beginning of the text, and the others come after a
line feed. -/
theorem prefix_splitOn {first : List Char} {parts : List (List Char)} (hlf : '\n' ∉ pat)
    (hsplit : s.splitOn '\n' = first :: parts) : (pat <+: first ↔ pat <+: s) ∧
      ((∃ part ∈ parts, pat <+: part) ↔ '\n' :: pat <:+: s) := by
  induction s generalizing pat first parts with
  | nil =>
    obtain ⟨rfl, rfl⟩ := List.cons.inj hsplit
    simp
  | cons ch s ih =>
    obtain ⟨first', parts', hs⟩ := List.exists_cons_of_ne_nil (List.splitOn_ne_nil '\n' s)
    rw [List.splitOn_cons_eq_if_modifyHead, hs] at hsplit
    split_ifs at hsplit with hch
    · obtain ⟨rfl, rfl⟩ := List.cons.inj hsplit
      obtain rfl := beq_iff_eq.1 hch
      obtain ⟨hfirst, hparts⟩ := ih hlf hs
      constructor
      · cases pat with
        | nil => simp
        | cons x pat =>
          have hx : x ≠ '\n' := fun hx => hlf (hx ▸ List.mem_cons_self)
          simp [List.cons_prefix_cons, hx]
      · rw [List.infix_cons_iff, List.cons_prefix_cons, ← hparts, ← hfirst]
        simp
    · rw [List.modifyHead_cons] at hsplit
      obtain ⟨rfl, rfl⟩ := List.cons.inj hsplit
      have hne : ch ≠ '\n' := fun heq => hch (beq_iff_eq.2 heq)
      constructor
      · cases pat with
        | nil => simp
        | cons x pat =>
          have htail := (ih (fun h => hlf (List.mem_cons_of_mem x h)) hs).1
          rw [List.cons_prefix_cons, List.cons_prefix_cons, htail]
      · rw [List.infix_cons_iff, List.cons_prefix_cons, ← (ih hlf hs).2]
        simp [hne.symm]

/-- **A line begins with a text** exactly if the whole text does or the text comes after a line
feed. -/
theorem exists_prefix_lines_iff (hne : pat ≠ []) (hcr : '\r' ∉ pat) (hlf : '\n' ∉ pat) :
    (∃ line ∈ lines s, pat <+: line) ↔ pat <+: s ∨ '\n' :: pat <:+: s := by
  obtain ⟨first, parts, hs⟩ := List.exists_cons_of_ne_nil (List.splitOn_ne_nil '\n' s)
  obtain ⟨hfirst, hparts⟩ := prefix_splitOn hlf hs
  rw [exists_prefix_lines hne hcr, hs, ← hfirst, ← hparts]
  simp

/-! ### The file that is loaded -/

variable {w : StartWorld} {cfg : AppConfig} {path body : String} {paths : List String}

/-- A line in the layout of the JVM version begins with one of its keys. -/
theorem jvmWrapper_isSome :
    (jvmWrapper line).isSome = true ↔ ∃ wrapper ∈ jvmWrappers, wrapper.toList <+: line := by
  have hletter : ∀ wrapper ∈ jvmWrappers, wrapper.toList ≠ [] ∧
      (wrapper.toList.head?.any fun ch => isWhitespace ch || ch == '#') = false := by
    decide
  simp only [jvmWrapper]
  split_ifs with h
  · -- no key begins with white space or `#`
    simp only [Option.isSome_none, Bool.false_eq_true, false_iff, not_exists, not_and]
    rintro wrapper hwrapper ⟨rest, rfl⟩
    obtain ⟨hne, hhead⟩ := hletter wrapper hwrapper
    rw [List.head?_append_of_ne_nil _ hne, hhead] at h
    cases h
  · rw [List.find?_isSome]
    simp only [List.isPrefixOf_iff_prefix]

/-- **A file is in the layout of the JVM version** if one of its keys begins the text or comes after
a line feed. -/
theorem rejectJvmWrappers_ok_iff : rejectJvmWrappers body path = .ok () ↔
    ∀ wrapper ∈ jvmWrappers, ¬ (wrapper.toList <+: body.toList ∨
      '\n' :: wrapper.toList <:+: body.toList) := by
  have hkeys : ∀ wrapper ∈ jvmWrappers,
      wrapper.toList ≠ [] ∧ '\r' ∉ wrapper.toList ∧ '\n' ∉ wrapper.toList := by
    decide
  have hnone : rejectJvmWrappers body path = .ok () ↔
      (lines body.toList).findSome? jvmWrapper = none := by
    unfold rejectJvmWrappers
    cases (lines body.toList).findSome? jvmWrapper <;> simp
  rw [hnone, List.findSome?_eq_none_iff]
  constructor
  · intro h wrapper hwrapper hpre
    obtain ⟨hne, hcr, hlf⟩ := hkeys wrapper hwrapper
    obtain ⟨line, hline, hpre⟩ := (exists_prefix_lines_iff hne hcr hlf).2 hpre
    have hsome := jvmWrapper_isSome.2 ⟨wrapper, hwrapper, hpre⟩
    rw [h line hline] at hsome
    cases hsome
  · intro h line hline
    rw [← Option.not_isSome_iff_eq_none, jvmWrapper_isSome]
    rintro ⟨wrapper, hwrapper, hpre⟩
    obtain ⟨hne, hcr, hlf⟩ := hkeys wrapper hwrapper
    exact h wrapper hwrapper ((exists_prefix_lines_iff hne hcr hlf).1 ⟨line, hline, hpre⟩)

theorem loadBody_ok_iff {text : Except String String} : loadBody w path text = .ok cfg ↔
    ∃ body raw, text = .ok body ∧ rejectJvmWrappers body path = .ok () ∧
      w.yaml body = .ok raw ∧ raw.config = cfg := by
  unfold loadBody
  constructor
  · intro h
    obtain ⟨body, hbody, h⟩ := bind_eq_ok h
    obtain ⟨⟨⟩, hreject, h⟩ := bind_eq_ok h
    obtain ⟨raw, hraw, h⟩ := bind_eq_ok h
    exact ⟨body, raw, mapError_eq_ok hbody, hreject, mapError_eq_ok hraw, Except.ok.inj h⟩
  · rintro ⟨body, raw, rfl, hreject, hraw, rfl⟩
    simp only [Except.mapError, hreject, hraw, bind, Except.bind, pure, Except.pure]

theorem loadFirst_append {before after : List String} (h : ∀ q ∈ before, w.file q = none) :
    loadFirst w (before ++ after) = loadFirst w after := by
  induction before with
  | nil => rfl
  | cons path before ih =>
    obtain ⟨hnone, hbefore⟩ := List.forall_mem_cons.1 h
    simp only [List.cons_append, loadFirst, hnone]
    exact ih hbefore

theorem loadFirst_of_file {before after : List String} {text : Except String String}
    (hbefore : ∀ q ∈ before, w.file q = none) (htext : w.file path = some text) :
    loadFirst w (before ++ path :: after) = (loadBody w path text).map (·, some path) := by
  rw [loadFirst_append hbefore]
  simp only [loadFirst, htext]

theorem loadFirst_of_forall (h : ∀ q ∈ paths, w.file q = none) :
    loadFirst w paths = .ok (.default, none) := by
  have happend : loadFirst w (paths ++ []) = loadFirst w [] := loadFirst_append h
  rwa [List.append_nil] at happend

theorem first_cases (w : StartWorld) (paths : List String) : (∀ q ∈ paths, w.file q = none) ∨
    ∃ before path after text, paths = before ++ path :: after ∧
      (∀ q ∈ before, w.file q = none) ∧ w.file path = some text := by
  induction paths with
  | nil => exact .inl (by rintro q ⟨⟩)
  | cons path paths ih =>
    cases hfile : w.file path with
    | some text => exact .inr ⟨[], path, paths, text, rfl, by rintro q ⟨⟩, hfile⟩
    | none =>
      rcases ih with hnone | ⟨before, path', after, text, rfl, hnone, htext⟩
      · exact .inl (List.forall_mem_cons.2 ⟨hfile, hnone⟩)
      · exact .inr ⟨path :: before, path', after, text, rfl,
          List.forall_mem_cons.2 ⟨hfile, hnone⟩, htext⟩

theorem loadFirst_some_iff : loadFirst w paths = .ok (cfg, some path) ↔
    ∃ before after text, paths = before ++ path :: after ∧ (∀ q ∈ before, w.file q = none) ∧
      w.file path = some text ∧ loadBody w path text = .ok cfg := by
  constructor
  · intro h
    rcases first_cases w paths with hnone | ⟨before, path', after, text, rfl, hnone, htext⟩
    · rw [loadFirst_of_forall hnone] at h
      cases h
    · rw [loadFirst_of_file hnone htext] at h
      obtain ⟨cfg', hload, heq⟩ := map_eq_ok h
      obtain ⟨rfl, hpath⟩ := Prod.mk.inj heq
      obtain rfl := Option.some.inj hpath
      exact ⟨before, after, text, rfl, hnone, htext, hload⟩
  · rintro ⟨before, after, text, rfl, hnone, htext, hload⟩
    rw [loadFirst_of_file hnone htext, hload]
    rfl

theorem loadFirst_none_iff : loadFirst w paths = .ok (cfg, none) ↔
    cfg = .default ∧ ∀ q ∈ paths, w.file q = none := by
  constructor
  · intro h
    rcases first_cases w paths with hnone | ⟨before, path', after, text, rfl, hnone, htext⟩
    · rw [loadFirst_of_forall hnone] at h
      exact ⟨(Prod.mk.inj (Except.ok.inj h)).1.symm, hnone⟩
    · rw [loadFirst_of_file hnone htext] at h
      obtain ⟨cfg', -, heq⟩ := map_eq_ok h
      cases (Prod.mk.inj heq).2
  · rintro ⟨rfl, hnone⟩
    exact loadFirst_of_forall hnone

theorem loadFirst_args {args : List String} :
    loadFirst { w with args := args } paths = loadFirst w paths := by
  induction paths with
  | nil => rfl
  | cons path paths ih =>
    simp only [loadFirst, ih]
    cases w.file path <;> rfl

/-- **Which configuration is loaded.**  That of the first candidate which exists, if it can be read,
is not in the layout of the JVM version and parses; the default only if no candidate exists; and a
path among the arguments where there is no file is the same as no such path. -/
theorem load_ok_iff (w : StartWorld) (cfg : AppConfig) (path : String) :
    (loadOrDefault w = .ok (cfg, some path) ↔ ∃ before after body raw,
      configSearchPaths w = before ++ path :: after ∧ (∀ q ∈ before, w.file q = none) ∧
        w.file path = some (.ok body) ∧
        (∀ wrapper ∈ jvmWrappers, ¬ (wrapper.toList <+: body.toList ∨
          '\n' :: wrapper.toList <:+: body.toList)) ∧
        w.yaml body = .ok raw ∧ raw.config = cfg) ∧
      (loadOrDefault w = .ok (cfg, none) ↔
        cfg = .default ∧ ∀ q ∈ configSearchPaths w, w.file q = none) ∧
      (configArg w.args.tail = some path → w.file path = none →
        loadOrDefault w = loadOrDefault { w with args := [] }) := by
  refine ⟨?_, loadFirst_none_iff, ?_⟩
  · rw [loadOrDefault, loadFirst_some_iff]
    constructor
    · rintro ⟨before, after, text, hpaths, hnone, htext, hload⟩
      obtain ⟨body, raw, rfl, hreject, hraw⟩ := loadBody_ok_iff.1 hload
      exact ⟨before, after, body, raw, hpaths, hnone, htext, rejectJvmWrappers_ok_iff.1 hreject,
        hraw⟩
    · rintro ⟨before, after, body, raw, hpaths, hnone, htext, hreject, hraw⟩
      exact ⟨before, after, .ok body, hpaths, hnone, htext,
        loadBody_ok_iff.2 ⟨body, raw, rfl, rejectJvmWrappers_ok_iff.2 hreject, hraw⟩⟩
  · intro harg hnone
    rw [loadOrDefault, loadOrDefault]
    simp only [configSearchPaths, harg, List.tail_nil, configArg, Option.toList_some,
      Option.toList_none, List.nil_append, List.append_assoc]
    have hpath : ∀ q ∈ [path], w.file q = none := by simpa using hnone
    exact (loadFirst_append hpath).trans loadFirst_args.symm

/-- A start without configuration files whose arguments name one. -/
def demoStart : StartWorld :=
  ⟨["cronmanager", "--config", "/etc/cron.yaml"], demoEnv, fun _ => none, fun text => .error text⟩

/-- The file is missing, and the process starts with the defaults. -/
theorem load_ok_iff_missing : loadOrDefault demoStart = .ok (.default, none) ∧
    loadOrDefault demoStart = loadOrDefault { demoStart with args := [] } := by
  obtain ⟨-, hdefault, hmissing⟩ := load_ok_iff demoStart .default "/etc/cron.yaml"
  exact ⟨hdefault.2 ⟨rfl, fun q _ => rfl⟩, hmissing (by decide) rfl⟩

/-! ### Doctor -/

theorem configArg_doctor {before after : List String}
    (hbefore : before.getLast? ≠ some "--config") :
    configArg (before ++ "doctor" :: after) = configArg (before ++ after) := by
  induction before with
  | nil =>
    have hstrip : stripPrefix "--config=".toList "doctor".toList = none := by decide
    have hname : "doctor" ≠ "--config" := by decide
    rw [List.nil_append, List.nil_append, configArg, if_neg fun h => hname h.1, hstrip]
  | cons arg before ih =>
    rw [List.cons_append, List.cons_append, configArg, configArg]
    cases before with
    | nil =>
      have harg : arg ≠ "--config" := fun harg => hbefore (harg ▸ rfl)
      rw [if_neg fun h => harg h.1, if_neg fun h => harg h.1, ih (by rintro ⟨⟩)]
    | cons arg' before =>
      rw [List.getLast?_cons_cons] at hbefore
      rw [ih hbefore]
      simp

theorem loadOrDefault_doctor {name : String} {before after : List String}
    (hbefore : before.getLast? ≠ some "--config") :
    loadOrDefault { w with args := name :: (before ++ "doctor" :: after) } =
      loadOrDefault { w with args := name :: (before ++ after) } := by
  rw [loadOrDefault, loadOrDefault]
  simp only [configSearchPaths, List.tail_cons, configArg_doctor hbefore]
  exact loadFirst_args.trans loadFirst_args.symm

variable {c : Crates} {unprintable : Char → Bool} {env : ProcEnv} {tree : Option FsNode}
  {boots : BootWorld}

/-- Past the gates, `main` is not refused, and panics in `build` only. -/
theorem boot_of_gates_ok (h : cfg.bootGates env = .ok ()) {e : BootError}
    (hboot : boot c env cfg boots = .error e) :
    (e = .panicked → buildCors c cfg.allowedOrigins = none) ∧ ∀ message, e ≠ .refused message := by
  have herror (e' : CronManagerError) :
      (BootError.error e' = .panicked → buildCors c cfg.allowedOrigins = none) ∧
        ∀ message, BootError.error e' ≠ .refused message := ⟨by rintro ⟨⟩, by rintro message ⟨⟩⟩
  unfold boot at hboot
  rcases bind_eq_error hboot with hgates | ⟨⟨⟩, -, hboot⟩
  · rw [h] at hgates
    cases hgates
  rcases bind_eq_error hboot with hdsn | ⟨dsn, -, hboot⟩
  · obtain ⟨e', -, rfl⟩ := mapError_eq_error hdsn
    exact herror e'
  rcases bind_eq_error hboot with hclient | ⟨⟨⟩, -, hboot⟩
  · obtain ⟨e', -, rfl⟩ := mapError_eq_error hclient
    exact herror _
  rcases bind_eq_error hboot with hload | ⟨jobs, -, hboot⟩
  · obtain ⟨e', -, rfl⟩ := mapError_eq_error hload
    exact herror e'
  rcases bind_eq_error hboot with hbuild | ⟨cors, -, hboot⟩
  · cases hcors : buildCors c cfg.allowedOrigins with
    | none =>
      rw [hcors] at hbuild
      obtain rfl := Except.error.inj hbuild
      exact ⟨fun _ => rfl, by rintro message ⟨⟩⟩
    | some list =>
      rw [hcors] at hbuild
      cases hbuild
  rcases bind_eq_error hboot with hlisten | ⟨⟨⟩, -, hboot⟩
  · obtain ⟨e', -, rfl⟩ := mapError_eq_error hlisten
    exact ⟨by rintro ⟨⟩, by rintro message ⟨⟩⟩
  · cases hboot

theorem loadOrDefault_cases (w : StartWorld) : (∃ e, loadOrDefault w = .error e) ∨
    ∃ cfg source, loadOrDefault w = .ok (cfg, source) := by
  cases h : loadOrDefault w with
  | error e => exact .inl ⟨e, rfl⟩
  | ok r => exact .inr ⟨r.1, r.2, rfl⟩

theorem main_serve {source : Option String} (hword : "doctor" ∉ w.args)
    (hload : loadOrDefault w = .ok (cfg, source)) :
    main c unprintable w tree boots = (boot c w.env cfg boots).map .served := by
  rw [main, if_neg hword, hload]
  rfl

theorem main_doctor {source : Option String} (hword : "doctor" ∈ w.args)
    (hload : loadOrDefault w = .ok (cfg, source)) :
    main c unprintable w tree boots =
      (Doctor.run unprintable cfg w.env tree (.fromEnv w.env)).elim (.error .panicked)
        fun report => .ok (.doctor report) := by
  have hentry : cliEntry unprintable w tree =
      match Doctor.run unprintable cfg w.env tree (.fromEnv w.env) with
      | some report => .ok report
      | none => .error .panicked := by
    rw [cliEntry, hload]
    rfl
  rw [main, if_pos hword, hentry]
  cases Doctor.run unprintable cfg w.env tree (.fromEnv w.env) with
  | none => rfl
  | some report => rfl

theorem main_error {e : CronManagerError} (hload : loadOrDefault w = .error e) :
    main c unprintable w tree boots = .error (.error e) := by
  rw [main]
  split_ifs
  · rw [cliEntry, hload]
    rfl
  · rw [hload]
    rfl

theorem run_eq_none_iff :
    Doctor.run unprintable cfg env tree (.fromEnv env) = none ↔ CredsPanic cfg env :=
  Option.map_eq_none_iff

/-- Doctor warns of an origin on which `main` panics. -/
theorem weak_of_wildcard {report : DoctorReport}
    (hrun : Doctor.run unprintable cfg env tree (.fromEnv env) = some report)
    (hstar : "*" ∈ cfg.allowedOrigins) :
    ∃ f ∈ report.findings, f.severity = .weak ∧ f.name = "allowed_origins" := by
  obtain ⟨creds, -, rfl⟩ := Option.map_eq_some_iff.1 hrun
  have hany : cfg.allowedOrigins.any (· == "*") = true :=
    List.any_eq_true.2 ⟨"*", hstar, by decide⟩
  refine ⟨⟨.weak, "allowed_origins",
    "`*` is treated as an exact origin string, not a wildcard — " ++
      "CORS will not match browsers"⟩, ?_, rfl, rfl⟩
  -- the third of the twelve parts of the `WEAK` block
  refine List.mem_append_left _ (List.mem_append_right _ ?_)
  iterate 9 refine List.mem_append_left _ ?_
  refine List.mem_append_right _ ?_
  rw [hany]
  exact List.mem_singleton_self _

/-- **Doctor foretells `main`.**  Wherever the word `doctor` stands among the arguments, except
right after `--config`, the command audits the file that `main` loads without it: both fail with one
error if it cannot be loaded, `main` panics where doctor does, the exit code is 1 exactly if a gate
refuses to start, and where `main` panics otherwise there is a `WEAK` finding about the origins. -/
theorem doctor_foretells_main (c : Crates) (hc : c.PanicsOnWildcard) (unprintable : Char → Bool)
    (w : StartWorld) (tree : Option FsNode) (boots : BootWorld) (name : String)
    (before after : List String) (hword : "doctor" ∉ name :: (before ++ after))
    (hbefore : before.getLast? ≠ some "--config") :
    let serve := main c unprintable { w with args := name :: (before ++ after) } tree boots
    let audit :=
      main c unprintable { w with args := name :: (before ++ "doctor" :: after) } tree boots
    (∀ e, audit = .error (.error e) → serve = .error (.error e)) ∧
      (audit = .error .panicked → serve = .error .panicked) ∧
      ∀ report, audit = .ok (.doctor report) →
        (report.exitCode = 1 ↔ ∃ message, serve = .error (.refused message)) ∧
        (serve = .error .panicked →
          ∃ f ∈ report.findings, f.severity = .weak ∧ f.name = "allowed_origins") := by
  intro serve audit
  have hsame := @loadOrDefault_doctor w name before after hbefore
  have hmem : "doctor" ∈ name :: (before ++ "doctor" :: after) := by simp
  rcases loadOrDefault_cases { w with args := name :: (before ++ after) } with
    ⟨e, hload⟩ | ⟨cfg, source, hload⟩
  · have hserve : serve = .error (.error e) := main_error hload
    have haudit : audit = .error (.error e) := main_error (hsame.trans hload)
    rw [hserve, haudit]
    simp
  · have hserve : serve = (boot c w.env cfg boots).map .served := main_serve hword hload
    have haudit : audit = (Doctor.run unprintable cfg w.env tree (.fromEnv w.env)).elim
        (.error .panicked) fun report => .ok (.doctor report) :=
      main_doctor hmem (hsame.trans hload)
    rw [hserve, haudit]
    obtain ⟨hpanic, hgates⟩ | ⟨hpanic, hpass, message, hgates⟩ | ⟨hpanic, hpass, hgates⟩ :=
      @bootGates_cases cfg w.env
    · rw [run_eq_none_iff.2 hpanic, boot_of_gates_error hgates]
      refine ⟨?_, fun _ => rfl, ?_⟩
      · rintro e ⟨⟩
      · rintro report ⟨⟩
    · obtain ⟨report, hrun, hcode⟩ :=
        (@exitCode_run_iff unprintable cfg w.env tree).2 ⟨hpanic, hpass⟩
      rw [hrun, boot_of_gates_error hgates]
      refine ⟨?_, ?_, ?_⟩
      · rintro e ⟨⟩
      · rintro ⟨⟩
      · rintro report' ⟨⟩
        exact ⟨⟨fun _ => ⟨message, rfl⟩, fun _ => hcode⟩, by rintro ⟨⟩⟩
    · obtain ⟨report, hrun⟩ := Option.ne_none_iff_exists'.1 (mt run_eq_none_iff.1 hpanic)
      have hcode : report.exitCode ≠ 1 := fun hcode =>
        ((@exitCode_run_iff unprintable cfg w.env tree).1 ⟨report, hrun, hcode⟩).2 hpass
      rw [hrun]
      refine ⟨?_, ?_, ?_⟩
      · rintro e ⟨⟩
      · rintro ⟨⟩
      · rintro report' ⟨⟩
        refine ⟨⟨fun h => absurd h hcode, ?_⟩, fun hserve' => ?_⟩
        · rintro ⟨message, hserve'⟩
          exact absurd rfl ((boot_of_gates_ok hgates (map_eq_error hserve')).2 message)
        · have hnone := (boot_of_gates_ok hgates (map_eq_error hserve')).1 rfl
          exact weak_of_wildcard hrun ((buildCors_eq_none_iff hc).1 hnone)

/-- Without a token, `main` refuses to start on the defaults, and doctor says so. -/
theorem doctor_foretells_main_refused :
    ∃ report message,
      main noCrates (fun _ => false) { demoStart with
        env := fun _ => none
        args := ["cronmanager", "--config", "/etc/cron.yaml", "doctor"] } none demoBoot =
          .ok (.doctor report) ∧ report.exitCode = 1 ∧
      main noCrates (fun _ => false) { demoStart with
        env := fun _ => none } none demoBoot = .error (.refused message) := by
  let env : ProcEnv := fun _ => none
  let w : StartWorld := { demoStart with env := env }
  have hpanic : ¬ CredsPanic .default env := by
    rw [CredsPanic]
    decide +kernel
  have hpass : ¬ GatesPass .default env := by
    rintro ⟨-, -, hrefuse⟩
    revert hrefuse
    decide +kernel
  obtain ⟨report, hrun, hcode⟩ :=
    (@exitCode_run_iff (fun _ => false) .default env none).2 ⟨hpanic, hpass⟩
  let args := ["cronmanager", "--config", "/etc/cron.yaml", "doctor"]
  have hload : loadOrDefault { w with args := args } = .ok (.default, none) := rfl
  have haudit : main noCrates (fun _ => false) { w with args := args } none demoBoot =
      .ok (.doctor report) := by
    rw [main_doctor (by decide) hload, hrun]
    rfl
  obtain ⟨-, -, hexit⟩ := doctor_foretells_main noCrates panicsOnWildcard_noCrates
    (fun _ => false) w none demoBoot "cronmanager" ["--config", "/etc/cron.yaml"] [] (by decide)
    (by decide)
  obtain ⟨message, hserve⟩ := (hexit report haudit).1.1 hcode
  exact ⟨report, message, haudit, hcode, hserve⟩

/-! ### Origins -/

theorem clean_eq_self {parts : List (List Char)}
    (h : ∀ part ∈ parts, part ≠ [] ∧ trim part = part) :
    (parts.map trim).filter (· ≠ []) = parts := by
  have hmap : parts.map trim = parts := by
    rw [List.map_congr_left fun part hpart => (h part hpart).2, List.map_id']
  rw [hmap, List.filter_eq_self]
  exact fun part hpart => decide_eq_true (h part hpart).1

theorem toList_map_ofList (parts : List (List Char)) :
    (parts.map String.ofList).map String.toList = parts := by
  rw [List.map_map]
  exact (List.map_congr_left fun part _ => String.toList_ofList).trans (List.map_id' parts)

theorem subset_trim {part : List Char} : trim part ⊆ part := by
  intro ch hch
  exact (List.dropWhile_suffix _).subset ((List.rdropWhile_prefix _ _).subset hch)

theorem deOrigins_parts (val : OneOrMany) : ∃ parts : List (List Char),
    deOrigins val = parts.map String.ofList ∧ (∀ part ∈ parts, part ≠ [] ∧ trim part = part) ∧
      ∀ s, val = .one s → ∀ part ∈ parts, ',' ∉ part := by
  refine ⟨_, rfl, ?_, ?_⟩
  · intro part hpart
    obtain ⟨hmem, hne⟩ := List.mem_filter.1 hpart
    obtain ⟨raw, -, rfl⟩ := List.mem_map.1 hmem
    exact ⟨of_decide_eq_true hne, trimMatches_trimMatches _ raw⟩
  · rintro s rfl part hpart hcomma
    obtain ⟨raw, hraw, rfl⟩ := List.mem_map.1 (List.mem_of_mem_filter hpart)
    exact (mem_of_mem_splitOn hraw (subset_trim hcomma)).2 rfl

/-- **Origins are normal.**  They are trimmed and not empty, those of a comma-separated text have no
comma, and written back as a list or, where none has a comma, as a comma-separated text, they are
read as the same origins. -/
theorem origins_normal (val : OneOrMany) :
    (∀ o ∈ deOrigins val, o ≠ "" ∧ trim o.toList = o.toList) ∧
      (∀ s, val = .one s → ∀ o ∈ deOrigins val, ',' ∉ o.toList) ∧
      deOrigins (.many (deOrigins val)) = deOrigins val ∧
      ((∀ o ∈ deOrigins val, ',' ∉ o.toList) →
        deOrigins (.one (",".intercalate (deOrigins val))) = deOrigins val) := by
  obtain ⟨parts, heq, hclean, hcomma⟩ := deOrigins_parts val
  have hmem {o : String} (ho : o ∈ deOrigins val) : o.toList ∈ parts := by
    rw [heq] at ho
    obtain ⟨part, hpart, rfl⟩ := List.mem_map.1 ho
    rwa [String.toList_ofList]
  refine ⟨?_, ?_, ?_, ?_⟩
  · intro o ho
    obtain ⟨hne, htrim⟩ := hclean _ (hmem ho)
    refine ⟨?_, htrim⟩
    rintro rfl
    exact hne rfl
  · exact fun s hs o ho => hcomma s hs _ (hmem ho)
  · rw [heq, deOrigins, toList_map_ofList, clean_eq_self hclean]
  · intro hnone
    rw [heq] at hnone ⊢
    have hparts : ∀ part ∈ parts, ',' ∉ part := by
      intro part hpart
      have ho := hnone _ (List.mem_map_of_mem hpart)
      rwa [String.toList_ofList] at ho
    simp only [deOrigins, String.toList_intercalate, toList_map_ofList]
    rcases eq_or_ne parts [] with rfl | hne
    · rfl
    · rw [show ",".toList = [','] from rfl, List.splitOn_intercalate ',' hparts hne,
        clean_eq_self hclean]

/-- A comma-separated text is read again as it was. -/
theorem origins_normal_spaced :
    deOrigins (.one (",".intercalate (deOrigins (.one " https://a.example, ,https://b.example")))) =
      deOrigins (.one " https://a.example, ,https://b.example") :=
  (origins_normal _).2.2.2 ((origins_normal (.one _)).2.1 _ rfl)

end CronManager
