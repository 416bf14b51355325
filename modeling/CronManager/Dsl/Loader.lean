import CronManager.Dsl.Spec
import Mathlib.Data.List.Sort

/-!
# Loading a directory of job files

`load_all_with_policy` of `src/dsl/loader.rs` over a directory tree: `walk` visits the entries of
each directory in the order of their names, recurses into directories, and loads every `.yaml`
or `.yml` file.  A file that fails to load is counted and skipped; an unreadable directory or a
refused dev fixture ends the load.  Names are byte strings, as the operating system gives them,
and a path below the root is the list of its components.

`loadAll_eq` says what a load that succeeds returns: the jobs of the YAML files of the tree, in
the order of the walk.
-/

namespace CronManager

open Rust

/-- A file name as the operating system gives it. -/
abbrev OsStr := List UInt8

/-- An entry of the file system. -/
inductive FsNode where
  /-- A file: its size and its text, or the errors of reading them. -/
  | file (name : OsStr) (size : Except String ℕ) (body : Except String String)
  /-- A directory: the error of listing it, or its entries. -/
  | dir (name : OsStr) (listError : Option String) (entries : List FsNode)

/-- The name of an entry. -/
def FsNode.name : FsNode → OsStr
  | .file name _ _ | .dir name _ _ => name

/-- A file below the root. -/
structure DslFile where
  /-- The components of its path below the root. -/
  rel : List OsStr
  size : Except String ℕ
  body : Except String String

/-! ### Paths -/

/-- The byte of a character. -/
def asciiByte (c : Char) : UInt8 := c.toNat.toUInt8

/-- A file name cut at its last dot, unless that is its first byte. -/
def splitExtension (name : OsStr) : Option (OsStr × OsStr) :=
  if name = [asciiByte '.', asciiByte '.'] then none
  else match rsplitOnce (· == asciiByte '.') name with
    | some (stem, ext) => if stem.isEmpty then none else some (stem, ext)
    | none => none

/-- `Path::file_stem`. -/
def fileStem (name : OsStr) : OsStr := ((splitExtension name).map (·.1)).getD name

/-- `is_yaml`. -/
def isYaml (name : OsStr) : Bool :=
  match splitExtension name with
  | some (_, ext) => ext == bytes "yaml".toList || ext == bytes "yml".toList
  | none => false

/-- `Path::join`. -/
def joinPath (p name : OsStr) : OsStr :=
  if p.isEmpty || p.getLast? == some (asciiByte '/') then p ++ name
  else p ++ asciiByte '/' :: name

/-- The `display()` text of a path below the root. -/
def displayPath (root : OsStr) (rel : List OsStr) : String :=
  String.ofList (fromUtf8Lossy (rel.foldl joinPath root))

/-- `with_extension("")` on a file name.  It copies the name up to the extension, with the dot, and
`set_extension("")` cuts that at its file stem; the copy of `..yaml` is `..`, which has none. -/
def dropExtension (name : OsStr) : OsStr :=
  match splitExtension name with
  | none => name
  | some (stem, _) => fileStem (stem ++ [asciiByte '.'])

/-- `with_extension("")` on a path. -/
def withoutExtension : List OsStr → List OsStr
  | [] => []
  | [name] => [dropExtension name]
  | dir :: rel => dir :: withoutExtension rel

/-- `group_from_path`, of a path below the root. -/
def groupFromPath (rel : List OsStr) : String :=
  let s := fromUtf8Lossy ((withoutExtension rel).foldl joinPath [])
  String.ofList (trimMatches (· == '-') (replaceChars (fun ch => ch == '\\' || ch == '/') '-' s))

/-! ### One file -/

variable (c : Crates) (env : ProcEnv) (policy : LoadPolicy) (root : OsStr)

/-- The group of a file. -/
def DslFile.group (f : DslFile) : String := groupFromPath f.rel

/-- The text of a file's path. -/
def DslFile.path (f : DslFile) : String := displayPath root f.rel

/-- The jobs of a parsed file. -/
def intoJobs (path group : String) (raw : BTreeMap String RawJob) :
    Except CronManagerError (List LoadedJob) :=
  raw.entries.mapM fun nr =>
    (nr.2.intoSpec c env policy path ⟨group, nr.1⟩).map fun spec => ⟨spec, path⟩

/-- `load_file_with_policy`. -/
def loadFileWithPolicy (f : DslFile) : Except CronManagerError (List LoadedJob) :=
  let path := f.path root
  match f.size with
  | .error e => .error (.io e)
  | .ok size =>
    let cap := policy.maxFileBytes
    if cap < size then
      .error (.invalidJobDefinition path (s!"DSL file size {size} bytes exceeds " ++
        s!"security.max_dsl_file_bytes cap {cap} — a YAML anchor bomb can amplify well past " ++
        "this in the parser; refuse to load"))
    else match f.body with
      | .error e => .error (.io e)
      | .ok body => match c.yamlFromStr body with
        | .error e => .error (.yamlParse path e)
        | .ok raw => intoJobs c env policy path f.group raw

/-- What a load has gathered. -/
structure LoadState where
  out : List LoadedJob
  yamlFilesSeen : ℕ
  filesFailed : ℕ

/-- The error of a refused dev fixture. -/
def devFixtureError (path pattern : String) : CronManagerError :=
  .invalidJobDefinition path ("REFUSING TO LOAD dev-fixture DSL in non-dev environment: " ++
    s!"matched pattern '{pattern}'. Remove the file from the prod build, OR set APP_ENV=dev, " ++
    "OR set security.allow_dev_fixture_dsls=true to explicitly permit dev-fixture DSLs in " ++
    "this environment (WARN at boot).")

/-- The body of `walk` for a path that is not a directory. -/
def visitFile (f : DslFile) (st : LoadState) : Except CronManagerError LoadState :=
  if !(f.rel.getLast?.any isYaml) then .ok st
  else
    let st := { st with yamlFilesSeen := st.yamlFilesSeen + 1 }
    match devFixturePattern (f.path root), policy.devFixtureAction with
    | some pattern, .refuse => .error (devFixtureError (f.path root) pattern)
    | _, _ => match loadFileWithPolicy c env policy root f with
      | .ok loaded => .ok { st with out := st.out ++ loaded }
      -- one bad file does not end the load
      | .error _ => .ok { st with filesFailed := st.filesFailed + 1 }

/-! ### The walk -/

/-- Entries in the order of their names (`paths.sort()`). -/
def sortByName {α : Type*} (xs : List (OsStr × α)) : List (OsStr × α) :=
  xs.insertionSort fun a b => a.1 ≤ b.1

/-- What visiting an entry does to the load. -/
abbrev Visitor := LoadState → Except CronManagerError LoadState

/-- `walk`, given how each entry of the directory is visited. -/
def walk (listError : Option String) (entries : List (OsStr × Visitor)) : Visitor := fun st =>
  match listError with
  | some e => .error (.io e)
  | none => (sortByName entries).foldlM (fun st entry => entry.2 st) st

mutual

/-- Visit one entry of the directory `rel`. -/
def visit (rel : List OsStr) : FsNode → Visitor
  | .file name size body => visitFile c env policy root ⟨rel ++ [name], size, body⟩
  | .dir name listError entries => walk listError (visitors (rel ++ [name]) entries)

/-- How each entry of the directory `rel` is visited. -/
def visitors (rel : List OsStr) : List FsNode → List (OsStr × Visitor)
  | [] => []
  | n :: ns => (n.name, visit rel n) :: visitors rel ns

end

/-- `load_all_with_policy`: `tree` is the root's entry, `none` when it does not exist. -/
def loadAllWithPolicy (tree : Option FsNode) : Except CronManagerError (List LoadedJob) :=
  match tree with
  | none => .ok []
  | some (.file ..) => .error (.io "Not a directory (os error 20)")
  | some (.dir _ listError entries) =>
    (walk listError (visitors c env policy root [] entries) ⟨[], 0, 0⟩).map (·.out)

/-- How the blocking task of `load_all_bounded` ends: with the directory tree it walked, too late,
or in a panic. -/
inductive LoadEnd where
  | finished (tree : Option FsNode)
  | timedOut
  | panicked (error : String)

/-- `load_all_bounded`. -/
def loadAllBounded (timeoutSecs : ℕ) : LoadEnd → Except CronManagerError (List LoadedJob)
  | .finished tree => loadAllWithPolicy c env policy root tree
  | .timedOut => .error (.internal (s!"dsl load exceeded {timeoutSecs}s wall clock — " ++
      "investigate DSL file sizes / anchor use"))
  | .panicked e => .error (.internal s!"dsl load task panicked: {e}")

/-! ### What a load returns -/

mutual

/-- The YAML files of an entry of the directory `rel`, in the order of the walk. -/
def yamlFiles (rel : List OsStr) : FsNode → List DslFile
  | .file name size body => if isYaml name then [⟨rel ++ [name], size, body⟩] else []
  | .dir name _ entries => (sortByName (yamlFilesIn (rel ++ [name]) entries)).flatMap (·.2)

/-- The YAML files of each entry of the directory `rel`. -/
def yamlFilesIn (rel : List OsStr) : List FsNode → List (OsStr × List DslFile)
  | [] => []
  | n :: ns => (n.name, yamlFiles rel n) :: yamlFilesIn rel ns

end

/-- The YAML files below the root, in the order of the walk. -/
def dslFiles : Option FsNode → List DslFile
  | some (.dir _ _ entries) => (sortByName (yamlFilesIn [] entries)).flatMap (·.2)
  | _ => []

/-- The jobs of a file: none when it fails to load. -/
def DslFile.jobs (f : DslFile) : List LoadedJob :=
  match loadFileWithPolicy c env policy root f with
  | .ok loaded => loaded
  | .error _ => []

variable {c env policy root}

theorem forall₂_orderedInsert {α β : Type*} {R : OsStr × α → OsStr × β → Prop}
    (hR : ∀ a b, R a b → a.1 = b.1) {a : OsStr × α} {b : OsStr × β} (hab : R a b)
    {xs : List (OsStr × α)} {ys : List (OsStr × β)} (h : List.Forall₂ R xs ys) :
    List.Forall₂ R (xs.orderedInsert (fun a b => a.1 ≤ b.1) a)
      (ys.orderedInsert (fun a b => a.1 ≤ b.1) b) := by
  induction h with
  | nil => exact .cons hab .nil
  | @cons x y xs ys hxy hxys ih =>
    -- both insertions compare the same names
    have hle : a.1 ≤ x.1 ↔ b.1 ≤ y.1 := by rw [hR a b hab, hR x y hxy]
    by_cases h : a.1 ≤ x.1
    · rw [List.orderedInsert_cons, if_pos h, List.orderedInsert_cons, if_pos (hle.1 h)]
      exact .cons hab (.cons hxy hxys)
    · rw [List.orderedInsert_cons, if_neg h, List.orderedInsert_cons, if_neg (mt hle.2 h)]
      exact .cons hxy ih

theorem forall₂_sortByName {α β : Type*} {R : OsStr × α → OsStr × β → Prop}
    (hR : ∀ a b, R a b → a.1 = b.1) {xs : List (OsStr × α)} {ys : List (OsStr × β)}
    (h : List.Forall₂ R xs ys) : List.Forall₂ R (sortByName xs) (sortByName ys) := by
  induction h with
  | nil => exact .nil
  | cons hxy _ ih => exact forall₂_orderedInsert hR hxy ih

/-- Visiting adds the jobs of the given files. -/
def Adds (c : Crates) (env : ProcEnv) (policy : LoadPolicy) (root : OsStr) (v : Visitor)
    (files : List DslFile) : Prop :=
  ∀ st st', v st = .ok st' → st'.out = st.out ++ files.flatMap (·.jobs c env policy root)

theorem adds_visitFile {f : DslFile} :
    Adds c env policy root (visitFile c env policy root f)
      (if f.rel.getLast?.any isYaml then [f] else []) := by
  intro st st' h
  simp only [visitFile] at h
  by_cases hy : f.rel.getLast?.any isYaml = true
  · simp only [hy, Bool.not_true, Bool.false_eq_true, if_false] at h
    simp only [hy, if_true, List.flatMap_singleton, DslFile.jobs]
    split at h
    · cases h
    · split at h <;> cases h
      · rfl
      · exact (List.append_nil _).symm
  · simp only [hy, Bool.not_false, if_true] at h
    cases h
    simp [hy]

theorem adds_foldlM {vs : List (OsStr × Visitor)} {fs : List (OsStr × List DslFile)}
    (h : List.Forall₂ (fun v f => v.1 = f.1 ∧ Adds c env policy root v.2 f.2) vs fs) :
    Adds c env policy root (fun st => vs.foldlM (fun st entry => entry.2 st) st)
      (fs.flatMap (·.2)) := by
  induction h with
  | nil =>
    rintro st st' ⟨⟩
    simp
  | @cons v f vs fs hvf _ ih =>
    intro st st' hfold
    simp only [List.foldlM_cons] at hfold
    cases hv : v.2 st with
    | error e =>
      rw [hv] at hfold
      cases hfold
    | ok st₁ =>
      rw [hv] at hfold
      rw [ih st₁ st' hfold, hvf.2 st st₁ hv, List.flatMap_cons, List.flatMap_append,
        List.append_assoc]

theorem adds_walk {listError : Option String} {vs : List (OsStr × Visitor)}
    {fs : List (OsStr × List DslFile)}
    (h : List.Forall₂ (fun v f => v.1 = f.1 ∧ Adds c env policy root v.2 f.2) vs fs) :
    Adds c env policy root (walk listError vs) ((sortByName fs).flatMap (·.2)) := by
  intro st st' hwalk
  simp only [walk] at hwalk
  cases listError with
  | some e => cases hwalk
  | none => exact adds_foldlM (forall₂_sortByName (fun _ _ h => h.1) h) st st' hwalk

mutual

theorem adds_visit (rel : List OsStr) :
    ∀ n, Adds c env policy root (visit c env policy root rel n) (yamlFiles rel n)
  | .file name size body => by
    have h := @adds_visitFile c env policy root ⟨rel ++ [name], size, body⟩
    rw [List.getLast?_concat, Option.any_some] at h
    exact h
  | .dir name listError entries => adds_walk (adds_visitors (rel ++ [name]) entries)

theorem adds_visitors (rel : List OsStr) :
    ∀ ns, List.Forall₂ (fun v f => v.1 = f.1 ∧ Adds c env policy root v.2 f.2)
      (visitors c env policy root rel ns) (yamlFilesIn rel ns)
  | [] => .nil
  | n :: ns => .cons ⟨rfl, adds_visit rel n⟩ (adds_visitors rel ns)

end

/-- **What a load returns**: the jobs of the YAML files that load, in the order of the walk. -/
theorem loadAll_eq {tree : Option FsNode} {jobs : List LoadedJob}
    (h : loadAllWithPolicy c env policy root tree = .ok jobs) :
    jobs = (dslFiles tree).flatMap (·.jobs c env policy root) := by
  match tree with
  | none =>
    cases h
    rfl
  | some (.file ..) => cases h
  | some (.dir _ listError entries) =>
    simp only [loadAllWithPolicy] at h
    cases hwalk : walk listError (visitors c env policy root [] entries) ⟨[], 0, 0⟩ with
    | error e =>
      rw [hwalk] at h
      cases h
    | ok st =>
      rw [hwalk] at h
      cases h
      have := adds_walk (adds_visitors [] entries) _ st hwalk
      rwa [List.nil_append] at this

/-! ### The jobs of one file -/

theorem jobs_entries (f : DslFile) : ∃ entries : List (String × RawJob),
    (entries.map (·.1)).Nodup ∧
      List.Forall₂ (fun nr job => nr.2.intoSpec c env policy (f.path root) ⟨f.group, nr.1⟩ =
        .ok job.spec) entries (f.jobs c env policy root) := by
  simp only [DslFile.jobs]
  cases hload : loadFileWithPolicy c env policy root f with
  | error e => exact ⟨[], .nil, .nil⟩
  | ok loaded =>
    simp only [loadFileWithPolicy] at hload
    -- the size, the cap, the text and the YAML of a file that loads
    split at hload
    · cases hload
    split at hload
    · cases hload
    split at hload
    · cases hload
    split at hload
    · cases hload
    rename_i raw _
    refine ⟨raw.entries, raw.nodup_keys, (forall₂_of_mapM hload).imp fun nr job h => ?_⟩
    obtain ⟨spec, hspec, rfl⟩ := map_eq_ok h
    exact hspec

/-- The names of the jobs of a file. -/
def DslFile.jobNames (c : Crates) (env : ProcEnv) (policy : LoadPolicy) (root : OsStr)
    (f : DslFile) : List String :=
  (f.jobs c env policy root).map (·.spec.key.name)

/-- The keys of the jobs of a file: its group with each of their names, which are distinct. -/
theorem jobs_keys (f : DslFile) :
    (f.jobs c env policy root).map (·.spec.key) =
        (f.jobNames c env policy root).map (⟨f.group, ·⟩) ∧
      (f.jobNames c env policy root).Nodup := by
  obtain ⟨entries, hnodup, hentries⟩ := @jobs_entries c env policy root f
  have hkeys : ∀ {es : List (String × RawJob)} {jobs : List LoadedJob},
      List.Forall₂ (fun nr job => nr.2.intoSpec c env policy (f.path root) ⟨f.group, nr.1⟩ =
        .ok job.spec) es jobs → jobs.map (·.spec.key) = (es.map (·.1)).map (⟨f.group, ·⟩) := by
    intro es jobs h
    induction h with
    | nil => rfl
    | cons hjob _ ih => rw [List.map_cons, ih, (intoSpec_ok hjob).1, List.map_cons, List.map_cons]
  have hnames : f.jobNames c env policy root = entries.map (·.1) := by
    have h := congrArg (List.map JobKey.name) (hkeys hentries)
    simpa [DslFile.jobNames, Function.comp_def] using h
  rw [hnames]
  exact ⟨hkeys hentries, hnodup⟩

/-- No two files of one group have a job of the same name. -/
def NamesApart (c : Crates) (env : ProcEnv) (policy : LoadPolicy) (root : OsStr)
    (files : List DslFile) : Prop :=
  files.Pairwise fun f g => f.group = g.group →
    (f.jobNames c env policy root).Disjoint (g.jobNames c env policy root)

/-- The jobs of some files have distinct keys exactly when the files keep their names apart. -/
theorem nodup_keys_iff {files : List DslFile} :
    ((files.flatMap (·.jobs c env policy root)).map (·.spec.key)).Nodup ↔
      NamesApart c env policy root files := by
  have hdisjoint : ∀ f g : DslFile,
      ((f.jobs c env policy root).map (·.spec.key)).Disjoint
          ((g.jobs c env policy root).map (·.spec.key)) ↔
        (f.group = g.group →
          (f.jobNames c env policy root).Disjoint (g.jobNames c env policy root)) := by
    intro f g
    rw [(jobs_keys f).1, (jobs_keys g).1]
    constructor
    · -- a shared name within one group is a shared key
      intro h hgroup name hf hg
      exact h (List.mem_map_of_mem hf) (hgroup ▸ List.mem_map_of_mem hg)
    · intro h key hf hg
      obtain ⟨name, hname, rfl⟩ := List.mem_map.1 hf
      obtain ⟨name', hname', heq⟩ := List.mem_map.1 hg
      obtain ⟨hgroup, rfl⟩ := JobKey.mk.inj heq
      exact h hgroup.symm hname hname'
  have hnodup : ∀ f ∈ files, ((f.jobs c env policy root).map (·.spec.key)).Nodup := by
    intro f _
    rw [(jobs_keys f).1]
    exact (jobs_keys f).2.map fun a b h => (JobKey.mk.inj h).2
  rw [List.map_flatMap, List.nodup_flatMap, and_iff_right hnodup]
  exact List.Pairwise.iff hdisjoint

theorem mem_loadAll {tree : Option FsNode} {jobs : List LoadedJob} {job : LoadedJob}
    (h : loadAllWithPolicy c env policy root tree = .ok jobs) (hjob : job ∈ jobs) :
    ∃ f ∈ dslFiles tree, job ∈ f.jobs c env policy root := by
  rw [loadAll_eq h] at hjob
  exact List.mem_flatMap.1 hjob

end CronManager
