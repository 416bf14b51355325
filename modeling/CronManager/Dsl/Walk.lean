import CronManager.Dsl.Loader

/-!
# Which trees load, and what one file adds

`loadAll_eq` says what a load returns when it succeeds.  This file says when it does
(`loadAll_ok_iff`): all directories are readable and no YAML file is refused as a dev fixture.
Nothing else matters, in particular not whether the files parse, nor the order of the walk.

`load_isolated` puts the two together for policies that refuse nothing: the load is the
concatenation of what the files give one by one, and a change of one file, at any depth, changes
the part of the list that this file gives and nothing in front of it or behind it.  The sort of
the entries is what makes this need an argument: `sortByName_optEntry` finds the place of an entry
whether or not the entry is there.
-/

namespace CronManager

open Rust

/-! ### Directories and files of a tree -/

mutual

/-- Every directory at or below the entry can be listed. -/
def FsNode.readable : FsNode → Bool
  | .file .. => true
  | .dir _ listError entries => listError.isNone && readableAll entries

/-- Every directory at or below the entries can be listed. -/
def readableAll : List FsNode → Bool
  | [] => true
  | n :: ns => n.readable && readableAll ns

end

/-- The root is a directory, or nothing, and all directories can be listed. -/
def treeReadable : Option FsNode → Bool
  | none => true
  | some (.file ..) => false
  | some (.dir name listError entries) => (FsNode.dir name listError entries).readable

/-- The entry of the directory `rel` is the file, or holds it at some depth. -/
inductive FsNode.Holds : List OsStr → FsNode → DslFile → Prop
  | file {rel : List OsStr} {name : OsStr} {size : Except String ℕ} {body : Except String String} :
      Holds rel (.file name size body) ⟨rel ++ [name], size, body⟩
  | dir {rel : List OsStr} {name : OsStr} {listError : Option String} {entries : List FsNode}
      {n : FsNode} {f : DslFile} (hn : n ∈ entries) (hf : Holds (rel ++ [name]) n f) :
      Holds rel (.dir name listError entries) f

/-- The entries of the root. -/
def treeEntries : Option FsNode → List FsNode
  | some (.dir _ _ entries) => entries
  | _ => []

/-- The tree holds the file. -/
def TreeHolds (tree : Option FsNode) (f : DslFile) : Prop :=
  ∃ n ∈ treeEntries tree, n.Holds [] f

/-- The file has the extension `.yaml` or `.yml`. -/
def DslFile.isYaml (f : DslFile) : Bool := f.rel.getLast?.any CronManager.isYaml

theorem readableAll_iff {ns : List FsNode} :
    readableAll ns = true ↔ ∀ n ∈ ns, n.readable = true := by
  induction ns with
  | nil => simp [readableAll]
  | cons n ns ih => simp [readableAll, ih]

theorem yamlFilesIn_eq_map {rel : List OsStr} {ns : List FsNode} :
    yamlFilesIn rel ns = ns.map fun n => (n.name, yamlFiles rel n) := by
  induction ns with
  | nil => rfl
  | cons n ns ih => rw [yamlFilesIn, ih, List.map_cons]

theorem mem_sortByName {α : Type*} {xs : List (OsStr × α)} {x : OsStr × α} :
    x ∈ sortByName xs ↔ x ∈ xs := List.mem_insertionSort _

theorem mem_yamlFilesIn {rel : List OsStr} {ns : List FsNode} {f : DslFile} :
    f ∈ (sortByName (yamlFilesIn rel ns)).flatMap (·.2) ↔ ∃ n ∈ ns, f ∈ yamlFiles rel n := by
  simp only [List.mem_flatMap, mem_sortByName, yamlFilesIn_eq_map, List.mem_map]
  constructor
  · rintro ⟨_, ⟨n, hn, rfl⟩, hf⟩
    exact ⟨n, hn, hf⟩
  · rintro ⟨n, hn, hf⟩
    exact ⟨_, ⟨n, hn, rfl⟩, hf⟩

/-! ### When a load succeeds -/

/-- The policy refuses to load the file. -/
def Refused (policy : LoadPolicy) (root : OsStr) (f : DslFile) : Prop :=
  policy.devFixtureAction = .refuse ∧ (devFixturePattern (f.path root)).isSome

/-- Visiting succeeds, in whatever state the load is, exactly if `P`. -/
def Loads (v : Visitor) (P : Prop) : Prop := ∀ st, (∃ st', v st = .ok st') ↔ P

variable {c : Crates} {env : ProcEnv} {policy : LoadPolicy} {root : OsStr}

theorem loads_visitFile {f : DslFile} :
    Loads (visitFile c env policy root f) (f.isYaml = true → ¬ Refused policy root f) := by
  intro st
  simp only [visitFile, DslFile.isYaml, Refused]
  by_cases hyaml : f.rel.getLast?.any CronManager.isYaml = true
  · simp only [hyaml, Bool.not_true, Bool.false_eq_true, if_false, forall_const]
    split
    · rename_i hpattern haction
      simp [hpattern, haction]
    · rename_i hnot
      -- a file that is not refused is loaded or counted as failed
      have hok : ¬ (policy.devFixtureAction = .refuse ∧
          (devFixturePattern (f.path root)).isSome = true) := by
        rintro ⟨haction, hpattern⟩
        obtain ⟨pattern, hpattern⟩ := Option.isSome_iff_exists.1 hpattern
        exact hnot pattern hpattern haction
      simp only [hok, not_false_iff, iff_true]
      cases loadFileWithPolicy c env policy root f with
      | ok loaded => exact ⟨_, rfl⟩
      | error e => exact ⟨_, rfl⟩
  · simp [hyaml]

theorem loads_foldlM {vs : List (OsStr × Visitor)} {ps : List (OsStr × Prop)}
    (h : List.Forall₂ (fun v p => v.1 = p.1 ∧ Loads v.2 p.2) vs ps) :
    Loads (fun st => vs.foldlM (fun st entry => entry.2 st) st) (∀ p ∈ ps, p.2) := by
  induction h with
  | nil =>
    intro st
    simp only [List.foldlM_nil, List.not_mem_nil, false_implies, implies_true, iff_true]
    exact ⟨st, rfl⟩
  | @cons v p vs ps hvp _ ih =>
    intro st
    simp only [List.foldlM_cons, List.mem_cons, forall_eq_or_imp]
    cases hv : v.2 st with
    | error e =>
      -- one failing entry ends the walk
      have hp : ¬ p.2 := by
        rw [← hvp.2 st, hv]
        rintro ⟨st', h⟩
        cases h
      simp only [hp, false_and, iff_false]
      rintro ⟨st', h⟩
      cases h
    | ok st₁ =>
      have hp : p.2 := (hvp.2 st).1 ⟨st₁, hv⟩
      simp only [hp, true_and]
      exact ih st₁

theorem loads_walk {listError : Option String} {vs : List (OsStr × Visitor)}
    {ps : List (OsStr × Prop)}
    (h : List.Forall₂ (fun v p => v.1 = p.1 ∧ Loads v.2 p.2) vs ps) :
    Loads (walk listError vs) (listError = none ∧ ∀ p ∈ ps, p.2) := by
  intro st
  cases listError with
  | some e => simp [walk]
  | none =>
    have hfold := loads_foldlM (forall₂_sortByName (fun _ _ h => h.1) h) st
    simp only [mem_sortByName] at hfold
    simpa [walk] using hfold

/-- The entry can be listed and none of its YAML files is refused. -/
def FsNode.Loadable (policy : LoadPolicy) (root : OsStr) (rel : List OsStr) (n : FsNode) : Prop :=
  n.readable = true ∧ ∀ f ∈ yamlFiles rel n, ¬ Refused policy root f

theorem loadable_file {rel : List OsStr} {name : OsStr} {size : Except String ℕ}
    {body : Except String String} :
    (FsNode.file name size body).Loadable policy root rel ↔
      ((⟨rel ++ [name], size, body⟩ : DslFile).isYaml = true →
        ¬ Refused policy root ⟨rel ++ [name], size, body⟩) := by
  simp only [FsNode.Loadable, FsNode.readable, true_and, yamlFiles, DslFile.isYaml,
    List.getLast?_concat, Option.any_some]
  by_cases hyaml : CronManager.isYaml name = true
  · simp [hyaml]
  · simp [hyaml]

theorem loadable_dir {rel : List OsStr} {name : OsStr} {listError : Option String}
    {entries : List FsNode} :
    (FsNode.dir name listError entries).Loadable policy root rel ↔
      listError = none ∧ ∀ n ∈ entries, n.Loadable policy root (rel ++ [name]) := by
  simp only [FsNode.Loadable, FsNode.readable, yamlFiles, Bool.and_eq_true, readableAll_iff,
    Option.isNone_iff_eq_none, mem_yamlFilesIn]
  constructor
  · rintro ⟨⟨hlist, hread⟩, hfiles⟩
    exact ⟨hlist, fun n hn => ⟨hread n hn, fun f hf => hfiles f ⟨n, hn, hf⟩⟩⟩
  · rintro ⟨hlist, hentries⟩
    refine ⟨⟨hlist, fun n hn => (hentries n hn).1⟩, ?_⟩
    rintro f ⟨n, hn, hf⟩
    exact (hentries n hn).2 f hf

mutual

theorem loads_visit (rel : List OsStr) :
    ∀ n, Loads (visit c env policy root rel n) (n.Loadable policy root rel)
  | .file name size body => by
    rw [loadable_file]
    exact loads_visitFile
  | .dir name listError entries => by
    intro st
    rw [loadable_dir]
    have hwalk := @loads_walk listError _ _ (loads_visitors (rel ++ [name]) entries) st
    rw [List.forall_mem_map] at hwalk
    exact hwalk

theorem loads_visitors (rel : List OsStr) :
    ∀ ns, List.Forall₂ (fun v p => v.1 = p.1 ∧ Loads v.2 p.2) (visitors c env policy root rel ns)
      (ns.map fun n => (n.name, n.Loadable policy root rel))
  | [] => .nil
  | n :: ns => .cons ⟨rfl, loads_visit rel n⟩ (loads_visitors rel ns)

end

/-- **When a load succeeds**: the directories can be listed, and no YAML file is refused. -/
theorem loadAll_ok_iff {tree : Option FsNode} :
    (∃ jobs, loadAllWithPolicy c env policy root tree = .ok jobs) ↔
      treeReadable tree = true ∧ ∀ f ∈ dslFiles tree, ¬ Refused policy root f := by
  match tree with
  | none => simp [loadAllWithPolicy, treeReadable, dslFiles]
  | some (.file ..) => simp [loadAllWithPolicy, treeReadable]
  | some (.dir name listError entries) =>
    have hwalk := @loads_walk listError _ _ (@loads_visitors c env policy root [] entries)
      ⟨[], 0, 0⟩
    rw [List.forall_mem_map] at hwalk
    have htree : treeReadable (some (.dir name listError entries)) = true ↔
        listError = none ∧ ∀ n ∈ entries, n.readable = true := by
      simp [treeReadable, FsNode.readable, readableAll_iff]
    have hfiles : (∀ f ∈ dslFiles (some (.dir name listError entries)), ¬ Refused policy root f) ↔
        ∀ n ∈ entries, ∀ f ∈ yamlFiles [] n, ¬ Refused policy root f := by
      simp only [dslFiles, mem_yamlFilesIn]
      constructor
      · intro h n hn f hf
        exact h f ⟨n, hn, hf⟩
      · rintro h f ⟨n, hn, hf⟩
        exact h n hn f hf
    have hmap : (∃ jobs, loadAllWithPolicy c env policy root (some (.dir name listError entries)) =
        .ok jobs) ↔
          ∃ st, walk listError (visitors c env policy root [] entries) ⟨[], 0, 0⟩ = .ok st := by
      simp only [loadAllWithPolicy]
      cases walk listError (visitors c env policy root [] entries) ⟨[], 0, 0⟩ with
      | ok st => exact ⟨fun _ => ⟨st, rfl⟩, fun _ => ⟨st.out, rfl⟩⟩
      | error e => simp [Except.map]
    rw [hmap, hwalk, htree, hfiles, and_assoc]
    simp only [FsNode.Loadable, forall_and]

/-! ### The files of a tree -/

mutual

theorem mem_yamlFiles_iff (rel : List OsStr) (f : DslFile) :
    ∀ n : FsNode, f ∈ yamlFiles rel n ↔ f.isYaml = true ∧ n.Holds rel f
  | .file name size body => by
    have hyaml : (⟨rel ++ [name], size, body⟩ : DslFile).isYaml = CronManager.isYaml name := by
      simp [DslFile.isYaml]
    simp only [yamlFiles]
    constructor
    · intro h
      split_ifs at h with hname
      · obtain rfl := List.mem_singleton.1 h
        exact ⟨hyaml.trans hname, .file⟩
      · cases h
    · rintro ⟨hname, ⟨⟩⟩
      rw [hyaml] at hname
      simp [hname]
  | .dir name listError entries => by
    rw [yamlFiles, mem_yamlFilesIn]
    constructor
    · rintro ⟨n, hn, hf⟩
      obtain ⟨hyaml, hholds⟩ := (mem_yamlFiles_entry (rel ++ [name]) f entries n hn).1 hf
      exact ⟨hyaml, .dir hn hholds⟩
    · rintro ⟨hyaml, hholds⟩
      cases hholds with
      | @dir _ _ _ _ n _ hn hf =>
        exact ⟨n, hn, (mem_yamlFiles_entry (rel ++ [name]) f entries n hn).2 ⟨hyaml, hf⟩⟩

theorem mem_yamlFiles_entry (rel : List OsStr) (f : DslFile) :
    ∀ ns : List FsNode, ∀ n ∈ ns, (f ∈ yamlFiles rel n ↔ f.isYaml = true ∧ n.Holds rel f)
  | [] => by simp
  | n :: ns => by
    have hhead := mem_yamlFiles_iff rel f n
    have htail := mem_yamlFiles_entry rel f ns
    intro m hm
    rcases List.mem_cons.1 hm with rfl | hm
    · exact hhead
    · exact htail m hm

end

/-- **The files that a load looks at** are the YAML files of the tree, at any depth. -/
theorem mem_dslFiles {tree : Option FsNode} {f : DslFile} :
    f ∈ dslFiles tree ↔ f.isYaml = true ∧ TreeHolds tree f := by
  match tree with
  | none => simp [dslFiles, TreeHolds, treeEntries]
  | some (.file ..) => simp [dslFiles, TreeHolds, treeEntries]
  | some (.dir _ _ entries) =>
    simp only [dslFiles, mem_yamlFilesIn, TreeHolds, treeEntries, mem_yamlFiles_iff]
    constructor
    · rintro ⟨n, hn, hyaml, hf⟩
      exact ⟨hyaml, n, hn, hf⟩
    · rintro ⟨hyaml, n, hn, hf⟩
      exact ⟨n, hn, hyaml, hf⟩

/-! ### One entry in the sorted order -/

/-- An entry that is there or not. -/
def optEntry {α : Type*} (name : OsStr) (o : Option α) : List (OsStr × α) :=
  (o.map fun x => (name, x)).toList

theorem orderedInsert_optEntry {α : Type*} {name : OsStr} {pre post : List (OsStr × α)}
    (hpost : ∀ b ∈ post, name ≤ b.1) (a : OsStr × α) :
    ∃ pre' post', (∀ b ∈ post', name ≤ b.1) ∧ ∀ o : Option α,
      (pre ++ optEntry name o ++ post).orderedInsert (fun a b => a.1 ≤ b.1) a =
        pre' ++ optEntry name o ++ post' := by
  induction pre with
  | nil =>
    by_cases ha : a.1 ≤ name
    · -- in front of the entry, and then in front of all that follow
      refine ⟨[a], post, hpost, ?_⟩
      intro o
      cases o with
      | some x => simp [optEntry, ha]
      | none =>
        cases post with
        | nil => rfl
        | cons b post =>
          have hb : a.1 ≤ b.1 := List.le_trans ha (hpost b List.mem_cons_self)
          simp [optEntry, hb]
    · refine ⟨[], post.orderedInsert (fun a b => a.1 ≤ b.1) a, ?_, ?_⟩
      · intro b hb
        rcases List.mem_orderedInsert _ |>.1 hb with rfl | hb
        · exact (List.le_total _ _).resolve_left ha
        · exact hpost b hb
      · intro o
        cases o with
        | some x => simp [optEntry, ha]
        | none => simp [optEntry]
  | cons b pre ih =>
    by_cases hab : a.1 ≤ b.1
    · refine ⟨a :: b :: pre, post, hpost, ?_⟩
      intro o
      simp [hab]
    · obtain ⟨pre', post', hpost', h⟩ := ih
      refine ⟨b :: pre', post', hpost', ?_⟩
      intro o
      have := h o
      simp only [List.cons_append, List.orderedInsert_cons, hab, if_false, this]

theorem exists_cut_of_sorted {α : Type*} {name : OsStr} {s : List (OsStr × α)}
    (hs : s.Pairwise fun a b => a.1 ≤ b.1) :
    ∃ pre post, (∀ b ∈ post, name ≤ b.1) ∧ s = pre ++ post ∧ ∀ x : α,
      s.orderedInsert (fun a b => a.1 ≤ b.1) (name, x) = pre ++ (name, x) :: post := by
  induction s with
  | nil => exact ⟨[], [], by simp, rfl, fun x => rfl⟩
  | cons b s ih =>
    rw [List.pairwise_cons] at hs
    by_cases hb : name ≤ b.1
    · refine ⟨[], b :: s, ?_, rfl, fun x => by simp [hb]⟩
      intro b' hb'
      rcases List.mem_cons.1 hb' with rfl | hb'
      · exact hb
      · exact List.le_trans hb (hs.1 b' hb')
    · obtain ⟨pre, post, hpost, rfl, hinsert⟩ := ih hs.2
      refine ⟨b :: pre, post, hpost, rfl, ?_⟩
      intro x
      rw [List.orderedInsert_cons, if_neg hb, hinsert x, List.cons_append]

/-- The place of an entry in the sorted order, whether or not it is there. -/
theorem sortByName_optEntry {α : Type*} (name : OsStr) (l r : List (OsStr × α)) :
    ∃ pre post, ∀ o : Option α,
      sortByName (l ++ optEntry name o ++ r) = pre ++ optEntry name o ++ post := by
  suffices h : ∃ pre post, (∀ b ∈ post, name ≤ b.1) ∧ ∀ o : Option α,
      sortByName (l ++ optEntry name o ++ r) = pre ++ optEntry name o ++ post by
    obtain ⟨pre, post, -, h⟩ := h
    exact ⟨pre, post, h⟩
  induction l with
  | nil =>
    have : Std.Total fun a b : OsStr × α => a.1 ≤ b.1 := ⟨fun a b => List.le_total a.1 b.1⟩
    have : IsTrans (OsStr × α) fun a b => a.1 ≤ b.1 := ⟨fun a b c h h' => List.le_trans h h'⟩
    have hsorted := List.pairwise_insertionSort (fun a b : OsStr × α => a.1 ≤ b.1) r
    obtain ⟨pre, post, hpost, hcut, hinsert⟩ := @exists_cut_of_sorted α name _ hsorted
    refine ⟨pre, post, hpost, ?_⟩
    intro o
    cases o with
    | none => simpa [optEntry, sortByName] using hcut
    | some x => simpa [optEntry, sortByName] using hinsert x
  | cons a l ih =>
    obtain ⟨pre, post, hpost, h⟩ := ih
    obtain ⟨pre', post', hpost', h'⟩ := orderedInsert_optEntry hpost a
    refine ⟨pre', post', hpost', ?_⟩
    intro o
    rw [← h' o, ← h o]
    rfl

/-! ### One file changed -/

/-- Two directories that differ in one place: in the directory `sub` below them, the one has the
entry `x` and the other `x'`, each of them an entry or none. -/
inductive Edited (x x' : Option FsNode) : List OsStr → List FsNode → List FsNode → Prop
  | here {l r : List FsNode} : Edited x x' [] (l ++ x.toList ++ r) (l ++ x'.toList ++ r)
  | deeper {l r entries entries' : List FsNode} {sub : List OsStr} {name : OsStr}
      {listError : Option String} (h : Edited x x' sub entries entries') :
      Edited x x' (name :: sub) (l ++ .dir name listError entries :: r)
        (l ++ .dir name listError entries' :: r)

/-- The YAML files of an entry that may be missing. -/
def optFiles (rel : List OsStr) (x : Option FsNode) : List DslFile :=
  x.toList.flatMap (yamlFiles rel)

theorem yamlFilesIn_optEntry {rel : List OsStr} {name : OsStr} {l r : List FsNode}
    {x : Option FsNode} (hx : ∀ n ∈ x, n.name = name) :
    yamlFilesIn rel (l ++ x.toList ++ r) =
      yamlFilesIn rel l ++ optEntry name (x.map (yamlFiles rel)) ++ yamlFilesIn rel r := by
  simp only [yamlFilesIn_eq_map, List.map_append]
  cases x with
  | none => rfl
  | some n => simp [optEntry, hx n rfl]

theorem optEntry_flatMap {rel : List OsStr} {name : OsStr} {x : Option FsNode} :
    (optEntry name (x.map (yamlFiles rel))).flatMap (·.2) = optFiles rel x := by
  cases x with
  | none => rfl
  | some n => simp [optEntry, optFiles]

/-- The files of two directories that differ in one place: the same before it and behind it. -/
theorem Edited.files {x x' : Option FsNode} {name : OsStr} (hx : ∀ n ∈ x, n.name = name)
    (hx' : ∀ n ∈ x', n.name = name) {sub : List OsStr} {entries entries' : List FsNode}
    (h : Edited x x' sub entries entries') : ∀ rel, ∃ pre post,
      (sortByName (yamlFilesIn rel entries)).flatMap (·.2) =
          pre ++ optFiles (rel ++ sub) x ++ post ∧
        (sortByName (yamlFilesIn rel entries')).flatMap (·.2) =
          pre ++ optFiles (rel ++ sub) x' ++ post := by
  induction h with
  | @here l r =>
    intro rel
    obtain ⟨pre, post, hsort⟩ :=
      sortByName_optEntry name (yamlFilesIn rel l) (yamlFilesIn rel r)
    refine ⟨pre.flatMap (·.2), post.flatMap (·.2), ?_, ?_⟩
    · rw [yamlFilesIn_optEntry hx, hsort, List.flatMap_append, List.flatMap_append,
        optEntry_flatMap, List.append_nil]
    · rw [yamlFilesIn_optEntry hx', hsort, List.flatMap_append, List.flatMap_append,
        optEntry_flatMap, List.append_nil]
  | @deeper l r entries entries' sub dirName listError _ ih =>
    intro rel
    obtain ⟨pre, post, hfiles, hfiles'⟩ := ih (rel ++ [dirName])
    -- the directory itself keeps its place among its siblings
    obtain ⟨front, back, hsort⟩ :=
      sortByName_optEntry dirName (yamlFilesIn rel l) (yamlFilesIn rel r)
    have hdir (es : List FsNode) :
        (sortByName (yamlFilesIn rel (l ++ .dir dirName listError es :: r))).flatMap (·.2) =
          front.flatMap (·.2) ++ (sortByName (yamlFilesIn (rel ++ [dirName]) es)).flatMap (·.2) ++
            back.flatMap (·.2) := by
      have hentry := @yamlFilesIn_optEntry rel dirName l r (some (.dir dirName listError es))
        (by rintro _ ⟨⟩; rfl)
      rw [Option.toList_some, List.append_assoc, List.singleton_append] at hentry
      rw [hentry, hsort, List.flatMap_append, List.flatMap_append, optEntry_flatMap]
      simp [optFiles, yamlFiles]
    refine ⟨front.flatMap (·.2) ++ pre, post ++ back.flatMap (·.2), ?_, ?_⟩
    · rw [hdir, hfiles]
      simp only [List.append_assoc, List.cons_append, List.nil_append]
    · rw [hdir, hfiles']
      simp only [List.append_assoc, List.cons_append, List.nil_append]

/-- The jobs of some files. -/
def jobsOf (c : Crates) (env : ProcEnv) (policy : LoadPolicy) (root : OsStr)
    (files : List DslFile) : List LoadedJob :=
  files.flatMap (·.jobs c env policy root)

theorem loadAll_of_readable (hpolicy : policy.devFixtureAction ≠ .refuse) {tree : Option FsNode}
    (hread : treeReadable tree = true) :
    loadAllWithPolicy c env policy root tree = .ok (jobsOf c env policy root (dslFiles tree)) := by
  obtain ⟨jobs, hjobs⟩ := (@loadAll_ok_iff c env policy root tree).2
    ⟨hread, fun f _ hrefused => hpolicy hrefused.1⟩
  rw [hjobs, loadAll_eq hjobs]
  rfl

theorem jobsOf_eq_flatten (files : List DslFile) :
    jobsOf c env policy root files =
      (files.filterMap fun f => (loadFileWithPolicy c env policy root f).toOption).flatten := by
  induction files with
  | nil => rfl
  | cons f files ih =>
    simp only [jobsOf, List.flatMap_cons, DslFile.jobs, List.filterMap_cons] at ih ⊢
    cases loadFileWithPolicy c env policy root f with
    | ok loaded => simp [Except.toOption, ih]
    | error e => simp [Except.toOption, ih]

/-- **Per-file isolation.**  A load that refuses no dev fixtures returns the results of its YAML
files one after the other, without those that fail; and trees that differ in one entry load the
same jobs before and behind that entry's own. -/
theorem load_isolated (hpolicy : policy.devFixtureAction ≠ .refuse) :
    (∀ tree, treeReadable tree = true →
      loadAllWithPolicy c env policy root tree = .ok ((dslFiles tree).filterMap fun f =>
        (loadFileWithPolicy c env policy root f).toOption).flatten) ∧
    ∀ (x x' : Option FsNode) (name : OsStr), (∀ n ∈ x, n.name = name) →
      (∀ n ∈ x', n.name = name) → ∀ (sub : List OsStr) (entries entries' : List FsNode),
      Edited x x' sub entries entries' → ∀ rootName : OsStr,
      let tree := some (FsNode.dir rootName none entries)
      let tree' := some (FsNode.dir rootName none entries')
      treeReadable tree = true → treeReadable tree' = true → ∃ pre post,
        dslFiles tree = pre ++ optFiles sub x ++ post ∧
        dslFiles tree' = pre ++ optFiles sub x' ++ post ∧
        loadAllWithPolicy c env policy root tree = .ok (jobsOf c env policy root pre ++
          jobsOf c env policy root (optFiles sub x) ++ jobsOf c env policy root post) ∧
        loadAllWithPolicy c env policy root tree' = .ok (jobsOf c env policy root pre ++
          jobsOf c env policy root (optFiles sub x') ++ jobsOf c env policy root post) := by
  constructor
  · intro tree hread
    rw [loadAll_of_readable hpolicy hread, jobsOf_eq_flatten]
  · intro x x' name hx hx' sub entries entries' hedit rootName tree tree' hread hread'
    obtain ⟨pre, post, hfiles, hfiles'⟩ := hedit.files hx hx' []
    rw [List.nil_append] at hfiles hfiles'
    refine ⟨pre, post, hfiles, hfiles', ?_, ?_⟩
    · rw [loadAll_of_readable hpolicy hread, show dslFiles tree = _ from hfiles]
      simp only [jobsOf, List.flatMap_append]
    · rw [loadAll_of_readable hpolicy hread', show dslFiles tree' = _ from hfiles']
      simp only [jobsOf, List.flatMap_append]

/-- A file with one manual job, `backup`, that runs `program`. -/
def demoBody (program : String) : String :=
  "backup:\n  trigger: off\n  type: exec\n  command: " ++ program ++ "\n"

/-- That job as the YAML parser returns it. -/
def demoRaw (program : String) : RawJob where
  trigger := .str "off"
  ty := "exec"
  startDate := none
  endDate := none
  retryCount := none
  retryDelayMs := none
  ignoreFailures := none
  method := none
  url := none
  headers := none
  headerEnvs := none
  command := some (.string program)
  allowedEnvs := none

/-- The YAML parser on these files. -/
def demoCrates : Crates :=
  { noCrates with
    yamlFromStr := fun body =>
      match ["/opt/full.sh", "/opt/quick.sh"].find? (demoBody · = body) with
      | some program => .ok (.singleton "backup" (demoRaw program))
      | none => .error "unused" }

/-- A file of the root directory with that one job. -/
def demoFile (name program : String) : FsNode :=
  .file (bytes name.toList) (.ok (demoBody program).utf8ByteSize) (.ok (demoBody program))

/-- The root directory with two files. -/
def demoTree (first second : String) : Option FsNode :=
  some (.dir (bytes "DSL".toList) none
    [demoFile first "/opt/full.sh", demoFile second "/opt/quick.sh"])

/-- What the root directory loads as. -/
def demoLoad (tree : Option FsNode) : Except CronManagerError (List LoadedJob) :=
  loadAllWithPolicy demoCrates (fun _ => none) .permissive (bytes "DSL".toList) tree

/-- The job of a file of the root directory. -/
def demoJob (group program path : String) : LoadedJob :=
  ⟨⟨⟨group, "backup"⟩, .manual, ⟨none, none⟩, .default, .exec [program] []⟩, path⟩

/-- Two files of two groups. -/
def demoApart : List LoadedJob :=
  [demoJob "nightly" "/opt/full.sh" "DSL/nightly.yaml",
    demoJob "weekly" "/opt/quick.sh" "DSL/weekly.yml"]

/-- A read error in `nightly.yaml` costs its own job, and nothing in front of it or behind it. -/
theorem load_isolated_broken :
    demoLoad (demoTree "nightly.yaml" "weekly.yml") = .ok demoApart ∧ ∃ pre post,
      demoLoad (demoTree "nightly.yaml" "weekly.yml") =
          .ok (pre ++ [demoJob "nightly" "/opt/full.sh" "DSL/nightly.yaml"] ++ post) ∧
        demoLoad (some (.dir (bytes "DSL".toList) none
          [.file (bytes "nightly.yaml".toList) (.ok 40) (.error "Input/output error"),
            demoFile "weekly.yml" "/opt/quick.sh"])) = .ok (pre ++ [] ++ post) := by
  have hpolicy : LoadPolicy.permissive.devFixtureAction ≠ .refuse := by decide
  obtain ⟨hload, hedit⟩ :=
    @load_isolated demoCrates (fun _ => none) .permissive (bytes "DSL".toList) hpolicy
  constructor
  · rw [demoLoad, hload _ (by decide)]
    decide +kernel
  · obtain ⟨pre, post, -, -, hbefore, hafter⟩ :=
      hedit (some (demoFile "nightly.yaml" "/opt/full.sh"))
        (some (.file (bytes "nightly.yaml".toList) (.ok 40) (.error "Input/output error")))
        (bytes "nightly.yaml".toList) (by rintro _ ⟨⟩; rfl) (by rintro _ ⟨⟩; rfl) [] _ _
        (.here (l := []) (r := [demoFile "weekly.yml" "/opt/quick.sh"])) (bytes "DSL".toList)
        (by decide) (by decide)
    have hnightly : jobsOf demoCrates (fun _ => none) .permissive (bytes "DSL".toList)
        (optFiles [] (some (demoFile "nightly.yaml" "/opt/full.sh"))) =
          [demoJob "nightly" "/opt/full.sh" "DSL/nightly.yaml"] := by
      decide +kernel
    rw [hnightly] at hbefore
    exact ⟨_, _, hbefore, hafter⟩

end CronManager
