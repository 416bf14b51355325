import CronManager.Scheduler.Api

/-!
# Stricter load policies

A `LoadPolicy` is only ever a reason to reject: the caps, the private-network check and the
dev-fixture gate turn a job, a file or a load into an error, and nothing in a job that is accepted
depends on them.  So a stricter policy loads a part of what a looser one loads, unchanged and in
the same order (`load_stricter`).  A file is all or nothing: one job that the stricter policy
rejects costs the whole file.
-/

namespace CronManager

open Rust

/-- Whatever the second policy rejects, the first one rejects too. -/
structure LoadPolicy.Stricter (p p' : LoadPolicy) : Prop where
  maxFileBytes : p.maxFileBytes ≤ p'.maxFileBytes
  maxRetryCount : p.maxRetryCount ≤ p'.maxRetryCount
  privateNetworks : p'.blockPrivateNetworks = true → p.blockPrivateNetworks = true
  devFixtures : p'.devFixtureAction = .refuse → p.devFixtureAction = .refuse

variable {c : Crates} {env : ProcEnv} {p p' : LoadPolicy} {source : String} {key : JobKey}
  {raw : RawJob} {spec : JobSpec} {root : OsStr} {f : DslFile}

/-! ### One job -/

theorem validateHttpUrl_stricter (h : p.Stricter p') {url : String}
    (hok : validateHttpUrl c p source key url = .ok ()) :
    validateHttpUrl c p' source key url = .ok () := by
  unfold validateHttpUrl at hok ⊢
  split at hok
  · cases hok
  split at hok
  · rename_i hscheme
    rw [if_pos hscheme]
    split at hok
    · cases hok
    cases hblock : p'.blockPrivateNetworks with
    | true =>
      rw [if_pos (h.privateNetworks hblock)] at hok
      exact hok
    | false => rfl
  · cases hok

theorem httpKind_stricter (h : p.Stricter p') {kind : JobKind}
    (hok : raw.httpKind c env p source key = .ok kind) :
    raw.httpKind c env p' source key = .ok kind := by
  unfold RawJob.httpKind at hok ⊢
  split at hok
  · cases hok
  · cases hok
  split at hok
  · rename_i hmethod
    rw [if_pos hmethod]
    split at hok
    · cases hok
    rename_i hurl
    rw [validateHttpUrl_stricter h hurl]
    exact hok
  · cases hok

theorem kindOf_stricter (h : p.Stricter p') {kind : JobKind}
    (hok : raw.kindOf c env p source key = .ok kind) :
    raw.kindOf c env p' source key = .ok kind := by
  unfold RawJob.kindOf at hok ⊢
  split_ifs at hok ⊢
  · exact httpKind_stricter h hok
  · exact hok

theorem retryPolicy_stricter (h : p.Stricter p') {retry : RetryPolicy}
    (hok : raw.retryPolicy p source key = .ok retry) :
    raw.retryPolicy p' source key = .ok retry := by
  unfold RawJob.retryPolicy at hok ⊢
  simp only at hok ⊢
  split_ifs at hok with hcap
  have hle := UInt32.le_trans (UInt32.not_lt.1 hcap) h.maxRetryCount
  rw [if_neg (UInt32.not_lt.2 hle)]
  exact hok

theorem intoSpec_stricter (h : p.Stricter p') (hok : raw.intoSpec c env p source key = .ok spec) :
    raw.intoSpec c env p' source key = .ok spec := by
  unfold RawJob.intoSpec at hok ⊢
  obtain ⟨trigger, htrigger, hok⟩ := bind_eq_ok hok
  obtain ⟨⟨⟩, hcron, hok⟩ := bind_eq_ok hok
  obtain ⟨retry, hretry, hok⟩ := bind_eq_ok hok
  obtain ⟨kind, hkind, hok⟩ := bind_eq_ok hok
  cases hok
  simp only [htrigger, bind, Except.bind, hcron, retryPolicy_stricter h hretry,
    kindOf_stricter h hkind]
  rfl

/-! ### One file -/

theorem intoJobs_stricter (h : p.Stricter p') {path group : String} {raw : BTreeMap String RawJob}
    {jobs : List LoadedJob} (hok : intoJobs c env p path group raw = .ok jobs) :
    intoJobs c env p' path group raw = .ok jobs := by
  refine mapM_eq_ok_of_forall₂ ((forall₂_of_mapM hok).imp fun nr job hjob => ?_)
  obtain ⟨spec, hspec, rfl⟩ := map_eq_ok hjob
  rw [intoSpec_stricter h hspec]
  rfl

/-- A file that loads under the stricter policy loads the same jobs under the looser one. -/
theorem loadFile_stricter (h : p.Stricter p') {jobs : List LoadedJob}
    (hok : loadFileWithPolicy c env p root f = .ok jobs) :
    loadFileWithPolicy c env p' root f = .ok jobs := by
  unfold loadFileWithPolicy at hok ⊢
  simp only at hok ⊢
  split at hok
  · cases hok
  rename_i size _
  split_ifs at hok with hcap
  rw [if_neg (Nat.not_lt.2 ((Nat.not_lt.1 hcap).trans h.maxFileBytes))]
  split at hok
  · cases hok
  split at hok
  · cases hok
  · exact intoJobs_stricter h hok

theorem jobs_stricter (h : p.Stricter p') :
    f.jobs c env p root = [] ∨ f.jobs c env p root = f.jobs c env p' root := by
  unfold DslFile.jobs
  cases hload : loadFileWithPolicy c env p root f with
  | error e => exact .inl rfl
  | ok jobs =>
    rw [loadFile_stricter h hload]
    exact .inr rfl

/-! ### Whole trees -/

theorem flatMap_stricter (h : p.Stricter p') (files : List DslFile) :
    (files.flatMap (·.jobs c env p root)).Sublist (files.flatMap (·.jobs c env p' root)) := by
  induction files with
  | nil => exact List.Sublist.refl _
  | cons f files ih =>
    rw [List.flatMap_cons, List.flatMap_cons]
    rcases @jobs_stricter c env p p' root f h with hnil | hsame
    · rw [hnil]
      exact ih.trans (List.sublist_append_right _ _)
    · rw [hsame]
      exact (List.Sublist.refl _).append ih

/-- **A stricter policy loads a part of what a looser one loads.**  Where a tree loads under the
stricter policy, it loads under the looser one too; the jobs are the same where a file loads under
both, and in the same order; and if the looser load keeps its names apart, a reload with it
registers every job that one with the stricter load registers, with the same spec. -/
theorem load_stricter (h : p.Stricter p') {tree : Option FsNode} {jobs : List LoadedJob}
    (hload : loadAllWithPolicy c env p root tree = .ok jobs) :
    ∃ jobs', loadAllWithPolicy c env p' root tree = .ok jobs' ∧ jobs.Sublist jobs' ∧
      (∀ f ∈ dslFiles tree, f.jobs c env p root = [] ∨
        f.jobs c env p root = f.jobs c env p' root) ∧
      (NamesApart c env p' root (dslFiles tree) → ∀ (m m' : Shared) k spec,
        (m.reloadFrom jobs).1.specAt k = some spec →
          (m'.reloadFrom jobs').1.specAt k = some spec) := by
  obtain ⟨hread, hnone⟩ := loadAll_ok_iff.1 ⟨jobs, hload⟩
  obtain ⟨jobs', hload'⟩ := (@loadAll_ok_iff c env p' root tree).2
    ⟨hread, fun f hf hrefused => hnone f hf ⟨h.devFixtures hrefused.1, hrefused.2⟩⟩
  have hsub : jobs.Sublist jobs' := by
    rw [loadAll_eq hload, loadAll_eq hload']
    exact flatMap_stricter h _
  refine ⟨jobs', hload', hsub, fun f _ => jobs_stricter h, ?_⟩
  intro hapart m m' k spec hspec
  have hnodup' : (jobs'.map (·.spec.key)).Nodup := by
    rw [loadAll_eq hload']
    exact nodup_keys_iff.2 hapart
  have hnodup : (jobs.map (·.spec.key)).Nodup := hnodup'.sublist (hsub.map _)
  obtain ⟨hmem, hkey⟩ := (specAt_reloadFrom_of_nodup hnodup).1 hspec
  exact (specAt_reloadFrom_of_nodup hnodup').2 ⟨(hsub.map _).subset hmem, hkey⟩

/-- A cap on the size of files that lets `/opt/full.sh` pass, and not `/opt/quick.sh`. -/
def tightPolicy : LoadPolicy :=
  { LoadPolicy.permissive with maxFileBytes := (demoBody "/opt/full.sh").utf8ByteSize }

/-- The first of the two files loads under both policies. -/
theorem load_stricter_cap :
    loadAllWithPolicy demoCrates (fun _ => none) tightPolicy (bytes "DSL".toList)
        (demoTree "nightly.yaml" "weekly.yml") =
          .ok [demoJob "nightly" "/opt/full.sh" "DSL/nightly.yaml"] ∧
      ∃ jobs', demoLoad (demoTree "nightly.yaml" "weekly.yml") = .ok jobs' ∧
        [demoJob "nightly" "/opt/full.sh" "DSL/nightly.yaml"].Sublist jobs' := by
  have hstricter : tightPolicy.Stricter .permissive :=
    ⟨by decide, by decide, by decide, by decide⟩
  have hload : loadAllWithPolicy demoCrates (fun _ => none) tightPolicy (bytes "DSL".toList)
      (demoTree "nightly.yaml" "weekly.yml") =
        .ok [demoJob "nightly" "/opt/full.sh" "DSL/nightly.yaml"] := by
    decide +kernel
  obtain ⟨jobs', hload', hsub, -⟩ := load_stricter hstricter hload
  exact ⟨hload, jobs', hload', hsub⟩

end CronManager
