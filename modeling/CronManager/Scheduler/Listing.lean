import CronManager.Scheduler.Describe
import CronManager.Scheduler.Stoppable

/-!
# The listings by group

`describe` and `describe_running` sort the rows of a hash map into lists by group and then sort
each list by name.  The second one takes its rows from `running` and looks the last results up in
`jobs` later, when anything may have been registered, removed or finished.

* `groupRows_listsExactly` : the loop that both share lists every key once, under its group;
* `groupRows_perm` : in whatever order it goes through the rows;
* `groupRows_filter` : for one group it gives the part of the whole listing under that group;
* `describe_listsExactly` : what follows for the two calls.
-/

namespace CronManager

open Rust

/-! ### Listings -/

/-- The keys that a listing shows, row by row. -/
def listedKeys (out : BTreeMap String (List JobDescriptor)) : List JobKey :=
  out.entries.flatMap fun e => e.2.map fun d => ⟨e.1, d.name⟩

/-- A listing shows exactly the given keys, each of them once and under its group; no group is
empty, and the names of each group strictly increase. -/
structure ListsExactly (out : BTreeMap String (List JobDescriptor)) (keys : JobKey → Prop) :
    Prop where
  once : (listedKeys out).Nodup
  listed : ∀ key, key ∈ listedKeys out ↔ keys key
  nonempty : ∀ e ∈ out.entries, e.2 ≠ []
  sorted : ∀ e ∈ out.entries, e.2.Pairwise fun d d' => d.name < d'.name

/-! ### Sorting rows with distinct names -/

theorem perm_sortRows (rows : List JobDescriptor) : (sortRows rows).Perm rows :=
  List.perm_insertionSort _ rows

theorem pairwise_sortRows {rows : List JobDescriptor} (h : (rows.map (·.name)).Nodup) :
    (sortRows rows).Pairwise fun d d' => d.name < d'.name := by
  have htotal : Std.Total fun d d' : JobDescriptor => d.name ≤ d'.name :=
    ⟨fun d d' => le_total d.name d'.name⟩
  have htrans : IsTrans JobDescriptor fun d d' => d.name ≤ d'.name :=
    ⟨fun _ _ _ => le_trans⟩
  have hle := List.pairwise_insertionSort (fun d d' : JobDescriptor => d.name ≤ d'.name) rows
  have hne := List.pairwise_map.1 (((perm_sortRows rows).map (·.name)).nodup_iff.2 h)
  exact (hle.and hne).imp fun hd => lt_of_le_of_ne hd.1 hd.2

theorem sortRows_perm {rows rows' : List JobDescriptor} (h : (rows.map (·.name)).Nodup)
    (hperm : rows'.Perm rows) : sortRows rows' = sortRows rows := by
  have h' : (rows'.map (·.name)).Nodup := (hperm.map _).nodup_iff.2 h
  refine List.Perm.eq_of_pairwise (fun d d' _ _ hlt hgt => absurd hlt hgt.asymm)
    (pairwise_sortRows h') (pairwise_sortRows h) ?_
  exact ((perm_sortRows rows').trans hperm).trans (perm_sortRows rows).symm

/-! ### The shared loop -/

variable {A : Type} {key : A → JobKey} {row : A → JobDescriptor} {xs ys : List A} {group : String}

section DistinctKeys

variable (hname : ∀ x, (row x).name = (key x).name) (hnodup : (xs.map key).Nodup)
include hname hnodup

theorem nodup_names_rowsOf : ((rowsOf key row xs group).map (·.name)).Nodup := by
  rw [rowsOf, List.map_map]
  refine List.pairwise_map.2 ?_
  refine (List.pairwise_map.1 hnodup).filter _ |>.imp_of_mem fun {x y} hx hy hne heq => hne ?_
  have hxgroup := of_decide_eq_true (List.mem_filter.1 hx).2
  have hygroup := of_decide_eq_true (List.mem_filter.1 hy).2
  have hxy : (key x).name = (key y).name := (hname x).symm.trans (heq.trans (hname y))
  exact JobKey.ext (hxgroup.trans hygroup.symm) hxy

/-- **What the loop lists**: every key once, under its group. -/
theorem groupRows_listsExactly :
    ListsExactly (groupRows key row xs) fun k => ∃ x ∈ xs, key x = k where
  nonempty := by
    rintro ⟨group, rows⟩ he
    obtain ⟨hne, rfl⟩ := mem_entries_groupRows.1 he
    intro hnil
    have hperm := (perm_sortRows (rowsOf key row xs group)).symm
    exact hne (List.perm_nil.1 (hperm.trans (List.Perm.of_eq hnil)))
  sorted := by
    rintro ⟨group, rows⟩ he
    obtain ⟨-, rfl⟩ := mem_entries_groupRows.1 he
    exact pairwise_sortRows (nodup_names_rowsOf hname hnodup)
  once := by
    refine List.nodup_flatMap.2 ⟨?_, (groupRows key row xs).sorted.imp ?_⟩
    · rintro ⟨group, rows⟩ he
      obtain ⟨-, rfl⟩ := mem_entries_groupRows.1 he
      refine List.pairwise_map.2 ((pairwise_sortRows (nodup_names_rowsOf hname hnodup)).imp ?_)
      intro d d' hlt heq
      exact hlt.ne (JobKey.mk.inj heq).2
    · -- rows of different groups are for different keys
      rintro e e' hlt k hk hk'
      obtain ⟨d, -, rfl⟩ := List.mem_map.1 hk
      obtain ⟨d', -, heq⟩ := List.mem_map.1 hk'
      exact hlt.ne (JobKey.mk.inj heq).1.symm
  listed := by
    intro k
    rw [listedKeys, List.mem_flatMap]
    constructor
    · rintro ⟨⟨group, rows⟩, he, hk⟩
      obtain ⟨-, rfl⟩ := mem_entries_groupRows.1 he
      obtain ⟨d, hd, rfl⟩ := List.mem_map.1 hk
      obtain ⟨x, hx, rfl⟩ := List.mem_map.1 ((perm_sortRows _).mem_iff.1 hd)
      obtain ⟨hx, hgroup⟩ := List.mem_filter.1 hx
      exact ⟨x, hx, JobKey.ext (of_decide_eq_true hgroup) (hname x).symm⟩
    · rintro ⟨x, hx, rfl⟩
      have hmem : row x ∈ rowsOf key row xs (key x).group :=
        List.mem_map_of_mem (List.mem_filter.2 ⟨hx, decide_eq_true rfl⟩)
      refine ⟨((key x).group, _), mem_entries_groupRows.2 ⟨List.ne_nil_of_mem hmem, rfl⟩, ?_⟩
      refine List.mem_map.2 ⟨row x, (perm_sortRows _).mem_iff.2 hmem, ?_⟩
      exact JobKey.ext rfl (hname x)

/-- **The order of the loop does not matter.** -/
theorem groupRows_perm (hperm : ys.Perm xs) : groupRows key row ys = groupRows key row xs := by
  refine BTreeMap.ext_get fun group => ?_
  have hrows : (rowsOf key row ys group).Perm (rowsOf key row xs group) :=
    (hperm.filter _).map row
  have hnil : rowsOf key row ys group = [] ↔ rowsOf key row xs group = [] :=
    ⟨fun h => (h ▸ hrows).nil_eq.symm, fun h => (h ▸ hrows).eq_nil⟩
  rw [get_groupRows, get_groupRows, if_congr hnil rfl rfl,
    sortRows_perm (nodup_names_rowsOf hname hnodup) hrows]

end DistinctKeys

/-- **The listing of one group** is the part of the whole listing under that group. -/
theorem groupRows_filter :
    groupRows key row (xs.filter fun x => (key x).group = group) =
      (groupRows key row xs).retain fun g => g = group := by
  refine BTreeMap.ext_get fun g => ?_
  rw [BTreeMap.get_retain, get_groupRows, get_groupRows]
  have hrows : rowsOf key row (xs.filter fun x => (key x).group = group) g =
      if g = group then rowsOf key row xs g else [] := by
    rw [rowsOf, List.filter_filter]
    split_ifs with hg
    · subst hg
      simp only [Bool.and_self, rowsOf]
    · rw [List.map_eq_nil_iff, List.filter_eq_nil_iff]
      intro x _ hx
      simp only [Bool.and_eq_true, decide_eq_true_eq] at hx
      exact hg (hx.1.symm.trans hx.2)
  rw [hrows]
  by_cases hg : g = group
  · simp only [if_pos hg, decide_eq_true hg, if_true]
  · simp [hg]

/-! ### The two calls -/

namespace Shared

/-- The row of a running instance, with what `jobs` holds at the second lock. -/
def runningDescriptor (later : Shared) (row : JobKey × ℤ × String) : JobDescriptor where
  name := row.1.name
  schedule := row.2.2
  lastExecution := row.2.1
  nextExecution := 0
  lastResult :=
    ((later.jobs.lookup row.1).map fun job => (later.states job.state).lastResult).getD ""

/-- `describe_running`: the snapshot of `running` is taken from `m`, and `jobs` is locked when the
shared state is `later`. -/
def describeRunning (m later : Shared) (groupFilter : Option String) :
    BTreeMap String (List JobDescriptor) :=
  let out := BTreeMap.pushAll (fun row => row.1.group) later.runningDescriptor .empty
    (m.snapshotRunning groupFilter)
  out.mapValues sortRows

variable {c : Crates} {m later : Shared} {group : String} {groupFilter : Option String}
  {jobs : HashMap JobKey RegisteredJob} {running : HashMap JobKey RunningInstance}

/-! ### `describe` -/

theorem describe_none : m.describe c none =
    groupRows (fun e => e.1) (fun e => m.descriptor c e.1 e.2) m.jobs.entries := by
  show groupRows _ _ (m.jobs.entries.filter fun _ => true) = _
  rw [List.filter_eq_self.2 fun _ _ => rfl]

theorem listsExactly_describe : ListsExactly (m.describe c none) (· ∈ m.jobs) := by
  have hmem : (· ∈ m.jobs) = fun key => ∃ e ∈ m.jobs.entries, e.1 = key :=
    funext fun key => propext List.mem_map
  rw [describe_none, hmem]
  exact groupRows_listsExactly (fun _ => rfl) m.jobs.keys_nodup

theorem describe_some :
    m.describe c (some group) = (m.describe c none).retain fun g => g = group := by
  rw [describe_none, ← groupRows_filter]
  rfl

theorem describe_perm (hjobs : jobs.entries.Perm m.jobs.entries) :
    { m with jobs := jobs }.describe c groupFilter = m.describe c groupFilter := by
  refine groupRows_perm (fun _ => rfl) ?_ (hjobs.filter _)
  exact m.jobs.keys_nodup.sublist (List.filter_sublist.map _)

/-! ### `describe_running` -/

theorem snapshotRunning_none : m.snapshotRunning none =
    m.running.entries.map fun e => (e.1, e.2.startedAtMs, e.2.schedule) := by
  rw [snapshotRunning]
  exact congrArg _ (List.filter_eq_self.2 fun e _ => rfl)

theorem snapshotRunning_some : m.snapshotRunning (some group) =
    (m.snapshotRunning none).filter fun row => row.1.group = group := by
  rw [snapshotRunning_none, List.filter_map]
  rfl

theorem nodup_snapshotRunning :
    ((m.snapshotRunning groupFilter).map fun row => row.1).Nodup := by
  rw [snapshotRunning, List.map_map]
  exact m.running.keys_nodup.sublist (List.filter_sublist.map _)

theorem listsExactly_describeRunning :
    ListsExactly (m.describeRunning later none) (· ∈ m.running) := by
  have hmem : (· ∈ m.running) = fun key => ∃ row ∈ m.snapshotRunning none, row.1 = key := by
    funext key
    rw [← List.mem_map, snapshotRunning_none, List.map_map]
    rfl
  rw [hmem]
  exact groupRows_listsExactly (fun _ => rfl) nodup_snapshotRunning

theorem describeRunning_some : m.describeRunning later (some group) =
    (m.describeRunning later none).retain fun g => g = group := by
  show groupRows _ _ (m.snapshotRunning (some group)) = _
  rw [snapshotRunning_some]
  exact groupRows_filter

theorem describeRunning_perm (hrunning : running.entries.Perm m.running.entries) :
    { m with running := running }.describeRunning later groupFilter =
      m.describeRunning later groupFilter :=
  groupRows_perm (fun _ => rfl) nodup_snapshotRunning ((hrunning.filter _).map _)

/-- **The two listings.**  Whatever is registered and running, `describe` lists every registered
key once, under its group, and `describe_running` does so with what was running at its snapshot,
whatever happens before it locks `jobs`.  The listing of one group is the part of the whole listing
under that group, and the order in which the hash maps are iterated over does not matter. -/
theorem describe_listsExactly (c : Crates) (m later : Shared) (group : String)
    (groupFilter : Option String) (hjobs : jobs.entries.Perm m.jobs.entries)
    (hrunning : running.entries.Perm m.running.entries) :
    (ListsExactly (m.describe c none) (· ∈ m.jobs) ∧
        m.describe c (some group) = (m.describe c none).retain (fun g => g = group) ∧
        { m with jobs := jobs }.describe c groupFilter = m.describe c groupFilter) ∧
      ListsExactly (m.describeRunning later none) (· ∈ m.running) ∧
        m.describeRunning later (some group) =
          (m.describeRunning later none).retain (fun g => g = group) ∧
        { m with running := running }.describeRunning later groupFilter =
          m.describeRunning later groupFilter :=
  ⟨⟨listsExactly_describe, describe_some, describe_perm hjobs⟩,
    listsExactly_describeRunning, describeRunning_some, describeRunning_perm hrunning⟩

/-- The registration of a job of the group `nightly`. -/
def demoJob (name : String) : RegisteredJob :=
  ⟨{ demoSpec with key := ⟨"nightly", name⟩ }, 0, none⟩

/-- Two registered jobs, in the order in which they are iterated over. -/
def demoJobs (first second : String) : HashMap JobKey RegisteredJob :=
  ((∅ : HashMap JobKey RegisteredJob).insert ⟨"nightly", second⟩ (demoJob second)).insert
    ⟨"nightly", first⟩ (demoJob first)

/-- Two registered jobs, of which one runs. -/
def demoListed : Shared :=
  { Shared.init with
    jobs := demoJobs "sync" "backup"
    running := (∅ : HashMap JobKey RunningInstance).insert ⟨"nightly", "sync"⟩ ⟨0, "", 1⟩ }

/-- The other order of the registry gives the same listing, and what runs is listed although
nothing is registered any more. -/
theorem describe_listsExactly_reordered :
    listedKeys (demoListed.describe noCrates none) =
        [⟨"nightly", "backup"⟩, ⟨"nightly", "sync"⟩] ∧
      { demoListed with jobs := demoJobs "backup" "sync" }.describe noCrates none =
        demoListed.describe noCrates none ∧
      ListsExactly (demoListed.describeRunning Shared.init none) (· ∈ demoListed.running) := by
  have hjobs : (demoJobs "backup" "sync").entries.Perm demoListed.jobs.entries :=
    List.Perm.swap _ _ []
  obtain ⟨⟨-, -, hsame⟩, hrunning, -⟩ := describe_listsExactly noCrates demoListed Shared.init
    "nightly" none hjobs (List.Perm.refl _)
  exact ⟨by decide, hsame, hrunning⟩

end Shared

end CronManager
