import CronManager.Rust.BTreeMap
import CronManager.Scheduler.State
import Mathlib.Data.List.Sort
import Mathlib.Data.String.Basic

/-!
# The registry as the API reports it

`describe` lists the registered jobs by group, each with its runtime state and its next fire.  The
loop that sorts the rows into lists is `groupRows`.  A row is listed under a group exactly when it
is the row of a registered job of that group (`mem_describe`), whatever the order in which the
registry is iterated over.
-/

namespace CronManager

open Rust

/-- One row in `/jobs` or `/running`. -/
structure JobDescriptor where
  name : String
  schedule : String
  lastExecution : ℤ
  nextExecution : ℤ
  lastResult : String
  deriving DecidableEq, Repr

/-- `next_fire_ms`: the next fire as a time stamp, or 0. -/
def nextFireMs (c : Crates) (expr : String) (now : ℤ) : ℤ :=
  match c.cronFromStr expr with
  | .ok () => (c.cronUpcoming expr now).getD 0
  | .error _ => 0

/-- The rows sorted by name. -/
def sortRows (rows : List JobDescriptor) : List JobDescriptor :=
  rows.insertionSort fun a b => a.name ≤ b.name

/-! ### Rows by group -/

section GroupRows

variable {A : Type} (key : A → JobKey) (row : A → JobDescriptor)

/-- Sort rows into lists by group, and each list by name. -/
def groupRows (xs : List A) : BTreeMap String (List JobDescriptor) :=
  (BTreeMap.pushAll (fun x => (key x).group) row .empty xs).mapValues sortRows

/-- The rows of one group, in the order of the loop. -/
def rowsOf (xs : List A) (group : String) : List JobDescriptor :=
  (xs.filter fun x => (key x).group = group).map row

variable {key row} {xs : List A} {group : String}

theorem get_groupRows : (groupRows key row xs).get group =
    if rowsOf key row xs group = [] then none else some (sortRows (rowsOf key row xs group)) := by
  rw [groupRows, BTreeMap.get_mapValues, BTreeMap.get_pushAll, BTreeMap.get_empty]
  simp only [rowsOf, List.map_eq_nil_iff, Option.getD_none, List.nil_append]
  split_ifs <;> rfl

theorem mem_entries_groupRows {rows : List JobDescriptor} :
    (group, rows) ∈ (groupRows key row xs).entries ↔
      rowsOf key row xs group ≠ [] ∧ rows = sortRows (rowsOf key row xs group) := by
  rw [← BTreeMap.get_eq_some_iff, get_groupRows]
  split_ifs with hnil
  · exact iff_of_false (by rintro ⟨⟩) fun h => h.1 hnil
  · rw [Option.some.injEq, eq_comm]
    exact (and_iff_right hnil).symm

theorem mem_groupRows {d : JobDescriptor} :
    (∃ rows, (groupRows key row xs).get group = some rows ∧ d ∈ rows) ↔
      ∃ x ∈ xs, (key x).group = group ∧ row x = d := by
  have hrows : d ∈ rowsOf key row xs group ↔ ∃ x ∈ xs, (key x).group = group ∧ row x = d := by
    simp only [rowsOf, List.mem_map, List.mem_filter, decide_eq_true_eq, and_assoc]
  rw [← hrows, get_groupRows]
  split_ifs with hnil
  · rw [hnil]
    simp
  · simp only [Option.some.injEq, exists_eq_left', sortRows, List.mem_insertionSort]

end GroupRows

/-! ### `describe` -/

namespace Shared

/-- The row of a registered job. -/
def descriptor (c : Crates) (m : Shared) (key : JobKey) (job : RegisteredJob) : JobDescriptor where
  name := key.name
  schedule := job.spec.trigger.scheduleStr
  lastExecution := (m.states job.state).lastExecutionMs.getD 0
  nextExecution := match job.spec.trigger with
    | .cron expr => nextFireMs c expr m.now
    | .manual => 0
  lastResult := (m.states job.state).lastResult

/-- `describe`. -/
def describe (c : Crates) (m : Shared) (groupFilter : Option String) :
    BTreeMap String (List JobDescriptor) :=
  let rows := m.jobs.entries.filter fun e => groupFilter.all (e.1.group = ·)
  let out := BTreeMap.pushAll (fun e => e.1.group) (fun e => m.descriptor c e.1 e.2) .empty rows
  out.mapValues sortRows

/-- `d` is a row that `describe` lists for the job `key`. -/
def Describes (c : Crates) (m : Shared) (groupFilter : Option String) (key : JobKey)
    (d : JobDescriptor) : Prop :=
  (∃ rows, (m.describe c groupFilter).get key.group = some rows ∧ d ∈ rows) ∧ d.name = key.name

variable {c : Crates} {m : Shared} {groupFilter : Option String} {group : String} {key : JobKey}
  {d : JobDescriptor}

/-- **What `describe` lists.** -/
theorem mem_describe : (∃ rows, (m.describe c groupFilter).get group = some rows ∧ d ∈ rows) ↔
    ∃ key job, m.jobs.lookup key = some job ∧ groupFilter.all (key.group = ·) = true ∧
      key.group = group ∧ d = m.descriptor c key job := by
  show (∃ rows, (groupRows (fun e => e.1) (fun e => m.descriptor c e.1 e.2)
    (m.jobs.entries.filter fun e => groupFilter.all (e.1.group = ·))).get group = some rows ∧
      d ∈ rows) ↔ _
  rw [mem_groupRows]
  constructor
  · rintro ⟨⟨key, job⟩, he, hgroup, rfl⟩
    obtain ⟨he, hfilter⟩ := List.mem_filter.1 he
    exact ⟨key, job, AList.mem_lookup_iff.2 he, hfilter, hgroup, rfl⟩
  · rintro ⟨key, job, hjob, hfilter, hgroup, rfl⟩
    exact ⟨⟨key, job⟩, List.mem_filter.2 ⟨AList.mem_lookup_iff.1 hjob, hfilter⟩, hgroup, rfl⟩

theorem describes_iff : m.Describes c groupFilter key d ↔
    groupFilter.all (key.group = ·) = true ∧
      ∃ job, m.jobs.lookup key = some job ∧ d = m.descriptor c key job := by
  rw [Describes, mem_describe]
  constructor
  · rintro ⟨⟨key', job, hjob, hfilter, hgroup, rfl⟩, hname⟩
    obtain ⟨group, name⟩ := key
    obtain ⟨group', name'⟩ := key'
    obtain rfl : group' = group := hgroup
    obtain rfl : name' = name := hname
    exact ⟨hfilter, job, hjob, rfl⟩
  · rintro ⟨hfilter, job, hjob, rfl⟩
    exact ⟨⟨key, job, hjob, hfilter, rfl, rfl⟩, rfl⟩

end Shared

end CronManager
