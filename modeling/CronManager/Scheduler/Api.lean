import CronManager.Dsl.Walk
import CronManager.Scheduler.Ownership
import Mathlib.Data.List.Dedup

/-!
# The calls of the scheduler, each on its own

What the API calls of `Scheduler` do to the shared maps when no other task takes a step in
between, as functions of the memory: `register`, `register_all`, `reload_from`, `trigger_now`,
`stop` and `job_count`.

* `call_refines`: running the steps of a call alone ends in exactly what `perform` computes;
* `specAt_registerAll` and `jobCount_reloadFrom`: the registry after a batch holds the last job
  of each key, and counts the keys;
* `reload_registers_all_iff`: a reload registers all the jobs of a load exactly when no two files
  of one group have a job of the same name.
-/

namespace CronManager

open Rust

namespace Shared

/-- `register`. -/
def register (m : Shared) (spec : JobSpec) : Shared :=
  let (m, job) := (m.removeJob spec.key).prepareJob spec
  m.insertJob job

/-- `register_all`. -/
def registerAll (m : Shared) (specs : List JobSpec) : Shared := specs.foldl register m

/-- `notify_waiters` on every running instance. -/
def signalRunning (m : Shared) : Shared := m.countSignals (m.running.values.map (·.cancel))

/-- `reload_from`, with the count it returns. -/
def reloadFrom (m : Shared) (loaded : List LoadedJob) : Shared × ℕ :=
  (m.signalRunning.clearJobs.registerAll (loaded.map (·.spec)), loaded.length)

/-- `trigger_now` once the job has been found: the instance begins and its dispatch is spawned. -/
def startRun (m : Shared) (key : JobKey) (job : RegisteredJob) :
    Shared × Except CronManagerError Unit :=
  match m.beginRunning key job.spec.trigger.scheduleStr with
  | .ok (m', _) => (m'.alloc, .ok ())
  | .error e => (m, .error e)

/-- `trigger_now`. -/
def triggerNow (m : Shared) (key : JobKey) : Shared × Except CronManagerError Unit :=
  match m.jobs.lookup key with
  | none => (m, .error (.jobNotFound key.group key.name))
  | some job => m.startRun key job

/-- `stop` once the key is known to be registered. -/
def signal (m : Shared) (key : JobKey) : Shared × Bool :=
  match m.running.lookup key with
  | none => (m, false)
  | some inst => (m.countSignals [inst.cancel], true)

/-- `stop`. -/
def stop (m : Shared) (key : JobKey) : Shared × Except CronManagerError Bool :=
  match m.jobs.lookup key with
  | none => (m, .error (.jobNotFound key.group key.name))
  | some _ => ((m.signal key).1, .ok (m.signal key).2)

/-- `job_count`. -/
def jobCount (m : Shared) : ℕ := m.jobs.len

/-- What a call does. -/
def perform (m : Shared) : Call → Shared × Reply
  | .register spec => (m.register spec, .registered)
  | .registerAll specs => (m.registerAll specs, .registered)
  | .reloadFrom loaded => ((m.reloadFrom loaded).1, .reloaded (m.reloadFrom loaded).2)
  | .triggerNow key _ => ((m.triggerNow key).1, .triggered (m.triggerNow key).2)
  | .stop key => ((m.stop key).1, .stopped (m.stop key).2)

end Shared

/-! ### A call run alone -/

/-- What the rest of a call does. -/
def Pc.result (m : Shared) : Pc → Option (Shared × Reply)
  | .registering todo reply => some (m.registerAll todo, reply)
  | .spawning spec todo reply =>
    some (((m.prepareJob spec).1.insertJob (m.prepareJob spec).2).registerAll todo, reply)
  | .inserting job todo reply => some ((m.insertJob job).registerAll todo, reply)
  | .reloadSignal loaded => some ((m.reloadFrom loaded).1, .reloaded loaded.length)
  | .reloadClear loaded =>
    some (m.clearJobs.registerAll (loaded.map (·.spec)), .reloaded loaded.length)
  | .triggerLookup key _ => some ((m.triggerNow key).1, .triggered (m.triggerNow key).2)
  | .triggerBegin key _ job => some ((m.startRun key job).1, .triggered (m.startRun key job).2)
  | .fetch run =>
    if run.origin = .manual ∧ (m.running.lookup run.key).isSome then
      some (m.alloc, .triggered (.ok ()))
    else none
  | .spawnRun _ _ => some (m.alloc, .triggered (.ok ()))
  | .stopCheck key => some ((m.stop key).1, .stopped (m.stop key).2)
  | .stopSignal key => some ((m.signal key).1, .stopped (.ok (m.signal key).2))
  | .returned reply => some (m, reply)
  | _ => none

variable {c : Crates} {b : ExecutorBundle} {m : Shared}

theorem result_entry (call : Call) : call.entry.result m = some (m.perform call) := by
  cases call <;> rfl

/-- One step of a call leaves the result of the rest as it is. -/
theorem result_step {pc : Pc} {w : DispatchWorld} {e : Effect Shared Pc} {r : Shared × Reply}
    (hr : pc.result m = some r) (h : pc.step c b m w = some e) :
    e.next.result e.mem = some r := by
  cases pc with
  | registering todo reply => cases todo <;> cases h <;> exact hr
  | spawning spec todo reply =>
    cases h
    exact hr
  | inserting job todo reply =>
    cases h
    exact hr
  | reloadSignal loaded =>
    cases h
    exact hr
  | reloadClear loaded =>
    cases h
    exact hr
  | triggerLookup key extras =>
    simp only [Pc.result, Shared.triggerNow] at hr
    simp only [Pc.step] at h
    split at h <;> rename_i hjob <;> rw [hjob] at hr <;> cases h <;> exact hr
  | triggerBegin key extras job =>
    simp only [Pc.step, beginStep, Option.some.injEq] at h
    simp only [Pc.result, Shared.startRun] at hr
    subst h
    cases hbegin : m.beginRunning key job.spec.trigger.scheduleStr with
    | error e =>
      rw [hbegin] at hr
      exact hr
    | ok mn =>
      obtain ⟨m', n⟩ := mn
      rw [hbegin] at hr
      obtain ⟨-, -, rfl⟩ := Shared.beginRunning_eq_ok.1 hbegin
      simpa [move, Pc.result, AList.lookup_insert] using hr
  | fetch run =>
    simp only [Pc.result] at hr
    simp only [Pc.step, fetchStep, Option.some.injEq] at h
    split at hr
    · rename_i hrun
      obtain ⟨inst, hinst⟩ := Option.isSome_iff_exists.1 hrun.2
      rw [hinst, hrun.1] at h
      subst h
      exact hr
    · cases hr
  | spawnRun run cancel =>
    cases h
    exact hr
  | stopCheck key =>
    simp only [Pc.result, Shared.stop] at hr
    simp only [Pc.step] at h
    split at h <;> rename_i hjob <;> rw [hjob] at hr <;> cases h <;> exact hr
  | stopSignal key =>
    simp only [Pc.result, Shared.signal] at hr
    simp only [Pc.step] at h
    split at h <;> rename_i hinst <;> rw [hinst] at hr <;> cases h <;> exact hr
  | returned reply => cases h
  | _ => cases hr

theorem result_reaches {pc pc' : Pc} {m' : Shared} {r : Shared × Reply}
    (h : (Alone (Pc.step c b)).Reaches (m, pc) (m', pc')) (hr : pc.result m = some r) :
    pc'.result m' = some r := by
  refine h.invariant (I := fun mp => mp.2.result mp.1 = some r) hr fun mp w mp' hmp hstep => ?_
  obtain ⟨e, he, rfl⟩ := Option.map_eq_some_iff.1 hstep
  exact result_step hmp he

theorem reaches_step {pc pc' : Pc} {m' : Shared} {e : Effect Shared Pc} (w : DispatchWorld)
    (he : pc.step c b m w = some e)
    (h : (Alone (Pc.step c b)).Reaches (e.mem, e.next) (m', pc')) :
    (Alone (Pc.step c b)).Reaches (m, pc) (m', pc') := by
  refine Machine.Reaches.trans ?_ h
  exact (Machine.Reaches.refl (m, pc)).tail (a := w) (Option.map_eq_some_iff.2 ⟨e, he, rfl⟩)

theorem registering_returns (w : DispatchWorld) (todo : List JobSpec) (reply : Reply) :
    ∀ m : Shared, (Alone (Pc.step c b)).Reaches (m, .registering todo reply)
      (m.registerAll todo, .returned reply) := by
  induction todo with
  | nil => exact fun m => reaches_step w rfl (.refl _)
  | cons spec todo ih =>
    intro m
    -- `jobs.remove`, the spawn and `jobs.insert` of one `register`
    refine reaches_step w rfl (reaches_step w rfl (reaches_step w rfl ?_))
    exact ih (m.register spec)

theorem startRun_returns (w : DispatchWorld) (key : JobKey) (extras : DispatchExtras)
    (job : RegisteredJob) :
    (Alone (Pc.step c b)).Reaches (m, .triggerBegin key extras job)
      ((m.startRun key job).1, .returned (.triggered (m.startRun key job).2)) := by
  refine reaches_step w rfl ?_
  simp only [Shared.startRun, beginStep]
  cases hbegin : m.beginRunning key job.spec.trigger.scheduleStr with
  | error e => exact .refl _
  | ok mn =>
    obtain ⟨m', n⟩ := mn
    obtain ⟨-, -, rfl⟩ := Shared.beginRunning_eq_ok.1 hbegin
    refine reaches_step w rfl ?_
    simp only [fetchStep, move, AList.lookup_insert]
    exact reaches_step w rfl (.refl _)

theorem triggerNow_returns (w : DispatchWorld) (key : JobKey) (extras : DispatchExtras) :
    (Alone (Pc.step c b)).Reaches (m, .triggerLookup key extras)
      ((m.triggerNow key).1, .returned (.triggered (m.triggerNow key).2)) := by
  simp only [Shared.triggerNow]
  cases hjob : m.jobs.lookup key with
  | none => exact reaches_step w (by simp only [Pc.step, hjob]; rfl) (.refl _)
  | some job =>
    exact reaches_step w (by simp only [Pc.step, hjob]; rfl) (startRun_returns w key extras job)

theorem signal_returns (w : DispatchWorld) (key : JobKey) :
    (Alone (Pc.step c b)).Reaches (m, .stopSignal key)
      ((m.signal key).1, .returned (.stopped (.ok (m.signal key).2))) := by
  simp only [Shared.signal]
  cases hinst : m.running.lookup key with
  | none => exact reaches_step w (by simp only [Pc.step, hinst]; rfl) (.refl _)
  | some inst => exact reaches_step w (by simp only [Pc.step, hinst]; rfl) (.refl _)

theorem stop_returns (w : DispatchWorld) (key : JobKey) :
    (Alone (Pc.step c b)).Reaches (m, .stopCheck key)
      ((m.stop key).1, .returned (.stopped (m.stop key).2)) := by
  simp only [Shared.stop]
  cases hjob : m.jobs.lookup key with
  | none => exact reaches_step w (by simp only [Pc.step, hjob]; rfl) (.refl _)
  | some job =>
    exact reaches_step w (by simp only [Pc.step, hjob]; rfl) (signal_returns w key)

/-- **A call run alone does what `perform` says**, and nothing else. -/
theorem call_refines (w : DispatchWorld) {call : Call} {m' : Shared} {reply : Reply} :
    (Alone (Pc.step c b)).Reaches (m, call.entry) (m', .returned reply) ↔
      m.perform call = (m', reply) := by
  constructor
  · intro h
    exact Option.some.inj (result_reaches h (result_entry call)).symm
  · intro h
    rw [← (Prod.mk.inj h).1, ← (Prod.mk.inj h).2]
    cases call with
    | register spec => exact registering_returns w [spec] _ m
    | registerAll specs => exact registering_returns w specs _ m
    | reloadFrom loaded =>
      refine reaches_step w rfl (reaches_step w rfl ?_)
      exact registering_returns w _ _ _
    | triggerNow key extras => exact triggerNow_returns w key extras
    | stop key => exact stop_returns w key

/-! ### The registry after a batch -/

theorem lookup_register {spec : JobSpec} {k : JobKey} :
    (m.register spec).jobs.lookup k =
      if k = spec.key then some ((m.removeJob spec.key).prepareJob spec).2
      else m.jobs.lookup k := by
  have hjobs : (m.register spec).jobs =
      (m.jobs.erase spec.key).insert spec.key ((m.removeJob spec.key).prepareJob spec).2 := rfl
  rw [hjobs, HashMap.lookup_insert_eq]
  split_ifs with hk
  · rfl
  · rw [HashMap.lookup_erase_eq, if_neg hk]

/-- The spec under a key. -/
def Shared.specAt (m : Shared) (k : JobKey) : Option JobSpec := (m.jobs.lookup k).map (·.spec)

theorem specAt_register {spec : JobSpec} {k : JobKey} :
    (m.register spec).specAt k = if k = spec.key then some spec else m.specAt k := by
  rw [Shared.specAt, lookup_register]
  split_ifs <;> rfl

/-- The last spec of a list with this key. -/
def lastAt (specs : List JobSpec) (k : JobKey) : Option JobSpec :=
  (specs.filter (·.key = k)).getLast?

theorem lastAt_cons {spec : JobSpec} {specs : List JobSpec} {k : JobKey} :
    lastAt (spec :: specs) k = (lastAt specs k).or (if spec.key = k then some spec else none) := by
  simp only [lastAt]
  by_cases hk : spec.key = k
  · rw [List.filter_cons_of_pos (by simpa using hk), if_pos hk]
    cases specs.filter (·.key = k) <;> simp [List.getLast?_cons]
  · rw [List.filter_cons_of_neg (by simpa using hk), if_neg hk, Option.or_none]

/-- The registry after a batch: each key holds the last job of the batch with that key. -/
theorem specAt_registerAll {specs : List JobSpec} {k : JobKey} :
    (m.registerAll specs).specAt k = (lastAt specs k).or (m.specAt k) := by
  induction specs generalizing m with
  | nil => rfl
  | cons spec specs ih =>
    rw [Shared.registerAll, List.foldl_cons, ← Shared.registerAll, ih, specAt_register, lastAt_cons]
    by_cases hk : spec.key = k
    · rw [if_pos hk.symm, if_pos hk]
      cases lastAt specs k <;> rfl
    · rw [if_neg (Ne.symm hk), if_neg hk, Option.or_none]

theorem specAt_reloadFrom {loaded : List LoadedJob} {k : JobKey} :
    (m.reloadFrom loaded).1.specAt k = lastAt (loaded.map (·.spec)) k := by
  rw [Shared.reloadFrom, specAt_registerAll]
  exact Option.or_none

theorem mem_jobs_iff {k : JobKey} : k ∈ m.jobs ↔ (m.specAt k).isSome := by
  rw [Shared.specAt, Option.isSome_map, AList.lookup_isSome]

theorem jobCount_reloadFrom {loaded : List LoadedJob} :
    (m.reloadFrom loaded).1.jobCount = (loaded.map (·.spec.key)).dedup.length := by
  have hmem : ∀ k, k ∈ (m.reloadFrom loaded).1.jobs.keys ↔
      k ∈ (loaded.map (·.spec.key)).dedup := by
    intro k
    rw [← AList.mem_keys, mem_jobs_iff, specAt_reloadFrom, lastAt, List.getLast?_isSome,
      List.mem_dedup]
    simp
  have hperm := (List.perm_ext_iff_of_nodup (m.reloadFrom loaded).1.jobs.keys_nodup
    (List.nodup_dedup _)).2 hmem
  rw [← hperm.length_eq, Shared.jobCount, HashMap.len, AList.keys, List.keys, List.length_map]

theorem specAt_reloadFrom_of_nodup {loaded : List LoadedJob} {k : JobKey} {spec : JobSpec}
    (hnodup : (loaded.map (·.spec.key)).Nodup) :
    (m.reloadFrom loaded).1.specAt k = some spec ↔ spec ∈ loaded.map (·.spec) ∧ spec.key = k := by
  rw [← Function.comp_def JobSpec.key, ← List.map_map] at hnodup
  have hmem : ∀ s, s ∈ (loaded.map (·.spec)).filter (·.key = k) ↔
      s ∈ loaded.map (·.spec) ∧ s.key = k := by simp [List.mem_filter]
  rw [specAt_reloadFrom, lastAt, ← hmem]
  constructor
  · exact List.mem_of_getLast?
  · intro hspec
    -- the last job with this key is the only one
    obtain ⟨last, hlast⟩ := Option.isSome_iff_exists.1
      (List.getLast?_isSome.2 (List.ne_nil_of_mem hspec))
    have hmem' := (hmem last).1 (List.mem_of_getLast? hlast)
    have hkey := ((hmem spec).1 hspec)
    rw [hlast, List.inj_on_of_nodup_map hnodup hmem'.1 hkey.1 (hmem'.2.trans hkey.2.symm)]

/-- **What a reload registers.**  The jobs of a load have distinct keys, the registry holds
exactly their specs after a reload, and the count that the reload returns is the number of
registered jobs, if and only if no two files of one group have a job of the same name. -/
theorem reload_registers_all_iff {env : ProcEnv} {policy : LoadPolicy} {root : OsStr}
    {tree : Option FsNode} {jobs : List LoadedJob}
    (h : loadAllWithPolicy c env policy root tree = .ok jobs) :
    ((jobs.map (·.spec.key)).Nodup ∧
        (∀ k spec, (m.reloadFrom jobs).1.specAt k = some spec ↔
          spec ∈ jobs.map (·.spec) ∧ spec.key = k) ∧
        (m.reloadFrom jobs).2 = (m.reloadFrom jobs).1.jobCount) ↔
      NamesApart c env policy root (dslFiles tree) := by
  rw [← nodup_keys_iff, ← loadAll_eq h]
  constructor
  · rintro ⟨hnodup, -⟩
    exact hnodup
  · intro hnodup
    refine ⟨hnodup, fun k spec => specAt_reloadFrom_of_nodup hnodup, ?_⟩
    rw [jobCount_reloadFrom, hnodup.dedup, List.length_map]
    rfl

theorem reload_registers_all_apart :
    demoLoad (demoTree "nightly.yaml" "weekly.yml") = .ok demoApart ∧
      NamesApart demoCrates (fun _ => none) .permissive (bytes "DSL".toList)
        (dslFiles (demoTree "nightly.yaml" "weekly.yml")) := by
  have hload : demoLoad (demoTree "nightly.yaml" "weekly.yml") = .ok demoApart := by
    decide +kernel
  have hnodup : (demoApart.map (·.spec.key)).Nodup := by decide
  refine ⟨hload, (reload_registers_all_iff (m := Shared.init) hload).1 ⟨hnodup, ?_, by decide⟩⟩
  exact fun k spec => specAt_reloadFrom_of_nodup hnodup

/-- Two files of one group, which differ in their extension. -/
def demoClash : List LoadedJob :=
  [demoJob "nightly" "/opt/full.sh" "DSL/nightly.yaml",
    demoJob "nightly" "/opt/quick.sh" "DSL/nightly.yml"]

/-- The job of `nightly.yaml` is lost to that of `nightly.yml`, and the reload counts both. -/
theorem reload_loses_job :
    demoLoad (demoTree "nightly.yaml" "nightly.yml") = .ok demoClash ∧
      ¬(demoClash.map (·.spec.key)).Nodup ∧
      (Shared.init.reloadFrom demoClash).1.jobs.values.map (·.spec.kind) =
        [.exec ["/opt/quick.sh"] []] ∧
      (Shared.init.reloadFrom demoClash).2 = 2 ∧
      (Shared.init.reloadFrom demoClash).1.jobCount = 1 := by
  refine ⟨by decide +kernel, by decide, by decide, by decide, by decide⟩

end CronManager
