import CronManager.Scheduler.Api
import CronManager.Scheduler.Flow
import CronManager.Scheduler.Loops

/-!
# Two reloads at once

`reload_from` clears the registry and then registers its jobs one by one, each step under its own
lock, and nothing keeps two reloads apart.  A job of one list that is registered after the other
call has cleared the registry stays, so the registry can end with jobs of both lists
(`reloads_mixed`).

Each key still ends as one of the two reloads alone leaves it, and all keys of one of the two lists
are registered (`reloads_keywise`): the last write of a call to a key is the one that it would make
alone, and of the two last writes one is the later; and past the later clear no key of its list is
lost any more (`secured_step`).
-/

namespace CronManager

open Rust

/-- How a call that registers jobs will leave the key, if it will touch it at all. -/
def Pc.will (k : JobKey) : Pc → Option (Option JobSpec)
  | .registering todo _ => (lastAt todo k).map some
  | .spawning spec todo _ => (lastAt (spec :: todo) k).map some
  | .inserting job todo _ => (lastAt (job.spec :: todo) k).map some
  | .reloadSignal loaded | .reloadClear loaded => some (lastAt (loaded.map (·.spec)) k)
  | _ => none

/-- The action is a call of `register`, `register_all` or `reload_from`. -/
def Act.registers : Act → Bool
  | .call c => c.entry.isRegistering
  | _ => false

/-- Some interleaving of `reload_from(L₁)`, which is task `t₁`, and `reload_from(L₂)`, which is task
`t₂`, leads from `s₀` to `s`, and both have returned.  The other tasks do whatever they do, and
register nothing. -/
structure Reloaded (c : Crates) (b : ExecutorBundle) (s₀ s : Sched) (t₁ t₂ : TaskId)
    (L₁ L₂ : List LoadedJob) : Prop where
  reachable : (schedMachine c b).Reaches Sched.init s₀
  first : s₀.tasks t₁ = some (.reloadSignal L₁)
  second : s₀.tasks t₂ = some (.reloadSignal L₂)
  only : ∀ u pc, s₀.tasks u = some pc → pc.isRegistering = true → u = t₁ ∨ u = t₂
  run : ∃ as, (schedMachine c b).Runs (fun _ a => a.registers = false) s₀ as s
  firstReturned : ∃ reply, s.tasks t₁ = some (.returned reply)
  secondReturned : ∃ reply, s.tasks t₂ = some (.returned reply)

variable {c : Crates} {b : ExecutorBundle} {s₀ s s' : Sched} {t t₁ t₂ : TaskId} {m : Shared}
  {pc : Pc} {w : DispatchWorld} {e : Effect Shared Pc} {k : JobKey} {L₁ L₂ : List LoadedJob}

/-! ### The last write of a call to a key -/

theorem will_of_not_registering (h : pc.isRegistering = false) : pc.will k = none := by
  cases pc with
  | registering | spawning | inserting | reloadSignal | reloadClear => cases h
  | _ => rfl

theorem will_notify {ns : List NotifyId} : (pc.notify ns).will k = pc.will k := by
  cases pc <;> rfl

/-- Only a call registers: no other task turns into one that does. -/
theorem isRegistering_next (h : pc.step c b m w = some e) (hpc : pc.isRegistering = false) :
    e.next.isRegistering = false := by
  have hgoes := step_goes h
  generalize e.next = next at hgoes ⊢
  cases hgoes with
  | remove | spawn | insert | signalRunning | clear => cases hpc
  | _ => rfl

theorem jobs_of_not_registering (hdoes : Does c b m w pc e) (hpc : pc.isRegistering = false) :
    e.mem.jobs = m.jobs := by
  cases hdoes with
  | quiet jobs => exact jobs
  | remove | spawn | insert | clear => cases hpc
  | begin schedule hrun hjob hloop hspec hbegin =>
    obtain ⟨-, -, rfl⟩ := Shared.beginRunning_eq_ok.1 hbegin
    rfl
  | fetch run => rw [Does.mem_fetchStep]
  | _ => rfl

theorem specAt_removeJob {key : JobKey} :
    (m.removeJob key).specAt k = if k = key then none else m.specAt k := by
  simp only [Shared.specAt, Shared.removeJob, HashMap.lookup_erase_eq]
  split_ifs <;> rfl

theorem specAt_insertJob {job : RegisteredJob} :
    (m.insertJob job).specAt k = if k = job.spec.key then some job.spec else m.specAt k := by
  simp only [Shared.specAt, Shared.insertJob, HashMap.lookup_insert_eq]
  split_ifs <;> rfl

theorem will_step (h : pc.step c b m w = some e) :
    (e.next.will k = pc.will k ∧ (pc.will k = none → e.mem.specAt k = m.specAt k)) ∨
      (e.next.will k = none ∧ pc.will k = some (e.mem.specAt k)) := by
  by_cases hreg : pc.isRegistering = false
  · refine .inl ⟨?_, fun _ => ?_⟩
    · rw [will_of_not_registering hreg, will_of_not_registering (isRegistering_next h hreg)]
    · rw [Shared.specAt, Shared.specAt, jobs_of_not_registering (step_does h) hreg]
  cases pc with
  | registering todo reply =>
    cases todo with
    | nil =>
      obtain rfl := Option.some.inj h
      exact .inl ⟨rfl, fun _ => rfl⟩
    | cons spec todo =>
      obtain rfl := Option.some.inj h
      refine .inl ⟨rfl, fun hnone => ?_⟩
      -- a call that will not touch the key registers another one
      have hk : ¬ spec.key = k := by
        intro hk
        rw [Pc.will, lastAt_cons, if_pos hk, Option.map_eq_none_iff, Option.or_eq_none_iff] at hnone
        cases hnone.2
      simp only [move, specAt_removeJob, if_neg (Ne.symm hk)]
  | spawning spec todo reply =>
    obtain rfl := Option.some.inj h
    exact .inl ⟨rfl, fun _ => rfl⟩
  | inserting job todo reply =>
    obtain rfl := Option.some.inj h
    simp only [move, Pc.will, lastAt_cons, specAt_insertJob]
    cases hlast : lastAt todo k with
    | some spec => exact .inl ⟨rfl, by rintro ⟨⟩⟩
    | none =>
      by_cases hk : job.spec.key = k
      · exact .inr ⟨rfl, by rw [if_pos hk, if_pos hk.symm]; rfl⟩
      · exact .inl ⟨by rw [if_neg hk]; rfl, fun _ => if_neg (Ne.symm hk)⟩
  | reloadSignal loaded =>
    obtain rfl := Option.some.inj h
    exact .inl ⟨rfl, fun _ => rfl⟩
  | reloadClear loaded =>
    obtain rfl := Option.some.inj h
    simp only [move, Pc.will]
    cases hlast : lastAt (loaded.map (·.spec)) k with
    | some spec => exact .inl ⟨rfl, by rintro ⟨⟩⟩
    | none => exact .inr ⟨rfl, rfl⟩
  | _ => exact absurd rfl hreg

/-! ### Whole runs -/

/-- The state is as the calls leave it at one key: each of the tasks that will still touch the key
leaves a value of its own, and once none will, one of these values is there. -/
abbrev LastSpecs (k : JobKey) (W : TaskId → Set (Option JobSpec)) (s : Sched) : Prop :=
  Pool.LastWrites (Pc.will k) (Shared.specAt · k) W s

theorem lastSpecs_step {W : TaskId → Set (Option JobSpec)} {a : Act} (howned : Owned s)
    (h : LastSpecs k W s) (hg : a.registers = false)
    (hs : (schedMachine c b).step s a = some s') : LastSpecs k W s' := by
  cases a with
  | call call =>
    obtain rfl := Option.some.inj hs
    exact h.add rfl (will_of_not_registering hg) (tasks_fresh_eq_none howned.tasksFresh)
  | clock now =>
    obtain rfl := Option.some.inj hs
    exact ⟨h.promised, h.settled⟩
  | run t w =>
    obtain ⟨pc, e, hpc, he, rfl⟩ := run_step hs
    have hdoes := step_does he
    refine h.apply hpc (will_step he) ?_ ?_
    · intro v q hv
      refine ⟨tasks_spawn_eq_none howned.tasksFresh hdoes hv, ?_⟩
      rcases hdoes.spawn_cases hv with ⟨spec, todo, reply, expr, -, -, -, -, rfl⟩ |
        ⟨run, cancel, -, -, -, rfl⟩
      · rfl
      · rfl
    · intro q
      obtain ⟨ns, hns⟩ := hdoes.touch_eq
      rw [hns, will_notify]

/-- What the two calls leave at a key: each what its list has there last. -/
def lastOf (t₁ t₂ : TaskId) (L₁ L₂ : List LoadedJob) (k : JobKey) (u : TaskId) :
    Set (Option JobSpec) :=
  {v | (u = t₁ ∧ v = lastAt (L₁.map (·.spec)) k) ∨ (u = t₂ ∧ v = lastAt (L₂.map (·.spec)) k)}

theorem lastSpecs_start (h : Reloaded c b s₀ s t₁ t₂ L₁ L₂) :
    LastSpecs k (lastOf t₁ t₂ L₁ L₂ k) s₀ := by
  constructor
  · intro u pc v hu hv
    have hreg : pc.isRegistering = true := by
      by_contra hreg
      rw [will_of_not_registering (by simpa using hreg)] at hv
      cases hv
    rcases h.only u pc hu hreg with rfl | rfl
    · rw [h.first] at hu
      obtain rfl := Option.some.inj hu
      exact .inl ⟨rfl, (Option.some.inj hv).symm⟩
    · rw [h.second] at hu
      obtain rfl := Option.some.inj hu
      exact .inr ⟨rfl, (Option.some.inj hv).symm⟩
  · intro hall
    cases hall t₁ _ h.first

/-- Once both calls have returned, each key holds the last spec of one list, and no task will touch
it any more. -/
theorem settled_of_reloaded (h : Reloaded c b s₀ s t₁ t₂ L₁ L₂) (k : JobKey) :
    (s.mem.specAt k = lastAt (L₁.map (·.spec)) k ∨ s.mem.specAt k = lastAt (L₂.map (·.spec)) k) ∧
      ∀ u pc, s.tasks u = some pc → pc.will k = none := by
  obtain ⟨as, hrun⟩ := h.run
  obtain ⟨-, hlast⟩ := hrun.invariant (I := fun s => Owned s ∧ LastSpecs k (lastOf t₁ t₂ L₁ L₂ k) s)
    ⟨owned_reaches h.reachable, lastSpecs_start h⟩
    fun s a s' ⟨ho, hl⟩ hg hs => ⟨owned_step ho hs, lastSpecs_step ho hl hg hs⟩
  have hidle : ∀ u pc, s.tasks u = some pc → pc.will k = none := by
    intro u pc hu
    by_contra hne
    obtain ⟨v, hv⟩ := Option.ne_none_iff_exists'.1 hne
    rcases hlast.promised u pc v hu hv with ⟨rfl, -⟩ | ⟨rfl, -⟩
    · obtain ⟨reply, hret⟩ := h.firstReturned
      rw [hret] at hu
      obtain rfl := Option.some.inj hu
      cases hv
    · obtain ⟨reply, hret⟩ := h.secondReturned
      rw [hret] at hu
      obtain rfl := Option.some.inj hu
      cases hv
  refine ⟨?_, hidle⟩
  obtain ⟨u, ⟨-, hspec⟩ | ⟨-, hspec⟩⟩ := hlast.settled hidle
  · exact .inl hspec
  · exact .inr hspec

/-! ### What the later clear leaves to come -/

/-- The jobs of a reload that has not cleared the registry yet. -/
def Pc.clears : Pc → Option (List LoadedJob)
  | .reloadSignal loaded | .reloadClear loaded => some loaded
  | _ => none

/-- The key is registered, or a call will register it. -/
def Sched.Secured (s : Sched) (k : JobKey) : Prop :=
  (s.mem.specAt k).isSome = true ∨ ∃ u pc spec, s.tasks u = some pc ∧ pc.will k = some (some spec)

/-- Only a reload that has not cleared yet can leave a key without a job. -/
theorem clears_of_will (h : pc.will k = some none) : ∃ loaded, pc.clears = some loaded := by
  cases pc with
  | registering | spawning | inserting =>
    obtain ⟨spec, -, hspec⟩ := Option.map_eq_some_iff.1 h
    cases hspec
  | reloadSignal loaded | reloadClear loaded => exact ⟨loaded, rfl⟩
  | _ => cases h

theorem secured_step {a : Act} (howned : Owned s) (hg : a.registers = false)
    (hclear : ∀ t w loaded, a = .run t w → s.tasks t ≠ some (.reloadClear loaded))
    (hs : (schedMachine c b).step s a = some s') (h : s.Secured k) : s'.Secured k := by
  cases a with
  | call call =>
    obtain rfl := Option.some.inj hs
    refine h.imp id ?_
    rintro ⟨u, pc, spec, hu, hspec⟩
    exact ⟨u, pc, spec, Pool.tasks_add_of_some (tasks_fresh_eq_none howned.tasksFresh) hu, hspec⟩
  | clock now =>
    obtain rfl := Option.some.inj hs
    exact h
  | run t w =>
    obtain ⟨pc, e, hpc, he, rfl⟩ := run_step hs
    rcases h with hsome | ⟨u, pc', spec, hu, hspec⟩
    · -- the key is registered, and the step does not remove it for good
      by_cases hsignal : ∃ loaded, pc = .reloadSignal loaded
      · obtain ⟨loaded, rfl⟩ := hsignal
        obtain rfl := Option.some.inj he
        exact .inl hsome
      · have hwill : pc.will k ≠ some none := by
          intro hnone
          obtain ⟨loaded, hloaded⟩ := clears_of_will hnone
          cases pc with
          | reloadSignal loaded => exact hsignal ⟨loaded, rfl⟩
          | reloadClear loaded => exact hclear t w loaded rfl hpc
          | _ => cases hloaded
        rcases will_step (k := k) he with ⟨hsame, hkeep⟩ | ⟨-, hlast⟩
        · cases hpcwill : pc.will k with
          | none => exact .inl (by rw [Pool.mem_apply, hkeep hpcwill]; exact hsome)
          | some v =>
            cases v with
            | none => exact absurd hpcwill hwill
            | some spec =>
              exact .inr ⟨t, e.next, spec, Pool.tasks_apply_self, hsame.trans hpcwill⟩
        · refine .inl (Option.ne_none_iff_isSome.1 fun hnone => hwill ?_)
          rw [hlast, ← hnone]
          rfl
    · -- a task will register the key, and goes on to it or has just done so
      by_cases hut : u = t
      · subst hut
        rw [hpc] at hu
        obtain rfl := Option.some.inj hu
        rcases will_step (k := k) he with ⟨hsame, -⟩ | ⟨-, hlast⟩
        · exact .inr ⟨u, e.next, spec, Pool.tasks_apply_self, hsame.trans hspec⟩
        · have hregistered : e.mem.specAt k = some spec :=
            Option.some.inj (hlast.symm.trans hspec)
          exact .inl (by rw [Pool.mem_apply, hregistered]; rfl)
      · have hdoes := step_does he
        obtain ⟨ns, hns⟩ := hdoes.touch_eq
        refine .inr ⟨u, e.touch pc', spec, Pool.tasks_apply_of_some hut hu fun v p hv =>
          tasks_spawn_eq_none howned.tasksFresh hdoes hv, ?_⟩
        rw [hns, will_notify]
        exact hspec

/-- A reload that has cleared the registry will register every key of its list. -/
theorem secured_clear {loaded : List LoadedJob} (hpc : s.tasks t = some (.reloadClear loaded))
    (hs : (schedMachine c b).step s (.run t w) = some s')
    (hk : (lastAt (loaded.map (·.spec)) k).isSome = true) : s'.Secured k := by
  obtain ⟨pc, e, hpc', he, rfl⟩ := run_step hs
  rw [hpc] at hpc'
  obtain rfl := Option.some.inj hpc'
  obtain rfl := Option.some.inj he
  obtain ⟨spec, hspec⟩ := Option.isSome_iff_exists.1 hk
  refine .inr ⟨t, _, spec, Pool.tasks_apply_self, ?_⟩
  simp only [move, Pc.will, hspec, Option.map_some]

theorem clears_kept {lists : List (List LoadedJob)} :
    Pc.Kept c b fun pc => ∀ loaded, pc.clears = some loaded → loaded ∈ lists where
  next := by
    intro m pc w e h he
    have hgoes := step_goes he
    generalize e.next = next at hgoes ⊢
    cases hgoes with
    | signalRunning loaded => exact h
    | _ => rintro loaded ⟨⟩
  spawn := by
    intro m pc w e _ he v p hv
    rcases (step_does he).spawn_cases hv with ⟨spec, todo, reply, expr, -, -, -, -, rfl⟩ |
      ⟨run, cancel, -, -, -, rfl⟩
    · rintro loaded ⟨⟩
    · rintro loaded ⟨⟩
  notify := by
    intro pc h ns
    cases pc <;> exact h

/-- A reload has still to clear, or all keys of one of the lists are secured. -/
def SecuresOne (L₁ L₂ : List LoadedJob) (s : Sched) : Prop :=
  (∃ u pc loaded, s.tasks u = some pc ∧ pc.clears = some loaded) ∨
    ∃ L ∈ [L₁, L₂], ∀ k, (lastAt (L.map (·.spec)) k).isSome = true → s.Secured k

theorem securesOne_step {a : Act} (howned : Owned s)
    (hlists : ∀ u pc, s.tasks u = some pc → ∀ loaded, pc.clears = some loaded →
      loaded ∈ [L₁, L₂])
    (hg : a.registers = false) (hs : (schedMachine c b).step s a = some s')
    (h : SecuresOne L₁ L₂ s) : SecuresOne L₁ L₂ s' := by
  by_cases hclear : ∃ t w loaded, a = .run t w ∧ s.tasks t = some (.reloadClear loaded)
  · obtain ⟨t, w, loaded, rfl, hpc⟩ := hclear
    exact .inr ⟨loaded, hlists t _ hpc loaded rfl, fun k hk => secured_clear hpc hs hk⟩
  · have hother : ∀ t w loaded, a = .run t w → s.tasks t ≠ some (.reloadClear loaded) :=
      fun t w loaded ha hpc => hclear ⟨t, w, loaded, ha, hpc⟩
    refine h.imp ?_ fun ⟨L, hL, hall⟩ =>
      ⟨L, hL, fun k hk => secured_step howned hg hother hs (hall k hk)⟩
    rintro ⟨u, pc', loaded, hu, hloaded⟩
    cases a with
    | call call =>
      obtain rfl := Option.some.inj hs
      exact ⟨u, pc', loaded, Pool.tasks_add_of_some (tasks_fresh_eq_none howned.tasksFresh) hu,
        hloaded⟩
    | clock now =>
      obtain rfl := Option.some.inj hs
      exact ⟨u, pc', loaded, hu, hloaded⟩
    | run t w =>
      obtain ⟨pc, e, hpc, he, rfl⟩ := run_step hs
      by_cases hut : u = t
      · subst hut
        rw [hpc] at hu
        obtain rfl := Option.some.inj hu
        cases pc with
        | reloadSignal loaded' =>
          obtain rfl := Option.some.inj he
          exact ⟨u, _, loaded', Pool.tasks_apply_self, rfl⟩
        | reloadClear loaded' => exact absurd hpc (hother u w loaded' rfl)
        | _ => cases hloaded
      · have hdoes := step_does he
        obtain ⟨ns, hns⟩ := hdoes.touch_eq
        refine ⟨u, e.touch pc', loaded, Pool.tasks_apply_of_some hut hu fun v p hv =>
          tasks_spawn_eq_none howned.tasksFresh hdoes hv, ?_⟩
        rw [hns]
        cases pc' <;> exact hloaded

/-- Once both calls have returned, every key of one of the lists is registered. -/
theorem registered_of_reloaded (h : Reloaded c b s₀ s t₁ t₂ L₁ L₂) :
    ∃ L ∈ [L₁, L₂], ∀ k, (lastAt (L.map (·.spec)) k).isSome = true →
      (s.mem.specAt k).isSome = true := by
  obtain ⟨as, hrun⟩ := h.run
  have hlists₀ : ∀ u pc, s₀.tasks u = some pc → ∀ loaded, pc.clears = some loaded →
      loaded ∈ [L₁, L₂] := by
    intro u pc hu loaded hloaded
    have hreg : pc.isRegistering = true := by
      cases pc with
      | reloadSignal | reloadClear => rfl
      | _ => cases hloaded
    rcases h.only u pc hu hreg with rfl | rfl
    · rw [h.first] at hu
      obtain rfl := Option.some.inj hu
      obtain rfl := Option.some.inj hloaded
      exact List.mem_cons_self
    · rw [h.second] at hu
      obtain rfl := Option.some.inj hu
      obtain rfl := Option.some.inj hloaded
      exact List.mem_cons_of_mem _ (List.mem_singleton_self _)
  have hstep : ∀ x a x', (Owned x ∧ (∀ u pc, x.tasks u = some pc → ∀ loaded,
      pc.clears = some loaded → loaded ∈ [L₁, L₂]) ∧ SecuresOne L₁ L₂ x) →
      a.registers = false → (schedMachine c b).step x a = some x' →
      Owned x' ∧ (∀ u pc, x'.tasks u = some pc → ∀ loaded, pc.clears = some loaded →
        loaded ∈ [L₁, L₂]) ∧ SecuresOne L₁ L₂ x' := by
    rintro x a x' ⟨howned, hlists, hsec⟩ hg hs
    refine ⟨owned_step howned hs, ?_, securesOne_step howned hlists hg hs hsec⟩
    have hone : (schedMachine c b).Runs (fun _ a => a.registers = false) x [a] x' :=
      .cons hg hs (.nil x')
    refine clears_kept.runs hone (fun s call hcall => ?_) hlists
    intro loaded hloaded
    cases call with
    | reloadFrom => cases hcall
    | _ => cases hloaded
  obtain ⟨-, -, hsecures⟩ := hrun.invariant
    ⟨owned_reaches h.reachable, hlists₀, .inl ⟨t₁, _, L₁, h.first, rfl⟩⟩ hstep
  -- nothing is left to come: no reload has still to clear, and no call to register
  rcases hsecures with ⟨u, pc, loaded, hu, hloaded⟩ | ⟨L, hL, hall⟩
  · exfalso
    have hwill := (settled_of_reloaded h demoSpec.key).2 u pc hu
    cases pc with
    | reloadSignal | reloadClear => cases hwill
    | _ => cases hloaded
  · refine ⟨L, hL, fun k hk => (hall k hk).resolve_right ?_⟩
    rintro ⟨u, pc, spec, hu, hspec⟩
    rw [(settled_of_reloaded h k).2 u pc hu] at hspec
    cases hspec

/-- **Two reloads do not mix within a key, and one of them is complete.**  However the steps of two
reloads interleave, once both have returned each key holds what one of the two lists, reloaded
alone, leaves there, and every key that one of the two lists, reloaded alone, registers is
registered. -/
theorem reloads_keywise (h : Reloaded c b s₀ s t₁ t₂ L₁ L₂) :
    (∀ k, s.mem.specAt k = (s₀.mem.reloadFrom L₁).1.specAt k ∨
        s.mem.specAt k = (s₀.mem.reloadFrom L₂).1.specAt k) ∧
      ((∀ k, ((s₀.mem.reloadFrom L₁).1.specAt k).isSome = true → (s.mem.specAt k).isSome = true) ∨
        ∀ k, ((s₀.mem.reloadFrom L₂).1.specAt k).isSome = true →
          (s.mem.specAt k).isSome = true) := by
  simp only [specAt_reloadFrom]
  refine ⟨fun k => (settled_of_reloaded h k).1, ?_⟩
  obtain ⟨L, hL, hall⟩ := registered_of_reloaded h
  rcases List.mem_pair.1 hL with rfl | rfl
  · exact .inl hall
  · exact .inr hall

/-! ### Two reloads that clear before either registers -/

/-- `demoSpec` under another name. -/
def weeklySpec : JobSpec := { demoSpec with key := ⟨"nightly", "weekly"⟩ }

/-- A tree with one job. -/
def loadedOf (spec : JobSpec) : List LoadedJob := [⟨spec, "DSL/jobs.yaml"⟩]

/-- The two calls. -/
def reloadCalls : List Act :=
  [.call (.reloadFrom (loadedOf demoSpec)), .call (.reloadFrom (loadedOf weeklySpec))]

/-- Both signal and clear, then both register. -/
def clearTwice : List Act :=
  List.replicate 2 (.run 0 (demoWorld .timeout)) ++
    List.replicate 2 (.run 1 (demoWorld .timeout)) ++
    List.replicate 4 (.run 0 (demoWorld .timeout)) ++
    List.replicate 4 (.run 1 (demoWorld .timeout))

/-- The state when both calls have been made, and the one when both have returned. -/
def mixedStart : Sched :=
  ((schedMachine noCrates demoBundle).run Sched.init reloadCalls).getD Sched.init

def mixedEnd : Sched :=
  ((schedMachine noCrates demoBundle).runIf (fun _ a => !a.registers) mixedStart
    clearTwice).getD Sched.init

theorem reloaded_mixed : Reloaded noCrates demoBundle mixedStart mixedEnd 0 1
    (loadedOf demoSpec) (loadedOf weeklySpec) where
  reachable := by
    have hrun : (schedMachine noCrates demoBundle).run Sched.init reloadCalls =
        some mixedStart := rfl
    exact Machine.reaches_of_run hrun
  first := rfl
  second := rfl
  only := by
    intro u pc hu _
    rcases Pool.tasks_add_cases hu with ⟨rfl, -⟩ | ⟨-, hu⟩
    · exact .inr rfl
    · rcases Pool.tasks_add_cases hu with ⟨rfl, -⟩ | ⟨-, hu⟩
      · exact .inl rfl
      · cases hu
  run := by
    have hrun : (schedMachine noCrates demoBundle).runIf (fun _ a => !a.registers) mixedStart
        clearTwice = some mixedEnd := eq_some_getD (by decide)
    exact ⟨clearTwice, (Machine.runs_of_runIf hrun).mono fun _ a ha => by simpa using ha⟩
  firstReturned := ⟨_, rfl⟩
  secondReturned := ⟨_, rfl⟩

/-- Each key of the mixed registry is one of a list alone, and it is not empty. -/
theorem reloads_keywise_mixed :
    Reloaded noCrates demoBundle mixedStart mixedEnd 0 1 (loadedOf demoSpec)
        (loadedOf weeklySpec) ∧
      (∀ k, mixedEnd.mem.specAt k = (mixedStart.mem.reloadFrom (loadedOf demoSpec)).1.specAt k ∨
        mixedEnd.mem.specAt k = (mixedStart.mem.reloadFrom (loadedOf weeklySpec)).1.specAt k) ∧
      ∃ k, (mixedEnd.mem.specAt k).isSome = true := by
  obtain ⟨hkeys, hcomplete⟩ := reloads_keywise reloaded_mixed
  refine ⟨reloaded_mixed, hkeys, ?_⟩
  rcases hcomplete with hfirst | hsecond
  · exact ⟨demoSpec.key, hfirst _ (by decide)⟩
  · exact ⟨weeklySpec.key, hsecond _ (by decide)⟩

/-- Two reloads that both clear the registry before either registers leave the jobs of both
lists. -/
theorem reloads_mixed :
    ¬ ∀ c b s₀ s t₁ t₂ L₁ L₂, Reloaded c b s₀ s t₁ t₂ L₁ L₂ →
      (∀ k, s.mem.specAt k = (s₀.mem.reloadFrom L₁).1.specAt k) ∨
        ∀ k, s.mem.specAt k = (s₀.mem.reloadFrom L₂).1.specAt k := by
  intro h
  rcases h _ _ _ _ _ _ _ _ reloaded_mixed with hfirst | hsecond
  · exact absurd (hfirst weeklySpec.key) (by decide)
  · exact absurd (hsecond demoSpec.key) (by decide)

end CronManager
