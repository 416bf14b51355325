import CronManager.Config
import CronManager.Scheduler.Describe
import CronManager.Scheduler.Records

/-!
# What `describe` says of the last execution

The runtime state of a job is created with its registration and is shared by the entry of the
registry, the scheduling loop and every run of the job.  A registration that replaces another one
creates a new state, while loops and runs of the old one go on writing to theirs.

* `states_step` : a step writes to the runtime states what `Pc.statesAfter` says;
* `verdicts_run` : a state is used for one job only, and holds what was written to it last
  (`writes`): a fire of the job that was skipped outside its window, or the outcome of a dispatch of
  the job that has come to its end in this run of the scheduler;
* `describe_verdict` : hence that is what `describe` lists.

With `CRONMANAGER_OFFLINE` no dispatch begins an attempt (`offline_inert`).
-/

namespace CronManager

open Rust

/-- The runtime states a task refers to, each with the job it does so for. -/
def Pc.uses : Pc → List (ArcId × JobSpec)
  | .inserting job _ _ | .triggerBegin _ _ job => [(job.state, job.spec)]
  | .fetch run | .spawnRun run _ | .dispatching run _ _ | .recordOutcome run _ | .finish run =>
    (run.state, run.spec) :: (run.origin.loopOf.map fun l => (l.state, l.spec)).toList
  | .loopParse l | .loopNow l | .loopNext l _ | .loopSleep l _ _ | .loopWindow l _
  | .loopSkipRow l _ | .loopRecordSkip l _ | .loopBegin l _ => [(l.state, l.spec)]
  | _ => []

/-- The runtime states after the next step of a task. -/
def Pc.statesAfter (m : Shared) : Pc → ArcId → JobRuntimeState
  | .spawning _ _ _ => Function.update m.states m.fresh .default
  | .recordOutcome run outcome =>
    Function.update m.states run.state ⟨some m.now, outcome.status.asStr⟩
  | .loopRecordSkip l nowMs => Function.update m.states l.state ⟨some nowMs, "SKIPPED"⟩
  | _ => m.states

/-- A write to a runtime state. -/
inductive Write where
  /-- `record_outcome`, at a time. -/
  | ended (run : Run) (outcome : DispatchOutcome) (now : ℤ)
  /-- The loop records that it has skipped a fire, which it checked at a time. -/
  | skip (l : Loop) (checked : ℤ)

/-- What it leaves in the state. -/
def Write.state : Write → JobRuntimeState
  | .ended _ outcome now => ⟨some now, outcome.status.asStr⟩
  | .skip _ checked => ⟨some checked, "SKIPPED"⟩

/-- The write of a task to a runtime state, in its next step. -/
def Pc.writes (m : Shared) : Pc → List (ArcId × Write)
  | .recordOutcome run outcome => [(run.state, .ended run outcome m.now)]
  | .loopRecordSkip l nowMs => [(l.state, .skip l nowMs)]
  | _ => []

/-- The write of an action to a runtime state. -/
def Sched.writes (s : Sched) : Act → List (ArcId × Write)
  | .run t _ => (s.tasks t).elim [] (·.writes s.mem)
  | .call _ | .clock _ => []

/-- What was written last to a runtime state. -/
def lastWrite (arc : ArcId) (log : List (ArcId × Write)) : Option Write :=
  (log.filter (·.1 = arc)).getLast?.map (·.2)

section

variable (c : Crates) (b : ExecutorBundle) (as : List Act)

/-- The writes to the runtime states in a run of the scheduler, in order. -/
def writes : List (ArcId × Write) := (schedMachine c b).outputs Sched.writes Sched.init as

/-- A write about this job: a fire of it that was outside its window, or the end of a dispatch of it
that has come to its end in this run of the scheduler. -/
def Write.Of (spec : JobSpec) : Write → Prop
  | .ended run outcome _ => run.spec = spec ∧ run.key = spec.key ∧
    ∃ w, (run, w) ∈ completed c b run.key as ∧
      outcome = (b.dispatch c run.spec run.extras w).outcome
  | .skip l checked => l.spec = spec ∧ spec.window.allows checked = false

/-- Each runtime state belongs to one job, and holds the last write, which is about this job. -/
structure Verdicts (owner : ArcId → JobSpec) (s : Sched) : Prop where
  jobs : ∀ k job, s.mem.jobs.lookup k = some job →
    job.state < s.mem.fresh ∧ owner job.state = job.spec
  tasks : ∀ t pc, s.tasks t = some pc → ∀ x ∈ pc.uses, x.1 < s.mem.fresh ∧ owner x.1 = x.2
  states : ∀ arc, s.mem.states arc = (lastWrite arc (writes c b as)).elim .default Write.state
  written : ∀ x ∈ writes c b as, x.1 < s.mem.fresh ∧ x.2.Of c b as (owner x.1)

end

variable {c : Crates} {b : ExecutorBundle} {P : JobSpec → Prop} {s s' : Sched} {t u : TaskId}
  {m : Shared} {pc : Pc} {w : DispatchWorld} {e : Effect Shared Pc} {owner : ArcId → JobSpec}

/-! ### Logs of writes -/

variable {as : List Act} {a : Act}

theorem writes_snoc (h : (schedMachine c b).run Sched.init as = some s) :
    writes c b (as ++ [a]) = writes c b as ++ s.writes a := (Machine.runs_of_run h).outputs_snoc

theorem completed_snoc (h : (schedMachine c b).run Sched.init as = some s) (k : JobKey) :
    completed c b k (as ++ [a]) = completed c b k as ++ s.completes k a :=
  (Machine.runs_of_run h).outputs_snoc

theorem lastWrite_append_singleton {arc arc' : ArcId} {x : Write} {log : List (ArcId × Write)} :
    lastWrite arc (log ++ [(arc', x)]) = if arc' = arc then some x else lastWrite arc log := by
  simp only [lastWrite, List.filter_append, List.filter_singleton]
  split_ifs with harc <;> simp [harc]

theorem lastWrite_eq_none {arc : ArcId} {log : List (ArcId × Write)}
    (h : ∀ x ∈ log, x.1 ≠ arc) : lastWrite arc log = none := by
  rw [lastWrite, List.filter_eq_nil_iff.2 (by simpa using h)]
  rfl

theorem mem_of_lastWrite {arc : ArcId} {log : List (ArcId × Write)} {x : Write}
    (h : lastWrite arc log = some x) : (arc, x) ∈ log := by
  obtain ⟨⟨arc', x'⟩, hlast, rfl⟩ := Option.map_eq_some_iff.1 h
  obtain ⟨hmem, harc⟩ := List.mem_filter.1 (List.mem_of_getLast? hlast)
  obtain rfl : arc' = arc := by simpa using harc
  exact hmem

theorem Write.Of.snoc {spec : JobSpec} {x : Write}
    (hrun : (schedMachine c b).run Sched.init as = some s) (h : x.Of c b as spec) :
    x.Of c b (as ++ [a]) spec := by
  cases x with
  | ended run outcome now =>
    obtain ⟨hspec, hkey, w, hmem, houtcome⟩ := h
    refine ⟨hspec, hkey, w, ?_, houtcome⟩
    rw [completed_snoc hrun]
    exact List.mem_append_left _ hmem
  | skip l checked => exact h

/-! ### The runtime states of a step -/

/-- **What a step writes to the runtime states.** -/
theorem states_step (h : pc.step c b m w = some e) : e.mem.states = pc.statesAfter m := by
  cases pc with
  | registering todo reply => cases todo <;> cases h <;> rfl
  | triggerBegin | loopBegin =>
    obtain rfl := Option.some.inj h
    simp only [beginStep]
    split
    · rename_i hbegin
      obtain ⟨-, -, rfl⟩ := Shared.beginRunning_eq_ok.1 hbegin
      rfl
    · rfl
  | fetch run =>
    obtain rfl := Option.some.inj h
    rw [Does.mem_fetchStep]
    rfl
  | dispatching run cancel d =>
    simp only [Pc.step, dispatchStep] at h
    split at h
    · cases h
      rfl
    · obtain ⟨d', -, rfl⟩ := Option.map_eq_some_iff.1 h
      rfl
  | triggerLookup | stopCheck | stopSignal | loopParse | loopNext | loopWindow =>
    simp only [Pc.step] at h
    split at h <;> cases h <;> rfl
  | _ => cases h <;> rfl

theorem uses_notify {ns : List NotifyId} : (pc.notify ns).uses = pc.uses := by
  cases pc <;> rfl

/-- A state that a task refers to after a step is one it referred to before, one of the registry,
or the one it has just created. -/
theorem uses_next (h : pc.step c b m w = some e) {x : ArcId × JobSpec} (hx : x ∈ e.next.uses) :
    x ∈ pc.uses ∨ (∃ k job, m.jobs.lookup k = some job ∧ x = (job.state, job.spec)) ∨
      ∃ spec todo reply, pc = .spawning spec todo reply ∧ x = (m.fresh, spec) := by
  have hgoes := step_goes h
  generalize e.next = next at hgoes hx
  cases hgoes with
  | spawn spec todo reply => exact .inr (.inr ⟨spec, todo, reply, rfl, List.mem_singleton.1 hx⟩)
  | lookup key extras job hjob => exact .inr (.inl ⟨key, job, hjob, List.mem_singleton.1 hx⟩)
  | finishCron run l horigin =>
    refine .inl (List.mem_cons_of_mem _ ?_)
    rw [horigin]
    exact hx
  | beginCron l tick n =>
    refine .inl ?_
    rcases List.mem_cons.1 hx with rfl | hx
    · exact List.mem_singleton_self _
    · exact hx
  | _ => first | exact .inl hx | cases hx

theorem uses_spawn (h : pc.step c b m w = some e) {v : TaskId} {p : Pc}
    (hv : e.spawn = some (v, p)) {x : ArcId × JobSpec} (hx : x ∈ p.uses) :
    x ∈ pc.uses ∨ ∃ spec todo reply, pc = .spawning spec todo reply ∧ x = (m.fresh, spec) := by
  rcases (step_does h).spawn_cases hv with ⟨spec, todo, reply, expr, rfl, -, -, -, rfl⟩ |
    ⟨run, cancel, rfl, -, -, rfl⟩
  · exact .inr ⟨spec, todo, reply, rfl, List.mem_singleton.1 hx⟩
  · exact .inl hx

/-! ### One job for each state -/

/-- The jobs the states belong to after the next step of a task: it may create one more. -/
def Pc.ownersAfter (m : Shared) (owner : ArcId → JobSpec) : Pc → ArcId → JobSpec
  | .spawning spec _ _ => Function.update owner m.fresh spec
  | _ => owner

theorem ownersAfter_of_lt {arc : ArcId} (h : arc < m.fresh) :
    pc.ownersAfter m owner arc = owner arc := by
  cases pc with
  | spawning spec todo reply => exact Function.update_of_ne (Nat.ne_of_lt h) _ _
  | _ => rfl

theorem used_next (he : pc.step c b s.mem w = some e) {x : ArcId × JobSpec}
    (hx : (x.1 < s.mem.fresh ∧ owner x.1 = x.2) ∨
      ∃ spec todo reply, pc = .spawning spec todo reply ∧ x = (s.mem.fresh, spec)) :
    x.1 < e.mem.fresh ∧ pc.ownersAfter s.mem owner x.1 = x.2 := by
  rcases hx with ⟨hlt, howner⟩ | ⟨spec, todo, reply, rfl, rfl⟩
  · exact ⟨hlt.trans_le (step_does he).fresh_le, (ownersAfter_of_lt hlt).trans howner⟩
  · obtain rfl := Option.some.inj he
    exact ⟨Nat.lt_add_of_pos_right (by decide), Function.update_self ..⟩

theorem Verdicts.states_next (h : Verdicts c b as owner s) (arc : ArcId) :
    pc.statesAfter s.mem arc =
      (lastWrite arc (writes c b as ++ pc.writes s.mem)).elim .default Write.state := by
  have hsame := h.states arc
  cases pc with
  | spawning spec todo reply =>
    simp only [Pc.statesAfter, Pc.writes, List.append_nil]
    by_cases harc : arc = s.mem.fresh
    · -- nothing was written to a state that did not exist
      subst harc
      rw [Function.update_self, lastWrite_eq_none fun x hx => (h.written x hx).1.ne]
      rfl
    · rw [Function.update_of_ne harc, hsame]
  | recordOutcome run outcome =>
    simp only [Pc.statesAfter, Pc.writes, lastWrite_append_singleton]
    split_ifs with harc
    · rw [← harc, Function.update_self]
      rfl
    · rw [Function.update_of_ne (Ne.symm harc), hsame]
  | loopRecordSkip l nowMs =>
    simp only [Pc.statesAfter, Pc.writes, lastWrite_append_singleton]
    split_ifs with harc
    · rw [← harc, Function.update_self]
      rfl
    · rw [Function.update_of_ne (Ne.symm harc), hsame]
  | _ =>
    simp only [Pc.statesAfter, Pc.writes, List.append_nil]
    exact hsame

/-- **What a task writes** to a runtime state is about the job of the state. -/
theorem Verdicts.writes_of (h : Verdicts c b as owner s)
    (hrun : (schedMachine c b).run Sched.init as = some s) (hpc : s.tasks t = some pc) :
    ∀ x ∈ pc.writes s.mem, x.1 < s.mem.fresh ∧ x.2.Of c b as (owner x.1) := by
  intro x hx
  have hpcSound := (sound_run hrun).tasks t pc hpc
  have huses := h.tasks t pc hpc
  cases pc with
  | recordOutcome run outcome =>
    obtain rfl := List.mem_singleton.1 hx
    obtain ⟨hlt, howner⟩ := huses _ List.mem_cons_self
    obtain ⟨current, hserial⟩ := serial_run hrun run.key
    obtain ⟨-, before, w, hlog, houtcome⟩ := hserial.inRun t _ run hpc rfl rfl
    refine ⟨hlt, howner.symm, ?_, w, ?_, houtcome⟩
    · rw [howner]
      exact hpcSound.1.key.symm
    · rw [hlog]
      exact List.mem_append_right _ List.mem_cons_self
  | loopRecordSkip l nowMs =>
    obtain rfl := List.mem_singleton.1 hx
    obtain ⟨hlt, howner⟩ := huses _ List.mem_cons_self
    exact ⟨hlt, howner.symm, by rw [howner]; exact hpcSound.2⟩
  | _ => cases hx

theorem verdicts_init (spec : JobSpec) : Verdicts c b [] (fun _ => spec) Sched.init where
  jobs := by rintro k job ⟨⟩
  tasks := by rintro t pc ⟨⟩
  states _ := rfl
  written := by rintro x ⟨⟩

/-- **A step of a task keeps the verdicts**: a state that it creates belongs to the job that it is
about to register. -/
theorem Verdicts.run (h : Verdicts c b as owner s)
    (hrun : (schedMachine c b).run Sched.init as = some s) (hpc : s.tasks t = some pc)
    (he : pc.step c b s.mem w = some e)
    (hwrites : writes c b (as ++ [a]) = writes c b as ++ pc.writes s.mem) :
    Verdicts c b (as ++ [a]) (pc.ownersAfter s.mem owner) (s.apply t e) := by
  have huses := h.tasks t pc hpc
  have hused {x : ArcId × JobSpec} := @used_next c b s pc w e owner he x
  refine ⟨?_, ?_, ?_, ?_⟩
  · intro k job hk
    rcases (step_does he).lookup_jobs hk with hold | ⟨hjob, -⟩
    · exact hused (x := (job.state, job.spec)) (.inl (h.jobs k job hold))
    · cases pc with
      | inserting job' todo reply =>
        obtain rfl := Option.some.inj hjob
        exact hused (x := (job'.state, job'.spec)) (.inl (huses _ List.mem_cons_self))
      | _ => cases hjob
  · refine Pool.forall_tasks_apply ?_ ?_ ?_
    · intro x hx
      rcases uses_next he hx with hold | ⟨k, job, hk, rfl⟩ | hnew
      · exact hused (.inl (huses x hold))
      · exact hused (.inl (h.jobs k job hk))
      · exact hused (.inr hnew)
    · intro v p hv x hx
      rcases uses_spawn he hv hx with hold | hnew
      · exact hused (.inl (huses x hold))
      · exact hused (.inr hnew)
    · intro u q hq x hx
      obtain ⟨ns, hns⟩ := (step_does he).touch_eq
      rw [hns, uses_notify] at hx
      exact hused (.inl (h.tasks u q hq x hx))
  · intro arc
    rw [Pool.mem_apply, states_step he, hwrites]
    exact h.states_next arc
  · intro x hx
    rw [hwrites] at hx
    have hold : x.1 < s.mem.fresh ∧ x.2.Of c b as (owner x.1) :=
      (List.mem_append.1 hx).elim (h.written x) (h.writes_of hrun hpc x)
    refine ⟨hold.1.trans_le (step_does he).fresh_le, ?_⟩
    rw [ownersAfter_of_lt hold.1]
    exact hold.2.snoc hrun

/-- **Every action keeps one job for each state.** -/
theorem verdicts_step (h : Verdicts c b as owner s)
    (hrun : (schedMachine c b).run Sched.init as = some s)
    (hs : (schedMachine c b).step s a = some s') :
    ∃ owner', Verdicts c b (as ++ [a]) owner' s' := by
  have hwrites := writes_snoc (a := a) hrun
  cases a with
  | call call =>
    obtain rfl := Option.some.inj hs
    rw [show s.writes (.call call) = [] from rfl, List.append_nil] at hwrites
    have hlt {n : ℕ} (hn : n < s.mem.fresh) : n < s.mem.alloc.fresh :=
      hn.trans (Nat.lt_succ_self _)
    refine ⟨owner, ⟨fun k job hk => (h.jobs k job hk).imp_left hlt, ?_, ?_, ?_⟩⟩
    · intro u p hu x hx
      rcases Pool.tasks_add_cases hu with ⟨-, rfl⟩ | ⟨-, hq⟩
      · cases call <;> cases hx
      · exact (h.tasks u p hq x hx).imp_left hlt
    · rw [hwrites]
      exact h.states
    · rw [hwrites]
      exact fun x hx => (h.written x hx).imp hlt fun hof => hof.snoc hrun
  | run t w =>
    obtain ⟨pc, e, hpc, he, rfl⟩ := run_step hs
    rw [show s.writes (.run t w) = pc.writes s.mem by
      rw [Sched.writes, hpc, Option.elim_some]] at hwrites
    exact ⟨_, h.run hrun hpc he hwrites⟩
  | clock now =>
    obtain rfl := Option.some.inj hs
    rw [show s.writes (.clock now) = [] from rfl, List.append_nil] at hwrites
    refine ⟨owner, ⟨h.jobs, h.tasks, ?_, ?_⟩⟩
    · rw [hwrites]
      exact h.states
    · rw [hwrites]
      exact fun x hx => (h.written x hx).imp_right fun hof => hof.snoc hrun

theorem verdicts_run (h : (schedMachine c b).run Sched.init as = some s) (spec : JobSpec) :
    ∃ owner, Verdicts c b as owner s := by
  refine (Machine.runs_of_run h).invariant_snoc (I := fun as s => ∃ owner, Verdicts c b as owner s)
    ⟨_, verdicts_init spec⟩ ?_
  rintro as₁ s₁ a s₂ hruns ⟨owner, hv⟩ _ hs
  exact verdicts_step hv (Machine.run_of_runs hruns) hs

/-! ### What `describe` lists -/

/-- A dispatch never ends as `RETRYING`, and as `OFFLINE` exactly in offline mode. -/
theorem status_dispatchLoop {spec : JobSpec} {extras : DispatchExtras} {max : ℕ} :
    ∀ (left attempt : ℕ) (lastError : Option String),
      (b.dispatchLoop c spec extras w max left attempt lastError).outcome.status ∈
        [ExecutionStatus.success, .failed, .timeout, .skipped] := by
  intro left
  induction left with
  | zero =>
    intro attempt lastError
    simp only [ExecutorBundle.dispatchLoop, exhausted]
    split_ifs <;> decide
  | succ left ih =>
    intro attempt lastError
    simp only [ExecutorBundle.dispatchLoop]
    split
    · exact List.mem_cons_self
    · rename_i r _
      split_ifs
      · exact List.mem_cons_of_mem _ (List.mem_cons_of_mem _ List.mem_cons_self)
      · exact List.mem_cons_of_mem _ List.mem_cons_self
      · exact ih (attempt + 1) r.errorMessage

/-- The texts that the end of a dispatch leaves in the runtime state. -/
def ExecutorBundle.results (b : ExecutorBundle) : List String :=
  if b.offlineMode then ["OFFLINE"] else ["SUCCESS", "FAILED", "TIMEOUT", "SKIPPED"]

theorem asStr_mem_results {spec : JobSpec} {extras : DispatchExtras} :
    (b.dispatch c spec extras w).outcome.status.asStr ∈ b.results := by
  rw [ExecutorBundle.results, ExecutorBundle.dispatch]
  split_ifs with hoff
  · exact List.mem_singleton_self _
  · exact List.mem_map_of_mem (f := ExecutionStatus.asStr)
      (status_dispatchLoop spec.retry.maxAttempts 1 none)

/-- **`describe` lists verdicts.**  In every run, a row that `describe` lists for a key is that of a
job handed over under this key, and its last execution and result are those of the last write to the
runtime state of the job: none, a fire of the job outside its window, or the end of a dispatch of
the job that has come to its end in this run, which is never `RETRYING`. -/
theorem describe_verdict (h : (schedMachine c b).run Sched.init as = some s)
    {groupFilter : Option String} {key : JobKey} {d : JobDescriptor}
    (hd : s.mem.Describes c groupFilter key d) :
    ∃ job, s.mem.jobs.lookup key = some job ∧ job.spec ∈ as.flatMap Act.specs ∧
      job.spec.key = key ∧ d.schedule = job.spec.trigger.scheduleStr ∧
      (∀ x, lastWrite job.state (writes c b as) = some x → x.Of c b as job.spec) ∧
      let st := (lastWrite job.state (writes c b as)).elim .default Write.state
      d.lastExecution = st.lastExecutionMs.getD 0 ∧ d.lastResult = st.lastResult ∧
        d.lastResult ∈ "" :: "SKIPPED" :: b.results := by
  obtain ⟨-, job, hjob, rfl⟩ := Shared.describes_iff.1 hd
  obtain ⟨hspec, hkey⟩ := (sound_run h).jobs key job hjob
  obtain ⟨owner, hv⟩ := verdicts_run h job.spec
  have hstate := hv.states job.state
  have hof : ∀ x, lastWrite job.state (writes c b as) = some x → x.Of c b as job.spec := by
    intro x hx
    rw [← (hv.jobs key job hjob).2]
    exact (hv.written _ (mem_of_lastWrite hx)).2
  have hlast : (s.mem.descriptor c key job).lastResult = (s.mem.states job.state).lastResult := rfl
  refine ⟨job, hjob, hspec, hkey, rfl, hof, ?_, ?_, ?_⟩
  · rw [← hstate]
    rfl
  · rw [hlast, hstate]
  · rw [hlast, hstate]
    cases hx : lastWrite job.state (writes c b as) with
    | none => exact List.mem_cons_self
    | some x =>
      cases x with
      | skip l checked => exact List.mem_cons_of_mem _ List.mem_cons_self
      | ended run outcome now =>
        obtain ⟨-, -, w, -, rfl⟩ := hof _ hx
        exact List.mem_cons_of_mem _ (List.mem_cons_of_mem _ asStr_mem_results)

/-- A run of `demoSpec` that succeeds at the second attempt. -/
def demoRetried : List Act :=
  demoTriggered (demoWorld (.exited (some 1))) ++ demoSteps (.exited (some 1)) 5 14

/-- The row of `demoSpec` says `SUCCESS`, and that is the end of its one dispatch. -/
theorem describe_verdict_success :
    ∃ s d, (schedMachine noCrates demoBundle).run Sched.init demoRetried = some s ∧
      s.mem.Describes noCrates none demoSpec.key d ∧ d.lastResult = "SUCCESS" ∧
      ∃ (job : RegisteredJob) (x : Write),
        lastWrite job.state (writes noCrates demoBundle demoRetried) = some x ∧
        x.Of noCrates demoBundle demoRetried job.spec ∧ d.lastResult = x.state.lastResult := by
  let s := ((schedMachine noCrates demoBundle).run Sched.init demoRetried).getD Sched.init
  have hs : (schedMachine noCrates demoBundle).run Sched.init demoRetried = some s :=
    eq_some_getD (by decide)
  have hlast : (s.mem.jobs.lookup demoSpec.key).map (fun job =>
      (s.mem.descriptor noCrates demoSpec.key job).lastResult) = some "SUCCESS" := by decide
  obtain ⟨job, hjob, hlast⟩ := Option.map_eq_some_iff.1 hlast
  have hd : s.mem.Describes noCrates none demoSpec.key
      (s.mem.descriptor noCrates demoSpec.key job) :=
    Shared.describes_iff.2 ⟨rfl, job, hjob, rfl⟩
  obtain ⟨job', -, -, -, -, hof, -, hresult, -⟩ := describe_verdict hs hd
  cases hx : lastWrite job'.state (writes noCrates demoBundle demoRetried) with
  | none =>
    rw [hx, hlast] at hresult
    exact absurd hresult (by decide)
  | some x =>
    rw [hx] at hresult
    exact ⟨s, _, hs, hd, hlast, job', x, hx, hof x hx, hresult⟩

/-! ### Offline mode -/

/-- The dispatch has begun no attempt and begins none. -/
def Phase.inert : Phase → Prop
  | .offline | .done _ => True
  | _ => False

/-- The dispatch of the task, if it is in one, begins no attempt. -/
def Pc.Inert : Pc → Prop
  | .dispatching _ _ d => d.phase.inert ∧ d.started = []
  | _ => True

theorem inert_init (hoff : b.offlineMode = true) {spec : JobSpec} {extras : DispatchExtras} :
    (Dispatch.init b spec extras w).phase.inert ∧
      (Dispatch.init b spec extras w).started = [] := by
  rw [Dispatch.init, hoff]
  exact ⟨trivial, rfl⟩

theorem inert_step {d d' : Dispatch} (hd : d.phase.inert ∧ d.started = [])
    (h : d.step c b = some d') :
    (d'.phase.inert ∧ d'.started = []) ∧ d'.phase.begins = false := by
  obtain ⟨hphase, hstarted⟩ := hd
  replace h := Dispatch.next_of_step h
  simp only [Dispatch.next] at h
  split at h
  case h_11 =>
    obtain rfl := Option.some.inj h
    exact ⟨⟨trivial, hstarted⟩, rfl⟩
  case h_12 => cases h
  all_goals
    rename_i hp
    rw [hp] at hphase
    exact hphase.elim

theorem inert_kept (hoff : b.offlineMode = true) : Pc.Kept c b Pc.Inert where
  next := by
    intro m pc w e hpc he
    have hgoes := step_goes he
    generalize e.next = next at hgoes ⊢
    cases hgoes with
    | fetchCron run cancel => exact inert_init hoff
    | advance run cancel d d' hd => exact (inert_step hpc hd).1
    | _ => trivial
  spawn := by
    intro m pc w e _ he v p hv
    rcases (step_does he).spawn_cases hv with ⟨spec, todo, reply, expr, -, -, -, -, rfl⟩ |
      ⟨run, cancel, -, -, -, rfl⟩
    · trivial
    · exact inert_init hoff
  notify := by
    intro pc h ns
    cases pc with
    | dispatching run cancel d =>
      simp only [Pc.notify]
      split_ifs
      · obtain ⟨spec, extras, world, attempt, phase, started, rows⟩ := d
        cases phase <;> exact h
      · exact h
    | _ => exact h

theorem begun_next (hpc : pc.Inert) (hdoes : Does c b m w pc e) : e.mem.begun = m.begun := by
  cases hdoes with
  | quiet _ _ _ begun => exact begun
  | begin schedule hrun hjob hloop hspec hbegin =>
    obtain ⟨-, -, rfl⟩ := Shared.beginRunning_eq_ok.1 hbegin
    rfl
  | fetch run => rw [Does.mem_fetchStep]
  | advance run cancel d d' hd =>
    obtain ⟨-, hbegins⟩ := inert_step hpc hd
    simp [move, Shared.advance, hbegins]
  | _ => rfl

theorem begun_inert (hoff : b.offlineMode = true) {as : List Act}
    (h : (schedMachine c b).run Sched.init as = some s) :
    (∀ n, s.mem.begun n = 0) ∧ ∀ t pc, s.tasks t = some pc → pc.Inert := by
  let I (s : Sched) := (∀ n, s.mem.begun n = 0) ∧ ∀ t pc, s.tasks t = some pc → pc.Inert
  have hinit : I Sched.init := ⟨fun _ => rfl, by rintro t pc ⟨⟩⟩
  refine (Machine.runs_of_run h).invariant (I := I) hinit ?_
  rintro s a s' ⟨hbegun, htasks⟩ _ hs
  have hone : (schedMachine c b).Runs (fun _ _ => True) s [a] s' := .cons trivial hs (.nil s')
  refine ⟨fun n => ?_, ?_⟩
  · cases a with
    | call | clock =>
      obtain rfl := Option.some.inj hs
      exact hbegun n
    | run t w =>
      obtain ⟨pc, e, hpc, hdoes, rfl⟩ := run_does hs
      rw [Pool.mem_apply, begun_next (htasks t pc hpc) hdoes]
      exact hbegun n
  · exact (inert_kept hoff).runs hone (fun _ call _ => by cases call <;> trivial) htasks

theorem offline_rows (hoff : b.offlineMode = true)
    (h : (schedMachine c b).run Sched.init as = some s) :
    ∀ row ∈ s.mem.history, row.status = .skipped ∨
      ∃ spec ∈ as.flatMap Act.specs, ∃ now, (offlineStub spec now).rows = [row] := by
  intro row hrow
  by_cases hskip : row.status = .skipped
  · exact .inl hskip
  -- the row is one of the runs of its job, done or in progress
  let k : JobKey := ⟨row.jobGroup, row.jobName⟩
  obtain ⟨current, hserial⟩ := serialHistory_of_run h k
  have hmem : row ∈ (completed c b k as).flatMap (b.rowsOf c) ++ current := by
    rw [← hserial.rows]
    exact List.mem_filter.2 ⟨hrow, by simp [JobKey.ranRow, k, hskip]⟩
  have hstub {x : Run × DispatchWorld} (hspec : x.1.spec ∈ as.flatMap Act.specs)
      (hr : row ∈ b.rowsOf c x) :
      ∃ spec ∈ as.flatMap Act.specs, ∃ now, (offlineStub spec now).rows = [row] := by
    simp only [ExecutorBundle.rowsOf, ExecutorBundle.dispatch, hoff, if_true] at hr
    exact ⟨x.1.spec, hspec, x.2.offlineAt, by rw [List.mem_singleton.1 hr]; rfl⟩
  refine .inr ?_
  rcases List.mem_append.1 hmem with hdone | hcurrent
  · obtain ⟨x, hx, hrow⟩ := List.mem_flatMap.1 hdone
    exact hstub (hserial.completed x hx).1 hrow
  · have hbusy : ∃ t run cancel d, s.tasks t = some (.dispatching run cancel d) ∧
        run.key = k := by
      by_contra hnone
      refine List.ne_nil_of_mem hcurrent (hserial.idle fun t run cancel d ht hkey => hnone ?_)
      exact ⟨t, run, cancel, d, ht, hkey⟩
    obtain ⟨t, run, cancel, d, ht, hkey⟩ := hbusy
    obtain ⟨hspec, -, rfl, hstart⟩ := hserial.dispatching t run cancel d ht hkey
    exact hstub hspec (hstart.subset hcurrent)

/-- **Offline mode is inert.**  In every run of the scheduler of a process with
`CRONMANAGER_OFFLINE`, whatever its configuration, no dispatch begins an attempt, a request, a child
or a delay, and the history holds nothing but skips and `OFFLINE` rows of jobs handed over. -/
theorem offline_inert {cfg : AppConfig} {env : ProcEnv} (hoff : offlineFromEnv env = true)
    (h : (schedMachine c (cfg.bundle env)).run Sched.init as = some s) :
    (∀ n, s.mem.begun n = 0) ∧
      (∀ t run cancel d, s.tasks t = some (.dispatching run cancel d) → d.started = []) ∧
      ∀ row ∈ s.mem.history, row.status = .skipped ∨
        ∃ spec ∈ as.flatMap Act.specs, ∃ now, (offlineStub spec now).rows = [row] := by
  obtain ⟨hbegun, htasks⟩ := begun_inert hoff h
  exact ⟨hbegun, fun t run cancel d ht => (htasks t _ ht).2, offline_rows hoff h⟩

/-- An environment with `CRONMANAGER_OFFLINE=TRUE`. -/
def offlineEnv (name : String) : Option String :=
  if name = "CRONMANAGER_OFFLINE" then some "TRUE" else none

/-- Offline, a triggered job leaves one row and has begun nothing. -/
theorem offline_inert_triggered :
    let b := AppConfig.default.bundle offlineEnv
    ∃ s, (schedMachine noCrates b).run Sched.init
        (demoTriggered (demoWorld .timeout) ++ demoSteps .timeout 5 4) = some s ∧
      s.mem.history.length = 1 ∧ (∀ n, s.mem.begun n = 0) ∧
      ∀ row ∈ s.mem.history, row.status = .skipped ∨
        ∃ spec ∈ (demoTriggered (demoWorld .timeout) ++ demoSteps .timeout 5 4).flatMap Act.specs,
          ∃ now, (offlineStub spec now).rows = [row] := by
  intro b
  let m := schedMachine noCrates b
  let as := demoTriggered (demoWorld .timeout) ++ demoSteps .timeout 5 4
  let s := (m.run Sched.init as).getD Sched.init
  have hs : m.run Sched.init as = some s := eq_some_getD (by decide)
  obtain ⟨hbegun, -, hrows⟩ := offline_inert (by decide) hs
  exact ⟨s, hs, by decide, hbegun, hrows⟩

end CronManager
