import CronManager.Scheduler.LastExecution
import CronManager.Scheduler.Progress

/-!
# The journal of a run

The log of a run of the scheduler says which runs began, were accepted, recorded their outcome and
removed their entry.  What it says of one run is its *journal*.

* `run_journal` : the journal of a run is a prefix of *began, accepted, recorded, finished* (a fire
  of a loop is not accepted by anybody), so nothing happens to a run twice or out of order, and the
  journal is complete exactly when no task is in the run any more;
* `trigger_journal` : a `trigger_now` that returned `Ok(())` has begun and accepted exactly one run,
  and one that returned an error has begun none;
* `running_len` : the runs that began are those that finished and those in `running`.
-/

namespace CronManager

open Rust

/-- What happens to a run. -/
inductive Milestone where
  /-- Task `t` has inserted its entry, in `begin_running`. -/
  | began (t : TaskId)
  /-- The `trigger_now` of task `t` has returned. -/
  | accepted (t : TaskId)
  /-- `record_outcome`. -/
  | recorded
  /-- `running.remove`. -/
  | finished
  deriving DecidableEq

/-- What a step from this program point does to which run. -/
def Pc.milestones (m : Shared) (t : TaskId) : Pc → List (NotifyId × Milestone)
  | .triggerBegin key _ _ => if key ∈ m.running then [] else [(m.fresh, .began t)]
  | .loopBegin l _ => if l.spec.key ∈ m.running then [] else [(m.fresh, .began t)]
  | .spawnRun run _ => [(run.mine, .accepted t)]
  | .recordOutcome run _ => [(run.mine, .recorded)]
  | .finish run => [(run.mine, .finished)]
  | _ => []

/-- What an action does to which run. -/
def Sched.milestones (s : Sched) : Act → List (NotifyId × Milestone)
  | .run t _ => (s.tasks t).elim [] (·.milestones s.mem t)
  | .call _ | .clock _ => []

/-- What a log says of one run. -/
def journal (n : NotifyId) (log : List (NotifyId × Milestone)) : List Milestone :=
  (log.filter (·.1 = n)).map (·.2)

/-- The journal of a run until its dispatch is under way. -/
def Origin.opening (caller : TaskId) : Origin → List Milestone
  | .manual => [.began caller, .accepted caller]
  | .cron _ => [.began caller]

/-- The whole journal of a run. -/
def Origin.story (caller : TaskId) (o : Origin) : List Milestone :=
  o.opening caller ++ [.recorded, .finished]

/-- The journal of the run that a task is in. -/
def Pc.told (caller : TaskId) : Pc → List Milestone
  | .fetch _ | .spawnRun _ _ => [.began caller]
  | .dispatching run _ _ | .recordOutcome run _ => run.origin.opening caller
  | .finish run => run.origin.opening caller ++ [.recorded]
  | _ => []

/-- The task that began the run is still in it. -/
def Pc.calling : Pc → Bool
  | .fetch _ | .spawnRun _ _ => true
  | _ => false

/-- The journal of a run is that of the task in it, or there is no such task and the run has not
begun or is over. -/
structure Journaled (n : NotifyId) (s : Sched) (log : List (NotifyId × Milestone)) : Prop where
  unborn : s.mem.fresh ≤ n → journal n log = []
  alive : ∀ t pc run, s.tasks t = some pc → pc.runOf = some run → run.mine = n →
    ∃ caller, (pc.calling = true → caller = t) ∧ journal n log = pc.told caller
  rest : (∃ t run, s.InProgress t run ∧ run.mine = n) ∨ journal n log = [] ∨
    ∃ origin caller, journal n log = Origin.story caller origin

variable {c : Crates} {b : ExecutorBundle} {s s' : Sched} {t u : TaskId} {m : Shared} {pc : Pc}
  {w : DispatchWorld} {e : Effect Shared Pc} {run run' : Run} {n : NotifyId}
  {log log' : List (NotifyId × Milestone)}

/-! ### Logs -/

theorem journal_append : journal n (log ++ log') = journal n log ++ journal n log' := by
  rw [journal, List.filter_append, List.map_append]
  rfl

theorem journal_eq_nil (h : ∀ x ∈ log, x.1 ≠ n) : journal n log = [] := by
  rw [journal, List.filter_eq_nil_iff.2, List.map_nil]
  intro x hx
  simpa using h x hx

theorem mem_journal {x : Milestone} : x ∈ journal n log ↔ (n, x) ∈ log := by
  simp only [journal, List.mem_map, List.mem_filter, decide_eq_true_eq]
  constructor
  · rintro ⟨⟨n', x'⟩, ⟨hmem, rfl⟩, rfl⟩
    exact hmem
  · intro hmem
    exact ⟨(n, x), ⟨hmem, rfl⟩, rfl⟩

/-! ### What a step tells -/

theorem milestones_of_runOf (hrun : pc.runOf = some run) :
    ∀ x ∈ pc.milestones m t, x.1 = run.mine := by
  intro x hx
  cases pc with
  | spawnRun | recordOutcome | finish =>
    obtain rfl := Option.some.inj hrun
    rw [List.mem_singleton.1 hx]
  | fetch | dispatching => cases hx
  | _ => cases hrun

theorem milestones_of_begin (h : pc.step c b m w = some e) (hpc : pc.runOf = none) :
    pc.milestones m t = e.next.runOf.elim [] fun run => [(run.mine, .began t)] := by
  cases pc with
  | triggerBegin key extras job =>
    obtain rfl := Option.some.inj h
    simp only [Pc.milestones, beginStep, Shared.beginRunning, AList.lookup_isSome]
    split_ifs <;> rfl
  | loopBegin l tick =>
    obtain rfl := Option.some.inj h
    simp only [Pc.milestones, beginStep, Shared.beginRunning, AList.lookup_isSome]
    split_ifs <;> rfl
  | fetch | spawnRun | dispatching | recordOutcome | finish => cases hpc
  | _ =>
    have hgoes := step_goes h
    generalize e.next = next at hgoes ⊢
    cases hgoes <;> rfl

theorem told_notify {ns : List NotifyId} {caller : TaskId} :
    (pc.notify ns).told caller = pc.told caller := by
  cases pc <;> rfl

theorem calling_notify {ns : List NotifyId} : (pc.notify ns).calling = pc.calling := by
  cases pc <;> rfl

/-- **What the task of a run makes of it in one step**: it goes on, it hands it over, or the run is
over; and each time it tells what comes next in the journal. -/
theorem told_step (ho : Owned s) (hhands : pc.HandsOverManual) (hpc : s.tasks t = some pc)
    (hrun : pc.runOf = some run) (he : pc.step c b s.mem w = some e) (caller : TaskId)
    (hcaller : pc.calling = true → caller = t) :
    (e.next.runOf = some run ∧ e.spawn = none ∧
      (e.next.calling = true → caller = t) ∧
        pc.told caller ++ journal run.mine (pc.milestones s.mem t) = e.next.told caller) ∨
    (e.next.runOf = none ∧ ∃ v p, e.spawn = some (v, p) ∧ p.runOf = some run ∧
      p.calling = false ∧
        pc.told caller ++ journal run.mine (pc.milestones s.mem t) = p.told caller) ∨
    (e.next.runOf = none ∧ e.spawn = none ∧
      pc.told caller ++ journal run.mine (pc.milestones s.mem t) = run.origin.story caller) := by
  have hone {x : Milestone} : journal run.mine [(run.mine, x)] = [x] := by simp [journal]
  cases pc with
  | fetch run' =>
    obtain rfl := Option.some.inj hrun
    obtain rfl := hcaller rfl
    obtain ⟨inst, hinst, -⟩ := lookup_of_lease ho hpc rfl
    obtain rfl := Option.some.inj he
    cases horigin : run'.origin with
    | manual => exact .inl (by simp [fetchStep, hinst, horigin, move, Pc.runOf, Pc.told,
        Pc.milestones, journal])
    | cron l => exact .inl (by simp [fetchStep, hinst, horigin, move, Pc.runOf, Pc.told,
        Pc.milestones, journal, Origin.opening])
  | spawnRun run' cancel =>
    obtain rfl := Option.some.inj hrun
    obtain rfl := hcaller rfl
    obtain rfl := Option.some.inj he
    have horigin : run'.origin = .manual := hhands
    refine .inr (.inl ⟨rfl, _, _, rfl, rfl, rfl, ?_⟩)
    rw [Pc.milestones, hone, Pc.told, Pc.told, horigin]
    rfl
  | dispatching run' cancel d =>
    obtain rfl := Option.some.inj hrun
    have hgoes := step_goes he
    have hspawn : e.spawn = none := by
      cases hsp : e.spawn with
      | none => rfl
      | some vp =>
        rcases (step_does he).spawn_cases hsp with ⟨_, _, _, _, hpc', -⟩ | ⟨_, _, hpc', -⟩ <;>
          cases hpc'
    have hnil : journal run'.mine (Pc.milestones s.mem t (.dispatching run' cancel d)) = [] := rfl
    rw [hnil, List.append_nil]
    generalize e.next = next at hgoes ⊢
    cases hgoes with
    | advance => exact .inl ⟨rfl, hspawn, by rintro ⟨⟩, rfl⟩
    | complete => exact .inl ⟨rfl, hspawn, by rintro ⟨⟩, rfl⟩
  | recordOutcome run' outcome =>
    obtain rfl := Option.some.inj hrun
    obtain rfl := Option.some.inj he
    refine .inl ⟨rfl, rfl, by rintro ⟨⟩, ?_⟩
    rw [Pc.milestones, hone]
    rfl
  | finish run' =>
    obtain rfl := Option.some.inj hrun
    obtain rfl := Option.some.inj he
    refine .inr (.inr ⟨?_, rfl, ?_⟩)
    · simp only [move]
      cases run'.origin <;> rfl
    · rw [Pc.milestones, hone, Pc.told, Origin.story, List.append_assoc]
      rfl
  | _ => cases hrun

/-! ### The journals of all runs -/

theorem Journaled.step_own (h : Journaled n s log) (hid : Identified s)
    (hhands : pc.HandsOverManual) (hpc : s.tasks t = some pc) (hrun : pc.runOf = some run)
    (hmine : run.mine = n) (he : pc.step c b s.mem w = some e) :
    Journaled n (s.apply t e) (log ++ pc.milestones s.mem t) := by
  have hdoes := step_does he
  have hfresh : n < s.mem.fresh := by
    have hslot := hid.owned.exclusive.slot_of_held (held_of_inProgress ⟨pc, hpc, hrun⟩)
    exact hmine ▸ hid.owned.slotsFresh _ _ hslot
  -- no other task is in the run
  have hother {u : TaskId} {q : Pc} {run' : Run} (hut : u ≠ t) (hq : s.tasks u = some q)
      (hqrun : q.runOf = some run') : run'.mine ≠ n := by
    intro hmine'
    exact hut (eq_of_mine hid ⟨pc, hpc, hrun⟩ ⟨q, hq, hqrun⟩ (hmine.trans hmine'.symm))
  obtain ⟨caller, hcaller, htold⟩ := h.alive t pc run hpc hrun hmine
  have hjournal : journal n (log ++ pc.milestones s.mem t) =
      pc.told caller ++ journal run.mine (pc.milestones s.mem t) := by
    rw [journal_append, htold, hmine]
  have hunborn : (s.apply t e).mem.fresh ≤ n →
      journal n (log ++ pc.milestones s.mem t) = [] := fun hle =>
    absurd (hfresh.trans_le hdoes.fresh_le) (not_lt.2 hle)
  rcases told_step hid.owned hhands hpc hrun he caller hcaller with
    ⟨hsame, hspawn, hcalling, hnext⟩ | ⟨hnone, v, p, hspawn, hp, hcalling, hnext⟩ |
      ⟨hnone, hspawn, hnext⟩
  · refine ⟨hunborn, ?_, .inl ⟨t, run, ⟨e.next, Pool.tasks_apply_self, hsame⟩, hmine⟩⟩
    intro u q run' hu hrun' hmine'
    rcases runner_cases hdoes hu hrun' with ⟨rfl, rfl⟩ | ⟨cancel, -, hsp, -⟩ |
      ⟨hut, q, ns, hq, hqrun, -⟩
    · exact ⟨caller, hcalling, hjournal.trans hnext⟩
    · rw [hspawn] at hsp
      cases hsp
    · exact absurd hmine' (hother hut hq hqrun)
  · have hnew := tasks_spawn_eq_none hid.owned.tasksFresh hdoes hspawn
    have hvt : v ≠ t := by
      rintro rfl
      rw [hpc] at hnew
      cases hnew
    refine ⟨hunborn, ?_, .inl ⟨v, run, ⟨p, Pool.tasks_apply_spawn hvt hspawn, hp⟩, hmine⟩⟩
    intro u q run' hu hrun' hmine'
    rcases runner_cases hdoes hu hrun' with ⟨rfl, rfl⟩ | ⟨cancel, -, hsp, -⟩ |
      ⟨hut, q, ns, hq, hqrun, -⟩
    · rw [hnone] at hrun'
      cases hrun'
    · rw [hspawn] at hsp
      obtain ⟨rfl, rfl⟩ := Prod.mk.inj (Option.some.inj hsp)
      refine ⟨caller, ?_, hjournal.trans hnext⟩
      rw [hcalling]
      rintro ⟨⟩
    · exact absurd hmine' (hother hut hq hqrun)
  · refine ⟨hunborn, ?_, .inr (.inr ⟨run.origin, caller, hjournal.trans hnext⟩)⟩
    intro u q run' hu hrun' hmine'
    rcases runner_cases hdoes hu hrun' with ⟨rfl, rfl⟩ | ⟨cancel, -, hsp, -⟩ |
      ⟨hut, q, ns, hq, hqrun, -⟩
    · rw [hnone] at hrun'
      cases hrun'
    · rw [hspawn] at hsp
      cases hsp
    · exact absurd hmine' (hother hut hq hqrun)

theorem fresh_lt_of_begin (hdoes : Does c b m w pc e) (hpc : pc.runOf = none)
    (hrun : e.next.runOf = some run) : m.fresh < e.mem.fresh := by
  cases hdoes with
  | quiet _ _ _ _ _ _ hsame =>
    rw [hsame, hpc] at hrun
    cases hrun
  | begin schedule _ hjob hloop hspec hbegin =>
    obtain ⟨-, -, rfl⟩ := Shared.beginRunning_eq_ok.1 hbegin
    exact Nat.lt_succ_self _
  | fetch | advance | finish | handOver => cases hpc
  | _ => cases hrun

/-- A step of another task, which begins the run. -/
theorem Journaled.step_begin (h : Journaled n s log) (ho : Owned s) (hpc : s.tasks t = some pc)
    (hnone : pc.runOf = none) (hnext : e.next.runOf = some run) (hmine : run.mine = n)
    (he : pc.step c b s.mem w = some e) :
    Journaled n (s.apply t e) (log ++ pc.milestones s.mem t) := by
  have hdoes := step_does he
  have hn : s.mem.fresh = n := (mine_of_begin hdoes hnone hnext).symm.trans hmine
  have hjournal : journal n (log ++ pc.milestones s.mem t) = [.began t] := by
    rw [journal_append, h.unborn hn.le, milestones_of_begin he hnone, hnext]
    simp [journal, hmine]
  refine ⟨?_, ?_, .inl ⟨t, run, ⟨e.next, Pool.tasks_apply_self, hnext⟩, hmine⟩⟩
  · intro hle
    exact absurd (hn ▸ fresh_lt_of_begin hdoes hnone hnext) (not_lt.2 hle)
  · intro u q run' hu hrun' hmine'
    rcases runner_cases hdoes hu hrun' with ⟨rfl, rfl⟩ | ⟨cancel, rfl, -⟩ | ⟨-, q, ns, hq, hqrun, -⟩
    · rw [fetch_of_begin he hnone hrun']
      exact ⟨u, fun _ => rfl, hjournal⟩
    · cases hnone
    · -- a task in the run would have a `Notify` that was not handed out
      have hslot := ho.exclusive.slot_of_held (held_of_inProgress ⟨q, hq, hqrun⟩)
      have hlt := ho.slotsFresh _ _ hslot
      rw [hmine', hn] at hlt
      exact absurd hlt (lt_irrefl n)

theorem Journaled.step_other (h : Journaled n s log) (ho : Owned s) (hpc : s.tasks t = some pc)
    (hother : ∀ run, pc.runOf = some run → run.mine ≠ n)
    (hnext : ∀ run, e.next.runOf = some run → run.mine ≠ n)
    (he : pc.step c b s.mem w = some e) :
    Journaled n (s.apply t e) (log ++ pc.milestones s.mem t) := by
  have hdoes := step_does he
  have hnil : journal n (pc.milestones s.mem t) = [] := by
    refine journal_eq_nil ?_
    intro x hx
    cases hrun : pc.runOf with
    | some run =>
      rw [milestones_of_runOf hrun x hx]
      exact hother run hrun
    | none =>
      rw [milestones_of_begin he hrun] at hx
      cases hrun' : e.next.runOf with
      | none =>
        rw [hrun'] at hx
        cases hx
      | some run =>
        rw [hrun'] at hx
        rw [List.mem_singleton.1 hx]
        exact hnext run hrun'
  have hjournal : journal n (log ++ pc.milestones s.mem t) = journal n log := by
    rw [journal_append, hnil, List.append_nil]
  refine ⟨?_, ?_, ?_⟩
  · intro hle
    exact hjournal.trans (h.unborn (hdoes.fresh_le.trans hle))
  · intro u p run hu hrun hmine
    rw [hjournal]
    rcases runner_cases hdoes hu hrun with ⟨-, rfl⟩ | ⟨cancel, rfl, -⟩ | ⟨-, q, ns, hq, hqrun, rfl⟩
    · exact absurd hmine (hnext run hrun)
    · exact absurd hmine (hother run rfl)
    · obtain ⟨caller, hcaller, htold⟩ := h.alive u q run hq hqrun hmine
      refine ⟨caller, ?_, ?_⟩
      · rw [calling_notify]
        exact hcaller
      · rw [told_notify, htold]
  · rw [hjournal]
    rcases h.rest with ⟨u, run, hprog, hmine⟩ | hrest
    · have hne : pc.runOf ≠ some run := fun hrun => hother run hrun hmine
      exact .inl ⟨u, run, inProgress_of_runOf_ne ho hpc hdoes hne hprog, hmine⟩
    · exact .inr hrest

theorem milestones_eq (hpc : s.tasks t = some pc) :
    s.milestones (.run t w) = pc.milestones s.mem t := by
  rw [Sched.milestones, hpc, Option.elim_some]

theorem journaled_step {a : Act} (h : Journaled n s log) (hid : Identified s)
    (hhands : ∀ t pc, s.tasks t = some pc → pc.HandsOverManual)
    (hs : (schedMachine c b).step s a = some s') : Journaled n s' (log ++ s.milestones a) := by
  cases a with
  | call call =>
    obtain rfl := Option.some.inj hs
    rw [show s.milestones (.call call) = [] from rfl, List.append_nil]
    refine ⟨fun hle => h.unborn ((Nat.le_succ _).trans hle), ?_, ?_⟩
    · intro u p run hu hrun hmine
      rcases Pool.tasks_add_cases hu with ⟨-, rfl⟩ | ⟨-, hq⟩
      · cases call <;> cases hrun
      · exact h.alive u p run hq hrun hmine
    · rcases h.rest with ⟨u, run, ⟨q, hq, hrun⟩, hmine⟩ | hrest
      · have hnew := tasks_fresh_eq_none hid.owned.tasksFresh
        exact .inl ⟨u, run, ⟨q, Pool.tasks_add_of_some hnew hq, hrun⟩, hmine⟩
      · exact .inr hrest
  | run t w =>
    obtain ⟨pc, e, hpc, he, rfl⟩ := run_step hs
    rw [milestones_eq hpc]
    by_cases hown : ∃ run, pc.runOf = some run ∧ run.mine = n
    · obtain ⟨run, hrun, hmine⟩ := hown
      exact h.step_own hid (hhands t pc hpc) hpc hrun hmine he
    have hother run (hrun : pc.runOf = some run) : run.mine ≠ n :=
      fun hmine => hown ⟨run, hrun, hmine⟩
    by_cases hbegins : ∃ run, e.next.runOf = some run ∧ run.mine = n
    · obtain ⟨run, hnext, hmine⟩ := hbegins
      rcases runOf_next (step_does he) hnext with hsame | hnone
      · exact absurd hmine (hother run hsame)
      · exact h.step_begin hid.owned hpc hnone hnext hmine he
    · exact h.step_other hid.owned hpc hother
        (fun run hnext hmine => hbegins ⟨run, hnext, hmine⟩) he
  | clock now =>
    obtain rfl := Option.some.inj hs
    rw [show s.milestones (.clock now) = [] from rfl, List.append_nil]
    exact ⟨h.unborn, h.alive, h.rest⟩

variable (c b) in
/-- The log of a run of the scheduler. -/
def milestones (as : List Act) : List (NotifyId × Milestone) :=
  (schedMachine c b).outputs Sched.milestones Sched.init as

/-- The rule for what the log of a run of the scheduler says. -/
theorem milestones_invariant {I : Sched → List (NotifyId × Milestone) → Prop} {as : List Act}
    (h : (schedMachine c b).run Sched.init as = some s) (h₀ : I Sched.init [])
    (hstep : ∀ s a s' log, I s log → Identified s →
      (∀ t pc, s.tasks t = some pc → pc.HandsOverManual) →
        (schedMachine c b).step s a = some s' → I s' (log ++ s.milestones a)) :
    I s (milestones c b as) := by
  let J (s : Sched) (log : List (NotifyId × Milestone)) := (Identified s ∧
    ∀ t pc, s.tasks t = some pc → pc.HandsOverManual) ∧ I s log
  have hinit : J Sched.init [] := ⟨⟨identified_init, by rintro t pc ⟨⟩⟩, h₀⟩
  refine ((Machine.runs_of_run h).outputs_invariant (I := J) Sched.milestones [] hinit ?_).2
  rintro s a s' log ⟨⟨hid, hhands⟩, hlog⟩ - hs
  refine ⟨⟨identified_step hid hs, ?_⟩, hstep s a s' log hlog hid hhands hs⟩
  have hrun : (schedMachine c b).Runs (fun _ _ => True) s [a] s' := .cons trivial hs (.nil s')
  exact handsOver_kept.runs hrun (fun _ call _ => by cases call <;> trivial) hhands

theorem journaled_run {as : List Act} (h : (schedMachine c b).run Sched.init as = some s)
    (n : NotifyId) : Journaled n s (milestones c b as) :=
  milestones_invariant h ⟨fun _ => rfl, by rintro t pc run ⟨⟩, .inr (.inl rfl)⟩
    fun _ _ _ _ => journaled_step

/-- The journal of a run in progress is begun and not complete. -/
theorem prefix_told (hrun : pc.runOf = some run) (caller : TaskId) :
    pc.told caller <+: run.origin.story caller ∧ pc.told caller ≠ [] ∧
      pc.told caller ≠ run.origin.story caller := by
  cases pc with
  | fetch | spawnRun | dispatching | recordOutcome | finish =>
    obtain rfl := Option.some.inj hrun
    simp only [Pc.told, Origin.story]
    cases Run.origin _ <;> simp [Origin.opening]
  | _ => cases hrun

theorem Journaled.tells (h : Journaled n s log) : ∃ (origin : Origin) (caller : TaskId),
    journal n log <+: origin.story caller ∧
      ((∃ t run, s.InProgress t run ∧ run.mine = n) ↔
        journal n log ≠ [] ∧ journal n log ≠ origin.story caller) := by
  by_cases hprog : ∃ t run, s.InProgress t run ∧ run.mine = n
  · obtain ⟨t, run, ⟨pc, hpc, hrun⟩, hmine⟩ := hprog
    obtain ⟨caller, -, htold⟩ := h.alive t pc run hpc hrun hmine
    obtain ⟨hpre, hne, hstory⟩ := prefix_told hrun caller
    refine ⟨run.origin, caller, htold ▸ hpre, ?_⟩
    rw [htold]
    exact ⟨fun _ => ⟨hne, hstory⟩, fun _ => ⟨t, run, ⟨pc, hpc, hrun⟩, hmine⟩⟩
  · rcases h.rest with hrest | hnil | ⟨origin, caller, hstory⟩
    · exact absurd hrest hprog
    · refine ⟨.manual, 0, hnil ▸ List.nil_prefix, ?_⟩
      exact ⟨fun hp => absurd hp hprog, fun hne => absurd hnil hne.1⟩
    · refine ⟨origin, caller, hstory ▸ List.prefix_refl _, ?_⟩
      exact ⟨fun hp => absurd hp hprog, fun hne => absurd hstory hne.2⟩

/-- **Runs are carried out once.**  In its journal a run begins, is accepted, records its outcome
and removes its entry, each at most once and in this order; it is in progress exactly while it has
begun and its journal is not complete. -/
theorem run_journal {as : List Act} (h : (schedMachine c b).run Sched.init as = some s)
    (n : NotifyId) : ∃ (origin : Origin) (caller : TaskId),
      journal n (milestones c b as) <+: origin.story caller ∧
        ((∃ t run, s.InProgress t run ∧ run.mine = n) ↔
          journal n (milestones c b as) ≠ [] ∧
            journal n (milestones c b as) ≠ origin.story caller) :=
  (journaled_run h n).tells

/-- The first of two runs, which is over: its journal is complete. -/
theorem run_journal_twice :
    ∃ s, demoSched.run Sched.init demoTwice = some s ∧
      journal 4 (milestones noCrates demoBundle demoTwice) = Origin.story 3 .manual ∧
        ¬ ∃ t run, s.InProgress t run ∧ run.mine = 4 := by
  let s := (demoSched.run Sched.init demoTwice).getD Sched.init
  have hs : demoSched.run Sched.init demoTwice = some s := eq_some_getD (by decide)
  have hjournal :
      journal 4 (milestones noCrates demoBundle demoTwice) = Origin.story 3 .manual := by decide
  obtain ⟨origin, caller, hpre, hprog⟩ := run_journal hs 4
  refine ⟨s, hs, hjournal, fun h => (hprog.1 h).2 (hpre.eq_of_length_le ?_)⟩
  rw [hjournal]
  cases origin with
  | manual => exact le_refl 4
  | cron l => exact Nat.le_succ 3

/-! ### The runs of one caller -/

/-- The runs of which a log says this. -/
def runsWith (x : Milestone) (log : List (NotifyId × Milestone)) : List NotifyId :=
  (log.filter (·.2 = x)).map (·.1)

/-- The runs that a call of `trigger_now` has begun and accepted. -/
def Pc.Tally (began accepted : List NotifyId) : Pc → Prop
  | .registering _ reply | .spawning _ _ reply | .inserting _ _ reply => ∀ r, reply ≠ .triggered r
  | .triggerLookup _ _ | .triggerBegin _ _ _ | .returned (.triggered (.error _)) =>
    began = [] ∧ accepted = []
  | .fetch run | .spawnRun run _ => run.origin = .manual → began = [run.mine] ∧ accepted = []
  | .returned (.triggered (.ok ())) => ∃ n, began = [n] ∧ accepted = [n]
  | _ => True

/-- What the log says of the runs of task `t` is what its program point says. -/
structure Tallied (t : TaskId) (s : Sched) (log : List (NotifyId × Milestone)) : Prop where
  unborn : s.mem.fresh ≤ t → runsWith (.began t) log = [] ∧ runsWith (.accepted t) log = []
  alive : ∀ pc, s.tasks t = some pc →
    pc.Tally (runsWith (.began t) log) (runsWith (.accepted t) log)

variable {began accepted : List NotifyId}

theorem runsWith_append {x : Milestone} :
    runsWith x (log ++ log') = runsWith x log ++ runsWith x log' := by
  rw [runsWith, List.filter_append, List.map_append]
  rfl

theorem mem_runsWith {x : Milestone} : n ∈ runsWith x log ↔ (n, x) ∈ log := by
  simp only [runsWith, List.mem_map, List.mem_filter, decide_eq_true_eq]
  constructor
  · rintro ⟨⟨n', x'⟩, ⟨hmem, rfl⟩, rfl⟩
    exact hmem
  · intro hmem
    exact ⟨(n, x), ⟨hmem, rfl⟩, rfl⟩

theorem runsWith_other (htu : t ≠ u) : runsWith (.began u) (pc.milestones m t) = [] ∧
    runsWith (.accepted u) (pc.milestones m t) = [] := by
  cases pc with
  | triggerBegin | loopBegin =>
    simp only [Pc.milestones]
    split_ifs <;> simp [runsWith, htu]
  | _ => simp [runsWith, Pc.milestones, htu]

theorem tally_notify {ns : List NotifyId} (h : pc.Tally began accepted) :
    (pc.notify ns).Tally began accepted := by
  cases pc <;> exact h

theorem tally_entry {call : Call} : call.entry.Tally [] [] := by
  cases call with
  | triggerNow => exact ⟨rfl, rfl⟩
  | stop | reloadFrom => trivial
  | register | registerAll => rintro r ⟨⟩

/-- **A step of a call keeps its tally.** -/
theorem tally_next (h : pc.Tally began accepted) (hhands : pc.HandsOverManual)
    (he : pc.step c b m w = some e) :
    e.next.Tally (began ++ runsWith (.began t) (pc.milestones m t))
      (accepted ++ runsWith (.accepted t) (pc.milestones m t)) := by
  have hgoes := step_goes he
  have hbegin (hnone : pc.runOf = none) := milestones_of_begin (t := t) he hnone
  generalize e.next = next at hgoes hbegin ⊢
  cases hgoes with
  | beginManual key extras job n =>
    obtain ⟨rfl, rfl⟩ := h
    rw [hbegin rfl]
    intro _
    simp [Pc.runOf, runsWith]
  | refuse => simpa [Pc.Tally, hbegin rfl, Pc.runOf, runsWith] using h
  | handOver run cancel =>
    obtain ⟨rfl, rfl⟩ := h hhands
    exact ⟨run.mine, by simp [runsWith, Pc.milestones], by simp [runsWith, Pc.milestones]⟩
  | returnReply reply =>
    cases reply with
    | triggered r => exact absurd rfl (h r)
    | _ => trivial
  | remove | spawn | insert => exact h
  | clear => rintro r ⟨⟩
  | lookup | notFound | fetchManual => simpa [Pc.Tally, Pc.milestones, runsWith] using h
  | beginCron => rintro ⟨⟩
  | _ => trivial

theorem fresh_le_act {a : Act} (hs : (schedMachine c b).step s a = some s') :
    s.mem.fresh ≤ s'.mem.fresh := by
  cases a with
  | call call =>
    obtain rfl := Option.some.inj hs
    exact Nat.le_succ _
  | run t w =>
    obtain ⟨pc, e, -, he, rfl⟩ := run_step hs
    exact (step_does he).fresh_le
  | clock now =>
    obtain rfl := Option.some.inj hs
    exact le_refl _

theorem tallied_step {a : Act} (h : Tallied u s log) (ho : Owned s)
    (hhands : ∀ t pc, s.tasks t = some pc → pc.HandsOverManual)
    (hs : (schedMachine c b).step s a = some s') : Tallied u s' (log ++ s.milestones a) := by
  -- the log says nothing new of the runs of a task that does not move
  have hquiet (ha : ∀ w, a ≠ .run u w) (x : Milestone) (hx : x = .began u ∨ x = .accepted u) :
      runsWith x (log ++ s.milestones a) = runsWith x log := by
    rw [runsWith_append]
    cases a with
    | run t w =>
      have htu : t ≠ u := fun htu => ha w (htu ▸ rfl)
      cases hpc : s.tasks t with
      | none => simp [Sched.milestones, hpc, runsWith]
      | some pc =>
        obtain ⟨hbegan, haccepted⟩ := @runsWith_other t u s.mem pc htu
        rw [milestones_eq hpc]
        rcases hx with rfl | rfl
        · rw [hbegan, List.append_nil]
        · rw [haccepted, List.append_nil]
    | call | clock =>
      rw [Sched.milestones, runsWith, runsWith, List.filter_nil, List.map_nil, List.append_nil]
  have hsilent (hle : s.mem.fresh ≤ u) : runsWith (.began u) (log ++ s.milestones a) = [] ∧
      runsWith (.accepted u) (log ++ s.milestones a) = [] := by
    have ha w (hw : a = .run u w) : False := by
      subst hw
      obtain ⟨pc, e, hpc, -, -⟩ := run_step hs
      exact absurd (ho.tasksFresh u pc hpc) (not_lt.2 hle)
    obtain ⟨hbegan, haccepted⟩ := h.unborn hle
    exact ⟨(hquiet ha _ (.inl rfl)).trans hbegan, (hquiet ha _ (.inr rfl)).trans haccepted⟩
  refine ⟨fun hle => hsilent ((fresh_le_act hs).trans hle), fun p hp => ?_⟩
  · cases step_becomes hs hp with
    | @moved pc e w hpc he =>
      obtain ⟨pc', e', hpc', he', rfl⟩ := run_step hs
      rw [milestones_eq hpc, runsWith_append, runsWith_append]
      exact tally_next (h.alive pc hpc) (hhands u pc hpc) he
    | @stayed pc a ns hpc ha =>
      rw [hquiet ha _ (.inl rfl), hquiet ha _ (.inr rfl)]
      exact tally_notify (h.alive pc hpc)
    | called call hu =>
      obtain ⟨hbegan, haccepted⟩ := hsilent hu.ge
      rw [hbegan, haccepted]
      exact tally_entry
    | looped => trivial
    | handed => trivial

theorem tallied_run {as : List Act} (h : (schedMachine c b).run Sched.init as = some s)
    (t : TaskId) : Tallied t s (milestones c b as) :=
  milestones_invariant h ⟨fun _ => ⟨rfl, rfl⟩, by rintro pc ⟨⟩⟩
    fun _ _ _ _ hlog hid hhands hs => tallied_step hlog hid.owned hhands hs

theorem opening_of_accepted {origin : Origin} {caller : TaskId} {js : List Milestone}
    (hpre : js <+: origin.story caller) (hmem : .accepted t ∈ js) :
    [.began t, .accepted t] <+: js := by
  cases origin with
  | manual =>
    have hstory := hpre.subset hmem
    simp only [Origin.story, Origin.opening, List.cons_append, List.nil_append, List.mem_cons,
      reduceCtorEq, Milestone.accepted.injEq, List.not_mem_nil, or_false, false_or] at hstory
    subst hstory
    rcases List.prefix_cons_iff.1 hpre with rfl | ⟨js, rfl, hpre'⟩
    · cases hmem
    rcases List.prefix_cons_iff.1 hpre' with rfl | ⟨js, rfl, -⟩
    · simp at hmem
    · exact List.prefix_append [.began t, .accepted t] js
  | cron l =>
    have hstory := hpre.subset hmem
    simp [Origin.story, Origin.opening] at hstory

/-- **Triggers are carried out once.**  A `trigger_now` that has returned `Ok(())` has begun and
accepted one run, and no other; one that has returned an error has begun none. -/
theorem trigger_journal {as : List Act} (h : (schedMachine c b).run Sched.init as = some s) :
    (s.tasks t = some (.returned (.triggered (.ok ()))) → ∃ n,
      [.began t, .accepted t] <+: journal n (milestones c b as) ∧
        ∀ n', .began t ∈ journal n' (milestones c b as) → n' = n) ∧
    ∀ err, s.tasks t = some (.returned (.triggered (.error err))) →
      ∀ n, .began t ∉ journal n (milestones c b as) := by
  have halive := (tallied_run h t).alive
  constructor
  · intro ht
    obtain ⟨n, hbegan, haccepted⟩ := halive _ ht
    obtain ⟨origin, caller, hpre, -⟩ := (journaled_run h n).tells
    refine ⟨n, opening_of_accepted hpre ?_, ?_⟩
    · rw [mem_journal, ← mem_runsWith, haccepted]
      exact List.mem_singleton_self n
    · intro n' hn'
      rw [mem_journal, ← mem_runsWith, hbegan] at hn'
      exact List.mem_singleton.1 hn'
  · intro err ht n hn
    obtain ⟨hbegan, -⟩ := halive _ ht
    rw [mem_journal, ← mem_runsWith, hbegan] at hn
    cases hn

/-- Trigger `demoSpec`, and once more while it is running. -/
def demoAgain : List Act :=
  demoTriggered (demoWorld .timeout) ++ .call (.triggerNow demoSpec.key noExtras) ::
    demoSteps .timeout 6 2

/-- The first call begins the run, and the second begins none. -/
theorem trigger_journal_again :
    (∃ n, [.began 3, .accepted 3] <+: journal n (milestones noCrates demoBundle demoAgain) ∧
      ∀ n', .began 3 ∈ journal n' (milestones noCrates demoBundle demoAgain) → n' = n) ∧
    ∀ n, .began 6 ∉ journal n (milestones noCrates demoBundle demoAgain) := by
  let s := (demoSched.run Sched.init demoAgain).getD Sched.init
  have hs : demoSched.run Sched.init demoAgain = some s := eq_some_getD (by decide)
  refine ⟨(trigger_journal hs).1 rfl, (trigger_journal hs).2 (.jobAlreadyRunning _ _) rfl⟩

/-! ### The runs in progress -/

def Milestone.begins : Milestone → Bool
  | .began _ => true
  | _ => false

/-- **The table of running instances after a step.** -/
theorem running_step (ho : Owned s) (hpc : s.tasks t = some pc)
    (he : pc.step c b s.mem w = some e) :
    e.mem.running.len + (pc.milestones s.mem t).countP (·.2 = .finished) =
      s.mem.running.len + (pc.milestones s.mem t).countP (·.2.begins) := by
  have hdoes := step_does he
  cases hdoes with
  | quiet jobs running fresh begun taken spawn hsame =>
    rw [running]
    cases pc with
    | triggerBegin | loopBegin =>
      have hnone : e.next.runOf = none := hsame
      rw [milestones_of_begin he rfl, hnone]
      rfl
    | finish run =>
      have hgoes := step_goes he
      generalize e.next = next at hgoes hsame
      cases hgoes <;> cases hsame
    | _ => rfl
  | begin schedule hrun hjob hloop hspec hbegin =>
    obtain ⟨hnone, -, rfl⟩ := Shared.beginRunning_eq_ok.1 hbegin
    rw [milestones_of_begin he hrun]
    exact (Nat.add_zero _).trans (HashMap.len_insert_of_notMem (AList.lookup_eq_none.1 hnone))
  | fetch run =>
    rw [Does.mem_fetchStep]
    rfl
  | finish run =>
    -- the entry that the removal finds is the task's own
    have hkey : run.key ∈ s.mem.running := mem_running_of_inProgress ho ⟨_, hpc, rfl⟩
    have hpos : 0 < s.mem.running.len := by
      rw [HashMap.len_eq_length_keys]
      exact List.length_pos_of_mem (AList.mem_keys.1 hkey)
    have hlen : (move (s.mem.removeRunning run.key) run.origin.afterRun).mem.running.len =
        s.mem.running.len - 1 := HashMap.len_erase hkey
    rw [hlen]
    simp only [Pc.milestones, List.countP_singleton, decide_true, if_true, Milestone.begins]
    exact Nat.sub_add_cancel hpos
  | _ => rfl

/-- **No run is lost.**  The runs that began are those that finished and those in `running`. -/
theorem running_len {as : List Act} (h : (schedMachine c b).run Sched.init as = some s) :
    (milestones c b as).countP (·.2.begins) =
      (milestones c b as).countP (·.2 = .finished) + s.mem.running.len := by
  refine milestones_invariant
    (I := fun s log => log.countP (·.2.begins) = log.countP (·.2 = .finished) + s.mem.running.len)
    h rfl ?_
  intro s a s' log hlog hid _ hs
  rw [List.countP_append, List.countP_append]
  cases a with
  | run t w =>
    obtain ⟨pc, e, hpc, he, rfl⟩ := run_step hs
    have hstep := running_step hid.owned hpc he
    rw [milestones_eq hpc, Pool.mem_apply]
    omega
  | call | clock =>
    obtain rfl := Option.some.inj hs
    exact hlog

/-- After the second call, one run has begun, and it is in progress. -/
theorem running_len_again :
    ∃ s, demoSched.run Sched.init demoAgain = some s ∧ s.mem.running.len = 1 ∧
      (milestones noCrates demoBundle demoAgain).countP (·.2.begins) =
        (milestones noCrates demoBundle demoAgain).countP (·.2 = .finished) + 1 := by
  let s := (demoSched.run Sched.init demoAgain).getD Sched.init
  have hs : demoSched.run Sched.init demoAgain = some s := eq_some_getD (by decide)
  have hlen : s.mem.running.len = 1 := by decide
  refine ⟨s, hs, hlen, ?_⟩
  rw [running_len hs, hlen]

end CronManager
