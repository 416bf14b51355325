import CronManager.Scheduler.Runs

/-!
# Which call is behind a run or a signal

Each call of the API is a task of its own.  `asked` says which task serves which call, and the log
of a run of the scheduler says which task began which run (`milestones`) and which sent a signal
through which `Notify` (`signalled`).  Together they say for whom something happened:

* `manual_of_asked` : a manual run has the key and the overrides of the `trigger_now` call whose
  task began it;
* `signal_of_asked` : every signal that a running instance has got was sent by the task of a `stop`
  of its own key, or of a reload.
-/

namespace CronManager

open Rust

/-- The call that an action makes, with the task that serves it. -/
def Sched.asked (s : Sched) : Act → List (TaskId × Call)
  | .call api => [(s.mem.fresh, api)]
  | .run _ _ | .clock _ => []

/-- The signals that the next step of task `t` sends. -/
def Pc.signalled (m : Shared) (t : TaskId) : Pc → List (NotifyId × TaskId)
  | .stopSignal key => (m.running.lookup key).toList.map fun inst => (inst.cancel, t)
  | .reloadSignal _ => m.running.values.map fun inst => (inst.cancel, t)
  | _ => []

/-- The signals that an action sends, with the task that sends them. -/
def Sched.signalled (s : Sched) : Act → List (NotifyId × TaskId)
  | .run t _ => (s.tasks t).elim [] (·.signalled s.mem t)
  | .call _ | .clock _ => []

section

variable (c : Crates) (b : ExecutorBundle) (as : List Act)

/-- The calls of a run of the scheduler, with their tasks. -/
def asked : List (TaskId × Call) := (schedMachine c b).outputs Sched.asked Sched.init as

/-- The signals of a run of the scheduler, with the tasks that sent them. -/
def signalled : List (NotifyId × TaskId) :=
  (schedMachine c b).outputs Sched.signalled Sched.init as

end

/-- The call signals the instance of the key. -/
def Call.Stops (k : JobKey) : Call → Prop
  | .stop key => key = k
  | .reloadFrom _ => True
  | _ => False

/-- The task is yet to signal the instance of the key. -/
def Pc.Stops (k : JobKey) : Pc → Prop
  | .stopCheck key | .stopSignal key => key = k
  | .reloadSignal _ => True
  | _ => False

/-- A task in a `trigger_now` call serves that call, and a manual run belongs to the call whose
task began it. -/
def Pc.Triggered (asked : List (TaskId × Call)) (log : List (NotifyId × Milestone)) (t : TaskId) :
    Pc → Prop
  | .triggerLookup key extras | .triggerBegin key extras _ => (t, .triggerNow key extras) ∈ asked
  | .fetch run | .spawnRun run _ | .dispatching run _ _ | .recordOutcome run _ | .finish run =>
    run.origin = .manual →
      ∃ u, (run.mine, .began u) ∈ log ∧ (u, .triggerNow run.key run.extras) ∈ asked
  | _ => True

/-- A task that is to signal an instance serves a call for it, all signals are in the log, and those
that a running instance has got were sent by tasks of such calls. -/
structure Sched.Signalled (asked : List (TaskId × Call)) (sent : List (NotifyId × TaskId))
    (s : Sched) : Prop where
  tasks : ∀ t pc, s.tasks t = some pc → ∀ k, pc.Stops k → ∃ api, (t, api) ∈ asked ∧ api.Stops k
  logged : ∀ n, s.mem.signals n = (sent.map Prod.fst).count n
  sent : ∀ n t, (n, t) ∈ sent → n < s.mem.fresh ∧
    ∀ k, s.mem.slots k = some n → ∃ api, (t, api) ∈ asked ∧ api.Stops k

variable {c : Crates} {b : ExecutorBundle} {s s' : Sched} {t u : TaskId} {m : Shared} {pc : Pc}
  {w : DispatchWorld} {e : Effect Shared Pc} {as : List Act} {a : Act}
  {calls calls' : List (TaskId × Call)} {log log' : List (NotifyId × Milestone)}
  {sent sent' : List (NotifyId × TaskId)}

theorem asked_snoc (h : (schedMachine c b).run Sched.init as = some s) :
    asked c b (as ++ [a]) = asked c b as ++ s.asked a := (Machine.runs_of_run h).outputs_snoc

theorem signalled_snoc (h : (schedMachine c b).run Sched.init as = some s) :
    signalled c b (as ++ [a]) = signalled c b as ++ s.signalled a :=
  (Machine.runs_of_run h).outputs_snoc

theorem milestones_snoc (h : (schedMachine c b).run Sched.init as = some s) :
    milestones c b (as ++ [a]) = milestones c b as ++ s.milestones a :=
  (Machine.runs_of_run h).outputs_snoc

/-! ### The call behind a manual run -/

theorem triggered_mono (hcalls : calls ⊆ calls') (hlog : log ⊆ log')
    (h : pc.Triggered calls log t) : pc.Triggered calls' log' t := by
  cases pc with
  | triggerLookup | triggerBegin => exact hcalls h
  | fetch | spawnRun | dispatching | recordOutcome | finish =>
    intro horigin
    obtain ⟨u, hbegan, hcall⟩ := h horigin
    exact ⟨u, hlog hbegan, hcalls hcall⟩
  | _ => trivial

theorem triggered_notify {ns : List NotifyId} (h : pc.Triggered calls log t) :
    (pc.notify ns).Triggered calls log t := by
  cases pc <;> exact h

theorem triggered_next (h : pc.Triggered calls log t) (he : pc.step c b m w = some e) :
    e.next.Triggered calls (log ++ pc.milestones m t) t := by
  have hold := triggered_mono (List.Subset.refl calls)
    (List.subset_append_left log (pc.milestones m t)) h
  have hbegins := @milestones_of_begin c b t m pc w e he
  have hgoes := step_goes he
  generalize e.next = next at hgoes hbegins
  cases hgoes with
  | lookup | fetchManual | fetchCron | advance | complete | recordOutcome => exact hold
  | beginManual key extras job n =>
    intro _
    refine ⟨t, ?_, h⟩
    rw [hbegins rfl]
    exact List.mem_append_right _ List.mem_cons_self
  | beginCron => rintro ⟨⟩
  | _ => trivial

theorem triggered_step (h : ∀ t pc, s.tasks t = some pc → pc.Triggered calls log t)
    (hs : (schedMachine c b).step s a = some s') :
    ∀ t pc, s'.tasks t = some pc →
      pc.Triggered (calls ++ s.asked a) (log ++ s.milestones a) t := by
  intro u p hp
  have hbecomes := step_becomes hs hp
  cases hbecomes with
  | moved w hpc he =>
    rw [milestones_eq hpc]
    exact triggered_mono (List.subset_append_left _ _) (List.Subset.refl _)
      (triggered_next (h u _ hpc) he)
  | stayed ns hpc =>
    exact triggered_notify (triggered_mono (List.subset_append_left _ _)
      (List.subset_append_left _ _) (h u _ hpc))
  | called call hu =>
    subst hu
    cases call with
    | triggerNow => exact List.mem_append_right _ List.mem_cons_self
    | _ => trivial
  | looped => trivial
  | handed w run cancel d ht hu hpc =>
    have hspawn := h _ _ hpc
    have hnew : (Pc.dispatching run cancel d).Triggered calls log u := hspawn
    exact triggered_mono (List.subset_append_left _ _) (List.subset_append_left _ _) hnew

/-- **The call behind a manual run.**  A manual run was begun by the task of a `trigger_now` call,
and has its key and its overrides. -/
theorem manual_of_asked (h : (schedMachine c b).run Sched.init as = some s) {run : Run}
    (hpc : s.tasks t = some pc) (hrun : pc.runOf = some run) (hmanual : run.origin = .manual) :
    ∃ u, (run.mine, .began u) ∈ milestones c b as ∧
      (u, .triggerNow run.key run.extras) ∈ asked c b as := by
  have hall := (Machine.runs_of_run h).invariant_snoc (I := fun as s => ∀ t pc,
    s.tasks t = some pc → pc.Triggered (asked c b as) (milestones c b as) t)
    (by rintro t pc ⟨⟩) fun as₁ s₁ a s₂ hruns hI _ hs => by
      have hrun₁ := Machine.run_of_runs hruns
      rw [asked_snoc hrun₁, milestones_snoc hrun₁]
      exact triggered_step hI hs
  have htask := hall t pc hpc
  cases pc with
  | fetch | spawnRun | dispatching | recordOutcome | finish =>
    obtain rfl := Option.some.inj hrun
    exact htask hmanual
  | _ => cases hrun

/-! ### The call behind a signal -/

theorem stops_next {k : JobKey} (h : pc.step c b m w = some e) (hnext : e.next.Stops k) :
    pc.Stops k := by
  have hgoes := step_goes h
  generalize e.next = next at hgoes hnext
  cases hgoes with
  | stopCheck key => exact hnext
  | _ => exact hnext.elim

theorem stops_notify {k : JobKey} {ns : List NotifyId} (h : (pc.notify ns).Stops k) :
    pc.Stops k := by
  cases pc <;> exact h

theorem not_stops_spawn {k : JobKey} (h : pc.step c b m w = some e) :
    ∀ v p, e.spawn = some (v, p) → ¬ p.Stops k := by
  intro v p hv
  rcases (step_does h).spawn_cases hv with ⟨spec, todo, reply, expr, -, -, -, -, rfl⟩ |
    ⟨run, cancel, -, -, -, rfl⟩
  · exact id
  · exact id

/-- **The signals of a step**: none, or those that it logs, in slots that the task was to signal. -/
theorem signals_step (h : pc.step c b m w = some e) :
    pc.signalled m t = [] ∧ e.mem.signals = m.signals ∨
      e.mem.signals = (fun n => m.signals n + ((pc.signalled m t).map Prod.fst).count n) ∧
        e.mem.slots = m.slots ∧ ∀ n u, (n, u) ∈ pc.signalled m t →
          u = t ∧ ∃ k, m.slots k = some n ∧ pc.Stops k := by
  cases pc with
  | registering todo reply => cases todo <;> cases h <;> exact .inl ⟨rfl, rfl⟩
  | reloadSignal loaded =>
    cases h
    have hlog : (Pc.signalled m t (.reloadSignal loaded)).map Prod.fst =
        m.running.values.map (·.cancel) := by
      simp only [Pc.signalled, List.map_map, Function.comp_def]
    rw [hlog]
    refine .inr ⟨rfl, rfl, fun n u hn => ?_⟩
    obtain ⟨inst, hinst, heq⟩ := List.mem_map.1 hn
    obtain ⟨rfl, rfl⟩ := Prod.mk.inj heq
    obtain ⟨k, hk⟩ := HashMap.mem_values.1 hinst
    exact ⟨rfl, k, by rw [Shared.slots, hk, Option.map_some], trivial⟩
  | stopSignal key =>
    simp only [Pc.step] at h
    split at h <;> rename_i hinst <;> cases h
    · exact .inl ⟨by rw [Pc.signalled, hinst]; rfl, rfl⟩
    · rename_i inst
      have hlog : Pc.signalled m t (.stopSignal key) = [(inst.cancel, t)] := by
        rw [Pc.signalled, hinst]
        rfl
      rw [hlog]
      refine .inr ⟨rfl, rfl, fun n u hn => ?_⟩
      obtain ⟨rfl, rfl⟩ := Prod.mk.inj (List.mem_singleton.1 hn)
      exact ⟨rfl, key, by rw [Shared.slots, hinst, Option.map_some], rfl⟩
  | triggerBegin | loopBegin =>
    obtain rfl := Option.some.inj h
    simp only [beginStep]
    split
    · rename_i hbegin
      obtain ⟨-, -, rfl⟩ := Shared.beginRunning_eq_ok.1 hbegin
      exact .inl ⟨rfl, rfl⟩
    · exact .inl ⟨rfl, rfl⟩
  | fetch run =>
    obtain rfl := Option.some.inj h
    rw [Does.mem_fetchStep]
    exact .inl ⟨rfl, rfl⟩
  | dispatching run cancel d =>
    simp only [Pc.step, dispatchStep] at h
    split at h
    · cases h
      exact .inl ⟨rfl, rfl⟩
    · obtain ⟨d', -, rfl⟩ := Option.map_eq_some_iff.1 h
      exact .inl ⟨rfl, rfl⟩
  | triggerLookup | stopCheck | loopParse | loopNext | loopWindow =>
    simp only [Pc.step] at h
    split at h <;> cases h <;> exact .inl ⟨rfl, rfl⟩
  | _ => cases h <;> exact .inl ⟨rfl, rfl⟩

/-- A `Notify` that is in a slot after a step was there before, or is a new one. -/
theorem slots_step {k : JobKey} {n : NotifyId} (h : pc.step c b m w = some e)
    (hk : e.mem.slots k = some n) : m.slots k = some n ∨ n = m.fresh := by
  rcases (step_does h).slots_cases with hsame | ⟨key, hnew, -⟩ | ⟨key, hgone⟩
  · exact .inl (hsame ▸ hk)
  · rw [hnew, Function.update_apply] at hk
    split_ifs at hk
    · exact .inr (Option.some.inj hk).symm
    · exact .inl hk
  · rw [hgone, Function.update_apply] at hk
    split_ifs at hk
    exact .inl hk

theorem Sched.Signalled.mono (hcalls : calls ⊆ calls') (h : s.Signalled calls sent) :
    s.Signalled calls' sent where
  tasks t pc hpc k hk := by
    obtain ⟨api, hcall, hstops⟩ := h.tasks t pc hpc k hk
    exact ⟨api, hcalls hcall, hstops⟩
  logged := h.logged
  sent n t hn := by
    refine ⟨(h.sent n t hn).1, fun k hk => ?_⟩
    obtain ⟨api, hcall, hstops⟩ := (h.sent n t hn).2 k hk
    exact ⟨api, hcalls hcall, hstops⟩

theorem Sched.Signalled.run (h : s.Signalled calls sent) (hid : Identified s)
    (hpc : s.tasks t = some pc) (he : pc.step c b s.mem w = some e) :
    Sched.Signalled calls (sent ++ pc.signalled s.mem t) (s.apply t e) := by
  have hdoes := step_does he
  have hsignals := @signals_step c b t s.mem pc w e he
  refine ⟨?_, fun n => ?_, fun n u hsent => ?_⟩
  · intro u p hp k hk
    rcases Pool.tasks_apply_cases hp with ⟨rfl, rfl⟩ | ⟨-, hsp⟩ | ⟨-, q, hq, rfl⟩
    · exact h.tasks u pc hpc k (stops_next he hk)
    · exact absurd hk (not_stops_spawn he u p hsp)
    · obtain ⟨ns, hns⟩ := hdoes.touch_eq
      rw [hns] at hk
      exact h.tasks u q hq k (stops_notify hk)
  · rw [Pool.mem_apply, List.map_append, List.count_append, ← h.logged n]
    rcases hsignals with ⟨hnone, hsame⟩ | ⟨hcount, -⟩
    · rw [hnone, hsame, List.map_nil, List.count_nil, Nat.add_zero]
    · rw [hcount]
  · rw [Pool.mem_apply]
    rcases List.mem_append.1 hsent with hold | hnew
    · obtain ⟨hfresh, hcalls⟩ := h.sent n u hold
      refine ⟨hfresh.trans_le hdoes.fresh_le, fun k hk => ?_⟩
      rcases slots_step he hk with hk' | hn
      · exact hcalls k hk'
      · -- the new `Notify` has got no signal yet
        exact absurd hn hfresh.ne
    · rcases hsignals with ⟨hnone, -⟩ | ⟨-, hslots, hown⟩
      · rw [hnone] at hnew
        cases hnew
      · obtain ⟨rfl, k', hk', hstops⟩ := hown n u hnew
        refine ⟨(hid.owned.slotsFresh k' n hk').trans_le hdoes.fresh_le, fun k hk => ?_⟩
        rw [hid.distinct k k' n (hslots ▸ hk) hk']
        exact h.tasks u pc hpc k' hstops

/-- The call at which a task begins is the one it serves. -/
theorem stops_of_entry {k : JobKey} {api : Call} (h : api.entry.Stops k) : api.Stops k := by
  cases api <;> exact h

theorem signalled_step (h : s.Signalled calls sent) (hid : Identified s)
    (hs : (schedMachine c b).step s a = some s') :
    s'.Signalled (calls ++ s.asked a) (sent ++ s.signalled a) := by
  cases a with
  | call api =>
    obtain rfl := Option.some.inj hs
    replace h := h.mono (List.subset_append_left calls (s.asked (.call api)))
    rw [Sched.signalled, List.append_nil]
    refine ⟨fun u p hu k hk => ?_, h.logged, fun n u hn => ?_⟩
    rcases Pool.tasks_add_cases hu with ⟨rfl, rfl⟩ | ⟨-, hq⟩
    · exact ⟨api, List.mem_append_right _ List.mem_cons_self, stops_of_entry hk⟩
    · exact h.tasks u p hq k hk
    · exact ⟨(h.sent n u hn).1.trans (Nat.lt_succ_self _), (h.sent n u hn).2⟩
  | run t w =>
    obtain ⟨pc, e, hpc, he, rfl⟩ := run_step hs
    have hlog : s.signalled (.run t w) = pc.signalled s.mem t := by
      rw [Sched.signalled, hpc, Option.elim_some]
    rw [hlog]
    exact (h.run hid hpc he).mono (List.subset_append_left _ _)
  | clock now =>
    obtain rfl := Option.some.inj hs
    rw [Sched.asked, Sched.signalled, List.append_nil, List.append_nil]
    exact ⟨h.tasks, h.logged, h.sent⟩

theorem signalled_init : Sched.init.Signalled [] [] where
  tasks := by rintro t pc ⟨⟩
  logged := fun _ => rfl
  sent := by rintro n t ⟨⟩

/-- **Where the signals come from**: those that a running instance has got are in the log, and each
of them was sent by the task of a call that stops its own key, or of a reload. -/
theorem signal_of_asked (h : (schedMachine c b).run Sched.init as = some s) {k : JobKey}
    {inst : RunningInstance} (hk : s.mem.running.lookup k = some inst) :
    s.mem.signals inst.cancel = ((signalled c b as).map Prod.fst).count inst.cancel ∧
      ∀ t, (inst.cancel, t) ∈ signalled c b as → ∃ api, (t, api) ∈ asked c b as ∧ api.Stops k := by
  have hinv := (Machine.runs_of_run h).invariant_snoc (I := fun as s => Identified s ∧
    s.Signalled (asked c b as) (signalled c b as)) ⟨identified_init, signalled_init⟩
    fun as₁ s₁ a s₂ hruns ⟨hid, hsig⟩ _ hs => by
      have hrun₁ := Machine.run_of_runs hruns
      rw [asked_snoc hrun₁, signalled_snoc hrun₁]
      exact ⟨identified_step hid hs, signalled_step hsig hid hs⟩
  have hslot : s.mem.slots k = some inst.cancel := by rw [Shared.slots, hk, Option.map_some]
  exact ⟨hinv.2.logged inst.cancel, fun t ht => (hinv.2.sent inst.cancel t ht).2 k hslot⟩

end CronManager
