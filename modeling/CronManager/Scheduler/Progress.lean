import CronManager.Scheduler.Records

/-!
# Runs come to their end

A run goes through `begin_running`, the attempts of its dispatch, `record_outcome` and the removal
of its entry.  No step of it fails, and nothing makes it go round in circles: an attempt takes at
most six steps, and the retry loop makes at most `max_attempts` of them.

* `Dispatch.left` and `Pc.left` bound the steps that a dispatch and a run still take; every step
  makes them smaller (`left_step`), and no step of another task touches them;
* `stuck_cases` : a dispatch can take its next step unless it is done, in a select that ends only
  by a stop signal that has not been sent, or in an await that nothing bounds and that never ends;
* `run_terminates` : hence no run takes more than `Run.bound` steps, whatever the other tasks do,
  and it can always take the next one except in such a select or await.
-/

namespace CronManager

/-- The phases that the attempts of a job go through. -/
def JobKind.visits : JobKind → Phase → Bool
  | .http .., .spawning | .http .., .waiting _ | .http .., .killing | .http .., .collecting => false
  | .exec .., .preparing | .exec .., .sending _ | .exec .., .readingBody => false
  | _, _ => true

/-- The steps from a phase to the end of its attempt and the delay after it. -/
def Phase.left : Phase → ℕ
  | .starting => 6
  | .preparing | .spawning => 5
  | .sending _ | .waiting _ => 4
  | .readingBody | .killing | .collecting => 3
  | .recording => 2
  | .delaying _ | .offline => 1
  | .done _ => 0

/-- In the retry loop. -/
def Phase.looping : Phase → Bool
  | .offline | .done _ => false
  | _ => true

namespace Dispatch

variable {c : Crates} {b : ExecutorBundle} {d d' : Dispatch}

/-- A bound on the steps that remain: those of this attempt and, in the retry loop, of the later
ones. -/
def left (d : Dispatch) : ℕ :=
  d.phase.left + if d.phase.looping then 6 * (d.spec.retry.maxAttempts - d.attempt) else 0

theorem left_of_phase {p : Phase} (hp : d.phase = p) : d.left =
    p.left + if p.looping then 6 * (d.spec.retry.maxAttempts - d.attempt) else 0 := by
  subst hp
  rfl

theorem left_notify : d.notify.left = d.left := by
  obtain ⟨spec, extras, world, attempt, phase, started, rows⟩ := d
  cases phase <;> rfl

theorem left_enter {q : Phase} (hd : d.phase.looping = true)
    (hq : q.looping = true ∧ q.left < d.phase.left) : (d.enter q).left < d.left := by
  simp only [left, enter, hd, hq.1, if_true]
  exact Nat.add_lt_add_right hq.2 _

theorem afterPreparing_left {q : Phase} (h : d.afterPreparing c b = some q) :
    q.looping = true ∧ q.left < 5 := by
  simp only [afterPreparing] at h
  split at h
  · split at h <;> cases h <;> decide
  · cases h

theorem afterSending_left {notified : Bool} {q : Phase} (h : d.afterSending notified = some q) :
    q.looping = true ∧ q.left < 4 := by
  simp only [afterSending] at h
  split at h
  · split at h <;> cases h
    decide
  all_goals cases h; decide

theorem afterSpawning_left {q : Phase} (h : d.afterSpawning = some q) :
    q.looping = true ∧ q.left < 5 := by
  simp only [afterSpawning] at h
  split at h
  · cases h
  · cases h; decide
  · split at h <;> cases h <;> decide

theorem afterWaiting_left {notified : Bool} {q : Phase} (h : d.afterWaiting notified = some q) :
    q.looping = true ∧ q.left < 4 := by
  simp only [afterWaiting] at h
  split at h
  · split at h <;> cases h
    decide
  all_goals cases h; decide

theorem afterRecording_cases :
    d.afterRecording c b = .delaying false ∨ ∃ outcome, d.afterRecording c b = .done outcome := by
  rw [afterRecording]
  cases d.result c b with
  | ok r => exact .inr ⟨_, rfl⟩
  | error r =>
    simp only
    split_ifs
    · exact .inr ⟨_, rfl⟩
    · exact .inl rfl
    · exact .inr ⟨_, rfl⟩

/-- **Every step brings a dispatch closer to its end.** -/
theorem left_step (hv : d.Valid) (h : d.step c b = some d') : d'.left < d.left := by
  replace h := next_of_step h
  cases hp : d.phase with
  | starting =>
    simp only [next, hp, Option.some.injEq] at h
    subst h
    cases hkind : d.spec.kind <;>
      simp [left, startAttempt, hp, hkind, JobKind.firstPhase, Phase.left, Phase.looping]
  | preparing =>
    simp only [next, hp] at h
    obtain ⟨q, hq, rfl⟩ := Option.map_eq_some_iff.1 h
    exact left_enter (by rw [hp]; rfl) (by rw [hp]; exact afterPreparing_left hq)
  | sending notified =>
    simp only [next, hp] at h
    obtain ⟨q, hq, rfl⟩ := Option.map_eq_some_iff.1 h
    exact left_enter (by rw [hp]; rfl) (by rw [hp]; exact afterSending_left hq)
  | spawning =>
    simp only [next, hp] at h
    obtain ⟨q, hq, rfl⟩ := Option.map_eq_some_iff.1 h
    exact left_enter (by rw [hp]; rfl) (by rw [hp]; exact afterSpawning_left hq)
  | waiting notified =>
    simp only [next, hp] at h
    obtain ⟨q, hq, rfl⟩ := Option.map_eq_some_iff.1 h
    exact left_enter (by rw [hp]; rfl) (by rw [hp]; exact afterWaiting_left hq)
  | readingBody | killing | collecting =>
    simp only [next, hp, Option.some.injEq] at h
    subst h
    exact left_enter (by rw [hp]; rfl) (by rw [hp]; decide)
  | recording =>
    simp only [next, hp, Option.some.injEq] at h
    subst h
    rcases @afterRecording_cases c b d with hnext | ⟨outcome, hnext⟩ <;>
      rw [left_of_phase hp, left_of_phase (d := d.recordRow c b) hnext] <;>
      simp [recordRow, Phase.left, Phase.looping]
  | delaying notified =>
    simp only [Valid, hp] at hv
    simp only [next, hp] at h
    split_ifs at h with hcut hn
    · obtain rfl := Option.some.inj h
      simp [left, enter, hp, Phase.left, Phase.looping]
    · -- the next attempt begins, and one attempt less is to come
      obtain rfl := Option.some.inj h
      simp only [left, hp, Phase.left, Phase.looping, if_true]
      omega
  | offline =>
    simp only [next, hp, Option.some.injEq] at h
    subst h
    simp [left, hp, Phase.left, Phase.looping]
  | done outcome => simp [next, hp] at h

theorem left_init {spec : JobSpec} {extras : DispatchExtras} {world : DispatchWorld} :
    (init b spec extras world).left ≤ 6 * spec.retry.maxAttempts + 1 := by
  cases hoff : b.offlineMode with
  | true =>
    have hphase : (init b spec extras world).phase = .offline := by simp [init, hoff]
    rw [left_of_phase hphase]
    simp [Phase.left, Phase.looping]
  | false =>
    by_cases hmax : spec.retry.maxAttempts = 0
    · have hphase : (init b spec extras world).phase = .done (exhausted spec 0 none) := by
        simp [init, hoff, hmax]
      rw [left_of_phase hphase]
      simp [Phase.left, Phase.looping]
    · have hphase : (init b spec extras world).phase = .starting := by simp [init, hoff, hmax]
      rw [left_of_phase hphase]
      simp only [Phase.left, Phase.looping, if_true, init]
      omega

/-! ### Nothing gets stuck -/

/-- The dispatch is in a phase of the attempts of its job. -/
def Fits (d : Dispatch) : Prop := d.spec.kind.visits d.phase = true

theorem visits_other {kind : JobKind} {p : Phase} (h : p.inAttempt = false ∨ p = .recording) :
    kind.visits p = true := by
  rcases h with h | rfl
  · cases kind <;> cases p <;> first | rfl | cases h
  · cases kind <;> rfl

theorem fits_init {spec : JobSpec} {extras : DispatchExtras} {world : DispatchWorld} :
    (init b spec extras world).Fits := by
  refine visits_other (.inl ?_)
  simp only [init]
  split_ifs <;> rfl

theorem fits_notify (h : d.Fits) : d.notify.Fits := by
  obtain ⟨spec, extras, world, attempt, phase, started, rows⟩ := d
  cases spec with
  | mk key trigger window retry kind => cases kind <;> cases phase <;> exact h

theorem afterPreparing_visits {q : Phase} (h : d.afterPreparing c b = some q) :
    d.spec.kind.visits q = true := by
  simp only [afterPreparing] at h
  split at h
  · rename_i hkind
    rw [hkind]
    split at h <;> cases h <;> rfl
  · cases h

theorem afterSending_visits {notified : Bool} {q : Phase}
    (hf : d.spec.kind.visits (.sending notified) = true) (h : d.afterSending notified = some q) :
    d.spec.kind.visits q = true := by
  cases hkind : d.spec.kind with
  | http method url headers =>
    simp only [afterSending] at h
    split at h
    · split at h <;> cases h
      rfl
    all_goals cases h; rfl
  | exec argv allowedEnvs =>
    rw [hkind] at hf
    cases hf

theorem afterSpawning_visits {q : Phase} (h : d.afterSpawning = some q) :
    d.spec.kind.visits q = true := by
  simp only [afterSpawning] at h
  split at h
  · cases h
  · exact visits_other (.inr (Option.some.inj h).symm)
  · rename_i hkind
    rw [hkind]
    split at h <;> cases h <;> rfl

theorem afterWaiting_visits {notified : Bool} {q : Phase}
    (hf : d.spec.kind.visits (.waiting notified) = true) (h : d.afterWaiting notified = some q) :
    d.spec.kind.visits q = true := by
  cases hkind : d.spec.kind with
  | http method url headers =>
    rw [hkind] at hf
    cases hf
  | exec argv allowedEnvs =>
    simp only [afterWaiting] at h
    split at h
    · split at h <;> cases h
      rfl
    all_goals cases h; rfl

theorem fits_step (hf : d.Fits) (h : d.step c b = some d') : d'.Fits := by
  replace h := next_of_step h
  cases hp : d.phase with
  | starting =>
    simp only [next, hp, Option.some.injEq] at h
    subst h
    simp only [Fits, startAttempt]
    cases d.spec.kind <;> rfl
  | preparing =>
    simp only [next, hp] at h
    obtain ⟨q, hq, rfl⟩ := Option.map_eq_some_iff.1 h
    exact afterPreparing_visits hq
  | sending notified =>
    simp only [next, hp] at h
    obtain ⟨q, hq, rfl⟩ := Option.map_eq_some_iff.1 h
    exact afterSending_visits (hp ▸ hf) hq
  | spawning =>
    simp only [next, hp] at h
    obtain ⟨q, hq, rfl⟩ := Option.map_eq_some_iff.1 h
    exact afterSpawning_visits hq
  | waiting notified =>
    simp only [next, hp] at h
    obtain ⟨q, hq, rfl⟩ := Option.map_eq_some_iff.1 h
    exact afterWaiting_visits (hp ▸ hf) hq
  | readingBody | killing | collecting =>
    simp only [next, hp, Option.some.injEq] at h
    subst h
    exact visits_other (.inr rfl)
  | recording =>
    simp only [next, hp, Option.some.injEq] at h
    subst h
    refine visits_other (.inl ?_)
    simp only [recordRow]
    rcases @afterRecording_cases c b d with hnext | ⟨outcome, hnext⟩ <;> rw [hnext] <;> rfl
  | delaying notified =>
    simp only [next, hp] at h
    split_ifs at h with hcut hn
    · obtain rfl := Option.some.inj h
      exact visits_other (.inl rfl)
    · obtain rfl := Option.some.inj h
      exact visits_other (.inl rfl)
  | offline =>
    simp only [next, hp, Option.some.injEq] at h
    subst h
    exact visits_other (.inl rfl)
  | done outcome => simp [next, hp] at h

/-- The dispatch is in a select that ends through the stop signal only, which has not arrived. -/
structure Waits (d : Dispatch) : Prop where
  listening : d.phase.listening = true
  notNotified : d.phase.notified = false
  othersPending : d.othersPending = true

/-- **When a dispatch takes no step**: it is done, waits for the stop signal, or is in an await
that never ends. -/
theorem stuck_cases (hf : d.Fits) (h : d.step c b = none) :
    (∃ outcome, d.phase = .done outcome) ∨ d.Waits ∨ d.hangs c b = true := by
  by_cases hhangs : d.hangs c b = true
  · exact .inr (.inr hhangs)
  replace h : d.next c b = none := by simpa [step, hhangs] using h
  rw [or_iff_left hhangs]
  cases hp : d.phase with
  | preparing =>
    rw [Fits, hp] at hf
    simp only [next, hp, Option.map_eq_none_iff, afterPreparing] at h
    split at h
    · cases h
    · rename_i hkind
      rw [hkind] at hf
      cases hf
  | sending notified =>
    simp only [next, hp, Option.map_eq_none_iff, afterSending] at h
    split at h
    · rename_i hsend
      split_ifs at h with hn
      refine .inr ⟨by rw [hp]; rfl, ?_, ?_⟩
      · simpa [hp, Phase.notified] using hn
      · simp [Dispatch.othersPending, hp, hsend]
    all_goals cases h
  | spawning =>
    rw [Fits, hp] at hf
    simp only [next, hp, Option.map_eq_none_iff, afterSpawning] at h
    split at h
    · rename_i hkind
      rw [hkind] at hf
      cases hf
    · cases h
    · cases h
  | waiting notified =>
    simp only [next, hp, Option.map_eq_none_iff, afterWaiting] at h
    split at h
    · rename_i hwait
      split_ifs at h with hn
      refine .inr ⟨by rw [hp]; rfl, ?_, ?_⟩
      · simpa [hp, Phase.notified] using hn
      · simp [Dispatch.othersPending, hp, hwait]
    all_goals cases h
  | delaying notified =>
    simp only [next, hp] at h
    split_ifs at h with hcut hn
    refine .inr ⟨by rw [hp]; rfl, ?_, ?_⟩
    · simpa [hp, Phase.notified] using hn
    · simpa [Dispatch.othersPending, hp] using hcut
  | done outcome => exact .inl ⟨outcome, rfl⟩
  | _ => simp [next, hp] at h

theorem not_hangs_of_listening (h : d.phase.listening = true) : d.hangs c b = false := by
  cases hp : d.phase <;> simp_all [Phase.listening, hangs, awaits]

theorem listening_of_notified (h : d.phase.notified = true) : d.phase.listening = true := by
  cases hp : d.phase <;> rw [hp] at h <;> first | rfl | cases h

theorem Waits.wakes (h : d.Waits) (hf : d.Fits) : (d.notify.step c b).isSome = true := by
  cases hstep : d.notify.step c b with
  | some d' => rfl
  | none =>
    -- notified, it neither waits nor is done, and a select does not hang
    have hnotified := notified_notify h.listening
    rcases stuck_cases (fits_notify hf) hstep with ⟨outcome, hdone⟩ | hwaits | hhangs
    · rw [hdone] at hnotified
      cases hnotified
    · rw [hwaits.notNotified] at hnotified
      cases hnotified
    · rw [not_hangs_of_listening (listening_of_notified hnotified)] at hhangs
      cases hhangs

end Dispatch

/-! ### The steps of a run -/

/-- A bound on the steps of a run: of its dispatch, and those around it. -/
def Run.bound (run : Run) : ℕ := 6 * run.spec.retry.maxAttempts + 6

/-- A bound on the steps that a run still takes, seen from its task. -/
def Pc.left : Pc → ℕ
  | .fetch run => 6 * run.spec.retry.maxAttempts + 6
  | .spawnRun run _ => 6 * run.spec.retry.maxAttempts + 5
  | .dispatching _ _ d => d.left + 3
  | .recordOutcome _ _ => 2
  | .finish _ => 1
  | _ => 0

/-- The action is a step of the run with this `Notify`. -/
def Sched.moves (s : Sched) (n : NotifyId) : Act → Bool
  | .run t _ => ((s.tasks t).bind Pc.runOf).any fun run => run.mine = n
  | .call _ | .clock _ => false

/-- The steps of the run with this `Notify`. -/
def stepsOf (n : NotifyId) (s : Sched) (a : Act) : List Act := if s.moves n a then [a] else []

/-- The run has taken no more steps than its bound allows, given those it still takes. -/
structure Bounded (P : JobSpec → Prop) (n : NotifyId) (s : Sched) (steps : List Act) : Prop where
  unborn : s.mem.fresh ≤ n → steps = []
  alive : ∀ t pc run, s.tasks t = some pc → pc.runOf = some run → run.mine = n →
    steps.length + pc.left ≤ run.bound
  total : steps = [] ∨ ∃ spec, P spec ∧ steps.length ≤ 6 * spec.retry.maxAttempts + 6

/-- The dispatch of the task is in a phase of its job. -/
def Pc.Fits : Pc → Prop
  | .dispatching _ _ d => d.Fits
  | _ => True

variable {c : Crates} {b : ExecutorBundle} {P : JobSpec → Prop} {s s' : Sched} {t u : TaskId}
  {m : Shared} {pc : Pc} {w : DispatchWorld} {e : Effect Shared Pc} {run run' : Run}
  {n : NotifyId} {steps : List Act}

theorem pcFits_kept : Pc.Kept c b Pc.Fits where
  next := by
    intro m pc w e hpc he
    have hgoes := step_goes he
    generalize e.next = next at hgoes ⊢
    cases hgoes with
    | fetchCron run cancel => exact Dispatch.fits_init
    | advance run cancel d d' hd => exact Dispatch.fits_step hpc hd
    | _ => trivial
  spawn := by
    intro m pc w e _ he v p hv
    rcases (step_does he).spawn_cases hv with ⟨spec, todo, reply, expr, -, -, -, -, rfl⟩ |
      ⟨run, cancel, -, -, -, rfl⟩
    · trivial
    · exact Dispatch.fits_init
  notify := by
    intro pc h ns
    cases pc with
    | dispatching run cancel d =>
      simp only [Pc.notify]
      split_ifs
      · exact Dispatch.fits_notify h
      · exact h
    | _ => exact h

theorem left_pos (h : pc.runOf = some run) : 0 < pc.left := by
  cases pc <;> first | exact Nat.succ_pos _ | cases h

theorem pcLeft_notify {ns : List NotifyId} : (pc.notify ns).left = pc.left := by
  cases pc with
  | dispatching run cancel d =>
    simp only [Pc.notify]
    split_ifs
    · exact congrArg (· + 3) Dispatch.left_notify
    · rfl
  | _ => rfl

/-- **Every step of a run brings it closer to its end.** -/
theorem left_next (hpc : pc.Sound c b P) (h : pc.step c b m w = some e)
    (hrun : pc.runOf = some run) (hrun' : e.next.runOf = some run') :
    run' = run ∧ e.next.left < pc.left := by
  have hgoes := step_goes h
  generalize e.next = next at hgoes hrun'
  cases hgoes with
  | fetchManual run'' cancel horigin =>
    obtain rfl := Option.some.inj hrun
    obtain rfl := Option.some.inj hrun'
    exact ⟨rfl, Nat.lt_succ_self _⟩
  | fetchCron run'' cancel =>
    obtain rfl := Option.some.inj hrun
    obtain rfl := Option.some.inj hrun'
    have hinit := @Dispatch.left_init b run''.spec run''.extras w
    exact ⟨rfl, show _ + 3 < 6 * run''.spec.retry.maxAttempts + 6 by omega⟩
  | advance run'' cancel d d' hd =>
    obtain rfl := Option.some.inj hrun
    obtain rfl := Option.some.inj hrun'
    exact ⟨rfl, Nat.add_lt_add_right (Dispatch.left_step hpc.2.valid hd) 3⟩
  | complete run'' cancel d outcome =>
    obtain rfl := Option.some.inj hrun
    obtain rfl := Option.some.inj hrun'
    exact ⟨rfl, Nat.lt_of_lt_of_le (Nat.lt_succ_self 2) (Nat.le_add_left 3 _)⟩
  | recordOutcome run'' outcome =>
    obtain rfl := Option.some.inj hrun
    obtain rfl := Option.some.inj hrun'
    exact ⟨rfl, Nat.lt_succ_self 1⟩
  | beginManual | beginCron => cases hrun
  | _ => cases hrun'

theorem mine_of_begin (hdoes : Does c b m w pc e) (hpc : pc.runOf = none)
    (hrun : e.next.runOf = some run) : run.mine = m.fresh := by
  cases hdoes with
  | quiet _ _ _ _ _ _ hsame =>
    rw [hsame, hpc] at hrun
    cases hrun
  | begin schedule _ hjob hloop hspec hbegin =>
    obtain rfl := Option.some.inj hrun
    exact (Shared.beginRunning_eq_ok.1 hbegin).2.1
  | fetch | advance | finish | handOver => cases hpc
  | _ => cases hrun

theorem eq_of_mine (h : Identified s) (ht : s.InProgress t run) (hu : s.InProgress u run')
    (hmine : run.mine = run'.mine) : u = t := by
  have ht' := held_of_inProgress ht
  have hu' := held_of_inProgress hu
  have hslot := h.owned.exclusive.slot_of_held ht'
  have hslot' := h.owned.exclusive.slot_of_held hu'
  rw [hmine] at hslot
  rw [← h.distinct _ _ _ hslot hslot'] at hu'
  exact h.owned.exclusive.unique hu' ht'

/-! ### Every run is bounded -/

theorem stepsOf_eq (hpc : s.tasks t = some pc) : stepsOf n s (.run t w) =
    if pc.runOf.any fun run => run.mine = n then [.run t w] else [] := by
  rw [stepsOf, Sched.moves, hpc, Option.bind_some]

theorem Bounded.step_own (h : Bounded P n s steps) (hid : Identified s)
    (hsound : s.Sound c b P) (hpc : s.tasks t = some pc) (hrun : pc.runOf = some run)
    (hmine : run.mine = n) (he : pc.step c b s.mem w = some e) :
    Bounded P n (s.apply t e) (steps ++ [.run t w]) := by
  have hpcSound := hsound.tasks t pc hpc
  have hbound := h.alive t pc run hpc hrun hmine
  have hpos := left_pos hrun
  have hlen : (steps ++ [Act.run t w]).length = steps.length + 1 := by simp
  have hfresh : n < s.mem.fresh := by
    have hslot := hid.owned.exclusive.slot_of_held (held_of_inProgress ⟨pc, hpc, hrun⟩)
    exact hmine ▸ hid.owned.slotsFresh _ _ hslot
  refine ⟨fun hle => ?_, ?_, .inr ⟨run.spec, (hsound.of_runOf hpc hrun).spec, ?_⟩⟩
  · exact absurd (hfresh.trans_le (step_does he).fresh_le) (not_lt.2 hle)
  · intro u p run' hu hrun' hmine'
    rw [hlen]
    rcases runner_cases (step_does he) hu hrun' with ⟨-, rfl⟩ | ⟨cancel, rfl, -, rfl⟩ |
      ⟨hut, q, ns, hq, hqrun, -⟩
    · obtain ⟨rfl, hlt⟩ := left_next hpcSound he hrun hrun'
      omega
    · obtain rfl := Option.some.inj hrun
      have hinit := @Dispatch.left_init b run'.spec run'.extras w
      simp only [Pc.left, Run.bound] at hbound ⊢
      omega
    · exact absurd (eq_of_mine hid ⟨pc, hpc, hrun⟩ ⟨q, hq, hqrun⟩ (hmine.trans hmine'.symm)) hut
  · rw [hlen]
    simp only [Run.bound] at hbound
    omega

/-- A step of any other task; it may begin the run. -/
theorem Bounded.step_other (h : Bounded P n s steps) (hpc : s.tasks t = some pc)
    (hother : ∀ run, pc.runOf = some run → run.mine ≠ n) (he : pc.step c b s.mem w = some e) :
    Bounded P n (s.apply t e) steps := by
  have hdoes := step_does he
  refine ⟨fun hle => h.unborn (hdoes.fresh_le.trans hle), ?_, h.total⟩
  intro u p run hu hrun hmine
  rcases runner_cases hdoes hu hrun with ⟨-, rfl⟩ | ⟨cancel, rfl, -⟩ | ⟨-, q, ns, hq, hqrun, rfl⟩
  · rcases runOf_next hdoes hrun with hsame | hnone
    · exact absurd hmine (hother run hsame)
    · have hnil := h.unborn ((mine_of_begin hdoes hnone hrun).symm.trans hmine).le
      rw [hnil, fetch_of_begin he hnone hrun]
      exact (Nat.zero_add _).le
  · exact absurd hmine (hother run rfl)
  · rw [pcLeft_notify]
    exact h.alive u q run hq hqrun hmine

theorem bounded_step {a : Act} (h : Bounded P n s steps) (hid : Identified s)
    (hsound : s.Sound c b P) (hs : (schedMachine c b).step s a = some s') :
    Bounded P n s' (steps ++ stepsOf n s a) := by
  cases a with
  | call call =>
    obtain rfl := Option.some.inj hs
    rw [show stepsOf n s (.call call) = [] from rfl, List.append_nil]
    refine ⟨fun hle => h.unborn ((Nat.le_succ _).trans hle), ?_, h.total⟩
    intro u p run hu hrun hmine
    rcases Pool.tasks_add_cases hu with ⟨-, rfl⟩ | ⟨-, hq⟩
    · cases call <;> cases hrun
    · exact h.alive u p run hq hrun hmine
  | run t w =>
    obtain ⟨pc, e, hpc, he, rfl⟩ := run_step hs
    rw [stepsOf_eq hpc]
    by_cases hown : ∃ run, pc.runOf = some run ∧ run.mine = n
    · obtain ⟨run, hrun, hmine⟩ := hown
      rw [hrun, Option.any_some, if_pos (by simpa using hmine)]
      exact h.step_own hid hsound hpc hrun hmine he
    · rw [if_neg, List.append_nil]
      · exact h.step_other hpc (fun run hrun hmine => hown ⟨run, hrun, hmine⟩) he
      · simpa [Option.any_eq_true] using hown
  | clock now =>
    obtain rfl := Option.some.inj hs
    rw [show stepsOf n s (.clock now) = [] from rfl, List.append_nil]
    exact ⟨h.unborn, h.alive, h.total⟩

theorem bounded_run {as : List Act} (h : (schedMachine c b).run Sched.init as = some s)
    (n : NotifyId) :
    Bounded (· ∈ as.flatMap Act.specs) n s
      ((schedMachine c b).outputs (stepsOf n) Sched.init as) := by
  let I (s : Sched) (steps : List Act) := Identified s ∧
    s.Sound c b (· ∈ as.flatMap Act.specs) ∧ Bounded (· ∈ as.flatMap Act.specs) n s steps
  have hinit : I Sched.init [] :=
    ⟨identified_init, sound_init, fun _ => rfl, by rintro t pc run ⟨⟩, .inl rfl⟩
  refine ((runs_specs h).outputs_invariant (I := I) (stepsOf n) [] hinit ?_).2.2
  rintro s a s' steps ⟨hid, hsound, hb⟩ hg hs
  exact ⟨identified_step hid hs, sound_step hsound hg hs, bounded_step hb hid hsound hs⟩

/-- A run in progress takes its next step, or its dispatch waits for the stop signal, or for an
await that never ends. -/
theorem run_moves (ho : Owned s) (hfits : ∀ t pc, s.tasks t = some pc → pc.Fits)
    (hpc : s.tasks t = some pc) (hrun : pc.runOf = some run) (w : DispatchWorld) :
    (∃ s', (schedMachine c b).step s (.run t w) = some s') ∨
      ∃ d, s.tasks t = some (.dispatching run run.mine d) ∧
        (d.Waits ∧ (d.notify.step c b).isSome = true ∨ d.hangs c b = true) := by
  have hmove {e : Effect Shared Pc} (he : pc.step c b s.mem w = some e) :
      ∃ s', (schedMachine c b).step s (.run t w) = some s' :=
    ⟨s.apply t e, by simp only [schedMachine, hpc, Option.bind_some, he, Option.map_some]⟩
  cases pc with
  | fetch | spawnRun | recordOutcome | finish => exact .inl (hmove rfl)
  | dispatching run' cancel d =>
    obtain rfl := Option.some.inj hrun
    have hmine : cancel = run'.mine := ho.faithful t _ hpc
    subst hmine
    have hfit := hfits t _ hpc
    cases hstep : d.step c b with
    | some d' =>
      refine .inl (hmove (e := move (s.mem.advance run'.mine d d')
        (.dispatching run' run'.mine d')) ?_)
      simp only [Pc.step, dispatchStep]
      split
      · rename_i outcome hd
        rw [Dispatch.step_done hd] at hstep
        cases hstep
      · rw [hstep, Option.map_some]
    | none =>
      rcases Dispatch.stuck_cases hfit hstep with ⟨outcome, hd⟩ | hwaits | hhangs
      · refine .inl (hmove (e := move s.mem (.recordOutcome run' outcome)) ?_)
        simp only [Pc.step, dispatchStep, hd]
      · exact .inr ⟨d, hpc, .inl ⟨hwaits, hwaits.wakes hfit⟩⟩
      · exact .inr ⟨d, hpc, .inr hhangs⟩
  | _ => cases hrun

/-- **Runs terminate.**  Whatever the other tasks do, a run takes at most `6 * max_attempts + 6`
steps; while it is in progress it has taken fewer, and it can take its next one, unless it is in a
select that ends only through a stop signal, and then the signal lets it go on, or in a lookup, a
kill, a read of the child's pipes or a write of its row that never ends. -/
theorem run_terminates {as : List Act} (h : (schedMachine c b).run Sched.init as = some s) :
    (∀ n, (schedMachine c b).outputs (stepsOf n) Sched.init as = [] ∨
      ∃ spec ∈ as.flatMap Act.specs, ((schedMachine c b).outputs (stepsOf n) Sched.init as).length ≤
        6 * spec.retry.maxAttempts + 6) ∧
    ∀ t run, s.InProgress t run →
      ((schedMachine c b).outputs (stepsOf run.mine) Sched.init as).length < run.bound ∧
      ∀ w, (∃ s', (schedMachine c b).step s (.run t w) = some s') ∨
        ∃ d, s.tasks t = some (.dispatching run run.mine d) ∧
          (d.Waits ∧ (d.notify.step c b).isSome = true ∨ d.hangs c b = true) := by
  have hfits : ∀ t pc, s.tasks t = some pc → pc.Fits :=
    pcFits_kept.runs (Machine.runs_of_run h) (fun _ call _ => by cases call <;> trivial)
      (by rintro t pc ⟨⟩)
  refine ⟨fun n => (bounded_run h n).total, ?_⟩
  rintro t run ⟨pc, hpc, hrun⟩
  refine ⟨?_, run_moves (owned_reaches (Machine.reaches_of_run h)) hfits hpc hrun⟩
  have hbound := (bounded_run h run.mine).alive t pc run hpc hrun rfl
  have hpos := left_pos hrun
  omega

/-- A run whose child only ends when it is stopped waits for the stop signal. -/
theorem run_terminates_waiting :
    ∃ s run, demoSched.run Sched.init (demoTriggered (demoWorld .cancelled) ++
        demoSteps .cancelled 5 2) = some s ∧ s.InProgress 5 run ∧
      (demoSched.outputs (stepsOf run.mine) Sched.init (demoTriggered (demoWorld .cancelled) ++
        demoSteps .cancelled 5 2)).length < run.bound ∧
      ∃ d, s.tasks 5 = some (.dispatching run run.mine d) ∧ d.Waits := by
  let as := demoTriggered (demoWorld .cancelled) ++ demoSteps .cancelled 5 2
  let s := (demoSched.run Sched.init as).getD Sched.init
  have hs : demoSched.run Sched.init as = some s := eq_some_getD (by decide)
  have hrun : ((s.tasks 5).bind Pc.runOf).isSome = true := by decide
  obtain ⟨run, hrun⟩ := Option.isSome_iff_exists.1 hrun
  obtain ⟨pc, hpc, hpcRun⟩ := Option.bind_eq_some_iff.1 hrun
  have hprog : s.InProgress 5 run := ⟨pc, hpc, hpcRun⟩
  obtain ⟨hlt, hmoves⟩ := (run_terminates hs).2 5 run hprog
  refine ⟨s, run, hs, hprog, hlt, ?_⟩
  rcases hmoves (demoWorld .cancelled) with ⟨s', hs'⟩ | ⟨d, hd, hwaits⟩
  · have hstuck : (demoSched.step s (.run 5 (demoWorld .cancelled))).isNone = true := by decide
    rw [hs'] at hstuck
    cases hstuck
  · refine ⟨d, hd, hwaits.elim And.left fun hhangs => ?_⟩
    -- nothing hangs in this world
    let hung : Pc → Bool
      | .dispatching _ _ d => d.hangs noCrates demoBundle
      | _ => false
    have hends : (s.tasks 5).any hung = false := by decide
    rw [hd, Option.any_some] at hends
    exact absurd (hends.symm.trans hhangs) (by decide)

end CronManager
