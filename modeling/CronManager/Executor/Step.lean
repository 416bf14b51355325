import CronManager.Executor.Retry
import CronManager.Machine

/-!
# Dispatch, one await point at a time

`ExecutorBundle.dispatch` says what a dispatch does for a given behaviour of the outside world.
Here the same dispatch takes one step per await point, so that other tasks can run in between:
`Dispatch.step`.  The behaviour of the world is fixed when the dispatch begins and handed to it
step by step.

Three await points are selects that listen to `cancel.notified()`: the one on `send()`, the one
on the child's exit and the retry delay.  `notify_waiters` wakes the futures that exist when it
is called and stores nothing, so it sets the flag of such a select and is lost at every other
point (`Phase.notify`).  A select can take its cancel branch only when its flag is set.

The pre-flight's lookup, the kill of a child, its pipes and the history rows are awaits that may
never end (`Await`): a dispatch in one of those takes no further step.

* `Dispatch.step_total` : every step and every notification keeps what the dispatch has done
  plus what it still does;
* `run_refines` : hence a stepwise dispatch that ends has done exactly what
  `ExecutorBundle.dispatch` says.
-/

namespace CronManager

/-- Where a dispatch is.  The flag of a select says that it was notified. -/
inductive Phase where
  /-- At the head of the retry loop. -/
  | starting
  /-- Before `send()`: the method, the DNS pre-flight and the headers. -/
  | preparing
  | sending (notified : Bool)
  | readingBody
  /-- In the spawn loop. -/
  | spawning
  | waiting (notified : Bool)
  /-- In `child.kill()`. -/
  | killing
  /-- Joining the two tasks that read the child's pipes. -/
  | collecting
  /-- Writing the history row of the attempt. -/
  | recording
  | delaying (notified : Bool)
  /-- In `offline_stub`. -/
  | offline
  | done (outcome : DispatchOutcome)
  deriving DecidableEq, Repr

/-- `notify_waiters`, seen from one dispatch. -/
def Phase.notify : Phase → Phase
  | .sending _ => .sending true
  | .waiting _ => .waiting true
  | .delaying _ => .delaying true
  | p => p

/-- A select that listens to `cancel.notified()`. -/
def Phase.listening : Phase → Bool
  | .sending _ | .waiting _ | .delaying _ => true
  | _ => false

/-- A listening select that has been notified. -/
def Phase.notified : Phase → Bool
  | .sending n | .waiting n | .delaying n => n
  | _ => false

/-- Entering this phase begins an attempt, a send, a child wait or a retry delay. -/
def Phase.begins : Phase → Bool
  | .preparing | .spawning | .sending _ | .waiting _ | .delaying _ => true
  | _ => false

/-- The first phase of an attempt. -/
def JobKind.firstPhase : JobKind → Phase
  | .http .. => .preparing
  | .exec .. => .spawning

/-- Between the start of an attempt and its history row. -/
def Phase.inAttempt : Phase → Bool
  | .starting | .delaying _ | .offline | .done _ => false
  | _ => true

/-- A dispatch in progress. -/
structure Dispatch where
  spec : JobSpec
  extras : DispatchExtras
  world : DispatchWorld
  attempt : ℕ
  phase : Phase
  /-- The attempts started so far. -/
  started : List ℕ
  /-- The history rows recorded so far. -/
  rows : List HistoryEntry

namespace Dispatch

variable (c : Crates) (b : ExecutorBundle)

/-- The dispatch at its first await point. -/
def init (spec : JobSpec) (extras : DispatchExtras) (world : DispatchWorld) : Dispatch where
  spec := spec
  extras := extras
  world := world
  attempt := 1
  phase :=
    if b.offlineMode then .offline
    else if spec.retry.maxAttempts = 0 then .done (exhausted spec 0 none)
    else .starting
  started := []
  rows := []

/-- `notify_waiters` on the dispatch's `Notify`. -/
def notify (d : Dispatch) : Dispatch := { d with phase := d.phase.notify }

/-- The world of the current attempt. -/
def here (d : Dispatch) : AttemptWorld := d.world.attempt d.attempt

/-- The result of the current attempt. -/
def result (d : Dispatch) : Except HttpDispatchResult HttpDispatchResult :=
  b.resultAt c d.spec d.extras d.world d.attempt

/-- The phase after everything before `send()`. -/
def afterPreparing (d : Dispatch) : Option Phase :=
  match d.spec.kind with
  | .http method url headers =>
    some (match b.http.prepare c method url headers d.here.http with
      | .ok _ => .sending false
      | .error _ => .recording)
  | .exec .. => none

/-- The phase after the select on `send()`. -/
def afterSending (d : Dispatch) (notified : Bool) : Option Phase :=
  match d.here.http.send with
  | .cancelled => if notified then some .recording else none
  | .response .. => some .readingBody
  | .timeout | .failed _ => some .recording

/-- The phase after the spawn loop. -/
def afterSpawning (d : Dispatch) : Option Phase :=
  match d.spec.kind with
  | .http .. => none
  | .exec [] _ => some .recording
  | .exec (_ :: _) _ => some (match spawnLoop d.here.shell.spawn 5 0 with
    | .ok () => .waiting false
    | .error _ => .recording)

/-- The phase after the select on the child's exit. -/
def afterWaiting (d : Dispatch) (notified : Bool) : Option Phase :=
  match d.here.shell.waitEnd with
  | .cancelled => if notified then some .killing else none
  | .timeout => some .killing
  | .exited _ => some .collecting
  | .failed _ => some .recording

/-- The phase after the history row of the attempt. -/
def afterRecording (d : Dispatch) : Phase :=
  match d.result c b with
  | .ok _ => .done ⟨.success, d.attempt, none⟩
  | .error r =>
    if r.isShellTimeout then .done ⟨.timeout, d.attempt, r.errorMessage⟩
    else if d.attempt < d.spec.retry.maxAttempts then .delaying false
    else .done (exhausted d.spec d.spec.retry.maxAttempts r.errorMessage)

/-- The row of the current attempt. -/
def row (d : Dispatch) : HistoryEntry :=
  b.rowAt c d.spec d.extras d.world d.spec.retry.maxAttempts d.attempt

/-- Move to a phase. -/
def enter (d : Dispatch) (p : Phase) : Dispatch := { d with phase := p }

/-- Begin the current attempt. -/
def startAttempt (d : Dispatch) : Dispatch :=
  { d with phase := d.spec.kind.firstPhase, started := d.started ++ [d.attempt] }

/-- Record the row of the current attempt. -/
def recordRow (d : Dispatch) : Dispatch :=
  { d with phase := d.afterRecording c b, rows := d.rows ++ [d.row c b] }

/-- The pre-flight of this attempt asks the resolver. -/
def looksUp (d : Dispatch) : Bool :=
  match d.spec.kind with
  | .http method url _ =>
    b.http.blockPrivateNetworks && (c.methodFromBytes method).isSome &&
      match c.urlParse url with
      | .ok u => u.hostStr.any fun host => (Rust.parseIpAddr host.toList).isNone
      | .error _ => false
  | .exec .. => false

/-- The await of this phase that nothing bounds. -/
def awaits (d : Dispatch) : Option Await :=
  match d.phase with
  | .preparing => if d.looksUp c b then some .lookup else none
  | .killing => some .kill
  | .collecting => some .pipes
  | .recording | .offline => some .row
  | _ => none

/-- The dispatch is in an await that never ends. -/
def hangs (d : Dispatch) : Bool := (d.awaits c b).any (d.world.hangs d.attempt)

/-- The dispatch at its next await point, when the present one ends; `none` when it is done, or
when no other branch of a select becomes ready and nothing has notified it. -/
def next (d : Dispatch) : Option Dispatch :=
  match d.phase with
  | .starting => some d.startAttempt
  | .preparing => (d.afterPreparing c b).map d.enter
  | .sending notified => (d.afterSending notified).map d.enter
  | .readingBody => some (d.enter .recording)
  | .spawning => d.afterSpawning.map d.enter
  | .waiting notified => (d.afterWaiting notified).map d.enter
  | .killing => some (d.enter .recording)
  | .collecting => some (d.enter .recording)
  | .recording => some (d.recordRow c b)
  | .delaying notified =>
    if d.world.delayCut d.attempt then
      if notified then some (d.enter (.done (delayAborted d.attempt))) else none
    else some { d with attempt := d.attempt + 1, phase := .starting }
  | .offline => some { d with
      phase := .done (offlineStub d.spec d.world.offlineAt).outcome
      rows := d.rows ++ (offlineStub d.spec d.world.offlineAt).rows }
  | .done _ => none

/-- One step. -/
def step (d : Dispatch) : Option Dispatch := if d.hangs c b then none else d.next c b

/-- The outside world makes no other branch of the select ready: the response, the exit of the
child, the timeouts and the end of the delay do not come before the select is polled. -/
def othersPending (d : Dispatch) : Bool :=
  match d.phase with
  | .sending _ => d.here.http.send = .cancelled
  | .waiting _ => d.here.shell.waitEnd = .cancelled
  | .delaying _ => d.world.delayCut d.attempt
  | _ => false

/-- The next step takes a `cancel.notified()` branch. -/
def takesCancel (d : Dispatch) : Bool := d.phase.notified && d.othersPending

/-! ### The stepwise dispatch does what `dispatch` says -/

/-- What remains to be done once the retry delay after attempt `a` has been entered. -/
def afterDelay (d : Dispatch) (a : ℕ) : DispatchRun :=
  if d.world.delayCut a then ⟨[], [], delayAborted a⟩
  else b.dispatchLoop c d.spec d.extras d.world d.spec.retry.maxAttempts
    (d.spec.retry.maxAttempts - a) (a + 1) none

/-- What remains to be done after the row of the current attempt. -/
def afterRow (d : Dispatch) : DispatchRun :=
  match d.result c b with
  | .ok _ => ⟨[], [], ⟨.success, d.attempt, none⟩⟩
  | .error r =>
    if r.isShellTimeout then ⟨[], [], ⟨.timeout, d.attempt, r.errorMessage⟩⟩
    else if d.attempt < d.spec.retry.maxAttempts then d.afterDelay c b d.attempt
    else ⟨[], [], exhausted d.spec d.spec.retry.maxAttempts r.errorMessage⟩

/-- What remains to be done. -/
def remaining (d : Dispatch) : DispatchRun :=
  match d.phase with
  | .starting => (d.afterRow c b).cons d.attempt (d.row c b)
  | .delaying _ => d.afterDelay c b d.attempt
  | .offline => offlineStub d.spec d.world.offlineAt
  | .done outcome => ⟨[], [], outcome⟩
  | _ => { d.afterRow c b with rows := d.row c b :: (d.afterRow c b).rows }

/-- What the dispatch has done, together with what remains to be done. -/
def total (d : Dispatch) : DispatchRun :=
  let r := d.remaining c b
  ⟨d.started ++ r.started, d.rows ++ r.rows, r.outcome⟩

/-- The current attempt is one of the attempts. -/
def Valid (d : Dispatch) : Prop :=
  match d.phase with
  | .offline | .done _ => True
  | .delaying _ => d.attempt < d.spec.retry.maxAttempts
  | _ => d.attempt ≤ d.spec.retry.maxAttempts

variable {c b}

/-- One turn of the retry loop: the attempt, its row, and what remains after it. -/
theorem dispatchLoop_eq_afterRow {d : Dispatch} {lastError : Option String}
    (h : d.attempt ≤ d.spec.retry.maxAttempts) :
    b.dispatchLoop c d.spec d.extras d.world d.spec.retry.maxAttempts
        (d.spec.retry.maxAttempts + 1 - d.attempt) d.attempt lastError =
      (d.afterRow c b).cons d.attempt (d.row c b) := by
  have hleft : d.spec.retry.maxAttempts + 1 - d.attempt =
      d.spec.retry.maxAttempts - d.attempt + 1 := by omega
  have hresult : d.result c b = b.attempt c d.spec d.extras (d.world.attempt d.attempt) := rfl
  rw [hleft]
  simp only [ExecutorBundle.dispatchLoop, afterRow, hresult, row, ExecutorBundle.rowAt,
    ExecutorBundle.resultAt]
  cases hr : b.attempt c d.spec d.extras (d.world.attempt d.attempt) with
  | ok r => rfl
  | error r =>
    simp only
    split_ifs with ht hcut hlt hlt
    · rfl
    · simp [afterDelay, hcut.2, DispatchRun.cons]
    · exact absurd hcut.1 hlt
    · have huncut : ¬ d.world.delayCut d.attempt = true := fun h' => hcut ⟨hlt, h'⟩
      -- at least one attempt is left, so the error handed on is not read
      obtain ⟨n, hn⟩ : ∃ n, d.spec.retry.maxAttempts - d.attempt = n + 1 :=
        ⟨d.spec.retry.maxAttempts - d.attempt - 1, by omega⟩
      simp only [afterDelay, huncut, hn]
      rfl
    · have hnone : d.spec.retry.maxAttempts - d.attempt = 0 := by omega
      rw [hnone]
      rfl

theorem next_of_step {d d' : Dispatch} (h : d.step c b = some d') : d.next c b = some d' := by
  simp only [step] at h
  split_ifs at h
  exact h

theorem step_done {d : Dispatch} {outcome : DispatchOutcome} (h : d.phase = .done outcome) :
    d.step c b = none := by simp [step, next, h]

theorem step_fixed {d d' : Dispatch} (h : d.step c b = some d') :
    d'.spec = d.spec ∧ d'.extras = d.extras ∧ d'.world = d.world := by
  replace h := next_of_step h
  simp only [next] at h
  split at h
  case h_2 | h_3 | h_5 | h_6 =>
    obtain ⟨p, -, rfl⟩ := Option.map_eq_some_iff.1 h
    exact ⟨rfl, rfl, rfl⟩
  case h_10 =>
    split_ifs at h
    all_goals
      obtain rfl := Option.some.inj h
      exact ⟨rfl, rfl, rfl⟩
  case h_12 => cases h
  all_goals
    obtain rfl := Option.some.inj h
    exact ⟨rfl, rfl, rfl⟩

theorem notify_total (d : Dispatch) : d.notify.total c b = d.total c b := by
  obtain ⟨spec, extras, world, attempt, phase, started, rows⟩ := d
  cases phase <;> rfl

theorem notify_valid {d : Dispatch} (h : d.Valid) : d.notify.Valid := by
  obtain ⟨spec, extras, world, attempt, phase, started, rows⟩ := d
  cases phase <;> exact h

theorem remaining_inAttempt {d : Dispatch} (h : d.phase.inAttempt = true) :
    d.remaining c b = { d.afterRow c b with rows := d.row c b :: (d.afterRow c b).rows } := by
  obtain ⟨spec, extras, world, attempt, phase, started, rows⟩ := d
  cases phase <;> first | rfl | cases h

theorem valid_inAttempt {d : Dispatch} (h : d.phase.inAttempt = true) :
    d.Valid ↔ d.attempt ≤ d.spec.retry.maxAttempts := by
  obtain ⟨spec, extras, world, attempt, phase, started, rows⟩ := d
  cases phase <;> first | exact Iff.rfl | cases h

theorem enter_inAttempt {d d' : Dispatch} {q : Option Phase} (hv : d.Valid)
    (hd : d.phase.inAttempt = true) (hnext : ∀ p, q = some p → p.inAttempt = true)
    (h : q.map d.enter = some d') : d'.total c b = d.total c b ∧ d'.Valid := by
  obtain ⟨p, hp, rfl⟩ := Option.map_eq_some_iff.1 h
  have hd' : (d.enter p).phase.inAttempt = true := hnext p hp
  refine ⟨?_, (valid_inAttempt hd').2 ((valid_inAttempt hd).1 hv)⟩
  simp only [total, remaining_inAttempt hd, remaining_inAttempt hd']
  rfl

theorem afterPreparing_inAttempt {d : Dispatch} (p : Phase) (h : d.afterPreparing c b = some p) :
    p.inAttempt = true := by
  simp only [afterPreparing] at h
  split at h
  · split at h <;> (cases h; rfl)
  · cases h

theorem afterSending_inAttempt {d : Dispatch} {notified : Bool} (p : Phase)
    (h : d.afterSending notified = some p) : p.inAttempt = true := by
  simp only [afterSending] at h
  split at h
  · split at h <;> cases h
    rfl
  all_goals cases h; rfl

theorem afterSpawning_inAttempt {d : Dispatch} (p : Phase) (h : d.afterSpawning = some p) :
    p.inAttempt = true := by
  simp only [afterSpawning] at h
  split at h
  · cases h
  · cases h; rfl
  · split at h <;> (cases h; rfl)

theorem afterWaiting_inAttempt {d : Dispatch} {notified : Bool} (p : Phase)
    (h : d.afterWaiting notified = some p) : p.inAttempt = true := by
  simp only [afterWaiting] at h
  split at h
  · split at h <;> cases h
    rfl
  all_goals cases h; rfl

theorem startAttempt_total {d : Dispatch} (hp : d.phase = .starting) (hv : d.Valid) :
    d.startAttempt.total c b = d.total c b ∧ d.startAttempt.Valid := by
  have hin : d.startAttempt.phase.inAttempt = true := by
    simp only [startAttempt]
    cases d.spec.kind <;> rfl
  have hrem : d.remaining c b = (d.afterRow c b).cons d.attempt (d.row c b) := by
    simp only [remaining, hp]
  refine ⟨?_, (valid_inAttempt hin).2 ?_⟩
  · have happend : d.startAttempt.started ++ (d.afterRow c b).started =
        d.started ++ d.attempt :: (d.afterRow c b).started := List.append_assoc _ _ _
    simp only [total, remaining_inAttempt hin, hrem]
    exact congrArg (DispatchRun.mk · _ _) happend
  · simp only [Valid, hp] at hv
    exact hv

theorem recordRow_total {d : Dispatch} (hp : d.phase = .recording) :
    (d.recordRow c b).total c b = d.total c b ∧ (d.recordRow c b).Valid := by
  have hin : d.phase.inAttempt = true := by rw [hp]; rfl
  -- the phase after the row is the one at which `afterRow` begins
  have hrem : (d.recordRow c b).remaining c b = d.afterRow c b ∧ (d.recordRow c b).Valid := by
    have hphase : (d.recordRow c b).phase = d.afterRecording c b := rfl
    cases hr : d.result c b with
    | ok r =>
      simp only [afterRecording, hr] at hphase
      simp only [remaining, Valid, hphase, afterRow, hr, and_self]
    | error r =>
      simp only [afterRecording, hr] at hphase
      split_ifs at hphase with ht hlt
      · simp only [remaining, Valid, hphase, afterRow, hr, ht, if_true, and_self]
      · simp only [remaining, Valid, hphase, afterRow, hr, ht, hlt, if_true]
        exact ⟨rfl, hlt⟩
      · simp only [remaining, Valid, hphase, afterRow, hr, ht, hlt, if_false, and_true]
        rfl
  refine ⟨?_, hrem.2⟩
  have happend : (d.recordRow c b).rows ++ (d.afterRow c b).rows =
      d.rows ++ d.row c b :: (d.afterRow c b).rows := List.append_assoc _ _ _
  simp only [total, hrem.1, remaining_inAttempt hin]
  exact congrArg (DispatchRun.mk _ · _) happend

/-- **A step only moves what remains to be done into what is done.** -/
theorem step_total {d d' : Dispatch} (hv : d.Valid) (h : d.step c b = some d') :
    d'.total c b = d.total c b ∧ d'.Valid := by
  have hin (hd : d.phase.inAttempt = true) {q : Option Phase} :=
    @enter_inAttempt c b d d' q hv hd
  replace h := next_of_step h
  cases hp : d.phase with
  | starting =>
    simp only [next, hp, Option.some.injEq] at h
    subst h
    exact startAttempt_total hp hv
  | preparing =>
    simp only [next, hp] at h
    exact hin (by rw [hp]; rfl) afterPreparing_inAttempt h
  | sending notified =>
    simp only [next, hp] at h
    exact hin (by rw [hp]; rfl) afterSending_inAttempt h
  | spawning =>
    simp only [next, hp] at h
    exact hin (by rw [hp]; rfl) afterSpawning_inAttempt h
  | waiting notified =>
    simp only [next, hp] at h
    exact hin (by rw [hp]; rfl) afterWaiting_inAttempt h
  | readingBody | killing | collecting =>
    simp only [next, hp] at h
    exact @hin (by rw [hp]; rfl) (some .recording) (by rintro p ⟨⟩; rfl) h
  | recording =>
    simp only [next, hp, Option.some.injEq] at h
    subst h
    exact recordRow_total hp
  | delaying notified =>
    simp only [Valid, hp] at hv
    simp only [next, hp] at h
    split_ifs at h with hcut hn
    · obtain rfl := Option.some.inj h
      refine ⟨?_, trivial⟩
      simp [total, remaining, hp, enter, afterDelay, hcut]
    · -- the delay has passed: what remains is the loop from the next attempt on
      obtain rfl := Option.some.inj h
      refine ⟨?_, hv⟩
      have hloop := @dispatchLoop_eq_afterRow c b
        { d with attempt := d.attempt + 1, phase := .starting } none hv
      simp only [Nat.add_sub_add_right] at hloop
      simp [total, remaining, hp, afterDelay, hcut, hloop]
  | offline =>
    simp only [next, hp, Option.some.injEq] at h
    subst h
    refine ⟨?_, trivial⟩
    simp [total, remaining, hp, offlineStub]
  | done outcome => simp [next, hp] at h

theorem init_total (spec : JobSpec) (extras : DispatchExtras) (world : DispatchWorld) :
    (init b spec extras world).total c b = b.dispatch c spec extras world ∧
      (init b spec extras world).Valid := by
  cases hoff : b.offlineMode with
  | true => simp [init, hoff, total, remaining, ExecutorBundle.dispatch, Valid]
  | false =>
    rcases Nat.eq_zero_or_pos spec.retry.maxAttempts with hmax | hmax
    · simp [init, hoff, total, remaining, ExecutorBundle.dispatch, Valid, hmax,
        ExecutorBundle.dispatchLoop]
    · have hne : spec.retry.maxAttempts ≠ 0 := by omega
      have hloop := @dispatchLoop_eq_afterRow c b ⟨spec, extras, world, 1, .starting, [], []⟩
        none hmax
      simp only [Nat.add_sub_cancel] at hloop
      simp only [init, hoff, hne, Bool.false_eq_true, if_false, total, remaining,
        ExecutorBundle.dispatch, hloop, List.nil_append, Valid, true_and]
      exact hmax

/-- What can happen to a dispatch. -/
inductive Event where
  | step
  | notify
  deriving DecidableEq, Repr

/-- The machine of one dispatch. -/
def machine (c : Crates) (b : ExecutorBundle) : Machine Dispatch Event where
  step d
    | .step => d.step c b
    | .notify => some d.notify

theorem reaches_total {d d' : Dispatch} (hv : d.Valid) (h : (machine c b).Reaches d d') :
    d'.total c b = d.total c b ∧ d'.Valid := by
  refine h.invariant (I := fun e => e.total c b = d.total c b ∧ e.Valid) ⟨rfl, hv⟩ ?_
  rintro e ev e' ⟨htotal, hvalid⟩ hstep
  cases ev with
  | step =>
    obtain ⟨htotal', hvalid'⟩ := step_total hvalid hstep
    exact ⟨htotal'.trans htotal, hvalid'⟩
  | notify =>
    obtain rfl := Option.some.inj hstep
    exact ⟨(notify_total e).trans htotal, notify_valid hvalid⟩

/-- **The stepwise dispatch refines `dispatch`.**  When it is done, whatever notifications came
in between, it has started the attempts, recorded the rows and reached the outcome of
`ExecutorBundle.dispatch` in the same world. -/
theorem run_refines {spec : JobSpec} {extras : DispatchExtras} {world : DispatchWorld}
    {d : Dispatch} {outcome : DispatchOutcome}
    (h : (machine c b).Reaches (init b spec extras world) d) (hd : d.phase = .done outcome) :
    b.dispatch c spec extras world = ⟨d.started, d.rows, outcome⟩ := by
  obtain ⟨hinit, hvalid⟩ := init_total (c := c) (b := b) spec extras world
  rw [← hinit, ← (reaches_total hvalid h).1]
  simp only [total, remaining, hd, List.append_nil]

end Dispatch

end CronManager
