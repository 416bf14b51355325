import CronManager.Config
import CronManager.Executor.Ssrf
import Mathlib.Data.ENat.Basic

/-!
# Timeouts

The shell executor races the child's exit against `tokio::time::sleep` and the cancel signal, the
HTTP executor races `send()`, which carries the client's own timeout, against that signal.  Here
the branches of a race are given by the times at which they are ready, in milliseconds, and the
race ends with one that is ready first.

The configuration reference and the boot warning say that a limit of 0 disables the timeout.  Both
limits go into a `Duration` as they are, and a timer of length 0 is ready at once:
`timeouts_disabled_iff`.
-/

namespace CronManager

open Rust

/-! ### Races -/

/-- `tokio::select!`: a branch that is ready at some time, and no other one before it. -/
def Selects {ι : Type} (ready : ι → ℕ∞) (i : ι) : Prop := ready i ≠ ⊤ ∧ ∀ j, ready i ≤ ready j

/-- When the timers of `tokio` and `reqwest` with a limit in seconds fire, in milliseconds after
their start. -/
structure Timers where
  sleep : ℕ → ℕ
  clientTimeout : ℕ → ℕ
  /-- A sleep never ends early. -/
  le_sleep : ∀ secs, 1000 * secs ≤ sleep secs
  sleep_zero : sleep 0 = 0
  clientTimeout_zero : clientTimeout 0 = 0

/-- Timers without delay. -/
def Timers.exact : Timers where
  sleep secs := 1000 * secs
  clientTimeout secs := 1000 * secs
  le_sleep _ := le_rfl
  sleep_zero := rfl
  clientTimeout_zero := rfl

/-- The branches of both races: the awaited future, the timer and `cancel.notified()`. -/
inductive Branch where
  | done
  | timer
  | cancel
  deriving DecidableEq, Repr

/-- The times at which the branches are ready. -/
def readyAt (done timer cancel : ℕ∞) : Branch → ℕ∞
  | .done => done
  | .timer => timer
  | .cancel => cancel

/-- The branch that ended the wait for the child. -/
def WaitEnd.branch : WaitEnd → Branch
  | .exited _ | .failed _ => .done
  | .timeout => .timer
  | .cancelled => .cancel

/-- The branch that ended `send()`. -/
def SendEnd.branch : SendEnd → Branch
  | .response .. | .failed _ => .done
  | .timeout => .timer
  | .cancelled => .cancel

/-- A child that runs for `d` and is not cancelled: the wait ends with the winner of the race. -/
def ShellExecutor.Runs (x : ShellExecutor) (timers : Timers) (d : ℕ∞) (w : ShellWorld) : Prop :=
  Selects (readyAt d (timers.sleep x.timeoutSecs) ⊤) w.waitEnd.branch

/-- An upstream that takes `latency` to answer, without a cancel. -/
def HttpExecutor.Answers (x : HttpExecutor) (timers : Timers) (latency : ℕ∞) (w : HttpWorld) :
    Prop :=
  Selects (readyAt latency (timers.clientTimeout x.timeoutSecs) ⊤) w.send.branch

/-! ### The timer of a race -/

/-- The timer wins only against a future that takes at least as long. -/
theorem le_of_selects_timer {done timer cancel : ℕ∞}
    (h : Selects (readyAt done timer cancel) .timer) : timer ≤ done := h.2 .done

theorem selects_timer_zero (done cancel : ℕ∞) : Selects (readyAt done 0 cancel) .timer := by
  refine ⟨ENat.zero_ne_top, fun j => ?_⟩
  exact zero_le

/-- Against a future that takes any time at all nothing else can. -/
theorem eq_timer_of_selects {done : ℕ∞} {b : Branch} (hdone : 0 < done)
    (h : Selects (readyAt done 0 ⊤) b) : b = .timer := by
  cases b with
  | done => exact absurd (h.2 .timer) (not_le.2 hdone)
  | timer => rfl
  | cancel => exact absurd rfl h.1

/-! ### Which results are timeouts -/

theorem capOutputFrom_ne_shellTimeout {limit n : ℕ} {error : Option String} {buf : List UInt8}
    {chunks : List (List UInt8)} :
    capOutputFrom limit error buf chunks ≠ .error (.shellTimeout n) := by
  induction chunks generalizing buf with
  | nil =>
    unfold capOutputFrom
    cases error with
    | none => simp
    | some e => simp
  | cons chunk chunks ih =>
    unfold capOutputFrom
    split
    · simp
    · exact ih

theorem spawnLoop_ne_shellTimeout {spawn : ℕ → SpawnEnd} {k attempt n : ℕ} :
    spawnLoop spawn k attempt ≠ .error (.shellTimeout n) := by
  induction k generalizing attempt with
  | zero => simp [spawnLoop]
  | succ k ih =>
    unfold spawnLoop
    cases spawn attempt with
    | spawned => simp
    | busy e =>
      simp only
      split
      · exact ih
      · simp
    | failed e => simp

theorem finishExit_ne_shellTimeout {x : ShellExecutor} {code : Option ℤ} {out err : ByteStream}
    {n : ℕ} : x.finishExit code out err ≠ .error (.shellTimeout n) := by
  unfold ShellExecutor.finishExit
  cases hout : capOutput x.maxOutputBytes out with
  | error e =>
    rintro ⟨⟩
    exact capOutputFrom_ne_shellTimeout hout
  | ok o =>
    cases herr : capOutput x.maxOutputBytes err with
    | error e =>
      rintro ⟨⟩
      exact capOutputFrom_ne_shellTimeout herr
    | ok e =>
      simp only
      split
      · simp
      · simp

theorem waitEnd_of_shellTimeout {x : ShellExecutor} {argv allowedEnvs : List String}
    {overrides : List (String × String)} {w : ShellWorld} {n : ℕ}
    (h : (x.execute argv allowedEnvs overrides w).result = .error (.shellTimeout n)) :
    w.waitEnd = .timeout := by
  cases argv with
  | nil => cases h
  | cons program args =>
    simp only [ShellExecutor.execute, ShellExecutor.runProgram] at h
    cases hspawn : spawnLoop w.spawn 5 0 with
    | error e =>
      rw [hspawn] at h
      cases h
      exact absurd hspawn spawnLoop_ne_shellTimeout
    | ok _ =>
      rw [hspawn] at h
      simp only [ShellExecutor.finishWait] at h
      cases hwait : w.waitEnd with
      | exited code =>
        rw [hwait] at h
        exact absurd h finishExit_ne_shellTimeout
      | failed e =>
        rw [hwait] at h
        cases h
      | timeout => rfl
      | cancelled =>
        rw [hwait] at h
        cases h

/-! ### A limit of zero -/

/-- Without a cancel the shell executor returns `ShellTimeout` only for a child that runs into a
limit above zero. -/
def ShellExecutor.TimesOutAtLimit (x : ShellExecutor) (timers : Timers) (d : ℕ∞) : Prop :=
  ∀ argv allowedEnvs overrides w, x.Runs timers d w → ∀ n,
    (x.execute argv allowedEnvs overrides w).result = .error (.shellTimeout n) →
    0 < x.timeoutSecs ∧ ((1000 * x.timeoutSecs : ℕ) : ℕ∞) ≤ d

/-- With a limit of zero the HTTP executor never returns `UpstreamTimeout`. -/
def HttpExecutor.ZeroNeverTimesOut (x : HttpExecutor) (timers : Timers) (latency : ℕ∞) : Prop :=
  x.timeoutSecs = 0 → ∀ c method url headers w, x.Answers timers latency w → ∀ n,
    (x.execute c method url headers w).result ≠ .error (.upstreamTimeout n)

/-- A command whose first spawn succeeds and whose wait ends as given. -/
def spawnedWorld (waitEnd : WaitEnd) : ShellWorld :=
  ⟨fun _ => .spawned, waitEnd, ⟨[], none⟩, ⟨[], none⟩⟩

theorem execute_spawnedWorld_timeout (x : ShellExecutor) :
    (x.execute ["true"] [] [] (spawnedWorld .timeout)).result =
      .error (.shellTimeout x.timeoutSecs) := rfl

theorem timesOutAtLimit_iff {x : ShellExecutor} {timers : Timers} {d : ℕ∞} :
    x.TimesOutAtLimit timers d ↔ 0 < x.timeoutSecs := by
  constructor
  · intro h
    by_contra hzero
    obtain hzero : x.timeoutSecs = 0 := Nat.eq_zero_of_not_pos hzero
    have hruns : x.Runs timers d (spawnedWorld .timeout) := by
      unfold ShellExecutor.Runs
      rw [hzero, timers.sleep_zero]
      exact selects_timer_zero d ⊤
    obtain ⟨hpos, -⟩ := h _ _ _ _ hruns _ (execute_spawnedWorld_timeout x)
    exact absurd hpos (by omega)
  · intro hpos argv allowedEnvs overrides w hruns n hresult
    refine ⟨hpos, ?_⟩
    -- the result says that the timer won, and then it was ready no later than the child
    unfold ShellExecutor.Runs at hruns
    rw [waitEnd_of_shellTimeout hresult] at hruns
    have hle := le_of_selects_timer hruns
    have hearly : ((1000 * x.timeoutSecs : ℕ) : ℕ∞) ≤ (timers.sleep x.timeoutSecs : ℕ) :=
      Nat.cast_le.2 (timers.le_sleep x.timeoutSecs)
    exact hearly.trans hle

theorem execute_ping (x : HttpExecutor) (send : SendEnd) :
    (x.execute pingCrates "GET" "http://rebind.example/" []
      { pingWorld ⟨8, 8, 8, 8⟩ with send := send }).result = x.finishSend send := by
  have hu : pingCrates.urlParse "http://rebind.example/" =
      .ok ⟨"http", some (.domain pingHost), none⟩ := by simp [pingCrates]
  have hmethod : pingCrates.methodFromBytes "GET" = some "GET" := by simp [pingCrates]
  have hpublic : x.listsRefused (Host.domain pingHost).text [.v4 ⟨8, 8, 8, 8⟩] = false := by
    rw [listsRefused_eq_false]
    intro ip hip
    rw [List.mem_singleton.1 hip]
    exact ssrfRefuses_of_public (by decide) _
  have hpre : x.preflight pingCrates "http://rebind.example/"
      (pingWorld ⟨8, 8, 8, 8⟩).lookup = .ok () := by
    unfold HttpExecutor.preflight
    split
    · exact (rejectPrivateDns_eq_ok hu rfl).2 (.inr ⟨_, rfl, hpublic⟩)
    · rfl
  have hprepare : x.prepare pingCrates "GET" "http://rebind.example/" []
      { pingWorld ⟨8, 8, 8, 8⟩ with send := send } =
        .ok ⟨"GET", "http://rebind.example/", [], [.v4 ⟨8, 8, 8, 8⟩]⟩ :=
    (prepare_eq_ok hu).2 ⟨"GET", [], hmethod, hpre, rfl, rfl⟩
  rw [HttpExecutor.execute, hprepare]

theorem zeroNeverTimesOut_iff {x : HttpExecutor} {timers : Timers} {latency : ℕ∞} :
    x.ZeroNeverTimesOut timers latency ↔ 0 < x.timeoutSecs := by
  constructor
  · intro h
    by_contra hzero
    obtain hzero : x.timeoutSecs = 0 := Nat.eq_zero_of_not_pos hzero
    have hanswers : x.Answers timers latency
        { pingWorld ⟨8, 8, 8, 8⟩ with send := .timeout } := by
      unfold HttpExecutor.Answers
      rw [hzero, timers.clientTimeout_zero]
      exact selects_timer_zero latency ⊤
    exact h hzero _ _ _ _ _ hanswers _ (execute_ping x .timeout)
  · intro hpos hzero
    omega

/-- **A limit of zero does not disable a timeout.**  For every configuration, run time of a child
and latency of an upstream: the executors time out only as documented if and only if both limits
are above zero. -/
theorem timeouts_disabled_iff (cfg : AppConfig) (env : ProcEnv) (timers : Timers)
    (d latency : ℕ∞) :
    ((cfg.bundle env).shell.TimesOutAtLimit timers d ∧
        (cfg.bundle env).http.ZeroNeverTimesOut timers latency) ↔
      0 < cfg.limits.shellTimeoutSecs ∧ 0 < cfg.limits.requestTimeoutSecs := by
  rw [timesOutAtLimit_iff, zeroNeverTimesOut_iff]
  exact Iff.rfl

/-- The defaults with both limits set to zero. -/
def zeroLimits : AppConfig :=
  { AppConfig.default with
    limits := { Limits.default with requestTimeoutSecs := 0, shellTimeoutSecs := 0 } }

/-- With both limits zero, a child that runs for five milliseconds and an upstream that answers
after five milliseconds can only time out. -/
theorem zero_limits_time_out :
    (∀ w, (zeroLimits.bundle fun _ => none).shell.Runs .exact 5 w → w.waitEnd = .timeout) ∧
      ((zeroLimits.bundle fun _ => none).shell.execute ["true"] [] []
        (spawnedWorld .timeout)).result = .error (.shellTimeout 0) ∧
      (∀ w, (zeroLimits.bundle fun _ => none).http.Answers .exact 5 w → w.send = .timeout) ∧
      ((zeroLimits.bundle fun _ => none).http.execute pingCrates "GET" "http://rebind.example/" []
        { pingWorld ⟨8, 8, 8, 8⟩ with send := .timeout }).result = .error (.upstreamTimeout 0) ∧
      ¬ (zeroLimits.bundle fun _ => none).shell.TimesOutAtLimit .exact 5 ∧
      ¬ (zeroLimits.bundle fun _ => none).http.ZeroNeverTimesOut .exact 5 := by
  refine ⟨fun w hw => ?_, rfl, fun w hw => ?_, execute_ping _ _, ?_, ?_⟩
  · have hbranch := eq_timer_of_selects (by decide) hw
    cases hwait : w.waitEnd with
    | timeout => rfl
    | exited code => simp [hwait, WaitEnd.branch] at hbranch
    | failed e => simp [hwait, WaitEnd.branch] at hbranch
    | cancelled => simp [hwait, WaitEnd.branch] at hbranch
  · have hbranch := eq_timer_of_selects (by decide) hw
    cases hsend : w.send with
    | timeout => rfl
    | response status body => simp [hsend, SendEnd.branch] at hbranch
    | failed e => simp [hsend, SendEnd.branch] at hbranch
    | cancelled => simp [hsend, SendEnd.branch] at hbranch
  · rw [timesOutAtLimit_iff]
    exact Nat.lt_irrefl 0
  · rw [zeroNeverTimesOut_iff]
    exact Nat.lt_irrefl 0

end CronManager
