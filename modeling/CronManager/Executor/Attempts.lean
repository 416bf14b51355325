import CronManager.Dsl.Spec
import CronManager.Executor.Retry

/-!
# Attempt numbers

`dispatch` computes `max_attempts = spec.retry.count + 1` in `u32` and stores the attempt and the
maximum as `i32`.  The count is admitted by the loader, up to a cap that is itself any `u32`.

`dispatchLoop_rows` says which rows the loop records for the attempts it starts, and
`dispatch_attemptsExact_iff` for which counts and for which caps the numbers in them are right: the
addition wraps at `u32::MAX`, so that no attempt is made, and the cast of the maximum is negative
from `2 ^ 31` on.
-/

namespace CronManager

section

variable (c : Crates) (b : ExecutorBundle) (spec : JobSpec) (extras : DispatchExtras)
  (w : DispatchWorld)

/-- The numbers of a dispatch are right: the maximum is one more than the retry count, there is an
attempt, and the `i`-th row carries the number `i` and the maximum. -/
structure ExecutorBundle.AttemptsExact : Prop where
  maxAttempts : spec.retry.maxAttempts = spec.retry.count.toNat + 1
  started : (b.dispatch c spec extras w).started ≠ []
  rows : (b.dispatch c spec extras w).rows.map (·.attemptNumber) =
    (List.range' 1 (b.dispatch c spec extras w).started.length).map Int.ofNat
  max : ∀ row ∈ (b.dispatch c spec extras w).rows,
    row.maxAttempts = spec.retry.count.toNat + 1

end

variable {c : Crates} {b : ExecutorBundle} {spec : JobSpec} {extras : DispatchExtras}
  {w : DispatchWorld}

/-! ### The rows of the loop -/

/-- A run of at most `left` attempts that starts them in order from `attempt` on and records `row`
of each. -/
structure DispatchRun.Consecutive (row : ℕ → HistoryEntry) (left attempt : ℕ) (r : DispatchRun) :
    Prop where
  started : r.started = List.range' attempt r.started.length
  length_le : r.started.length ≤ left
  length_pos : 0 < left → 0 < r.started.length
  rows : r.rows = r.started.map row

theorem consecutive_single (row : ℕ → HistoryEntry) (left attempt : ℕ)
    (outcome : DispatchOutcome) :
    DispatchRun.Consecutive row (left + 1) attempt ⟨[attempt], [row attempt], outcome⟩ :=
  ⟨rfl, Nat.succ_le_succ (Nat.zero_le left), fun _ => Nat.one_pos, rfl⟩

theorem DispatchRun.Consecutive.cons {row : ℕ → HistoryEntry} {left attempt : ℕ}
    {r : DispatchRun} (h : r.Consecutive row left (attempt + 1)) :
    (DispatchRun.cons attempt (row attempt) r).Consecutive row (left + 1) attempt := by
  refine ⟨?_, Nat.succ_le_succ h.length_le, fun _ => Nat.succ_pos _, ?_⟩
  · show attempt :: r.started = List.range' attempt (r.started.length + 1)
    rw [List.range'_succ, ← h.started]
  · show row attempt :: r.rows = (attempt :: r.started).map row
    rw [List.map_cons, h.rows]

/-- The loop starts consecutive attempts and records one row for each of them. -/
theorem dispatchLoop_rows {maxAttempts : ℕ} (left attempt : ℕ) (lastError : Option String) :
    (b.dispatchLoop c spec extras w maxAttempts left attempt lastError).Consecutive
      (b.rowAt c spec extras w maxAttempts) left attempt := by
  induction left generalizing attempt lastError with
  | zero => exact ⟨rfl, le_rfl, fun h => h, rfl⟩
  | succ left ih =>
    have hrow : attemptRow spec (w.attempt attempt) attempt maxAttempts
        (b.attempt c spec extras (w.attempt attempt)) =
          b.rowAt c spec extras w maxAttempts attempt := rfl
    rw [ExecutorBundle.dispatchLoop, hrow]
    cases b.attempt c spec extras (w.attempt attempt) with
    | ok r => exact consecutive_single _ left attempt _
    | error r =>
      simp only
      split_ifs with htimeout hcut
      · exact consecutive_single _ left attempt _
      · exact consecutive_single _ left attempt _
      · exact (ih (attempt + 1) r.errorMessage).cons

theorem dispatch_rows (hoff : b.offlineMode = false) :
    let r := b.dispatch c spec extras w
    r.started = List.range' 1 r.started.length ∧ r.started.length ≤ spec.retry.maxAttempts ∧
      (0 < spec.retry.maxAttempts → 0 < r.started.length) ∧
      r.rows.map (·.attemptNumber) = (List.range' 1 r.started.length).map asI32 ∧
      r.rows.length = r.started.length ∧
      ∀ row ∈ r.rows, row.maxAttempts = asI32 spec.retry.maxAttempts := by
  have hdispatch : b.dispatch c spec extras w =
      b.dispatchLoop c spec extras w spec.retry.maxAttempts spec.retry.maxAttempts 1 none := by
    rw [ExecutorBundle.dispatch, hoff]
    rfl
  have hrun := @dispatchLoop_rows c b spec extras w spec.retry.maxAttempts
    spec.retry.maxAttempts 1 none
  rw [← hdispatch] at hrun
  obtain ⟨hstarted, hlen, hpos, hrows⟩ := hrun
  refine ⟨hstarted, hlen, hpos, ?_, ?_, ?_⟩
  · rw [hrows, ← hstarted, List.map_map]
    rfl
  · rw [hrows, List.length_map]
  · intro row hrow
    rw [hrows] at hrow
    obtain ⟨a, -, rfl⟩ := List.mem_map.1 hrow
    rfl

/-! ### When the numbers are right -/

theorem asI32_lt (n : ℕ) : asI32 n < 2 ^ 31 := Int32.toInt_lt _

/-- **Exactly the counts below `2 ^ 31 - 1` are safe.** -/
theorem attemptsExact_iff (hoff : b.offlineMode = false) :
    b.AttemptsExact c spec extras w ↔ spec.retry.count.toNat + 1 < 2 ^ 31 := by
  obtain ⟨-, hlen, hpos, hnumbers, hcount, hmax⟩ := @dispatch_rows c b spec extras w hoff
  constructor
  · intro h
    -- the first row stores the maximum as an `i32`
    have hrows : 0 < (b.dispatch c spec extras w).rows.length := by
      rw [hcount]
      exact List.length_pos_iff.2 h.started
    obtain ⟨row, hrow⟩ := List.exists_mem_of_length_pos hrows
    have hlt : row.maxAttempts < 2 ^ 31 := by
      rw [hmax row hrow]
      exact asI32_lt _
    rw [h.max row hrow] at hlt
    exact_mod_cast hlt
  · intro h
    have hmaxAttempts := maxAttempts_of_lt h
    refine ⟨hmaxAttempts, List.length_pos_iff.1 (hpos (by omega)), ?_, ?_⟩
    · rw [hnumbers]
      refine List.map_congr_left fun a ha => asI32_of_lt ?_
      obtain ⟨-, halt⟩ := List.mem_range'_1.1 ha
      omega
    · intro row hrow
      rw [hmax row hrow, hmaxAttempts, asI32_of_lt h, Nat.cast_add, Nat.cast_one]

/-! ### What the loader admits -/

variable {env : ProcEnv} {policy : LoadPolicy} {source : String} {key : JobKey}

/-- A manual job that runs `true`, with `count` retries. -/
def retryingJob (count : UInt32) : RawJob where
  trigger := .bool false
  ty := "exec"
  startDate := none
  endDate := none
  retryCount := some count
  retryDelayMs := none
  ignoreFailures := none
  method := none
  url := none
  headers := none
  headerEnvs := none
  command := some (.list ["true"])
  allowedEnvs := none

/-- What the loader makes of it. -/
def retryingSpec (key : JobKey) (count : UInt32) : JobSpec where
  key := key
  trigger := .manual
  window := ⟨none, none⟩
  retry := ⟨count, 1000, false⟩
  kind := .exec ["true"] []

theorem intoSpec_retryingJob {count : UInt32} (h : count.toNat ≤ policy.maxRetryCount.toNat) :
    (retryingJob count).intoSpec c env policy source key = .ok (retryingSpec key count) := by
  have hcap : ¬ policy.maxRetryCount < count := by
    rw [UInt32.lt_iff_toNat_lt]
    omega
  have hretry : (retryingJob count).retryPolicy policy source key = .ok ⟨count, 1000, false⟩ :=
    if_neg hcap
  have hkind : (retryingJob count).kindOf c env policy source key = .ok (.exec ["true"] []) := rfl
  rw [RawJob.intoSpec, hretry, hkind]
  rfl

/-- **Which jobs and which policies keep the attempt numbers right.**  An accepted job does exactly
when its retry count is below `2 ^ 31 - 1`, and every job accepted under a policy does exactly when
the cap of the policy is. -/
theorem dispatch_attemptsExact_iff (c : Crates) (env : ProcEnv) (policy : LoadPolicy) :
    (∀ (raw : RawJob) (source : String) (key : JobKey) (spec : JobSpec),
      raw.intoSpec c env policy source key = .ok spec →
      ∀ (b : ExecutorBundle) (extras : DispatchExtras) (w : DispatchWorld),
        b.offlineMode = false →
        (b.AttemptsExact c spec extras w ↔ (raw.retryCount.getD 0).toNat < 2 ^ 31 - 1)) ∧
    ((∀ (raw : RawJob) (source : String) (key : JobKey) (spec : JobSpec),
      raw.intoSpec c env policy source key = .ok spec →
      ∀ (b : ExecutorBundle) (extras : DispatchExtras) (w : DispatchWorld),
        b.offlineMode = false → b.AttemptsExact c spec extras w) ↔
      policy.maxRetryCount.toNat < 2 ^ 31 - 1) := by
  refine ⟨?_, ?_, ?_⟩
  · intro raw source key spec hspec b extras w hoff
    rw [attemptsExact_iff hoff, (intoSpec_retry_count hspec).1]
    omega
  · intro h
    have hspec : (retryingJob policy.maxRetryCount).intoSpec c env policy "" ⟨"", ""⟩ =
        .ok (retryingSpec ⟨"", ""⟩ policy.maxRetryCount) := intoSpec_retryingJob le_rfl
    have hexact := h _ _ _ _ hspec demoBundle noExtras (demoWorld .timeout) rfl
    have hlt := (attemptsExact_iff rfl).1 hexact
    simp only [retryingSpec] at hlt
    omega
  · intro hcap raw source key spec hspec b extras w hoff
    obtain ⟨hcount, hle⟩ := intoSpec_retry_count hspec
    rw [attemptsExact_iff hoff, hcount]
    omega

/-- Ten retries under a cap of ten. -/
theorem dispatch_attemptsExact_ten :
    demoBundle.AttemptsExact noCrates (retryingSpec ⟨"nightly", "backup"⟩ 10) noExtras
      (demoWorld .timeout) :=
  ((dispatch_attemptsExact_iff noCrates (fun _ => none)
    { LoadPolicy.permissive with maxRetryCount := 10 }).1 (retryingJob 10) "jobs.yaml"
    ⟨"nightly", "backup"⟩ _ (intoSpec_retryingJob le_rfl) demoBundle noExtras (demoWorld .timeout)
    rfl).2 (by decide)

/-- The permissive policy admits `retryCount: 4294967295`, the addition wraps to zero, and the
dispatch makes no attempt and records no row. -/
theorem dispatch_makes_no_attempt :
    (retryingJob 0xffffffff).intoSpec noCrates (fun _ => none) .permissive "jobs.yaml"
        ⟨"nightly", "backup"⟩ = .ok (retryingSpec ⟨"nightly", "backup"⟩ 0xffffffff) ∧
      (demoBundle.dispatch noCrates (retryingSpec ⟨"nightly", "backup"⟩ 0xffffffff) noExtras
        (demoWorld .timeout)).started = [] ∧
      ¬ ∀ (c : Crates) (env : ProcEnv) (policy : LoadPolicy) (raw : RawJob) (source : String)
        (key : JobKey) (spec : JobSpec), raw.intoSpec c env policy source key = .ok spec →
        ∀ (b : ExecutorBundle) (extras : DispatchExtras) (w : DispatchWorld),
          b.offlineMode = false → b.AttemptsExact c spec extras w := by
  have hspec : (retryingJob 0xffffffff).intoSpec noCrates (fun _ => none) .permissive "jobs.yaml"
      ⟨"nightly", "backup"⟩ = .ok (retryingSpec ⟨"nightly", "backup"⟩ 0xffffffff) :=
    intoSpec_retryingJob le_rfl
  have hnone : (demoBundle.dispatch noCrates (retryingSpec ⟨"nightly", "backup"⟩ 0xffffffff)
      noExtras (demoWorld .timeout)).started = [] := by decide
  refine ⟨hspec, hnone, fun h => ?_⟩
  exact (h _ _ _ _ _ _ _ hspec demoBundle noExtras (demoWorld .timeout) rfl).started hnone

end CronManager
