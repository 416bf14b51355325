import CronManager.Executor.Dispatch
import Mathlib.Data.List.Range
import Mathlib.Tactic.NormNum

/-!
# What the retry loop does

`dispatchLoop_eq` is the closed form of an undisturbed retry loop: it makes the attempts up to
the first one that settles it, by succeeding or by a shell timeout, or all of them, and records
one row each.  `dispatch_uncancelled` reads the history rows and the outcome of a dispatch off it.

`mem_started_iff` says which attempts a dispatch starts when retry delays may be cut short, and
`stopsAtCancel_iff` exactly when an attempt that ended through the stop signal is the
last one: the signal that an executor consumes comes back as an ordinary error, and the loop
retries it like any other.
-/

namespace CronManager

variable (c : Crates) (b : ExecutorBundle) (spec : JobSpec) (extras : DispatchExtras)
  (w : DispatchWorld)

/-- The result settles the retry loop: a success, or the timeout of a shell job. -/
def settles : Except HttpDispatchResult HttpDispatchResult → Bool
  | .ok _ => true
  | .error r => r.isShellTimeout

/-- The result of attempt `a`. -/
def ExecutorBundle.resultAt (a : ℕ) : Except HttpDispatchResult HttpDispatchResult :=
  b.attempt c spec extras (w.attempt a)

/-- The first of the attempts `a, …, a + k - 1` that settles the loop, or else `last`. -/
def ExecutorBundle.firstSettled (last a k : ℕ) : ℕ :=
  ((List.range' a k).find? fun i => settles (b.resultAt c spec extras w i)).getD last

/-- The attempt that decides the dispatch: the first that settles the loop, or the last one. -/
def ExecutorBundle.decidingAttempt : ℕ :=
  b.firstSettled c spec extras w spec.retry.maxAttempts 1 spec.retry.maxAttempts

/-- The row of attempt `a`. -/
def ExecutorBundle.rowAt (maxAttempts a : ℕ) : HistoryEntry :=
  attemptRow spec (w.attempt a) a maxAttempts (b.resultAt c spec extras w a)

/-- The outcome of a loop that attempt `n` decides. -/
def decidedOutcome (maxAttempts n : ℕ) :
    Except HttpDispatchResult HttpDispatchResult → DispatchOutcome
  | .ok _ => ⟨.success, n, none⟩
  | .error r =>
    if r.isShellTimeout then ⟨.timeout, n, r.errorMessage⟩
    else exhausted spec maxAttempts r.errorMessage

variable {c b spec extras w}

theorem firstSettled_succ {last a k : ℕ} :
    b.firstSettled c spec extras w last a (k + 1) =
      if settles (b.resultAt c spec extras w a) then a
      else b.firstSettled c spec extras w last (a + 1) k := by
  simp only [ExecutorBundle.firstSettled, List.range'_succ, List.find?_cons]
  cases settles (b.resultAt c spec extras w a) <;> simp

/-- The first settling attempt lies in its range, earlier ones do not settle, and it settles
unless it is the last one. -/
theorem firstSettled_spec {k : ℕ} : ∀ {a : ℕ}, 0 < k →
    let n := b.firstSettled c spec extras w (a + k - 1) a k
    a ≤ n ∧ n ≤ a + k - 1 ∧
      (∀ i, a ≤ i → i < n → settles (b.resultAt c spec extras w i) = false) ∧
      (settles (b.resultAt c spec extras w n) = true ∨ n = a + k - 1) := by
  induction k with
  | zero => intro a hk; exact absurd hk (lt_irrefl 0)
  | succ k ih =>
    intro a _
    -- either `a` settles the loop, or the search goes on from `a + 1`
    rw [firstSettled_succ]
    cases hs : settles (b.resultAt c spec extras w a) with
    | true =>
      simp only [if_true]
      exact ⟨le_refl a, by omega, fun i h h' => absurd h' (by omega), Or.inl hs⟩
    | false =>
      simp only [Bool.false_eq_true, if_false]
      rcases Nat.eq_zero_or_pos k with rfl | hk
      · simp only [ExecutorBundle.firstSettled, List.range'_zero, List.find?_nil,
          Option.getD_none]
        exact ⟨by omega, by omega, fun i h h' => by omega, Or.inr trivial⟩
      · have hlast : a + (k + 1) - 1 = a + 1 + k - 1 := by omega
        rw [hlast]
        obtain ⟨h1, h2, h3, h4⟩ := ih (a := a + 1) hk
        refine ⟨by omega, h2, ?_, h4⟩
        intro i hi hin
        rcases Nat.eq_or_lt_of_le hi with rfl | hlt
        · exact hs
        · exact h3 i hlt hin

/-- **The undisturbed retry loop in closed form**: the attempts up to the deciding one, their
rows, and the outcome that attempt decides. -/
theorem dispatchLoop_eq {maxAttempts : ℕ} (hcut : ∀ a, w.delayCut a = false) :
    ∀ (left attempt : ℕ) (lastError : Option String), 0 < left → attempt + left = maxAttempts + 1 →
      let n := b.firstSettled c spec extras w maxAttempts attempt left
      b.dispatchLoop c spec extras w maxAttempts left attempt lastError =
        ⟨List.range' attempt (n + 1 - attempt),
          (List.range' attempt (n + 1 - attempt)).map (b.rowAt c spec extras w maxAttempts),
          decidedOutcome spec maxAttempts n (b.resultAt c spec extras w n)⟩ := by
  intro left
  induction left with
  | zero => intro attempt _ h; exact absurd h (lt_irrefl 0)
  | succ left ih =>
    intro attempt lastError _ hsum
    rw [firstSettled_succ]
    have hone : attempt + 1 - attempt = 1 := by omega
    cases hr : b.resultAt c spec extras w attempt with
    | ok r =>
      have hr' : b.attempt c spec extras (w.attempt attempt) = .ok r := hr
      simp [ExecutorBundle.dispatchLoop, hr, hr', settles, hone, decidedOutcome,
        ExecutorBundle.rowAt]
    | error r =>
      have hr' : b.attempt c spec extras (w.attempt attempt) = .error r := hr
      cases ht : r.isShellTimeout with
      | true =>
        simp [ExecutorBundle.dispatchLoop, hr, hr', settles, ht, hone, decidedOutcome,
          ExecutorBundle.rowAt]
      | false =>
        simp only [ExecutorBundle.dispatchLoop, hr', settles, ht, Bool.false_eq_true, if_false,
          hcut, and_false]
        rcases Nat.eq_zero_or_pos left with rfl | hleft
        · -- the last attempt failed: the loop ends with its error
          have hn : maxAttempts = attempt := by omega
          subst hn
          simp [ExecutorBundle.dispatchLoop, ExecutorBundle.firstSettled, DispatchRun.cons, hr,
            hone, decidedOutcome, ht, ExecutorBundle.rowAt]
        · rw [ih (attempt + 1) r.errorMessage hleft (by omega)]
          have hlast : maxAttempts = attempt + 1 + left - 1 := by omega
          have hn :
              attempt + 1 ≤ b.firstSettled c spec extras w maxAttempts (attempt + 1) left := by
            rw [hlast]
            exact (firstSettled_spec hleft).1
          generalize b.firstSettled c spec extras w maxAttempts (attempt + 1) left = n at hn ⊢
          have hlen : n + 1 - attempt = n + 1 - (attempt + 1) + 1 := by omega
          simp only [DispatchRun.cons, hlen, List.range'_succ, List.map_cons, ExecutorBundle.rowAt,
            hr]

theorem maxAttempts_of_lt (h : spec.retry.count.toNat + 1 < 2 ^ 31) :
    spec.retry.maxAttempts = spec.retry.count.toNat + 1 := by
  have hpow : 2 ^ 31 < 2 ^ 32 := by norm_num
  simp only [RetryPolicy.maxAttempts, UInt32.toNat_add, UInt32.toNat_one]
  exact Nat.mod_eq_of_lt (h.trans hpow)

theorem asI32_of_lt {n : ℕ} (h : n < 2 ^ 31) : asI32 n = n := Int32.toInt_ofNat_of_lt h

/-- The status of the last row of an undisturbed dispatch. -/
def finalRowStatus : Except HttpDispatchResult HttpDispatchResult → ExecutionStatus
  | .ok _ => .success
  | .error r => if r.isShellTimeout then .timeout else .failed

/-- The status of the outcome of an undisturbed dispatch. -/
def finalStatus (spec : JobSpec) :
    Except HttpDispatchResult HttpDispatchResult → ExecutionStatus
  | .ok _ => .success
  | .error r =>
    if r.isShellTimeout then .timeout
    else if spec.retry.ignoreFailures then .skipped else .failed

/-- The error message of a result. -/
def resultError : Except HttpDispatchResult HttpDispatchResult → Option String
  | .ok _ => none
  | .error r => r.errorMessage

theorem rowStatus_of_not_settles {a max : ℕ} (h : a < max)
    {r : Except HttpDispatchResult HttpDispatchResult} (hr : settles r = false) :
    rowStatus a max r = .retrying := by
  cases r with
  | ok r => simp [settles] at hr
  | error r =>
    simp only [settles] at hr
    simp [rowStatus, hr, h]

theorem rowStatus_deciding {a max : ℕ} {r : Except HttpDispatchResult HttpDispatchResult}
    (h : settles r = true ∨ a = max) : rowStatus a max r = finalRowStatus r := by
  cases r with
  | ok r => rfl
  | error r =>
    simp only [settles] at h
    rcases h with h | rfl
    · simp [rowStatus, finalRowStatus, h]
    · simp [rowStatus, finalRowStatus]

theorem decidedOutcome_eq {n max : ℕ} {r : Except HttpDispatchResult HttpDispatchResult}
    (h : settles r = true ∨ n = max) :
    decidedOutcome spec max n r = ⟨finalStatus spec r, n, resultError r⟩ := by
  cases r with
  | ok r => rfl
  | error r =>
    simp only [settles] at h
    cases ht : r.isShellTimeout with
    | true => simp [decidedOutcome, finalStatus, resultError, ht]
    | false =>
      have hn : n = max := by simpa [ht] using h
      simp [decidedOutcome, finalStatus, resultError, exhausted, ht, hn]

theorem map_range'_one {α : Type*} {f : ℕ → α} {x : α} {n : ℕ} (hn : 0 < n)
    (h : ∀ i, 1 ≤ i → i < n → f i = x) :
    (List.range' 1 n).map f = List.replicate (n - 1) x ++ [f n] := by
  obtain ⟨m, rfl⟩ : ∃ m, n = m + 1 := ⟨n - 1, by omega⟩
  rw [List.range'_concat, List.map_append, Nat.add_sub_cancel]
  congr 1
  · rw [List.eq_replicate_iff]
    refine ⟨by simp, ?_⟩
    intro y hy
    obtain ⟨i, hi, rfl⟩ := List.mem_map.1 hy
    rw [List.mem_range'_1] at hi
    exact h i hi.1 (by omega)
  · simp [Nat.add_comm]

theorem rows_attemptNumber {max n : ℕ} (hn : n < 2 ^ 31) :
    ((List.range' 1 n).map (b.rowAt c spec extras w max)).map (·.attemptNumber) =
      (List.range' 1 n).map Int.ofNat := by
  rw [List.map_map]
  refine List.map_congr_left fun a ha => ?_
  have hle : a ≤ n := by
    have := List.mem_range'_1.1 ha
    omega
  simp only [Function.comp_apply, ExecutorBundle.rowAt, attemptRow,
    asI32_of_lt (hle.trans_lt hn), Int.ofNat_eq_natCast]

theorem rows_maxAttempts {max n : ℕ} (hmax : max < 2 ^ 31) :
    ((List.range' 1 n).map (b.rowAt c spec extras w max)).map (·.maxAttempts) =
      List.replicate n (max : ℤ) := by
  rw [List.map_map, List.eq_replicate_iff]
  refine ⟨by simp, ?_⟩
  intro y hy
  obtain ⟨a, -, rfl⟩ := List.mem_map.1 hy
  simp only [Function.comp_apply, ExecutorBundle.rowAt, attemptRow, asI32_of_lt hmax]

theorem rows_status {max n : ℕ} (hn : 0 < n) (hmax : n ≤ max)
    (hbefore : ∀ i, 1 ≤ i → i < n → settles (b.resultAt c spec extras w i) = false)
    (hdecides : settles (b.resultAt c spec extras w n) = true ∨ n = max) :
    ((List.range' 1 n).map (b.rowAt c spec extras w max)).map (·.status) =
      List.replicate (n - 1) .retrying ++ [finalRowStatus (b.resultAt c spec extras w n)] := by
  rw [List.map_map, map_range'_one hn (x := .retrying)]
  · simp only [Function.comp_apply, ExecutorBundle.rowAt, attemptRow, rowStatus_deciding hdecides]
  · intro i hi hin
    simp only [Function.comp_apply, ExecutorBundle.rowAt, attemptRow]
    exact rowStatus_of_not_settles (hin.trans_le hmax) (hbefore i hi hin)

/-- The deciding attempt is one of the attempts, no earlier one settles the loop, and it settles
the loop itself unless it is the last. -/
theorem decidingAttempt_spec (hmax : 0 < spec.retry.maxAttempts) :
    let n := b.decidingAttempt c spec extras w
    1 ≤ n ∧ n ≤ spec.retry.maxAttempts ∧
      (∀ i, 1 ≤ i → i < n → settles (b.resultAt c spec extras w i) = false) ∧
      (settles (b.resultAt c spec extras w n) = true ∨ n = spec.retry.maxAttempts) := by
  have h := @firstSettled_spec c b spec extras w spec.retry.maxAttempts 1 hmax
  rwa [Nat.add_sub_cancel_left] at h

/-- The undisturbed dispatch in closed form. -/
theorem dispatch_eq (hoff : b.offlineMode = false) (hmax : 0 < spec.retry.maxAttempts)
    (hcut : ∀ a, w.delayCut a = false) :
    let n := b.decidingAttempt c spec extras w
    b.dispatch c spec extras w = ⟨List.range' 1 n,
      (List.range' 1 n).map (b.rowAt c spec extras w spec.retry.maxAttempts),
      decidedOutcome spec spec.retry.maxAttempts n (b.resultAt c spec extras w n)⟩ := by
  have h := @dispatchLoop_eq c b spec extras w spec.retry.maxAttempts hcut
    spec.retry.maxAttempts 1 none hmax (by omega)
  simp only [Nat.add_sub_cancel] at h
  simp only [ExecutorBundle.dispatch, hoff, Bool.false_eq_true, if_false]
  exact h

/-- **An undisturbed dispatch.**  Let `n` be the first attempt that succeeds or times out, or the
last one.  The dispatch makes the attempts `1, …, n` and records one row each, all but the last
`RETRYING`; the last row and the outcome are those of attempt `n`. -/
theorem dispatch_uncancelled {n : ℕ} (hn : n = b.decidingAttempt c spec extras w)
    (hoff : b.offlineMode = false) (hcount : spec.retry.count.toNat + 1 < 2 ^ 31)
    (hcut : ∀ a, w.delayCut a = false) :
    (b.dispatch c spec extras w).started = List.range' 1 n ∧
      (b.dispatch c spec extras w).rows.map (·.attemptNumber) =
        (List.range' 1 n).map Int.ofNat ∧
      (b.dispatch c spec extras w).rows.map (·.maxAttempts) =
        List.replicate n (spec.retry.count.toNat + 1 : ℤ) ∧
      (b.dispatch c spec extras w).rows.map (·.status) =
        List.replicate (n - 1) .retrying ++ [finalRowStatus (b.resultAt c spec extras w n)] ∧
      (b.dispatch c spec extras w).outcome =
        ⟨finalStatus spec (b.resultAt c spec extras w n), n,
          resultError (b.resultAt c spec extras w n)⟩ := by
  subst hn
  have hmax := maxAttempts_of_lt hcount
  have hpos : 0 < spec.retry.maxAttempts := by omega
  obtain ⟨hn1, hnmax, hbefore, hdecides⟩ := @decidingAttempt_spec c b spec extras w hpos
  have hn31 : b.decidingAttempt c spec extras w < 2 ^ 31 :=
    (hnmax.trans hmax.le).trans_lt hcount
  rw [@dispatch_eq c b spec extras w hoff hpos hcut]
  refine ⟨rfl, rows_attemptNumber hn31, ?_, rows_status hn1 hnmax hbefore hdecides,
    decidedOutcome_eq hdecides⟩
  rw [hmax, rows_maxAttempts hcount, Nat.cast_add, Nat.cast_one]

/-! ### A concrete dispatch

A shell job whose first attempt ends as `first` says and whose later ones exit with code 0. -/

/-- A bundle with the default limits. -/
def demoBundle : ExecutorBundle where
  http := ⟨1048576, 30, true, []⟩
  shell := ⟨.empty, 300, 1048576⟩
  offlineMode := false

/-- `backup.sh` with one retry. -/
def demoSpec : JobSpec where
  key := ⟨"nightly", "backup"⟩
  trigger := .manual
  window := ⟨none, none⟩
  retry := ⟨1, 1000, false⟩
  kind := .exec ["/opt/backup.sh"] []

/-- No overrides. -/
def noExtras : DispatchExtras := ⟨[]⟩

/-- The first attempt's wait ends as `first` says, later children exit with code 0, and no delay
is cut. -/
def demoWorld (first : WaitEnd) : DispatchWorld where
  attempt a := {
    startedAt := 0
    durationMs := 1
    http := ⟨fun _ => .error "unused", fun _ => [], fun _ => none, .timeout⟩
    shell := ⟨fun _ => .spawned, if a = 1 then first else .exited (some 0), ⟨[], none⟩,
      ⟨[], none⟩⟩ }
  delayCut _ := false
  offlineAt := 0

/-- A first attempt that exits with code 1 is retried once. -/
theorem dispatch_uncancelled_flaky :
    let r := demoBundle.dispatch noCrates demoSpec noExtras (demoWorld (.exited (some 1)))
    r.started = [1, 2] ∧ r.rows.map (·.status) = [.retrying, .success] ∧
      r.outcome = ⟨.success, 2, none⟩ := by
  obtain ⟨hstarted, -, -, hstatus, houtcome⟩ :=
    @dispatch_uncancelled noCrates demoBundle demoSpec noExtras (demoWorld (.exited (some 1)))
      2 (by decide) rfl (by decide) (fun _ => rfl)
  exact ⟨hstarted, hstatus, houtcome⟩

/-! ### Attempts and the stop signal -/

/-- The attempt returned `e`. -/
def failedWith {α : Type*} (e : CronManagerError) : Except CronManagerError α → Bool
  | .error e' => e' = e
  | .ok _ => false

/-- The attempt ended because its executor observed the cancel signal. -/
def ExecutorBundle.observedCancel (c : Crates) (b : ExecutorBundle) (spec : JobSpec)
    (extras : DispatchExtras) (w : AttemptWorld) : Bool :=
  match spec.kind with
  | .http method url headers =>
    failedWith (.internal "aborted by /stop before response")
      (b.http.execute c method url headers w.http).result
  | .exec argv allowedEnvs =>
    failedWith (.shellFailed "aborted by /stop")
      (b.shell.execute argv allowedEnvs extras.envOverrides w.shell).result

variable (c b spec extras w)

/-- The loop does not end at attempt `i`: it fails without a timeout and its retry delay is not
cut short. -/
def ExecutorBundle.goesOn (i : ℕ) : Prop :=
  settles (b.resultAt c spec extras w i) = false ∧ w.delayCut i = false

/-- The retry loop gets to attempt `a`. -/
def ExecutorBundle.Reached (a : ℕ) : Prop :=
  1 ≤ a ∧ a ≤ spec.retry.maxAttempts ∧ ∀ i, 1 ≤ i → i < a → b.goesOn c spec extras w i

/-- The retry delay after attempt `a` is entered and the signal cuts it short. -/
def ExecutorBundle.delayCutAfter (a : ℕ) : Prop :=
  a < spec.retry.maxAttempts ∧ settles (b.resultAt c spec extras w a) = false ∧
    w.delayCut a = true

/-- No attempt starts after one that observed the signal, nor after a delay the signal cut. -/
def ExecutorBundle.StopsAtCancel : Prop :=
  let r := b.dispatch c spec extras w
  ∀ a ∈ r.started,
    b.observedCancel c spec extras (w.attempt a) = true ∨ b.delayCutAfter c spec extras w a →
      ∀ a' ∈ r.started, a' ≤ a

variable {c b spec extras w}

/-- An attempt that observed the signal does not settle the loop. -/
theorem settles_of_observedCancel {a : ℕ}
    (h : b.observedCancel c spec extras (w.attempt a) = true) :
    settles (b.resultAt c spec extras w a) = false := by
  simp only [ExecutorBundle.observedCancel] at h
  simp only [ExecutorBundle.resultAt, ExecutorBundle.attempt]
  cases hk : spec.kind with
  | http method url headers =>
    simp only [hk] at h ⊢
    cases hr : (b.http.execute c method url headers (w.attempt a).http).result with
    | ok r => simp [hr, failedWith] at h
    | error e => rfl
  | exec argv allowedEnvs =>
    simp only [hk] at h ⊢
    cases hr : (b.shell.execute argv allowedEnvs extras.envOverrides
        (w.attempt a).shell).result with
    | ok r => simp [hr, failedWith] at h
    | error e =>
      simp only [hr, failedWith, decide_eq_true_eq] at h
      subst h
      rfl

theorem mem_dispatchLoop_started {maxAttempts a : ℕ} :
    ∀ (left attempt : ℕ) (lastError : Option String), attempt + left = maxAttempts + 1 →
      (a ∈ (b.dispatchLoop c spec extras w maxAttempts left attempt lastError).started ↔
        attempt ≤ a ∧ a ≤ maxAttempts ∧
          ∀ i, attempt ≤ i → i < a → b.goesOn c spec extras w i) := by
  intro left
  induction left with
  | zero =>
    intro attempt lastError hsum
    simp only [ExecutorBundle.dispatchLoop, List.not_mem_nil, false_iff]
    omega
  | succ left ih =>
    intro attempt lastError hsum
    -- where the loop ends at this attempt, only this attempt is started
    have hlast (hstop : ¬ b.goesOn c spec extras w attempt ∨ attempt = maxAttempts) :
        a ∈ [attempt] ↔ attempt ≤ a ∧ a ≤ maxAttempts ∧
          ∀ i, attempt ≤ i → i < a → b.goesOn c spec extras w i := by
      rw [List.mem_singleton]
      constructor
      · rintro rfl
        exact ⟨le_refl a, by omega, fun i hi hia => absurd hia (by omega)⟩
      · rintro ⟨hle, hmax, hbetween⟩
        rcases Nat.eq_or_lt_of_le hle with heq | hlt
        · exact heq.symm
        · rcases hstop with hstop | hstop
          · exact absurd (hbetween attempt (le_refl _) hlt) hstop
          · omega
    cases hr : b.attempt c spec extras (w.attempt attempt) with
    | ok r =>
      simp only [ExecutorBundle.dispatchLoop, hr]
      exact hlast (.inl fun h => by
        simp [ExecutorBundle.goesOn, ExecutorBundle.resultAt, hr, settles] at h)
    | error r =>
      simp only [ExecutorBundle.dispatchLoop, hr]
      split_ifs with ht hcut
      · exact hlast (.inl fun h => by
          simp [ExecutorBundle.goesOn, ExecutorBundle.resultAt, hr, settles, ht] at h)
      · exact hlast (.inl fun h => by simp [ExecutorBundle.goesOn, hcut.2] at h)
      · simp only [DispatchRun.cons, List.mem_cons, ih (attempt + 1) r.errorMessage (by omega)]
        rcases Nat.lt_or_ge attempt maxAttempts with hlt | hge
        · have hon : b.goesOn c spec extras w attempt :=
            ⟨by simpa [ExecutorBundle.resultAt, hr, settles] using ht, by simpa [hlt] using hcut⟩
          constructor
          · rintro (rfl | ⟨hle, hmax, hbetween⟩)
            · exact ⟨le_refl a, by omega, fun i hi hia => absurd hia (by omega)⟩
            · refine ⟨by omega, hmax, fun i hi hia => ?_⟩
              rcases Nat.eq_or_lt_of_le hi with rfl | hi
              · exact hon
              · exact hbetween i hi hia
          · rintro ⟨hle, hmax, hbetween⟩
            rcases Nat.eq_or_lt_of_le hle with rfl | hle
            · exact .inl rfl
            · exact .inr ⟨hle, hmax, fun i hi => hbetween i (by omega)⟩
        · rw [← hlast (.inr (by omega)), List.mem_singleton]
          exact or_iff_left (by omega)

theorem mem_started_iff (hoff : b.offlineMode = false) {a : ℕ} :
    a ∈ (b.dispatch c spec extras w).started ↔ b.Reached c spec extras w a := by
  simp only [ExecutorBundle.dispatch, hoff, Bool.false_eq_true, if_false]
  exact mem_dispatchLoop_started spec.retry.maxAttempts 1 none (Nat.add_comm _ _)

/-- **When a stopped attempt is the last.**  The attempt that consumed the stop signal fails with
an ordinary error, so the loop ends there only if it was the last attempt or if a further signal
cuts the retry delay that follows. -/
theorem stopsAtCancel_iff :
    b.StopsAtCancel c spec extras w ↔
      b.offlineMode = true ∨
        ∀ a, b.Reached c spec extras w a → a < spec.retry.maxAttempts →
          b.observedCancel c spec extras (w.attempt a) = true → w.delayCut a = true := by
  cases hoff : b.offlineMode with
  | true => simp [ExecutorBundle.StopsAtCancel, ExecutorBundle.dispatch, hoff, offlineStub]
  | false =>
    simp only [Bool.false_eq_true, false_or, ExecutorBundle.StopsAtCancel, mem_started_iff hoff]
    constructor
    · intro h a ha hmax hobs
      by_contra hcut
      -- otherwise the loop goes on and starts attempt `a + 1`
      have hnext : b.Reached c spec extras w (a + 1) := by
        refine ⟨by omega, hmax, ?_⟩
        intro i hi hia
        rcases Nat.eq_or_lt_of_le (Nat.le_of_lt_succ hia) with rfl | hia
        · exact ⟨settles_of_observedCancel hobs, by simpa using hcut⟩
        · exact ha.2.2 i hi hia
      have := h a ha (.inl hobs) (a + 1) hnext
      omega
    · rintro h a ha hsignal a' ⟨-, hmax', hbetween⟩
      by_contra hlt
      obtain ⟨-, huncut⟩ := hbetween a ha.1 (by omega)
      have hcut : w.delayCut a = true := by
        rcases hsignal with hobs | ⟨-, -, hcut⟩
        · exact h a ha (by omega) hobs
        · exact hcut
      rw [hcut] at huncut
      exact absurd huncut (by decide)

/-- The stop that killed the child of attempt 1 does not keep attempt 2 from starting. -/
theorem stopped_attempt_retried :
    ¬ ∀ c b spec extras w, ExecutorBundle.StopsAtCancel c b spec extras w := by
  intro h
  have := h noCrates demoBundle demoSpec noExtras (demoWorld .cancelled) 1 (by decide)
    (.inl (by decide)) 2 (by decide)
  omega

end CronManager
