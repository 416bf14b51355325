import CronManager.Executor.Retry

/-!
# The rows a dispatch leaves behind

A row is recorded before the loop decides whether to retry, and `RETRYING` says that another row
is to come.  The rows of a dispatch are **closed** (`RowsClosed`) if that promise is kept: every
row but the last is `RETRYING` and the last one is not.

`rowsClosed_dispatch_iff` says exactly when they are.  The loop returns from inside the retry delay
when the stop signal cuts it short, and by then the `RETRYING` row of the attempt before it is
recorded; and a retry count of `u32::MAX` wraps to no attempts and so to no row at all.
-/

namespace CronManager

/-- The rows end in exactly one terminal row, and every earlier one is `RETRYING`. -/
def RowsClosed (rows : List HistoryEntry) : Prop :=
  ∃ earlier last, rows = earlier ++ [last] ∧ last.status ≠ .retrying ∧
    ∀ row ∈ earlier, row.status = .retrying

theorem not_rowsClosed_nil : ¬ RowsClosed [] := by
  rintro ⟨earlier, last, h, -⟩
  simp at h

theorem rowsClosed_singleton {row : HistoryEntry} :
    RowsClosed [row] ↔ row.status ≠ .retrying := by
  constructor
  · rintro ⟨earlier, last, h, hlast, -⟩
    have heq : row = last := by simpa using congrArg List.getLast? h
    rw [heq]
    exact hlast
  · intro h
    exact ⟨[], row, rfl, h, by simp⟩

theorem rowsClosed_cons {row : HistoryEntry} (hrow : row.status = .retrying)
    {rows : List HistoryEntry} : RowsClosed (row :: rows) ↔ RowsClosed rows := by
  constructor
  · rintro ⟨earlier, last, h, hlast, hearlier⟩
    cases earlier with
    | nil =>
      obtain ⟨rfl, -⟩ := List.cons.inj h
      exact absurd hrow hlast
    | cons r earlier =>
      obtain ⟨-, rfl⟩ := List.cons.inj h
      exact ⟨earlier, last, rfl, hlast, fun r hr => hearlier r (List.mem_cons_of_mem _ hr)⟩
  · rintro ⟨earlier, last, rfl, hlast, hearlier⟩
    refine ⟨row :: earlier, last, rfl, hlast, ?_⟩
    intro r hr
    rcases List.mem_cons.1 hr with rfl | hr
    · exact hrow
    · exact hearlier r hr

variable (c : Crates) (b : ExecutorBundle) (spec : JobSpec) (extras : DispatchExtras)
  (w : DispatchWorld)

/-- From attempt `n` on, some retry delay is cut short: the attempts up to it all fail without a
timeout, and the stop signal arrives in the delay that follows. -/
def ExecutorBundle.CutFrom (n maxAttempts : ℕ) : Prop :=
  ∃ a, n ≤ a ∧ a < maxAttempts ∧
    (∀ i, n ≤ i → i ≤ a → settles (b.resultAt c spec extras w i) = false) ∧ w.delayCut a = true

variable {c b spec extras w}

theorem not_cutFrom_of_settles {n max : ℕ}
    (h : settles (b.resultAt c spec extras w n) = true) : ¬ b.CutFrom c spec extras w n max := by
  rintro ⟨a, hna, -, hfail, -⟩
  rw [hfail n (le_refl n) hna] at h
  exact absurd h (by decide)

/-- A failed attempt whose delay runs to its end hands the question on to the next one. -/
theorem cutFrom_succ {n max : ℕ} (hfail : settles (b.resultAt c spec extras w n) = false)
    (huncut : w.delayCut n = false) :
    b.CutFrom c spec extras w n max ↔ b.CutFrom c spec extras w (n + 1) max := by
  constructor
  · rintro ⟨a, hna, hmax, hall, hcut⟩
    have hne : n ≠ a := by
      rintro rfl
      rw [huncut] at hcut
      exact absurd hcut (by decide)
    exact ⟨a, by omega, hmax, fun i hi => hall i (by omega), hcut⟩
  · rintro ⟨a, hna, hmax, hall, hcut⟩
    refine ⟨a, by omega, hmax, ?_, hcut⟩
    intro i hi hia
    by_cases hin : i = n
    · rw [hin]
      exact hfail
    · exact hall i (by omega) hia

/-- The rows of the loop from `attempt` on are closed unless one of its delays is cut. -/
theorem rowsClosed_dispatchLoop_iff {maxAttempts : ℕ} :
    ∀ (left attempt : ℕ) (lastError : Option String), 0 < left → attempt + left = maxAttempts + 1 →
      (RowsClosed (b.dispatchLoop c spec extras w maxAttempts left attempt lastError).rows ↔
        ¬ b.CutFrom c spec extras w attempt maxAttempts) := by
  intro left
  -- one iteration per step; the loop ends by settling, by a cut delay, or with `left = 0`
  induction left with
  | zero => intro attempt _ h; exact absurd h (lt_irrefl 0)
  | succ left ih =>
    intro attempt lastError _ hsum
    unfold ExecutorBundle.dispatchLoop
    cases hr : b.attempt c spec extras (w.attempt attempt) with
    | ok r =>
      have hs : settles (b.resultAt c spec extras w attempt) = true := by
        rw [ExecutorBundle.resultAt, hr]
        rfl
      simp only [not_cutFrom_of_settles hs, not_false_iff, iff_true, rowsClosed_singleton]
      show ExecutionStatus.success ≠ .retrying
      decide
    | error r =>
      have hs : settles (b.resultAt c spec extras w attempt) = r.isShellTimeout := by
        rw [ExecutorBundle.resultAt, hr]
        rfl
      simp only
      split_ifs with htimeout hcut
      · rw [htimeout] at hs
        simp only [not_cutFrom_of_settles hs, not_false_iff, iff_true, rowsClosed_singleton]
        simp [attemptRow, rowStatus, htimeout]
      · -- the early return: the `RETRYING` row is the last one
        have hcutFrom : b.CutFrom c spec extras w attempt maxAttempts := by
          refine ⟨attempt, le_refl _, hcut.1, ?_, hcut.2⟩
          intro i hi hi'
          rw [le_antisymm hi' hi, hs]
          simpa using htimeout
        simp only [hcutFrom, not_true_eq_false, iff_false, rowsClosed_singleton, not_not]
        simp [attemptRow, rowStatus, htimeout, hcut.1]
      · have hfail : settles (b.resultAt c spec extras w attempt) = false := by
          rw [hs]
          simpa using htimeout
        by_cases hlast : attempt < maxAttempts
        · have huncut : w.delayCut attempt = false := by simpa [hlast] using hcut
          have hrow : (attemptRow spec (w.attempt attempt) attempt maxAttempts
              (.error r)).status = .retrying := by
            simp [attemptRow, rowStatus, htimeout, hlast]
          rw [cutFrom_succ hfail huncut,
            ← ih (attempt + 1) r.errorMessage (by omega) (by omega)]
          exact rowsClosed_cons hrow
        · -- the last attempt has no delay, and its row is `FAILED`
          obtain rfl : left = 0 := by omega
          have hno : ¬ b.CutFrom c spec extras w attempt maxAttempts := by
            rintro ⟨a, hna, hmax, -⟩
            omega
          simp only [hno, not_false_iff, iff_true, ExecutorBundle.dispatchLoop, DispatchRun.cons,
            rowsClosed_singleton]
          simp [attemptRow, rowStatus, htimeout, hlast]

/-- **When the rows of a dispatch are closed**: in offline mode, and otherwise exactly if there is
an attempt to make and the stop signal cuts no retry delay short. -/
theorem rowsClosed_dispatch_iff :
    RowsClosed (b.dispatch c spec extras w).rows ↔
      b.offlineMode = true ∨
        (0 < spec.retry.maxAttempts ∧
          ¬ b.CutFrom c spec extras w 1 spec.retry.maxAttempts) := by
  by_cases hoff : b.offlineMode = true
  · simp only [ExecutorBundle.dispatch, hoff, if_true, true_or, iff_true, offlineStub,
      rowsClosed_singleton]
    decide
  · simp only [ExecutorBundle.dispatch, hoff, if_false, false_or, Bool.false_eq_true]
    by_cases hmax : 0 < spec.retry.maxAttempts
    · rw [rowsClosed_dispatchLoop_iff _ 1 none hmax (Nat.add_comm _ _)]
      simp only [hmax, true_and]
    · have hzero : spec.retry.maxAttempts = 0 := by omega
      simp only [hzero, ExecutorBundle.dispatchLoop, lt_irrefl, false_and, iff_false]
      exact not_rowsClosed_nil

/-- A first attempt that exits with code 1, stopped during its retry delay. -/
def stoppedInDelay : DispatchWorld :=
  { demoWorld (.exited (some 1)) with delayCut := fun a => a == 1 }

/-- The dispatch stopped in its first delay leaves one row, and it is `RETRYING`. -/
theorem rows_open_after_stop :
    ¬ ∀ c b spec extras w, RowsClosed (ExecutorBundle.dispatch c b spec extras w).rows := by
  intro h
  have hclosed := h noCrates demoBundle demoSpec noExtras stoppedInDelay
  have hrows : ((demoBundle.dispatch noCrates demoSpec noExtras stoppedInDelay).rows.map
      (·.status)) = [.retrying] := by
    decide
  obtain ⟨earlier, last, heq, hlast, -⟩ := hclosed
  rw [heq] at hrows
  have : last.status = .retrying := by simpa using congrArg List.getLast? hrows
  exact hlast this

end CronManager
