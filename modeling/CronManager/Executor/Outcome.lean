import CronManager.Executor.Attempts

/-!
# The outcome a history tells

The scheduler keeps the outcome of a dispatch in the runtime state of its job, and the history keeps
the rows of its attempts.  `outcomeOf` reads the outcome off the rows: it is decided by the last
row, and the number of attempts is the number of rows.  `dispatch_outcomeOf` says that a dispatch
ends with the outcome its rows tell, whichever way it ends.
-/

namespace CronManager

/-- The outcome of a dispatch whose last row this is, the `count`-th one. -/
def rowOutcome (spec : JobSpec) (count : ℕ) (row : HistoryEntry) : DispatchOutcome :=
  match row.status with
  | .success => ⟨.success, count, none⟩
  | .timeout => ⟨.timeout, count, row.errorMessage⟩
  -- no attempt followed, so the delay after this one was cut short
  | .retrying => delayAborted count
  | .offline => ⟨.offline, count, none⟩
  | .failed | .skipped => exhausted spec count row.errorMessage

/-- The outcome that some rows tell, after `before` earlier attempts, the last of which left
`lastError`. -/
def outcomeAfter (spec : JobSpec) (before : ℕ) (lastError : Option String)
    (rows : List HistoryEntry) : DispatchOutcome :=
  match rows.getLast? with
  | none => exhausted spec before lastError
  | some row => rowOutcome spec (before + rows.length) row

/-- The outcome that the rows of a dispatch tell. -/
def outcomeOf (spec : JobSpec) (rows : List HistoryEntry) : DispatchOutcome :=
  outcomeAfter spec 0 none rows

variable {c : Crates} {b : ExecutorBundle} {spec : JobSpec} {extras : DispatchExtras}
  {w : DispatchWorld}

theorem outcomeAfter_cons {before : ℕ} {lastError : Option String} {row : HistoryEntry}
    {rows : List HistoryEntry} (h : rows ≠ [] ∨ row.status = .failed) :
    outcomeAfter spec before lastError (row :: rows) =
      outcomeAfter spec (before + 1) row.errorMessage rows := by
  cases rows with
  | nil =>
    have hstatus := h.resolve_left fun hne => hne rfl
    simp [outcomeAfter, rowOutcome, hstatus]
  | cons row' rows =>
    have hlen : before + (row :: row' :: rows).length = before + 1 + (row' :: rows).length := by
      simp only [List.length_cons]
      omega
    have hlast := List.getLast?_eq_some_getLast (List.cons_ne_nil row' rows)
    simp only [outcomeAfter, List.getLast?_cons_cons, hlast, hlen]

/-- The outcome of the loop from attempt `n + 1` on is the one its rows tell. -/
theorem outcome_dispatchLoop {max : ℕ} :
    ∀ (left n : ℕ) (lastError : Option String), n + left = max →
      (b.dispatchLoop c spec extras w max left (n + 1) lastError).outcome =
        outcomeAfter spec n lastError
          (b.dispatchLoop c spec extras w max left (n + 1) lastError).rows := by
  intro left
  induction left with
  | zero =>
    rintro n lastError rfl
    rfl
  | succ left ih =>
    intro n lastError hsum
    unfold ExecutorBundle.dispatchLoop
    cases hr : b.attempt c spec extras (w.attempt (n + 1)) with
    | ok r => simp [outcomeAfter, rowOutcome, attemptRow, rowStatus]
    | error r =>
      simp only
      split_ifs with htimeout hcut
      · simp [outcomeAfter, rowOutcome, attemptRow, rowStatus, htimeout]
      · simp [outcomeAfter, rowOutcome, attemptRow, rowStatus, htimeout, hcut.1]
      · -- the loop goes on, or this was the last attempt
        have hmore :
            (b.dispatchLoop c spec extras w max left (n + 1 + 1) r.errorMessage).rows ≠ [] ∨
              (attemptRow spec (w.attempt (n + 1)) (n + 1) max (.error r)).status = .failed := by
          rcases Nat.eq_zero_or_pos left with rfl | hleft
          · have hlast : ¬ n + 1 < max := by omega
            exact .inr (by simp [attemptRow, rowStatus, htimeout, hlast])
          · have hrun := @dispatchLoop_rows c b spec extras w max left (n + 1 + 1) r.errorMessage
            refine .inl (List.length_pos_iff.1 ?_)
            rw [hrun.rows, List.length_map]
            exact hrun.length_pos hleft
        rw [DispatchRun.cons, outcomeAfter_cons hmore]
        exact ih (n + 1) r.errorMessage (by omega)

/-- **A dispatch ends as its rows tell.** -/
theorem dispatch_outcomeOf :
    (b.dispatch c spec extras w).outcome = outcomeOf spec (b.dispatch c spec extras w).rows := by
  rw [ExecutorBundle.dispatch]
  split_ifs with hoff
  · rfl
  · exact outcome_dispatchLoop spec.retry.maxAttempts 0 none (Nat.zero_add _)

end CronManager
