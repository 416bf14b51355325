import CronManager.Executor.Http

/-!
# The shell executor

`ShellExecutor::execute` of `src/executor/shell.rs`, as a function of what the outside world does
during one attempt (`ShellWorld`): how each try to spawn the child ends, how the select on the
child's exit ends, and the bytes of its two pipes.
-/

namespace CronManager

open Rust

/-- `ShellExecutor`; the working directory is left out, nothing reads it back. -/
structure ShellExecutor where
  baselineEnv : BTreeMap String String
  timeoutSecs : ℕ
  maxOutputBytes : ℕ

/-- A single successful run. -/
structure ShellAttempt where
  exitCode : ℤ
  stdout : String
  deriving DecidableEq, Repr

/-- How one `cmd.spawn()` ends. -/
inductive SpawnEnd where
  | spawned
  /-- ETXTBSY. -/
  | busy (error : String)
  | failed (error : String)
  deriving DecidableEq, Repr

/-- How the select of the child's exit, the timeout and `cancel.notified()` ends. -/
inductive WaitEnd where
  /-- The child's exit code, `none` when a signal killed it. -/
  | exited (code : Option ℤ)
  | failed (error : String)
  | timeout
  | cancelled
  deriving DecidableEq, Repr

/-- What the outside world does during one shell attempt. -/
structure ShellWorld where
  spawn : ℕ → SpawnEnd
  waitEnd : WaitEnd
  stdout : ByteStream
  stderr : ByteStream

/-- The command handed to the operating system; `env` are the assignments made to the cleared
environment, in order. -/
structure ShellCommand where
  program : String
  args : List String
  env : List (String × String)
  deriving DecidableEq, Repr

/-- What one attempt spawned and returned. -/
structure ShellRun where
  spawned : Option ShellCommand
  result : Except CronManagerError ShellAttempt

variable (x : ShellExecutor)

/-- The assignments made to the child's environment: the allowed baseline entries, then the
allowed overrides. -/
def ShellExecutor.childEnv (allowedEnvs : List String) (overrides : List (String × String)) :
    List (String × String) :=
  (allowedEnvs.filterMap fun n => (x.baselineEnv.get n).map fun v => (n, v)) ++
    overrides.filter fun kv => allowedEnvs.contains kv.1

/-- The spawn loop from try `attempt` on, with `n` tries left: a busy executable is retried,
except on the last of the five tries. -/
def spawnLoop (spawn : ℕ → SpawnEnd) : ℕ → ℕ → Except CronManagerError Unit
  | 0, _ => .error (.io "shell: spawn retried 5× on ETXTBSY and still failed")
  | n + 1, attempt => match spawn attempt with
    | .spawned => .ok ()
    | .busy e => if attempt < 4 then spawnLoop spawn n (attempt + 1) else .error (.io e)
    | .failed e => .error (.io e)

/-- The marker that replaces the output past the cap. -/
def outputMarker : List UInt8 := bytes "...\n[output truncated]\n".toList

/-- The loop of the shell's `read_bounded`, with `buf` read so far: past the cap the rest is
drained and dropped. -/
def capOutputFrom (limit : ℕ) (error : Option String) :
    List UInt8 → List (List UInt8) → Except CronManagerError (List UInt8)
  | buf, [] => match error with
    | some e => .error (.internal s!"reading child pipe: {e}")
    | none => .ok buf
  | buf, chunk :: chunks =>
    if limit < buf.length + chunk.length then
      .ok (buf ++ chunk.take (limit - buf.length) ++ outputMarker)
    else capOutputFrom limit error (buf ++ chunk) chunks

/-- The shell's `read_bounded`. -/
def capOutput (limit : ℕ) (s : ByteStream) : Except CronManagerError (List UInt8) :=
  capOutputFrom limit s.error [] s.chunks

/-- What `execute` does after the child has exited, with its two pipes read. -/
def ShellExecutor.finishExit (code : Option ℤ) (stdout stderr : ByteStream) :
    Except CronManagerError ShellAttempt :=
  match capOutput x.maxOutputBytes stdout with
  | .error e => .error e
  | .ok out => match capOutput x.maxOutputBytes stderr with
    | .error e => .error e
    | .ok err =>
      if code = some 0 then .ok ⟨0, String.ofList (fromUtf8Lossy out)⟩
      else
        let exit := code.getD (-1)
        let text := truncate "…" (sanitizeForLog (fromUtf8Lossy err)) 512
        .error (.shellFailed s!"exit {exit}: {text}")

/-- What `execute` does once the select on the child has ended. -/
def ShellExecutor.finishWait (w : ShellWorld) : Except CronManagerError ShellAttempt :=
  match w.waitEnd with
  | .failed e => .error (.io e)
  | .timeout => .error (.shellTimeout x.timeoutSecs)
  | .cancelled => .error (.shellFailed "aborted by /stop")
  | .exited code => x.finishExit code w.stdout w.stderr

/-- `execute` with a program. -/
def ShellExecutor.runProgram (program : String) (args allowedEnvs : List String)
    (overrides : List (String × String)) (w : ShellWorld) : ShellRun :=
  match spawnLoop w.spawn 5 0 with
  | .error e => ⟨none, .error e⟩
  | .ok () => ⟨some ⟨program, args, x.childEnv allowedEnvs overrides⟩, x.finishWait w⟩

/-- `ShellExecutor::execute`. -/
def ShellExecutor.execute (argv allowedEnvs : List String) (overrides : List (String × String))
    (w : ShellWorld) : ShellRun :=
  match argv with
  | [] => ⟨none, .error (.badRequest "shell job argv is empty")⟩
  | program :: args => x.runProgram program args allowedEnvs overrides w

end CronManager
