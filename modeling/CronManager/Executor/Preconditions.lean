import CronManager.Executor.Ssrf
import CronManager.Executor.Attempts
import CronManager.Scheduler.Loops

/-!
# What the executors find already checked

The scheduler and the executors check again what the loader has checked, each with a function of
its own: the loop parses the cron expression again, `HttpExecutor::execute` raises the method by
the Unicode tables where the loader raised ASCII letters only, `reject_private_dns` parses the URL
again and reads the text of its host where the loader looked at the host itself, and
`ShellExecutor::execute` looks for an empty `argv`.  `executors_covered` says that for a job that
`load_file_with_policy` has returned none of these second checks fails.
-/

namespace CronManager

open Rust

variable {c : Crates} {b : ExecutorBundle} {env : ProcEnv} {policy : LoadPolicy} {root : OsStr}
  {f : DslFile} {job : LoadedJob} {jobs : List LoadedJob}

/-! ### The method -/

/-- The two functions `execute` applies to a method: `str::to_uppercase`, which maps every
character by the Unicode tables, and `Method::from_bytes`. -/
structure MethodFunctions (c : Crates) where
  upper : Char → List Char
  fromBytes : List UInt8 → Option String
  methodFromBytes : ∀ m : String,
    c.methodFromBytes m = fromBytes (bytes (m.toList.flatMap upper))
  /-- On ASCII the tables raise the letters and leave the rest alone. -/
  upper_ascii : ∀ ch : Char, ch.toNat < 0x80 → upper ch = [ch.toUpper]
  /-- The name of a standard method is read as that method. -/
  standard : ∀ m ∈ knownMethods, fromBytes (bytes m.toList) = some m

theorem knownMethods_ascii {m : String} (h : m ∈ knownMethods) :
    ∀ ch ∈ m.toList, ch.toNat < 0x80 := by
  have hall : knownMethods.all (fun m => m.toList.all fun ch => ch.toNat < 0x80) = true := by
    decide
  intro ch hch
  simpa using List.all_eq_true.1 (List.all_eq_true.1 hall m h) ch hch

theorem ascii_of_mem_knownMethods {method : String}
    (h : String.ofList (toAsciiUppercase method.toList) ∈ knownMethods) :
    ∀ ch ∈ method.toList, ch.toNat < 0x80 := by
  intro ch hch
  by_contra hge
  rw [Nat.not_lt] at hge
  have hmem : ch ∈ (String.ofList (toAsciiUppercase method.toList)).toList := by
    rw [String.toList_ofList, ← toUpper_of_le hge]
    exact List.mem_map_of_mem hch
  exact absurd (knownMethods_ascii h ch hmem) (Nat.not_lt.2 hge)

/-- On ASCII text the two ways to raise it agree. -/
theorem flatMap_upper (p : MethodFunctions c) {s : List Char} (h : ∀ ch ∈ s, ch.toNat < 0x80) :
    s.flatMap p.upper = toAsciiUppercase s := by
  induction s with
  | nil => rfl
  | cons ch s ih =>
    rw [List.flatMap_cons, p.upper_ascii ch (h ch List.mem_cons_self),
      ih fun x hx => h x (List.mem_cons_of_mem ch hx)]
    rfl

theorem methodFromBytes_of_mem (p : MethodFunctions c) {method : String}
    (h : String.ofList (toAsciiUppercase method.toList) ∈ knownMethods) :
    c.methodFromBytes method = some (String.ofList (toAsciiUppercase method.toList)) := by
  have hknown := p.standard _ h
  rw [String.toList_ofList] at hknown
  rw [p.methodFromBytes, flatMap_upper p (ascii_of_mem_knownMethods h), hknown]

/-! ### The loop -/

/-- The task's loop, if it has one, runs the expression of its job's trigger. -/
def Pc.LoopsOnTrigger (pc : Pc) : Prop := ∀ l, pc.loopOf = some l → l.spec.trigger = .cron l.expr

theorem loopsOnTrigger_kept : Pc.Kept c b Pc.LoopsOnTrigger where
  next := fun {m _ _ _} h he l hl => h l (@loopOf_next c b ⟨m, fun _ => none⟩ _ _ _ l
    (step_does he) hl)
  spawn := by
    intro m pc w e h he v p hv l hl
    rcases (step_does he).spawn_cases hv with ⟨spec, todo, reply, expr, -, -, htrigger, -, rfl⟩ |
      ⟨run, cancel, rfl, -, -, rfl⟩
    · obtain rfl := Option.some.inj hl
      exact htrigger
    · exact h l hl
  notify := by
    intro pc h ns l hl
    cases pc with
    | dispatching run cancel d => exact h l hl
    | _ => exact h l hl

/-- In every reachable state a loop runs the expression of its job's trigger. -/
theorem trigger_of_loop {s : Sched} (h : (schedMachine c b).Reaches Sched.init s) {u : TaskId}
    {pc : Pc} (hpc : s.tasks u = some pc) {l : Loop} (hl : pc.loopOf = some l) :
    l.spec.trigger = .cron l.expr := by
  obtain ⟨as, h⟩ := h
  refine loopsOnTrigger_kept.runs h (fun s call _ => ?_) (fun t pc ht => ?_) u pc hpc l hl
  · intro l hl
    cases call <;> cases hl
  · cases ht

/-! ### Every second check passes -/

/-- The second checks of a job find what they expect. -/
structure ExecutorsCovered (c : Crates) (policy : LoadPolicy) (spec : JobSpec) : Prop where
  /-- A loop of the job gets past its parse, in every state of every scheduler. -/
  cron : ∀ (b : ExecutorBundle) (s : Sched) (u : TaskId) (l : Loop) (w : DispatchWorld),
    (schedMachine c b).Reaches Sched.init s → s.tasks u = some (.loopParse l) → l.spec = spec →
      (Pc.loopParse l).step c b s.mem w = some (move s.mem (.loopNow l))
  retry : spec.retry.count ≤ policy.maxRetryCount
  /-- Every attempt goes on with a standard method, which its request has, and the pre-flight goes
  on with the URL parsed and its host; the scheme is HTTP or HTTPS. -/
  http : ∀ method url headers, spec.kind = .http method url headers →
    ∃ m ∈ knownMethods, ∃ u host, c.methodFromBytes method = some m ∧ c.urlParse url = .ok u ∧
      u.hostStr = some host ∧ (u.scheme = "http" ∨ u.scheme = "https") ∧
      ∀ (x : HttpExecutor) (w : HttpWorld),
        x.execute c method url headers w = (match x.prepareAs c m url headers w with
          | .error e => ⟨none, .error e⟩
          | .ok req => ⟨some req, x.finishSend w.send⟩) ∧
        (∀ req, (x.execute c method url headers w).sent = some req → req.method = m) ∧
        x.rejectPrivateDns c url w.lookup = x.rejectHost u host w.lookup
  /-- Every attempt goes on with a program whose name is not empty. -/
  exec : ∀ argv allowedEnvs, spec.kind = .exec argv allowedEnvs →
    ∃ program args, argv = program :: args ∧ program ≠ "" ∧
      ∀ (x : ShellExecutor) (overrides : List (String × String)) (w : ShellWorld),
        x.execute argv allowedEnvs overrides w =
            x.runProgram program args allowedEnvs overrides w ∧
          ∀ cmd, (x.execute argv allowedEnvs overrides w).spawned = some cmd →
            cmd.program = program

theorem execute_of_method {m method url : String} (hm : c.methodFromBytes method = some m)
    (x : HttpExecutor) (headers : List HttpHeader) (w : HttpWorld) :
    x.execute c method url headers w = (match x.prepareAs c m url headers w with
        | .error e => ⟨none, .error e⟩
        | .ok req => ⟨some req, x.finishSend w.send⟩) ∧
      ∀ req, (x.execute c method url headers w).sent = some req → req.method = m := by
  have hprepare : x.prepare c method url headers w = x.prepareAs c m url headers w := by
    rw [HttpExecutor.prepare, hm]
  refine ⟨?_, fun req hsent => ?_⟩
  · cases hprepared : x.prepareAs c m url headers w <;>
      simp only [HttpExecutor.execute, hprepare, hprepared]
  obtain ⟨m', hs, hm', -, -, rfl⟩ := prepare_ok_iff.1 (sent_eq_some.1 hsent)
  exact Option.some.inj (hm'.symm.trans hm)

theorem program_of_spawned {x : ShellExecutor} {program : String} {args allowedEnvs : List String}
    {overrides : List (String × String)} {w : ShellWorld} {cmd : ShellCommand}
    (h : (x.runProgram program args allowedEnvs overrides w).spawned = some cmd) :
    cmd.program = program := by
  unfold ShellExecutor.runProgram at h
  split at h
  · cases h
  · obtain rfl := Option.some.inj h
    rfl

theorem executorsCovered_of_intoSpec (p : MethodFunctions c) {raw : RawJob} {source : String}
    {key : JobKey} {spec : JobSpec} (h : raw.intoSpec c env policy source key = .ok spec) :
    ExecutorsCovered c policy spec where
  cron := by
    intro b s u l w hreach htask hspec
    have htrigger : spec.trigger = .cron l.expr := hspec ▸ trigger_of_loop hreach htask rfl
    obtain ⟨-, -, hcron, -⟩ := intoSpec_ok h
    have hparse : c.cronFromStr l.expr = .ok () := by
      rw [htrigger, checkCron] at hcron
      split at hcron
      · assumption
      · cases hcron
    rw [Pc.step, hparse]
  retry := by
    obtain ⟨hcount, hle⟩ := intoSpec_retry_count h
    rw [hcount, UInt32.le_iff_toNat_le]
    exact hle
  http := by
    intro method url headers hkind
    obtain ⟨hmethod, hurl, -⟩ := intoSpec_http h hkind
    obtain ⟨u, host, hparse, hscheme, hhost, -⟩ := validateHttpUrl_ok hurl
    have hm := methodFromBytes_of_mem p hmethod
    have hstr : u.hostStr = some host.text := by rw [Url.hostStr, hhost, Option.map_some]
    refine ⟨_, hmethod, u, host.text, hm, hparse, hstr, hscheme, fun x w => ?_⟩
    obtain ⟨hexecute, hsent⟩ := execute_of_method hm x headers w
    refine ⟨hexecute, hsent, ?_⟩
    simp only [HttpExecutor.rejectPrivateDns, hparse, hstr]
  exec := by
    intro argv allowedEnvs hkind
    obtain ⟨cmd, -, hargv⟩ := intoSpec_exec h hkind
    obtain ⟨program, args, rfl, hne⟩ := intoArgv_ok hargv
    exact ⟨program, args, rfl, hne, fun x overrides w => ⟨rfl, fun cmd => program_of_spawned⟩⟩

/-- **The loader covers the executors.**  The second checks of every job that
`load_file_with_policy` returns find what they expect. -/
theorem executors_covered (p : MethodFunctions c)
    (hload : loadFileWithPolicy c env policy root f = .ok jobs) (hjob : job ∈ jobs) :
    ExecutorsCovered c policy job.spec := by
  have hmem : job ∈ f.jobs c env policy root := by
    rw [DslFile.jobs, hload]
    exact hjob
  obtain ⟨raw, key, hspec⟩ := mem_jobs_intoSpec hmem
  exact executorsCovered_of_intoSpec p hspec

/-- A file with one HTTP job, whose method is written in lower case. -/
def getBody : String :=
  "ping:\n  trigger: off\n  type: http\n  method: get\n  url: http://rebind.example/\n"

/-- The crates on what this job uses. -/
def getCrates : Crates where
  __ := pingCrates
  yamlFromStr body :=
    if body = getBody then .ok (.singleton "ping" { pingRaw with method := some "get" })
    else .error "unused"
  methodFromBytes method :=
    knownMethods.find? fun m => bytes m.toList == bytes (method.toList.flatMap ([·.toUpper]))

/-- The two functions behind its method. -/
def getMethods : MethodFunctions getCrates where
  upper ch := [ch.toUpper]
  fromBytes bs := knownMethods.find? fun m => bytes m.toList == bs
  methodFromBytes _ := rfl
  upper_ascii _ _ := rfl
  standard := by decide

/-- The loaded job. -/
def getJob : LoadedJob :=
  ⟨⟨⟨"probe", "ping"⟩, .manual, ⟨none, none⟩, .default,
    .http "get" "http://rebind.example/" []⟩, "DSL/probe.yaml"⟩

/-- A method in lower case is accepted, and sent in upper case. -/
theorem executors_covered_get :
    loadFileWithPolicy getCrates (fun _ => none) .permissive (bytes "DSL".toList)
        ⟨[bytes "probe.yaml".toList], .ok getBody.utf8ByteSize, .ok getBody⟩ = .ok [getJob] ∧
      getCrates.methodFromBytes "get" = some "GET" ∧
      ExecutorsCovered getCrates .permissive getJob.spec := by
  have hload : loadFileWithPolicy getCrates (fun _ => none) .permissive (bytes "DSL".toList)
      ⟨[bytes "probe.yaml".toList], .ok getBody.utf8ByteSize, .ok getBody⟩ = .ok [getJob] := by
    decide +kernel
  exact ⟨hload, by decide, executors_covered getMethods hload (List.mem_singleton_self _)⟩

end CronManager
