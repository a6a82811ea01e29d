import Bootstage.Proofs.CommandLine.Helping
import Bootstage.Proofs.Workbench.Running
import Bootstage.Proofs.Workbench.Sessions

/-!
# Runs of the program

A run of the program does nothing but one operation on the workbench, and it does that one only if
the whole command line is accepted and the workspace is found. Its exit code tells the outcome.
-/

namespace Bootstage

open Bootstage.Action Bootstage.CommandLine

/-! ### Tasks -/

/-- The operation that a task stands for. -/
def CommandLine.Task.operation : Task → Operation
  | .build architectures profile => .build architectures profile
  | .buildAll profile => .buildAll profile
  | .run architecture accelerated profile skipBuild =>
    .buildAndRun architecture accelerated profile skipBuild
  | .clean => .clean

namespace Action

variable {α β : Type}

/-- What is made of the value of an action has no effect. -/
@[simp] theorem effect_map (f : α → β) (action : Action α) (scene : Scene) :
    (f <$> action).effect scene = ((action.effect scene).1.map f, (action.effect scene).2) := by
  rw [map_eq_pure_bind, effect_bind fun value => .pure (f value)]
  rcases action.effect scene with ⟨error | value, left⟩ <;> rfl

/-- What is said last has no effect. -/
theorem effect_bind_say (action : Action Unit) (least : Verbosity) (text : String)
    (scene : Scene) :
    (action >>= fun _ => say least text).effect scene = action.effect scene := by
  rw [effect_bind fun _ => .say least text]
  rcases action.effect scene with ⟨error | value, left⟩
  · rfl
  · exact effect_say least text left

end Action

namespace Workbench

variable (bench : Workbench) (task : Task)

/-- What a task does does not depend on the console. -/
theorem ignoresConsole_perform : (bench.perform task).IgnoresConsole := by
  cases task with
  | build architectures profile => exact .bind (ignoresConsole_build _ _ _) fun _ => .say _ _
  | buildAll profile => exact .bind (ignoresConsole_build _ _ _) fun _ => .say _ _
  | run architecture accelerated profile skipBuild =>
    exact ignoresConsole_buildAndRun _ _ _ _ _
  | clean => exact .bind (BootEnvironment.ignoresConsole_clean _) fun _ => .say _ _

/-- A task has the effect of its operation. -/
theorem effect_perform (scene : Scene) :
    (bench.perform task).effect scene =
      (((bench.operate task.operation).effect scene).1.map fun _ => (),
        ((bench.operate task.operation).effect scene).2) := by
  have hmap : ∀ outcome : Except Error Unit,
      (outcome.map fun _ => (none : Option Path)).map (fun _ => ()) = outcome := by
    intro outcome
    cases outcome <;> rfl
  cases task <;>
    simp only [perform, Task.operation, operate, effect_bind_say, effect_map, hmap]

end Workbench

/-! ### Exit codes -/

/-- No error has the exit code of success. -/
theorem Error.exitCode_ne_zero (error : Error) : error.exitCode ≠ 0 := by
  cases error with
  | launch architecture status =>
    simp only [exitCode]
    cases status.code? with
    | none => decide
    | some code =>
      dsimp only
      split
      · next h =>
        intro hzero
        have hcode := congrArg UInt8.toNat hzero
        simp only [Nat.toUInt8, UInt8.toNat_ofNat', UInt8.toNat_zero] at hcode
        omega
      · decide
  | _ =>
    simp only [exitCode]
    decide

namespace Program

/-- The machine on which a run starts, as a collaborator sees it. -/
def start (tree : Tree) (cwd : Location) : Scene :=
  ⟨tree, some cwd, []⟩

/-- The scene that a run leaves; only a task can change it. -/
def Result.scene (before : Scene) : Result → Scene
  | .performed _ machine => machine.scene
  | _ => before

/-- A run ends with an exit code and has changed no file and started no program. -/
structure Result.Idles (result : Result) (before : Scene) (code : UInt8) : Prop where
  /-- The exit code. -/
  exitCode : result.exitCode = code
  /-- The files, the working directory and the calls are as they were. -/
  scene : result.scene before = before

/-- A run ends with the outcome of an operation and with the scene that the operation leaves. -/
structure Result.Concludes {α : Type} (result : Result) (before : Scene)
    (done : Except Error α × Scene) : Prop where
  /-- The files, the working directory and the calls are those that the operation leaves. -/
  scene : result.scene before = done.2
  /-- The exit code is zero for a success alone. -/
  success : result.exitCode = 0 ↔ ∃ value, done.1 = .ok value
  /-- A failure is told by its exit code. -/
  failure : ∀ error, done.1 = .error error → result.exitCode = error.exitCode

/-- A performed task ends with its outcome. -/
theorem Result.concludes_performed {α : Type} {before left : Scene} {outcome : Except Error α}
    {machine : Machine} (h : machine.scene = left) :
    (Result.performed (outcome.map fun _ => ()) machine).Concludes before (outcome, left) := by
  refine ⟨h, ?_, ?_⟩
  · cases outcome with
    | ok value => exact iff_of_true rfl ⟨value, rfl⟩
    | error error => exact iff_of_false error.exitCode_ne_zero (by simp)
  · rintro error rfl
    rfl

variable (programs : Programs) (host : Host) {tree : Tree} {cwd : Location} {texts : List String}
  {invocation : Invocation}

/-- Performs a task in the workspace that was found, or tells why there is none. -/
def pursue (task : Task) : Except ConfigurationFault Config → Action Unit
  | .ok config => (Workbench.ofPrograms programs host config).perform task
  | .error fault => Action.fail (.configuration fault)

theorem perform_eq (task : Task) :
    perform programs host task = Action.look Config.load >>= pursue programs host task := rfl

/-- What is done when the workspace has been looked for does not depend on the console. -/
theorem ignoresConsole_pursue (task : Task) (loaded : Except ConfigurationFault Config) :
    (pursue programs host task loaded).IgnoresConsole := by
  cases loaded with
  | ok config => exact Workbench.ignoresConsole_perform _ _
  | error fault => exact .fail _

/-- A task has the effect that the workspace on the tree gives it. -/
theorem effect_perform (task : Task) (scene : Scene) :
    (perform programs host task).effect scene =
      (pursue programs host task (Config.load scene.tree scene.cwd)).effect scene := by
  rw [perform_eq, effect_bind (ignoresConsole_pursue programs host task), effect_look]

/-- An accepted command line is a task that is performed. -/
theorem exists_performed_of_accepts (h : Accepts texts invocation) {outcome : Except Error Unit}
    {left : Scene}
    (he : (perform programs host invocation.task).effect (start tree cwd) = (outcome, left)) :
    ∃ machine, run programs host tree cwd texts = .performed outcome machine ∧
      machine.scene = left := by
  have hignores : (perform programs host invocation.task).IgnoresConsole := by
    rw [perform_eq]
    exact .bind (.look _) (ignoresConsole_pursue programs host invocation.task)
  let machine : Machine := { tree, cwd := some cwd, verbosity := invocation.verbosity }
  have hmachine : (perform programs host invocation.task).effect machine.scene = (outcome, left) :=
    he
  obtain ⟨rfl, hleft⟩ := hignores.run_of_effect hmachine
  refine ⟨_, ?_, hleft⟩
  rw [run, read_eq_ok_iff.mpr h]

/-! ### All runs -/

/-- What a run of the program does, for every command line and on every tree. -/
structure RunAccount (programs : Programs) (host : Host) (tree : Tree) (cwd : Location)
    (texts : List String) : Prop where
  /-- An accepted line in a workspace does its operation there, and nothing else. -/
  performed : ∀ invocation config, Accepts texts invocation →
    Config.load tree (some cwd) = .ok config →
    (run programs host tree cwd texts).Concludes (start tree cwd)
      (((Workbench.ofPrograms programs host config).operate invocation.task.operation).effect
        (start tree cwd))
  /-- Without a workspace an accepted line does nothing. -/
  unloaded : ∀ invocation fault, Accepts texts invocation →
    Config.load tree (some cwd) = .error fault →
    (run programs host tree cwd texts).Idles (start tree cwd) 2
  /-- A line that asks for help does nothing, and succeeds. -/
  helped : ∀ place, AsksHelp texts place →
    (run programs host tree cwd texts).Idles (start tree cwd) 0
  /-- Any other line does nothing. -/
  refused : (∀ invocation, ¬ Accepts texts invocation) → (∀ place, ¬ AsksHelp texts place) →
    (run programs host tree cwd texts).Idles (start tree cwd) 2
  /-- So does a line that names what is no architecture, wherever the name stands. -/
  misnamed : ∀ front subcommand behind names, Written texts front subcommand behind names →
    subcommand ≠ .help → .help ∉ front ++ behind →
    (∃ name ∈ names, Architecture.find? name = none) →
    (run programs host tree cwd texts).Idles (start tree cwd) 2
  /-- So does a build of nothing, and one of everything and of something besides. -/
  misbuilt : ∀ front behind names, Written texts front .build behind names →
    .help ∉ front ++ behind → (names = [] ↔ .all ∉ behind) →
    (run programs host tree cwd texts).Idles (start tree cwd) 2

/-- Without an invocation and without a request for help a line is refused, and nothing is done. -/
theorem idles_of_refused (haccepts : ∀ invocation, ¬ Accepts texts invocation)
    (hhelp : ∀ place, ¬ AsksHelp texts place) :
    (run programs host tree cwd texts).Idles (start tree cwd) 2 := by
  unfold run
  cases hread : CommandLine.read texts with
  | ok invocation => exact absurd (read_eq_ok_iff.mp hread) (haccepts invocation)
  | error ending =>
    cases ending with
    | help place => exact absurd (read_eq_help_iff.mp hread) (hhelp place)
    | refused refusal => exact ⟨rfl, rfl⟩

/-- A line without a request for help is refused unless its names make a task. -/
theorem idles_of_written {front behind : List Switch} {subcommand : Subcommand}
    {names : List String} (written : Written texts front subcommand behind names)
    (hsubcommand : subcommand ≠ .help) (hhelp : .help ∉ front ++ behind)
    (htask : ∀ task, ¬ MakesTask behind subcommand names task) :
    (run programs host tree cwd texts).Idles (start tree cwd) 2 := by
  refine idles_of_refused programs host ?_ ?_
  · rintro invocation ⟨front', subcommand', behind', names', written', -, -, makes, -⟩
    obtain ⟨-, rfl, rfl, rfl⟩ := written.unique written'
    exact htask _ makes
  · rintro place ⟨front', asked, -⟩
    exact (asked.mem written).elim hsubcommand hhelp

/-- Every run of the program does one operation or nothing, and tells by its exit code how it
ended. -/
theorem run_account (programs : Programs) (host : Host) (tree : Tree) (cwd : Location)
    (texts : List String) : RunAccount programs host tree cwd texts where
  performed invocation config accepts loaded := by
    have he := effect_perform programs host invocation.task (start tree cwd)
    simp only [start, loaded, pursue, Workbench.effect_perform] at he
    obtain ⟨machine, hrun, hleft⟩ := exists_performed_of_accepts programs host accepts he
    rw [hrun]
    exact Result.concludes_performed hleft
  unloaded invocation fault accepts loaded := by
    have he := effect_perform programs host invocation.task (start tree cwd)
    simp only [start, loaded, pursue] at he
    obtain ⟨machine, hrun, hleft⟩ := exists_performed_of_accepts programs host accepts he
    rw [hrun]
    exact ⟨rfl, hleft⟩
  helped place asked := by
    rw [run, read_eq_help_iff.mpr asked]
    exact ⟨rfl, rfl⟩
  refused := idles_of_refused programs host
  misnamed front subcommand behind names written hsubcommand hhelp unknown := by
    refine idles_of_written programs host written hsubcommand hhelp fun task makes => ?_
    obtain ⟨name, hname, hnone⟩ := unknown
    obtain ⟨-, found, known⟩ := Reading.exists_lookupAll_of_makesTask makes
    obtain ⟨architecture, hfound⟩ := Architecture.exists_find?_of_lookupAll known hname
    exact absurd (hnone.symm.trans hfound) (by simp)
  misbuilt front behind names written hhelp hnames := by
    refine idles_of_written programs host written (by decide) hhelp fun task makes => ?_
    cases makes with
    | build each named known => exact named (hnames.mpr each)
    | buildAll all => exact hnames.mp rfl all

/-- A workspace without settings of its own, with a directory among its sources. -/
def plainTree : Tree :=
  Tree.empty.putAll [(["w"], .directory), (["w", "kernel"], .directory),
    (["w", "Cargo.toml"], .file "[workspace]\n")]

/-- A system on which no program is found. -/
def bareSystem : Programs where
  searchPath? := none
  run? _ _ _ := none

/-- A launch with switches on both sides is performed, and a build with a bad name in the end is
not. -/
theorem run_account_sample :
    (Accepts ["-q", "run", "--accel", "arm64", "-r"]
        ⟨.run .aarch64 true .release false, true, false⟩ ∧
      Config.load plainTree (some ["w", "kernel"]) = .ok (.defaults ⟨"/w"⟩) ∧
      (run bareSystem ⟨"aarch64", "linux"⟩ plainTree ["w", "kernel"]
          ["-q", "run", "--accel", "arm64", "-r"]).Concludes (start plainTree ["w", "kernel"])
        (((Workbench.ofPrograms bareSystem ⟨"aarch64", "linux"⟩ (.defaults ⟨"/w"⟩)).operate
          (.buildAndRun .aarch64 true .release false)).effect
            (start plainTree ["w", "kernel"]))) ∧
    (Written ["build", "amd64", "pdp11"] [] .build [] ["amd64", "pdp11"] ∧
      Architecture.find? "pdp11" = none ∧
      (run bareSystem ⟨"aarch64", "linux"⟩ plainTree ["w", "kernel"]
        ["build", "amd64", "pdp11"]).Idles (start plainTree ["w", "kernel"]) 2) := by
  have accepted : Accepts ["-q", "run", "--accel", "arm64", "-r"]
      ⟨.run .aarch64 true .release false, true, false⟩ := read_eq_ok_iff.mp (by decide)
  have loaded : Config.load plainTree (some ["w", "kernel"]) = .ok (.defaults ⟨"/w"⟩) := by
    decide +kernel
  have behind : Behind .build ["amd64", "pdp11"] [] ["amd64", "pdp11"] :=
    .name (.inr (by decide)) (.name (.inr (by decide)) .done)
  have written : Written ["build", "amd64", "pdp11"] [] .build [] ["amd64", "pdp11"] :=
    Written.subcommand behind
  have unknown : Architecture.find? "pdp11" = none := by decide
  refine ⟨⟨accepted, loaded, ?_⟩, written, unknown, ?_⟩
  · exact (run_account _ _ _ _ _).performed _ _ accepted loaded
  · exact (run_account _ _ _ _ _).misnamed _ _ _ _ written (by decide) (by decide)
      ⟨"pdp11", by decide, unknown⟩

end Program

end Bootstage
