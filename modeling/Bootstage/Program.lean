import Bootstage.CommandLine
import Bootstage.CommandLine.Help
import Bootstage.Config.Workspace
import Bootstage.Programs.Git
import Bootstage.Workbench

/-!
# The program

A run of the program reads its command line, finds the workspace and performs one task. A command
line that is refused and a workspace that is not found end the run before anything is touched. The
exit code tells which kind of error ended it, and zero stands for success alone.
-/

namespace Bootstage

namespace Workbench

/-- Performs a task and says that it is done; a launch speaks for itself. -/
def perform (bench : Workbench) : CommandLine.Task → Action Unit
  | .build architectures profile => do
    bench.build architectures profile
    Action.say .standard ("Build finished (" ++ profile.directoryName ++ ")")
  | .buildAll profile => do
    bench.buildAll profile
    Action.say .standard ("Build finished (" ++ profile.directoryName ++ ")")
  | .run architecture accelerated profile skipBuild =>
    bench.buildAndRun architecture accelerated profile skipBuild
  | .clean => do
    bench.clean
    Action.say .standard "Removed staging directories"

/-- The workbench whose collaborators start the programs of a system. -/
def ofPrograms (programs : Programs) (host : Host) (config : Config) : Workbench where
  config := config
  host := host
  toolchain := .ofPrograms programs config
  emulator := .ofPrograms programs
  provenance := .ofPrograms programs config

end Workbench

namespace Program

/-- What a run of the program comes to. -/
inductive Result
  /-- The command line was refused. -/
  | refused (refusal : CommandLine.Refusal)
  /-- The help for a place on the command line was shown. -/
  | helped (level : CommandLine.Level)
  /-- The task was performed or failed, and left a machine. -/
  | performed (outcome : Except Error Unit) (machine : Machine)

namespace Result

/-- The exit code of the run. -/
def exitCode : Result → UInt8
  | refused _ => 2
  | helped _ => 0
  | performed (.ok ()) _ => 0
  | performed (.error error) _ => error.exitCode

/-- The lines on standard error. -/
def errorLines : Result → List String
  | refused refusal => ["error: " ++ refusal.message]
  | performed (.error error) _ => ["error: " ++ error.message]
  | _ => []

/-- What is written on standard output. -/
def console : Result → List Line
  | refused _ => []
  | helped level => (CommandLine.Help.lines level).map .said
  | performed (.ok ()) machine => machine.console
  | performed (.error error) machine =>
    match error.cause? with
    | some cause => (machine.remark (.said .verbose ("  caused by: " ++ cause.message))).console
    | none => machine.console

end Result

/-- Finds the workspace and performs a task in it. -/
def perform (programs : Programs) (host : Host) (task : CommandLine.Task) : Action Unit := do
  match ← Action.look Config.load with
  | .ok config => (Workbench.ofPrograms programs host config).perform task
  | .error fault => Action.fail (.configuration fault)

/-- One run of the program with the given words behind its name. -/
def run (programs : Programs) (host : Host) (tree : Tree) (cwd : Location) (texts : List String) :
    Result :=
  match CommandLine.read texts with
  | .error (.refused refusal) => .refused refusal
  | .error (.help level) => .helped level
  | .ok invocation =>
    let (outcome, left) := (perform programs host invocation.task).run
      { tree, cwd := some cwd, verbosity := invocation.verbosity }
    .performed outcome left

end Program

end Bootstage
