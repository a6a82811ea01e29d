import Bootstage.Machine

/-!
# Programs

The programs that a machine can start, and the collaborators that do their work by starting one. A
program is looked for along the search path that its command is given, and is started in the
directory that the command names. The programs are those in the directories of the search path that
is inherited; nothing else on the machine can be run. A command that cannot be started tells why.
-/

namespace Bootstage

/-- How a program ended, with the number of the signal where one killed it. -/
inductive Termination
  /-- It exited with a code. -/
  | exited (code : Nat)
  /-- A signal killed it. -/
  | signalled (number : Nat)
  deriving DecidableEq, Repr

/-- The end of the process without the number of the signal. -/
def Termination.toProcessExit : Termination → ProcessExit
  | exited code => .exited code
  | signalled _ => .killed

/-- What a program does in one run. -/
structure Execution where
  /-- How it ended. -/
  termination : Termination
  /-- What it wrote on standard output. -/
  output : Text.Bytes
  /-- The files as it left them. -/
  tree : Tree

/-- The programs of a system. -/
structure Programs where
  /-- The search path that programs inherit. -/
  searchPath? : Option Text.Bytes
  /-- What a command does in the directory at a location; nothing when there is no such program. -/
  run? : Command → Location → Scene → Option Execution

namespace Programs

/-- The search path that programs inherit, or the one that is used where none is set. -/
def searchPath (programs : Programs) : Text.Bytes :=
  programs.searchPath?.getD SearchPath.standard

/-- The search path along which the program of a command is looked for. -/
def searchPathFor (programs : Programs) (command : Command) : Text.Bytes :=
  (command.environment.lookup "PATH").getD programs.searchPath

/-- Runs the program of a command from the first entry that has it. What has its name elsewhere is
refused, which is told in the end when no program was found; a candidate that cannot even be looked
at ends the search. -/
def search (programs : Programs) (command : Command) (location : Location) (scene : Scene) :
    SystemError → List Text.Bytes → Except SystemError Execution
  | cause, [] => .error cause
  | cause, entry :: rest =>
    if (SearchPath.entries programs.searchPath).contains entry then
      match programs.run? command location scene with
      | some execution => if command.isOverlong then .error .argumentTooLong else .ok execution
      | none => search programs command location scene cause rest
    else
      match scene.tree.status location (SearchPath.candidate entry command.program) with
      | .ok _ => search programs command location scene .permissionDenied rest
      | .error fault =>
        if fault = .notFound ∨ fault = .notDirectory then
          search programs command location scene cause rest
        else .error fault

/-- Starts a command in its directory. -/
def start (programs : Programs) (command : Command) (scene : Scene) :
    Except SystemError (Location × Execution) := do
  if command.holdsNul then throw .nulInCommand
  else
    let location ← scene.tree.locate scene.cwd command.workingDir
    match ← scene.tree.entryAt location with
    | .directory =>
      let entries := SearchPath.searched (SearchPath.entries (programs.searchPathFor command))
      return (location, ← programs.search command location scene .notFound entries)
    | _ => throw .notDirectory

/-- What a collaborator does that announces a command, starts it and lets its output through. -/
def carryOut (programs : Programs) (command : Command) (scene : Scene) :
    Reaction (Except SystemError ProcessExit) :=
  let announced := Remark.said .verbose ("  $ " ++ command.text)
  match programs.start command scene with
  | .error cause => { outcome := .error cause, tree := scene.tree, remarks := [announced] }
  | .ok (location, execution) =>
    { outcome := .ok execution.termination.toProcessExit
      tree := execution.tree
      remarks := [announced, .relayed execution.output]
      starts := [.start command location] }

end Programs

/-- The toolchain that starts the building program in the workspace. -/
def Toolchain.ofPrograms (programs : Programs) (config : Config) : Toolchain where
  react request := programs.carryOut (request.command config programs.searchPath?)

/-- The emulator that starts the program of a launch. -/
def Emulator.ofPrograms (programs : Programs) : Emulator where
  react launch := programs.carryOut launch.command

end Bootstage
