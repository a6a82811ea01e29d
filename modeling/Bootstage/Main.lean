import Bootstage.Program
import Bootstage.Rehearsal
import Bootstage.Tree.Layout

/-!
# The command line program

No other program is started from here. A run is rehearsed instead: it takes place on a copy of the
files that it depends on, with prepared programs that succeed. What it writes and the code with
which it exits are those of the run.
-/

namespace Bootstage.Main

/-- A file of the system with its path, where it can be read. -/
def entries (path : Path) : IO (List (Path × Entry)) := do
  match ← (IO.FS.readBinFile path.shown).toBaseIO with
  | .ok content => return [(path, .file content.toList)]
  | .error _ => return []

/-- The sources of all boot environments of a workspace. -/
def sources (config : Config) : List Path :=
  Architecture.registered.flatMap fun architecture =>
    [BuildProfile.debug, BuildProfile.release].flatMap fun profile =>
      ((BootEnvironment.ofConfig config).sources architecture profile config).map (·.1)

/-- A copy of the manifests on the way up and of the files that can be staged. -/
def copyOfFiles (cwd : Location) : IO Tree := do
  let manifests ← (Location.ancestors cwd).flatMapM fun directory =>
    entries (Path.ofLocation directory / "Cargo.toml")
  match Config.load (Tree.ofEntries cwd manifests) cwd with
  | .ok config =>
    let staged ← (sources config).flatMapM entries
    return Tree.ofEntries cwd (manifests ++ staged)
  | .error _ => return Tree.ofEntries cwd manifests

/-- The host for which a launch is rehearsed. -/
def host : Host := ⟨"x86_64", "linux"⟩

/-- Rehearses the run that the arguments ask for. -/
def rehearse (args : List String) : IO UInt32 := do
  let cwd := (⟨(← IO.currentDir).toString⟩ : Path).names
  let programs := Rehearsal.programs {} ((← IO.getEnv "PATH").getD "")
  let result := Program.run programs host (← copyOfFiles cwd) cwd args
  let output := result.console.flatMap (Line.content "0ns")
  (← IO.getStdout).write ⟨output.toArray⟩
  for line in result.errorLines do
    IO.eprintln line
  return result.exitCode.toUInt32

end Bootstage.Main

/-- Rehearses one run and exits with its code. -/
def main (args : List String) : IO UInt32 :=
  Bootstage.Main.rehearse args
