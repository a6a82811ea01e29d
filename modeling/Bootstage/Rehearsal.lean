import Bootstage.Programs.Git

/-!
# Rehearsals

Collaborators and programs that play prepared answers back, so that a run can be rehearsed without
a toolchain, an emulator or a repository. A build that succeeds leaves a small artifact where the
real one would stand.
-/

namespace Bootstage.Rehearsal

/-- The name and the content of what a build leaves. -/
def artifact (request : BuildRequest) (profile : BuildProfile) : String × String :=
  let made := " " ++ request.target ++ " " ++ profile.directoryName
  if request.package = "boot_loader" then ("boot_loader.efi", "efi" ++ made)
  else ("kernel_start", "kernel" ++ made ++ " [" ++ String.intercalate "," request.features ++ "]")

/-- Leaves the artifact of a build below the directory of what is built. -/
def leaveArtifact (tree : Tree) (cwd : Option Location) (targetDir : Path)
    (request : BuildRequest) : Except SystemError Unit × Tree :=
  let profile := BuildProfile.ofRelease request.release
  let directory := targetDir / request.target / profile.directoryName
  match tree.createDirectory cwd directory with
  | (.error cause, left) => (.error cause, left)
  | (.ok (), left) =>
    let (name, content) := artifact request profile
    match left.write cwd (directory / name) (Text.encode content) with
    | .ok written => (.ok (), written)
    | .error cause => (.error cause, left)

/-! ### Collaborators -/

/-- Prepared answers of a toolchain. -/
structure Builds where
  /-- The answers for some targets; the builds for the others succeed. -/
  results : List (String × Except SystemError ProcessExit) := []
  /-- The targets for which nothing is left. -/
  withoutArtifact : List String := []

/-- The toolchain that gives prepared answers. -/
def toolchain (builds : Builds) (config : Config) : Toolchain where
  react request scene :=
    let outcome := (builds.results.lookup request.target).getD (.ok (.exited 0))
    let succeeds := match outcome with
      | .ok status => status.success
      | .error _ => false
    if succeeds && !builds.withoutArtifact.contains request.target then
      match leaveArtifact scene.tree scene.cwd config.targetDir request with
      | (.ok (), tree) => { outcome, tree }
      | (.error cause, tree) => { outcome := .error cause, tree }
    else { outcome, tree := scene.tree }

/-- The emulator that gives a prepared answer. -/
def emulator (outcome : Except SystemError ProcessExit) : Emulator where
  react _ scene := { outcome, tree := scene.tree }

/-- The source of provenance that gives a prepared answer. -/
def provenance (outcome : Except Error Provenance) : ProvenanceSource where
  react scene := { outcome, tree := scene.tree }

/-! ### Programs -/

/-- The prepared behaviour of the building program. -/
structure BuildTool where
  /-- Whether the program is there. -/
  present : Bool := true
  /-- The ends of the builds for some targets, which leave nothing. -/
  results : List (String × Termination) := []
  /-- The targets for which nothing is left although the build succeeds. -/
  withoutArtifact : List String := []
  /-- What the program writes. -/
  output : Text.Bytes := []

/-- The prepared behaviour of Git. -/
structure GitTool where
  /-- Whether the program is there. -/
  present : Bool := true
  /-- What it writes when it is asked a query. -/
  answer : Git.Query → Text.Bytes := fun _ => []
  /-- The query that fails, with the way it does. -/
  failing? : Option (Git.Query × Termination) := none

/-- The prepared behaviour of the emulators. -/
structure EmulatorTool where
  /-- Whether the program is there. -/
  present : Bool := true
  /-- What the program writes. -/
  output : Text.Bytes := []
  /-- How it ends. -/
  termination : Termination := .exited 0

/-- Prepared programs. -/
structure Tools where
  /-- The building program. -/
  build : BuildTool := {}
  /-- The program that knows the sources. -/
  git : GitTool := {}
  /-- The emulators. -/
  emulator : EmulatorTool := {}

/-- The request that arguments of the building program make. -/
def requestOf? : List String → Option BuildRequest
  | ["build", "-p", package, "--target", target] => some ⟨target, package, [], false⟩
  | ["build", "-p", package, "--target", target, "--release"] => some ⟨target, package, [], true⟩
  | ["build", "-p", package, "--target", target, "--features", features] =>
    some ⟨target, package, Text.split ',' features, false⟩
  | ["build", "-p", package, "--target", target, "--features", features, "--release"] =>
    some ⟨target, package, Text.split ',' features, true⟩
  | _ => none

/-- One run of the prepared building program. -/
def BuildTool.run (tool : BuildTool) (command : Command) (location : Location) (tree : Tree) :
    Execution :=
  match requestOf? command.args with
  | none => ⟨.exited 1, tool.output, tree⟩
  | some request =>
    match tool.results.lookup request.target with
    | some termination => ⟨termination, tool.output, tree⟩
    | none =>
      if tool.withoutArtifact.contains request.target then ⟨.exited 0, tool.output, tree⟩
      else
        match leaveArtifact tree location (Path.ofLocation location / "target") request with
        | (.ok (), left) => ⟨.exited 0, tool.output, left⟩
        | (.error _, left) => ⟨.exited 1, tool.output, left⟩

/-- One run of the prepared Git. -/
def GitTool.run (tool : GitTool) (command : Command) (tree : Tree) : Execution :=
  match Git.Query.all.find? (·.args = command.args) with
  | none => ⟨.exited 1, [], tree⟩
  | some query =>
    match tool.failing? with
    | some (failing, termination) =>
      if failing = query then ⟨termination, [], tree⟩ else ⟨.exited 0, tool.answer query, tree⟩
    | none => ⟨.exited 0, tool.answer query, tree⟩

/-- The prepared programs as the programs of a system. -/
def programs (tools : Tools) (searchPath : Text.Bytes) : Programs where
  searchPath? := some searchPath
  run? command location scene :=
    if command.program = BuildRequest.program then
      if tools.build.present then some (tools.build.run command location scene.tree) else none
    else if command.program = "git" then
      if tools.git.present then some (tools.git.run command scene.tree) else none
    else if Architecture.registered.any (·.emulator = command.program) then
      if tools.emulator.present then
        some ⟨tools.emulator.termination, tools.emulator.output, scene.tree⟩
      else none
    else none

end Bootstage.Rehearsal
