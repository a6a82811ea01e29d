import Bootstage.Programs
import Bootstage.Text.Blank

/-!
# Provenance from Git

The state of the sources is asked of Git in four queries, and the first that fails ends the
inquiry. An answer is the output without the end of its last line. The tree is dirty when its
status shows anything but white space.
-/

namespace Bootstage.Git

/-- What is asked. -/
inductive Query
  /-- The short name of the revision. -/
  | revision
  /-- The branch that is checked out. -/
  | branch
  /-- The date of the revision. -/
  | date
  /-- The changes that belong to no revision. -/
  | status
  deriving DecidableEq, Repr

namespace Query

/-- The arguments that put the query. -/
def args : Query → List String
  | revision => ["rev-parse", "--short", "HEAD"]
  | branch => ["rev-parse", "--abbrev-ref", "HEAD"]
  | date => ["--no-pager", "log", "-1", "--pretty=format:%cd", "--date=format:%Y-%m-%d@%H:%M:%S"]
  | status => ["status", "--porcelain"]

/-- All queries in the order in which they are put. -/
def all : List Query := [revision, branch, date, status]

/-- The query as it would be typed. -/
def text (query : Query) : String :=
  commandLine "git" query.args

end Query

/-- Why an inquiry failed. -/
inductive Fault
  /-- The working directory is gone. -/
  | noWorkingDirectory (cause : SystemError)
  /-- The directory in which the query was to be put is not there. -/
  | noDirectory (path : Path) (cause : SystemError)
  /-- There is no such program. -/
  | noProgram
  /-- The program could not be started for another reason. -/
  | notStarted (query : Query) (cause : SystemError)
  /-- The program exited with another code than zero. -/
  | exited (query : Query) (code : Nat)
  /-- A signal killed the program. -/
  | signalled (query : Query) (number : Nat)
  /-- The output is not UTF-8. -/
  | undecodable (query : Query) (fault : Text.Utf8Fault)
  deriving DecidableEq, Repr

/-- The fault in words. -/
def Fault.message : Fault → String
  | noWorkingDirectory cause => "failed to get current directory: " ++ cause.message
  | noDirectory path cause =>
    "failed to get current directory `" ++ path.shown ++ "`: " ++ cause.message
  | noProgram => "command not found: `git`"
  | notStarted query cause =>
    "io error when running command `" ++ query.text ++ "`: " ++ cause.message
  | exited query code =>
    "command exited with non-zero code `" ++ query.text ++ "`: " ++ toString code
  | signalled query number =>
    "command was terminated by a signal `" ++ query.text ++ "`: " ++ toString number
  | undecodable query fault =>
    "failed to decode output of command `" ++ query.text ++ "`: " ++ fault.message

/-- A text without the end of its last line: one line feed and then one carriage return. -/
def withoutLineEnd (text : String) : String :=
  let strip (c : Char) (chars : List Char) : List Char :=
    if chars.getLast? = some c then chars.dropLast else chars
  String.ofList (strip '\r' (strip '\n' text.toList))

/-- The answer that the end and the output of a program give. -/
def answer (query : Query) (execution : Execution) : Except Fault String :=
  match execution.termination with
  | .exited 0 =>
    match Text.decode execution.output with
    | .ok text => .ok (withoutLineEnd text)
    | .error fault => .error (.undecodable query fault)
  | .exited code => .error (.exited query code)
  | .signalled number => .error (.signalled query number)

/-- The fault that a failed start tells. -/
def startFault (query : Query) (directory : Path) (scene : Scene) (cause : SystemError) : Fault :=
  if cause = .notFound then
    match scene.tree.status scene.cwd directory with
    | .error missing => .noDirectory directory missing
    | .ok _ => .noProgram
  else .notStarted query cause

/-- An inquiry goes on from scene to scene and may end in a fault. -/
abbrev Inquiry := ExceptT Fault (StateM Scene)

/-- Puts a query in a directory. -/
def ask (programs : Programs) (directory : Path) (query : Query) : Inquiry String := do
  let scene ← get
  let command : Command := { program := "git", args := query.args, workingDir := directory }
  match programs.start command scene with
  | .error cause => throw (startFault query directory scene cause)
  | .ok (location, execution) =>
    set { scene with
      tree := execution.tree
      calls := scene.calls ++ [Call.start command location] }
    match answer query execution with
    | .ok text => return text
    | .error fault => throw fault

/-- The whole inquiry about the sources in a directory. -/
def inquire (programs : Programs) (directory : Path) : Inquiry Provenance := do
  let revision ← ask programs directory .revision
  let branch ← ask programs directory .branch
  let date ← ask programs directory .date
  let status ← ask programs directory .status
  return { revision, branch, date, dirty := !Text.isBlank status }

end Git

/-- The source of provenance that asks Git in the workspace. -/
def ProvenanceSource.ofPrograms (programs : Programs) (config : Config) : ProvenanceSource where
  react scene :=
    match scene.cwd with
    | some cwd =>
      let directory := (Path.ofLocation cwd).join config.workspaceRoot
      let (outcome, left) := (Git.inquire programs directory).run scene
      { outcome := outcome.mapError fun fault => .provenance fault.message
        tree := left.tree
        starts := left.calls.drop scene.calls.length }
    | none =>
      { outcome := .error (.provenance (Git.Fault.noWorkingDirectory .notFound).message)
        tree := scene.tree }

end Bootstage
