import Bootstage.Architecture.Lookup
import Bootstage.CommandLine.Grammar
import Bootstage.Console

/-!
# Reading the command line

The words of a command line are read from left to right. Names of architectures are not looked up
before the next switch or the end, so a word that cannot be placed is reported before an unknown
name in front of it. The switches for how much is said may stand on both sides of the subcommand;
they exclude each other, and may not be repeated, on the same side only.
-/

namespace Bootstage.CommandLine

/-- Why a command line is refused. -/
inductive Refusal
  /-- A word has no place where it stands. -/
  | unknownArgument
  /-- A word stands for a subcommand but is none. -/
  | invalidSubcommand
  /-- Two arguments exclude each other, or a switch is given twice. -/
  | argumentConflict
  /-- A value is attached to a switch. -/
  | tooManyValues
  /-- No architecture is named where one has to be. -/
  | missingArgument
  /-- There is no subcommand. -/
  | missingSubcommand
  /-- A name belongs to no architecture. -/
  | invalidValue (fault : ConfigurationFault)
  deriving DecidableEq, Repr

/-- The refusal in words. -/
def Refusal.message : Refusal → String
  | unknownArgument => "unexpected argument"
  | invalidSubcommand => "unrecognized subcommand"
  | argumentConflict => "arguments that cannot be used together"
  | tooManyValues => "unexpected value for a switch"
  | missingArgument => "an architecture has to be named"
  | missingSubcommand => "a subcommand has to be given"
  | invalidValue fault => (Error.configuration fault).message

/-- What the program is to do, apart from how much it says. -/
inductive Task
  /-- Build some architectures in order. -/
  | build (architectures : List Architecture) (profile : BuildProfile)
  /-- Build every registered architecture. -/
  | buildAll (profile : BuildProfile)
  /-- Launch an architecture, after building it unless that is to be skipped. -/
  | run (architecture : Architecture) (accelerated : Bool) (profile : BuildProfile)
    (skipBuild : Bool)
  /-- Remove the boot environment. -/
  | clean
  deriving DecidableEq, Repr

/-- An accepted command line. -/
structure Invocation where
  /-- What is to be done. -/
  task : Task
  /-- Whether nothing but errors is to be said. -/
  quiet : Bool
  /-- Whether everything is to be said. -/
  verbose : Bool
  deriving DecidableEq, Repr

/-- How much an accepted command line wants to be said. -/
def Invocation.verbosity (invocation : Invocation) : Verbosity :=
  .ofFlags invocation.quiet invocation.verbose

/-- Why reading ends before there is an invocation. -/
inductive Ending
  /-- The help for a place is asked for. -/
  | help (level : Level)
  /-- The command line is refused. -/
  | refused (refusal : Refusal)
  deriving DecidableEq, Repr

/-- What has been read of one side of the subcommand. -/
structure Reading where
  /-- The switches that were given. -/
  switches : List Switch := []
  /-- The architectures that were named and looked up. -/
  architectures : List Architecture := []
  /-- The names that were given since. -/
  pending : List String := []
  deriving DecidableEq, Repr

namespace Reading

/-- Looks the pending names up. -/
def settle (reading : Reading) : Except Ending Reading :=
  match Architecture.lookupAll reading.pending with
  | .ok found =>
    .ok { reading with architectures := reading.architectures ++ found, pending := [] }
  | .error fault => .error (.refused (.invalidValue fault))

/-- Takes a switch; help is shown at once and no other switch is taken twice. -/
def take (level : Level) (reading : Reading) (switch : Switch) : Except Ending Reading := do
  let settled ← reading.settle
  if switch = .help then .error (.help level)
  else if switch ∈ settled.switches then .error (.refused .argumentConflict)
  else .ok { settled with switches := settled.switches ++ [switch] }

/-- Takes a switch by its long name. -/
def takeLong (level : Level) (reading : Reading) (name : String) (valued : Bool) :
    Except Ending Reading :=
  match level.switches.find? (·.name = name) with
  | none => .error (.refused .unknownArgument)
  | some switch =>
    if valued then .error (.refused .tooManyValues) else reading.take level switch

/-- Takes a switch by its letter. -/
def takeLetter (level : Level) (reading : Reading) (letter : Char) : Except Ending Reading :=
  match level.switches.find? (·.letter? = some letter) with
  | none => .error (.refused .unknownArgument)
  | some switch => reading.take level switch

/-- Takes the switches of a cluster one after the other. -/
def takeLetters (level : Level) (reading : Reading) (cluster : List Char) :
    Except Ending Reading :=
  cluster.foldlM (takeLetter level) reading

/-- Whether one more architecture may be named behind a subcommand. -/
def hasRoom (subcommand : Subcommand) (reading : Reading) : Bool :=
  match subcommand.capacity with
  | .nothing => false
  | .one => reading.architectures.isEmpty && reading.pending.isEmpty
  | .any => true

/-- Takes the name of an architecture behind a subcommand. -/
def takeName (subcommand : Subcommand) (reading : Reading) (name : String) :
    Except Ending Reading :=
  if reading.hasRoom subcommand then .ok { reading with pending := reading.pending ++ [name] }
  else .error (.refused .unknownArgument)

/-- Reads the words behind a subcommand; a divider makes names of all words behind it. -/
def words (subcommand : Subcommand) : Reading → List String → Except Ending Reading
  | reading, [] => .ok reading
  | reading, text :: rest =>
    match Word.ofText text with
    | .divider => rest.foldlM (takeName subcommand) reading
    | .long name valued => do
      words subcommand (← reading.takeLong (.behind subcommand) name valued) rest
    | .letters cluster => do
      words subcommand (← reading.takeLetters (.behind subcommand) cluster) rest
    | .operand name => do words subcommand (← reading.takeName subcommand name) rest

/-- Whether two of the given arguments exclude each other. -/
def isConflicting (reading : Reading) : Bool :=
  (reading.switches.contains .quiet && reading.switches.contains .verbose)
    || (reading.switches.contains .all && !reading.architectures.isEmpty)

/-- The profile that is asked for. -/
def profile (reading : Reading) : BuildProfile :=
  .ofRelease (reading.switches.contains .release)

/-- The task that a subcommand and what was read behind it make, where nothing is missing. -/
def task? (reading : Reading) : Subcommand → Option Task
  | .build =>
    if reading.switches.contains .all then some (.buildAll reading.profile)
    else if reading.architectures.isEmpty then none
    else some (.build reading.architectures reading.profile)
  | .run => do
    return .run (← reading.architectures.head?) (reading.switches.contains .accel) reading.profile
      (reading.switches.contains .noBuild)
  | .clean => some .clean
  | .help => none

/-- The task of a subcommand and the words behind it, with what was read of them. -/
def complete (subcommand : Subcommand) (texts : List String) : Except Ending (Reading × Task) := do
  let reading ← (← words subcommand {} texts).settle
  if reading.isConflicting then .error (.refused .argumentConflict)
  else
    match reading.task? subcommand with
    | some task => .ok (reading, task)
    | none => .error (.refused .missingArgument)

end Reading

/-- The help that is asked for by the words behind the subcommand for help. -/
def readHelp : List String → Ending
  | [] => .help .front
  | [name] =>
    match Subcommand.ofName? name with
    | some subcommand => .help (.behind subcommand)
    | none => .refused .invalidSubcommand
  | _ => .refused .invalidSubcommand

/-- The invocation that both sides of a subcommand make. -/
def Invocation.ofSides (front behind : Reading) (task : Task) : Invocation where
  task := task
  quiet := front.switches.contains .quiet || behind.switches.contains .quiet
  verbose := front.switches.contains .verbose || behind.switches.contains .verbose

/-- Reads a subcommand and the words behind it. -/
def readSubcommand (front : Reading) (name : String) (rest : List String) :
    Except Ending Invocation :=
  match Subcommand.ofName? name with
  | none => .error (.refused .invalidSubcommand)
  | some .help => .error (readHelp rest)
  | some subcommand => do
    let (behind, task) ← Reading.complete subcommand rest
    if front.isConflicting then .error (.refused .argumentConflict)
    else .ok (.ofSides front behind task)

/-- Why the words behind a divider in front of the subcommand are refused. -/
def refuseDivided : List String → Refusal
  | [] => .missingSubcommand
  | name :: _ =>
    match Subcommand.ofName? name with
    | some _ => .unknownArgument
    | none => .invalidSubcommand

/-- Reads the words from the given reading of their front on. -/
def readFrom : Reading → List String → Except Ending Invocation
  | _, [] => .error (.refused .missingSubcommand)
  | front, text :: rest =>
    match Word.ofText text with
    | .divider => .error (.refused (refuseDivided rest))
    | .long name valued => do readFrom (← front.takeLong .front name valued) rest
    | .letters cluster => do readFrom (← front.takeLetters .front cluster) rest
    | .operand name => readSubcommand front name rest

/-- Reads a command line. -/
def read (texts : List String) : Except Ending Invocation :=
  readFrom {} texts

end Bootstage.CommandLine
