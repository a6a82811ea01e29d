import Bootstage.Text.Separated

/-!
# The grammar of the command line

A command line holds switches, the name of a subcommand and what belongs to the subcommand. Which
switches may be given depends on where they stand: in front of the subcommand or behind it. A word
is a divider, a long switch, a cluster of short ones or an operand.
-/

namespace Bootstage.CommandLine

/-- A switch that is given or not. -/
inductive Switch
  /-- Build every registered architecture. -/
  | all
  /-- Ask for acceleration. -/
  | accel
  /-- Launch what has been built before. -/
  | noBuild
  /-- Build for release. -/
  | release
  /-- Say nothing but errors. -/
  | quiet
  /-- Say everything. -/
  | verbose
  /-- Show the help instead. -/
  | help
  deriving DecidableEq, Repr

namespace Switch

/-- The long name of a switch, which follows two hyphens. -/
def name : Switch → String
  | all => "all"
  | accel => "accel"
  | noBuild => "no-build"
  | release => "release"
  | quiet => "quiet"
  | verbose => "verbose"
  | help => "help"

/-- The letter of a switch that has one, which follows a single hyphen. -/
def letter? : Switch → Option Char
  | release => some 'r'
  | quiet => some 'q'
  | verbose => some 'v'
  | help => some 'h'
  | _ => none

/-- What a switch is for. -/
def about : Switch → String
  | all => "Build every supported architecture"
  | accel => "Enable hardware acceleration (host and guest architecture must match)"
  | noBuild => "Launch the existing build without rebuilding"
  | release => "Build in release mode"
  | quiet => "Only print errors"
  | verbose => "Print child command lines, copied files and timings"
  | help => "Print help"

end Switch

/-- What the program is asked to do. -/
inductive Subcommand
  /-- Build architectures. -/
  | build
  /-- Build and launch one architecture. -/
  | run
  /-- Remove the boot environment. -/
  | clean
  /-- Show help. -/
  | help
  deriving DecidableEq, Repr

namespace Subcommand

/-- The name of a subcommand. -/
def name : Subcommand → String
  | build => "build"
  | run => "run"
  | clean => "clean"
  | help => "help"

/-- What a subcommand is for. -/
def about : Subcommand → String
  | build => "Build the boot loader and kernel"
  | run => "Build, stage the boot environment and run it in QEMU"
  | clean => "Remove the staging directories"
  | help => "Print this message or the help of the given subcommand(s)"

/-- All subcommands in the order in which they are listed. -/
def all : List Subcommand := [build, run, clean, help]

/-- The subcommand with the given name. -/
def ofName? (name : String) : Option Subcommand :=
  all.find? (·.name = name)

theorem ofName?_name (subcommand : Subcommand) : ofName? subcommand.name = some subcommand := by
  cases subcommand <;> decide

end Subcommand

/-- Where a word stands. -/
inductive Level
  /-- In front of the subcommand. -/
  | front
  /-- Behind a subcommand. -/
  | behind (subcommand : Subcommand)
  deriving DecidableEq, Repr

namespace Level

/-- The switches that may be given in a place, in the order in which they are listed. -/
def switches : Level → List Switch
  | front => [.quiet, .verbose, .help]
  | behind .build => [.all, .release, .quiet, .verbose, .help]
  | behind .run => [.accel, .noBuild, .release, .quiet, .verbose, .help]
  | behind .clean => [.quiet, .verbose, .help]
  | behind .help => []

end Level

/-- How many architectures a subcommand names at most. -/
inductive Capacity
  /-- None. -/
  | nothing
  /-- A single one. -/
  | one
  /-- Any number. -/
  | any
  deriving DecidableEq, Repr

/-- How many architectures may be named behind a subcommand. -/
def Subcommand.capacity : Subcommand → Capacity
  | build => .any
  | run => .one
  | clean => .nothing
  | help => .nothing

/-- What a word is by its first characters. -/
inductive Word
  /-- Two hyphens alone; no switches follow them. -/
  | divider
  /-- A name behind two hyphens, and whether a value is attached to it. -/
  | long (name : String) (valued : Bool)
  /-- Letters behind one hyphen. -/
  | letters (cluster : List Char)
  /-- Any other word; a hyphen alone is one. -/
  | operand (text : String)
  deriving DecidableEq, Repr

/-- Reads a word; the name of a long switch ends at the first equals sign. -/
def Word.ofText (text : String) : Word :=
  match text.toList with
  | ['-'] => .operand text
  | ['-', '-'] => .divider
  | '-' :: '-' :: rest =>
    .long (String.ofList (rest.takeWhile (· ≠ '='))) (rest.contains '=')
  | '-' :: cluster => .letters cluster
  | _ => .operand text

/-- A word that does not start with a hyphen is an operand. -/
theorem Word.ofText_of_head {text : String} (h : text.toList.head? ≠ some '-') :
    Word.ofText text = .operand text := by
  unfold Word.ofText
  split <;> simp_all

end Bootstage.CommandLine
