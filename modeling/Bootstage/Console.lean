import Bootstage.Text.Utf8

/-!
# The console

The lines that a run writes on standard output. Lines of the program itself are shown from a level
of output on; what a child process writes is always shown.
-/

namespace Bootstage

/-- How much the program says about its own work. -/
inductive Verbosity
  /-- Errors only. -/
  | quiet
  /-- One line for each stage. -/
  | standard
  /-- Commands, copied files and elapsed times as well. -/
  | verbose
  deriving DecidableEq, Repr, Inhabited

namespace Verbosity

/-- The level that two flags ask for; quiet wins. -/
def ofFlags (quiet verbose : Bool) : Verbosity :=
  if quiet then .quiet else if verbose then .verbose else .standard

/-- The place of a level in the order of the levels. -/
def rank : Verbosity → Nat
  | quiet => 0
  | standard => 1
  | verbose => 2

/-- Whether what is said from a level on is shown. -/
def shows (verbosity least : Verbosity) : Bool :=
  least.rank ≤ verbosity.rank

end Verbosity

/-- One piece of standard output. -/
inductive Line
  /-- Said by the program itself. -/
  | said (text : String)
  /-- The time that a stage took. -/
  | timed (label : String)
  /-- Written by a child process, in lines of its own or not. -/
  | relayed (content : Text.Bytes)
  deriving DecidableEq, Repr

namespace Line

/-- Whether the program itself wrote the line. -/
def isOwn : Line → Bool
  | relayed _ => false
  | _ => true

/-- What is written for the line, given how elapsed time is shown. -/
def content (elapsed : String) : Line → Text.Bytes
  | said text => Text.encode (text ++ "\n")
  | timed label => Text.encode ("  " ++ label ++ ": " ++ elapsed ++ "\n")
  | relayed content => content

end Line

/-- A line that the program has to say, and the level from which on it is shown. -/
structure Remark where
  /-- The level from which on the line is shown; what is always shown has none. -/
  least? : Option Verbosity
  /-- The line. -/
  line : Line
  deriving DecidableEq, Repr

namespace Remark

/-- Something said from a level on. -/
def said (least : Verbosity) (text : String) : Remark :=
  ⟨some least, .said text⟩

/-- The time that a stage took; it is shown with the commands. -/
def timed (label : String) : Remark :=
  ⟨some .verbose, .timed label⟩

/-- Something that a child process wrote. -/
def relayed (content : Text.Bytes) : Remark :=
  ⟨none, .relayed content⟩

/-- Whether the remark is shown at a level. -/
def shownAt (remark : Remark) (verbosity : Verbosity) : Bool :=
  remark.least?.all verbosity.shows

end Remark

end Bootstage
