import Bootstage.CommandLine.Grammar

/-!
# Help

The help for a place on the command line follows from the grammar: what the place is for, its usage,
and sections of what may be given there. The terms of a section are padded to one width.
-/

namespace Bootstage.CommandLine

namespace Help

/-- The name under which the program is shown. -/
def programName : String := "xtask"

/-- What the program is for. -/
def programAbout : String := "Build automation for CorgOS"

/-- A list of terms, each with what it is for. -/
structure Section where
  /-- The title of the list. -/
  title : String
  /-- The terms in order. -/
  rows : List (String × String)

/-- A term followed by blanks up to a width. -/
def padded (width : Nat) (term : String) : String :=
  term ++ String.ofList (List.replicate (width - term.length) ' ')

/-- The lines of a section, and none when it lists nothing. -/
def Section.lines (part : Section) : List String :=
  let width := (part.rows.map fun row => row.1.length).foldl max 0
  if part.rows.isEmpty then []
  else "" :: (part.title ++ ":")
    :: part.rows.map fun (term, about) => "  " ++ padded width term ++ "  " ++ about

/-- A switch as it is listed; a missing letter leaves its place blank. -/
def switchTerm (switch : Switch) : String :=
  match switch.letter? with
  | some letter => String.ofList ['-', letter] ++ ", --" ++ switch.name
  | none => "    --" ++ switch.name

/-- The switches of a place. -/
def options (level : Level) : Section where
  title := "Options"
  rows := level.switches.map fun switch => (switchTerm switch, switch.about)

/-- The subcommands. -/
def subcommands : Section where
  title := "Commands"
  rows := Subcommand.all.map fun subcommand => (subcommand.name, subcommand.about)

/-- What may be named behind a subcommand. -/
def operands : Subcommand → Section
  | .build => ⟨"Arguments",
      [("[ARCH]...", "Architectures to build (aliases such as amd64 or arm64 are accepted)")]⟩
  | .run => ⟨"Arguments", [("<ARCH>", "Target architecture")]⟩
  | .clean => ⟨"Arguments", []⟩
  | .help => ⟨"Arguments", [("[COMMAND]...", "Print help for the subcommand(s)")]⟩

/-- What is written behind the name of the program in a place. -/
def usage : Level → List String
  | .front => ["[OPTIONS]", "<COMMAND>"]
  | .behind subcommand =>
    [subcommand.name] ++ (if (Level.behind subcommand).switches.isEmpty then [] else ["[OPTIONS]"])
      ++ (operands subcommand).rows.map (·.1)

/-- What a place is for. -/
def about : Level → String
  | .front => programAbout
  | .behind subcommand => subcommand.about

/-- What is listed for a place besides its switches. -/
def listing : Level → Section
  | .front => subcommands
  | .behind subcommand => operands subcommand

/-- The lines of the help for a place. -/
def lines (level : Level) : List String :=
  [about level, "", "Usage: " ++ String.intercalate " " (programName :: usage level)]
    ++ (listing level).lines ++ (options level).lines

end Help

end Bootstage.CommandLine
