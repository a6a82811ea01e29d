import Bootstage.Path

/-!
# Commands

A command is a program with its arguments, the directory it is started in and the variables that
differ from the environment of the parent. Its text shows program and arguments with single blanks
between them and nothing quoted.
-/

namespace Bootstage

/-- A program to be started. -/
structure Command where
  /-- The name of the program. -/
  program : String
  /-- The arguments in order. -/
  args : List String
  /-- The directory in which the program is started. -/
  workingDir : Path
  /-- The variables that are set anew for the program. -/
  environment : List (String × Text.Bytes) := []
  deriving DecidableEq, Repr

/-- The longest argument or variable in bytes. -/
def argumentLimit : Nat := 131071

/-- A program and its arguments as they would be typed. -/
def commandLine (program : String) (args : List String) : String :=
  String.intercalate " " (program :: args)

/-- The command as it would be typed. -/
def Command.text (command : Command) : String :=
  commandLine command.program command.args

/-- The command as it is prepared for the system: a placeholder stands for each text that holds a
NUL. The variables are not looked at before the program starts. -/
def Command.prepared (command : Command) : Command :=
  let placeholder := "<string-with-nul>"
  let prepare (text : String) : String := if text.toList.contains '\x00' then placeholder else text
  { command with
    program := prepare command.program
    args := command.args.map prepare
    workingDir := if command.workingDir.bytes.contains 0 then ⟨placeholder⟩
      else command.workingDir }

/-- Whether a NUL stands anywhere in a command. -/
def Command.holdsNul (command : Command) : Bool :=
  let texts := (command.program :: command.args).map Text.encode
  let assigned := command.environment.flatMap fun (name, value) => [Text.encode name, value]
  (command.workingDir.bytes :: texts ++ assigned).any fun bytes => bytes.contains 0

/-- Whether an argument or a variable of a command is too long for a program to be handed. -/
def Command.isOverlong (command : Command) : Bool :=
  let texts := command.args.map Text.encode
  let assigned := command.environment.map fun (name, value) => Text.encode (name ++ "=") ++ value
  (texts ++ assigned).any fun bytes => bytes.length > argumentLimit

end Bootstage
