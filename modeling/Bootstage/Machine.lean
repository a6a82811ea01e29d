import Bootstage.BuildRequest
import Bootstage.Console
import Bootstage.Launch
import Bootstage.Provenance
import Bootstage.Tree.Files

/-!
# Machines and their collaborators

A run acts on a machine: it changes files, writes lines and calls on collaborators, and it may end
in an error at any point with the machine as it then is. Collaborators are values of their own. What
one of them does in a call may depend on all calls before it and on the files, and consists of an
outcome, the files it leaves and the lines it writes.
-/

namespace Bootstage

/-- A call on a collaborator, or the start of a program. -/
inductive Call
  /-- The toolchain is asked for a build. -/
  | build (program : String) (request : BuildRequest)
  /-- The state of the sources is asked for. -/
  | provenance
  /-- The emulator is asked to run. -/
  | launch (launch : Launch)
  /-- A program starts in the directory at the given location. -/
  | start (command : Command) (location : Location)
  deriving DecidableEq, Repr

/-- What a collaborator sees of a machine. -/
structure Scene where
  /-- The files. -/
  tree : Tree
  /-- The working directory, unless it has been removed. -/
  cwd : Option Location
  /-- The calls so far. -/
  calls : List Call

/-- What a collaborator does in one call. -/
structure Reaction (α : Type) where
  /-- What it answers. -/
  outcome : α
  /-- The files as it leaves them. -/
  tree : Tree
  /-- The lines it has to say. -/
  remarks : List Remark := []
  /-- The programs it started. -/
  starts : List Call := []

/-- What builds packages. -/
structure Toolchain where
  /-- The name under which it is spoken of. -/
  program : String := BuildRequest.program
  /-- What it does when it is asked for a build; it may fail to start. -/
  react : BuildRequest → Scene → Reaction (Except SystemError ProcessExit)

/-- What knows the state of the sources. -/
structure ProvenanceSource where
  /-- What it does when it is asked. -/
  react : Scene → Reaction (Except Error Provenance)

/-- What runs guests. -/
structure Emulator where
  /-- What it does when it is asked to run; it may fail to start. -/
  react : Launch → Scene → Reaction (Except SystemError ProcessExit)

/-- All that a run can act on. -/
structure Machine where
  /-- The files. -/
  tree : Tree
  /-- The working directory, unless it has been removed. -/
  cwd : Option Location
  /-- How much the program says. -/
  verbosity : Verbosity := .standard
  /-- The lines that have been written. -/
  console : List Line := []
  /-- The calls that have been made. -/
  calls : List Call := []

namespace Machine

/-- What a collaborator sees of the machine. -/
def scene (machine : Machine) : Scene :=
  ⟨machine.tree, machine.cwd, machine.calls⟩

/-- The machine with other files. A working directory that is not among them has been removed, and
one that is made in its place later is another. -/
def withTree (machine : Machine) (tree : Tree) : Machine :=
  { machine with tree, cwd := tree.held machine.cwd }

/-- The machine after a remark, which is written if it is shown. -/
def remark (machine : Machine) (remark : Remark) : Machine :=
  if remark.shownAt machine.verbosity then
    { machine with console := machine.console ++ [remark.line] }
  else machine

/-- The machine after a call to which a collaborator reacted. -/
def after {α : Type} (machine : Machine) (call : Call) (reaction : Reaction α) : Machine :=
  reaction.remarks.foldl remark
    { machine.withTree reaction.tree with calls := machine.calls ++ call :: reaction.starts }

end Machine

/-- A run on a machine that ends in a value or in an error, with the machine as it then is. -/
def Action (α : Type) : Type := Machine → Except Error α × Machine

namespace Action

/-- The outcome of a run and the machine it leaves. -/
def run {α : Type} (action : Action α) (machine : Machine) : Except Error α × Machine :=
  action machine

/-- Runs follow one another up to the first that fails. -/
instance : Monad Action where
  pure value := fun machine => (.ok value, machine)
  bind first next := fun machine =>
    match first machine with
    | (.ok value, left) => next value left
    | (.error error, left) => (.error error, left)

/-- The run that fails at once. -/
def fail {α : Type} (error : Error) : Action α :=
  fun machine => (.error error, machine)

/-- The value of a computation without effects, or the failure it ends in. -/
def ofExcept {α : Type} (outcome : Except Error α) : Action α :=
  fun machine => (outcome, machine)

/-- Says something. -/
def say (least : Verbosity) (text : String) : Action Unit :=
  fun machine => (.ok (), machine.remark (.said least text))

/-- A run whose duration is told when it ends, in success or in failure. -/
def timed {α : Type} (label : String) (action : Action α) : Action α := fun machine =>
  let (outcome, left) := action.run machine
  (outcome, left.remark (.timed label))

/-- What a look at the files shows. -/
def look {α : Type} (view : Tree → Option Location → α) : Action α :=
  fun machine => (.ok (view machine.tree machine.cwd), machine)

/-- A file operation; its failure is put into the words of this program. -/
def onFiles (operation : Tree → Option Location → Except SystemError Unit × Tree)
    (toError : SystemError → Error) : Action Unit := fun machine =>
  let (outcome, tree) := operation machine.tree machine.cwd
  (outcome.mapError toError, machine.withTree tree)

/-- A file operation that changes nothing when it fails. -/
def onFilesAtOnce (operation : Tree → Option Location → Except SystemError Tree)
    (toError : SystemError → Error) : Action Unit :=
  onFiles (fun tree cwd =>
    match operation tree cwd with
    | .ok changed => (.ok (), changed)
    | .error cause => (.error cause, tree)) toError

/-- A call on a collaborator; the call is recorded and its failure put into words. -/
def engage {α ε : Type} (call : Call) (react : Scene → Reaction (Except ε α))
    (toError : ε → Error) : Action α := fun machine =>
  let reaction := react machine.scene
  (reaction.outcome.mapError toError, machine.after call reaction)

@[simp] theorem run_pure {α : Type} (value : α) (machine : Machine) :
    (pure value : Action α).run machine = (.ok value, machine) := rfl

@[simp] theorem run_fail {α : Type} (error : Error) (machine : Machine) :
    (fail error : Action α).run machine = (.error error, machine) := rfl

@[simp] theorem run_ofExcept {α : Type} (outcome : Except Error α) (machine : Machine) :
    (ofExcept outcome).run machine = (outcome, machine) := rfl

@[simp] theorem run_look {α : Type} (view : Tree → Option Location → α) (machine : Machine) :
    (look view).run machine = (.ok (view machine.tree machine.cwd), machine) := rfl

/-- A file operation leaves its files whether it succeeds or fails. -/
theorem run_onFiles (operation : Tree → Option Location → Except SystemError Unit × Tree)
    (toError : SystemError → Error) (machine : Machine) :
    (onFiles operation toError).run machine =
      ((operation machine.tree machine.cwd).1.mapError toError,
        machine.withTree (operation machine.tree machine.cwd).2) := rfl

@[simp] theorem run_say (least : Verbosity) (text : String) (machine : Machine) :
    (say least text).run machine = (.ok (), machine.remark (.said least text)) := rfl

/-- What follows a run starts on the machine that the run leaves, if the run succeeds. -/
theorem run_bind {α β : Type} (first : Action α) (next : α → Action β) (machine : Machine) :
    (first >>= next).run machine =
      match first.run machine with
      | (.ok value, left) => (next value).run left
      | (.error error, left) => (.error error, left) := rfl

/-- Two actions are equal when they run alike on every machine. -/
theorem ext_run {α : Type} {first second : Action α}
    (h : ∀ machine, first.run machine = second.run machine) : first = second :=
  funext h

instance : LawfulMonad Action :=
  LawfulMonad.mk' Action
    (fun action => ext_run fun machine => by
      change (action >>= fun value => pure (id value)).run machine = _
      rw [run_bind]
      split <;> simp_all)
    (fun _ _ => rfl)
    (fun first next last => ext_run fun machine => by
      simp only [run_bind]
      rcases first.run machine with ⟨outcome | value, left⟩ <;> rfl)

/-- After a success the next run starts on the machine that was left. -/
theorem run_bind_of_ok {α β : Type} {first : Action α} {next : α → Action β}
    {machine left : Machine} {value : α} (h : first.run machine = (.ok value, left)) :
    (first >>= next).run machine = (next value).run left := by
  rw [run_bind, h]

/-- After a failure nothing else is run. -/
theorem run_bind_of_error {α β : Type} {first : Action α} {next : α → Action β}
    {machine left : Machine} {error : Error} (h : first.run machine = (.error error, left)) :
    (first >>= next).run machine = (.error error, left) := by
  rw [run_bind, h]

end Action

end Bootstage
