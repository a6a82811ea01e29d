import Bootstage.Path
import Bootstage.SystemError
import Bootstage.Tree

/-!
# Walking a path

A path names a location by the walk of its names through a tree: each name is looked up in the
directory reached so far, `.` stays, `..` goes up, and a link is replaced by the names of its
target. A bounded number of links is followed, so a circle of links ends in an error. A relative
path starts at the working directory and leads nowhere once that directory has been removed.
-/

namespace Bootstage

/-- How many links one walk follows. -/
def linkLimit : Nat := 40

/-- What is done at the last name of a path. -/
inductive LastName
  /-- A link is followed. -/
  | followed
  /-- A link is kept. -/
  | kept
  /-- A link is followed to the place of a file that may still have to be created. -/
  | created
  deriving DecidableEq, Repr

namespace Path

/-- The names to be walked. A slash at the end shows as an empty name behind the others. -/
def walked (path : Path) : List Name :=
  if path.endsInSlash then path.names ++ [[]] else path.names

/-- The directory at which the walk starts when it is taken up in a directory. -/
def start (here : Location) (path : Path) : Location :=
  if path.isAbsolute then [] else here

/-- The directory at which the walk starts, given the working directory where there is one. -/
def origin (path : Path) : Option Location → Except SystemError Location
  | some cwd => .ok (path.start cwd)
  | none => if path.isAbsolute then .ok [] else .error .notFound

/-- An absolute path does not depend on the working directory. -/
theorem origin_of_isAbsolute {path : Path} (h : path.isAbsolute = true) (cwd : Option Location) :
    path.origin cwd = .ok [] := by
  cases cwd <;> simp [origin, start, h]

/-- Refuses what is no path for the system. -/
def check (path : Path) : Except SystemError Unit :=
  if path.bytes.contains 0 then .error .nulInPath
  else if path.bytes = [] then .error .notFound
  else if path.bytes.length > pathLimit then .error .nameTooLong
  else .ok ()

/-- The absolute path that leads to a location through the names in it. -/
def ofLocation (location : Location) : Path :=
  ⟨slash :: [slash].intercalate location⟩

end Path

namespace Tree

/-- The working directory as long as it is a directory of the tree. -/
def held (tree : Tree) (cwd : Option Location) : Option Location :=
  cwd.filter fun location => tree.get? location = some .directory

/-- Walks names from a directory. The last name may be missing, but no file is created at a name
with a slash behind it. What remains to be walked at a link that is followed is left to `onLink`. -/
def walkNames (tree : Tree) (last : LastName)
    (onLink : Location → Text.Bytes → List Name → Except SystemError Location) :
    Location → List Name → Except SystemError Location
  | here, [] => .ok here
  | here, name :: rest =>
    match tree.get? here with
    | none => .error .notFound
    | some (.file _) => .error .notDirectory
    | some (.link _) => .error .notDirectory
    | some .directory =>
      if name = [] ∨ name = "." then walkNames tree last onLink here rest
      else if name = ".." then walkNames tree last onLink here.dropLast rest
      else if last = .created ∧ rest = [[]] then .error .isDirectory
      else if name.length > nameLimit then .error .nameTooLong
      else
        match tree.get? (here ++ [name]) with
        | some (.link target) =>
          if last = .kept ∧ rest = [] then .ok (here ++ [name]) else onLink here target rest
        | _ => walkNames tree last onLink (here ++ [name]) rest

/-- Walks names and follows at most the given number of links. -/
def walk (tree : Tree) (last : LastName) :
    Nat → Location → List Name → Except SystemError Location
  | 0 => walkNames tree last fun _ _ _ => .error .tooManyLinks
  | links + 1 => walkNames tree last fun here target rest =>
      walk tree last links (Path.start here ⟨target⟩) ((⟨target⟩ : Path).walked ++ rest)

/-- The location that a path leads to; nothing need stand there. -/
def locate (tree : Tree) (cwd : Option Location) (path : Path) (last : LastName := .followed) :
    Except SystemError Location := do
  path.check
  tree.walk last linkLimit (← path.origin cwd) path.walked

/-- The entry at a location that has to have one. -/
def entryAt (tree : Tree) (location : Location) : Except SystemError Entry :=
  match tree.get? location with
  | some entry => .ok entry
  | none => .error .notFound

/-- The directory that holds the last name of a path. -/
def locateParent (tree : Tree) (cwd : Option Location) (path : Path) :
    Except SystemError Location := do
  path.check
  tree.walk .followed linkLimit (← path.origin cwd) (path.names.dropLast ++ [Text.encode "."])

end Tree

end Bootstage
