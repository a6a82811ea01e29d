import Bootstage.Tree.Walk

/-!
# File operations

What the system does to a tree when a program looks at, reads, writes, copies, creates or removes
files by their paths. Relative paths start at the working directory. An operation that can stop
halfway returns the tree it leaves beside its outcome; the others change nothing when they fail.
-/

namespace Bootstage.Tree

open SystemError

/-- What a path leads to, links followed. -/
def status (tree : Tree) (cwd : Option Location) (path : Path) : Except SystemError Entry := do
  tree.entryAt (← tree.locate cwd path)

/-- What a path leads to when a link at its end is not followed. -/
def linkStatus (tree : Tree) (cwd : Option Location) (path : Path) :
    Except SystemError (Location × Entry) := do
  let location ← tree.locate cwd path .kept
  return (location, ← tree.entryAt location)

/-- Whether a path leads to anything. -/
def present (tree : Tree) (cwd : Option Location) (path : Path) : Bool :=
  (tree.status cwd path).isOk

/-- Whether a path leads to a directory. -/
def presentDirectory (tree : Tree) (cwd : Option Location) (path : Path) : Bool :=
  match tree.status cwd path with
  | .ok .directory => true
  | _ => false

/-- The content of a file. -/
def read (tree : Tree) (cwd : Option Location) (path : Path) : Except SystemError Text.Bytes := do
  match ← tree.status cwd path with
  | .file content => return content
  | _ => throw isDirectory

/-- The content of a file that has to be UTF-8. -/
def readText (tree : Tree) (cwd : Option Location) (path : Path) : Except SystemError String := do
  match Text.decode (← tree.read cwd path) with
  | .ok text => return text
  | .error _ => throw notText

/-- Creates one directory. -/
def makeDirectory (tree : Tree) (cwd : Option Location) (path : Path) :
    Except SystemError Tree := do
  let parent ← tree.locateParent cwd path
  match path.names.getLast? with
  | none => throw alreadyExists
  | some name =>
    if name = "." ∨ name = ".." then throw alreadyExists
    else if name.length > nameLimit then throw nameTooLong
    else if (tree.get? (parent ++ [name])).isSome then throw alreadyExists
    else return tree.put (parent ++ [name]) .directory

/-- Creates the first path of a list that cannot be created for want of a parent after the rest of
the list, in which each path is the parent of the one before it. -/
def makeDirectories (tree : Tree) (cwd : Option Location) :
    List Path → Except SystemError Unit × Tree
  | [] => (.ok (), tree)
  | path :: parents =>
    if path.bytes = [] then (.ok (), tree)
    else
      match tree.makeDirectory cwd path with
      | .ok made => (.ok (), made)
      | .error cause =>
        if cause = notFound then
          match tree.makeDirectories cwd parents with
          | (.error deeper, left) => (.error deeper, left)
          | (.ok (), left) =>
            match left.makeDirectory cwd path with
            | .ok made => (.ok (), made)
            | .error again =>
              if left.presentDirectory cwd path then (.ok (), left) else (.error again, left)
        else if tree.presentDirectory cwd path then (.ok (), tree)
        else (.error cause, tree)

/-- Creates a directory together with the directories above it that are missing. -/
def createDirectory (tree : Tree) (cwd : Option Location) (path : Path) :
    Except SystemError Unit × Tree :=
  tree.makeDirectories cwd (path :: path.parents)

/-- The location at which a file opened for writing stands or is created. -/
def locateWritable (tree : Tree) (cwd : Option Location) (path : Path) :
    Except SystemError Location := do
  let location ← tree.locate cwd path .created
  if tree.get? location = some .directory then throw isDirectory
  else return location

/-- Writes a file, replacing what it held. -/
def write (tree : Tree) (cwd : Option Location) (path : Path) (content : Text.Bytes) :
    Except SystemError Tree := do
  return tree.put (← tree.locateWritable cwd path) (.file content)

/-- Copies a regular file. The target is emptied before the source is read, so a file copied onto
itself ends empty. -/
def copy (tree : Tree) (cwd : Option Location) (source target : Path) :
    Except SystemError Tree := do
  let origin ← tree.locate cwd source
  match ← tree.entryAt origin with
  | .file _ =>
    let destination ← tree.locateWritable cwd target
    let emptied := tree.put destination (.file [])
    match emptied.get? origin with
    | some (.file content) => return emptied.put destination (.file content)
    | _ => return emptied
  | _ => throw notCopyable

/-- Removes a directory that has been emptied. -/
def removeEmptied (tree : Tree) (cwd : Option Location) (path : Path) :
    Except SystemError Tree := do
  let parent ← tree.locateParent cwd path
  match path.names.getLast? with
  | none => throw busy
  | some name =>
    if name = "." then throw invalidArgument
    else if name = ".." then throw notEmpty
    else
      match tree.get? (parent ++ [name]) with
      | none => throw notFound
      | some .directory => return tree.erase (parent ++ [name])
      | some _ => throw notDirectory

/-- Removes a directory with everything below it, or the link that the path ends in. Nothing is
removed through a link. That the directory is gone when its own turn comes is no error. -/
def removeAll (tree : Tree) (cwd : Option Location) (path : Path) :
    Except SystemError Unit × Tree :=
  match tree.linkStatus cwd path with
  | .error cause => (.error cause, tree)
  | .ok (location, .link _) => (.ok (), tree.erase location)
  | .ok (_, .file _) => (.error notDirectory, tree)
  | .ok (location, .directory) =>
    let emptied := tree.eraseBelow location
    match emptied.removeEmptied cwd path with
    | .ok removed => (.ok (), removed)
    | .error cause => (if cause = notFound then .ok () else .error cause, emptied)

end Bootstage.Tree
