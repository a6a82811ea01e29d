import Bootstage.Tree.Files

/-!
# Laying trees out

A tree can be laid out entry by entry, each at a path of its own. The directories on the way are
created, a file that is there gets the new content, and an entry that cannot be laid is left out.
-/

namespace Bootstage.Tree

/-- The tree with the directories above a path. -/
def layParents (tree : Tree) (cwd : Option Location) (path : Path) : Tree :=
  (tree.makeDirectories cwd path.parents).2

/-- Creates a link at a name that is free. -/
def makeLink (tree : Tree) (cwd : Option Location) (path : Path) (target : Text.Bytes) :
    Except SystemError Tree := do
  (⟨target⟩ : Path).check
  match path.fileName? with
  | none => throw .alreadyExists
  | some name =>
    let location := (← tree.locateParent cwd path) ++ [name]
    if name.length > nameLimit then throw .nameTooLong
    else if (tree.get? location).isSome then throw .alreadyExists
    else return tree.put location (.link target)

/-- The tree with an entry at a path. -/
def lay (tree : Tree) (cwd : Option Location) (path : Path) : Entry → Tree
  | .directory => (tree.createDirectory cwd path).2
  | .file content =>
    let prepared := tree.layParents cwd path
    match prepared.write cwd path content with
    | .ok written => written
    | .error _ => prepared
  | .link target =>
    let prepared := tree.layParents cwd path
    match prepared.makeLink cwd path target with
    | .ok linked => linked
    | .error _ => prepared

/-- The tree without what a path leads to; of a link the link itself goes. -/
def drop (tree : Tree) (cwd : Option Location) (path : Path) : Tree :=
  match tree.linkStatus cwd path with
  | .ok (location, _) => tree.erase location
  | .error _ => tree

/-- The empty tree with entries laid into it one after the other. -/
def ofEntries (cwd : Location) (entries : List (Path × Entry)) : Tree :=
  entries.foldl (fun tree (path, entry) => tree.lay cwd path entry)
    (empty.lay none (Path.ofLocation cwd) .directory)

end Bootstage.Tree
