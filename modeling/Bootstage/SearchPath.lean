import Bootstage.Path

/-!
# Search paths

A search path lists directories between colons; an empty entry stands for the working directory. A
directory whose own name holds a colon cannot be listed. A program is looked for in the entries in
order.
-/

namespace Bootstage.SearchPath

/-- The byte between two directories. -/
abbrev colon : UInt8 := 0x3A

/-- The directories that a search path lists. -/
def entries (searchPath : Text.Bytes) : List Text.Bytes :=
  searchPath.splitOn colon

/-- The search path that lists directories, if each of them can be listed. -/
def ofEntries? (directories : List Text.Bytes) : Option Text.Bytes :=
  if directories.any fun directory => directory.contains colon then none
  else some ([colon].intercalate directories)

/-- A search path with a directory in front. -/
def withFirst? (directory : Path) (searchPath : Text.Bytes) : Option Text.Bytes :=
  ofEntries? (directory.bytes :: entries searchPath)

/-- The search path that is used where none is set. -/
def standard : Text.Bytes := "/bin:/usr/bin"

/-- The entries in which a program is looked for. An entry that is longer than any path is passed
over: the working directory is searched in its stead, unless the entry is the last. -/
def searched : List Text.Bytes → List Text.Bytes
  | [] => []
  | [last] => if last.length > pathLimit then [] else [last]
  | entry :: next :: rest =>
    (if entry.length > pathLimit then [] else entry) :: searched (next :: rest)

/-- The path at which an entry has a program. -/
def candidate (entry : Text.Bytes) (program : String) : Path :=
  if entry = [] then ⟨program⟩ else ⟨entry ++ Text.encode ("/" ++ program)⟩

end Bootstage.SearchPath
