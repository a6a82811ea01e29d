import Bootstage.Text.Utf8

/-!
# Paths

A path is kept as the bytes that it is made of and is never normalised. Joining puts one slash
between two paths unless the left one is empty or ends in a slash already; an absolute right side
replaces the left one. The names on a path are the nonempty pieces between its slashes. A path need
not be UTF-8: what is shown for it is a text, from which it cannot always be told.
-/

namespace Bootstage

/-- The name of a file or of a directory. -/
abbrev Name := Text.Bytes

/-- A path in the form in which it is written. -/
structure Path where
  /-- The bytes of the path. -/
  bytes : Text.Bytes
  deriving DecidableEq, Repr, Inhabited

/-- The longest name in bytes. -/
def nameLimit : Nat := 255

/-- The longest path in bytes. -/
def pathLimit : Nat := 4095

namespace Path

/-- The path of a single name. -/
instance : Coe Name Path where
  coe := Path.mk

/-- The byte between two names. -/
abbrev slash : UInt8 := 0x2F

/-- The text that is shown for the path. -/
def shown (path : Path) : String :=
  Text.lossy path.bytes

/-- Whether the path starts at the root. -/
def isAbsolute (path : Path) : Bool :=
  path.bytes.head? == some slash

/-- Whether the path ends in a slash. -/
def endsInSlash (path : Path) : Bool :=
  path.bytes.getLast? == some slash

/-- The right path seen from the left one. -/
def join (base right : Path) : Path :=
  if right.isAbsolute then right
  else if base.bytes = [] ∨ base.endsInSlash then ⟨base.bytes ++ right.bytes⟩
  else ⟨base.bytes ++ slash :: right.bytes⟩

/-- One more name, or a whole path, behind a path. -/
instance : Div Path where
  div := join

/-- The names on the path in order; a name may be `.` or `..`. -/
def names (path : Path) : List Name :=
  (path.bytes.splitOn slash).filter (· ≠ [])

/-- The names without those that stay where they are. -/
def steps (path : Path) : List Name :=
  path.names.filter (· ≠ ".")

/-- The last name, unless the path has none or goes up at its end. -/
def fileName? (path : Path) : Option Name :=
  path.steps.getLast?.filter (· ≠ "..")

/-- What stands in front of the first step: a slash, a leading dot, or nothing. -/
def anchor (path : Path) : Name :=
  if path.isAbsolute then [slash]
  else if path.names.head? = some (Text.encode ".") then "."
  else []

/-- The path that leads from the anchor through the given steps. -/
def ofSteps (anchor : Name) (steps : List Name) : Path :=
  (⟨anchor⟩ : Path).join ⟨[slash].intercalate steps⟩

/-- The proper prefixes of a list, shortest first. -/
def properPrefixes {α : Type} : List α → List (List α)
  | [] => []
  | item :: rest => [] :: (properPrefixes rest).map (item :: ·)

/-- The paths above, nearest first, down to the anchor or the empty path. -/
def parents (path : Path) : List Path :=
  let above := (properPrefixes path.steps).reverse
  let anchor := path.anchor
  let shown := above.map fun steps =>
    if steps.isEmpty then ⟨anchor⟩ else ofSteps anchor steps
  if anchor = "." then shown ++ [⟨[]⟩] else shown

theorem join_of_isAbsolute {base right : Path} (h : right.isAbsolute = true) :
    base.join right = right := by
  simp [join, h]

end Path

end Bootstage
