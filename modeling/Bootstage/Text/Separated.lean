/-!
# Separated texts

A text is read as the pieces between the occurrences of one separator. A text is also searched for
another one, and brought to lower case.
-/

namespace Bootstage.Text

/-- The pieces of a text between the occurrences of the separator. -/
def split (separator : Char) (text : String) : List String :=
  (text.toList.splitOn separator).map String.ofList

/-- Whether one list of characters occurs inside another as a run. -/
def occurs (needle : List Char) : List Char → Bool
  | [] => needle.isEmpty
  | c :: rest => needle.isPrefixOf (c :: rest) || occurs needle rest

/-- Whether the first text occurs inside the second. -/
def contains (needle text : String) : Bool :=
  occurs needle.toList text.toList

/-- A text in lower case; only the ASCII letters change. -/
def lowerCase (text : String) : String :=
  String.ofList (text.toList.map Char.toLower)

theorem split_ne_nil (separator : Char) (text : String) : split separator text ≠ [] := by
  simp [split]

end Bootstage.Text
