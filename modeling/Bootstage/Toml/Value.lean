/-!
# TOML values

The values of a TOML document and the rules under which a table grows while the document is read:
which tables may be extended by a dotted key or passed by a header, and that no key is given twice.
-/

namespace Bootstage.Toml

/-- How a table came to be, which decides what may still be added to it. -/
inductive Origin
  /-- Written out in braces: complete as it stands. -/
  | inline
  /-- Opened by a header of its own. -/
  | header
  /-- Passed on the way to the table of a header. -/
  | implied
  /-- Passed on the way of a dotted key. -/
  | dotted
  deriving DecidableEq, Repr

/-- A value of a document. Numbers that are not whole and points in time are kept as marks only. -/
inductive Value
  /-- A text. -/
  | string (text : String)
  /-- A whole number of 64 bits. -/
  | integer (number : Int)
  /-- Any other number. -/
  | float
  /-- A truth value. -/
  | boolean (truth : Bool)
  /-- A date, a time, or both. -/
  | datetime
  /-- The values between brackets. -/
  | array (items : List Value)
  /-- The tables opened by headers in double brackets. -/
  | sections (tables : List Value)
  /-- Keys with their values. -/
  | table (origin : Origin) (entries : List (String × Value))
  deriving Inhabited

/-- The keys of a table with their values, each key once. -/
abbrev Entries := List (String × Value)

namespace Entries

/-- The entries with a key set, in place where the key is there already. -/
def set (key : String) (value : Value) : Entries → Entries
  | [] => [(key, value)]
  | (found, old) :: rest =>
    if found = key then (key, value) :: rest else (found, old) :: set key value rest

/-- Changes the table that a path of keys leads to. Missing tables are made on the way, by a header
or by a dotted key; a dotted key extends no table that a header or braces gave, and nothing extends
a table in braces. In the tables of double brackets the last one is meant. -/
def changeAt (isDotted : Bool) (change : Origin → Entries → Option Entries) :
    (path : List String) → Origin → Entries → Option Entries
  | [], origin, entries => change origin entries
  | key :: path, _, entries =>
    match entries.lookup key with
    | none => do
      let origin := if isDotted then Origin.dotted else Origin.implied
      let inner ← changeAt isDotted change path origin []
      return set key (.table origin inner) entries
    | some (.table origin inner) => do
      guard (origin ≠ .inline ∧ ¬(isDotted = true ∧ origin = .header))
      let inner ← changeAt isDotted change path origin inner
      return set key (.table origin inner) entries
    | some (.sections tables) => do
      let .table origin inner ← tables.getLast? | none
      let inner ← changeAt isDotted change path origin inner
      return set key (.sections (tables.dropLast ++ [.table origin inner])) entries
    | some _ => none

/-- Adds a value under a dotted key to the entries of a table. -/
def insert (path : List String) (key : String) (value : Value) (entries : Entries) :
    Option Entries :=
  changeAt true (fun origin found => do
    guard (path = [] ∨ origin = .dotted)
    guard (found.lookup key).isNone
    return set key value found) path .header entries

end Entries

end Bootstage.Toml
