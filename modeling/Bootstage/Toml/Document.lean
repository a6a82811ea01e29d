import Bootstage.Toml.Scalar
import Bootstage.Toml.Value

/-!
# TOML documents

A document is a sequence of lines, each of them empty, a key with its value, or the header of a
table. The entries that follow a header belong to its table, which joins the document when the next
header or the end of the text is reached.
-/

namespace Bootstage.Toml

open Reader

/-- Brackets, braces and dotted keys are nested less deeply than this. -/
def nestingLimit : Nat := 80

/-- A character that a key without quotes may hold. -/
def isBare (c : Char) : Bool :=
  ('A' ≤ c && c ≤ 'Z') || ('a' ≤ c && c ≤ 'z') || ('0' ≤ c && c ≤ '9') || c = '_' || c = '-'

/-- One part of a key. -/
def simpleKey : Reader String := do
  match ← peek? with
  | some '"' => quoted false
  | some '\'' => quoted false
  | _ =>
    let first ← oneOf isBare
    return String.ofList (first :: (← span isBare))

/-- The parts of a key between its dots, with the blanks around each. -/
def dottedKey : Reader (List String) := do
  let part : Reader String := do
    spaces
    let key ← simpleKey
    spaces
    return key
  let first ← part
  let others ← loop do
    if ← optionally "." then return some (← part)
    else return none
  guard (others.length + 1 < nestingLimit)
  return first :: others

/-- A value without values in it. -/
def plainValue : Reader Value := do
  match ← peek? with
  | some '"' => return .string (← quoted true)
  | some '\'' => return .string (← quoted true)
  | some 't' => exactly "true"; return .boolean true
  | some 'f' => exactly "false"; return .boolean false
  | _ => (do datetime; return .datetime) <|> (do float; return .float) <|> Value.integer <$> integer

/-- Values between brackets, over any number of lines; a comma may follow the last one. -/
def arrayOf (item : Reader Value) : Reader Value := do
  exactly "["
  let items ← loop do
    blankLines
    if (← peek?) = some ']' then return none
    let value ← item
    blankLines
    let more ← optionally ","
    if !more && (← peek?) ≠ some ']' then refuse
    return some value
  exactly "]"
  return .array items

/-- A key with its value, on the line of the key. -/
def entryOf (item : Reader Value) : Reader (List String × Value) := do
  let keys ← dottedKey
  exactly "="
  spaces
  return (keys, ← item)

/-- Adds a value under the parts of a key. -/
def addEntry (entries : Entries) (entry : List String × Value) : Option Entries := do
  let key ← entry.1.getLast?
  entries.insert entry.1.dropLast key entry.2

/-- Keys with their values between braces, on one line. -/
def inlineOf (item : Reader Value) : Reader Value := do
  let entry : Reader (List String × Value) := do
    let entry ← entryOf item
    spaces
    return entry
  exactly "\x7b"
  spaces
  if ← optionally "\x7d" then return .table .inline []
  let first ← entry
  let others ← loop do
    if ← optionally "," then return some (← entry)
    else return none
  exactly "\x7d"
  return .table .inline (← StateT.lift ((first :: others).foldlM addEntry []))

/-- A value in which brackets and braces are nested to the given depth at most. -/
def valueWithin : (depth : Nat) → Reader Value
  | 0 => plainValue
  | depth + 1 => do
    match ← peek? with
    | some '[' => arrayOf (valueWithin depth)
    | some '{' => inlineOf (valueWithin depth)
    | _ => plainValue

/-- A document while it is read. -/
structure Draft where
  /-- The tables that are complete. -/
  root : Entries := []
  /-- The header above the current entries; none before the first header. -/
  path : List String := []
  /-- Whether the header stands in double brackets. -/
  isSection : Bool := false
  /-- The entries read under the header. -/
  current : Entries := []

namespace Draft

/-- The value that a path of keys leads to, by way of the last table of double brackets. -/
def lookup? : (path : List String) → (key : String) → Entries → Option Value
  | [], key, entries => entries.lookup key
  | step :: path, key, entries =>
    match entries.lookup step with
    | some (.table _ inner) => lookup? path key inner
    | some (.sections tables) =>
      match tables.getLast? with
      | some (.table _ inner) => lookup? path key inner
      | _ => none
    | _ => none

/-- The document with the current table in its place. -/
def finish (draft : Draft) : Option Entries :=
  match draft.path.getLast? with
  | none => some draft.current
  | some key =>
    draft.root.changeAt false (fun _ entries =>
      match entries.lookup key, draft.isSection with
      | none, false => some (entries.set key (.table .header draft.current))
      | some (.table .implied _), false => some (entries.set key (.table .header draft.current))
      | none, true => some (entries.set key (.sections [.table .header draft.current]))
      | some (.sections tables), true =>
        some (entries.set key (.sections (tables ++ [.table .header draft.current])))
      | _, _ => none) draft.path.dropLast .header

/-- Opens the table of a header. A table has one header at most; one that so far was only passed
keeps its entries. -/
def openTable (draft : Draft) (path : List String) : Option Draft := do
  let root ← draft.finish
  let key ← path.getLast?
  let root ← root.changeAt false (fun _ entries =>
    match entries.lookup key with
    | none => some entries
    | some (.table .implied _) => some entries
    | _ => none) path.dropLast .header
  let current := match lookup? path.dropLast key root with
    | some (.table _ entries) => entries
    | _ => []
  return { root, path, isSection := false, current }

/-- Opens one more table of a header in double brackets. -/
def openSection (draft : Draft) (path : List String) : Option Draft := do
  let root ← draft.finish
  let key ← path.getLast?
  let root ← root.changeAt false (fun _ entries =>
    match entries.lookup key with
    | none => some (entries.set key (.sections []))
    | some (.sections _) => some entries
    | _ => none) path.dropLast .header
  return { root, path, isSection := true, current := [] }

/-- Adds a key with its value to the current table. -/
def add (draft : Draft) (entry : List String × Value) : Option Draft := do
  return { draft with current := ← addEntry draft.current entry }

end Draft

/-- The header of a table, after its opening. -/
def header (closing : String) (opens : List String → Option Draft) : Reader Draft := do
  let path ← dottedKey
  exactly closing
  StateT.lift (opens path)

/-- One line of a document that is not empty. -/
def line (draft : Draft) : Reader Draft := do
  let entry : Reader Draft := do
    StateT.lift (draft.add (← entryOf (valueWithin (nestingLimit - 1))))
  let grown ← byMark entry [
    ("[[", header "]]" draft.openSection),
    ("[", header "]" draft.openTable)]
  lineRest
  return grown

/-- The lines of a document; the fuel bounds their number. -/
def lines : (fuel : Nat) → Draft → Reader Draft
  | 0, _ => refuse
  | fuel + 1, draft => do
    blankLines
    if ← atEnd then return draft
    else lines fuel (← line draft)

/-- The entries of the document that a text writes, if it writes one. -/
def parse? (text : String) : Option Entries := do
  let draft ← run? (do
    let _ ← optionally "\ufeff"
    lines (text.length + 1) {}) text
  draft.finish

end Bootstage.Toml
