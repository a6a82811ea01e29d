/-!
# Readers

A reader takes characters off the front of a text and yields what they mean, or refuses. Loops are
bounded by the number of characters that are left, since each turn of a loop takes one at least.
-/

namespace Bootstage.Toml

/-- Takes characters off the front of a text, or refuses. -/
abbrev Reader := StateT (List Char) Option

namespace Reader

/-- Refuses. -/
def refuse {α : Type} : Reader α :=
  fun _ => none

/-- The next character, which stays. -/
def peek? : Reader (Option Char) :=
  fun chars => some (chars.head?, chars)

/-- The next character. -/
def next : Reader Char
  | [] => none
  | c :: rest => some (c, rest)

/-- The next character when it meets a test. -/
def oneOf (accepts : Char → Bool) : Reader Char
  | [] => none
  | c :: rest => if accepts c then some (c, rest) else none

/-- The next characters when they are the given ones. -/
def exactly (expected : String) : Reader Unit := fun chars =>
  let wanted := expected.toList
  if wanted.isPrefixOf chars then some ((), chars.drop wanted.length) else none

/-- Whether the next characters are the given ones; they are taken if so. -/
def optionally (expected : String) : Reader Bool := fun chars =>
  let wanted := expected.toList
  if wanted.isPrefixOf chars then some (true, chars.drop wanted.length) else some (false, chars)

/-- Takes the first of the marks that stands here and goes on with its reader. Where none of them
stands the other reader goes on. -/
def byMark {α : Type} (other : Reader α) : List (String × Reader α) → Reader α
  | [] => other
  | (mark, reader) :: rest => do
    if ← optionally mark then reader else byMark other rest

/-- The characters up to the first that fails a test. -/
def span (accepts : Char → Bool) : Reader (List Char) := fun chars =>
  some (chars.takeWhile accepts, chars.dropWhile accepts)

/-- A given number of characters that meet a test. -/
def times (count : Nat) (accepts : Char → Bool) : Reader (List Char) := fun chars =>
  let taken := chars.take count
  if taken.length = count && taken.all accepts then some (taken, chars.drop count) else none

/-- Whether no characters are left. -/
def atEnd : Reader Bool :=
  fun chars => some (chars.isEmpty, chars)

/-- Repeats a step until it yields nothing; the fuel bounds the number of turns. -/
def untilDone {α : Type} (step : Reader (Option α)) : (fuel : Nat) → Reader (List α)
  | 0 => refuse
  | fuel + 1 => do
    match ← step with
    | none => return []
    | some item => return item :: (← untilDone step fuel)

/-- Repeats a step until it yields nothing. -/
def loop {α : Type} (step : Reader (Option α)) : Reader (List α) := fun chars =>
  untilDone step (chars.length + 1) chars

/-- The value of a reader on the whole of a text. -/
def run? {α : Type} (reader : Reader α) (text : String) : Option α := do
  let (value, rest) ← reader text.toList
  guard rest.isEmpty
  return value

end Reader

end Bootstage.Toml
