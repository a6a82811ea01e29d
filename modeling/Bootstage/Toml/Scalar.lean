import Bootstage.Toml.Reader

/-!
# White space, texts, numbers and times in TOML

The parts of a TOML document that hold no further values. Lines end in a line feed, before which a
carriage return may stand; other control characters than the tab stand nowhere outside escapes.
-/

namespace Bootstage.Toml

open Reader

/-- A blank or a tab. -/
def isSpace (c : Char) : Bool :=
  c = ' ' || c = '\t'

/-- A character that may stand in a comment or, with its own exceptions, in a text. -/
def isPrintable (c : Char) : Bool :=
  c = '\t' || (c.toNat ≥ 0x20 && c.toNat ≠ 0x7F)

/-- Skips blanks and tabs. -/
def spaces : Reader Unit := do
  let _ ← Reader.span isSpace

/-- Whether a line ends here; its end is taken if so. -/
def lineEnd : Reader Bool := do
  if ← optionally "\n" then return true
  else optionally "\r\n"

/-- Skips a comment where one starts. -/
def comment : Reader Unit := do
  if ← optionally "#" then
    let _ ← Reader.span isPrintable

/-- Skips what may follow on the line of an entry, with the end of the line or of the text. -/
def lineRest : Reader Unit := do
  spaces
  comment
  if ← atEnd then return ()
  if ← lineEnd then return ()
  refuse

/-- Skips blanks, comments and line ends. -/
def blankLines : Reader Unit := do
  let _ ← loop do
    spaces
    comment
    return if ← lineEnd then some () else none

/-- The value of a digit in a base of at most sixteen. -/
def digit? (base : Nat) (c : Char) : Option Nat :=
  let value :=
    if '0' ≤ c && c ≤ '9' then c.toNat - '0'.toNat
    else if 'a' ≤ c && c ≤ 'f' then c.toNat - 'a'.toNat + 10
    else if 'A' ≤ c && c ≤ 'F' then c.toNat - 'A'.toNat + 10
    else 16
  if value < base then some value else none

/-- Whether a character is a digit in a base. -/
def isDigit (base : Nat) (c : Char) : Bool :=
  (digit? base c).isSome

/-- The number that digits write in a base. -/
def valueOf (base : Nat) (digits : List Char) : Nat :=
  digits.foldl (fun value c => value * base + (digit? base c).getD 0) 0

/-! ### Texts -/

/-- The character with the number that hexadecimal digits write, if it is one. -/
def scalar (digits : List Char) : Option Char :=
  let code := valueOf 16 digits
  if code < 0xD800 || (0xDFFF < code && code ≤ 0x10FFFF) then some (Char.ofNat code) else none

/-- What a backslash has been read before. -/
def escaped : Reader Char := do
  match ← next with
  | 'b' => return '\x08'
  | 't' => return '\t'
  | 'n' => return '\n'
  | 'f' => return '\x0C'
  | 'r' => return '\r'
  | '"' => return '"'
  | '\\' => return '\\'
  | 'u' => StateT.lift (scalar (← times 4 (isDigit 16)))
  | 'U' => StateT.lift (scalar (← times 8 (isDigit 16)))
  | _ => refuse

/-- The rest of a text in double quotes on one line. -/
def basicRest : Reader (List Char) :=
  loop do
    match ← next with
    | '"' => return none
    | '\\' => return some (← escaped)
    | c => if isPrintable c then return some c else refuse

/-- The rest of a text in single quotes on one line. -/
def literalRest : Reader (List Char) := do
  let content ← Reader.span fun c => isPrintable c && c ≠ '\''
  exactly "'"
  return content

/-- Takes the quotes that end a text of several lines: three of them after at most two that belong
to the text. Fewer than three end nothing. -/
def closing (quote : Char) : Reader (List Char × Bool) := do
  let quotes ← Reader.span (· = quote)
  if quotes.length < 3 then return (quotes, false)
  else if quotes.length ≤ 5 then return (quotes.drop 3, true)
  else refuse

/-- Skips the line that a backslash ends, and the blanks and lines after it. -/
def continuedLine : Reader Unit := do
  spaces
  if ← lineEnd then
    let _ ← loop do
      let blanks ← Reader.span isSpace
      let ended ← lineEnd
      return if blanks.isEmpty && !ended then none else some ()
  else refuse

/-- The pieces of a text of several lines up to its end. Each step yields a piece and whether it is
the last. -/
def pieces (step : Reader (List Char × Bool)) : (fuel : Nat) → Reader (List Char)
  | 0 => refuse
  | fuel + 1 => do
    let (piece, isLast) ← step
    if isLast then return piece
    else return piece ++ (← pieces step fuel)

/-- The rest of a text of several lines after its opening quotes. -/
def multilineRest (quote : Char) (other : Char → Reader (List Char)) : Reader (List Char) := do
  let _ ← lineEnd
  let step : Reader (List Char × Bool) := do
    if (← peek?) = some quote then closing quote
    else do
      if ← lineEnd then return (['\n'], false)
      else return (← other (← next), false)
  fun chars => pieces step (chars.length + 1) chars

/-- One character of a text of several lines in double quotes; the end of a line may be escaped. -/
def basicPiece (c : Char) : Reader (List Char) := do
  if c = '\\' then
    match ← peek? with
    | some ' ' | some '\t' | some '\n' | some '\r' => continuedLine; return []
    | _ => return [← escaped]
  else if isPrintable c then return [c]
  else refuse

/-- One character of a text of several lines in single quotes. -/
def literalPiece (c : Char) : Reader (List Char) :=
  if isPrintable c then pure [c] else refuse

/-- A text in quotes of either kind, on one line or, where allowed, on several. -/
def quoted (multiline : Bool) : Reader String :=
  let several (rest : Reader (List Char)) := if multiline then rest else refuse
  String.ofList <$> byMark refuse [
    ("\"\"\"", several (multilineRest '"' basicPiece)),
    ("'''", several (multilineRest '\'' literalPiece)),
    ("\"", basicRest),
    ("'", literalRest)]

/-! ### Numbers -/

/-- Digits of a base between which single underscores may stand. -/
def digits (base : Nat) : Reader (List Char) := do
  let first ← oneOf (isDigit base)
  let others ← loop do
    match ← peek? with
    | some c =>
      if isDigit base c then return some (← next)
      else if c = '_' then
        let _ ← next
        return some (← oneOf (isDigit base))
      else return none
    | none => return none
  return first :: others

/-- Whether a sign stands here and, if so, whether it is a minus; it is taken. -/
def sign : Reader (Option Bool) :=
  byMark (pure none) [("-", pure (some true)), ("+", pure (some false))]

/-- Decimal digits without a needless zero in front. -/
def decimalDigits : Reader (List Char) := do
  if ← optionally "0" then return ['0']
  else digits 10

/-- A whole number has 64 bits. -/
def whole (number : Int) : Reader Int :=
  if -Int.pow 2 63 ≤ number ∧ number < Int.pow 2 63 then return number else refuse

/-- A whole number in decimal digits. -/
def decimal : Reader Int := do
  let negative := (← sign) == some true
  let value : Int := valueOf 10 (← decimalDigits)
  whole (if negative then -value else value)

/-- A whole number without sign in another base. -/
def based (base : Nat) : Reader Int := do
  whole (valueOf base (← digits base))

/-- A whole number: hexadecimal, octal or binary after its mark, else decimal with a sign or not. -/
def integer : Reader Int :=
  byMark decimal [("0x", based 16), ("0o", based 8), ("0b", based 2)]

/-- Whether a number `mantissa · 10 ^ exponent` is beyond every finite number of 64 bits: it is
rounded to infinity from `2 ^ 1024 - 2 ^ 970` on. -/
def exceedsFloat (mantissa : Nat) (exponent : Int) : Bool :=
  if mantissa = 0 then false
  else
    let magnitude := exponent + (Nat.toDigits 10 mantissa).length
    if magnitude > 310 then true
    else if magnitude < 300 then false
    else
      let bound := Nat.pow 2 1024 - Nat.pow 2 970
      if exponent ≥ 0 then decide (mantissa * Nat.pow 10 exponent.toNat ≥ bound)
      else decide (mantissa ≥ bound * Nat.pow 10 (-exponent).toNat)

/-- A number with a fraction or an exponent, or one of the special ones. No positive number is
accepted that is infinite without being called so. -/
def float : Reader Unit := do
  let negative := (← sign) == some true
  if ← optionally "inf" then return ()
  if ← optionally "nan" then return ()
  let front ← decimalDigits
  let fraction ← if ← optionally "." then digits 10 else pure []
  let hasExponent ← do
    if ← optionally "e" then pure true else optionally "E"
  if fraction.isEmpty && !hasExponent then refuse
  let exponent : Int ←
    if hasExponent then do
      let down := (← sign) == some true
      let value : Int := valueOf 10 (← digits 10)
      pure (if down then -value else value)
    else pure 0
  if !negative && exceedsFloat (valueOf 10 (front ++ fraction)) (exponent - fraction.length) then
    refuse

/-! ### Times -/

/-- A number of a given count of digits within bounds. -/
def bounded (count low high : Nat) : Reader Nat := do
  let value := valueOf 10 (← times count (isDigit 10))
  if low ≤ value && value ≤ high then return value else refuse

/-- The number of days in a month. -/
def daysIn (year month : Nat) : Nat :=
  let isLeap := year % 4 = 0 && (year % 100 ≠ 0 || year % 400 = 0)
  if month = 2 then (if isLeap then 29 else 28)
  else if month = 4 || month = 6 || month = 9 || month = 11 then 30
  else 31

/-- A calendar date. -/
def date : Reader Unit := do
  let year ← bounded 4 0 9999
  exactly "-"
  let month ← bounded 2 1 12
  exactly "-"
  let _ ← bounded 2 1 (daysIn year month)

/-- A time of day; a minute may have a leap second. -/
def time : Reader Unit := do
  let _ ← bounded 2 0 23
  exactly ":"
  let _ ← bounded 2 0 59
  exactly ":"
  let _ ← bounded 2 0 60
  if ← optionally "." then
    let _ ← oneOf (isDigit 10)
    let _ ← Reader.span (isDigit 10)

/-- The offset of a time from the universal one. -/
def offset : Reader Unit := do
  if ← optionally "Z" then return ()
  if ← optionally "z" then return ()
  let _ ← oneOf fun c => c = '+' || c = '-'
  let _ ← bounded 2 0 23
  exactly ":"
  let _ ← bounded 2 0 59

/-- A date, a time, or a date and a time with or without an offset. -/
def datetime : Reader Unit :=
  (do
    date
    (do
      let _ ← oneOf fun c => c = 'T' || c = 't' || c = ' '
      time
      offset <|> pure ()) <|> pure ())
  <|> time

end Bootstage.Toml
