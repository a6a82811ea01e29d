/-!
# UTF-8

Bytes are decoded to characters one at a time. The first byte sequence that encodes no character
is reported with its index and, unless the bytes end inside it, with its length. Where bytes only
have to be shown, the replacement character stands for each such sequence.
-/

namespace Bootstage.Text

/-- A sequence of bytes, as a file holds it or a program prints it. -/
abbrev Bytes := List UInt8

/-- Where and how bytes fail to be UTF-8. -/
structure Utf8Fault where
  /-- The number of bytes before the fault. -/
  index : Nat
  /-- The length of the faulty sequence; absent when the bytes end inside it. -/
  length? : Option Nat
  deriving DecidableEq, Repr

namespace Utf8Fault

/-- The fault in words. -/
def message (fault : Utf8Fault) : String :=
  match fault.length? with
  | some length => s!"invalid utf-8 sequence of {length} bytes from index {fault.index}"
  | none => s!"incomplete utf-8 byte sequence from index {fault.index}"

end Utf8Fault

/-- The bytes that encode a text. -/
def encode (text : String) : Bytes :=
  text.toUTF8.data.toList

/-- Where bytes are wanted a text stands for those that encode it. -/
instance : Coe String Bytes where
  coe := encode

/-- What a leading byte announces: how many bytes follow it, and the range of the first of them. -/
def announced (lead : UInt8) : Option (Nat × UInt8 × UInt8) :=
  if 0xC2 ≤ lead && lead ≤ 0xDF then some (1, 0x80, 0xBF)
  else if lead = 0xE0 then some (2, 0xA0, 0xBF)
  else if 0xE1 ≤ lead && lead ≤ 0xEC then some (2, 0x80, 0xBF)
  else if lead = 0xED then some (2, 0x80, 0x9F)
  else if 0xEE ≤ lead && lead ≤ 0xEF then some (2, 0x80, 0xBF)
  else if lead = 0xF0 then some (3, 0x90, 0xBF)
  else if 0xF1 ≤ lead && lead ≤ 0xF3 then some (3, 0x80, 0xBF)
  else if lead = 0xF4 then some (3, 0x80, 0x8F)
  else none

/-- The value of the low six bits of a continuation byte. -/
def continuationBits (byte : UInt8) : Nat :=
  byte.toNat % 64

/-- The character of a leading byte and its continuation bytes. -/
def assemble (lead : UInt8) (following : Bytes) : Char :=
  let high := match following.length with
    | 1 => lead.toNat % 32
    | 2 => lead.toNat % 16
    | _ => lead.toNat % 8
  Char.ofNat (following.foldl (fun value byte => value * 64 + continuationBits byte) high)

/-- The number of leading bytes that can continue a sequence whose second byte has the given
range, out of the number of bytes still due. -/
def continuing (due : Nat) (low high : UInt8) : Bytes → Nat
  | [] => 0
  | byte :: rest =>
    match due with
    | 0 => 0
    | due + 1 => if low ≤ byte && byte ≤ high then 1 + continuing due 0x80 0xBF rest else 0

/-- Decodes from the byte at the given index on; the fuel bounds the number of characters. -/
def decodeFrom (index : Nat) : (fuel : Nat) → Bytes → Except Utf8Fault (List Char)
  | _, [] => .ok []
  | 0, _ :: _ => .ok []
  | fuel + 1, lead :: rest =>
    if lead < 0x80 then
      (Char.ofNat lead.toNat :: ·) <$> decodeFrom (index + 1) fuel rest
    else
      match announced lead with
      | none => .error ⟨index, some 1⟩
      | some (due, low, high) =>
        let found := continuing due low high rest
        if found = due then
          (assemble lead (rest.take due) :: ·) <$> decodeFrom (index + 1 + due) fuel (rest.drop due)
        else if found = rest.length then .error ⟨index, none⟩
        else .error ⟨index, some (1 + found)⟩

/-- The text that the bytes encode, or their first fault. -/
def decode (bytes : Bytes) : Except Utf8Fault String :=
  String.ofList <$> decodeFrom 0 bytes.length bytes

/-- What is shown for bytes that encode no character. -/
def replacement : Char := '\uFFFD'

/-- The character that is shown for a leading byte, and how many bytes it takes behind that one:
those that can continue its sequence. -/
def shownFirst (lead : UInt8) (rest : Bytes) : Char × Nat :=
  if lead < 0x80 then (Char.ofNat lead.toNat, 0)
  else
    match announced lead with
    | none => (replacement, 0)
    | some (due, low, high) =>
      let found := continuing due low high rest
      (if found = due then assemble lead (rest.take due) else replacement, found)

/-- The characters that are shown for bytes; the fuel bounds their number. -/
def shownFrom : (fuel : Nat) → Bytes → List Char
  | _, [] => []
  | 0, _ :: _ => []
  | fuel + 1, lead :: rest =>
    let (first, taken) := shownFirst lead rest
    first :: shownFrom fuel (rest.drop taken)

/-- The text that is shown for bytes. -/
def lossy (bytes : Bytes) : String :=
  String.ofList (shownFrom bytes.length bytes)

/-- No two texts are encoded alike. -/
@[simp] theorem encode_inj {text other : String} : encode text = encode other ↔ text = other := by
  simp [encode, ← String.toByteArray_inj, ByteArray.ext_iff, ← Array.toList_inj]

@[simp] theorem encode_empty : encode "" = [] := rfl

@[simp] theorem encode_eq_nil_iff {text : String} : encode text = [] ↔ text = "" := by
  rw [← encode_empty, encode_inj]

/-- A text is encoded piece by piece. -/
theorem encode_append (text other : String) :
    encode (text ++ other) = encode text ++ encode other := by
  simp [encode]

end Bootstage.Text
