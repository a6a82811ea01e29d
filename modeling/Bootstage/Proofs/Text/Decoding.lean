import Bootstage.Text.Utf8
import Mathlib.Tactic.Common

/-!
# What can be decoded

Bytes are decoded to a text exactly if they are what that text is encoded as. So bytes that cannot
be decoded are those that no text is encoded as. The decoder takes a character at a time: the bytes
that a leading byte announces are the ones that an encoded character goes on with.
-/

namespace Bootstage.Text

open String (utf8EncodeChar)

variable {c : Char} {lead low high : UInt8} {following rest bytes : Bytes} {due index fuel : Nat}
  {chars : List Char}

/-- What is not the number of a character stands for the first character. -/
theorem toNat_ofNat (value : Nat) :
    (Char.ofNat value).toNat = if value.isValidChar then value else 0 := by
  by_cases h : value.isValidChar
  · rw [if_pos h, Char.ofNat, dif_pos h]
    rfl
  · rw [if_neg h, Char.ofNat, dif_neg h]
    rfl

/-- A text is encoded character by character. -/
theorem encode_ofList (chars : List Char) :
    encode (String.ofList chars) = chars.flatMap utf8EncodeChar := by
  simp [encode, String.toUTF8, String.toByteArray_ofList, List.utf8Encode]

/-! ### The bytes of one character -/

/-- Bytes that may follow a leading byte: the first of them is in the given range, and the others
are any continuation bytes. -/
inductive Following : UInt8 → UInt8 → Bytes → Prop
  /-- Nothing has to follow. -/
  | nil {low high : UInt8} : Following low high []
  /-- A byte of the range is followed by continuation bytes. -/
  | cons {low high byte : UInt8} {rest : Bytes} (above : low ≤ byte) (below : byte ≤ high)
      (others : Following 0x80 0xBF rest) : Following low high (byte :: rest)

/-- As many bytes continue a sequence as are due exactly if so many of them may follow. -/
theorem continuing_eq_iff :
    continuing due low high rest = due ↔
      ∃ following tail, rest = following ++ tail ∧ following.length = due ∧
        Following low high following := by
  induction rest generalizing due low high with
  | nil =>
    constructor
    · intro h
      exact ⟨[], [], rfl, by simpa [continuing] using h, .nil⟩
    · rintro ⟨following, tail, hrest, rfl, -⟩
      rw [(List.append_eq_nil_iff.mp hrest.symm).1]
      rfl
  | cons byte rest ih =>
    cases due with
    | zero => exact ⟨fun _ => ⟨[], byte :: rest, rfl, rfl, .nil⟩, fun _ => rfl⟩
    | succ due =>
      rw [continuing]
      split
      · next h =>
        simp only [Bool.and_eq_true, decide_eq_true_eq] at h
        rw [Nat.add_comm 1, Nat.add_right_cancel_iff, ih]
        constructor
        · rintro ⟨following, tail, rfl, rfl, hf⟩
          exact ⟨byte :: following, tail, rfl, rfl, .cons h.1 h.2 hf⟩
        · rintro ⟨following, tail, hrest, hlength, hf⟩
          cases hf with
          | nil => simp at hlength
          | cons above below others =>
            obtain ⟨rfl, rfl⟩ := List.cons.inj hrest
            exact ⟨_, tail, rfl, Nat.add_right_cancel hlength, others⟩
      · next h =>
        simp only [Bool.and_eq_true, decide_eq_true_eq] at h
        constructor
        · intro hz
          simp at hz
        · rintro ⟨following, tail, hrest, hlength, hf⟩
          cases hf with
          | nil => simp at hlength
          | cons above below others =>
            obtain ⟨rfl, rfl⟩ := List.cons.inj hrest
            exact absurd ⟨above, below⟩ h

/-- A leading byte with the bytes that it announces. -/
def Sequence (lead : UInt8) (following : Bytes) : Prop :=
  ∃ low high, announced lead = some (following.length, low, high) ∧ Following low high following

/-- What the leading bytes are and what they announce. -/
theorem announced_eq (lead : UInt8) :
    announced lead =
      if 0xC2 ≤ lead.toNat ∧ lead.toNat ≤ 0xDF then some (1, 0x80, 0xBF)
      else if 0xE0 ≤ lead.toNat ∧ lead.toNat ≤ 0xEF then
        some (2, if lead.toNat = 0xE0 then 0xA0 else 0x80, if lead.toNat = 0xED then 0x9F else 0xBF)
      else if 0xF0 ≤ lead.toNat ∧ lead.toNat ≤ 0xF4 then
        some (3, if lead.toNat = 0xF0 then 0x90 else 0x80, if lead.toNat = 0xF4 then 0x8F else 0xBF)
      else none := by
  simp only [announced, UInt8.le_iff_toNat_le, ← UInt8.toNat_inj, Bool.and_eq_true,
    decide_eq_true_eq, UInt8.reduceToNat]
  split_ifs <;> first | rfl | omega

/-- A byte that announces others stands neither for a character nor behind another byte. -/
theorem le_of_announced {announcement : Nat × UInt8 × UInt8}
    (h : announced lead = some announcement) : 0xC2 ≤ lead.toNat := by
  rw [announced_eq] at h
  split_ifs at h <;> omega

/-- A byte that announces others is not a character of its own. -/
theorem not_lt_of_announced {announcement : Nat × UInt8 × UInt8}
    (h : announced lead = some announcement) : ¬ lead < 0x80 := by
  have hlead := le_of_announced h
  simp only [UInt8.lt_iff_toNat_lt, UInt8.reduceToNat]
  omega

/-- The numbers of the bytes that encode a character with the given number. -/
def codes (value : Nat) : List Nat :=
  if value ≤ 0x7F then [value]
  else if value ≤ 0x7FF then [value / 64 + 0xC0, value % 64 + 0x80]
  else if value ≤ 0xFFFF then [value / 4096 + 0xE0, value / 64 % 64 + 0x80, value % 64 + 0x80]
  else [value / 262144 + 0xF0, value / 4096 % 64 + 0x80, value / 64 % 64 + 0x80, value % 64 + 0x80]

/-- A character is encoded as the bytes with its codes. -/
theorem utf8EncodeChar_eq_iff :
    utf8EncodeChar c = bytes ↔ codes c.toNat = bytes.map UInt8.toNat := by
  have hcodes : (utf8EncodeChar c).map UInt8.toNat = codes c.toNat := by
    have hvalid : c.val.toNat < 0xD800 ∨ (0xDFFF < c.val.toNat ∧ c.val.toNat < 0x110000) :=
      c.valid
    have hvalue : c.toNat = c.val.toNat := rfl
    unfold utf8EncodeChar codes
    simp only [hvalue]
    split_ifs <;>
      simp only [List.map_cons, List.map_nil, List.cons.injEq, UInt8.toNat_ofNat', and_true] <;>
      omega
  rw [← hcodes, List.map_inj_right fun _ _ => UInt8.toNat_inj.mp]

/-- A byte may follow if it is in the range and those behind it are continuation bytes. -/
theorem following_cons_iff {byte : UInt8} :
    Following low high (byte :: rest) ↔
      low.toNat ≤ byte.toNat ∧ byte.toNat ≤ high.toNat ∧ Following 0x80 0xBF rest := by
  constructor
  · rintro (_ | ⟨above, below, others⟩)
    exact ⟨above, below, others⟩
  · exact fun h => .cons h.1 h.2.1 h.2.2

/-- Sequences of two bytes. -/
theorem sequence_singleton_iff {a : UInt8} :
    Sequence lead [a] ↔
      0xC2 ≤ lead.toNat ∧ lead.toNat ≤ 0xDF ∧ 0x80 ≤ a.toNat ∧ a.toNat ≤ 0xBF := by
  unfold Sequence
  rw [announced_eq]
  split_ifs <;> simp [following_cons_iff, Following.nil, *] <;> omega

/-- Sequences of three bytes; two leading bytes have narrower ranges. -/
theorem sequence_pair_iff {a b : UInt8} :
    Sequence lead [a, b] ↔
      0xE0 ≤ lead.toNat ∧ lead.toNat ≤ 0xEF ∧
        (if lead.toNat = 0xE0 then 0xA0 else 0x80) ≤ a.toNat ∧
        a.toNat ≤ (if lead.toNat = 0xED then 0x9F else 0xBF) ∧
        0x80 ≤ b.toNat ∧ b.toNat ≤ 0xBF := by
  unfold Sequence
  rw [announced_eq]
  split_ifs <;> simp [following_cons_iff, Following.nil, *] <;> omega

/-- Sequences of four bytes; two leading bytes have narrower ranges. -/
theorem sequence_triple_iff {a b d : UInt8} :
    Sequence lead [a, b, d] ↔
      0xF0 ≤ lead.toNat ∧ lead.toNat ≤ 0xF4 ∧
        (if lead.toNat = 0xF0 then 0x90 else 0x80) ≤ a.toNat ∧
        a.toNat ≤ (if lead.toNat = 0xF4 then 0x8F else 0xBF) ∧
        0x80 ≤ b.toNat ∧ b.toNat ≤ 0xBF ∧ 0x80 ≤ d.toNat ∧ d.toNat ≤ 0xBF := by
  unfold Sequence
  rw [announced_eq]
  split_ifs <;> simp [following_cons_iff, Following.nil, *] <;> omega

/-- At most three bytes follow a leading byte. -/
theorem Sequence.length (h : Sequence lead following) :
    following.length = 1 ∨ following.length = 2 ∨ following.length = 3 := by
  obtain ⟨low, high, ha, -⟩ := h
  rw [announced_eq] at ha
  split_ifs at ha <;> simp at ha <;> omega

/-- A leading byte with the bytes that it announces is what the character is encoded as that they
are put together to, and all but the first 128 characters are encoded so. Each number of bytes is
that of the characters in one range. -/
theorem sequence_and_assemble_eq_iff :
    Sequence lead following ∧ assemble lead following = c ↔
      0x80 ≤ c.toNat ∧ utf8EncodeChar c = lead :: following := by
  have hvalid : c.toNat < 0xD800 ∨ (0xDFFF < c.toNat ∧ c.toNat < 0x110000) := c.valid
  rw [utf8EncodeChar_eq_iff, ← Char.toNat_inj]
  match following with
  | [] =>
    have hnot : ¬ Sequence lead [] := fun h => by simpa using h.length
    simp only [hnot, false_and, false_iff, codes]
    split_ifs <;> simp
    omega
  | [a] =>
    have hchar : assemble lead [a] = Char.ofNat (lead.toNat % 32 * 64 + a.toNat % 64) := rfl
    rw [sequence_singleton_iff, hchar, toNat_ofNat]
    unfold codes Nat.isValidChar
    split_ifs <;>
      simp only [List.map_cons, List.map_nil, List.cons.injEq, reduceCtorEq, and_false, and_true,
        iff_false] <;> omega
  | [a, b] =>
    have hchar : assemble lead [a, b] =
        Char.ofNat ((lead.toNat % 16 * 64 + a.toNat % 64) * 64 + b.toNat % 64) := rfl
    rw [sequence_pair_iff, hchar, toNat_ofNat]
    unfold codes Nat.isValidChar
    split_ifs <;>
      simp only [List.map_cons, List.map_nil, List.cons.injEq, reduceCtorEq, and_false, and_true,
        iff_false] <;> omega
  | [a, b, d] =>
    have hchar : assemble lead [a, b, d] =
        Char.ofNat (((lead.toNat % 8 * 64 + a.toNat % 64) * 64 + b.toNat % 64) * 64
          + d.toNat % 64) := rfl
    rw [sequence_triple_iff, hchar, toNat_ofNat]
    unfold codes Nat.isValidChar
    split_ifs <;>
      simp only [List.map_cons, List.map_nil, List.cons.injEq, reduceCtorEq, and_false, and_true,
        iff_false] <;> omega
  | a :: b :: d :: e :: rest =>
    have hnot : ¬ Sequence lead (a :: b :: d :: e :: rest) := fun h => by simpa using h.length
    simp only [hnot, false_and, false_iff, codes]
    split_ifs <;> simp

/-! ### The bytes of a text -/

/-- The first 128 characters are encoded as one byte. -/
theorem utf8EncodeChar_eq_singleton_iff (h : c.toNat < 0x80) :
    utf8EncodeChar c = bytes ↔ ∃ lead, bytes = [lead] ∧ lead.toNat = c.toNat := by
  rw [utf8EncodeChar_eq_iff, codes, if_pos (Nat.le_of_lt_succ h), eq_comm,
    List.map_eq_singleton_iff]

/-- Of bytes that begin with an encoded character that character is decoded first. -/
theorem decodeFrom_append (c : Char) (index fuel : Nat) (rest : Bytes) :
    decodeFrom index (fuel + 1) (utf8EncodeChar c ++ rest) =
      (c :: ·) <$> decodeFrom (index + (utf8EncodeChar c).length) fuel rest := by
  by_cases h : c.toNat < 0x80
  · obtain ⟨lead, hc, hlead⟩ := (utf8EncodeChar_eq_singleton_iff h).mp rfl
    have hlow : lead < 0x80 := UInt8.lt_iff_toNat_lt.mpr (hlead ▸ h)
    have hchar : Char.ofNat lead.toNat = c := by rw [hlead, Char.ofNat_toNat]
    rw [hc, List.singleton_append, decodeFrom, if_pos hlow, hchar, List.length_singleton]
  · obtain ⟨lead, following, hc⟩ :=
      List.exists_cons_of_ne_nil (@String.utf8EncodeChar_ne_nil c)
    obtain ⟨⟨low, high, ha, hf⟩, hassemble⟩ :=
      sequence_and_assemble_eq_iff.mpr ⟨Nat.le_of_not_lt h, hc⟩
    have hfound : continuing following.length low high (following ++ rest) = following.length :=
      continuing_eq_iff.mpr ⟨following, rest, rfl, rfl, hf⟩
    rw [hc, List.cons_append, decodeFrom, if_neg (not_lt_of_announced ha), ha]
    simp only [hfound, if_true, List.take_left, List.drop_left, hassemble, List.length_cons]
    rw [Nat.add_assoc, Nat.add_comm 1]

/-- Bytes that are decoded begin with an encoded character. -/
theorem exists_append_of_decodeFrom_eq_ok
    (h : decodeFrom index (fuel + 1) (lead :: rest) = .ok chars) :
    ∃ c tail, lead :: rest = utf8EncodeChar c ++ tail := by
  rw [decodeFrom] at h
  split at h
  · next hlow =>
    have hcode : lead.toNat < 0x80 := UInt8.lt_iff_toNat_lt.mp hlow
    have hvalue : (Char.ofNat lead.toNat).toNat = lead.toNat := by
      rw [toNat_ofNat, if_pos (.inl (by omega))]
    refine ⟨Char.ofNat lead.toNat, rest, ?_⟩
    rw [(utf8EncodeChar_eq_singleton_iff (by omega)).mpr ⟨lead, rfl, hvalue.symm⟩]
    rfl
  · split at h
    · exact absurd h (by simp)
    · next due low high ha =>
      dsimp only at h
      split at h
      · next hfound =>
        obtain ⟨following, tail, rfl, rfl, hf⟩ := continuing_eq_iff.mp hfound
        have hc := (sequence_and_assemble_eq_iff.mp ⟨⟨low, high, ha, hf⟩, rfl⟩).2
        exact ⟨assemble lead following, tail, by rw [hc, List.cons_append]⟩
      · split at h <;> simp at h

/-- Of bytes that begin with an encoded character the others are decoded on their own. -/
theorem decodeFrom_append_eq_ok_iff :
    decodeFrom index (fuel + 1) (utf8EncodeChar c ++ rest) = .ok chars ↔
      ∃ others, decodeFrom (index + (utf8EncodeChar c).length) fuel rest = .ok others ∧
        c :: others = chars := by
  rw [decodeFrom_append]
  cases decodeFrom (index + (utf8EncodeChar c).length) fuel rest with
  | error fault => simp
  | ok others => simp

/-- With enough fuel the characters that are decoded are those that are encoded as the bytes. -/
theorem decodeFrom_eq_ok_iff (enough : bytes.length ≤ fuel) :
    decodeFrom index fuel bytes = .ok chars ↔ bytes = chars.flatMap utf8EncodeChar := by
  have hpos : ∀ c, 0 < (utf8EncodeChar c).length := fun c =>
    List.length_pos_iff.mpr String.utf8EncodeChar_ne_nil
  have hnil : ∀ chars, [] = chars.flatMap utf8EncodeChar ↔ chars = [] := by
    intro chars
    cases chars with
    | nil => simp
    | cons c chars => simp [String.utf8EncodeChar_ne_nil]
  induction fuel generalizing index bytes chars with
  | zero =>
    obtain rfl := List.length_eq_zero_iff.mp (Nat.le_zero.mp enough)
    rw [hnil, decodeFrom, Except.ok.injEq, eq_comm]
  | succ fuel ih =>
    cases bytes with
    | nil => rw [hnil, decodeFrom, Except.ok.injEq, eq_comm]
    | cons lead rest =>
      constructor
      · intro h
        obtain ⟨c, tail, hbytes⟩ := exists_append_of_decodeFrom_eq_ok h
        have hlength := congrArg List.length hbytes
        rw [List.length_append] at hlength
        rw [hbytes] at h ⊢
        obtain ⟨others, hothers, rfl⟩ := decodeFrom_append_eq_ok_iff.mp h
        have htail := (ih (by have := hpos c; omega)).mp hothers
        rw [List.flatMap_cons, htail]
      · intro hbytes
        cases chars with
        | nil => simp at hbytes
        | cons c chars =>
          rw [List.flatMap_cons] at hbytes
          have hlength := congrArg List.length hbytes
          rw [List.length_append] at hlength
          rw [hbytes, decodeFrom_append_eq_ok_iff]
          exact ⟨chars, (ih (by have := hpos c; omega)).mpr rfl, rfl⟩

/-- Bytes are decoded to a text exactly if the text is encoded as them. -/
theorem decode_eq_ok_iff {text : String} : decode bytes = .ok text ↔ bytes = encode text := by
  have hchars : decodeFrom 0 bytes.length bytes = .ok text.toList ↔
      bytes = text.toList.flatMap utf8EncodeChar :=
    decodeFrom_eq_ok_iff (Nat.le_refl bytes.length)
  have hmap : decode bytes = .ok text ↔ decodeFrom 0 bytes.length bytes = .ok text.toList := by
    rw [decode]
    cases decodeFrom 0 bytes.length bytes with
    | error fault => simp
    | ok chars => simp [String.ext_iff]
  rw [hmap, hchars, ← encode_ofList, String.ofList_toList]

/-- Bytes that cannot be decoded are those that no text is encoded as. -/
theorem exists_decode_eq_error_iff :
    (∃ fault, decode bytes = .error fault) ↔ ∀ text, bytes ≠ encode text := by
  simp only [ne_eq, ← decode_eq_ok_iff]
  cases decode bytes with
  | error fault => simp
  | ok text => simp

end Bootstage.Text
