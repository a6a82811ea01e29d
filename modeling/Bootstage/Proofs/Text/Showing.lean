import Bootstage.Proofs.Text.Decoding

/-!
# What is shown for bytes

Bytes that a text is encoded as are shown as that text, and so are such bytes at the end of others.
Other bytes are lost where they are shown: what is shown is encoded as the bytes again exactly if
they are what some text is encoded as.
-/

namespace Bootstage.Text

open String (utf8EncodeChar)

variable {lead low high : UInt8} {rest more bytes : Bytes} {due fuel fuel' : Nat} {c : Char}

/-! ### The first character -/

/-- No more bytes continue a sequence than are due, or than there are. -/
theorem continuing_le (due : Nat) (low high : UInt8) (rest : Bytes) :
    continuing due low high rest ≤ due ∧ continuing due low high rest ≤ rest.length := by
  induction rest generalizing due low high with
  | nil => simp [continuing]
  | cons byte rest ih =>
    cases due with
    | zero => simp [continuing]
    | succ due =>
      have hrest := ih due 0x80 0xBF
      rw [continuing]
      split
      · rw [List.length_cons]
        omega
      · simp

/-- The bytes do not begin with one that could continue a sequence. -/
def Fresh (bytes : Bytes) : Prop :=
  ∀ byte ∈ bytes.head?, byte.toNat < 0x80 ∨ 0xC2 ≤ byte.toNat

/-- Encoded texts are fresh. -/
theorem fresh_flatMap (chars : List Char) : Fresh (chars.flatMap utf8EncodeChar) := by
  cases chars with
  | nil => simp [Fresh]
  | cons c chars =>
    obtain ⟨lead, rest, hc⟩ := List.exists_cons_of_ne_nil (@String.utf8EncodeChar_ne_nil c)
    intro byte hbyte
    obtain rfl : lead = byte := by simpa [hc] using hbyte
    by_cases hlow : c.toNat < 0x80
    · obtain ⟨byte, hbyte, hcode⟩ := (utf8EncodeChar_eq_singleton_iff hlow).mp hc
      obtain ⟨rfl, -⟩ := List.cons.inj hbyte
      exact .inl (hcode ▸ hlow)
    · obtain ⟨⟨low, high, ha, -⟩, -⟩ :=
        sequence_and_assemble_eq_iff.mpr ⟨Nat.le_of_not_lt hlow, hc⟩
      exact .inr (le_of_announced ha)

/-- The bytes behind a leading one are in a range of those that continue a sequence. -/
theorem range_of_announced (h : announced lead = some (due, low, high)) :
    0x80 ≤ low.toNat ∧ high.toNat ≤ 0xBF := by
  unfold announced at h
  split_ifs at h <;>
    simp only [Option.some.injEq, Prod.mk.injEq] at h <;>
    obtain ⟨-, rfl, rfl⟩ := h <;> decide

/-- Fresh bytes continue no sequence. -/
theorem continuing_append (fresh : Fresh more) (due : Nat) (hlow : 0x80 ≤ low.toNat)
    (hhigh : high.toNat ≤ 0xBF) :
    continuing due low high (rest ++ more) = continuing due low high rest := by
  induction rest generalizing due low high with
  | nil =>
    cases more with
    | nil => rfl
    | cons byte more =>
      cases due with
      | zero => rfl
      | succ due =>
        have hbyte := fresh byte (by simp)
        rw [List.nil_append, continuing, continuing, if_neg]
        simp only [UInt8.le_iff_toNat_le, Bool.and_eq_true, decide_eq_true_eq]
        omega
  | cons byte rest ih =>
    cases due with
    | zero => rfl
    | succ due => rw [List.cons_append, continuing, continuing, ih due (by decide) (by decide)]

/-- What is shown first takes no more bytes than there are. -/
theorem taken_shownFirst_le (lead : UInt8) (rest : Bytes) :
    (shownFirst lead rest).2 ≤ rest.length := by
  unfold shownFirst
  split
  · exact Nat.zero_le _
  · split
    · exact Nat.zero_le _
    · exact (continuing_le ..).2

/-- What is shown first does not depend on fresh bytes farther behind. -/
theorem shownFirst_append (fresh : Fresh more) (lead : UInt8) (rest : Bytes) :
    shownFirst lead (rest ++ more) = shownFirst lead rest := by
  unfold shownFirst
  split
  · rfl
  · split
    · rfl
    · next due low high h =>
      obtain ⟨hlow, hhigh⟩ := range_of_announced h
      have hle := continuing_le due low high rest
      dsimp only
      rw [continuing_append fresh due hlow hhigh]
      split
      · next hfound => rw [List.take_append_of_le_length (by omega)]
      · rfl

/-- Of bytes that begin with an encoded character that character is shown first. -/
theorem shownFirst_of_utf8EncodeChar (h : utf8EncodeChar c = lead :: rest) (more : Bytes) :
    shownFirst lead (rest ++ more) = (c, rest.length) := by
  unfold shownFirst
  by_cases hc : c.toNat < 0x80
  · obtain ⟨byte, hbyte, hcode⟩ := (utf8EncodeChar_eq_singleton_iff hc).mp h
    obtain ⟨rfl, rfl⟩ := List.cons.inj hbyte
    have hlow : lead < 0x80 := UInt8.lt_iff_toNat_lt.mpr (hcode ▸ hc)
    rw [if_pos hlow, hcode, Char.ofNat_toNat]
    rfl
  · obtain ⟨⟨low, high, ha, hf⟩, hassemble⟩ :=
      sequence_and_assemble_eq_iff.mpr ⟨Nat.le_of_not_lt hc, h⟩
    have hfound : continuing rest.length low high (rest ++ more) = rest.length :=
      continuing_eq_iff.mpr ⟨rest, more, rfl, rfl, hf⟩
    rw [if_neg (not_lt_of_announced ha), ha]
    simp only [hfound, if_true, List.take_left, hassemble]

/-! ### All characters -/

/-- The characters that are shown for bytes. -/
def shownChars (bytes : Bytes) : List Char :=
  shownFrom bytes.length bytes

/-- With fuel for all bytes the characters do not depend on how much there is. -/
theorem shownFrom_congr (enough : bytes.length ≤ fuel) (enough' : bytes.length ≤ fuel') :
    shownFrom fuel bytes = shownFrom fuel' bytes := by
  induction fuel generalizing fuel' bytes with
  | zero =>
    obtain rfl := List.length_eq_zero_iff.mp (Nat.le_zero.mp enough)
    simp [shownFrom]
  | succ fuel ih =>
    cases bytes with
    | nil => simp [shownFrom]
    | cons lead rest =>
      obtain ⟨fuel', rfl⟩ := Nat.exists_eq_add_one_of_ne_zero (Nat.ne_zero_of_lt enough')
      rw [List.length_cons, Nat.add_le_add_iff_right] at enough enough'
      rw [shownFrom, shownFrom]
      refine congrArg _ (ih ?_ ?_) <;> rw [List.length_drop] <;> omega

/-- The characters behind the first are those of the bytes that it has not taken. -/
theorem shownChars_cons (lead : UInt8) (rest : Bytes) :
    shownChars (lead :: rest) =
      (shownFirst lead rest).1 :: shownChars (rest.drop (shownFirst lead rest).2) := by
  rw [shownChars, List.length_cons, shownFrom]
  refine congrArg _ (shownFrom_congr ?_ (Nat.le_refl _))
  rw [List.length_drop]
  omega

/-- Encoded characters are shown as they are. -/
theorem shownChars_flatMap (chars : List Char) :
    shownChars (chars.flatMap utf8EncodeChar) = chars := by
  induction chars with
  | nil => rfl
  | cons c chars ih =>
    obtain ⟨lead, rest, hc⟩ := List.exists_cons_of_ne_nil (@String.utf8EncodeChar_ne_nil c)
    rw [List.flatMap_cons, hc, List.cons_append, shownChars_cons,
      shownFirst_of_utf8EncodeChar hc, List.drop_left, ih]

/-- Fresh bytes are shown by themselves. -/
theorem shownChars_append (fresh : Fresh more) (bytes : Bytes) :
    shownChars (bytes ++ more) = shownChars bytes ++ shownChars more := by
  induction hlength : bytes.length using Nat.strongRecOn generalizing bytes with
  | ind length ih =>
    cases bytes with
    | nil => rfl
    | cons lead rest =>
      have hle := taken_shownFirst_le lead rest
      have hshorter : (rest.drop (shownFirst lead rest).2).length < length := by
        rw [List.length_drop, ← hlength, List.length_cons]
        omega
      rw [List.cons_append, shownChars_cons, shownChars_cons, shownFirst_append fresh,
        List.drop_append_of_le_length hle, ih _ hshorter _ rfl, List.cons_append]

/-- A text at the end of bytes is shown as it is. -/
theorem lossy_append_encode (bytes : Bytes) (text : String) :
    lossy (bytes ++ encode text) = lossy bytes ++ text := by
  have htext : encode text = text.toList.flatMap utf8EncodeChar := by
    rw [← encode_ofList, String.ofList_toList]
  have hlossy : ∀ bytes, (lossy bytes).toList = shownChars bytes := fun bytes =>
    String.toList_ofList
  rw [← String.toList_inj, String.toList_append, hlossy, hlossy, htext,
    shownChars_append (fresh_flatMap _), shownChars_flatMap]

/-- A text is shown as it is. -/
@[simp] theorem lossy_encode (text : String) : lossy (encode text) = text := by
  simpa [lossy, shownFrom] using lossy_append_encode [] text

end Bootstage.Text
