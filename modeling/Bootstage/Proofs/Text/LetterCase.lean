import Mathlib.Data.List.Forall2
import Bootstage.Text.Separated

/-!
# The case of letters

Two texts are equal up to case if they are written with the same characters, but for the case of the
letters of ASCII. This is so exactly if they are the same text in lower case. No other letter has a
case here: an accent or another alphabet sets two texts apart.
-/

namespace Bootstage.Text

/-- The one character is an upper-case letter of ASCII, and the other is the same letter in lower
case, which stands 32 places behind it. -/
def Lowers (upper lower : Char) : Prop :=
  'A' ≤ upper ∧ upper ≤ 'Z' ∧ lower.toNat = upper.toNat + 32

/-- Two characters are the same, or one letter in both cases. -/
def SameLetter (c d : Char) : Prop :=
  c = d ∨ Lowers c d ∨ Lowers d c

/-- Two texts have the same letters in the same places. -/
def SameLetters (text other : String) : Prop :=
  List.Forall₂ SameLetter text.toList other.toList

/-- The character is an upper-case letter of ASCII. -/
def IsCapital (c : Char) : Prop :=
  'A' ≤ c ∧ c ≤ 'Z'

instance (c : Char) : Decidable (IsCapital c) :=
  inferInstanceAs (Decidable (_ ∧ _))

theorem isCapital_iff {c : Char} : IsCapital c ↔ 65 ≤ c.toNat ∧ c.toNat ≤ 90 := by
  simp only [IsCapital, Char.le_def, UInt32.le_iff_toNat_le]
  rfl

theorem toNat_toLower (c : Char) :
    c.toLower.toNat = if 65 ≤ c.toNat ∧ c.toNat ≤ 90 then c.toNat + 32 else c.toNat := by
  have hcase : ('A'.val ≤ c.val ∧ c.val ≤ 'Z'.val) ↔ 65 ≤ c.toNat ∧ c.toNat ≤ 90 := isCapital_iff
  unfold Char.toLower
  split
  · next h =>
    have hc := hcase.mp h
    rw [if_pos hc]
    show (c.val + 32).toNat = c.toNat + 32
    rw [UInt32.toNat_add]
    apply Nat.mod_eq_of_lt
    have := hc.2
    change c.val.toNat ≤ 90 at this
    show c.val.toNat + 32 < 2 ^ 32
    omega
  · next h => rw [if_neg (mt hcase.mpr h)]

/-- Letters are the same exactly if they are one letter in lower case. -/
theorem sameLetter_iff {c d : Char} : SameLetter c d ↔ c.toLower = d.toLower := by
  have hlowers : ∀ upper lower : Char, Lowers upper lower ↔
      (65 ≤ upper.toNat ∧ upper.toNat ≤ 90) ∧ lower.toNat = upper.toNat + 32 := by
    intro upper lower
    rw [← isCapital_iff, Lowers, IsCapital, and_assoc]
  rw [SameLetter, hlowers, hlowers, ← Char.toNat_inj, ← Char.toNat_inj, toNat_toLower,
    toNat_toLower]
  split <;> split <;> omega

/-- Texts have the same letters exactly if they are one text in lower case. -/
theorem sameLetters_iff {text other : String} :
    SameLetters text other ↔ lowerCase text = lowerCase other := by
  have hletters : SameLetter = fun c d => c.toLower = d.toLower := by
    ext c d
    exact sameLetter_iff
  rw [lowerCase, lowerCase, String.ofList_inj, ← List.forall₂_eq_eq_eq, List.forall₂_map_left_iff,
    List.forall₂_map_right_iff, SameLetters, hletters]

example : SameLetters "AArch64" "aarch64" ∧ ¬ SameLetters "É" "é" := by
  rw [sameLetters_iff, sameLetters_iff]
  decide

/-! ### Texts in lower case -/

/-- Only a capital has a letter of its own in lower case. -/
theorem toLower_eq_self_iff {c : Char} : c.toLower = c ↔ ¬ IsCapital c := by
  rw [← Char.toNat_inj, toNat_toLower, isCapital_iff]
  split <;> omega

theorem not_isCapital_toLower (c : Char) : ¬ IsCapital c.toLower := by
  rw [isCapital_iff, toNat_toLower]
  split <;> omega

/-- A text is in lower case exactly if there is no capital in it. -/
theorem lowerCase_eq_self_iff {text : String} :
    lowerCase text = text ↔ ∀ c ∈ text.toList, ¬ IsCapital c := by
  rw [lowerCase, ← String.toList_inj, String.toList_ofList]
  induction text.toList with
  | nil => simp
  | cons c rest ih => simp [toLower_eq_self_iff, ih]

/-- A text in lower case stays as it is. -/
theorem lowerCase_lowerCase (text : String) : lowerCase (lowerCase text) = lowerCase text := by
  apply lowerCase_eq_self_iff.mpr
  intro c hc
  rw [lowerCase, String.toList_ofList] at hc
  obtain ⟨letter, -, rfl⟩ := List.mem_map.mp hc
  exact not_isCapital_toLower letter

/-- A text has the letters that it has in lower case. -/
theorem sameLetters_lowerCase (text : String) : SameLetters text (lowerCase text) :=
  sameLetters_iff.mpr (lowerCase_lowerCase text).symm

end Bootstage.Text
