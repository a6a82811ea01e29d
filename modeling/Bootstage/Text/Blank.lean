/-!
# Blank characters

The characters with the Unicode property `White_Space`. A text is blank when it has no others.
-/

namespace Bootstage.Text

/-- Whether a character has the property `White_Space`. -/
def isBlankChar (c : Char) : Bool :=
  let code := c.toNat
  (0x09 ≤ code && code ≤ 0x0D) || code = 0x20 || code = 0x85 || code = 0xA0 || code = 0x1680
    || (0x2000 ≤ code && code ≤ 0x200A) || code = 0x2028 || code = 0x2029 || code = 0x202F
    || code = 0x205F || code = 0x3000

/-- Whether a text holds nothing but white space. -/
def isBlank (text : String) : Bool :=
  text.toList.all isBlankChar

/-- A text is blank exactly when it holds no character outside the class. -/
theorem isBlank_eq_false_iff (text : String) :
    isBlank text = false ↔ ∃ c ∈ text.toList, isBlankChar c = false := by
  simp [isBlank]

end Bootstage.Text
