import Mathlib.Data.List.Basic
import Bootstage.Proofs.Path.Names
import Bootstage.Proofs.Text.Showing

/-!
# What is shown for a path

A path that is a text is shown as that text and can be told from it. For any other path a text is
shown that is another path. A relative text behind a path changes neither: what is shown ends in it,
and the longer path is a text exactly if the shorter one is.
-/

namespace Bootstage

namespace Path

variable {path other base : Path} {text : String}

/-- A text is shown as it is. -/
@[simp] theorem shown_mk (text : String) : (⟨text⟩ : Path).shown = text :=
  Text.lossy_encode text

/-- The path is what is shown for it. -/
def IsText (path : Path) : Prop :=
  (⟨path.shown⟩ : Path) = path

instance : DecidablePred IsText := fun _ =>
  inferInstanceAs (Decidable (_ = _))

/-- A path is what is shown for it exactly if its bytes are those of the shown text. -/
theorem isText_iff_bytes : path.IsText ↔ Text.encode path.shown = path.bytes := by
  cases path
  rw [IsText, mk.injEq]

/-- The paths that are texts are those that some text is encoded as. -/
theorem isText_iff : path.IsText ↔ ∃ text : String, path = ⟨text⟩ := by
  refine ⟨fun h => ⟨_, h.symm⟩, ?_⟩
  rintro ⟨text, rfl⟩
  rw [IsText, shown_mk]

/-- Every text is a path that is a text. -/
@[simp] theorem isText_mk (text : String) : (⟨text⟩ : Path).IsText :=
  isText_iff.mpr ⟨text, rfl⟩

/-- Paths that are texts are told apart by what is shown for them. -/
theorem IsText.shown_inj (h : path.IsText) (h' : other.IsText) :
    path.shown = other.shown ↔ path = other := by
  refine ⟨fun he => ?_, congrArg _⟩
  rw [← h, ← h', he]

/-- A relative text stands at the end of a joined path, behind a slash or behind nothing. -/
theorem exists_bytes_join_text (h : (⟨text⟩ : Path).isAbsolute = false) (base : Path) :
    ∃ between : String, (between = "" ∨ between = "/") ∧
      (base.join ⟨text⟩).bytes = base.bytes ++ Text.encode (between ++ text) := by
  simp only [join, h, Bool.false_eq_true, if_false]
  split
  · exact ⟨"", .inl rfl, by rw [String.empty_append]⟩
  · refine ⟨"/", .inr rfl, ?_⟩
    rw [Text.encode_append]
    rfl

/-- It also stands at the end of what is shown for such a path. -/
theorem exists_shown_join_text (h : (⟨text⟩ : Path).isAbsolute = false) (base : Path) :
    ∃ between : String, (between = "" ∨ between = "/") ∧
      (base.join ⟨text⟩).shown = base.shown ++ (between ++ text) := by
  obtain ⟨between, hbetween, hbytes⟩ := exists_bytes_join_text h base
  exact ⟨between, hbetween, by rw [shown, hbytes, Text.lossy_append_encode]; rfl⟩

/-- With a relative text behind it a path is a text exactly if it is one without. -/
theorem isText_join_iff (h : (⟨text⟩ : Path).isAbsolute = false) :
    (base.join ⟨text⟩).IsText ↔ base.IsText := by
  obtain ⟨between, -, hbytes⟩ := exists_bytes_join_text h base
  rw [isText_iff_bytes, isText_iff_bytes, shown, shown, hbytes, Text.lossy_append_encode,
    Text.encode_append, List.append_left_inj]

/-- A text behind a path that is a text makes no other path of it. -/
theorem IsText.join_text (h : base.IsText) (text : String) : (base.join ⟨text⟩).IsText := by
  cases hright : (⟨text⟩ : Path).isAbsolute with
  | true =>
    rw [join_of_isAbsolute hright]
    exact isText_mk text
  | false => exact (isText_join_iff hright).mpr h

/-- The path is a text without commas. -/
def Legible (path : Path) : Prop :=
  path.IsText ∧ ',' ∉ path.shown.toList

instance : DecidablePred Legible := fun _ =>
  inferInstanceAs (Decidable (_ ∧ _))

/-- A text is legible exactly if it has no comma. -/
@[simp] theorem legible_mk (text : String) : (⟨text⟩ : Path).Legible ↔ ',' ∉ text.toList := by
  simp [Legible]

namespace IsName

variable {name : Name}

/-- A legible name brings no comma to what is shown for a path, and ends in none. -/
theorem comma_mem_shown_div_iff (h : IsName name) (legible : (⟨name⟩ : Path).Legible)
    (base : Path) :
    (',' ∈ (base / (⟨name⟩ : Path)).shown.toList ↔ ',' ∈ base.shown.toList) ∧
      (base / (⟨name⟩ : Path)).shown.toList.getLast? ≠ some ',' := by
  obtain ⟨text, rfl⟩ : ∃ text : String, name = text := by simpa using isText_iff.mp legible.1
  have hcomma := (legible_mk text).mp legible
  obtain ⟨between, hbetween, hshown⟩ := exists_shown_join_text h.isAbsolute base
  have hdiv : (base / (⟨text⟩ : Path)).shown = base.shown ++ (between ++ text) := hshown
  have hbetweenComma : ',' ∉ between.toList := by
    rcases hbetween with rfl | rfl <;> decide
  have hne : text.toList ≠ [] := fun he =>
    h.ne_empty (Text.encode_eq_nil_iff.mpr (String.toList_eq_nil_iff.mp he))
  rw [hdiv, String.toList_append, String.toList_append]
  constructor
  · simp [hbetweenComma, hcomma]
  · rw [← List.append_assoc, List.getLast?_append_of_ne_nil _ hne]
    exact fun hl => hcomma (List.mem_of_getLast? hl)

/-- A path with a legible name behind it is a text exactly if it is one without. -/
theorem isText_div_iff (h : IsName name) (legible : (⟨name⟩ : Path).Legible) (base : Path) :
    (base / (⟨name⟩ : Path)).IsText ↔ base.IsText := by
  obtain ⟨text, rfl⟩ : ∃ text : String, name = text := by simpa using isText_iff.mp legible.1
  exact isText_join_iff h.isAbsolute

end IsName

end Path

end Bootstage
