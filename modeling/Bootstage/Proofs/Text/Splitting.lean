import Bootstage.Text.Separated

/-!
# Reading separated texts back

Pieces that are put together around a separator are read back exactly if the separator is in none of
them and there is a piece at all. This holds of lists of any items, and so of texts.
-/

namespace Bootstage.Text

/-! ### Pieces of a list -/

section

variable {α : Type} {item separator : α} {items piece : List α} {part pieces : List (List α)}

/-- Leaving out pieces leaves out items. -/
theorem intercalate_sublist (h : part.Sublist pieces) (glue : List α) :
    (glue.intercalate part).Sublist (glue.intercalate pieces) := by
  induction h with
  | slnil => exact .slnil
  | @cons part pieces piece h ih =>
    by_cases hn : pieces = []
    · subst hn
      simp [List.sublist_nil.mp h]
    · rw [List.intercalate_cons_of_ne_nil hn]
      exact ih.trans (List.sublist_append_right ..)
  | @cons_cons part pieces piece h ih =>
    by_cases hp : part = []
    · subst hp
      by_cases hn : pieces = []
      · simp [hn]
      · rw [List.intercalate_cons_of_ne_nil hn, List.intercalate_singleton, List.append_assoc]
        exact List.sublist_append_left ..
    · have hn : pieces ≠ [] := by
        rintro rfl
        exact hp (List.sublist_nil.mp h)
      rw [List.intercalate_cons_of_ne_nil hp, List.intercalate_cons_of_ne_nil hn]
      exact ih.append_left _

/-- What is put together around a separator has its other items from the pieces. -/
theorem exists_mem_of_mem_intercalate (h : item ∈ [separator].intercalate pieces)
    (hne : item ≠ separator) : ∃ piece ∈ pieces, item ∈ piece := by
  induction pieces with
  | nil => simp at h
  | cons piece pieces ih =>
    by_cases hn : pieces = []
    · exact ⟨piece, List.mem_cons_self, by simpa [hn] using h⟩
    · rw [List.intercalate_cons_of_ne_nil hn] at h
      simp only [List.mem_append, List.mem_singleton, hne, or_false] at h
      rcases h with h | h
      · exact ⟨piece, List.mem_cons_self, h⟩
      · obtain ⟨found, hf, hm⟩ := ih h
        exact ⟨found, List.mem_cons_of_mem piece hf, hm⟩

variable [BEq α] [LawfulBEq α]

/-- The separator is in none of the pieces. -/
theorem notMem_of_mem_splitOn (h : piece ∈ items.splitOn separator) : separator ∉ piece := by
  induction items generalizing piece with
  | nil => simp_all
  | cons first rest ih =>
    rw [List.splitOn_cons_eq_if_modifyHead] at h
    obtain ⟨front, others, hrest⟩ := List.exists_cons_of_ne_nil (List.splitOn_ne_nil separator rest)
    rw [hrest] at h ih
    split at h
    · rcases List.mem_cons.mp h with rfl | h
      · exact List.not_mem_nil
      · exact ih h
    · next hne =>
      rcases List.mem_cons.mp h with rfl | h
      · have hfirst : separator ≠ first := fun e => hne (beq_iff_eq.mpr e.symm)
        simp [hfirst, ih List.mem_cons_self]
      · exact ih (List.mem_cons_of_mem front h)

/-- Every item but the separator is in one of the pieces. -/
theorem exists_mem_splitOn (h : item ∈ items) (hne : item ≠ separator) :
    ∃ piece ∈ items.splitOn separator, item ∈ piece := by
  refine exists_mem_of_mem_intercalate ?_ hne
  rwa [List.intercalate_splitOn]

end

/-! ### Pieces of a text -/

variable {separator : Char} {text : String} {pieces : List String}

/-- The pieces of a text are those that it is put together from and that do not hold the
separator. -/
theorem split_eq_iff :
    split separator text = pieces ↔ pieces ≠ [] ∧ (∀ piece ∈ pieces, separator ∉ piece.toList) ∧
      (String.singleton separator).intercalate pieces = text := by
  constructor
  · rintro rfl
    refine ⟨split_ne_nil separator text, fun piece hp => ?_, ?_⟩
    · obtain ⟨chars, hc, rfl⟩ := List.mem_map.mp hp
      rw [String.toList_ofList]
      exact notMem_of_mem_splitOn hc
    · simp [← String.toList_inj, split, Function.comp_def]
  · rintro ⟨nonempty, free, rfl⟩
    rw [split, String.toList_intercalate, String.toList_singleton,
      List.splitOn_intercalate separator (by simpa using free) (by simpa using nonempty)]
    simp [Function.comp_def]

/-- Pieces that are put together are read back unless the separator is in one of them. -/
theorem split_intercalate_iff (nonempty : pieces ≠ []) :
    split separator ((String.singleton separator).intercalate pieces) = pieces ↔
      ∀ piece ∈ pieces, separator ∉ piece.toList := by
  rw [split_eq_iff]
  exact ⟨fun h => h.2.1, fun h => ⟨nonempty, h, rfl⟩⟩

end Bootstage.Text
