import Std.Data.ExtTreeMap
import Bootstage.Path

/-!
# File trees

A file tree assigns entries to locations. A location is the list of names that leads to it from
the root; the root is always a directory and is not stored. Every entry stands in a directory, an
invariant that the type carries. Two trees with the same entries are equal.
-/

namespace Bootstage

/-- The names from the root down to a place in a file tree. -/
abbrev Location := List Name

/-- What stands at a location. -/
inductive Entry
  /-- A regular file with its content. -/
  | file (content : Text.Bytes)
  /-- A directory; its entries are those one name further. -/
  | directory
  /-- A symbolic link with the bytes it holds. -/
  | link (target : Text.Bytes)
  deriving DecidableEq, Repr

/-- A finite assignment of entries to locations in which every entry stands in a directory. -/
structure Tree where
  /-- The entries other than the root. -/
  entries : Std.ExtTreeMap Location Entry compare
  /-- The root is not stored. -/
  rootless : entries[([] : Location)]? = none
  /-- Whatever has an entry stands in the root or in a directory. -/
  closed : ∀ (location : Location) (name : Name) (entry : Entry),
    entries[location ++ [name]]? = some entry →
      location = [] ∨ entries[location]? = some .directory

namespace Tree

/-- The entry at a location; the root is a directory. -/
def get? (tree : Tree) (location : Location) : Option Entry :=
  if location = [] then some .directory else tree.entries[location]?

/-- The tree that holds the root alone. -/
def empty : Tree where
  entries := ∅
  rootless := by simp
  closed := by simp

instance : Inhabited Tree := ⟨empty⟩

/-- All locations with their entries, in the order of the names. -/
def toList (tree : Tree) : List (Location × Entry) :=
  tree.entries.toList

@[simp] theorem get?_root (tree : Tree) : tree.get? [] = some .directory := by
  simp [get?]

/-- Trees are equal when they agree at every location. -/
theorem ext {left right : Tree} (h : ∀ location, left.get? location = right.get? location) :
    left = right := by
  obtain ⟨a, ha, ca⟩ := left
  obtain ⟨b, hb, cb⟩ := right
  have hab : a = b := by
    apply Std.ExtTreeMap.ext_getElem?
    intro location
    by_cases hl : location = []
    · rw [hl, ha, hb]
    · simpa [get?, hl] using h location
  subst hab
  rfl

/-- An entry that is not the root stands in a directory. -/
theorem get?_parent {tree : Tree} {location : Location} {name : Name} {entry : Entry}
    (h : tree.get? (location ++ [name]) = some entry) : tree.get? location = some .directory := by
  have hc := tree.closed location name entry (by simpa [get?] using h)
  by_cases hl : location = []
  · simp [hl]
  · simpa [get?, hl] using hc

/-- An entry may be put where a directory holds it and where it does not end a directory. -/
def Accepts (tree : Tree) (location : Location) (entry : Entry) : Prop :=
  location ≠ [] ∧ tree.get? location.dropLast = some .directory ∧
    (tree.get? location = some .directory → entry = .directory)

instance (tree : Tree) (location : Location) (entry : Entry) :
    Decidable (tree.Accepts location entry) := by
  unfold Accepts
  infer_instance

/-- The tree with an entry set; a tree that does not accept the entry stays as it is. -/
def put (tree : Tree) (location : Location) (entry : Entry) : Tree :=
  if accepted : tree.Accepts location entry then
    { entries := tree.entries.insert location entry
      rootless := by
        rw [Std.ExtTreeMap.getElem?_insert]
        simp [accepted.1, tree.rootless]
      closed := by
        intro above name found h
        rw [Std.ExtTreeMap.getElem?_insert] at h
        by_cases heq : location = above ++ [name]
        · have hd := accepted.2.1
          rw [heq, List.dropLast_concat] at hd
          by_cases ha : above = []
          · exact .inl ha
          · right
            rw [Std.ExtTreeMap.getElem?_insert]
            have hne : location ≠ above := by
              intro e
              have := congrArg List.length (e.symm.trans heq)
              simp at this
            simpa [get?, ha, hne] using hd
        · simp only [Std.compare_eq_iff_eq, heq, if_false] at h
          cases tree.closed above name found h with
          | inl ha => exact .inl ha
          | inr hd =>
            by_cases ha : above = []
            · exact .inl ha
            · right
              rw [Std.ExtTreeMap.getElem?_insert]
              by_cases hla : location = above
              · have := accepted.2.2 (by simpa [get?, ha, hla] using hd)
                simp [hla, this]
              · simpa [hla] using hd }
  else tree

/-- The tree with entries set one after the other. -/
def putAll (tree : Tree) (entries : List (Location × Entry)) : Tree :=
  entries.foldl (fun tree (location, entry) => tree.put location entry) tree

/-- Keeping the keys that meet a test hides exactly the others. -/
private theorem getElem?_filter_key (entries : Std.ExtTreeMap Location Entry compare)
    (kept : Location → Bool) (location : Location) :
    (entries.filter fun found _ => kept found)[location]? =
      if kept location then entries[location]? else none := by
  ext entry
  rw [Std.ExtTreeMap.getElem?_filter]
  cases h : kept location <;> simp [h]

/-- The tree without the entries whose location meets a test that every location below one that
meets it meets too. -/
def without (tree : Tree) (gone : Location → Bool)
    (inherited : ∀ above name, gone above = true → gone (above ++ [name]) = true) : Tree where
  entries := tree.entries.filter fun location _ => !gone location
  rootless := by
    simp [tree.rootless]
  closed := by
    intro above name entry h
    have hk : tree.entries[above ++ [name]]? = some entry ∧ gone (above ++ [name]) = false := by
      rw [getElem?_filter_key] at h
      cases hg : gone (above ++ [name]) <;> simp_all
    cases tree.closed above name entry hk.1 with
    | inl ha => exact .inl ha
    | inr hd =>
      right
      have hg : gone above = false := by
        cases hga : gone above with
        | false => rfl
        | true => exact absurd (inherited above name hga) (by simp [hk.2])
      simp [hd, hg]

/-- The tree without a location and everything below it. -/
def erase (tree : Tree) (location : Location) : Tree :=
  tree.without (fun found => location.isPrefixOf found) (by
    intro above name h
    rw [List.isPrefixOf_iff_prefix] at h ⊢
    exact h.trans (List.prefix_append above [name]))

/-- The tree without everything below a location. -/
def eraseBelow (tree : Tree) (location : Location) : Tree :=
  tree.without (fun found => location.isPrefixOf found && location != found) (by
    intro above name h
    simp only [Bool.and_eq_true, List.isPrefixOf_iff_prefix, bne_iff_ne] at h ⊢
    refine ⟨h.1.trans (List.prefix_append above [name]), ?_⟩
    intro e
    have hle := h.1.length_le
    simp only [e, List.length_append, List.length_singleton] at hle
    omega)

/-- Setting an accepted entry changes the tree at its location alone. -/
theorem get?_put {tree : Tree} {location : Location} {entry : Entry}
    (h : tree.Accepts location entry) (found : Location) :
    (tree.put location entry).get? found = if found = location then some entry
      else tree.get? found := by
  by_cases hf : found = []
  · subst hf
    simp [Ne.symm h.1]
  · by_cases hl : location = found
    · subst hl
      simp [put, h, get?, hf]
    · simp [put, h, get?, hf, hl, Ne.symm hl, Std.ExtTreeMap.getElem?_insert]

/-- What a place does not accept is not put there. -/
theorem put_of_not_accepts {tree : Tree} {location : Location} {entry : Entry}
    (h : ¬ tree.Accepts location entry) : tree.put location entry = tree := by
  simp [put, h]

/-- What is taken away is gone, and nothing else is; the root stays. -/
theorem get?_without (tree : Tree) (gone : Location → Bool)
    (inherited : ∀ above name, gone above = true → gone (above ++ [name]) = true)
    (found : Location) :
    (tree.without gone inherited).get? found =
      if found ≠ [] ∧ gone found = true then none else tree.get? found := by
  by_cases hf : found = []
  · simp [hf]
  · simp only [get?, hf, if_false, without, getElem?_filter_key]
    cases gone found <;> simp [hf]

/-- Erasing takes away exactly the location and what is below it, but never the root. -/
theorem get?_erase (tree : Tree) (location found : Location) :
    (tree.erase location).get? found =
      if found ≠ [] ∧ location <+: found then none else tree.get? found := by
  simp [erase, get?_without]

/-- Erasing below a location takes away exactly what is strictly below it. -/
theorem get?_eraseBelow (tree : Tree) (location found : Location) :
    (tree.eraseBelow location).get? found =
      if location <+: found ∧ location ≠ found then none else tree.get? found := by
  by_cases hf : found = []
  · subst hf
    simp [eraseBelow]
  · simp [eraseBelow, get?_without, hf]

end Tree

end Bootstage
