import Bootstage.Proofs.Tree.Clearable
import Bootstage.Proofs.Tree.Creation

/-!
# Places and what is kept outside of them

A path has a place when its names lead there one step down each and past no link, whatever stands
there. What removing and creating directories does is told here for two such places: everything
that is neither at nor below them is kept, and at most directories on the way to them are new.
-/

namespace Bootstage

/-- A path without names is the root. -/
theorem Path.isAbsolute_of_names_eq_nil {path : Path} (written : path.bytes ≠ [])
    (h : path.names = []) : path.isAbsolute = true := by
  obtain ⟨first, rest, hb⟩ := List.exists_cons_of_ne_nil written
  by_cases he : first = slash
  · simp [isAbsolute, hb, he]
  · have hfirst : first ∈ path.bytes := by simp [hb]
    obtain ⟨piece, hp, hm⟩ := Text.exists_mem_splitOn hfirst he
    have hname : piece ∈ path.names :=
      List.mem_filter.mpr ⟨hp, by simp [List.ne_nil_of_mem hm]⟩
    simp [h] at hname

namespace Tree

/-- The place of a path: each of its names leads one step down, and neither on the way nor at the
place is a link. -/
structure Placed (tree : Tree) (cwd : Option Location) (path : Path) (site : Location) : Prop where
  /-- The path is not empty. -/
  written : path.bytes ≠ []
  /-- No name on it stays or goes up. -/
  descends : ∀ name ∈ path.names, name ≠ "." ∧ name ≠ ".."
  /-- It leads to the place if it leads anywhere. -/
  spells : path.Spells cwd site
  /-- No link is at the place or on the way. -/
  unlinked : tree.Unlinked site

instance (tree : Tree) (cwd : Option Location) (path : Path) (site : Location) :
    Decidable (tree.Placed cwd path site) :=
  decidable_of_iff (path.bytes ≠ [] ∧ (∀ name ∈ path.names, name ≠ "." ∧ name ≠ "..") ∧
      path.Spells cwd site ∧ tree.Unlinked site)
    ⟨fun h => ⟨h.1, h.2.1, h.2.2.1, h.2.2.2⟩,
      fun h => ⟨h.written, h.descends, h.spells, h.unlinked⟩⟩

/-- A directory that stands at the place is not shown by the path. -/
def Vacant (tree : Tree) (cwd : Option Location) (path : Path) (site : Location) : Prop :=
  tree.get? site = some .directory → path.site? cwd = none ∨ ¬ path.Accepted

variable {tree : Tree} {cwd later : Option Location} {path : Path} {site gone : Location}

/-- A vacant place is vacant when something has been erased. -/
theorem Vacant.erase (h : tree.Vacant cwd path site)
    (hcwd : ∀ location, later = some location → cwd = some location) :
    (tree.erase gone).Vacant later path site := by
  intro hd
  refine (h (get?_of_get?_erase hd)).imp_left fun hn => ?_
  cases hs : path.site? later with
  | none => rfl
  | some place => simp [Path.site?_mono hcwd hs] at hn

namespace Placed

/-- A place that is not the root belongs to a plain path. -/
theorem plain (h : tree.Placed cwd path site) (hroot : site ≠ []) : path.Plain := by
  refine ⟨fun hn => hroot ?_, h.descends⟩
  have ha := Path.isAbsolute_of_names_eq_nil h.written hn
  exact (h.spells [] (by simp [Path.site?, ha, hn])).symm

/-- A path keeps its place when something has been erased. -/
theorem erase (h : tree.Placed cwd path site)
    (hcwd : ∀ location, later = some location → cwd = some location) :
    (tree.erase gone).Placed later path site :=
  ⟨h.written, h.descends, h.spells.mono hcwd, h.unlinked.erase gone⟩

/-- A placed path is straight where it spells its place. -/
theorem straight (h : tree.Placed cwd path site) (hroot : site ≠ []) {place : Location}
    (hs : path.site? cwd = some place) : tree.Straight cwd path site := by
  obtain rfl := h.spells place hs
  exact ⟨h.plain hroot, hs, h.unlinked⟩

/-- What is not shown can be taken for vacant. -/
theorem vacant (h : tree.Placed cwd path site) (hroot : site ≠ [])
    (hp : tree.present cwd path = false) : tree.Vacant cwd path site := by
  intro hd
  cases hs : path.site? cwd with
  | none => exact .inl rfl
  | some place =>
    refine .inr fun ha => ?_
    have hstraight := h.straight hroot hs
    have hshown : tree.present cwd path = true :=
      hstraight.present_eq_true_iff.mpr ⟨ha, .directory, hd, fun _ => rfl⟩
    rw [hp] at hshown
    contradiction

/-- What is shown is a directory, which is removed with everything below it, or a file, which is
not removed. -/
theorem removeAll_of_present (h : tree.Placed cwd path site) (hroot : site ≠ [])
    (hp : tree.present cwd path = true) :
    tree.removeAll cwd path = (.ok (), tree.erase site) ∨
      tree.removeAll cwd path = (.error .notDirectory, tree) := by
  obtain ⟨entry, hs⟩ : ∃ entry, tree.status cwd path = .ok entry := by
    unfold present at hp
    cases hs : tree.status cwd path with
    | error cause => simp [hs, Except.isOk, Except.toBool] at hp
    | ok entry => exact ⟨entry, rfl⟩
  obtain ⟨place, hplace⟩ := exists_site?_of_status hs
  have hstraight := h.straight hroot hplace
  obtain ⟨ha, hg, -⟩ := hstraight.status_eq_ok_iff.mp hs
  cases entry with
  | directory => exact .inl (hstraight.removeAll_eq ha hg)
  | file content =>
    have hlink : tree.linkStatus cwd path = .ok (site, .file content) :=
      hstraight.linkStatus_eq_ok_iff.mpr ⟨rfl, hs⟩
    exact .inr (by simp [removeAll, hlink])
  | link target => exact absurd hg (h.unlinked site List.prefix_rfl target)

end Placed

/-! ### Names that are too long -/

/-- A walk along directories stops at a name that is too long. -/
theorem walkNames_eq_nameTooLong {last : LastName}
    {onLink : Location → Text.Bytes → List Name → Except SystemError Location}
    {here : Location} {names tail : List Name} (hlast : last ≠ .created)
    (ordinary : ∀ name ∈ names, Path.IsOrdinary name) (unlinked : tree.Unlinked (here ++ names))
    (hd : tree.get? (here ++ names) = some .directory)
    (long : ∃ name ∈ names, name.length > nameLimit) :
    tree.walkNames last onLink here (names ++ tail) = .error .nameTooLong := by
  induction names generalizing here with
  | nil => simp at long
  | cons name names ih =>
    have hsite : here ++ name :: names = (here ++ [name]) ++ names := by simp
    have hhere : tree.get? here = some .directory :=
      get?_above hd (List.prefix_append _ _) (by simp)
    rw [List.cons_append, walkNames_cons hhere (ordinary name List.mem_cons_self)
      (unlinked (here ++ [name]) (by simp)) fun ho => hlast ho.1]
    split
    · rfl
    · next hshort =>
      rw [hsite] at unlinked hd
      refine ih (fun other ho => ordinary other (List.mem_cons_of_mem name ho)) unlinked hd ?_
      obtain ⟨other, ho, hlong⟩ := long
      rcases List.mem_cons.mp ho with rfl | ho
      · exact absurd hlong hshort
      · exact ⟨other, ho, hlong⟩

/-- Nothing is created behind a name that is too long if directories lead there. -/
theorem createDirectory_of_long {below : List Name} {deep : Path} {base : Location}
    (plain : deep.Plain) (hnames : deep.names = path.names ++ below) (hbelow : below ≠ [])
    (hc : deep.check = .ok ()) (ho : deep.origin cwd = .ok base)
    (unlinked : tree.Unlinked (base ++ path.names))
    (hd : tree.get? (base ++ path.names) = some .directory)
    (long : ∃ name ∈ path.names, name.length > nameLimit) :
    tree.createDirectory cwd deep = (.error .nameTooLong, tree) := by
  have ordinary : ∀ name ∈ path.names, Path.IsOrdinary name := fun name hn =>
    plain.ordinary name (hnames ▸ List.mem_append_left below hn)
  have hwalk : ∀ tail, tree.walk .followed linkLimit base (path.names ++ tail) =
      .error .nameTooLong := fun tail =>
    walkNames_eq_nameTooLong (by decide) ordinary unlinked hd long
  have hparent : tree.locateParent cwd deep = .error .nameTooLong := by
    have hw := hwalk (below.dropLast ++ [Text.encode "."])
    rw [← List.append_assoc, ← List.dropLast_append_of_ne_nil hbelow, ← hnames] at hw
    rw [locateParent, hc, ho]
    exact hw
  have hwalked : ∃ tail, deep.walked = path.names ++ tail := by
    rw [Path.walked, hnames]
    split
    · exact ⟨below ++ [[]], by simp⟩
    · exact ⟨below, rfl⟩
  have hlocate : tree.locate cwd deep = .error .nameTooLong := by
    obtain ⟨tail, ht⟩ := hwalked
    rw [locate, hc, ho]
    show tree.walk .followed linkLimit base deep.walked = _
    rw [ht, hwalk]
  have hmake : tree.makeDirectory cwd deep = .error .nameTooLong := by
    simp [makeDirectory, hparent, bind, Except.bind]
  have hshown : tree.presentDirectory cwd deep = false := by
    simp [presentDirectory, status, hlocate, bind, Except.bind]
  simp [createDirectory, makeDirectories, plain.bytes_ne_nil, hmake, hshown]

/-! ### What is kept outside of two places -/

/-- Whatever is neither at nor below one of two places is the same. -/
def SameOutside (esp firmware : Location) (before after : Tree) : Prop :=
  ∀ location, ¬ esp <+: location → ¬ firmware <+: location →
    after.get? location = before.get? location

/-- Whatever is neither at nor below one of two places is the same, but for directories that were
missing on the way to them. -/
def KeepsOutside (esp firmware : Location) (before after : Tree) : Prop :=
  ∀ location, ¬ esp <+: location → ¬ firmware <+: location →
    after.get? location = before.get? location ∨
      (location <+: esp ∨ location <+: firmware) ∧ before.get? location = none ∧
        after.get? location = some .directory

section

variable {esp firmware : Location} {before middle after : Tree}

theorem SameOutside.refl (tree : Tree) : tree.SameOutside esp firmware tree :=
  fun _ _ _ => rfl

theorem SameOutside.trans (h : SameOutside esp firmware before middle)
    (h' : SameOutside esp firmware middle after) : SameOutside esp firmware before after :=
  fun location he hf => (h' location he hf).trans (h location he hf)

theorem SameOutside.keeps (h : SameOutside esp firmware before after) :
    KeepsOutside esp firmware before after :=
  fun location he hf => .inl (h location he hf)

theorem KeepsOutside.trans (h : KeepsOutside esp firmware before middle)
    (h' : KeepsOutside esp firmware middle after) : KeepsOutside esp firmware before after := by
  intro location he hf
  rcases h location he hf with hs | ⟨hp, hn, hd⟩ <;>
    rcases h' location he hf with hs' | ⟨hp', hn', hd'⟩
  · exact .inl (hs'.trans hs)
  · exact .inr ⟨hp', hs.symm.trans hn', hd'⟩
  · exact .inr ⟨hp, hn, hs'.trans hd⟩
  · rw [hd] at hn'
    contradiction

/-- Erasing one of the places is nothing to what is outside of them. -/
theorem sameOutside_erase (tree : Tree) (h : gone = esp ∨ gone = firmware) :
    SameOutside esp firmware tree (tree.erase gone) := by
  intro location he hf
  rw [get?_erase, if_neg]
  rintro ⟨-, hp⟩
  rcases h with rfl | rfl
  · exact he hp
  · exact hf hp

/-- A file that is put below one of the places is nothing to what is outside of them. -/
theorem sameOutside_put {tree : Tree} {location : Location} {entry : Entry}
    (h : esp <+: location ∨ firmware <+: location) :
    SameOutside esp firmware tree (tree.put location entry) := by
  intro place he hf
  by_cases ha : tree.Accepts location entry
  · rw [get?_put ha, if_neg]
    rintro rfl
    exact h.elim he hf
  · rw [put_of_not_accepts ha]

/-- Directories that are created on the way to a place, or below it. -/
theorem Grown.keepsOutside {below : Location} (h : before.Grown after (site ++ below))
    (hs : site = esp ∨ site = firmware) : KeepsOutside esp firmware before after := by
  intro location he hf
  refine (h location).imp_right fun ⟨hp, hn, hd⟩ => ⟨?_, hn, hd⟩
  have hside : location <+: site := by
    refine (List.prefix_or_prefix_of_prefix hp (List.prefix_append site below)).resolve_right ?_
    rcases hs with rfl | rfl
    · exact he
    · exact hf
  rcases hs with rfl | rfl
  · exact .inl hside
  · exact .inr hside

end

end Tree

end Bootstage
