import Bootstage.Proofs.Tree.Clearable
import Bootstage.Proofs.Tree.Writing

/-!
# What a directory holds

A directory holds exactly some entries when nothing else is below it. A file that is put into a
directory under a new name is one entry more there, and is nothing to a directory that it is not
below.
-/

namespace Bootstage.Tree

/-- A directory stands at a location, and below it are exactly the given entries. -/
def HoldsExactly (tree : Tree) (site : Location) (entries : List (Location × Entry)) : Prop :=
  tree.get? site = some .directory ∧
    ∀ below, below ≠ [] → tree.get? (site ++ below) = entries.lookup below

/-- Everything at or below a location is the same. -/
def SameAt (before after : Tree) (site : Location) : Prop :=
  ∀ location, site <+: location → after.get? location = before.get? location

/-- What a place holds exactly it still holds where all below it is the same. -/
theorem SameAt.holdsExactly {before after : Tree} {site : Location} (h : before.SameAt after site)
    {entries : List (Location × Entry)} (hh : before.HoldsExactly site entries) :
    after.HoldsExactly site entries := by
  refine ⟨(h site List.prefix_rfl).trans hh.1, fun below hb => ?_⟩
  rw [h _ (List.prefix_append site below), hh.2 below hb]

/-- The tree with one file more. -/
def Gains (before after : Tree) (site : Location) (content : Text.Bytes) : Prop :=
  before.get? site = none ∧
    ∀ location, after.get? location =
      if location = site then some (.file content) else before.get? location

namespace Gains

variable {before after : Tree} {site : Location} {content : Text.Bytes}

/-- What was there before is there with one file more. -/
theorem get?_of_get? (h : before.Gains after site content) {location : Location} {entry : Entry}
    (he : before.get? location = some entry) : after.get? location = some entry := by
  rw [h.2, if_neg, he]
  rintro rfl
  simp [h.1] at he

theorem waysKept (h : before.Gains after site content) : before.WaysKept after where
  directory location := h.get?_of_get?
  old location target hl := by
    rw [h.2] at hl
    split at hl
    · simp at hl
    · exact hl
  link location target := h.get?_of_get?

/-- Every file is read as before. -/
theorem read (h : before.Gains after site content) {cwd : Option Location} {path : Path}
    {found : Text.Bytes} (hr : before.read cwd path = .ok found) :
    after.read cwd path = .ok found :=
  h.waysKept.read (fun _ => h.get?_of_get?) hr

/-- The working directory stays. -/
theorem held (h : before.Gains after site content) {cwd : Option Location}
    (hc : before.held cwd = cwd) : after.held cwd = cwd := by
  cases cwd with
  | none => rfl
  | some location =>
    have hd : before.get? location = some .directory := (held_eq_some_iff.mp hc).2
    exact held_eq_some_iff.mpr ⟨rfl, h.get?_of_get? hd⟩

/-- A new file below a directory is one entry more in it. -/
theorem holdsExactly {below : Location} (h : before.Gains after (site ++ below) content)
    {entries : List (Location × Entry)} (hh : before.HoldsExactly site entries) :
    after.HoldsExactly site ((below, .file content) :: entries) := by
  refine ⟨h.get?_of_get? hh.1, fun place hp => ?_⟩
  rw [h.2, List.lookup_cons]
  by_cases he : place = below
  · simp [he]
  · have hbeq : (place == below) = false := by simpa using he
    rw [if_neg (by simpa using he), hh.2 place hp, hbeq]

/-- A new file elsewhere is no entry of a directory. -/
theorem holdsExactly_of_not_prefix {other : Location} (h : before.Gains after site content)
    {entries : List (Location × Entry)} (hh : before.HoldsExactly other entries)
    (hn : ¬ other <+: site) : after.HoldsExactly other entries := by
  refine ⟨h.get?_of_get? hh.1, fun place hp => ?_⟩
  rw [h.2, if_neg, hh.2 place hp]
  intro he
  exact hn (he ▸ List.prefix_append other place)

end Gains

/-- No link is on the way to a place in a directory unless it is a link itself. -/
theorem unlinked_of_get?_dropLast {tree : Tree} {site : Location}
    (hd : tree.get? site.dropLast = some .directory)
    (hl : ∀ target, tree.get? site ≠ some (.link target)) : tree.Unlinked site := by
  intro above hp target
  rcases eq_or_ne above site with rfl | hne
  · exact hl target
  · have hq : above <+: site.dropLast := by
      obtain ⟨below, rfl⟩ := hp
      have hb : below ≠ [] := by simpa using hne
      rw [List.dropLast_append_of_ne_nil hb]
      exact List.prefix_append above below.dropLast
    by_cases he : above = site.dropLast
    · simp [he, hd]
    · simp [get?_above hd hq he]

namespace Straight

variable {tree : Tree} {cwd : Option Location} {path : Path} {site : Location}

/-- A file that is written at a new place is one more. -/
theorem gains_of_write (h : tree.Straight cwd path site) (hslash : path.endsInSlash = false)
    (hn : tree.get? site = none) {content : Text.Bytes} {written : Tree}
    (hw : tree.write cwd path content = .ok written) :
    path.Accepted ∧ tree.Gains written site content := by
  obtain ⟨location, hl, rfl⟩ := write_eq_ok_iff.mp hw
  have haccepts := accepts_of_locateWritable hl content
  obtain ⟨ha, rfl, -, -⟩ := (h.locateWritable_eq_ok_iff hslash).mp hl
  exact ⟨ha, hn, get?_put haccepts⟩

/-- A file that is copied to a new place is one more, with the content of the source. -/
theorem gains_of_copy (h : tree.Straight cwd path site) (hslash : path.endsInSlash = false)
    (hn : tree.get? site = none) {source : Path} {copied : Tree}
    (hc : tree.copy cwd source path = .ok copied) :
    ∃ content, tree.read cwd source = .ok content ∧ tree.Gains copied site content := by
  obtain ⟨origin, content, destination, ho, hg, hl, rfl⟩ := copy_eq_ok_iff.mp hc
  have haccepts := accepts_of_locateWritable hl content
  obtain ⟨-, rfl, -, -⟩ := (h.locateWritable_eq_ok_iff hslash).mp hl
  have hne : origin ≠ destination := by
    rintro rfl
    simp [hn] at hg
  rw [if_neg hne]
  exact ⟨content, read_eq_ok_iff.mpr ⟨origin, ho, hg⟩, hn, get?_put haccepts⟩

end Straight

end Bootstage.Tree
