import Mathlib.Data.List.Infix
import Bootstage.Proofs.Tree.StraightFiles

/-!
# Places that can be cleared

A place can be cleared when its path leads straight to it and nothing stands there or a directory.
Erasing keeps such places such, and at most it takes the working directory away; a relative path
then leads nowhere, and never elsewhere.
-/

namespace Bootstage

/-- The path spells no location but the given one; it may lead nowhere for want of a working
directory. -/
def Path.Spells (path : Path) (cwd : Option Location) (site : Location) : Prop :=
  ∀ place, path.site? cwd = some place → place = site

/-- A run that still has its working directory spells the places that it has spelled before. -/
theorem Path.site?_mono {path : Path} {cwd earlier : Option Location} {place : Location}
    (h : ∀ location, cwd = some location → earlier = some location)
    (hp : path.site? cwd = some place) : path.site? earlier = some place := by
  cases cwd with
  | none => simp_all [Path.site?]
  | some location => rwa [h location rfl]

/-- A working directory that is lost makes a path lead nowhere else. -/
theorem Path.Spells.mono {path : Path} {cwd earlier : Option Location} {site : Location}
    (hs : path.Spells earlier site)
    (h : ∀ location, cwd = some location → earlier = some location) :
    path.Spells cwd site :=
  fun place hp => hs place (Path.site?_mono h hp)

/-- A working directory is held exactly if it is still there as a directory. -/
theorem Tree.held_eq_some_iff {tree : Tree} {cwd : Option Location} {location : Location} :
    tree.held cwd = some location ↔ cwd = some location ∧ tree.get? location = some .directory := by
  simp [Tree.held, Option.filter_eq_some_iff]

@[simp] theorem Tree.held_held (tree : Tree) (cwd : Option Location) :
    tree.held (tree.held cwd) = tree.held cwd := by
  simp [held, Option.filter_filter]

/-- The working directory is at most lost. -/
theorem Tree.eq_some_of_held {tree : Tree} {cwd : Option Location} {location : Location}
    (h : tree.held cwd = some location) : cwd = some location :=
  (Tree.held_eq_some_iff.mp h).1

/-- The working directory is still there if something stands at a location that a relative path
spells. -/
theorem Tree.site?_held {tree : Tree} {cwd : Option Location} {path : Path} {site : Location}
    {entry : Entry} (spelled : path.site? cwd = some site) (hs : tree.get? site = some entry)
    (named : path.names ≠ []) : path.site? (tree.held cwd) = some site := by
  cases ha : path.isAbsolute with
  | true => simpa [Path.site?, ha] using spelled
  | false =>
    cases cwd with
    | none => simp [Path.site?, ha] at spelled
    | some base =>
      obtain rfl : base ++ path.names = site := by simpa [Path.site?, ha] using spelled
      have hb : tree.get? base = some .directory :=
        get?_above hs (List.prefix_append base path.names) (by simpa using named)
      have hheld : tree.held (some base) = some base := held_eq_some_iff.mpr ⟨rfl, hb⟩
      rw [hheld, spelled]

/-- What is left after erasing was there before. -/
theorem Tree.get?_of_get?_erase {tree : Tree} {gone location : Location} {entry : Entry}
    (h : (tree.erase gone).get? location = some entry) : tree.get? location = some entry := by
  rw [get?_erase] at h
  split at h
  · simp at h
  · exact h

/-- Where no link is on the way, none is when something has been erased. -/
theorem Tree.Unlinked.erase {tree : Tree} {site : Location} (h : tree.Unlinked site)
    (gone : Location) : (tree.erase gone).Unlinked site :=
  fun above hp target hl => h above hp target (get?_of_get?_erase hl)

/-- Nothing stands, and so no link, below a location that is not a directory. -/
theorem Tree.Unlinked.append {tree : Tree} {site : Location} (h : tree.Unlinked site)
    (hd : tree.get? site ≠ some .directory) (below : Location) :
    tree.Unlinked (site ++ below) := by
  intro above hp target
  cases List.prefix_or_prefix_of_prefix hp (List.prefix_append site below) with
  | inl hq => exact h above hq target
  | inr hq =>
    by_cases he : site = above
    · exact h above (he ▸ List.prefix_rfl) target
    · simp [get?_below_eq_none hd hq he]

/-- Where nothing stands there is nothing to erase. -/
theorem Tree.erase_of_get?_eq_none {tree : Tree} {site : Location} (h : tree.get? site = none) :
    tree.erase site = tree := by
  apply Tree.ext
  intro location
  rw [get?_erase]
  split
  · next hl =>
    by_cases he : site = location
    · rw [← he, h]
    · exact (get?_below_eq_none (by simp [h]) hl.2 he).symm
  · rfl

/-- A place that can be cleared: a path of ordinary names leads there past no link, and nothing
stands there or a directory that the path shows. -/
structure Tree.Clearable (tree : Tree) (cwd : Option Location) (path : Path) (site : Location) :
    Prop where
  /-- Every name on the path leads one step down. -/
  plain : path.Plain
  /-- The path leads to the place if it leads anywhere. -/
  spells : path.Spells cwd site
  /-- No link is on the way. -/
  unlinked : tree.Unlinked site
  /-- Nothing stands there or a directory. -/
  standing : tree.get? site = none ∨ tree.presentDirectory cwd path = true

instance (path : Path) : Decidable path.Plain :=
  decidable_of_iff (path.names ≠ [] ∧ ∀ name ∈ path.names, name ≠ "." ∧ name ≠ "..")
    ⟨fun h => ⟨h.1, h.2⟩, fun h => ⟨h.named, h.descends⟩⟩

instance (path : Path) (cwd : Option Location) (site : Location) :
    Decidable (path.Spells cwd site) :=
  inferInstanceAs (Decidable (∀ place ∈ path.site? cwd, place = site))

/-- Whether the entry is a link. -/
def Entry.isLink : Entry → Bool
  | link _ => true
  | _ => false

instance (tree : Tree) (site : Location) : Decidable (tree.Unlinked site) :=
  decidable_of_iff (∀ above ∈ site.inits, ((tree.get? above).any Entry.isLink) = false) (by
    refine forall_congr' fun above => ?_
    rw [List.mem_inits]
    refine imp_congr_right fun _ => ?_
    rcases tree.get? above with _ | _ | _ | target <;> simp [Entry.isLink])

instance (tree : Tree) (cwd : Option Location) (path : Path) (site : Location) :
    Decidable (tree.Clearable cwd path site) :=
  decidable_of_iff (path.Plain ∧ path.Spells cwd site ∧ tree.Unlinked site ∧
      (tree.get? site = none ∨ tree.presentDirectory cwd path = true))
    ⟨fun h => ⟨h.1, h.2.1, h.2.2.1, h.2.2.2⟩,
      fun h => ⟨h.plain, h.spells, h.unlinked, h.standing⟩⟩

namespace Tree.Clearable

variable {tree : Tree} {cwd : Option Location} {path : Path} {site : Location}

/-- What the path shows makes it lead straight to the place. -/
theorem straight_of_status (h : tree.Clearable cwd path site) {entry : Entry}
    (hs : tree.status cwd path = .ok entry) : tree.Straight cwd path site := by
  obtain ⟨place, hp⟩ := exists_site?_of_status hs
  obtain rfl := h.spells place hp
  exact ⟨h.plain, hp, h.unlinked⟩

/-- If the directory is shown, the path to it is straight. -/
theorem straight_of_presentDirectory (h : tree.Clearable cwd path site)
    (hd : tree.presentDirectory cwd path = true) : tree.Straight cwd path site := by
  unfold presentDirectory at hd
  split at hd
  · next hs => exact h.straight_of_status hs
  · simp at hd

theorem site_ne_root (h : tree.Clearable cwd path site) : site ≠ [] := by
  cases h.standing with
  | inl hn =>
    rintro rfl
    simp at hn
  | inr hd => exact (h.straight_of_presentDirectory hd).site_ne_root

/-- Where nothing stands the path shows nothing. -/
theorem not_present_of_get?_eq_none (h : tree.Clearable cwd path site)
    (hn : tree.get? site = none) : tree.present cwd path = false := by
  unfold present
  cases hs : tree.status cwd path with
  | error cause => rfl
  | ok entry =>
    obtain ⟨-, he, -⟩ := (h.straight_of_status hs).status_eq_ok_iff.mp hs
    simp [hn] at he

/-- A directory to which an accepted path of ordinary names leads can be cleared: nothing but
directories stands above it. -/
theorem of_directory (plain : path.Plain) (accepted : path.Accepted)
    (spelled : path.site? cwd = some site) (hd : tree.get? site = some .directory) :
    tree.Clearable cwd path site := by
  have hunlinked : tree.Unlinked site := by
    intro above hp target
    by_cases he : above = site
    · simp [he, hd]
    · simp [get?_above hd hp he]
  have hstraight : tree.Straight cwd path site := ⟨plain, spelled, hunlinked⟩
  refine ⟨plain, ?_, hunlinked, .inr (hstraight.presentDirectory_eq_true_iff.mpr ⟨accepted, hd⟩)⟩
  intro place hp
  exact Option.some.inj (hp.symm.trans spelled)

/-- What is cleared can be cleared again, and so can what lies elsewhere. -/
theorem erase (h : tree.Clearable cwd path site) (gone : Location) {later : Option Location}
    (hcwd : later = cwd ∨ later = (tree.erase gone).held cwd) :
    (tree.erase gone).Clearable later path site where
  plain := h.plain
  spells := by
    refine h.spells.mono fun location hl => ?_
    rcases hcwd with rfl | rfl
    · exact hl
    · exact eq_some_of_held hl
  unlinked := h.unlinked.erase gone
  standing := by
    cases hg : (tree.erase gone).get? site with
    | none => exact .inl rfl
    | some entry =>
      have hkept := get?_of_get?_erase hg
      have hd := h.standing.resolve_left (by simp [hkept])
      have hs := h.straight_of_presentDirectory hd
      obtain ⟨ha, hdir⟩ := hs.presentDirectory_eq_true_iff.mp hd
      obtain rfl : entry = .directory := Option.some.inj (hkept.symm.trans hdir)
      have hlater : path.site? later = some site := by
        rcases hcwd with rfl | rfl
        · exact hs.spelled
        · exact site?_held hs.spelled hg h.plain.named
      have hs' : (tree.erase gone).Straight later path site :=
        ⟨h.plain, hlater, h.unlinked.erase gone⟩
      exact .inr (hs'.presentDirectory_eq_true_iff.mpr ⟨ha, hg⟩)

end Tree.Clearable

end Bootstage
