import Bootstage.Proofs.Tree.Contents
import Bootstage.Proofs.Tree.Passing

/-!
# Removing and creating at any path

A path may go up, stay and follow links on its way. Also then removing takes away nothing but what
is at or below the place that it leads to, which is not beyond a link at its end, and creating
directories adds directories and nothing else.
-/

namespace Bootstage.Tree

variable {tree : Tree} {cwd : Option Location} {path : Path} {location : Location}

/-! ### The last name -/

/-- Names behind others are walked from the directory to which these lead. -/
private theorem walkNames_append
    {onLink onKept : Location → Text.Bytes → List Name → Except SystemError Location}
    {parent : Location} (links : Nat)
    (stay : ∀ here rest,
      tree.walkNames .kept onKept here rest = tree.walk .kept links here rest)
    (follow : ∀ here target names, onLink here target (names ++ [Text.encode "."]) = .ok parent →
      tree.get? parent = some .directory ∧ ∃ left, ∀ rest, rest ≠ [] →
        onKept here target (names ++ rest) = tree.walk .kept left parent rest)
    {here : Location} {front : List Name}
    (h : tree.walkNames .followed onLink here (front ++ [Text.encode "."]) = .ok parent) :
    tree.get? parent = some .directory ∧ ∃ left, ∀ rest, rest ≠ [] →
      tree.walkNames .kept onKept here (front ++ rest) = tree.walk .kept left parent rest := by
  induction front generalizing here with
  | nil =>
    obtain ⟨hd, hstep⟩ := walkNames_cons_eq_ok_iff.mp h
    rcases hstep with ⟨-, hr⟩ | ⟨hn, -⟩ | ⟨⟨hn, -⟩, -⟩
    · obtain rfl : here = parent := Except.ok.inj hr
      exact ⟨hd, links, fun rest _ => stay here rest⟩
    · simp at hn
    · exact absurd rfl hn.2.1
  | cons name front ih =>
    rw [List.cons_append] at h
    obtain ⟨hd, hstep⟩ := walkNames_cons_eq_ok_iff.mp h
    have hcons : ∀ rest, tree.walkNames .kept onKept here (name :: front ++ rest) =
        tree.walkNames .kept onKept here (name :: (front ++ rest)) := fun rest => rfl
    simp only [hcons]
    rcases hstep with ⟨hn, hr⟩ | ⟨rfl, hr⟩ | ⟨⟨hn, -, hshort⟩, hdown⟩
    · obtain ⟨hparent, left, hleft⟩ := ih hr
      refine ⟨hparent, left, fun rest hrest => ?_⟩
      rw [← hleft rest hrest, walkNames, hd]
      simp [hn]
    · obtain ⟨hparent, left, hleft⟩ := ih hr
      refine ⟨hparent, left, fun rest hrest => ?_⟩
      rw [← hleft rest hrest, walkNames, hd]
      simp
    · rcases hdown with ⟨target, hl, ⟨hk, -⟩ | ⟨-, hr⟩⟩ | ⟨hl, hr⟩
      · simp at hk
      · obtain ⟨hparent, left, hleft⟩ := follow here target front hr
        refine ⟨hparent, left, fun rest hrest => ?_⟩
        rw [← hleft rest hrest, walkNames, hd]
        simp [hn.1, hn.2.1, hn.2.2, Nat.not_lt.mpr hshort, hl, hrest]
      · obtain ⟨hparent, left, hleft⟩ := ih hr
        refine ⟨hparent, left, fun rest hrest => ?_⟩
        rw [← hleft rest hrest, walkNames_cons hd hn hl (by simp),
          if_neg (Nat.not_lt.mpr hshort)]

/-- A walk that passes through a directory goes on from there. -/
private theorem walk_append {links : Nat} {here parent : Location} {front : List Name}
    (h : tree.walk .followed links here (front ++ [Text.encode "."]) = .ok parent) :
    tree.get? parent = some .directory ∧ ∃ left, ∀ rest, rest ≠ [] →
      tree.walk .kept links here (front ++ rest) = tree.walk .kept left parent rest := by
  induction links generalizing here front parent with
  | zero => exact walkNames_append 0 (fun _ _ => rfl) (fun _ _ _ hl => by simp at hl) h
  | succ links ih =>
    refine walkNames_append (links + 1) (fun _ _ => rfl) (fun here target names hl => ?_) h
    rw [← List.append_assoc] at hl
    obtain ⟨hparent, left, hleft⟩ := ih hl
    refine ⟨hparent, left, fun rest hrest => ?_⟩
    rw [← hleft rest hrest, List.append_assoc]

/-- The last name of a path leads down from the directory that the others lead to. -/
theorem locate_kept_of_locateParent {parent : Location} {name : Name}
    (hp : tree.locateParent cwd path = .ok parent) (hlast : path.names.getLast? = some name)
    (hname : Path.IsOrdinary name) (hd : tree.get? (parent ++ [name]) = some .directory)
    (hl : tree.locate cwd path .kept = .ok location) : location = parent ++ [name] := by
  obtain ⟨⟨⟩, hc, hp⟩ := Except.bind_eq_ok_iff.mp hp
  obtain ⟨base, ho, hp⟩ := Except.bind_eq_ok_iff.mp hp
  obtain ⟨hparent, left, hleft⟩ := walk_append hp
  have hnames : path.names = path.names.dropLast ++ [name] :=
    (List.dropLast_append_getLast? name hlast).symm
  have hwalked : path.walked =
      path.names.dropLast ++ (name :: if path.endsInSlash then [[]] else []) := by
    rw [Path.walked]
    split
    · nth_rewrite 1 [hnames]
      simp
    · exact hnames
  simp only [locate, hc, ho, hwalked, bind, Except.bind] at hl
  rw [hleft _ (by simp)] at hl
  have hend : (tree.walk .kept left parent ([name] ++ if path.endsInSlash then [[]] else [])) =
      .ok location := hl
  have hunlinked : tree.Unlinked (parent ++ [name]) :=
    unlinked_of_get?_dropLast (by simpa using hparent) (by simp [hd])
  exact ((walk_eq_ok_iff (by simpa using hname) hunlinked (by split <;> simp)
    (.inl (by decide))).mp hend).1

/-! ### Removing -/

/-- An emptied directory that is removed is erased. -/
theorem removeEmptied_eq_ok {removed : Tree} (h : tree.removeEmptied cwd path = .ok removed) :
    ∃ parent name, tree.locateParent cwd path = .ok parent ∧ path.names.getLast? = some name ∧
      Path.IsOrdinary name ∧ tree.get? (parent ++ [name]) = some .directory ∧
        removed = tree.erase (parent ++ [name]) := by
  obtain ⟨parent, hp, h⟩ := Except.bind_eq_ok_iff.mp h
  split at h
  · simp [throw, throwThe, MonadExceptOf.throw] at h
  · next name hlast =>
    have hname : Path.IsOrdinary name := by
      refine ⟨Path.ne_empty_of_mem_names (List.mem_of_getLast? hlast), ?_, ?_⟩
      · rintro rfl
        simp [throw, throwThe, MonadExceptOf.throw] at h
      · rintro rfl
        simp [throw, throwThe, MonadExceptOf.throw] at h
    simp only [hname.2.1, hname.2.2, if_false] at h
    split at h
    · simp [throw, throwThe, MonadExceptOf.throw] at h
    · next hd => exact ⟨parent, name, hp, hlast, hname, hd, (Except.ok.inj h).symm⟩
    · simp [throw, throwThe, MonadExceptOf.throw] at h

/-- Where a removal takes something away, and what is left elsewhere. -/
structure Removes (before : Tree) (cwd : Option Location) (path : Path) (gone : Location)
    (after : Tree) : Prop where
  /-- The path leads to the place, and no regular file stands there. -/
  leads : ∃ entry, before.linkStatus cwd path = .ok (gone, entry) ∧ ∀ content, entry ≠ .file content
  /-- Nothing is new. -/
  within : after.Within before
  /-- What is neither at nor below the place is left. -/
  elsewhere : ∀ place, ¬ gone <+: place → after.get? place = before.get? place

/-- Removing takes away nothing, or only what is at or below the place that the path leads to. What
is left there as an empty directory is erased in its turn. -/
theorem removeAll_cases (tree : Tree) (cwd : Option Location) (path : Path) :
    (tree.removeAll cwd path).2 = tree ∨
      ∃ gone, tree.Removes cwd path gone (tree.removeAll cwd path).2 := by
  have herase : ∀ gone place, ¬ gone <+: place →
      (tree.erase gone).get? place = tree.get? place := by
    intro gone place hp
    rw [get?_erase, if_neg fun h => hp h.2]
  unfold removeAll
  split
  · exact .inl rfl
  · next gone target hs =>
    exact .inr ⟨gone, ⟨_, hs, by simp⟩, erase_within tree gone, herase gone⟩
  · exact .inl rfl
  · next gone hs =>
    have hbelow : ∀ place, ¬ gone <+: place →
        (tree.eraseBelow gone).get? place = tree.get? place := by
      intro place hp
      rw [get?_eraseBelow, if_neg fun h => hp h.1]
    have hwithin := eraseBelow_within tree gone
    dsimp only
    split
    · next removed hr =>
      obtain ⟨parent, name, hp, hlast, hname, hd, rfl⟩ := removeEmptied_eq_ok hr
      obtain ⟨⟨⟩, hc, hw⟩ := Except.bind_eq_ok_iff.mp hp
      obtain ⟨base, ho, hw⟩ := Except.bind_eq_ok_iff.mp hw
      have hparent : tree.locateParent cwd path = .ok parent := by
        simp only [locateParent, hc, ho, bind, Except.bind]
        exact hwithin.walk (by simp [(walk_append hw).1]) hw
      obtain rfl : gone = parent ++ [name] :=
        locate_kept_of_locateParent hparent hlast hname (hwithin _ _ hd)
          (linkStatus_eq_ok_iff.mp hs).1
      refine .inr ⟨_, ⟨_, hs, by simp⟩, (erase_within _ _).trans hwithin, fun place hp => ?_⟩
      rw [get?_erase, if_neg fun h => hp h.2, hbelow place hp]
    · exact .inr ⟨gone, ⟨_, hs, by simp⟩, hwithin, hbelow⟩

/-! ### Creating -/

/-- Only directories are new. -/
def Opened (before after : Tree) : Prop :=
  ∀ location, after.get? location = before.get? location ∨
    before.get? location = none ∧ after.get? location = some .directory

namespace Opened

variable {before middle after : Tree}

theorem refl (tree : Tree) : tree.Opened tree :=
  fun _ => .inl rfl

theorem trans (h : before.Opened middle) (h' : middle.Opened after) : before.Opened after := by
  intro location
  rcases h location with hs | ⟨hn, hd⟩ <;> rcases h' location with hs' | ⟨hn', hd'⟩
  · exact .inl (hs'.trans hs)
  · exact .inr ⟨hs.symm.trans hn', hd'⟩
  · exact .inr ⟨hn, hs'.trans hd⟩
  · simp [hd] at hn'

/-- Where directories have been made, nothing has been lost. -/
theorem within (h : before.Opened after) : before.Within after := by
  intro location entry he
  rcases h location with hs | ⟨hn, -⟩
  · rw [hs, he]
  · simp [hn] at he

/-- Directories that are made close no way. -/
theorem waysKept (h : before.Opened after) : before.WaysKept after where
  directory location := h.within location .directory
  old location target hl := by
    rcases h location with hs | ⟨-, hd⟩
    · rwa [hs] at hl
    · simp [hd] at hl
  link location target := h.within location (.link target)

end Opened

/-- The making of a directory opens a way. -/
theorem opened_makeDirectory {made : Tree} (h : tree.makeDirectory cwd path = .ok made) :
    tree.Opened made := by
  obtain ⟨parent, -, h⟩ := Except.bind_eq_ok_iff.mp h
  split at h
  · simp [throw, throwThe, MonadExceptOf.throw] at h
  · next name hlast =>
    split at h
    · simp [throw, throwThe, MonadExceptOf.throw] at h
    split at h
    · simp [throw, throwThe, MonadExceptOf.throw] at h
    split at h
    · simp [throw, throwThe, MonadExceptOf.throw] at h
    · next hfree =>
      obtain rfl := Except.ok.inj h
      have hn : tree.get? (parent ++ [name]) = none := by simpa using hfree
      by_cases ha : tree.Accepts (parent ++ [name]) .directory
      · intro location
        rw [get?_put ha]
        split
        · next he => exact .inr ⟨he ▸ hn, rfl⟩
        · exact .inl rfl
      · rw [put_of_not_accepts ha]
        exact .refl tree

/-- Creating directories adds directories, in success and in failure. -/
theorem opened_makeDirectories (tree : Tree) (cwd : Option Location) (paths : List Path) :
    tree.Opened (tree.makeDirectories cwd paths).2 := by
  induction paths with
  | nil => exact .refl tree
  | cons path parents ih =>
    rw [makeDirectories]
    split
    · exact .refl tree
    cases hm : tree.makeDirectory cwd path with
    | ok made => exact opened_makeDirectory hm
    | error cause =>
      dsimp only
      split
      · rcases hp : tree.makeDirectories cwd parents with ⟨deeper | ⟨⟩, left⟩
        · rw [hp] at ih
          exact ih
        · rw [hp] at ih
          dsimp only
          cases hm' : left.makeDirectory cwd path with
          | ok made => exact ih.trans (opened_makeDirectory hm')
          | error again =>
            dsimp only
            split <;> exact ih
      · split <;> exact .refl tree

/-- So does the creation of a directory with those above it, in success and in failure. -/
theorem opened_createDirectory (tree : Tree) (cwd : Option Location) (path : Path) :
    tree.Opened (tree.createDirectory cwd path).2 :=
  opened_makeDirectories tree cwd _

end Bootstage.Tree
