import Bootstage.Proofs.Tree.Clearable
import Bootstage.Proofs.Tree.Creation

/-!
# Creating directories again

Directories that are on the way to a directory already need not be created. So whatever part of
them an earlier attempt has made, creating the directory has the same outcome, and in the end the
same ones are there.
-/

namespace Bootstage

namespace Tree

/-- All that stands in one tree stands in the other. -/
def Within (tree whole : Tree) : Prop :=
  ∀ location entry, tree.get? location = some entry → whole.get? location = some entry

theorem Within.refl (tree : Tree) : tree.Within tree :=
  fun _ _ h => h

theorem Within.trans {first second third : Tree} (h : first.Within second)
    (h' : second.Within third) : first.Within third :=
  fun location entry he => h' location entry (h location entry he)

theorem Within.antisymm {left right : Tree} (h : left.Within right) (h' : right.Within left) :
    left = right := by
  apply Tree.ext
  intro location
  ext entry
  exact ⟨h location entry, h' location entry⟩

theorem Grown.within {before after : Tree} {site : Location} (h : before.Grown after site) :
    before.Within after :=
  fun _ _ he => h.get?_of_get? he

/-- A part of a tree without links on the way has none either. -/
theorem Unlinked.of_within {tree whole : Tree} {site : Location} (h : whole.Unlinked site)
    (hw : tree.Within whole) : tree.Unlinked site :=
  fun above hp target hl => h above hp target (hw above _ hl)

/-- A working directory that is there is also in all that the tree is a part of. -/
theorem Within.held {tree whole : Tree} {cwd : Option Location} (h : tree.Within whole)
    (hc : tree.held cwd = cwd) : whole.held cwd = cwd := by
  cases cwd with
  | none => rfl
  | some location => exact held_eq_some_iff.mpr ⟨rfl, h _ _ (held_eq_some_iff.mp hc).2⟩

/-- A directory that is put where nothing is takes nothing away. -/
theorem within_put {tree : Tree} {location : Location} (hn : tree.get? location = none)
    (accepts : tree.Accepts location .directory) : tree.Within (tree.put location .directory) := by
  intro found entry he
  rw [get?_put accepts]
  split
  · next hf => simp [hf, hn] at he
  · exact he

/-- A directory that the whole has can be put into a part of it. -/
theorem put_within {tree whole : Tree} {location : Location}
    (accepts : tree.Accepts location .directory) (h : tree.Within whole)
    (hd : whole.get? location = some .directory) :
    (tree.put location .directory).Within whole := by
  intro found entry he
  rw [get?_put accepts] at he
  split at he
  · next hf =>
    obtain rfl := Option.some.inj he
    rw [hf, hd]
  · exact h found entry he

/-! ### Along names -/

section

variable {tree middle whole : Tree} {here : Location} {names : List Name}

/-- Creating along names goes as well where some of the directories are there already. If it stops
on the way, no more may be there than there is then. -/
theorem growTo_again (h : tree.Within middle) (h' : middle.Within whole)
    (hw : (tree.growTo here names).2.Within whole)
    (stop : (tree.growTo here names).1 = .ok () ∨ whole = (tree.growTo here names).2) :
    (middle.growTo here names).1 = (tree.growTo here names).1 ∧
      (tree.growTo here names).2.Within (middle.growTo here names).2 ∧
        (middle.growTo here names).2.Within whole := by
  induction names generalizing tree middle here with
  | nil => exact ⟨rfl, h, h'⟩
  | cons name names ih =>
    have hstop : ∀ cause, tree.growTo here (name :: names) = (.error cause, tree) →
        (middle.growTo here (name :: names)).1 = (tree.growTo here (name :: names)).1 ∧
          (tree.growTo here (name :: names)).2.Within (middle.growTo here (name :: names)).2 ∧
            (middle.growTo here (name :: names)).2.Within whole := by
      intro cause he
      have hwhole : whole = tree := by
        rw [he] at stop
        exact stop.resolve_left (by simp)
      obtain rfl : tree = middle := h.antisymm (hwhole ▸ h')
      exact ⟨rfl, .refl _, hw⟩
    cases hr : tree.requireDirectory here with
    | error cause => exact hstop cause (by simp [growTo, hr])
    | ok done =>
      have hd := requireDirectory_eq_ok_iff.mp hr
      have hmiddle := h _ _ hd
      by_cases hlong : name.length > nameLimit
      · exact hstop .nameTooLong (by simp [growTo, hr, hlong])
      cases hg : tree.get? (here ++ [name]) with
      | some entry =>
        cases entry with
        | directory =>
          rw [growTo_cons_of_directory hg hlong] at hw stop ⊢
          rw [growTo_cons_of_directory (h _ _ hg) hlong]
          exact ih h h' hw stop
        | file content | link target => exact hstop _ (by simp [growTo, hr, hlong, hg]; rfl)
      | none =>
        rw [growTo_cons_of_none hd hg hlong] at hw stop ⊢
        have hnew : whole.get? (here ++ [name]) = some .directory := by
          refine hw _ _ (grown_growTo.get?_of_get? ?_)
          rw [get?_put (accepts_directory hd), if_pos rfl]
        cases hgm : middle.get? (here ++ [name]) with
        | none =>
          rw [growTo_cons_of_none hmiddle hgm hlong]
          refine ih ?_ (put_within (accepts_directory hmiddle) h' hnew) hw stop
          refine put_within (accepts_directory hd) (h.trans (within_put hgm
            (accepts_directory hmiddle))) ?_
          rw [get?_put (accepts_directory hmiddle), if_pos rfl]
        | some entry =>
          obtain rfl : entry = .directory := Option.some.inj ((h' _ _ hgm).symm.trans hnew)
          rw [growTo_cons_of_directory hgm hlong]
          exact ih (put_within (accepts_directory hd) h hgm) h' hw stop

/-- Names that have been created are short. -/
theorem short_of_growTo {part : List Name} {entry : Entry} (hp : part <+: names)
    (hn : tree.get? (here ++ part) = none)
    (h : (tree.growTo here names).2.get? (here ++ part) = some entry) :
    ∀ name ∈ part, name.length ≤ nameLimit := by
  induction names generalizing tree here part with
  | nil => simp [List.prefix_nil.mp hp]
  | cons name names ih =>
    rcases List.prefix_cons_iff.mp hp with rfl | ⟨rest, rfl, hrest⟩
    · simp
    have hsite : here ++ name :: rest = (here ++ [name]) ++ rest := by simp
    have hn' : tree.get? ((here ++ [name]) ++ rest) = none := hsite ▸ hn
    rw [growTo, hsite] at h
    split at h
    · simp [hn] at h
    · next hr =>
      have hd := requireDirectory_eq_ok_iff.mp hr
      split at h
      · simp [hn] at h
      · next hshort =>
        simp only [List.mem_cons, forall_eq_or_imp, Nat.not_lt.mp hshort, true_and]
        split at h
        · by_cases he : rest = []
          · simp [he]
          · refine ih hrest ?_ h
            rw [get?_put (accepts_directory hd), if_neg (by simpa using he), hn']
        · exact ih hrest hn' h
        · simp [hn] at h

end

/-! ### Along a path -/

section

variable {tree middle whole : Tree} {cwd : Option Location} {path : Path} {site : Location}

/-- Creating a directory goes as well where some of the directories are there already. -/
theorem createDirectory_again (plain : path.Plain) (spells : path.Spells cwd site)
    (unlinked : whole.Unlinked site) (h : tree.Within middle) (h' : middle.Within whole)
    (hw : (tree.createDirectory cwd path).2.Within whole)
    (stop : (tree.createDirectory cwd path).1 = .ok () ∨
      whole = (tree.createDirectory cwd path).2) :
    (middle.createDirectory cwd path).1 = (tree.createDirectory cwd path).1 ∧
      (tree.createDirectory cwd path).2.Within (middle.createDirectory cwd path).2 ∧
        (middle.createDirectory cwd path).2.Within whole := by
  rcases createDirectory_eq plain cwd with ⟨outcome, ho⟩ | ⟨-, base, hbase, hgrow⟩
  · rw [ho, ho]
    exact ⟨rfl, h, h'⟩
  · obtain rfl := spells _ (Path.site?_of_origin hbase)
    have hm : middle.Unlinked (base ++ path.names) := unlinked.of_within h'
    rw [hgrow tree (hm.of_within h)] at hw stop ⊢
    rw [hgrow middle hm]
    exact growTo_again h h' hw stop

/-- What has been created on the way to a directory is a directory that a path can show. -/
theorem accepted_of_createDirectory {above : Path} (plain : path.Plain)
    (spells : path.Spells cwd site) (unlinked : tree.Unlinked site)
    (hnames : above.names <+: path.names) (habsolute : above.isAbsolute = path.isAbsolute)
    (hcheck : path.check = .ok () → above.check = .ok ()) {place : Location} {entry : Entry}
    (hplace : above.Spells cwd place) (hn : tree.get? place = none)
    (h : (tree.createDirectory cwd path).2.get? place = some entry) :
    above.Accepted ∧ above.site? cwd = some place := by
  rcases createDirectory_eq plain cwd with ⟨outcome, ho⟩ | ⟨hc, base, hbase, hgrow⟩
  · simp [ho, hn] at h
  · have horigin : above.origin cwd = .ok base := by
      rw [← hbase]
      cases cwd <;> simp [Path.origin, Path.start, habsolute]
    have hsite := Path.site?_of_origin horigin
    obtain rfl := hplace _ hsite
    obtain rfl := spells _ (Path.site?_of_origin hbase)
    rw [hgrow tree unlinked] at h
    exact ⟨⟨hcheck hc, short_of_growTo hnames hn h⟩, hsite⟩

end

end Tree

end Bootstage
