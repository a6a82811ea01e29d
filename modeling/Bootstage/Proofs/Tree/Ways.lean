import Bootstage.Proofs.Tree.StraightFiles

/-!
# Ways through a changing tree

A walk goes through directories and follows links. So what it leads to is found again in every tree
that has the same links and all the directories, whatever else is added.
-/

namespace Bootstage.Tree

/-- What one name of a walk that succeeds does: it stays, goes up, or goes down to something that is
a link, which is kept or followed, or is none. -/
theorem walkNames_cons_eq_ok_iff {tree : Tree} {last : LastName}
    {onLink : Location → Text.Bytes → List Name → Except SystemError Location}
    {here location : Location} {name : Name} {rest : List Name} :
    tree.walkNames last onLink here (name :: rest) = .ok location ↔
      tree.get? here = some .directory ∧
        ((name = [] ∨ name = ".") ∧ tree.walkNames last onLink here rest = .ok location ∨
          name = ".." ∧ tree.walkNames last onLink here.dropLast rest = .ok location ∨
          (Path.IsOrdinary name ∧ ¬(last = .created ∧ rest = [[]]) ∧
              name.length ≤ nameLimit) ∧
            ((∃ target, tree.get? (here ++ [name]) = some (.link target) ∧
                (last = .kept ∧ rest = [] ∧ location = here ++ [name] ∨
                  ¬(last = .kept ∧ rest = []) ∧ onLink here target rest = .ok location)) ∨
              (∀ target, tree.get? (here ++ [name]) ≠ some (.link target)) ∧
                tree.walkNames last onLink (here ++ [name]) rest = .ok location)) := by
  by_cases hd : tree.get? here = some .directory
  swap
  · simp only [hd, false_and, iff_false]
    exact walkNames_cons_ne_ok hd
  rw [walkNames, hd]
  simp only [true_and]
  by_cases hstay : name = [] ∨ name = "."
  · have hup : name ≠ ".." := by rcases hstay with rfl | rfl <;> decide
    have hord : ¬ Path.IsOrdinary name := fun ho => hstay.elim ho.1 ho.2.1
    simp [hstay, hup, hord]
  by_cases hup : name = ".."
  · subst hup
    simp [Path.IsOrdinary]
  have hord : Path.IsOrdinary name := ⟨fun h => hstay (.inl h), fun h => hstay (.inr h), hup⟩
  simp only [hstay, hup, hord, if_false, false_and, false_or, true_and]
  by_cases hopen : last = .created ∧ rest = [[]]
  · simp [hopen]
  by_cases hlong : name.length > nameLimit
  · simp [hopen, hlong, Nat.not_le.mpr hlong]
  simp only [hopen, hlong, if_false, not_false_eq_true, Nat.not_lt.mp hlong, true_and]
  split
  · next target hl =>
    by_cases hkept : last = .kept ∧ rest = []
    · simp [hl, hkept, eq_comm]
    · have hne : ¬(last = .kept ∧ rest = [] ∧ location = here ++ [name]) :=
        fun hk => hkept ⟨hk.1, hk.2.1⟩
      simp only [hl, hkept, hne, if_false, false_or, not_false_eq_true, true_and,
        Option.some.injEq, Entry.link.injEq, exists_eq_left']
      simp
  · next hl =>
    have hno : ¬ ∃ target, tree.get? (here ++ [name]) = some (.link target) ∧
        (last = .kept ∧ rest = [] ∧ location = here ++ [name] ∨
          ¬(last = .kept ∧ rest = []) ∧ onLink here target rest = .ok location) := by
      rintro ⟨target, ht, -⟩
      exact hl target ht
    simp only [hno, false_or]
    exact ⟨fun hw => ⟨hl, hw⟩, fun hw => hw.2⟩

/-- Every way through the one tree is a way through the other: the directories are still there, and
the links are the same. -/
structure WaysKept (before after : Tree) : Prop where
  /-- No directory is lost. -/
  directory : ∀ location, before.get? location = some .directory →
    after.get? location = some .directory
  /-- No link is new. -/
  old : ∀ location target, after.get? location = some (.link target) →
    before.get? location = some (.link target)
  /-- No link is lost. -/
  link : ∀ location target, before.get? location = some (.link target) →
    after.get? location = some (.link target)

namespace WaysKept

variable {before after : Tree} {cwd : Option Location} {path : Path} {last : LastName}
  {location : Location}

theorem refl (tree : Tree) : tree.WaysKept tree :=
  ⟨fun _ hd => hd, fun _ _ hl => hl, fun _ _ hl => hl⟩

theorem trans {middle : Tree} (h : before.WaysKept middle) (h' : middle.WaysKept after) :
    before.WaysKept after where
  directory location hd := h'.directory location (h.directory location hd)
  old location target hl := h.old location target (h'.old location target hl)
  link location target hl := h'.link location target (h.link location target hl)

/-- Along names a way that is kept leads to the same place. -/
private theorem walkNames (h : before.WaysKept after)
    {onLink onLink' : Location → Text.Bytes → List Name → Except SystemError Location}
    (follow : ∀ here target rest place, onLink here target rest = .ok place →
      onLink' here target rest = .ok place)
    {here : Location} {names : List Name}
    (hw : before.walkNames last onLink here names = .ok location) :
    after.walkNames last onLink' here names = .ok location := by
  induction names generalizing here with
  | nil => exact hw
  | cons name rest ih =>
    obtain ⟨hd, hstep⟩ := walkNames_cons_eq_ok_iff.mp hw
    refine walkNames_cons_eq_ok_iff.mpr ⟨h.directory here hd, ?_⟩
    rcases hstep with ⟨hn, hr⟩ | ⟨hn, hr⟩ | ⟨hn, ⟨target, hl, hr⟩ | ⟨hl, hr⟩⟩
    · exact .inl ⟨hn, ih hr⟩
    · exact .inr (.inl ⟨hn, ih hr⟩)
    · refine .inr (.inr ⟨hn, .inl ⟨target, h.link _ _ hl, ?_⟩⟩)
      exact hr.imp_right fun ⟨hk, hf⟩ => ⟨hk, follow _ _ _ _ hf⟩
    · exact .inr (.inr ⟨hn, .inr ⟨fun target ha => hl target (h.old _ _ ha), ih hr⟩⟩)

private theorem walk (h : before.WaysKept after) {links : Nat} {here : Location}
    {names : List Name} (hw : before.walk last links here names = .ok location) :
    after.walk last links here names = .ok location := by
  induction links generalizing here names location with
  | zero => exact h.walkNames (fun _ _ _ _ hl => hl) hw
  | succ links ih => exact h.walkNames (fun _ _ _ _ hl => ih hl) hw

/-- A path leads where it led. -/
theorem locate (h : before.WaysKept after) (hl : before.locate cwd path last = .ok location) :
    after.locate cwd path last = .ok location := by
  obtain ⟨⟨⟩, hc, hw⟩ := Except.bind_eq_ok_iff.mp hl
  obtain ⟨base, ho, hw⟩ := Except.bind_eq_ok_iff.mp hw
  exact Except.bind_eq_ok_iff.mpr ⟨(), hc, Except.bind_eq_ok_iff.mpr ⟨base, ho, h.walk hw⟩⟩

/-- A file is read as before if it is still there. -/
theorem read (h : before.WaysKept after) {content : Text.Bytes}
    (files : ∀ place, before.get? place = some (.file content) →
      after.get? place = some (.file content))
    (hr : before.read cwd path = .ok content) : after.read cwd path = .ok content := by
  obtain ⟨place, hl, hg⟩ := read_eq_ok_iff.mp hr
  exact read_eq_ok_iff.mpr ⟨place, h.locate hl, files place hg⟩

end WaysKept

/-- A working directory that is lost makes no path lead elsewhere. -/
theorem locate_of_locate {tree : Tree} {cwd earlier : Option Location} {path : Path}
    {last : LastName} {location : Location}
    (h : ∀ location, cwd = some location → earlier = some location)
    (hl : tree.locate cwd path last = .ok location) :
    tree.locate earlier path last = .ok location := by
  obtain ⟨⟨⟩, hc, hw⟩ := Except.bind_eq_ok_iff.mp hl
  obtain ⟨base, ho, hw⟩ := Except.bind_eq_ok_iff.mp hw
  have ho' : path.origin earlier = .ok base := by
    cases cwd with
    | some location => rwa [h location rfl]
    | none =>
      cases ha : path.isAbsolute with
      | true => rwa [Path.origin_of_isAbsolute ha] at ho ⊢
      | false => simp [Path.origin, ha] at ho
  exact Except.bind_eq_ok_iff.mpr ⟨(), hc, Except.bind_eq_ok_iff.mpr ⟨base, ho', hw⟩⟩

/-- What is read without the working directory is read with it. -/
theorem read_of_read {tree : Tree} {cwd earlier : Option Location} {path : Path}
    {content : Text.Bytes} (h : ∀ location, cwd = some location → earlier = some location)
    (hr : tree.read cwd path = .ok content) : tree.read earlier path = .ok content := by
  obtain ⟨place, hl, hg⟩ := read_eq_ok_iff.mp hr
  exact read_eq_ok_iff.mpr ⟨place, locate_of_locate h hl, hg⟩

end Bootstage.Tree
