import Bootstage.Proofs.Tree.StraightFiles

/-!
# Creating directories from the front

Names are walked from the front, and the directories that are missing on the way are created. What
that adds is directories alone, and only on the way to the location that the names spell.
-/

namespace Bootstage.Tree

/-- One tree has become the other by directories that were missing on the way to a location. -/
def Grown (before after : Tree) (site : Location) : Prop :=
  ∀ location, after.get? location = before.get? location ∨
    location <+: site ∧ before.get? location = none ∧ after.get? location = some .directory

theorem Grown.refl (tree : Tree) (site : Location) : tree.Grown tree site :=
  fun _ => .inl rfl

theorem Grown.trans {first second third : Tree} {site : Location} (h : first.Grown second site)
    (h' : second.Grown third site) : first.Grown third site := by
  intro location
  rcases h location with h | ⟨hp, hn, hd⟩
  · rw [← h]
    exact h' location
  · rcases h' location with h' | ⟨-, hn', -⟩
    · exact .inr ⟨hp, hn, h'.trans hd⟩
    · rw [hd] at hn'
      contradiction

/-- Whatever was there still is. -/
theorem Grown.get?_of_get? {before after : Tree} {site location : Location} {entry : Entry}
    (h : before.Grown after site) (he : before.get? location = some entry) :
    after.get? location = some entry := by
  rcases h location with hs | ⟨-, hn, -⟩
  · rw [hs, he]
  · simp [hn] at he

/-- New directories are no links. -/
theorem Unlinked.of_grown {before after : Tree} {site location : Location}
    (h : before.Unlinked location) (hg : before.Grown after site) : after.Unlinked location := by
  intro above hp target
  rcases hg above with he | ⟨-, -, hd⟩
  · rw [he]
    exact h above hp target
  · simp [hd]

/-- One more directory on the way to a place makes a tree grow. -/
theorem grown_put {tree : Tree} {location site : Location} (hp : location <+: site)
    (hd : tree.get? location.dropLast = some .directory) (hn : tree.get? location = none) :
    tree.Grown (tree.put location .directory) site := by
  have hne : location ≠ [] := by
    rintro rfl
    simp at hn
  intro found
  rw [get?_put ⟨hne, hd, fun _ => rfl⟩]
  split
  · next he => exact .inr (by simp [he, hp, hn])
  · exact .inl rfl

/-! ### Walking and creating -/

/-- Names can be walked further from directories alone. -/
def requireDirectory (tree : Tree) (here : Location) : Except SystemError Unit :=
  match tree.get? here with
  | none => .error .notFound
  | some .directory => .ok ()
  | some _ => .error .notDirectory

/-- The directory that ordinary names lead to, or what is in the way. -/
def reach (tree : Tree) (here : Location) : List Name → Except SystemError Location
  | [] => do
    tree.requireDirectory here
    return here
  | name :: rest => do
    tree.requireDirectory here
    if name.length > nameLimit then throw .nameTooLong
    else tree.reach (here ++ [name]) rest

/-- Creates the directories that are missing along ordinary names. -/
def growTo (tree : Tree) (here : Location) : List Name → Except SystemError Unit × Tree
  | [] => (.ok (), tree)
  | name :: rest =>
    match tree.requireDirectory here with
    | .error cause => (.error cause, tree)
    | .ok () =>
      if name.length > nameLimit then (.error .nameTooLong, tree)
      else
        match tree.get? (here ++ [name]) with
        | none => (tree.put (here ++ [name]) .directory).growTo (here ++ [name]) rest
        | some .directory => tree.growTo (here ++ [name]) rest
        | some _ => (.error (if rest = [] then .alreadyExists else .notDirectory), tree)

/-- A directory is required with success where there is one. -/
theorem requireDirectory_eq_ok_iff {tree : Tree} {here : Location} :
    tree.requireDirectory here = .ok () ↔ tree.get? here = some .directory := by
  unfold requireDirectory
  split <;> simp_all

section

variable {tree left : Tree} {here : Location} {names rest : List Name}

/-- Names lead to the location that they spell, if they are short and all of it is directories. -/
theorem reach_eq_ok_iff {parent : Location} :
    tree.reach here names = .ok parent ↔
      parent = here ++ names ∧ (∀ name ∈ names, name.length ≤ nameLimit) ∧
        tree.get? (here ++ names) = some .directory := by
  induction names generalizing here with
  | nil =>
    rw [reach, Except.bind_eq_ok_iff]
    simp only [List.append_nil]
    constructor
    · rintro ⟨⟨⟩, hd, hp⟩
      exact ⟨(Except.ok.inj hp).symm, by simp, requireDirectory_eq_ok_iff.mp hd⟩
    · rintro ⟨rfl, -, hd⟩
      exact ⟨(), requireDirectory_eq_ok_iff.mpr hd, rfl⟩
  | cons name names ih =>
    have ih' := @ih (here ++ [name])
    rw [List.append_assoc, List.singleton_append] at ih'
    rw [reach, Except.bind_eq_ok_iff]
    simp only [List.mem_cons, forall_eq_or_imp]
    constructor
    · rintro ⟨⟨⟩, -, hp⟩
      split at hp
      · simp [throw, throwThe, MonadExceptOf.throw] at hp
      · next hshort =>
        obtain ⟨he, hs, hl⟩ := ih'.mp hp
        exact ⟨he, ⟨Nat.not_lt.mp hshort, hs⟩, hl⟩
    · rintro ⟨he, ⟨hshort, hs⟩, hl⟩
      have hd : tree.get? here = some .directory :=
        get?_above hl (List.prefix_append _ _) (by simp)
      refine ⟨(), requireDirectory_eq_ok_iff.mpr hd, ?_⟩
      rw [if_neg (Nat.not_lt.mpr hshort)]
      exact ih'.mpr ⟨he, hs, hl⟩

/-- That something exists already is no reason for a directory to be missing. -/
theorem requireDirectory_ne_alreadyExists {cause : SystemError}
    (h : tree.requireDirectory here = .error cause) : cause ≠ .alreadyExists := by
  rintro rfl
  unfold requireDirectory at h
  split at h <;> simp at h

/-- Where nothing is, a directory is not found. -/
theorem requireDirectory_of_none (h : tree.get? here = none) :
    tree.requireDirectory here = .error .notFound := by
  simp [requireDirectory, h]

/-- What is no directory is told to be none. -/
theorem requireDirectory_of_ne {entry : Entry} (h : tree.get? here = some entry)
    (hne : entry ≠ .directory) : tree.requireDirectory here = .error .notDirectory := by
  cases entry <;> simp_all [requireDirectory]

/-- Off a directory names lead nowhere. -/
theorem reach_of_requireDirectory {cause : SystemError}
    (h : tree.requireDirectory here = .error cause) : tree.reach here names = .error cause := by
  cases names <;> simp [reach, h, bind, Except.bind]

/-- A directory that is there already is passed. -/
theorem growTo_cons_of_directory {name : Name}
    (h : tree.get? (here ++ [name]) = some .directory) (hshort : ¬ name.length > nameLimit) :
    tree.growTo here (name :: names) = tree.growTo (here ++ [name]) names := by
  rw [growTo, requireDirectory_eq_ok_iff.mpr (get?_parent h)]
  simp only [hshort, if_false, h]

/-- A directory that is missing is created. -/
theorem growTo_cons_of_none {name : Name} (hd : tree.get? here = some .directory)
    (h : tree.get? (here ++ [name]) = none) (hshort : ¬ name.length > nameLimit) :
    tree.growTo here (name :: names) =
      (tree.put (here ++ [name]) .directory).growTo (here ++ [name]) names := by
  rw [growTo, requireDirectory_eq_ok_iff.mpr hd]
  simp only [hshort, if_false, h]

/-- Names along directories need nothing to be created. -/
theorem growTo_of_reach (h : ∃ parent, tree.reach here names = .ok parent) :
    tree.growTo here names = (.ok (), tree) := by
  induction names generalizing here with
  | nil => rfl
  | cons name names ih =>
    obtain ⟨parent, hp⟩ := h
    obtain ⟨-, hs, hl⟩ := reach_eq_ok_iff.mp hp
    have hd : tree.get? here = some .directory :=
      get?_above hl (List.prefix_append _ _) (by simp)
    have hl' : tree.get? ((here ++ [name]) ++ names) = some .directory := by simpa using hl
    have hn : tree.get? (here ++ [name]) = some .directory := by
      by_cases he : names = []
      · simpa [he] using hl'
      · exact get?_above hl' (List.prefix_append _ _) (by simpa using he)
    have hshort := Nat.not_lt.mpr (hs name List.mem_cons_self)
    rw [growTo, requireDirectory_eq_ok_iff.mpr hd]
    simp only [hshort, if_false, hn]
    refine ih ⟨_, reach_eq_ok_iff.mpr ⟨rfl, fun other ho => ?_, hl'⟩⟩
    exact hs other (List.mem_cons_of_mem _ ho)

/-- What is in the way of a walk is in the way of creating. -/
theorem growTo_concat_of_reach_error {cause : SystemError} {name : Name}
    (h : tree.reach here names = .error cause) (hc : cause ≠ .notFound) :
    tree.growTo here (names ++ [name]) = (.error cause, tree) := by
  induction names generalizing here with
  | nil =>
    cases hd : tree.requireDirectory here with
    | ok done => simp [reach, hd, bind, Except.bind, pure, Except.pure] at h
    | error other =>
      have he : other = cause := by simpa [reach, hd, bind, Except.bind] using h
      simp [growTo, hd, he]
  | cons first names ih =>
    rw [List.cons_append, growTo]
    rw [reach] at h
    cases hd : tree.requireDirectory here with
    | error other =>
      have he : other = cause := by simpa [hd, bind, Except.bind] using h
      simp [he]
    | ok done =>
      simp only [hd, bind, Except.bind] at h
      split at h
      · next hlong =>
        have he : SystemError.nameTooLong = cause := by
          simpa [throw, throwThe, MonadExceptOf.throw] using h
        simp [hlong, he]
      · next hshort =>
        simp only [hshort, if_false]
        cases hg : tree.get? (here ++ [first]) with
        | none =>
          rw [reach_of_requireDirectory (requireDirectory_of_none hg)] at h
          exact absurd (Except.error.inj h).symm hc
        | some entry =>
          by_cases he : entry = .directory
          · subst he
            exact ih h
          · rw [reach_of_requireDirectory (requireDirectory_of_ne hg he)] at h
            obtain rfl := Except.error.inj h
            cases entry <;> simp_all

theorem accepts_directory {name : Name} (h : tree.get? here = some .directory) :
    tree.Accepts (here ++ [name]) .directory :=
  ⟨by simp, by rwa [List.dropLast_concat], fun _ => rfl⟩

/-- What creating along names adds is on the way, and directories. -/
theorem grown_growTo : tree.Grown (tree.growTo here names).2 (here ++ names) := by
  induction names generalizing tree here with
  | nil => exact .refl _ _
  | cons name names ih =>
    have hsite : here ++ name :: names = (here ++ [name]) ++ names := by simp
    rw [growTo, hsite]
    split
    · exact .refl _ _
    · next hd =>
      have hdir := requireDirectory_eq_ok_iff.mp hd
      split
      · exact .refl _ _
      · split
        · next hn =>
          refine Grown.trans (grown_put (List.prefix_append _ _) ?_ hn) ih
          rwa [List.dropLast_concat]
        · exact ih
        · exact .refl _ _

/-- Names along which all could be created are short, and lead to a directory. -/
theorem of_growTo_eq_ok (h : tree.growTo here names = (.ok (), left))
    (hd : tree.get? here = some .directory ∨ names ≠ []) :
    (∀ name ∈ names, name.length ≤ nameLimit) ∧
      left.get? (here ++ names) = some .directory := by
  induction names generalizing tree here with
  | nil =>
    obtain rfl : tree = left := (Prod.mk.inj h).2
    simpa using hd
  | cons name names ih =>
    have hsite : here ++ name :: names = (here ++ [name]) ++ names := by simp
    rw [growTo] at h
    split at h
    · simp at h
    · next hr =>
      have hdir := requireDirectory_eq_ok_iff.mp hr
      split at h
      · simp at h
      · next hshort =>
        rw [hsite]
        simp only [List.mem_cons, forall_eq_or_imp, Nat.not_lt.mp hshort, true_and]
        split at h
        · refine ih h (.inl ?_)
          simp [get?_put (accepts_directory hdir)]
        · next hn => exact ih h (.inl hn)
        · simp at h

/-- Creating along more names goes on where creating along the first of them has ended. Only a file
at the end of the first names is now in the way of others. -/
theorem growTo_append :
    tree.growTo here (names ++ rest) =
      match tree.growTo here names with
      | (.ok (), left) => left.growTo (here ++ names) rest
      | (.error cause, left) =>
        (.error (if cause = .alreadyExists ∧ rest ≠ [] then .notDirectory else cause), left) := by
  induction names generalizing tree here with
  | nil => simp [growTo]
  | cons name names ih =>
    have hsite : here ++ name :: names = (here ++ [name]) ++ names := by simp
    rw [List.cons_append, growTo, growTo, hsite]
    cases hr : tree.requireDirectory here with
    | error cause => simp [requireDirectory_ne_alreadyExists hr]
    | ok done =>
      dsimp only
      by_cases hlong : name.length > nameLimit
      · simp [hlong]
      · simp only [hlong, if_false]
        cases hg : tree.get? (here ++ [name]) with
        | none => exact ih
        | some entry =>
          cases entry with
          | directory => exact ih
          | file content | link target =>
            by_cases hn : names = [] <;> by_cases hrest : rest = [] <;> simp [hn, hrest]

/-- Where nothing stands below, no file is in the way. -/
theorem growTo_ne_alreadyExists_of_empty (h : ∀ name, tree.get? (here ++ [name]) = none) :
    (tree.growTo here names).1 ≠ .error .alreadyExists := by
  induction names generalizing tree here with
  | nil => simp [growTo]
  | cons name names ih =>
    rw [growTo]
    cases hr : tree.requireDirectory here with
    | error cause => simpa using requireDirectory_ne_alreadyExists hr
    | ok done =>
      have hdir := requireDirectory_eq_ok_iff.mp hr
      dsimp only
      split
      · simp
      · rw [h name]
        refine ih fun next => ?_
        rw [get?_put (accepts_directory hdir), if_neg (by simp)]
        exact get?_below_eq_none (by simp [h name]) (List.prefix_append _ [next]) (by simp)

/-- A name that is missing on the way leaves no file to be in the way. -/
theorem growTo_ne_alreadyExists (h : tree.reach here names = .error .notFound) :
    (tree.growTo here names).1 ≠ .error .alreadyExists := by
  induction names generalizing here with
  | nil => simp [growTo]
  | cons name names ih =>
    rw [growTo]
    rw [reach] at h
    cases hr : tree.requireDirectory here with
    | error cause => simpa using requireDirectory_ne_alreadyExists hr
    | ok done =>
      have hdir := requireDirectory_eq_ok_iff.mp hr
      simp only [hr, bind, Except.bind] at h
      dsimp only
      split at h
      · simp [throw, throwThe, MonadExceptOf.throw] at h
      · next hshort =>
        rw [if_neg hshort]
        cases hg : tree.get? (here ++ [name]) with
        | none =>
          refine growTo_ne_alreadyExists_of_empty fun next => ?_
          rw [get?_put (accepts_directory hdir), if_neg (by simp)]
          exact get?_below_eq_none (by simp [hg]) (List.prefix_append _ [next]) (by simp)
        | some entry =>
          by_cases he : entry = .directory
          · subst he
            exact ih h
          · rw [reach_of_requireDirectory (requireDirectory_of_ne hg he)] at h
            simp at h

end

end Bootstage.Tree
