import Mathlib.Data.List.Induction
import Bootstage.Tree.Files
import Bootstage.Proofs.Path.Names

/-!
# Straight walks

Along ordinary names and past no link a walk reaches the location that the names spell, exactly if
no name is too long and a directory stands wherever another name follows. What the system shows at
a straight path is then what stands at its location.
-/

namespace Bootstage

/-- A computation in two steps succeeds when both of them do. -/
theorem Except.bind_eq_ok_iff {ε α β : Type} {first : Except ε α} {next : α → Except ε β}
    {value : β} :
    (first >>= next) = .ok value ↔ ∃ middle, first = .ok middle ∧ next middle = .ok value := by
  cases first <;> simp [bind, Except.bind]

namespace Tree

/-- An entry below a location makes that location a directory. -/
theorem get?_above {tree : Tree} {above location : Location} {entry : Entry}
    (h : tree.get? location = some entry) (hp : above <+: location) (hne : above ≠ location) :
    tree.get? above = some .directory := by
  obtain ⟨below, rfl⟩ := hp
  induction below using List.reverseRecOn generalizing entry with
  | nil => simp at hne
  | append_singleton below name ih =>
    rw [← List.append_assoc] at h
    have hd := get?_parent h
    by_cases hb : below = []
    · simpa [hb] using hd
    · exact ih hd (by simpa using hb)

/-- Nothing stands below a location that is not a directory. -/
theorem get?_below_eq_none {tree : Tree} {above location : Location}
    (h : tree.get? above ≠ some .directory) (hp : above <+: location) (hne : above ≠ location) :
    tree.get? location = none := by
  cases hl : tree.get? location with
  | none => rfl
  | some entry => exact absurd (get?_above hl hp hne) h

/-- No link stands at a location or above it. -/
def Unlinked (tree : Tree) (location : Location) : Prop :=
  ∀ above, above <+: location → ∀ target, tree.get? above ≠ some (.link target)

/-- On the way to what is above there are no more links. -/
theorem Unlinked.above {tree : Tree} {above location : Location} (h : tree.Unlinked location)
    (hp : above <+: location) : tree.Unlinked above :=
  fun place hq => h place (hq.trans hp)

/-- Names that stay where they are lead nowhere else, and only from a directory. -/
private theorem walkNames_staying {tree : Tree} {last : LastName}
    {onLink : Location → Text.Bytes → List Name → Except SystemError Location}
    {here location : Location} {tail : List Name}
    (staying : ∀ name ∈ tail, name = [] ∨ name = ".") :
    tree.walkNames last onLink here tail = .ok location ↔
      location = here ∧ (tail ≠ [] → tree.get? here = some .directory) := by
  induction tail with
  | nil => simp [walkNames, eq_comm]
  | cons name tail ih =>
    have hn := staying name List.mem_cons_self
    have ht := ih fun other ho => staying other (List.mem_cons_of_mem name ho)
    rw [walkNames]
    split <;> simp_all

/-- Off a directory no name is walked. -/
theorem walkNames_cons_ne_ok {tree : Tree} {last : LastName}
    {onLink : Location → Text.Bytes → List Name → Except SystemError Location}
    {here location : Location} {name : Name} {names : List Name}
    (h : tree.get? here ≠ some .directory) :
    tree.walkNames last onLink here (name :: names) ≠ .ok location := by
  rw [walkNames]
  split <;> simp_all

/-- An ordinary name leads one step down unless it is too long. -/
theorem walkNames_cons {tree : Tree} {last : LastName}
    {onLink : Location → Text.Bytes → List Name → Except SystemError Location}
    {here : Location} {name : Name} {names : List Name}
    (hd : tree.get? here = some .directory) (hname : Path.IsOrdinary name)
    (hlink : ∀ target, tree.get? (here ++ [name]) ≠ some (.link target))
    (hopened : ¬(last = .created ∧ names = [[]])) :
    tree.walkNames last onLink here (name :: names) =
      if name.length > nameLimit then .error .nameTooLong
      else tree.walkNames last onLink (here ++ [name]) names := by
  rw [walkNames]
  simp only [hd, hname.1, hname.2.1, hname.2.2, hopened, or_self, if_false]

/-- Where a walk along ordinary names ends when no link is on the way. Behind the names others may
follow that stay; a name with a slash behind it is not walked to a file that is to be created. -/
theorem walkNames_eq_ok_iff {tree : Tree} {last : LastName}
    {onLink : Location → Text.Bytes → List Name → Except SystemError Location}
    {here location : Location} {names tail : List Name}
    (ordinary : ∀ name ∈ names, Path.IsOrdinary name) (unlinked : tree.Unlinked (here ++ names))
    (staying : ∀ name ∈ tail, name = [] ∨ name = ".") (opened : last ≠ .created ∨ tail = []) :
    tree.walkNames last onLink here (names ++ tail) = .ok location ↔
      location = here ++ names ∧ (∀ name ∈ names, name.length ≤ nameLimit) ∧
        ∀ above, above <+: names → (above ≠ names ∨ tail ≠ []) →
          tree.get? (here ++ above) = some .directory := by
  induction names generalizing here with
  | nil => simp [walkNames_staying staying]
  | cons name names ih =>
    have hrest := fun other ho => ordinary other (List.mem_cons_of_mem name ho)
    have hun : tree.Unlinked ((here ++ [name]) ++ names) := by simpa using unlinked
    have hsplit : (∀ above, above <+: name :: names → (above ≠ name :: names ∨ tail ≠ []) →
          tree.get? (here ++ above) = some .directory) ↔
        tree.get? here = some .directory ∧
          ∀ above, above <+: names → (above ≠ names ∨ tail ≠ []) →
            tree.get? ((here ++ [name]) ++ above) = some .directory := by
      constructor
      · intro h
        refine ⟨by simpa using h [] (List.nil_prefix) (by simp), fun above hp hne => ?_⟩
        simpa using h (name :: above) (by simpa using hp) (by simpa using hne)
      · rintro ⟨h0, h⟩ above hp hne
        cases above with
        | nil => simpa using h0
        | cons first above =>
          obtain ⟨rfl, hq⟩ := List.cons_prefix_cons.mp hp
          simpa using h above hq (by simpa using hne)
    have hopened : ¬(last = .created ∧ names ++ tail = [[]]) := by
      rintro ⟨hl, he⟩
      rcases opened with ho | rfl
      · exact ho hl
      · rw [List.append_nil] at he
        exact (hrest [] (by simp [he])).1 rfl
    rw [hsplit, List.cons_append]
    by_cases hd : tree.get? here = some .directory
    · rw [walkNames_cons hd (ordinary name List.mem_cons_self)
        (hun (here ++ [name]) (List.prefix_append _ _)) hopened]
      by_cases hlong : name.length > nameLimit
      · simp only [hlong, if_true, reduceCtorEq, false_iff, not_and]
        intro _ hshort
        exact absurd (hshort name List.mem_cons_self) (Nat.not_le.mpr hlong)
      · simp only [hlong, if_false, ih hrest hun, List.append_assoc, List.singleton_append,
          List.mem_cons, forall_eq_or_imp, Nat.not_lt.mp hlong, hd, true_and]
    · simp only [hd, false_and, and_false, iff_false]
      exact walkNames_cons_ne_ok hd

/-- The following of links plays no part in a walk on which there are none. -/
theorem walk_eq_ok_iff {tree : Tree} {last : LastName} {links : Nat} {here location : Location}
    {names tail : List Name}
    (ordinary : ∀ name ∈ names, Path.IsOrdinary name) (unlinked : tree.Unlinked (here ++ names))
    (staying : ∀ name ∈ tail, name = [] ∨ name = ".") (opened : last ≠ .created ∨ tail = []) :
    tree.walk last links here (names ++ tail) = .ok location ↔
      location = here ++ names ∧ (∀ name ∈ names, name.length ≤ nameLimit) ∧
        ∀ above, above <+: names → (above ≠ names ∨ tail ≠ []) →
          tree.get? (here ++ above) = some .directory := by
  cases links <;> exact walkNames_eq_ok_iff ordinary unlinked staying opened

/-- A path leads straight to a location: it spells the location, and no link stands there or on the
way to it. -/
structure Straight (tree : Tree) (cwd : Option Location) (path : Path) (site : Location) :
    Prop where
  /-- Every name on the path leads one step down. -/
  plain : path.Plain
  /-- The names lead to the location. -/
  spelled : path.site? cwd = some site
  /-- No link is on the way. -/
  unlinked : tree.Unlinked site

end Tree

/-- The system takes the path: its text and each of its names are within the limits. -/
structure Path.Accepted (path : Path) : Prop where
  /-- The text of the path is taken. -/
  check : path.check = .ok ()
  /-- No name is too long. -/
  short : ∀ name ∈ path.names, name.length ≤ nameLimit

namespace Tree.Straight

variable {tree : Tree} {cwd : Option Location} {path : Path} {site : Location}

theorem site_ne_root (h : tree.Straight cwd path site) : site ≠ [] := by
  obtain ⟨base, -, rfl⟩ := Path.exists_origin_of_site? h.spelled
  simp [h.plain.named]

/-- The directory that holds the last name and, where it matters, the last name itself are all the
directories that a walk needs, since those above them are then there. -/
private theorem directories_iff {base : Location} {names : List Name} {onSite : Prop}
    (named : names ≠ []) :
    (∀ above, above <+: names → (above ≠ names ∨ onSite) →
        tree.get? (base ++ above) = some .directory) ↔
      tree.get? (base ++ names).dropLast = some .directory ∧
        (onSite → tree.get? (base ++ names) = some .directory) := by
  obtain ⟨front, name, hn⟩ := (List.eq_nil_or_concat names).resolve_left named
  rw [List.concat_eq_append] at hn
  subst hn
  rw [← List.append_assoc, List.dropLast_concat]
  constructor
  · intro h
    refine ⟨h front (List.prefix_append _ _) (.inl (by simp)), fun hs => ?_⟩
    simpa using h (front ++ [name]) List.prefix_rfl (.inr hs)
  · rintro ⟨hd, hs⟩ above hp hor
    rcases List.prefix_concat_iff.mp hp with rfl | hq
    · simpa using hs (hor.resolve_left (not_not_intro rfl))
    · by_cases hf : above = front
      · rw [hf, hd]
      · exact get?_above hd ((List.prefix_append_right_inj base).mpr hq) (by simpa using hf)

/-- Where a straight path leads. -/
theorem locate_eq_ok_iff (h : tree.Straight cwd path site) {last : LastName} {location : Location}
    (opened : last ≠ .created ∨ path.endsInSlash = false) :
    tree.locate cwd path last = .ok location ↔
      path.Accepted ∧ location = site ∧ tree.get? site.dropLast = some .directory ∧
        (path.endsInSlash = true → tree.get? site = some .directory) := by
  obtain ⟨base, ho, rfl⟩ := Path.exists_origin_of_site? h.spelled
  have hw : path.walked = path.names ++ if path.endsInSlash then [[]] else [] := by
    rw [Path.walked]
    split <;> simp
  have hwalk := @walk_eq_ok_iff tree last linkLimit base location path.names
    (if path.endsInSlash then [[]] else []) h.plain.ordinary h.unlinked (by split <;> simp)
    (by simpa using opened)
  have hsplit : tree.locate cwd path last = .ok location ↔
      path.check = .ok () ∧ tree.walk last linkLimit base path.walked = .ok location := by
    cases hc : path.check <;> simp [locate, ho, hc, bind, Except.bind]
  rw [hsplit, hw, hwalk, directories_iff h.plain.named]
  constructor
  · rintro ⟨hc, hl, hs, hd, hslash⟩
    exact ⟨⟨hc, hs⟩, hl, hd, fun he => hslash (by simp [he])⟩
  · rintro ⟨⟨hc, hs⟩, hl, hd, hslash⟩
    exact ⟨hc, hl, hs, hd, fun he => hslash (by simpa using he)⟩

end Tree.Straight

end Bootstage
