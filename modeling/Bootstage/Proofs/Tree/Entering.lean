import Bootstage.Proofs.Tree.Clearable
import Bootstage.Proofs.Tree.Joining

/-!
# Entering a directory

The names behind a path are looked for in the directory that the path enters. What is shown behind
a path is therefore a matter of three things: whether the system takes the text, which directory is
entered, and what stands below that directory. The path may go up and follow links on its way.
-/

namespace Bootstage.Tree

variable {tree : Tree} {cwd : Option Location} {base right : Path} {here start : Location}

/-- No link stands at a place or below it. -/
def LinkFree (tree : Tree) (place : Location) : Prop :=
  ∀ location, place <+: location → ∀ text, tree.get? location ≠ some (.link text)

/-- The list of a tree has what stands in it but the root. -/
theorem mem_toList_iff {location : Location} {entry : Entry} :
    (location, entry) ∈ tree.toList ↔ location ≠ [] ∧ tree.get? location = some entry := by
  rw [toList, Std.ExtTreeMap.mem_toList_iff_getElem?_eq_some, get?]
  by_cases h : location = []
  · simp [h, tree.rootless]
  · simp [h]

/-- A place is free of links if none of the entries below it is a link. -/
theorem linkFree_iff {place : Location} :
    tree.LinkFree place ↔ ∀ found ∈ tree.toList, place <+: found.1 → found.2.isLink = false := by
  constructor
  · rintro h ⟨location, entry⟩ hm hp
    cases entry with
    | file content => rfl
    | directory => rfl
    | link text => exact absurd (mem_toList_iff.mp hm).2 (h location hp text)
  · intro h location hp text hl
    have hroot : location ≠ [] := by
      rintro rfl
      simp at hl
    simpa [Entry.isLink] using h _ (mem_toList_iff.mpr ⟨hroot, hl⟩) hp

instance (tree : Tree) (place : Location) : Decidable (tree.LinkFree place) :=
  decidable_of_iff _ linkFree_iff.symm

/-- The directory in which the names behind a path are looked for. -/
def entered (tree : Tree) (cwd : Option Location) (path : Path) : Except SystemError Location := do
  tree.walk .followed linkLimit (← path.origin cwd) (path.names ++ [Text.encode "."])

/-- One can stay in a directory and nowhere else. -/
theorem walk_dot {links : Nat} :
    tree.walk .followed links here [Text.encode "."] = .ok start ↔
      start = here ∧ tree.get? here = some .directory := by
  have hw : ∀ onLink, tree.walkNames .followed onLink here [Text.encode "."] = .ok start ↔
      start = here ∧ tree.get? here = some .directory := by
    intro onLink
    by_cases hd : tree.get? here = some .directory
    · simp only [walkNames, hd, or_true, if_true, Except.ok.injEq, and_true]
      exact eq_comm
    · simp only [hd, and_false, iff_false]
      exact walkNames_cons_ne_ok hd
  cases links <;> exact hw _

/-- What is walked behind names fails with them, or goes on from the place that they lead to. -/
private theorem walk_behind (tree : Tree) (origin : Location) (front : List Name) :
    (∃ cause, ∀ names ≠ [],
        tree.walk .followed linkLimit origin (front ++ names) = .error cause) ∨
      ∃ middle links, ∀ names ≠ [], tree.walk .followed linkLimit origin (front ++ names) =
        tree.walk .followed links middle names := by
  have onward : ∀ names : List Name, names ≠ [] → Onward .followed names :=
    fun _ named => ⟨by simp, named⟩
  rcases tree.continues_walk linkLimit origin front with
    ⟨cause, -, hwhole⟩ | ⟨middle, links, -, -, hwhole⟩
  · exact .inl ⟨cause, fun names named => hwhole _ _ (onward names named)⟩
  · exact .inr ⟨middle, links, fun names named => hwhole _ _ (onward names named)⟩

/-- An absolute path enters the same directory from everywhere. -/
theorem entered_anywhere (tree : Tree) (cwd later : Option Location)
    (h : base.isAbsolute = true) : tree.entered cwd base = tree.entered later base := by
  simp only [entered, Path.origin_of_isAbsolute h]

/-- What is entered is a directory. -/
theorem get?_of_entered (h : tree.entered cwd base = .ok start) :
    tree.get? start = some .directory := by
  obtain ⟨origin, -, hw⟩ := Except.bind_eq_ok_iff.mp h
  rcases tree.walk_behind origin base.names with ⟨cause, hwhole⟩ | ⟨middle, links, hwhole⟩
  · simp [hwhole [Text.encode "."] (by simp)] at hw
  · rw [hwhole [Text.encode "."] (by simp)] at hw
    obtain ⟨rfl, hd⟩ := walk_dot.mp hw
    exact hd

/-- No link is on the way to a place below a directory that has none below it. -/
theorem unlinked_below {names : List Name} (hd : tree.get? start = some .directory)
    (free : tree.LinkFree start) : tree.Unlinked (start ++ names) := by
  intro above hp text
  rcases List.prefix_or_prefix_of_prefix hp (List.prefix_append start names) with ha | hs
  · by_cases he : above = start
    · simp [he, hd]
    · simp [get?_above hd ha he]
  · exact free above hs text

/-- Where a path leads that has ordinary names behind another one, when no link is below the
directory that this one enters. -/
theorem locate_join_eq_ok_iff {place : Location} (relative : right.isAbsolute = false)
    (plain : right.Plain) (bare : right.endsInSlash = false)
    (free : ∀ start, tree.entered cwd base = .ok start → tree.LinkFree start) :
    tree.locate cwd (base.join right) = .ok place ↔
      (base.join right).check = .ok () ∧ ∃ start, tree.entered cwd base = .ok start ∧
        place = start ++ right.names ∧ (∀ name ∈ right.names, name.length ≤ nameLimit) ∧
          ∀ above, above <+: right.names → above ≠ right.names →
            tree.get? (start ++ above) = some .directory := by
  have hwalked : (base.join right).walked = base.names ++ right.names := by
    rw [Path.walked_join relative plain.bytes_ne_nil, Path.walked, bare]
    rfl
  cases hc : (base.join right).check with
  | error cause => simp [locate, hc, bind, Except.bind]
  | ok accepted =>
  cases ho : base.origin cwd with
  | error cause => simp [locate, entered, hc, Path.origin_join base relative, ho, bind, Except.bind]
  | ok origin =>
  have hentered : tree.entered cwd base =
      tree.walk .followed linkLimit origin (base.names ++ [Text.encode "."]) := by
    rw [entered, ho]
    rfl
  rw [hentered] at free ⊢
  rw [locate_eq_walk hc ((Path.origin_join base relative cwd).trans ho), hwalked]
  rcases tree.walk_behind origin base.names with ⟨cause, hwhole⟩ | ⟨middle, links, hwhole⟩
  · simp [hwhole right.names plain.named, hwhole [Text.encode "."] (by simp)]
  rw [hwhole right.names plain.named]
  rw [hwhole [Text.encode "."] (by simp)] at free ⊢
  simp only [walk_dot] at free ⊢
  by_cases hd : tree.get? middle = some .directory
  · have hun := @unlinked_below tree middle right.names hd (free middle ⟨rfl, hd⟩)
    have hwalk := @walk_eq_ok_iff tree .followed links middle place right.names [] plain.ordinary
      hun (by simp) (.inr rfl)
    rw [List.append_nil] at hwalk
    simp [hwalk, hd]
  · have hne : tree.walk .followed links middle right.names ≠ .ok place :=
      fun hw => hd (get?_of_walk plain.named hw)
    simp [hne, hd]

/-- A straight path enters the directory at its place. -/
theorem Straight.entered_eq_ok_iff {path : Path} {site : Location}
    (h : tree.Straight cwd path site) :
    tree.entered cwd path = .ok start ↔
      start = site ∧ (∀ name ∈ path.names, name.length ≤ nameLimit) ∧
        tree.get? site = some .directory := by
  obtain ⟨origin, ho, rfl⟩ := Path.exists_origin_of_site? h.spelled
  have hwalk := @walk_eq_ok_iff tree .followed linkLimit origin start path.names [Text.encode "."]
    h.plain.ordinary h.unlinked (by simp) (.inl (by decide))
  rw [entered, ho]
  refine hwalk.trans (and_congr_right fun _ => and_congr_right fun _ => ⟨fun hd => ?_, ?_⟩)
  · exact hd _ List.prefix_rfl (.inr (by simp))
  · intro hd above hp _
    by_cases he : above = path.names
    · rw [he, hd]
    · exact get?_above hd ((List.prefix_append_right_inj origin).mpr hp) (by simpa using he)

/-- Something is shown behind a path exactly if the path enters a directory and something stands
there under the names. -/
theorem present_join_iff (relative : right.isAbsolute = false) (plain : right.Plain)
    (bare : right.endsInSlash = false)
    (free : ∀ start, tree.entered cwd base = .ok start → tree.LinkFree start) :
    tree.present cwd (base.join right) = true ↔
      (base.join right).check = .ok () ∧ (∀ name ∈ right.names, name.length ≤ nameLimit) ∧
        ∃ start, tree.entered cwd base = .ok start ∧ tree.get? (start ++ right.names) ≠ none := by
  simp only [present_iff_exists_status, status_eq_ok_iff,
    locate_join_eq_ok_iff relative plain bare free]
  constructor
  · rintro ⟨entry, place, ⟨hc, start, he, rfl, hshort, -⟩, hg⟩
    exact ⟨hc, hshort, start, he, by simp [hg]⟩
  · rintro ⟨hc, hshort, start, he, hg⟩
    obtain ⟨entry, hentry⟩ := Option.ne_none_iff_exists'.mp hg
    refine ⟨entry, _, ⟨hc, start, he, rfl, hshort, fun above hp hne => ?_⟩, hentry⟩
    exact get?_above hentry ((List.prefix_append_right_inj start).mpr hp) (by simpa using hne)

end Bootstage.Tree
