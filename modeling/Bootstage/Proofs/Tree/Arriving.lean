import Bootstage.Proofs.Tree.Passing
import Bootstage.Proofs.Tree.Writing

/-!
# Where a path arrives

Also a path that goes up and follows links arrives under its last name, unless a link stands there.
A path that comes by no link arrives at one place at most, in every tree without new links. What
else is in the tree and what is not decides only whether it arrives.
-/

namespace Bootstage.Tree

variable {tree before after : Tree} {cwd later : Option Location} {path : Path}
  {location place : Location}

/-! ### The working directory -/

/-- A relative path that arrives comes by the working directory, and this is there. -/
theorem exists_base_of_locate {last : LastName} (ha : path.isAbsolute = false)
    (h : tree.locate cwd path last = .ok location) :
    ∃ base, cwd = some base ∧ tree.get? base = some .directory ∧
      base ∈ tree.passed cwd path last := by
  obtain ⟨⟨⟩, hc, hw⟩ := Except.bind_eq_ok_iff.mp h
  obtain ⟨start, ho, hw⟩ := Except.bind_eq_ok_iff.mp hw
  cases cwd with
  | none => simp [Path.origin, ha] at ho
  | some base =>
    obtain rfl : base = start := by simpa [Path.origin, Path.start, ha] using ho
    have htext : path.bytes ≠ [] := fun ht => by simp [Path.check, ht] at hc
    obtain ⟨name, rest, hwalked⟩ := List.exists_cons_of_ne_nil (Path.walked_ne_nil htext)
    rw [hwalked] at hw
    refine ⟨base, rfl, ?_, ?_⟩
    · by_contra hd
      cases hlinks : linkLimit <;> rw [hlinks] at hw <;> exact walkNames_cons_ne_ok hd hw
    · rw [passed, ho, hwalked]
      cases linkLimit <;> simp [pass, passNames]

/-- Only relative paths miss a working directory that is lost. -/
theorem locate_held (hd : path.isAbsolute = false → tree.held cwd = cwd) (last : LastName) :
    tree.locate (tree.held cwd) path last = tree.locate cwd path last ∧
      tree.passed (tree.held cwd) path last = tree.passed cwd path last := by
  cases ha : path.isAbsolute with
  | true => simp only [locate, passed, Path.origin_of_isAbsolute ha, and_self]
  | false => simp only [hd ha, and_self]

/-- A path arrives where it arrived if all that it comes by is the same. -/
theorem locate_held_congr {last : LastName}
    (same : ∀ place ∈ before.passed cwd path last, after.get? place = before.get? place)
    (h : before.locate cwd path last = .ok location) :
    after.locate (after.held cwd) path last = .ok location ∧
      after.passed (after.held cwd) path last = before.passed cwd path last := by
  have hheld : path.isAbsolute = false → after.held cwd = cwd := by
    intro ha
    obtain ⟨base, rfl, hd, hm⟩ := exists_base_of_locate ha h
    exact held_eq_some_iff.mpr ⟨rfl, (same base hm).trans hd⟩
  obtain ⟨hlocate, hpassed⟩ := locate_congr same
  rw [(locate_held hheld last).1, (locate_held hheld last).2, hlocate, hpassed]
  exact ⟨h, rfl⟩

/-- A path arrives where it arrived if all ways are kept. -/
theorem WaysKept.locate_held (h : before.WaysKept after) {last : LastName}
    (hl : before.locate cwd path last = .ok location) :
    after.locate (after.held cwd) path last = .ok location := by
  have hheld : path.isAbsolute = false → after.held cwd = cwd := by
    intro ha
    obtain ⟨base, rfl, hd, -⟩ := exists_base_of_locate ha hl
    exact held_eq_some_iff.mpr ⟨rfl, h.directory base hd⟩
  rw [(Tree.locate_held hheld last).1]
  exact h.locate hl

/-! ### The last name -/

/-- A walk along names ends under the last of them, or at a link that stands there. -/
private theorem getLast?_of_walkNames {last : LastName} {name : Name}
    (hname : Path.IsOrdinary name)
    {onLink onKept : Location → Text.Bytes → List Name → Except SystemError Location}
    (follow : ∀ here target names, onLink here target (names ++ [name]) = .ok location →
      location.getLast? = some name ∨
        ∃ kept target', onKept here target (names ++ [name]) = .ok kept ∧
          tree.get? kept = some (.link target'))
    {here : Location} {front : List Name}
    (h : tree.walkNames last onLink here (front ++ [name]) = .ok location) :
    location.getLast? = some name ∨
      ∃ kept target, tree.walkNames .kept onKept here (front ++ [name]) = .ok kept ∧
        tree.get? kept = some (.link target) := by
  induction front generalizing here with
  | nil =>
    obtain ⟨hd, hstep⟩ := walkNames_cons_eq_ok_iff.mp h
    rcases hstep with ⟨hn, -⟩ | ⟨hn, -⟩ | ⟨⟨-, -, hshort⟩, ⟨target, hl, -⟩ | ⟨-, hr⟩⟩
    · exact absurd hn (not_or.mpr ⟨hname.1, hname.2.1⟩)
    · exact absurd hn hname.2.2
    · refine .inr ⟨here ++ [name], target, walkNames_cons_eq_ok_iff.mpr ⟨hd, ?_⟩, hl⟩
      exact .inr (.inr ⟨⟨hname, by simp, hshort⟩, .inl ⟨target, hl, .inl ⟨rfl, rfl, rfl⟩⟩⟩)
    · obtain rfl : here ++ [name] = location := Except.ok.inj hr
      simp
  | cons next front ih =>
    obtain ⟨hd, hstep⟩ := walkNames_cons_eq_ok_iff.mp h
    rcases hstep with ⟨hn, hr⟩ | ⟨hn, hr⟩ | ⟨⟨hn, -, hshort⟩, ⟨target, hl, hr⟩ | ⟨hl, hr⟩⟩
    · refine (ih hr).imp_right ?_
      rintro ⟨kept, target, hw, hg⟩
      exact ⟨kept, target, walkNames_cons_eq_ok_iff.mpr ⟨hd, .inl ⟨hn, hw⟩⟩, hg⟩
    · refine (ih hr).imp_right ?_
      rintro ⟨kept, target, hw, hg⟩
      exact ⟨kept, target, walkNames_cons_eq_ok_iff.mpr ⟨hd, .inr (.inl ⟨hn, hw⟩)⟩, hg⟩
    · rcases hr with ⟨-, hrest, -⟩ | ⟨-, hr⟩
      · simp at hrest
      · refine (follow here target front hr).imp_right ?_
        rintro ⟨kept, target', hw, hg⟩
        refine ⟨kept, target', walkNames_cons_eq_ok_iff.mpr ⟨hd, .inr (.inr ?_)⟩, hg⟩
        exact ⟨⟨hn, by simp, hshort⟩, .inl ⟨target, hl, .inr ⟨by simp, hw⟩⟩⟩
    · refine (ih hr).imp_right ?_
      rintro ⟨kept, target, hw, hg⟩
      refine ⟨kept, target, walkNames_cons_eq_ok_iff.mpr ⟨hd, .inr (.inr ?_)⟩, hg⟩
      exact ⟨⟨hn, by simp, hshort⟩, .inr ⟨hl, hw⟩⟩

private theorem getLast?_of_walk {last : LastName} {name : Name} (hname : Path.IsOrdinary name)
    {links : Nat} {here : Location} {front : List Name}
    (h : tree.walk last links here (front ++ [name]) = .ok location) :
    location.getLast? = some name ∨
      ∃ kept target, tree.walk .kept links here (front ++ [name]) = .ok kept ∧
        tree.get? kept = some (.link target) := by
  induction links generalizing here front location with
  | zero => exact getLast?_of_walkNames hname (fun _ _ _ hl => by simp at hl) h
  | succ links ih =>
    refine getLast?_of_walkNames hname (fun here target names hl => ?_) h
    rw [← List.append_assoc] at hl ⊢
    exact ih hl

/-- Behind any path a name is arrived at, or a link stands under it. -/
theorem getLast?_of_locate {last : LastName} {name : Name} (hname : Path.IsName name)
    (h : tree.locate cwd (path / name) last = .ok location) :
    location.getLast? = some name ∨
      ∃ kept target, tree.locate cwd (path / name) .kept = .ok kept ∧
        tree.get? kept = some (.link target) := by
  obtain ⟨⟨⟩, hc, hw⟩ := Except.bind_eq_ok_iff.mp h
  obtain ⟨base, ho, hw⟩ := Except.bind_eq_ok_iff.mp hw
  have hwalked : (path / name).walked = path.names ++ [name] := by
    rw [Path.walked, hname.endsInSlash_join path, if_neg (by simp), ← hname.names]
    exact Path.names_join hname.isAbsolute
  rw [hwalked] at hw
  refine (getLast?_of_walk ⟨hname.ne_empty, hname.descends⟩ hw).imp_right ?_
  rintro ⟨kept, target, hk, hg⟩
  rw [← hwalked] at hk
  exact ⟨kept, target, Except.bind_eq_ok_iff.mpr
    ⟨(), hc, Except.bind_eq_ok_iff.mpr ⟨base, ho, hk⟩⟩, hg⟩

/-- Where a file could be created and stands, names lead to it. -/
private theorem walkNames_of_created
    {onLink onLink' : Location → Text.Bytes → List Name → Except SystemError Location}
    (follow : ∀ here target rest, onLink here target rest = .ok location →
      onLink' here target rest = .ok location)
    {here : Location} {names : List Name}
    (h : tree.walkNames .created onLink here names = .ok location) :
    tree.walkNames .followed onLink' here names = .ok location := by
  induction names generalizing here with
  | nil => exact h
  | cons name rest ih =>
    obtain ⟨hd, hstep⟩ := walkNames_cons_eq_ok_iff.mp h
    refine walkNames_cons_eq_ok_iff.mpr ⟨hd, ?_⟩
    rcases hstep with ⟨hn, hr⟩ | ⟨hn, hr⟩ | ⟨⟨hn, -, hshort⟩, ⟨target, hl, hr⟩ | ⟨hl, hr⟩⟩
    · exact .inl ⟨hn, ih hr⟩
    · exact .inr (.inl ⟨hn, ih hr⟩)
    · rcases hr with ⟨hk, -⟩ | ⟨-, hr⟩
      · simp at hk
      · exact .inr (.inr ⟨⟨hn, by simp, hshort⟩,
          .inl ⟨target, hl, .inr ⟨by simp, follow _ _ _ hr⟩⟩⟩)
    · exact .inr (.inr ⟨⟨hn, by simp, hshort⟩, .inr ⟨hl, ih hr⟩⟩)

private theorem walk_of_created {links : Nat} {here : Location} {names : List Name}
    (h : tree.walk .created links here names = .ok location) :
    tree.walk .followed links here names = .ok location := by
  induction links generalizing here names with
  | zero => exact walkNames_of_created (fun _ _ _ hl => by simp at hl) h
  | succ links ih => exact walkNames_of_created (fun _ _ _ hl => ih hl) h

/-- Where a file is to be created, its path leads to it afterwards. -/
theorem locate_of_created (h : tree.locate cwd path .created = .ok location) :
    tree.locate cwd path = .ok location := by
  obtain ⟨⟨⟩, hc, hw⟩ := Except.bind_eq_ok_iff.mp h
  obtain ⟨base, ho, hw⟩ := Except.bind_eq_ok_iff.mp hw
  exact Except.bind_eq_ok_iff.mpr
    ⟨(), hc, Except.bind_eq_ok_iff.mpr ⟨base, ho, walk_of_created hw⟩⟩

/-! ### The places on the way -/

/-- All that names come by on their way to something stands. -/
private theorem stands_of_mem_passNames {last : LastName}
    {onLink : Location → Text.Bytes → List Name → Except SystemError Location}
    {onPass : Location → Text.Bytes → List Name → List Location}
    (follow : ∀ here target rest, onLink here target rest = .ok location →
      ∀ place ∈ onPass here target rest, tree.get? place ≠ none)
    (stands : tree.get? location ≠ none) {here : Location} {names : List Name}
    (h : tree.walkNames last onLink here names = .ok location) :
    ∀ place ∈ tree.passNames last onPass here names, tree.get? place ≠ none := by
  induction names generalizing here with
  | nil =>
    obtain rfl : here = location := Except.ok.inj h
    simpa [passNames] using stands
  | cons name rest ih =>
    obtain ⟨hd, hstep⟩ := walkNames_cons_eq_ok_iff.mp h
    rw [passNames]
    intro place hp
    rcases List.mem_cons.mp hp with rfl | hp
    · simp [hd]
    rcases hstep with ⟨hn, hr⟩ | ⟨rfl, hr⟩ | ⟨⟨hn, -⟩, hdown⟩
    · simp only [hn, if_true] at hp
      exact ih hr place hp
    · simp only [show ¬(Text.encode ".." = [] ∨ Text.encode ".." = Text.encode ".") by decide,
        if_false, if_true] at hp
      exact ih hr place hp
    · have hstay : ¬(name = [] ∨ name = ".") := not_or.mpr ⟨hn.1, hn.2.1⟩
      simp only [hstay, hn.2.2, if_false] at hp
      rcases hdown with ⟨target, hl, hr⟩ | ⟨hl, hr⟩
      · simp only [hl] at hp
        rcases List.mem_cons.mp hp with rfl | hp
        · simp [hl]
        rcases hr with ⟨hk, hrest, -⟩ | ⟨hk, hr⟩
        · simp [hk, hrest] at hp
        · rw [if_neg hk] at hp
          exact follow here target rest hr place hp
      · split at hp
        · next target ht => exact absurd ht (hl target)
        · exact ih hr place hp

private theorem stands_of_mem_pass {last : LastName} (stands : tree.get? location ≠ none)
    {links : Nat} {here : Location} {names : List Name}
    (h : tree.walk last links here names = .ok location) :
    ∀ place ∈ tree.pass last links here names, tree.get? place ≠ none := by
  induction links generalizing here names with
  | zero => exact stands_of_mem_passNames (fun _ _ _ hl => by simp at hl) stands h
  | succ links ih => exact stands_of_mem_passNames (fun _ _ _ hl => ih hl) stands h

/-- Something stands at each place that a path comes by which leads to something. -/
theorem stands_of_mem_passed {last : LastName} (stands : tree.get? location ≠ none)
    (h : tree.locate cwd path last = .ok location) :
    ∀ place ∈ tree.passed cwd path last, tree.get? place ≠ none := by
  obtain ⟨⟨⟩, -, hw⟩ := Except.bind_eq_ok_iff.mp h
  obtain ⟨base, ho, hw⟩ := Except.bind_eq_ok_iff.mp hw
  rw [passed, ho]
  exact stands_of_mem_pass stands hw

/-- On a way without links ordinary names come by nothing but what is above the place. -/
private theorem prefix_of_mem_passNames {last : LastName}
    {onPass : Location → Text.Bytes → List Name → List Location} {site here : Location}
    {names : List Name} (unlinked : tree.Unlinked site)
    (ordinary : ∀ name ∈ names, name = [] ∨ Path.IsOrdinary name)
    (hsite : here ++ names.filter (· ≠ []) <+: site) :
    ∀ place ∈ tree.passNames last onPass here names, place <+: site := by
  induction names generalizing here with
  | nil => simpa [passNames] using hsite
  | cons name rest ih =>
    rw [passNames]
    intro place hp
    have hhere : here <+: site := (List.prefix_append _ _).trans hsite
    have hrest : ∀ name ∈ rest, name = [] ∨ Path.IsOrdinary name :=
      fun other ho => ordinary other (List.mem_cons_of_mem name ho)
    rcases List.mem_cons.mp hp with rfl | hp
    · exact hhere
    rcases ordinary name List.mem_cons_self with rfl | hn
    · simp only [true_or, if_true] at hp
      exact ih hrest (by simpa using hsite) place hp
    · have hstay : ¬(name = [] ∨ name = ".") := not_or.mpr ⟨hn.1, hn.2.1⟩
      have hnext : here ++ [name] ++ rest.filter (· ≠ []) <+: site := by
        simpa [List.filter_cons, hn.1] using hsite
      simp only [hstay, hn.2.2, if_false] at hp
      split at hp
      · next target hl =>
        exact absurd hl (unlinked _ ((List.prefix_append _ _).trans hnext) target)
      · exact ih hrest hnext place hp

/-- A straight path comes by the places above its own alone. -/
theorem Straight.prefix_of_mem_passed {site : Location} (h : tree.Straight cwd path site)
    (last : LastName) : ∀ place ∈ tree.passed cwd path last, place <+: site := by
  obtain ⟨base, ho, rfl⟩ := Path.exists_origin_of_site? h.spelled
  have hwalked : ∀ name ∈ path.walked, name = [] ∨ Path.IsOrdinary name := by
    intro name hn
    rw [Path.walked] at hn
    split at hn
    · rcases List.mem_append.mp hn with hn | hn
      · exact .inr (h.plain.ordinary name hn)
      · exact .inl (by simpa using hn)
    · exact .inr (h.plain.ordinary name hn)
  have hnames : path.walked.filter (· ≠ []) = path.names := by
    have hall : path.names.filter (· ≠ []) = path.names :=
      List.filter_eq_self.mpr fun name hn => by simpa using Path.ne_empty_of_mem_names hn
    rw [Path.walked]
    split
    · rw [List.filter_append, hall]
      simp
    · exact hall
  have hsite : base ++ path.walked.filter (· ≠ []) <+: base ++ path.names := by rw [hnames]
  rw [passed, ho]
  cases linkLimit <;> exact prefix_of_mem_passNames h.unlinked hwalked hsite

/-! ### Ways without links -/

/-- The path comes by no link. -/
def Direct (tree : Tree) (cwd : Option Location) (path : Path) : Prop :=
  ∀ place ∈ tree.passed cwd path, ∀ target, tree.get? place ≠ some (.link target)

/-- A straight path comes by no link. -/
theorem Straight.direct {site : Location} (h : tree.Straight cwd path site) :
    tree.Direct cwd path := fun place hp =>
  h.unlinked place (h.prefix_of_mem_passed .followed place hp)

/-- Names come to the same place in two trees if in neither a link is on their way. -/
private theorem eq_of_walkNames
    {onLink onLink' : Location → Text.Bytes → List Name → Except SystemError Location}
    {onPass : Location → Text.Bytes → List Name → List Location}
    (old : ∀ place target, after.get? place = some (.link target) →
      before.get? place = some (.link target))
    {here : Location} {names : List Name}
    (direct : ∀ place ∈ before.passNames .followed onPass here names, ∀ target,
      before.get? place ≠ some (.link target))
    (h : before.walkNames .followed onLink here names = .ok location)
    (h' : after.walkNames .followed onLink' here names = .ok place) : place = location := by
  induction names generalizing here with
  | nil => exact Except.ok.inj (h'.symm.trans h)
  | cons name rest ih =>
    obtain ⟨-, hstep⟩ := walkNames_cons_eq_ok_iff.mp h
    obtain ⟨-, hstep'⟩ := walkNames_cons_eq_ok_iff.mp h'
    rw [passNames] at direct
    have hrest := fun place hp => direct place (List.mem_cons_of_mem here hp)
    by_cases hstay : name = [] ∨ name = "."
    · have hup : name ≠ ".." := by rcases hstay with rfl | rfl <;> decide
      have hord : ¬ Path.IsOrdinary name := fun ho => hstay.elim ho.1 ho.2.1
      simp only [hstay, hup, hord, true_and, false_and, or_false] at hstep hstep'
      simp only [hstay, if_true] at hrest
      exact ih hrest hstep hstep'
    by_cases hup : name = ".."
    · subst hup
      simp only [Path.IsOrdinary, ne_eq, not_true_eq_false, and_false, false_and, or_false,
        hstay, false_or, true_and] at hstep hstep'
      simp only [hstay, if_false, if_true] at hrest
      exact ih hrest hstep hstep'
    simp only [hstay, hup, false_and, false_or] at hstep hstep'
    simp only [hstay, hup, if_false] at hrest
    have hnolink : ∀ target, before.get? (here ++ [name]) ≠ some (.link target) := by
      intro target hl
      simp only [hl] at hrest
      exact hrest _ List.mem_cons_self target hl
    rcases hstep with ⟨-, ⟨target, hl, -⟩ | ⟨-, hr⟩⟩
    · exact absurd hl (hnolink target)
    rcases hstep' with ⟨-, ⟨target, hl, -⟩ | ⟨-, hr'⟩⟩
    · exact absurd (old _ _ hl) (hnolink target)
    refine ih (fun place hp => ?_) hr hr'
    split at hrest
    · next target hl => exact absurd hl (hnolink target)
    · exact hrest place hp

/-- Where a path without links leads in the one tree it leads in the other, if it leads anywhere. -/
theorem Direct.eq_of_locate (direct : before.Direct cwd path)
    (old : ∀ place target, after.get? place = some (.link target) →
      before.get? place = some (.link target))
    (hcwd : ∀ location, later = some location → cwd = some location)
    (h : before.locate cwd path = .ok location) (h' : after.locate later path = .ok place) :
    place = location := by
  obtain ⟨⟨⟩, -, hw⟩ := Except.bind_eq_ok_iff.mp h
  obtain ⟨base, ho, hw⟩ := Except.bind_eq_ok_iff.mp hw
  obtain ⟨⟨⟩, -, hw'⟩ := Except.bind_eq_ok_iff.mp (locate_of_locate hcwd h')
  obtain ⟨base', ho', hw'⟩ := Except.bind_eq_ok_iff.mp hw'
  obtain rfl : base = base' := Except.ok.inj (ho.symm.trans ho')
  unfold Direct passed at direct
  rw [ho] at direct
  exact eq_of_walkNames old direct hw hw'

end Bootstage.Tree
