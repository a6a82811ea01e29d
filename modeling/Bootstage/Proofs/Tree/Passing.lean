import Bootstage.Proofs.Tree.Recreation
import Bootstage.Proofs.Tree.Ways

/-!
# What a walk comes by

A walk looks at places: at the directories it goes through, at what stands under each name in them,
and, where a link is followed, at those of the names in the link. In every tree in which all these
places are the same it goes the same way. Nothing is said of what else there is, so paths may go up
and follow links here.
-/

namespace Bootstage.Tree

/-- The places that a walk of names comes by; those behind a link that is followed are left to
`onLink`. -/
def passNames (tree : Tree) (last : LastName)
    (onLink : Location → Text.Bytes → List Name → List Location) :
    Location → List Name → List Location
  | here, [] => [here]
  | here, name :: rest =>
    here ::
      if name = [] ∨ name = "." then passNames tree last onLink here rest
      else if name = ".." then passNames tree last onLink here.dropLast rest
      else
        match tree.get? (here ++ [name]) with
        | some (.link target) =>
          (here ++ [name]) :: if last = .kept ∧ rest = [] then [] else onLink here target rest
        | _ => passNames tree last onLink (here ++ [name]) rest

/-- The places that a walk comes by on which at most the given number of links is followed. -/
def pass (tree : Tree) (last : LastName) : Nat → Location → List Name → List Location
  | 0 => passNames tree last fun _ _ _ => []
  | links + 1 => passNames tree last fun here target rest =>
      pass tree last links (Path.start here ⟨target⟩) ((⟨target⟩ : Path).walked ++ rest)

/-- The places that a path comes by, the one that it leads to included. -/
def passed (tree : Tree) (cwd : Option Location) (path : Path) (last : LastName := .followed) :
    List Location :=
  match path.origin cwd with
  | .ok base => tree.pass last linkLimit base path.walked
  | .error _ => []

section

variable {before after : Tree} {last : LastName} {cwd : Option Location} {path : Path}
  {location : Location}

/-- Where a walk of names comes by the same links, it comes by the same places. -/
private theorem passNames_congr
    {onPass onPass' : Location → Text.Bytes → List Name → List Location}
    (follow : ∀ here target rest,
      (∀ place ∈ onPass here target rest, ∀ target,
        after.get? place = some (.link target) ↔ before.get? place = some (.link target)) →
        onPass' here target rest = onPass here target rest)
    {here : Location} {names : List Name}
    (same : ∀ place ∈ before.passNames last onPass here names, ∀ target,
      after.get? place = some (.link target) ↔ before.get? place = some (.link target)) :
    after.passNames last onPass' here names = before.passNames last onPass here names := by
  induction names generalizing here with
  | nil => rfl
  | cons name rest ih =>
    rw [passNames] at same
    have hrest := fun place hp => same place (List.mem_cons_of_mem here hp)
    rw [passNames, passNames]
    refine congrArg _ ?_
    by_cases hstay : name = [] ∨ name = "."
    · simp only [hstay, if_true] at hrest ⊢
      exact ih hrest
    by_cases hup : name = ".."
    · subst hup
      simp only [hstay, if_false, if_true] at hrest ⊢
      exact ih hrest
    simp only [hstay, hup, if_false] at hrest ⊢
    have hnext : ∀ target, after.get? (here ++ [name]) = some (.link target) ↔
        before.get? (here ++ [name]) = some (.link target) := by
      refine hrest _ ?_
      split
      · exact List.mem_cons_self
      · cases rest <;> simp [passNames]
    by_cases hlink : ∃ target, before.get? (here ++ [name]) = some (.link target)
    · obtain ⟨target, hg⟩ := hlink
      simp only [hg, (hnext target).mpr hg] at hrest ⊢
      by_cases hkept : last = .kept ∧ rest = []
      · simp only [hkept, and_self, if_true]
      · simp only [hkept, if_false] at hrest ⊢
        rw [follow here target rest fun place hp => hrest place (List.mem_cons_of_mem _ hp)]
    · -- Neither tree has a link under the name, so both walks go down.
      have hbefore := fun target hg => hlink ⟨target, hg⟩
      have hafter := fun target hg => hlink ⟨target, (hnext target).mp hg⟩
      split at hrest
      · next target hg => exact absurd hg (hbefore target)
      · exact ih hrest

/-- Where the links on the way are the same, so is the way. -/
private theorem pass_congr {links : Nat} {here : Location} {names : List Name}
    (same : ∀ place ∈ before.pass last links here names, ∀ target,
      after.get? place = some (.link target) ↔ before.get? place = some (.link target)) :
    after.pass last links here names = before.pass last links here names := by
  induction links generalizing here names with
  | zero => exact passNames_congr (fun _ _ _ _ => rfl) same
  | succ links ih => exact passNames_congr (fun _ _ _ hp => ih hp) same

/-- A path comes by the same places where the links at these are the same. -/
theorem passed_congr
    (same : ∀ place ∈ before.passed cwd path last, ∀ target,
      after.get? place = some (.link target) ↔ before.get? place = some (.link target)) :
    after.passed cwd path last = before.passed cwd path last := by
  unfold passed at same ⊢
  cases ho : path.origin cwd with
  | error cause => rfl
  | ok base =>
    rw [ho] at same
    exact pass_congr same

/-- Where all that a walk of names comes by is the same, so is the walk. -/
private theorem walkNames_congr
    {onLink onLink' : Location → Text.Bytes → List Name → Except SystemError Location}
    {onPass : Location → Text.Bytes → List Name → List Location}
    (follow : ∀ here target rest,
      (∀ place ∈ onPass here target rest, after.get? place = before.get? place) →
        onLink' here target rest = onLink here target rest)
    {here : Location} {names : List Name}
    (same : ∀ place ∈ before.passNames last onPass here names,
      after.get? place = before.get? place) :
    after.walkNames last onLink' here names = before.walkNames last onLink here names := by
  induction names generalizing here with
  | nil => rfl
  | cons name rest ih =>
    rw [passNames] at same
    have hhere := same here List.mem_cons_self
    have hrest := fun place hp => same place (List.mem_cons_of_mem here hp)
    rw [walkNames, walkNames, hhere]
    by_cases hstay : name = [] ∨ name = "."
    · simp only [hstay, if_true] at hrest ⊢
      rw [ih hrest]
    by_cases hup : name = ".."
    · subst hup
      simp only [hstay, if_false, if_true] at hrest ⊢
      rw [ih hrest]
    simp only [hstay, hup, if_false] at hrest ⊢
    have hnext : after.get? (here ++ [name]) = before.get? (here ++ [name]) := by
      refine hrest _ ?_
      split
      · exact List.mem_cons_self
      · cases rest <;> simp [passNames]
    rw [hnext]
    rcases hg : before.get? (here ++ [name]) with _ | (content | _ | target)
    case some.link =>
      by_cases hkept : last = .kept ∧ rest = []
      · simp [hkept]
      · simp only [hg, hkept, if_false] at hrest
        have hfollow := follow here target rest fun place hp =>
          hrest place (List.mem_cons_of_mem _ hp)
        simp only [hkept, hfollow, if_false]
    all_goals
      rw [hg] at hrest
      rw [ih hrest]

/-- Where all on the way is the same, so is the end of a walk. -/
private theorem walk_congr {links : Nat} {here : Location} {names : List Name}
    (same : ∀ place ∈ before.pass last links here names, after.get? place = before.get? place) :
    after.walk last links here names = before.walk last links here names := by
  induction links generalizing here names with
  | zero => exact walkNames_congr (fun _ _ _ _ => rfl) same
  | succ links ih => exact walkNames_congr (fun _ _ _ hp => ih hp) same

/-- A path leads to the same place where all that it comes by is the same. -/
theorem locate_congr
    (same : ∀ place ∈ before.passed cwd path last, after.get? place = before.get? place) :
    after.locate cwd path last = before.locate cwd path last ∧
      after.passed cwd path last = before.passed cwd path last := by
  refine ⟨?_, passed_congr fun place hp target => by rw [same place hp]⟩
  unfold passed at same
  cases ho : path.origin cwd with
  | error cause => simp only [locate, ho, bind, Except.bind]
  | ok base =>
    rw [ho] at same
    simp only [locate, ho, walk_congr same, bind, Except.bind]

/-- Names come by the place to which they lead. -/
private theorem mem_passNames {tree : Tree}
    {onLink : Location → Text.Bytes → List Name → Except SystemError Location}
    {onPass : Location → Text.Bytes → List Name → List Location}
    (follow : ∀ here target rest, onLink here target rest = .ok location →
      location ∈ onPass here target rest)
    {here : Location} {names : List Name}
    (h : tree.walkNames last onLink here names = .ok location) :
    location ∈ tree.passNames last onPass here names := by
  induction names generalizing here with
  | nil =>
    obtain rfl : here = location := Except.ok.inj h
    simp [passNames]
  | cons name rest ih =>
    obtain ⟨-, hstep⟩ := walkNames_cons_eq_ok_iff.mp h
    rw [passNames]
    refine List.mem_cons_of_mem here ?_
    rcases hstep with ⟨hn, hr⟩ | ⟨rfl, hr⟩ | ⟨⟨hn, -⟩, hdown⟩
    · simpa only [hn, if_true] using ih hr
    · simpa using ih hr
    · have hstay : ¬(name = [] ∨ name = ".") := not_or.mpr ⟨hn.1, hn.2.1⟩
      simp only [hstay, hn.2.2, if_false]
      rcases hdown with ⟨target, hl, ⟨hk, hrest, rfl⟩ | ⟨hk, hr⟩⟩ | ⟨hl, hr⟩
      · simp [hl]
      · simpa [hl, hk] using .inr (follow here target rest hr)
      · split
        · next target ht => exact absurd ht (hl target)
        · exact ih hr

private theorem mem_pass {tree : Tree} {links : Nat} {here : Location} {names : List Name}
    (h : tree.walk last links here names = .ok location) :
    location ∈ tree.pass last links here names := by
  induction links generalizing here names with
  | zero => exact mem_passNames (fun _ _ _ hl => by simp at hl) h
  | succ links ih => exact mem_passNames (fun _ _ _ hl => ih hl) h

/-- A path comes by the place that it leads to. -/
theorem mem_passed_of_locate {tree : Tree} (h : tree.locate cwd path last = .ok location) :
    location ∈ tree.passed cwd path last := by
  obtain ⟨⟨⟩, hc, hw⟩ := Except.bind_eq_ok_iff.mp h
  obtain ⟨base, ho, hw⟩ := Except.bind_eq_ok_iff.mp hw
  rw [passed, ho]
  exact mem_pass hw

/-- A path shows the same where all that it comes by is the same. -/
theorem status_congr
    (same : ∀ place ∈ before.passed cwd path, after.get? place = before.get? place) :
    after.status cwd path = before.status cwd path := by
  rw [status, status, (locate_congr same).1]
  cases hl : before.locate cwd path with
  | error cause => rfl
  | ok place =>
    have hplace := same place (mem_passed_of_locate hl)
    simp only [bind, Except.bind, entryAt, hplace]

end

/-! ### Walks in a part of a tree -/

section

variable {tree whole : Tree} {last : LastName} {cwd : Option Location} {path : Path}
  {location : Location}

/-- A walk in a part of a tree that ends where something stands goes as in the whole. -/
private theorem Within.walkNames (h : tree.Within whole)
    {onLink onLink' : Location → Text.Bytes → List Name → Except SystemError Location}
    (follow : ∀ here target rest, onLink here target rest = .ok location →
      onLink' here target rest = .ok location)
    (stands : tree.get? location ≠ none) {here : Location} {names : List Name}
    (hw : tree.walkNames last onLink here names = .ok location) :
    whole.walkNames last onLink' here names = .ok location := by
  induction names generalizing here with
  | nil => exact hw
  | cons name rest ih =>
    obtain ⟨hd, hstep⟩ := walkNames_cons_eq_ok_iff.mp hw
    refine walkNames_cons_eq_ok_iff.mpr ⟨h _ _ hd, ?_⟩
    rcases hstep with ⟨hn, hr⟩ | ⟨hn, hr⟩ | ⟨hn, ⟨target, hl, hr⟩ | ⟨hl, hr⟩⟩
    · exact .inl ⟨hn, ih hr⟩
    · exact .inr (.inl ⟨hn, ih hr⟩)
    · refine .inr (.inr ⟨hn, .inl ⟨target, h _ _ hl, ?_⟩⟩)
      exact hr.imp_right fun ⟨hk, hf⟩ => ⟨hk, follow _ _ _ hf⟩
    · refine .inr (.inr ⟨hn, .inr ⟨fun target ht => ?_, ih hr⟩⟩)
      cases hg : tree.get? (here ++ [name]) with
      | some entry =>
        have he : entry = .link target := Option.some.inj ((h _ _ hg).symm.trans ht)
        exact hl target (he ▸ hg)
      | none =>
        cases rest with
        | nil =>
          obtain rfl : here ++ [name] = location := Except.ok.inj hr
          exact stands hg
        | cons next rest => exact walkNames_cons_ne_ok (by simp [hg]) hr

/-- A walk in a part of a tree that ends where something stands ends there in the whole. -/
theorem Within.walk (h : tree.Within whole) (stands : tree.get? location ≠ none)
    {links : Nat} {here : Location} {names : List Name}
    (hw : tree.walk last links here names = .ok location) :
    whole.walk last links here names = .ok location := by
  induction links generalizing here names with
  | zero => exact h.walkNames (fun _ _ _ hl => hl) stands hw
  | succ links ih => exact h.walkNames (fun _ _ _ hl => ih hl) stands hw

/-- What a path leads to in a part of a tree it leads to in the whole. -/
theorem Within.locate (h : tree.Within whole) (stands : tree.get? location ≠ none)
    (hl : tree.locate cwd path last = .ok location) :
    whole.locate cwd path last = .ok location := by
  obtain ⟨⟨⟩, hc, hw⟩ := Except.bind_eq_ok_iff.mp hl
  obtain ⟨base, ho, hw⟩ := Except.bind_eq_ok_iff.mp hw
  exact Except.bind_eq_ok_iff.mpr ⟨(), hc, Except.bind_eq_ok_iff.mpr ⟨base, ho, h.walk stands hw⟩⟩

/-- What is shown in a part of a tree is shown in the whole. -/
theorem Within.present (h : tree.Within whole) (hp : tree.present cwd path = true) :
    whole.present cwd path = true := by
  obtain ⟨entry, hs⟩ := present_iff_exists_status.mp hp
  obtain ⟨place, hl, hg⟩ := status_eq_ok_iff.mp hs
  exact present_iff_exists_status.mpr
    ⟨entry, status_eq_ok_iff.mpr ⟨place, h.locate (by simp [hg]) hl, h _ _ hg⟩⟩

/-- What stands at the end of a path is told without following it if it is a link. -/
theorem linkStatus_eq_ok_iff {entry : Entry} :
    tree.linkStatus cwd path = .ok (location, entry) ↔
      tree.locate cwd path .kept = .ok location ∧ tree.get? location = some entry := by
  simp only [linkStatus, Except.bind_eq_ok_iff, entryAt_eq_ok_iff]
  constructor
  · rintro ⟨place, hl, found, hg, he⟩
    obtain ⟨rfl, rfl⟩ := Prod.mk.inj (Except.ok.inj he)
    exact ⟨hl, hg⟩
  · rintro ⟨hl, hg⟩
    exact ⟨location, hl, entry, hg, rfl⟩

/-- What is told in a part of a tree is told in the whole. -/
theorem Within.linkStatus (h : tree.Within whole) {entry : Entry}
    (hs : tree.linkStatus cwd path = .ok (location, entry)) :
    whole.linkStatus cwd path = .ok (location, entry) := by
  obtain ⟨hl, hg⟩ := linkStatus_eq_ok_iff.mp hs
  exact linkStatus_eq_ok_iff.mpr ⟨h.locate (by simp [hg]) hl, h _ _ hg⟩

theorem erase_within (tree : Tree) (gone : Location) : (tree.erase gone).Within tree :=
  fun _ _ he => get?_of_get?_erase he

theorem eraseBelow_within (tree : Tree) (gone : Location) : (tree.eraseBelow gone).Within tree := by
  intro found entry he
  rw [get?_eraseBelow] at he
  split at he
  · simp at he
  · exact he

end

end Bootstage.Tree
