import Bootstage.Proofs.Tree.Straight

/-!
# File operations at straight paths

At a straight path each file operation is an operation on the one entry at the location: looking
shows it, removing erases it with everything below it, and writing replaces it. Each operation
succeeds under conditions that are stated in full.
-/

namespace Bootstage.Tree

theorem entryAt_eq_ok_iff {tree : Tree} {location : Location} {entry : Entry} :
    tree.entryAt location = .ok entry ↔ tree.get? location = some entry := by
  unfold entryAt
  split <;> simp_all

/-- What a path shows stands at the place to which it leads. -/
theorem status_eq_ok_iff {tree : Tree} {cwd : Option Location} {path : Path} {entry : Entry} :
    tree.status cwd path = .ok entry ↔
      ∃ location, tree.locate cwd path = .ok location ∧ tree.get? location = some entry := by
  simp only [status, Except.bind_eq_ok_iff, entryAt_eq_ok_iff]

/-- What is shown stands at a place that the path spells. -/
theorem exists_site?_of_status {tree : Tree} {cwd : Option Location} {path : Path}
    {entry : Entry} (h : tree.status cwd path = .ok entry) :
    ∃ place, path.site? cwd = some place := by
  obtain ⟨location, hl, -⟩ := Except.bind_eq_ok_iff.mp h
  obtain ⟨-, -, hw⟩ := Except.bind_eq_ok_iff.mp hl
  obtain ⟨base, ho, -⟩ := Except.bind_eq_ok_iff.mp hw
  exact ⟨_, Path.site?_of_origin ho⟩

theorem read_eq_ok_iff {tree : Tree} {cwd : Option Location} {path : Path}
    {content : Text.Bytes} :
    tree.read cwd path = .ok content ↔
      ∃ location, tree.locate cwd path = .ok location ∧
        tree.get? location = some (.file content) := by
  rw [← status_eq_ok_iff, read, Except.bind_eq_ok_iff]
  constructor
  · rintro ⟨entry, hs, he⟩
    split at he
    · next found =>
      obtain rfl : found = content := Except.ok.inj he
      exact hs
    · simp [throw, throwThe, MonadExceptOf.throw] at he
  · exact fun hs => ⟨.file content, hs, rfl⟩

variable {tree : Tree} {cwd : Option Location} {path : Path} {site : Location}

/-- Something is present exactly if there is something to be shown. -/
theorem present_iff_exists_status :
    tree.present cwd path = true ↔ ∃ entry, tree.status cwd path = .ok entry := by
  unfold present
  cases tree.status cwd path <;> simp [Except.isOk, Except.toBool]

namespace Straight

/-- A directory holds whatever stands at the location of a straight path. -/
theorem get?_dropLast (h : tree.Straight cwd path site) {entry : Entry}
    (he : tree.get? site = some entry) : tree.get? site.dropLast = some .directory := by
  refine get?_above he (List.dropLast_prefix site) ?_
  intro e
  have hlen := congrArg List.length e
  have hpos := List.length_pos_iff.mpr h.site_ne_root
  simp only [List.length_dropLast] at hlen
  omega

/-- What the system shows at a straight path. -/
theorem status_eq_ok_iff (h : tree.Straight cwd path site) {entry : Entry} :
    tree.status cwd path = .ok entry ↔
      path.Accepted ∧ tree.get? site = some entry ∧
        (path.endsInSlash = true → entry = .directory) := by
  simp only [status, Except.bind_eq_ok_iff, entryAt_eq_ok_iff]
  constructor
  · rintro ⟨location, hl, he⟩
    obtain ⟨ha, rfl, -, hs⟩ := (h.locate_eq_ok_iff (.inl (by decide))).mp hl
    exact ⟨ha, he, fun hslash => by simpa [he] using hs hslash⟩
  · rintro ⟨ha, he, hs⟩
    refine ⟨site, (h.locate_eq_ok_iff (.inl (by decide))).mpr ⟨ha, rfl, h.get?_dropLast he, ?_⟩, he⟩
    intro hslash
    rw [he, hs hslash]

/-- There is no link at the end of a straight path that could be kept. -/
theorem linkStatus_eq_ok_iff (h : tree.Straight cwd path site) {location : Location}
    {entry : Entry} :
    tree.linkStatus cwd path = .ok (location, entry) ↔
      location = site ∧ tree.status cwd path = .ok entry := by
  simp only [linkStatus, status, Except.bind_eq_ok_iff, entryAt_eq_ok_iff,
    h.locate_eq_ok_iff (.inl (by decide : LastName.kept ≠ .created)),
    h.locate_eq_ok_iff (.inl (by decide : LastName.followed ≠ .created))]
  constructor
  · rintro ⟨place, ⟨ha, rfl, hd, hs⟩, found, hf, he⟩
    obtain ⟨rfl, rfl⟩ := Prod.mk.inj (Except.ok.inj he)
    exact ⟨rfl, place, ⟨ha, rfl, hd, hs⟩, hf⟩
  · rintro ⟨rfl, place, ⟨ha, rfl, hd, hs⟩, hf⟩
    exact ⟨place, ⟨ha, rfl, hd, hs⟩, entry, hf, rfl⟩

/-- On a straight path that is accepted something is present exactly if it stands at its place. -/
theorem present_eq_true_iff (h : tree.Straight cwd path site) :
    tree.present cwd path = true ↔
      path.Accepted ∧ ∃ entry, tree.get? site = some entry ∧
        (path.endsInSlash = true → entry = .directory) := by
  simp only [present_iff_exists_status, h.status_eq_ok_iff]
  constructor
  · rintro ⟨entry, ha, he⟩
    exact ⟨ha, entry, he⟩
  · rintro ⟨ha, entry, he⟩
    exact ⟨entry, ha, he⟩

/-- On a straight path that is accepted a directory is present exactly if it stands at its place. -/
theorem presentDirectory_eq_true_iff (h : tree.Straight cwd path site) :
    tree.presentDirectory cwd path = true ↔
      path.Accepted ∧ tree.get? site = some .directory := by
  have hp : tree.presentDirectory cwd path = true ↔ tree.status cwd path = .ok .directory := by
    unfold presentDirectory
    split <;> simp_all
  rw [hp, h.status_eq_ok_iff]
  simp

/-- The directory that holds the last name of a straight path. -/
theorem locateParent_eq_ok_iff (h : tree.Straight cwd path site) {parent : Location} :
    tree.locateParent cwd path = .ok parent ↔
      path.check = .ok () ∧ (∀ name ∈ path.names.dropLast, name.length ≤ nameLimit) ∧
        parent = site.dropLast ∧ tree.get? site.dropLast = some .directory := by
  obtain ⟨base, ho, rfl⟩ := Path.exists_origin_of_site? h.spelled
  have hdrop : (base ++ path.names).dropLast = base ++ path.names.dropLast :=
    List.dropLast_append_of_ne_nil h.plain.named
  have hun : tree.Unlinked (base ++ path.names.dropLast) := by
    rw [← hdrop]
    exact h.unlinked.above (List.dropLast_prefix _)
  have hwalk :=
      @walk_eq_ok_iff tree .followed linkLimit base parent path.names.dropLast [Text.encode "."]
    (fun name hn => h.plain.ordinary name (List.dropLast_subset _ hn)) hun (by simp)
    (.inl (by decide))
  have hsplit : tree.locateParent cwd path = .ok parent ↔ path.check = .ok () ∧
      tree.walk .followed linkLimit base (path.names.dropLast ++ [Text.encode "."]) =
      .ok parent := by
    cases hc : path.check <;> simp [locateParent, ho, hc, bind, Except.bind]
  rw [hsplit, hwalk, hdrop]
  constructor
  · rintro ⟨hc, hl, hs, hd⟩
    exact ⟨hc, hs, hl, hd _ List.prefix_rfl (.inr (by simp))⟩
  · rintro ⟨hc, hs, hl, hd⟩
    refine ⟨hc, hl, hs, fun above hp _ => ?_⟩
    by_cases he : above = path.names.dropLast
    · rw [he, hd]
    · exact get?_above hd ((List.prefix_append_right_inj base).mpr hp) (by simpa using he)

/-- The last name of a plain path is ordinary and ends the location that the path spells. -/
theorem exists_getLast? (h : tree.Straight cwd path site) :
    ∃ name, path.names.getLast? = some name ∧ Path.IsOrdinary name ∧
      site.dropLast ++ [name] = site ∧
      ((∀ other ∈ path.names, other.length ≤ nameLimit) ↔
        (∀ other ∈ path.names.dropLast, other.length ≤ nameLimit) ∧
          name.length ≤ nameLimit) := by
  obtain ⟨base, -, rfl⟩ := Path.exists_origin_of_site? h.spelled
  obtain ⟨front, name, hn⟩ := (List.eq_nil_or_concat path.names).resolve_left h.plain.named
  rw [List.concat_eq_append] at hn
  refine ⟨name, by simp [hn], h.plain.ordinary name (by simp [hn]), by simp [hn], ?_⟩
  simp only [hn, List.dropLast_concat, List.mem_append, List.mem_singleton, or_imp, forall_and,
    forall_eq]

end Straight

/-- Creating a directory behind an ordinary last name. -/
theorem makeDirectory_of_locateParent {parent : Location} {name : Name}
    (hp : tree.locateParent cwd path = .ok parent) (hl : path.names.getLast? = some name)
    (hname : Path.IsOrdinary name) :
    tree.makeDirectory cwd path =
      if name.length > nameLimit then .error .nameTooLong
      else if (tree.get? (parent ++ [name])).isSome then .error .alreadyExists
      else .ok (tree.put (parent ++ [name]) .directory) := by
  simp only [makeDirectory, hp, hl, bind, Except.bind, hname.2.1, hname.2.2, or_self, if_false]
  rfl

/-- Removing an emptied directory behind an ordinary last name. -/
theorem removeEmptied_of_locateParent {parent : Location} {name : Name}
    (hp : tree.locateParent cwd path = .ok parent) (hl : path.names.getLast? = some name)
    (hname : Path.IsOrdinary name) (hd : tree.get? (parent ++ [name]) = some .directory) :
    tree.removeEmptied cwd path = .ok (tree.erase (parent ++ [name])) := by
  simp [removeEmptied, hp, hl, bind, Except.bind, hname.2.1, hname.2.2, hd, pure, Except.pure]

namespace Straight

/-- A directory at a straight path is removed with everything below it. -/
theorem removeAll_eq (h : tree.Straight cwd path site) (accepted : path.Accepted)
    (hd : tree.get? site = some .directory) :
    tree.removeAll cwd path = (.ok (), tree.erase site) := by
  obtain ⟨name, hl, hname, hsite, hshort⟩ := h.exists_getLast?
  have hlink : tree.linkStatus cwd path = .ok (site, .directory) :=
    h.linkStatus_eq_ok_iff.mpr ⟨rfl, h.status_eq_ok_iff.mpr ⟨accepted, hd, fun _ => rfl⟩⟩
  have hkept : ∀ above, above <+: site → (tree.eraseBelow site).get? above = tree.get? above := by
    intro above hp
    rw [get?_eraseBelow, if_neg]
    rintro ⟨hq, hne⟩
    exact hne (hq.eq_of_length_le hp.length_le)
  have hs : (tree.eraseBelow site).Straight cwd path site := by
    refine ⟨h.plain, h.spelled, fun above hp target => ?_⟩
    rw [hkept above hp]
    exact h.unlinked above hp target
  have hp : (tree.eraseBelow site).locateParent cwd path = .ok site.dropLast := by
    refine hs.locateParent_eq_ok_iff.mpr ⟨accepted.check, (hshort.mp accepted.short).1, rfl, ?_⟩
    rw [hkept _ (List.dropLast_prefix site)]
    exact h.get?_dropLast hd
  have hremoved : (tree.eraseBelow site).removeEmptied cwd path =
      .ok ((tree.eraseBelow site).erase site) := by
    have := removeEmptied_of_locateParent hp hl hname
      (by rw [hsite, hkept site List.prefix_rfl, hd])
    rwa [hsite] at this
  have herase : (tree.eraseBelow site).erase site = tree.erase site := by
    apply Tree.ext
    intro location
    simp only [get?_erase, get?_eraseBelow]
    split
    · rfl
    · next hn =>
      rw [if_neg]
      rintro ⟨hq, hne⟩
      refine hn ⟨?_, hq⟩
      rintro rfl
      exact hne (List.prefix_nil.mp hq)
  simp only [removeAll, hlink, hremoved, herase]

end Straight

end Bootstage.Tree
