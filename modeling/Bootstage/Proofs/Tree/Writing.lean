import Bootstage.Proofs.Tree.Ways

/-!
# Writing and copying files

A file is written where a directory holds its name and neither a directory nor a link stands. That
opens no way through the tree and closes none, so that paths lead where they led before. At a
straight path the place of the file is the location that the path spells.
-/

namespace Bootstage

/-- On a path that is not empty there is something to be walked: a name, or the slash at its end. -/
theorem Path.walked_ne_nil {path : Path} (h : path.bytes ≠ []) : path.walked ≠ [] := by
  unfold walked
  split
  · simp
  · next hslash =>
    intro hn
    have hlast := List.getLast?_eq_some_getLast h
    have hc : path.bytes.getLast h ≠ slash := by
      intro he
      rw [he] at hlast
      simp [endsInSlash, hlast] at hslash
    obtain ⟨piece, hp, hm⟩ := Text.exists_mem_splitOn (List.getLast_mem h) hc
    have hname : piece ∈ path.names :=
      List.mem_filter.mpr ⟨hp, by simp [List.ne_nil_of_mem hm]⟩
    rw [hn] at hname
    contradiction

namespace Tree

variable {tree : Tree} {cwd : Option Location} {path : Path} {last : LastName}
  {location : Location}

/-- Above a directory there is a directory. -/
theorem get?_dropLast_of_directory (h : tree.get? location = some .directory) :
    tree.get? location.dropLast = some .directory := by
  by_cases he : location.dropLast = location
  · rw [he, h]
  · exact get?_above h (List.dropLast_prefix location) he

/-- A walk that follows links ends where it starts if there are no names, and else at a place in a
directory at which no link stands. -/
private theorem reached_of_walkNames
    {onLink : Location → Text.Bytes → List Name → Except SystemError Location}
    (hlast : last ≠ .kept)
    (follow : ∀ here target rest place, tree.get? here = some .directory →
      onLink here target rest = .ok place →
        tree.get? place.dropLast = some .directory ∧
          ∀ target, tree.get? place ≠ some (.link target))
    {here : Location} {names : List Name}
    (hw : tree.walkNames last onLink here names = .ok location)
    (hstart : names = [] → tree.get? here.dropLast = some .directory ∧
      ∀ target, tree.get? here ≠ some (.link target)) :
    tree.get? location.dropLast = some .directory ∧
      ∀ target, tree.get? location ≠ some (.link target) := by
  induction names generalizing here with
  | nil =>
    obtain rfl : here = location := Except.ok.inj hw
    exact hstart rfl
  | cons name rest ih =>
    obtain ⟨hd, hstep⟩ := walkNames_cons_eq_ok_iff.mp hw
    have hdir : ∀ place, tree.get? place = some .directory →
        tree.get? place.dropLast = some .directory ∧
          ∀ target, tree.get? place ≠ some (.link target) :=
      fun place hp => ⟨get?_dropLast_of_directory hp, by simp [hp]⟩
    rcases hstep with ⟨-, hr⟩ | ⟨-, hr⟩ | ⟨-, ⟨target, hl, hr⟩ | ⟨hl, hr⟩⟩
    · exact ih hr fun _ => hdir here hd
    · exact ih hr fun _ => hdir _ (get?_dropLast_of_directory hd)
    · rcases hr with ⟨hk, -⟩ | ⟨-, hr⟩
      · exact absurd hk hlast
      · exact follow here target rest location hd hr
    · exact ih hr fun _ => ⟨by simpa using hd, hl⟩

/-- A walk on which links are followed ends in a directory, and not at a link. -/
private theorem reached_of_walk (hlast : last ≠ .kept) {links : Nat} {here : Location}
    {names : List Name} (hw : tree.walk last links here names = .ok location)
    (hstart : names = [] → tree.get? here.dropLast = some .directory ∧
      ∀ target, tree.get? here ≠ some (.link target)) :
    tree.get? location.dropLast = some .directory ∧
      ∀ target, tree.get? location ≠ some (.link target) := by
  induction links generalizing here names location with
  | zero => exact reached_of_walkNames hlast (fun _ _ _ _ _ hl => by simp at hl) hw hstart
  | succ links ih =>
    refine reached_of_walkNames hlast (fun here target rest place hd hl => ?_) hw hstart
    refine ih hl fun _ => ?_
    have hs : tree.get? (Path.start here ⟨target⟩) = some .directory := by
      unfold Path.start
      split
      · exact get?_root tree
      · exact hd
    exact ⟨get?_dropLast_of_directory hs, by simp [hs]⟩


/-- A path that is not kept at a link leads to a place in a directory, at which no link stands. -/
theorem reached_of_locate (hlast : last ≠ .kept)
    (h : tree.locate cwd path last = .ok location) :
    tree.get? location.dropLast = some .directory ∧
      ∀ target, tree.get? location ≠ some (.link target) := by
  obtain ⟨⟨⟩, hc, hw⟩ := Except.bind_eq_ok_iff.mp h
  obtain ⟨base, -, hw⟩ := Except.bind_eq_ok_iff.mp hw
  refine reached_of_walk hlast hw fun he => absurd he (Path.walked_ne_nil fun ht => ?_)
  simp [Path.check, ht] at hc

/-- A file can be written at a place that is not a directory. -/
theorem locateWritable_eq_ok_iff :
    tree.locateWritable cwd path = .ok location ↔
      tree.locate cwd path .created = .ok location ∧ tree.get? location ≠ some .directory := by
  rw [locateWritable, Except.bind_eq_ok_iff]
  constructor
  · rintro ⟨place, hl, hw⟩
    split at hw
    · simp [throw, throwThe, MonadExceptOf.throw] at hw
    · next hd =>
      obtain rfl : place = location := Except.ok.inj hw
      exact ⟨hl, hd⟩
  · rintro ⟨hl, hd⟩
    exact ⟨location, hl, by simp [hd, pure, Except.pure]⟩

/-- A place that can be written accepts a file. -/
theorem accepts_of_locateWritable (h : tree.locateWritable cwd path = .ok location)
    (content : Text.Bytes) : tree.Accepts location (.file content) := by
  obtain ⟨hl, hd⟩ := locateWritable_eq_ok_iff.mp h
  refine ⟨?_, (reached_of_locate (by decide) hl).1, fun he => absurd he hd⟩
  rintro rfl
  exact hd (get?_root tree)

/-- A written file closes no way. -/
theorem waysKept_put (h : tree.locateWritable cwd path = .ok location) (content : Text.Bytes) :
    tree.WaysKept (tree.put location (.file content)) ∧
      (tree.put location (.file content)).WaysKept tree := by
  obtain ⟨hl, hd⟩ := locateWritable_eq_ok_iff.mp h
  have hlink := (reached_of_locate (by decide) hl).2
  have hget := get?_put (accepts_of_locateWritable h content)
  have hsame : ∀ place entry, (∀ content, entry ≠ .file content) →
      ((tree.put location (.file content)).get? place = some entry ↔
        tree.get? place = some entry) := by
    intro place entry hne
    rw [hget]
    split
    · next he =>
      subst he
      have hold : tree.get? place ≠ some entry := by
        cases entry with
        | file found => exact absurd rfl (hne found)
        | directory => exact hd
        | link target => exact hlink target
      simp [hold, Ne.symm (hne content)]
    · rfl
  have hdir := fun place => hsame place .directory (by simp)
  have hlinks := fun place target => hsame place (.link target) (by simp)
  exact ⟨⟨fun place => (hdir place).mpr, fun place target => (hlinks place target).mp,
      fun place target => (hlinks place target).mpr⟩,
    ⟨fun place => (hdir place).mp, fun place target => (hlinks place target).mpr,
      fun place target => (hlinks place target).mp⟩⟩

/-- The later of two contents of a file counts. -/
theorem put_put {content : Text.Bytes} (h : tree.Accepts location (.file content))
    (later : Text.Bytes) :
    (tree.put location (.file content)).put location (.file later) =
      tree.put location (.file later) := by
  have hd : tree.get? location ≠ some .directory := fun he => nomatch h.2.2 he
  have hl : tree.Accepts location (.file later) := ⟨h.1, h.2.1, fun he => absurd he hd⟩
  have hne : location.dropLast ≠ location := by
    intro he
    have hlen := congrArg List.length he
    have hpos := List.length_pos_iff.mpr h.1
    simp only [List.length_dropLast] at hlen
    omega
  have ha : (tree.put location (.file content)).Accepts location (.file later) := by
    refine ⟨h.1, ?_, ?_⟩
    · rw [get?_put h, if_neg hne]
      exact h.2.1
    · simp [get?_put h]
  apply Tree.ext
  intro found
  rw [get?_put ha, get?_put hl, get?_put h]
  split <;> rfl

/-- What is written is put at the place to which its path leads. -/
theorem write_eq_ok_iff {content : Text.Bytes} {written : Tree} :
    tree.write cwd path content = .ok written ↔
      ∃ location, tree.locateWritable cwd path = .ok location ∧
        written = tree.put location (.file content) := by
  rw [write, Except.bind_eq_ok_iff]
  constructor
  · rintro ⟨location, hl, hw⟩
    exact ⟨location, hl, (Except.ok.inj hw).symm⟩
  · rintro ⟨location, hl, rfl⟩
    exact ⟨location, hl, rfl⟩

/-- A copy puts the content of its source at the place that its target leads to. The source is read
when the target has been emptied, so a file that is copied onto itself ends empty. -/
theorem copy_eq_ok_iff {source target : Path} {copied : Tree} :
    tree.copy cwd source target = .ok copied ↔
      ∃ origin content destination, tree.locate cwd source = .ok origin ∧
        tree.get? origin = some (.file content) ∧
        tree.locateWritable cwd target = .ok destination ∧
        copied = tree.put destination (.file (if origin = destination then [] else content)) := by
  have hcopy : ∀ origin content destination, tree.locate cwd source = .ok origin →
      tree.get? origin = some (.file content) → tree.locateWritable cwd target = .ok destination →
      tree.copy cwd source target =
        .ok (tree.put destination (.file (if origin = destination then [] else content))) := by
    intro origin content destination ho hg hw
    have ha := accepts_of_locateWritable hw []
    have hentry : tree.entryAt origin = .ok (.file content) := entryAt_eq_ok_iff.mpr hg
    simp only [copy, ho, hw, hentry, bind, Except.bind, get?_put ha]
    by_cases he : origin = destination
    · simp only [he, if_true]
      exact congrArg Except.ok (put_put ha [])
    · simp only [he, if_false, hg]
      exact congrArg Except.ok (put_put ha content)
  constructor
  · intro h
    have hparts := h
    simp only [copy, Except.bind_eq_ok_iff, entryAt_eq_ok_iff] at hparts
    obtain ⟨origin, ho, entry, hg, hc⟩ := hparts
    split at hc
    · next content =>
      obtain ⟨destination, hw, -⟩ := Except.bind_eq_ok_iff.mp hc
      have hc := hcopy origin content destination ho hg hw
      exact ⟨origin, content, destination, ho, hg, hw, Except.ok.inj (h.symm.trans hc)⟩
    · simp [throw, throwThe, MonadExceptOf.throw] at hc
  · rintro ⟨origin, content, destination, ho, hg, hw, rfl⟩
    exact hcopy origin content destination ho hg hw

namespace Straight

variable {site : Location}

/-- The place of a file at a straight path without a slash behind it. -/
theorem locateWritable_eq_ok_iff (h : tree.Straight cwd path site)
    (hslash : path.endsInSlash = false) :
    tree.locateWritable cwd path = .ok location ↔
      path.Accepted ∧ location = site ∧ tree.get? site.dropLast = some .directory ∧
        tree.get? site ≠ some .directory := by
  rw [Tree.locateWritable_eq_ok_iff, h.locate_eq_ok_iff (.inr hslash)]
  constructor
  · rintro ⟨⟨ha, rfl, hd, -⟩, hn⟩
    exact ⟨ha, rfl, hd, hn⟩
  · rintro ⟨ha, rfl, hd, hn⟩
    exact ⟨⟨ha, rfl, hd, by simp [hslash]⟩, hn⟩

end Straight

end Tree

end Bootstage
