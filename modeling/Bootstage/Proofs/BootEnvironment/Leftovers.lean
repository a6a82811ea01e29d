import Bootstage.Proofs.BootEnvironment.Filling

/-!
# What stays of a descriptor

A boot environment that could not be filled has no descriptor, unless one was left in place by the
reset. That is told exactly: the files after some copies are those before and those at the places
to which the targets of the copies lead.
-/

namespace Bootstage

namespace Tree

/-- A file stands at the location. -/
def IsFile (tree : Tree) (location : Location) : Prop :=
  ∃ content, tree.get? location = some (.file content)

/-- A file that is put somewhere is one file more. -/
theorem isFile_put {tree : Tree} {location : Location} {content : Text.Bytes}
    (h : tree.Accepts location (.file content)) (place : Location) :
    (tree.put location (.file content)).IsFile place ↔ place = location ∨ tree.IsFile place := by
  unfold IsFile
  rw [get?_put h]
  by_cases he : place = location <;> simp [he]

/-- A file is written to the same place in trees with the same ways. -/
theorem WaysKept.locateWritable_eq_ok_iff {before after : Tree} (h : before.WaysKept after)
    (h' : after.WaysKept before) {cwd : Option Location} {path : Path} {location : Location} :
    after.locateWritable cwd path = .ok location ↔
      before.locateWritable cwd path = .ok location := by
  rw [Tree.locateWritable_eq_ok_iff, Tree.locateWritable_eq_ok_iff]
  constructor
  · rintro ⟨hl, hd⟩
    exact ⟨h'.locate hl, fun hb => hd (h.directory _ hb)⟩
  · rintro ⟨hl, hd⟩
    exact ⟨h.locate hl, fun ha => hd (h'.directory _ ha)⟩

/-- No working directory is lost when no directory is. -/
theorem WaysKept.held {before after : Tree} (h : before.WaysKept after) {cwd : Option Location}
    (hc : before.held cwd = cwd) : after.held cwd = cwd := by
  cases cwd with
  | none => rfl
  | some location =>
    exact held_eq_some_iff.mpr ⟨rfl, h.directory _ (held_eq_some_iff.mp hc).2⟩

end Tree

namespace BootEnvironment

open Bootstage.Action

/-! ### Copies in a row -/

/-- How copies are made one after the other: those that are made, the outcome and the scene that is
left. -/
inductive Copied (name : String) :
    List (Path × Path) → Scene → List (Path × Path) → Except Error Unit → Scene → Prop
  /-- Nothing is left to copy. -/
  | done {scene : Scene} : Copied name [] scene [] (.ok ()) scene
  /-- A copy fails, and nothing follows. -/
  | stopped {scene : Scene} {source target : Path} {rest : List (Path × Path)}
      {cause : SystemError} (copy : scene.tree.copy scene.cwd source target = .error cause) :
      Copied name ((source, target) :: rest) scene [] (.error (.staging name source cause))
        (scene.withTree scene.tree)
  /-- A copy is made, and the rest follows. -/
  | passed {scene left : Scene} {source target : Path} {rest made : List (Path × Path)}
      {outcome : Except Error Unit} {copied : Tree}
      (copy : scene.tree.copy scene.cwd source target = .ok copied)
      (tail : Copied name rest (scene.withTree copied) made outcome left) :
      Copied name ((source, target) :: rest) scene ((source, target) :: made) outcome left

/-- Copies in a row take one of their courses. -/
theorem copied (name : String) (copies : List (Path × Path)) (scene : Scene) :
    ∃ made, Copied name copies scene made
      ((copies.forM fun (source, target) => copy name source target).effect scene).1
      ((copies.forM fun (source, target) => copy name source target).effect scene).2 := by
  induction copies generalizing scene with
  | nil => exact ⟨[], .done⟩
  | cons pair rest ih =>
    obtain ⟨source, target⟩ := pair
    rw [effect_forM_cons fun _ => ignoresConsole_copy _ _ _, effect_copy]
    cases hc : scene.tree.copy scene.cwd source target with
    | error cause => exact ⟨[], .stopped hc⟩
    | ok copied =>
      obtain ⟨made, hm⟩ := ih (scene.withTree copied)
      exact ⟨_, .passed hc hm⟩

namespace Copied

variable {name : String} {copies made : List (Path × Path)} {scene left : Scene}
  {outcome : Except Error Unit}

/-- The copies are made in order. -/
theorem made_prefix (h : Copied name copies scene made outcome left) : made <+: copies := by
  induction h with
  | done => exact List.prefix_rfl
  | stopped copy => exact List.nil_prefix
  | passed copy tail ih => exact List.cons_prefix_cons.mpr ⟨rfl, ih⟩

theorem made_eq_of_ok (h : Copied name copies scene made outcome left) (ho : outcome = .ok ()) :
    made = copies := by
  induction h with
  | done => rfl
  | stopped copy => simp at ho
  | passed copy tail ih => rw [ih ho]

/-- Copies change nothing but which files stand where, and these are at the places to which the
targets lead. -/
theorem files (h : Copied name copies scene made outcome left)
    (held : scene.tree.held scene.cwd = scene.cwd) :
    left.cwd = scene.cwd ∧ scene.tree.WaysKept left.tree ∧ left.tree.WaysKept scene.tree ∧
      ∀ place, left.tree.IsFile place ↔ scene.tree.IsFile place ∨
        ∃ copy ∈ made, scene.tree.locateWritable scene.cwd copy.2 = .ok place := by
  induction h with
  | done => exact ⟨rfl, .refl _, .refl _, by simp⟩
  | stopped copy => exact ⟨held, .refl _, .refl _, by simp⟩
  | @passed scene left source target rest made outcome copied copy tail ih =>
    obtain ⟨origin, content, destination, -, -, hw, rfl⟩ := Tree.copy_eq_ok_iff.mp copy
    obtain ⟨hkept, hkept'⟩ := Tree.waysKept_put hw (if origin = destination then [] else content)
    have hput := Tree.isFile_put
      (Tree.accepts_of_locateWritable hw (if origin = destination then [] else content))
    have hcwd := hkept.held held
    obtain ⟨hc, hk, hk', hfiles⟩ := ih (Tree.held_held _ _)
    rw [Scene.cwd_withTree, hcwd] at hc hfiles
    refine ⟨hc, hkept.trans hk, hk'.trans hkept', fun place => ?_⟩
    rw [hfiles]
    simp only [Scene.tree_withTree, hput, hkept.locateWritable_eq_ok_iff hkept', List.mem_cons,
      exists_eq_or_imp, hw, Except.ok.injEq]
    constructor
    · rintro ((rfl | hf) | hm)
      · exact .inr (.inl rfl)
      · exact .inl hf
      · exact .inr (.inr hm)
    · rintro (hf | rfl | hm)
      · exact .inl (.inr hf)
      · exact .inl (.inl rfl)
      · exact .inr hm

/-- Where no copy is made, everything is as it was. -/
theorem get?_eq (h : Copied name copies scene made outcome left)
    (held : scene.tree.held scene.cwd = scene.cwd) {place : Location}
    (hne : ∀ copy ∈ made, scene.tree.locateWritable scene.cwd copy.2 ≠ .ok place) :
    left.tree.get? place = scene.tree.get? place := by
  induction h with
  | done => rfl
  | stopped copy => rfl
  | @passed scene left source target rest made outcome copied copy tail ih =>
    obtain ⟨origin, content, destination, -, -, hw, rfl⟩ := Tree.copy_eq_ok_iff.mp copy
    obtain ⟨hkept, hkept'⟩ := Tree.waysKept_put hw (if origin = destination then [] else content)
    have haccepts :=
      Tree.accepts_of_locateWritable hw (if origin = destination then [] else content)
    have hplace : place ≠ destination := by
      rintro rfl
      exact hne _ List.mem_cons_self hw
    have hrest := ih (Tree.held_held _ _) fun other ho hother => by
      rw [Scene.cwd_withTree, Scene.tree_withTree, hkept.held held] at hother
      exact hne other
        (List.mem_cons_of_mem _ ho) ((hkept.locateWritable_eq_ok_iff hkept').mp hother)
    rw [hrest, Scene.tree_withTree, Tree.get?_put haccepts, if_neg hplace]

/-- When all copies are made, the last one starts from what the others have left. -/
theorem exists_last {source target : Path}
    (h : Copied name (copies ++ [(source, target)]) scene made outcome left)
    (ho : outcome = .ok ()) :
    ∃ middle copied, Copied name copies scene copies (.ok ()) middle ∧
      middle.tree.copy middle.cwd source target = .ok copied ∧ left = middle.withTree copied := by
  induction copies generalizing scene made with
  | nil =>
    cases h with
    | stopped copy => simp at ho
    | passed copy tail =>
      cases tail with
      | done => exact ⟨scene, _, .done, copy, rfl⟩
  | cons pair copies ih =>
    cases h with
    | stopped copy => simp at ho
    | passed copy tail =>
      obtain ⟨middle, copied, hothers, hlast, hleft⟩ := ih tail
      exact ⟨middle, copied, .passed copy hothers, hlast, hleft⟩

/-- A failure names the source of the first copy that is not made, and on the files that are left
this copy can still not be made. -/
theorem exists_stopped (h : Copied name copies scene made outcome left)
    (held : scene.tree.held scene.cwd = scene.cwd) {error : Error} (he : outcome = .error error) :
    ∃ source target rest cause, copies = made ++ (source, target) :: rest ∧
      error = .staging name source cause ∧
      left.tree.copy left.cwd source target = .error cause := by
  induction h with
  | done => simp at he
  | @stopped scene source target rest cause copy =>
    obtain rfl := Except.error.inj he
    refine ⟨source, target, rest, cause, rfl, rfl, ?_⟩
    rw [Scene.cwd_withTree, held]
    exact copy
  | passed copy tail ih =>
    obtain ⟨source, target, rest, cause, hs, hn, hc⟩ := ih (Tree.held_held _ _) he
    exact ⟨source, target, rest, cause, congrArg _ hs, hn, hc⟩

end Copied

/-! ### The descriptor -/

section

variable {environment : BootEnvironment} {architecture : Architecture} {scene fresh : Scene}
  {made : List (Path × Path)}

/-- The path of the descriptor leads to a file. -/
def HasDescriptor (environment : BootEnvironment) (architecture : Architecture) (scene : Scene) :
    Prop :=
  ∃ content, scene.tree.read scene.cwd (environment.descriptorFile architecture) = .ok content

/-- The path of the descriptor leads to a place where a file stands, or where one of the copies is
made. -/
def DescriptorLeft (environment : BootEnvironment) (architecture : Architecture) (fresh : Scene)
    (made : List (Path × Path)) : Prop :=
  ∃ place, fresh.tree.locate fresh.cwd (environment.descriptorFile architecture) = .ok place ∧
    (fresh.tree.IsFile place ∨
      ∃ copy ∈ made, fresh.tree.locateWritable fresh.cwd copy.2 = .ok place)

/-- After some copies there is a descriptor exactly if one was left, or written by a copy. -/
theorem Copied.hasDescriptor_iff {name : String} {copies : List (Path × Path)} {left : Scene}
    {outcome : Except Error Unit} (h : Copied name copies fresh made outcome left)
    (held : fresh.tree.held fresh.cwd = fresh.cwd) :
    environment.HasDescriptor architecture left ↔
      environment.DescriptorLeft architecture fresh made := by
  obtain ⟨hcwd, hkept, hkept', hfiles⟩ := h.files held
  simp only [HasDescriptor, Tree.read_eq_ok_iff, hcwd]
  constructor
  · rintro ⟨content, place, hl, hg⟩
    exact ⟨place, hkept'.locate hl, (hfiles place).mp ⟨content, hg⟩⟩
  · rintro ⟨place, hl, hf⟩
    obtain ⟨content, hg⟩ := (hfiles place).mpr hf
    exact ⟨content, place, hkept.locate hl, hg⟩

/-- A reset that succeeds leaves no working directory that is not there. -/
theorem held_of_reset {name : String}
    (h : (environment.reset name).effect scene = (.ok (), fresh)) :
    fresh.tree.held fresh.cwd = fresh.cwd := by
  rw [reset] at h
  obtain ⟨⟨⟩, first, -, h⟩ := (effect_bind_eq_ok_iff (by simp)).mp h
  obtain ⟨⟨⟩, second, -, h⟩ := (effect_bind_eq_ok_iff (by simp)).mp h
  obtain ⟨⟨⟩, third, -, h⟩ := (effect_bind_eq_ok_iff (by simp)).mp h
  rw [effect_create] at h
  rw [← (Prod.mk.inj h).2]
  exact Tree.held_held _ _

variable {esp firmware : Location}

/-- At or below the two places there are only directories right after a reset. -/
theorem Fresh.eq_directory (h : environment.Fresh esp firmware scene fresh) {location : Location}
    (hl : esp <+: location ∨ firmware <+: location) {entry : Entry}
    (hg : fresh.tree.get? location = some entry) : entry = .directory := by
  rw [h.laidOut, if_pos hl] at hg
  split at hg
  · exact (Option.some.inj hg).symm
  · simp at hg

/-- A name in one of the directories leads straight to its place right after a reset. -/
theorem Fresh.straight (h : environment.Fresh esp firmware scene fresh) {directory : Path}
    {site : Location} {name : Name} (hname : Path.IsName name) (plain : directory.Plain)
    (spelled : directory.site? fresh.cwd = some site)
    (hd : fresh.tree.get? site = some .directory) (hs : esp <+: site ∨ firmware <+: site) :
    fresh.tree.Straight fresh.cwd (directory / name) (site ++ [name]) := by
  refine ⟨hname.plain_join plain, ?_, Tree.unlinked_of_get?_dropLast (by simpa using hd) ?_⟩
  · rw [hname.site?_join, spelled]
    rfl
  · intro target hg
    have hbelow : esp <+: site ++ [name] ∨ firmware <+: site ++ [name] :=
      hs.imp (·.trans (List.prefix_append _ _)) (·.trans (List.prefix_append _ _))
    have hdir := h.eq_directory hbelow hg
    contradiction

/-- A copy into one of the directories right after a reset is made under its name. -/
theorem Fresh.eq_of_locateWritable (h : environment.Fresh esp firmware scene fresh)
    {directory : Path} {site place : Location} {name : Name} (hname : Path.IsName name)
    (plain : directory.Plain) (spelled : directory.site? fresh.cwd = some site)
    (hd : fresh.tree.get? site = some .directory) (hs : esp <+: site ∨ firmware <+: site)
    (hw : fresh.tree.locateWritable fresh.cwd (directory / name) = .ok place) :
    place = site ++ [name] := by
  have hstraight := h.straight hname plain spelled hd hs
  exact ((hstraight.locateWritable_eq_ok_iff (hname.endsInSlash_join _)).mp hw).2.1

/-- The path of the boot loader leads straight to its place right after a reset. -/
theorem Fresh.straight_bootFile (h : environment.Fresh esp firmware scene fresh)
    (plain : environment.espDir.Plain) (hname : Path.IsName architecture.bootFile) :
    fresh.tree.Straight fresh.cwd (environment.bootFile architecture)
      (esp ++ (["efi", "boot", architecture.bootFile] : Location)) := by
  have hbootSite : environment.bootDir.site? fresh.cwd =
      some (esp ++ (["efi", "boot"] : Location)) := by
    rw [site?_bootDir, h.espSite]
    rfl
  have hstraight := h.straight hname (plain_bootDir plain) hbootSite h.get?_boot
    (.inl (List.prefix_append _ _))
  rwa [List.append_assoc] at hstraight

/-- The targets of the copies lead straight to their places in the directories right after a
reset. -/
theorem Fresh.exists_straight (h : environment.Fresh esp firmware scene fresh)
    (plain : environment.espDir.Plain ∧ environment.firmwareDir.Plain) {code vars : Name}
    (names : architecture.FileNames code vars) {profile : BuildProfile} {config : Config}
    {copy : Path × Path} (hcopy : copy ∈ environment.sources architecture profile config) :
    ∃ site, fresh.tree.Straight fresh.cwd copy.2 site ∧ copy.2.endsInSlash = false ∧
      (site = firmware ++ [code] ∨ site = firmware ++ [vars] ∨
        site = esp ++ (["efi", "boot", architecture.bootFile] : Location)) := by
  have hcode := names.isName code (by simp)
  have hvars := names.isName vars (by simp)
  have hboot := names.isName architecture.bootFile (by simp)
  simp only [sources, names.firmwareCopy_code, names.firmwareCopy_vars, List.mem_cons,
    List.not_mem_nil, or_false] at hcopy
  rcases hcopy with rfl | rfl | rfl
  · exact ⟨_, h.straight hcode plain.2 h.firmwareSite h.get?_firmware (.inr List.prefix_rfl),
      hcode.endsInSlash_join _, .inl rfl⟩
  · exact ⟨_, h.straight hvars plain.2 h.firmwareSite h.get?_firmware (.inr List.prefix_rfl),
      hvars.endsInSlash_join _, .inr (.inl rfl)⟩
  · exact ⟨_, h.straight_bootFile plain.1 hboot, hboot.endsInSlash_join _, .inr (.inr rfl)⟩

/-- A copy right after a reset is made at its place in one of the directories. -/
theorem Fresh.place_of_copy (h : environment.Fresh esp firmware scene fresh)
    (plain : environment.espDir.Plain ∧ environment.firmwareDir.Plain) {code vars : Name}
    (names : architecture.FileNames code vars) {profile : BuildProfile} {config : Config}
    {copy : Path × Path} (hcopy : copy ∈ environment.sources architecture profile config)
    {place : Location} (hw : fresh.tree.locateWritable fresh.cwd copy.2 = .ok place) :
    place = firmware ++ [code] ∨ place = firmware ++ [vars] ∨
      place = esp ++ (["efi", "boot", architecture.bootFile] : Location) := by
  obtain ⟨site, hs, hslash, hsite⟩ := h.exists_straight plain names hcopy
  obtain rfl : place = site := ((hs.locateWritable_eq_ok_iff hslash).mp hw).2.1
  exact hsite

/-- Where both directories could be cleared, no descriptor is left. -/
theorem Fresh.not_descriptorLeft (h : environment.Fresh esp firmware scene fresh)
    (plain : environment.espDir.Plain ∧ environment.firmwareDir.Plain) {profile : BuildProfile}
    {config : Config} (registered : architecture ∈ Architecture.registered)
    (hm : made <+: environment.sources architecture profile config) :
    ¬ environment.DescriptorLeft architecture fresh made := by
  obtain ⟨code, vars, names⟩ := Architecture.exists_fileNames registered
  have hdescriptor := h.straight (names.isName architecture.descriptorFile (by simp)) plain.1
    h.espSite h.get?_esp (.inl List.prefix_rfl)
  have hother : ∀ name ∈ [code, vars],
      esp ++ [(architecture.descriptorFile : Name)] ≠ firmware ++ [name] := by
    intro name hn he
    have hlast : architecture.descriptorFile = name := by
      simpa using (List.append_inj' he rfl).2
    have hd := names.distinct
    rw [hlast] at hd
    rcases List.mem_pair.mp hn with rfl | rfl <;> simp at hd
  rintro ⟨place, hl, hleft⟩
  obtain ⟨-, rfl, -⟩ := (hdescriptor.locate_eq_ok_iff (.inl (by simp))).mp hl
  cases hleft with
  | inl hfile =>
    obtain ⟨content, hg⟩ := hfile
    have hdir := h.eq_directory (.inl (List.prefix_append _ _)) hg
    contradiction
  | inr hcopied =>
    obtain ⟨copy, hcopy, hw⟩ := hcopied
    rcases h.place_of_copy plain names (hm.subset hcopy) hw with he | he | he
    · exact hother code (by simp) he
    · exact hother vars (by simp) he
    · have hlen := congrArg List.length he
      simp only [List.length_append, List.length_cons, List.length_nil] at hlen
      omega

end

end BootEnvironment

end Bootstage
