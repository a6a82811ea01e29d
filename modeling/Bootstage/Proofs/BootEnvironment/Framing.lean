import Bootstage.Proofs.BootEnvironment.Leftovers
import Bootstage.Proofs.Tree.Placing

/-!
# What a boot environment leaves alone

The directories of a boot environment have places when their paths lead there straight down and
past no link, whatever stands at them and however they lie to each other. Then clearing, resetting
and filling them keep all that is neither at nor below the two places; only directories that were
missing on the way to them are new.
-/

namespace Bootstage

namespace Tree

variable {tree : Tree} {esp firmware : Location}

theorem erase_comm (tree : Tree) (esp firmware : Location) :
    (tree.erase esp).erase firmware = (tree.erase firmware).erase esp := by
  apply Tree.ext
  intro location
  simp only [get?_erase]
  split <;> split <;> rfl

@[simp] theorem erase_erase (tree : Tree) (site : Location) :
    (tree.erase site).erase site = tree.erase site := by
  apply Tree.ext
  intro location
  simp only [get?_erase]
  split <;> rfl

end Tree

namespace Scene

/-- Both directories of a boot environment have places. -/
structure Placed (scene : Scene) (environment : BootEnvironment) (esp firmware : Location) :
    Prop where
  /-- The place of the directory of the system partition. -/
  esp : scene.tree.Placed scene.cwd environment.espDir esp
  /-- The place of the directory of the firmware copies. -/
  firmware : scene.tree.Placed scene.cwd environment.firmwareDir firmware

/-- What is left of a scene when something at a place is to be removed, in success and in failure:
what was there is gone, or nothing has been done. -/
structure Trimmed (site : Location) (before after : Scene) : Prop where
  /-- The files. -/
  tree : after.tree = before.tree.erase site ∨ after.tree = before.tree
  /-- No one has been called. -/
  calls : after.calls = before.calls
  /-- The working directory is the same if it is left. -/
  cwd_of_cwd : ∀ location, after.cwd = some location → before.cwd = some location

namespace Trimmed

variable {site esp firmware : Location} {before middle after : Scene}
  {environment : BootEnvironment}

theorem refl (scene : Scene) : scene.Trimmed site scene :=
  ⟨.inr rfl, rfl, fun _ hl => hl⟩

/-- Trimming one of the directories changes nothing outside them. -/
theorem sameOutside (h : before.Trimmed site after) (hs : site = esp ∨ site = firmware) :
    Tree.SameOutside esp firmware before.tree after.tree := by
  rcases h.tree with he | he <;> rw [he]
  · exact Tree.sameOutside_erase _ hs
  · exact .refl _

/-- A path keeps its place when another directory is trimmed. -/
theorem placed_of_placed (h : before.Trimmed site after) {path : Path} {other : Location}
    (hp : before.tree.Placed before.cwd path other) :
    after.tree.Placed after.cwd path other := by
  rcases h.tree with he | he <;> rw [he]
  · exact hp.erase h.cwd_of_cwd
  · exact ⟨hp.written, hp.descends, hp.spells.mono h.cwd_of_cwd, hp.unlinked⟩

/-- A place that is vacant stays vacant. -/
theorem vacant (h : before.Trimmed site after) {path : Path} {other : Location}
    (hv : before.tree.Vacant before.cwd path other) : after.tree.Vacant after.cwd path other := by
  rcases h.tree with he | he
  · rw [he]
    exact hv.erase h.cwd_of_cwd
  · rw [he]
    intro hd
    exact (hv hd).imp_left fun hn => Option.eq_none_iff_forall_ne_some.mpr fun place hs => by
      simp [Path.site?_mono h.cwd_of_cwd hs] at hn

/-- Both directories keep their places. -/
theorem placed (h : before.Trimmed site after) (hp : before.Placed environment esp firmware) :
    after.Placed environment esp firmware :=
  ⟨h.placed_of_placed hp.esp, h.placed_of_placed hp.firmware⟩

/-- Where nothing is left at both places, both have been cleared away. -/
theorem tree_eq (h : before.Trimmed esp middle) (h' : middle.Trimmed firmware after)
    (he : after.tree.get? esp = none) (hf : after.tree.get? firmware = none) :
    after.tree = (before.tree.erase esp).erase firmware := by
  have hboth : (after.tree.erase esp).erase firmware = after.tree := by
    rw [Tree.erase_of_get?_eq_none he, Tree.erase_of_get?_eq_none hf]
  rw [← hboth]
  rcases h.tree with hm | hm <;> rcases h'.tree with ha | ha <;>
    simp only [ha, hm, Tree.erase_comm _ esp firmware, Tree.erase_erase]

end Trimmed

end Scene

namespace BootEnvironment

open Bootstage.Action

variable {environment : BootEnvironment} {scene left : Scene} {esp firmware : Location}

/-! ### Clearing -/

/-- Removing a directory at a place removes nothing else, and leaves no directory there that is
shown. -/
theorem trimmed_remove {directory : Path} {site : Location}
    (h : scene.tree.Placed scene.cwd directory site) (hroot : site ≠ []) (name : String) :
    scene.Trimmed site ((remove name directory).effect scene).2 ∧
      (((remove name directory).effect scene).1 = .ok () →
        ((remove name directory).effect scene).2.tree.Vacant
          ((remove name directory).effect scene).2.cwd directory site) := by
  rw [effect_remove_eq]
  by_cases hp : scene.tree.present scene.cwd directory = true
  · rw [if_pos hp]
    rcases h.removeAll_of_present hroot hp with hr | hr <;> rw [hr]
    · refine ⟨⟨.inl rfl, rfl, fun location hl => Tree.eq_some_of_held hl⟩, fun _ hd => ?_⟩
      simp [Tree.get?_erase, hroot] at hd
    · exact ⟨⟨.inr rfl, rfl, fun location hl => Tree.eq_some_of_held hl⟩, by simp⟩
  · rw [if_neg hp]
    exact ⟨.refl scene, fun _ => h.vacant hroot (by simpa using hp)⟩

/-- Clearing both directories away leaves no directory at their places that is shown. -/
theorem trimmed_clear (h : scene.Placed environment esp firmware) (hesp : esp ≠ [])
    (hfirmware : firmware ≠ []) (name : String) :
    ∃ middle, scene.Trimmed esp middle ∧
      middle.Trimmed firmware ((environment.clear name).effect scene).2 ∧
      ∀ cleared, (environment.clear name).effect scene = (.ok (), cleared) →
        cleared.tree.Vacant cleared.cwd environment.espDir esp ∧
          cleared.tree.Vacant cleared.cwd environment.firmwareDir firmware := by
  obtain ⟨hfirst, hvacant⟩ := trimmed_remove h.esp hesp name
  rw [clear, effect_bind (by simp)]
  rcases hm : (remove name environment.espDir).effect scene with ⟨error | ⟨⟩, middle⟩
  · rw [hm] at hfirst
    exact ⟨middle, hfirst, .refl _, by simp⟩
  rw [hm] at hfirst hvacant
  obtain ⟨hsecond, hvacant'⟩ := trimmed_remove (hfirst.placed h).firmware hfirmware name
  refine ⟨middle, hfirst, hsecond, fun cleared hc => ?_⟩
  dsimp only at hc
  rw [hc] at hsecond hvacant'
  exact ⟨hsecond.vacant (hvacant rfl), hvacant' rfl⟩

/-! ### Laying out -/

/-- Behind a directory that is not shown nothing is created: its own path is taken, so one of its
names is too long. -/
theorem createDirectory_bootDir_of_vacant
    (h : scene.tree.Placed scene.cwd environment.espDir esp) (hroot : esp ≠ [])
    (hvacant : scene.tree.Vacant scene.cwd environment.espDir esp)
    (hd : scene.tree.get? esp = some .directory) :
    ∃ cause,
      scene.tree.createDirectory scene.cwd environment.bootDir = (.error cause, scene.tree) := by
  have hplain := h.plain hroot
  rcases Tree.createDirectory_eq (plain_bootDir hplain) scene.cwd with
    ⟨cause, hstuck⟩ | ⟨hc, base, hbase, -⟩
  · exact ⟨cause, hstuck scene.tree⟩
  have hbase' : environment.espDir.origin scene.cwd = .ok base := by
    rw [← hbase]
    cases scene.cwd <;> simp [Path.origin, Path.start, isAbsolute_bootDir]
  have hsite := Path.site?_of_origin hbase'
  obtain rfl := h.spells _ hsite
  have hlong : ∃ name ∈ environment.espDir.names, name.length > nameLimit := by
    by_contra hshort
    have haccepted : environment.espDir.Accepted :=
      ⟨check_espDir hplain hc, fun name hn => Nat.not_lt.mp fun hl => hshort ⟨name, hn, hl⟩⟩
    exact (hvacant hd).elim (fun hn => by simp [hsite] at hn) fun hn => hn haccepted
  exact ⟨.nameTooLong, Tree.createDirectory_of_long (plain_bootDir hplain)
    (names_bootDir environment) (by simp) hc hbase h.unlinked hd hlong⟩

/-- The directory of the boot loader is created below its place, if at all. -/
theorem grown_bootDir (h : scene.tree.Placed scene.cwd environment.espDir esp) (hroot : esp ≠ [])
    (hvacant : scene.tree.Vacant scene.cwd environment.espDir esp) :
    scene.tree.Grown (scene.tree.createDirectory scene.cwd environment.bootDir).2
      (esp ++ (["efi", "boot"] : Location)) := by
  by_cases hd : scene.tree.get? esp = some .directory
  · obtain ⟨cause, hstuck⟩ := createDirectory_bootDir_of_vacant h hroot hvacant hd
    rw [hstuck]
    exact .refl _ _
  · exact Tree.grown_createDirectory (plain_bootDir (h.plain hroot))
      (h.unlinked.append hd _) (spells_bootDir h.spells)

/-- Laying out adds directories on the way to the two places and below them, in success and in
failure. -/
theorem keepsOutside_layOut (h : scene.Placed environment esp firmware) (hesp : esp ≠ [])
    (hfirmware : firmware ≠ [])
    (hvacant : scene.tree.Vacant scene.cwd environment.espDir esp) (name : String) :
    Tree.KeepsOutside esp firmware scene.tree
      ((environment.layOut name).effect scene).2.tree := by
  have hgrown := grown_bootDir h.esp hesp hvacant
  rw [layOut, effect_bind (by simp), effect_create]
  rcases hb : scene.tree.createDirectory scene.cwd environment.bootDir with ⟨cause | ⟨⟩, booted⟩
  · rw [hb] at hgrown
    exact hgrown.keepsOutside (.inl rfl)
  rw [hb] at hgrown
  dsimp only [Except.mapError_ok]
  rw [effect_create]
  have hgrown' : booted.Grown
      (booted.createDirectory (booted.held scene.cwd) environment.firmwareDir).2
      (firmware ++ []) := by
    rw [List.append_nil]
    exact Tree.grown_createDirectory (h.firmware.plain hfirmware)
      (h.firmware.unlinked.of_grown hgrown)
      (h.firmware.spells.mono fun _ hl => Tree.eq_some_of_held hl)
  exact (hgrown.keepsOutside (.inl rfl)).trans (hgrown'.keepsOutside (.inr rfl))

/-- Only where nothing stands at both places all is laid out. -/
theorem get?_of_layOut (h : scene.Placed environment esp firmware) (hesp : esp ≠ [])
    (hfirmware : firmware ≠ [])
    (hvacant : scene.tree.Vacant scene.cwd environment.espDir esp ∧
      scene.tree.Vacant scene.cwd environment.firmwareDir firmware) {name : String}
    (hl : (environment.layOut name).effect scene = (.ok (), left)) :
    scene.tree.get? esp = none ∧ scene.tree.get? firmware = none := by
  rw [layOut] at hl
  obtain ⟨⟨⟩, booted, hboot, hfw⟩ := (effect_bind_eq_ok_iff (by simp)).mp hl
  have hnot : scene.tree.get? esp ≠ some .directory := by
    intro hd
    obtain ⟨cause, hstuck⟩ := createDirectory_bootDir_of_vacant h.esp hesp hvacant.1 hd
    rw [effect_create, hstuck] at hboot
    simp at hboot
  have hbooted := created_of_create (plain_bootDir (h.esp.plain hesp))
    (h.esp.unlinked.append hnot _) (spells_bootDir h.esp.spells) hboot
  have hcwd : ∀ location, booted.cwd = some location → scene.cwd = some location := by
    intro location hb
    rw [hbooted.cwd_eq] at hb
    exact Tree.eq_some_of_held hb
  have hleft := created_of_create (h.firmware.plain hfirmware)
    (h.firmware.unlinked.of_grown hbooted.grown) (h.firmware.spells.mono hcwd) hfw
  constructor
  · cases hg : scene.tree.get? esp with
    | none => rfl
    | some entry =>
      have hd := hbooted.get? esp
      rw [if_pos (List.prefix_append _ _), hbooted.grown.get?_of_get? hg] at hd
      exact absurd (hg.trans hd) hnot
  · cases hg : scene.tree.get? firmware with
    | none => rfl
    | some entry =>
      have hd := hleft.get? firmware
      rw [if_pos List.prefix_rfl, hleft.grown.get?_of_get? (hbooted.grown.get?_of_get? hg)] at hd
      rcases hvacant.2 (hg.trans hd) with hn | hn
      · simp [Path.site?_mono hcwd hleft.spelled] at hn
      · exact absurd hleft.accepted hn

/-- A scene in which nothing stands at a place of a directory can be cleared there. -/
theorem clearable_of_none {directory : Path} {site : Location}
    (h : scene.tree.Placed scene.cwd directory site) (hn : scene.tree.get? site = none) :
    scene.tree.Clearable scene.cwd directory site := by
  refine ⟨h.plain ?_, h.spells, h.unlinked, .inl hn⟩
  rintro rfl
  simp at hn

/-! ### Resetting, cleaning and filling -/

/-- A reset of two places that succeeds leaves the empty layout, whatever stood there. -/
theorem fresh_of_reset_of_placed (h : scene.Placed environment esp firmware) (hesp : esp ≠ [])
    (hfirmware : firmware ≠ []) {name : String}
    (hreset : (environment.reset name).effect scene = (.ok (), left)) :
    environment.Fresh esp firmware scene left := by
  rw [reset_eq] at hreset
  obtain ⟨⟨⟩, cleared, hclear, hlayOut⟩ := (effect_bind_eq_ok_iff (by simp)).mp hreset
  obtain ⟨middle, hmiddle, hcleared, hvacant⟩ := trimmed_clear h hesp hfirmware name
  rw [hclear] at hcleared
  have hplaced := hcleared.placed (hmiddle.placed h)
  obtain ⟨he, hf⟩ :=
    get?_of_layOut hplaced hesp hfirmware (hvacant cleared hclear) hlayOut
  exact fresh_of_layOut (hcleared.calls.trans hmiddle.calls)
    (fun location hl => hmiddle.cwd_of_cwd location (hcleared.cwd_of_cwd location hl))
    (hmiddle.tree_eq hcleared he hf) (clearable_of_none hplaced.esp he)
    (clearable_of_none hplaced.firmware hf) hlayOut

/-- Everything is at or below the root. -/
theorem sameOutside_of_root (h : esp = [] ∨ firmware = []) (before after : Tree) :
    Tree.SameOutside esp firmware before after := by
  intro location he hf
  rcases h with rfl | rfl
  · exact absurd List.nil_prefix he
  · exact absurd List.nil_prefix hf

/-- Cleaning removes nothing outside of the two places. -/
theorem sameOutside_clean (h : scene.Placed environment esp firmware) :
    Tree.SameOutside esp firmware scene.tree (environment.clean.effect scene).2.tree := by
  by_cases hroot : esp = [] ∨ firmware = []
  · exact sameOutside_of_root hroot _ _
  obtain ⟨hesp, hfirmware⟩ := not_or.mp hroot
  obtain ⟨middle, hmiddle, hcleared, -⟩ := trimmed_clear h hesp hfirmware "all"
  rw [effect_clean]
  exact (hmiddle.sameOutside (.inl rfl)).trans (hcleared.sameOutside (.inr rfl))

/-- A reset removes nothing outside of the two places, and creates there at most directories on the
way to them. -/
theorem keepsOutside_reset (h : scene.Placed environment esp firmware) (name : String) :
    Tree.KeepsOutside esp firmware scene.tree
      ((environment.reset name).effect scene).2.tree := by
  by_cases hroot : esp = [] ∨ firmware = []
  · exact (sameOutside_of_root hroot _ _).keeps
  obtain ⟨hesp, hfirmware⟩ := not_or.mp hroot
  obtain ⟨middle, hmiddle, hcleared, hvacant⟩ := trimmed_clear h hesp hfirmware name
  have hclear := ((hmiddle.sameOutside (.inl rfl)).trans
    (hcleared.sameOutside (.inr rfl))).keeps
  have hplaced := hcleared.placed (hmiddle.placed h)
  rw [reset_eq, effect_bind (by simp)]
  rcases hc : (environment.clear name).effect scene with ⟨error | ⟨⟩, cleared⟩
  · rw [hc] at hclear
    exact hclear
  · rw [hc] at hclear hplaced
    exact hclear.trans
      (keepsOutside_layOut hplaced hesp hfirmware (hvacant cleared hc).1 name)

section

variable {architecture : Architecture} {fresh filled : Scene} {profile : BuildProfile}
  {config : Config} {outcome : Except Error Unit}

/-- Filling the empty layout writes to files at the two places alone, and opens and closes no
way. -/
theorem Fresh.sameOutside_fill (h : environment.Fresh esp firmware scene fresh)
    (plain : environment.espDir.Plain ∧ environment.firmwareDir.Plain)
    (registered : architecture ∈ Architecture.registered)
    (hfill : (environment.fill architecture profile config).effect fresh = (outcome, filled)) :
    filled.cwd = fresh.cwd ∧ fresh.tree.WaysKept filled.tree ∧
      filled.tree.WaysKept fresh.tree ∧
        Tree.SameOutside esp firmware fresh.tree filled.tree := by
  obtain ⟨code, vars, names⟩ := Architecture.exists_fileNames registered
  obtain ⟨made, hcopied⟩ := copied architecture.id
    (environment.sources architecture profile config) fresh
  rw [fill] at hfill
  rw [hfill] at hcopied
  obtain ⟨hcwd, hkept, hkept', -⟩ := hcopied.files h.held
  refine ⟨hcwd, hkept, hkept', fun location he hf => hcopied.get?_eq h.held ?_⟩
  intro copy hcopy hw
  rcases h.place_of_copy plain names (hcopied.made_prefix.subset hcopy) hw with rfl | rfl | rfl
  · exact hf (List.prefix_append _ _)
  · exact hf (List.prefix_append _ _)
  · exact he (List.prefix_append _ _)

/-- The descriptor is written at the one place. -/
theorem Fresh.sameOutside_write (h : environment.Fresh esp firmware scene fresh)
    (plain : environment.espDir.Plain) (registered : architecture ∈ Architecture.registered)
    {tree written : Tree} (hkept : fresh.tree.WaysKept tree) (hkept' : tree.WaysKept fresh.tree)
    {content : Text.Bytes}
    (hw : tree.write fresh.cwd (environment.descriptorFile architecture) content = .ok written) :
    Tree.SameOutside esp firmware tree written := by
  obtain ⟨code, vars, names⟩ := Architecture.exists_fileNames registered
  obtain ⟨place, hplace, rfl⟩ := Tree.write_eq_ok_iff.mp hw
  obtain rfl := h.eq_of_locateWritable (names.isName architecture.descriptorFile (by simp)) plain
    h.espSite h.get?_esp (.inl List.prefix_rfl) ((hkept.locateWritable_eq_ok_iff hkept').mp hplace)
  exact Tree.sameOutside_put (.inl (List.prefix_append _ _))

/-- The making of a boot environment changes nothing outside of the two places, but for directories
that were missing on the way to them. -/
theorem keepsOutside_assemble (h : scene.Placed environment esp firmware)
    (registered : architecture ∈ Architecture.registered) (profile : BuildProfile)
    (config : Config) :
    Tree.KeepsOutside esp firmware scene.tree
      ((environment.assemble architecture profile config).effect scene).2.tree := by
  by_cases hroot : esp = [] ∨ firmware = []
  · exact (sameOutside_of_root hroot _ _).keeps
  obtain ⟨hesp, hfirmware⟩ := not_or.mp hroot
  have hreset := keepsOutside_reset h architecture.id
  rw [assemble, effect_bind (by simp)]
  rcases hr : (environment.reset architecture.id).effect scene with ⟨error | ⟨⟩, fresh⟩
  · rw [hr] at hreset
    exact hreset
  · rw [hr] at hreset
    have hfresh := fresh_of_reset_of_placed h hesp hfirmware hr
    dsimp only
    rcases hf : (environment.fill architecture profile config).effect fresh with ⟨outcome, filled⟩
    obtain ⟨-, -, -, hfill⟩ := hfresh.sameOutside_fill
      ⟨h.esp.plain hesp, h.firmware.plain hfirmware⟩ registered hf
    exact hreset.trans hfill.keeps

end

end BootEnvironment

end Bootstage
