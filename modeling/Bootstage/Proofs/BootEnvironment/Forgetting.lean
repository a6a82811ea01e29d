import Bootstage.Proofs.BootEnvironment.Reset
import Bootstage.Proofs.Tree.Recreation

/-!
# A reset forgets

What was at or below the two places of a boot environment has no influence on what a reset does,
and neither has which of the directories above them an earlier attempt has made. On all such scenes
a reset has one outcome and leaves one scene.
-/

namespace Bootstage

open Bootstage.Action

/-! ### Scenes that differ by leftovers -/

section

variable {environment : BootEnvironment} {esp firmware : Location} {left right : Scene}

/-- The scenes differ at most in what is at or below two places. -/
structure Scene.AgreeOutside (esp firmware : Location) (left right : Scene) : Prop where
  /-- The working directories are the same, unless they are there. -/
  cwd : ∀ location, ¬ esp <+: location → ¬ firmware <+: location →
    (right.cwd = some location ↔ left.cwd = some location)
  /-- The calls are the same. -/
  calls : right.calls = left.calls
  /-- So are the files elsewhere. -/
  tree : ∀ location, ¬ esp <+: location → ¬ firmware <+: location →
    right.tree.get? location = left.tree.get? location

theorem Scene.AgreeOutside.refl (scene : Scene) : scene.AgreeOutside esp firmware scene :=
  ⟨fun _ _ _ => .rfl, rfl, fun _ _ _ => rfl⟩

/-- What earlier attempts may have made of a scene: anything at or below the two places, and some of
the directories above them that a reset makes. -/
structure Scene.Attempted (environment : BootEnvironment) (esp firmware : Location)
    (before after : Scene) : Prop where
  /-- The working directory is the same, unless it is at or below the two places. -/
  cwd : ∀ location, ¬ esp <+: location → ¬ firmware <+: location →
    (after.cwd = some location ↔ before.cwd = some location)
  /-- The calls are the same. -/
  calls : after.calls = before.calls
  /-- All that was elsewhere is still there. -/
  kept : ∀ location entry, ¬ esp <+: location → ¬ firmware <+: location →
    before.tree.get? location = some entry → after.tree.get? location = some entry
  /-- All that is there now is there after a reset. -/
  made : ∀ location entry, ¬ esp <+: location → ¬ firmware <+: location →
    after.tree.get? location = some entry →
      ∃ name, ((environment.reset name).effect before).2.tree.get? location = some entry

/-- More that is left at or below the two places makes no difference. -/
theorem Scene.Attempted.of_agreeOutside {before : Scene}
    (h : before.Attempted environment esp firmware left)
    (h' : left.AgreeOutside esp firmware right) :
    before.Attempted environment esp firmware right where
  cwd location he hf := (h'.cwd location he hf).trans (h.cwd location he hf)
  calls := h'.calls.trans h.calls
  kept location entry he hf hg := by
    rw [h'.tree location he hf]
    exact h.kept location entry he hf hg
  made location entry he hf hg := by
    rw [h'.tree location he hf] at hg
    exact h.made location entry he hf hg

/-- A scene in which the directories of a boot environment can be cleared. -/
structure Scene.Resettable (scene : Scene) (environment : BootEnvironment)
    (esp firmware : Location) : Prop where
  /-- The working directory is there. -/
  held : scene.tree.held scene.cwd = scene.cwd
  /-- The directory of the system partition can be cleared. -/
  esp : scene.tree.Clearable scene.cwd environment.espDir esp
  /-- So can the directory of the firmware copies. -/
  firmware : scene.tree.Clearable scene.cwd environment.firmwareDir firmware

end

/-! ### Scenes without the two places -/

/-- A working directory that is left was not lost before. -/
theorem Tree.held_erase_held (tree : Tree) (gone : Location) (cwd : Option Location) :
    (tree.erase gone).held (tree.held cwd) = (tree.erase gone).held cwd := by
  ext location
  simp only [held_eq_some_iff]
  constructor
  · rintro ⟨⟨hc, -⟩, hd⟩
    exact ⟨hc, hd⟩
  · rintro ⟨hc, hd⟩
    exact ⟨⟨hc, get?_of_get?_erase hd⟩, hd⟩

/-- The scene from which both places have been cleared away. -/
def Scene.wiped (scene : Scene) (esp firmware : Location) : Scene :=
  scene.withTree ((scene.tree.erase esp).erase firmware)

namespace Scene.Resettable

variable {environment : BootEnvironment} {esp firmware : Location} {scene : Scene}

/-- What is wiped is gone with all below it, and everything else is there. -/
theorem get?_wiped_eq_some_iff (h : scene.Resettable environment esp firmware)
    {location : Location} {entry : Entry} :
    (scene.wiped esp firmware).tree.get? location = some entry ↔
      ¬ esp <+: location ∧ ¬ firmware <+: location ∧
        scene.tree.get? location = some entry := by
  have he := h.esp.site_ne_root
  have hf := h.firmware.site_ne_root
  simp only [wiped, tree_withTree, Tree.get?_erase]
  by_cases hl : location = []
  · simp [hl, he, hf]
  · by_cases hle : esp <+: location <;> by_cases hlf : firmware <+: location <;> simp [hl, hle, hlf]

/-- The working directory is lost if it is wiped or lies in what is wiped. -/
theorem cwd_wiped_eq_some_iff (h : scene.Resettable environment esp firmware)
    {location : Location} :
    (scene.wiped esp firmware).cwd = some location ↔
      ¬ esp <+: location ∧ ¬ firmware <+: location ∧ scene.cwd = some location := by
  have hwiped : (scene.wiped esp firmware).cwd =
      (scene.wiped esp firmware).tree.held scene.cwd := rfl
  rw [hwiped, Tree.held_eq_some_iff, h.get?_wiped_eq_some_iff]
  constructor
  · rintro ⟨hc, he, hf, -⟩
    exact ⟨he, hf, hc⟩
  · rintro ⟨he, hf, hc⟩
    exact ⟨hc, he, hf, (Tree.held_eq_some_iff.mp (h.held.trans hc)).2⟩

/-- What a reset does is decided by the scene without the two places. -/
theorem effect_reset (h : scene.Resettable environment esp firmware) (name : String) :
    (environment.reset name).effect scene =
      (environment.layOut name).effect (scene.wiped esp firmware) := by
  obtain ⟨middle, cleared, hmiddle, hcleared, hrun⟩ :=
    BootEnvironment.effect_reset h.esp h.firmware name
  have hm := hmiddle.eq_withTree h.held
  have hheld : middle.tree.held middle.cwd = middle.cwd := by
    rw [hm]
    exact Tree.held_held _ _
  have hc : cleared = scene.wiped esp firmware := by
    rw [hcleared.eq_withTree hheld, hm]
    simp only [Scene.withTree, Scene.wiped, Tree.held_erase_held]
  rw [hrun, hc]

end Scene.Resettable

/-- A scene with nothing at or below the two places. -/
structure Scene.Bare (scene : Scene) (environment : BootEnvironment) (esp firmware : Location) :
    Prop where
  /-- The working directory is there. -/
  held : scene.tree.held scene.cwd = scene.cwd
  /-- The paths are plain. -/
  plain : environment.espDir.Plain ∧ environment.firmwareDir.Plain
  /-- The one path spells its place. -/
  espSpells : environment.espDir.Spells scene.cwd esp
  /-- So does the other. -/
  firmwareSpells : environment.firmwareDir.Spells scene.cwd firmware
  /-- No link is on the way. -/
  unlinked : scene.tree.Unlinked esp ∧ scene.tree.Unlinked firmware
  /-- Nothing stands at the places. -/
  absent : scene.tree.get? esp = none ∧ scene.tree.get? firmware = none

/-- Wiping leaves directories bare that can be reset. -/
theorem Scene.Resettable.bare {environment : BootEnvironment} {esp firmware : Location}
    {scene : Scene} (h : scene.Resettable environment esp firmware) :
    (scene.wiped esp firmware).Bare environment esp firmware where
  held := Tree.held_held _ _
  plain := ⟨h.esp.plain, h.firmware.plain⟩
  espSpells := h.esp.spells.mono fun _ hl => (h.cwd_wiped_eq_some_iff.mp hl).2.2
  firmwareSpells := h.firmware.spells.mono fun _ hl => (h.cwd_wiped_eq_some_iff.mp hl).2.2
  unlinked := ⟨(h.esp.unlinked.erase esp).erase firmware,
    (h.firmware.unlinked.erase esp).erase firmware⟩
  absent := by
    simp [wiped, Tree.get?_erase, h.esp.site_ne_root, h.firmware.site_ne_root]

/-! ### The layout, again -/

/-- The files after the layout has been created as far as it can be. -/
def Scene.laid (scene : Scene) (environment : BootEnvironment) : Tree :=
  match scene.tree.createDirectory scene.cwd environment.bootDir with
  | (.error _, left) => left
  | (.ok (), left) => (left.createDirectory scene.cwd environment.firmwareDir).2

namespace Scene.Bare

variable {environment : BootEnvironment} {esp firmware : Location} {scene middle : Scene}

/-- There is no link on the way to the place of the boot loader. -/
theorem unlinked_boot (h : scene.Bare environment esp firmware) :
    scene.tree.Unlinked (esp ++ (["efi", "boot"] : Location)) :=
  h.unlinked.1.append (by simp [h.absent.1]) _

/-- The directory of the boot loader is created first. -/
theorem grown_boot (h : scene.Bare environment esp firmware) :
    scene.tree.Grown (scene.tree.createDirectory scene.cwd environment.bootDir).2
      (esp ++ (["efi", "boot"] : Location)) :=
  Tree.grown_createDirectory (BootEnvironment.plain_bootDir h.plain.1) h.unlinked_boot
    (BootEnvironment.spells_bootDir h.espSpells)

/-- The directory of the firmware copies is created in what that has left. -/
theorem grown_firmware (h : scene.Bare environment esp firmware) :
    (scene.tree.createDirectory scene.cwd environment.bootDir).2.Grown
      ((scene.tree.createDirectory scene.cwd environment.bootDir).2.createDirectory scene.cwd
        environment.firmwareDir).2 firmware :=
  Tree.grown_createDirectory h.plain.2 (h.unlinked.2.of_grown h.grown_boot) h.firmwareSpells

/-- What the layout is made of: nothing is lost, and only directories on the way to the two places
are new. -/
theorem get?_laid (h : scene.Bare environment esp firmware) (location : Location) :
    (scene.laid environment).get? location = scene.tree.get? location ∨
      (location <+: esp ++ (["efi", "boot"] : Location) ∨ location <+: firmware) ∧
        scene.tree.get? location = none ∧
          (scene.laid environment).get? location = some .directory := by
  have hb := h.grown_boot location
  have hf := h.grown_firmware location
  unfold laid
  rcases hc : scene.tree.createDirectory scene.cwd environment.bootDir with ⟨cause | ⟨⟩, left⟩
  · simp only [hc] at hb ⊢
    rcases hb with hb | ⟨hp, hn, hd⟩
    · exact .inl hb
    · exact .inr ⟨.inl hp, hn, hd⟩
  · simp only [hc] at hb hf ⊢
    rcases hf with hf | ⟨hp, hn, hd⟩ <;> rcases hb with hb | ⟨hp', hn', hd'⟩
    · exact .inl (hf.trans hb)
    · exact .inr ⟨.inl hp', hn', hf.trans hd'⟩
    · exact .inr ⟨.inr hp, hb.symm.trans hn, hd⟩
    · simp [hn] at hd'

/-- Laying out the directories takes nothing away. -/
theorem within_laid (h : scene.Bare environment esp firmware) :
    scene.tree.Within (scene.laid environment) := by
  intro location entry he
  rcases h.get?_laid location with hl | ⟨-, hn, -⟩
  · rw [hl, he]
  · simp [hn] at he

/-- The layout has no links on the way. -/
theorem unlinked_laid (h : scene.Bare environment esp firmware) {location : Location}
    (hl : scene.tree.Unlinked location) : (scene.laid environment).Unlinked location := by
  intro above hp target
  rcases h.get?_laid above with he | ⟨-, -, hd⟩
  · rw [he]
    exact hl above hp target
  · simp [hd]

/-- What laying out bare directories does, and how it ends. -/
theorem effect_layOut (h : scene.Bare environment esp firmware) (name : String) :
    (environment.layOut name).effect scene =
      (match scene.tree.createDirectory scene.cwd environment.bootDir with
        | (.error cause, _) => .error (.staging name environment.bootDir cause)
        | (.ok (), left) => (left.createDirectory scene.cwd environment.firmwareDir).1.mapError
            (.staging name environment.firmwareDir),
        scene.withTree (scene.laid environment)) := by
  have hheld := h.grown_boot.within.held h.held
  rw [BootEnvironment.layOut, effect_bind (by simp), BootEnvironment.effect_create]
  unfold laid
  rcases hc : scene.tree.createDirectory scene.cwd environment.bootDir with ⟨cause | ⟨⟩, left⟩
  · rfl
  · rw [hc] at hheld
    simp only [Except.mapError_ok, BootEnvironment.effect_create, withTree, hheld]

/-- The layout comes out the same where part of it is there already. -/
theorem effect_layOut_again (h : scene.Bare environment esp firmware)
    (h' : middle.Bare environment esp firmware) (cwd : middle.cwd = scene.cwd)
    (calls : middle.calls = scene.calls) (hm : scene.tree.Within middle.tree)
    (hl : middle.tree.Within (scene.laid environment)) (name : String) :
    (environment.layOut name).effect middle = (environment.layOut name).effect scene := by
  have hunlinked := h.unlinked_laid h.unlinked_boot
  have hfirmware := h.unlinked_laid h.unlinked.2
  have hspells := BootEnvironment.spells_bootDir h.espSpells
  have hgrown := h.grown_firmware.within
  have heffect : ∀ tree : Tree, middle.withTree tree = scene.withTree tree := by
    intro tree
    rw [withTree, withTree, cwd, calls]
  rw [h.effect_layOut, h'.effect_layOut, cwd, heffect]
  unfold laid at hl hunlinked hfirmware ⊢
  rw [cwd]
  rcases hc : scene.tree.createDirectory scene.cwd environment.bootDir with ⟨cause | ⟨⟩, left⟩
  · simp only [hc] at hl hunlinked ⊢
    obtain ⟨hout, hge, hle⟩ := Tree.createDirectory_again
      (BootEnvironment.plain_bootDir h.plain.1) hspells hunlinked hm hl
      (by rw [hc]; exact .refl left) (.inr (by rw [hc]))
    rw [hc] at hout hge
    rcases hc' : middle.tree.createDirectory scene.cwd environment.bootDir with ⟨outcome, left'⟩
    rw [hc'] at hout hge hle
    obtain rfl := hout
    obtain rfl : left = left' := hge.antisymm hle
    rfl
  · simp only [hc] at hl hunlinked hfirmware hgrown ⊢
    obtain ⟨hout, hge, hle⟩ := Tree.createDirectory_again
      (BootEnvironment.plain_bootDir h.plain.1) hspells hunlinked hm hl
      (by rw [hc]; exact hgrown) (.inl (by rw [hc]))
    rw [hc] at hout hge
    rcases hc' : middle.tree.createDirectory scene.cwd environment.bootDir with ⟨outcome, left'⟩
    rw [hc'] at hout hge hle
    obtain rfl := hout
    obtain ⟨hout, hge, hle⟩ := Tree.createDirectory_again h.plain.2 h.firmwareSpells hfirmware
      hge hle (.refl _) (.inr rfl)
    dsimp only
    rw [hout, hge.antisymm hle]

/-- What stands at the place of the system partition was there after the first creation. -/
theorem get?_esp_of_laid (h : scene.Bare environment esp firmware) (apart : ¬ esp <+: firmware)
    {entry : Entry} (he : (scene.laid environment).get? esp = some entry) :
    (scene.tree.createDirectory scene.cwd environment.bootDir).2.get? esp = some entry := by
  unfold laid at he
  rcases hc : scene.tree.createDirectory scene.cwd environment.bootDir with ⟨cause | ⟨⟩, left⟩
  · simpa [hc] using he
  · simp only [hc] at he
    have hf := h.grown_firmware esp
    rw [hc] at hf
    cases hf with
    | inl hf => rw [← hf, he]
    | inr hf => exact absurd hf.1 apart

/-- What stands at the place of the firmware copies is there after the second creation. -/
theorem get?_firmware_of_laid (h : scene.Bare environment esp firmware) {entry : Entry}
    (he : (scene.laid environment).get? firmware = some entry) :
    ((scene.tree.createDirectory scene.cwd environment.bootDir).2.createDirectory scene.cwd
      environment.firmwareDir).2.get? firmware = some entry := by
  unfold laid at he
  rcases hc : scene.tree.createDirectory scene.cwd environment.bootDir with ⟨cause | ⟨⟩, left⟩
  · simp only [hc] at he
    have hf := h.grown_firmware.within firmware entry
    rw [hc] at hf
    exact hf he
  · simpa [hc] using he

/-- The first creation makes nothing at the place of the firmware copies. -/
theorem get?_firmware_boot (h : scene.Bare environment esp firmware)
    (apart : ¬ esp <+: firmware ∧ ¬ firmware <+: esp) :
    (scene.tree.createDirectory scene.cwd environment.bootDir).2.get? firmware = none := by
  rcases h.grown_boot firmware with hb | ⟨hp, -, -⟩
  · rw [hb, h.absent.2]
  · cases List.prefix_or_prefix_of_prefix hp (List.prefix_append esp ["efi", "boot"]) with
    | inl hq => exact absurd hq apart.2
    | inr hq => exact absurd hq apart.1

/-- What has been laid out at a place can be cleared if it is shown there. -/
theorem clearable_laid (h : scene.Bare environment esp firmware) {path : Path} {site : Location}
    (plain : path.Plain) (spells : path.Spells scene.cwd site)
    (unlinked : scene.tree.Unlinked site) (absent : scene.tree.get? site = none)
    (shown : ∀ entry, (scene.laid environment).get? site = some entry →
      path.Accepted ∧ path.site? scene.cwd = some site) :
    (scene.laid environment).Clearable scene.cwd path site := by
  have hunlinked := h.unlinked_laid unlinked
  refine ⟨plain, spells, hunlinked, ?_⟩
  rcases h.get?_laid site with hl | ⟨-, -, hd⟩
  · exact .inl (hl.trans absent)
  · obtain ⟨ha, hs⟩ := shown _ hd
    have hstraight : (scene.laid environment).Straight scene.cwd path site := ⟨plain, hs, hunlinked⟩
    exact .inr (hstraight.presentDirectory_eq_true_iff.mpr ⟨ha, hd⟩)

/-- What has been laid out can be cleared again, whether or not the layout is complete. -/
theorem resettable_laid (h : scene.Bare environment esp firmware)
    (apart : ¬ esp <+: firmware ∧ ¬ firmware <+: esp) :
    (scene.withTree (scene.laid environment)).Resettable environment esp firmware := by
  have hcwd : (scene.laid environment).held scene.cwd = scene.cwd := h.within_laid.held h.held
  refine ⟨Tree.held_held _ _, ?_, ?_⟩
  · rw [cwd_withTree, tree_withTree, hcwd]
    refine h.clearable_laid h.plain.1 h.espSpells h.unlinked.1 h.absent.1 fun entry he => ?_
    have hesp := h.get?_esp_of_laid apart.1 he
    exact Tree.accepted_of_createDirectory (BootEnvironment.plain_bootDir h.plain.1)
      (BootEnvironment.spells_bootDir h.espSpells) h.unlinked_boot
      (BootEnvironment.names_bootDir environment ▸ List.prefix_append _ _)
      BootEnvironment.isAbsolute_bootDir.symm
      (BootEnvironment.check_espDir h.plain.1) h.espSpells h.absent.1 hesp
  · rw [cwd_withTree, tree_withTree, hcwd]
    refine h.clearable_laid h.plain.2 h.firmwareSpells h.unlinked.2 h.absent.2 fun entry he => ?_
    have hfirmware := h.get?_firmware_of_laid he
    exact Tree.accepted_of_createDirectory h.plain.2 h.firmwareSpells
      (h.unlinked.2.of_grown h.grown_boot) List.prefix_rfl rfl id h.firmwareSpells
      (h.get?_firmware_boot apart) hfirmware

end Scene.Bare

/-! ### Resets of what earlier attempts have left -/

namespace Scene

variable {environment : BootEnvironment} {esp firmware : Location} {before after : Scene}

/-- The scene that a reset leaves, in success and in failure. -/
theorem Resettable.scene_reset (h : before.Resettable environment esp firmware) (name : String) :
    ((environment.reset name).effect before).2 =
      (before.wiped esp firmware).withTree ((before.wiped esp firmware).laid environment) := by
  rw [h.effect_reset, h.bare.effect_layOut]

/-- A reset forgets what earlier attempts have left. -/
theorem Attempted.effect_reset (h : before.Attempted environment esp firmware after)
    (hbefore : before.Resettable environment esp firmware)
    (hafter : after.Resettable environment esp firmware) (name : String) :
    (environment.reset name).effect after = (environment.reset name).effect before := by
  rw [hbefore.effect_reset, hafter.effect_reset]
  refine hbefore.bare.effect_layOut_again hafter.bare ?_ h.calls ?_ ?_ name
  · ext location
    rw [hafter.cwd_wiped_eq_some_iff, hbefore.cwd_wiped_eq_some_iff]
    refine and_congr_right fun he => and_congr_right fun hf => ?_
    exact h.cwd location he hf
  · intro location entry hg
    obtain ⟨he, hf, hg⟩ := hbefore.get?_wiped_eq_some_iff.mp hg
    exact hafter.get?_wiped_eq_some_iff.mpr ⟨he, hf, h.kept location entry he hf hg⟩
  · intro location entry hg
    obtain ⟨he, hf, hg⟩ := hafter.get?_wiped_eq_some_iff.mp hg
    obtain ⟨other, hm⟩ := h.made location entry he hf hg
    rwa [hbefore.scene_reset] at hm

/-- Scenes that differ only at or below the two places are made by attempts from each other. -/
theorem AgreeOutside.attempted (h : before.AgreeOutside esp firmware after)
    (hbefore : before.Resettable environment esp firmware) :
    before.Attempted environment esp firmware after where
  cwd := h.cwd
  calls := h.calls
  kept location entry he hf hg := by rw [h.tree location he hf, hg]
  made location entry he hf hg := by
    rw [h.tree location he hf] at hg
    refine ⟨"", ?_⟩
    rw [hbefore.scene_reset]
    exact hbefore.bare.within_laid _ _ (hbefore.get?_wiped_eq_some_iff.mpr ⟨he, hf, hg⟩)

/-- A reset is an attempt, in success and in failure. -/
theorem Resettable.attempted_reset (h : before.Resettable environment esp firmware)
    (name : String) :
    before.Attempted environment esp firmware ((environment.reset name).effect before).2 := by
  have hcwd : ((before.wiped esp firmware).withTree
      ((before.wiped esp firmware).laid environment)).cwd = (before.wiped esp firmware).cwd :=
    h.bare.within_laid.held h.bare.held
  refine ⟨?_, ?_, ?_, fun location entry _ _ hg => ⟨name, hg⟩⟩
  · intro location he hf
    rw [h.scene_reset, hcwd, h.cwd_wiped_eq_some_iff]
    simp [he, hf]
  · rw [h.scene_reset]
    rfl
  · intro location entry he hf hg
    rw [h.scene_reset]
    exact h.bare.within_laid _ _ (h.get?_wiped_eq_some_iff.mpr ⟨he, hf, hg⟩)

/-- What a reset leaves can be reset again. -/
theorem Resettable.resettable_reset (h : before.Resettable environment esp firmware)
    (apart : ¬ esp <+: firmware ∧ ¬ firmware <+: esp) (name : String) :
    ((environment.reset name).effect before).2.Resettable environment esp firmware := by
  rw [h.scene_reset]
  exact h.bare.resettable_laid apart

/-- In the clean scene the directories can be cleared. -/
theorem Resettable.resettable_wiped (h : before.Resettable environment esp firmware) :
    (before.wiped esp firmware).Resettable environment esp firmware where
  held := h.bare.held
  esp := ⟨h.esp.plain, h.bare.espSpells, h.bare.unlinked.1, .inl h.bare.absent.1⟩
  firmware := ⟨h.firmware.plain, h.bare.firmwareSpells, h.bare.unlinked.2, .inl h.bare.absent.2⟩

/-- The clean scene differs at most at or below the two places. -/
theorem Resettable.agreeOutside_wiped (h : before.Resettable environment esp firmware) :
    before.AgreeOutside esp firmware (before.wiped esp firmware) where
  cwd location he hf := by simp [h.cwd_wiped_eq_some_iff, he, hf]
  calls := rfl
  tree location he hf := by
    ext entry
    simp [h.get?_wiped_eq_some_iff, he, hf]

end Scene

end Bootstage
