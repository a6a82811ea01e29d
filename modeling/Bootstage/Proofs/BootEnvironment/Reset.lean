import Bootstage.Proofs.Machine.Scenes
import Bootstage.Proofs.Tree.Clearable
import Bootstage.Proofs.Tree.Creation
import Bootstage.Proofs.Tree.Ways

/-!
# Resetting a boot environment

Where both directories of a boot environment can be cleared, clearing always succeeds and takes
away exactly what is at or below the two places. A reset that succeeds leaves nothing there but the
empty layout, however the two places lie to each other.
-/

namespace Bootstage

namespace Scene

/-- What is at or below a place has been cleared away; where there was nothing, nothing was done. -/
def Cleared (before : Scene) (site : Location) (after : Scene) : Prop :=
  after = before.withTree (before.tree.erase site) ∨
    after = before ∧ before.tree.erase site = before.tree

namespace Cleared

variable {before after : Scene} {site : Location}

theorem tree_eq (h : before.Cleared site after) : after.tree = before.tree.erase site := by
  rcases h with rfl | ⟨rfl, he⟩
  · rfl
  · exact he.symm

theorem calls_eq (h : before.Cleared site after) : after.calls = before.calls := by
  rcases h with rfl | ⟨rfl, -⟩ <;> rfl

/-- The working directory stays as it was, or is lost with what is erased. -/
theorem cwd_eq (h : before.Cleared site after) :
    after.cwd = before.cwd ∨ after.cwd = (before.tree.erase site).held before.cwd := by
  rcases h with rfl | ⟨rfl, -⟩
  · exact .inr rfl
  · exact .inl rfl

/-- Clearing gives no working directory to a run that has none. -/
theorem cwd_of_cwd (h : before.Cleared site after) {location : Location}
    (hl : after.cwd = some location) : before.cwd = some location := by
  cases h.cwd_eq with
  | inl he => rwa [← he]
  | inr he => exact Tree.eq_some_of_held (he ▸ hl)

/-- Where the working directory was there before, the files alone decide what is left. -/
theorem eq_withTree (h : before.Cleared site after)
    (held : before.tree.held before.cwd = before.cwd) :
    after = before.withTree (before.tree.erase site) := by
  rcases h with rfl | ⟨rfl, he⟩
  · rfl
  · rw [he, withTree, held]

/-- A place that can be cleared can be cleared later. -/
theorem clearable (h : before.Cleared site after) {path : Path} {other : Location}
    (hc : before.tree.Clearable before.cwd path other) :
    after.tree.Clearable after.cwd path other := by
  rw [h.tree_eq]
  exact hc.erase site h.cwd_eq

end Cleared

end Scene

namespace BootEnvironment

open Bootstage.Action

variable {environment : BootEnvironment} {architecture : String} {scene left : Scene}
  {esp firmware : Location}

/-! ### The two removals -/

/-- What removing a directory does. -/
theorem effect_remove_eq (architecture : String) (directory : Path) (scene : Scene) :
    (remove architecture directory).effect scene =
      if scene.tree.present scene.cwd directory then
        ((scene.tree.removeAll scene.cwd directory).1.mapError (.staging architecture directory),
          scene.withTree (scene.tree.removeAll scene.cwd directory).2)
      else (.ok (), scene) := by
  rw [remove, effect_bind, effect_look]
  · dsimp only
    split
    · rw [effect_say_bind (by simp), effect_onFiles]
    · rfl
  · intro shown
    split <;> simp

/-- Cleaning up removes as a reset does, and says less. -/
theorem effect_discard (directory : Path) (scene : Scene) :
    (discard directory).effect scene = (remove "all" directory).effect scene := by
  rw [effect_remove_eq, discard, effect_bind, effect_look]
  · dsimp only
    split
    · rw [effect_onFiles]
    · rfl
  · intro shown
    split <;> simp

/-- The removal of both directories, with which a reset begins. -/
def clear (environment : BootEnvironment) (architecture : String) : Action Unit := do
  remove architecture environment.espDir
  remove architecture environment.firmwareDir

@[simp] theorem ignoresConsole_clear (environment : BootEnvironment) (architecture : String) :
    (environment.clear architecture).IgnoresConsole :=
  .bind (ignoresConsole_remove _ _) fun _ => ignoresConsole_remove _ _

/-- Cleaning up is that removal, for no architecture in particular. -/
theorem effect_clean (environment : BootEnvironment) (scene : Scene) :
    environment.clean.effect scene = (environment.clear "all").effect scene := by
  rw [clean, clear, effect_bind (by simp), effect_bind (by simp), effect_discard]
  rcases (remove "all" environment.espDir).effect scene with ⟨error | ⟨⟩, middle⟩
  · rfl
  · exact effect_discard _ _

/-- Removing takes away exactly what is at or below a place that can be cleared. -/
theorem effect_remove {directory : Path} {site : Location}
    (h : scene.tree.Clearable scene.cwd directory site) (architecture : String) :
    ∃ cleared, (remove architecture directory).effect scene = (.ok (), cleared) ∧
      scene.Cleared site cleared := by
  rw [effect_remove_eq]
  cases h.standing with
  | inl hn =>
    have hp := h.not_present_of_get?_eq_none hn
    exact ⟨scene, by simp [hp], .inr ⟨rfl, Tree.erase_of_get?_eq_none hn⟩⟩
  | inr hd =>
    have hs := h.straight_of_presentDirectory hd
    obtain ⟨ha, hdir⟩ := hs.presentDirectory_eq_true_iff.mp hd
    have hp : scene.tree.present scene.cwd directory = true :=
      hs.present_eq_true_iff.mpr ⟨ha, .directory, hdir, fun _ => rfl⟩
    rw [if_pos hp, hs.removeAll_eq ha hdir]
    exact ⟨_, rfl, .inl rfl⟩

/-- Both removals succeed, and take away exactly what is at or below the two places. -/
theorem effect_clear (hesp : scene.tree.Clearable scene.cwd environment.espDir esp)
    (hfirmware : scene.tree.Clearable scene.cwd environment.firmwareDir firmware)
    (architecture : String) :
    ∃ middle cleared, scene.Cleared esp middle ∧ middle.Cleared firmware cleared ∧
      (environment.clear architecture).effect scene = (.ok (), cleared) := by
  obtain ⟨middle, hm, hmiddle⟩ := effect_remove hesp architecture
  obtain ⟨cleared, hc, hcleared⟩ := effect_remove (hmiddle.clearable hfirmware) architecture
  refine ⟨middle, cleared, hmiddle, hcleared, ?_⟩
  rw [clear, effect_bind (by simp), hm]
  exact hc

/-- The empty layout of a boot environment. -/
def layOut (environment : BootEnvironment) (architecture : String) : Action Unit := do
  create architecture environment.bootDir
  create architecture environment.firmwareDir

@[simp] theorem ignoresConsole_layOut (environment : BootEnvironment) (architecture : String) :
    (environment.layOut architecture).IgnoresConsole :=
  .bind (ignoresConsole_create _ _) fun _ => ignoresConsole_create _ _

/-- A reset removes both directories and lays them out again. -/
theorem reset_eq (environment : BootEnvironment) (architecture : String) :
    environment.reset architecture =
      environment.clear architecture >>= fun _ => environment.layOut architecture := by
  rw [clear, bind_assoc]
  rfl

/-- A reset lays out the scene from which both places have been cleared away. -/
theorem effect_reset (hesp : scene.tree.Clearable scene.cwd environment.espDir esp)
    (hfirmware : scene.tree.Clearable scene.cwd environment.firmwareDir firmware)
    (architecture : String) :
    ∃ middle cleared, scene.Cleared esp middle ∧ middle.Cleared firmware cleared ∧
      (environment.reset architecture).effect scene =
        (environment.layOut architecture).effect cleared := by
  obtain ⟨middle, cleared, hmiddle, hcleared, hclear⟩ := effect_clear hesp hfirmware architecture
  refine ⟨middle, cleared, hmiddle, hcleared, ?_⟩
  rw [reset_eq, effect_bind (by simp), hclear]

/-! ### The empty layout -/

/-- What the creation of a directory does to the files, and the error that it ends in. -/
theorem effect_create (architecture : String) (directory : Path) (scene : Scene) :
    (create architecture directory).effect scene =
      ((scene.tree.createDirectory scene.cwd directory).1.mapError
          (.staging architecture directory),
        scene.withTree (scene.tree.createDirectory scene.cwd directory).2) :=
  effect_onFiles _ _ _

/-- What a directory that has been created leaves where its path leads straight to a place. -/
structure Created (before : Scene) (directory : Path) (site : Location) (after : Scene) :
    Prop where
  /-- The path leads to the place. -/
  spelled : directory.site? before.cwd = some site
  /-- The system takes the path. -/
  accepted : directory.Accepted
  /-- Nothing but directories on the way is new. -/
  grown : before.tree.Grown after.tree site
  /-- Only the files are others. -/
  scene : after = before.withTree after.tree
  /-- Directories lead to the place, and all else is as it was. -/
  get? : ∀ location, after.tree.get? location =
    if location <+: site then some .directory else before.tree.get? location

/-- The creation of a directory does not move the working directory. -/
theorem Created.cwd_eq {directory : Path} {site : Location}
    (h : Created scene directory site left) : left.cwd = left.tree.held scene.cwd :=
  congrArg Scene.cwd h.scene

/-- A creation that succeeds makes the directory at the place that its plain path spells. -/
theorem created_of_create {directory : Path} {site : Location} (plain : directory.Plain)
    (unlinked : scene.tree.Unlinked site) (spells : directory.Spells scene.cwd site)
    (h : (create architecture directory).effect scene = (.ok (), left)) :
    Created scene directory site left := by
  rw [effect_create] at h
  obtain ⟨hout, rfl⟩ := Prod.mk.inj h
  have hok : (scene.tree.createDirectory scene.cwd directory).1 = .ok () := by
    cases hc : (scene.tree.createDirectory scene.cwd directory).1 with
    | ok done => rfl
    | error cause => simp [hc] at hout
  obtain ⟨hs, ha, hget⟩ := Tree.get?_createDirectory plain unlinked spells hok
  exact ⟨hs, ha, Tree.grown_createDirectory plain unlinked spells, rfl, hget⟩

theorem isName_efi : Path.IsName "efi" := ⟨by decide, by decide⟩

theorem isName_boot : Path.IsName "boot" := ⟨by decide, by decide⟩

/-- The place of the boot loader has a plain path if the system partition has. -/
theorem plain_bootDir (h : environment.espDir.Plain) : environment.bootDir.Plain :=
  isName_boot.plain_join (isName_efi.plain_join h)

/-- The place of the boot loader is two names below the system partition. -/
theorem names_bootDir (environment : BootEnvironment) :
    environment.bootDir.names = environment.espDir.names ++ (["efi", "boot"] : Location) := by
  have hboot : environment.bootDir = (environment.espDir.join ⟨"efi"⟩).join ⟨"boot"⟩ := rfl
  rw [hboot, Path.names_join isName_boot.isAbsolute, Path.names_join isName_efi.isAbsolute,
    isName_efi.names, isName_boot.names, List.append_assoc]
  rfl

/-- The place of the boot loader is absolute exactly if the system partition is. -/
theorem isAbsolute_bootDir : environment.bootDir.isAbsolute = environment.espDir.isAbsolute := by
  have hboot : environment.bootDir = (environment.espDir.join ⟨"efi"⟩).join ⟨"boot"⟩ := rfl
  rw [hboot, Path.isAbsolute_join isName_boot.isAbsolute,
    Path.isAbsolute_join isName_efi.isAbsolute]

/-- The system accepts the path of the system partition if it accepts that of the boot loader. -/
theorem check_espDir (plain : environment.espDir.Plain)
    (h : environment.bootDir.check = .ok ()) : environment.espDir.check = .ok () := by
  have hefi : (environment.espDir / "efi").check = .ok () :=
    Path.check_of_join isName_boot.isAbsolute (isName_efi.plain_join plain).bytes_ne_nil h
  exact Path.check_of_join isName_efi.isAbsolute plain.bytes_ne_nil hefi

/-- The place of the boot loader is two steps below that of the system partition. -/
theorem site?_bootDir (environment : BootEnvironment) (cwd : Option Location) :
    environment.bootDir.site? cwd =
      (environment.espDir.site? cwd).map (· ++ (["efi", "boot"] : Location)) := by
  rw [bootDir, isName_boot.site?_join, isName_efi.site?_join, Option.map_map]
  congr 1
  ext1 location
  simp

/-- What spells the place of the system partition spells that of the boot loader with two more
names. -/
theorem spells_bootDir {cwd : Option Location} (h : environment.espDir.Spells cwd esp) :
    environment.bootDir.Spells cwd (esp ++ (["efi", "boot"] : Location)) := by
  intro place hp
  rw [site?_bootDir] at hp
  obtain ⟨location, hl, rfl⟩ := Option.map_eq_some_iff.mp hp
  rw [h location hl]

/-- What a reset that succeeds leaves of a scene. -/
structure Fresh (environment : BootEnvironment) (esp firmware : Location)
    (before after : Scene) : Prop where
  /-- No one has been called. -/
  calls : after.calls = before.calls
  /-- The working directory is the same if it is left. -/
  cwd_of_cwd : ∀ location, after.cwd = some location → before.cwd = some location
  /-- The working directory is there. -/
  held : after.tree.held after.cwd = after.cwd
  /-- The one path leads to its place. -/
  espSite : environment.espDir.site? after.cwd = some esp
  /-- The other path leads to its place. -/
  firmwareSite : environment.firmwareDir.site? after.cwd = some firmware
  /-- Whatever is not cleared away is still there. -/
  kept : ∀ location entry, ((before.tree.erase esp).erase firmware).get? location = some entry →
    after.tree.get? location = some entry
  /-- Directories lead to the places of the boot environment, and all else at or below them is
  gone. -/
  get? : ∀ location, after.tree.get? location =
    if location <+: esp ++ (["efi", "boot"] : Location) ∨ location <+: firmware then some .directory
    else ((before.tree.erase esp).erase firmware).get? location

/-- Laying out creates one directory after the other. -/
theorem exists_created_of_layOut {cleared : Scene} (hnone : cleared.tree.get? esp = none)
    (hesp : cleared.tree.Clearable cleared.cwd environment.espDir esp)
    (hfirmware : cleared.tree.Clearable cleared.cwd environment.firmwareDir firmware)
    (h : (environment.layOut architecture).effect cleared = (.ok (), left)) :
    ∃ booted, Created cleared environment.bootDir (esp ++ (["efi", "boot"] : Location)) booted ∧
      Created booted environment.firmwareDir firmware left := by
  rw [layOut] at h
  obtain ⟨⟨⟩, booted, hboot, hfw⟩ := (effect_bind_eq_ok_iff (by simp)).mp h
  have hcreated :
      Created cleared environment.bootDir (esp ++ (["efi", "boot"] : Location)) booted :=
    created_of_create (plain_bootDir hesp.plain)
      (hesp.unlinked.append (by simp [hnone]) ["efi", "boot"]) (spells_bootDir hesp.spells) hboot
  have hspells : environment.firmwareDir.Spells booted.cwd firmware :=
    hfirmware.spells.mono fun location hl => Tree.eq_some_of_held (hcreated.cwd_eq ▸ hl)
  exact ⟨booted, hcreated, created_of_create hfirmware.plain
    (hfirmware.unlinked.of_grown hcreated.grown) hspells hfw⟩

/-- Both directories have been laid out: directories lead to them, nothing else is at or below their
places, and all else is as it was. -/
def LaidOut (esp firmware : Location) (before after : Tree) : Prop :=
  ∀ location, after.get? location =
    if location <+: esp ++ (["efi", "boot"] : Location) ∨ location <+: firmware then some .directory
    else if esp <+: location ∨ firmware <+: location then none
    else before.get? location

/-- A reset that succeeds has laid out both directories. -/
theorem Fresh.laidOut (h : environment.Fresh esp firmware scene left) :
    LaidOut esp firmware scene.tree left.tree := by
  intro location
  rw [h.get?]
  split
  · rfl
  · next hne =>
    have hroot : location ≠ [] := by
      rintro rfl
      exact hne (.inr List.nil_prefix)
    rw [Tree.get?_erase, Tree.get?_erase]
    by_cases he : esp <+: location <;> by_cases hf : firmware <+: location <;> simp [hroot, he, hf]

theorem Fresh.get?_esp (h : environment.Fresh esp firmware scene left) :
    left.tree.get? esp = some .directory := by
  rw [h.get?, if_pos (.inl (List.prefix_append _ _))]

theorem Fresh.get?_boot (h : environment.Fresh esp firmware scene left) :
    left.tree.get? (esp ++ (["efi", "boot"] : Location)) = some .directory := by
  rw [h.get?, if_pos (.inl List.prefix_rfl)]

theorem Fresh.get?_firmware (h : environment.Fresh esp firmware scene left) :
    left.tree.get? firmware = some .directory := by
  rw [h.get?, if_pos (.inr List.prefix_rfl)]

/-- Laying out a scene from which both places have been cleared away leaves the empty layout. -/
theorem fresh_of_layOut {cleared : Scene} (hcalls : cleared.calls = scene.calls)
    (hcwd : ∀ location, cleared.cwd = some location → scene.cwd = some location)
    (htree : cleared.tree = (scene.tree.erase esp).erase firmware)
    (hesp : cleared.tree.Clearable cleared.cwd environment.espDir esp)
    (hfirmware : cleared.tree.Clearable cleared.cwd environment.firmwareDir firmware)
    (h : (environment.layOut architecture).effect cleared = (.ok (), left)) :
    environment.Fresh esp firmware scene left := by
  have hnone : cleared.tree.get? esp = none := by
    simp [htree, Tree.get?_erase, hesp.site_ne_root]
  obtain ⟨booted, hboot, hfw⟩ := exists_created_of_layOut hnone hesp hfirmware h
  have hboth : ∀ location, left.tree.get? location =
      if location <+: esp ++ (["efi", "boot"] : Location) ∨ location <+: firmware
        then some .directory
      else ((scene.tree.erase esp).erase firmware).get? location := by
    intro location
    rw [hfw.get?, hboot.get?, htree]
    by_cases hf : location <+: firmware <;>
      by_cases hb : location <+: esp ++ (["efi", "boot"] : Location) <;>
      simp [hf, hb]
  refine ⟨?_, ?_, ?_, ?_, ?_, ?_, hboth⟩
  · rw [hfw.scene, Scene.calls_withTree, hboot.scene, Scene.calls_withTree, hcalls]
  · intro location hl
    rw [hfw.cwd_eq, hboot.cwd_eq] at hl
    exact hcwd location (Tree.eq_some_of_held (Tree.eq_some_of_held hl))
  · rw [hfw.cwd_eq, Tree.held_held]
  · obtain ⟨place, hplace, he⟩ :=
      Option.map_eq_some_iff.mp (site?_bootDir environment _ ▸ hboot.spelled)
    obtain rfl := hesp.spells place hplace
    have hd : left.tree.get? place = some .directory := by
      rw [hboth, if_pos (.inl (List.prefix_append _ _))]
    have hd' : booted.tree.get? place = some .directory := by
      rw [hboot.get?, if_pos (List.prefix_append _ _)]
    rw [hfw.cwd_eq, hboot.cwd_eq]
    exact Tree.site?_held (Tree.site?_held hplace hd' hesp.plain.named) hd hesp.plain.named
  · have hd : left.tree.get? firmware = some .directory := by
      rw [hboth, if_pos (.inr List.prefix_rfl)]
    rw [hfw.cwd_eq]
    exact Tree.site?_held hfw.spelled hd hfirmware.plain.named
  · intro location entry he
    rw [← htree] at he
    exact hfw.grown.get?_of_get? (hboot.grown.get?_of_get? he)

/-- A reset that succeeds leaves the empty layout, however the two places lie to each other. -/
theorem fresh_of_reset (hesp : scene.tree.Clearable scene.cwd environment.espDir esp)
    (hfirmware : scene.tree.Clearable scene.cwd environment.firmwareDir firmware)
    (h : (environment.reset architecture).effect scene = (.ok (), left)) :
    environment.Fresh esp firmware scene left := by
  obtain ⟨middle, cleared, hmiddle, hcleared, hrun⟩ := effect_reset hesp hfirmware architecture
  rw [hrun] at h
  refine fresh_of_layOut ?_ ?_ ?_ (hcleared.clearable (hmiddle.clearable hesp))
    (hcleared.clearable (hmiddle.clearable hfirmware)) h
  · rw [hcleared.calls_eq, hmiddle.calls_eq]
  · exact fun location hl => hmiddle.cwd_of_cwd (hcleared.cwd_of_cwd hl)
  · rw [hcleared.tree_eq, hmiddle.tree_eq]

/-- Every way that is not cleared away is still there. -/
theorem Fresh.waysKept (h : environment.Fresh esp firmware scene left) :
    ((scene.tree.erase esp).erase firmware).WaysKept left.tree where
  directory location := h.kept location .directory
  old location target hl := by
    rw [h.get?] at hl
    split at hl
    · simp at hl
    · exact hl
  link location target := h.kept location (.link target)

end BootEnvironment

end Bootstage
