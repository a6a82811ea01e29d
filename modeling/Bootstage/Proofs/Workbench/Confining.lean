import Bootstage.Proofs.BootEnvironment.Framing
import Bootstage.Proofs.Workbench.Relaunching

/-!
# What launches and clean-ups leave alone

Whatever stands at the places of the two directories, and whatever links are in them, no operation
on a boot environment changes anything elsewhere. Only directories that were missing on the way to
the two places may be new, and cleaning up does not even create these.
-/

namespace Bootstage.Workbench

open Bootstage.Action BootEnvironment

variable {bench : Workbench} {architecture : Architecture} {profile : BuildProfile}
  {before left : Scene} {esp firmware : Location} {outcome : Except Error Unit}

/-- Collaborators that change no file have no part in what staging does to the files. -/
theorem Staged.keepsOutside (quiet : bench.Quiet)
    (h : bench.Staged architecture profile before outcome left)
    (placed : before.Placed bench.environment esp firmware)
    (registered : architecture ∈ Architecture.registered) :
    Tree.KeepsOutside esp firmware before.tree left.tree := by
  by_cases hroot : esp = [] ∨ firmware = []
  · exact (sameOutside_of_root hroot _ _).keeps
  obtain ⟨hesp, hfirmware⟩ := not_or.mp hroot
  have plain : bench.environment.espDir.Plain ∧ bench.environment.firmwareDir.Plain :=
    ⟨placed.esp.plain hesp, placed.firmware.plain hfirmware⟩
  have hreset := keepsOutside_reset placed architecture.id
  have hfill : ∀ {fresh filled : Scene} {ended : Except Error Unit},
      (bench.environment.reset architecture.id).effect before = (.ok (), fresh) →
      (bench.environment.fill architecture profile bench.config).effect fresh = (ended, filled) →
      Tree.KeepsOutside esp firmware before.tree filled.tree := by
    intro fresh filled ended hr hf
    rw [hr] at hreset
    have hfresh := fresh_of_reset_of_placed placed hesp hfirmware hr
    exact hreset.trans (hfresh.sameOutside_fill plain registered hf).2.2.2.keeps
  cases h with
  | unreset reset =>
    rw [reset] at hreset
    exact hreset
  | unfilled reset fill => exact hfill reset fill
  | unread reset fill unknown =>
    rw [asked, Scene.tree_after, quiet.provenance]
    exact hfill reset fill
  | unwritten reset fill known write =>
    rw [asked, Scene.tree_after, quiet.provenance]
    exact hfill reset fill
  | complete reset fill known write =>
    next fresh filled provenance written =>
    have hfresh := fresh_of_reset_of_placed placed hesp hfirmware reset
    obtain ⟨hcwd, hkept, hkept', -⟩ := hfresh.sameOutside_fill plain registered fill
    have hasked :
        (bench.asked filled).tree = filled.tree ∧ (bench.asked filled).cwd = fresh.cwd := by
      have htree : (bench.asked filled).tree = filled.tree := quiet.provenance filled
      refine ⟨htree, ?_⟩
      rw [← hkept.held hfresh.held, ← hcwd, ← htree]
      rfl
    rw [writeDescriptor, hasked.1, hasked.2] at write
    exact (hfill reset fill).trans
      (hfresh.sameOutside_write plain.1 registered hkept hkept' write).keeps

/-- Collaborators that change no file have no part in what a launch does to the files. -/
theorem Launched.keepsOutside (quiet : bench.Quiet) {requested : Bool}
    (h : bench.Launched architecture requested profile before outcome left)
    (placed : before.Placed bench.environment esp firmware)
    (registered : architecture ∈ Architecture.registered) :
    Tree.KeepsOutside esp firmware before.tree left.tree := by
  have hplayed : ∀ {ready : Scene} {order : Launch},
      bench.Staged architecture profile before (.ok ()) ready →
        Tree.KeepsOutside esp firmware before.tree (bench.played order ready).tree := by
    intro ready order stage
    rw [played, Scene.tree_after, quiet.emulator]
    exact stage.keepsOutside quiet placed registered
  cases h with
  | refused resolve => exact (Tree.SameOutside.refl before.tree).keeps
  | unstaged resolve stage => exact stage.keepsOutside quiet placed registered
  | unstarted resolve stage outcome => exact hplayed stage
  | failed resolve stage outcome failure => exact hplayed stage
  | ended resolve stage outcome success => exact hplayed stage

/-- Where both directories have places, however these lie to each other and whatever stands there,
every operation on a boot environment keeps all that is elsewhere, in success and in failure: a
reset, the making of a boot environment for any architecture, cleaning up, which creates nothing
either, and a launch in which the collaborators change no file. -/
theorem keeps_elsewhere {machine : Machine}
    (placed : machine.scene.Placed bench.environment esp firmware) :
    (∀ name, Tree.KeepsOutside esp firmware machine.tree
      ((bench.environment.reset name).run machine).2.tree) ∧
    (∀ architecture ∈ Architecture.registered, ∀ profile config,
      Tree.KeepsOutside esp firmware machine.tree
        ((bench.environment.assemble architecture profile config).run machine).2.tree) ∧
    Tree.SameOutside esp firmware machine.tree (bench.clean.run machine).2.tree ∧
    (bench.Quiet → ∀ architecture ∈ Architecture.registered, ∀ requested profile,
      Tree.KeepsOutside esp firmware machine.tree
        ((bench.launch architecture requested profile).run machine).2.tree) := by
  refine ⟨fun name => ?_, fun architecture registered profile config => ?_, ?_,
    fun quiet architecture registered requested profile => ?_⟩
  · have hreset := keepsOutside_reset placed name
    rw [(ignoresConsole_reset _ _).effect_scene] at hreset
    exact hreset
  · have hassemble := keepsOutside_assemble placed registered profile config
    rw [(ignoresConsole_assemble _ _ _ _).effect_scene] at hassemble
    exact hassemble
  · have hclean := sameOutside_clean placed
    rw [(ignoresConsole_clean _).effect_scene] at hclean
    exact hclean
  · have hcourse := bench.launched architecture profile requested machine.scene
    rw [(ignoresConsole_launch _ _ _ _).effect_scene] at hcourse
    exact hcourse.keepsOutside quiet placed registered

/-- In the small workspace a link in the old firmware directory leads to all of it, and a launch
leaves all of it as it is. -/
theorem keeps_elsewhere_sample :
    sampleMachine.tree.get? ["w", "ovmf", "stale"] = some (.link "/w") ∧
      sampleMachine.scene.Placed sample.environment ["w", "esp"] ["w", "ovmf"] ∧ sample.Quiet ∧
      Tree.KeepsOutside ["w", "esp"] ["w", "ovmf"] sampleMachine.tree
        ((sample.launch .x86_64 false .debug).run sampleMachine).2.tree := by
  have placed : sampleMachine.scene.Placed sample.environment ["w", "esp"] ["w", "ovmf"] :=
    ⟨by decide +kernel, by decide +kernel⟩
  have quiet : sample.Quiet := ⟨fun _ => rfl, fun _ _ => rfl⟩
  obtain ⟨-, -, -, hlaunch⟩ := keeps_elsewhere placed
  exact ⟨by decide +kernel, placed, quiet, hlaunch quiet .x86_64 (by decide) false .debug⟩

end Bootstage.Workbench
