import Bootstage.Proofs.BootEnvironment.Retrying
import Bootstage.Proofs.Workbench.Booting

/-!
# Launching again

What the directories of a boot environment held before has no influence on a launch, in success and
in failure. So a launch after any other, or after one that was broken off or has failed, goes as it
would in a clean workspace.
-/

namespace Bootstage

open Bootstage.Action

/-- On both machines the action has one outcome and leaves one scene. -/
structure Action.RunsAlike {α : Type} (action : Action α) (left right : Machine) : Prop where
  /-- The outcomes are the same. -/
  outcome : (action.run right).1 = (action.run left).1
  /-- So are the files, the working directory and the calls. -/
  scene : (action.run right).2.scene = (action.run left).2.scene

theorem Action.RunsAlike.symm {α : Type} {action : Action α} {left right : Machine}
    (h : action.RunsAlike left right) : action.RunsAlike right left :=
  ⟨h.outcome.symm, h.scene.symm⟩

theorem Action.RunsAlike.trans {α : Type} {action : Action α} {left right last : Machine}
    (h : action.RunsAlike left right) (h' : action.RunsAlike right last) :
    action.RunsAlike left last :=
  ⟨h'.outcome.trans h.outcome, h'.scene.trans h.scene⟩

/-- An action that ignores the console runs alike where it has the same effect. -/
theorem Action.IgnoresConsole.runsAlike {α : Type} {action : Action α} (h : action.IgnoresConsole)
    {left right : Machine} (he : action.effect right.scene = action.effect left.scene) :
    action.RunsAlike left right := by
  rw [h.effect_scene, h.effect_scene] at he
  exact ⟨(Prod.mk.inj he).1, (Prod.mk.inj he).2⟩

namespace Scene.Retryable

variable {environment : BootEnvironment} {esp firmware : Location} {before after : Scene}

/-- After attempts a reset does what it would have done before. -/
theorem effect_reset (h : before.Retryable environment esp firmware after)
    (hb : before.Resettable environment esp firmware) (name : String) :
    (environment.reset name).effect after = (environment.reset name).effect before :=
  h.attempted.effect_reset hb h.resettable name

/-- So does the making of a boot environment. -/
theorem effect_assemble (h : before.Retryable environment esp firmware after)
    (hb : before.Resettable environment esp firmware) (architecture : Architecture)
    (profile : BuildProfile) (config : Config) :
    (environment.assemble architecture profile config).effect after =
      (environment.assemble architecture profile config).effect before := by
  rw [BootEnvironment.assemble, effect_bind (by simp), effect_bind (by simp), h.effect_reset hb]

/-- So does a launch whose request for an accelerator is granted. -/
theorem effect_launch {bench : Workbench}
    (h : before.Retryable bench.environment esp firmware after)
    (hb : before.Resettable bench.environment esp firmware) {architecture : Architecture}
    {requested : Bool} {acceleration : Acceleration}
    (granted : Acceleration.resolve architecture.id requested bench.host = .ok acceleration)
    (profile : BuildProfile) :
    (bench.launch architecture requested profile).effect after =
      (bench.launch architecture requested profile).effect before := by
  have hstage : (bench.stage architecture profile).effect after =
      (bench.stage architecture profile).effect before := by
    rw [Workbench.stage, effect_timed, effect_timed, effect_say_bind (by simp),
      effect_say_bind (by simp), effect_bind (by simp), effect_bind (by simp),
      h.effect_assemble hb]
  rw [Workbench.launch, effect_bind (by simp), effect_bind (by simp), Workbench.effect_accelerate,
    Workbench.effect_accelerate, granted]
  dsimp only
  rw [effect_bind (by simp), effect_bind (by simp), hstage]

/-- The collaborators have been called in an attempt, and no file has been changed. -/
theorem after_call
    (h : before.Retryable environment esp firmware { after with calls := before.calls })
    {α : Type} {call : Call} {reaction : Reaction α} (quiet : reaction.tree = after.tree) :
    before.Retryable environment esp firmware
      { after.after call reaction with calls := before.calls } := by
  have hheld : after.tree.held after.cwd = after.cwd := h.resettable.held
  have hsame : ({ after.after call reaction with calls := before.calls } : Scene) =
      { after with calls := before.calls } := by
    simp only [Scene.after, Scene.withTree, quiet, hheld]
  rw [hsame]
  exact h

end Scene.Retryable

namespace Workbench

variable {bench : Workbench} {architecture : Architecture} {esp firmware : Location}

/-- Collaborators of a launch that leave the files as they are. -/
structure Quiet (bench : Workbench) : Prop where
  /-- Asking for the provenance changes no file. -/
  provenance : ∀ scene, (bench.provenance.react scene).tree = scene.tree
  /-- Neither does running the emulator. -/
  emulator : ∀ order scene, (bench.emulator.react order scene).tree = scene.tree

/-- Staging is an attempt as well, whichever course it takes. -/
theorem Staged.retryable (quiet : bench.Quiet) {profile : BuildProfile} {before left : Scene}
    {outcome : Except Error Unit} (h : bench.Staged architecture profile before outcome left)
    (resettable : before.Resettable bench.environment esp firmware)
    (apart : ¬ esp <+: firmware ∧ ¬ firmware <+: esp)
    (registered : architecture ∈ Architecture.registered) :
    before.Retryable bench.environment esp firmware { left with calls := before.calls } := by
  have hcalls : ∀ scene : Scene, before.Retryable bench.environment esp firmware scene →
      before.Retryable bench.environment esp firmware { scene with calls := before.calls } := by
    intro scene hs
    rw [← hs.attempted.calls]
    exact hs
  cases h with
  | unreset reset =>
    have hreset := resettable.retryable_reset apart architecture.id
    rw [reset] at hreset
    exact hcalls _ hreset
  | unfilled reset fill =>
    have hfill := resettable.retryable_fill apart registered reset profile bench.config
    rw [fill] at hfill
    exact hcalls _ hfill.1
  | unread reset fill unknown =>
    have hfill := resettable.retryable_fill apart registered reset profile bench.config
    rw [fill] at hfill
    exact (hcalls _ hfill.1).after_call (quiet.provenance _)
  | unwritten reset fill known write =>
    have hfill := resettable.retryable_fill apart registered reset profile bench.config
    rw [fill] at hfill
    exact (hcalls _ hfill.1).after_call (quiet.provenance _)
  | complete reset fill known write =>
    next fresh filled provenance written =>
    have hfill := resettable.retryable_fill apart registered reset profile bench.config
    rw [fill] at hfill
    obtain ⟨hretryable, espEntries, firmwareEntries, hholding, hnew⟩ := hfill
    obtain ⟨code, vars, names⟩ := Architecture.exists_fileNames registered
    have hsame : ∀ site, filled.tree.SameAt (bench.provenance.react filled).tree site := by
      intro site location _
      rw [quiet.provenance]
    have hasked : bench.environment.Holding esp firmware (bench.asked filled) _ _ :=
      hholding.after (hsame esp) (hsame firmware)
    have hgains := hasked.write_descriptor
      (names.isName architecture.descriptorFile (by simp)) hnew write
    have hbefore : before.Retryable bench.environment esp firmware
        { bench.asked filled with calls := before.calls } :=
      (hcalls _ hretryable).after_call (quiet.provenance filled)
    have hagree : ({ bench.asked filled with calls := before.calls } : Scene).AgreeOutside esp
        firmware { (bench.asked filled).withTree written with calls := before.calls } := by
      have hg : (bench.asked filled).AgreeOutside esp firmware _ :=
        ((Scene.GainsBelow.refl _).gain hgains (.inl (List.prefix_append esp _))).agreeOutside
      exact ⟨hg.cwd, rfl, hg.tree⟩
    exact hbefore.of_holding ⟨hasked.espHolds.1, hasked.firmwareHolds.1⟩ hagree
      ((hasked.gain_esp hgains).with_calls before.calls)

/-- So is a launch. -/
theorem Launched.retryable (quiet : bench.Quiet) {requested : Bool} {profile : BuildProfile}
    {before left : Scene} {outcome : Except Error Unit}
    (h : bench.Launched architecture requested profile before outcome left)
    (resettable : before.Resettable bench.environment esp firmware)
    (apart : ¬ esp <+: firmware ∧ ¬ firmware <+: esp)
    (registered : architecture ∈ Architecture.registered) :
    before.Retryable bench.environment esp firmware { left with calls := before.calls } := by
  cases h with
  | refused resolve => exact ⟨(Scene.AgreeOutside.refl before).attempted resettable, resettable⟩
  | unstaged resolve stage => exact stage.retryable quiet resettable apart registered
  | unstarted resolve stage outcome =>
    exact (stage.retryable quiet resettable apart registered).after_call (quiet.emulator _ _)
  | failed resolve stage outcome failure =>
    exact (stage.retryable quiet resettable apart registered).after_call (quiet.emulator _ _)
  | ended resolve stage outcome success =>
    exact (stage.retryable quiet resettable apart registered).after_call (quiet.emulator _ _)

/-- On both machines the workbench does the same. -/
structure Alike (bench : Workbench) (left right : Machine) : Prop where
  /-- Boot environments are made alike. -/
  assemble : ∀ architecture profile,
    (bench.environment.assemble architecture profile bench.config).RunsAlike left right
  /-- So are launches whose request for an accelerator is granted. -/
  launch : ∀ architecture requested profile acceleration,
    Acceleration.resolve architecture.id requested bench.host = .ok acceleration →
      (bench.launch architecture requested profile).RunsAlike left right
  /-- Any other launch is refused in the same words, and all is left as it is. -/
  refused : ∀ architecture requested profile error,
    Acceleration.resolve architecture.id requested bench.host = .error error →
      ∀ machine ∈ [left, right],
        ((bench.launch architecture requested profile).run machine).1 = .error error ∧
          ((bench.launch architecture requested profile).run machine).2.scene = machine.scene

/-- What can be made again on what an attempt has left is made alike. -/
theorem Alike.of_retryable {left right : Machine}
    (h : left.scene.Retryable bench.environment esp firmware right.scene)
    (resettable : left.scene.Resettable bench.environment esp firmware) :
    bench.Alike left right where
  assemble architecture profile :=
    (BootEnvironment.ignoresConsole_assemble _ _ _ _).runsAlike
      (h.effect_assemble resettable architecture profile bench.config)
  launch _ _ profile _ granted :=
    (ignoresConsole_launch _ _ _ _).runsAlike (h.effect_launch resettable granted profile)
  refused architecture requested profile _ hrefused _ _ :=
    (bench.ignoresConsole_launch architecture profile requested).run_of_effect
      (effect_launch_of_refused hrefused)

theorem Alike.symm {left right : Machine} (h : bench.Alike left right) :
    bench.Alike right left where
  assemble architecture profile := (h.assemble architecture profile).symm
  launch architecture requested profile acceleration granted :=
    (h.launch architecture requested profile acceleration granted).symm
  refused architecture requested profile error refused machine hm :=
    h.refused architecture requested profile error refused machine (by simpa [or_comm] using hm)

theorem Alike.trans {left right last : Machine} (h : bench.Alike left right)
    (h' : bench.Alike right last) : bench.Alike left last where
  assemble architecture profile := (h.assemble architecture profile).trans
    (h'.assemble architecture profile)
  launch architecture requested profile acceleration granted :=
    (h.launch architecture requested profile acceleration granted).trans
      (h'.launch architecture requested profile acceleration granted)
  refused architecture requested profile error refused machine hm := by
    simp only [List.mem_cons, List.not_mem_nil, or_false] at hm
    rcases hm with rfl | rfl
    · exact h.refused architecture requested profile error refused machine (by simp)
    · exact h'.refused architecture requested profile error refused machine (by simp)

/-- The machine with both directories cleared away. -/
def cleaned (machine : Machine) (esp firmware : Location) : Machine :=
  machine.withTree ((machine.tree.erase esp).erase firmware)

/-- A workbench does the same whatever the directories of the boot environment held before, and
whatever earlier attempts have left: on files that agree elsewhere, on what is left by an attempt
that was broken off, after a boot environment has been made or could not be made for any
architecture, and after any launch in which the collaborators leave the files alone. -/
theorem forgets_leftovers {left : Machine}
    (resettable : left.scene.Resettable bench.environment esp firmware)
    (apart : ¬ esp <+: firmware ∧ ¬ firmware <+: esp) :
    (∀ right : Machine, right.scene.Resettable bench.environment esp firmware →
      left.scene.AgreeOutside esp firmware right.scene → bench.Alike left right) ∧
    (∀ right : Machine, right.scene.Resettable bench.environment esp firmware →
      left.scene.Attempted bench.environment esp firmware right.scene → bench.Alike left right) ∧
    (∀ earlier ∈ Architecture.registered, ∀ profile config,
      bench.Alike left ((bench.environment.assemble earlier profile config).run left).2 ∧
        bench.Alike (cleaned left esp firmware)
          ((bench.environment.assemble earlier profile config).run left).2) ∧
    ∀ other : Workbench, other.Quiet → other.environment = bench.environment →
      ∀ earlier ∈ Architecture.registered, ∀ requested profile,
        bench.Alike left
          { ((other.launch earlier requested profile).run left).2 with calls := left.calls } ∧
        bench.Alike (cleaned left esp firmware)
          { ((other.launch earlier requested profile).run left).2 with calls := left.calls } := by
  have hattempted : ∀ right : Machine, right.scene.Resettable bench.environment esp firmware →
      left.scene.Attempted bench.environment esp firmware right.scene → bench.Alike left right :=
    fun right hr ha => .of_retryable ⟨ha, hr⟩ resettable
  have hclean : bench.Alike left (cleaned left esp firmware) :=
    hattempted _ resettable.resettable_wiped (resettable.agreeOutside_wiped.attempted resettable)
  refine ⟨fun right hr ha => hattempted right hr (ha.attempted resettable), hattempted, ?_, ?_⟩
  · intro earlier registered profile config
    have hleft := resettable.retryable_assemble apart registered profile config
    have hrun :=
      (bench.environment.ignoresConsole_assemble earlier profile config).effect_scene left
    rw [hrun] at hleft
    have halike : bench.Alike left _ := .of_retryable hleft resettable
    exact ⟨halike, hclean.symm.trans halike⟩
  · intro other quiet same earlier registered requested profile
    have hcourse := other.launched earlier profile requested left.scene
    have hrun := (other.ignoresConsole_launch earlier profile requested).effect_scene left
    rw [hrun] at hcourse
    have hleft := hcourse.retryable quiet (same ▸ resettable) apart registered
    rw [same] at hleft
    have halike : bench.Alike left
        { ((other.launch earlier requested profile).run left).2 with calls := left.calls } :=
      .of_retryable hleft resettable
    exact ⟨halike, hclean.symm.trans halike⟩

/-- The small workspace with other leftovers. -/
def otherMachine : Machine :=
  sampleMachine.withTree
    ((sampleTree.erase ["w", "esp"]).put ["w", "ovmf", "other"] (.file [5]))

theorem resettable_sample :
    sampleMachine.scene.Resettable sample.environment ["w", "esp"] ["w", "ovmf"] :=
  ⟨by decide +kernel, clearable_sampleEsp, clearable_sampleFirmware⟩

theorem resettable_other :
    otherMachine.scene.Resettable sample.environment ["w", "esp"] ["w", "ovmf"] :=
  ⟨by decide +kernel, by decide +kernel, by decide +kernel⟩

theorem agreeOutside_other :
    sampleMachine.scene.AgreeOutside ["w", "esp"] ["w", "ovmf"] otherMachine.scene where
  cwd location _ _ := by
    have hcwd : otherMachine.scene.cwd = sampleMachine.scene.cwd := by decide +kernel
    rw [hcwd]
  calls := rfl
  tree location he hf := by
    have haccepts : (sampleTree.erase ["w", "esp"]).Accepts ["w", "ovmf", "other"] (.file [5]) :=
      ⟨by simp, by decide +kernel, by decide +kernel⟩
    have hother : otherMachine.scene.tree =
        (sampleTree.erase ["w", "esp"]).put ["w", "ovmf", "other"] (.file [5]) := rfl
    rw [hother, Tree.get?_put haccepts, if_neg, Tree.get?_erase, if_neg]
    · rfl
    · exact fun h => he h.2
    · rintro rfl
      exact hf (by decide)

/-- In the small workspace a launch goes as it does with other leftovers, and after another. -/
theorem forgets_leftovers_sample :
    sample.Alike sampleMachine otherMachine ∧
      sample.Alike sampleMachine
        ((sample.environment.assemble .aarch64 .release sample.config).run sampleMachine).2 := by
  obtain ⟨hagree, -, hearlier, -⟩ := forgets_leftovers resettable_sample (by decide)
  exact ⟨hagree otherMachine resettable_other agreeOutside_other,
    (hearlier .aarch64 (by decide) .release sample.config).1⟩

end Workbench

end Bootstage
