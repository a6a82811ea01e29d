import Bootstage.Proofs.Workbench.Accounting
import Bootstage.Proofs.Workbench.Building

/-!
# Building and launching in one run

A run asks for the accelerator first, then builds unless that is to be skipped, and then launches.
It does what these would do one after the other. The accelerator is asked for twice, and nothing
that happens between the two questions changes the answer.
-/

namespace Bootstage

open Bootstage.Action

/-- A request for an accelerator is refused for one reason alone. -/
theorem Acceleration.incompatible_of_resolve {target : String} {requested : Bool} {host : Host}
    {error : Error} (h : resolve target requested host = .error error) :
    requested = true ∧
      Architecture.normalize host.architecture ≠ Architecture.normalize target ∧
        error = .incompatibleAcceleration (Architecture.normalize host.architecture)
          (Architecture.normalize target) := by
  unfold resolve at h
  cases requested with
  | false => simp at h
  | true =>
    by_cases he : Architecture.normalize host.architecture = Architecture.normalize target
    · simp [he] at h
    · refine ⟨rfl, he, ?_⟩
      simpa [he, eq_comm] using h

/-! ### Whose calls are added -/

/-- The calls of the one scene are followed in the other by calls of a kind. -/
def Scene.AddsCalls (before after : Scene) (kind : Call → Prop) : Prop :=
  ∃ made, after.calls = before.calls ++ made ∧ ∀ call ∈ made, kind call

namespace Scene.AddsCalls

variable {before middle later : Scene} {kind : Call → Prop}

theorem of_eq (h : later.calls = before.calls) : before.AddsCalls later kind :=
  ⟨[], by simp [h], by simp⟩

theorem trans (h : before.AddsCalls middle kind) (h' : middle.AddsCalls later kind) :
    before.AddsCalls later kind := by
  obtain ⟨made, hm, hkind⟩ := h
  obtain ⟨more, hm', hkind'⟩ := h'
  refine ⟨made ++ more, by rw [hm', hm, List.append_assoc], fun call hc => ?_⟩
  exact (List.mem_append.mp hc).elim (hkind call) (hkind' call)

/-- A call on a collaborator adds itself and what the collaborator starts. -/
theorem after {α : Type} {call : Call} {reaction : Reaction α} (hcall : kind call)
    (hstarts : ∀ start ∈ reaction.starts, kind start) :
    before.AddsCalls (before.after call reaction) kind := by
  refine ⟨call :: reaction.starts, rfl, fun other ho => ?_⟩
  rcases List.mem_cons.mp ho with rfl | ho
  · exact hcall
  · exact hstarts other ho

end Scene.AddsCalls

namespace Workbench

/-- A call on the toolchain, or a program that it starts. -/
def ToolchainCall (bench : Workbench) (call : Call) : Prop :=
  (∃ request, call = .build bench.toolchain.program request) ∨
    ∃ request scene, call ∈ (bench.toolchain.react request scene).starts

/-- A call on the source of the provenance or on the emulator, or a program that they start. -/
def LaunchCall (bench : Workbench) (call : Call) : Prop :=
  call = .provenance ∨ (∃ order, call = .launch order) ∨
    (∃ scene, call ∈ (bench.provenance.react scene).starts) ∨
      ∃ order scene, call ∈ (bench.emulator.react order scene).starts

variable {bench : Workbench} {architecture : Architecture} {profile : BuildProfile}
  {requested : Bool} {before left : Scene} {outcome : Except Error Unit}

/-- Asking for the provenance adds calls of a launch. -/
theorem addsCalls_asked (filled : Scene) :
    filled.AddsCalls (bench.asked filled) bench.LaunchCall :=
  .after (.inl rfl) fun _ hs => .inr (.inr (.inl ⟨filled, hs⟩))

/-- Asking the emulator adds calls of a launch. -/
theorem addsCalls_played (order : Launch) (ready : Scene) :
    ready.AddsCalls (bench.played order ready) bench.LaunchCall :=
  .after (.inr (.inl ⟨order, rfl⟩)) fun _ hs => .inr (.inr (.inr ⟨order, ready, hs⟩))

/-- Staging calls on the source of the provenance alone. -/
theorem Staged.addsCalls (h : bench.Staged architecture profile before outcome left) :
    before.AddsCalls left bench.LaunchCall := by
  have hreset : ∀ {ended : Except Error Unit} {fresh : Scene},
      (bench.environment.reset architecture.id).effect before = (ended, fresh) →
        fresh.calls = before.calls := by
    intro ended fresh hr
    have hcalls := (BootEnvironment.stagesAt_reset bench.environment architecture.id before).1
    rwa [hr] at hcalls
  have hfill : ∀ {ended : Except Error Unit} {fresh filled : Scene},
      (bench.environment.fill architecture profile bench.config).effect fresh = (ended, filled) →
        filled.calls = fresh.calls := by
    intro ended fresh filled hf
    have hcalls := (BootEnvironment.stagesAt_forM_copy architecture.id
      (bench.environment.sources architecture profile bench.config) fresh).1
    rw [BootEnvironment.fill] at hf
    rwa [hf] at hcalls
  cases h with
  | unreset reset => exact .of_eq (hreset reset)
  | unfilled reset fill => exact .of_eq ((hfill fill).trans (hreset reset))
  | unread reset fill unknown =>
    exact .trans (.of_eq ((hfill fill).trans (hreset reset))) (addsCalls_asked _)
  | unwritten reset fill known write =>
    exact .trans (.of_eq ((hfill fill).trans (hreset reset))) (addsCalls_asked _)
  | complete reset fill known write =>
    exact .trans (.trans (.of_eq ((hfill fill).trans (hreset reset))) (addsCalls_asked _))
      (.of_eq rfl)

/-- A launch makes no call on the toolchain. -/
theorem Launched.addsCalls
    (h : bench.Launched architecture requested profile before outcome left) :
    before.AddsCalls left bench.LaunchCall := by
  cases h with
  | refused resolve => exact .of_eq rfl
  | unstaged resolve stage => exact stage.addsCalls
  | unstarted resolve stage outcome => exact stage.addsCalls.trans (addsCalls_played _ _)
  | failed resolve stage outcome failure => exact stage.addsCalls.trans (addsCalls_played _ _)
  | ended resolve stage outcome success => exact stage.addsCalls.trans (addsCalls_played _ _)

/-- The calls of a build are calls on the toolchain. -/
theorem addsCalls_foldl_built (performed : List BuildStep) (scene : Scene) :
    scene.AddsCalls (performed.foldl bench.built scene) bench.ToolchainCall := by
  induction performed generalizing scene with
  | nil => exact .of_eq rfl
  | cons step rest ih =>
    refine .trans ?_ (ih (bench.built scene step))
    exact .after (.inl ⟨step.request, rfl⟩) fun _ hs => .inr ⟨step.request, scene, hs⟩

/-! ### The course of a run -/

/-- A run asks for the accelerator, builds if it is to, and launches. -/
theorem buildAndRun_eq (bench : Workbench) (architecture : Architecture) (requested : Bool)
    (profile : BuildProfile) (skipBuild : Bool) :
    bench.buildAndRun architecture requested profile skipBuild =
      (bench.accelerate architecture requested >>= fun _ =>
        if skipBuild then bench.launch architecture requested profile
        else bench.build [architecture] profile >>= fun _ =>
          bench.launch architecture requested profile) := by
  cases skipBuild <;> rfl

@[simp] theorem ignoresConsole_buildAndRun (bench : Workbench) (architecture : Architecture)
    (profile : BuildProfile) (requested skipBuild : Bool) :
    (bench.buildAndRun architecture requested profile skipBuild).IgnoresConsole := by
  rw [buildAndRun_eq]
  refine .bind (Host.ignoresConsole_accelerate _ _ _) fun _ => ?_
  split
  · exact ignoresConsole_launch _ _ _ _
  · exact .bind (ignoresConsole_build _ _ _) fun _ => ignoresConsole_launch _ _ _ _

/-- What building and launching in one run does. -/
theorem effect_buildAndRun (bench : Workbench) (architecture : Architecture) (requested : Bool)
    (profile : BuildProfile) (skipBuild : Bool) (scene : Scene) :
    (bench.buildAndRun architecture requested profile skipBuild).effect scene =
      match Acceleration.resolve architecture.id requested bench.host with
      | .error error => (.error error, scene)
      | .ok _ =>
        if skipBuild then (bench.launch architecture requested profile).effect scene
        else
          match (bench.build [architecture] profile).effect scene with
          | (.error error, left) => (.error error, left)
          | (.ok (), left) => (bench.launch architecture requested profile).effect left := by
  have hnext : ∀ _ : Acceleration,
      (if skipBuild then bench.launch architecture requested profile
        else bench.build [architecture] profile >>= fun _ =>
          bench.launch architecture requested profile).IgnoresConsole := by
    intro _
    split <;> simp
  rw [buildAndRun_eq, effect_bind hnext, effect_accelerate]
  cases Acceleration.resolve architecture.id requested bench.host with
  | error error => rfl
  | ok acceleration =>
    dsimp only
    split
    · rfl
    · rw [effect_bind (by simp)]
      rcases (bench.build [architecture] profile).effect scene with ⟨error | ⟨⟩, left⟩ <;> rfl

/-- The account of building and launching in one run. -/
structure RunAccount (bench : Workbench) (architecture : Architecture) (requested : Bool)
    (profile : BuildProfile) (machine : Machine) : Prop where
  /-- A request for an accelerator that is refused ends a run, with or without a build, and a launch
  with the same error, and nothing is done. -/
  refused : ∀ error,
    Acceleration.resolve architecture.id requested bench.host = .error error →
      (∃ host target, error = .incompatibleAcceleration host target) ∧
        (∀ skipBuild,
          ((bench.buildAndRun architecture requested profile skipBuild).run machine).1 =
              .error error ∧
            ((bench.buildAndRun architecture requested profile skipBuild).run machine).2.scene =
              machine.scene) ∧
        ((bench.launch architecture requested profile).run machine).1 = .error error ∧
          ((bench.launch architecture requested profile).run machine).2.scene = machine.scene
  /-- A run without a build is a launch, whatever the toolchain is, and makes no call on it. -/
  skipped : ∀ acceleration,
    Acceleration.resolve architecture.id requested bench.host = .ok acceleration →
      ((bench.buildAndRun architecture requested profile true).run machine).1 =
          ((bench.launch architecture requested profile).run machine).1 ∧
        ((bench.buildAndRun architecture requested profile true).run machine).2.scene =
          ((bench.launch architecture requested profile).run machine).2.scene ∧
        (∀ toolchain, ({ bench with toolchain } : Workbench).buildAndRun architecture requested
          profile true = bench.buildAndRun architecture requested profile true) ∧
        machine.scene.AddsCalls
          ((bench.buildAndRun architecture requested profile true).run machine).2.scene
          bench.LaunchCall
  /-- A build that fails ends the run, with the scene that the calls on the toolchain have made. -/
  unbuilt : ∀ acceleration error,
    Acceleration.resolve architecture.id requested bench.host = .ok acceleration →
      ((bench.build [architecture] profile).run machine).1 = .error error →
      ((bench.buildAndRun architecture requested profile false).run machine).1 = .error error ∧
        ((bench.buildAndRun architecture requested profile false).run machine).2.scene =
          ((bench.build [architecture] profile).run machine).2.scene ∧
        (∃ performed, performed <+: bench.plan profile [architecture] ∧
          ((bench.buildAndRun architecture requested profile false).run machine).2.scene =
            performed.foldl bench.built machine.scene) ∧
        machine.scene.AddsCalls
          ((bench.buildAndRun architecture requested profile false).run machine).2.scene
          bench.ToolchainCall
  /-- After a build that succeeds the run is a launch on what the build has left. -/
  built : ∀ acceleration left,
    Acceleration.resolve architecture.id requested bench.host = .ok acceleration →
      (bench.build [architecture] profile).run machine = (.ok (), left) →
      ((bench.buildAndRun architecture requested profile false).run machine).1 =
          ((bench.launch architecture requested profile).run left).1 ∧
        ((bench.buildAndRun architecture requested profile false).run machine).2.scene =
          ((bench.launch architecture requested profile).run left).2.scene
  /-- The accelerator is the same on every machine, and asking for it changes nothing. -/
  agreed : ∀ other : Machine,
    ((bench.accelerate architecture requested).run other).1 =
        Acceleration.resolve architecture.id requested bench.host ∧
      ((bench.accelerate architecture requested).run other).2.scene = other.scene

/-- A run does what the request for an accelerator, the build and the launch would do in turn. -/
theorem buildAndRun_account (bench : Workbench) (architecture : Architecture) (requested : Bool)
    (profile : BuildProfile) (machine : Machine) :
    bench.RunAccount architecture requested profile machine := by
  have hrun := fun skipBuild =>
    bench.ignoresConsole_buildAndRun architecture profile requested skipBuild
  have hlaunch := bench.ignoresConsole_launch architecture profile requested
  have hbuild := bench.ignoresConsole_build profile [architecture]
  have heffect := fun skipBuild =>
    effect_buildAndRun bench architecture requested profile skipBuild machine.scene
  refine ⟨?refused, ?skipped, ?unbuilt, ?built, ?agreed⟩
  case refused =>
    intro error herror
    obtain ⟨-, -, hincompatible⟩ := Acceleration.incompatible_of_resolve herror
    refine ⟨⟨_, _, hincompatible⟩, fun skipBuild => (hrun skipBuild).run_of_effect ?_,
      hlaunch.run_of_effect (effect_launch_of_refused herror)⟩
    rw [heffect, herror]
  case skipped =>
    intro acceleration hgranted
    have hskip := heffect true
    simp only [hgranted, if_true, hlaunch.effect_scene] at hskip
    obtain ⟨hout, hscene⟩ := (hrun true).run_of_effect hskip
    refine ⟨hout, hscene, fun toolchain => rfl, ?_⟩
    have hcourse := (bench.launched architecture profile requested machine.scene).addsCalls
    rwa [hlaunch.effect_scene, ← hscene] at hcourse
  case unbuilt =>
    intro acceleration error hgranted herror
    have hfail := heffect false
    simp only [hgranted, Bool.false_eq_true, if_false, hbuild.effect_scene, herror] at hfail
    obtain ⟨hout, hscene⟩ := (hrun false).run_of_effect hfail
    obtain ⟨performed, hfollowed⟩ := followed bench profile [architecture] machine.scene
    rw [hbuild.effect_scene] at hfollowed
    have hleft := hscene.trans hfollowed.left_eq
    refine ⟨hout, hscene, ⟨performed, hfollowed.performed_prefix, hleft⟩, ?_⟩
    rw [hleft]
    exact addsCalls_foldl_built performed machine.scene
  case built =>
    intro acceleration left hgranted hok
    have hgo := heffect false
    simp only [hgranted, Bool.false_eq_true, if_false, hbuild.effect_scene, hok,
      hlaunch.effect_scene] at hgo
    exact (hrun false).run_of_effect hgo
  case agreed =>
    intro other
    exact (bench.host.ignoresConsole_accelerate architecture.id requested).run_of_effect
      (effect_accelerate bench architecture requested other.scene)

end Workbench

end Bootstage
