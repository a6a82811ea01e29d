import Bootstage.Proofs.Machine.Scenes
import Bootstage.Proofs.Tree.Clearable

/-!
# The course of a launch

A launch goes through its stages in order: the accelerator is resolved, the boot environment is
reset and filled, the provenance is read, the descriptor is written, and the emulator runs. The
first stage that fails ends the launch. Each way to end is a case here, with all that was done.
-/

namespace Bootstage

/-- A call leaves no working directory that is not there. -/
theorem Scene.withTree_tree_after {α : Type} (scene : Scene) (call : Call)
    (reaction : Reaction α) :
    (scene.after call reaction).withTree reaction.tree = scene.after call reaction := by
  simp [withTree, after]

open Bootstage.Action

/-- A request for an accelerator is answered, and nothing else is done. -/
theorem Host.effect_accelerate (host : Host) (target : String) (requested : Bool) (scene : Scene) :
    (host.accelerate target requested).effect scene =
      (Acceleration.resolve target requested host, scene) := by
  unfold accelerate
  split
  · rw [effect_say_bind (by simp), effect_ofExcept]
  · exact effect_ofExcept _ _

namespace Workbench

/-- The scene after the provenance has been asked for. -/
def asked (bench : Workbench) (filled : Scene) : Scene :=
  filled.after .provenance (bench.provenance.react filled)

/-- The descriptor is written into the files of a scene. -/
def writeDescriptor (bench : Workbench) (architecture : Architecture) (provenance : Provenance)
    (scene : Scene) : Except SystemError Tree :=
  scene.tree.write scene.cwd (bench.environment.descriptorFile architecture)
    (Text.encode (Descriptor.render architecture provenance))

/-- What the emulator is asked to run. -/
def order (bench : Workbench) (architecture : Architecture) (acceleration : Acceleration) :
    Launch :=
  Launch.compose architecture acceleration bench.config bench.environment

/-- The scene after the emulator has been asked to run. -/
def played (bench : Workbench) (order : Launch) (ready : Scene) : Scene :=
  ready.after (.launch order) (bench.emulator.react order ready)

/-- How a boot environment is staged: the stages that are gone through, their outcome and the scene
they leave. -/
inductive Staged (bench : Workbench) (architecture : Architecture) (profile : BuildProfile)
    (before : Scene) : Except Error Unit → Scene → Prop
  /-- The reset fails. -/
  | unreset {error : Error} {left : Scene}
      (reset : (bench.environment.reset architecture.id).effect before = (.error error, left)) :
      Staged bench architecture profile before (.error error) left
  /-- A copy fails. -/
  | unfilled {fresh left : Scene} {error : Error}
      (reset : (bench.environment.reset architecture.id).effect before = (.ok (), fresh))
      (fill : (bench.environment.fill architecture profile bench.config).effect fresh =
        (.error error, left)) :
      Staged bench architecture profile before (.error error) left
  /-- The provenance is not known. -/
  | unread {fresh filled : Scene} {error : Error}
      (reset : (bench.environment.reset architecture.id).effect before = (.ok (), fresh))
      (fill : (bench.environment.fill architecture profile bench.config).effect fresh =
        (.ok (), filled))
      (unknown : (bench.provenance.react filled).outcome = .error error) :
      Staged bench architecture profile before (.error error) (bench.asked filled)
  /-- The descriptor cannot be written. -/
  | unwritten {fresh filled : Scene} {provenance : Provenance} {cause : SystemError}
      (reset : (bench.environment.reset architecture.id).effect before = (.ok (), fresh))
      (fill : (bench.environment.fill architecture profile bench.config).effect fresh =
        (.ok (), filled))
      (known : (bench.provenance.react filled).outcome = .ok provenance)
      (write : bench.writeDescriptor architecture provenance (bench.asked filled) = .error cause) :
      Staged bench architecture profile before
        (.error (.staging architecture.id (bench.environment.descriptorFile architecture) cause))
        (bench.asked filled)
  /-- All is staged. -/
  | complete {fresh filled : Scene} {provenance : Provenance} {written : Tree}
      (reset : (bench.environment.reset architecture.id).effect before = (.ok (), fresh))
      (fill : (bench.environment.fill architecture profile bench.config).effect fresh =
        (.ok (), filled))
      (known : (bench.provenance.react filled).outcome = .ok provenance)
      (write : bench.writeDescriptor architecture provenance (bench.asked filled) = .ok written) :
      Staged bench architecture profile before (.ok ()) ((bench.asked filled).withTree written)

/-- How a launch goes: its outcome and the scene it leaves. -/
inductive Launched (bench : Workbench) (architecture : Architecture) (requested : Bool)
    (profile : BuildProfile) (before : Scene) : Except Error Unit → Scene → Prop
  /-- The request for an accelerator is refused. -/
  | refused {error : Error}
      (resolve : Acceleration.resolve architecture.id requested bench.host = .error error) :
      Launched bench architecture requested profile before (.error error) before
  /-- The boot environment cannot be staged. -/
  | unstaged {acceleration : Acceleration} {error : Error} {left : Scene}
      (resolve : Acceleration.resolve architecture.id requested bench.host = .ok acceleration)
      (stage : bench.Staged architecture profile before (.error error) left) :
      Launched bench architecture requested profile before (.error error) left
  /-- The emulator does not start. -/
  | unstarted {acceleration : Acceleration} {ready : Scene} {cause : SystemError}
      (resolve : Acceleration.resolve architecture.id requested bench.host = .ok acceleration)
      (stage : bench.Staged architecture profile before (.ok ()) ready)
      (outcome : (bench.emulator.react (bench.order architecture acceleration) ready).outcome =
        .error cause) :
      Launched bench architecture requested profile before
        (.error (.process (bench.order architecture acceleration).program cause))
        (bench.played (bench.order architecture acceleration) ready)
  /-- The emulator ends in failure. -/
  | failed {acceleration : Acceleration} {ready : Scene} {status : ProcessExit}
      (resolve : Acceleration.resolve architecture.id requested bench.host = .ok acceleration)
      (stage : bench.Staged architecture profile before (.ok ()) ready)
      (outcome : (bench.emulator.react (bench.order architecture acceleration) ready).outcome =
        .ok status)
      (failure : status.success = false) :
      Launched bench architecture requested profile before
        (.error (.launch architecture.id status))
        (bench.played (bench.order architecture acceleration) ready)
  /-- The emulator ends in success. -/
  | ended {acceleration : Acceleration} {ready : Scene} {status : ProcessExit}
      (resolve : Acceleration.resolve architecture.id requested bench.host = .ok acceleration)
      (stage : bench.Staged architecture profile before (.ok ()) ready)
      (outcome : (bench.emulator.react (bench.order architecture acceleration) ready).outcome =
        .ok status)
      (success : status.success = true) :
      Launched bench architecture requested profile before (.ok ())
        (bench.played (bench.order architecture acceleration) ready)

variable (bench : Workbench) (architecture : Architecture) (profile : BuildProfile)

theorem effect_accelerate (requested : Bool) (scene : Scene) :
    (bench.accelerate architecture requested).effect scene =
      (Acceleration.resolve architecture.id requested bench.host, scene) :=
  bench.host.effect_accelerate architecture.id requested scene

variable {bench architecture profile} in
/-- A launch whose request for an accelerator is refused does nothing. -/
theorem effect_launch_of_refused {requested : Bool} {before : Scene} {error : Error}
    (refused : Acceleration.resolve architecture.id requested bench.host = .error error) :
    (bench.launch architecture requested profile).effect before = (.error error, before) := by
  rw [launch, effect_bind (by simp), effect_accelerate, refused]

/-- What asking for the provenance and writing the descriptor does. -/
theorem effect_describe (filled : Scene) :
    (bench.environment.describe architecture bench.provenance).effect filled =
      match (bench.provenance.react filled).outcome with
      | .error error => (.error error, bench.asked filled)
      | .ok provenance =>
        match bench.writeDescriptor architecture provenance (bench.asked filled) with
        | .error cause =>
          (.error (.staging architecture.id (bench.environment.descriptorFile architecture) cause),
            bench.asked filled)
        | .ok written =>
          (.ok (bench.environment.descriptorFile architecture),
            (bench.asked filled).withTree written) := by
  have hsame : (bench.asked filled).withTree (bench.asked filled).tree = bench.asked filled :=
    Scene.withTree_tree_after _ _ _
  rw [BootEnvironment.describe, effect_bind (by simp), BootEnvironment.readProvenance,
    effect_engage]
  cases hout : (bench.provenance.react filled).outcome with
  | error error => rfl
  | ok provenance =>
    simp only [Except.mapError_ok]
    rw [effect_bind (by simp), effect_onFilesAtOnce]
    simp only [writeDescriptor, asked]
    cases (filled.after Call.provenance (bench.provenance.react filled)).tree.write
        (filled.after Call.provenance (bench.provenance.react filled)).cwd
        (bench.environment.descriptorFile architecture)
        (Text.encode (Descriptor.render architecture provenance)) with
    | error cause => exact congrArg (Prod.mk _) hsame
    | ok written =>
      dsimp only
      rw [effect_say_bind (by simp), effect_pure]

/-- What running the emulator does. -/
theorem effect_start (acceleration : Acceleration) (ready : Scene) :
    (bench.start architecture acceleration).effect ready =
      (match (bench.emulator.react (bench.order architecture acceleration) ready).outcome with
        | .error cause => .error (.process (bench.order architecture acceleration).program cause)
        | .ok status =>
          if status.success then .ok () else .error (.launch architecture.id status),
        bench.played (bench.order architecture acceleration) ready) := by
  have hlast : ∀ status : ProcessExit, IgnoresConsole
      (if status.success then pure () else fail (.launch architecture.id status)) := by
    intro status
    split <;> simp
  rw [start, effect_say_bind (.bind (.engage _ _ _) hlast), effect_bind hlast, effect_engage]
  simp only [order, played]
  cases (bench.emulator.react (Launch.compose architecture acceleration bench.config
      bench.environment) ready).outcome with
  | error cause => rfl
  | ok status =>
    simp only [Except.mapError_ok]
    split <;> rfl

/-- The staging of a boot environment takes one of its courses. -/
theorem staged (scene : Scene) :
    bench.Staged architecture profile scene ((bench.stage architecture profile).effect scene).1
      ((bench.stage architecture profile).effect scene).2 := by
  rw [stage, effect_timed, effect_say_bind (by simp), effect_bind (by simp),
    BootEnvironment.assemble, effect_bind (by simp)]
  rcases hr : (bench.environment.reset architecture.id).effect scene with ⟨error | ⟨⟩, fresh⟩
  · exact .unreset hr
  dsimp only
  rcases hf : (bench.environment.fill architecture profile bench.config).effect fresh with
    ⟨error | ⟨⟩, filled⟩
  · exact .unfilled hr hf
  dsimp only
  rw [effect_bind (by simp), effect_describe]
  cases hp : (bench.provenance.react filled).outcome with
  | error error => exact .unread hr hf hp
  | ok provenance =>
    dsimp only
    cases hw : bench.writeDescriptor architecture provenance (bench.asked filled) with
    | error cause => exact .unwritten hr hf hp hw
    | ok written => exact .complete hr hf hp hw

/-- A launch takes one of its courses. -/
theorem launched (requested : Bool) (scene : Scene) :
    bench.Launched architecture requested profile scene
      ((bench.launch architecture requested profile).effect scene).1
      ((bench.launch architecture requested profile).effect scene).2 := by
  rw [launch, effect_bind (by simp), effect_accelerate]
  cases ha : Acceleration.resolve architecture.id requested bench.host with
  | error error => exact .refused ha
  | ok acceleration =>
    dsimp only
    rw [effect_bind (by simp)]
    have hstaged := bench.staged architecture profile scene
    rcases hs : (bench.stage architecture profile).effect scene with ⟨error | ⟨⟩, ready⟩
    · rw [hs] at hstaged
      exact .unstaged ha hstaged
    rw [hs] at hstaged
    dsimp only
    rw [effect_start]
    cases ho : (bench.emulator.react (bench.order architecture acceleration) ready).outcome with
    | error cause => exact .unstarted ha hstaged ho
    | ok status =>
      dsimp only
      cases hs : status.success with
      | false => exact .failed ha hstaged ho hs
      | true => exact .ended ha hstaged ho hs

end Workbench

end Bootstage
