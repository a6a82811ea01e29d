import Bootstage.Proofs.BootEnvironment.Leftovers
import Bootstage.Proofs.Workbench.Booting

/-!
# The account of a launch

What a launch has done is told by the stage that it has come to. The accelerator comes first, then
the reset and the copies, the provenance, the descriptor and the emulator, and after a failure
nothing of a later stage has been done. Only a descriptor of earlier days may still be there.
-/

namespace Bootstage

open Bootstage.Action

/-! ### File operations of the staging -/

/-- The action calls no one, and it fails only with a remark on one of the given paths. -/
def Action.StagesAt (action : Action Unit) (name : String) (paths : List Path) : Prop :=
  ∀ scene, (action.effect scene).2.calls = scene.calls ∧
    ∀ error, (action.effect scene).1 = .error error →
      ∃ path ∈ paths, ∃ cause, error = .staging name path cause

namespace Action.StagesAt

variable {name : String} {paths others : List Path}

/-- Two actions in a row blame the paths of both. -/
theorem bind {first : Action Unit} {next : Unit → Action Unit} (h : first.StagesAt name paths)
    (h' : (next ()).StagesAt name others) (hn : ∀ value, (next value).IgnoresConsole) :
    (first >>= next).StagesAt name (paths ++ others) := by
  intro scene
  obtain ⟨hcalls, herror⟩ := h scene
  rw [effect_bind hn]
  rcases hf : first.effect scene with ⟨error | ⟨⟩, left⟩
  · rw [hf] at hcalls herror
    refine ⟨hcalls, fun other ho => ?_⟩
    obtain ⟨path, hp, hc⟩ := herror other ho
    exact ⟨path, List.mem_append_left others hp, hc⟩
  · rw [hf] at hcalls
    obtain ⟨hcalls', herror'⟩ := h' left
    refine ⟨hcalls'.trans hcalls, fun other ho => ?_⟩
    obtain ⟨path, hp, hc⟩ := herror' other ho
    exact ⟨path, List.mem_append_right paths hp, hc⟩

/-- A file operation that puts its failure into a remark on a path. -/
theorem onFiles (operation : Tree → Option Location → Except SystemError Unit × Tree)
    (path : Path) : (onFiles operation (.staging name path)).StagesAt name [path] := by
  intro scene
  rw [effect_onFiles]
  refine ⟨rfl, fun error he => ⟨path, List.mem_singleton_self path, ?_⟩⟩
  cases ho : (operation scene.tree scene.cwd).1 with
  | ok done => simp [ho] at he
  | error cause =>
    simp only [ho, Except.mapError_error, Except.error.injEq] at he
    exact ⟨cause, he.symm⟩

theorem say_bind {least : Verbosity} {text : String} {next : Unit → Action Unit}
    (h : (next ()).StagesAt name paths) (hn : (next ()).IgnoresConsole) :
    (say least text >>= next).StagesAt name paths := by
  intro scene
  rw [effect_say_bind hn]
  exact h scene

end Action.StagesAt

namespace BootEnvironment

variable (environment : BootEnvironment) (architecture : Architecture) (profile : BuildProfile)
  (config : Config) (name : String)

/-- A removal blames the directory that was to be removed. -/
theorem stagesAt_remove (directory : Path) : (remove name directory).StagesAt name [directory] := by
  intro scene
  have hview : ∀ shown : Bool, (if shown then do
      say .verbose ("  removing " ++ directory.shown)
      onFiles (fun tree cwd => tree.removeAll cwd directory) (.staging name directory)
    else pure ()).IgnoresConsole := by
    intro shown
    split <;> simp
  rw [remove, effect_bind hview, effect_look]
  dsimp only
  split
  · exact StagesAt.say_bind (.onFiles _ directory) (by simp) scene
  · exact ⟨rfl, fun error he => by simp at he⟩

/-- A copy blames its source. -/
theorem stagesAt_copy (source target : Path) : (copy name source target).StagesAt name [source] :=
  .say_bind (.onFiles _ source) (by simp)

/-- The paths that a reset can remark on. -/
def resetPaths : List Path :=
  [environment.espDir, environment.firmwareDir, environment.bootDir, environment.firmwareDir]

/-- A reset blames the paths that it removes or creates. -/
theorem stagesAt_reset : (environment.reset name).StagesAt name environment.resetPaths :=
  .bind (stagesAt_remove name environment.espDir)
    (.bind (stagesAt_remove name environment.firmwareDir)
      (.bind (.onFiles _ environment.bootDir) (.onFiles _ environment.firmwareDir) (by simp))
      (by simp))
    (by simp)

/-- Several copies blame their sources. -/
theorem stagesAt_forM_copy (copies : List (Path × Path)) :
    (copies.forM fun (source, target) => copy name source target).StagesAt name
      (copies.map Prod.fst) := by
  induction copies with
  | nil => exact fun scene => ⟨rfl, fun error he => by simp at he⟩
  | cons pair rest ih =>
    exact .bind (stagesAt_copy name pair.1 pair.2) ih fun _ => .forM fun _ =>
      ignoresConsole_copy _ _ _

/-- The making of a boot environment blames the paths of the reset or a source. -/
theorem stagesAt_assemble :
    (environment.assemble architecture profile config).StagesAt architecture.id
      (environment.resetPaths ++ (environment.sources architecture profile config).map Prod.fst) :=
  .bind (stagesAt_reset environment architecture.id) (stagesAt_forM_copy architecture.id _)
    (by simp)

end BootEnvironment

namespace Workbench

variable {bench : Workbench} {architecture : Architecture} {profile : BuildProfile}
  {requested : Bool} {before filled : Scene} {acceleration : Acceleration}

/-! ### The stages of a launch -/

/-- A launch goes on to make the boot environment. -/
theorem effect_launch_of_granted
    (granted : Acceleration.resolve architecture.id requested bench.host = .ok acceleration) :
    (bench.launch architecture requested profile).effect before =
      match (bench.environment.assemble architecture profile bench.config).effect before with
      | (.error error, left) => (.error error, left)
      | (.ok (), filled) =>
        match (bench.environment.describe architecture bench.provenance).effect filled with
        | (.error error, left) => (.error error, left)
        | (.ok _, ready) => (bench.start architecture acceleration).effect ready := by
  rw [launch, effect_bind (by simp), effect_accelerate, granted]
  dsimp only
  rw [effect_bind (by simp), stage, effect_timed, effect_say_bind (by simp), effect_bind (by simp)]
  rcases (bench.environment.assemble architecture profile bench.config).effect before with
    ⟨error | ⟨⟩, filled⟩
  · rfl
  · dsimp only
    rw [effect_bind (by simp)]
    rcases (bench.environment.describe architecture bench.provenance).effect filled with
      ⟨error | path, ready⟩ <;> rfl

/-- The boot environment has been filled, and the launch goes on to its descriptor. -/
def Fills (bench : Workbench) (architecture : Architecture) (requested : Bool)
    (profile : BuildProfile) (before : Scene) (acceleration : Acceleration) (filled : Scene) :
    Prop :=
  Acceleration.resolve architecture.id requested bench.host = .ok acceleration ∧
    (bench.environment.assemble architecture profile bench.config).effect before =
      (.ok (), filled)

/-- What follows when the boot environment has been filled. -/
theorem Fills.effect_launch
    (h : bench.Fills architecture requested profile before acceleration filled) :
    (bench.launch architecture requested profile).effect before =
      match (bench.provenance.react filled).outcome with
      | .error error => (.error error, bench.asked filled)
      | .ok provenance =>
        match bench.writeDescriptor architecture provenance (bench.asked filled) with
        | .error cause =>
          (.error (.staging architecture.id (bench.environment.descriptorFile architecture) cause),
            bench.asked filled)
        | .ok written =>
          (bench.start architecture acceleration).effect
            ((bench.asked filled).withTree written) := by
  rw [effect_launch_of_granted h.1, h.2]
  dsimp only
  rw [effect_describe]
  cases (bench.provenance.react filled).outcome with
  | error error => rfl
  | ok provenance =>
    dsimp only
    cases bench.writeDescriptor architecture provenance (bench.asked filled) <;> rfl

/-- No one is called before the boot environment has been filled. -/
theorem Fills.calls_eq
    (h : bench.Fills architecture requested profile before acceleration filled) :
    filled.calls = before.calls := by
  have hcalls := (BootEnvironment.stagesAt_assemble bench.environment architecture profile
    bench.config before).1
  rwa [h.2] at hcalls

/-- No stage refuses an accelerator, unless the provenance is told with such an error. -/
theorem Staged.of_incompatible {host target : String} {left : Scene}
    (h : bench.Staged architecture profile before (.error (.incompatibleAcceleration host target))
      left) :
    ∃ filled, (bench.provenance.react filled).outcome =
      .error (.incompatibleAcceleration host target) := by
  cases h with
  | unreset reset =>
    have hreset := (BootEnvironment.stagesAt_reset bench.environment architecture.id before).2
    rw [reset] at hreset
    obtain ⟨path, -, cause, he⟩ := hreset _ rfl
    contradiction
  | unfilled reset fill =>
    next fresh =>
    have hfill := (BootEnvironment.stagesAt_forM_copy architecture.id
      (bench.environment.sources architecture profile bench.config) fresh).2
    rw [BootEnvironment.fill] at fill
    rw [fill] at hfill
    obtain ⟨path, -, cause, he⟩ := hfill _ rfl
    contradiction
  | unread reset fill unknown =>
    next fresh filled => exact ⟨filled, unknown⟩

/-- A launch that ends with a refused accelerator has done nothing, or been told so. -/
theorem Launched.of_incompatible {host target : String} {left : Scene}
    (h : bench.Launched architecture requested profile before
      (.error (.incompatibleAcceleration host target)) left) :
    left = before ∨ ∃ filled, (bench.provenance.react filled).outcome =
      .error (.incompatibleAcceleration host target) := by
  cases h with
  | refused resolve => exact .inl rfl
  | unstaged resolve stage => exact .inr stage.of_incompatible

/-- The account of a launch: what it has done at the stage that it has come to. -/
structure LaunchAccount (bench : Workbench) (architecture : Architecture) (requested : Bool)
    (profile : BuildProfile) (before : Scene) (outcome : Except Error Unit) (left : Scene) :
    Prop where
  /-- The request for an accelerator is refused, and nothing is done. -/
  refused : ∀ error,
    Acceleration.resolve architecture.id requested bench.host = .error error →
      outcome = .error error ∧ left = before
  /-- No other stage refuses an accelerator; the provenance may be told with any error. -/
  incompatible : ∀ host target, outcome = .error (.incompatibleAcceleration host target) →
    left = before ∨ ∃ filled,
      (bench.provenance.react filled).outcome = .error (.incompatibleAcceleration host target)
  /-- The boot environment cannot be made, and no one is called. -/
  unfilled : ∀ acceleration error middle,
    Acceleration.resolve architecture.id requested bench.host = .ok acceleration →
      (bench.environment.assemble architecture profile bench.config).effect before =
        (.error error, middle) →
      outcome = .error error ∧ left = middle ∧ left.calls = before.calls ∧
        ∃ path ∈ bench.environment.resetPaths ++
          (bench.environment.sources architecture profile bench.config).map Prod.fst,
          ∃ cause, error = .staging architecture.id path cause
  /-- The provenance is not known, and no one else is called. -/
  unread : ∀ acceleration filled error,
    bench.Fills architecture requested profile before acceleration filled →
      (bench.provenance.react filled).outcome = .error error →
      outcome = .error error ∧ left = bench.asked filled ∧
        left.calls = before.calls ++ .provenance :: (bench.provenance.react filled).starts
  /-- The descriptor cannot be written, and no one else is called. -/
  unwritten : ∀ acceleration filled provenance cause,
    bench.Fills architecture requested profile before acceleration filled →
      (bench.provenance.react filled).outcome = .ok provenance →
      bench.writeDescriptor architecture provenance (bench.asked filled) = .error cause →
      outcome =
          .error (.staging architecture.id (bench.environment.descriptorFile architecture) cause) ∧
        left = bench.asked filled ∧
        left.calls = before.calls ++ .provenance :: (bench.provenance.react filled).starts
  /-- The emulator is asked once, and its answer is the outcome. -/
  started : ∀ acceleration filled provenance written ready,
    bench.Fills architecture requested profile before acceleration filled →
      (bench.provenance.react filled).outcome = .ok provenance →
      bench.writeDescriptor architecture provenance (bench.asked filled) = .ok written →
      ready = (bench.asked filled).withTree written →
      outcome =
          (match (bench.emulator.react (bench.order architecture acceleration) ready).outcome with
          | .error cause => .error (.process (bench.order architecture acceleration).program cause)
          | .ok status =>
            if status = .exited 0 then .ok () else .error (.launch architecture.id status)) ∧
        left = bench.played (bench.order architecture acceleration) ready ∧
        left.calls = before.calls ++ .provenance :: (bench.provenance.react filled).starts ++
          .launch (bench.order architecture acceleration) ::
            (bench.emulator.react (bench.order architecture acceleration) ready).starts
  /-- When the copies have ended, well or not, there is a descriptor exactly if one was left by the
  reset or written by one of the copies that were made. -/
  descriptor : ∀ fresh,
    (bench.environment.reset architecture.id).effect before = (.ok (), fresh) →
      ∀ ended filled,
        (bench.environment.assemble architecture profile bench.config).effect before =
          (ended, filled) →
        ∃ made, made <+: bench.environment.sources architecture profile bench.config ∧
          (ended = .ok () → made = bench.environment.sources architecture profile bench.config) ∧
          (∀ error, ended = .error error → ∃ source target cause,
            made ++ [(source, target)] <+:
                bench.environment.sources architecture profile bench.config ∧
              error = .staging architecture.id source cause) ∧
          (bench.environment.HasDescriptor architecture filled ↔
            bench.environment.DescriptorLeft architecture fresh made)
  /-- None is there if both directories could be cleared. -/
  cleared : ∀ esp firmware, architecture ∈ Architecture.registered →
    before.tree.Clearable before.cwd bench.environment.espDir esp →
      before.tree.Clearable before.cwd bench.environment.firmwareDir firmware →
      ∀ fresh, (bench.environment.reset architecture.id).effect before = (.ok (), fresh) →
        ¬ bench.environment.HasDescriptor architecture
          ((bench.environment.assemble architecture profile bench.config).effect before).2

/-- The copies that were made when the boot environment could be reset, and what they say of the
descriptor. -/
theorem exists_made (environment : BootEnvironment) (architecture : Architecture)
    (profile : BuildProfile) (config : Config) {fresh filled : Scene} {ended : Except Error Unit}
    (reset : (environment.reset architecture.id).effect before = (.ok (), fresh))
    (assembled : (environment.assemble architecture profile config).effect before =
      (ended, filled)) :
    ∃ made, made <+: environment.sources architecture profile config ∧
      (ended = .ok () → made = environment.sources architecture profile config) ∧
      (∀ error, ended = .error error → ∃ source target cause,
        made ++ [(source, target)] <+: environment.sources architecture profile config ∧
          error = .staging architecture.id source cause) ∧
      (environment.HasDescriptor architecture filled ↔
        environment.DescriptorLeft architecture fresh made) := by
  rw [BootEnvironment.assemble, effect_bind (by simp), reset] at assembled
  obtain ⟨made, hcopied⟩ := BootEnvironment.copied architecture.id
    (environment.sources architecture profile config) fresh
  have hfill : (environment.fill architecture profile config).effect fresh = (ended, filled) :=
    assembled
  rw [BootEnvironment.fill] at hfill
  rw [hfill] at hcopied
  have held := BootEnvironment.held_of_reset reset
  refine ⟨made, hcopied.made_prefix, hcopied.made_eq_of_ok, fun error he => ?_,
    hcopied.hasDescriptor_iff held⟩
  obtain ⟨source, target, rest, cause, hm, hs, -⟩ := hcopied.exists_stopped held he
  exact ⟨source, target, cause, by simp [hm], hs⟩

/-- A launch does its stages in order, and nothing of a later one after a failure. -/
theorem launch_account (bench : Workbench) (architecture : Architecture) (requested : Bool)
    (profile : BuildProfile) (machine : Machine) :
    bench.LaunchAccount architecture requested profile machine.scene
      ((bench.launch architecture requested profile).run machine).1
      ((bench.launch architecture requested profile).run machine).2.scene := by
  have hrun := (bench.ignoresConsole_launch architecture profile requested).effect_scene machine
  have hout : ((bench.launch architecture requested profile).run machine).1 =
      ((bench.launch architecture requested profile).effect machine.scene).1 :=
    (congrArg Prod.fst hrun).symm
  have hleft : ((bench.launch architecture requested profile).run machine).2.scene =
      ((bench.launch architecture requested profile).effect machine.scene).2 :=
    (congrArg Prod.snd hrun).symm
  rw [hout, hleft]
  have hassemble := BootEnvironment.stagesAt_assemble bench.environment architecture profile
    bench.config machine.scene
  refine ⟨?refused, ?incompatible, ?unfilled, ?unread, ?unwritten, ?started, ?descriptor, ?cleared⟩
  case refused =>
    intro error herror
    rw [effect_launch_of_refused herror]
    exact ⟨rfl, rfl⟩
  case incompatible =>
    intro host target hincompatible
    have hcourse := bench.launched architecture profile requested machine.scene
    rw [hincompatible] at hcourse
    exact hcourse.of_incompatible
  case unfilled =>
    intro acceleration error middle hgranted hmiddle
    rw [hmiddle] at hassemble
    rw [effect_launch_of_granted hgranted, hmiddle]
    exact ⟨rfl, rfl, hassemble.1, hassemble.2 error rfl⟩
  case unread =>
    intro acceleration filled error hfills hunknown
    rw [hfills.effect_launch, hunknown]
    refine ⟨rfl, rfl, ?_⟩
    rw [asked, Scene.calls_after, hfills.calls_eq]
  case unwritten =>
    intro acceleration filled provenance cause hfills hknown hwrite
    rw [hfills.effect_launch, hknown]
    dsimp only
    rw [hwrite]
    refine ⟨rfl, rfl, ?_⟩
    rw [asked, Scene.calls_after, hfills.calls_eq]
  case started =>
    rintro acceleration filled provenance written ready hfills hknown hwrite rfl
    rw [hfills.effect_launch, hknown]
    dsimp only
    rw [hwrite]
    dsimp only
    rw [effect_start]
    refine ⟨?_, rfl, ?_⟩
    · dsimp only
      cases (bench.emulator.react (bench.order architecture acceleration)
          ((bench.asked filled).withTree written)).outcome with
      | error cause => rfl
      | ok status => simp only [ProcessExit.success_eq_true_iff]
    · rw [played, Scene.calls_after, Scene.calls_withTree, asked, Scene.calls_after,
        hfills.calls_eq]
  case descriptor =>
    intro fresh hreset ended filled hended
    exact exists_made bench.environment architecture profile bench.config hreset hended
  case cleared =>
    intro esp firmware registered hesp hfirmware fresh hreset hleft
    have hfresh := BootEnvironment.fresh_of_reset hesp hfirmware hreset
    obtain ⟨made, hmade, -, -, hiff⟩ := exists_made bench.environment architecture profile
      bench.config hreset rfl
    exact hfresh.not_descriptorLeft ⟨hesp.plain, hfirmware.plain⟩ registered hmade (hiff.mp hleft)

/-! ### A detour -/

/-- A workbench whose system partition is named by a detour. -/
def detour : Workbench :=
  { sample with config := { Config.defaults ⟨"ws"⟩ with espDir := ⟨"ws/out/../esp"⟩ } }

/-- A workspace with the descriptor of an earlier launch, and without the detour. -/
def detourMachine : Machine where
  tree := Tree.empty.putAll [(["ws"], .directory), (["ws", "esp"], .directory),
    (["ws", "esp", "corgos-boot-x86_64.ini"], .file "old")]
  cwd := some []

/-- The reset does not see the system partition, then creates the detour to it: a launch that fails
for want of the firmware leaves the descriptor where it was. -/
theorem hasDescriptor_detour :
    ((detour.launch .x86_64 false .debug).run detourMachine).1 =
        .error (.staging "x86_64" ⟨"ws/edk2-uefi/ovmf-x64-4m/OVMF_CODE.fd"⟩ .notFound) ∧
      ((detour.launch .x86_64 false .debug).run detourMachine).2.calls = [] ∧
      detour.environment.HasDescriptor .x86_64
        ((detour.launch .x86_64 false .debug).run detourMachine).2.scene := by
  refine ⟨by decide +kernel, by decide +kernel, Text.encode "old", by decide +kernel⟩

end Workbench

end Bootstage
