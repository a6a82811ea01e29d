import Bootstage.Proofs.BootEnvironment.Filling
import Bootstage.Proofs.BootEnvironment.Forgetting

/-!
# What an attempt leaves

An attempt to make a boot environment, for whatever architecture and however it ends, leaves a
scene that can be reset again, and on which a reset forgets the attempt.
-/

namespace Bootstage

open Bootstage.Action

variable {environment : BootEnvironment} {esp firmware : Location} {scene left before : Scene}
  {espEntries firmwareEntries : List (Location × Entry)}

/-- More files at or below the two places make no difference elsewhere. -/
theorem Scene.GainsBelow.agreeOutside (h : scene.GainsBelow esp firmware left) :
    scene.AgreeOutside esp firmware left where
  cwd location _ _ := by rw [h.cwd]
  calls := h.calls
  tree := h.elsewhere

/-- A directory that stands at a place that can be cleared has a path that is accepted. -/
theorem Tree.Clearable.accepted {tree : Tree} {cwd : Option Location} {path : Path}
    {site : Location} (h : tree.Clearable cwd path site) {entry : Entry}
    (hg : tree.get? site = some entry) : path.Accepted := by
  have hd := h.standing.resolve_left (by simp [hg])
  exact ((h.straight_of_presentDirectory hd).presentDirectory_eq_true_iff.mp hd).1

namespace BootEnvironment

namespace Holding

/-- A boot environment with known contents can be reset. -/
theorem resettable (h : environment.Holding esp firmware scene espEntries firmwareEntries)
    (accepted : environment.espDir.Accepted ∧ environment.firmwareDir.Accepted) :
    scene.Resettable environment esp firmware := by
  exact ⟨h.held, .of_directory h.plain.1 accepted.1 h.espSite h.espHolds.1,
    .of_directory h.plain.2 accepted.2 h.firmwareSite h.firmwareHolds.1⟩

/-- The calls do not matter. -/
theorem with_calls (h : environment.Holding esp firmware scene espEntries firmwareEntries)
    (calls : List Call) :
    environment.Holding esp firmware { scene with calls } espEntries firmwareEntries :=
  ⟨h.held, h.plain, h.espSite, h.firmwareSite, h.apart, h.espHolds, h.firmwareHolds⟩

end Holding

end BootEnvironment

namespace Scene

/-- The scene has been made by attempts from an earlier one, and can be reset again. -/
structure Retryable (environment : BootEnvironment) (esp firmware : Location)
    (before after : Scene) : Prop where
  /-- The attempts have left nothing else. -/
  attempted : before.Attempted environment esp firmware after
  /-- The directories can be cleared. -/
  resettable : after.Resettable environment esp firmware

/-- What is filled in after a reset is forgotten with it. -/
theorem Retryable.of_holding (h : before.Retryable environment esp firmware scene)
    (directories : scene.tree.get? esp = some .directory ∧
      scene.tree.get? firmware = some .directory)
    (hagree : scene.AgreeOutside esp firmware left)
    (hholding : environment.Holding esp firmware left espEntries firmwareEntries) :
    before.Retryable environment esp firmware left where
  attempted := h.attempted.of_agreeOutside hagree
  resettable := hholding.resettable
    ⟨h.resettable.esp.accepted directories.1, h.resettable.firmware.accepted directories.2⟩

namespace Resettable

variable {architecture : Architecture}

/-- However a reset ends, it can be made again on what it has left. -/
theorem retryable_reset (h : scene.Resettable environment esp firmware)
    (apart : ¬ esp <+: firmware ∧ ¬ firmware <+: esp) (name : String) :
    scene.Retryable environment esp firmware ((environment.reset name).effect scene).2 :=
  ⟨h.attempted_reset name, h.resettable_reset apart name⟩

/-- What is filled in after a reset, up to the end or up to a copy that fails. -/
theorem retryable_fill (h : scene.Resettable environment esp firmware)
    (apart : ¬ esp <+: firmware ∧ ¬ firmware <+: esp)
    (registered : architecture ∈ Architecture.registered) {name : String} {fresh : Scene}
    (hr : (environment.reset name).effect scene = (.ok (), fresh)) (profile : BuildProfile)
    (config : Config) :
    scene.Retryable environment esp firmware
        ((environment.fill architecture profile config).effect fresh).2 ∧
      ∃ espEntries firmwareEntries,
        environment.Holding esp firmware
          ((environment.fill architecture profile config).effect fresh).2 espEntries
          firmwareEntries ∧
        espEntries.lookup [(architecture.descriptorFile : Name)] = none := by
  obtain ⟨code, vars, names⟩ := Architecture.exists_fileNames registered
  have hreset := h.retryable_reset apart name
  rw [hr] at hreset
  have hholding := (BootEnvironment.fresh_of_reset h.esp h.firmware hr).holding
    ⟨h.esp.plain, h.firmware.plain⟩ apart
  rcases hfill : (environment.fill architecture profile config).effect fresh with ⟨outcome, filled⟩
  obtain ⟨hgains, _, _, hfilled, hnew, -⟩ := hholding.exists_filled names hfill
  exact ⟨hreset.of_holding ⟨hholding.espHolds.1, hholding.firmwareHolds.1⟩ hgains.agreeOutside
    hfilled, _, _, hfilled, hnew⟩

/-- Making a boot environment is an attempt at any other, in success and in failure. -/
theorem retryable_assemble (h : scene.Resettable environment esp firmware)
    (apart : ¬ esp <+: firmware ∧ ¬ firmware <+: esp)
    (registered : architecture ∈ Architecture.registered) (profile : BuildProfile)
    (config : Config) :
    scene.Retryable environment esp firmware
      ((environment.assemble architecture profile config).effect scene).2 := by
  rw [BootEnvironment.assemble, effect_bind (by simp)]
  rcases hr : (environment.reset architecture.id).effect scene with ⟨error | ⟨⟩, fresh⟩
  · have hreset := h.retryable_reset apart architecture.id
    rwa [hr] at hreset
  · exact (h.retryable_fill apart registered hr profile config).1

end Resettable

end Scene

end Bootstage
