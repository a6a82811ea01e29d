import Bootstage.Proofs.BootEnvironment.Filling
import Bootstage.Proofs.Workbench.Asking
import Bootstage.Rehearsal

/-!
# What a guest boots from

When a launch asks the emulator to run, the boot environment holds the files of this launch and
nothing else, whatever was there before: the boot loader and the firmware images with the contents
of their sources, and the descriptor of the provenance that has just been read.
-/

namespace Bootstage.Workbench

open Bootstage.Action BootEnvironment

variable {bench : Workbench} {architecture : Architecture} {profile : BuildProfile}
  {before : Scene} {esp firmware : Location}

/-- Removing both directories of the boot environment changes no file that is copied. -/
def SourcesApart (bench : Workbench) (architecture : Architecture) (profile : BuildProfile)
    (before : Scene) (esp firmware : Location) : Prop :=
  ∀ source ∈ bench.environment.sources architecture profile bench.config,
    ((before.tree.erase esp).erase firmware).read before.cwd source.1 =
      before.tree.read before.cwd source.1

/-- What the system partition holds once the descriptor has been written. -/
def espStaged (architecture : Architecture) (images : Images) (provenance : Provenance) :
    List (Location × Entry) :=
  ([(architecture.descriptorFile : Name)],
    .file (Text.encode (Descriptor.render architecture provenance))) ::
      espFilled architecture images

/-- The contents before a launch are those that are copied. -/
theorem SourcesApart.reads {fresh filled : Scene} {images others : Images}
    (h : bench.SourcesApart architecture profile before esp firmware)
    (hfresh : bench.environment.Fresh esp firmware before fresh)
    (hkept : ∀ cwd path content, fresh.tree.read cwd path = .ok content →
      filled.tree.read cwd path = .ok content)
    (hcwd : filled.cwd = fresh.cwd)
    (hr : bench.config.Reads architecture profile filled.tree filled.cwd images)
    (ho : bench.config.Reads architecture profile before.tree before.cwd others) :
    others = images := by
  have hearlier : bench.config.Reads architecture profile filled.tree before.cwd images := by
    have hn : ∀ location, filled.cwd = some location → before.cwd = some location :=
      fun location hl => hfresh.cwd_of_cwd location (hcwd ▸ hl)
    exact ⟨Tree.read_of_read hn hr.code, Tree.read_of_read hn hr.vars,
      Tree.read_of_read hn hr.loader⟩
  have hsame : ∀ source ∈ bench.environment.sources architecture profile bench.config,
      ∀ content, before.tree.read before.cwd source.1 = .ok content →
        filled.tree.read before.cwd source.1 = .ok content := by
    intro source hs content hc
    refine hkept _ _ _ (hfresh.waysKept.read (fun place => hfresh.kept place _) ?_)
    rw [h source hs, hc]
  refine Config.Reads.eq ⟨?_, ?_, ?_⟩ hearlier
  · exact hsame _ List.mem_cons_self _ ho.code
  · exact hsame _ (List.mem_cons_of_mem _ List.mem_cons_self) _ ho.vars
  · exact hsame _ (List.mem_cons_of_mem _ (List.mem_cons_of_mem _ List.mem_cons_self)) _ ho.loader

/-- What is staged when everything has gone well. -/
theorem holding_of_staged {code vars : Name} {fresh filled : Scene} {provenance : Provenance}
    {written : Tree} (names : architecture.FileNames code vars)
    (plain : bench.environment.espDir.Plain ∧ bench.environment.firmwareDir.Plain)
    (apart : ¬ esp <+: firmware ∧ ¬ firmware <+: esp)
    (hfresh : bench.environment.Fresh esp firmware before fresh)
    (hfill : (bench.environment.fill architecture profile bench.config).effect fresh =
      (.ok (), filled))
    (hwrite : bench.writeDescriptor architecture provenance (bench.asked filled) = .ok written) :
    ∃ images, bench.config.Reads architecture profile filled.tree filled.cwd images ∧
      (∀ cwd path content, fresh.tree.read cwd path = .ok content →
        filled.tree.read cwd path = .ok content) ∧
      filled.cwd = fresh.cwd ∧ filled.calls = before.calls ∧
      filled.tree.HoldsExactly esp (espFilled architecture images) ∧
      filled.tree.HoldsExactly firmware (firmwareFilled code vars images) ∧
      (filled.tree.SameAt (bench.asked filled).tree esp →
        filled.tree.SameAt (bench.asked filled).tree firmware →
          written.HoldsExactly esp (espStaged architecture images provenance) ∧
            written.HoldsExactly firmware (firmwareFilled code vars images)) := by
  obtain ⟨hgains, _, _, hholds, hnew, hdone⟩ :=
    (hfresh.holding plain apart).exists_filled names hfill
  obtain ⟨images, hreads, rfl, rfl⟩ := hdone rfl
  refine ⟨images, hreads, hgains.read, hgains.cwd, hgains.calls.trans hfresh.calls,
    hholds.espHolds, hholds.firmwareHolds, fun hesp hfirmware => ?_⟩
  have hasked : bench.environment.Holding esp firmware (bench.asked filled) _ _ :=
    hholds.after hesp hfirmware
  have hwritten := hasked.write_descriptor
    (names.isName architecture.descriptorFile (by simp)) hnew hwrite
  have hstaged := hasked.gain_esp hwritten
  exact ⟨hstaged.espHolds, hstaged.firmwareHolds⟩

/-- What the emulator finds when it starts: `filled` is the scene in which the provenance is asked
for, and `ready` the one on which the emulator starts. -/
structure Contents (bench : Workbench) (architecture : Architecture) (profile : BuildProfile)
    (esp firmware : Location) (before filled ready : Scene) (provenance : Provenance)
    (images : Images) (code vars : Name) : Prop where
  /-- The copy of the firmware code has the name of the image. -/
  codeName : (⟨architecture.firmwareCode⟩ : Path).fileName? = some code
  /-- So does the copy of the variables. -/
  varsName : (⟨architecture.firmwareVars⟩ : Path).fileName? = some vars
  /-- No one is called before the directories are filled. -/
  uncalled : filled.calls = before.calls
  /-- The provenance is the one that is read in this launch. -/
  known : (bench.provenance.react filled).outcome = .ok provenance
  /-- It is read once, and no one else is called. -/
  calls : ready.calls = before.calls ++ .provenance :: (bench.provenance.react filled).starts
  /-- The files that are copied have these contents. -/
  reads : bench.config.Reads architecture profile filled.tree filled.cwd images
  /-- They have had them from the start. -/
  unchanged : ∀ others, bench.config.Reads architecture profile before.tree before.cwd others →
    others = images
  /-- The system partition holds the boot loader and nothing else. -/
  espHolds : filled.tree.HoldsExactly esp (espFilled architecture images)
  /-- The other directory holds the firmware images and nothing else. -/
  firmwareHolds : filled.tree.HoldsExactly firmware (firmwareFilled code vars images)
  /-- The descriptor is added to what the reading of the provenance leaves alone. -/
  staged : filled.tree.SameAt (bench.asked filled).tree esp →
    filled.tree.SameAt (bench.asked filled).tree firmware →
      ready.tree.HoldsExactly esp (espStaged architecture images provenance) ∧
        ready.tree.HoldsExactly firmware (firmwareFilled code vars images)

/-- Whenever a launch hands an order to the emulator, on whatever scene, the boot environment holds
exactly what this launch has staged there. -/
theorem contents_when_started {requested : Bool} {machine : Machine} {order : Launch}
    {ready : Scene} (registered : architecture ∈ Architecture.registered)
    (hesp : machine.tree.Clearable machine.cwd bench.environment.espDir esp)
    (hfirmware : machine.tree.Clearable machine.cwd bench.environment.firmwareDir firmware)
    (apart : ¬ esp <+: firmware ∧ ¬ firmware <+: esp)
    (sources : bench.SourcesApart architecture profile machine.scene esp firmware)
    (asks : bench.AsksOn architecture requested profile machine order ready) :
    ((bench.launch architecture requested profile).run machine).2.scene =
        bench.played order ready ∧
      ∃ filled provenance images code vars,
        bench.Contents architecture profile esp firmware machine.scene filled ready provenance
          images code vars := by
  have starts := asksOn_iff.mp asks
  obtain ⟨-, -, hstage, -⟩ := id starts
  constructor
  · exact starts.run_launch.2
  · obtain ⟨code, vars, names⟩ := Architecture.exists_fileNames registered
    have hcourse := bench.staged architecture profile machine.scene
    rw [hstage] at hcourse
    cases hcourse with
    | complete hreset hfill hknown hwrite =>
      next fresh filled provenance written =>
      have hfresh : bench.environment.Fresh esp firmware machine.scene fresh :=
        fresh_of_reset hesp hfirmware hreset
      obtain ⟨images, hreads, hkept, hcwd, hcalls, he, hf, hafter⟩ :=
        holding_of_staged names ⟨hesp.plain, hfirmware.plain⟩ apart hfresh hfill hwrite
      have hready : (bench.asked filled).calls =
          machine.calls ++ .provenance :: (bench.provenance.react filled).starts := by
        rw [asked, Scene.calls_after, hcalls]
        rfl
      exact ⟨filled, provenance, images, code, vars, names.codeName, names.varsName, hcalls,
        hknown, hready, hreads, fun others ho => sources.reads hfresh hkept hcwd hreads ho, he, hf,
        hafter⟩

/-! ### A small workspace -/

/-- The files of a small workspace with a stale boot environment. -/
def sampleTree : Tree :=
  Tree.empty.putAll [(["w"], .directory), (["w", "edk2-uefi"], .directory),
    (["w", "edk2-uefi", "ovmf-x64-4m"], .directory),
    (["w", "edk2-uefi", "ovmf-x64-4m", "OVMF_CODE.fd"], .file [1]),
    (["w", "edk2-uefi", "ovmf-x64-4m", "OVMF_VARS.fd"], .file [2]),
    (["w", "target"], .directory), (["w", "target", "x86_64-unknown-uefi"], .directory),
    (["w", "target", "x86_64-unknown-uefi", "debug"], .directory),
    (["w", "target", "x86_64-unknown-uefi", "debug", "boot_loader.efi"], .file [3]),
    (["w", "esp"], .directory), (["w", "esp", "stale"], .file [4]),
    (["w", "ovmf"], .directory), (["w", "ovmf", "stale"], .link "/w")]

/-- The provenance of the small workspace. -/
def sampleProvenance : Provenance where
  revision := "4f2a"
  branch := "main"
  dirty := false
  date := "today"

/-- A workbench for the small workspace. -/
def sample : Workbench where
  config := Config.defaults ⟨"/w"⟩
  host := ⟨"x86_64", "linux"⟩
  toolchain := Rehearsal.toolchain {} (Config.defaults ⟨"/w"⟩)
  emulator := Rehearsal.emulator (.ok (.exited 0))
  provenance := Rehearsal.provenance (.ok sampleProvenance)

/-- A machine with the small workspace. -/
def sampleMachine : Machine where
  tree := sampleTree
  cwd := some ["w"]

theorem clearable_sampleEsp :
    sampleMachine.tree.Clearable sampleMachine.cwd sample.environment.espDir ["w", "esp"] := by
  decide +kernel

theorem clearable_sampleFirmware :
    sampleMachine.tree.Clearable sampleMachine.cwd sample.environment.firmwareDir
      ["w", "ovmf"] := by
  decide +kernel

theorem reads_sample :
    sample.config.Reads .x86_64 .debug sampleMachine.tree sampleMachine.cwd ⟨[1], [2], [3]⟩ :=
  ⟨by decide +kernel, by decide +kernel, by decide +kernel⟩

theorem sourcesApart_sample :
    sample.SourcesApart .x86_64 .debug sampleMachine.scene ["w", "esp"] ["w", "ovmf"] := by
  unfold SourcesApart
  decide +kernel

/-- In the small workspace the emulator starts, and nothing stale is left. -/
theorem contents_when_started_sample :
    ∃ ready, sample.AsksOn .x86_64 false .debug sampleMachine
        (sample.order .x86_64 .emulation) ready ∧
      ready.tree.HoldsExactly ["w", "esp"]
        (espStaged .x86_64 ⟨[1], [2], [3]⟩ sampleProvenance) ∧
      ready.tree.HoldsExactly ["w", "ovmf"]
        (firmwareFilled "OVMF_CODE.fd" "OVMF_VARS.fd" ⟨[1], [2], [3]⟩) := by
  have hok : ((sample.stage .x86_64 .debug).effect sampleMachine.scene).1 = .ok () := by
    decide +kernel
  rcases hstage : (sample.stage .x86_64 .debug).effect sampleMachine.scene with ⟨outcome, ready⟩
  rw [hstage] at hok
  have asks : sample.AsksOn .x86_64 false .debug sampleMachine
      (sample.order .x86_64 .emulation) ready :=
    asksOn_iff.mpr ⟨.emulation, rfl, hstage.trans (congrArg (·, ready) hok), rfl⟩
  obtain ⟨-, filled, provenance, images, code, vars, h⟩ :=
    contents_when_started (by decide) clearable_sampleEsp clearable_sampleFirmware (by decide)
      sourcesApart_sample asks
  obtain rfl := h.unchanged _ reads_sample
  obtain rfl : sampleProvenance = provenance := Except.ok.inj h.known
  have hcode : (⟨Architecture.x86_64.firmwareCode⟩ : Path).fileName? =
      some (Text.encode "OVMF_CODE.fd") := by
    decide
  have hvars : (⟨Architecture.x86_64.firmwareVars⟩ : Path).fileName? =
      some (Text.encode "OVMF_VARS.fd") := by
    decide
  have hc : code = "OVMF_CODE.fd" := Option.some.inj (h.codeName.symm.trans hcode)
  have hv : vars = "OVMF_VARS.fd" := Option.some.inj (h.varsName.symm.trans hvars)
  have hs := h.staged (fun _ _ => rfl) fun _ _ => rfl
  rw [hc, hv] at hs
  exact ⟨ready, asks, hs⟩

end Bootstage.Workbench
