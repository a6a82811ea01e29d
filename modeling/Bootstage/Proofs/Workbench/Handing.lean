import Mathlib.Data.Prod.Basic
import Bootstage.Proofs.BootEnvironment.Carrying
import Bootstage.Proofs.Workbench.Booting
import Bootstage.Proofs.Workbench.Delivering
import Bootstage.Proofs.Workbench.Running

/-!
# From the toolchain to the guest

What a guest boots is what has been built for it in the same run. The toolchain, the look for the
boot loader after a build and the copy into the boot environment each make up the place of the boot
loader for themselves, and they agree. Neither the calls for other targets nor the reset in between
put anything else in its place; if the reset takes it away, no guest is started.
-/

namespace Bootstage.Workbench

open Bootstage.Action BootEnvironment

variable {bench : Workbench} {architecture : Architecture} {profile : BuildProfile}
  {target esp firmware : Location} {content : Text.Bytes}

/-- Where both directories of a boot environment have places of their own, which may hold anything
and lie to each other in any way. -/
structure Settled (bench : Workbench) (scene : Scene) (esp firmware : Location) : Prop where
  /-- The places. -/
  placed : scene.Placed bench.environment esp firmware
  /-- Neither is the root. -/
  belowRoot : esp ≠ [] ∧ firmware ≠ []

/-- After a reset of such directories no link stands where a file is to be put. -/
theorem Settled.linkFree {scene fresh : Scene} (h : bench.Settled scene esp firmware)
    (registered : architecture ∈ Architecture.registered) {name : String}
    (hreset : (bench.environment.reset name).effect scene = (.ok (), fresh)) :
    bench.environment.LinkFree architecture fresh.tree fresh.cwd :=
  (fresh_of_reset_of_placed h.placed h.belowRoot.1 h.belowRoot.2 hreset).linkFree
    ⟨h.placed.esp.plain h.belowRoot.1, h.placed.firmware.plain h.belowRoot.2⟩ registered

/-! ### After a build -/

/-- The boot loader that a build has left for an architecture, and what becomes of it when the boot
environment is made. -/
structure Delivered (bench : Workbench) (profile : BuildProfile)
    (architectures : List Architecture) (target : Location) (before left : Machine)
    (architecture : Architecture) (content : Text.Bytes) : Prop where
  /-- It is what the last call for its target has made. -/
  latest : bench.Latest profile architectures target before.scene left.scene architecture content
  /-- The configuration finds it. -/
  found : left.tree.read left.cwd (bench.config.loader architecture profile) = .ok content
  /-- If the two directories are not on the way to it, then whatever comes of making the boot
  environment, it is found, and no copy fails for want of it. -/
  following :
    bench.environment.Apart left.tree left.cwd (bench.config.loader architecture profile) →
      ∀ outcome filled,
        (bench.environment.assemble architecture profile bench.config).run left =
            (outcome, filled) →
          (∃ kept, filled.tree.read filled.cwd (bench.config.loader architecture profile) =
              .ok kept) ∧
            ∀ error, outcome = .error error →
              ((bench.environment.reset architecture.id).run left).1 = .error error ∨
                ∃ source target cause,
                  (source, target) ∈ bench.environment.sources architecture profile bench.config ∧
                    error = .staging architecture.id source cause ∧
                    (source = bench.config.loader architecture profile →
                      filled.tree.locateWritable filled.cwd target = .error cause)

/-- A build that succeeds delivers the boot loader of each of its architectures. -/
theorem exists_delivered {architectures : List Architecture} {machine left : Machine}
    (registered : ∀ architecture ∈ architectures, architecture ∈ Architecture.registered)
    (conforms : bench.ConformsAlong target machine.scene (bench.plan profile architectures))
    (built : (bench.build architectures profile).run machine = (.ok (), left))
    (ha : architecture ∈ architectures) :
    ∃ content, bench.Delivered profile architectures target machine left architecture content := by
  have hbuild := (ignoresConsole_build _ _ _).effect_of_run built
  obtain ⟨content, hlatest⟩ := exists_latest registered conforms hbuild ha
  have hread := hlatest.left.read
  rw [BuildRequest.loaderArtifact_loader] at hread
  refine ⟨content, hlatest, hread, fun apart outcome filled hassemble => ?_⟩
  have heffect := (ignoresConsole_assemble _ _ _ _).effect_of_run hassemble
  have hreset := (ignoresConsole_reset bench.environment architecture.id).effect_scene left
  have hmade := exists_read_of_assemble apart hread heffect
  rw [hreset] at hmade
  exact hmade

/-! ### Up to the emulator -/

/-- A run with a build comes to ask the emulator to run an order: the build has left one machine,
and what has then been staged is ready. -/
def Boots (bench : Workbench) (architecture : Architecture) (requested : Bool)
    (profile : BuildProfile) (before left : Machine) (order : Launch) (ready : Scene) : Prop :=
  (bench.build [architecture] profile).run before = (.ok (), left) ∧
    bench.Starts architecture requested profile left.scene order ready

/-- What the emulator finds when it starts in a run with a build: `fresh` is what the reset leaves,
`filled` is the scene in which the provenance is asked for, and `ready` the one on which the
emulator starts. -/
structure Booted (bench : Workbench) (architecture : Architecture) (profile : BuildProfile)
    (target : Location) (before left : Machine) (fresh filled ready : Scene)
    (content : Text.Bytes) : Prop where
  /-- The first call of the run has made the boot loader. -/
  made : (bench.built before.scene (loaderStep architecture profile)).Delivers bench.config target
    (.loader architecture profile) content
  /-- The directories are reset on what the build has left, -/
  reset : (bench.environment.reset architecture.id).effect left.scene = (.ok (), fresh)
  /-- and filled. -/
  fill : (bench.environment.fill architecture profile bench.config).effect fresh = (.ok (), filled)
  /-- If the reset has left no link in the way, the boot environment holds what has been made, -/
  staged : bench.environment.LinkFree architecture fresh.tree fresh.cwd →
    filled.tree.read filled.cwd (bench.environment.bootFile architecture) = .ok content
  /-- and still does when the emulator starts, if asking for the provenance changes no file. -/
  ready : bench.environment.LinkFree architecture fresh.tree fresh.cwd →
    (bench.provenance.react filled).tree = filled.tree →
      ready.tree.read ready.cwd (bench.environment.bootFile architecture) = .ok content
  /-- None is left where the directories have places of their own. -/
  free : ∀ esp firmware, bench.Settled left.scene esp firmware →
    bench.environment.LinkFree architecture fresh.tree fresh.cwd

/-- The first of the two calls for one architecture is the last for the target of its boot
loader. -/
theorem Latest.made_first {before left : Scene}
    (h : bench.Latest profile [architecture] target before left architecture content) :
    (bench.built before (loaderStep architecture profile)).Delivers bench.config target
      (.loader architecture profile) content := by
  obtain ⟨front, rest, hplan, -, hmade⟩ := h.made
  have hcomponents := congrArg (List.map BuildStep.component) hplan
  cases front with
  | nil => exact hmade
  | cons first front =>
    have hkernel : [Component.kernel] =
        front.map BuildStep.component ++ .bootLoader :: rest.map BuildStep.component := by
      simpa [loaderStep] using (List.cons.inj hcomponents).2
    cases front <;> simp at hkernel

/-- A run comes to ask the emulator to run an order: the launch does on what the build has left, or
on what was there if nothing is to be built. -/
def Reaches (bench : Workbench) (architecture : Architecture) (requested : Bool)
    (profile : BuildProfile) (skipBuild : Bool) (before : Scene) (order : Launch) (ready : Scene) :
    Prop :=
  ∃ left, (if skipBuild then left = before
      else (bench.build [architecture] profile).effect before = (.ok (), left)) ∧
    bench.Starts architecture requested profile left order ready

/-- Such a run ends as the emulator has answered. -/
theorem Reaches.effect_buildAndRun {requested skipBuild : Bool} {before ready : Scene}
    {order : Launch}
    (h : bench.Reaches architecture requested profile skipBuild before order ready) :
    (bench.buildAndRun architecture requested profile skipBuild).effect before =
      (verdict architecture order (bench.emulator.react order ready).outcome,
        bench.played order ready) := by
  obtain ⟨left, hleft, starts⟩ := h
  obtain ⟨acceleration, hgranted, -, -⟩ := id starts
  rw [Workbench.effect_buildAndRun, hgranted]
  cases skipBuild with
  | true =>
    obtain rfl : left = before := hleft
    exact starts.effect_launch_eq
  | false =>
    have hbuilt : (bench.build [architecture] profile).effect before = (.ok (), left) := hleft
    simp only [hbuilt, Bool.false_eq_true, if_false]
    exact starts.effect_launch_eq

/-- A run that boots what it has built reaches the emulator. -/
theorem Boots.reaches {requested : Bool} {machine left : Machine} {order : Launch} {ready : Scene}
    (h : bench.Boots architecture requested profile machine left order ready) :
    bench.Reaches architecture requested profile false machine.scene order ready :=
  ⟨left.scene, (ignoresConsole_build _ _ _).effect_of_run h.1, h.2⟩

/-- A run with a build leaves what the emulator has made of the scene. -/
theorem Boots.scene_buildAndRun {requested : Bool} {machine left : Machine} {order : Launch}
    {ready : Scene} (h : bench.Boots architecture requested profile machine left order ready) :
    ((bench.buildAndRun architecture requested profile false).run machine).2.scene =
      bench.played order ready :=
  ((bench.ignoresConsole_buildAndRun architecture profile requested false).run_of_effect
    h.reaches.effect_buildAndRun).2

/-- Whatever the reset does, the emulator is not reached without the boot loader of this run. -/
theorem exists_booted {requested : Bool} {machine left : Machine} {order : Launch} {ready : Scene}
    (registered : architecture ∈ Architecture.registered)
    (conforms : bench.ConformsAlong target machine.scene (bench.plan profile [architecture]))
    (boots : bench.Boots architecture requested profile machine left order ready) :
    ∃ fresh filled content,
      bench.Booted architecture profile target machine left fresh filled ready content := by
  obtain ⟨hbuilt, acceleration, -, hstage, -⟩ := boots
  obtain ⟨content, hdelivered⟩ :=
    exists_delivered (by simpa using registered) conforms hbuilt List.mem_cons_self
  have hleft := hdelivered.latest.left
  have hleads := hleft.leads
  have hdirect := hleft.direct
  rw [BuildRequest.loaderArtifact_loader] at hleads hdirect
  have hcourse := bench.staged architecture profile left.scene
  rw [hstage] at hcourse
  cases hcourse with
  | complete hreset hfill hknown hwrite =>
    next fresh filled provenance written =>
    have hcarried := fun free => exists_carried registered (by simp [BuildRequest.loaderSite])
      hdirect hleads hleft.get?_loaderSite hreset free hfill
    refine ⟨fresh, filled, content, hdelivered.latest.made_first, hreset, hfill, ?staged, ?ready,
      fun esp firmware settled => settled.linkFree registered hreset⟩
    case staged =>
      intro free
      obtain ⟨place, hplace⟩ := hcarried free
      exact hplace.read
    case ready =>
      intro free quiet
      obtain ⟨place, hplace⟩ := hcarried free
      have hcwd : (bench.asked filled).cwd = filled.cwd := by
        show (bench.provenance.react filled).tree.held filled.cwd = filled.cwd
        rw [quiet, hplace.held]
      have htree : (bench.asked filled).tree = filled.tree := quiet
      rw [writeDescriptor, htree, hcwd] at hwrite
      have hwritten := (hplace.write registered hwrite).read
      rw [← hcwd] at hwritten
      exact hwritten

/-- What is booted is what has just been built. A build that succeeds delivers for each architecture
what the last call for its target has made, and making a boot environment that lies apart from it
does not fail for want of it. When a run with a build comes to ask the emulator, the boot
environment holds what the first call of this run has made, if no link is left in the way of the
files. -/
theorem boots_what_was_built (bench : Workbench) (profile : BuildProfile) (target : Location)
    (machine : Machine) :
    (∀ architectures : List Architecture,
      (∀ architecture ∈ architectures, architecture ∈ Architecture.registered) →
      bench.ConformsAlong target machine.scene (bench.plan profile architectures) →
      ∀ left, (bench.build architectures profile).run machine = (.ok (), left) →
        ∀ architecture ∈ architectures, ∃ content,
          bench.Delivered profile architectures target machine left architecture content) ∧
    ∀ architecture ∈ Architecture.registered,
      bench.ConformsAlong target machine.scene (bench.plan profile [architecture]) →
      ∀ requested left order ready,
        bench.Boots architecture requested profile machine left order ready →
          ((bench.buildAndRun architecture requested profile false).run machine).2.scene =
              bench.played order ready ∧
            ∃ fresh filled content,
              bench.Booted architecture profile target machine left fresh filled ready content :=
  ⟨fun _ registered conforms _ built _ ha => exists_delivered registered conforms built ha,
    fun _ registered conforms _ _ _ _ boots =>
      ⟨boots.scene_buildAndRun, exists_booted registered conforms boots⟩⟩

/-! ### A small workspace -/

/-- A workbench for the small workspace with a firmware directory, whose toolchain replaces a boot
loader that is there. -/
def forge (firmwareDir : String) : Workbench :=
  { sample with
    config := { Config.defaults ⟨"/w"⟩ with firmwareDir := ⟨firmwareDir⟩ }
    toolchain := {
      react := fun request scene => {
        outcome := .ok (.exited 0)
        tree := scene.tree.put ["w", "target", request.target, "debug", "boot_loader.efi"]
          (.file [7]) } } }

/-- The toolchain conforms where it finds the boot loader. -/
theorem conformsAlong_forge {firmwareDir : String} {scene : Scene}
    (delivers : ((forge firmwareDir).built scene (loaderStep .x86_64 .debug)).Delivers
      (forge firmwareDir).config ["w", "target"] (.loader .x86_64 .debug) [7]) :
    (forge firmwareDir).ConformsAlong ["w", "target"] scene
      ((forge firmwareDir).plan .debug [.x86_64]) := by
  intro front step rest hplan
  refine ⟨fun location hl => .inl ?_, fun hcomponent _ => ?_⟩
  · show ((front.foldl (forge firmwareDir).built scene).tree.put _ _).get? location = _
    by_cases ha : (front.foldl (forge firmwareDir).built scene).tree.Accepts
        ["w", "target", step.request.target, "debug", "boot_loader.efi"] (.file [7])
    · rw [Tree.get?_put ha, if_neg]
      rintro rfl
      exact hl ⟨["debug", "boot_loader.efi"], rfl⟩
    · rw [Tree.put_of_not_accepts ha]
  · cases front with
    | nil =>
      obtain rfl := (List.cons.inj hplan).1
      exact ⟨[7], delivers⟩
    | cons first front =>
      have hkernel := (List.cons.inj hplan).2
      cases front with
      | nil =>
        obtain rfl := (List.cons.inj hkernel).1
        contradiction
      | cons second front => simp at hkernel

/-- What the toolchain leaves of a machine. -/
def forged (firmwareDir : String) (machine : Machine) : Machine :=
  (((forge firmwareDir).build [.x86_64] .debug).run machine).2

/-- What has then been staged. -/
def primed (firmwareDir : String) (machine : Machine) : Scene :=
  (((forge firmwareDir).stage .x86_64 .debug).effect (forged firmwareDir machine).scene).2

/-- In the forge a build and a staging that succeed are enough to boot. -/
theorem boots_forge {firmwareDir : String} {machine : Machine}
    (built : (((forge firmwareDir).build [.x86_64] .debug).run machine).1 = .ok ())
    (staged : (((forge firmwareDir).stage .x86_64 .debug).effect
      (forged firmwareDir machine).scene).1 = .ok ()) :
    (forge firmwareDir).Boots .x86_64 false .debug machine (forged firmwareDir machine)
      ((forge firmwareDir).order .x86_64 .emulation) (primed firmwareDir machine) :=
  ⟨Prod.fst_eq_iff.mp built, .emulation, rfl, Prod.fst_eq_iff.mp staged, rfl⟩

/-- In the small workspace an old boot loader is replaced, and the new one is booted. -/
theorem boots_what_was_built_sample :
    sampleMachine.tree.read sampleMachine.cwd ((forge "/w/ovmf").config.loader .x86_64 .debug) =
        .ok [3] ∧
      (forge "/w/ovmf").Boots .x86_64 false .debug sampleMachine (forged "/w/ovmf" sampleMachine)
        ((forge "/w/ovmf").order .x86_64 .emulation) (primed "/w/ovmf" sampleMachine) ∧
      (forged "/w/ovmf" sampleMachine).tree.read (forged "/w/ovmf" sampleMachine).cwd
        ((forge "/w/ovmf").config.loader .x86_64 .debug) = .ok [7] ∧
      (primed "/w/ovmf" sampleMachine).tree.read (primed "/w/ovmf" sampleMachine).cwd
        ((forge "/w/ovmf").environment.bootFile .x86_64) = .ok [7] := by
  have delivers : ((forge "/w/ovmf").built sampleMachine.scene (loaderStep .x86_64 .debug)).Delivers
      (forge "/w/ovmf").config ["w", "target"] (.loader .x86_64 .debug) [7] :=
    .of_straight ⟨by decide +kernel, by decide +kernel, by decide +kernel⟩ (by decide +kernel)
  have boots := @boots_forge "/w/ovmf" sampleMachine (by decide +kernel) (by decide +kernel)
  have settled : (forge "/w/ovmf").Settled (forged "/w/ovmf" sampleMachine).scene
      ["w", "esp"] ["w", "ovmf"] :=
    ⟨⟨by decide +kernel, by decide +kernel⟩, by decide⟩
  obtain ⟨hbuilds, hboots⟩ :=
    boots_what_was_built (forge "/w/ovmf") .debug ["w", "target"] sampleMachine
  obtain ⟨content, hdelivered⟩ := hbuilds [.x86_64] (by decide) (conformsAlong_forge delivers) _
    boots.1 .x86_64 List.mem_cons_self
  obtain rfl : content = [7] :=
    Except.ok.inj (hdelivered.latest.made_first.read.symm.trans delivers.read)
  obtain ⟨-, fresh, filled, content, h⟩ := hboots .x86_64 (by decide) (conformsAlong_forge delivers)
    false _ _ _ boots
  obtain rfl : content = [7] := Except.ok.inj (h.made.read.symm.trans delivers.read)
  exact ⟨by decide +kernel, boots, hdelivered.found, h.ready (h.free _ _ settled) rfl⟩

/-- The small workspace with a link that leads to the boot loader, and a detour to it that is not
there yet. -/
def trapMachine : Machine where
  tree := sampleTree.putAll [(["w", "fw"], .directory),
    (["w", "fw", "OVMF_CODE.fd"], .link "../target/x86_64-unknown-uefi/debug/boot_loader.efi")]
  cwd := some ["w"]

/-- The reset does not see the firmware directory, then creates the detour to it: the firmware is
copied along the old link into the boot loader that has just been built, and is booted. -/
theorem boots_firmware_trap :
    (forge "/w/out/../fw").ConformsAlong ["w", "target"] trapMachine.scene
        ((forge "/w/out/../fw").plan .debug [.x86_64]) ∧
      ((forge "/w/out/../fw").built trapMachine.scene (loaderStep .x86_64 .debug)).Delivers
        (forge "/w/out/../fw").config ["w", "target"] (.loader .x86_64 .debug) [7] ∧
      (forge "/w/out/../fw").Boots .x86_64 false .debug trapMachine
        (forged "/w/out/../fw" trapMachine) ((forge "/w/out/../fw").order .x86_64 .emulation)
        (primed "/w/out/../fw" trapMachine) ∧
      (primed "/w/out/../fw" trapMachine).tree.read (primed "/w/out/../fw" trapMachine).cwd
        ((forge "/w/out/../fw").environment.bootFile .x86_64) = .ok [1] := by
  have delivers : ((forge "/w/out/../fw").built trapMachine.scene
      (loaderStep .x86_64 .debug)).Delivers (forge "/w/out/../fw").config ["w", "target"]
        (.loader .x86_64 .debug) [7] :=
    .of_straight ⟨by decide +kernel, by decide +kernel, by decide +kernel⟩ (by decide +kernel)
  have hready : (((forge "/w/out/../fw").stage .x86_64 .debug).effect
        (forged "/w/out/../fw" trapMachine).scene).1 = .ok () ∧
      (primed "/w/out/../fw" trapMachine).tree.read (primed "/w/out/../fw" trapMachine).cwd
        ((forge "/w/out/../fw").environment.bootFile .x86_64) = .ok [1] := by
    decide +kernel
  exact ⟨conformsAlong_forge delivers, delivers, boots_forge (by decide +kernel) hready.1, hready.2⟩

end Bootstage.Workbench
