import Bootstage.Proofs.BootEnvironment.Sparing
import Bootstage.Proofs.Workbench.Booting

/-!
# What no clean-up takes away

Any text is accepted for the directories of a boot environment, and both are removed wherever they
are. So the manifest and the firmware images of a workspace outlast a reset and a clean-up if no
place on the way to them is removed, and nothing keeps a manifest from naming the workspace itself.
-/

namespace Bootstage

namespace Config

/-- The files that a workspace starts from: its manifest and the firmware images. -/
def originals (config : Config) : List Path :=
  config.workspaceRoot / "Cargo.toml" ::
    Architecture.registered.flatMap fun architecture =>
      [config.workspaceRoot / architecture.firmwareCode,
        config.workspaceRoot / architecture.firmwareVars]

end Config

namespace Workbench

open Bootstage.Action BootEnvironment

variable {bench : Workbench}

/-- What a workspace starts from outlasts cleaning up and every reset, whatever comes of them, if
nothing on the way to it is at or below a place from which a directory is removed. -/
theorem originals_outlast {machine : Machine} :
    ∀ path ∈ bench.config.originals, ∀ content,
      machine.tree.read machine.cwd path = .ok content →
      bench.environment.Apart machine.tree machine.cwd path →
      (bench.clean.run machine).2.tree.read (bench.clean.run machine).2.cwd path = .ok content ∧
        ∀ name, ((bench.environment.reset name).run machine).2.tree.read
          ((bench.environment.reset name).run machine).2.cwd path = .ok content := by
  intro path _ content stands apart
  have hapart : bench.environment.Apart machine.scene.tree machine.scene.cwd path := apart
  have houtlasts := read_of_apart hapart stands
  constructor
  · have hclean := (houtlasts "all").1
    rw [← effect_clean, (ignoresConsole_clean _).effect_scene] at hclean
    exact hclean
  · intro name
    have hreset := (houtlasts name).2
    rw [(ignoresConsole_reset _ _).effect_scene] at hreset
    exact hreset

/-- A manifest that gives a text for the directory of the system partition. -/
def manifestWith (text : String) : String :=
  "[workspace]\n[workspace.metadata.corgos]\nesp-dir = \"" ++ text ++ "\"\n"

/-- A workspace with what it starts from, and a directory in which a link leads back to it. -/
def originalMachine : Machine where
  tree := Tree.empty.putAll [(["w"], .directory), (["w", "Cargo.toml"], .file [1]),
    (["w", "edk2-uefi"], .directory), (["w", "edk2-uefi", "ovmf-x64-4m"], .directory),
    (["w", "edk2-uefi", "ovmf-x64-4m", "OVMF_CODE.fd"], .file [2]),
    (["w", "edk2-uefi", "ovmf-x64-4m", "OVMF_VARS.fd"], .file [3]),
    (["w", "edk2-uefi", "aarch64"], .directory),
    (["w", "edk2-uefi", "aarch64", "QEMU_EFI-silent-pflash.raw"], .file [4]),
    (["w", "edk2-uefi", "aarch64", "vars-template-pflash.raw"], .file [5]),
    (["w", "out"], .directory), (["w", "out", "back"], .link "/w")]
  cwd := some ["w"]

/-- A workbench whose system partition has the given path. -/
def partitionAt (path : String) : Workbench :=
  { sample with config := { Config.defaults ⟨"/w"⟩ with espDir := ⟨path⟩ } }

/-- A directory that is named on a detour is removed with the link in it, and the firmware code of
the other architecture is where it was. -/
theorem originals_outlast_detour :
    Config.ofManifest ⟨"/w"⟩ (manifestWith "../w/out") =
        .ok (partitionAt "/w/../w/out").config ∧
      (partitionAt "/w/../w/out").environment.Apart originalMachine.tree originalMachine.cwd
        ⟨"/w/edk2-uefi/aarch64/QEMU_EFI-silent-pflash.raw"⟩ ∧
      (((partitionAt "/w/../w/out").clean.run originalMachine).2.tree.get? ["w", "out"] = none) ∧
      ((partitionAt "/w/../w/out").clean.run originalMachine).2.tree.read
          ((partitionAt "/w/../w/out").clean.run originalMachine).2.cwd
          ⟨"/w/edk2-uefi/aarch64/QEMU_EFI-silent-pflash.raw"⟩ = .ok [4] := by
  have accepted : Config.ofManifest ⟨"/w"⟩ (manifestWith "../w/out") =
      .ok (partitionAt "/w/../w/out").config := by decide +kernel
  have apart : (partitionAt "/w/../w/out").environment.Apart originalMachine.tree
      originalMachine.cwd ⟨"/w/edk2-uefi/aarch64/QEMU_EFI-silent-pflash.raw"⟩ := by
    decide +kernel
  exact ⟨accepted, apart, by decide +kernel,
    (originals_outlast _ (by decide +kernel) [4] (by decide +kernel) apart).1⟩

/-- An empty text names the workspace itself: it is accepted, and cleaning up leaves nothing of what
the workspace starts from, and neither does a reset. -/
theorem workspace_wiped :
    Config.ofManifest ⟨"/w"⟩ (manifestWith "") = .ok (partitionAt "/w/").config ∧
      (∀ path ∈ (partitionAt "/w/").config.originals,
        originalMachine.tree.present originalMachine.cwd path = true) ∧
      ((partitionAt "/w/").clean.run originalMachine).1 = .ok () ∧
      ∀ path ∈ (partitionAt "/w/").config.originals,
        ((partitionAt "/w/").clean.run originalMachine).2.tree.present none path = false ∧
          (((partitionAt "/w/").environment.reset "x86_64").run originalMachine).2.tree.present
            none path = false := by
  refine ⟨?_, ?_, ?_, ?_⟩ <;> decide +kernel

end Workbench

end Bootstage
