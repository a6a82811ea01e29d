import Bootstage.BootEnvironment.Descriptor
import Bootstage.Machine

/-!
# Staging a boot environment

The boot environment is made anew for every launch: both directories are removed, the empty layout
is created, and the firmware images and the boot loader are copied into it. The boot descriptor is
written last. A failure names the path that it is about, and for a copy that is the source.
-/

namespace Bootstage.BootEnvironment

open Bootstage.Action

/-- Removes a directory that is there, and says so before. -/
def remove (architecture : String) (directory : Path) : Action Unit := do
  if ← look fun tree cwd => tree.present cwd directory then
    say .verbose ("  removing " ++ directory.shown)
    onFiles (fun tree cwd => tree.removeAll cwd directory) (.staging architecture directory)
  else pure ()

/-- Creates a directory with those above it. -/
def create (architecture : String) (directory : Path) : Action Unit :=
  onFiles (fun tree cwd => tree.createDirectory cwd directory) (.staging architecture directory)

/-- Copies a file, and says so before. -/
def copy (architecture : String) (source target : Path) : Action Unit := do
  say .verbose ("  " ++ source.shown ++ " -> " ++ target.shown)
  onFilesAtOnce (fun tree cwd => tree.copy cwd source target) (.staging architecture source)

/-- Removes what is staged and creates the empty layout. -/
def reset (environment : BootEnvironment) (architecture : String) : Action Unit := do
  remove architecture environment.espDir
  remove architecture environment.firmwareDir
  create architecture environment.bootDir
  create architecture environment.firmwareDir

/-- The files that are copied into a boot environment, each with the place of its copy. -/
def sources (environment : BootEnvironment) (architecture : Architecture) (profile : BuildProfile)
    (config : Config) : List (Path × Path) :=
  [(config.workspaceRoot / architecture.firmwareCode,
      environment.firmwareCopy architecture.firmwareCode),
    (config.workspaceRoot / architecture.firmwareVars,
      environment.firmwareCopy architecture.firmwareVars),
    (config.loader architecture profile, environment.bootFile architecture)]

/-- Copies the firmware images and the boot loader. -/
def fill (environment : BootEnvironment) (architecture : Architecture) (profile : BuildProfile)
    (config : Config) : Action Unit :=
  (environment.sources architecture profile config).forM fun (source, target) =>
    copy architecture.id source target

/-- Makes the boot environment anew, without its descriptor. -/
def assemble (environment : BootEnvironment) (architecture : Architecture)
    (profile : BuildProfile) (config : Config) : Action Unit := do
  environment.reset architecture.id
  environment.fill architecture profile config

/-- Asks for the state of the sources. -/
def readProvenance (source : ProvenanceSource) : Action Provenance :=
  engage .provenance source.react id

/-- Writes the boot descriptor for the present state of the sources, and yields its path. -/
def describe (environment : BootEnvironment) (architecture : Architecture)
    (source : ProvenanceSource) : Action Path := do
  let provenance ← readProvenance source
  let path := environment.descriptorFile architecture
  onFilesAtOnce
    (fun tree cwd => tree.write cwd path (Text.encode (Descriptor.render architecture provenance)))
    (.staging architecture.id path)
  say .verbose ("  wrote " ++ path.shown)
  return path

/-- Removes a directory that is there, for no architecture in particular. -/
def discard (directory : Path) : Action Unit := do
  if ← look fun tree cwd => tree.present cwd directory then
    onFiles (fun tree cwd => tree.removeAll cwd directory) (.staging "all" directory)
  else pure ()

/-- Removes both directories of a boot environment where they are there. -/
def clean (environment : BootEnvironment) : Action Unit := do
  discard environment.espDir
  discard environment.firmwareDir

end Bootstage.BootEnvironment
