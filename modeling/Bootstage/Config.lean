import Bootstage.Error
import Bootstage.Config.Manifest

/-!
# Configurations

A configuration says where a workspace keeps what is built and what is staged, and what the guest
is given. It is made of the root of the workspace and of the settings in its manifest: a setting
that is given replaces its default, and the directories of the boot environment are seen from the
root. This is the program as it is built for Linux. There the directory of the build tools has no
default; only on macOS would it be the one of a package manager, if that directory exists.
-/

namespace Bootstage

/-- Where things are in a workspace, and what the guest is given. -/
structure Config where
  /-- The root of the workspace. -/
  workspaceRoot : Path
  /-- The directory of what is built. -/
  targetDir : Path
  /-- The memory of the guest. -/
  memory : String
  /-- The number of cores of the guest. -/
  cores : UInt32
  /-- The directory that stands for the system partition. -/
  espDir : Path
  /-- The directory of the firmware copies. -/
  firmwareDir : Path
  /-- A directory that build tools are looked for in first. -/
  llvmBinDir? : Option Path
  /-- The features with which the kernel is built. -/
  kernelFeatures : List String
  deriving DecidableEq, Repr, Inhabited

namespace Config

/-- The configuration of a workspace that gives no settings. -/
def defaults (root : Path) : Config where
  workspaceRoot := root
  targetDir := root / "target"
  memory := "256M"
  cores := 8
  espDir := root / "esp"
  firmwareDir := root / "ovmf"
  llvmBinDir? := none
  kernelFeatures := []

/-- The configuration of a workspace with the given settings; a guest has one core at least. -/
def ofSettings (root : Path) (settings : Settings) : Except ConfigurationFault Config :=
  let standard := defaults root
  if settings.cores? = some 0 then .error .noCores
  else .ok {
    standard with
    memory := settings.memory?.getD standard.memory
    cores := settings.cores?.getD standard.cores
    espDir := (settings.espDir?.map (root / ⟨·⟩)).getD standard.espDir
    firmwareDir := (settings.firmwareDir?.map (root / ⟨·⟩)).getD standard.firmwareDir
    llvmBinDir? := settings.llvmBinDir?.map fun text : String => ⟨text⟩
    kernelFeatures := settings.kernelFeatures }

/-- The configuration of a workspace with the given manifest. -/
def ofManifest (root : Path) (manifest : String) : Except ConfigurationFault Config :=
  match Manifest.read? manifest with
  | some settings => ofSettings root settings
  | none => .error .malformedManifest

/-- Where a build of the boot loader for a target leaves it. -/
def loaderArtifact (config : Config) (target profileDirectory : String) : Path :=
  config.targetDir / target / profileDirectory / "boot_loader.efi"

/-- Where the boot loader of an architecture is found after a build. -/
def loader (config : Config) (architecture : Architecture) (profile : BuildProfile) : Path :=
  config.loaderArtifact architecture.loaderTarget profile.directoryName

end Config

end Bootstage
