import Bootstage.Config

/-!
# Boot environments

The boot environment of a guest consists of two directories: one stands for the system partition,
the other holds copies of the firmware images. This module says where everything in them has its
place.
-/

namespace Bootstage

/-- The two directories of a boot environment. -/
structure BootEnvironment where
  /-- The directory that stands for the system partition. -/
  espDir : Path
  /-- The directory of the firmware copies. -/
  firmwareDir : Path
  deriving DecidableEq, Repr

namespace BootEnvironment

/-- The directories that a configuration names. -/
def ofConfig (config : Config) : BootEnvironment :=
  ⟨config.espDir, config.firmwareDir⟩

/-- Both directories, in the order in which they are removed. -/
def directories (environment : BootEnvironment) : List Path :=
  [environment.espDir, environment.firmwareDir]

/-- The directory in which the firmware looks for a boot loader. -/
def bootDir (environment : BootEnvironment) : Path :=
  environment.espDir / "efi" / "boot"

/-- The copy of a firmware image, which keeps the name of the image. -/
def firmwareCopy (environment : BootEnvironment) (image : String) : Path :=
  environment.firmwareDir / (⟨(⟨image⟩ : Path).fileName?.getD image⟩ : Path)

/-- The place of the boot loader of an architecture. -/
def bootFile (environment : BootEnvironment) (architecture : Architecture) : Path :=
  environment.bootDir / architecture.bootFile

/-- The place of the boot descriptor of an architecture. -/
def descriptorFile (environment : BootEnvironment) (architecture : Architecture) : Path :=
  environment.espDir / architecture.descriptorFile

end BootEnvironment

end Bootstage
