import Bootstage.Path
import Bootstage.Text.Separated

/-!
# Architectures

What varies between the supported targets is data: each registered architecture names its
emulator, its firmware images, its boot files and its two build targets. Architectures go by
several names, which are compared without regard to the case of ASCII letters.
-/

namespace Bootstage

/-- What is needed to build for, stage and emulate one target. -/
structure Architecture where
  /-- The name under which the architecture is registered. -/
  id : String
  /-- The system emulator. -/
  emulator : String
  /-- The processor that is emulated when the guest does not run on the host's own. -/
  cpuModel : String
  /-- The machine type that is emulated. -/
  machine : String
  /-- The emulator arguments for the device through which a guest ends its run. -/
  debugExit : List String
  /-- The log device that the boot loader is told to use. -/
  logDevice : String
  /-- The firmware code image, seen from the workspace root. -/
  firmwareCode : String
  /-- The image of the firmware's variables, seen from the workspace root. -/
  firmwareVars : String
  /-- The name under which the firmware looks for a boot loader. -/
  bootFile : String
  /-- The name of the boot descriptor. -/
  descriptorFile : String
  /-- The build target of the boot loader. -/
  loaderTarget : String
  /-- The build target of the kernel. -/
  kernelTarget : String
  deriving DecidableEq, Repr

namespace Architecture

/-- The 64-bit PC. -/
def x86_64 : Architecture where
  id := "x86_64"
  emulator := "qemu-system-x86_64"
  cpuModel := "qemu64"
  machine := "q35"
  debugExit := ["-device", "isa-debug-exit,iobase=0xf4,iosize=0x04"]
  logDevice := "com2"
  firmwareCode := "edk2-uefi/ovmf-x64-4m/OVMF_CODE.fd"
  firmwareVars := "edk2-uefi/ovmf-x64-4m/OVMF_VARS.fd"
  bootFile := "bootx64.efi"
  descriptorFile := "corgos-boot-x86_64.ini"
  loaderTarget := "x86_64-unknown-uefi"
  kernelTarget := "x86_64-unknown-none"

/-- The 64-bit Arm architecture. -/
def aarch64 : Architecture where
  id := "aarch64"
  emulator := "qemu-system-aarch64"
  cpuModel := "cortex-a76"
  machine := "virt"
  debugExit := ["-semihosting"]
  logDevice := "\"pl011@9000000\""
  firmwareCode := "edk2-uefi/aarch64/QEMU_EFI-silent-pflash.raw"
  firmwareVars := "edk2-uefi/aarch64/vars-template-pflash.raw"
  bootFile := "bootaa64.efi"
  descriptorFile := "corgos-boot-aarch64.ini"
  loaderTarget := "aarch64-unknown-uefi"
  kernelTarget := "aarch64-unknown-none"

/-- The registered architectures in the order in which they are built. -/
def registered : List Architecture := [x86_64, aarch64]

/-- The other names of the registered architectures, in lower case. -/
def aliases : List (String × String) :=
  [("amd64", "x86_64"), ("x64", "x86_64"), ("x86-64", "x86_64"), ("arm64", "aarch64")]

/-- The name an architecture is known by here: an alias gives way to the registered name, any other
name is only brought to lower case. -/
def normalize (name : String) : String :=
  let lower := Text.lowerCase name
  (aliases.lookup lower).getD lower

/-- The registered architecture with the given name or alias. -/
def find? (name : String) : Option Architecture :=
  registered.find? (·.id = normalize name)

theorem mem_registered_of_find? {name : String} {architecture : Architecture}
    (h : find? name = some architecture) : architecture ∈ registered :=
  List.mem_of_find?_eq_some h

theorem id_of_find? {name : String} {architecture : Architecture}
    (h : find? name = some architecture) : architecture.id = normalize name := by
  simpa [find?] using List.find?_some h

end Architecture

/-- Whether a build is made for debugging or for release. -/
inductive BuildProfile
  /-- A build with debugging aids. -/
  | debug
  /-- A build for release. -/
  | release
  deriving DecidableEq, Repr, Inhabited

namespace BuildProfile

/-- The profile that a release flag asks for. -/
def ofRelease (release : Bool) : BuildProfile :=
  if release then .release else .debug

/-- Whether this is the release profile. -/
def isRelease : BuildProfile → Bool
  | debug => false
  | release => true

/-- The name of the directory that holds what is built in this profile. -/
def directoryName : BuildProfile → String
  | debug => "debug"
  | release => "release"

end BuildProfile

end Bootstage
