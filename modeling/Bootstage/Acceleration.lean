import Bootstage.Error

/-!
# Acceleration

A guest can be accelerated only on a host of its own architecture, and by the accelerator of the
host's operating system. Without a request nothing is asked of the host. On a host without a known
accelerator a request is granted by emulation.
-/

namespace Bootstage

/-- The machine on which the emulator is to run. -/
structure Host where
  /-- The host's architecture under any of its names. -/
  architecture : String
  /-- The name of the host's operating system. -/
  system : String
  deriving DecidableEq, Repr, Inhabited

/-- By what means the guest's processor runs. -/
inductive Acceleration
  /-- The processor is emulated. -/
  | emulation
  /-- The virtual machines of Linux. -/
  | kvm
  /-- The virtual machines of macOS. -/
  | hvf
  deriving DecidableEq, Repr, Inhabited

namespace Acceleration

/-- The emulator arguments that turn the accelerator on. -/
def args : Acceleration → List String
  | emulation => []
  | kvm => ["-enable-kvm"]
  | hvf => ["-accel", "hvf"]

/-- Whether the guest runs on the host's own processor. -/
def isEnabled : Acceleration → Bool
  | emulation => false
  | _ => true

/-- The accelerator as it is shown. -/
def label : Acceleration → String
  | emulation => "None"
  | kvm => "Kvm"
  | hvf => "Hvf"

/-- The accelerator of an operating system, where one is known. -/
def ofSystem? (system : String) : Option Acceleration :=
  let lower := Text.lowerCase system
  if Text.contains "linux" lower then some kvm
  else if Text.contains "darwin" lower || Text.contains "macos" lower then some hvf
  else none

/-- The accelerator with which a guest of the target architecture runs on a host. -/
def resolve (target : String) (requested : Bool) (host : Host) : Except Error Acceleration :=
  let guest := Architecture.normalize target
  let native := Architecture.normalize host.architecture
  if ¬requested then .ok emulation
  else if native ≠ guest then .error (.incompatibleAcceleration native guest)
  else .ok ((ofSystem? host.system).getD emulation)

/-- What is remarked when a request is granted by emulation. -/
def remark? (target : String) (requested : Bool) (host : Host) : Option String :=
  if requested && Architecture.normalize host.architecture = Architecture.normalize target
      && (ofSystem? host.system).isNone then
    some ("No accelerator known for host OS `" ++ host.system ++ "`, running emulated")
  else none

theorem resolve_of_not_requested (target : String) (host : Host) :
    resolve target false host = .ok emulation := by
  simp [resolve]

end Acceleration

end Bootstage
