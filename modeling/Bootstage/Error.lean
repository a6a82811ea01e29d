import Bootstage.Architecture
import Bootstage.ProcessExit
import Bootstage.SystemError

/-!
# Errors

Every way in which a run can fail, with the one place where it is put into words and the one place
where it is given an exit code. No error has the exit code zero.
-/

namespace Bootstage

/-- The two things that are built for an architecture. -/
inductive Component
  /-- The boot loader that the firmware starts. -/
  | bootLoader
  /-- The kernel that the boot loader starts. -/
  | kernel
  deriving DecidableEq, Repr

/-- The component in words. -/
def Component.message : Component → String
  | bootLoader => "boot loader"
  | kernel => "kernel"

/-- What is wrong with the request or with the configuration of the workspace. -/
inductive ConfigurationFault
  /-- The name belongs to no registered architecture. -/
  | unsupportedArchitecture (name : String)
  /-- The manifest is not the TOML that is expected of it. -/
  | malformedManifest
  /-- The manifest asks for a guest without cores. -/
  | noCores
  /-- The manifest could not be read. -/
  | unreadableManifest (cause : SystemError)
  /-- The working directory could not be determined. -/
  | noWorkingDirectory (cause : SystemError)
  /-- No manifest on the way up belongs to a workspace. -/
  | noWorkspace
  /-- A fault told by others, the outermost remark first. -/
  | reported (remarks : List String)
  deriving DecidableEq, Repr

/-- The fault in words. -/
def ConfigurationFault.message : ConfigurationFault → String
  | unsupportedArchitecture name =>
    let supported := String.intercalate ", " (Architecture.registered.map (·.id))
    "unsupported architecture `" ++ name ++ "` (supported: " ++ supported ++ ")"
  | malformedManifest => "Failed to parse Cargo.toml"
  | noCores => "`cores` must be at least 1"
  | unreadableManifest cause => cause.message
  | noWorkingDirectory cause => "Failed to get current directory: " ++ cause.message
  | noWorkspace => "Could not find workspace root (no Cargo.toml with [workspace] found)"
  | reported remarks => String.intercalate ": " remarks

/-- Why an operation failed. -/
inductive Error
  /-- The request or the configuration of the workspace is at fault. -/
  | configuration (fault : ConfigurationFault)
  /-- Acceleration was requested for a guest of another architecture than the host's. -/
  | incompatibleAcceleration (host target : String)
  /-- A file operation on the way to the boot environment failed at the given path. -/
  | staging (architecture : String) (path : Path) (cause : SystemError)
  /-- A build ended without success. -/
  | buildFailure (architecture : String) (component : Component) (status : ProcessExit)
  /-- The emulator ended without success. -/
  | launch (architecture : String) (status : ProcessExit)
  /-- The state of the sources could not be described. -/
  | provenance (text : String)
  /-- A program could not be started. -/
  | process (program : String) (cause : SystemError)
  deriving DecidableEq, Repr

namespace Error

/-- The error in words. -/
def message : Error → String
  | configuration fault => "configuration: " ++ fault.message
  | incompatibleAcceleration host target =>
    "[" ++ target ++ "] can't enable hardware acceleration for a non-native guest (host is "
      ++ host ++ ")"
  | staging architecture path cause =>
    "[" ++ architecture ++ "] staging " ++ path.shown ++ ": " ++ cause.message
  | buildFailure architecture component status =>
    "[" ++ architecture ++ "] " ++ component.message ++ " build failed (" ++ status.message ++ ")"
  | launch architecture status =>
    "[" ++ architecture ++ "] emulator exited with " ++ status.message
  | provenance text => "provenance: " ++ text
  | process program cause => "failed to run `" ++ program ++ "`: " ++ cause.message

/-- The failure of the system that caused the error, where one did. -/
def cause? : Error → Option SystemError
  | staging _ _ cause => some cause
  | process _ cause => some cause
  | _ => none

/-- The exit code that tells the error; an emulator's own code is passed on where it fits. -/
def exitCode : Error → UInt8
  | configuration _ => 2
  | incompatibleAcceleration _ _ => 3
  | staging _ _ _ => 4
  | buildFailure _ _ _ => 5
  | provenance _ => 6
  | process _ _ => 6
  | launch _ status =>
    match status.code? with
    | some code => if 1 ≤ code ∧ code ≤ 255 then code.toNat.toUInt8 else 1
    | none => 1

end Error

end Bootstage
