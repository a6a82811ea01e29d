import Bootstage.Acceleration
import Bootstage.Command
import Bootstage.BootEnvironment

/-!
# Launches

The command line of the emulator is put together segment by segment. Three of the segments depend
on the accelerator: its own arguments, the processor, and the device through which an emulated
guest ends its run.
-/

namespace Bootstage

/-- The emulator with its arguments and the directory in which its logs are written. -/
structure Launch where
  /-- The emulator. -/
  program : String
  /-- Its arguments. -/
  args : List String
  /-- The directory in which it runs. -/
  workingDir : Path
  deriving DecidableEq, Repr

namespace Launch

/-- The processor of a guest: the host's own, or else the one that is emulated. -/
def processor (architecture : Architecture) (acceleration : Acceleration) : String :=
  if acceleration.isEnabled then "host" else architecture.cpuModel

/-- The device through which a guest ends its run; an accelerated guest has none. -/
def debugExit (architecture : Architecture) (acceleration : Acceleration) : List String :=
  if acceleration.isEnabled then [] else architecture.debugExit

/-- The consoles: the first serial port shares its stream with the monitor, the second and the
firmware are logged. -/
def consoles : List String :=
  ["-chardev", "stdio,id=char0,mux=on,logfile=serial1.log,signal=off",
    "-chardev", "file,id=fwdebug,path=fw.log",
    "-serial", "chardev:char0",
    "-mon", "chardev=char0",
    "-chardev", "file,path=serial2.log,id=char1",
    "-serial", "chardev:char1"]

/-- The drive that shows the directory of the system partition. -/
def espDrive (environment : BootEnvironment) : String :=
  "format=raw,file=fat:rw:" ++ environment.espDir.shown

/-- The drive of the firmware code, which is not written. -/
def codeDrive (architecture : Architecture) (environment : BootEnvironment) : String :=
  "if=pflash,format=raw,file=" ++ (environment.firmwareCopy architecture.firmwareCode).shown
    ++ ",readonly=on"

/-- The drive of the firmware's variables. -/
def varsDrive (architecture : Architecture) (environment : BootEnvironment) : String :=
  "if=pflash,format=raw,file=" ++ (environment.firmwareCopy architecture.firmwareVars).shown

/-- The drives in order. -/
def drives (architecture : Architecture) (environment : BootEnvironment) : List String :=
  ["-drive", espDrive environment, "-drive", codeDrive architecture environment,
    "-drive", varsDrive architecture environment]

/-- The arguments of the emulator. -/
def arguments (architecture : Architecture) (acceleration : Acceleration) (config : Config)
    (environment : BootEnvironment) : List String :=
  ["-nodefaults", "-s", "-machine", architecture.machine]
    ++ acceleration.args
    ++ ["-cpu", processor architecture acceleration]
    ++ ["-m", config.memory, "-smp", toString config.cores.toNat]
    ++ debugExit architecture acceleration
    ++ consoles
    ++ drives architecture environment
    ++ ["-nographic"]

/-- The launch of an architecture from a boot environment. -/
def compose (architecture : Architecture) (acceleration : Acceleration) (config : Config)
    (environment : BootEnvironment) : Launch where
  program := architecture.emulator
  args := arguments architecture acceleration config environment
  workingDir := config.workspaceRoot

/-- The launch as it would be typed. -/
def text (launch : Launch) : String :=
  commandLine launch.program launch.args

/-- The command that carries the launch out. -/
def command (launch : Launch) : Command where
  program := launch.program
  args := launch.args
  workingDir := launch.workingDir

end Launch

end Bootstage
