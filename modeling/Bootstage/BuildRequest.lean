import Bootstage.Command
import Bootstage.Config
import Bootstage.SearchPath

/-!
# Build requests

One request builds one package for one target. An architecture takes two of them: the boot loader
for the target of the firmware and the kernel for the bare machine, in this order.
-/

namespace Bootstage

/-- The build of one package for one target. -/
structure BuildRequest where
  /-- The target that is built for. -/
  target : String
  /-- The package that is built. -/
  package : String
  /-- The features that are turned on. -/
  features : List String
  /-- Whether a release is built. -/
  release : Bool
  deriving DecidableEq, Repr

namespace BuildRequest

/-- The program that builds. -/
def program : String := "cargo"

/-- The arguments of the building program; without features none are mentioned. -/
def args (request : BuildRequest) : List String :=
  ["build", "-p", request.package, "--target", request.target]
    ++ (if request.features.isEmpty then [] else ["--features", ",".intercalate request.features])
    ++ (if request.release then ["--release"] else [])

/-- The variables that a build is given: the search path with the directory of the configuration in
front, where there is one that can be listed. -/
def environment (config : Config) (searchPath? : Option Text.Bytes) :
    List (String × Text.Bytes) :=
  match config.llvmBinDir? with
  | none => []
  | some directory =>
    match SearchPath.withFirst? directory (searchPath?.getD []) with
    | none => []
    | some searchPath => [("PATH", searchPath)]

/-- The command that carries the request out, given the search path of the parent. -/
def command (request : BuildRequest) (config : Config) (searchPath? : Option Text.Bytes) :
    Command where
  program := program
  args := request.args
  workingDir := config.workspaceRoot
  environment := environment config searchPath?

/-- The build of the boot loader of an architecture. -/
def loader (architecture : Architecture) (profile : BuildProfile) : BuildRequest where
  target := architecture.loaderTarget
  package := "boot_loader"
  features := []
  release := profile.isRelease

/-- The build of the kernel of an architecture. -/
def kernel (architecture : Architecture) (profile : BuildProfile) (config : Config) :
    BuildRequest where
  target := architecture.kernelTarget
  package := "kernel_start"
  features := config.kernelFeatures
  release := profile.isRelease

/-- The requests of an architecture with what each of them builds, in order. -/
def ofArchitecture (architecture : Architecture) (profile : BuildProfile) (config : Config) :
    List (Component × BuildRequest) :=
  [(.bootLoader, loader architecture profile), (.kernel, kernel architecture profile config)]

end BuildRequest

end Bootstage
