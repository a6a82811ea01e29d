import Bootstage.BootEnvironment.Staging

/-!
# Builds and launches

A workbench is a configured workspace with its host and its collaborators. On it architectures are
built, and boot environments are staged and launched. The first failure of a stage ends the whole:
no kernel is built after its boot loader failed, nothing is staged for a launch that cannot be
accelerated as requested, and no emulator starts without a complete boot environment.
-/

namespace Bootstage

/-- The accelerator of a guest on a host. That a request is granted by emulation is remarked. -/
def Host.accelerate (host : Host) (target : String) (requested : Bool) : Action Acceleration := do
  match Acceleration.remark? target requested host with
  | some text => Action.say .verbose text
  | none => pure ()
  Action.ofExcept (Acceleration.resolve target requested host)

/-- A configured workspace with its host and its collaborators. -/
structure Workbench where
  /-- Where things are, and what the guest is given. -/
  config : Config
  /-- The machine on which the emulator is to run. -/
  host : Host
  /-- What builds packages. -/
  toolchain : Toolchain
  /-- What runs guests. -/
  emulator : Emulator
  /-- What knows the state of the sources. -/
  provenance : ProvenanceSource

namespace Workbench

open Bootstage.Action

/-- The boot environment that the configuration places. -/
def environment (bench : Workbench) : BootEnvironment :=
  .ofConfig bench.config

/-- Builds one component of an architecture. -/
def buildComponent (bench : Workbench) (architecture : Architecture) (profile : BuildProfile)
    (component : Component) (request : BuildRequest) : Action Unit := do
  say .standard
    ("Building " ++ component.message ++ " for " ++ request.target ++ " ("
      ++ profile.directoryName ++ ")")
  let status ← engage (.build bench.toolchain.program request) (bench.toolchain.react request)
    (.process bench.toolchain.program)
  if status.success then pure () else fail (.buildFailure architecture.id component status)

/-- Fails unless the boot loader of an architecture is where a build leaves it. -/
def requireLoader (bench : Workbench) (architecture : Architecture) (profile : BuildProfile) :
    Action Unit := do
  let path := bench.config.loader architecture profile
  if ← look fun tree cwd => tree.present cwd path then pure ()
  else fail (.staging architecture.id path
    (.described "boot loader missing after a successful build"))

/-- Builds the boot loader and the kernel of an architecture. -/
def buildOne (bench : Workbench) (profile : BuildProfile) (architecture : Architecture) :
    Action Unit :=
  timed (architecture.id ++ " build") do
    (BuildRequest.ofArchitecture architecture profile bench.config).forM
      fun (component, request) => bench.buildComponent architecture profile component request
    bench.requireLoader architecture profile

/-- Builds architectures in order. -/
def build (bench : Workbench) (architectures : List Architecture) (profile : BuildProfile) :
    Action Unit :=
  architectures.forM (bench.buildOne profile)

/-- Builds every registered architecture. -/
def buildAll (bench : Workbench) (profile : BuildProfile) : Action Unit :=
  bench.build Architecture.registered profile

/-- The accelerator of a launch. -/
def accelerate (bench : Workbench) (architecture : Architecture) (requested : Bool) :
    Action Acceleration :=
  bench.host.accelerate architecture.id requested

/-- Makes the whole boot environment of an architecture anew. -/
def stage (bench : Workbench) (architecture : Architecture) (profile : BuildProfile) :
    Action Unit :=
  timed "staging" do
    say .standard ("Staging " ++ architecture.id ++ " boot environment")
    bench.environment.assemble architecture profile bench.config
    let _ ← bench.environment.describe architecture bench.provenance

/-- Runs the emulator on what is staged. -/
def start (bench : Workbench) (architecture : Architecture) (acceleration : Acceleration) :
    Action Unit := do
  let launch := Launch.compose architecture acceleration bench.config bench.environment
  say .standard
    ("Launching " ++ launch.program ++ " (" ++ acceleration.label ++ " acceleration)")
  let status ← engage (.launch launch) (bench.emulator.react launch) (.process launch.program)
  if status.success then pure () else fail (.launch architecture.id status)

/-- Stages the boot environment of an architecture and runs the emulator on it. -/
def launch (bench : Workbench) (architecture : Architecture) (requested : Bool)
    (profile : BuildProfile) : Action Unit := do
  let acceleration ← bench.accelerate architecture requested
  bench.stage architecture profile
  bench.start architecture acceleration

/-- Builds an architecture unless that is to be skipped, and launches it. A launch that cannot be
accelerated as requested is refused before anything is built. -/
def buildAndRun (bench : Workbench) (architecture : Architecture) (requested : Bool)
    (profile : BuildProfile) (skipBuild : Bool) : Action Unit := do
  let _ ← bench.accelerate architecture requested
  if skipBuild then pure () else bench.build [architecture] profile
  bench.launch architecture requested profile

/-- Removes the directories of the boot environment. -/
def clean (bench : Workbench) : Action Unit :=
  bench.environment.clean

end Workbench

end Bootstage
