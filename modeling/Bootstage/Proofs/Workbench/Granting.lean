import Bootstage.Proofs.Launch.Accelerated
import Bootstage.Proofs.Text.LetterCase
import Bootstage.Proofs.Workbench.Booting
import Bootstage.Proofs.Workbench.Running

/-!
# What an accelerator is granted for

A request for an accelerator is answered by comparing two architectures, and then by the system of
the host. It does not matter under which of its names an architecture is told, nor in which case the
system is written. The comparison has no preference either: where guest and host change places, the
answer stays as it is, but for the places of the two names in a refusal. What is granted decides on
everything in the order that a launch hands to the emulator.
-/

namespace Bootstage

open Bootstage.Action

/-- The error in which the names of host and guest have changed places. -/
def Error.exchanged : Error → Error
  | .incompatibleAcceleration host target => .incompatibleAcceleration target host
  | error => error

/-- The host as a machine of another architecture. -/
def Host.withArchitecture (host : Host) (architecture : String) : Host :=
  { host with architecture }

namespace Acceleration

variable {target other : String} {requested : Bool} {host host' : Host} {error : Error}
  {acceleration : Acceleration}

/-- The accelerator of a system is known under its name in any case. -/
theorem ofSystem?_congr {system system' : String} (h : Text.SameLetters system' system) :
    ofSystem? system' = ofSystem? system := by
  rw [ofSystem?, ofSystem?, Text.sameLetters_iff.mp h]

/-- A request is refused for two architectures that are not the same, and for nothing else. -/
theorem resolve_eq_error_iff :
    resolve target requested host = .error error ↔ requested = true ∧
      Architecture.normalize host.architecture ≠ Architecture.normalize target ∧
        error = .incompatibleAcceleration (Architecture.normalize host.architecture)
          (Architecture.normalize target) := by
  constructor
  · exact incompatible_of_resolve
  · rintro ⟨rfl, hforeign, rfl⟩
    simp [resolve, hforeign]

/-- What is granted depends on the system alone, once the architectures are the same. -/
theorem resolve_eq_ok_iff :
    resolve target requested host = .ok acceleration ↔
      if requested then
        Architecture.normalize host.architecture = Architecture.normalize target ∧
          acceleration = (ofSystem? host.system).getD emulation
      else acceleration = emulation := by
  cases requested with
  | false => simp [resolve, eq_comm]
  | true =>
    by_cases hnative : Architecture.normalize host.architecture = Architecture.normalize target
    · simp [resolve, hnative, eq_comm]
    · simp [resolve, hnative]

/-- Other names of the same architectures and of the same system get the same answer. -/
theorem resolve_congr (hguest : Architecture.normalize other = Architecture.normalize target)
    (hhost : Architecture.normalize host'.architecture = Architecture.normalize host.architecture)
    (hsystem : Text.SameLetters host'.system host.system) :
    resolve other requested host' = resolve target requested host := by
  rw [resolve, resolve, hguest, hhost, ofSystem?_congr hsystem]

/-- Guest and host are compared alike in both directions. -/
theorem resolve_exchanged :
    resolve host.architecture requested (host.withArchitecture target) =
      (resolve target requested host).mapError Error.exchanged := by
  cases h : resolve target requested host with
  | error refusal =>
    obtain ⟨hrequested, hforeign, rfl⟩ := resolve_eq_error_iff.mp h
    exact resolve_eq_error_iff.mpr ⟨hrequested, hforeign.symm, rfl⟩
  | ok granted =>
    have hgranted := resolve_eq_ok_iff.mp h
    apply resolve_eq_ok_iff.mpr
    cases requested with
    | false => exact hgranted
    | true => exact ⟨hgranted.1.symm, hgranted.2⟩

/-- How a request for an accelerator is answered. -/
structure ResolveAccount (target : String) (requested : Bool) (host : Host) : Prop where
  /-- Without a request the processor is emulated on any host. -/
  unrequested : requested = false → ∀ host', resolve target requested host' = .ok .emulation
  /-- A request is refused exactly for an architecture that is not the host's. -/
  refused_iff : requested = true → ((∃ error, resolve target requested host = .error error) ↔
    Architecture.normalize target ≠ Architecture.normalize host.architecture)
  /-- A refusal tells both architectures by the names they are known by here. -/
  named : ∀ error, resolve target requested host = .error error →
    error = .incompatibleAcceleration (Architecture.normalize host.architecture)
      (Architecture.normalize target)
  /-- The answer is the same for all names that mean the same. -/
  same : ∀ other host', Architecture.normalize other = Architecture.normalize target →
    Architecture.normalize host'.architecture = Architecture.normalize host.architecture →
      Text.SameLetters host'.system host.system →
        resolve other requested host' = resolve target requested host
  /-- If guest and host change places, so do their names in a refusal, and what is granted stays. -/
  exchanged : resolve host.architecture requested (host.withArchitecture target) =
    (resolve target requested host).mapError Error.exchanged
  /-- This is the answer in every run, and nothing else is done there. -/
  acted : ∀ machine : Machine,
    ((host.accelerate target requested).run machine).1 = resolve target requested host ∧
      ((host.accelerate target requested).run machine).2.scene = machine.scene

/-- A request for an accelerator is answered by what the names mean. -/
theorem resolve_account (target : String) (requested : Bool) (host : Host) :
    ResolveAccount target requested host where
  unrequested := by
    rintro rfl host'
    exact resolve_of_not_requested target host'
  refused_iff := by
    rintro rfl
    constructor
    · rintro ⟨error, h⟩
      exact (resolve_eq_error_iff.mp h).2.1.symm
    · intro hforeign
      exact ⟨_, resolve_eq_error_iff.mpr ⟨rfl, hforeign.symm, rfl⟩⟩
  named _ h := (resolve_eq_error_iff.mp h).2.2
  same _ _ := resolve_congr
  exchanged := resolve_exchanged
  acted machine := (host.ignoresConsole_accelerate target requested).run_of_effect
    (host.effect_accelerate target requested machine.scene)

/-- A host of the same kind under another name, and a foreign guest that changes places with its
host. -/
theorem resolve_account_aliases :
    resolve "X86-64" true ⟨"AMD64", "LINUX"⟩ = resolve "x64" true ⟨"x86_64", "Linux"⟩ ∧
      resolve "x64" true ⟨"x86_64", "Linux"⟩ = .ok .kvm ∧
      (∃ error, resolve "Sparc" true ⟨"ARM64", "macos"⟩ = .error error) ∧
      resolve "ARM64" true ⟨"Sparc", "macos"⟩ =
        .error (.incompatibleAcceleration "sparc" "aarch64") := by
  have native := resolve_account "x64" true ⟨"x86_64", "Linux"⟩
  have foreign := resolve_account "Sparc" true ⟨"ARM64", "macos"⟩
  obtain ⟨error, herror⟩ := (foreign.refused_iff rfl).mpr (by decide)
  have hsystem : Text.SameLetters "LINUX" "Linux" := Text.sameLetters_iff.mpr (by decide)
  refine ⟨native.same "X86-64" ⟨"AMD64", "LINUX"⟩ (by decide) (by decide) hsystem, by decide,
    ⟨error, herror⟩, foreign.exchanged.trans ?_⟩
  rw [herror, foreign.named error herror]
  decide

end Acceleration

namespace Workbench

variable {bench : Workbench} {architecture : Architecture} {profile : BuildProfile}
  {requested : Bool} {machine : Machine} {order : Launch}

/-- What a launch hands to the emulator is for an accelerated guest in every part, or for an
emulated guest in every part. -/
theorem never_mixed (registered : architecture ∈ Architecture.registered)
    (asks : bench.Asks architecture requested profile machine order) :
    order.Unmixed architecture requested bench.host := by
  obtain ⟨ready, acceleration, hgranted, -, rfl⟩ := asks_iff.mp asks
  exact Launch.unmixed_of_resolve _ _ _ registered hgranted

/-- In the small workspace a request is granted by the accelerator of Linux. -/
theorem never_mixed_sample :
    sample.Asks .x86_64 true .debug sampleMachine (sample.order .x86_64 .kvm) ∧
      (sample.order .x86_64 .kvm).Unmixed .x86_64 true sample.host ∧
      (sample.order .x86_64 .kvm).IsAccelerated := by
  have hok : ((sample.stage .x86_64 .debug).effect sampleMachine.scene).1 = .ok () := by
    decide +kernel
  have hresolve : Acceleration.resolve Architecture.x86_64.id true sample.host = .ok .kvm := by
    decide +kernel
  rcases hstage : (sample.stage .x86_64 .debug).effect sampleMachine.scene with ⟨outcome, ready⟩
  rw [hstage] at hok
  have asks : sample.Asks .x86_64 true .debug sampleMachine (sample.order .x86_64 .kvm) :=
    asks_iff.mpr ⟨ready, .kvm, hresolve, hstage.trans (congrArg (·, ready) hok), rfl⟩
  have unmixed := never_mixed (by decide) asks
  refine ⟨asks, unmixed, (unmixed.equivalent.out 0 3).mpr ?_⟩
  decide +kernel

end Workbench

end Bootstage
