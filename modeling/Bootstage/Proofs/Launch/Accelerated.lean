import Mathlib.Data.List.TFAE
import Bootstage.Proofs.Architecture.Naming
import Bootstage.Proofs.Launch.Composing

/-!
# Accelerated launches and emulated ones

A command line is either that of an accelerated guest or that of an emulated one. The accelerator
stands behind the machine, the processor is the host's own and there is no way to end a run from
inside, or none of this holds. Which of the two it is depends on the request and on the host.
-/

namespace Bootstage

/-! ### The accelerator of a host -/

namespace Acceleration

/-- The operating system has an accelerator that is known. -/
def IsKnown (system : String) : Prop :=
  Text.contains "linux" (Text.lowerCase system) = true ∨
    Text.contains "darwin" (Text.lowerCase system) = true ∨
      Text.contains "macos" (Text.lowerCase system) = true

instance (system : String) : Decidable (IsKnown system) :=
  inferInstanceAs (Decidable (_ ∨ _ ∨ _))

variable {target : String} {requested : Bool} {host : Host} {acceleration : Acceleration}

/-- A known system has its own accelerator, and Linux has the one of its kernel. -/
theorem getD_ofSystem? (system : String) :
    (((ofSystem? system).getD emulation).isEnabled = true ↔ IsKnown system) ∧
      ((ofSystem? system).getD emulation = kvm ↔
        Text.contains "linux" (Text.lowerCase system) = true) := by
  unfold ofSystem? IsKnown
  dsimp only
  split
  · next hlinux => simp [hlinux, isEnabled]
  · next hlinux =>
    split
    · next hmac =>
      rw [Bool.or_eq_true] at hmac
      simp [hlinux, hmac, isEnabled]
    · next hmac =>
      rw [Bool.or_eq_true] at hmac
      simp [hlinux, hmac, isEnabled]

/-- A guest is accelerated if that is requested, on a host of its own kind with a known system. -/
theorem isEnabled_iff_of_resolve (h : resolve target requested host = .ok acceleration) :
    acceleration.isEnabled = true ↔
      requested = true ∧
        Architecture.normalize host.architecture = Architecture.normalize target ∧
          IsKnown host.system := by
  unfold resolve at h
  dsimp only at h
  split at h
  · next hrequested =>
    obtain rfl := Except.ok.inj h
    simp [hrequested, isEnabled]
  · next hrequested =>
    split at h
    · contradiction
    · next hnative =>
      obtain rfl := Except.ok.inj h
      rw [(getD_ofSystem? host.system).1]
      simp_all

/-- An accelerated guest has the accelerator of Linux exactly on Linux. -/
theorem eq_kvm_iff_of_resolve (h : resolve target requested host = .ok acceleration)
    (henabled : acceleration.isEnabled = true) :
    acceleration = kvm ↔ Text.contains "linux" (Text.lowerCase host.system) = true := by
  unfold resolve at h
  dsimp only at h
  split at h
  · obtain rfl := Except.ok.inj h
    contradiction
  · split at h
    · contradiction
    · obtain rfl := Except.ok.inj h
      exact (getD_ofSystem? host.system).2

end Acceleration

namespace Launch

variable {architecture : Architecture} (acceleration : Acceleration) (config : Config)
  (environment : BootEnvironment)

/-! ### Where the segments are -/

/-- The flags that turn an accelerator on. -/
def accelerators : List (List Flag) :=
  [[⟨"-enable-kvm", none⟩], [⟨"-accel", some "hvf"⟩]]

/-- An accelerator is turned on right behind the machine. -/
def IsAccelerated (order : Launch) : Prop :=
  ∃ segment ∈ accelerators, segment <+: behind "-machine" (flags order.args)

/-- A way for the guest to end its run is right behind the cores. -/
def HasDebugExit (order : Launch) (architecture : Architecture) : Prop :=
  flags architecture.debugExit <+: behind "-smp" (flags order.args)

/-- A flag that does not depend on the accelerator is not among those that do. -/
theorem notMem_of_name {name : String} {segment : List Flag}
    (hdependent : name ∉ dependent) (h : ∀ flag ∈ segment, flag.name ∈ dependent) :
    ∀ flag ∈ segment, flag.name ≠ name :=
  fun flag hf he => hdependent (he ▸ h flag hf)

/-- Behind the machine there stand the flags of the accelerator. -/
theorem behind_machine (registered : architecture ∈ Architecture.registered) :
    behind "-machine" (flags (arguments architecture acceleration config environment)) =
      flags acceleration.args ++ (provision (processor architecture acceleration) config ++
        (flags (debugExit architecture acceleration) ++ ending architecture environment)) := by
  rw [flags_arguments registered]
  rfl

/-- Behind the cores there stands the device through which a guest ends its run. -/
theorem behind_smp (registered : architecture ∈ Architecture.registered) :
    behind "-smp" (flags (arguments architecture acceleration config environment)) =
      flags (debugExit architecture acceleration) ++ ending architecture environment := by
  rw [flags_arguments registered, behind_append (name_ne_of_mem_opening (by decide)),
    behind_append (notMem_of_name (by decide) (name_accelerator acceleration))]
  rfl

theorem valueOf?_cpu (registered : architecture ∈ Architecture.registered) :
    valueOf? "-cpu" (flags (arguments architecture acceleration config environment)) =
      some (processor architecture acceleration) := by
  rw [flags_arguments registered, valueOf?_append (name_ne_of_mem_opening (by decide)),
    valueOf?_append (notMem_of_name (by decide) (name_accelerator acceleration))]
  rfl

/-! ### Which of the two it is -/

/-- A command line is accelerated exactly if the accelerator is enabled. -/
theorem isAccelerated_iff (registered : architecture ∈ Architecture.registered) :
    (compose architecture acceleration config environment).IsAccelerated ↔
      acceleration.isEnabled = true := by
  have hflags := behind_machine acceleration config environment registered
  unfold IsAccelerated
  rw [compose, hflags]
  cases acceleration with
  | emulation => simp [accelerators, Acceleration.isEnabled, Acceleration.args, flags, provision]
  | kvm =>
    refine iff_of_true ⟨_, List.mem_cons_self, List.prefix_append _ _⟩ rfl
  | hvf =>
    refine iff_of_true ⟨_, List.mem_cons_of_mem _ List.mem_cons_self, List.prefix_append _ _⟩ rfl

/-- The processor is the host's, and not the one that is emulated, exactly if the accelerator is
enabled. -/
theorem valueOf?_cpu_eq_host_iff (registered : architecture ∈ Architecture.registered) :
    (valueOf? "-cpu" (flags (compose architecture acceleration config environment).args) =
        some "host" ∧
      valueOf? "-cpu" (flags (compose architecture acceleration config environment).args) ≠
        some architecture.cpuModel) ↔ acceleration.isEnabled = true := by
  have hmodel : ∀ architecture ∈ Architecture.registered, "host" ≠ architecture.cpuModel := by
    decide
  rw [compose, valueOf?_cpu _ _ _ registered, processor]
  split
  · next henabled => simp [henabled, hmodel architecture registered]
  · next henabled => simp [henabled]

/-- A guest cannot end its run exactly if the accelerator is enabled. -/
theorem hasDebugExit_iff (registered : architecture ∈ Architecture.registered) :
    ¬ (compose architecture acceleration config environment).HasDebugExit architecture ↔
      acceleration.isEnabled = true := by
  have hsome : ∀ architecture ∈ Architecture.registered, flags architecture.debugExit ≠ [] := by
    decide
  unfold HasDebugExit
  rw [compose, behind_smp _ _ _ registered]
  cases henabled : acceleration.isEnabled with
  | false =>
    have hexit : debugExit architecture acceleration = architecture.debugExit := by
      rw [debugExit, henabled]
      rfl
    simp [hexit]
  | true =>
    have hexit : debugExit architecture acceleration = [] := by
      rw [debugExit, henabled]
      rfl
    refine iff_of_true (fun hprefix => ?_) rfl
    obtain ⟨flag, rest, hflags⟩ := List.exists_cons_of_ne_nil (hsome architecture registered)
    have hmem : flag ∈ flags architecture.debugExit := by simp [hflags]
    have hname : flag.name ∈ dependent := name_debugExit registered .emulation flag hmem
    rw [hexit] at hprefix
    have hending : flag ∈ ending architecture environment := hprefix.subset hmem
    exact name_ending architecture environment flag hending (List.mem_cons_of_mem _ hname)

/-- The launch is that of an accelerated guest or of an emulated one, and nothing in between. -/
structure Unmixed (order : Launch) (architecture : Architecture) (requested : Bool) (host : Host) :
    Prop where
  /-- The machine is the one of the architecture. -/
  machine : valueOf? "-machine" (flags order.args) = some architecture.machine
  /-- The accelerator, the processor, the end of a run and the request go together. -/
  equivalent : List.TFAE [
    order.IsAccelerated,
    valueOf? "-cpu" (flags order.args) = some "host" ∧
      valueOf? "-cpu" (flags order.args) ≠ some architecture.cpuModel,
    ¬ order.HasDebugExit architecture,
    requested = true ∧ Architecture.normalize host.architecture = architecture.id ∧
      Acceleration.IsKnown host.system]
  /-- The accelerator is that of Linux exactly on Linux, and else the other one. -/
  segment : order.IsAccelerated →
    ([⟨"-enable-kvm", none⟩] <+: behind "-machine" (flags order.args) ↔
        Text.contains "linux" (Text.lowerCase host.system) = true) ∧
      ([⟨"-accel", some "hvf"⟩] <+: behind "-machine" (flags order.args) ↔
        Text.contains "linux" (Text.lowerCase host.system) = false)
  /-- With an accelerator no guest can end its run, wherever one looks for the way. -/
  accelerated : order.IsAccelerated →
    ((flags order.args).filter fun flag => flag.name ∈ dependent) ∈ accelerators
  /-- Without one the processor is the model, and no accelerator is turned on anywhere. -/
  emulated : ¬ order.IsAccelerated →
    valueOf? "-cpu" (flags order.args) = some architecture.cpuModel ∧
      ((flags order.args).filter fun flag => flag.name ∈ dependent) =
        flags architecture.debugExit

/-- What is composed for a granted accelerator is unmixed: each part of it is that of an accelerated
guest exactly if the accelerator is enabled. -/
theorem unmixed_of_resolve {requested : Bool} {host : Host}
    (registered : architecture ∈ Architecture.registered)
    (granted : Acceleration.resolve architecture.id requested host = .ok acceleration) :
    (compose architecture acceleration config environment).Unmixed architecture requested host := by
  have haccelerated := isAccelerated_iff acceleration config environment registered
  have hdependent := filter_dependent registered acceleration config environment
  have hcpu := valueOf?_cpu acceleration config environment registered
  refine ⟨?machine, ?equivalent, ?segment, ?accelerated, ?emulated⟩
  case machine =>
    rw [compose, flags_arguments registered]
    rfl
  case equivalent =>
    refine List.tfae_of_forall (acceleration.isEnabled = true) _ ?_
    simp only [List.forall_mem_cons]
    refine ⟨haccelerated, valueOf?_cpu_eq_host_iff acceleration config environment registered,
      hasDebugExit_iff acceleration config environment registered, ?_, nofun⟩
    rw [Acceleration.isEnabled_iff_of_resolve granted, Architecture.normalize_id registered]
  case segment =>
    intro h
    have hkvm := Acceleration.eq_kvm_iff_of_resolve granted (haccelerated.mp h)
    rw [compose, behind_machine _ _ _ registered]
    cases acceleration with
    | emulation => exact absurd (haccelerated.mp h) Bool.false_ne_true
    | kvm => simp [hkvm.mp rfl, Acceleration.args, flags]
    | hvf =>
      have hlinux : Text.contains "linux" (Text.lowerCase host.system) = false :=
        Bool.eq_false_iff.mpr fun hlinux => Acceleration.noConfusion (hkvm.mpr hlinux)
      simp [hlinux, Acceleration.args, flags, valued]
  case accelerated =>
    intro h
    rw [compose, hdependent]
    cases acceleration with
    | emulation => exact absurd (haccelerated.mp h) Bool.false_ne_true
    | kvm => exact List.mem_cons_self
    | hvf => exact List.mem_cons_of_mem _ List.mem_cons_self
  case emulated =>
    intro h
    have hdisabled := Bool.eq_false_iff.mpr (mt haccelerated.mpr h)
    rw [compose, hdependent, hcpu]
    cases acceleration with
    | emulation => exact ⟨rfl, rfl⟩
    | kvm => contradiction
    | hvf => contradiction

end Launch

end Bootstage
