import Std.Data.String.ToNat
import Bootstage.Proofs.Launch.Drives
import Bootstage.Proofs.Launch.Flags

/-!
# What a command line of the emulator tells

All that goes into a command line can be told from it: the architecture, the accelerator, the memory
and the cores of the guest, and what is shown for the paths of what is staged, hence these paths if
the directories are texts. The accelerator decides on three things in it, and the rest is the same
for all of them.
-/

namespace Bootstage.Launch

variable {architecture other : Architecture}

/-! ### What is told apart -/

/-- The machine tells the architecture. -/
theorem eq_of_machine (registered : architecture ∈ Architecture.registered)
    (registered' : other ∈ Architecture.registered) (h : architecture.machine = other.machine) :
    architecture = other := by
  have hall : ∀ architecture ∈ Architecture.registered, ∀ other ∈ Architecture.registered,
      architecture.machine = other.machine → architecture = other := by
    decide
  exact hall architecture registered other registered' h

/-- The processor comes behind the accelerator, and is not taken for one. -/
theorem eq_of_accelerator {acceleration acceleration' : Acceleration} {rest rest' : List String}
    (h : acceleration.args ++ "-cpu" :: rest = acceleration'.args ++ "-cpu" :: rest') :
    acceleration = acceleration' ∧ rest = rest' := by
  cases acceleration <;> cases acceleration' <;> simp_all [Acceleration.args]

/-- The number of cores can be told from its digits. -/
theorem eq_of_cores {cores cores' : UInt32} (h : toString cores.toNat = toString cores'.toNat) :
    cores = cores' :=
  UInt32.toNat_inj.mp (Nat.repr_injective h)

/-- The drives tell the paths that stand in them. -/
theorem drives_eq_iff {environment environment' : BootEnvironment} :
    drives architecture environment = drives architecture environment' ↔
      environment.espDir.shown = environment'.espDir.shown ∧
        (environment.firmwareCopy architecture.firmwareCode).shown =
          (environment'.firmwareCopy architecture.firmwareCode).shown ∧
        (environment.firmwareCopy architecture.firmwareVars).shown =
          (environment'.firmwareCopy architecture.firmwareVars).shown := by
  unfold drives espDrive codeDrive varsDrive
  simp only [List.cons.injEq, String.append_left_inj, String.append_right_inj, true_and, and_true]

/-- Two command lines are equal exactly if they are made from the same. -/
theorem arguments_eq_iff (registered : architecture ∈ Architecture.registered)
    (registered' : other ∈ Architecture.registered) {acceleration acceleration' : Acceleration}
    {config config' : Config} {environment environment' : BootEnvironment} :
    arguments architecture acceleration config environment =
        arguments other acceleration' config' environment' ↔
      architecture = other ∧ acceleration = acceleration' ∧ config.memory = config'.memory ∧
        config.cores = config'.cores ∧ environment.espDir.shown = environment'.espDir.shown ∧
        (environment.firmwareCopy architecture.firmwareCode).shown =
          (environment'.firmwareCopy other.firmwareCode).shown ∧
        (environment.firmwareCopy architecture.firmwareVars).shown =
          (environment'.firmwareCopy other.firmwareVars).shown := by
  constructor
  · intro h
    simp only [arguments, List.append_assoc, List.cons_append, List.nil_append, List.cons.injEq,
      true_and] at h
    obtain ⟨hmachine, hbehind⟩ := h
    obtain rfl := eq_of_machine registered registered' hmachine
    obtain ⟨rfl, hrest⟩ := eq_of_accelerator hbehind
    simp only [List.cons.injEq, true_and] at hrest
    obtain ⟨hmemory, hcores, hsegments⟩ := hrest
    have hdrives := List.append_cancel_right
      (List.append_cancel_left (List.append_cancel_left hsegments))
    exact ⟨rfl, rfl, hmemory, eq_of_cores hcores, drives_eq_iff.mp hdrives⟩
  · rintro ⟨rfl, rfl, hmemory, hcores, hpaths⟩
    rw [arguments, arguments, hmemory, hcores, drives_eq_iff.mpr hpaths]

/-- The copies of the firmware are texts if their directory is one. -/
theorem isText_firmwareCopy (registered : architecture ∈ Architecture.registered)
    {environment : BootEnvironment} (h : environment.firmwareDir.IsText) :
    (environment.firmwareCopy architecture.firmwareCode).IsText ∧
      (environment.firmwareCopy architecture.firmwareVars).IsText := by
  obtain ⟨code, vars, names⟩ := Architecture.exists_fileNames registered
  have hname := legible_fileName registered
  rw [names.firmwareCopy_code, names.firmwareCopy_vars,
    (names.isName code (by simp)).isText_div_iff (hname _ (by simp) code names.codeName),
    (names.isName vars (by simp)).isText_div_iff (hname _ (by simp) vars names.varsName)]
  exact ⟨h, h⟩

/-! ### What the accelerator decides on -/

/-- A flag that does not depend on the accelerator; of the processor only the name is kept. -/
def Flag.common? (flag : Flag) : Option Flag :=
  if flag.name ∈ dependent then none
  else if flag.name = "-cpu" then some { flag with value? := none }
  else some flag

/-- The flags without those that depend on the accelerator, and without the processor. -/
def common (given : List Flag) : List Flag :=
  given.filterMap Flag.common?

theorem common_append (front back : List Flag) :
    common (front ++ back) = common front ++ common back :=
  List.filterMap_append

/-- Flags that depend on the accelerator are left out. -/
theorem common_of_dependent {segment : List Flag} (h : ∀ flag ∈ segment, flag.name ∈ dependent) :
    common segment = [] :=
  List.filterMap_eq_nil_iff.mpr fun flag hf => if_pos (h flag hf)

/-- Other flags are kept as they are, but for the processor. -/
theorem common_of_notMem {segment : List Flag}
    (h : ∀ flag ∈ segment, flag.name ∉ "-cpu" :: dependent) : common segment = segment := by
  induction segment with
  | nil => rfl
  | cons flag segment ih =>
    have hflag : flag.common? = some flag := by
      have hname := h flag List.mem_cons_self
      rw [List.mem_cons, not_or] at hname
      rw [Flag.common?, if_neg hname.2, if_neg hname.1]
    have hsegment := ih fun other ho => h other (List.mem_cons_of_mem flag ho)
    rw [common, List.filterMap_cons_some hflag]
    exact congrArg (flag :: ·) hsegment

/-- What all command lines for an architecture share, whatever the accelerator. -/
def shared (architecture : Architecture) (config : Config) (environment : BootEnvironment) :
    List Flag :=
  opening architecture ++ (⟨"-cpu", none⟩ :: ⟨"-m", some config.memory⟩ ::
    ⟨"-smp", some (toString config.cores.toNat)⟩ :: ending architecture environment)

section

variable (registered : architecture ∈ Architecture.registered) (acceleration : Acceleration)
  (config : Config) (environment : BootEnvironment)

include registered

/-- What is common to all command lines for an architecture is what they share. -/
theorem common_arguments :
    common (flags (arguments architecture acceleration config environment)) =
      shared architecture config environment := by
  have hprovision : common (provision (processor architecture acceleration) config) =
      [⟨"-cpu", none⟩, ⟨"-m", some config.memory⟩, ⟨"-smp", some (toString config.cores.toNat)⟩] :=
    rfl
  rw [flags_arguments registered]
  simp only [common_append, common_of_notMem (name_opening architecture),
    common_of_dependent (name_accelerator acceleration), hprovision,
    common_of_dependent (name_debugExit registered acceleration),
    common_of_notMem (name_ending architecture environment), List.nil_append]
  rfl

/-- The flags that depend on the accelerator are its own, and those through which a guest ends its
run. -/
theorem filter_dependent :
    ((flags (arguments architecture acceleration config environment)).filter
        fun flag => flag.name ∈ dependent) =
      flags acceleration.args ++ flags (debugExit architecture acceleration) := by
  have hall : ∀ {segment : List Flag}, (∀ flag ∈ segment, flag.name ∈ dependent) →
      (segment.filter fun flag => flag.name ∈ dependent) = segment :=
    fun h => List.filter_eq_self.mpr fun flag hf => decide_eq_true (h flag hf)
  have hnone : ∀ {segment : List Flag}, (∀ flag ∈ segment, flag.name ∉ dependent) →
      (segment.filter fun flag => flag.name ∈ dependent) = [] :=
    fun h => List.filter_eq_nil_iff.mpr fun flag hf => mt of_decide_eq_true (h flag hf)
  have hopening :=
      hnone fun flag hf => List.not_mem_of_not_mem_cons (name_opening architecture flag hf)
  have hending := hnone fun flag hf =>
    List.not_mem_of_not_mem_cons (name_ending architecture environment flag hf)
  simp only [flags_arguments registered, List.filter_append, hall (name_accelerator acceleration),
    hall (name_debugExit registered acceleration), hopening, hending,
    hnone (name_provision _ config), List.nil_append, List.append_nil]

end

/-- What the command lines for an architecture tell. -/
structure ComposeAccount (architecture : Architecture) : Prop where
  /-- Two command lines are equal exactly if what goes into them is. -/
  told : ∀ other ∈ Architecture.registered,
    ∀ acceleration acceleration' config config' environment environment',
      (compose architecture acceleration config environment).args =
          (compose other acceleration' config' environment').args ↔
        architecture = other ∧ acceleration = acceleration' ∧ config.memory = config'.memory ∧
          config.cores = config'.cores ∧ environment.espDir.shown = environment'.espDir.shown ∧
          (environment.firmwareCopy architecture.firmwareCode).shown =
            (environment'.firmwareCopy other.firmwareCode).shown ∧
          (environment.firmwareCopy architecture.firmwareVars).shown =
            (environment'.firmwareCopy other.firmwareVars).shown
  /-- Where the directories are texts, two command lines are equal only if the staged paths are. -/
  staged : ∀ other ∈ Architecture.registered,
    ∀ acceleration acceleration' config config' (environment environment' : BootEnvironment),
      (∀ path ∈ environment.directories ++ environment'.directories, path.IsText) →
        (compose architecture acceleration config environment).args =
            (compose other acceleration' config' environment').args →
          environment.espDir = environment'.espDir ∧
            environment.firmwareCopy architecture.firmwareCode =
              environment'.firmwareCopy other.firmwareCode ∧
            environment.firmwareCopy architecture.firmwareVars =
              environment'.firmwareCopy other.firmwareVars
  /-- Nothing of a command line is lost when it is read as flags. -/
  read : ∀ acceleration config environment,
    (flags (compose architecture acceleration config environment).args).flatMap Flag.args =
      (compose architecture acceleration config environment).args
  /-- Two segments depend on the accelerator: its own and that through which a guest ends its
  run. -/
  segments : ∀ acceleration config environment,
    ((flags (compose architecture acceleration config environment).args).filter
        fun flag => flag.name ∈ dependent) =
      flags acceleration.args ++ flags (debugExit architecture acceleration)
  /-- Without them and without the processor the command lines for all accelerators are equal. -/
  rest : ∀ acceleration acceleration' config environment,
    common (flags (compose architecture acceleration config environment).args) =
        common (flags (compose architecture acceleration' config environment).args) ∧
      common (flags (compose architecture acceleration config environment).args) =
        shared architecture config environment

/-- A command line loses nothing that goes into it, and the accelerator changes nothing else. -/
theorem compose_account (registered : architecture ∈ Architecture.registered) :
    ComposeAccount architecture := by
  refine ⟨?told, ?staged, ?read, ?segments, ?rest⟩
  case told =>
    intro other registered' acceleration acceleration' config config' environment environment'
    exact arguments_eq_iff registered registered'
  case staged =>
    intro other registered' acceleration acceleration' config config' environment environment'
      htexts hargs
    obtain ⟨-, -, -, -, hesp, hcode, hvars⟩ := (arguments_eq_iff registered registered').mp hargs
    obtain ⟨hespText, hfirmwareText, hespText', hfirmwareText'⟩ :
        environment.espDir.IsText ∧ environment.firmwareDir.IsText ∧
          environment'.espDir.IsText ∧ environment'.firmwareDir.IsText := by
      simpa [BootEnvironment.directories] using htexts
    obtain ⟨hcodeText, hvarsText⟩ := isText_firmwareCopy registered hfirmwareText
    obtain ⟨hcodeText', hvarsText'⟩ := isText_firmwareCopy registered' hfirmwareText'
    exact ⟨(hespText.shown_inj hespText').mp hesp, (hcodeText.shown_inj hcodeText').mp hcode,
      (hvarsText.shown_inj hvarsText').mp hvars⟩
  case read =>
    intro acceleration config environment
    exact flatMap_args_flags _
  case segments =>
    intro acceleration config environment
    exact filter_dependent registered acceleration config environment
  case rest =>
    intro acceleration acceleration' config environment
    have hcommon := fun acceleration =>
      common_arguments registered acceleration config environment
    exact ⟨(hcommon acceleration).trans (hcommon acceleration').symm, hcommon acceleration⟩

/-- A configuration whose memory looks like a flag. -/
def flagConfig : Config :=
  { Config.defaults ⟨"/w"⟩ with memory := "-enable-kvm" }

/-- Such a memory is no accelerator. -/
theorem compose_account_flag :
    Architecture.x86_64 ∈ Architecture.registered ∧ ComposeAccount .x86_64 ∧
      (compose .x86_64 .emulation flagConfig (.ofConfig flagConfig)).args ≠
        (compose .x86_64 .kvm flagConfig (.ofConfig flagConfig)).args ∧
      "-enable-kvm" ∈ (compose .x86_64 .emulation flagConfig (.ofConfig flagConfig)).args ∧
      common (flags (compose .x86_64 .emulation flagConfig (.ofConfig flagConfig)).args) =
        common (flags (compose .x86_64 .kvm flagConfig (.ofConfig flagConfig)).args) := by
  have registered : Architecture.x86_64 ∈ Architecture.registered := by decide
  have account := compose_account registered
  refine ⟨registered, account, fun he => ?_, by decide +kernel, (account.rest _ _ _ _).1⟩
  obtain ⟨-, hacceleration, -⟩ := (account.told .x86_64 registered _ _ _ _ _ _).mp he
  contradiction

end Bootstage.Launch
