import Bootstage.Launch

/-!
# Command lines of the emulator

The emulator reads its arguments one after another as flags. Some flags take the next argument as
their value, and what is taken as a value is no flag, whatever it looks like. Read in this way the
segments of a command line stay apart.
-/

namespace Bootstage.Launch

/-! ### Flags -/

/-- A flag on a command line, with its value if it takes one. -/
structure Flag where
  /-- The flag as it is written. -/
  name : String
  /-- The argument behind it. -/
  value? : Option String := none
  deriving DecidableEq

/-- The arguments that a flag is written as. -/
def Flag.args (flag : Flag) : List String :=
  flag.name :: flag.value?.toList

/-- The flags that take the argument behind them as their value. -/
def valued : List String :=
  ["-machine", "-accel", "-cpu", "-m", "-smp", "-device", "-chardev", "-serial", "-mon", "-drive"]

/-- The flags that arguments are read as. -/
def flags : List String → List Flag
  | [] => []
  | [name] => [⟨name, none⟩]
  | name :: value :: rest =>
    if name ∈ valued then ⟨name, some value⟩ :: flags rest
    else ⟨name, none⟩ :: flags (value :: rest)

/-- No argument is lost when they are read. -/
theorem flatMap_args_flags (args : List String) : (flags args).flatMap Flag.args = args := by
  fun_induction flags args with
  | case1 => rfl
  | case2 name => rfl
  | case3 name value rest _ ih => rw [List.flatMap_cons, ih]; rfl
  | case4 name value rest _ ih => rw [List.flatMap_cons, ih]; rfl

/-- A flag takes the argument behind it. -/
theorem flags_valued {name : String} (h : name ∈ valued) (value : String) (rest : List String) :
    flags (name :: value :: rest) = ⟨name, some value⟩ :: flags rest := by
  rw [flags, if_pos h]

/-- A flag without a value leaves the argument behind it alone. -/
theorem flags_plain {name : String} (h : name ∉ valued) (rest : List String) :
    flags (name :: rest) = ⟨name, none⟩ :: flags rest := by
  cases rest with
  | nil => rfl
  | cons value rest => rw [flags, if_neg h]

/-- What is read behind a segment does not depend on it. -/
def Complete (segment : List String) : Prop :=
  ∀ rest, flags (segment ++ rest) = flags segment ++ flags rest

namespace Complete

variable {segment next : List String} {name : String}

theorem nil : Complete [] :=
  fun _ => rfl

/-- A flag with its value can stand in front of a segment. -/
theorem valued (h : name ∈ valued) (value : String) (hsegment : Complete segment) :
    Complete (name :: value :: segment) := by
  intro rest
  rw [List.cons_append, List.cons_append, flags_valued h, flags_valued h, hsegment,
    List.cons_append]

/-- A flag without a value can stand in front of a segment. -/
theorem plain (h : name ∉ Launch.valued) (hsegment : Complete segment) :
    Complete (name :: segment) := by
  intro rest
  rw [List.cons_append, flags_plain h, flags_plain h, hsegment, List.cons_append]

end Complete

/-! ### Segments of a command line -/

variable {architecture : Architecture}

/-- The arguments of an accelerator are read on their own. -/
theorem complete_accelerator (acceleration : Acceleration) : Complete acceleration.args := by
  cases acceleration with
  | emulation => exact .nil
  | kvm => exact .plain (by decide) .nil
  | hvf => exact .valued (by decide) _ .nil

theorem complete_debugExit (registered : architecture ∈ Architecture.registered)
    (acceleration : Acceleration) : Complete (debugExit architecture acceleration) := by
  have hall : ∀ architecture ∈ Architecture.registered, Complete architecture.debugExit := by
    simp only [Architecture.registered, List.forall_mem_cons]
    exact ⟨.valued (by decide) _ .nil, .plain (by decide) .nil, nofun⟩
  unfold debugExit
  split
  · exact .nil
  · exact hall architecture registered

theorem complete_consoles : Complete consoles := by
  unfold consoles
  iterate 6 refine .valued (by decide) _ ?_
  exact .nil

theorem complete_drives (architecture : Architecture) (environment : BootEnvironment) :
    Complete (drives architecture environment) := by
  unfold drives
  iterate 3 refine .valued (by decide) _ ?_
  exact .nil

/-- The flags in front of the accelerator. -/
def opening (architecture : Architecture) : List Flag :=
  [⟨"-nodefaults", none⟩, ⟨"-s", none⟩, ⟨"-machine", some architecture.machine⟩]

/-- The flags that say what the guest is given. -/
def provision (processor : String) (config : Config) : List Flag :=
  [⟨"-cpu", some processor⟩, ⟨"-m", some config.memory⟩,
    ⟨"-smp", some (toString config.cores.toNat)⟩]

/-- The flags behind those through which a guest ends its run. -/
def ending (architecture : Architecture) (environment : BootEnvironment) : List Flag :=
  flags consoles ++ flags (drives architecture environment) ++ [⟨"-nographic", none⟩]

/-- A command line is read as its segments, whatever the texts in it look like. -/
theorem flags_arguments (registered : architecture ∈ Architecture.registered)
    (acceleration : Acceleration) (config : Config) (environment : BootEnvironment) :
    flags (arguments architecture acceleration config environment) =
      opening architecture ++ (flags acceleration.args ++
        (provision (processor architecture acceleration) config ++
          (flags (debugExit architecture acceleration) ++ ending architecture environment))) := by
  have hnographic : flags ["-nographic"] = [⟨"-nographic", none⟩] := rfl
  simp only [arguments, List.append_assoc, List.cons_append, List.nil_append]
  rw [flags_plain (by decide), flags_plain (by decide), flags_valued (by decide),
    complete_accelerator, flags_valued (by decide), flags_valued (by decide),
    flags_valued (by decide), complete_debugExit registered, complete_consoles, complete_drives,
    hnographic, ending, List.append_assoc]
  rfl

/-! ### What a command line tells -/

/-- The flags behind the first one of a name. -/
def behind (name : String) : List Flag → List Flag
  | [] => []
  | flag :: rest => if flag.name = name then rest else behind name rest

/-- The value of the first flag of a name. -/
def valueOf? (name : String) : List Flag → Option String
  | [] => none
  | flag :: rest => if flag.name = name then flag.value? else valueOf? name rest

/-- What stands behind a flag does not depend on other flags in front of it. -/
theorem behind_append {name : String} {front : List Flag} (h : ∀ flag ∈ front, flag.name ≠ name)
    (rest : List Flag) : behind name (front ++ rest) = behind name rest := by
  induction front with
  | nil => rfl
  | cons flag front ih =>
    rw [List.cons_append, behind, if_neg (h flag List.mem_cons_self)]
    exact ih fun other ho => h other (List.mem_cons_of_mem flag ho)

theorem valueOf?_append {name : String} {front : List Flag}
    (h : ∀ flag ∈ front, flag.name ≠ name) (rest : List Flag) :
    valueOf? name (front ++ rest) = valueOf? name rest := by
  induction front with
  | nil => rfl
  | cons flag front ih =>
    rw [List.cons_append, valueOf?, if_neg (h flag List.mem_cons_self)]
    exact ih fun other ho => h other (List.mem_cons_of_mem flag ho)

/-- The names of the flags that turn an accelerator on or let a guest end its run. -/
def dependent : List String :=
  ["-enable-kvm", "-accel", "-device", "-semihosting"]

/-- The flags of an accelerator depend on it. -/
theorem name_accelerator (acceleration : Acceleration) :
    ∀ flag ∈ flags acceleration.args, flag.name ∈ dependent := by
  cases acceleration <;> decide

/-- The device through which a guest ends its run depends on the accelerator. -/
theorem name_debugExit (registered : architecture ∈ Architecture.registered)
    (acceleration : Acceleration) :
    ∀ flag ∈ flags (debugExit architecture acceleration), flag.name ∈ dependent := by
  have hall : ∀ architecture ∈ Architecture.registered, ∀ flag ∈ flags architecture.debugExit,
      flag.name ∈ dependent := by
    decide
  unfold debugExit
  split
  · exact nofun
  · exact hall architecture registered

theorem name_ne_of_mem_opening {name : String} (h : name ∉ ["-nodefaults", "-s", "-machine"]) :
    ∀ flag ∈ opening architecture, flag.name ≠ name := by
  simp only [List.mem_cons, not_or] at h
  obtain ⟨hnodefaults, hserver, hmachine, -⟩ := h
  simp [opening, Ne.symm hnodefaults, Ne.symm hserver, Ne.symm hmachine]

/-- Nothing in front of the accelerator depends on it. -/
theorem name_opening (architecture : Architecture) :
    ∀ flag ∈ opening architecture, flag.name ∉ "-cpu" :: dependent := by
  simp only [opening, List.forall_mem_cons]
  decide

/-- What a guest is given does not depend on the accelerator. -/
theorem name_provision (processor : String) (config : Config) :
    ∀ flag ∈ provision processor config, flag.name ∉ dependent := by
  simp only [provision, List.forall_mem_cons]
  decide

/-- Nothing behind the device depends on the accelerator. -/
theorem name_ending (architecture : Architecture) (environment : BootEnvironment) :
    ∀ flag ∈ ending architecture environment, flag.name ∉ "-cpu" :: dependent := by
  have hdrives : flags (drives architecture environment) =
      [⟨"-drive", some (espDrive environment)⟩,
        ⟨"-drive", some (codeDrive architecture environment)⟩,
        ⟨"-drive", some (varsDrive architecture environment)⟩] := rfl
  simp only [ending, hdrives, List.forall_mem_append, List.forall_mem_cons]
  decide

end Bootstage.Launch
