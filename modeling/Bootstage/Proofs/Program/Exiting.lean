import Bootstage.Proofs.Program.Runs
import Bootstage.Proofs.Workbench.Handing

/-!
# What the exit code tells of a guest

The system reports the end of the emulator in a word of 32 bits. Of these a launch sees whether the
emulator exited or was killed, and the code of an exit; the exit code of the program is a number of
eight bits again. On this way no failure becomes a success: the narrowing never meets a number that
it does not keep, and where there is nothing to be kept the program exits with one.
-/

namespace Bootstage

open Bootstage.Action Bootstage.CommandLine

/-! ### Wait statuses in numbers -/

namespace ProcessExit

/-- The wait status is the one of a process that exited: its low seven bits are zero. -/
def Exits (raw : UInt32) : Prop :=
  raw.toNat % 128 = 0

instance (raw : UInt32) : Decidable (Exits raw) :=
  inferInstanceAs (Decidable (raw.toNat % 128 = 0))

/-- The code that a wait status has for an exit, in the eight bits above the low byte. -/
def waitCode (raw : UInt32) : Nat :=
  raw.toNat / 256 % 256

theorem waitCode_lt (raw : UInt32) : waitCode raw < 256 :=
  Nat.mod_lt _ (by decide)

/-- The lower mask keeps the low seven bits. -/
theorem and_mask_eq_zero_iff (raw : UInt32) : raw &&& 0x7F = 0 ↔ Exits raw := by
  have hmask : (raw &&& 0x7F).toNat = raw.toNat % 128 := by
    rw [UInt32.toNat_and]
    exact Nat.and_two_pow_sub_one_eq_mod raw.toNat 7
  rw [← UInt32.toNat_inj, hmask]
  rfl

/-- The upper mask keeps the byte that the shift brings down. -/
theorem toNat_shift_and_mask (raw : UInt32) : ((raw >>> 8) &&& 0xFF).toNat = waitCode raw := by
  have hshift : (raw >>> 8).toNat = raw.toNat / 256 := by
    rw [UInt32.toNat_shiftRight]
    exact Nat.shiftRight_eq_div_pow raw.toNat 8
  have hmask : ((raw >>> 8) &&& 0xFF).toNat = (raw >>> 8).toNat % 256 := by
    rw [UInt32.toNat_and]
    exact Nat.and_two_pow_sub_one_eq_mod (raw >>> 8).toNat 8
  rw [hmask, hshift, waitCode]

/-- What a wait status reports. -/
theorem ofWaitStatus_eq (raw : UInt32) :
    ofWaitStatus raw = if Exits raw then exited (waitCode raw) else killed := by
  simp only [ofWaitStatus, and_mask_eq_zero_iff, toNat_shift_and_mask]

/-- Only an exit with code zero is a success, however the other bits are set. -/
theorem success_ofWaitStatus_iff (raw : UInt32) :
    (ofWaitStatus raw).success = true ↔ Exits raw ∧ waitCode raw = 0 := by
  rw [success_eq_true_iff, ofWaitStatus_eq]
  split
  · next h => simp [h]
  · next h => simp [h]

/-- What is told of an end by an exit code: the code of an exit, and one if there was none. -/
def told (raw : UInt32) : Nat :=
  if Exits raw then waitCode raw else 1

end ProcessExit

open ProcessExit

/-! ### Exit codes of errors -/

namespace Error

/-- The exit code of an error. -/
structure CodeAccount (error : Error) : Prop where
  /-- It is not the one of a success, -/
  positive : 1 ≤ error.exitCode.toNat
  /-- and it has eight bits. -/
  bounded : error.exitCode.toNat ≤ 255
  /-- The code of an emulator is kept where it fits, -/
  kept : ∀ architecture code, error = .launch architecture (.exited code) → 1 ≤ code →
    code ≤ 255 → (error.exitCode.toNat : Int) = code
  /-- and becomes one where it does not. -/
  replaced : ∀ architecture code, error = .launch architecture (.exited code) →
    code < 1 ∨ 255 < code → error.exitCode = 1
  /-- So does the end of an emulator that was killed. -/
  killed : ∀ architecture, error = .launch architecture .killed → error.exitCode = 1

/-- A code that fits in eight bits is not changed when it is narrowed to them. -/
theorem toNat_exitCode_of_fits {architecture : String} {code : Int} (hlow : 1 ≤ code)
    (hhigh : code ≤ 255) :
    ((Error.launch architecture (.exited code)).exitCode.toNat : Int) = code := by
  have hfits : code.toNat < 256 := by omega
  have hcode : (Error.launch architecture (.exited code)).exitCode = code.toNat.toUInt8 :=
    if_pos ⟨hlow, hhigh⟩
  rw [hcode, Nat.toUInt8, UInt8.toNat_ofNat', Nat.mod_eq_of_lt hfits]
  omega

/-- Every error has a code of its own kind, and none has that of success. -/
theorem codeAccount (error : Error) : error.CodeAccount where
  positive := by
    have hne : error.exitCode.toNat ≠ 0 := fun h =>
      error.exitCode_ne_zero (UInt8.toNat_inj.mp h)
    omega
  bounded := by
    have hlt := error.exitCode.toNat_lt
    omega
  kept := by
    rintro architecture code rfl hlow hhigh
    exact toNat_exitCode_of_fits hlow hhigh
  replaced := by
    rintro architecture code rfl hout
    exact if_neg (by omega)
  killed := by
    rintro architecture rfl
    rfl

/-- The error of a launch tells what the wait status of its emulator says. -/
theorem toNat_exitCode_ofWaitStatus (architecture : String) {raw : UInt32}
    (h : ¬ (Exits raw ∧ waitCode raw = 0)) :
    (Error.launch architecture (.ofWaitStatus raw)).exitCode.toNat = told raw := by
  rw [ofWaitStatus_eq, told]
  split
  · next hexits =>
    have hlt := waitCode_lt raw
    have hne : waitCode raw ≠ 0 := fun hzero => h ⟨hexits, hzero⟩
    have hkept := @toNat_exitCode_of_fits architecture (waitCode raw) (by omega) (by omega)
    exact Int.ofNat.inj hkept
  · rfl

end Error

/-! ### Launches -/

namespace Workbench

variable {bench : Workbench} {architecture : Architecture} {requested skipBuild : Bool}
  {profile : BuildProfile} {before ready : Scene} {order : Launch} {raw : UInt32}

/-- A launch succeeds for one answer alone. -/
theorem verdict_eq_ok_iff (answer : Except SystemError ProcessExit) :
    verdict architecture order answer = .ok () ↔ answer = .ok (.exited 0) := by
  cases answer with
  | error cause => simp [verdict]
  | ok status =>
    by_cases h : status = .exited 0
    · simp [verdict, h]
    · simp [verdict, h, ProcessExit.success]

/-- The verdict on an emulator that has ended: the launch has succeeded exactly if the wait status
says so, and it tells what the wait status says. -/
theorem verdict_ofWaitStatus (architecture : Architecture) (order : Launch) (raw : UInt32) :
    (verdict architecture order (.ok (.ofWaitStatus raw)) = .ok () ↔
        Exits raw ∧ waitCode raw = 0) ∧
      ∀ error, verdict architecture order (.ok (.ofWaitStatus raw)) = .error error →
        error = .launch architecture.id (.ofWaitStatus raw) ∧ error.exitCode.toNat = told raw := by
  have hsuccess := success_ofWaitStatus_iff raw
  by_cases h : Exits raw ∧ waitCode raw = 0
  · simp [verdict, hsuccess.mpr h, h]
  · have hfails : (ofWaitStatus raw).success = false := by
      rw [← Bool.not_eq_true, hsuccess]
      exact h
    simp only [verdict, hfails, Bool.false_eq_true, if_false, reduceCtorEq, false_iff,
      Except.error.injEq]
    refine ⟨h, ?_⟩
    rintro error rfl
    exact ⟨rfl, Error.toNat_exitCode_ofWaitStatus architecture.id h⟩

/-- A launch that succeeds has come to ask the emulator. -/
theorem exists_starts_of_launch
    (h : ((bench.launch architecture requested profile).effect before).1 = .ok ()) :
    ∃ order ready, bench.Starts architecture requested profile before order ready := by
  rw [launch, effect_bind (by simp), effect_accelerate] at h
  cases hgranted : Acceleration.resolve architecture.id requested bench.host with
  | error error =>
    rw [hgranted] at h
    cases h
  | ok acceleration =>
    rw [hgranted] at h
    dsimp only at h
    rw [effect_bind (by simp)] at h
    rcases hstage : (bench.stage architecture profile).effect before with ⟨error | ⟨⟩, ready⟩
    · rw [hstage] at h
      cases h
    · exact ⟨_, ready, acceleration, hgranted, hstage, rfl⟩

/-- A launch succeeds exactly if it comes to ask the emulator and this exits with zero. -/
theorem launch_eq_ok_iff :
    ((bench.launch architecture requested profile).effect before).1 = .ok () ↔
      ∃ order ready, bench.Starts architecture requested profile before order ready ∧
        (bench.emulator.react order ready).outcome = .ok (.exited 0) := by
  constructor
  · intro h
    obtain ⟨order, ready, starts⟩ := exists_starts_of_launch h
    rw [starts.effect_launch_eq, verdict_eq_ok_iff] at h
    exact ⟨order, ready, starts, h⟩
  · rintro ⟨order, ready, starts, hanswer⟩
    rw [starts.effect_launch_eq, verdict_eq_ok_iff]
    exact hanswer

/-- A run that succeeds has come to ask the emulator. -/
theorem exists_reaches_of_buildAndRun
    (h : ((bench.buildAndRun architecture requested profile skipBuild).effect before).1 = .ok ()) :
    ∃ order ready, bench.Reaches architecture requested profile skipBuild before order ready := by
  rw [Workbench.effect_buildAndRun] at h
  cases hgranted : Acceleration.resolve architecture.id requested bench.host with
  | error error =>
    rw [hgranted] at h
    cases h
  | ok acceleration =>
    rw [hgranted] at h
    cases skipBuild with
    | true =>
      obtain ⟨order, ready, starts⟩ := exists_starts_of_launch h
      exact ⟨order, ready, before, rfl, starts⟩
    | false =>
      simp only [Bool.false_eq_true, if_false] at h
      rcases hbuild : (bench.build [architecture] profile).effect before with ⟨error | ⟨⟩, left⟩
      · rw [hbuild] at h
        cases h
      · rw [hbuild] at h
        obtain ⟨order, ready, starts⟩ := exists_starts_of_launch h
        exact ⟨order, ready, left, hbuild, starts⟩

/-- A run succeeds exactly if it comes to ask the emulator and this exits with zero. -/
theorem buildAndRun_eq_ok_iff :
    ((bench.buildAndRun architecture requested profile skipBuild).effect before).1 = .ok () ↔
      ∃ order ready, bench.Reaches architecture requested profile skipBuild before order ready ∧
        (bench.emulator.react order ready).outcome = .ok (.exited 0) := by
  constructor
  · intro h
    obtain ⟨order, ready, reaches⟩ := exists_reaches_of_buildAndRun h
    rw [reaches.effect_buildAndRun, verdict_eq_ok_iff] at h
    exact ⟨order, ready, reaches, h⟩
  · rintro ⟨order, ready, reaches, hanswer⟩
    rw [reaches.effect_buildAndRun, verdict_eq_ok_iff]
    exact hanswer

end Workbench

/-! ### Runs of the program -/

namespace Program

variable {architecture : Architecture} {requested skipBuild quiet verbose : Bool}
  {profile : BuildProfile} {tree : Tree} {cwd : Location} {texts : List String} {config : Config}

/-- A run that is to launch a guest ends as building and launching does. -/
theorem concludes_of_accepts_run (programs : Programs) (host : Host)
    (accepts : Accepts texts ⟨.run architecture requested profile skipBuild, quiet, verbose⟩)
    (loaded : Config.load tree (some cwd) = .ok config) :
    (run programs host tree cwd texts).Concludes (start tree cwd)
      (((Workbench.ofPrograms programs host config).buildAndRun architecture requested profile
        skipBuild).effect (start tree cwd)) := by
  rcases hdone : ((Workbench.ofPrograms programs host config).buildAndRun architecture requested
    profile skipBuild).effect (start tree cwd) with ⟨outcome, left⟩
  have he : (perform programs host (.run architecture requested profile skipBuild)).effect
      (start tree cwd) = (outcome, left) := by
    rw [effect_perform, show Config.load (start tree cwd).tree (start tree cwd).cwd = .ok config
      from loaded]
    exact hdone
  obtain ⟨machine, hrun, hleft⟩ := exists_performed_of_accepts programs host accepts he
  have hsame : (outcome.map fun _ => ()) = outcome := by cases outcome <;> rfl
  have concludes : (Result.performed (outcome.map fun _ => ()) machine).Concludes (start tree cwd)
      (outcome, left) := Result.concludes_performed hleft
  rwa [hsame, ← hrun] at concludes

/-- What a launch and a run of the program make of a wait status that the emulator ends with. -/
structure ExitAccount (raw : UInt32) : Prop where
  /-- The launch succeeds exactly for an exit with code zero. -/
  launched_iff : ∀ (bench : Workbench) architecture requested profile machine order ready,
    bench.Starts architecture requested profile machine.scene order ready →
    (bench.emulator.react order ready).outcome = .ok (.ofWaitStatus raw) →
      (((bench.launch architecture requested profile).run machine).1 = .ok () ↔
        Exits raw ∧ waitCode raw = 0)
  /-- Otherwise it fails for this end, and the error tells the code of an exit, or one. -/
  failed : ∀ (bench : Workbench) architecture requested profile machine order ready,
    bench.Starts architecture requested profile machine.scene order ready →
    (bench.emulator.react order ready).outcome = .ok (.ofWaitStatus raw) →
      ∀ error, ((bench.launch architecture requested profile).run machine).1 = .error error →
        error = .launch architecture.id (.ofWaitStatus raw) ∧
          error.exitCode.toNat = told raw
  /-- The program exits with the code of an exit, or with one. -/
  exitCode : ∀ programs host tree cwd texts architecture requested profile skipBuild quiet verbose
      config order ready,
    Accepts texts ⟨.run architecture requested profile skipBuild, quiet, verbose⟩ →
    Config.load tree (some cwd) = .ok config →
    (Workbench.ofPrograms programs host config).Reaches architecture requested profile skipBuild
      (start tree cwd) order ready →
    ((Workbench.ofPrograms programs host config).emulator.react order ready).outcome =
      .ok (.ofWaitStatus raw) →
      (run programs host tree cwd texts).exitCode.toNat = told raw

/-- The exit of a child is told from its wait status. -/
theorem exitAccount (raw : UInt32) : ExitAccount raw where
  launched_iff bench architecture requested profile machine order ready starts hanswer := by
    rw [starts.run_launch.1, hanswer]
    exact (Workbench.verdict_ofWaitStatus architecture order raw).1
  failed bench architecture requested profile machine order ready starts hanswer error herror := by
    rw [starts.run_launch.1, hanswer] at herror
    exact (Workbench.verdict_ofWaitStatus architecture order raw).2 error herror
  exitCode programs host tree cwd texts architecture requested profile skipBuild quiet verbose
      config order ready accepts loaded reaches hanswer := by
    have concludes := concludes_of_accepts_run programs host accepts loaded
    rw [reaches.effect_buildAndRun, hanswer] at concludes
    obtain ⟨hok, herror⟩ := Workbench.verdict_ofWaitStatus architecture order raw
    cases hverdict : Workbench.verdict architecture order (.ok (.ofWaitStatus raw)) with
    | ok value =>
      obtain ⟨hexits, hzero⟩ := hok.mp hverdict
      rw [concludes.success.mpr ⟨value, hverdict⟩, told, if_pos hexits, hzero]
      rfl
    | error error =>
      rw [concludes.failure error hverdict]
      exact (herror error hverdict).2

/-- A failure of any kind is told as one, and the end of the emulator is told as it was: the program
never makes a success of what the system does not report as one. -/
theorem no_failure_passes :
    (∀ error : Error, error.CodeAccount) ∧ (∀ raw, ExitAccount raw) ∧
      (∀ (bench : Workbench) architecture requested profile machine,
        ((bench.launch architecture requested profile).run machine).1 = .ok () ↔
          ∃ order ready, bench.Starts architecture requested profile machine.scene order ready ∧
            (bench.emulator.react order ready).outcome = .ok (.exited 0)) ∧
      ∀ programs host tree cwd texts architecture requested profile skipBuild quiet verbose config,
        Accepts texts ⟨.run architecture requested profile skipBuild, quiet, verbose⟩ →
        Config.load tree (some cwd) = .ok config →
          ((run programs host tree cwd texts).exitCode = 0 ↔
            ∃ order ready, (Workbench.ofPrograms programs host config).Reaches architecture
                requested profile skipBuild (start tree cwd) order ready ∧
              ((Workbench.ofPrograms programs host config).emulator.react order ready).outcome =
                .ok (.exited 0)) := by
  refine ⟨Error.codeAccount, exitAccount, ?launch, ?program⟩
  case launch =>
    intro bench architecture requested profile machine
    have hrun := (bench.ignoresConsole_launch architecture profile requested).effect_scene machine
    rw [← Workbench.launch_eq_ok_iff, hrun]
  case program =>
    intro programs host tree cwd texts architecture requested profile skipBuild quiet verbose config
      accepts loaded
    rw [(concludes_of_accepts_run programs host accepts loaded).success,
      ← Workbench.buildAndRun_eq_ok_iff]
    exact ⟨fun ⟨_, h⟩ => h, fun h => ⟨(), h⟩⟩

/-! ### A small system -/

/-- The small workspace with a manifest. -/
def guestTree : Tree :=
  Workbench.sampleTree.put ["w", "Cargo.toml"] (.file "[workspace]\n")

/-- A system on which every program is found and every guest ends with code 33. -/
def guestSystem : Programs :=
  Rehearsal.programs
    { git := { answer := fun _ => Text.encode "main" }, emulator := { termination := .exited 33 } }
    "/usr/bin"

/-- The workbench in the small workspace on this system. -/
def guestBench : Workbench :=
  .ofPrograms guestSystem ⟨"x86_64", "linux"⟩ (.defaults ⟨"/w"⟩)

/-- The workbench of the small workspace with an emulator that dumps its core. -/
def crashBench : Workbench :=
  { Workbench.sample with emulator := Rehearsal.emulator (.ok (.ofWaitStatus 0x8B)) }

/-- A guest that ends with code 33 is told by 33, and an emulator that dumps its core by one. -/
theorem no_failure_passes_sample :
    (Accepts ["run", "x64", "--no-build"] ⟨.run .x86_64 false .debug true, false, false⟩ ∧
      Config.load guestTree (some ["w"]) = .ok (.defaults ⟨"/w"⟩) ∧
      ∃ ready, guestBench.Reaches .x86_64 false .debug true (start guestTree ["w"])
          (guestBench.order .x86_64 .emulation) ready ∧
        (guestBench.emulator.react (guestBench.order .x86_64 .emulation) ready).outcome =
          .ok (.ofWaitStatus 0x2100) ∧
        (run guestSystem ⟨"x86_64", "linux"⟩ guestTree ["w"]
          ["run", "x64", "--no-build"]).exitCode.toNat = 33) ∧
    ∃ ready, crashBench.Starts .x86_64 false .debug Workbench.sampleMachine.scene
        (crashBench.order .x86_64 .emulation) ready ∧
      ((crashBench.launch .x86_64 false .debug).run Workbench.sampleMachine).1 ≠ .ok () ∧
      ∀ error, ((crashBench.launch .x86_64 false .debug).run Workbench.sampleMachine).1 =
        .error error → error.exitCode.toNat = 1 := by
  obtain ⟨-, haccount, -, -⟩ := no_failure_passes
  constructor
  · have accepted : Accepts ["run", "x64", "--no-build"]
        ⟨.run .x86_64 false .debug true, false, false⟩ := read_eq_ok_iff.mp (by decide)
    have loaded : Config.load guestTree (some ["w"]) = .ok (.defaults ⟨"/w"⟩) := by
      decide +kernel
    have course : ((guestBench.stage .x86_64 .debug).effect (start guestTree ["w"])).1 = .ok () ∧
        (guestBench.emulator.react (guestBench.order .x86_64 .emulation)
          ((guestBench.stage .x86_64 .debug).effect (start guestTree ["w"])).2).outcome =
            .ok (.ofWaitStatus 0x2100) := by
      decide +kernel
    obtain ⟨staged, hanswer⟩ := course
    have reaches : guestBench.Reaches .x86_64 false .debug true (start guestTree ["w"])
        (guestBench.order .x86_64 .emulation)
        ((guestBench.stage .x86_64 .debug).effect (start guestTree ["w"])).2 :=
      ⟨_, rfl, .emulation, rfl, Prod.fst_eq_iff.mp staged, rfl⟩
    exact ⟨accepted, loaded, _, reaches, hanswer,
      (haccount 0x2100).exitCode _ _ _ _ _ _ _ _ _ _ _ _ _ _ accepted loaded reaches hanswer⟩
  · have staged : ((crashBench.stage .x86_64 .debug).effect Workbench.sampleMachine.scene).1 =
        .ok () := by
      decide +kernel
    have starts : crashBench.Starts .x86_64 false .debug Workbench.sampleMachine.scene
        (crashBench.order .x86_64 .emulation)
        ((crashBench.stage .x86_64 .debug).effect Workbench.sampleMachine.scene).2 :=
      ⟨.emulation, rfl, Prod.fst_eq_iff.mp staged, rfl⟩
    refine ⟨_, starts, ?_, fun error herror => ?_⟩
    · rw [ne_eq, (haccount 0x8B).launched_iff _ _ _ _ _ _ _ starts rfl]
      decide
    · exact ((haccount 0x8B).failed _ _ _ _ _ _ _ starts rfl error herror).2

end Program

end Bootstage
