import Bootstage.Proofs.BootEnvironment.Anchored
import Bootstage.Proofs.Config.Loading
import Bootstage.Proofs.Launch.Drives
import Bootstage.Proofs.Workbench.Building
import Bootstage.Rehearsal

/-!
# Agreement on paths

The program runs in one directory, and the programs that it starts in another. Under a configuration
that was loaded a boot loader is looked for where the toolchain leaves it, and what is staged is
found from everywhere. The emulator is told the places of what is staged by texts that it reads for
options: it means the same places exactly if both directories are texts without commas.
-/

namespace Bootstage

open Bootstage.Action

/-- The drives that show a directory and two files of firmware to a guest. -/
def Launch.drivesOn (esp code vars : Path) : List String :=
  ["-drive", "format=raw,file=fat:rw:" ++ esp.shown,
    "-drive", "if=pflash,format=raw,file=" ++ code.shown ++ ",readonly=on",
    "-drive", "if=pflash,format=raw,file=" ++ vars.shown]

/-- The drives show the two copies under their names in the directory of the firmware. -/
theorem Launch.drives_eq_drivesOn {architecture : Architecture} {code vars : Name}
    (names : architecture.FileNames code vars) (environment : BootEnvironment) :
    drives architecture environment = drivesOn environment.espDir
      (environment.firmwareDir / code) (environment.firmwareDir / vars) := by
  rw [drives, codeDrive_eq names, varsDrive_eq names]
  rfl

/-- The emulator reads three paths from the drives of a boot environment. -/
structure Launch.Shows (architecture : Architecture) (environment : BootEnvironment)
    (esp code vars : Path) : Prop where
  /-- The first stands for a disk. -/
  esp : ∃ text : String,
    options (espDrive environment) = diskOptions text ∧ (⟨text⟩ : Path) = esp
  /-- The second is flash memory that is not written. -/
  code : ∃ text : String,
    options (codeDrive architecture environment) = codeOptions text ∧ (⟨text⟩ : Path) = code
  /-- The third is flash memory. -/
  vars : ∃ text : String,
    options (varsDrive architecture environment) = varsOptions text ∧ (⟨text⟩ : Path) = vars

/-- What is staged is read from the drives exactly if both directories are texts without commas. -/
theorem Launch.shows_iff {architecture : Architecture}
    (registered : architecture ∈ Architecture.registered) (environment : BootEnvironment) :
    Shows architecture environment environment.espDir
        (environment.firmwareCopy architecture.firmwareCode)
        (environment.firmwareCopy architecture.firmwareVars) ↔
      environment.espDir.Legible ∧ environment.firmwareDir.Legible := by
  have hread := drivesRead registered environment
  constructor
  · intro h
    exact ⟨hread.esp.staged.mp h.esp, hread.code.staged.mp h.code⟩
  · rintro ⟨hesp, hfirmware⟩
    exact ⟨hread.esp.staged.mpr hesp, hread.code.staged.mpr hfirmware,
      hread.vars.staged.mpr hfirmware⟩

namespace Config

variable {tree : Tree} {cwd : Option Location} {config : Config} {root : Path}

/-- The emulator is told what is staged. -/
structure DrivesAgree (config : Config) (architecture : Architecture) (code vars : Path) :
    Prop where
  /-- The emulator is started in the root of the workspace and given three drives. -/
  shown : ∀ acceleration,
    (Launch.compose architecture acceleration config (.ofConfig config)).command.workingDir =
        config.workspaceRoot ∧
      ∃ front, (Launch.compose architecture acceleration config (.ofConfig config)).command.args =
        front ++ Launch.drivesOn config.espDir code vars ++ ["-nographic"]
  /-- It reads the directory and the two files from them exactly if both directories are texts
  without commas. -/
  meant : Launch.Shows architecture (.ofConfig config) config.espDir code vars ↔
    config.espDir.Legible ∧ config.firmwareDir.Legible
  /-- The copies are made at the paths of the two files and in the directory. -/
  copied : ∀ profile,
    ((BootEnvironment.ofConfig config).sources architecture profile config).map Prod.snd =
      [code, vars, config.espDir / "efi" / "boot" / architecture.bootFile]
  /-- They are made in the same way from every directory. -/
  anywhere : ∀ profile,
    ((BootEnvironment.ofConfig config).assemble architecture profile config).IgnoresDirectory
  /-- The paths lead to the same places from every directory. -/
  led : ∀ path ∈ [config.espDir, code, vars], ∀ (tree : Tree) (here there : Option Location) last,
    tree.locate here path last = tree.locate there path last
  /-- What has been made is found from every directory: there the paths lead to a directory and to
  two files. -/
  found : ∀ profile before after,
    ((BootEnvironment.ofConfig config).assemble architecture profile config).effect before =
        (.ok (), after) →
      ∀ here, after.tree.presentDirectory here config.espDir = true ∧
        ∀ path ∈ [code, vars], ∃ content, after.tree.read here path = .ok content

/-- A boot loader is looked for where the toolchain leaves it. -/
structure TargetAgrees (config : Config) : Prop where
  /-- The directory of what is built is `target` in the directory in which the toolchain runs. -/
  named : ∀ (request : BuildRequest) searchPath?,
    (request.command config searchPath?).workingDir / "target" = config.targetDir
  /-- The toolchain is told no other directory. -/
  untold : ∀ architecture ∈ Architecture.registered, ∀ profile searchPath?,
    let command := (BuildRequest.loader architecture profile).command config searchPath?
    (∀ argument ∈ command.args, ¬ "--target-dir".toList <+: argument.toList) ∧
      ∀ assigned ∈ command.environment, assigned.1 = "PATH"
  /-- What is named below `target` from there is named below the directory of what is built from
  everywhere, unless that path is too long or leads through too many links. -/
  led : ∀ (request : BuildRequest) searchPath? (tree : Tree) cwd start,
    tree.locate cwd (request.command config searchPath?).workingDir = .ok start →
      ∀ below last,
        tree.locate cwd (config.targetDir.join below) last =
            tree.locate (some start) ((⟨"target"⟩ : Path).join below) last ∨
          tree.locate cwd (config.targetDir.join below) last = .error .nameTooLong ∨
            tree.locate cwd (config.targetDir.join below) last = .error .tooManyLinks
  /-- The boot loader of an architecture is below that directory. -/
  below : ∀ architecture ∈ Architecture.registered, ∀ profile,
    config.loader architecture profile =
      config.targetDir.join
        ((⟨architecture.loaderTarget⟩ : Path) / profile.directoryName / "boot_loader.efi")
  /-- A build succeeds only if it is there. -/
  checked : ∀ bench : Workbench, bench.config = config → ∀ architecture profile scene,
    ((bench.requireLoader architecture profile).effect scene).1 = .ok () ↔
      scene.tree.present scene.cwd (config.loader architecture profile) = true
  /-- It is copied from there. -/
  copied : ∀ (environment : BootEnvironment) architecture profile,
    (config.loader architecture profile, environment.bootFile architecture) ∈
      environment.sources architecture profile config

/-- In a workspace with an absolute root the drives agree with what is staged. -/
theorem Rooted.drivesAgree (h : config.Rooted root) (hroot : root.isAbsolute = true)
    {architecture : Architecture} (registered : architecture ∈ Architecture.registered) :
    ∃ code vars : Name, config.DrivesAgree architecture (config.firmwareDir / code)
      (config.firmwareDir / vars) := by
  obtain ⟨code, vars, names⟩ := Architecture.exists_fileNames registered
  have hcode := names.firmwareCopy_code (.ofConfig config)
  have hvars := names.firmwareCopy_vars (.ofConfig config)
  have habsolute := h.isAbsolute hroot
  have hesp : config.espDir.isAbsolute = true := habsolute _ (by simp)
  have hfirmware : config.firmwareDir.isAbsolute = true := habsolute _ (by simp)
  have hpaths : ∀ path ∈ [config.espDir, config.firmwareDir / code, config.firmwareDir / vars],
      path.isAbsolute = true := by
    simp only [List.forall_mem_cons, List.not_mem_nil, false_implies, implies_true, and_true]
    exact ⟨hesp, Path.isAbsolute_div hfirmware _, Path.isAbsolute_div hfirmware _⟩
  have hmeant := Launch.shows_iff registered (.ofConfig config)
  rw [hcode, hvars] at hmeant
  refine ⟨code, vars, fun acceleration => ⟨rfl, ?_⟩, hmeant, fun profile => ?_, fun profile => ?_,
    ?_, ?_⟩
  · have hargs : (Launch.compose architecture acceleration config (.ofConfig config)).args =
        _ ++ Launch.drives architecture (.ofConfig config) ++ ["-nographic"] := rfl
    rw [Launch.drives_eq_drivesOn names] at hargs
    exact ⟨_, hargs⟩
  · rw [BootEnvironment.sources, hcode, hvars]
    rfl
  · exact BootEnvironment.ignoresDirectory_assemble hesp hfirmware (habsolute _ (by simp))
      (habsolute _ (by simp))
  · exact fun path hp tree here there last => tree.locate_anywhere here there (hpaths path hp) last
  · intro profile before after hassemble here
    have hread := BootEnvironment.exists_read_of_copied hassemble
    simp only [BootEnvironment.sources, hcode, hvars, List.forall_mem_cons] at hread
    obtain ⟨hreadCode, hreadVars, ⟨loader, hreadLoader⟩, -⟩ := hread
    have hwritten : (BootEnvironment.ofConfig config).espDir.bytes ≠ [] :=
      Path.bytes_ne_nil_of_isAbsolute hesp
    have hpresent :=
      BootEnvironment.presentDirectory_of_read_bootFile registered hwritten hreadLoader
    rw [after.tree.presentDirectory_anywhere here after.cwd hesp]
    refine ⟨hpresent, ?_⟩
    simp only [List.forall_mem_cons, List.not_mem_nil, false_implies, implies_true, and_true]
    rw [after.tree.read_anywhere here after.cwd (Path.isAbsolute_div hfirmware code),
      after.tree.read_anywhere here after.cwd (Path.isAbsolute_div hfirmware vars)]
    exact ⟨hreadCode, hreadVars⟩

/-- The toolchain leaves a boot loader where it leaves everything by itself. -/
theorem untold_of_loader {architecture : Architecture}
    (registered : architecture ∈ Architecture.registered) (profile : BuildProfile) :
    ∀ argument ∈ (BuildRequest.loader architecture profile).args,
      ¬ "--target-dir".toList <+: argument.toList := by
  have hall : ∀ architecture ∈ Architecture.registered, ∀ release : Bool,
      ∀ argument ∈ BuildRequest.args ⟨architecture.loaderTarget, "boot_loader", [], release⟩,
        ¬ "--target-dir".toList <+: argument.toList := by
    decide +kernel
  exact hall architecture registered profile.isRelease

/-- The search path is the only variable that a build is given. -/
theorem name_of_mem_environment {searchPath? : Option Text.Bytes}
    {assigned : String × Text.Bytes}
    (h : assigned ∈ BuildRequest.environment config searchPath?) : assigned.1 = "PATH" := by
  unfold BuildRequest.environment at h
  split at h
  · simp at h
  · split at h
    · simp at h
    · rw [List.mem_singleton.mp h]

/-- The boot loader of an architecture is named from the directory of what is built. -/
theorem loader_eq_join (config : Config) {architecture : Architecture}
    (registered : architecture ∈ Architecture.registered) (profile : BuildProfile) :
    config.loader architecture profile = config.targetDir.join
      ((⟨architecture.loaderTarget⟩ : Path) / profile.directoryName / "boot_loader.efi") := by
  have hrelative : ∀ architecture ∈ Architecture.registered,
      (⟨architecture.loaderTarget⟩ : Path).isAbsolute = false ∧
        Text.encode architecture.loaderTarget ≠ [] := by
    decide +kernel
  obtain ⟨htarget, hwritten⟩ := hrelative architecture registered
  have hdirectory : (⟨profile.directoryName⟩ : Path).isAbsolute = false := by
    cases profile <;> decide
  have hmiddle := (Path.isAbsolute_join hdirectory).trans htarget
  have hbetween := Path.bytes_join_ne_nil ⟨architecture.loaderTarget⟩ hdirectory (.inl hwritten)
  exact (congrArg (· / (⟨"boot_loader.efi"⟩ : Path)) (Path.join_join _ htarget hwritten _)).trans
    (Path.join_join _ hmiddle hbetween _)

/-- In every workspace the target directory is that of the toolchain. -/
theorem Rooted.targetAgrees (h : config.Rooted root) : config.TargetAgrees where
  named request searchPath? := by
    rw [h.targetDir, ← h.workspaceRoot]
    rfl
  untold architecture registered profile searchPath? :=
    ⟨untold_of_loader registered profile, fun assigned ha => name_of_mem_environment ha⟩
  led request searchPath? tree cwd start hstart below last := by
    have hjoin : config.targetDir.join below =
        config.workspaceRoot.join ((⟨"target"⟩ : Path).join below) := by
      rw [h.targetDir, h.workspaceRoot]
      exact Path.join_join root (by decide) (by decide) below
    rw [hjoin]
    cases hb : below.isAbsolute with
    | true =>
      rw [Path.join_of_isAbsolute hb, Path.join_of_isAbsolute hb]
      exact .inl (tree.locate_anywhere _ _ hb last)
    | false =>
      have hrelative : ((⟨"target"⟩ : Path).join below).isAbsolute = false :=
        (Path.isAbsolute_join hb).trans (by decide)
      have hwritten : ((⟨"target"⟩ : Path).join below).bytes ≠ [] :=
        Path.bytes_join_ne_nil _ hb (.inl (by decide))
      exact Tree.locate_join hrelative hwritten hstart last
  below architecture registered profile := config.loader_eq_join registered profile
  checked bench hbench architecture profile scene := by
    rw [Workbench.effect_requireLoader, hbench]
    split <;> simp_all
  copied environment architecture profile := by
    simp [BootEnvironment.sources]

/-- What a configuration says of places means the same to all. -/
structure Agreement (tree : Tree) (cwd : Option Location) (config : Config) : Prop where
  /-- Each place is named from the root. -/
  absolute : ∀ path ∈ [config.workspaceRoot, config.targetDir, config.espDir, config.firmwareDir],
    path.isAbsolute = true
  /-- All of them are texts if the root of the workspace is one. -/
  texts : config.workspaceRoot.IsText →
    ∀ path ∈ [config.targetDir, config.espDir, config.firmwareDir], path.IsText
  /-- The root of the workspace is there, so that programs can be started in it. -/
  there : ∃ start, tree.locate cwd config.workspaceRoot = .ok start ∧
    tree.get? start = some .directory
  /-- The emulator is told what is staged, with two copies in the directory of the firmware. -/
  drives : ∀ architecture ∈ Architecture.registered, ∃ code vars : Name,
    config.DrivesAgree architecture (config.firmwareDir / code) (config.firmwareDir / vars)
  /-- A boot loader is looked for where the toolchain leaves it. -/
  target : config.TargetAgrees

/-- Under every configuration that is loaded, whatever the manifest says, the program and those that
it starts mean the same places; of the emulator this holds exactly if the directories that it is
shown are texts without commas. -/
theorem components_agree (loaded : load tree cwd = .ok config) : Agreement tree cwd config := by
  obtain ⟨directory, text, hmanifest, start, hstart⟩ := exists_root_of_load loaded
  have hrooted := rooted_of_ofManifest hmanifest
  have hroot := Path.isAbsolute_ofLocation directory
  refine ⟨hrooted.isAbsolute hroot, hrooted.isText, ⟨start, ?_⟩, fun architecture registered => ?_,
    ?_⟩
  · rw [hrooted.workspaceRoot]
    exact hstart
  · exact hrooted.drivesAgree hroot registered
  · exact hrooted.targetAgrees

/-- A workspace whose settings lead out of it, one on a detour and one from the root. -/
def detouredTree : Tree :=
  Tree.empty.putAll [(["w"], .directory), (["w", "kernel"], .directory),
    (["w", "Cargo.toml"], .file (Text.encode
      "[workspace]\n[workspace.metadata.corgos]\nesp-dir = \"../out\"\nfirmware-dir = \"/fw\"\n"))]

/-- The program is run in a directory of the workspace, and the emulator in its root. -/
theorem components_agree_sample :
    ∃ config, load detouredTree (some ["w", "kernel"]) = .ok config ∧
      config.espDir = ⟨"/w/../out"⟩ ∧ config.firmwareDir = ⟨"/fw"⟩ ∧
        Agreement detouredTree (some ["w", "kernel"]) config := by
  have loaded : load detouredTree (some ["w", "kernel"]) =
      .ok { defaults ⟨"/w"⟩ with espDir := ⟨"/w/../out"⟩, firmwareDir := ⟨"/fw"⟩ } := by
    decide +kernel
  exact ⟨_, loaded, rfl, rfl, components_agree loaded⟩

/-- A workspace in a directory with the given name. -/
def namedTree (name : Name) : Tree :=
  Tree.empty.putAll [([name], .directory), ([name, "Cargo.toml"], .file "[workspace]\n")]

/-- In a directory whose name holds a comma, or is not a text, a configuration is loaded under which
the emulator is shown other places than those that are staged. -/
theorem drives_leave_staged :
    (load (namedTree "w,s") (some ["w,s"]) = .ok (defaults ⟨"/w,s"⟩) ∧
      (defaults ⟨"/w,s"⟩).espDir = ⟨"/w,s/esp"⟩ ∧
      Launch.options (Launch.espDrive (.ofConfig (defaults ⟨"/w,s"⟩))) =
        [("format", "raw"), ("file", "fat:rw:/w"), ("s/esp", "on")] ∧
      Launch.options (Launch.codeDrive .x86_64 (.ofConfig (defaults ⟨"/w,s"⟩))) =
        [("if", "pflash"), ("format", "raw"), ("file", "/w"), ("s/ovmf/OVMF_CODE.fd", "on"),
          ("readonly", "on")]) ∧
    (load (namedTree [0xFF]) (some [[0xFF]]) = .ok (defaults ⟨[Path.slash, 0xFF]⟩) ∧
      (defaults ⟨[Path.slash, 0xFF]⟩).espDir ≠ ⟨"/\uFFFD/esp"⟩ ∧
      Launch.options (Launch.espDrive (.ofConfig (defaults ⟨[Path.slash, 0xFF]⟩))) =
        Launch.diskOptions "/\uFFFD/esp") := by
  refine ⟨⟨?_, ?_, ?_, ?_⟩, ?_, ?_, ?_⟩ <;> decide +kernel

end Config

end Bootstage
