import Bootstage.Programs
import Bootstage.Proofs.Text.Splitting

/-!
# A directory in front of a search path

A search path can be put together from directories in one way only. With one more directory in front
it lists that directory and then what it has listed before: nothing is lost, merged or moved. In
nothing else does the command of a build depend on that directory. A search path that is not set is
taken for an empty text, though, and an empty text lists the working directory.
-/

namespace Bootstage

namespace SearchPath

variable {searchPath found : Text.Bytes} {directories : List Text.Bytes} {directory : Path}

/-- A search path lists directories: it is made of them with colons in between, and there is no
colon in any of them. -/
structure Lists (searchPath : Text.Bytes) (directories : List Text.Bytes) : Prop where
  /-- There is one of them at least. -/
  nonempty : directories ≠ []
  /-- Each of them can be listed. -/
  listable : ∀ directory ∈ directories, colon ∉ directory
  /-- Nothing else is in the search path. -/
  joined : [colon].intercalate directories = searchPath

/-- The entries of a search path are the directories that it lists, and no others are listed. -/
theorem lists_iff : Lists searchPath directories ↔ entries searchPath = directories := by
  constructor
  · rintro ⟨nonempty, listable, rfl⟩
    exact List.splitOn_intercalate colon listable nonempty
  · rintro rfl
    exact ⟨List.splitOn_ne_nil colon searchPath, fun _ => Text.notMem_of_mem_splitOn,
      List.intercalate_splitOn colon⟩

/-- A directory is listed in front of all that a search path lists. -/
theorem lists_append_iff (listable : colon ∉ directory.bytes) :
    Lists (directory.bytes ++ colon :: searchPath) (directory.bytes :: directories) ↔
      Lists searchPath directories := by
  have hentries : entries (directory.bytes ++ colon :: searchPath) =
      directory.bytes :: entries searchPath :=
    List.splitOn_append_cons_self_of_not_mem listable searchPath
  rw [lists_iff, lists_iff, hentries, List.cons.injEq, eq_self_iff_true, true_and]

/-- Directories are listed exactly if there is no colon in any, and they are joined by colons. -/
theorem ofEntries?_eq_some_iff :
    ofEntries? directories = some found ↔
      (∀ directory ∈ directories, colon ∉ directory) ∧ [colon].intercalate directories = found := by
  unfold ofEntries?
  split
  · next h =>
    obtain ⟨directory, hd, hc⟩ := List.any_eq_true.mp h
    simp only [reduceCtorEq, false_iff, not_and]
    exact fun listable => absurd (List.contains_iff_mem.mp hc) (listable directory hd)
  · next h =>
    have listable : ∀ directory ∈ directories, colon ∉ directory := by
      simpa using h
    rw [Option.some.injEq]
    exact ⟨fun hjoin => ⟨listable, hjoin⟩, fun hjoin => hjoin.2⟩

/-- The search path with a directory in front is the directory, a colon and the search path. -/
theorem withFirst?_eq_some_iff :
    withFirst? directory searchPath = some found ↔
      colon ∉ directory.bytes ∧ found = directory.bytes ++ colon :: searchPath := by
  have hlists : Lists searchPath (entries searchPath) := lists_iff.mpr rfl
  rw [withFirst?, ofEntries?_eq_some_iff, List.forall_mem_cons,
    List.intercalate_cons_of_ne_nil hlists.nonempty, hlists.joined, and_assoc, List.append_assoc,
    List.singleton_append]
  exact and_congr_right fun _ => ⟨fun h => h.2.symm, fun h => ⟨hlists.listable, h.symm⟩⟩

/-- Programs are looked for in the working directory, too: some entry adds nothing to their
names. -/
def SeeksHere (searchPath : Text.Bytes) : Prop :=
  ∃ entry ∈ entries searchPath, ∀ program : String, candidate entry program = ⟨program⟩

/-- It is the empty entry that stands for the working directory. -/
theorem seeksHere_iff : SeeksHere searchPath ↔ [] ∈ entries searchPath := by
  constructor
  · rintro ⟨entry, he, hbare⟩
    by_cases hentry : entry = []
    · exact hentry ▸ he
    · have hbytes := congrArg Path.bytes (hbare "")
      simp [candidate, hentry] at hbytes
  · exact fun he => ⟨[], he, fun _ => rfl⟩

end SearchPath

namespace BuildRequest

open SearchPath

variable {request : BuildRequest} {config : Config} {searchPath? : Option Text.Bytes}
  {directory : Path}

/-- A directory that can be listed is put in front of the search path. -/
theorem environment_of_listable (given : config.llvmBinDir? = some directory)
    (listable : colon ∉ directory.bytes) :
    environment config searchPath? =
      [("PATH", directory.bytes ++ colon :: searchPath?.getD [])] := by
  have hfirst : withFirst? directory (searchPath?.getD []) =
      some (directory.bytes ++ colon :: searchPath?.getD []) :=
    withFirst?_eq_some_iff.mpr ⟨listable, rfl⟩
  simp only [environment, given, hfirst]

/-- Without such a directory no variable is set. -/
theorem environment_of_not_listable
    (h : ¬∃ directory, config.llvmBinDir? = some directory ∧ colon ∉ directory.bytes) :
    environment config searchPath? = [] := by
  unfold environment
  split
  · rfl
  · next directory given =>
    split
    · rfl
    · next found hfirst =>
      exact absurd ⟨directory, given, (withFirst?_eq_some_iff.mp hfirst).1⟩ h

/-- What the command of a request has to do with the search path of the parent. -/
structure CommandAccount (request : BuildRequest) (config : Config)
    (searchPath? : Option Text.Bytes)
    (command : Command) : Prop where
  /-- The search path is set for the child exactly if there is a directory that can be listed. -/
  overridden_iff : (∃ value, ("PATH", value) ∈ command.environment) ↔
    ∃ directory, config.llvmBinDir? = some directory ∧ colon ∉ directory.bytes
  /-- No other variable is set. -/
  only : ∀ name value, (name, value) ∈ command.environment → name = "PATH"
  /-- It is set once, to the directory, a colon and the search path of the parent. -/
  value : ∀ directory, config.llvmBinDir? = some directory → colon ∉ directory.bytes →
    command.environment = [("PATH", directory.bytes ++ colon :: searchPath?.getD [])]
  /-- It lists the directory and then all that the search path of the parent lists. -/
  lists_iff : ∀ directory value, config.llvmBinDir? = some directory →
    ("PATH", value) ∈ command.environment → ∀ directories,
      Lists value (directory.bytes :: directories) ↔ Lists (searchPath?.getD []) directories
  /-- The child is looked for along it. -/
  sought : ∀ programs : Programs, programs.searchPathFor command =
    ((config.llvmBinDir?.bind (withFirst? · (searchPath?.getD []))).getD programs.searchPath)
  /-- Everything else is the same with any other directory and search path. -/
  independent : ∀ directory? other?, ∃ environment,
    request.command { config with llvmBinDir? := directory? } other? =
      { command with environment := environment }

/-- The directory of the configuration is put in front of the search path, and nothing else depends
on it. -/
theorem command_account (request : BuildRequest) (config : Config)
    (searchPath? : Option Text.Bytes) :
    CommandAccount request config searchPath? (request.command config searchPath?) := by
  have hset : ∀ {name value}, (name, value) ∈ environment config searchPath? →
      ∃ directory, config.llvmBinDir? = some directory ∧ colon ∉ directory.bytes ∧
        name = "PATH" ∧ value = directory.bytes ++ colon :: searchPath?.getD [] := by
    intro name value hm
    by_cases h : ∃ directory, config.llvmBinDir? = some directory ∧ colon ∉ directory.bytes
    · obtain ⟨directory, given, listable⟩ := h
      rw [environment_of_listable given listable, List.mem_singleton] at hm
      exact ⟨directory, given, listable, Prod.mk.inj hm⟩
    · rw [environment_of_not_listable h] at hm
      exact absurd hm List.not_mem_nil
  refine ⟨⟨?set, ?unset⟩, ?only, fun _ given listable => environment_of_listable given listable,
    ?lists, fun programs => ?sought, fun _ _ => ⟨_, rfl⟩⟩
  case set =>
    rintro ⟨value, hm⟩
    obtain ⟨directory, given, listable, -⟩ := hset hm
    exact ⟨directory, given, listable⟩
  case unset =>
    rintro ⟨directory, given, listable⟩
    exact ⟨_, environment_of_listable given listable ▸ List.mem_singleton_self _⟩
  case only =>
    intro name value hm
    obtain ⟨_, -, -, hname, -⟩ := hset hm
    exact hname
  case lists =>
    intro directory value given hm directories
    obtain ⟨other, hother, listable, -, rfl⟩ := hset hm
    obtain rfl : directory = other := Option.some.inj (given.symm.trans hother)
    exact lists_append_iff listable
  case sought =>
    show ((environment config searchPath?).lookup "PATH").getD _ = _
    unfold environment
    cases config.llvmBinDir? with
    | none => rfl
    | some directory => cases hfirst : withFirst? directory (searchPath?.getD []) <;> simp [hfirst]

/-- What a child finds on its search path when there is a directory to be put in front. -/
structure ChildAccount (directory : Path) (searchPath? : Option Text.Bytes) (value : Text.Bytes) :
    Prop where
  /-- Behind the directory there is what the parent finds on its search path, -/
  inherited : ∀ parent, searchPath? = some parent →
    entries value = directory.bytes :: entries parent
  /-- or the working directory where no search path is set. -/
  unset : searchPath? = none → entries value = [directory.bytes, []]
  /-- So there is an empty entry exactly if the parent has no search path without one. -/
  empty_iff : [] ∈ entries value ↔ ∀ parent, searchPath? = some parent → [] ∈ entries parent
  /-- And so it is with the working directory. -/
  here_iff : SeeksHere value ↔ ∀ parent, searchPath? = some parent → SeeksHere parent

/-- A directory in front of a search path makes no child look into its working directory, but a
search path that is not set does. -/
theorem child_account (request : BuildRequest) (config : Config)
    (given : config.llvmBinDir? = some directory) (named : directory.bytes ≠ [])
    (listable : colon ∉ directory.bytes) (searchPath? : Option Text.Bytes) :
    ∃ value, (request.command config searchPath?).environment = [("PATH", value)] ∧
      ChildAccount directory searchPath? value := by
  have hentries : entries (directory.bytes ++ colon :: searchPath?.getD []) =
      directory.bytes :: entries (searchPath?.getD []) :=
    lists_iff.mp ((lists_append_iff listable).mpr (lists_iff.mpr rfl))
  have hempty : [] ∈ entries (directory.bytes ++ colon :: searchPath?.getD []) ↔
      ∀ parent, searchPath? = some parent → [] ∈ entries parent := by
    rw [hentries, List.mem_cons, or_iff_right (Ne.symm named)]
    cases searchPath? with
    | none => simp [entries]
    | some parent => simp
  refine ⟨_, environment_of_listable given listable, ?inherited, ?unset, hempty, ?here⟩
  case inherited =>
    rintro parent rfl
    exact hentries
  case unset =>
    rintro rfl
    exact hentries
  case here => simpa only [seeksHere_iff] using hempty

/-- The request of a boot loader. -/
def sampleRequest : BuildRequest where
  target := "aarch64-unknown-uefi"
  package := "boot_loader"
  features := []
  release := false

/-- A configuration with a directory for the search path. -/
def sampleConfig : Config :=
  { Config.defaults ⟨"/w"⟩ with llvmBinDir? := some ⟨"/opt/llvm/bin"⟩ }

/-- Two directories and one more in front of them. -/
theorem child_account_sample :
    (sampleRequest.command sampleConfig (some "/usr/bin:/bin")).environment =
        [("PATH", Text.encode "/opt/llvm/bin:/usr/bin:/bin")] ∧
      entries "/opt/llvm/bin:/usr/bin:/bin" =
        ["/opt/llvm/bin", "/usr/bin", "/bin"].map Text.encode ∧
      ¬ SeeksHere "/opt/llvm/bin:/usr/bin:/bin" := by
  obtain ⟨value, hset, account⟩ := child_account sampleRequest sampleConfig rfl
    (by decide) (by decide) (some "/usr/bin:/bin")
  obtain rfl : value = Text.encode "/opt/llvm/bin:/usr/bin:/bin" := by
    have hvalue : environment sampleConfig (some "/usr/bin:/bin") =
        [("PATH", Text.encode "/opt/llvm/bin:/usr/bin:/bin")] := by
      decide +kernel
    simpa using (hset.symm.trans hvalue)
  refine ⟨hset, (account.inherited _ rfl).trans (by decide +kernel), fun hseeks => ?_⟩
  have hparent := seeksHere_iff.mp (account.here_iff.mp hseeks _ rfl)
  exact absurd hparent (by decide +kernel)

/-- Where no search path is set, the child looks into its working directory. -/
theorem seeksHere_of_unset :
    (sampleRequest.command sampleConfig none).environment =
        [("PATH", Text.encode "/opt/llvm/bin:")] ∧
      entries "/opt/llvm/bin:" = ["/opt/llvm/bin", ""].map Text.encode ∧
      SeeksHere "/opt/llvm/bin:" := by
  refine ⟨by decide +kernel, by decide +kernel, seeksHere_iff.mpr (by decide +kernel)⟩

end BuildRequest

end Bootstage
