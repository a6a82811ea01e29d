import Bootstage.Launch
import Bootstage.Proofs.BootEnvironment.Filling
import Bootstage.Proofs.Path.Shown

/-!
# Drives as the emulator reads them

The emulator takes the text of a drive for options between single commas. In the value of an option
two commas in a row stand for one. What is shown for the paths of a boot environment is put into
such texts as it is: each drive is read as it is meant exactly if no comma is shown for its
directory, and then it names the path that is staged exactly if that directory is a text.
-/

namespace Bootstage.Launch

/-! ### Options -/

/-- The part of an option that has been read. -/
inductive OptionPart
  /-- A piece of its name. -/
  | inName (read : List Char)
  /-- Its name and a piece of its value. -/
  | inValue (name read : List Char)

/-- The option that ends behind a part. A name alone turns something on, or off behind a `no`. -/
def OptionPart.ended : OptionPart → String × String
  | .inName ('n' :: 'o' :: flag) => (String.ofList flag, "off")
  | .inName flag => (String.ofList flag, "on")
  | .inValue name value => (String.ofList name, String.ofList value)

/-- Reads options from a part of the first of them on. -/
def optionsFrom : OptionPart → List Char → List (String × String)
  | .inName [], [] => []
  | part, [] => [part.ended]
  | .inName read, '=' :: rest => optionsFrom (.inValue read []) rest
  | .inValue name read, ',' :: ',' :: rest => optionsFrom (.inValue name (read ++ [','])) rest
  | part, ',' :: rest => part.ended :: optionsFrom (.inName []) rest
  | .inName read, c :: rest => optionsFrom (.inName (read ++ [c])) rest
  | .inValue name read, c :: rest => optionsFrom (.inValue name (read ++ [c])) rest

/-- The options that a text is read as. -/
def options (text : String) : List (String × String) :=
  optionsFrom (.inName []) text.toList

variable {name read chars rest : List Char} {part : OptionPart} {c : Char}

/-- Any other character is a further one of the value. -/
theorem optionsFrom_value_cons (h : c ≠ ',') :
    optionsFrom (.inValue name read) (c :: rest) =
      optionsFrom (.inValue name (read ++ [c])) rest := by
  rw [optionsFrom] <;> simp_all

/-- A single comma ends the option in front of it. -/
theorem optionsFrom_comma (h : rest.head? ≠ some ',') :
    optionsFrom part (',' :: rest) = part.ended :: optionsFrom (.inName []) rest := by
  rw [optionsFrom]
  rintro name value more - rfl
  simp at h

/-- A text without commas belongs to the value as it is. -/
theorem optionsFrom_value_of_notMem (h : ',' ∉ chars) :
    optionsFrom (.inValue name read) chars =
      [(String.ofList name, String.ofList (read ++ chars))] := by
  induction chars generalizing read with
  | nil => simp [optionsFrom, OptionPart.ended]
  | cons c chars ih =>
    rw [optionsFrom_value_cons fun e => h (e ▸ List.mem_cons_self),
      ih fun hm => h (List.mem_cons_of_mem c hm), List.append_assoc, List.singleton_append]

/-- What is read as a value is as long as its text without commas, and shorter with a comma. -/
theorem exists_value_optionsFrom (name read : List Char) : ∀ chars : List Char,
    ∃ value others, optionsFrom (.inValue name read) chars =
        (String.ofList name, String.ofList value) :: others ∧
      value.length ≤ read.length + chars.length ∧
        (',' ∈ chars → value.length < read.length + chars.length)
  | [] => ⟨read, [], rfl, by simp, by simp⟩
  | [c] => by
    by_cases hc : c = ','
    · subst hc
      exact ⟨read, [], rfl, by simp, by simp⟩
    · exact ⟨read ++ [c], [], by rw [optionsFrom_value_cons hc]; rfl, by simp, by simp [Ne.symm hc]⟩
  | c :: d :: rest => by
    by_cases hc : c = ','
    · subst hc
      by_cases hd : d = ','
      · subst hd
        obtain ⟨value, others, heq, hle, -⟩ := exists_value_optionsFrom name (read ++ [',']) rest
        simp only [List.length_append, List.length_cons, List.length_nil] at hle ⊢
        exact ⟨value, others, by rw [← heq, optionsFrom], by omega, fun _ => by omega⟩
      · refine ⟨read, _, optionsFrom_comma (by simpa using hd), ?_, fun _ => ?_⟩ <;> simp
    · obtain ⟨value, others, heq, hle, hlt⟩ :=
        exists_value_optionsFrom name (read ++ [c]) (d :: rest)
      simp only [List.length_append, List.length_cons, List.length_nil] at hle hlt ⊢
      refine ⟨value, others, by rw [optionsFrom_value_cons hc, heq], by omega, fun hm => ?_⟩
      have := hlt ((List.mem_cons.mp hm).resolve_left (Ne.symm hc))
      omega

/-- A text is read as one value, character for character, exactly if it holds no comma. -/
theorem optionsFrom_value_eq_iff :
    optionsFrom (.inValue name read) chars = [(String.ofList name, String.ofList (read ++ chars))] ↔
      ',' ∉ chars := by
  refine ⟨fun h hm => ?_, optionsFrom_value_of_notMem⟩
  obtain ⟨value, others, heq, -, hlt⟩ := exists_value_optionsFrom name read chars
  have hvalue : value = read ++ chars :=
    String.ofList_inj.mp (Prod.mk.inj (List.cons.inj (heq.symm.trans h)).1).2
  have hshort := hlt hm
  simp only [hvalue, List.length_append] at hshort
  omega

/-- What is the last item of a part is the last of the whole. -/
private theorem getLast?_ne_of_cons {chars : List Char} {c d : Char}
    (h : (c :: chars).getLast? ≠ some d) : chars.getLast? ≠ some d := by
  intro hl
  obtain ⟨front, rfl⟩ := List.getLast?_eq_some_iff.mp hl
  exact h (List.getLast?_eq_some_iff.mpr ⟨c :: front, rfl⟩)

/-- Behind a single comma options are read on their own. -/
theorem optionsFrom_append (hrest : rest.head? ≠ some ',') (part : OptionPart) (chars : List Char)
    (hpart : chars = [] → part ≠ .inName []) (hlast : chars.getLast? ≠ some ',') :
    optionsFrom part (chars ++ ',' :: rest) =
      optionsFrom part chars ++ optionsFrom (.inName []) rest := by
  fun_induction optionsFrom part chars with
  | case1 => simp at hpart
  | case2 part hpart =>
    rw [List.nil_append, optionsFrom_comma hrest]
    rfl
  | case3 read more ih =>
    rw [← ih (by simp) (getLast?_ne_of_cons hlast), List.cons_append, optionsFrom]
  | case4 name read more ih =>
    rw [← ih (by simp) (getLast?_ne_of_cons (getLast?_ne_of_cons hlast)), List.cons_append,
      List.cons_append, optionsFrom]
  | case5 part more hsingle ih =>
    have hne : more ≠ [] := by
      rintro rfl
      simp at hlast
    rw [List.cons_append, List.cons_append,
      ← ih (fun h => absurd h hne) (getLast?_ne_of_cons hlast),
      optionsFrom]
    intro name value after hvalue hafter
    obtain ⟨d, others, rfl⟩ := List.exists_cons_of_ne_nil hne
    obtain ⟨rfl, -⟩ := List.cons.inj hafter
    exact hsingle name value others hvalue rfl
  | case6 read c more hequals hcomma ih =>
    rw [← ih (by simp) (getLast?_ne_of_cons hlast), List.cons_append, optionsFrom]
    · exact hequals
    · exact hcomma
  | case7 name read c more hpair hcomma ih =>
    rw [← ih (by simp) (getLast?_ne_of_cons hlast), List.cons_append, optionsFrom_value_cons hcomma]

/-! ### Drives -/

/-- Up to the path a drive of the system partition is read as it is written. -/
theorem options_partition (text : String) :
    options ("format=raw,file=fat:rw:" ++ text) =
      ("format", "raw") :: optionsFrom (.inValue "file".toList "fat:rw:".toList) text.toList := by
  rw [options, String.toList_append]
  rfl

/-- So is a drive of the firmware. -/
theorem options_flash (text : String) :
    options ("if=pflash,format=raw,file=" ++ text) =
      ("if", "pflash") :: ("format", "raw") ::
        optionsFrom (.inValue "file".toList []) text.toList := by
  rw [options, String.toList_append]
  rfl

/-- A path is read from the drive of the system partition as it is exactly if it has no comma. -/
theorem options_partition_eq_iff (path : String) :
    options ("format=raw,file=fat:rw:" ++ path) =
        [("format", "raw"), ("file", "fat:rw:" ++ path)] ↔ ',' ∉ path.toList := by
  have hfile : ("file", "fat:rw:" ++ path) =
      (String.ofList "file".toList, String.ofList ("fat:rw:".toList ++ path.toList)) := by
    rw [← String.toList_append, String.ofList_toList, String.ofList_toList]
  rw [options_partition, hfile, List.cons_inj_right, optionsFrom_value_eq_iff]

/-- So is a path from a drive of the firmware that ends in it. -/
theorem options_flash_eq_iff (path : String) :
    options ("if=pflash,format=raw,file=" ++ path) =
        [("if", "pflash"), ("format", "raw"), ("file", path)] ↔ ',' ∉ path.toList := by
  have hfile : ("file", path) =
      (String.ofList "file".toList, String.ofList ([] ++ path.toList)) := by
    rw [List.nil_append, String.ofList_toList, String.ofList_toList]
  rw [options_flash, hfile, List.cons_inj_right, List.cons_inj_right, optionsFrom_value_eq_iff]

/-- So is a path from a drive that is not written, unless its last character is a comma. -/
theorem options_readonly_eq_iff {path : String} (hlast : path.toList.getLast? ≠ some ',') :
    options ("if=pflash,format=raw,file=" ++ path ++ ",readonly=on") =
        [("if", "pflash"), ("format", "raw"), ("file", path), ("readonly", "on")] ↔
      ',' ∉ path.toList := by
  have hreadonly : (path ++ ",readonly=on").toList = path.toList ++ ',' :: "readonly=on".toList :=
    String.toList_append
  have hrest : optionsFrom (.inName []) "readonly=on".toList = [("readonly", "on")] := rfl
  have hmeant : [("if", "pflash"), ("format", "raw"), ("file", path), ("readonly", "on")] =
      [("if", "pflash"), ("format", "raw"), ("file", path)] ++ [("readonly", "on")] := rfl
  rw [String.append_assoc, options_flash, hreadonly,
    optionsFrom_append (by decide) _ _ (by simp) hlast, hrest, hmeant, ← List.cons_append,
    ← List.cons_append, List.append_left_inj, ← options_flash, options_flash_eq_iff]

/-- The name of a firmware image is a text without commas. -/
theorem legible_fileName {architecture : Architecture}
    (h : architecture ∈ Architecture.registered) :
    ∀ image ∈ [architecture.firmwareCode, architecture.firmwareVars],
      ∀ name ∈ (⟨image⟩ : Path).fileName?, (⟨name⟩ : Path).Legible := by
  have hall : ∀ architecture ∈ Architecture.registered,
      ∀ image ∈ [architecture.firmwareCode, architecture.firmwareVars],
        ∀ name ∈ (⟨image⟩ : Path).fileName?, (⟨name⟩ : Path).Legible := by
    decide +kernel
  exact hall architecture h

/-- The drive of the firmware code shows a file in the directory of the firmware. -/
theorem codeDrive_eq {architecture : Architecture} {code vars : Name}
    (names : architecture.FileNames code vars) (environment : BootEnvironment) :
    codeDrive architecture environment =
      "if=pflash,format=raw,file=" ++ (environment.firmwareDir / code).shown ++ ",readonly=on" := by
  rw [← names.firmwareCopy_code]
  rfl

/-- So does that of the firmware's variables. -/
theorem varsDrive_eq {architecture : Architecture} {code vars : Name}
    (names : architecture.FileNames code vars) (environment : BootEnvironment) :
    varsDrive architecture environment =
      "if=pflash,format=raw,file=" ++ (environment.firmwareDir / vars).shown := by
  rw [← names.firmwareCopy_vars]
  rfl

/-- A directory that stands for a disk. -/
def diskOptions (path : String) : List (String × String) :=
  [("format", "raw"), ("file", "fat:rw:" ++ path)]

/-- Flash memory that is not written. -/
def codeOptions (path : String) : List (String × String) :=
  [("if", "pflash"), ("format", "raw"), ("file", path), ("readonly", "on")]

/-- Flash memory. -/
def varsOptions (path : String) : List (String × String) :=
  [("if", "pflash"), ("format", "raw"), ("file", path)]

/-- When a drive for a path in a directory is read as it is meant. -/
structure DriveRead (drive : String) (meant : String → List (String × String))
    (path directory : Path) : Prop where
  /-- What is shown for the path is read, character for character, exactly if no comma is shown for
  the directory. -/
  shown : options drive = meant path.shown ↔ ',' ∉ directory.shown.toList
  /-- The path itself is read exactly if the directory is a text without commas. -/
  staged : (∃ text : String, options drive = meant text ∧ (⟨text⟩ : Path) = path) ↔
    directory.Legible

/-- A drive that is read as what is shown for a path is read as the path if that is a text. -/
theorem DriveRead.of_shown {drive : String} {meant : String → List (String × String)}
    {path directory : Path}
    (shown : options drive = meant path.shown ↔ ',' ∉ directory.shown.toList)
    (h : path.IsText ↔ directory.IsText) : DriveRead drive meant path directory := by
  refine ⟨shown, ⟨?_, fun legible => ⟨path.shown, shown.mpr legible.2, h.mpr legible.1⟩⟩⟩
  rintro ⟨text, hread, rfl⟩
  rw [Path.shown_mk] at shown
  exact ⟨h.mp (Path.isText_mk text), shown.mp hread⟩

/-- When the drives of a boot environment are read as they are meant. -/
structure DrivesRead (architecture : Architecture) (environment : BootEnvironment) : Prop where
  /-- The directory of the system partition stands for a disk. -/
  esp : DriveRead (espDrive environment) diskOptions environment.espDir environment.espDir
  /-- The copy of the firmware code is flash memory that is not written. -/
  code : DriveRead (codeDrive architecture environment) codeOptions
    (environment.firmwareCopy architecture.firmwareCode) environment.firmwareDir
  /-- The copy of the firmware's variables is flash memory. -/
  vars : DriveRead (varsDrive architecture environment) varsOptions
    (environment.firmwareCopy architecture.firmwareVars) environment.firmwareDir

/-- The names of the firmware images are texts without commas, so all depends on the directories. -/
theorem drivesRead {architecture : Architecture}
    (registered : architecture ∈ Architecture.registered) (environment : BootEnvironment) :
    DrivesRead architecture environment := by
  obtain ⟨code, vars, names⟩ := Architecture.exists_fileNames registered
  have hcodeName := names.isName code (by simp)
  have hvarsName := names.isName vars (by simp)
  have hcodeLegible := legible_fileName registered _ (by simp) code names.codeName
  have hvarsLegible := legible_fileName registered _ (by simp) vars names.varsName
  obtain ⟨hcode, hcodeLast⟩ :=
    hcodeName.comma_mem_shown_div_iff hcodeLegible environment.firmwareDir
  obtain ⟨hvars, -⟩ := hvarsName.comma_mem_shown_div_iff hvarsLegible environment.firmwareDir
  refine ⟨.of_shown (options_partition_eq_iff _) .rfl, .of_shown ?_ ?_, .of_shown ?_ ?_⟩
  · rw [codeDrive_eq names, names.firmwareCopy_code, ← hcode]
    exact options_readonly_eq_iff hcodeLast
  · rw [names.firmwareCopy_code]
    exact hcodeName.isText_div_iff hcodeLegible _
  · rw [varsDrive_eq names, names.firmwareCopy_vars, ← hvars]
    exact options_flash_eq_iff _
  · rw [names.firmwareCopy_vars]
    exact hvarsName.isText_div_iff hvarsLegible _

/-- A launch has three drives behind arguments that do not depend on the boot environment. The
emulator reads each of them as it is meant, what is shown for the path character for character,
exactly if no comma is shown for the directory; it reads the path that is staged exactly if the
directory is a text without commas. -/
theorem drives_read_as_meant {architecture : Architecture}
    (registered : architecture ∈ Architecture.registered) (acceleration : Acceleration)
    (config : Config) :
    (∃ front, ∀ environment, (compose architecture acceleration config environment).args =
        front ++ drives architecture environment ++ ["-nographic"]) ∧
      ∀ environment, DrivesRead architecture environment :=
  ⟨⟨_, fun _ => rfl⟩, drivesRead registered⟩

/-- Blanks and equals signs in the paths are read as they are. -/
theorem drives_read_as_meant_sample :
    Architecture.aarch64 ∈ Architecture.registered ∧
      options (espDrive ⟨⟨"/my = esp"⟩, ⟨"/my fw"⟩⟩) =
        [("format", "raw"), ("file", "fat:rw:/my = esp")] := by
  have registered : Architecture.aarch64 ∈ Architecture.registered := by decide
  obtain ⟨-, hread⟩ := drives_read_as_meant registered .emulation (Config.defaults ⟨"/w"⟩)
  have hesp := (hread ⟨⟨"/my = esp"⟩, ⟨"/my fw"⟩⟩).esp.shown
  rw [Path.shown_mk] at hesp
  exact ⟨registered, hesp.mpr (by decide)⟩

/-- A configuration whose system partition has an option of a drive in its path. -/
def commaConfig : Config :=
  { Config.defaults ⟨"/w"⟩ with espDir := ⟨"/w/esp,readonly=on"⟩ }

/-- The text of a directory adds an option to a drive and takes the end off its path. -/
theorem esp_drive_adds_option :
    Config.ofManifest ⟨"/w"⟩
        "[workspace]\n[workspace.metadata.corgos]\nesp-dir = \"esp,readonly=on\"\n" =
          .ok commaConfig ∧
      ["-drive", espDrive (.ofConfig commaConfig)].Sublist
        (compose .x86_64 .emulation commaConfig (.ofConfig commaConfig)).args ∧
      options (espDrive (.ofConfig commaConfig)) =
        [("format", "raw"), ("file", "fat:rw:/w/esp"), ("readonly", "on")] := by
  refine ⟨?_, ?_, ?_⟩ <;> decide +kernel

end Bootstage.Launch
