import Bootstage.Config

/-!
# Documents that describe a workspace

The document of a manifest leads to the settings through three records, each of them a field of the
one before. A configuration takes each field that is given there, and takes any other from the
defaults. Nothing else in the document plays a part.
-/

namespace Bootstage

open Toml

namespace Manifest

/-! ### Records and their fields -/

/-- The value is a record. Written as a list it has a place for each of so many fields. -/
def IsRecord (places : Nat) : Value → Prop
  | .table _ _ | .datetime => True
  | .array items | .sections items => places ≤ items.length
  | _ => False

/-- What a record holds in a field: under its key, or at its place in a list. -/
def field? (place : Nat) (key : String) : Value → Option Value
  | .table _ entries => entries.lookup key
  | .array items | .sections items => items[place]?
  | _ => none

/-- The value is this text. -/
def IsText (value : Value) (text : String) : Prop :=
  value = .string text

/-- The value is this number. -/
def IsWord (value : Value) (number : UInt32) : Prop :=
  value = .integer number.toNat

/-- The value is a list of these texts. -/
def IsTexts (value : Value) (texts : List String) : Prop :=
  value = .array (texts.map .string) ∨ value = .sections (texts.map .string)

/-- What a value is taken to mean where it is given, and a default where it is not. -/
inductive Taken {α : Type} (means : Value → α → Prop) (standard : α) : Option Value → α → Prop
  /-- A value is given. -/
  | given {value : Value} {meant : α} (h : means value meant) :
      Taken means standard (some value) meant
  /-- None is given. -/
  | missing : Taken means standard none standard

/-- The settings that a manifest may give. -/
inductive Setting
  /-- The memory of the guest. -/
  | memory
  /-- The number of cores of the guest. -/
  | cores
  /-- The directory that stands for the system partition. -/
  | espDir
  /-- The directory of the firmware copies. -/
  | firmwareDir
  /-- A directory that build tools are looked for in first. -/
  | llvmBinDir
  /-- The features with which the kernel is built. -/
  | kernelFeatures

namespace Setting

/-- The key of a setting. -/
def key : Setting → String
  | memory => "memory"
  | cores => "cores"
  | espDir => "esp-dir"
  | firmwareDir => "firmware-dir"
  | llvmBinDir => "llvm-bin-dir"
  | kernelFeatures => "kernel-features"

/-- The place of a setting in a list. -/
def place : Setting → Nat
  | memory => 0
  | cores => 1
  | espDir => 2
  | firmwareDir => 3
  | llvmBinDir => 4
  | kernelFeatures => 5

/-- The value of a setting in a record. -/
def in? (setting : Setting) (record : Value) : Option Value :=
  field? setting.place setting.key record

end Setting

/-- The record of the metadata in a document. -/
def metadataIn? (entries : Entries) : Option Value :=
  (entries.lookup "workspace").bind (field? 0 "metadata")

/-- The record of the settings in a document. -/
def corgosIn? (entries : Entries) : Option Value :=
  (metadataIn? entries).bind (field? 0 "corgos")

/-- The value that a document gives for a setting. -/
def given? (entries : Entries) (setting : Setting) : Option Value :=
  (corgosIn? entries).bind setting.in?

/-- The values that are given for the settings mean these settings. -/
structure Means (given? : Setting → Option Value) (settings : Settings) : Prop where
  memory : Option.Rel IsText (given? .memory) settings.memory?
  cores : Option.Rel IsWord (given? .cores) settings.cores?
  espDir : Option.Rel IsText (given? .espDir) settings.espDir?
  firmwareDir : Option.Rel IsText (given? .firmwareDir) settings.firmwareDir?
  llvmBinDir : Option.Rel IsText (given? .llvmBinDir) settings.llvmBinDir?
  /-- No features are as good as an empty list of them. -/
  kernelFeatures : Taken IsTexts [] (given? .kernelFeatures) settings.kernelFeatures

/-- A document describes a workspace with these settings. -/
structure Describes (entries : Entries) (settings : Settings) : Prop where
  /-- There is a record of the workspace. -/
  workspace : ∃ value, entries.lookup "workspace" = some value ∧ IsRecord 1 value
  /-- If there are metadata they are a record. -/
  metadata : ∀ value, metadataIn? entries = some value → IsRecord 1 value
  /-- So are the settings; the features need no place. -/
  corgos : ∀ value, corgosIn? entries = some value → IsRecord 5 value
  /-- The values are of the right kinds. -/
  means : Means (given? entries) settings

variable {value record : Value} {entries : Entries} {settings : Settings}

/-! ### Reading values -/

theorem text?_eq_some_iff {text : String} : text? value = some text ↔ IsText value text := by
  cases value <;> simp [text?, IsText]

/-- A value is read as a number exactly if it is one of the right size. -/
theorem word?_eq_some_iff {number : UInt32} : word? value = some number ↔ IsWord value number := by
  have hpow : Int.pow 2 32 = 4294967296 := by decide
  cases value with
  | integer found =>
    simp only [word?, IsWord, Value.integer.injEq, hpow]
    constructor
    · intro h
      split at h
      · next hrange =>
        obtain rfl := Option.some.inj h
        have hsmall : found.toNat < 2 ^ 32 := by omega
        rw [UInt32.toNat_ofNat_of_lt' hsmall, Int.toNat_of_nonneg hrange.1]
      · contradiction
    · rintro rfl
      have hrange := number.toNat_lt
      rw [if_pos (by omega), Int.toNat_natCast, Nat.toUInt32_eq, UInt32.ofNat_toNat]
  | _ => simp [word?, IsWord]

/-- Values are read as texts exactly if all of them are texts. -/
theorem mapM_text?_eq_some_iff {items : List Value} {texts : List String} :
    items.mapM text? = some texts ↔ items = texts.map .string := by
  induction items generalizing texts with
  | nil => cases texts <;> simp
  | cons item items ih =>
    cases texts <;> simp [List.mapM_cons, Option.bind_eq_some_iff, text?_eq_some_iff, IsText, ih]

theorem texts?_eq_some_iff {texts : List String} :
    texts? value = some texts ↔ IsTexts value texts := by
  cases value <;> simp [texts?, IsTexts, mapM_text?_eq_some_iff]

/-! ### Reading records -/

/-- What is a record with some places is one with fewer. -/
theorem IsRecord.mono {places fewer : Nat} (h : IsRecord places value) (hle : fewer ≤ places) :
    IsRecord fewer value := by
  cases value <;> simp_all [IsRecord] <;> omega

/-- What holds a value in a field has a place for it. -/
theorem isRecord_of_field? {place : Nat} {key : String} {held : Value}
    (h : field? place key value = some held) : IsRecord (place + 1) value := by
  cases value with
  | array items => exact (List.getElem?_eq_some_iff.mp h).1
  | sections tables => exact (List.getElem?_eq_some_iff.mp h).1
  | _ => simp_all [field?, IsRecord]

/-- A value has fields exactly if it is a record. -/
theorem exists_fields_iff : (∃ fields, Fields.ofValue? value = some fields) ↔ IsRecord 0 value := by
  cases value <;> simp [Fields.ofValue?, IsRecord]

/-- A list has a field exactly if it has a place for it. -/
theorem Fields.find?_listed {items : List Value} {place : Nat} {key : String}
    {found? : Option Value} :
    (Fields.listed items).find? place key = some found? ↔
      place + 1 ≤ items.length ∧ items[place]? = found? := by
  rw [Fields.find?, Option.map_eq_map, Option.map_eq_some_iff]
  constructor
  · rintro ⟨item, hi, rfl⟩
    exact ⟨(List.getElem?_eq_some_iff.mp hi).1, hi⟩
  · rintro ⟨hlt, rfl⟩
    exact ⟨items[place], List.getElem?_eq_getElem hlt, (List.getElem?_eq_getElem hlt).symm⟩

/-- A field is found exactly if it stands under its key or at its place. -/
theorem Fields.find?_eq_some_iff {fields : Fields} (h : Fields.ofValue? value = some fields)
    {place : Nat} {key : String} {found? : Option Value} :
    fields.find? place key = some found? ↔
      IsRecord (place + 1) value ∧ field? place key value = found? := by
  cases value with
  | table origin entries =>
    obtain rfl := Option.some.inj h
    simp [Fields.find?, IsRecord, field?]
  | datetime =>
    obtain rfl := Option.some.inj h
    simp [Fields.find?, IsRecord, field?]
  | array items =>
    obtain rfl := Option.some.inj h
    exact Fields.find?_listed
  | sections tables =>
    obtain rfl := Option.some.inj h
    exact Fields.find?_listed
  | _ => contradiction

/-- A field is read if it has a place, and if what it holds can be read. -/
theorem Fields.optional_eq_some_iff {α : Type} {fields : Fields}
    (h : Fields.ofValue? value = some fields) {place : Nat} {key : String}
    {read : Value → Option α} {found? : Option α} :
    fields.optional place key read = some found? ↔
      IsRecord (place + 1) value ∧
        Option.Rel
          (fun value meant => read value = some meant) (field? place key value) found? := by
  rw [Fields.optional]
  simp only [Option.bind_eq_bind, Option.bind_eq_some_iff, Fields.find?_eq_some_iff h]
  constructor
  · rintro ⟨held?, ⟨hrecord, rfl⟩, hread⟩
    refine ⟨hrecord, ?_⟩
    cases hfield : field? place key value with
    | none =>
      rw [hfield] at hread
      obtain rfl := Option.some.inj hread
      exact .none
    | some held =>
      rw [hfield] at hread
      obtain ⟨meant, hmeant, he⟩ := Option.bind_eq_some_iff.mp hread
      obtain rfl := Option.some.inj he
      exact .some hmeant
  · rintro ⟨hrecord, hrel⟩
    refine ⟨field? place key value, ⟨hrecord, rfl⟩, ?_⟩
    generalize field? place key value = held? at hrel
    cases hrel with
    | none => rfl
    | some hmeant => simp [hmeant]

/-- The features that a record holds; none where their field is missing. -/
def Fields.features? (fields : Fields) : Option (List String) :=
  match fields.find? Setting.kernelFeatures.place Setting.kernelFeatures.key with
  | some (some value) => texts? value
  | _ => some []

/-- The features are read exactly if they are a list of texts or are not given. -/
theorem Fields.features?_eq_some_iff {fields : Fields} (h : Fields.ofValue? record = some fields)
    {texts : List String} :
    fields.features? = some texts ↔
      Taken IsTexts [] (Setting.kernelFeatures.in? record) texts := by
  have hfind : ∀ found?, fields.find? Setting.kernelFeatures.place Setting.kernelFeatures.key =
      some found? ↔ IsRecord 6 record ∧ Setting.kernelFeatures.in? record = found? :=
    fun found? => Fields.find?_eq_some_iff h
  rw [Fields.features?]
  split
  · next value hvalue =>
    rw [((hfind _).mp hvalue).2, texts?_eq_some_iff]
    exact ⟨.given, fun | .given hmeans => hmeans⟩
  · next hmissing =>
    cases hin : Setting.kernelFeatures.in? record with
    | some value => exact absurd ((hfind _).mpr ⟨isRecord_of_field? hin, hin⟩) (hmissing value)
    | none =>
      rw [Option.some.injEq]
      constructor
      · rintro rfl
        exact .missing
      · rintro ⟨⟩
        rfl

/-- The field of the features is read last. -/
theorem settings?_eq (value : Value) : settings? value = do
    let fields ← Fields.ofValue? value
    let memory? ← fields.optional 0 "memory" text?
    let cores? ← fields.optional 1 "cores" word?
    let espDir? ← fields.optional 2 "esp-dir" text?
    let firmwareDir? ← fields.optional 3 "firmware-dir" text?
    let llvmBinDir? ← fields.optional 4 "llvm-bin-dir" text?
    let kernelFeatures ← fields.features?
    return { memory?, cores?, espDir?, firmwareDir?, llvmBinDir?, kernelFeatures } := by
  refine bind_congr fun fields => ?_
  iterate 5 refine bind_congr fun _ => ?_
  simp only [Fields.features?, Setting.place, Setting.key]
  rcases fields.find? 5 "kernel-features" with _ | _ | value <;> rfl

/-- The settings of a record are read field by field. -/
theorem settings?_eq_some_iff :
    settings? record = some settings ↔ IsRecord 5 record ∧ Means (·.in? record) settings := by
  rw [settings?_eq]
  constructor
  · intro h
    simp only [Option.bind_eq_bind, Option.bind_eq_some_iff] at h
    obtain ⟨fields, hfields, memory?, hmemory, cores?, hcores, espDir?, hesp, firmwareDir?,
      hfirmware, llvmBinDir?, hllvm, kernelFeatures, hfeatures, he⟩ := h
    rw [Fields.optional_eq_some_iff hfields] at hmemory hcores hesp hfirmware hllvm
    have hrecord := hllvm.1
    obtain rfl := Option.some.inj he
    simp only [text?_eq_some_iff, word?_eq_some_iff] at hmemory hcores hesp hfirmware hllvm
    exact ⟨hrecord, hmemory.2, hcores.2, hesp.2, hfirmware.2, hllvm.2,
      (Fields.features?_eq_some_iff hfields).mp hfeatures⟩
  · rintro ⟨hrecord, means⟩
    obtain ⟨fields, hfields⟩ := exists_fields_iff.mpr (hrecord.mono (by omega))
    have hoptional : ∀ (setting : Setting) {α : Type} (read : Value → Option α)
        (found? : Option α), setting.place < 5 →
        Option.Rel (fun value meant => read value = some meant) (setting.in? record) found? →
          fields.optional setting.place setting.key read = some found? := by
      intro setting α read found? hplace hrel
      exact (Fields.optional_eq_some_iff hfields).mpr ⟨hrecord.mono hplace, hrel⟩
    have hmemory := hoptional .memory text? settings.memory? (by decide)
      (by simpa only [text?_eq_some_iff] using means.memory)
    have hcores := hoptional .cores word? settings.cores? (by decide)
      (by simpa only [word?_eq_some_iff] using means.cores)
    have hesp := hoptional .espDir text? settings.espDir? (by decide)
      (by simpa only [text?_eq_some_iff] using means.espDir)
    have hfirmware := hoptional .firmwareDir text? settings.firmwareDir? (by decide)
      (by simpa only [text?_eq_some_iff] using means.firmwareDir)
    have hllvm := hoptional .llvmBinDir text? settings.llvmBinDir? (by decide)
      (by simpa only [text?_eq_some_iff] using means.llvmBinDir)
    have hfeatures := (Fields.features?_eq_some_iff hfields).mpr means.kernelFeatures
    simp only [Setting.place, Setting.key] at hmemory hcores hesp hfirmware hllvm
    simp only [hfields, hmemory, hcores, hesp, hfirmware, hllvm, hfeatures,
      Option.bind_eq_bind, Option.bind_some, Option.pure_def]

/-! ### Reading documents -/

/-- The metadata are read exactly if they are a record whose own settings are read. -/
theorem metadata?_eq_some_iff {found? : Option Settings} :
    metadata? value = some found? ↔ IsRecord 1 value ∧
      Option.Rel (fun record settings => settings? record = some settings)
        (field? 0 "corgos" value) found? := by
  simp only [metadata?, Option.bind_eq_bind, Option.bind_eq_some_iff]
  constructor
  · rintro ⟨fields, hfields, hread⟩
    exact (Fields.optional_eq_some_iff hfields).mp hread
  · rintro ⟨hrecord, hrel⟩
    obtain ⟨fields, hfields⟩ := exists_fields_iff.mpr (hrecord.mono (by omega))
    exact ⟨fields, hfields, (Fields.optional_eq_some_iff hfields).mpr ⟨hrecord, hrel⟩⟩

/-- A workspace is read exactly if it and its metadata are records, and the settings in them are
read. -/
theorem workspace?_eq_some_iff {found? : Option Settings} :
    workspace? value = some found? ↔ IsRecord 1 value ∧
      (∀ metadata, field? 0 "metadata" value = some metadata → IsRecord 1 metadata) ∧
        Option.Rel (fun record settings => settings? record = some settings)
          ((field? 0 "metadata" value).bind (field? 0 "corgos")) found? := by
  simp only [workspace?, Option.bind_eq_bind, Option.bind_eq_some_iff, Option.pure_def]
  constructor
  · rintro ⟨fields, hfields, held?, hread, he⟩
    obtain ⟨hrecord, hrel⟩ := (Fields.optional_eq_some_iff hfields).mp hread
    obtain rfl := Option.some.inj he
    refine ⟨hrecord, ?_⟩
    generalize field? 0 "metadata" value = record? at hrel
    cases hrel with
    | none => exact ⟨fun _ h => (nomatch h), .none⟩
    | some hmetadata =>
      obtain ⟨hplace, hsettings⟩ := metadata?_eq_some_iff.mp hmetadata
      exact ⟨fun _ h => Option.some.inj h ▸ hplace, hsettings⟩
  · rintro ⟨hrecord, hplace, hrel⟩
    obtain ⟨fields, hfields⟩ := exists_fields_iff.mpr (hrecord.mono (by omega))
    refine ⟨fields, hfields, ?_⟩
    simp only [Fields.optional_eq_some_iff hfields]
    cases hfield : field? 0 "metadata" value with
    | none =>
      rw [hfield] at hrel
      cases hrel
      exact ⟨none, ⟨hrecord, .none⟩, rfl⟩
    | some metadata =>
      rw [hfield] at hrel
      have hmetadata := metadata?_eq_some_iff.mpr ⟨hplace metadata hfield, hrel⟩
      exact ⟨some found?, ⟨hrecord, .some hmetadata⟩, rfl⟩

/-- Where nothing is given, all settings are missing. -/
theorem means_none_iff : Means (fun _ => none) settings ↔ settings = {} := by
  constructor
  · obtain ⟨memory?, cores?, espDir?, firmwareDir?, llvmBinDir?, kernelFeatures⟩ := settings
    rintro ⟨⟨⟩, ⟨⟩, ⟨⟩, ⟨⟩, ⟨⟩, ⟨⟩⟩
    rfl
  · rintro rfl
    exact ⟨.none, .none, .none, .none, .none, .missing⟩

/-- Without a table of its own nothing is given. -/
theorem given?_of_corgosIn?_eq_none (h : corgosIn? entries = none) :
    given? entries = fun _ => none := by
  funext setting
  rw [given?, h, Option.bind_none]

/-- All that is given stands in the table. -/
theorem given?_of_corgosIn?_eq_some (h : corgosIn? entries = some record) :
    given? entries = (·.in? record) := by
  funext setting
  rw [given?, h, Option.bind_some]

/-- The settings of a document are those in its record, if it has one. -/
theorem means_given?_iff :
    (∀ record, corgosIn? entries = some record → IsRecord 5 record) ∧
        Means (given? entries) settings ↔
      ∃ found?, Option.Rel (fun record found => settings? record = some found)
        (corgosIn? entries) found? ∧ found?.getD {} = settings := by
  cases hrecord : corgosIn? entries with
  | none =>
    rw [given?_of_corgosIn?_eq_none hrecord, means_none_iff]
    constructor
    · rintro ⟨-, rfl⟩
      exact ⟨none, .none, rfl⟩
    · rintro ⟨found?, hrel, rfl⟩
      cases hrel
      exact ⟨nofun, rfl⟩
  | some record =>
    rw [given?_of_corgosIn?_eq_some hrecord]
    constructor
    · rintro ⟨hplace, hmeans⟩
      exact ⟨some settings, .some (settings?_eq_some_iff.mpr ⟨hplace record rfl, hmeans⟩), rfl⟩
    · rintro ⟨found?, hrel, rfl⟩
      cases hrel with
      | some hfound =>
        obtain ⟨hplace, hmeans⟩ := settings?_eq_some_iff.mp hfound
        exact ⟨fun other he => Option.some.inj he ▸ hplace, hmeans⟩

/-- Settings are read from a document exactly if it describes a workspace with them. -/
theorem ofEntries?_eq_some_iff :
    ofEntries? entries = some settings ↔ Describes entries settings := by
  have hmetadata : ∀ {value}, entries.lookup "workspace" = some value →
      metadataIn? entries = field? 0 "metadata" value := by
    intro value hvalue
    rw [metadataIn?, hvalue, Option.bind_some]
  simp only [ofEntries?, Option.bind_eq_bind, Option.bind_eq_some_iff, Option.pure_def,
    Option.some.injEq, workspace?_eq_some_iff]
  constructor
  · rintro ⟨value, hvalue, found?, ⟨hworkspace, hplace, hrel⟩, he⟩
    rw [← hmetadata hvalue] at hplace hrel
    obtain ⟨hcorgos, hmeans⟩ := means_given?_iff.mpr ⟨found?, hrel, he⟩
    exact ⟨⟨value, hvalue, hworkspace⟩, hplace, hcorgos, hmeans⟩
  · rintro ⟨⟨value, hvalue, hworkspace⟩, hplace, hcorgos, hmeans⟩
    obtain ⟨found?, hrel, he⟩ := means_given?_iff.mp ⟨hcorgos, hmeans⟩
    rw [corgosIn?] at hrel
    rw [hmetadata hvalue] at hplace hrel
    exact ⟨value, hvalue, found?, ⟨hworkspace, hplace, hrel⟩, he⟩

/-- A manifest is read exactly if it is a document that describes the settings. -/
theorem read?_eq_some_iff {text : String} :
    read? text = some settings ↔
      ∃ entries, Toml.parse? text = some entries ∧ Describes entries settings := by
  simp only [read?, Option.bind_eq_bind, Option.bind_eq_some_iff, ofEntries?_eq_some_iff]

end Manifest

end Bootstage
