import Bootstage.Proofs.Config.Describing

/-!
# What a manifest settles

A configuration is made from the document of a manifest field by field: what is given for a setting
is taken, and its default where nothing is given. No setting depends on another, and nothing else in
the document plays a part.
-/

namespace Bootstage

namespace Manifest.Taken

variable {α : Type} {means : Toml.Value → α → Prop} {standard : α} {given? : Option Toml.Value}

/-- What is taken is unique if every value has one meaning. -/
theorem eq {one other : α} (h : Taken means standard given? one)
    (h' : Taken means standard given? other)
    (unique : ∀ value one other, means value one → means value other → one = other) :
    one = other := by
  cases h with
  | given h =>
    cases h' with
    | given h' => exact unique _ _ _ h h'
  | missing =>
    cases h' with
    | missing => rfl

/-- A setting that has been read is taken as what is made of it. -/
theorem of_rel {β : Type} {reads : Toml.Value → β → Prop} {found? : Option β}
    (h : Option.Rel reads given? found?) (make : β → α) (standard : α)
    (made : ∀ value found, reads value found → means value (make found)) :
    Taken means standard given? ((found?.map make).getD standard) := by
  cases h with
  | none => exact .missing
  | some h => exact .given (made _ _ h)

end Manifest.Taken

namespace Config

open Manifest

/-- The value is the text of a path that is seen from the root. -/
def IsSeenFrom (root : Path) (value : Toml.Value) (path : Path) : Prop :=
  ∃ text, IsText value text ∧ path = root / text

/-- The value is the text of a path, which is taken as it is. -/
def IsPath (value : Toml.Value) (path? : Option Path) : Prop :=
  ∃ text, IsText value text ∧ path? = some ⟨text⟩

/-- The configuration is the one that a document settles for a workspace. -/
structure Settled (root : Path) (entries : Toml.Entries) (config : Config) : Prop where
  /-- The root is the one that is given, whatever the document says. -/
  workspaceRoot : config.workspaceRoot = root
  /-- So is the directory of what is built. -/
  targetDir : config.targetDir = root / "target"
  memory : Taken IsText (defaults root).memory (given? entries .memory) config.memory
  cores : Taken IsWord (defaults root).cores (given? entries .cores) config.cores
  /-- A guest has a core at least, and not more than the word can tell. -/
  coresRange : 1 ≤ config.cores.toNat ∧ config.cores.toNat < UInt32.size
  espDir : Taken (IsSeenFrom root) (defaults root).espDir (given? entries .espDir) config.espDir
  firmwareDir : Taken (IsSeenFrom root) (defaults root).firmwareDir (given? entries .firmwareDir)
    config.firmwareDir
  llvmBinDir : Taken IsPath (defaults root).llvmBinDir? (given? entries .llvmBinDir)
    config.llvmBinDir?
  kernelFeatures : Taken IsTexts (defaults root).kernelFeatures (given? entries .kernelFeatures)
    config.kernelFeatures

variable {root : Path} {manifest : String} {entries : Toml.Entries} {settings : Settings}
  {config other : Config}

/-! ### One configuration for each document -/

theorem isText_unique (value : Toml.Value) (one other : String) (h : IsText value one)
    (h' : IsText value other) : one = other :=
  Toml.Value.string.inj (h.symm.trans h')

theorem isWord_unique (value : Toml.Value) (one other : UInt32) (h : IsWord value one)
    (h' : IsWord value other) : one = other :=
  UInt32.toNat_inj.mp (Int.ofNat_inj.mp (Toml.Value.integer.inj (h.symm.trans h')))

theorem isTexts_unique (value : Toml.Value) (one other : List String) (h : IsTexts value one)
    (h' : IsTexts value other) : one = other := by
  have hmap : one.map Toml.Value.string = other.map Toml.Value.string := by
    rcases h with rfl | rfl <;> simpa [IsTexts] using h'
  exact (List.map_inj_right fun _ _ => Toml.Value.string.inj).mp hmap

theorem isSeenFrom_unique (value : Toml.Value) (one other : Path) (h : IsSeenFrom root value one)
    (h' : IsSeenFrom root value other) : one = other := by
  obtain ⟨text, ht, rfl⟩ := h
  obtain ⟨text', ht', rfl⟩ := h'
  rw [isText_unique value text text' ht ht']

theorem isPath_unique (value : Toml.Value) (one other : Option Path) (h : IsPath value one)
    (h' : IsPath value other) : one = other := by
  obtain ⟨text, ht, rfl⟩ := h
  obtain ⟨text', ht', rfl⟩ := h'
  rw [isText_unique value text text' ht ht']

/-- A manifest settles one configuration at most. -/
theorem Settled.eq (h : Settled root entries config) (h' : Settled root entries other) :
    config = other := by
  have hmemory := h.memory.eq h'.memory isText_unique
  have hcores := h.cores.eq h'.cores isWord_unique
  have hesp := h.espDir.eq h'.espDir isSeenFrom_unique
  have hfirmware := h.firmwareDir.eq h'.firmwareDir isSeenFrom_unique
  have hllvm := h.llvmBinDir.eq h'.llvmBinDir isPath_unique
  have hfeatures := h.kernelFeatures.eq h'.kernelFeatures isTexts_unique
  have hroot := h.workspaceRoot.trans h'.workspaceRoot.symm
  have htarget := h.targetDir.trans h'.targetDir.symm
  cases config
  cases other
  simp_all

/-! ### The configuration that is made -/

/-- The number of cores that is read is zero exactly if a zero is given. -/
theorem cores?_eq_zero_iff (means : Means (given? entries) settings) :
    settings.cores? = some 0 ↔ given? entries .cores = some (.integer 0) := by
  have hcores := means.cores
  generalize given? entries .cores = value? at hcores ⊢
  generalize settings.cores? = number? at hcores ⊢
  cases hcores with
  | none => simp
  | @some value number h =>
    subst h
    simp [← UInt32.toNat_inj]

/-- What is made of settings is settled by them. -/
theorem settled_of_ofSettings (means : Means (given? entries) settings)
    (h : ofSettings root settings = .ok config) : Settled root entries config := by
  unfold ofSettings at h
  dsimp only at h
  split at h
  · contradiction
  · next hnonzero =>
    obtain rfl := Except.ok.inj h
    refine ⟨rfl, rfl, ?memory, ?cores, ?coresRange, ?espDir, ?firmwareDir, ?llvmBinDir,
      means.kernelFeatures⟩
    case memory => simpa using Taken.of_rel means.memory id (defaults root).memory fun _ _ h => h
    case cores => simpa using Taken.of_rel means.cores id (defaults root).cores fun _ _ h => h
    case coresRange =>
      cases hcores : settings.cores? with
      | none => exact show 1 ≤ (8 : UInt32).toNat ∧ (8 : UInt32).toNat < UInt32.size by decide
      | some number =>
        have hne : number.toNat ≠ 0 := by
          intro hzero
          exact hnonzero (hcores.trans (congrArg some (UInt32.toNat_inj.mp hzero)))
        exact ⟨Nat.pos_of_ne_zero hne, number.toNat_lt_size⟩
    case espDir => exact Taken.of_rel means.espDir _ _ fun _ text h => ⟨text, h, rfl⟩
    case firmwareDir => exact Taken.of_rel means.firmwareDir _ _ fun _ text h => ⟨text, h, rfl⟩
    case llvmBinDir =>
      have htaken : Taken IsPath (defaults root).llvmBinDir? (given? entries .llvmBinDir) _ :=
        Taken.of_rel means.llvmBinDir (fun text => some ⟨text⟩) _ fun _ text h => ⟨text, h, rfl⟩
      cases hllvm : settings.llvmBinDir? with
      | none => rwa [hllvm] at htaken
      | some text => rwa [hllvm] at htaken

/-- A configuration can be made of settings unless they ask for a guest without cores. -/
theorem exists_ofSettings (hnonzero : settings.cores? ≠ some 0) :
    ∃ config, ofSettings root settings = .ok config := by
  unfold ofSettings
  exact ⟨_, if_neg hnonzero⟩

/-- The configuration of a manifest is made of the settings that it describes. -/
theorem ofManifest_of_describes (parses : Toml.parse? manifest = some entries)
    (describes : Describes entries settings) :
    ofManifest root manifest = ofSettings root settings := by
  rw [ofManifest, read?_eq_some_iff.mpr ⟨entries, parses, describes⟩]

/-- A text that is no document of a workspace is refused. -/
theorem ofManifest_eq_malformed
    (h : ∀ entries settings, Toml.parse? manifest = some entries → ¬ Describes entries settings) :
    ofManifest root manifest = .error .malformedManifest := by
  cases hread : Manifest.read? manifest with
  | none => rw [ofManifest, hread]
  | some settings =>
    obtain ⟨entries, parses, describes⟩ := read?_eq_some_iff.mp hread
    exact absurd describes (h entries settings parses)

/-- What is made of a manifest whose document describes a workspace with the given settings. -/
structure ManifestAccount (root : Path) (manifest : String) (entries : Toml.Entries)
    (settings : Settings) : Prop where
  /-- A configuration is made unless zero cores are given. -/
  succeeds : (∃ config, ofManifest root manifest = .ok config) ↔
    given? entries .cores ≠ some (.integer 0)
  /-- That is the one fault that such a manifest can have. -/
  fails : given? entries .cores = some (.integer 0) →
    ofManifest root manifest = .error .noCores
  /-- The configuration has, field by field, what is given or else the default. -/
  settled : ∀ config, ofManifest root manifest = .ok config ↔ Settled root entries config
  /-- Nothing but the settings plays a part. -/
  alone : ∀ other others, Toml.parse? other = some others → Describes others settings →
    ofManifest root other = ofManifest root manifest
  /-- Without metadata, or without settings in them, all is as by default. -/
  standard : metadataIn? entries = none ∨ corgosIn? entries = none →
    ofManifest root manifest = .ok (defaults root)
  /-- Every other text is refused. -/
  malformed : ∀ other,
    (∀ others found, Toml.parse? other = some others → ¬ Describes others found) →
      ofManifest root other = .error .malformedManifest

/-- A manifest settles the configuration by the settings that are given in it, and by nothing
else. -/
theorem manifest_account (root : Path) (parses : Toml.parse? manifest = some entries)
    (describes : Describes entries settings) : ManifestAccount root manifest entries settings := by
  have hmade : ofManifest root manifest = ofSettings root settings :=
    ofManifest_of_describes parses describes
  have hzero := cores?_eq_zero_iff describes.means
  have hrefused : settings.cores? = some 0 → ofManifest root manifest = .error .noCores := by
    intro h
    rw [hmade, ofSettings, if_pos h]
  have hsettled : ∀ {config}, ofManifest root manifest = .ok config →
      Settled root entries config :=
    fun h => settled_of_ofSettings describes.means (hmade ▸ h)
  refine ⟨?succeeds, fun h => hrefused (hzero.mpr h), fun config => ⟨hsettled, ?made⟩, ?alone,
    ?standard, fun other h => ofManifest_eq_malformed h⟩
  case succeeds =>
    rw [Ne, ← hzero]
    constructor
    · rintro ⟨config, hok⟩ h
      exact nomatch hok.symm.trans (hrefused h)
    · intro h
      rw [hmade]
      exact exists_ofSettings h
  case made =>
    intro h
    have hnonzero : settings.cores? ≠ some 0 := by
      intro hcores
      have htaken := h.cores
      rw [hzero.mp hcores] at htaken
      cases htaken with
      | given hword =>
        have hnone : 0 = config.cores.toNat := Int.ofNat_inj.mp (Toml.Value.integer.inj hword)
        exact absurd h.coresRange.1 (by omega)
    obtain ⟨made, hok⟩ : ∃ made, ofSettings root settings = .ok made :=
      exists_ofSettings hnonzero
    rw [← hmade] at hok
    rwa [h.eq (hsettled hok)]
  case alone =>
    intro other others hother hdescribes
    rw [ofManifest_of_describes hother hdescribes, hmade]
  case standard =>
    intro h
    have hnone : corgosIn? entries = none := by
      rcases h with h | h
      · rw [corgosIn?, h, Option.bind_none]
      · exact h
    have hmeans := describes.means
    rw [given?_of_corgosIn?_eq_none hnone, means_none_iff] at hmeans
    rw [hmade, hmeans]
    rfl

/-- A manifest in which all settings are given, behind other things. -/
def overridingManifest : String :=
  "[workspace]\nmembers = [\"xtask\"]\n\n[workspace.metadata.corgos]\nmemory = \"1G\"\ncores = 2\n"
    ++ "esp-dir = \"out/esp\"\nfirmware-dir = \"/fw\"\nllvm-bin-dir = \"llvm/bin\"\n"
    ++ "kernel-features = [\"serial-trace\"]\n"

/-- The settings that are given in it. -/
def overridingSettings : Settings where
  memory? := some "1G"
  cores? := some 2
  espDir? := some "out/esp"
  firmwareDir? := some "/fw"
  llvmBinDir? := some "llvm/bin"
  kernelFeatures := ["serial-trace"]

/-- All of them are taken; a directory that is named from the root of the files stays there. -/
theorem manifest_account_overriding :
    ∃ entries, Toml.parse? overridingManifest = some entries ∧
      Describes entries overridingSettings ∧
      ManifestAccount ⟨"/w"⟩ overridingManifest entries overridingSettings ∧
      ofManifest ⟨"/w"⟩ overridingManifest = .ok {
        workspaceRoot := ⟨"/w"⟩
        targetDir := ⟨"/w/target"⟩
        memory := "1G"
        cores := 2
        espDir := ⟨"/w/out/esp"⟩
        firmwareDir := ⟨"/fw"⟩
        llvmBinDir? := some ⟨"llvm/bin"⟩
        kernelFeatures := ["serial-trace"] } := by
  have hread : Manifest.read? overridingManifest = some overridingSettings := by
    decide +kernel
  obtain ⟨entries, parses, describes⟩ := read?_eq_some_iff.mp hread
  exact ⟨entries, parses, describes, manifest_account ⟨"/w"⟩ parses describes,
    (ofManifest_of_describes parses describes).trans rfl⟩

end Config

end Bootstage
