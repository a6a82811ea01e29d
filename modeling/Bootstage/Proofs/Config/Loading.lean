import Bootstage.Config.Workspace
import Bootstage.Proofs.Path.Shown
import Bootstage.Proofs.Tree.Anchoring
import Bootstage.Proofs.Tree.Joining

/-!
# What a loaded configuration names

A configuration that is loaded comes from the manifest in one directory. That directory is named
from the root of the tree and is there, and every place of the configuration is named behind it,
whatever the manifest says.
-/

namespace Bootstage.Config

variable {tree : Tree} {cwd : Option Location} {config : Config} {root : Path} {manifest : String}

/-- The places of a configuration are named behind the root of its workspace. -/
structure Rooted (config : Config) (root : Path) : Prop where
  /-- The root of the workspace. -/
  workspaceRoot : config.workspaceRoot = root
  /-- What is built has its directory there. -/
  targetDir : config.targetDir = root / "target"
  /-- The system partition has some path behind the root. -/
  espDir : ∃ text : String, config.espDir = root / text
  /-- So has the firmware. -/
  firmwareDir : ∃ text : String, config.firmwareDir = root / text

/-- What is made of settings is rooted in the workspace. -/
theorem rooted_of_ofSettings {settings : Settings} (h : ofSettings root settings = .ok config) :
    config.Rooted root := by
  unfold ofSettings at h
  dsimp only at h
  split at h
  · contradiction
  · have hplace : ∀ (given? : Option String) (standard : String),
        ∃ text : String, (given?.map (root / ⟨·⟩)).getD (root / standard) = root / text := by
      intro given? standard
      cases given? with
      | none => exact ⟨standard, rfl⟩
      | some text => exact ⟨text, rfl⟩
    obtain rfl := Except.ok.inj h
    exact ⟨rfl, rfl, hplace _ _, hplace _ _⟩

/-- What is made of a manifest is rooted in its directory. -/
theorem rooted_of_ofManifest (h : ofManifest root manifest = .ok config) : config.Rooted root := by
  unfold ofManifest at h
  split at h
  · exact rooted_of_ofSettings h
  · contradiction

/-- Behind an absolute root every place is absolute. -/
theorem Rooted.isAbsolute (h : config.Rooted root) (hroot : root.isAbsolute = true) :
    ∀ path ∈ [config.workspaceRoot, config.targetDir, config.espDir, config.firmwareDir],
      path.isAbsolute = true := by
  obtain ⟨esp, hesp⟩ := h.espDir
  obtain ⟨firmware, hfirmware⟩ := h.firmwareDir
  simp only [List.forall_mem_cons, List.not_mem_nil, false_implies, implies_true, and_true,
    h.workspaceRoot, h.targetDir, hesp, hfirmware]
  exact ⟨hroot, Path.isAbsolute_div hroot _, Path.isAbsolute_div hroot _,
    Path.isAbsolute_div hroot _⟩

/-- Behind a root that is a text every place is a text. -/
theorem Rooted.isText (h : config.Rooted root) (htext : config.workspaceRoot.IsText) :
    ∀ path ∈ [config.targetDir, config.espDir, config.firmwareDir], path.IsText := by
  obtain ⟨esp, hesp⟩ := h.espDir
  obtain ⟨firmware, hfirmware⟩ := h.firmwareDir
  rw [h.workspaceRoot] at htext
  simp only [List.forall_mem_cons, List.not_mem_nil, false_implies, implies_true, and_true,
    h.targetDir, hesp, hfirmware]
  exact ⟨htext.join_text _, htext.join_text _, htext.join_text _⟩

/-- A directory decides for a configuration only with a manifest that is there. -/
theorem present_of_decide? {directory : Location} {outcome : Except ConfigurationFault String}
    (h : decide? tree directory = some outcome) :
    tree.present none (Path.ofLocation directory / "Cargo.toml") = true := by
  cases hp : tree.present none (Path.ofLocation directory / "Cargo.toml") with
  | true => rfl
  | false => simp [decide?, hp] at h

section

/-! What a directory decides is a long computation, which is not to be looked into here. -/
attribute [local irreducible] decide?

/-- The first of the directories decides, or else the others. -/
theorem ofFirst_cons (directory : Location) (others : List Location) :
    ofFirst tree (directory :: others) =
      match decide? tree directory with
      | none => ofFirst tree others
      | some (.error fault) => .error fault
      | some (.ok text) => ofManifest (Path.ofLocation directory) text := rfl

/-- What the first directory that decides makes of its manifest is the configuration. -/
theorem exists_manifest_of_ofFirst {directories : List Location}
    (h : ofFirst tree directories = .ok config) :
    ∃ directory ∈ directories, ∃ text, decide? tree directory = some (.ok text) ∧
      ofManifest (Path.ofLocation directory) text = .ok config := by
  induction directories with
  | nil => exact nomatch (show Except.error _ = Except.ok config from h)
  | cons directory others ih =>
    rw [ofFirst_cons] at h
    cases hd : decide? tree directory with
    | none =>
      rw [hd] at h
      obtain ⟨found, hf, hrest⟩ := ih h
      exact ⟨found, List.mem_cons_of_mem directory hf, hrest⟩
    | some outcome =>
      rw [hd] at h
      cases outcome with
      | error fault => simp at h
      | ok text => exact ⟨directory, List.mem_cons_self, text, hd, h⟩

end

/-- A loaded configuration comes from the manifest in a directory that is there. -/
theorem exists_root_of_load (h : load tree cwd = .ok config) :
    ∃ directory text, ofManifest (Path.ofLocation directory) text = .ok config ∧
      ∃ start, tree.locate cwd (Path.ofLocation directory) = .ok start ∧
        tree.get? start = some .directory := by
  unfold load at h
  split at h
  · obtain ⟨directory, -, text, hdecide, hmanifest⟩ := exists_manifest_of_ofFirst h
    refine ⟨directory, text, hmanifest, ?_⟩
    have habsolute := Path.isAbsolute_ofLocation directory
    obtain ⟨entry, hs⟩ := Tree.present_iff_exists_status.mp (present_of_decide? hdecide)
    obtain ⟨place, hl, -⟩ := Tree.status_eq_ok_iff.mp hs
    rw [Tree.locate_anywhere tree none cwd (Path.isAbsolute_div habsolute _)] at hl
    have hbased : (Path.ofLocation directory).bytes ≠ [] := by
      simp [Path.ofLocation]
    exact Tree.exists_locate_of_join (by decide) (by decide) hbased hl
  · contradiction

end Bootstage.Config
