import Mathlib.Data.List.Infix
import Bootstage.Program
import Bootstage.Proofs.Config.Loading
import Bootstage.Proofs.Tree.Passing

/-!
# Which manifest decides

The search for the workspace goes up from the working directory. Of the directories on its way the
nearest one decides whose manifest is there and either cannot be read as a text or mentions the
workspace header. What is farther up does not matter then, and nothing beside the manifests matters
at all.
-/

namespace Bootstage

/-- A run of characters occurs in a text exactly if the text has it as an infix. -/
theorem Text.occurs_eq_true_iff {needle chars : List Char} :
    occurs needle chars = true ↔ needle <:+: chars := by
  induction chars with
  | nil => simp [occurs]
  | cons c rest ih => simp [occurs, ih, List.infix_cons_iff]

theorem Text.contains_eq_true_iff {needle text : String} :
    contains needle text = true ↔ needle.toList <:+: text.toList :=
  occurs_eq_true_iff

/-- Above a location there are that location and those above its directory. -/
theorem Location.ancestors_concat (location : Location) (name : Name) :
    ancestors (location ++ [name]) = (location ++ [name]) :: ancestors location := by
  simp [ancestors, Path.properPrefixes_concat]

namespace Tree

variable {tree : Tree} {cwd : Option Location} {path : Path}

/-- What is read as a text is shown. -/
theorem present_of_readText {text : String} (h : tree.readText cwd path = .ok text) :
    tree.present cwd path = true := by
  obtain ⟨content, hr, -⟩ := Except.bind_eq_ok_iff.mp h
  obtain ⟨entry, hs, -⟩ := Except.bind_eq_ok_iff.mp hr
  exact present_iff_exists_status.mpr ⟨entry, hs⟩

end Tree

namespace Config

/-- The manifest of a directory. -/
def manifest (directory : Location) : Path :=
  Path.ofLocation directory / "Cargo.toml"

/-- The text mentions the header of a workspace. -/
def Mentions (text : String) : Prop :=
  "[workspace]".toList <:+: text.toList

instance (text : String) : Decidable (Mentions text) :=
  decidable_of_iff _ Text.contains_eq_true_iff

/-- The manifest of the directory decides what is loaded. -/
inductive Decides (tree : Tree) (directory : Location) : Except ConfigurationFault Config → Prop
  /-- It is there but cannot be read as a text. -/
  | unreadable {cause : SystemError} (shown : tree.present none (manifest directory) = true)
      (unread : tree.readText none (manifest directory) = .error cause) :
      Decides tree directory (.error (.unreadableManifest cause))
  /-- It mentions the header of a workspace. -/
  | mentioned {text : String} (reads : tree.readText none (manifest directory) = .ok text)
      (mentions : Mentions text) :
      Decides tree directory (ofManifest (Path.ofLocation directory) text)

/-- No manifest between the working directory and the directory decides. -/
def NoneNearer (tree : Tree) (cwd directory : Location) : Prop :=
  ∀ nearer, nearer <+: cwd → directory.length < nearer.length →
    ∀ outcome, ¬ Decides tree nearer outcome

/-- Of the directories on the way up this is the first that decides. -/
structure Nearest (tree : Tree) (cwd directory : Location)
    (outcome : Except ConfigurationFault Config) : Prop where
  /-- It is the working directory or lies above it. -/
  above : directory <+: cwd
  /-- Its manifest decides. -/
  decides : Decides tree directory outcome
  /-- No nearer one does. -/
  first : NoneNearer tree cwd directory

section

variable {tree later : Tree} {cwd directory : Location} {name : Name}
  {outcome other : Except ConfigurationFault Config}

/-! ### One directory -/

section

/-! What a directory decides is a long computation, which is looked into here alone. -/
attribute [local irreducible] Tree.present Tree.readText

/-- What a directory decides is what its manifest makes of it. -/
theorem decides_iff : Decides tree directory outcome ↔
    ∃ decision, decide? tree directory = some decision ∧
      (decision >>= ofManifest (Path.ofLocation directory)) = outcome := by
  have hmanifest : Path.ofLocation directory / "Cargo.toml" = manifest directory := rfl
  rw [decide?, hmanifest]
  constructor
  · rintro (⟨shown, unread⟩ | ⟨reads, mentions⟩)
    · exact ⟨_, by rw [if_pos shown, unread], rfl⟩
    · have hshown := Tree.present_of_readText reads
      have hcontains := Text.contains_eq_true_iff.mpr mentions
      exact ⟨_, by rw [if_pos hshown, reads]; exact if_pos hcontains, rfl⟩
  · rintro ⟨decision, hdecide, rfl⟩
    split at hdecide
    · next shown =>
      split at hdecide
      · next cause unread =>
        obtain rfl := Option.some.inj hdecide
        exact .unreadable shown unread
      · next text reads =>
        split at hdecide
        · next hcontains =>
          obtain rfl := Option.some.inj hdecide
          exact .mentioned reads (Text.contains_eq_true_iff.mp hcontains)
        · simp at hdecide
    · simp at hdecide

end

/-- A directory decides in one way at most. -/
theorem Decides.unique (h : Decides tree directory outcome) (h' : Decides tree directory other) :
    outcome = other := by
  obtain ⟨decision, hd, rfl⟩ := decides_iff.mp h
  obtain ⟨decision', hd', rfl⟩ := decides_iff.mp h'
  rw [Option.some.inj (hd.symm.trans hd')]

/-- What is loaded without a fault is made of the text of the manifest. -/
theorem Decides.exists_text {config : Config} (h : Decides tree directory outcome)
    (ho : outcome = .ok config) :
    ∃ text, ofManifest (Path.ofLocation directory) text = .ok config := by
  cases h with
  | unreadable => simp at ho
  | mentioned => exact ⟨_, ho⟩

/-- A manifest that is shown and read alike decides alike. -/
theorem Decides.of_same (h : Decides tree directory outcome)
    (shown : later.present none (manifest directory) = tree.present none (manifest directory))
    (reads : later.readText none (manifest directory) = tree.readText none (manifest directory)) :
    Decides later directory outcome := by
  cases h with
  | unreadable hshown hunread => exact .unreadable (shown.trans hshown) (reads.trans hunread)
  | mentioned hreads hmentions => exact .mentioned (reads.trans hreads) hmentions

/-- A directory that decides ends the search. -/
theorem ofFirst_of_decides (h : Decides tree directory outcome) (others : List Location) :
    ofFirst tree (directory :: others) = outcome := by
  obtain ⟨decision, hd, rfl⟩ := decides_iff.mp h
  rw [ofFirst_cons, hd]
  cases decision <;> rfl

/-- A directory that does not decide is passed over. -/
theorem ofFirst_of_not_decides (h : ∀ outcome, ¬ Decides tree directory outcome)
    (others : List Location) : ofFirst tree (directory :: others) = ofFirst tree others := by
  rw [ofFirst_cons]
  cases hd : decide? tree directory with
  | none => rfl
  | some decision => exact absurd (decides_iff.mpr ⟨decision, hd, rfl⟩) (h _)

/-! ### On the way up -/

/-- What is nearer to a part of the way is nearer to the whole. -/
theorem NoneNearer.of_prefix {part : Location} (h : NoneNearer tree cwd directory)
    (hp : part <+: cwd) : NoneNearer tree part directory :=
  fun nearer hn => h nearer (hn.trans hp)

/-- The working directory has none nearer. -/
theorem noneNearer_self (tree : Tree) (cwd : Location) : NoneNearer tree cwd cwd :=
  fun _ hn hlen => absurd hn.length_le (Nat.not_le.mpr hlen)

/-- The search ends at the nearest directory that decides. -/
theorem Nearest.ofFirst_eq (h : Nearest tree cwd directory outcome) :
    ofFirst tree (Location.ancestors cwd) = outcome := by
  induction cwd using List.reverseRecOn with
  | nil =>
    obtain rfl := List.prefix_nil.mp h.above
    exact ofFirst_of_decides h.decides _
  | append_singleton cwd name ih =>
    rw [Location.ancestors_concat]
    rcases List.prefix_concat_iff.mp h.above with rfl | habove
    · exact ofFirst_of_decides h.decides _
    · have hlen : directory.length < (cwd ++ [name]).length := by
        have hle := habove.length_le
        simp only [List.length_append, List.length_singleton]
        omega
      rw [ofFirst_of_not_decides (h.first _ List.prefix_rfl hlen)]
      exact ih ⟨habove, h.decides, h.first.of_prefix (List.prefix_append _ _)⟩

/-- The search comes to its end without a workspace where no directory decides. -/
theorem ofFirst_ancestors_of_not_decides
    (h : ∀ directory, directory <+: cwd → ∀ outcome, ¬ Decides tree directory outcome) :
    ofFirst tree (Location.ancestors cwd) = .error .noWorkspace := by
  induction cwd using List.reverseRecOn with
  | nil => exact ofFirst_of_not_decides (h [] List.prefix_rfl) []
  | append_singleton cwd name ih =>
    rw [Location.ancestors_concat, ofFirst_of_not_decides (h _ List.prefix_rfl)]
    exact ih fun directory hp => h directory (hp.trans (List.prefix_append _ _))

/-- There is a nearest directory that decides unless none on the way up does. -/
theorem nearest_or_not_decides (tree : Tree) (cwd : Location) :
    (∃ directory outcome, Nearest tree cwd directory outcome) ∨
      ∀ directory, directory <+: cwd → ∀ outcome, ¬ Decides tree directory outcome := by
  induction cwd using List.reverseRecOn with
  | nil =>
    by_cases hd : ∃ outcome, Decides tree [] outcome
    · obtain ⟨outcome, hd⟩ := hd
      exact .inl ⟨[], outcome, List.prefix_rfl, hd, noneNearer_self tree []⟩
    · right
      intro directory hp outcome hdecides
      rw [List.prefix_nil.mp hp] at hdecides
      exact hd ⟨outcome, hdecides⟩
  | append_singleton cwd name ih =>
    by_cases hd : ∃ outcome, Decides tree (cwd ++ [name]) outcome
    · obtain ⟨outcome, hd⟩ := hd
      exact .inl ⟨cwd ++ [name], outcome, List.prefix_rfl, hd, noneNearer_self tree _⟩
    · have hself : ∀ outcome, ¬ Decides tree (cwd ++ [name]) outcome :=
        fun outcome h => hd ⟨outcome, h⟩
      rcases ih with ⟨directory, outcome, h⟩ | hnone
      · refine .inl ⟨directory, outcome, h.above.trans (List.prefix_append _ _), h.decides, ?_⟩
        intro nearer hp hlen
        rcases List.prefix_concat_iff.mp hp with rfl | hq
        · exact hself
        · exact h.first nearer hq hlen
      · right
        intro directory hp
        rcases List.prefix_concat_iff.mp hp with rfl | hq
        · exact hself
        · exact hnone directory hq

/-! ### Loading -/

/-- From a working directory that is there the search goes up. -/
theorem load_of_get? (standing : tree.get? cwd = some .directory) :
    load tree (some cwd) = ofFirst tree (Location.ancestors cwd) := by
  have hheld : tree.held (some cwd) = some cwd := Tree.held_eq_some_iff.mpr ⟨rfl, standing⟩
  rw [load, hheld]

/-- The nearest manifest that decides is loaded. -/
theorem Nearest.load_eq (h : Nearest tree cwd directory outcome)
    (standing : tree.get? cwd = some .directory) : load tree (some cwd) = outcome := by
  rw [load_of_get? standing, h.ofFirst_eq]

/-- In the other tree the manifests are shown and read alike, as far up as the search goes. -/
def SameManifests (tree later : Tree) (cwd : Location) : Prop :=
  ∀ directory, directory <+: cwd → NoneNearer tree cwd directory →
    later.present none (manifest directory) = tree.present none (manifest directory) ∧
      later.readText none (manifest directory) = tree.readText none (manifest directory)

/-- What a directory on the way of the search does not decide, it does not decide in the other tree
either. -/
theorem SameManifests.noneNearer (same : SameManifests tree later cwd)
    (h : NoneNearer tree cwd directory) : NoneNearer later cwd directory := by
  intro nearer hp hlen outcome hdecides
  have hway : NoneNearer tree cwd nearer := fun other ho hl => h other ho (hlen.trans hl)
  obtain ⟨hshown, hreads⟩ := same nearer hp hway
  exact h nearer hp hlen outcome (hdecides.of_same hshown.symm hreads.symm)

/-- The search depends on the manifests on its way alone. -/
theorem SameManifests.ofFirst_eq (same : SameManifests tree later cwd) :
    ofFirst later (Location.ancestors cwd) = ofFirst tree (Location.ancestors cwd) := by
  rcases nearest_or_not_decides tree cwd with ⟨directory, outcome, h⟩ | hnone
  · obtain ⟨hshown, hreads⟩ := same directory h.above h.first
    have hlater : Nearest later cwd directory outcome :=
      ⟨h.above, h.decides.of_same hshown hreads, same.noneNearer h.first⟩
    rw [h.ofFirst_eq, hlater.ofFirst_eq]
  · have hlater :
        ∀ directory, directory <+: cwd → ∀ outcome, ¬ Decides later directory outcome := by
      intro directory hp outcome hdecides
      obtain ⟨hshown, hreads⟩ := same directory hp fun nearer hn _ => hnone nearer hn
      exact hnone directory hp outcome (hdecides.of_same hshown.symm hreads.symm)
    rw [ofFirst_ancestors_of_not_decides hnone, ofFirst_ancestors_of_not_decides hlater]

/-- Manifests are shown and read alike where all that their paths come by is the same. -/
theorem sameManifests_of_passed
    (same : ∀ directory, directory <+: cwd → NoneNearer tree cwd directory →
      ∀ place ∈ tree.passed none (manifest directory), later.get? place = tree.get? place) :
    SameManifests tree later cwd := by
  intro directory hp hway
  have hstatus := Tree.status_congr (same directory hp hway)
  constructor
  · rw [Tree.present, Tree.present, hstatus]
  · rw [Tree.readText, Tree.readText, Tree.read, Tree.read, hstatus]

/-- What is loaded in a working directory. -/
structure SearchAccount (tree : Tree) (cwd : Location) : Prop where
  /-- The nearest manifest that decides is what counts. -/
  nearest : ∀ directory outcome, Nearest tree cwd directory outcome →
    load tree (some cwd) = outcome
  /-- If none decides, there is no workspace. -/
  undecided : (∀ directory, directory <+: cwd → ∀ outcome, ¬ Decides tree directory outcome) →
    load tree (some cwd) = .error .noWorkspace
  /-- There is no third case. -/
  settled : (∃ directory outcome, Nearest tree cwd directory outcome) ∨
    ∀ directory, directory <+: cwd → ∀ outcome, ¬ Decides tree directory outcome
  /-- The root of the workspace is the working directory or lies above it. -/
  root : ∀ config, load tree (some cwd) = .ok config → ∃ directory, directory <+: cwd ∧
    config.workspaceRoot = Path.ofLocation directory ∧ Nearest tree cwd directory (.ok config)
  /-- The same is loaded wherever there is no manifest that decides below the one that counts. -/
  shared : ∀ other directory outcome, tree.get? other = some .directory →
    Nearest tree cwd directory outcome → directory <+: other → NoneNearer tree other directory →
      load tree (some other) = load tree (some cwd)
  /-- The same is loaded from other files with the same manifests on the way up. -/
  manifests : ∀ later, later.get? cwd = some .directory → SameManifests tree later cwd →
    load later (some cwd) = load tree (some cwd)
  /-- So it is if nothing is changed that the paths of these manifests come by. -/
  places : ∀ later, later.get? cwd = some .directory →
    (∀ directory, directory <+: cwd → NoneNearer tree cwd directory →
      ∀ place ∈ tree.passed none (manifest directory), later.get? place = tree.get? place) →
    load later (some cwd) = load tree (some cwd)
  /-- A task for which no workspace is found fails, and the machine is as it was. -/
  refused : ∀ fault, load tree (some cwd) = .error fault → ∀ programs host task,
    ∀ machine : Machine, machine.tree = tree → machine.cwd = some cwd →
      (Program.perform programs host task).run machine = (.error (.configuration fault), machine)
  /-- A task for which one is found is performed on the machine as it was. -/
  unchanged : ∀ config, load tree (some cwd) = .ok config → ∀ programs host task,
    ∀ machine : Machine, machine.tree = tree → machine.cwd = some cwd →
      (Program.perform programs host task).run machine =
        ((Workbench.ofPrograms programs host config).perform task).run machine

/-- The search goes up from the working directory to the first manifest that decides. -/
theorem search_account (standing : tree.get? cwd = some .directory) : SearchAccount tree cwd where
  nearest directory outcome h := h.load_eq standing
  undecided h := by
    rw [load_of_get? standing, ofFirst_ancestors_of_not_decides h]
  settled := nearest_or_not_decides tree cwd
  root config loaded := by
    rcases nearest_or_not_decides tree cwd with ⟨directory, outcome, h⟩ | hnone
    · obtain rfl := (h.load_eq standing).symm.trans loaded
      obtain ⟨text, hmanifest⟩ := h.decides.exists_text rfl
      exact ⟨directory, h.above, (rooted_of_ofManifest hmanifest).workspaceRoot, h⟩
    · rw [load_of_get? standing, ofFirst_ancestors_of_not_decides hnone] at loaded
      simp at loaded
  shared other directory outcome hother h hp hnone := by
    have hnearest : Nearest tree other directory outcome := ⟨hp, h.decides, hnone⟩
    rw [hnearest.load_eq hother, h.load_eq standing]
  manifests later hlater same := by
    rw [load_of_get? hlater, load_of_get? standing, same.ofFirst_eq]
  places later hlater same := by
    rw [load_of_get? hlater, load_of_get? standing, (sameManifests_of_passed same).ofFirst_eq]
  refused fault hfault programs host task machine htree hcwd := by
    rw [Program.perform, Action.run_bind, Action.run_look, htree, hcwd, hfault]
    rfl
  unchanged config loaded programs host task machine htree hcwd := by
    rw [Program.perform, Action.run_bind, Action.run_look, htree, hcwd, loaded]

/-- A workspace with a package that has a manifest of its own. -/
def memberTree : Tree :=
  Tree.empty.putAll [(["w"], .directory), (["w", "kernel"], .directory),
    (["w", "Cargo.toml"], .file "[workspace]\n"),
    (["w", "kernel", "Cargo.toml"], .file "[package]\nname = \"kernel\"\n")]

/-- In the package the manifest above it decides. -/
theorem search_account_member :
    memberTree.get? ["w", "kernel"] = some .directory ∧
      SearchAccount memberTree ["w", "kernel"] ∧
        load memberTree (some ["w", "kernel"]) = .ok (defaults ⟨"/w"⟩) := by
  have standing : memberTree.get? ["w", "kernel"] = some .directory := by
    decide +kernel
  exact ⟨standing, search_account standing, by decide +kernel⟩

end

end Config

end Bootstage
