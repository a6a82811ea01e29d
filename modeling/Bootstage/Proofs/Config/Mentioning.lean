import Bootstage.Proofs.Config.Searching

/-!
# Mentioning a workspace and having one

The search looks for the text of a header, the reader for a table. The two agree on a way up on
which the nearest manifest with a table `workspace` is also the nearest one that mentions the
header. Where a nearer manifest mentions it, in a comment or in a string, that one is read instead;
and a manifest that has the table under another header is passed over.
-/

namespace Bootstage.Config

/-- The manifest of the directory is a document with the given text and entries. -/
structure Documents (tree : Tree) (directory : Location) (text : String)
    (entries : Toml.Entries) : Prop where
  /-- The manifest is there with this text. -/
  reads : tree.readText none (manifest directory) = .ok text
  /-- The text is that of a document. -/
  parses : Toml.parse? text = some entries

/-- Every manifest that is there on the way up is a document. -/
def WellFormed (tree : Tree) (cwd : Location) : Prop :=
  ∀ directory, directory <+: cwd → tree.present none (manifest directory) = true →
    ∃ text entries, Documents tree directory text entries

/-- A document describes a workspace if it has the table of that name. -/
def HasWorkspace (entries : Toml.Entries) : Prop :=
  ∃ origin inner, entries.lookup "workspace" = some (.table origin inner)

/-- Of the manifests on the way up this is the first that has the table of a workspace. -/
structure NearestWorkspace (tree : Tree) (cwd directory : Location) (text : String) : Prop where
  /-- The directory is the working directory or lies above it. -/
  above : directory <+: cwd
  /-- Its manifest has the table. -/
  described : ∃ entries, Documents tree directory text entries ∧ HasWorkspace entries
  /-- No nearer one has. -/
  first : ∀ nearer, nearer <+: cwd → directory.length < nearer.length →
    ∀ found entries, Documents tree nearer found entries → ¬ HasWorkspace entries

/-- No manifest between the working directory and the directory mentions a workspace. -/
def NoneMentioned (tree : Tree) (cwd directory : Location) : Prop :=
  ∀ nearer, nearer <+: cwd → directory.length < nearer.length →
    ∀ text, tree.readText none (manifest nearer) = .ok text → ¬ Mentions text

variable {tree : Tree} {cwd directory : Location} {text : String}
  {outcome : Except ConfigurationFault Config}

/-! ### Among documents -/

/-- A document decides if it mentions a workspace. -/
theorem WellFormed.decides_iff (valid : WellFormed tree cwd) (hp : directory <+: cwd) :
    Decides tree directory outcome ↔
      ∃ text, tree.readText none (manifest directory) = .ok text ∧ Mentions text ∧
        outcome = ofManifest (Path.ofLocation directory) text := by
  constructor
  · intro h
    cases h with
    | unreadable shown unread =>
      obtain ⟨text, entries, hdocuments⟩ := valid directory hp shown
      exact nomatch unread.symm.trans hdocuments.reads
    | mentioned reads mentions => exact ⟨_, reads, mentions, rfl⟩
  · rintro ⟨text, reads, mentions, rfl⟩
    exact .mentioned reads mentions

/-- In a well-formed tree it does not matter whether manifests decide or mention a workspace. -/
theorem WellFormed.noneNearer_iff (valid : WellFormed tree cwd) :
    NoneNearer tree cwd directory ↔ NoneMentioned tree cwd directory := by
  constructor
  · intro h nearer hp hlen text reads mentions
    exact h nearer hp hlen _ (.mentioned reads mentions)
  · intro h nearer hp hlen outcome hdecides
    obtain ⟨text, reads, mentions, -⟩ := (valid.decides_iff hp).mp hdecides
    exact h nearer hp hlen text reads mentions

/-- A document that does not mention a workspace decides nothing. -/
theorem WellFormed.not_decides (valid : WellFormed tree cwd) (hp : directory <+: cwd)
    {entries : Toml.Entries} (documents : Documents tree directory text entries)
    (hnot : ¬ Mentions text) : ¬ Decides tree directory outcome := by
  intro hdecides
  obtain ⟨found, reads, mentions, -⟩ := (valid.decides_iff hp).mp hdecides
  obtain rfl : found = text := Except.ok.inj (reads.symm.trans documents.reads)
  exact hnot mentions

/-- The nearest document that mentions a workspace decides. -/
theorem WellFormed.nearest (valid : WellFormed tree cwd) (hp : directory <+: cwd)
    (reads : tree.readText none (manifest directory) = .ok text) (mentions : Mentions text)
    (hnone : NoneMentioned tree cwd directory) :
    Nearest tree cwd directory (ofManifest (Path.ofLocation directory) text) :=
  ⟨hp, .mentioned reads mentions, valid.noneNearer_iff.mpr hnone⟩

/-- If a workspace is mentioned below a directory, there is a document that is nearest in mentioning
one. -/
theorem WellFormed.exists_mentioned (valid : WellFormed tree cwd)
    (hsome : ¬ NoneMentioned tree cwd directory) :
    ∃ nearer, nearer <+: cwd ∧ directory.length < nearer.length ∧
      ∃ text entries, Documents tree nearer text entries ∧ Mentions text ∧
        NoneMentioned tree cwd nearer := by
  rcases nearest_or_not_decides tree cwd with ⟨nearer, outcome, h⟩ | hnobody
  · have hlen : directory.length < nearer.length := by
      by_contra hle
      refine hsome fun other hp hlen found reads mentions => ?_
      exact h.first other hp ((Nat.not_lt.mp hle).trans_lt hlen) _ (.mentioned reads mentions)
    obtain ⟨found, reads, mentions, -⟩ := (valid.decides_iff h.above).mp h.decides
    obtain ⟨text, entries, hdocuments⟩ := valid nearer h.above (Tree.present_of_readText reads)
    obtain rfl : text = found := Except.ok.inj (hdocuments.reads.symm.trans reads)
    exact ⟨nearer, h.above, hlen, text, entries, hdocuments, mentions,
      valid.noneNearer_iff.mp h.first⟩
  · refine absurd (fun nearer hp _ found reads mentions => ?_) hsome
    exact hnobody nearer hp _ (.mentioned reads mentions)

/-- A document in which the key of a workspace is missing is no manifest of one. -/
theorem ofManifest_of_lookup_eq_none {entries : Toml.Entries} (root : Path)
    (parses : Toml.parse? text = some entries) (missing : entries.lookup "workspace" = none) :
    ofManifest root text = .error .malformedManifest := by
  have hread : Manifest.read? text = none := by
    simp [Manifest.read?, parses, Manifest.ofEntries?, missing]
  rw [ofManifest, hread]

/-- Where nothing decides from the root down to the working directory, there is no workspace. -/
theorem load_of_root (standing : tree.get? cwd = some .directory)
    (self : ∀ outcome, ¬ Decides tree [] outcome) (below : NoneNearer tree cwd []) :
    load tree (some cwd) = .error .noWorkspace := by
  have hnone : ∀ directory, directory <+: cwd → ∀ outcome, ¬ Decides tree directory outcome := by
    intro directory hp
    by_cases hroot : directory = []
    · rw [hroot]
      exact self
    · exact below directory hp (List.length_pos_iff.mpr hroot)
  rw [load_of_get? standing, ofFirst_ancestors_of_not_decides hnone]

/-- Where nothing decides from a directory down to the working directory, the search goes on above
that directory. -/
theorem load_above {name : Name} {above : Location}
    (standing : tree.get? cwd = some .directory) (hp : above ++ [name] <+: cwd)
    (self : ∀ outcome, ¬ Decides tree (above ++ [name]) outcome)
    (below : NoneNearer tree cwd (above ++ [name])) :
    load tree (some cwd) = load tree (some above) := by
  have habove : above <+: cwd := (List.prefix_append _ _).trans hp
  have hbetween : ∀ nearer, nearer <+: cwd →
      nearer <+: above ∨ ∀ outcome, ¬ Decides tree nearer outcome := by
    intro nearer hn
    rcases Nat.lt_trichotomy nearer.length (above ++ [name]).length with hlt | he | hgt
    · left
      simp only [List.length_append, List.length_singleton] at hlt
      exact List.prefix_of_prefix_length_le hn habove (by omega)
    · right
      rwa [(List.prefix_of_prefix_length_le hn hp he.le).eq_of_length he]
    · exact .inr (below nearer hn hgt)
  have hstanding : tree.get? above = some .directory := by
    refine Tree.get?_above standing habove ?_
    rintro rfl
    have hlen := hp.length_le
    simp only [List.length_append, List.length_singleton] at hlen
    omega
  rcases nearest_or_not_decides tree above with ⟨directory, outcome, h⟩ | hnone
  · have hcwd : Nearest tree cwd directory outcome :=
      ⟨h.above.trans habove, h.decides, fun nearer hn hlen =>
        (hbetween nearer hn).elim (fun hq => h.first nearer hq hlen) id⟩
    rw [hcwd.load_eq standing, h.load_eq hstanding]
  · have hcwd : ∀ directory, directory <+: cwd → ∀ outcome, ¬ Decides tree directory outcome :=
      fun directory hn => (hbetween directory hn).elim (hnone directory) id
    rw [load_of_get? standing, load_of_get? hstanding, ofFirst_ancestors_of_not_decides hcwd,
      ofFirst_ancestors_of_not_decides hnone]

/-! ### The search beside the reader -/

/-- What is loaded below the nearest manifest that has the table of a workspace. -/
structure MentionAccount (tree : Tree) (cwd directory : Location) (text : String) : Prop where
  /-- The search ends there exactly if this manifest mentions a workspace and no nearer one does. -/
  agrees : (∃ outcome, Nearest tree cwd directory outcome) ↔
    Mentions text ∧ NoneMentioned tree cwd directory
  /-- Then the configuration is made of this manifest. -/
  taken : Mentions text → NoneMentioned tree cwd directory →
    load tree (some cwd) = ofManifest (Path.ofLocation directory) text
  /-- A nearer manifest that mentions a workspace is read instead, which is in vain if it does not
  have the key. -/
  diverted : ∀ nearer, nearer <+: cwd → directory.length < nearer.length →
    ∀ found entries, Documents tree nearer found entries → Mentions found →
      NoneMentioned tree cwd nearer →
        load tree (some cwd) = ofManifest (Path.ofLocation nearer) found ∧
          (entries.lookup "workspace" = none → load tree (some cwd) = .error .malformedManifest)
  /-- A manifest that does not mention its workspace is passed over. -/
  skipped : ¬ Mentions text → NoneMentioned tree cwd directory →
    (directory = [] → load tree (some cwd) = .error .noWorkspace) ∧
      ∀ above name, directory = above ++ [name] →
        load tree (some cwd) = load tree (some above)
  /-- There is no fourth case. -/
  settled : NoneMentioned tree cwd directory ∨
    ∃ nearer, nearer <+: cwd ∧ directory.length < nearer.length ∧
      ∃ found entries, Documents tree nearer found entries ∧ Mentions found ∧
        NoneMentioned tree cwd nearer ∧ ¬ HasWorkspace entries

/-- Below the nearest manifest that has the table of a workspace, what is loaded depends on which
manifests mention one. -/
theorem mention_account (standing : tree.get? cwd = some .directory) (valid : WellFormed tree cwd)
    (nearest : NearestWorkspace tree cwd directory text) :
    MentionAccount tree cwd directory text := by
  obtain ⟨own, hown, -⟩ := nearest.described
  refine ⟨?agrees, ?taken, ?diverted, ?skipped, ?settled⟩
  case agrees =>
    constructor
    · rintro ⟨outcome, h⟩
      by_cases hm : Mentions text
      · exact ⟨hm, valid.noneNearer_iff.mp h.first⟩
      · exact absurd h.decides (valid.not_decides nearest.above hown hm)
    · rintro ⟨mentions, hnone⟩
      exact ⟨_, valid.nearest nearest.above hown.reads mentions hnone⟩
  case taken =>
    intro mentions hnone
    exact (valid.nearest nearest.above hown.reads mentions hnone).load_eq standing
  case diverted =>
    intro nearer hp hlen found entries hdocuments mentions hnone
    have hload := (valid.nearest hp hdocuments.reads mentions hnone).load_eq standing
    refine ⟨hload, fun missing => ?_⟩
    rw [hload, ofManifest_of_lookup_eq_none _ hdocuments.parses missing]
  case skipped =>
    intro hnot hnone
    have hself : ∀ outcome, ¬ Decides tree directory outcome :=
      fun _ => valid.not_decides nearest.above hown hnot
    have hbelow := valid.noneNearer_iff.mpr hnone
    constructor
    · rintro rfl
      exact load_of_root standing hself hbelow
    · rintro above name rfl
      exact load_above standing nearest.above hself hbelow
  case settled =>
    by_cases hnone : NoneMentioned tree cwd directory
    · exact .inl hnone
    · obtain ⟨nearer, hp, hlen, found, entries, hdocuments, mentions, hfirst⟩ :=
        valid.exists_mentioned hnone
      exact .inr ⟨nearer, hp, hlen, found, entries, hdocuments, mentions, hfirst,
        nearest.first nearer hp hlen found entries hdocuments⟩

/-! ### Where the two agree, and where they do not -/

instance (entries : Toml.Entries) : Decidable (HasWorkspace entries) :=
  match h : entries.lookup "workspace" with
  | some (.table origin inner) => .isTrue ⟨origin, inner, h⟩
  | none | some (.string _) | some (.integer _) | some .float | some (.boolean _)
  | some .datetime | some (.array _) | some (.sections _) => .isFalse (by simp [HasWorkspace, h])

/-- The text and the entries of the manifest of a directory, if it is a document. -/
def document? (tree : Tree) (directory : Location) : Option (String × Toml.Entries) :=
  match tree.readText none (manifest directory) with
  | .ok text => (Toml.parse? text).map (text, ·)
  | .error _ => none

/-- A manifest is the document that is found in its directory. -/
theorem documents_iff {entries : Toml.Entries} :
    Documents tree directory text entries ↔ document? tree directory = some (text, entries) := by
  unfold document?
  constructor
  · rintro ⟨reads, parses⟩
    rw [reads]
    simp [parses]
  · intro h
    split at h
    · next found reads =>
      obtain ⟨parsed, parses, he⟩ := Option.map_eq_some_iff.mp h
      obtain ⟨rfl, rfl⟩ := Prod.mk.inj he
      exact ⟨reads, parses⟩
    · simp at h

instance (tree : Tree) (cwd : Location) : Decidable (WellFormed tree cwd) :=
  decidable_of_iff (∀ directory ∈ cwd.inits, tree.present none (manifest directory) = true →
      (document? tree directory).isSome = true) (by
    simp only [WellFormed, documents_iff, List.mem_inits, Option.isSome_iff_exists, Prod.exists])

instance (tree : Tree) (cwd directory : Location) (text : String) :
    Decidable (NearestWorkspace tree cwd directory text) :=
  decidable_of_iff (directory <+: cwd ∧
      (∃ document ∈ document? tree directory, document.1 = text ∧ HasWorkspace document.2) ∧
      ∀ nearer ∈ cwd.inits, directory.length < nearer.length →
        ∀ document ∈ document? tree nearer, ¬ HasWorkspace document.2) (by
    simp only [List.mem_inits, Option.mem_def]
    constructor
    · rintro ⟨above, ⟨⟨_, entries⟩, hd, rfl, hw⟩, first⟩
      exact ⟨above, ⟨entries, documents_iff.mpr hd, hw⟩, fun nearer hp hlen found entries hf =>
        first nearer hp hlen (found, entries) (documents_iff.mp hf)⟩
    · rintro ⟨above, ⟨entries, hd, hw⟩, first⟩
      exact ⟨above, ⟨(text, entries), documents_iff.mp hd, rfl, hw⟩,
        fun nearer hp hlen document hf =>
          first nearer hp hlen document.1 document.2 (documents_iff.mpr hf)⟩)

/-- A workspace with a package whose manifest says something about workspaces. -/
def remarkTree : Tree :=
  Tree.empty.putAll [(["w"], .directory), (["w", "kernel"], .directory),
    (["w", "Cargo.toml"], .file "[workspace]\n"),
    (["w", "kernel", "Cargo.toml"], .file "[package]\n# not a [workspace]\n")]

/-- The remark is taken for a header, and the search ends at a manifest that the reader refuses,
though the manifest above is one of a workspace. -/
theorem search_and_reader_disagree :
    remarkTree.get? ["w", "kernel"] = some .directory ∧
      WellFormed remarkTree ["w", "kernel"] ∧
      NearestWorkspace remarkTree ["w", "kernel"] ["w"] "[workspace]\n" ∧
      ofManifest ⟨"/w"⟩ "[workspace]\n" = .ok (defaults ⟨"/w"⟩) ∧
      load remarkTree (some ["w", "kernel"]) = .error .malformedManifest := by
  refine ⟨?_, ?_, ?_, ?_, ?_⟩ <;> decide +kernel

/-- Without the remark the search ends at the manifest above. -/
theorem mention_account_member :
    MentionAccount memberTree ["w", "kernel"] ["w"] "[workspace]\n" ∧
      load memberTree (some ["w", "kernel"]) = ofManifest ⟨"/w"⟩ "[workspace]\n" := by
  have standing : memberTree.get? ["w", "kernel"] = some .directory := by
    decide +kernel
  have valid : WellFormed memberTree ["w", "kernel"] := by
    decide +kernel
  have nearest : NearestWorkspace memberTree ["w", "kernel"] ["w"] "[workspace]\n" := by
    decide +kernel
  exact ⟨mention_account standing valid nearest, by decide +kernel⟩

end Bootstage.Config
