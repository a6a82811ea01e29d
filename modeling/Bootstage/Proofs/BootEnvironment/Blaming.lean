import Bootstage.Proofs.BootEnvironment.Framing
import Bootstage.Proofs.Tree.Passing

/-!
# Which source is to blame

Copies are made in order up to the first that fails. Where no source leads to the place of a copy,
no copy changes what another one reads, so each of them can be made exactly if it could be made
right after the reset. A failure then names the first source of which this does not hold, and what
has been added to the empty layout are the copies of the sources before it.
-/

namespace Bootstage

/-- The one file can be copied to the place of the other. -/
def Scene.Copyable (scene : Scene) (copy : Path × Path) : Prop :=
  ∃ copied, scene.tree.copy scene.cwd copy.1 copy.2 = .ok copied

/-- A file can be copied if it can be read and the target leads to a place for a file. -/
theorem Scene.copyable_iff {scene : Scene} {copy : Path × Path} :
    scene.Copyable copy ↔ (∃ content, scene.tree.read scene.cwd copy.1 = .ok content) ∧
      ∃ place, scene.tree.locateWritable scene.cwd copy.2 = .ok place := by
  simp only [Copyable, Tree.copy_eq_ok_iff, Tree.read_eq_ok_iff]
  constructor
  · rintro ⟨_, origin, content, place, ho, hg, hw, -⟩
    exact ⟨⟨content, origin, ho, hg⟩, place, hw⟩
  · rintro ⟨⟨content, origin, ho, hg⟩, place, hw⟩
    exact ⟨_, origin, content, place, ho, hg, hw, rfl⟩

/-- No copy gets into the way of another: no source leads to the place of a copy, and each copy has
a place of its own. -/
structure Scene.Separate (scene : Scene) (copies : List (Path × Path)) : Prop where
  /-- No source is written over. -/
  sources : ∀ copy ∈ copies, ∀ other ∈ copies, ∀ place,
    scene.tree.locate scene.cwd copy.1 = .ok place →
      scene.tree.locateWritable scene.cwd other.2 ≠ .ok place
  /-- No copy is written over. -/
  targets : copies.Pairwise fun copy other => ∀ place,
    scene.tree.locateWritable scene.cwd copy.2 = .ok place →
      scene.tree.locateWritable scene.cwd other.2 ≠ .ok place

namespace BootEnvironment

open Bootstage.Action

namespace Copied

variable {name : String} {copies made : List (Path × Path)} {scene left : Scene}
  {outcome : Except Error Unit}

/-! ### Copies that keep out of each other's way -/

/-- A file is read as before where no copy has been made. -/
theorem read_eq_ok_iff (h : Copied name copies scene made outcome left)
    (held : scene.tree.held scene.cwd = scene.cwd) {source : Path} {content : Text.Bytes}
    (free : ∀ copy ∈ made, ∀ place, scene.tree.locate scene.cwd source = .ok place →
      scene.tree.locateWritable scene.cwd copy.2 ≠ .ok place) :
    left.tree.read left.cwd source = .ok content ↔
      scene.tree.read scene.cwd source = .ok content := by
  obtain ⟨hcwd, hkept, hkept', -⟩ := h.files held
  rw [Tree.read_eq_ok_iff, Tree.read_eq_ok_iff, hcwd]
  constructor
  · rintro ⟨place, hl, hg⟩
    have hl' := hkept'.locate hl
    rw [h.get?_eq held fun copy hc => free copy hc place hl'] at hg
    exact ⟨place, hl', hg⟩
  · rintro ⟨place, hl, hg⟩
    rw [← h.get?_eq held fun copy hc => free copy hc place hl] at hg
    exact ⟨place, hkept.locate hl, hg⟩

/-- A file can be copied as before where no copy has been made in its place. -/
theorem copyable_iff (h : Copied name copies scene made outcome left)
    (held : scene.tree.held scene.cwd = scene.cwd) {copy : Path × Path}
    (free : ∀ other ∈ made, ∀ place, scene.tree.locate scene.cwd copy.1 = .ok place →
      scene.tree.locateWritable scene.cwd other.2 ≠ .ok place) :
    left.Copyable copy ↔ scene.Copyable copy := by
  obtain ⟨hcwd, hkept, hkept', -⟩ := h.files held
  simp only [Scene.copyable_iff, h.read_eq_ok_iff held free]
  simp only [hcwd, hkept.locateWritable_eq_ok_iff hkept']

/-- Copies that keep out of each other's way still do so when some have been made. -/
theorem separate (h : Copied name copies scene made outcome left)
    (held : scene.tree.held scene.cwd = scene.cwd) {others : List (Path × Path)}
    (separate : scene.Separate others) : left.Separate others := by
  obtain ⟨hcwd, hkept, hkept', -⟩ := h.files held
  constructor
  · intro copy hc other ho place hl hw
    rw [hcwd] at hl hw
    exact separate.sources copy hc other ho place (hkept'.locate hl)
      ((hkept.locateWritable_eq_ok_iff hkept').mp hw)
  · refine separate.targets.imp fun hne place hc ho => ?_
    rw [hcwd, hkept.locateWritable_eq_ok_iff hkept'] at hc ho
    exact hne place hc ho

/-- Each copy that is made has in the end the content that its source had at the start. -/
theorem exists_content (h : Copied name copies scene made outcome left)
    (held : scene.tree.held scene.cwd = scene.cwd) (separate : scene.Separate copies) :
    ∀ copy ∈ made, ∃ content place, scene.tree.read scene.cwd copy.1 = .ok content ∧
      scene.tree.locateWritable scene.cwd copy.2 = .ok place ∧
        left.tree.get? place = some (.file content) := by
  induction h with
  | done => simp
  | stopped copy => simp
  | @passed scene left source target rest made outcome copied copy tail ih =>
    have hone : Copied name [(source, target)] scene [(source, target)] (.ok ())
      (scene.withTree copied) := .passed copy .done
    obtain ⟨origin, content, destination, ho, hg, hw, hcopied⟩ := Tree.copy_eq_ok_iff.mp copy
    have hne : origin ≠ destination := by
      rintro rfl
      exact separate.sources _ List.mem_cons_self _ List.mem_cons_self origin ho hw
    obtain ⟨hlater, hrest⟩ := List.pairwise_cons.mp separate.targets
    have hseparate : scene.Separate rest :=
      ⟨fun copy hc other ho => separate.sources copy (List.mem_cons_of_mem _ hc) other
        (List.mem_cons_of_mem _ ho), hrest⟩
    obtain ⟨hcwd, hkept, hkept', -⟩ := hone.files held
    intro other hother
    cases List.mem_cons.mp hother with
    | inl he =>
      subst he
      refine ⟨content, destination, Tree.read_eq_ok_iff.mpr ⟨origin, ho, hg⟩, hw, ?_⟩
      have hfree : ∀ later ∈ made, (scene.withTree copied).tree.locateWritable
          (scene.withTree copied).cwd later.2 ≠ .ok destination := by
        intro later hl hp
        rw [hcwd, hkept.locateWritable_eq_ok_iff hkept'] at hp
        exact hlater later (tail.made_prefix.subset hl) destination hw hp
      rw [tail.get?_eq (Tree.held_held _ _) hfree, Scene.tree_withTree, hcopied,
        Tree.get?_put (Tree.accepts_of_locateWritable hw _), if_pos rfl, if_neg hne]
    | inr hm =>
      obtain ⟨found, place, hr, hp, hs⟩ :=
        ih (Tree.held_held _ _) (hone.separate held hseparate) other hm
      have hfree : ∀ first ∈ [(source, target)], ∀ place,
          scene.tree.locate scene.cwd other.1 = .ok place →
            scene.tree.locateWritable scene.cwd first.2 ≠ .ok place := by
        intro first hf
        rw [List.mem_singleton.mp hf]
        exact separate.sources other
          (List.mem_cons_of_mem _ (tail.made_prefix.subset hm)) _ List.mem_cons_self
      rw [hcwd, hkept.locateWritable_eq_ok_iff hkept'] at hp
      exact ⟨found, place, (hone.read_eq_ok_iff held hfree).mp hr, hp, hs⟩

/-- What has been copied could be copied from the start. -/
theorem copyable_of_mem (h : Copied name copies scene made outcome left)
    (held : scene.tree.held scene.cwd = scene.cwd) (separate : scene.Separate copies) :
    ∀ copy ∈ made, scene.Copyable copy := by
  intro copy hc
  obtain ⟨content, place, hr, hw, -⟩ := h.exists_content held separate copy hc
  exact Scene.copyable_iff.mpr ⟨⟨content, hr⟩, place, hw⟩

/-- A failure names the first source that could not have been copied at the start. -/
theorem exists_first (h : Copied name copies scene made outcome left)
    (held : scene.tree.held scene.cwd = scene.cwd) (separate : scene.Separate copies)
    {error : Error} (he : outcome = .error error) :
    ∃ source target rest cause, copies = made ++ (source, target) :: rest ∧
      error = .staging name source cause ∧
      left.tree.copy left.cwd source target = .error cause ∧
      ¬ scene.Copyable (source, target) := by
  obtain ⟨source, target, rest, cause, hs, hn, hc⟩ := h.exists_stopped held he
  have hmem : (source, target) ∈ copies := by
    simp [hs]
  refine ⟨source, target, rest, cause, hs, hn, hc, fun hcopyable => ?_⟩
  have hfree := fun other (ho : other ∈ made) =>
    separate.sources (source, target) hmem other (h.made_prefix.subset ho)
  obtain ⟨copied, hcopied⟩ := (h.copyable_iff held hfree).mpr hcopyable
  exact nomatch hc.symm.trans hcopied

/-- All goes well exactly if every source could be copied at the start. -/
theorem eq_ok_iff (h : Copied name copies scene made outcome left)
    (held : scene.tree.held scene.cwd = scene.cwd) (separate : scene.Separate copies) :
    outcome = .ok () ↔ ∀ copy ∈ copies, scene.Copyable copy := by
  constructor
  · intro ho
    rw [← h.made_eq_of_ok ho]
    exact h.copyable_of_mem held separate
  · intro hall
    rcases outcome with error | ⟨⟩
    · obtain ⟨source, target, rest, cause, hs, -, -, hnot⟩ := h.exists_first held separate rfl
      exact absurd (hall (source, target) (by simp [hs])) hnot
    · rfl

end Copied

/-! ### Right after a reset -/

section

variable {environment : BootEnvironment} {architecture : Architecture} {profile : BuildProfile}
  {config : Config} {scene fresh left : Scene} {esp firmware : Location}

/-- No file that is copied is at or below one of the two places. -/
def SourcesOutside (environment : BootEnvironment) (architecture : Architecture)
    (profile : BuildProfile) (config : Config) (esp firmware : Location) (scene : Scene) : Prop :=
  ∀ copy ∈ environment.sources architecture profile config, ∀ place,
    scene.tree.locate scene.cwd copy.1 = .ok place → ¬ esp <+: place ∧ ¬ firmware <+: place

/-- At or below the two places are the empty layout and the given copies, and nothing else. -/
def HoldsCopies (esp firmware : Location) (fresh : Scene) (made : List (Path × Path))
    (tree : Tree) : Prop :=
  ∀ location, esp <+: location ∨ firmware <+: location → ∀ entry,
    tree.get? location = some entry ↔
      (entry = .directory ∧
        (location <+: esp ++ (["efi", "boot"] : Location) ∨ location <+: firmware)) ∨
      ∃ copy ∈ made, copy.2.site? fresh.cwd = some location ∧
        ∃ content, fresh.tree.read fresh.cwd copy.1 = .ok content ∧ entry = .file content

section

variable (h : environment.Fresh esp firmware scene fresh)
  (plain : environment.espDir.Plain ∧ environment.firmwareDir.Plain)
  (apart : ¬ esp <+: firmware ∧ ¬ firmware <+: esp)

include h plain apart

/-- Right after a reset no copy gets into the way of another. -/
theorem Fresh.separate {code vars : Name} (names : architecture.FileNames code vars)
    (outside : environment.SourcesOutside architecture profile config esp firmware fresh) :
    fresh.Separate (environment.sources architecture profile config) := by
  constructor
  · intro copy hc other ho place hl hw
    obtain ⟨hesp, hfirmware⟩ := outside copy hc place hl
    rcases h.place_of_copy plain names ho hw with rfl | rfl | rfl
    · exact hfirmware (List.prefix_append _ _)
    · exact hfirmware (List.prefix_append _ _)
    · exact hesp (List.prefix_append _ _)
  · have hcopy : ∀ {name : Name} {place : Location}, Path.IsName name →
        fresh.tree.locateWritable fresh.cwd (environment.firmwareDir / name) = .ok place →
          place = firmware ++ [name] := fun hname hw =>
      h.eq_of_locateWritable hname plain.2 h.firmwareSite h.get?_firmware (.inr List.prefix_rfl) hw
    have hcode := names.isName code (by simp)
    have hvars := names.isName vars (by simp)
    have hboot : ∀ place, fresh.tree.locateWritable fresh.cwd (environment.bootFile architecture) =
        .ok place → place = esp ++ (["efi", "boot", architecture.bootFile] : Location) := by
      intro place hw
      have hname := names.isName architecture.bootFile (by simp)
      exact (((h.straight_bootFile plain.1 hname).locateWritable_eq_ok_iff
        (hname.endsInSlash_join _)).mp hw).2.1
    have hne : code ≠ vars := by
      have hd := names.distinct
      rintro rfl
      simp at hd
    have hother : ∀ name,
        firmware ++ [name] ≠ esp ++ (["efi", "boot", architecture.bootFile] : Location) := by
      intro name he
      have happ : firmware ++ [name] =
          (esp ++ (["efi", "boot"] : Location)) ++ [(architecture.bootFile : Name)] := by
        simpa using he
      exact apart.1 ((List.append_inj' happ rfl).1 ▸ List.prefix_append _ _)
    simp only [sources, names.firmwareCopy_code, names.firmwareCopy_vars, List.pairwise_cons,
      List.mem_cons, List.not_mem_nil, or_false, forall_eq_or_imp, forall_eq, false_implies,
      implies_true, List.Pairwise.nil, and_true]
    refine ⟨⟨fun place hc hv => ?_, fun place hc hb => ?_⟩, fun place hv hb => ?_⟩
    · have he := (hcopy hcode hc).symm.trans (hcopy hvars hv)
      exact hne (by simpa using he)
    · exact hother code ((hcopy hcode hc).symm.trans (hboot place hb))
    · exact hother vars ((hcopy hvars hv).symm.trans (hboot place hb))

omit plain in
/-- Right after a reset nothing stands at the places of the copies, but the directories that are to
hold them. -/
theorem Fresh.vacant_site {name : Name} {site : Location}
    (hsite : site = firmware ++ [name] ∨ site = esp ++ (["efi", "boot", name] : Location)) :
    fresh.tree.get? site = none ∧ fresh.tree.get? site.dropLast = some .directory := by
  rcases hsite with rfl | rfl
  · constructor
    · rw [h.laidOut, if_neg, if_pos (.inr (List.prefix_append _ _))]
      rintro (hp | hp)
      · have hf := (List.prefix_append firmware [name]).trans hp
        have he := List.prefix_append esp ["efi", "boot"]
        exact (List.prefix_or_prefix_of_prefix hf he).elim apart.2 apart.1
      · have hlen := hp.length_le
        simp only [List.length_append, List.length_singleton] at hlen
        omega
    · rw [List.dropLast_concat, h.get?_firmware]
  · have hsplit : esp ++ (["efi", "boot", name] : Location) =
        (esp ++ (["efi", "boot"] : Location)) ++ [name] := by
      simp
    constructor
    · rw [h.laidOut, if_neg, if_pos (.inl (List.prefix_append _ _))]
      rintro (hp | hp)
      · have hlen := hp.length_le
        simp only [List.length_append, List.length_cons, List.length_nil] at hlen
        omega
      · exact apart.1 ((List.prefix_append _ _).trans hp)
    · rw [hsplit, List.dropLast_concat, h.get?_boot]

/-- Right after a reset a source can be copied if it is a file that can be read and the system takes
the path of the copy. -/
theorem Fresh.copyable_iff {code vars : Name} (names : architecture.FileNames code vars)
    {copy : Path × Path} (hcopy : copy ∈ environment.sources architecture profile config) :
    fresh.Copyable copy ↔
      (∃ content, fresh.tree.read fresh.cwd copy.1 = .ok content) ∧ copy.2.Accepted := by
  obtain ⟨site, hs, hslash, hsite⟩ := h.exists_straight plain names hcopy
  have hvacant : fresh.tree.get? site = none ∧
      fresh.tree.get? site.dropLast = some .directory := by
    rcases hsite with he | he | he
    · exact h.vacant_site apart (.inl he)
    · exact h.vacant_site apart (.inl he)
    · exact h.vacant_site apart (.inr he)
  rw [Scene.copyable_iff]
  simp only [hs.locateWritable_eq_ok_iff hslash]
  refine and_congr_right fun _ => ⟨?_, fun ha => ?_⟩
  · rintro ⟨place, ha, -⟩
    exact ha
  · exact ⟨site, ha, rfl, hvacant.2, by simp [hvacant.1]⟩

/-- However the copies end, those that are made are all that is added to the empty layout. -/
theorem Fresh.holdsCopies {code vars : Name} (names : architecture.FileNames code vars)
    (outside : environment.SourcesOutside architecture profile config esp firmware fresh)
    {name : String} {made : List (Path × Path)} {outcome : Except Error Unit}
    (hcopied : Copied name (environment.sources architecture profile config) fresh made outcome
      left) :
    HoldsCopies esp firmware fresh made left.tree := by
  have hmade : ∀ copy ∈ made, ∃ content site, fresh.tree.read fresh.cwd copy.1 = .ok content ∧
      fresh.tree.locateWritable fresh.cwd copy.2 = .ok site ∧
        copy.2.site? fresh.cwd = some site ∧ left.tree.get? site = some (.file content) := by
    intro copy hc
    obtain ⟨content, place, hr, hw, hl⟩ :=
      hcopied.exists_content h.held (h.separate plain apart names outside) copy hc
    obtain ⟨site, hs, hslash, -⟩ :=
      h.exists_straight plain names (hcopied.made_prefix.subset hc)
    obtain rfl : place = site := ((hs.locateWritable_eq_ok_iff hslash).mp hw).2.1
    exact ⟨content, place, hr, hw, hs.spelled, hl⟩
  intro location hbelow entry
  constructor
  · intro hg
    by_cases hc : ∃ copy ∈ made, fresh.tree.locateWritable fresh.cwd copy.2 = .ok location
    · obtain ⟨copy, hc, hw⟩ := hc
      obtain ⟨content, site, hr, hw', hs, hl⟩ := hmade copy hc
      obtain rfl := Except.ok.inj (hw'.symm.trans hw)
      exact .inr ⟨copy, hc, hs, content, hr, Option.some.inj (hg.symm.trans hl)⟩
    · rw [hcopied.get?_eq h.held fun copy hm hw => hc ⟨copy, hm, hw⟩, h.laidOut,
        if_pos hbelow] at hg
      split at hg
      · next hp => exact .inl ⟨(Option.some.inj hg).symm, hp⟩
      · simp at hg
  · rintro (⟨rfl, hp⟩ | ⟨copy, hc, hs, content, hr, rfl⟩)
    · have hd : fresh.tree.get? location = some .directory := by
        rw [h.get?, if_pos hp]
      exact (hcopied.files h.held).2.1.directory location hd
    · obtain ⟨found, site, hr', -, hs', hl⟩ := hmade copy hc
      obtain rfl := Option.some.inj (hs.symm.trans hs')
      obtain rfl := Except.ok.inj (hr.symm.trans hr')
      exact hl

end

/-- Where no place that a source comes by is at or below one of the two places, none is there after
a reset. -/
theorem Fresh.sourcesOutside (h : environment.Fresh esp firmware scene fresh)
    (passed : ∀ copy ∈ environment.sources architecture profile config,
      ∀ place ∈ scene.tree.passed scene.cwd copy.1, ¬ esp <+: place ∧ ¬ firmware <+: place) :
    environment.SourcesOutside architecture profile config esp firmware fresh := by
  intro copy hc place hl
  have hearlier := Tree.mem_passed_of_locate (Tree.locate_of_locate h.cwd_of_cwd hl)
  have hsame : fresh.tree.passed scene.cwd copy.1 = scene.tree.passed scene.cwd copy.1 := by
    refine Tree.passed_congr fun place hp target => ?_
    obtain ⟨hesp, hfirmware⟩ := passed copy hc place hp
    have hkept : ((scene.tree.erase esp).erase firmware).get? place = scene.tree.get? place := by
      simp [Tree.get?_erase, hesp, hfirmware]
    constructor
    · intro hg
      rw [h.get?] at hg
      split at hg
      · simp at hg
      · rwa [hkept] at hg
    · intro hg
      exact h.kept place _ (hkept.trans hg)
  exact passed copy hc place (hsame ▸ hearlier)

/-- What comes of the copies after a reset. -/
structure FillAccount (environment : BootEnvironment) (architecture : Architecture)
    (profile : BuildProfile) (config : Config) (esp firmware : Location) (fresh : Scene)
    (outcome : Except Error Unit) (left : Scene) : Prop where
  /-- A source can be copied if it is a file that can be read and the system takes the path of the
  copy. -/
  copyable : ∀ copy ∈ environment.sources architecture profile config, fresh.Copyable copy ↔
    (∃ content, fresh.tree.read fresh.cwd copy.1 = .ok content) ∧ copy.2.Accepted
  /-- All goes well exactly if all of them can be copied. -/
  succeeds : outcome = .ok () ↔
    ∀ copy ∈ environment.sources architecture profile config, fresh.Copyable copy
  /-- Then there are all copies and nothing else. -/
  complete : outcome = .ok () →
    HoldsCopies esp firmware fresh (environment.sources architecture profile config) left.tree
  /-- A failure names the first source that cannot be copied, and there are the copies of those
  before it and nothing else. -/
  blamed : ∀ error, outcome = .error error → ∃ made source target rest cause,
    environment.sources architecture profile config = made ++ (source, target) :: rest ∧
      (∀ copy ∈ made, fresh.Copyable copy) ∧ ¬ fresh.Copyable (source, target) ∧
      error = .staging architecture.id source cause ∧
      left.tree.copy left.cwd source target = .error cause ∧
      HoldsCopies esp firmware fresh made left.tree
  /-- Everything elsewhere is as the reset has left it. -/
  elsewhere : Tree.SameOutside esp firmware fresh.tree left.tree

/-- After a reset that has succeeded, making a boot environment fails for the first source that
cannot be copied, and for no other reason. -/
theorem assemble_account {machine fresh left : Machine} {outcome : Except Error Unit}
    (registered : architecture ∈ Architecture.registered)
    (hesp : machine.tree.Clearable machine.cwd environment.espDir esp)
    (hfirmware : machine.tree.Clearable machine.cwd environment.firmwareDir firmware)
    (apart : ¬ esp <+: firmware ∧ ¬ firmware <+: esp)
    (hreset : (environment.reset architecture.id).run machine = (.ok (), fresh))
    (outside : environment.SourcesOutside architecture profile config esp firmware fresh.scene)
    (hrun : (environment.assemble architecture profile config).run machine = (outcome, left)) :
    environment.FillAccount architecture profile config esp firmware fresh.scene outcome
      left.scene := by
  obtain ⟨code, vars, names⟩ := Architecture.exists_fileNames registered
  have plain := And.intro hesp.plain hfirmware.plain
  have h : environment.Fresh esp firmware machine.scene fresh.scene :=
    fresh_of_reset hesp hfirmware ((ignoresConsole_reset _ _).effect_of_run hreset)
  rw [assemble, run_bind_of_ok hreset] at hrun
  have hfill := (ignoresConsole_fill environment _ _ _).effect_of_run hrun
  obtain ⟨-, -, -, helsewhere⟩ := h.sameOutside_fill plain registered hfill
  obtain ⟨made, hcopied⟩ := copied architecture.id
    (environment.sources architecture profile config) fresh.scene
  rw [fill] at hfill
  rw [hfill] at hcopied
  have hseparate := h.separate plain apart names outside
  have hholds := h.holdsCopies plain apart names outside hcopied
  refine ⟨?copyable, hcopied.eq_ok_iff h.held hseparate, ?complete, ?blamed, helsewhere⟩
  case copyable => exact fun copy hc => h.copyable_iff plain apart names hc
  case complete =>
    intro ho
    rwa [hcopied.made_eq_of_ok ho] at hholds
  case blamed =>
    intro error he
    obtain ⟨source, target, rest, cause, hs, hn, hc, hnot⟩ :=
      hcopied.exists_first h.held hseparate he
    exact ⟨made, source, target, rest, cause, hs, hcopied.copyable_of_mem h.held hseparate, hnot,
      hn, hc, hholds⟩

/-! ### A workspace without an image -/

/-- The configuration of a workspace that gives no settings. -/
def incomplete : Config :=
  Config.defaults ⟨"/w"⟩

/-- A machine on which a directory stands in the place of the image of the variables. -/
def incompleteMachine : Machine where
  tree :=
    Tree.empty.putAll [(["w"], .directory), (["w", "edk2-uefi"], .directory),
      (["w", "edk2-uefi", "ovmf-x64-4m"], .directory),
      (["w", "edk2-uefi", "ovmf-x64-4m", "OVMF_CODE.fd"], .file [1]),
      (["w", "edk2-uefi", "ovmf-x64-4m", "OVMF_VARS.fd"], .directory),
      (["w", "esp"], .directory), (["w", "esp", "stale"], .file [4])]
  cwd := some ["w"]

/-- The image of the variables is to blame, though the boot loader is missing as well, and the copy
of the firmware code has been made. -/
theorem assemble_account_incomplete :
    ∃ fresh left, ((ofConfig incomplete).reset "x86_64").run incompleteMachine = (.ok (), fresh) ∧
      ((ofConfig incomplete).assemble .x86_64 .debug incomplete).run incompleteMachine =
        (.error (.staging "x86_64" ⟨"/w/edk2-uefi/ovmf-x64-4m/OVMF_VARS.fd"⟩ .notCopyable), left) ∧
      (ofConfig incomplete).FillAccount .x86_64 .debug incomplete ["w", "esp"] ["w", "ovmf"]
        fresh.scene
        (.error (.staging "x86_64" ⟨"/w/edk2-uefi/ovmf-x64-4m/OVMF_VARS.fd"⟩ .notCopyable))
        left.scene := by
  have hesp : incompleteMachine.tree.Clearable incompleteMachine.cwd
      (ofConfig incomplete).espDir ["w", "esp"] := by
    decide +kernel
  have hfirmware : incompleteMachine.tree.Clearable incompleteMachine.cwd
      (ofConfig incomplete).firmwareDir ["w", "ovmf"] := by
    decide +kernel
  have hreset : (((ofConfig incomplete).reset "x86_64").run incompleteMachine).1 = .ok () := by
    decide +kernel
  have hpassed : ∀ copy ∈ (ofConfig incomplete).sources .x86_64 .debug incomplete,
      ∀ place ∈ incompleteMachine.tree.passed incompleteMachine.cwd copy.1,
        ¬ (["w", "esp"] : Location) <+: place ∧ ¬ (["w", "ovmf"] : Location) <+: place := by
    decide +kernel
  have hassemble : (((ofConfig incomplete).assemble .x86_64 .debug incomplete).run
      incompleteMachine).1 =
        .error (.staging "x86_64" ⟨"/w/edk2-uefi/ovmf-x64-4m/OVMF_VARS.fd"⟩ .notCopyable) := by
    decide +kernel
  rcases hr : ((ofConfig incomplete).reset "x86_64").run incompleteMachine with ⟨outcome, fresh⟩
  rcases ha : ((ofConfig incomplete).assemble .x86_64 .debug incomplete).run incompleteMachine with
    ⟨ended, left⟩
  rw [hr] at hreset
  rw [ha] at hassemble
  obtain rfl : outcome = .ok () := hreset
  obtain rfl : ended = _ := hassemble
  have hfresh : (ofConfig incomplete).Fresh ["w", "esp"] ["w", "ovmf"] incompleteMachine.scene
      fresh.scene := fresh_of_reset hesp hfirmware ((ignoresConsole_reset _ _).effect_of_run hr)
  exact ⟨fresh, left, rfl, rfl, assemble_account (by decide) hesp hfirmware (by decide) hr
    (hfresh.sourcesOutside hpassed) ha⟩

end

end BootEnvironment

end Bootstage
