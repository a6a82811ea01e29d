import Bootstage.Proofs.BootEnvironment.Reset
import Bootstage.Proofs.Tree.Contents

/-!
# Filling a boot environment

The two directories of a boot environment lie apart when neither is in the other. Then what they
hold is told step by step: the empty layout after a reset, and one file more with the content of
its source after each copy.
-/

namespace Bootstage

/-- The names that an architecture gives its files in a boot environment. -/
structure Architecture.FileNames (architecture : Architecture) (code vars : Name) : Prop where
  /-- The firmware code keeps its name. -/
  codeName : (⟨architecture.firmwareCode⟩ : Path).fileName? = some code
  /-- So does the image of the variables. -/
  varsName : (⟨architecture.firmwareVars⟩ : Path).fileName? = some vars
  /-- All of them are names. -/
  isName : ∀ name ∈ ([code, vars, architecture.bootFile, architecture.descriptorFile] : List Name),
    Path.IsName name
  /-- No two files get into each other's way. -/
  distinct : ([code, vars, architecture.descriptorFile, "efi"] : List Name).Nodup

namespace Architecture.FileNames

variable {architecture : Architecture} {code vars : Name}

theorem vars_beq_code (names : architecture.FileNames code vars) : (vars == code) = false := by
  rw [beq_eq_false_iff_ne]
  intro he
  have hd := names.distinct
  simp [he] at hd

/-- The descriptor is not named as the directory of the boot loader. -/
theorem descriptor_beq_efi (names : architecture.FileNames code vars) :
    ((architecture.descriptorFile : Name) == "efi") = false := by
  rw [beq_eq_false_iff_ne]
  intro he
  have hd := names.distinct
  simp [he] at hd

theorem firmwareCopy_code (names : architecture.FileNames code vars)
    (environment : BootEnvironment) :
    environment.firmwareCopy architecture.firmwareCode = environment.firmwareDir / code := by
  rw [BootEnvironment.firmwareCopy, names.codeName]
  rfl

theorem firmwareCopy_vars (names : architecture.FileNames code vars)
    (environment : BootEnvironment) :
    environment.firmwareCopy architecture.firmwareVars = environment.firmwareDir / vars := by
  rw [BootEnvironment.firmwareCopy, names.varsName]
  rfl

end Architecture.FileNames

/-- Every registered architecture names its files well. -/
theorem Architecture.exists_fileNames {architecture : Architecture}
    (h : architecture ∈ registered) :
    ∃ code vars, architecture.FileNames code vars := by
  have hname : ∀ names : List Name,
      (∀ name ∈ names, (⟨name⟩ : Path).names = [name] ∧ name ≠ "." ∧ name ≠ "..") →
        ∀ name ∈ names, Path.IsName name :=
    fun names hn name hm => ⟨(hn name hm).1, (hn name hm).2⟩
  rcases List.mem_cons.mp h with rfl | h
  · exact ⟨"OVMF_CODE.fd", "OVMF_VARS.fd", by decide +kernel, by decide +kernel,
      hname _ (by decide +kernel), by decide +kernel⟩
  · obtain rfl := List.mem_singleton.mp h
    exact ⟨"QEMU_EFI-silent-pflash.raw", "vars-template-pflash.raw", by decide +kernel,
      by decide +kernel, hname _ (by decide +kernel), by decide +kernel⟩

/-- The contents of the files that are copied. -/
structure Images where
  /-- The firmware code. -/
  code : Text.Bytes
  /-- The firmware's variables. -/
  vars : Text.Bytes
  /-- The boot loader. -/
  loader : Text.Bytes

/-- The files that are copied for an architecture have the given contents. -/
structure Config.Reads (config : Config) (architecture : Architecture) (profile : BuildProfile)
    (tree : Tree) (cwd : Option Location) (images : Images) : Prop where
  /-- The firmware code. -/
  code : tree.read cwd (config.workspaceRoot / architecture.firmwareCode) = .ok images.code
  /-- The firmware's variables. -/
  vars : tree.read cwd (config.workspaceRoot / architecture.firmwareVars) = .ok images.vars
  /-- The boot loader. -/
  loader : tree.read cwd (config.loader architecture profile) = .ok images.loader

/-- There is at most one content of each file. -/
theorem Config.Reads.eq {config : Config} {architecture : Architecture} {profile : BuildProfile}
    {tree : Tree} {cwd : Option Location} {images others : Images}
    (h : config.Reads architecture profile tree cwd images)
    (h' : config.Reads architecture profile tree cwd others) : images = others := by
  obtain ⟨code, vars, loader⟩ := images
  obtain ⟨code', vars', loader'⟩ := others
  obtain rfl := Except.ok.inj (h.code.symm.trans h'.code)
  obtain rfl := Except.ok.inj (h.vars.symm.trans h'.vars)
  obtain rfl := Except.ok.inj (h.loader.symm.trans h'.loader)
  rfl

/-- The scene with one file more. -/
structure Scene.Gains (before after : Scene) (site : Location) (content : Text.Bytes) : Prop where
  /-- The file is new. -/
  tree : before.tree.Gains after.tree site content
  /-- The working directory is the same. -/
  cwd : after.cwd = before.cwd
  /-- No one has been called. -/
  calls : after.calls = before.calls

namespace Scene.Gains

variable {before after : Scene} {site : Location} {content : Text.Bytes}

/-- What could be read before can be read with one file more. -/
theorem read (h : before.Gains after site content) {path : Path} {found : Text.Bytes}
    (hr : before.tree.read before.cwd path = .ok found) :
    after.tree.read after.cwd path = .ok found := by
  rw [h.cwd]
  exact h.tree.read hr

/-- One file more does not take the working directory away. -/
theorem held (h : before.Gains after site content)
    (hc : before.tree.held before.cwd = before.cwd) : after.tree.held after.cwd = after.cwd := by
  rw [h.cwd]
  exact h.tree.held hc

end Scene.Gains

/-- The scene with more files, all of them at or below two places. -/
structure Scene.GainsBelow (esp firmware : Location) (before after : Scene) : Prop where
  /-- The working directory is the same. -/
  cwd : after.cwd = before.cwd
  /-- No one has been called. -/
  calls : after.calls = before.calls
  /-- What could be read still can. -/
  read : ∀ cwd path content, before.tree.read cwd path = .ok content →
    after.tree.read cwd path = .ok content
  /-- The files elsewhere are the same. -/
  elsewhere : ∀ location, ¬ esp <+: location → ¬ firmware <+: location →
    after.tree.get? location = before.tree.get? location

namespace Scene.GainsBelow

variable {esp firmware site : Location} {before middle after : Scene} {content : Text.Bytes}

theorem refl (scene : Scene) : scene.GainsBelow esp firmware scene :=
  ⟨rfl, rfl, fun _ _ _ hr => hr, fun _ _ _ => rfl⟩

/-- One file more. -/
theorem gain (h : before.GainsBelow esp firmware middle) (hg : middle.Gains after site content)
    (hs : esp <+: site ∨ firmware <+: site) : before.GainsBelow esp firmware after where
  cwd := hg.cwd.trans h.cwd
  calls := hg.calls.trans h.calls
  read cwd path content hr := hg.tree.read (h.read cwd path content hr)
  elsewhere location he hf := by
    have hne : location ≠ site := by
      rintro rfl
      exact hs.elim he hf
    rw [hg.tree.2, if_neg hne, h.elsewhere location he hf]

end Scene.GainsBelow

namespace BootEnvironment

open Bootstage.Action

/-- A boot environment with known contents, in a scene whose working directory is there. -/
structure Holding (environment : BootEnvironment) (esp firmware : Location) (scene : Scene)
    (espEntries firmwareEntries : List (Location × Entry)) : Prop where
  /-- The working directory is there. -/
  held : scene.tree.held scene.cwd = scene.cwd
  /-- The paths are plain. -/
  plain : environment.espDir.Plain ∧ environment.firmwareDir.Plain
  /-- The one path leads to its place. -/
  espSite : environment.espDir.site? scene.cwd = some esp
  /-- The other path leads to its place. -/
  firmwareSite : environment.firmwareDir.site? scene.cwd = some firmware
  /-- The directories lie apart. -/
  apart : ¬ esp <+: firmware ∧ ¬ firmware <+: esp
  /-- What the one directory holds. -/
  espHolds : scene.tree.HoldsExactly esp espEntries
  /-- What the other directory holds. -/
  firmwareHolds : scene.tree.HoldsExactly firmware firmwareEntries

variable {environment : BootEnvironment} {esp firmware : Location} {scene left : Scene}
  {espEntries firmwareEntries : List (Location × Entry)}

/-- The directories of the system partition. -/
def layout : List (Location × Entry) :=
  [(["efi", "boot"], .directory), (["efi"], .directory)]

/-- Right after a reset the system partition holds the way to the boot loader and nothing else. -/
theorem lookup_layout {below : Location} (h : below ≠ []) :
    layout.lookup below =
      if below <+: (["efi", "boot"] : Location) then some .directory else none := by
  have hp : below <+: (["efi", "boot"] : Location) ↔
      below = (["efi"] : Location) ∨ below = (["efi", "boot"] : Location) := by
    simp only [List.prefix_cons_iff, List.prefix_nil, h, false_or]
    constructor
    · rintro ⟨_, rfl, rfl | ⟨_, rfl, rfl⟩⟩ <;> simp
    · rintro (rfl | rfl)
      · exact ⟨[], rfl, .inl rfl⟩
      · exact ⟨["boot"], rfl, .inr ⟨[], rfl, rfl⟩⟩
  by_cases hb : below = (["efi", "boot"] : Location)
  · subst hb
    decide
  · by_cases he : below = (["efi"] : Location)
    · subst he
      decide
    · have hb' : (below == (["efi", "boot"] : Location)) = false := by simpa using hb
      have he' : (below == (["efi"] : Location)) = false := by simpa using he
      rw [if_neg (by simp [hp, hb, he]), layout, List.lookup_cons, hb', List.lookup_cons, he']
      rfl

/-- After a reset there is the layout and nothing else. -/
theorem Fresh.holding {before : Scene} (h : environment.Fresh esp firmware before scene)
    (plain : environment.espDir.Plain ∧ environment.firmwareDir.Plain)
    (apart : ¬ esp <+: firmware ∧ ¬ firmware <+: esp) :
    environment.Holding esp firmware scene layout [] := by
  refine ⟨h.held, plain, h.espSite, h.firmwareSite, apart, ⟨?_, ?_⟩, ⟨?_, ?_⟩⟩
  · exact h.get?_esp
  · intro below hb
    have hf : ¬ esp ++ below <+: firmware := fun hp => apart.1 ((List.prefix_append _ _).trans hp)
    have hgone : ((before.tree.erase esp).erase firmware).get? (esp ++ below) = none := by
      simp [Tree.get?_erase, hb]
    rw [h.get?, hgone, lookup_layout hb]
    simp only [List.prefix_append_right_inj, hf, or_false]
  · exact h.get?_firmware
  · intro below hb
    have hf : ¬ firmware ++ below <+: firmware := by
      intro hp
      have hlen := hp.length_le
      have hpos := List.length_pos_iff.mpr hb
      simp only [List.length_append] at hlen
      omega
    have he : ¬ firmware ++ below <+: esp ++ (["efi", "boot"] : Location) := by
      intro hp
      rcases List.prefix_or_prefix_of_prefix ((List.prefix_append _ _).trans hp)
        (List.prefix_append esp ["efi", "boot"]) with hq | hq
      · exact apart.2 hq
      · exact apart.1 hq
    have hgone : ((before.tree.erase esp).erase firmware).get? (firmware ++ below) = none := by
      simp [Tree.get?_erase, hb]
    rw [h.get?, hgone, if_neg (not_or.mpr ⟨he, hf⟩)]
    rfl

/-! ### Copies -/

/-- What a copy does to the files, and the error that it ends in. -/
theorem effect_copy (architecture : String) (source target : Path) (scene : Scene) :
    (copy architecture source target).effect scene =
      match scene.tree.copy scene.cwd source target with
      | .ok copied => (.ok (), scene.withTree copied)
      | .error cause =>
        (.error (.staging architecture source cause), scene.withTree scene.tree) := by
  rw [copy, effect_say_bind (by simp)]
  exact effect_onFilesAtOnce _ _ _

/-- A copy to a new name in a directory makes one file more, with the content of its source. -/
theorem gains_of_copy {architecture : String} {source target : Path} {site : Location}
    (plain : target.Plain) (hslash : target.endsInSlash = false)
    (spelled : target.site? scene.cwd = some site)
    (held : scene.tree.held scene.cwd = scene.cwd)
    (hd : scene.tree.get? site.dropLast = some .directory) (hn : scene.tree.get? site = none)
    (hc : (copy architecture source target).effect scene = (.ok (), left)) :
    ∃ content, scene.tree.read scene.cwd source = .ok content ∧
      scene.Gains left site content := by
  rw [effect_copy] at hc
  split at hc
  · next copied hcopied =>
    obtain rfl := (Prod.mk.inj hc).2
    have hs : scene.tree.Straight scene.cwd target site :=
      ⟨plain, spelled, Tree.unlinked_of_get?_dropLast hd (by simp [hn])⟩
    obtain ⟨content, hread, hgains⟩ := hs.gains_of_copy hslash hn hcopied
    exact ⟨content, hread, hgains, hgains.held held, rfl⟩
  · next cause hcause =>
    have hfalse := (Prod.mk.inj hc).1
    contradiction

namespace Holding

/-- One file more in the directory of the system partition. -/
theorem gain_esp (h : environment.Holding esp firmware scene espEntries firmwareEntries)
    {below : Location} {content : Text.Bytes} (hg : scene.Gains left (esp ++ below) content) :
    environment.Holding esp firmware left ((below, .file content) :: espEntries)
      firmwareEntries where
  held := hg.held h.held
  plain := h.plain
  espSite := by rw [hg.cwd, h.espSite]
  firmwareSite := by rw [hg.cwd, h.firmwareSite]
  apart := h.apart
  espHolds := hg.tree.holdsExactly h.espHolds
  firmwareHolds := by
    refine hg.tree.holdsExactly_of_not_prefix h.firmwareHolds fun hp => ?_
    cases List.prefix_or_prefix_of_prefix hp (List.prefix_append esp below) with
    | inl hq => exact h.apart.2 hq
    | inr hq => exact h.apart.1 hq

/-- One file more in the directory of the firmware copies. -/
theorem gain_firmware (h : environment.Holding esp firmware scene espEntries firmwareEntries)
    {below : Location} {content : Text.Bytes} (hg : scene.Gains left (firmware ++ below) content) :
    environment.Holding esp firmware left espEntries
      ((below, .file content) :: firmwareEntries) where
  held := hg.held h.held
  plain := h.plain
  espSite := by rw [hg.cwd, h.espSite]
  firmwareSite := by rw [hg.cwd, h.firmwareSite]
  apart := h.apart
  espHolds := by
    refine hg.tree.holdsExactly_of_not_prefix h.espHolds fun hp => ?_
    cases List.prefix_or_prefix_of_prefix hp (List.prefix_append firmware below) with
    | inl hq => exact h.apart.1 hq
    | inr hq => exact h.apart.2 hq
  firmwareHolds := hg.tree.holdsExactly h.firmwareHolds

/-- A firmware image is copied under a new name. -/
theorem copy_firmware (h : environment.Holding esp firmware scene espEntries firmwareEntries)
    {architecture : String} {name : Name} {source : Path} (hname : Path.IsName name)
    (hnew : firmwareEntries.lookup [name] = none)
    (hc : (copy architecture source (environment.firmwareDir / name)).effect scene =
      (.ok (), left)) :
    ∃ content, scene.tree.read scene.cwd source = .ok content ∧
      scene.Gains left (firmware ++ [name]) content := by
  refine gains_of_copy (hname.plain_join h.plain.2) (hname.endsInSlash_join _) ?_ h.held ?_ ?_ hc
  · rw [hname.site?_join, h.firmwareSite]
    rfl
  · simpa using h.firmwareHolds.1
  · rw [h.firmwareHolds.2 [name] (by simp), hnew]

/-- The descriptor is written under a new name. -/
theorem write_descriptor (h : environment.Holding esp firmware scene espEntries firmwareEntries)
    {name : Name} (hname : Path.IsName name) (hnew : espEntries.lookup [name] = none)
    {content : Text.Bytes} {written : Tree}
    (hw : scene.tree.write scene.cwd (environment.espDir / name) content = .ok written) :
    scene.Gains (scene.withTree written) (esp ++ [name]) content := by
  have hn : scene.tree.get? (esp ++ [name]) = none := by
    rw [h.espHolds.2 [name] (by simp), hnew]
  have hd : scene.tree.get? (esp ++ [name]).dropLast = some .directory := by
    simpa using h.espHolds.1
  have hs : scene.tree.Straight scene.cwd (environment.espDir / name) (esp ++ [name]) := by
    refine ⟨hname.plain_join h.plain.1, ?_, Tree.unlinked_of_get?_dropLast hd (by simp [hn])⟩
    rw [hname.site?_join, h.espSite]
    rfl
  have hgains := (hs.gains_of_write (hname.endsInSlash_join _) hn hw).2
  exact ⟨hgains, hgains.held h.held, rfl⟩

/-- A collaborator that leaves both directories alone leaves what they hold. -/
theorem after (h : environment.Holding esp firmware scene espEntries firmwareEntries) {α : Type}
    {call : Call} {reaction : Reaction α} (hesp : scene.tree.SameAt reaction.tree esp)
    (hfirmware : scene.tree.SameAt reaction.tree firmware) :
    environment.Holding esp firmware (scene.after call reaction) espEntries firmwareEntries where
  held := Tree.held_held _ _
  plain := h.plain
  espSite := Tree.site?_held h.espSite (hesp.holdsExactly h.espHolds).1 h.plain.1.named
  firmwareSite :=
    Tree.site?_held h.firmwareSite (hfirmware.holdsExactly h.firmwareHolds).1 h.plain.2.named
  apart := h.apart
  espHolds := hesp.holdsExactly h.espHolds
  firmwareHolds := hfirmware.holdsExactly h.firmwareHolds

/-- The boot loader is copied under a new name. -/
theorem copy_loader (h : environment.Holding esp firmware scene espEntries firmwareEntries)
    {architecture : String} {name : Name} {source : Path} (hname : Path.IsName name)
    (hdir : espEntries.lookup (["efi", "boot"] : Location) = some .directory)
    (hnew : espEntries.lookup (["efi", "boot", name] : Location) = none)
    (hc : (copy architecture source (environment.bootDir / name)).effect scene =
      (.ok (), left)) :
    ∃ content, scene.tree.read scene.cwd source = .ok content ∧
      scene.Gains left (esp ++ (["efi", "boot", name] : Location)) content := by
  refine gains_of_copy (hname.plain_join (plain_bootDir h.plain.1)) (hname.endsInSlash_join _) ?_
    h.held ?_ ?_ hc
  · rw [hname.site?_join, site?_bootDir, h.espSite]
    simp
  · rw [List.dropLast_append_of_ne_nil (by simp)]
    exact (h.espHolds.2 ["efi", "boot"] (by simp)).trans hdir
  · rw [h.espHolds.2 _ (by simp), hnew]

end Holding

/-- What the system partition holds once the boot loader has been copied. -/
def espFilled (architecture : Architecture) (images : Images) : List (Location × Entry) :=
  (["efi", "boot", architecture.bootFile], .file images.loader) :: layout

/-- The copies of the firmware images. -/
def firmwareFilled (code vars : Name) (images : Images) : List (Location × Entry) :=
  [([vars], .file images.vars), ([code], .file images.code)]

namespace Holding

/-- A copy that fails leaves all as it was. -/
theorem eq_of_copy_error (h : environment.Holding esp firmware scene espEntries firmwareEntries)
    {architecture : String} {source target : Path} {error : Error}
    (hc : (copy architecture source target).effect scene = (.error error, left)) :
    left = scene := by
  have hsame : scene.withTree scene.tree = scene := by
    rw [Scene.withTree, h.held]
  rw [effect_copy] at hc
  split at hc
  · have hfalse := (Prod.mk.inj hc).1
    contradiction
  · rw [← (Prod.mk.inj hc).2, hsame]

/-- Of several copies the first fails, and nothing is changed, or the others follow it. -/
theorem copies_cons (h : environment.Holding esp firmware scene espEntries firmwareEntries)
    {architecture : String} {source target : Path} {rest : List (Path × Path)}
    {outcome : Except Error PUnit}
    (hf : (((source, target) :: rest).forM fun (source, target) =>
      copy architecture source target).effect scene = (outcome, left)) :
    (∃ error, outcome = .error error ∧ left = scene) ∨
      ∃ copied, (copy architecture source target).effect scene = (.ok (), copied) ∧
        (rest.forM fun (source, target) => copy architecture source target).effect copied =
          (outcome, left) := by
  rw [effect_forM_cons fun _ => ignoresConsole_copy _ _ _] at hf
  rcases hc : (copy architecture source target).effect scene with ⟨error | ⟨⟩, copied⟩
  · obtain rfl := h.eq_of_copy_error hc
    rw [hc] at hf
    obtain ⟨rfl, rfl⟩ := Prod.mk.inj hf
    exact .inl ⟨error, rfl, rfl⟩
  · rw [hc] at hf
    exact .inr ⟨copied, rfl, hf⟩

/-- However the copies end, they only add files to the two directories, and none with the name of
the descriptor. If all of them are made, the contents of the sources are in their places. The
firmware code is copied first, then the firmware's variables, and the boot loader last. -/
theorem exists_filled {architecture : Architecture} {profile : BuildProfile} {config : Config}
    {code vars : Name} {outcome : Except Error Unit} (names : architecture.FileNames code vars)
    (h : environment.Holding esp firmware scene layout [])
    (hf : (environment.fill architecture profile config).effect scene = (outcome, left)) :
    scene.GainsBelow esp firmware left ∧
      ∃ espEntries firmwareEntries,
        environment.Holding esp firmware left espEntries firmwareEntries ∧
          espEntries.lookup [(architecture.descriptorFile : Name)] = none ∧
          (outcome = .ok () → ∃ images,
            config.Reads architecture profile left.tree left.cwd images ∧
              espEntries = espFilled architecture images ∧
              firmwareEntries = firmwareFilled code vars images) := by
  have hlayout : layout.lookup [(architecture.descriptorFile : Name)] = none := by
    simp [layout, List.lookup_cons, names.descriptor_beq_efi]
  simp only [fill, sources, names.firmwareCopy_code, names.firmwareCopy_vars] at hf
  rcases h.copies_cons hf with ⟨error, rfl, rfl⟩ | ⟨first, hc₁, hf₁⟩
  · exact ⟨.refl _, _, _, h, hlayout, nofun⟩
  obtain ⟨codeImage, hr₁, hg₁⟩ := h.copy_firmware (names.isName code (by simp)) rfl hc₁
  have h₁ := h.gain_firmware hg₁
  have ha₁ : scene.GainsBelow esp firmware first :=
    (Scene.GainsBelow.refl scene).gain hg₁ (.inr (List.prefix_append firmware _))
  rcases h₁.copies_cons hf₁ with ⟨error, rfl, rfl⟩ | ⟨second, hc₂, hf₂⟩
  · exact ⟨ha₁, _, _, h₁, hlayout, nofun⟩
  obtain ⟨varsImage, hr₂, hg₂⟩ := h₁.copy_firmware (names.isName vars (by simp))
    (by simp [List.lookup_cons, names.vars_beq_code]) hc₂
  have h₂ := h₁.gain_firmware hg₂
  have ha₂ := ha₁.gain hg₂ (.inr (List.prefix_append firmware _))
  rcases h₂.copies_cons hf₂ with ⟨error, rfl, rfl⟩ | ⟨third, hc₃, hf₃⟩
  · exact ⟨ha₂, _, _, h₂, hlayout, nofun⟩
  obtain ⟨rfl, rfl⟩ := Prod.mk.inj hf₃
  obtain ⟨loader, hr₃, hg₃⟩ := h₂.copy_loader (names.isName architecture.bootFile (by simp))
    (by decide) (by simp [layout, List.lookup_cons]) hc₃
  refine ⟨ha₂.gain hg₃ (.inl (List.prefix_append esp _)), _, _, h₂.gain_esp hg₃,
    by simp [List.lookup_cons, hlayout], fun _ => ⟨⟨codeImage, varsImage, loader⟩, ?_, rfl, rfl⟩⟩
  exact ⟨hg₃.read (hg₂.read (hg₁.read hr₁)), hg₃.read (hg₂.read hr₂), hg₃.read hr₃⟩

end Holding

end BootEnvironment

end Bootstage
