import Bootstage.Proofs.BootEnvironment.Framing
import Bootstage.Proofs.BootEnvironment.Sparing

/-!
# The boot loader on its way into a boot environment

A boot loader is copied last, and by then a link that a reset has left may have led a copy of the
firmware into it. Where no link is left at the end of the paths at which files are put, each file is
put under its own name: the boot loader is copied as it was before the reset, and the descriptor is
not written over the copy. A reset of two directories that have places of their own leaves no link
there.
-/

namespace Bootstage

/-- The boot loader and its copy have names of their own. -/
theorem Architecture.FileNames.ne_loader {architecture : Architecture}
    (registered : architecture ∈ Architecture.registered) {code vars : Name}
    (names : architecture.FileNames code vars) :
    (∀ name ∈ ([code, vars, architecture.bootFile] : List Name), name ≠ "boot_loader.efi") ∧
      architecture.descriptorFile ≠ architecture.bootFile := by
  have hall : ∀ architecture ∈ Architecture.registered,
      ((⟨architecture.firmwareCode⟩ : Path).fileName? ≠ some ("boot_loader.efi" : Name) ∧
        (⟨architecture.firmwareVars⟩ : Path).fileName? ≠ some ("boot_loader.efi" : Name) ∧
        architecture.bootFile ≠ "boot_loader.efi") ∧
      architecture.descriptorFile ≠ architecture.bootFile := by
    decide +kernel
  obtain ⟨⟨hcode, hvars, hboot⟩, hdescriptor⟩ := hall architecture registered
  rw [names.codeName] at hcode
  rw [names.varsName] at hvars
  exact ⟨by simpa using ⟨by simpa using hcode, by simpa using hvars, hboot⟩, hdescriptor⟩

namespace Tree

/-- A copy from a file that can be read fails for its target alone. -/
theorem locateWritable_eq_error_of_copy {tree : Tree} {cwd : Option Location}
    {source target : Path} {content : Text.Bytes} {cause : SystemError}
    (hr : tree.read cwd source = .ok content) (hc : tree.copy cwd source target = .error cause) :
    tree.locateWritable cwd target = .error cause := by
  obtain ⟨origin, hl, hg⟩ := read_eq_ok_iff.mp hr
  cases hw : tree.locateWritable cwd target with
  | ok destination =>
    rw [copy_eq_ok_iff.mpr ⟨origin, content, destination, hl, hg, hw, rfl⟩] at hc
    contradiction
  | error other =>
    have hentry : tree.entryAt origin = .ok (.file content) := entryAt_eq_ok_iff.mpr hg
    have hcause : (Except.error other : Except SystemError Tree) = .error cause := by
      simpa only [copy, hl, hentry, hw, bind, Except.bind] using hc
    rw [Except.error.inj hcause]

end Tree

namespace BootEnvironment

open Bootstage.Action

variable {environment : BootEnvironment} {architecture : Architecture} {profile : BuildProfile}
  {config : Config} {scene fresh filled : Scene} {esp firmware site place : Location}
  {made : List (Path × Path)} {outcome : Except Error Unit} {name : String} {code vars : Name}
  {content : Text.Bytes}

/-! ### Files under their own names -/

/-- The paths at which files are put into a boot environment. -/
def placements (environment : BootEnvironment) (architecture : Architecture) : List Path :=
  [environment.firmwareCopy architecture.firmwareCode,
    environment.firmwareCopy architecture.firmwareVars,
    environment.bootFile architecture, environment.descriptorFile architecture]

/-- No link stands where a file is to be put. -/
def LinkFree (environment : BootEnvironment) (architecture : Architecture) (tree : Tree)
    (cwd : Option Location) : Prop :=
  ∀ path ∈ environment.placements architecture, ∀ place target,
    tree.locate cwd path .kept = .ok place → tree.get? place ≠ some (.link target)

/-- In a boot environment of two places there is no link right after a reset. -/
theorem Fresh.linkFree (h : environment.Fresh esp firmware scene fresh)
    (plain : environment.espDir.Plain ∧ environment.firmwareDir.Plain)
    (registered : architecture ∈ Architecture.registered) :
    environment.LinkFree architecture fresh.tree fresh.cwd := by
  obtain ⟨code, vars, names⟩ := Architecture.exists_fileNames registered
  have hname := names.isName architecture.descriptorFile (by simp)
  have htargets : ∀ copy ∈ environment.sources architecture .debug default,
      ∃ site, fresh.tree.Straight fresh.cwd copy.2 site := by
    intro copy hc
    obtain ⟨site, hs, -⟩ := h.exists_straight plain names hc
    exact ⟨site, hs⟩
  have hstraight : ∀ path ∈ environment.placements architecture,
      ∃ site, fresh.tree.Straight fresh.cwd path site := by
    intro path hp
    simp only [placements, List.mem_cons, List.not_mem_nil, or_false] at hp
    simp only [sources, List.forall_mem_cons] at htargets
    obtain ⟨hcode, hvars, hboot, -⟩ := htargets
    rcases hp with rfl | rfl | rfl | rfl
    · exact hcode
    · exact hvars
    · exact hboot
    · exact ⟨_, h.straight hname plain.1 h.espSite h.get?_esp (.inl List.prefix_rfl)⟩
  intro path hp place target hl
  obtain ⟨site, hs⟩ := hstraight path hp
  obtain ⟨-, rfl, -⟩ := (hs.locate_eq_ok_iff (.inl (by decide))).mp hl
  exact hs.unlinked place List.prefix_rfl target

namespace LinkFree

variable {tree after : Tree} {cwd : Option Location} {directory : Path}

/-- Files bring no links. -/
theorem of_waysKept (h : environment.LinkFree architecture tree cwd) (hkept : tree.WaysKept after)
    (hkept' : after.WaysKept tree) : environment.LinkFree architecture after cwd :=
  fun path hp place target hl hg => h path hp place target (hkept'.locate hl)
    (hkept.old place target hg)

/-- A file is put under its own name. -/
theorem getLast? (h : environment.LinkFree architecture tree cwd) {name : Name}
    (hp : directory / name ∈ environment.placements architecture) (hname : Path.IsName name)
    (hw : tree.locateWritable cwd (directory / name) = .ok place) :
    place.getLast? = some name := by
  refine (Tree.getLast?_of_locate hname (Tree.locateWritable_eq_ok_iff.mp hw).1).resolve_right ?_
  rintro ⟨kept, target, hk, hg⟩
  exact h _ hp kept target hk hg

/-- So is each file that is copied. -/
theorem getLast?_of_copy (h : environment.LinkFree architecture tree cwd)
    (names : architecture.FileNames code vars) {copy : Path × Path}
    (hc : copy ∈ environment.sources architecture profile config)
    (hw : tree.locateWritable cwd copy.2 = .ok place) :
    ∃ name ∈ ([code, vars, architecture.bootFile] : List Name), place.getLast? = some name := by
  have hcode := names.firmwareCopy_code environment
  have hvars := names.firmwareCopy_vars environment
  simp only [sources, hcode, hvars, List.mem_cons, List.not_mem_nil, or_false] at hc
  rcases hc with rfl | rfl | rfl
  · exact ⟨code, by simp, h.getLast? (by simp [placements, hcode]) (names.isName code (by simp)) hw⟩
  · exact ⟨vars, by simp, h.getLast? (by simp [placements, hvars]) (names.isName vars (by simp)) hw⟩
  · exact ⟨architecture.bootFile, by simp, h.getLast? (by simp [placements, bootFile])
      (names.isName architecture.bootFile (by simp)) hw⟩

end LinkFree

/-- No copy is made in the place of the boot loader. -/
theorem Copied.get?_loader {copies : List (Path × Path)}
    (h : Copied name copies fresh made outcome filled)
    (held : fresh.tree.held fresh.cwd = fresh.cwd)
    (free : environment.LinkFree architecture fresh.tree fresh.cwd)
    (registered : architecture ∈ Architecture.registered)
    (hmade : ∀ copy ∈ made, copy ∈ environment.sources architecture profile config)
    (hloader : site.getLast? = some ("boot_loader.efi" : Name)) :
    filled.tree.get? site = fresh.tree.get? site := by
  obtain ⟨code, vars, names⟩ := Architecture.exists_fileNames registered
  refine h.get?_eq held fun copy hc hw => ?_
  obtain ⟨name, hn, hlast⟩ := free.getLast?_of_copy names (hmade copy hc) hw
  exact (names.ne_loader registered).1 name hn (Option.some.inj (hlast.symm.trans hloader))

/-! ### The copy of the boot loader -/

/-- The copy of the boot loader in a boot environment. -/
structure Carried (environment : BootEnvironment) (architecture : Architecture) (tree : Tree)
    (cwd : Option Location) (place : Location) (content : Text.Bytes) : Prop where
  /-- The working directory is there. -/
  held : tree.held cwd = cwd
  /-- No link stands where a file is put. -/
  free : environment.LinkFree architecture tree cwd
  /-- The path of the copy leads to a place, -/
  opens : tree.locateWritable cwd (environment.bootFile architecture) = .ok place
  /-- at which the content stands. -/
  stands : tree.get? place = some (.file content)

namespace Carried

variable {tree written : Tree} {cwd : Option Location}

theorem read (h : environment.Carried architecture tree cwd place content) :
    tree.read cwd (environment.bootFile architecture) = .ok content :=
  Tree.read_eq_ok_iff.mpr
    ⟨place, Tree.locate_of_created (Tree.locateWritable_eq_ok_iff.mp h.opens).1, h.stands⟩

/-- A descriptor is not written over the copy. -/
theorem write (h : environment.Carried architecture tree cwd place content)
    (registered : architecture ∈ Architecture.registered) {text : Text.Bytes}
    (hw : tree.write cwd (environment.descriptorFile architecture) text = .ok written) :
    environment.Carried architecture written (written.held cwd) place content := by
  obtain ⟨code, vars, names⟩ := Architecture.exists_fileNames registered
  obtain ⟨other, ho, rfl⟩ := Tree.write_eq_ok_iff.mp hw
  have hboot : place.getLast? = some (architecture.bootFile : Name) :=
    h.free.getLast? (by simp [placements, bootFile]) (names.isName _ (by simp)) h.opens
  have hdescriptor : other.getLast? = some (architecture.descriptorFile : Name) :=
    h.free.getLast? (by simp [placements, descriptorFile]) (names.isName _ (by simp)) ho
  have hne : place ≠ other := by
    rintro rfl
    exact (names.ne_loader registered).2
      (Text.encode_inj.mp (Option.some.inj (hdescriptor.symm.trans hboot)))
  obtain ⟨hkept, hkept'⟩ := Tree.waysKept_put ho text
  have hheld := hkept.held h.held
  rw [hheld]
  refine ⟨hheld, h.free.of_waysKept hkept hkept',
    (hkept.locateWritable_eq_ok_iff hkept').mpr h.opens, ?_⟩
  rw [Tree.get?_put (Tree.accepts_of_locateWritable ho text), if_neg hne, h.stands]

end Carried

/-- If all copies are made, the boot loader is copied as it was before the reset. -/
theorem exists_carried (registered : architecture ∈ Architecture.registered)
    (hloader : site.getLast? = some ("boot_loader.efi" : Name))
    (direct : scene.tree.Direct scene.cwd (config.loader architecture profile))
    (leads : scene.tree.locate scene.cwd (config.loader architecture profile) = .ok site)
    (stands : scene.tree.get? site = some (.file content))
    (hreset : (environment.reset name).effect scene = (.ok (), fresh))
    (free : environment.LinkFree architecture fresh.tree fresh.cwd)
    (hfill : (environment.fill architecture profile config).effect fresh = (.ok (), filled)) :
    ∃ place, environment.Carried architecture filled.tree filled.cwd place content := by
  obtain ⟨code, vars, names⟩ := Architecture.exists_fileNames registered
  have held := held_of_reset hreset
  obtain ⟨hold, hcwd⟩ := old_of_reset environment name scene
  rw [hreset] at hold hcwd
  obtain ⟨made, hcopied⟩ := copied architecture.id
    (environment.sources architecture profile config) fresh
  rw [fill] at hfill
  rw [hfill] at hcopied
  have hsources : environment.sources architecture profile config =
      (environment.sources architecture profile config).take 2 ++
        [(config.loader architecture profile, environment.bootFile architecture)] := rfl
  have hmem : (config.loader architecture profile, environment.bootFile architecture) ∈
      environment.sources architecture profile config := by simp [sources]
  rw [hsources] at hcopied
  obtain ⟨middle, tree, hothers, hlast, rfl⟩ := hcopied.exists_last rfl
  obtain ⟨hsame, hkept, hkept', -⟩ := hothers.files held
  obtain ⟨origin, found, destination, horigin, hfound, hdestination, rfl⟩ :=
    Tree.copy_eq_ok_iff.mp hlast
  rw [hsame] at horigin hdestination
  obtain rfl : origin = site :=
    direct.eq_of_locate (fun place target hl => (hold place _ hl).resolve_left (by simp)) hcwd leads
      (hkept'.locate horigin)
  rw [hothers.get?_loader held free registered (fun copy hc => List.mem_of_mem_take hc) hloader]
    at hfound
  obtain rfl : found = content := by
    have hbefore := (hold origin _ hfound).resolve_left (by simp)
    simpa using hbefore.symm.trans stands
  have hne : origin ≠ destination := by
    rintro rfl
    obtain ⟨name, hn, hname⟩ := free.getLast?_of_copy names hmem
      ((hkept.locateWritable_eq_ok_iff hkept').mp hdestination)
    exact (names.ne_loader registered).1 name hn (Option.some.inj (hname.symm.trans hloader))
  rw [if_neg hne]
  have hput := Tree.get?_put (Tree.accepts_of_locateWritable hdestination found) destination
  rw [if_pos rfl] at hput
  obtain ⟨hways, hways'⟩ := Tree.waysKept_put hdestination found
  have hheld := hways.held (hkept.held held)
  rw [Scene.cwd_withTree, hsame, hheld]
  exact ⟨destination, hheld, free.of_waysKept (hkept.trans hways) (hways'.trans hkept'),
    (hways.locateWritable_eq_ok_iff hways').mpr hdestination, hput⟩

/-! ### A boot loader that is kept elsewhere -/

/-- If nothing is removed on the way to it, the boot loader can be read whatever comes of making the
boot environment, and no copy of it fails but for its target. -/
theorem exists_read_of_assemble
    (apart : environment.Apart scene.tree scene.cwd (config.loader architecture profile))
    (reads : scene.tree.read scene.cwd (config.loader architecture profile) = .ok content)
    (h : (environment.assemble architecture profile config).effect scene = (outcome, filled)) :
    (∃ found, filled.tree.read filled.cwd (config.loader architecture profile) = .ok found) ∧
      ∀ error, outcome = .error error →
        ((environment.reset architecture.id).effect scene).1 = .error error ∨
          ∃ source target cause, (source, target) ∈
              environment.sources architecture profile config ∧
            error = .staging architecture.id source cause ∧
            (source = config.loader architecture profile →
              filled.tree.locateWritable filled.cwd target = .error cause) := by
  have hfresh := (read_of_apart apart reads architecture.id).2
  rw [assemble, effect_bind (by simp)] at h
  rcases hreset : (environment.reset architecture.id).effect scene with ⟨error | ⟨⟩, fresh⟩
  · rw [hreset] at h hfresh
    obtain ⟨rfl, rfl⟩ := Prod.mk.inj h
    exact ⟨⟨content, hfresh⟩, fun error he => .inl he⟩
  · rw [hreset] at h hfresh
    have held := held_of_reset hreset
    obtain ⟨made, hcopied⟩ := copied architecture.id
      (environment.sources architecture profile config) fresh
    dsimp only at h
    rw [fill] at h
    rw [h] at hcopied
    obtain ⟨hcwd, hkept, -, hfiles⟩ := hcopied.files held
    obtain ⟨place, hl, hg⟩ := Tree.read_eq_ok_iff.mp hfresh
    obtain ⟨found, hfound⟩ := (hfiles place).mpr (.inl ⟨content, hg⟩)
    have hread : filled.tree.read filled.cwd (config.loader architecture profile) = .ok found :=
      Tree.read_eq_ok_iff.mpr ⟨place, hcwd ▸ hkept.locate hl, hfound⟩
    refine ⟨⟨found, hread⟩, fun error he => .inr ?_⟩
    obtain ⟨source, target, rest, cause, hm, hs, hc⟩ := hcopied.exists_stopped held he
    refine ⟨source, target, cause, by simp [hm], hs, ?_⟩
    rintro rfl
    exact Tree.locateWritable_eq_error_of_copy hread hc

end BootEnvironment

end Bootstage
