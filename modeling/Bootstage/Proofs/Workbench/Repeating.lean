import Bootstage.Proofs.Tree.Entering
import Bootstage.Proofs.Workbench.Agreeing
import Bootstage.Proofs.Workbench.Delivering

/-!
# Building again

A toolchain may make the same of a request whenever it is asked, and keep to the directory of the
target. Then what its calls have left shows which of them have been made, but neither in which order
nor how often. This goes also for the boot loader that is looked for between the calls, if the path
to the directory of what is built leads to one place and not through what is built there.
-/

namespace Bootstage

namespace Location

variable {location below : Location} {name found : Name}

/-- Nothing below a location is at or above it. -/
theorem below_not_prefix : ¬ location ++ name :: below <+: location := by
  intro hp
  have hle := hp.length_le
  simp only [List.length_append, List.length_cons] at hle
  omega

/-- Below a location every name has its own places. -/
theorem prefix_below_iff : location ++ [name] <+: location ++ found :: below ↔ name = found := by
  simp [List.prefix_append_right_inj, List.cons_prefix_cons]

end Location

namespace Tree

/-- All that has changed is below a place, where no links are; the directory at the place may be
new, with those above it. -/
structure Reworked (target : Location) (before after : Tree) : Prop where
  /-- What is not below the place is the same, unless it is such a directory. -/
  elsewhere : ∀ location, ¬(target <+: location ∧ target ≠ location) →
    after.get? location = before.get? location ∨
      location <+: target ∧ before.get? location = none ∧ after.get? location = some .directory
  /-- No link is at or below the place. -/
  free : after.LinkFree target

namespace Reworked

variable {target : Location} {before middle after : Tree}

theorem trans (h : Reworked target before middle) (h' : Reworked target middle after) :
    Reworked target before after where
  free := h'.free
  elsewhere location hn := by
    rcases h.elsewhere location hn with hs | ⟨hp, hnone, hd⟩ <;>
      rcases h'.elsewhere location hn with hs' | ⟨hp', hnone', hd'⟩
    · exact .inl (hs'.trans hs)
    · exact .inr ⟨hp', hs.symm.trans hnone', hd'⟩
    · exact .inr ⟨hp, hnone, hs'.trans hd⟩
    · rw [hd] at hnone'
      contradiction

/-- A directory that is not below the place is still there. -/
theorem directory (h : Reworked target before after) {location : Location}
    (hn : ¬(target <+: location ∧ target ≠ location))
    (hd : before.get? location = some .directory) : after.get? location = some .directory := by
  rcases h.elsewhere location hn with hs | ⟨-, -, hd'⟩
  · exact hs.trans hd
  · exact hd'

/-- A straight path to the place is still straight. -/
theorem straight (h : Reworked target before after) {cwd : Option Location} {path : Path}
    (hs : before.Straight cwd path target) : after.Straight cwd path target := by
  refine ⟨hs.plain, hs.spelled, fun above hp text hl => ?_⟩
  by_cases he : above = target
  · exact h.free above (by rw [he]) text hl
  · have hn : ¬(target <+: above ∧ target ≠ above) :=
      fun hb => he (hp.eq_of_length_le hb.1.length_le)
    rcases h.elsewhere above hn with hsame | ⟨-, -, hd⟩
    · exact hs.unlinked above hp text (hsame.symm.trans hl)
    · simp [hd] at hl

end Reworked

end Tree

/-- A path leads to one place at most, and whether it leads there does not depend on what is below
the place. -/
structure Scene.Reaches (scene : Scene) (path : Path) (target : Location) : Prop where
  /-- It enters no other directory. -/
  leads : ∀ after, scene.tree.Reworked target after → ∀ start,
    after.entered scene.cwd path = .ok start → start = target
  /-- Wherever the directory is, it is entered alike. -/
  alike : ∀ after other, scene.tree.Reworked target after → scene.tree.Reworked target other →
    other.get? target = some .directory →
      after.entered scene.cwd path = .ok target → other.entered scene.cwd path = .ok target
  /-- A relative path does not lose the directory at which it starts. -/
  held : path.isAbsolute = false → ∀ after, scene.tree.Reworked target after →
    after.held scene.cwd = scene.cwd

/-- A straight path does not depend on what is below its place. -/
theorem Scene.Reaches.of_straight {scene : Scene} {path : Path} {target : Location}
    (straight : scene.tree.Straight scene.cwd path target)
    (held : path.isAbsolute = false → scene.tree.held scene.cwd = scene.cwd) :
    scene.Reaches path target where
  leads after ha start he := ((ha.straight straight).entered_eq_ok_iff.mp he).1
  alike after other ha ho hd he := by
    obtain ⟨-, hshort, -⟩ := (ha.straight straight).entered_eq_ok_iff.mp he
    exact (ho.straight straight).entered_eq_ok_iff.mpr ⟨rfl, hshort, hd⟩
  held hrelative after ha := by
    cases hc : scene.cwd with
    | none => rfl
    | some base =>
      have hbase : scene.tree.get? base = some .directory := by
        have h := held hrelative
        rw [hc] at h
        exact (Tree.held_eq_some_iff.mp h).2
      have hsite : base ++ path.names = target := by
        have h := straight.spelled
        simpa [Path.site?, hrelative, hc] using h
      obtain ⟨name, rest, hnames⟩ := List.exists_cons_of_ne_nil straight.plain.named
      rw [hnames] at hsite
      refine Tree.held_eq_some_iff.mpr ⟨rfl, ha.directory (fun hb => ?_) hbase⟩
      exact Location.below_not_prefix (hsite ▸ hb.1)

/-- A configuration that is loaded has its directory of what is built in one of the directories from
the working directory up. -/
theorem Config.exists_directory_of_load {tree : Tree} {cwd : Option Location} {config : Config}
    (h : load tree cwd = .ok config) :
    ∃ location directory, cwd = some location ∧ tree.get? location = some .directory ∧
      directory <+: location ∧ config.targetDir = Path.ofLocation directory / "target" := by
  unfold load at h
  split at h
  · next location hheld =>
    obtain ⟨rfl, hd⟩ := Tree.held_eq_some_iff.mp hheld
    obtain ⟨directory, hm, text, -, hmanifest⟩ := exists_manifest_of_ofFirst h
    refine ⟨location, directory, rfl, hd, ?_, (rooted_of_ofManifest hmanifest).targetDir⟩
    rcases List.mem_cons.mp hm with rfl | hm
    · exact List.prefix_rfl
    · exact Path.prefix_of_mem_properPrefixes (List.mem_reverse.mp hm)
  · contradiction

/-- Under a configuration that is loaded the path to the directory of what is built leads to one
place only. -/
theorem Scene.reaches_of_load {scene : Scene} {config : Config}
    (loaded : Config.load scene.tree scene.cwd = .ok config)
    (named : ∀ location, scene.cwd = some location → ∀ name ∈ location, Path.IsName name) :
    ∃ directory, config.targetDir = Path.ofLocation directory / "target" ∧
      (scene.tree.LinkFree (directory ++ (["target"] : Location)) →
        scene.Reaches config.targetDir (directory ++ (["target"] : Location))) := by
  obtain ⟨location, directory, hcwd, hd, hp, htarget⟩ := Config.exists_directory_of_load loaded
  refine ⟨directory, htarget, fun free => ?_⟩
  have hnames : ∀ name ∈ directory, Path.IsName name :=
    fun name hn => named location hcwd name (hp.subset hn)
  have habsolute := Path.isAbsolute_div (Path.isAbsolute_ofLocation directory) "target"
  have hpath :
      (Path.ofLocation directory / "target").names = directory ++ (["target"] : Location) := by
    have hbase : (Path.ofLocation directory).names = directory :=
      @Path.names_ofNames true directory fun name hn =>
        ⟨(hnames name hn).ne_empty, (hnames name hn).slash_notMem⟩
    exact (Path.names_join (by decide)).trans (congrArg (· ++ _) hbase)
  have hdirectory : scene.tree.get? directory = some .directory := by
    by_cases he : directory = location
    · rw [he, hd]
    · exact Tree.get?_above hd hp he
  rw [htarget]
  refine .of_straight ⟨⟨by simp [hpath], ?_⟩, ?_, ?_⟩ fun ha => by simp [habsolute] at ha
  · rw [hpath]
    intro name hn
    rcases List.mem_append.mp hn with hn | hn
    · exact (hnames name hn).descends
    · rw [List.mem_singleton.mp hn]
      decide
  · simp [Path.site?, habsolute, hpath]
  · refine Tree.unlinked_of_get?_dropLast (by simpa using hdirectory) fun text => ?_
    exact free _ List.prefix_rfl text

/-- What a toolchain makes of a request, whatever it finds. -/
structure Product where
  /-- How the call ends. -/
  outcome : Except SystemError ProcessExit
  /-- What it puts below the directory of the target, and what it takes away there; all else it
  leaves as it is. -/
  artifacts : Location → Option (Option Entry)
  /-- It puts no links there. -/
  linkless : ∀ below text, artifacts below ≠ some (some (.link text))

namespace Workbench

open Bootstage.Action

variable {bench : Workbench} {profile : BuildProfile} {target : Location} {scene : Scene}
  {products : BuildRequest → Product} {step other : BuildStep} {front back : List BuildStep}

/-- In a call the toolchain makes a product and nothing else. -/
structure Makes (bench : Workbench) (target : Location) (scene : Scene) (step : BuildStep)
    (product : Product) : Prop where
  /-- The call ends as that of the product. -/
  outcome : (bench.toolchain.react step.request scene).outcome = product.outcome
  /-- The artifacts are at or below the directory of the target. -/
  artifacts : ∀ below,
    (bench.built scene step).tree.get? (target ++ (step.request.target : Name) :: below) =
      (product.artifacts below).getD
        (scene.tree.get? (target ++ (step.request.target : Name) :: below))
  /-- Nothing else is changed; the directory of all that is built may be new, with those above
  it. -/
  confined : ∀ location, ¬ target ++ ([step.request.target] : Location) <+: location →
    (bench.built scene step).tree.get? location = scene.tree.get? location ∨
      location <+: target ∧ scene.tree.get? location = none ∧
        (bench.built scene step).tree.get? location = some .directory

/-- Whichever calls have been made, the next one makes the product of its request. -/
def Steady (bench : Workbench) (profile : BuildProfile) (target : Location) (scene : Scene)
    (products : BuildRequest → Product) : Prop :=
  ∀ front : List BuildStep, front ⊆ bench.plan profile Architecture.registered →
    ∀ step ∈ bench.plan profile Architecture.registered,
      bench.Makes target (front.foldl bench.built scene) step (products step.request)

/-! ### One call after the other -/

theorem kernelTargets_distinct : ∀ architecture ∈ Architecture.registered,
    ∀ other ∈ Architecture.registered,
      other.kernelTarget = architecture.kernelTarget → other = architecture := by
  decide

/-- The calls that can be made have different targets. -/
theorem eq_of_target (hs : step ∈ bench.plan profile Architecture.registered)
    (ho : other ∈ bench.plan profile Architecture.registered)
    (ht : step.request.target = other.request.target) : step = other := by
  obtain ⟨hm, hr⟩ := mem_plan hs
  obtain ⟨hm', hr'⟩ := mem_plan ho
  obtain ⟨architecture, component, request⟩ := step
  obtain ⟨architecture', component', request'⟩ := other
  simp only [BuildRequest.ofArchitecture, List.mem_cons, Prod.mk.injEq, List.not_mem_nil,
    or_false] at hm hm' hr hr'
  rcases hr with ⟨rfl, rfl⟩ | ⟨rfl, rfl⟩
  · exact (eq_loaderStep (fun _ h => h) hm ho ht.symm).symm
  rcases hr' with ⟨rfl, rfl⟩ | ⟨rfl, rfl⟩
  · exact eq_loaderStep (fun _ h => h) hm' hs ht
  · obtain rfl := kernelTargets_distinct architecture' hm' architecture hm ht
    rfl

/-- What is below the directory of all that is built is left alone by calls for other targets. -/
theorem Makes.get?_of_ne {product : Product} (h : bench.Makes target scene step product)
    {name : Name} (hne : step.request.target ≠ name) (below : Location) :
    (bench.built scene step).tree.get? (target ++ name :: below) =
      scene.tree.get? (target ++ name :: below) := by
  rcases h.confined _ fun hb => hne (Location.prefix_below_iff.mp hb) with hs | ⟨hp, -, -⟩
  · exact hs
  · exact absurd hp Location.below_not_prefix

/-- A call puts no link where none was. -/
theorem Makes.reworked {product : Product} (h : bench.Makes target scene step product)
    (free : scene.tree.LinkFree target) :
    scene.tree.Reworked target (bench.built scene step).tree where
  elsewhere location hn := h.confined location fun hp => by
    refine hn ⟨(List.prefix_append _ _).trans hp, fun he => ?_⟩
    exact Location.below_not_prefix (he ▸ hp)
  free location hp text hl := by
    by_cases hb : target ++ ([step.request.target] : Location) <+: location
    · obtain ⟨below, rfl⟩ := hb
      rw [List.append_assoc, List.singleton_append] at hl hp
      rw [h.artifacts below] at hl
      cases ha : product.artifacts below with
      | none => exact free _ hp text (by simpa [ha] using hl)
      | some entry =>
        have he : entry = some (.link text) := by simpa [ha] using hl
        exact product.linkless below text (ha.trans (congrArg some he))
    · rcases h.confined location hb with hs | ⟨-, -, hd⟩
      · exact free location hp text (hs.symm.trans hl)
      · simp [hd] at hl

/-! ### Any number of calls -/

section

variable (steady : bench.Steady profile target scene products)
  (hfront : front ⊆ bench.plan profile Architecture.registered)
  (hback : back ⊆ bench.plan profile Architecture.registered)

include steady hfront

/-- Any number of calls changes only what is below the directory of all that is built. -/
theorem reworked_foldl (free : scene.tree.LinkFree target) :
    scene.tree.Reworked target (front.foldl bench.built scene).tree := by
  induction front using List.reverseRecOn with
  | nil => exact ⟨fun _ _ => .inl rfl, free⟩
  | append_singleton front step ih =>
    obtain ⟨hf, hs⟩ := List.append_subset.mp hfront
    have hstep := steady front hf step (hs List.mem_cons_self)
    rw [List.foldl_concat]
    exact (ih hf).trans (hstep.reworked (ih hf).free)

/-- Below the directory of its target a call shows that has been made, whenever and however often;
one that has not been made does not. -/
theorem get?_foldl (hs : step ∈ bench.plan profile Architecture.registered) (below : Location) :
    (front.foldl bench.built scene).tree.get? (target ++ (step.request.target : Name) :: below) =
      if step ∈ front then
        ((products step.request).artifacts below).getD
          (scene.tree.get? (target ++ (step.request.target : Name) :: below))
      else scene.tree.get? (target ++ (step.request.target : Name) :: below) := by
  induction front using List.reverseRecOn with
  | nil => simp
  | append_singleton front last ih =>
    obtain ⟨hf, hl⟩ := List.append_subset.mp hfront
    have hlast := steady front hf last (hl List.mem_cons_self)
    rw [List.foldl_concat]
    by_cases he : last = step
    · subst he
      rw [hlast.artifacts below, ih hf, if_pos (List.mem_append_right front List.mem_cons_self)]
      cases (products last.request).artifacts below <;> simp
    · have hne : last.request.target ≠ step.request.target :=
        fun ht => he (eq_of_target (hl List.mem_cons_self) hs ht)
      have hmem : step ∈ front ++ [last] ↔ step ∈ front := by simp [Ne.symm he]
      simp only [hlast.get?_of_ne fun ht => hne (Text.encode_inj.mp ht), ih hf, hmem]

/-- What is built for no target that can be asked for is left alone. -/
theorem get?_foldl_of_ne {name : Name}
    (hne : ∀ step ∈ bench.plan profile Architecture.registered, step.request.target ≠ name)
    (below : Location) :
    (front.foldl bench.built scene).tree.get? (target ++ name :: below) =
      scene.tree.get? (target ++ name :: below) := by
  induction front using List.reverseRecOn with
  | nil => rfl
  | append_singleton front last ih =>
    obtain ⟨hf, hl⟩ := List.append_subset.mp hfront
    have hm := hl List.mem_cons_self
    rw [List.foldl_concat, (steady front hf last hm).get?_of_ne (hne last hm), ih hf]

include hback

/-- Below the directory of all that is built two runs that have made the same calls have left the
same. -/
theorem get?_foldl_congr (same : ∀ step, step ∈ front ↔ step ∈ back) {location : Location}
    (hp : target <+: location) (hne : target ≠ location) :
    (front.foldl bench.built scene).tree.get? location =
      (back.foldl bench.built scene).tree.get? location := by
  obtain ⟨below, rfl⟩ := hp
  have hbelow : below ≠ [] := fun hb => hne (by simp [hb])
  obtain ⟨name, below, rfl⟩ := List.exists_cons_of_ne_nil hbelow
  by_cases hname : ∃ step ∈ bench.plan profile Architecture.registered,
      (step.request.target : Name) = name
  · obtain ⟨step, hs, rfl⟩ := hname
    simp only [get?_foldl steady hfront hs, get?_foldl steady hback hs, same]
  · have hforeign : ∀ step ∈ bench.plan profile Architecture.registered,
        (step.request.target : Name) ≠ name := fun step hs ht => hname ⟨step, hs, ht⟩
    rw [get?_foldl_of_ne steady hfront hforeign, get?_foldl_of_ne steady hback hforeign]

/-- Wherever the directory of all that is built stands in the end, the rest is the same too. -/
theorem tree_foldl_congr (same : ∀ step, step ∈ front ↔ step ∈ back)
    (free : scene.tree.LinkFree target)
    (hd : (front.foldl bench.built scene).tree.get? target = some .directory)
    (hd' : (back.foldl bench.built scene).tree.get? target = some .directory) :
    (front.foldl bench.built scene).tree = (back.foldl bench.built scene).tree := by
  apply Tree.ext
  intro location
  by_cases hb : target <+: location ∧ target ≠ location
  · exact get?_foldl_congr steady hfront hback same hb.1 hb.2
  by_cases ha : location <+: target
  · by_cases he : location = target
    · rw [he, hd, hd']
    · rw [Tree.get?_above hd ha he, Tree.get?_above hd' ha he]
  · have hsame := (reworked_foldl steady hfront free).elsewhere location hb
    have hsame' := (reworked_foldl steady hback free).elsewhere location hb
    simp only [ha, false_and, or_false] at hsame hsame'
    rw [hsame, hsame']

end

/-! ### Whether the boot loader is found -/

/-- What is named below the directory of all that is built leads one step down with each name. -/
theorem loaderNames (profile : BuildProfile) : ∀ architecture ∈ Architecture.registered,
    let right := (⟨architecture.loaderTarget⟩ : Path) / profile.directoryName / "boot_loader.efi"
    right.isAbsolute = false ∧ right.endsInSlash = false ∧
      right.names =
          ([architecture.loaderTarget, profile.directoryName, "boot_loader.efi"] : Location) ∧
        ∀ name ∈ right.names, (name ≠ "." ∧ name ≠ "..") ∧ name.length ≤ nameLimit := by
  cases profile <;> decide +kernel

/-- The boot loader of an architecture is found if the directory of all that is built is entered and
something stands at the place of the boot loader. -/
theorem hasLoader_iff (registered : step.architecture ∈ Architecture.registered)
    (free : ∀ start, scene.tree.entered scene.cwd bench.config.targetDir = .ok start →
      scene.tree.LinkFree start) :
    bench.hasLoader profile step scene = true ↔
      (bench.config.loader step.architecture profile).check = .ok () ∧
        ∃ start, scene.tree.entered scene.cwd bench.config.targetDir = .ok start ∧
          scene.tree.get? ((BuildRequest.loader step.architecture profile).loaderSite start) ≠
            none := by
  obtain ⟨hrelative, hbare, hnames, hall⟩ := loaderNames profile step.architecture registered
  have hplain := Path.Plain.mk (by simp [hnames]) fun name hn => (hall name hn).1
  have hsite : ∀ start, (BuildRequest.loader step.architecture profile).loaderSite start =
      start ++ ([step.architecture.loaderTarget, profile.directoryName, "boot_loader.efi"] :
        Location) := by
    cases profile <;> exact fun _ => rfl
  rw [hasLoader, bench.config.loader_eq_join registered profile,
    Tree.present_join_iff hrelative hplain hbare free, hnames]
  simp only [hsite]
  exact ⟨fun ⟨hc, _, hs⟩ => ⟨hc, hs⟩,
    fun ⟨hc, hs⟩ => ⟨hc, hnames ▸ fun name hn => (hall name hn).2, hs⟩⟩

section

variable (free : scene.tree.LinkFree target)
  (steady : bench.Steady profile target scene products)
  (reaches : scene.Reaches bench.config.targetDir target)

include free steady reaches

/-- The working directory is not removed when all that is built is named from it. -/
theorem cwd_foldl (relative : bench.config.targetDir.isAbsolute = false)
    (hfront : front ⊆ bench.plan profile Architecture.registered) :
    (front.foldl bench.built scene).cwd = scene.cwd := by
  induction front using List.reverseRecOn with
  | nil => rfl
  | append_singleton front step ih =>
    have hre := reworked_foldl steady hfront free
    have hcwd := ih (List.append_subset.mp hfront).1
    rw [List.foldl_concat] at hre ⊢
    have hheld := reaches.held relative _ hre
    rw [← hcwd] at hheld
    exact hheld.trans hcwd

/-- The directory of all that is built is entered as from the directory of the start. -/
theorem entered_foldl (hfront : front ⊆ bench.plan profile Architecture.registered) :
    (front.foldl bench.built scene).tree.entered (front.foldl bench.built scene).cwd
        bench.config.targetDir =
      (front.foldl bench.built scene).tree.entered scene.cwd bench.config.targetDir := by
  cases ha : bench.config.targetDir.isAbsolute with
  | true => exact Tree.entered_anywhere _ _ _ ha
  | false => rw [cwd_foldl free steady reaches ha hfront]

/-- After any number of calls a boot loader is found if its directory is entered and something
stands at its place. -/
theorem hasLoader_foldl_iff (hfront : front ⊆ bench.plan profile Architecture.registered)
    (registered : step.architecture ∈ Architecture.registered) :
    bench.hasLoader profile step (front.foldl bench.built scene) = true ↔
      (bench.config.loader step.architecture profile).check = .ok () ∧
        (front.foldl bench.built scene).tree.entered scene.cwd bench.config.targetDir =
            .ok target ∧
          (front.foldl bench.built scene).tree.get?
            ((BuildRequest.loader step.architecture profile).loaderSite target) ≠ none := by
  have hre := reworked_foldl steady hfront free
  have hentered := entered_foldl free steady reaches hfront
  have hleads := reaches.leads _ hre
  rw [hasLoader_iff registered, hentered]
  · refine and_congr_right fun _ => ⟨?_, fun ⟨he, hg⟩ => ⟨target, he, hg⟩⟩
    rintro ⟨start, he, hg⟩
    obtain rfl := hleads start he
    exact ⟨he, hg⟩
  · intro start he
    rw [hentered] at he
    obtain rfl := hleads start he
    exact hre.free

/-- Once its call has been made, a boot loader is found whatever other calls have been made: all
runs that have made the call show the same at its place. -/
theorem hasLoader_foldl_congr (hfront : front ⊆ bench.plan profile Architecture.registered)
    (hback : back ⊆ bench.plan profile Architecture.registered)
    (hf : loaderStep step.architecture profile ∈ front)
    (hb : loaderStep step.architecture profile ∈ back)
    (h : bench.hasLoader profile step (front.foldl bench.built scene) = true) :
    bench.hasLoader profile step (back.foldl bench.built scene) = true := by
  have registered : step.architecture ∈ Architecture.registered := (mem_plan (hfront hf)).1
  obtain ⟨hc, he, hg⟩ :=
    (hasLoader_foldl_iff free steady reaches hfront registered).mp h
  have hsite : (back.foldl bench.built scene).tree.get?
        ((BuildRequest.loader step.architecture profile).loaderSite target) =
      (front.foldl bench.built scene).tree.get?
        ((BuildRequest.loader step.architecture profile).loaderSite target) := by
    have hfront' := get?_foldl steady hfront (hfront hf)
    have hback' := get?_foldl steady hback (hfront hf)
    simp only [hf, hb, if_true] at hfront' hback'
    exact (hback' _).trans (hfront' _).symm
  rw [← hsite] at hg
  obtain ⟨entry, hentry⟩ := Option.ne_none_iff_exists'.mp hg
  have hd : (back.foldl bench.built scene).tree.get? target = some .directory :=
    Tree.get?_above hentry (List.prefix_append _ _) (by simp [BuildRequest.loaderSite])
  refine (hasLoader_foldl_iff free steady reaches hback registered).mpr ⟨hc, ?_, hg⟩
  exact reaches.alike _ _ (reworked_foldl steady hfront free)
    (reworked_foldl steady hback free) hd he

end

end Workbench

end Bootstage
