import Bootstage.Proofs.Tree.Arriving
import Bootstage.Proofs.Workbench.Building

/-!
# What a build delivers

A toolchain conforms when each of its calls keeps to the directory of its own target, and a boot
loader that has been built stands at the place at which the configuration looks for it. Then a build
that succeeds leaves, for each of its architectures, the boot loader that the last call for its
target has made: the calls for other targets, and for kernels, do not touch it.
-/

namespace Bootstage

namespace Architecture

/-- No two registered architectures share a target, and none builds its kernel for the target of a
boot loader. -/
theorem targets_distinct : ∀ architecture ∈ registered, ∀ other ∈ registered,
    (other.loaderTarget = architecture.loaderTarget → other = architecture) ∧
      other.kernelTarget ≠ architecture.loaderTarget := by
  decide

end Architecture

namespace BuildRequest

/-- The directory, below that of the target, in which the toolchain leaves what it has built. -/
def profileDirectory (request : BuildRequest) : String :=
  (BuildProfile.ofRelease request.release).directoryName

/-- The place of the boot loader of a request, below the place of all that is built. -/
def loaderSite (request : BuildRequest) (target : Location) : Location :=
  target ++ ([request.target, request.profileDirectory, "boot_loader.efi"] : Location)

/-- The place of a boot loader lies below the directory of its own target and of no other. -/
theorem below_loaderSite {request : BuildRequest} {target : Location} {name : Name} :
    target ++ [name] <+: request.loaderSite target ↔ name = request.target := by
  simp [loaderSite, List.prefix_append_right_inj, List.cons_prefix_cons]

/-- The configuration looks for the boot loader of an architecture where its request leaves it. -/
theorem loaderArtifact_loader (config : Config) (architecture : Architecture)
    (profile : BuildProfile) :
    config.loaderArtifact (loader architecture profile).target
      (loader architecture profile).profileDirectory = config.loader architecture profile := by
  cases profile <;> rfl

end BuildRequest

/-- The boot loader of a request is where the configuration looks for it. -/
structure Scene.Delivers (scene : Scene) (config : Config) (target : Location)
    (request : BuildRequest) (content : Text.Bytes) : Prop where
  /-- It can be read. -/
  read : scene.tree.read scene.cwd
    (config.loaderArtifact request.target request.profileDirectory) = .ok content
  /-- Its path leads to its place, -/
  leads : scene.tree.locate scene.cwd
    (config.loaderArtifact request.target request.profileDirectory) =
      .ok (request.loaderSite target)
  /-- by no link, -/
  direct : scene.tree.Direct scene.cwd
    (config.loaderArtifact request.target request.profileDirectory)
  /-- and by nothing that is built for another target. -/
  own : ∀ place ∈ scene.tree.passed scene.cwd
    (config.loaderArtifact request.target request.profileDirectory), ∀ name : Name,
      target ++ [name] <+: place → name = request.target

namespace Scene.Delivers

variable {scene after : Scene} {config : Config} {target : Location} {request : BuildRequest}
  {content : Text.Bytes}

/-- A straight path is enough. -/
theorem of_straight (straight : scene.tree.Straight scene.cwd
      (config.loaderArtifact request.target request.profileDirectory) (request.loaderSite target))
    (read : scene.tree.read scene.cwd
      (config.loaderArtifact request.target request.profileDirectory) = .ok content) :
    scene.Delivers config target request content where
  read := read
  leads := by
    obtain ⟨place, hl, -⟩ := Tree.read_eq_ok_iff.mp read
    obtain ⟨-, rfl, -⟩ := (straight.locate_eq_ok_iff (.inl (by decide))).mp hl
    exact hl
  direct := straight.direct
  own place hp name hn := BuildRequest.below_loaderSite.mp
    (hn.trans (straight.prefix_of_mem_passed .followed place hp))

theorem get?_loaderSite (h : scene.Delivers config target request content) :
    scene.tree.get? (request.loaderSite target) = some (.file content) := by
  obtain ⟨place, hl, hg⟩ := Tree.read_eq_ok_iff.mp h.read
  obtain rfl : place = request.loaderSite target := Except.ok.inj (hl.symm.trans h.leads)
  exact hg

/-- A boot loader is delivered as long as all is there that its path comes by. -/
theorem of_same (h : scene.Delivers config target request content)
    (hcwd : after.cwd = after.tree.held scene.cwd)
    (same : ∀ place ∈ scene.tree.passed scene.cwd
      (config.loaderArtifact request.target request.profileDirectory),
        after.tree.get? place = scene.tree.get? place) :
    after.Delivers config target request content := by
  obtain ⟨hlocate, hpassed⟩ := Tree.locate_held_congr same h.leads
  rw [← hcwd] at hlocate hpassed
  have hsite := (same _ (Tree.mem_passed_of_locate h.leads)).trans h.get?_loaderSite
  refine ⟨Tree.read_eq_ok_iff.mpr ⟨_, hlocate, hsite⟩, hlocate, ?_, ?_⟩
  · intro place hp
    rw [hpassed] at hp
    rw [same place hp]
    exact h.direct place hp
  · rw [hpassed]
    exact h.own

end Scene.Delivers

namespace Workbench

open Bootstage.Action

variable {bench : Workbench} {profile : BuildProfile} {target : Location} {scene left : Scene}
  {content : Text.Bytes}

/-- The toolchain does in one call what it is trusted with. -/
structure Conforms (bench : Workbench) (target : Location) (scene : Scene) (step : BuildStep) :
    Prop where
  /-- It changes nothing but what is at or below the directory of its target; the directory of all
  that is built may be new, with those above it. -/
  confined : ∀ location, ¬ target ++ ([step.request.target] : Location) <+: location →
    (bench.built scene step).tree.get? location = scene.tree.get? location ∨
      location <+: target ∧ scene.tree.get? location = none ∧
        (bench.built scene step).tree.get? location = some .directory
  /-- A boot loader that has been built is where it belongs. -/
  delivers : step.component = .bootLoader →
    (bench.toolchain.react step.request scene).outcome = .ok (.exited 0) →
      ∃ content, (bench.built scene step).Delivers bench.config target step.request content

/-- The toolchain conforms in each of some calls, made one after the other. -/
def ConformsAlong (bench : Workbench) (target : Location) (scene : Scene)
    (steps : List BuildStep) : Prop :=
  ∀ front step rest, steps = front ++ step :: rest →
    bench.Conforms target (front.foldl bench.built scene) step

/-- What conforms along a list of calls conforms along the rest of it. -/
theorem ConformsAlong.of_append {front rest : List BuildStep}
    (h : bench.ConformsAlong target scene (front ++ rest)) :
    bench.ConformsAlong target (front.foldl bench.built scene) rest := by
  rintro middle step others rfl
  rw [← List.foldl_append]
  exact h (front ++ middle) step others (by simp)

/-- A call for another target leaves a boot loader as it is. -/
theorem Conforms.delivers_built {request : BuildRequest} {step : BuildStep}
    (h : bench.Conforms target scene step)
    (hd : scene.Delivers bench.config target request content)
    (hne : step.request.target ≠ request.target) :
    (bench.built scene step).Delivers bench.config target request content := by
  refine hd.of_same rfl fun place hp => ?_
  have hstands : scene.tree.get? place ≠ none :=
    Tree.stands_of_mem_passed (by simp [hd.get?_loaderSite]) hd.leads place hp
  rcases h.confined place fun hb =>
    hne (Text.encode_inj.mp (hd.own place hp _ hb)) with hs | ⟨-, hn, -⟩
  · exact hs
  · exact absurd hn hstands

/-- So do any number of such calls. -/
theorem ConformsAlong.delivers_foldl {request : BuildRequest} {steps : List BuildStep}
    (h : bench.ConformsAlong target scene steps)
    (hd : scene.Delivers bench.config target request content)
    (hne : ∀ step ∈ steps, step.request.target ≠ request.target) :
    (steps.foldl bench.built scene).Delivers bench.config target request content := by
  induction steps generalizing scene with
  | nil => exact hd
  | cons step rest ih =>
    have hstep := (h [] step rest rfl).delivers_built hd (hne step List.mem_cons_self)
    have happend : bench.ConformsAlong target scene ([step] ++ rest) := h
    exact ih happend.of_append hstep fun other ho => hne other (List.mem_cons_of_mem step ho)

/-! ### The last call for a target -/

/-- The call that builds the boot loader of an architecture. -/
def loaderStep (architecture : Architecture) (profile : BuildProfile) : BuildStep :=
  ⟨architecture, .bootLoader, .loader architecture profile⟩

theorem loaderStep_mem_plan {architectures : List Architecture} {architecture : Architecture}
    (h : architecture ∈ architectures) :
    loaderStep architecture profile ∈ bench.plan profile architectures :=
  List.mem_flatMap.mpr ⟨architecture, h, List.mem_cons_self⟩

/-- Of the calls of a plan only those for its boot loader have the target of an architecture. -/
theorem eq_loaderStep {architectures : List Architecture} {architecture : Architecture}
    (registered : ∀ architecture ∈ architectures, architecture ∈ Architecture.registered)
    (ha : architecture ∈ architectures) {step : BuildStep}
    (hs : step ∈ bench.plan profile architectures)
    (ht : step.request.target = architecture.loaderTarget) :
    step = loaderStep architecture profile := by
  obtain ⟨hm, hr⟩ := mem_plan hs
  obtain ⟨hsame, hkernel⟩ := Architecture.targets_distinct architecture (registered _ ha)
    step.architecture (registered _ hm)
  obtain ⟨found, component, request⟩ := step
  simp only [BuildRequest.ofArchitecture, List.mem_cons, Prod.mk.injEq, List.not_mem_nil,
    or_false] at hr
  rcases hr with ⟨rfl, rfl⟩ | ⟨rfl, rfl⟩
  · obtain rfl := hsame ht
    rfl
  · exact absurd ht hkernel

/-- There is a last one among those with a property. -/
theorem exists_last {α : Type} {p : α → Prop} {items : List α} (h : ∃ item ∈ items, p item) :
    ∃ front item rest, items = front ++ item :: rest ∧ p item ∧ ∀ other ∈ rest, ¬ p other := by
  induction items with
  | nil => simp at h
  | cons first items ih =>
    by_cases hrest : ∃ item ∈ items, p item
    · obtain ⟨front, item, rest, rfl, hp, hlast⟩ := ih hrest
      exact ⟨first :: front, item, rest, rfl, hp, hlast⟩
    · obtain ⟨item, hm, hp⟩ := h
      rcases List.mem_cons.mp hm with rfl | hm
      · exact ⟨[], item, items, rfl, hp, fun other ho hother => hrest ⟨other, ho, hother⟩⟩
      · exact absurd ⟨item, hm, hp⟩ hrest

/-- The boot loader that a build has left for an architecture is that of the last call for its
target. -/
structure Latest (bench : Workbench) (profile : BuildProfile) (architectures : List Architecture)
    (target : Location) (before left : Scene) (architecture : Architecture)
    (content : Text.Bytes) : Prop where
  /-- It stands there right after the last of the calls for the target. -/
  made : ∃ front rest,
    bench.plan profile architectures = front ++ loaderStep architecture profile :: rest ∧
      (∀ step ∈ rest, step.request.target ≠ architecture.loaderTarget) ∧
        (bench.built (front.foldl bench.built before) (loaderStep architecture profile)).Delivers
          bench.config target (.loader architecture profile) content
  /-- It still stands there when the build has ended. -/
  left : left.Delivers bench.config target (.loader architecture profile) content

/-- A build that succeeds leaves for each architecture what the last call for its target has
made. -/
theorem exists_latest {architectures : List Architecture}
    (registered : ∀ architecture ∈ architectures, architecture ∈ Architecture.registered)
    (conforms : bench.ConformsAlong target scene (bench.plan profile architectures))
    (hbuild : (bench.build architectures profile).effect scene = (.ok (), left))
    {architecture : Architecture} (ha : architecture ∈ architectures) :
    ∃ content, bench.Latest profile architectures target scene left architecture content := by
  obtain ⟨performed, hfollowed⟩ := followed bench profile architectures scene
  rw [hbuild] at hfollowed
  obtain ⟨rfl, hsucceeds⟩ := hfollowed.eq_ok_iff.mp rfl
  have hcalled : ∃ step ∈ bench.plan profile architectures,
      step.request.target = architecture.loaderTarget :=
    ⟨loaderStep architecture profile, loaderStep_mem_plan ha, rfl⟩
  obtain ⟨front, step, rest, hplan, ht, hlast⟩ := exists_last hcalled
  have hmem : step ∈ bench.plan profile architectures := by simp [hplan]
  obtain rfl := eq_loaderStep registered ha hmem ht
  have hstep := conforms front (loaderStep architecture profile) rest hplan
  obtain ⟨content, hmade⟩ := hstep.delivers rfl (hsucceeds front _ rest hplan).outcome
  refine ⟨content, ⟨front, rest, hplan, hlast, hmade⟩, ?_⟩
  have hrest : bench.ConformsAlong target
      (bench.built (front.foldl bench.built scene) (loaderStep architecture profile)) rest := by
    have happend := conforms
    rw [hplan, List.append_cons] at happend
    simpa using happend.of_append
  have hend : left = (bench.plan profile architectures).foldl bench.built scene :=
    hfollowed.left_eq
  rw [hend, hplan, List.foldl_append]
  exact hrest.delivers_foldl hmade hlast

end Workbench

end Bootstage
