import Bootstage.Proofs.Workbench.Booting
import Bootstage.Proofs.Workbench.Repeating

/-!
# Builds in any order

With a toolchain that makes the same of a request whenever it is asked, it is a matter of the set of
its architectures whether a build succeeds, and which files it then leaves. Neither the order plays
a part nor do repetitions.
-/

namespace Bootstage

namespace Workbench

open Bootstage.Action

variable {bench : Workbench} {profile : BuildProfile} {target : Location} {scene : Scene}
  {products : BuildRequest → Product} {step : BuildStep} {front back : List BuildStep}

/-! ### Plans -/

theorem plan_subset {architectures others : List Architecture} (h : architectures ⊆ others) :
    bench.plan profile architectures ⊆ bench.plan profile others := by
  intro step hs
  obtain ⟨architecture, ha, hm⟩ := List.mem_flatMap.mp hs
  exact List.mem_flatMap.mpr ⟨architecture, h ha, hm⟩

/-- The call that builds the kernel of an architecture. -/
def kernelStep (bench : Workbench) (profile : BuildProfile) (architecture : Architecture) :
    BuildStep :=
  ⟨architecture, .kernel, .kernel architecture profile bench.config⟩

theorem kernelStep_mem_plan {architectures : List Architecture} {architecture : Architecture}
    (h : architecture ∈ architectures) :
    bench.kernelStep profile architecture ∈ bench.plan profile architectures :=
  List.mem_flatMap.mpr ⟨architecture, h, List.mem_cons_of_mem _ List.mem_cons_self⟩

/-- In a plan the boot loader of an architecture is built before its kernel. -/
theorem loaderStep_mem_of_kernel {architectures : List Architecture}
    (hplan : bench.plan profile architectures = front ++ step :: back)
    (hk : step.component = .kernel) : loaderStep step.architecture profile ∈ front := by
  induction architectures generalizing front with
  | nil => simp [plan] at hplan
  | cons architecture rest ih =>
    have hcons : bench.plan profile (architecture :: rest) =
        loaderStep architecture profile :: bench.kernelStep profile architecture ::
          bench.plan profile rest := rfl
    rw [hcons] at hplan
    rcases List.cons_eq_append_iff.mp hplan with ⟨-, hfirst⟩ | ⟨others, rfl, hrest⟩
    · obtain ⟨rfl, -⟩ := List.cons.inj hfirst
      simp [loaderStep] at hk
    rcases List.cons_eq_append_iff.mp hrest with ⟨rfl, hsecond⟩ | ⟨others, rfl, hlater⟩
    · obtain ⟨rfl, -⟩ := List.cons.inj hsecond
      exact List.mem_cons_self
    · exact List.mem_cons_of_mem _ (List.mem_cons_of_mem _ (ih hlater))

/-! ### Whether a build succeeds -/

/-- A call goes well after all others that can be made, or after some of them. -/
structure Passes (bench : Workbench) (profile : BuildProfile) (scene : Scene)
    (products : BuildRequest → Product) (step : BuildStep) : Prop where
  /-- The toolchain exits with code zero. -/
  outcome : (products step.request).outcome = .ok (.exited 0)
  /-- The boot loader is there when its call has been made. -/
  loader : step.component = .kernel → ∀ front ⊆ bench.plan profile Architecture.registered,
    loaderStep step.architecture profile ∈ front →
      bench.hasLoader profile step (front.foldl bench.built scene) = true

section

variable (free : scene.tree.LinkFree target)
  (steady : bench.Steady profile target scene products)
  (reaches : scene.Reaches bench.config.targetDir target)

include free steady reaches

/-- Where its plan comes to a call, the call goes well exactly if it passes. -/
theorem succeeds_iff_passes {architectures : List Architecture}
    (registered : architectures ⊆ Architecture.registered)
    (hplan : bench.plan profile architectures = front ++ step :: back) :
    bench.Succeeds profile (front.foldl bench.built scene) step ↔
      bench.Passes profile scene products step := by
  have hfront : front ++ [step] ⊆ bench.plan profile Architecture.registered := by
    refine fun other ho => plan_subset registered (hplan ▸ ?_)
    rw [List.append_cons]
    exact List.mem_append_left back ho
  obtain ⟨hf, hs⟩ := List.append_subset.mp hfront
  have hmakes := steady front hf step (hs List.mem_cons_self)
  have hcalled : step.component = .kernel →
      loaderStep step.architecture profile ∈ front ++ [step] :=
    fun hk => List.mem_append_left _ (loaderStep_mem_of_kernel hplan hk)
  constructor
  · rintro ⟨outcome, loader⟩
    refine ⟨hmakes.outcome.symm.trans outcome, fun hk others hothers ho => ?_⟩
    refine hasLoader_foldl_congr free steady reaches hfront hothers (hcalled hk) ho ?_
    rw [List.foldl_concat]
    exact loader hk
  · rintro ⟨outcome, loader⟩
    refine ⟨hmakes.outcome.trans outcome, fun hk => ?_⟩
    have hfound := loader hk (front ++ [step]) hfront (hcalled hk)
    rwa [List.foldl_concat] at hfound

/-- The build of some architectures succeeds exactly if each of their calls passes, which is no
matter of the order. -/
theorem build_eq_ok_iff {architectures : List Architecture}
    (registered : architectures ⊆ Architecture.registered) :
    ((bench.build architectures profile).effect scene).1 = .ok () ↔
      ∀ step ∈ bench.plan profile architectures, bench.Passes profile scene products step := by
  obtain ⟨performed, hfollowed⟩ := followed bench profile architectures scene
  constructor
  · intro hok step hs
    obtain ⟨rfl, hsucceeds⟩ := hfollowed.eq_ok_iff.mp hok
    obtain ⟨front, back, hplan⟩ := List.append_of_mem hs
    exact (succeeds_iff_passes free steady reaches registered hplan).mp
      (hsucceeds front step back hplan)
  · intro hpasses
    cases hout : ((bench.build architectures profile).effect scene).1 with
    | ok value => rfl
    | error error =>
      obtain ⟨front, step, rfl, hfails⟩ := hfollowed.eq_error_iff.mp hout
      obtain ⟨back, hplan⟩ := hfollowed.performed_prefix
      rw [List.append_assoc, List.singleton_append] at hplan
      have hs : step ∈ bench.plan profile architectures := by simp [← hplan]
      have hsucceeds := (succeeds_iff_passes free steady reaches registered hplan.symm).mpr
        (hpasses step hs)
      exact absurd hsucceeds hfails.not_succeeds

/-- A build that succeeds leaves what its calls leave, and if it has made any, the directory of all
that is built. -/
theorem build_leaves {architectures : List Architecture} {left : Scene}
    (registered : architectures ⊆ Architecture.registered)
    (hbuild : (bench.build architectures profile).effect scene = (.ok (), left)) :
    left.tree = ((bench.plan profile architectures).foldl bench.built scene).tree ∧
      (architectures ≠ [] → left.tree.get? target = some .directory) := by
  obtain ⟨performed, hfollowed⟩ := followed bench profile architectures scene
  rw [hbuild] at hfollowed
  obtain ⟨rfl, -⟩ := hfollowed.eq_ok_iff.mp rfl
  obtain rfl := hfollowed.left_eq
  refine ⟨rfl, fun hne => ?_⟩
  obtain ⟨architecture, ha⟩ := List.exists_mem_of_ne_nil _ hne
  have hsub := @plan_subset bench profile _ _ registered
  have hpasses := (build_eq_ok_iff free steady reaches registered).mp
    (congrArg Prod.fst hbuild) _ (kernelStep_mem_plan ha)
  have hfound := hpasses.loader rfl _ hsub (loaderStep_mem_plan ha)
  obtain ⟨-, he, -⟩ :=
    (hasLoader_foldl_iff free steady reaches hsub (registered ha)).mp hfound
  exact Tree.get?_of_entered he

/-- Builds of the same architectures end alike, whatever the order and however often. -/
theorem effect_build_congr {architectures others : List Architecture}
    (registered : architectures ⊆ Architecture.registered)
    (same : ∀ architecture, architecture ∈ architectures ↔ architecture ∈ others) :
    (((bench.build architectures profile).effect scene).1 = .ok () ↔
        ((bench.build others profile).effect scene).1 = .ok ()) ∧
      (((bench.build architectures profile).effect scene).1 = .ok () →
        ((bench.build architectures profile).effect scene).2.tree =
          ((bench.build others profile).effect scene).2.tree) := by
  have registered' : others ⊆ Architecture.registered :=
    fun architecture ha => registered ((same architecture).mpr ha)
  have hplan : ∀ step, step ∈ bench.plan profile architectures ↔
      step ∈ bench.plan profile others := by
    simp only [plan, List.mem_flatMap, same, implies_true]
  have hiff : ((bench.build architectures profile).effect scene).1 = .ok () ↔
      ((bench.build others profile).effect scene).1 = .ok () := by
    rw [build_eq_ok_iff free steady reaches registered,
      build_eq_ok_iff free steady reaches registered']
    simp only [hplan]
  refine ⟨hiff, fun hok => ?_⟩
  obtain ⟨hleft, hd⟩ := build_leaves free steady reaches registered (Prod.ext hok rfl)
  obtain ⟨hleft', hd'⟩ :=
    build_leaves free steady reaches registered' (Prod.ext (hiff.mp hok) rfl)
  rcases eq_or_ne architectures [] with rfl | hne
  · obtain rfl : others = [] := List.eq_nil_iff_forall_not_mem.mpr fun architecture ha => by
      simpa using (same architecture).mpr ha
    rfl
  · have hne' : others ≠ [] := by
      obtain ⟨architecture, ha⟩ := List.exists_mem_of_ne_nil _ hne
      exact List.ne_nil_of_mem ((same architecture).mp ha)
    rw [hleft, hleft']
    exact tree_foldl_congr steady (plan_subset registered) (plan_subset registered') hplan
      free (hleft ▸ hd hne) (hleft' ▸ hd' hne')

end

end Workbench

/-- Of two runs both succeed or neither does, and if they do they leave the same files. -/
def Action.EndsAlike (first second : Action Unit) (machine : Machine) : Prop :=
  ((first.run machine).1 = .ok () ↔ (second.run machine).1 = .ok ()) ∧
    ((first.run machine).1 = .ok () →
      (first.run machine).2.tree = (second.run machine).2.tree)

namespace Workbench

open Bootstage.Action

variable {bench : Workbench} {profile : BuildProfile} {target : Location}
  {products : BuildRequest → Product} {machine : Machine}

/-- Two builds in a row are one build. -/
theorem build_append (bench : Workbench) (profile : BuildProfile)
    (architectures others : List Architecture) :
    bench.build (architectures ++ others) profile =
      (do bench.build architectures profile; bench.build others profile) :=
  List.forM_append

/-- Whether a build succeeds and which files it then leaves depends on the set of its architectures
alone: the order plays no part, nor do repetitions. To build twice is to build once, and to build
all is to build each in any order. -/
theorem build_of_same_architectures
    (free : machine.tree.LinkFree target)
    (reaches : machine.scene.Reaches bench.config.targetDir target)
    (steady : bench.Steady profile target machine.scene products) :
    (∀ architectures others : List Architecture, architectures ⊆ Architecture.registered →
      (∀ architecture, architecture ∈ architectures ↔ architecture ∈ others) →
        EndsAlike (bench.build architectures profile) (bench.build others profile) machine) ∧
    (∀ architectures : List Architecture, architectures ⊆ Architecture.registered →
      EndsAlike (do bench.build architectures profile; bench.build architectures profile)
        (bench.build architectures profile) machine) ∧
    (∀ architectures : List Architecture,
      (∀ architecture, architecture ∈ Architecture.registered ↔ architecture ∈ architectures) →
        EndsAlike (bench.buildAll profile) (bench.build architectures profile) machine) := by
  have hall : ∀ architectures others : List Architecture,
      architectures ⊆ Architecture.registered →
        (∀ architecture, architecture ∈ architectures ↔ architecture ∈ others) →
          EndsAlike (bench.build architectures profile) (bench.build others profile) machine := by
    intro architectures others registered same
    have h := effect_build_congr free steady reaches registered same
    rw [(bench.ignoresConsole_build profile architectures).effect_scene,
      (bench.ignoresConsole_build profile others).effect_scene] at h
    exact h
  refine ⟨hall, fun architectures registered => ?_, fun architectures same => ?_⟩
  · rw [← build_append]
    exact hall _ _ (List.append_subset.mpr ⟨registered, registered⟩) (by simp)
  · exact hall _ _ (List.Subset.refl _) same

/-! ### A toolchain that makes the same again and again -/

/-- What is left in the directory of a target. -/
def minted (below : Location) : Option Entry :=
  if below = (["debug", "boot_loader.efi"] : Location) then some (.file [7])
  else if below = (["debug"] : Location) then some .directory
  else if below = [] then some .directory
  else none

/-- The files with the directory of a target made anew. -/
def mint (tree : Tree) (site : Location) : Tree :=
  (((tree.erase site).put site .directory).put (site ++ (["debug"] : Location)) .directory).put
    (site ++ (["debug", "boot_loader.efi"] : Location)) (.file [7])

/-- What is made anew is all there is below its place, and nothing else is changed. -/
theorem get?_mint {tree : Tree} {name : Name} (hd : tree.get? target = some .directory) :
    (∀ below, (mint tree (target ++ [name])).get? (target ++ name :: below) =
        minted below) ∧
      ∀ location, ¬ target ++ [name] <+: location →
        (mint tree (target ++ [name])).get? location = tree.get? location := by
  have hno : ¬ target ++ [name] <+: target := Location.below_not_prefix
  have hroot : (tree.erase (target ++ [name])).Accepts (target ++ [name]) .directory := by
    simp [Tree.Accepts, Tree.get?_erase, hd, hno]
  have hmiddle : ((tree.erase (target ++ [name])).put (target ++ [name]) .directory).Accepts
      (target ++ [name, "debug"]) .directory := by
    simp [Tree.Accepts, Tree.get?_put hroot]
  have hfile : (((tree.erase (target ++ [name])).put (target ++ [name]) .directory).put
      (target ++ [name, "debug"]) .directory).Accepts
        (target ++ [name, "debug", "boot_loader.efi"]) (.file [7]) := by
    simp [Tree.Accepts, Tree.get?_put hmiddle, Tree.get?_put hroot, Tree.get?_erase]
  have hmint : ∀ location, (mint tree (target ++ [name])).get? location = _ := fun location => by
    rw [mint, List.append_assoc, List.append_assoc, List.singleton_append, List.singleton_append,
      Tree.get?_put hfile, Tree.get?_put hmiddle, Tree.get?_put hroot, Tree.get?_erase]
  refine ⟨fun below => ?_, fun location hn => ?_⟩
  · simp [hmint, minted]
  · have hne : ∀ below, location ≠ target ++ name :: below :=
      fun below he => hn ⟨below, by simp [he]⟩
    simp [hmint, hne, hn]

theorem minted_ne_link (below : Location) (text : Text.Bytes) :
    minted below ≠ some (.link text) := by
  unfold minted
  split_ifs <;> simp

/-- A workbench for the small workspace, whose toolchain has nothing to do for some targets. -/
def mintery (targetDir : String) (idle : List String) : Workbench :=
  { sample with
    config := { Config.defaults ⟨"/w"⟩ with targetDir := ⟨targetDir⟩ }
    toolchain := {
      react := fun request scene => {
        outcome := .ok (.exited 0)
        tree := if request.target ∈ idle then scene.tree
          else mint scene.tree ["w", "target", request.target] } } }

/-- What this toolchain makes. -/
def mintage (idle : List String) (request : BuildRequest) : Product where
  outcome := .ok (.exited 0)
  artifacts below := if request.target ∈ idle then none else some (minted below)
  linkless below text := by
    split_ifs
    · simp
    · simpa using minted_ne_link below text

/-- It makes it wherever the directory of all that is built stands. -/
theorem makes_mintage {targetDir : String} {idle : List String} {scene : Scene}
    (hd : scene.tree.get? ["w", "target"] = some .directory) (step : BuildStep) :
    (mintery targetDir idle).Makes ["w", "target"] scene step (mintage idle step.request) := by
  have hbuilt : ((mintery targetDir idle).built scene step).tree =
      if step.request.target ∈ idle then scene.tree
      else mint scene.tree ((["w", "target"] : Location) ++ [(step.request.target : Name)]) := rfl
  obtain ⟨hbelow, helse⟩ := @get?_mint ["w", "target"] scene.tree step.request.target hd
  refine ⟨rfl, fun below => ?_, fun location hn => .inl ?_⟩ <;> rw [hbuilt] <;> split_ifs with hidle
  · simp [mintage, hidle]
  · rw [hbelow, mintage]
    simp [hidle]
  · rfl
  · exact helse location hn

/-- Whatever has been built before, the directory of all that is built stays. -/
private theorem get?_foldl_mintery (targetDir : String) (idle : List String)
    (front : List BuildStep) :
    (front.foldl (mintery targetDir idle).built sampleMachine.scene).tree.get? ["w", "target"] =
      some .directory := by
  induction front using List.reverseRecOn with
  | nil =>
    show sampleTree.get? ["w", "target"] = some .directory
    decide +kernel
  | append_singleton front last ih =>
    have hmakes : (mintery targetDir idle).Makes ["w", "target"] _ last _ :=
      makes_mintage ih last
    rw [List.foldl_concat]
    rcases hmakes.confined ["w", "target"] (by simp) with hs | ⟨-, -, hd⟩
    · exact hs.trans ih
    · exact hd

/-- Whatever has been built before, this toolchain makes the same. -/
theorem steady_mintery (targetDir : String) (idle : List String) :
    (mintery targetDir idle).Steady .debug ["w", "target"] sampleMachine.scene (mintage idle) :=
  fun front _ step _ => makes_mintage (get?_foldl_mintery targetDir idle front) step

/-- In the small workspace the boot loaders of both architectures are built, in whatever order. -/
theorem build_of_same_architectures_sample :
    (((mintery "/w/target" []).build [.x86_64, .aarch64, .x86_64] .debug).run sampleMachine).1 =
        .ok () ∧
      EndsAlike ((mintery "/w/target" []).build [.x86_64, .aarch64, .x86_64] .debug)
        ((mintery "/w/target" []).build [.aarch64, .x86_64] .debug) sampleMachine := by
  have free : sampleMachine.tree.LinkFree ["w", "target"] := by decide +kernel
  have reaches : sampleMachine.scene.Reaches (mintery "/w/target" []).config.targetDir
      ["w", "target"] :=
    .of_straight ⟨by decide +kernel, by decide +kernel, by decide +kernel⟩
      fun ha => absurd ha (by decide +kernel)
  obtain ⟨horder, -, -⟩ := build_of_same_architectures free reaches (steady_mintery "/w/target" [])
  exact ⟨by decide +kernel, horder _ _ (by decide) fun architecture => by simp; tauto⟩

/-- A workbench that looks for what is built on a detour through what is built for one architecture,
and whose toolchain has nothing to do for the other. -/
def detouring : Workbench :=
  mintery "/w/target/aarch64-unknown-none/../../target"
    ["x86_64-unknown-uefi", "x86_64-unknown-none"]

/-- An old boot loader of the one architecture is found only after the other has been built. -/
theorem build_order_counts :
    sampleMachine.tree.LinkFree ["w", "target"] ∧
      detouring.Steady .debug ["w", "target"] sampleMachine.scene
        (mintage ["x86_64-unknown-uefi", "x86_64-unknown-none"]) ∧
      ((detouring.build [.x86_64, .aarch64] .debug).run sampleMachine).1 =
        .error (.staging "x86_64" (detouring.config.loader .x86_64 .debug)
          (.described "boot loader missing after a successful build")) ∧
      ((detouring.build [.aarch64, .x86_64] .debug).run sampleMachine).1 = .ok () ∧
      ((detouring.build [.aarch64, .x86_64] .debug).run sampleMachine).2.tree.entered (some ["w"])
        detouring.config.targetDir = .ok ["w", "target"] :=
  ⟨by decide +kernel, steady_mintery _ _, by decide +kernel, by decide +kernel⟩

end Workbench

end Bootstage
