import Bootstage.Proofs.Machine.Scenes

/-!
# The course of a build

A build of architectures is a plan of calls on the toolchain, two for each architecture. The calls
are made in order up to the first one that goes wrong, and that one decides how the build ends.
Between the calls no file is changed.
-/

namespace Bootstage

/-- One call that a build makes on the toolchain. -/
structure BuildStep where
  /-- The architecture that is built. -/
  architecture : Architecture
  /-- What is built for it. -/
  component : Component
  /-- What the toolchain is asked for. -/
  request : BuildRequest
  deriving DecidableEq, Repr

namespace Workbench

open Bootstage.Action

variable {bench : Workbench} {profile : BuildProfile}

/-- The calls that one architecture takes. -/
def steps (bench : Workbench) (profile : BuildProfile) (architecture : Architecture) :
    List BuildStep :=
  (BuildRequest.ofArchitecture architecture profile bench.config).map fun (component, request) =>
    ⟨architecture, component, request⟩

/-- The calls that a build of architectures takes, in order. -/
def plan (bench : Workbench) (profile : BuildProfile) (architectures : List Architecture) :
    List BuildStep :=
  architectures.flatMap (bench.steps profile)

/-- An architecture takes two calls: one for its boot loader and then one for its kernel. -/
theorem steps_eq (architecture : Architecture) : bench.steps profile architecture =
    [⟨architecture, .bootLoader, .loader architecture profile⟩,
      ⟨architecture, .kernel, .kernel architecture profile bench.config⟩] :=
  rfl

/-- The scene after a call. -/
def built (bench : Workbench) (scene : Scene) (step : BuildStep) : Scene :=
  scene.after (.build bench.toolchain.program step.request)
    (bench.toolchain.react step.request scene)

/-- Whether the boot loader of the architecture is where a build leaves it. -/
def hasLoader (bench : Workbench) (profile : BuildProfile) (step : BuildStep) (scene : Scene) :
    Bool :=
  scene.tree.present scene.cwd (bench.config.loader step.architecture profile)

/-- A call goes well: the toolchain exits with code zero, and after the kernel has been built the
boot loader is there. -/
structure Succeeds (bench : Workbench) (profile : BuildProfile) (scene : Scene)
    (step : BuildStep) : Prop where
  /-- The toolchain exits with code zero. -/
  outcome : (bench.toolchain.react step.request scene).outcome = .ok (.exited 0)
  /-- The boot loader is there when both calls have been made. -/
  loader : step.component = .kernel → bench.hasLoader profile step (bench.built scene step) = true

/-- A call goes wrong, and what the build ends in. -/
inductive Fails (bench : Workbench) (profile : BuildProfile) (scene : Scene) (step : BuildStep) :
    Error → Prop
  /-- The toolchain does not start. -/
  | unstarted {cause : SystemError}
      (outcome : (bench.toolchain.react step.request scene).outcome = .error cause) :
      Fails bench profile scene step (.process bench.toolchain.program cause)
  /-- The toolchain ends in failure. -/
  | failed {status : ProcessExit}
      (outcome : (bench.toolchain.react step.request scene).outcome = .ok status)
      (failure : status ≠ .exited 0) :
      Fails bench profile scene step
        (.buildFailure step.architecture.id step.component status)
  /-- The boot loader is missing when both calls have been made. -/
  | missing (outcome : (bench.toolchain.react step.request scene).outcome = .ok (.exited 0))
      (kernel : step.component = .kernel)
      (absent : bench.hasLoader profile step (bench.built scene step) = false) :
      Fails bench profile scene step
        (.staging step.architecture.id (bench.config.loader step.architecture profile)
          (.described "boot loader missing after a successful build"))

/-- A call that goes wrong does not go well, and there is one error for it. -/
theorem Fails.not_succeeds {scene : Scene} {step : BuildStep} {error : Error}
    (h : bench.Fails profile scene step error) : ¬ bench.Succeeds profile scene step := by
  intro hs
  cases h with
  | unstarted outcome => simp [hs.outcome] at outcome
  | failed outcome failure =>
    rw [hs.outcome] at outcome
    exact failure (Except.ok.inj outcome).symm
  | missing outcome kernel absent => simp [hs.loader kernel] at absent

/-- There is one error in which a call that goes wrong ends. -/
theorem Fails.eq {scene : Scene} {step : BuildStep} {error other : Error}
    (h : bench.Fails profile scene step error) (h' : bench.Fails profile scene step other) :
    error = other := by
  cases h <;> cases h' <;> simp_all

/-! ### Following the plan -/

/-- How a plan is followed: the calls that are made, the outcome and the scene that is left. -/
inductive Followed (bench : Workbench) (profile : BuildProfile) :
    List BuildStep → Scene → List BuildStep → Except Error Unit → Scene → Prop
  /-- Nothing is left to do. -/
  | done {scene : Scene} : Followed bench profile [] scene [] (.ok ()) scene
  /-- A call goes wrong, and nothing follows. -/
  | stopped {scene : Scene} {step : BuildStep} {rest : List BuildStep} {error : Error}
      (fails : bench.Fails profile scene step error) :
      Followed bench profile (step :: rest) scene [step] (.error error) (bench.built scene step)
  /-- A call goes well, and the rest follows. -/
  | passed {scene left : Scene} {step : BuildStep} {rest performed : List BuildStep}
      {outcome : Except Error Unit} (succeeds : bench.Succeeds profile scene step)
      (tail : Followed bench profile rest (bench.built scene step) performed outcome left) :
      Followed bench profile (step :: rest) scene (step :: performed) outcome left

namespace Followed

variable {plan performed : List BuildStep} {scene left : Scene} {outcome : Except Error Unit}

/-- The calls are the first of the plan. -/
theorem performed_prefix (h : bench.Followed profile plan scene performed outcome left) :
    performed <+: plan := by
  induction h with
  | done => exact List.prefix_rfl
  | stopped fails => exact List.cons_prefix_cons.mpr ⟨rfl, List.nil_prefix⟩
  | passed succeeds tail ih => exact List.cons_prefix_cons.mpr ⟨rfl, ih⟩

/-- The scene is made by the calls alone. -/
theorem left_eq (h : bench.Followed profile plan scene performed outcome left) :
    left = performed.foldl bench.built scene := by
  induction h with
  | done => rfl
  | stopped fails => rfl
  | passed succeeds tail ih => exact ih

/-- Whatever is followed by another call has gone well. -/
theorem succeeds_of_append (h : bench.Followed profile plan scene performed outcome left)
    {front rest : List BuildStep} {step next : BuildStep}
    (hp : performed = front ++ step :: next :: rest) :
    bench.Succeeds profile (front.foldl bench.built scene) step := by
  induction h generalizing front with
  | done => simp at hp
  | stopped fails =>
    have hlen := congrArg List.length hp
    simp only [List.length_append, List.length_cons, List.length_nil] at hlen
    omega
  | passed succeeds tail ih =>
    rcases List.cons_eq_append_iff.mp hp with ⟨rfl, hrest⟩ | ⟨others, rfl, hrest⟩
    · obtain ⟨rfl, -⟩ := List.cons.inj hrest
      exact succeeds
    · exact ih hrest

/-- A success means that all calls have been made and have gone well. -/
theorem eq_ok_iff (h : bench.Followed profile plan scene performed outcome left) :
    outcome = .ok () ↔ performed = plan ∧ ∀ front step rest, performed = front ++ step :: rest →
      bench.Succeeds profile (front.foldl bench.built scene) step := by
  induction h with
  | done => simp
  | @stopped scene step rest error fails =>
    refine ⟨fun h => by simp at h, fun ⟨_, hall⟩ => ?_⟩
    exact absurd (hall [] step [] rfl) fails.not_succeeds
  | @passed scene left step rest performed outcome succeeds tail ih =>
    rw [ih]
    constructor
    · rintro ⟨rfl, hall⟩
      refine ⟨rfl, fun front other rest hp => ?_⟩
      rcases List.cons_eq_append_iff.mp hp with ⟨rfl, hrest⟩ | ⟨others, rfl, hrest⟩
      · obtain ⟨rfl, -⟩ := List.cons.inj hrest
        exact succeeds
      · exact hall others other rest hrest
    · rintro ⟨hp, hall⟩
      refine ⟨(List.cons.inj hp).2, fun front other rest hp => ?_⟩
      exact hall (step :: front) other rest (by rw [hp, List.cons_append])

/-- A failure is that of the last call. -/
theorem eq_error_iff (h : bench.Followed profile plan scene performed outcome left)
    {error : Error} :
    outcome = .error error ↔ ∃ front step, performed = front ++ [step] ∧
      bench.Fails profile (front.foldl bench.built scene) step error := by
  induction h with
  | done => simp
  | @stopped scene step rest found fails =>
    constructor
    · intro he
      obtain rfl := Except.error.inj he
      exact ⟨[], step, rfl, fails⟩
    · rintro ⟨front, other, hp, hf⟩
      rcases List.cons_eq_append_iff.mp hp with ⟨rfl, hrest⟩ | ⟨others, rfl, hrest⟩
      · obtain ⟨rfl, -⟩ := List.cons.inj hrest
        rw [fails.eq hf]
      · simp at hrest
  | @passed scene left step rest performed outcome succeeds tail ih =>
    rw [ih]
    constructor
    · rintro ⟨front, other, rfl, hf⟩
      exact ⟨step :: front, other, rfl, hf⟩
    · rintro ⟨front, other, hp, hf⟩
      rcases List.cons_eq_append_iff.mp hp with ⟨rfl, hrest⟩ | ⟨others, rfl, hrest⟩
      · obtain ⟨rfl, -⟩ := List.cons.inj hrest
        exact absurd succeeds hf.not_succeeds
      · exact ⟨others, other, hrest, hf⟩

end Followed

/-! ### Builds follow their plans -/

variable (bench profile)

/-- What the build of one component does. -/
theorem effect_buildComponent (architecture : Architecture) (component : Component)
    (request : BuildRequest) (scene : Scene) :
    (bench.buildComponent architecture profile component request).effect scene =
      (match (bench.toolchain.react request scene).outcome with
        | .error cause => .error (.process bench.toolchain.program cause)
        | .ok status =>
          if status.success then .ok ()
            else .error (.buildFailure architecture.id component status),
        bench.built scene ⟨architecture, component, request⟩) := by
  have hlast : ∀ status : ProcessExit, IgnoresConsole
      (if status.success then pure ()
        else fail (.buildFailure architecture.id component status)) := by
    intro status
    split <;> simp
  rw [buildComponent, effect_say_bind (.bind (.engage _ _ _) hlast), effect_bind hlast,
    effect_engage]
  simp only [built]
  cases (bench.toolchain.react request scene).outcome with
  | error cause => rfl
  | ok status =>
    simp only [Except.mapError_ok]
    split <;> rfl

/-- What the look for the boot loader does. -/
theorem effect_requireLoader (architecture : Architecture) (scene : Scene) :
    (bench.requireLoader architecture profile).effect scene =
      (if scene.tree.present scene.cwd (bench.config.loader architecture profile) then .ok ()
        else .error (.staging architecture.id (bench.config.loader architecture profile)
          (.described "boot loader missing after a successful build")), scene) := by
  have hlast : ∀ shown : Bool, IgnoresConsole
      (if shown then pure ()
        else fail (.staging architecture.id (bench.config.loader architecture profile)
          (.described "boot loader missing after a successful build"))) := by
    intro shown
    split <;> simp
  rw [requireLoader, effect_bind hlast, effect_look]
  dsimp only
  split <;> rfl

/-- A component is built, or its call goes wrong. -/
theorem buildComponent_cases (step : BuildStep) (scene : Scene) :
    (∃ error, bench.Fails profile scene step error ∧
        (bench.buildComponent step.architecture profile step.component step.request).effect scene =
          (.error error, bench.built scene step)) ∨
      (bench.toolchain.react step.request scene).outcome = .ok (.exited 0) ∧
        (bench.buildComponent step.architecture profile step.component step.request).effect scene =
          (.ok (), bench.built scene step) := by
  rw [effect_buildComponent]
  cases ho : (bench.toolchain.react step.request scene).outcome with
  | error cause => exact .inl ⟨_, .unstarted ho, rfl⟩
  | ok status =>
    by_cases hs : status = .exited 0
    · subst hs
      exact .inr ⟨rfl, rfl⟩
    · have hfalse : status.success = false := by simpa [ProcessExit.success] using hs
      exact .inl ⟨_, .failed ho hs, by simp [hfalse]⟩

/-- One architecture takes its two calls, and what follows takes the rest of the plan. -/
theorem followed_cons (architecture : Architecture) {next : Action Unit}
    (hnext : next.IgnoresConsole) {rest : List BuildStep}
    (h : ∀ scene, ∃ performed, bench.Followed profile rest scene performed (next.effect scene).1
      (next.effect scene).2) (scene : Scene) :
    ∃ performed, bench.Followed profile (bench.steps profile architecture ++ rest) scene performed
      ((bench.buildOne profile architecture >>= fun _ => next).effect scene).1
      ((bench.buildOne profile architecture >>= fun _ => next).effect scene).2 := by
  let loader : BuildStep := ⟨architecture, .bootLoader, .loader architecture profile⟩
  let kernel : BuildStep := ⟨architecture, .kernel, .kernel architecture profile bench.config⟩
  have hsteps : bench.steps profile architecture ++ rest = loader :: kernel :: rest :=
    congrArg (· ++ rest) (steps_eq architecture)
  have hone : (bench.buildOne profile architecture).effect scene =
      (bench.buildComponent loader.architecture profile loader.component loader.request >>=
        fun _ =>
          bench.buildComponent kernel.architecture profile kernel.component kernel.request >>=
          fun _ => bench.requireLoader architecture profile).effect scene := by
    rw [buildOne, effect_timed]
    simp [BuildRequest.ofArchitecture, loader, kernel]
  rw [hsteps, effect_bind fun _ => hnext, hone, effect_bind (by simp)]
  rcases bench.buildComponent_cases profile loader scene with
    ⟨error, hfails, heffect⟩ | ⟨hloader, heffect⟩
  · rw [heffect]
    exact ⟨_, .stopped hfails⟩
  rw [heffect]
  dsimp only
  rw [effect_bind (by simp)]
  have hsucceeds : bench.Succeeds profile scene loader :=
    ⟨hloader, fun hk => by simp [loader] at hk⟩
  rcases bench.buildComponent_cases profile kernel (bench.built scene loader) with
    ⟨error, hfails, heffect⟩ | ⟨hkernel, heffect⟩
  · rw [heffect]
    exact ⟨_, .passed hsucceeds (.stopped hfails)⟩
  rw [heffect]
  dsimp only
  rw [effect_requireLoader]
  cases hp : bench.hasLoader profile kernel (bench.built (bench.built scene loader) kernel) with
  | false =>
    have hmissing := Fails.missing hkernel rfl hp
    unfold hasLoader at hp
    rw [hp]
    exact ⟨_, .passed hsucceeds (.stopped hmissing)⟩
  | true =>
    have hgood : bench.Succeeds profile (bench.built scene loader) kernel := ⟨hkernel, fun _ => hp⟩
    obtain ⟨performed, hperformed⟩ := h (bench.built (bench.built scene loader) kernel)
    unfold hasLoader at hp
    rw [hp]
    exact ⟨_, .passed hsucceeds (.passed hgood hperformed)⟩

/-- A build follows its plan. -/
theorem followed (architectures : List Architecture) (scene : Scene) :
    ∃ performed, bench.Followed profile (bench.plan profile architectures) scene performed
      ((bench.build architectures profile).effect scene).1
      ((bench.build architectures profile).effect scene).2 := by
  induction architectures generalizing scene with
  | nil => exact ⟨[], .done⟩
  | cons architecture rest ih =>
    exact followed_cons bench profile architecture (ignoresConsole_build bench profile rest) ih
      scene

/-- The account of a build that made the given calls. -/
structure Account (bench : Workbench) (profile : BuildProfile) (architectures : List Architecture)
    (machine : Machine) (performed : List BuildStep) (outcome : Except Error Unit)
    (left : Machine) : Prop where
  /-- The plan takes the architectures in order, the boot loader of each before its kernel. -/
  ordered : bench.plan profile architectures = architectures.flatMap fun architecture =>
    [⟨architecture, .bootLoader, .loader architecture profile⟩,
      ⟨architecture, .kernel, .kernel architecture profile bench.config⟩]
  /-- The calls are the first of the plan. -/
  planned : performed <+: bench.plan profile architectures
  /-- Each of them is one of the two that its architecture takes. -/
  requests : ∀ step ∈ performed, step.architecture ∈ architectures ∧
    (step.component, step.request) ∈
      BuildRequest.ofArchitecture step.architecture profile bench.config
  /-- The scene is made by the calls alone. -/
  scene : left.scene = performed.foldl bench.built machine.scene
  /-- No file is changed that the toolchain does not change. -/
  files : (∀ request scene, (bench.toolchain.react request scene).tree = scene.tree) →
    left.tree = machine.tree
  /-- No call is made but these. -/
  calls : (∀ request scene, (bench.toolchain.react request scene).starts = []) →
    left.calls = machine.calls ++
      performed.map fun step => .build bench.toolchain.program step.request
  /-- Whatever is followed by another call has gone well. -/
  continued : ∀ front step next rest, performed = front ++ step :: next :: rest →
    bench.Succeeds profile (front.foldl bench.built machine.scene) step
  /-- A success means that all calls have been made and have gone well. -/
  ok_iff : outcome = .ok () ↔ performed = bench.plan profile architectures ∧
    ∀ front step rest, performed = front ++ step :: rest →
      bench.Succeeds profile (front.foldl bench.built machine.scene) step
  /-- A failure is that of the last call. -/
  error_iff : ∀ error, outcome = .error error ↔ ∃ front step, performed = front ++ [step] ∧
    bench.Fails profile (front.foldl bench.built machine.scene) step error

variable {bench profile}

/-- Every step of a plan is one of the two that its architecture takes. -/
theorem mem_plan {architectures : List Architecture} {step : BuildStep}
    (h : step ∈ bench.plan profile architectures) :
    step.architecture ∈ architectures ∧
      (step.component, step.request) ∈
        BuildRequest.ofArchitecture step.architecture profile bench.config := by
  obtain ⟨architecture, ha, hs⟩ := List.mem_flatMap.mp h
  obtain ⟨⟨component, request⟩, hr, rfl⟩ := List.mem_map.mp hs
  exact ⟨ha, hr⟩

/-- A toolchain that changes no file changes none in any number of calls. -/
theorem tree_foldl_built
    (h : ∀ request scene, (bench.toolchain.react request scene).tree = scene.tree)
    (performed : List BuildStep) (scene : Scene) :
    (performed.foldl bench.built scene).tree = scene.tree := by
  induction performed generalizing scene with
  | nil => rfl
  | cons step rest ih => rw [List.foldl_cons, ih, built, Scene.tree_after, h]

/-- The calls of a toolchain that starts nothing else are those that it was asked for. -/
theorem calls_foldl_built (h : ∀ request scene, (bench.toolchain.react request scene).starts = [])
    (performed : List BuildStep) (scene : Scene) :
    (performed.foldl bench.built scene).calls = scene.calls ++
      performed.map fun step => .build bench.toolchain.program step.request := by
  induction performed generalizing scene with
  | nil => simp
  | cons step rest ih =>
    rw [List.foldl_cons, ih, built, Scene.calls_after, h, List.map_cons, List.append_assoc]
    rfl

/-- A build makes the calls of its plan up to the first that goes wrong, which decides its end. -/
theorem build_account (bench : Workbench) (profile : BuildProfile)
    (architectures : List Architecture) (machine : Machine) :
    (∃ performed, bench.Account profile architectures machine performed
        ((bench.build architectures profile).run machine).1
        ((bench.build architectures profile).run machine).2) ∧
      ∃ performed, bench.Account profile Architecture.registered machine performed
        ((bench.buildAll profile).run machine).1 ((bench.buildAll profile).run machine).2 := by
  have haccount : ∀ architectures, ∃ performed,
      bench.Account profile architectures machine performed
        ((bench.build architectures profile).run machine).1
        ((bench.build architectures profile).run machine).2 := by
    intro architectures
    have hrun := (bench.ignoresConsole_build profile architectures).effect_scene machine
    obtain ⟨performed, hfollowed⟩ := followed bench profile architectures machine.scene
    rw [hrun] at hfollowed
    have hordered := congrArg architectures.flatMap (funext (@steps_eq bench profile))
    refine ⟨performed, hordered, hfollowed.performed_prefix,
      fun step hs => mem_plan (hfollowed.performed_prefix.subset hs), hfollowed.left_eq, ?_, ?_,
      fun front step next rest hp => hfollowed.succeeds_of_append hp, hfollowed.eq_ok_iff,
      fun error => hfollowed.eq_error_iff⟩
    · intro h
      have ht := congrArg Scene.tree hfollowed.left_eq
      rwa [tree_foldl_built h] at ht
    · intro h
      have hc := congrArg Scene.calls hfollowed.left_eq
      rwa [calls_foldl_built h] at hc
  exact ⟨haccount architectures, haccount Architecture.registered⟩

end Workbench

end Bootstage
