import Bootstage.Workbench

/-!
# Runs as changes of the scene

The scene of a machine is all of it but its console. What an action does is followed here from
scene to scene. No action of the workbench heeds the console: on machines with one scene it has one
outcome and leaves one scene.
-/

namespace Bootstage

@[simp] theorem Except.mapError_ok {ε ε' α : Type} (f : ε → ε') (value : α) :
    (Except.ok value : Except ε α).mapError f = .ok value := rfl

@[simp] theorem Except.mapError_error {ε ε' α : Type} (f : ε → ε') (error : ε) :
    (Except.error error : Except ε α).mapError f = .error (f error) := rfl

namespace Scene

/-- The scene with other files; a working directory that is not among them has been removed. -/
def withTree (scene : Scene) (tree : Tree) : Scene :=
  { scene with tree, cwd := tree.held scene.cwd }

/-- The scene after a call to which a collaborator reacted. -/
def after {α : Type} (scene : Scene) (call : Call) (reaction : Reaction α) : Scene :=
  { scene.withTree reaction.tree with calls := scene.calls ++ call :: reaction.starts }

@[simp] theorem tree_withTree (scene : Scene) (tree : Tree) :
    (scene.withTree tree).tree = tree := rfl

@[simp] theorem cwd_withTree (scene : Scene) (tree : Tree) :
    (scene.withTree tree).cwd = tree.held scene.cwd := rfl

@[simp] theorem calls_withTree (scene : Scene) (tree : Tree) :
    (scene.withTree tree).calls = scene.calls := rfl

@[simp] theorem tree_after {α : Type} (scene : Scene) (call : Call) (reaction : Reaction α) :
    (scene.after call reaction).tree = reaction.tree := rfl

@[simp] theorem calls_after {α : Type} (scene : Scene) (call : Call) (reaction : Reaction α) :
    (scene.after call reaction).calls = scene.calls ++ call :: reaction.starts := rfl

end Scene

namespace Machine

@[simp] theorem scene_remark (machine : Machine) (remark : Remark) :
    (machine.remark remark).scene = machine.scene := by
  unfold Machine.remark
  split <;> rfl

@[simp] theorem scene_withTree (machine : Machine) (tree : Tree) :
    (machine.withTree tree).scene = machine.scene.withTree tree := rfl

/-- A collaborator sees none of several remarks. -/
private theorem scene_foldl_remark (remarks : List Remark) (machine : Machine) :
    (remarks.foldl remark machine).scene = machine.scene := by
  induction remarks generalizing machine with
  | nil => rfl
  | cons first remarks ih => rw [List.foldl_cons, ih, scene_remark]

/-- What a collaborator sees after a call was done by that call. -/
@[simp] theorem scene_after {α : Type} (machine : Machine) (call : Call) (reaction : Reaction α) :
    (machine.after call reaction).scene = machine.scene.after call reaction := by
  unfold Machine.after
  rw [scene_foldl_remark]
  rfl

end Machine

namespace Action

theorem run_timed {α : Type} (label : String) (action : Action α) (machine : Machine) :
    (timed label action).run machine =
      ((action.run machine).1, (action.run machine).2.remark (.timed label)) := rfl

theorem run_engage {α ε : Type} (call : Call) (react : Scene → Reaction (Except ε α))
    (toError : ε → Error) (machine : Machine) :
    (engage call react toError).run machine =
      ((react machine.scene).outcome.mapError toError,
        machine.after call (react machine.scene)) := rfl

/-! ### The console is not heeded -/

/-- On machines with one scene the action has one outcome and leaves one scene. -/
def IgnoresConsole {α : Type} (action : Action α) : Prop :=
  ∀ left right : Machine, left.scene = right.scene →
    (action.run left).1 = (action.run right).1 ∧
      (action.run left).2.scene = (action.run right).2.scene

namespace IgnoresConsole

variable {α β ε : Type}

@[simp] protected theorem pure (value : α) : IgnoresConsole (pure value) :=
  fun _ _ h => ⟨rfl, h⟩

@[simp] protected theorem fail (error : Error) : IgnoresConsole (fail error : Action α) :=
  fun _ _ h => ⟨rfl, h⟩

@[simp] protected theorem ofExcept (outcome : Except Error α) :
    IgnoresConsole (ofExcept outcome) :=
  fun _ _ h => ⟨rfl, h⟩

@[simp] protected theorem say (least : Verbosity) (text : String) :
    IgnoresConsole (say least text) := by
  intro left right h
  simp [h]

/-- A duration that is told changes nothing else. -/
@[simp] protected theorem timed {action : Action α} (h : action.IgnoresConsole) (label : String) :
    (timed label action).IgnoresConsole := by
  intro left right hs
  simpa [run_timed] using h left right hs

@[simp] protected theorem look (view : Tree → Option Location → α) :
    (look view).IgnoresConsole := by
  intro left right h
  have ht : left.tree = right.tree := congrArg Scene.tree h
  have hc : left.cwd = right.cwd := congrArg Scene.cwd h
  simp [h, ht, hc]

/-- What an operation does to the files does not depend on the console. -/
@[simp] protected theorem onFiles
    (operation : Tree → Option Location → Except SystemError Unit × Tree)
    (toError : SystemError → Error) : (onFiles operation toError).IgnoresConsole := by
  intro left right h
  have ht : left.tree = right.tree := congrArg Scene.tree h
  have hc : left.cwd = right.cwd := congrArg Scene.cwd h
  simp [run_onFiles, h, ht, hc]

@[simp] protected theorem onFilesAtOnce
    (operation : Tree → Option Location → Except SystemError Tree)
    (toError : SystemError → Error) : (onFilesAtOnce operation toError).IgnoresConsole :=
  .onFiles _ _

/-- What a collaborator does in a call does not depend on the console. -/
@[simp] protected theorem engage (call : Call) (react : Scene → Reaction (Except ε α))
    (toError : ε → Error) : (engage call react toError).IgnoresConsole := by
  intro left right h
  simp [run_engage, h]

/-- Two actions in a row ignore the console if each of them does. -/
@[simp] protected theorem bind {first : Action α} {next : α → Action β}
    (hf : first.IgnoresConsole) (hn : ∀ value, (next value).IgnoresConsole) :
    (first >>= next).IgnoresConsole := by
  intro left right h
  obtain ⟨hout, hscene⟩ := hf left right h
  rw [run_bind, run_bind]
  rcases hl : first.run left with ⟨outcome, afterLeft⟩
  rcases hr : first.run right with ⟨outcome', afterRight⟩
  simp only [hl, hr] at hout hscene
  subst hout
  cases outcome with
  | error error => exact ⟨rfl, hscene⟩
  | ok value => exact hn value afterLeft afterRight hscene

@[simp] protected theorem map {action : Action α} (h : action.IgnoresConsole) (f : α → β) :
    (f <$> action).IgnoresConsole := by
  rw [map_eq_pure_bind]
  exact h.bind fun value => .pure (f value)

/-- Actions on a list ignore the console if each of them does. -/
@[simp] protected theorem forM {items : List β} {act : β → Action PUnit}
    (h : ∀ item, (act item).IgnoresConsole) : (items.forM act).IgnoresConsole := by
  induction items with
  | nil => exact .pure PUnit.unit
  | cons item items ih => exact .bind (h item) fun _ => ih

end IgnoresConsole

/-! ### Effects -/

/-- What the action does to a scene, on a machine with an empty console. -/
def effect {α : Type} (action : Action α) (scene : Scene) : Except Error α × Scene :=
  let (outcome, left) := action.run { tree := scene.tree, cwd := scene.cwd, calls := scene.calls }
  (outcome, left.scene)

variable {α β ε : Type}

/-- The effect shows on every machine. -/
theorem IgnoresConsole.effect_scene {action : Action α} (h : action.IgnoresConsole)
    (machine : Machine) :
    action.effect machine.scene = ((action.run machine).1, (action.run machine).2.scene) := by
  obtain ⟨hout, hscene⟩ := h
    { tree := machine.tree, cwd := machine.cwd, calls := machine.calls } machine rfl
  exact Prod.ext hout hscene

/-- The effect on a scene is the outcome of every run on a machine with that scene. -/
theorem IgnoresConsole.run_of_effect {action : Action α} (h : action.IgnoresConsole)
    {machine : Machine} {outcome : Except Error α} {left : Scene}
    (he : action.effect machine.scene = (outcome, left)) :
    (action.run machine).1 = outcome ∧ (action.run machine).2.scene = left := by
  rw [h.effect_scene] at he
  exact ⟨(Prod.mk.inj he).1, (Prod.mk.inj he).2⟩

/-- Every run shows the effect. -/
theorem IgnoresConsole.effect_of_run {action : Action α} (h : action.IgnoresConsole)
    {machine left : Machine} {outcome : Except Error α}
    (hr : action.run machine = (outcome, left)) :
    action.effect machine.scene = (outcome, left.scene) := by
  rw [h.effect_scene, hr]

@[simp] theorem effect_pure (value : α) (scene : Scene) :
    (pure value : Action α).effect scene = (.ok value, scene) := rfl

@[simp] theorem effect_ofExcept (outcome : Except Error α) (scene : Scene) :
    (ofExcept outcome).effect scene = (outcome, scene) := rfl

@[simp] theorem effect_look (view : Tree → Option Location → α) (scene : Scene) :
    (look view).effect scene = (.ok (view scene.tree scene.cwd), scene) := rfl

@[simp] theorem effect_say (least : Verbosity) (text : String) (scene : Scene) :
    (say least text).effect scene = (.ok (), scene) := by
  simp only [effect, run_say, Machine.scene_remark]
  rfl

@[simp] theorem effect_timed (label : String) (action : Action α) (scene : Scene) :
    (timed label action).effect scene = action.effect scene := by
  simp [effect, run_timed]

/-- An operation on the files leaves them as it makes them, and the calls as they were. -/
theorem effect_onFiles (operation : Tree → Option Location → Except SystemError Unit × Tree)
    (toError : SystemError → Error) (scene : Scene) :
    (onFiles operation toError).effect scene =
      ((operation scene.tree scene.cwd).1.mapError toError,
        scene.withTree (operation scene.tree scene.cwd).2) := rfl

/-- A file operation that changes nothing when it fails. -/
theorem effect_onFilesAtOnce (operation : Tree → Option Location → Except SystemError Tree)
    (toError : SystemError → Error) (scene : Scene) :
    (onFilesAtOnce operation toError).effect scene =
      match operation scene.tree scene.cwd with
      | .ok changed => (.ok (), scene.withTree changed)
      | .error cause => (.error (toError cause), scene.withTree scene.tree) := by
  rw [onFilesAtOnce, effect_onFiles]
  cases operation scene.tree scene.cwd <;> rfl

/-- A call leaves the scene that the collaborator makes of it. -/
theorem effect_engage (call : Call) (react : Scene → Reaction (Except ε α))
    (toError : ε → Error) (scene : Scene) :
    (engage call react toError).effect scene =
      ((react scene).outcome.mapError toError, scene.after call (react scene)) := by
  simp only [effect, run_engage, Machine.scene_after]
  rfl

/-- What follows acts on the scene that is left, if the first action succeeds. -/
theorem effect_bind {first : Action α} {next : α → Action β}
    (hn : ∀ value, (next value).IgnoresConsole) (scene : Scene) :
    (first >>= next).effect scene =
      match first.effect scene with
      | (.ok value, left) => (next value).effect left
      | (.error error, left) => (.error error, left) := by
  simp only [effect, run_bind]
  rcases first.run { tree := scene.tree, cwd := scene.cwd, calls := scene.calls } with
    ⟨error | value, left⟩
  · rfl
  · exact ((hn value).effect_scene left).symm

/-- What is said first has no effect. -/
@[simp] theorem effect_say_bind {next : Unit → Action α} (hn : (next ()).IgnoresConsole)
    (least : Verbosity) (text : String) (scene : Scene) :
    (say least text >>= next).effect scene = (next ()).effect scene := by
  rw [effect_bind fun _ => hn, effect_say]

/-- Actions on a list are taken in order. -/
theorem effect_forM_cons {act : β → Action PUnit} (h : ∀ item, (act item).IgnoresConsole)
    (item : β) (items : List β) (scene : Scene) :
    ((item :: items).forM act).effect scene =
      match (act item).effect scene with
      | (.ok _, left) => (items.forM act).effect left
      | (.error error, left) => (.error error, left) := by
  have hcons : (item :: items).forM act = (act item >>= fun _ => items.forM act) := rfl
  rw [hcons, effect_bind fun _ => .forM h]
  rcases (act item).effect scene with ⟨error | value, left⟩ <;> rfl

/-- A success of two actions in a row consists of a success of each. -/
theorem effect_bind_eq_ok_iff {first : Action α} {next : α → Action β}
    (hn : ∀ value, (next value).IgnoresConsole) {scene left : Scene} {value : β} :
    (first >>= next).effect scene = (.ok value, left) ↔
      ∃ middle between, first.effect scene = (.ok middle, between) ∧
        (next middle).effect between = (.ok value, left) := by
  rw [effect_bind hn]
  rcases first.effect scene with ⟨error | middle, between⟩
  · simp
  · constructor
    · exact fun h => ⟨middle, between, rfl, h⟩
    · rintro ⟨_, _, he, h⟩
      obtain ⟨hm, rfl⟩ := Prod.mk.inj he
      obtain rfl := Except.ok.inj hm
      exact h

end Action

/-! ### The actions of the workbench -/

open Bootstage.Action

namespace BootEnvironment

variable (environment : BootEnvironment) (architecture : Architecture) (profile : BuildProfile)
  (config : Config) (name : String)

@[simp] theorem ignoresConsole_remove (directory : Path) :
    (remove name directory).IgnoresConsole := by
  refine .bind (.look _) fun shown => ?_
  split
  · exact .bind (.say _ _) fun _ => .onFiles _ _
  · exact .pure ()

@[simp] theorem ignoresConsole_create (directory : Path) :
    (create name directory).IgnoresConsole :=
  .onFiles _ _

@[simp] theorem ignoresConsole_copy (source target : Path) :
    (copy name source target).IgnoresConsole :=
  .bind (.say _ _) fun _ => .onFiles _ _

@[simp] theorem ignoresConsole_reset : (environment.reset name).IgnoresConsole :=
  .bind (ignoresConsole_remove _ _) fun _ => .bind (ignoresConsole_remove _ _) fun _ =>
    .bind (ignoresConsole_create _ _) fun _ => ignoresConsole_create _ _

@[simp] theorem ignoresConsole_discard (directory : Path) :
    (discard directory).IgnoresConsole := by
  refine .bind (.look _) fun shown => ?_
  split
  · exact .onFiles _ _
  · exact .pure ()

@[simp] theorem ignoresConsole_clean : environment.clean.IgnoresConsole :=
  .bind (ignoresConsole_discard _) fun _ => ignoresConsole_discard _

@[simp] theorem ignoresConsole_fill :
    (environment.fill architecture profile config).IgnoresConsole :=
  .forM fun _ => ignoresConsole_copy _ _ _

@[simp] theorem ignoresConsole_assemble :
    (environment.assemble architecture profile config).IgnoresConsole :=
  .bind (ignoresConsole_reset _ _) fun _ => ignoresConsole_fill _ _ _ _

@[simp] theorem ignoresConsole_describe (source : ProvenanceSource) :
    (environment.describe architecture source).IgnoresConsole :=
  .bind (.engage _ _ _) fun _ => .bind (.onFiles _ _) fun _ => .bind (.say _ _) fun _ => .pure _

end BootEnvironment

@[simp] theorem Host.ignoresConsole_accelerate (host : Host) (target : String)
    (requested : Bool) : (host.accelerate target requested).IgnoresConsole := by
  unfold Host.accelerate
  split
  · exact .bind (.say _ _) fun _ => .ofExcept _
  · exact .ofExcept _

namespace Workbench

variable (bench : Workbench) (architecture : Architecture) (profile : BuildProfile)

@[simp] theorem ignoresConsole_buildComponent (component : Component) (request : BuildRequest) :
    (bench.buildComponent architecture profile component request).IgnoresConsole := by
  refine .bind (.say _ _) fun _ => .bind (.engage _ _ _) fun status => ?_
  split
  · exact .pure ()
  · exact .fail _

@[simp] theorem ignoresConsole_requireLoader :
    (bench.requireLoader architecture profile).IgnoresConsole := by
  refine .bind (.look _) fun shown => ?_
  split
  · exact .pure ()
  · exact .fail _

@[simp] theorem ignoresConsole_buildOne :
    (bench.buildOne profile architecture).IgnoresConsole := by
  refine .timed (.bind (.forM fun _ => ?_) fun _ => ?_) _
  · exact ignoresConsole_buildComponent _ _ _ _ _
  · exact ignoresConsole_requireLoader _ _ _

@[simp] theorem ignoresConsole_build (architectures : List Architecture) :
    (bench.build architectures profile).IgnoresConsole :=
  .forM fun _ => ignoresConsole_buildOne _ _ _

@[simp] theorem ignoresConsole_stage : (bench.stage architecture profile).IgnoresConsole :=
  .timed (.bind (.say _ _) fun _ => .bind (BootEnvironment.ignoresConsole_assemble _ _ _ _) fun _ =>
    .bind (BootEnvironment.ignoresConsole_describe _ _ _) fun _ => .pure _) _

@[simp] theorem ignoresConsole_start (acceleration : Acceleration) :
    (bench.start architecture acceleration).IgnoresConsole := by
  refine .bind (.say _ _) fun _ => .bind (.engage _ _ _) fun status => ?_
  split
  · exact .pure ()
  · exact .fail _

@[simp] theorem ignoresConsole_launch (requested : Bool) :
    (bench.launch architecture requested profile).IgnoresConsole :=
  .bind (Host.ignoresConsole_accelerate _ _ _) fun _ =>
    .bind (ignoresConsole_stage _ _ _) fun _ => ignoresConsole_start _ _ _

end Workbench

end Bootstage
