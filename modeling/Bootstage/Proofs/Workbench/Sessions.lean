import Bootstage.Program
import Bootstage.Proofs.Machine.Speaking
import Mathlib.Data.List.Forall2

/-!
# Sessions at every level of output

A session is a sequence of operations on a workbench, each of them performed whatever came of those
before. The level of output chooses the lines of a session and nothing else: its outcomes, its calls
and its files are the same at every level. In quiet the program itself writes nothing, and what it
writes by default is written in the same order, among other lines, when it is to say everything.
-/

namespace Bootstage

open Bootstage.Action

namespace Workbench

/-- One of the collaborators makes the remark in some call. -/
inductive Relays (bench : Workbench) (remark : Remark) : Prop
  /-- The toolchain makes it. -/
  | toolchain {request : BuildRequest} {scene : Scene}
      (made : remark ∈ (bench.toolchain.react request scene).remarks)
  /-- The source of the provenance makes it. -/
  | provenance {scene : Scene} (made : remark ∈ (bench.provenance.react scene).remarks)
  /-- The emulator makes it. -/
  | emulator {order : Launch} {scene : Scene}
      (made : remark ∈ (bench.emulator.react order scene).remarks)

/-- The remarks of a session: the program makes none in quiet, and its collaborators make their
own. -/
def Voices (bench : Workbench) (remark : Remark) : Prop :=
  remark.shownAt .quiet = false ∨ bench.Relays remark

variable (bench : Workbench)

/-! ### Each action speaks -/

/-- What is not for quiet runs may be said. -/
theorem speaks_say {least : Verbosity} (h : Verbosity.quiet.shows least = false) (text : String) :
    (say least text).Speaks bench.Voices :=
  .say (.inl (by simpa [Remark.shownAt, Remark.said] using h))

theorem speaks_timed {α : Type} {action : Action α} (h : action.Speaks bench.Voices)
    (label : String) : (timed label action).Speaks bench.Voices :=
  h.timed (.inl rfl)

/-- A removal speaks as it should at every level. -/
theorem speaks_remove (name : String) (directory : Path) :
    (BootEnvironment.remove name directory).Speaks bench.Voices := by
  refine .bind (.look _) fun shown => ?_
  split
  · exact .bind (bench.speaks_say rfl _) fun _ => .onFiles _ _
  · exact .pure ()

theorem speaks_copy (name : String) (source target : Path) :
    (BootEnvironment.copy name source target).Speaks bench.Voices :=
  .bind (bench.speaks_say rfl _) fun _ => .onFilesAtOnce _ _

theorem speaks_reset (environment : BootEnvironment) (name : String) :
    (environment.reset name).Speaks bench.Voices :=
  .bind (bench.speaks_remove _ _) fun _ => .bind (bench.speaks_remove _ _) fun _ =>
    .bind (.onFiles _ _) fun _ => .onFiles _ _

theorem speaks_assemble (environment : BootEnvironment) (architecture : Architecture)
    (profile : BuildProfile) (config : Config) :
    (environment.assemble architecture profile config).Speaks bench.Voices :=
  .bind (bench.speaks_reset _ _) fun _ => .forM fun _ => bench.speaks_copy _ _ _

theorem speaks_describe (environment : BootEnvironment) (architecture : Architecture) :
    (environment.describe architecture bench.provenance).Speaks bench.Voices :=
  .bind (.engage fun _ _ made => .inr (.provenance made)) fun _ =>
    .bind (.onFilesAtOnce _ _) fun _ => .bind (bench.speaks_say rfl _) fun _ => .pure _

theorem speaks_clean (environment : BootEnvironment) : environment.clean.Speaks bench.Voices := by
  have hdiscard : ∀ directory, (BootEnvironment.discard directory).Speaks bench.Voices := by
    intro directory
    refine .bind (.look _) fun shown => ?_
    split
    · exact .onFiles _ _
    · exact .pure ()
  exact .bind (hdiscard _) fun _ => hdiscard _

theorem speaks_buildOne (profile : BuildProfile) (architecture : Architecture) :
    (bench.buildOne profile architecture).Speaks bench.Voices := by
  refine bench.speaks_timed (.bind (.forM fun _ => ?_) fun _ => .bind (.look _) fun shown => ?_) _
  · refine .bind (bench.speaks_say rfl _) fun _ =>
      .bind (.engage fun _ _ made => .inr (.toolchain made)) fun status => ?_
    split
    · exact .pure ()
    · exact .fail _
  · split
    · exact .pure ()
    · exact .fail _

theorem speaks_build (architectures : List Architecture) (profile : BuildProfile) :
    (bench.build architectures profile).Speaks bench.Voices :=
  .forM fun _ => bench.speaks_buildOne _ _

theorem speaks_accelerate (architecture : Architecture) (requested : Bool) :
    (bench.accelerate architecture requested).Speaks bench.Voices := by
  unfold accelerate Host.accelerate
  split
  · exact .bind (bench.speaks_say rfl _) fun _ => .ofExcept _
  · exact .ofExcept _

theorem speaks_launch (architecture : Architecture) (requested : Bool) (profile : BuildProfile) :
    (bench.launch architecture requested profile).Speaks bench.Voices := by
  refine .bind (bench.speaks_accelerate _ _) fun _ => .bind (bench.speaks_timed ?_ _) fun _ => ?_
  · exact .bind (bench.speaks_say rfl _) fun _ => .bind (bench.speaks_assemble _ _ _ _) fun _ =>
      .bind (bench.speaks_describe _ _) fun _ => .pure ()
  · refine .bind (bench.speaks_say rfl _) fun _ =>
      .bind (.engage fun _ _ made => .inr (.emulator made)) fun status => ?_
    split
    · exact .pure ()
    · exact .fail _

theorem speaks_buildAndRun (architecture : Architecture) (requested : Bool) (profile : BuildProfile)
    (skipBuild : Bool) :
    (bench.buildAndRun architecture requested profile skipBuild).Speaks bench.Voices := by
  refine .bind (bench.speaks_accelerate _ _) fun _ => ?_
  cases skipBuild with
  | false => exact .bind (bench.speaks_build _ _) fun _ => bench.speaks_launch _ _ _
  | true => exact bench.speaks_launch _ _ _

end Workbench

/-! ### Sessions -/

/-- One operation on a workbench. -/
inductive Operation
  /-- Build architectures in order. -/
  | build (architectures : List Architecture) (profile : BuildProfile)
  /-- Build every registered architecture. -/
  | buildAll (profile : BuildProfile)
  /-- Stage the boot environment of an architecture and run the emulator on it. -/
  | launch (architecture : Architecture) (requested : Bool) (profile : BuildProfile)
  /-- Launch an architecture, after building it unless that is to be skipped. -/
  | buildAndRun (architecture : Architecture) (requested : Bool) (profile : BuildProfile)
    (skipBuild : Bool)
  /-- Make the empty layout of a boot environment anew. -/
  | reset (name : String)
  /-- Make the boot environment of an architecture anew, without its descriptor. -/
  | assemble (architecture : Architecture) (profile : BuildProfile)
  /-- Write the boot descriptor of an architecture. -/
  | describe (architecture : Architecture)
  /-- Remove the directories of the boot environment. -/
  | clean

/-- What an operation in a session comes to. -/
structure Turn where
  /-- How it ended; a descriptor that is written is told by its path. -/
  outcome : Except Error (Option Path)
  /-- The scene that it left. -/
  scene : Scene
  /-- The lines that were written during it. -/
  lines : List Line

namespace Workbench

/-- Performs an operation. -/
def operate (bench : Workbench) : Operation → Action (Option Path)
  | .build architectures profile => (fun _ => none) <$> bench.build architectures profile
  | .buildAll profile => (fun _ => none) <$> bench.buildAll profile
  | .launch architecture requested profile =>
    (fun _ => none) <$> bench.launch architecture requested profile
  | .buildAndRun architecture requested profile skipBuild =>
    (fun _ => none) <$> bench.buildAndRun architecture requested profile skipBuild
  | .reset name => (fun _ => none) <$> bench.environment.reset name
  | .assemble architecture profile =>
    (fun _ => none) <$> bench.environment.assemble architecture profile bench.config
  | .describe architecture => some <$> bench.environment.describe architecture bench.provenance
  | .clean => (fun _ => none) <$> bench.clean

/-- Performs operations one after the other at a level of output, each on the scene that the one
before has left. -/
def session (bench : Workbench) (level : Verbosity) : List Operation → Scene → List Turn
  | [], _ => []
  | operation :: others, scene =>
    let (outcome, left) := (bench.operate operation).run (scene.machine level [])
    ⟨outcome, left.scene, left.console⟩ :: bench.session level others left.scene

/-- Every operation speaks as it should at every level. -/
theorem speaks_operate (bench : Workbench) (operation : Operation) :
    (bench.operate operation).Speaks bench.Voices := by
  cases operation with
  | build architectures profile => exact (bench.speaks_build _ _).map _
  | buildAll profile => exact (bench.speaks_build _ _).map _
  | launch architecture requested profile => exact (bench.speaks_launch _ _ _).map _
  | buildAndRun architecture requested profile skipBuild =>
    exact (bench.speaks_buildAndRun _ _ _ _).map _
  | reset name => exact (bench.speaks_reset _ _).map _
  | assemble architecture profile => exact (bench.speaks_assemble _ _ _ _).map _
  | describe architecture => exact (bench.speaks_describe _ _).map _
  | clean => exact (bench.speaks_clean _).map _

/-- A session goes through its first operation in one way at all levels, and goes on from there. -/
theorem session_cons (bench : Workbench) (operation : Operation) (others : List Operation)
    (before : Scene) :
    ∃ outcome left remarks, (∀ remark ∈ remarks, bench.Voices remark) ∧
      ∀ level, bench.session level (operation :: others) before =
        ⟨outcome, left, Remark.written level remarks⟩ :: bench.session level others left := by
  obtain ⟨outcome, left, remarks, hmakes, hvoices⟩ := bench.speaks_operate operation before
  refine ⟨outcome, left, remarks, hvoices, fun level => ?_⟩
  rw [session, hmakes level []]
  rfl

/-- At every level the operations end in the same way, with the same calls and files. -/
theorem session_same (bench : Workbench) (operations : List Operation) (before : Scene)
    (level other : Verbosity) :
    (bench.session level operations before).map (fun turn => (turn.outcome, turn.scene)) =
      (bench.session other operations before).map fun turn => (turn.outcome, turn.scene) := by
  induction operations generalizing before with
  | nil => rfl
  | cons operation others ih =>
    obtain ⟨outcome, left, remarks, -, hsession⟩ := bench.session_cons operation others before
    rw [hsession, hsession, List.map_cons, List.map_cons, ih left]

/-- By default the lines of each operation are some of those when everything is said, in their
order. -/
theorem lines_session_sublist (bench : Workbench) (operations : List Operation) (before : Scene) :
    List.Forall₂ (fun less more => less.lines.Sublist more.lines)
      (bench.session .standard operations before) (bench.session .verbose operations before) := by
  induction operations generalizing before with
  | nil => exact .nil
  | cons operation others ih =>
    obtain ⟨outcome, left, remarks, -, hsession⟩ := bench.session_cons operation others before
    rw [hsession, hsession]
    exact .cons (Remark.written_sublist (by decide) remarks) (ih left)

/-- In quiet every line is that of a collaborator. -/
theorem exists_relays_of_quiet {bench : Workbench} {operations : List Operation} {before : Scene}
    {turn : Turn} {line : Line} (hturn : turn ∈ bench.session .quiet operations before)
    (hline : line ∈ turn.lines) :
    ∃ remark, bench.Relays remark ∧ remark.shownAt .quiet = true ∧ remark.line = line := by
  induction operations generalizing before with
  | nil => simp [session] at hturn
  | cons operation others ih =>
    obtain ⟨outcome, left, remarks, hvoices, hsession⟩ :=
      bench.session_cons operation others before
    rw [hsession] at hturn
    rcases List.mem_cons.mp hturn with rfl | hturn
    · obtain ⟨remark, hr, rfl⟩ := List.mem_map.mp hline
      obtain ⟨hr, hshown⟩ := List.mem_filter.mp hr
      rcases hvoices remark hr with hsilent | hrelays
      · simp [hsilent] at hshown
      · exact ⟨remark, hrelays, hshown, rfl⟩
    · exact ih hturn

/-- What collaborators that start programs have to say for the program itself is the command that
they announce, and that is not shown in quiet. -/
theorem not_isOwn_of_relays {programs : Programs} {host : Host} {config : Config} {remark : Remark}
    (h : (ofPrograms programs host config).Relays remark)
    (hshown : remark.shownAt .quiet = true) : remark.line.isOwn = false := by
  have hcarry : ∀ command scene, remark ∈ (programs.carryOut command scene).remarks →
      remark.line.isOwn = false := by
    intro command scene hr
    unfold Programs.carryOut at hr
    have hannounced : (Remark.said .verbose ("  $ " ++ command.text)).shownAt .quiet = false := rfl
    split at hr
    · obtain rfl := List.mem_singleton.mp hr
      simp [hannounced] at hshown
    · rcases List.mem_cons.mp hr with rfl | hr
      · simp [hannounced] at hshown
      · obtain rfl := List.mem_singleton.mp hr
        rfl
  cases h with
  | toolchain made => exact hcarry _ _ made
  | emulator made => exact hcarry _ _ made
  | @provenance scene made =>
    have hnone : ((ofPrograms programs host config).provenance.react scene).remarks = [] := by
      simp only [ofPrograms, ProvenanceSource.ofPrograms]
      split <;> rfl
    rw [hnone] at made
    simp at made

/-- What the level of output changes in a session, and what not. -/
structure LevelAccount (bench : Workbench) (operations : List Operation) (before : Scene) :
    Prop where
  /-- At every level the operations end in the same way, with the same calls and files. -/
  same : ∀ level other,
    (bench.session level operations before).map (fun turn => (turn.outcome, turn.scene)) =
      (bench.session other operations before).map fun turn => (turn.outcome, turn.scene)
  /-- In quiet every line is that of a collaborator. -/
  quiet : ∀ turn ∈ bench.session .quiet operations before, ∀ line ∈ turn.lines,
    ∃ remark, bench.Relays remark ∧ remark.shownAt .quiet = true ∧ remark.line = line
  /-- Collaborators that start programs write no line for the program itself then. -/
  programs : ∀ programs host config, bench = .ofPrograms programs host config →
    ∀ turn ∈ bench.session .quiet operations before, ∀ line ∈ turn.lines, line.isOwn = false
  /-- By default the lines of each operation are some of those when everything is said, in their
  order. -/
  standard : List.Forall₂ (fun less more => less.lines.Sublist more.lines)
    (bench.session .standard operations before) (bench.session .verbose operations before)

/-- The level of output chooses the lines that are written, and nothing else depends on it. -/
theorem level_account (bench : Workbench) (operations : List Operation) (before : Scene) :
    bench.LevelAccount operations before := by
  refine ⟨bench.session_same operations before, ?quiet, ?programs,
    bench.lines_session_sublist operations before⟩
  case quiet =>
    exact fun turn hturn line hline => exists_relays_of_quiet hturn hline
  case programs =>
    rintro programs host config rfl turn hturn line hline
    obtain ⟨remark, hrelays, hshown, rfl⟩ := exists_relays_of_quiet hturn hline
    exact not_isOwn_of_relays hrelays hshown

end Workbench

end Bootstage
