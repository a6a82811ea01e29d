import Bootstage.Proofs.BootEnvironment.Recovering
import Bootstage.Proofs.Programs.Inquiring
import Bootstage.Proofs.Tree.Arriving
import Bootstage.Proofs.Workbench.Accounting
import Bootstage.Proofs.Workbench.Booting

/-!
# What Git says and the guest reads

Where the provenance is asked of Git, the first query that fails is the last that is put. When all
are answered, the descriptor that the launch leaves for the guest has the answers in it as they are,
and the mark exactly if the status shows anything but white space.
-/

namespace Bootstage

namespace Tree

variable {tree written : Tree} {cwd : Option Location} {path : Path} {content : Text.Bytes}

/-- What is written is read again, also after the working directory has been looked for. -/
theorem read_of_write (h : tree.write cwd path content = .ok written) :
    written.read (written.held cwd) path = .ok content := by
  obtain ⟨location, hw, rfl⟩ := write_eq_ok_iff.mp h
  have hl := locate_of_created (locateWritable_eq_ok_iff.mp hw).1
  have hget := get?_put (accepts_of_locateWritable hw content) location
  exact read_eq_ok_iff.mpr
    ⟨location, (waysKept_put hw content).1.locate_held hl, by rw [hget, if_pos rfl]⟩

end Tree

namespace Workbench

open Bootstage.Action Git

variable {bench : Workbench} {architecture : Architecture} {requested : Bool}
  {profile : BuildProfile} {before ready : Scene} {order : Launch}

/-- When the emulator starts, the descriptor of the provenance that has been read in this launch is
there to be read. -/
theorem Starts.exists_read (h : bench.Starts architecture requested profile before order ready) :
    ∃ filled provenance, filled.calls = before.calls ∧
      (bench.provenance.react filled).outcome = .ok provenance ∧
      ready.calls = before.calls ++ .provenance :: (bench.provenance.react filled).starts ∧
      ready.tree.read ready.cwd (bench.environment.descriptorFile architecture) =
        .ok (Text.encode (Descriptor.render architecture provenance)) := by
  obtain ⟨acceleration, hgranted, hstage, -⟩ := h
  have hcourse := bench.staged architecture profile before
  rw [hstage] at hcourse
  cases hcourse with
  | complete hreset hfill hknown hwrite =>
    next fresh filled provenance written =>
    have hassemble : (bench.environment.assemble architecture profile bench.config).effect before =
        (.ok (), filled) := by
      rw [BootEnvironment.assemble, effect_bind (by simp), hreset]
      exact hfill
    have hfills : bench.Fills architecture requested profile before acceleration filled :=
      ⟨hgranted, hassemble⟩
    refine ⟨filled, provenance, hfills.calls_eq, hknown, ?_, Tree.read_of_write hwrite⟩
    show (bench.asked filled).calls = _
    rw [asked, Scene.calls_after, hfills.calls_eq]

/-- What it means that the provenance is asked of Git in the workspace. -/
structure AsksGit (bench : Workbench) (programs : Programs) : Prop where
  /-- Wherever it is asked for, the queries are put in the workspace up to the first that fails. -/
  account : ∀ scene cwd, scene.cwd = some cwd →
    Git.Account programs ((Path.ofLocation cwd).join bench.config.workspaceRoot) scene
      (bench.provenance.react scene)
  /-- Only if the working directory is gone no query is put, and that is an error, too. -/
  gone : ∀ scene, scene.cwd = none →
    (∃ message, (bench.provenance.react scene).outcome = .error (.provenance message)) ∧
      (bench.provenance.react scene).tree = scene.tree ∧
      (bench.provenance.react scene).starts = []
  /-- When the emulator starts, all queries have been answered in this launch, and the descriptor
  is laid out with what the answers say. -/
  emitted : ∀ architecture requested profile before order ready,
    bench.Starts architecture requested profile before order ready →
      ∃ filled cwd outputs provenance text, filled.cwd = some cwd ∧
        Replies programs ((Path.ofLocation cwd).join bench.config.workspaceRoot) filled Query.all
          outputs ∧
        Told outputs provenance ∧
        ready.calls = before.calls ++ .provenance :: (bench.provenance.react filled).starts ∧
        ready.tree.read ready.cwd (bench.environment.descriptorFile architecture) =
          .ok (Text.encode text) ∧
        text.toList = Descriptor.layout architecture.logDevice provenance

/-- The provenance is read by asking Git, and the descriptor of a launch tells it. -/
theorem asksGit (bench : Workbench) (programs : Programs)
    (asks : bench.provenance = .ofPrograms programs bench.config) : bench.AsksGit programs := by
  have haccount : ∀ scene cwd, scene.cwd = some cwd →
      Git.Account programs ((Path.ofLocation cwd).join bench.config.workspaceRoot) scene
        (bench.provenance.react scene) := by
    intro scene cwd hcwd
    rw [asks]
    exact account_react programs bench.config hcwd
  have hgone : ∀ scene, scene.cwd = none → bench.provenance.react scene =
      { outcome := .error (.provenance (Fault.noWorkingDirectory .notFound).message)
        tree := scene.tree } := by
    intro scene hcwd
    rw [asks]
    exact react_of_no_cwd programs bench.config hcwd
  refine ⟨haccount, fun scene hcwd => ?gone,
    fun architecture requested profile before order ready starts => ?emitted⟩
  case gone =>
    rw [hgone scene hcwd]
    exact ⟨⟨_, rfl⟩, rfl, rfl⟩
  case emitted =>
    obtain ⟨filled, provenance, -, hknown, hcalls, hread⟩ := starts.exists_read
    cases hcwd : filled.cwd with
    | none => simp [hgone filled hcwd] at hknown
    | some cwd =>
      obtain ⟨outputs, replies, told⟩ := ((haccount filled cwd hcwd).ok_iff provenance).mp hknown
      exact ⟨filled, cwd, outputs, provenance, _, hcwd, replies, told, hcalls, hread,
        Descriptor.toList_render_eq_layout architecture provenance⟩

/-! ### A small repository -/

/-- What Git prints in a small repository with a file that it does not know. -/
def sampleGit : Rehearsal.GitTool where
  answer
    | .revision => Text.encode "4f2a\r\n"
    | .branch => Text.encode "main\n\n"
    | .date => Text.encode "today"
    | .status => Text.encode "?? new\n"

/-- The programs of a system with the small repository. -/
def samplePrograms : Programs :=
  Rehearsal.programs { git := sampleGit } "/usr/bin"

/-- A workbench for the small workspace that asks Git. -/
def sampleAsking : Workbench :=
  { sample with provenance := .ofPrograms samplePrograms sample.config }

/-- What the guest reads after a launch from the small repository: one line end is missing behind
each answer, and the revision is marked. -/
def sampleText : String :=
  "revision = \"4f2a(dirty) today, branch 'main\n'\"\nlog_device = com2\nlog_level = trace\n" ++
    "wait_for_start = false\nwalk_page_tables = false\n"

/-- The descriptor of a launch has the answers of Git and the mark in it. -/
theorem asksGit_sample :
    sampleAsking.provenance = .ofPrograms samplePrograms sampleAsking.config ∧
      ∃ ready filled cwd outputs provenance,
        sampleAsking.Starts .x86_64 false .debug sampleMachine.scene
          (sampleAsking.order .x86_64 .emulation) ready ∧
        Replies samplePrograms ((Path.ofLocation cwd).join ⟨"/w"⟩) filled Query.all outputs ∧
        Told outputs provenance ∧
        sampleText.toList = Descriptor.layout "com2" provenance := by
  have asks : sampleAsking.provenance = .ofPrograms samplePrograms sampleAsking.config := rfl
  have hok : ((sampleAsking.stage .x86_64 .debug).effect sampleMachine.scene).1 = .ok () := by
    decide +kernel
  have hfound : ((sampleAsking.stage .x86_64 .debug).effect sampleMachine.scene).2.tree.read
      ((sampleAsking.stage .x86_64 .debug).effect sampleMachine.scene).2.cwd
      (sampleAsking.environment.descriptorFile .x86_64) = .ok (Text.encode sampleText) := by
    decide +kernel
  rcases hstage : (sampleAsking.stage .x86_64 .debug).effect sampleMachine.scene with
    ⟨outcome, ready⟩
  rw [hstage] at hok hfound
  have hstarts : sampleAsking.Starts .x86_64 false .debug sampleMachine.scene
      (sampleAsking.order .x86_64 .emulation) ready :=
    ⟨.emulation, rfl, hstage.trans (congrArg (·, ready) hok), rfl⟩
  obtain ⟨filled, cwd, outputs, provenance, text, -, replies, told, -, hread, htext⟩ :=
    (asksGit sampleAsking samplePrograms asks).emitted _ _ _ _ _ _ hstarts
  obtain rfl : sampleText = text :=
    Text.encode_inj.mp (Except.ok.inj (hfound.symm.trans hread))
  exact ⟨asks, ready, filled, cwd, outputs, provenance, hstarts, replies, told, htext⟩

end Workbench

end Bootstage
