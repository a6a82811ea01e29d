import Bootstage.Proofs.BootEnvironment.Reset
import Bootstage.Proofs.Tree.Arriving
import Bootstage.Proofs.Tree.Removing

/-!
# Files that a reset spares

The directories of a boot environment may be written in any way: their paths may go up, follow
links, or name a directory in which other things are kept. Whatever they are, a reset adds nothing
but directories. A file is spared by it, and by cleaning up, if nothing on the way to it is at or
below a place that is removed.
-/

namespace Bootstage

namespace Tree

variable {tree whole : Tree} {cwd earlier : Option Location} {path : Path} {gone : Location}

/-- The place at which a removal takes something away: where the path leads, if anything but a
regular file is shown there. -/
def wiped? (tree : Tree) (cwd : Option Location) (path : Path) : Option Location :=
  if tree.present cwd path then
    match tree.linkStatus cwd path with
    | .ok (_, .file _) => none
    | .ok (gone, _) => some gone
    | .error _ => none
  else none

/-- What is wiped is something that is present and is not itself a file. -/
theorem wiped?_eq_some_iff :
    tree.wiped? cwd path = some gone ↔ tree.present cwd path = true ∧
      ∃ entry, tree.linkStatus cwd path = .ok (gone, entry) ∧
        ∀ content, entry ≠ .file content := by
  unfold wiped?
  split
  · next hp =>
    split
    · next hs => simp [hp, hs]
    · next place entry hne hs =>
      simp only [hp, hs, Option.some.injEq, Except.ok.injEq, Prod.mk.injEq, true_and]
      constructor
      · rintro rfl
        exact ⟨entry, ⟨rfl, rfl⟩, hne⟩
      · rintro ⟨_, ⟨rfl, -⟩, -⟩
        rfl
    · next hs => simp [hs]
  · next hp => simp [hp]

/-- What would be removed of a part of a tree would be removed of the whole. -/
theorem Within.wiped? (h : tree.Within whole) (hw : tree.wiped? cwd path = some gone) :
    whole.wiped? cwd path = some gone := by
  obtain ⟨hp, entry, hs, hf⟩ := wiped?_eq_some_iff.mp hw
  exact wiped?_eq_some_iff.mpr ⟨h.present hp, entry, h.linkStatus hs, hf⟩

/-- What would be removed without a working directory would be removed with it. -/
theorem wiped?_of_wiped? (h : ∀ location, cwd = some location → earlier = some location)
    (hw : tree.wiped? cwd path = some gone) : tree.wiped? earlier path = some gone := by
  obtain ⟨hp, entry, hs, hf⟩ := wiped?_eq_some_iff.mp hw
  obtain ⟨hl, hg⟩ := linkStatus_eq_ok_iff.mp hs
  obtain ⟨shown, hshown⟩ := present_iff_exists_status.mp hp
  obtain ⟨place, hplace, he⟩ := status_eq_ok_iff.mp hshown
  have hearlier : tree.status earlier path = .ok shown :=
    status_eq_ok_iff.mpr ⟨place, locate_of_locate h hplace, he⟩
  exact wiped?_eq_some_iff.mpr ⟨present_iff_exists_status.mpr ⟨shown, hearlier⟩, entry,
    linkStatus_eq_ok_iff.mpr ⟨locate_of_locate h hl, hg⟩, hf⟩

end Tree

namespace Scene

/-- Of the one scene the other is left after removals. -/
structure Pruned (before after : Scene) : Prop where
  /-- Nothing is new. -/
  within : after.tree.Within before.tree
  /-- The working directory is the same if it is left. -/
  cwd_of_cwd : ∀ location, after.cwd = some location → before.cwd = some location

theorem Pruned.refl (scene : Scene) : scene.Pruned scene :=
  ⟨.refl _, fun _ hl => hl⟩

theorem Pruned.trans {before middle after : Scene} (h : before.Pruned middle)
    (h' : middle.Pruned after) : before.Pruned after :=
  ⟨h'.within.trans h.within, fun location hl => h.cwd_of_cwd location (h'.cwd_of_cwd location hl)⟩

/-- All is left that a path comes by. -/
structure Spares (before : Scene) (path : Path) (after : Scene) : Prop where
  /-- Only removals have been made. -/
  pruned : before.Pruned after
  /-- The places that the path comes by are the same. -/
  same : ∀ place ∈ before.tree.passed before.cwd path,
    after.tree.get? place = before.tree.get? place
  /-- It comes by them again and arrives where it arrived. -/
  arrives : ∀ location, before.tree.locate before.cwd path = .ok location →
    after.tree.locate after.cwd path = .ok location ∧
      after.tree.passed after.cwd path = before.tree.passed before.cwd path

namespace Spares

variable {before scene after : Scene} {path : Path}

theorem refl (scene : Scene) (path : Path) : scene.Spares path scene :=
  ⟨.refl scene, fun _ _ => rfl, fun _ hl => ⟨hl, rfl⟩⟩

/-- More may be removed away from the path. -/
theorem withTree (h : before.Spares path scene) {tree : Tree} (within : tree.Within scene.tree)
    (same : ∀ place ∈ before.tree.passed before.cwd path,
      tree.get? place = scene.tree.get? place) : before.Spares path (scene.withTree tree) where
  pruned := h.pruned.trans ⟨within, fun _ hl => Tree.eq_some_of_held hl⟩
  same place hp := (same place hp).trans (h.same place hp)
  arrives location hl := by
    obtain ⟨hlocate, hpassed⟩ := h.arrives location hl
    rw [← hpassed] at same ⊢
    exact Tree.locate_held_congr same hlocate

/-- The file is the same. -/
theorem read (h : before.Spares path after) {content : Text.Bytes}
    (hr : before.tree.read before.cwd path = .ok content) :
    after.tree.read after.cwd path = .ok content := by
  obtain ⟨place, hl, hg⟩ := Tree.read_eq_ok_iff.mp hr
  exact Tree.read_eq_ok_iff.mpr ⟨place, (h.arrives place hl).1,
    (h.same place (Tree.mem_passed_of_locate hl)).trans hg⟩

end Spares

/-- To the one scene directories are added in the other. -/
structure Extended (before after : Scene) : Prop where
  /-- Only directories are new. -/
  opened : before.tree.Opened after.tree
  /-- The working directory is the same if it is left. -/
  cwd_of_cwd : ∀ location, after.cwd = some location → before.cwd = some location
  /-- Every path arrives where it arrived. -/
  arrives : ∀ path location, before.tree.locate before.cwd path = .ok location →
    after.tree.locate after.cwd path = .ok location

theorem Extended.trans {before middle after : Scene} (h : before.Extended middle)
    (h' : middle.Extended after) : before.Extended after where
  opened := h.opened.trans h'.opened
  cwd_of_cwd location hl := h.cwd_of_cwd location (h'.cwd_of_cwd location hl)
  arrives path location hl := h'.arrives path location (h.arrives path location hl)

/-- What could be read before can be read when files have been added. -/
theorem Extended.read {before after : Scene} (h : before.Extended after) {path : Path}
    {content : Text.Bytes} (hr : before.tree.read before.cwd path = .ok content) :
    after.tree.read after.cwd path = .ok content := by
  obtain ⟨place, hl, hg⟩ := Tree.read_eq_ok_iff.mp hr
  exact Tree.read_eq_ok_iff.mpr ⟨place, h.arrives path place hl, h.opened.within place _ hg⟩

end Scene

namespace BootEnvironment

open Bootstage.Action

variable {environment : BootEnvironment} {scene : Scene} {path : Path}

/-! ### Removing -/

/-- Removing a directory takes away nothing, or only what is at or below the place that the path
leads to. -/
theorem removes_of_remove (name : String) (directory : Path) (scene : Scene) :
    ((remove name directory).effect scene).2 = scene ∨
      ∃ tree, ((remove name directory).effect scene).2 = scene.withTree tree ∧
        (tree = scene.tree ∨ ∃ gone, scene.tree.wiped? scene.cwd directory = some gone ∧
          scene.tree.Removes scene.cwd directory gone tree) := by
  rw [effect_remove_eq]
  by_cases hp : scene.tree.present scene.cwd directory = true
  · rw [if_pos hp]
    refine .inr ⟨_, rfl, (scene.tree.removeAll_cases scene.cwd directory).imp_right ?_⟩
    rintro ⟨gone, hr⟩
    exact ⟨gone, Tree.wiped?_eq_some_iff.mpr ⟨hp, hr.leads⟩, hr⟩
  · rw [if_neg hp]
    exact .inl rfl

theorem pruned_remove (name : String) (directory : Path) (scene : Scene) :
    scene.Pruned ((remove name directory).effect scene).2 := by
  rcases removes_of_remove name directory scene with he | ⟨tree, he, hr⟩ <;> rw [he]
  · exact .refl scene
  · refine ⟨?_, fun _ hl => Tree.eq_some_of_held hl⟩
    rcases hr with rfl | ⟨gone, -, hr⟩
    · exact .refl _
    · exact hr.within

theorem pruned_clear (environment : BootEnvironment) (name : String) (scene : Scene) :
    scene.Pruned ((environment.clear name).effect scene).2 := by
  have hfirst := pruned_remove name environment.espDir scene
  rw [clear, effect_bind (by simp)]
  rcases hm : (remove name environment.espDir).effect scene with ⟨error | ⟨⟩, middle⟩
  · rw [hm] at hfirst
    exact hfirst
  · rw [hm] at hfirst
    exact hfirst.trans (pruned_remove name environment.firmwareDir middle)

/-- No place that the path comes by is at or below one from which a directory is removed. -/
def Apart (environment : BootEnvironment) (tree : Tree) (cwd : Option Location) (path : Path) :
    Prop :=
  ∀ directory ∈ environment.directories, ∀ gone ∈ tree.wiped? cwd directory,
    ∀ place ∈ tree.passed cwd path, ¬ gone <+: place

instance (environment : BootEnvironment) (tree : Tree) (cwd : Option Location) (path : Path) :
    Decidable (environment.Apart tree cwd path) := by
  unfold Apart
  infer_instance

section

variable {before : Scene} (apart : environment.Apart before.tree before.cwd path)

include apart

/-- The removal of one of the directories spares the path. -/
theorem spares_remove (h : before.Spares path scene) {directory : Path}
    (hd : directory ∈ environment.directories) (name : String) :
    before.Spares path ((remove name directory).effect scene).2 := by
  rcases removes_of_remove name directory scene with he | ⟨tree, he, rfl | ⟨gone, hw, hr⟩⟩ <;>
    rw [he]
  · exact h
  · exact h.withTree (.refl _) fun _ _ => rfl
  · refine h.withTree hr.within fun place hp => hr.elsewhere place ?_
    exact apart directory hd gone
      (Tree.wiped?_of_wiped? h.pruned.cwd_of_cwd (h.pruned.within.wiped? hw)) place hp

/-- A path on which neither directory lies is spared when both are removed. -/
theorem spares_clear (name : String) :
    before.Spares path ((environment.clear name).effect before).2 := by
  have hesp : environment.espDir ∈ environment.directories := by simp [directories]
  have hfirst := spares_remove apart (.refl before path) hesp name
  rw [clear, effect_bind (by simp)]
  rcases hm : (remove name environment.espDir).effect before with ⟨error | ⟨⟩, middle⟩
  · rw [hm] at hfirst
    exact hfirst
  · rw [hm] at hfirst
    exact spares_remove apart hfirst (by simp [directories]) name

end

/-! ### Laying out -/

/-- The creation of a directory only extends, in success and in failure. -/
theorem extended_create (name : String) (directory : Path) (scene : Scene) :
    scene.Extended ((create name directory).effect scene).2 := by
  have hopened := Tree.opened_createDirectory scene.tree scene.cwd directory
  rw [effect_create]
  exact ⟨hopened, fun _ hl => Tree.eq_some_of_held hl,
    fun _ _ hl => hopened.waysKept.locate_held hl⟩

/-- Laying out adds directories, in success and in failure. -/
theorem extended_layOut (environment : BootEnvironment) (name : String) (scene : Scene) :
    scene.Extended ((environment.layOut name).effect scene).2 := by
  have hboot := extended_create name environment.bootDir scene
  rw [layOut, effect_bind (by simp)]
  rcases hb : (create name environment.bootDir).effect scene with ⟨error | ⟨⟩, booted⟩
  · rw [hb] at hboot
    exact hboot
  · rw [hb] at hboot
    exact hboot.trans (extended_create name environment.firmwareDir booted)

/-! ### Resetting -/

/-- What a reset leaves was there before, or is a directory. -/
theorem old_of_reset (environment : BootEnvironment) (name : String) (scene : Scene) :
    (∀ place entry, ((environment.reset name).effect scene).2.tree.get? place = some entry →
      entry = .directory ∨ scene.tree.get? place = some entry) ∧
    ∀ location, ((environment.reset name).effect scene).2.cwd = some location →
      scene.cwd = some location := by
  have hclear := pruned_clear environment name scene
  rw [reset_eq, effect_bind (by simp)]
  rcases hc : (environment.clear name).effect scene with ⟨error | ⟨⟩, cleared⟩
  · rw [hc] at hclear
    exact ⟨fun place entry he => .inr (hclear.within place entry he), hclear.cwd_of_cwd⟩
  · rw [hc] at hclear
    have hextended := extended_layOut environment name cleared
    refine ⟨fun place entry he => ?_, fun location hl =>
      hclear.cwd_of_cwd location (hextended.cwd_of_cwd location hl)⟩
    rcases hextended.opened place with hs | ⟨-, hd⟩
    · exact .inr (hclear.within place entry (hs ▸ he))
    · exact .inl (Option.some.inj (he.symm.trans hd))

/-- A file that is kept apart from both directories is found as it was after they have been
cleared, and after they have been laid out again. -/
theorem read_of_apart (apart : environment.Apart scene.tree scene.cwd path) {content : Text.Bytes}
    (stands : scene.tree.read scene.cwd path = .ok content) (name : String) :
    ((environment.clear name).effect scene).2.tree.read
        ((environment.clear name).effect scene).2.cwd path = .ok content ∧
      ((environment.reset name).effect scene).2.tree.read
        ((environment.reset name).effect scene).2.cwd path = .ok content := by
  have hclear := (spares_clear apart name).read stands
  refine ⟨hclear, ?_⟩
  rw [reset_eq, effect_bind (by simp)]
  rcases hc : (environment.clear name).effect scene with ⟨error | ⟨⟩, cleared⟩
  · rw [hc] at hclear
    exact hclear
  · rw [hc] at hclear
    exact (extended_layOut environment name cleared).read hclear

end BootEnvironment

end Bootstage
