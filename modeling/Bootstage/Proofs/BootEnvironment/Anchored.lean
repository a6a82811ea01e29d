import Bootstage.Proofs.BootEnvironment.Leftovers
import Bootstage.Proofs.Tree.Anchoring
import Bootstage.Proofs.Tree.Arriving
import Bootstage.Proofs.Tree.Joining

/-!
# Boot environments named from the root

When all paths are absolute, a boot environment is made in the same way from every directory. Once
it is made, everyone finds it: its paths lead to a directory and to files from wherever they are
followed.
-/

namespace Bootstage

open Bootstage.Action

/-! ### The working directory is not heeded -/

/-- On scenes with the same files the action has one outcome and leaves the same files, whatever the
working directory is. -/
def Action.IgnoresDirectory {α : Type} (action : Action α) : Prop :=
  ∀ here there : Scene, here.tree = there.tree →
    (action.effect here).1 = (action.effect there).1 ∧
      (action.effect here).2.tree = (action.effect there).2.tree

namespace Action.IgnoresDirectory

variable {α β : Type}

protected theorem pure (value : α) : IgnoresDirectory (pure value) :=
  fun _ _ h => ⟨rfl, h⟩

/-- A file operation ignores the directory if its effect on the files does. -/
protected theorem onFiles {operation : Tree → Option Location → Except SystemError Unit × Tree}
    (h : ∀ tree here there, operation tree here = operation tree there)
    (toError : SystemError → Error) : (onFiles operation toError).IgnoresDirectory := by
  intro here there ht
  rw [effect_onFiles, effect_onFiles, ht, h there.tree here.cwd there.cwd]
  exact ⟨rfl, rfl⟩

protected theorem onFilesAtOnce {operation : Tree → Option Location → Except SystemError Tree}
    (h : ∀ tree here there, operation tree here = operation tree there)
    (toError : SystemError → Error) : (onFilesAtOnce operation toError).IgnoresDirectory :=
  .onFiles (fun tree here there => by rw [h tree here there]) toError

/-- A look at the files that is the same from everywhere decides what follows. -/
protected theorem look_bind {view : Tree → Option Location → β} {next : β → Action α}
    (h : ∀ tree here there, view tree here = view tree there)
    (hnext : ∀ value, (next value).IgnoresDirectory)
    (hn : ∀ value, (next value).IgnoresConsole) : (look view >>= next).IgnoresDirectory := by
  intro here there ht
  rw [effect_bind hn, effect_bind hn, effect_look, effect_look, ht, h there.tree here.cwd there.cwd]
  exact hnext _ here there ht

protected theorem say_bind {least : Verbosity} {text : String} {next : Unit → Action α}
    (hnext : (next ()).IgnoresDirectory) (hn : (next ()).IgnoresConsole) :
    (say least text >>= next).IgnoresDirectory := by
  intro here there ht
  rw [effect_say_bind hn, effect_say_bind hn]
  exact hnext here there ht

/-- Two actions in a row ignore the directory if each of them does. -/
protected theorem bind {first : Action α} {next : α → Action β} (hfirst : first.IgnoresDirectory)
    (hnext : ∀ value, (next value).IgnoresDirectory)
    (hn : ∀ value, (next value).IgnoresConsole) : (first >>= next).IgnoresDirectory := by
  intro here there ht
  obtain ⟨hout, htree⟩ := hfirst here there ht
  rw [effect_bind hn, effect_bind hn]
  rcases hh : first.effect here with ⟨outcome, left⟩
  rcases ho : first.effect there with ⟨outcome', left'⟩
  simp only [hh, ho] at hout htree
  subst hout
  cases outcome with
  | error error => exact ⟨rfl, htree⟩
  | ok value => exact hnext value left left' htree

/-- Actions on a list ignore the directory if each of them does. -/
protected theorem forM {items : List β} {act : β → Action PUnit}
    (h : ∀ item ∈ items, (act item).IgnoresDirectory)
    (hn : ∀ item, (act item).IgnoresConsole) : (items.forM act).IgnoresDirectory := by
  induction items with
  | nil => exact .pure PUnit.unit
  | cons item items ih =>
    exact .bind (h item List.mem_cons_self)
      (fun _ => ih fun other ho => h other (List.mem_cons_of_mem item ho)) fun _ => .forM hn

end Action.IgnoresDirectory

namespace BootEnvironment

variable {environment : BootEnvironment} {architecture : Architecture} {profile : BuildProfile}
  {config : Config} {name : String}

/-- An absolute path is removed in the same way from every directory. -/
theorem ignoresDirectory_remove {directory : Path} (h : directory.isAbsolute = true) :
    (remove name directory).IgnoresDirectory := by
  refine .look_bind (fun tree here there => tree.present_anywhere here there h) ?_ ?_
  · intro shown
    split
    · exact .say_bind (.onFiles (fun tree here there => tree.removeAll_anywhere here there h) _)
        (by simp)
    · exact .pure ()
  · intro shown
    split <;> simp

/-- An absolute path is created in the same way from every directory. -/
theorem ignoresDirectory_create {directory : Path} (h : directory.isAbsolute = true) :
    (create name directory).IgnoresDirectory :=
  .onFiles (fun tree here there => tree.createDirectory_anywhere here there h) _

/-- A copy between absolute paths is made in the same way from every directory. -/
theorem ignoresDirectory_copy {source target : Path} (hs : source.isAbsolute = true)
    (ht : target.isAbsolute = true) : (copy name source target).IgnoresDirectory :=
  .say_bind (.onFilesAtOnce (fun tree here there => tree.copy_anywhere here there hs ht) _)
    (by simp)

/-- A boot environment with absolute paths is reset in the same way from every directory. -/
theorem ignoresDirectory_reset (hesp : environment.espDir.isAbsolute = true)
    (hfirmware : environment.firmwareDir.isAbsolute = true) :
    (environment.reset name).IgnoresDirectory := by
  have hboot : environment.bootDir.isAbsolute = true :=
    Path.isAbsolute_div (Path.isAbsolute_div hesp "efi") "boot"
  exact .bind (ignoresDirectory_remove hesp)
    (fun _ => .bind (ignoresDirectory_remove hfirmware)
      (fun _ => .bind (ignoresDirectory_create hboot)
        (fun _ => ignoresDirectory_create hfirmware) (by simp))
      (by simp))
    (by simp)

/-- With absolute paths a boot environment is made in the same way from every directory. -/
theorem ignoresDirectory_assemble (hesp : environment.espDir.isAbsolute = true)
    (hfirmware : environment.firmwareDir.isAbsolute = true)
    (hroot : config.workspaceRoot.isAbsolute = true)
    (htarget : config.targetDir.isAbsolute = true) :
    (environment.assemble architecture profile config).IgnoresDirectory := by
  have hboot : environment.bootDir.isAbsolute = true :=
    Path.isAbsolute_div (Path.isAbsolute_div hesp "efi") "boot"
  have hloader : (config.loader architecture profile).isAbsolute = true :=
    Path.isAbsolute_div (Path.isAbsolute_div (Path.isAbsolute_div htarget _) _) _
  have hcopy : ∀ pair ∈ environment.sources architecture profile config,
      pair.1.isAbsolute = true ∧ pair.2.isAbsolute = true := by
    simp only [sources, List.forall_mem_cons, List.not_mem_nil, false_implies, implies_true,
      and_true]
    exact ⟨⟨Path.isAbsolute_div hroot _, Path.isAbsolute_div hfirmware _⟩,
      ⟨Path.isAbsolute_div hroot _, Path.isAbsolute_div hfirmware _⟩,
      hloader, Path.isAbsolute_div hboot _⟩
  refine .bind (ignoresDirectory_reset hesp hfirmware) (fun _ => .forM (fun pair hp => ?_) ?_) ?_
  · exact ignoresDirectory_copy (hcopy pair hp).1 (hcopy pair hp).2
  · exact fun _ => ignoresConsole_copy _ _ _
  · simp

/-! ### What is made is found -/

/-- All copies that are made were made at places to which their targets lead. -/
theorem Copied.exists_place {copies made : List (Path × Path)} {scene left : Scene}
    {outcome : Except Error Unit} (h : Copied name copies scene made outcome left)
    (held : scene.tree.held scene.cwd = scene.cwd) :
    ∀ copy ∈ made, ∃ place, scene.tree.locateWritable scene.cwd copy.2 = .ok place := by
  induction h with
  | done => simp
  | stopped copy => simp
  | @passed scene left source target rest made outcome copied copy tail ih =>
    obtain ⟨origin, content, destination, -, -, hw, rfl⟩ := Tree.copy_eq_ok_iff.mp copy
    obtain ⟨hkept, hkept'⟩ := Tree.waysKept_put hw (if origin = destination then [] else content)
    intro other ho
    cases List.mem_cons.mp ho with
    | inl ho => exact ⟨destination, ho ▸ hw⟩
    | inr ho =>
      obtain ⟨place, hp⟩ := ih (Tree.held_held _ _) other ho
      rw [Scene.cwd_withTree, Scene.tree_withTree, hkept.held held] at hp
      exact ⟨place, (hkept.locateWritable_eq_ok_iff hkept').mp hp⟩

/-- In a boot environment that is made each target of a copy leads to a file. -/
theorem exists_read_of_copied {before after : Scene}
    (h : (environment.assemble architecture profile config).effect before = (.ok (), after)) :
    ∀ pair ∈ environment.sources architecture profile config,
      ∃ content, after.tree.read after.cwd pair.2 = .ok content := by
  obtain ⟨⟨⟩, fresh, hreset, hfill⟩ := (effect_bind_eq_ok_iff (by simp)).mp h
  have held := held_of_reset hreset
  obtain ⟨made, hcopied⟩ := copied architecture.id
    (environment.sources architecture profile config) fresh
  rw [fill] at hfill
  rw [hfill] at hcopied
  obtain ⟨hcwd, hkept, -, hfiles⟩ := hcopied.files held
  intro pair hp
  rw [← hcopied.made_eq_of_ok rfl] at hp
  obtain ⟨place, hw⟩ := hcopied.exists_place held pair hp
  obtain ⟨content, hg⟩ := (hfiles place).mpr (.inr ⟨pair, hp, hw⟩)
  have hl := Tree.locate_of_created (Tree.locateWritable_eq_ok_iff.mp hw).1
  exact ⟨content, Tree.read_eq_ok_iff.mpr ⟨place, hcwd ▸ hkept.locate hl, hg⟩⟩

/-- Whoever is led to the boot loader is led through the directory of the system partition. -/
theorem presentDirectory_of_read_bootFile {tree : Tree} {cwd : Option Location}
    {content : Text.Bytes} (registered : architecture ∈ Architecture.registered)
    (written : environment.espDir.bytes ≠ [])
    (h : tree.read cwd (environment.bootFile architecture) = .ok content) :
    tree.presentDirectory cwd environment.espDir = true := by
  obtain ⟨code, vars, names⟩ := Architecture.exists_fileNames registered
  have hname := names.isName architecture.bootFile (by simp)
  have hbelow : ∀ {base : Path} {name : Name} {place : Location}, Path.IsName name →
      base.bytes ≠ [] → tree.locate cwd (base / name) = .ok place →
        ∃ start, tree.locate cwd base = .ok start ∧ tree.get? start = some .directory :=
    fun hn hb hl => Tree.exists_locate_of_join hn.isAbsolute hn.ne_empty hb hl
  have hwritten : ∀ (base : Path) {name : Name}, Path.IsName name → (base / name).bytes ≠ [] :=
    fun base _ hn => Path.bytes_join_ne_nil base hn.isAbsolute (.inr hn.ne_empty)
  obtain ⟨place, hl, -⟩ := Tree.read_eq_ok_iff.mp h
  obtain ⟨boot, hboot, -⟩ := hbelow hname (hwritten _ isName_boot) hl
  obtain ⟨efi, hefi, -⟩ := hbelow isName_boot (hwritten _ isName_efi) hboot
  obtain ⟨esp, hesp, hd⟩ := hbelow isName_efi written hefi
  simp [Tree.presentDirectory, Tree.status_eq_ok_iff.mpr ⟨esp, hesp, hd⟩]

end BootEnvironment

end Bootstage
