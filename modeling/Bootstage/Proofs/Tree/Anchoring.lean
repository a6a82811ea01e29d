import Bootstage.Proofs.Path.Names
import Bootstage.Tree.Files

/-!
# Paths from the root

What the system does with an absolute path does not depend on the directory from which it is done. A
path behind an absolute path is absolute, and so are the paths above one.
-/

namespace Bootstage

namespace Path

theorem bytes_ne_nil_of_isAbsolute {path : Path} (h : path.isAbsolute = true) :
    path.bytes ≠ [] := by
  intro he
  simp [isAbsolute, he] at h

/-- Seen from an absolute path every path is absolute. -/
theorem isAbsolute_join_of_base {base : Path} (h : base.isAbsolute = true) (right : Path) :
    (base.join right).isAbsolute = true := by
  cases hr : right.isAbsolute with
  | true => rwa [join_of_isAbsolute hr]
  | false => rwa [isAbsolute_join hr]

theorem isAbsolute_div {base : Path} (h : base.isAbsolute = true) (right : Path) :
    (base / right).isAbsolute = true :=
  isAbsolute_join_of_base h right

theorem isAbsolute_ofLocation (location : Location) : (ofLocation location).isAbsolute = true := by
  simp [ofLocation, isAbsolute]

theorem isAbsolute_of_mem_parents {path above : Path} (h : path.isAbsolute = true)
    (ha : above ∈ path.parents) : above.isAbsolute = true := by
  have hroot : (⟨[slash]⟩ : Path).isAbsolute = true := by decide
  have hanchor : path.anchor = [slash] := by simp [anchor, h]
  simp only [parents, hanchor] at ha
  obtain ⟨steps, -, rfl⟩ := List.mem_map.mp ha
  split
  · exact hroot
  · exact isAbsolute_join_of_base hroot _

end Path

namespace Tree

variable (tree : Tree) {path source target : Path} (here there : Option Location)

/-- An absolute path leads to the same place from every directory. -/
theorem locate_anywhere (h : path.isAbsolute = true) (last : LastName) :
    tree.locate here path last = tree.locate there path last := by
  simp only [locate, Path.origin_of_isAbsolute h]

theorem locateParent_anywhere (h : path.isAbsolute = true) :
    tree.locateParent here path = tree.locateParent there path := by
  simp only [locateParent, Path.origin_of_isAbsolute h]

theorem status_anywhere (h : path.isAbsolute = true) :
    tree.status here path = tree.status there path := by
  simp only [status, locate_anywhere tree here there h]

theorem present_anywhere (h : path.isAbsolute = true) :
    tree.present here path = tree.present there path := by
  simp only [present, status_anywhere tree here there h]

theorem presentDirectory_anywhere (h : path.isAbsolute = true) :
    tree.presentDirectory here path = tree.presentDirectory there path := by
  simp only [presentDirectory, status_anywhere tree here there h]

theorem read_anywhere (h : path.isAbsolute = true) :
    tree.read here path = tree.read there path := by
  simp only [read, status_anywhere tree here there h]

theorem makeDirectory_anywhere (h : path.isAbsolute = true) :
    tree.makeDirectory here path = tree.makeDirectory there path := by
  simp only [makeDirectory, locateParent_anywhere tree here there h]

/-- Absolute directories are made alike from every directory. -/
theorem makeDirectories_anywhere {paths : List Path} (h : ∀ path ∈ paths, path.isAbsolute = true) :
    tree.makeDirectories here paths = tree.makeDirectories there paths := by
  induction paths generalizing tree with
  | nil => rfl
  | cons path parents ih =>
    have hpath := h path List.mem_cons_self
    have hmake := fun tree => makeDirectory_anywhere tree here there hpath
    have hshown := fun tree => presentDirectory_anywhere tree here there hpath
    have hparents := ih tree fun other ho => h other (List.mem_cons_of_mem path ho)
    simp only [makeDirectories, hmake, hshown, hparents]

theorem createDirectory_anywhere (h : path.isAbsolute = true) :
    tree.createDirectory here path = tree.createDirectory there path := by
  refine makeDirectories_anywhere tree here there fun other ho => ?_
  rcases List.mem_cons.mp ho with rfl | ho
  · exact h
  · exact Path.isAbsolute_of_mem_parents h ho

theorem removeEmptied_anywhere (h : path.isAbsolute = true) :
    tree.removeEmptied here path = tree.removeEmptied there path := by
  simp only [removeEmptied, locateParent_anywhere tree here there h]

/-- What an absolute path names is removed alike from every directory. -/
theorem removeAll_anywhere (h : path.isAbsolute = true) :
    tree.removeAll here path = tree.removeAll there path := by
  have hremove := fun tree => removeEmptied_anywhere tree here there h
  simp only [removeAll, linkStatus, locate_anywhere tree here there h, hremove]

theorem locateWritable_anywhere (h : path.isAbsolute = true) :
    tree.locateWritable here path = tree.locateWritable there path := by
  simp only [locateWritable, locate_anywhere tree here there h]

/-- Between absolute paths a file is copied alike from every directory. -/
theorem copy_anywhere (hs : source.isAbsolute = true) (ht : target.isAbsolute = true) :
    tree.copy here source target = tree.copy there source target := by
  simp only [copy, locate_anywhere tree here there hs, locateWritable_anywhere tree here there ht]

end Tree

end Bootstage
