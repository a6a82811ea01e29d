import Bootstage.Config
import Bootstage.Tree.Files

/-!
# Finding the workspace

The workspace is looked for in the working directory and in the directories above it, nearest
first. The first manifest that cannot be read or that mentions the workspace header decides; the
configuration comes from it.
-/

namespace Bootstage

namespace Location

/-- A location and those above it, nearest first. -/
def ancestors (location : Location) : List Location :=
  location :: (Path.properPrefixes location).reverse

end Location

namespace Config

/-- What the manifest in a directory decides: nothing when there is none or it mentions no
workspace, and a failure when it cannot be read. -/
def decide? (tree : Tree) (directory : Location) : Option (Except ConfigurationFault String) :=
  let manifest := Path.ofLocation directory / "Cargo.toml"
  if tree.present none manifest then
    match tree.readText none manifest with
    | .error cause => some (.error (.unreadableManifest cause))
    | .ok text => if Text.contains "[workspace]" text then some (.ok text) else none
  else none

/-- The configuration that is decided by the first of the directories that decides. -/
def ofFirst (tree : Tree) : List Location → Except ConfigurationFault Config
  | [] => .error .noWorkspace
  | directory :: others =>
    match decide? tree directory with
    | none => ofFirst tree others
    | some (.error fault) => .error fault
    | some (.ok text) => ofManifest (Path.ofLocation directory) text

/-- The configuration of the workspace that the working directory belongs to. -/
def load (tree : Tree) (cwd : Option Location) : Except ConfigurationFault Config :=
  match tree.held cwd with
  | some cwd => ofFirst tree (Location.ancestors cwd)
  | none => .error (.noWorkingDirectory .notFound)

end Config

end Bootstage
