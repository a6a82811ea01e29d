import Bootstage.Architecture
import Bootstage.Provenance

/-!
# Boot descriptors

The boot loader reads a small file of keys and values from the system partition. It tells where the
build comes from, where to log, and a few switches.
-/

namespace Bootstage.Descriptor

/-- The text that tells the provenance; a dirty tree is marked behind the revision. -/
def revisionText (provenance : Provenance) : String :=
  "\"" ++ provenance.revision ++ (if provenance.dirty then "(dirty)" else "") ++ " "
    ++ provenance.date ++ ", branch '" ++ provenance.branch ++ "'\""

/-- The keys with their values, in order. -/
def settings (architecture : Architecture) (provenance : Provenance) : List (String × String) :=
  [("revision", revisionText provenance),
    ("log_device", architecture.logDevice),
    ("log_level", "trace"),
    ("wait_for_start", "false"),
    ("walk_page_tables", "false")]

/-- One line of a descriptor. -/
def line (key value : String) : String :=
  key ++ " = " ++ value ++ "\n"

/-- The text of the descriptor. -/
def render (architecture : Architecture) (provenance : Provenance) : String :=
  String.join ((settings architecture provenance).map fun (key, value) => line key value)

end Bootstage.Descriptor
