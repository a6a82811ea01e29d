import Bootstage.Error

/-!
# Looking architectures up

A name is looked up among the registered architectures. A name that belongs to none of them is
reported as it was given.
-/

namespace Bootstage.Architecture

/-- The registered architecture with the given name or alias. -/
def lookup (name : String) : Except ConfigurationFault Architecture :=
  match find? name with
  | some architecture => .ok architecture
  | none => .error (.unsupportedArchitecture name)

/-- A look-up succeeds exactly for the names of registered architectures. -/
theorem lookup_eq_ok_iff {name : String} {architecture : Architecture} :
    lookup name = .ok architecture ↔ find? name = some architecture := by
  unfold lookup
  split <;> simp_all

/-- The architectures with the given names, or the fault of the first name that has none. -/
def lookupAll (names : List String) : Except ConfigurationFault (List Architecture) :=
  names.mapM lookup

end Bootstage.Architecture
