/-!
# Provenance

Where the sources of a build come from: the revision that is checked out, its branch and date, and
whether the working tree differs from it.
-/

namespace Bootstage

/-- The state of the sources. -/
structure Provenance where
  /-- The short name of the revision. -/
  revision : String
  /-- The branch that is checked out. -/
  branch : String
  /-- Whether there are changes that belong to no revision. -/
  dirty : Bool
  /-- The date of the revision. -/
  date : String
  deriving DecidableEq, Repr, Inhabited

end Bootstage
