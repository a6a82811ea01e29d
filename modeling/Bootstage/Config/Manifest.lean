import Bootstage.Toml.Document

/-!
# Workspace manifests

The settings of a workspace are the table `corgos` in the table `metadata` in the table `workspace`
of its manifest. Each setting may be left out and keys that are not known here are passed over, but
a value of the wrong kind spoils the whole manifest. A record may also be written as an array of
its fields in their order.
-/

namespace Bootstage

/-- The settings in a manifest, as far as they are given. -/
structure Settings where
  /-- The memory of the guest. -/
  memory? : Option String := none
  /-- The number of cores of the guest. -/
  cores? : Option UInt32 := none
  /-- The directory that stands for the system partition. -/
  espDir? : Option String := none
  /-- The directory of the firmware copies. -/
  firmwareDir? : Option String := none
  /-- A directory that build tools are looked for in first. -/
  llvmBinDir? : Option String := none
  /-- The features with which the kernel is built. -/
  kernelFeatures : List String := []
  deriving DecidableEq, Repr, Inhabited

namespace Manifest

open Toml

/-- A value that is read as a record of fields. -/
inductive Fields
  /-- The fields are told apart by their keys. -/
  | keyed (entries : Entries)
  /-- The fields are told apart by their places. -/
  | listed (items : List Value)

/-- The fields of a value; a point in time counts as a record with no field that is known. -/
def Fields.ofValue? : Value → Option Fields
  | .table _ entries => some (.keyed entries)
  | .array items => some (.listed items)
  | .sections tables => some (.listed tables)
  | .datetime => some (.keyed [])
  | _ => none

/-- The value of a field. A field that has no key is missing, but none that has no place. -/
def Fields.find? (fields : Fields) (place : Nat) (key : String) : Option (Option Value) :=
  match fields with
  | keyed entries => some (entries.lookup key)
  | listed items => some <$> items[place]?

/-- A field that may be missing. -/
def Fields.optional {α : Type} (fields : Fields) (place : Nat) (key : String)
    (read : Value → Option α) : Option (Option α) := do
  match ← fields.find? place key with
  | none => return none
  | some value => return some (← read value)

/-- A text. -/
def text? : Value → Option String
  | .string text => some text
  | _ => none

/-- A whole number of 32 bits without sign. -/
def word? : Value → Option UInt32
  | .integer number =>
    if 0 ≤ number ∧ number < Int.pow 2 32 then some number.toNat.toUInt32 else none
  | _ => none

/-- A list of texts. -/
def texts? : Value → Option (List String)
  | .array items => items.mapM text?
  | .sections tables => tables.mapM text?
  | _ => none

/-- The settings that a record holds. The features may be left out of an array as well. -/
def settings? (value : Value) : Option Settings := do
  let fields ← Fields.ofValue? value
  let memory? ← fields.optional 0 "memory" text?
  let cores? ← fields.optional 1 "cores" word?
  let espDir? ← fields.optional 2 "esp-dir" text?
  let firmwareDir? ← fields.optional 3 "firmware-dir" text?
  let llvmBinDir? ← fields.optional 4 "llvm-bin-dir" text?
  let kernelFeatures ←
    match fields.find? 5 "kernel-features" with
    | some (some value) => texts? value
    | _ => some []
  return { memory?, cores?, espDir?, firmwareDir?, llvmBinDir?, kernelFeatures }

/-- The settings in the metadata of a workspace, where it has any. -/
def metadata? (value : Value) : Option (Option Settings) := do
  (← Fields.ofValue? value).optional 0 "corgos" settings?

/-- The settings of a workspace, where it has any. -/
def workspace? (value : Value) : Option (Option Settings) := do
  let metadata ← (← Fields.ofValue? value).optional 0 "metadata" metadata?
  return metadata.join

/-- The settings in a document that describes a workspace; those not given are missing. -/
def ofEntries? (entries : Entries) : Option Settings := do
  let settings ← workspace? (← entries.lookup "workspace")
  return settings.getD {}

/-- The settings that the text of a manifest gives; nothing when it is no manifest of a
workspace. -/
def read? (text : String) : Option Settings := do
  ofEntries? (← Toml.parse? text)

end Manifest

end Bootstage
