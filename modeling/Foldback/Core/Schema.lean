/-
**Schema-drift detection, as `schema.rs` computes it.**

A type's tagged fields are recorded as one `Metadata` frame: the key is the prefixed type name, the
value the sorted, comma-joined field names (`fingerprint`). `extractSchemas` reads such frames back
into a map, `detectDrift` compares two maps.
-/

import Foldback.Core.Format

namespace Foldback

open Std

def schemaKeyPrefix : String := "foldback.schema."

def schemaMetadataKey (typeName : String) : String := schemaKeyPrefix ++ typeName

/-- `sort_unstable` on distinct strings is any sort; strings compare by code points. -/
def fingerprint (trackedFields : List String) : String :=
  ",".intercalate (trackedFields.insertionSort (· ≤ ·))

/-- `str::strip_prefix`. -/
def stripPrefix (start text : String) : Option String :=
  if start.toList <+: text.toList then some (String.ofList (text.toList.drop start.toList.length))
  else none

structure SchemaDrift where
  typeName : String
  before : String
  after : String
  deriving DecidableEq, Repr

/-- `BTreeMap<String, String>`: type name to fingerprint. -/
abbrev SchemaMap := ExtTreeMap String String

/-- One frame's contribution: a later entry for the same type overwrites an earlier one. -/
def insertSchema (schemas : SchemaMap) : Frame → SchemaMap
  | .metadata key value =>
    match stripPrefix schemaKeyPrefix key with
    | some typeName => schemas.insert typeName value
    | none => schemas
  | _ => schemas

def extractSchemas (frames : List Frame) : SchemaMap := frames.foldl insertSchema ∅

/-- The drift of one type of `before`, if it is in `after` with another fingerprint. -/
def driftOf (after : SchemaMap) (entry : String × String) : Option SchemaDrift :=
  match after[entry.1]? with
  | some afterFp => if afterFp ≠ entry.2 then some ⟨entry.1, entry.2, afterFp⟩ else none
  | none => none

def detectDrift (before after : SchemaMap) : List SchemaDrift :=
  before.toList.filterMap (driftOf after)

end Foldback
