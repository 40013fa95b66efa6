/-
**What the schema functions compute.**

* `fingerprint_eq_iff`: two lists of distinct, non-empty, comma-free names have one fingerprint
  exactly when they are the same set.
* `getElem?_extractSchemas_framesOf`: the schemas read back from a recording are, for each type, those
  of its first `record_schema` call.
* `mem_detectDrift`, `detectDrift_ascending`, `detectDrift_swap`: the drift is exactly the types of
  both maps with different fingerprints, in ascending order, and it swaps with its arguments.
-/

import Foldback.Core.Recording
import Foldback.Lib.KeyOrder

namespace Foldback

open Std KeyOrder

/-! ### Fingerprints -/

/-- What the derive macro guarantees of a list of tracked fields. -/
structure FieldNames (fields : List String) : Prop where
  nodup : fields.Nodup
  nonempty : ∀ field ∈ fields, field ≠ ""
  commaFree : ∀ field ∈ fields, ',' ∉ field.toList

/-- Joined names that are not empty and hold no comma can be split again. -/
theorem intercalate_injective {first second : List String}
    (nonempty : ∀ field ∈ first, field ≠ "") (nonempty' : ∀ field ∈ second, field ≠ "")
    (commaFree : ∀ field ∈ first, ',' ∉ field.toList)
    (commaFree' : ∀ field ∈ second, ',' ∉ field.toList)
    (same : ",".intercalate first = ",".intercalate second) : first = second := by
  have split : ∀ fields : List String, (∀ field ∈ fields, ',' ∉ field.toList) →
      (",".intercalate fields).toList.splitOn ',' =
        if fields = [] then [[]] else fields.map String.toList := by
    intro fields commaFree
    rw [String.toList_intercalate]
    split
    · rename_i none
      rw [none]
      rfl
    · rename_i some
      refine List.splitOn_intercalate ',' (fun chars member => ?_) (by simpa using some)
      obtain ⟨field, inside, rfl⟩ := List.mem_map.mp member
      exact commaFree field inside
  have notBlank : ∀ fields : List String, (∀ field ∈ fields, field ≠ "") →
      fields.map String.toList ≠ [[]] := by
    intro fields nonempty blank
    obtain ⟨field, rfl, empty⟩ := List.map_eq_singleton_iff.mp blank
    exact nonempty field (List.mem_singleton_self _) (String.toList_eq_nil_iff.mp empty)
  have parts := split first commaFree
  rw [same, split second commaFree'] at parts
  split at parts <;> split at parts
  · simp_all
  · exact absurd parts.symm (notBlank first nonempty)
  · exact absurd parts (notBlank second nonempty')
  · exact (List.map_injective_iff.mpr (fun _ _ => String.toList_injective) parts).symm

/-- **Fingerprints are equal exactly when the field sets are.** -/
theorem fingerprint_eq_iff {fields fields' : List String} (names : FieldNames fields)
    (names' : FieldNames fields') :
    fingerprint fields = fingerprint fields' ↔ ∀ field, field ∈ fields ↔ field ∈ fields' := by
  have sortedMem : ∀ (fields : List String) (field : String),
      field ∈ fields.insertionSort (· ≤ ·) ↔ field ∈ fields :=
    fun fields field => List.mem_insertionSort _
  constructor
  · intro same field
    have sorted := intercalate_injective
      (fun field member => names.nonempty field ((sortedMem _ _).mp member))
      (fun field member => names'.nonempty field ((sortedMem _ _).mp member))
      (fun field member => names.commaFree field ((sortedMem _ _).mp member))
      (fun field member => names'.commaFree field ((sortedMem _ _).mp member)) same
    rw [← sortedMem fields, sorted, sortedMem fields']
  · intro same
    have perm : fields.Perm fields' := (List.perm_ext_iff_of_nodup names.nodup names'.nodup).mpr same
    have sorted : fields.insertionSort (· ≤ ·) = fields'.insertionSort (· ≤ ·) :=
      List.Perm.eq_of_pairwise' (List.pairwise_insertionSort _ _) (List.pairwise_insertionSort _ _)
        (((List.perm_insertionSort _ _).trans perm).trans (List.perm_insertionSort _ _).symm)
    rw [fingerprint, fingerprint, sorted]

/-! ### Reading schemas back -/

theorem stripPrefix_append (start text : String) : stripPrefix start (start ++ text) = some text := by
  rw [stripPrefix, String.toList_append, if_pos (List.prefix_append _ _), List.drop_left,
    String.ofList_toList]

theorem insertSchema_metadataKey (schemas : SchemaMap) (typeName value : String) :
    insertSchema schemas (.metadata (schemaMetadataKey typeName) value) =
      schemas.insert typeName value := by
  rw [insertSchema, schemaMetadataKey, stripPrefix_append]

/-- The fields given to the first `record_schema` call for a type. -/
def firstSchema (typeName : String) : List Call → Option (List String)
  | [] => none
  | .recordSchema name trackedFields :: calls =>
    if name = typeName then some trackedFields else firstSchema typeName calls
  | _ :: calls => firstSchema typeName calls

/-- Reading on from a map that has the types written before. -/
theorem getElem?_foldl_framesOf (hashBytes : Bytes → UInt64) (localPeerId : UInt16)
    (writtenSchemas : Finset String) (calls : List Call) (schemas : SchemaMap) (typeName : String) :
    ((framesOf hashBytes localPeerId writtenSchemas calls).foldl insertSchema schemas)[typeName]? =
      if typeName ∈ writtenSchemas then schemas[typeName]?
      else ((firstSchema typeName calls).map fingerprint).or schemas[typeName]? := by
  induction calls generalizing writtenSchemas schemas with
  | nil => simp [framesOf, firstSchema]
  | cons call calls ih =>
    rw [framesOf, List.foldl_append, ih]
    cases call with
    | recordSchema name trackedFields =>
      have names : (Call.recordSchema name trackedFields).typeNames.toFinset = {name} := rfl
      by_cases seen : name ∈ writtenSchemas
      · have same : writtenSchemas ∪ {name} = writtenSchemas :=
          Finset.union_eq_left.mpr (Finset.singleton_subset_iff.mpr seen)
        rw [names, same, Call.frames, if_pos seen, firstSchema]
        by_cases here : name = typeName
        · subst here
          simp [seen]
        · simp [here]
      · rw [names, Call.frames, if_neg seen, List.foldl_cons, List.foldl_nil,
          insertSchema_metadataKey, firstSchema]
        by_cases here : name = typeName
        · subst here
          simp [seen]
        · have different : compare name typeName ≠ .eq := fun same =>
            here (LawfulEqCmp.eq_of_compare same)
          have member : typeName ∈ writtenSchemas ∪ {name} ↔ typeName ∈ writtenSchemas := by
            simp [Ne.symm here]
          simp only [ExtTreeMap.getElem?_insert, if_neg different, member, if_neg here]
    | _ =>
      simp [Call.frames, Call.typeNames, insertSchema, firstSchema]

/-- **The schemas of a recording are those of each type's first `record_schema` call.** -/
theorem getElem?_extractSchemas_framesOf (hashBytes : Bytes → UInt64) (localPeerId : UInt16)
    (calls : List Call) (typeName : String) :
    (extractSchemas (framesOf hashBytes localPeerId ∅ calls))[typeName]? =
      (firstSchema typeName calls).map fingerprint := by
  rw [extractSchemas, getElem?_foldl_framesOf]
  simp

/-! ### Drift -/

theorem mem_detectDrift {before after : SchemaMap} {drift : SchemaDrift} :
    drift ∈ detectDrift before after ↔ before[drift.typeName]? = some drift.before ∧
      after[drift.typeName]? = some drift.after ∧ drift.after ≠ drift.before := by
  rw [detectDrift, List.mem_filterMap]
  constructor
  · rintro ⟨⟨typeName, beforeFp⟩, member, found⟩
    rw [driftOf] at found
    split at found
    · rename_i afterFp inAfter
      split at found
      · rename_i differs
        cases found
        exact ⟨ExtTreeMap.mem_toList_iff_getElem?_eq_some.mp member, inAfter, differs⟩
      · cases found
    · cases found
  · rintro ⟨inBefore, inAfter, differs⟩
    refine ⟨(drift.typeName, drift.before), ExtTreeMap.mem_toList_iff_getElem?_eq_some.mpr inBefore, ?_⟩
    rw [driftOf, inAfter]
    exact if_pos differs

/-- The drift is in ascending type-name order, each type once. -/
theorem detectDrift_ascending (before after : SchemaMap) :
    Ascending compare SchemaDrift.typeName (detectDrift before after) := by
  have keyOf : ∀ entry drift, driftOf after entry = some drift → drift.typeName = entry.1 := by
    intro entry drift found
    unfold driftOf at found
    split at found
    · split at found
      · cases found
        rfl
      · cases found
    · cases found
  refine List.pairwise_filterMap.mpr ?_
  refine (ExtTreeMap.ordered_keys_toList (t := before)).imp fun {a b} order => ?_
  intro drift found drift' found'
  rw [keyOf a drift found, keyOf b drift' found']
  exact order

/-- `before` and `after` exchanged. -/
def SchemaDrift.swap (drift : SchemaDrift) : SchemaDrift :=
  ⟨drift.typeName, drift.after, drift.before⟩

/-- **Swapping the recordings swaps `before` and `after` in every entry.** -/
theorem detectDrift_swap (before after : SchemaMap) :
    detectDrift after before = (detectDrift before after).map SchemaDrift.swap := by
  refine (detectDrift_ascending after before).eq_of_mem_iff
    ((detectDrift_ascending before after).map fun _ => rfl) fun drift => ?_
  rw [List.mem_map]
  constructor
  · intro member
    obtain ⟨inAfter, inBefore, differs⟩ := mem_detectDrift.mp member
    exact ⟨drift.swap, mem_detectDrift.mpr ⟨inBefore, inAfter, differs.symm⟩, rfl⟩
  · rintro ⟨drift, member, rfl⟩
    obtain ⟨inBefore, inAfter, differs⟩ := mem_detectDrift.mp member
    exact mem_detectDrift.mpr ⟨inAfter, inBefore, differs.symm⟩

end Foldback
