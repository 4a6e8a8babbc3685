import Skiff.ServiceDb.Cascade

/-!
# Files that move

One write may take a file from one path to another. The cascade compares the old and the new
document path by path, so it deletes such a file although the new document holds it. It spares
every file of the new document exactly if each of those that the old one held too stays at its path.
-/

namespace Skiff.ServiceDb

open List

variable {old new : MongoDocument} {change : ServiceDbChange} {paths : List (List String)}
variable {path : List String} {id : String}

/-- None of the files that the plan deletes is in the new document. -/
def CascadeFileDeletePlan.Spares (plan : CascadeFileDeletePlan) (new : MongoDocument)
    (paths : List (List String)) : Prop :=
  ∀ id ∈ plan.fileIds, ∀ path ∈ paths, fileIdAtPath new path ≠ some id

/-- What a change writes at a path: the value that it sets there, or else at the first field above
that it sets, and the way from that field to the path. -/
inductive ServiceDbChange.Assigns (change : ServiceDbChange) (path : List String) :
    Json.Value → List String → Prop
  | there {value : Json.Value} : change.setValue (String.intercalate "." path) = some value →
      Assigns change path value []
  | above {field : String} {value : Json.Value} :
      change.setValue (String.intercalate "." path) = none →
      (change.setEntries.find? fun entry => isAncestorPath entry.1 path) = some (field, value) →
      Assigns change path value (path.drop (splitPath field).length)

/-- A change leaves the file of a path where it is: neither the path nor a field above it is unset,
and what is written there holds the same file. -/
structure ServiceDbChange.Leaves (change : ServiceDbChange) (path : List String) (id : String) :
    Prop where
  unset : ∀ field ∈ change.unsetFields,
    field ≠ String.intercalate "." path ∧ isAncestorPath field path = false
  set : ∀ value rest, change.Assigns path value rest →
    fileIdFromJsonAtPath value.tree rest = some id

theorem mem_cascadePlanForReplacement : id ∈ (cascadePlanForReplacement old new paths).fileIds ↔
    ∃ path ∈ paths, fileIdAtPath old path = some id ∧ ¬ fileIdAtPath new path = some id := by
  rw [cascadePlanForReplacement, mem_orderedSet, mem_filterMap]
  refine exists_congr fun path => and_congr_right fun _ => ?_
  rw [Option.filter_eq_some_iff, decide_eq_true_eq]

theorem leaves_iff : change.Leaves path id ↔
    ∀ newId, change.replacementFileIdForChangePath path = some newId → newId = some id := by
  rw [ServiceDbChange.replacementFileIdForChangePath]
  split
  case isTrue hany =>
    obtain ⟨field, hfield, htouched⟩ := any_eq_true.mp hany
    refine iff_of_false (fun h => ?_) fun h => by cases h none rfl
    obtain ⟨hne, habove⟩ := h.unset field hfield
    simp [hne, habove] at htouched
  case isFalse hnone =>
    have hunset : ∀ field ∈ change.unsetFields,
        field ≠ String.intercalate "." path ∧ isAncestorPath field path = false := by
      intro field hfield
      have htouched := mt (fun h => any_eq_true.mpr ⟨field, hfield, h⟩) hnone
      simpa using htouched
    constructor
    · intro h newId hnew
      cases hset : change.setValue (String.intercalate "." path) with
      | some value =>
        rw [hset] at hnew
        obtain rfl := Option.some.inj hnew
        exact h.set value [] (.there hset)
      | none =>
        rw [hset] at hnew
        obtain ⟨entry, hentry, rfl⟩ := Option.map_eq_some_iff.mp hnew
        exact h.set _ _ (.above hset hentry)
    refine fun h => ⟨hunset, fun value rest hassigns => ?_⟩
    cases hassigns with
    | there hset =>
      rw [hset] at h
      exact h _ rfl
    | above hset hentry =>
      rw [hset, hentry] at h
      exact h _ rfl

theorem mem_cascadePlanForChange : id ∈ (cascadePlanForChange old change paths).fileIds ↔
    ∃ path ∈ paths, fileIdAtPath old path = some id ∧ ¬ change.Leaves path id := by
  rw [cascadePlanForChange, mem_orderedSet, mem_filterMap]
  refine exists_congr fun path => and_congr_right fun _ => ?_
  rw [leaves_iff]
  cases fileIdAtPath old path with
  | none => simp
  | some oldId =>
    cases change.replacementFileIdForChangePath path with
    | none => simp
    | some newId =>
      by_cases hid : oldId = id
      · subst hid
        simp
      · simp [hid]

/-- A plan that deletes what does not stay spares the files that stay. -/
theorem spares_iff {plan : CascadeFileDeletePlan} {Stays : List String → String → Prop}
    (h : ∀ {id}, id ∈ plan.fileIds ↔
      ∃ path ∈ paths, fileIdAtPath old path = some id ∧ ¬ Stays path id) :
    plan.Spares new paths ↔ ∀ path ∈ paths, ∀ id, fileIdAtPath old path = some id →
      (∃ other ∈ paths, fileIdAtPath new other = some id) → Stays path id := by
  constructor
  · rintro hspares path hpath id hold ⟨other, hother, hnew⟩
    by_contra hgone
    exact hspares id (h.mpr ⟨path, hpath, hold, hgone⟩) other hother hnew
  intro hstays id hid other hother hnew
  obtain ⟨path, hpath, hold, hgone⟩ := h.mp hid
  exact hgone (hstays path hpath id hold ⟨other, hother, hnew⟩)

/-- A record with two files. -/
def twoFiles (request response : String) : MongoDocument :=
  ((∅ : MongoDocument).insert "request" (.document [("id", .string request)])).insert "response"
    (.document [("id", .string response)])

end Skiff.ServiceDb
