import Foxdbg.Lib.Json

/-!
# JSON Schema

Validity of a JSON value under a schema that uses the keywords `type` and `properties`. A schema is
a JSON value itself. Keywords that only describe (`title`, `description`) do not constrain, and a
property that the object does not have is not required.
-/

namespace Json

/-- The member of an object with this key. -/
def member? (k : Bytes) : Json → Option Json
  | .obj members => (members.find? fun kv => kv.1 == k).map (·.2)
  | _ => none

/-- The values of a primitive type. An integer is a number with no fraction as its text has it. -/
def HasType (type : Bytes) : Json → Prop
  | .null => type = ascii "null"
  | .bool _ => type = ascii "boolean"
  | .int _ => type = ascii "integer" ∨ type = ascii "number"
  | .float _ => type = ascii "number"
  | .str _ => type = ascii "string"
  | .arr _ => type = ascii "array"
  | .obj _ => type = ascii "object"

instance (type : Bytes) (j : Json) : Decidable (HasType type j) := by
  cases j <;> unfold HasType <;> infer_instance

/-- The value is valid under the schema. -/
inductive Valid : Json → Json → Prop
  | intro {schema j : Json} :
      (∀ type, schema.find? "type" = some (.str type) → HasType type j) →
      (∀ properties k sub v, schema.find? "properties" = some (.obj properties) →
        (k, sub) ∈ properties → j.member? k = some v → Valid sub v) →
      Valid schema j

variable {schema j v : Json}

theorem Valid.hasType {type : Bytes} (h : Valid schema j)
    (htype : schema.find? "type" = some (.str type)) : HasType type j := by
  obtain ⟨ht, -⟩ := h
  exact ht type htype

theorem Valid.property {properties : List (Bytes × Json)} {k : Bytes} {sub : Json}
    (h : Valid schema j) (hp : schema.find? "properties" = some (.obj properties))
    (hk : (k, sub) ∈ properties) (hv : j.member? k = some v) : Valid sub v := by
  obtain ⟨-, hprops⟩ := h
  exact hprops properties k sub v hp hk hv

/-- A schema without properties constrains the type only. -/
theorem valid_of_type {type : Bytes} (htype : schema.find? "type" = some (.str type))
    (hnone : schema.find? "properties" = none) : Valid schema j ↔ HasType type j := by
  refine ⟨fun h => h.hasType htype, fun h => .intro (fun type' ht => ?_) fun _ _ _ _ hp => ?_⟩
  · cases htype.symm.trans ht
    exact h
  · cases hnone.symm.trans hp

end Json
