import Busbar.Json
import Busbar.Lib.Visited

/-!
# Tool schemas for Gemini

A tool's parameters are a JSON schema, of which Gemini accepts a subset and no references into named
definitions. A schema for it is first freed of references, each replaced by the definition it names with the
keywords that stand beside it laid over, and then of the keywords that are rejected. Both walks tell the
positions of keywords from those of names: the keys of a `properties` map are the caller's own.

* `sanitizeGeminiSchema`, `collectGeminiSchemaDefs`, `inlineGeminiSchemaRefs`, `resolveGeminiSchemaRefs`: the
  passes.
* `accepted_sanitize`: no rejected keyword stands where keywords stand in what is sent.
* `sanitize_resolve`: without definitions there is nothing to inline.
-/

namespace Busbar

def geminiSchemaRejectedKeys : List String :=
  ["$schema", "$id", "$ref", "$defs", "definitions", "additionalItems", "patternProperties",
    "unevaluatedProperties", "const", "examples", "$comment"]

def geminiSchemaNameKeyedMaps : List String := ["properties", "dependentSchemas"]

/-- A member whose value is a map from the caller's names to schemas. -/
def nameKeyed (k : String) (v : Json) : Bool := k ∈ geminiSchemaNameKeyedMaps ∧ v.isObject

/-- A member of a schema that Gemini takes: `additionalProperties` only as a boolean. -/
def keepsMember (k : String) (v : Json) : Bool :=
  if k = "additionalProperties" then v.asBool.isSome else k ∉ geminiSchemaRejectedKeys

mutual

def sanitizeGeminiSchema : Json → Json
  | .object members => .object (sanitizeMembers members)
  | .array elems => .array (sanitizeElems elems)
  | .null => .null
  | .bool b => .bool b
  | .number n => .number n
  | .string s => .string s

/-- The members of a schema, where keys are keywords. -/
def sanitizeMembers : List (String × Json) → List (String × Json)
  | [] => []
  | (k, v) :: rest =>
    if k = "additionalProperties" then
      if v.asBool.isSome then (k, v) :: sanitizeMembers rest else sanitizeMembers rest
    else if k ∈ geminiSchemaRejectedKeys then sanitizeMembers rest
    else if k ∈ geminiSchemaNameKeyedMaps then
      -- `sanitize_gemini_schema_names`: a map that is none goes through the keyword walk
      match v with
      | .object names => (k, .object (sanitizeNames names)) :: sanitizeMembers rest
      | v => (k, sanitizeGeminiSchema v) :: sanitizeMembers rest
    else (k, sanitizeGeminiSchema v) :: sanitizeMembers rest

/-- The entries of a name-keyed map: every name stays. -/
def sanitizeNames : List (String × Json) → List (String × Json)
  | [] => []
  | (n, v) :: rest => (n, sanitizeGeminiSchema v) :: sanitizeNames rest

def sanitizeElems : List Json → List Json
  | [] => []
  | v :: rest => sanitizeGeminiSchema v :: sanitizeElems rest

end

/-- The two keywords that hold definitions. -/
def defsKeys : List String := ["$defs", "definitions"]

/-- The entries of one map of definitions; a name collected earlier wins. -/
def collectDefsMap (members : List (String × Json)) (out : List (String × Json)) (defsKey : String) :
    List (String × Json) :=
  match Json.getMember defsKey members with
  | some (.object defs) => defs.foldl (fun out d => Json.orInsertMember d.1 d.2 out) out
  | _ => out

mutual

def collectGeminiSchemaDefs (out : List (String × Json)) : Json → List (String × Json)
  | .object members => collectMembers (defsKeys.foldl (collectDefsMap members) out) members
  | .array elems => collectElems out elems
  | .null | .bool _ | .number _ | .string _ => out

def collectMembers (out : List (String × Json)) : List (String × Json) → List (String × Json)
  | [] => out
  | (k, v) :: rest =>
    if k ∈ defsKeys then collectMembers out rest
    else if k ∈ geminiSchemaNameKeyedMaps then
      match v with
      | .object names => collectMembers (collectNames out names) rest
      | _ => collectMembers out rest
    else collectMembers (collectGeminiSchemaDefs out v) rest

def collectNames (out : List (String × Json)) : List (String × Json) → List (String × Json)
  | [] => out
  | (_, v) :: rest => collectNames (collectGeminiSchemaDefs out v) rest

def collectElems (out : List (String × Json)) : List Json → List (String × Json)
  | [] => out
  | v :: rest => collectElems (collectGeminiSchemaDefs out v) rest

end

/-- The definition a schema's reference names. -/
def refTarget (defs members : List (String × Json)) : Option (String × Json) :=
  match Json.getMember "$ref" members with
  | some (.string r) =>
    match (stripPrefix "#/$defs/" r).or (stripPrefix "#/definitions/" r) with
    | some name => defs.find? (fun d => d.1 == name)
    | none => none
  | _ => none

theorem refTarget_mem {defs members : List (String × Json)} {d : String × Json}
    (h : refTarget defs members = some d) : d ∈ defs := by
  unfold refTarget at h
  split at h
  · split at h
    · exact List.mem_of_find?_eq_some h
    · cases h
  · cases h

/-- The definitions that are not being expanded. -/
def unexpanded (defs : List (String × Json)) (active : List String) : Nat :=
  (Visited.untried Prod.fst defs active).length

theorem unexpanded_lt {defs members : List (String × Json)} {d : String × Json} {active : List String}
    (h : refTarget defs members = some d) (hactive : d.1 ∉ active) :
    unexpanded defs (d.1 :: active) < unexpanded defs active :=
  Visited.untried_lt (fun _ hk => List.mem_cons_of_mem _ hk)
    (Visited.mem_untried.2 ⟨refTarget_mem h, hactive⟩) List.mem_cons_self

mutual

/-- `active` names the definitions being expanded on the way here. -/
def inlineGeminiSchemaRefs (defs : List (String × Json)) (active : List String) : Json → Json
  | .object members =>
    match _h : refTarget defs members with
    | some d =>
      -- a cycle has no finite expansion
      if _hactive : d.1 ∈ active then .object []
      else
        let inlined := inlineGeminiSchemaRefs defs (d.1 :: active) d.2
        if 1 < members.length then
          match inlined with
          | .object inlinedMap =>
            .object ((inlineSiblings defs active members).foldl (fun m s => Json.insertMember s.1 s.2 m) inlinedMap)
          | inlined => inlined
        else inlined
    | none => .object (inlineMembers defs active members)
  | .array elems => .array (inlineElems defs active elems)
  | .null => .null
  | .bool b => .bool b
  | .number n => .number n
  | .string s => .string s
termination_by schema => (unexpanded defs active, sizeOf schema)
decreasing_by
  · exact Prod.Lex.left _ _ (unexpanded_lt _h _hactive)
  all_goals exact Prod.Lex.right _ (by simp)

/-- The keywords beside a reference, each walked as a schema. -/
def inlineSiblings (defs : List (String × Json)) (active : List String) :
    List (String × Json) → List (String × Json)
  | [] => []
  | (k, v) :: rest =>
    if k = "$ref" then inlineSiblings defs active rest
    else (k, inlineGeminiSchemaRefs defs active v) :: inlineSiblings defs active rest
termination_by members => (unexpanded defs active, sizeOf members)

/-- The members of a schema without a reference; its definitions are dropped. -/
def inlineMembers (defs : List (String × Json)) (active : List String) :
    List (String × Json) → List (String × Json)
  | [] => []
  | (k, v) :: rest =>
    if k ∈ defsKeys then inlineMembers defs active rest
    else if k ∈ geminiSchemaNameKeyedMaps then
      match v with
      | .object names => (k, .object (inlineNames defs active names)) :: inlineMembers defs active rest
      | v => (k, inlineGeminiSchemaRefs defs active v) :: inlineMembers defs active rest
    else (k, inlineGeminiSchemaRefs defs active v) :: inlineMembers defs active rest
termination_by members => (unexpanded defs active, sizeOf members)

def inlineNames (defs : List (String × Json)) (active : List String) :
    List (String × Json) → List (String × Json)
  | [] => []
  | (n, v) :: rest => (n, inlineGeminiSchemaRefs defs active v) :: inlineNames defs active rest
termination_by names => (unexpanded defs active, sizeOf names)

def inlineElems (defs : List (String × Json)) (active : List String) : List Json → List Json
  | [] => []
  | v :: rest => inlineGeminiSchemaRefs defs active v :: inlineElems defs active rest
termination_by elems => (unexpanded defs active, sizeOf elems)

end

def resolveGeminiSchemaRefs (schema : Json) : Json :=
  let defs := collectGeminiSchemaDefs [] schema
  if defs.isEmpty then schema else inlineGeminiSchemaRefs defs [] schema

/-! ## The members of a schema, one by one -/

/-- A member's value after the keyword filter. -/
def sanitizedValue (k : String) (v : Json) : Json :=
  match v with
  | .object names => if k ∈ geminiSchemaNameKeyedMaps then .object (sanitizeNames names) else sanitizeGeminiSchema v
  | v => sanitizeGeminiSchema v

/-- A member's value after the references are inlined. -/
def inlinedValue (defs : List (String × Json)) (active : List String) (k : String) (v : Json) : Json :=
  match v with
  | .object names =>
    if k ∈ geminiSchemaNameKeyedMaps then .object (inlineNames defs active names)
    else inlineGeminiSchemaRefs defs active v
  | v => inlineGeminiSchemaRefs defs active v

theorem sanitizedValue_keyword {k : String} {v : Json} (h : nameKeyed k v = false) :
    sanitizedValue k v = sanitizeGeminiSchema v := by
  unfold sanitizedValue
  split
  · rename_i names
    have hk : k ∉ geminiSchemaNameKeyedMaps := by simpa [nameKeyed, Json.isObject] using h
    rw [if_neg hk]
  · rfl

theorem inlinedValue_keyword {defs : List (String × Json)} {active : List String} {k : String} {v : Json}
    (h : nameKeyed k v = false) : inlinedValue defs active k v = inlineGeminiSchemaRefs defs active v := by
  unfold inlinedValue
  split
  · rename_i names
    have hk : k ∉ geminiSchemaNameKeyedMaps := by simpa [nameKeyed, Json.isObject] using h
    rw [if_neg hk]
  · rfl

theorem sanitizeMembers_cons (k : String) (v : Json) (rest : List (String × Json)) :
    sanitizeMembers ((k, v) :: rest) =
      if keepsMember k v then (k, sanitizedValue k v) :: sanitizeMembers rest else sanitizeMembers rest := by
  have hname : "additionalProperties" ∉ geminiSchemaNameKeyedMaps := by decide
  by_cases hk : k = "additionalProperties"
  · subst hk
    cases v <;> simp [sanitizeMembers, keepsMember, sanitizedValue, Json.asBool, sanitizeGeminiSchema]
  · by_cases hr : k ∈ geminiSchemaRejectedKeys
    · cases v <;> simp [sanitizeMembers, keepsMember, hk, hr]
    · by_cases hn : k ∈ geminiSchemaNameKeyedMaps
      · cases v <;> simp [sanitizeMembers, keepsMember, sanitizedValue, hk, hr, hn]
      · cases v <;> simp [sanitizeMembers, keepsMember, sanitizedValue, hk, hr, hn]

theorem inlineMembers_cons (defs : List (String × Json)) (active : List String) (k : String) (v : Json)
    (rest : List (String × Json)) :
    inlineMembers defs active ((k, v) :: rest) =
      if k ∈ defsKeys then inlineMembers defs active rest
      else (k, inlinedValue defs active k v) :: inlineMembers defs active rest := by
  cases v <;> simp only [inlineMembers, inlinedValue, ite_self]
  all_goals split_ifs <;> rfl

theorem getMember_sanitizeMembers {k : String} {v : Json} {members : List (String × Json)}
    (h : Json.getMember k members = some v) (hkeeps : keepsMember k v = true) :
    Json.getMember k (sanitizeMembers members) = some (sanitizedValue k v) := by
  induction members with
  | nil => cases h
  | cons member rest ih =>
    obtain ⟨k', v'⟩ := member
    rw [sanitizeMembers_cons]
    rw [Json.getMember_cons] at h
    by_cases hk : k' = k
    · rw [if_pos hk] at h
      obtain rfl := Option.some.inj h
      rw [hk, if_pos hkeeps, Json.getMember_cons, if_pos rfl]
    · rw [if_neg hk] at h
      have hrest := ih h
      split
      · rw [Json.getMember_cons, if_neg hk]
        exact hrest
      · exact hrest

theorem getMember_inlineMembers {defs : List (String × Json)} {active : List String} {k : String} {v : Json}
    {members : List (String × Json)} (h : Json.getMember k members = some v) (hdefs : k ∉ defsKeys) :
    Json.getMember k (inlineMembers defs active members) = some (inlinedValue defs active k v) := by
  induction members with
  | nil => cases h
  | cons member rest ih =>
    obtain ⟨k', v'⟩ := member
    rw [inlineMembers_cons]
    rw [Json.getMember_cons] at h
    by_cases hk : k' = k
    · rw [if_pos hk] at h
      obtain rfl := Option.some.inj h
      rw [hk, if_neg hdefs, Json.getMember_cons, if_pos rfl]
    · rw [if_neg hk] at h
      have hrest := ih h
      split
      · exact hrest
      · rw [Json.getMember_cons, if_neg hk]
        exact hrest

theorem getMember_sanitizeNames {n : String} {v : Json} {names : List (String × Json)}
    (h : Json.getMember n names = some v) :
    Json.getMember n (sanitizeNames names) = some (sanitizeGeminiSchema v) := by
  induction names with
  | nil => cases h
  | cons entry rest ih =>
    obtain ⟨n', v'⟩ := entry
    rw [sanitizeNames, Json.getMember_cons]
    rw [Json.getMember_cons] at h
    by_cases hn : n' = n
    · rw [if_pos hn] at h ⊢
      rw [Option.some.inj h]
    · rw [if_neg hn] at h ⊢
      exact ih h

theorem getMember_inlineNames {defs : List (String × Json)} {active : List String} {n : String} {v : Json}
    {names : List (String × Json)} (h : Json.getMember n names = some v) :
    Json.getMember n (inlineNames defs active names) = some (inlineGeminiSchemaRefs defs active v) := by
  induction names with
  | nil => cases h
  | cons entry rest ih =>
    obtain ⟨n', v'⟩ := entry
    rw [inlineNames, Json.getMember_cons]
    rw [Json.getMember_cons] at h
    by_cases hn : n' = n
    · rw [if_pos hn] at h ⊢
      rw [Option.some.inj h]
    · rw [if_neg hn] at h ⊢
      exact ih h

/-! ## What is sent has no rejected keyword -/

mutual

/-- No rejected keyword stands in the position of a keyword. -/
def Accepted : Json → Prop
  | .object members => AcceptedMembers members
  | .array elems => AcceptedElems elems
  | .null | .bool _ | .number _ | .string _ => True

def AcceptedMembers : List (String × Json) → Prop
  | [] => True
  | (k, v) :: rest =>
    keepsMember k v = true ∧ AcceptedMembers rest ∧
      match v with
      | .object names =>
        if k ∈ geminiSchemaNameKeyedMaps then AcceptedNames names else AcceptedMembers names
      | v => Accepted v

def AcceptedNames : List (String × Json) → Prop
  | [] => True
  | (_, v) :: rest => Accepted v ∧ AcceptedNames rest

def AcceptedElems : List Json → Prop
  | [] => True
  | v :: rest => Accepted v ∧ AcceptedElems rest

end

theorem sanitizedValue_asBool (k : String) (v : Json) : (sanitizedValue k v).asBool = v.asBool := by
  unfold sanitizedValue
  split
  · split
    · rfl
    · rfl
  · cases v <;> rfl

theorem keepsMember_sanitized {k : String} {v : Json} (h : keepsMember k v = true) :
    keepsMember k (sanitizedValue k v) = true := by
  unfold keepsMember at h ⊢
  rw [sanitizedValue_asBool]
  exact h

/-- A member that is kept is judged by itself. -/
theorem accepted_step {k : String} {v : Json} {rest : List (String × Json)}
    (hrest : AcceptedMembers (sanitizeMembers rest))
    (hv : keepsMember k (sanitizedValue k v) = true → AcceptedMembers [(k, sanitizedValue k v)]) :
    AcceptedMembers (sanitizeMembers ((k, v) :: rest)) := by
  rw [sanitizeMembers_cons]
  split
  · rename_i hkeeps
    have hone := hv (keepsMember_sanitized hkeeps)
    revert hone
    cases sanitizedValue k v <;> simp only [AcceptedMembers] <;> tauto
  · exact hrest

mutual

theorem accepted_sanitize : ∀ schema : Json, Accepted (sanitizeGeminiSchema schema)
  | .object members => by
    simp only [sanitizeGeminiSchema, Accepted]
    exact accepted_sanitizeMembers members
  | .array elems => by
    simp only [sanitizeGeminiSchema, Accepted]
    exact accepted_sanitizeElems elems
  | .null => by simp only [sanitizeGeminiSchema, Accepted]
  | .bool _ => by simp only [sanitizeGeminiSchema, Accepted]
  | .number _ => by simp only [sanitizeGeminiSchema, Accepted]
  | .string _ => by simp only [sanitizeGeminiSchema, Accepted]

theorem accepted_sanitizeMembers : ∀ members : List (String × Json), AcceptedMembers (sanitizeMembers members)
  | [] => by simp only [sanitizeMembers, AcceptedMembers]
  | (k, .object names) :: rest => by
    have hkeywords := accepted_sanitizeMembers names
    have hnames := accepted_sanitizeNames names
    refine accepted_step (accepted_sanitizeMembers rest) fun hkept => ?_
    unfold sanitizedValue at hkept ⊢
    by_cases hk : k ∈ geminiSchemaNameKeyedMaps
    · simp only [if_pos hk] at hkept ⊢
      simp only [AcceptedMembers, if_pos hk]
      exact ⟨hkept, trivial, hnames⟩
    · simp only [if_neg hk, sanitizeGeminiSchema] at hkept ⊢
      simp only [AcceptedMembers, if_neg hk]
      exact ⟨hkept, trivial, hkeywords⟩
  | (k, .array elems) :: rest => by
    have helems := accepted_sanitizeElems elems
    refine accepted_step (accepted_sanitizeMembers rest) fun hkept => ?_
    simp only [sanitizedValue, sanitizeGeminiSchema] at hkept ⊢
    simp only [AcceptedMembers, Accepted]
    exact ⟨hkept, trivial, helems⟩
  | (_, .null) :: rest => accepted_step (accepted_sanitizeMembers rest) fun hkept => ⟨hkept, trivial, trivial⟩
  | (_, .bool _) :: rest => accepted_step (accepted_sanitizeMembers rest) fun hkept => ⟨hkept, trivial, trivial⟩
  | (_, .number _) :: rest => accepted_step (accepted_sanitizeMembers rest) fun hkept => ⟨hkept, trivial, trivial⟩
  | (_, .string _) :: rest => accepted_step (accepted_sanitizeMembers rest) fun hkept => ⟨hkept, trivial, trivial⟩

theorem accepted_sanitizeNames : ∀ names : List (String × Json), AcceptedNames (sanitizeNames names)
  | [] => by simp only [sanitizeNames, AcceptedNames]
  | (_, v) :: rest => by
    simp only [sanitizeNames, AcceptedNames]
    exact ⟨accepted_sanitize v, accepted_sanitizeNames rest⟩

theorem accepted_sanitizeElems : ∀ elems : List Json, AcceptedElems (sanitizeElems elems)
  | [] => by simp only [sanitizeElems, AcceptedElems]
  | v :: rest => by
    simp only [sanitizeElems, AcceptedElems]
    exact ⟨accepted_sanitize v, accepted_sanitizeElems rest⟩

end

/-! ## Without definitions there is nothing to inline -/

theorem refTarget_nil (members : List (String × Json)) : refTarget [] members = none := by
  unfold refTarget
  split
  · split <;> rfl
  · rfl

theorem inlineRefs_object {defs members : List (String × Json)} {active : List String}
    (h : refTarget defs members = none) :
    inlineGeminiSchemaRefs defs active (.object members) = .object (inlineMembers defs active members) := by
  rw [inlineGeminiSchemaRefs]
  split
  · rename_i d hd
    rw [h] at hd
    cases hd
  · rfl

theorem inlinedValue_nil_asBool (active : List String) (k : String) (v : Json) :
    (inlinedValue [] active k v).asBool = v.asBool := by
  unfold inlinedValue
  split
  · rename_i names
    split
    · rfl
    · rw [inlineRefs_object (refTarget_nil names)]
      rfl
  · rename_i hobject
    cases v with
    | object members => exact absurd rfl (hobject members)
    | null | bool _ | number _ | string _ | array _ => simp only [inlineGeminiSchemaRefs, Json.asBool]

mutual

theorem sanitize_inline_nil (active : List String) :
    ∀ schema : Json, sanitizeGeminiSchema (inlineGeminiSchemaRefs [] active schema) = sanitizeGeminiSchema schema
  | .object members => by
    rw [inlineRefs_object (refTarget_nil members)]
    simp only [sanitizeGeminiSchema]
    rw [sanitize_inlineMembers_nil active members]
  | .array elems => by
    simp only [inlineGeminiSchemaRefs, sanitizeGeminiSchema]
    rw [sanitize_inlineElems_nil active elems]
  | .null => by simp only [inlineGeminiSchemaRefs]
  | .bool _ => by simp only [inlineGeminiSchemaRefs]
  | .number _ => by simp only [inlineGeminiSchemaRefs]
  | .string _ => by simp only [inlineGeminiSchemaRefs]

theorem sanitize_inlineMembers_nil (active : List String) :
    ∀ members : List (String × Json), sanitizeMembers (inlineMembers [] active members) = sanitizeMembers members
  | [] => by simp only [inlineMembers]
  | (k, v) :: rest => by
    have hrest := sanitize_inlineMembers_nil active rest
    have hvalue := sanitized_inlinedValue_nil active k v
    rw [inlineMembers_cons, sanitizeMembers_cons]
    by_cases hk : k ∈ defsKeys
    · -- a map of definitions is rejected where it is not dropped before
      have hdrop : keepsMember k v = false := by
        unfold defsKeys at hk
        simp only [List.mem_cons, List.not_mem_nil, or_false] at hk
        rcases hk with rfl | rfl <;> simp [keepsMember, geminiSchemaRejectedKeys]
      rw [if_pos hk, hdrop, hrest]
      rfl
    · have hkeeps : keepsMember k (inlinedValue [] active k v) = keepsMember k v := by
        unfold keepsMember
        rw [inlinedValue_nil_asBool]
      rw [if_neg hk, sanitizeMembers_cons, hkeeps, hvalue, hrest]

theorem sanitized_inlinedValue_nil (active : List String) (k : String) :
    ∀ v : Json, sanitizedValue k (inlinedValue [] active k v) = sanitizedValue k v
  | .object names => by
    have hnames := sanitize_inlineNames_nil active names
    have hkeywords := sanitize_inlineMembers_nil active names
    by_cases hk : k ∈ geminiSchemaNameKeyedMaps
    · simp only [inlinedValue, sanitizedValue, if_pos hk]
      rw [hnames]
    · simp only [inlinedValue, if_neg hk, inlineRefs_object (refTarget_nil names), sanitizedValue,
        sanitizeGeminiSchema]
      rw [hkeywords]
  | .array elems => by
    have helems := sanitize_inlineElems_nil active elems
    simp only [inlinedValue, inlineGeminiSchemaRefs, sanitizedValue, sanitizeGeminiSchema]
    rw [helems]
  | .null => by simp only [inlinedValue, inlineGeminiSchemaRefs]
  | .bool _ => by simp only [inlinedValue, inlineGeminiSchemaRefs]
  | .number _ => by simp only [inlinedValue, inlineGeminiSchemaRefs]
  | .string _ => by simp only [inlinedValue, inlineGeminiSchemaRefs]

theorem sanitize_inlineNames_nil (active : List String) :
    ∀ names : List (String × Json), sanitizeNames (inlineNames [] active names) = sanitizeNames names
  | [] => by simp only [inlineNames]
  | (_, v) :: rest => by
    simp only [inlineNames, sanitizeNames]
    rw [sanitize_inline_nil active v, sanitize_inlineNames_nil active rest]

theorem sanitize_inlineElems_nil (active : List String) :
    ∀ elems : List Json, sanitizeElems (inlineElems [] active elems) = sanitizeElems elems
  | [] => by simp only [inlineElems]
  | v :: rest => by
    simp only [inlineElems, sanitizeElems]
    rw [sanitize_inline_nil active v, sanitize_inlineElems_nil active rest]

end

/-- What is sent is always the inlined schema without its rejected keywords. -/
theorem sanitize_resolve (schema : Json) :
    sanitizeGeminiSchema (resolveGeminiSchemaRefs schema) =
      sanitizeGeminiSchema (inlineGeminiSchemaRefs (collectGeminiSchemaDefs [] schema) [] schema) := by
  unfold resolveGeminiSchemaRefs
  dsimp only
  split
  · rename_i hempty
    rw [List.isEmpty_iff.1 hempty, sanitize_inline_nil]
  · rfl

end Busbar
