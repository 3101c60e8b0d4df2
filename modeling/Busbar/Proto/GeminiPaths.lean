import Busbar.Proto.GeminiSchema

/-!
# The paths of a schema that Gemini is sent

A field of a tool's parameters is reached by a path: keywords, names the caller chose, items, and references
on the way, which are followed. The passes of `GeminiSchema` keep these paths, so no field of the caller is
lost, whatever its name.

* `Leads`: the paths of a schema with its references followed.
* `leads_kept`: each leads to the same place in what is sent.
* `Defines`: the definitions are those that stand where keywords stand.
* `schema_paths_kept`: the result, with the required lists.
-/

namespace Busbar

/-! ## Paths -/

/-- A step into a document. -/
inductive JsonStep where
  | key (k : String)
  | item (i : Nat)
  deriving DecidableEq, Repr

/-- What stands at a path. -/
def Json.at? (j : Json) : List JsonStep → Option Json
  | [] => some j
  | .key k :: path => (j.get k).bind (fun v => v.at? path)
  | .item i :: path => (j.asArray.bind (fun elems => elems[i]?)).bind (fun v => v.at? path)

/-- A schema that becomes an object: it is one, and every reference it follows ends in one. -/
inductive Opens (defs : List (String × Json)) : List String → Json → Prop
  | plain {active members} : refTarget defs members = none → Opens defs active (.object members)
  | cycle {active members d} : refTarget defs members = some d → d.1 ∈ active → Opens defs active (.object members)
  | follow {active members d} : refTarget defs members = some d → d.1 ∉ active →
      Opens defs (d.1 :: active) d.2 → Opens defs active (.object members)

/-- A path of a schema whose references are followed, to the schema that stands there with the definitions
being expanded then. Where keywords stand beside a reference they are laid over its definition's. Nothing
is said of a name-keyed map beside a reference where it has a reference or definitions itself. -/
inductive Leads (defs : List (String × Json)) :
    List String → Json → List JsonStep → List String → Json → Prop
  | here (active schema) : Leads defs active schema [] active schema
  | item {active elems i v path a t} : elems[i]? = some v → Leads defs active v path a t →
      Leads defs active (.array elems) (.item i :: path) a t
  /-- A keyword of a schema that is no reference. -/
  | keyword {active members k v path a t} : refTarget defs members = none →
      Json.getMember k members = some v → keepsMember k v = true → nameKeyed k v = false →
      Leads defs active v path a t → Leads defs active (.object members) (.key k :: path) a t
  /-- A name, whatever it is. -/
  | name {active members k names n v path a t} : refTarget defs members = none → k ∈ geminiSchemaNameKeyedMaps →
      Json.getMember k members = some (.object names) → Json.getMember n names = some v →
      Leads defs active v path a t → Leads defs active (.object members) (.key k :: .key n :: path) a t
  /-- A reference that stands alone. -/
  | alone {active members d path a t} : refTarget defs members = some d → d.1 ∉ active → members.length ≤ 1 →
      Leads defs (d.1 :: active) d.2 path a t → Leads defs active (.object members) path a t
  /-- A keyword of the definition that nothing beside the reference overrides. -/
  | target {active members d k path a t} : refTarget defs members = some d → d.1 ∉ active →
      Json.getMember k members = none → Leads defs (d.1 :: active) d.2 (.key k :: path) a t →
      Leads defs active (.object members) (.key k :: path) a t
  /-- A keyword beside the reference. -/
  | beside {active members d k v path a t} : refTarget defs members = some d → d.1 ∉ active →
      Opens defs (d.1 :: active) d.2 → (members.map Prod.fst).Nodup → Json.getMember k members = some v →
      keepsMember k v = true → nameKeyed k v = false → Leads defs active v path a t →
      Leads defs active (.object members) (.key k :: path) a t
  /-- A name of a map beside the reference. -/
  | nameBeside {active members d k names n v path a t} : refTarget defs members = some d → d.1 ∉ active →
      Opens defs (d.1 :: active) d.2 → (members.map Prod.fst).Nodup → k ∈ geminiSchemaNameKeyedMaps →
      Json.getMember k members = some (.object names) → refTarget defs names = none → n ∉ defsKeys →
      Json.getMember n names = some v → nameKeyed n v = false → Leads defs active v path a t →
      Leads defs active (.object members) (.key k :: .key n :: path) a t

/-! ### References, followed -/

section References

variable {defs members : List (String × Json)} {active : List String} {d : String × Json}

theorem inlineRefs_cycle (h : refTarget defs members = some d) (hactive : d.1 ∈ active) :
    inlineGeminiSchemaRefs defs active (.object members) = .object [] := by
  rw [inlineGeminiSchemaRefs]
  split
  · rename_i d' hd
    rw [h] at hd
    obtain rfl := Option.some.inj hd
    rw [dif_pos hactive]
  · rename_i hnone
    rw [h] at hnone
    cases hnone

/-- The keywords beside a reference, laid over what its definition became. -/
def overlaid (defs : List (String × Json)) (active : List String) (members inlinedMap : List (String × Json)) :
    List (String × Json) :=
  (inlineSiblings defs active members).foldl (fun m s => Json.insertMember s.1 s.2 m) inlinedMap

theorem inlineRefs_follow (h : refTarget defs members = some d) (hactive : d.1 ∉ active) :
    inlineGeminiSchemaRefs defs active (.object members) =
      if 1 < members.length then
        match inlineGeminiSchemaRefs defs (d.1 :: active) d.2 with
        | .object inlinedMap => .object (overlaid defs active members inlinedMap)
        | inlined => inlined
      else inlineGeminiSchemaRefs defs (d.1 :: active) d.2 := by
  rw [inlineGeminiSchemaRefs]
  split
  · rename_i d' hd
    rw [h] at hd
    obtain rfl := Option.some.inj hd
    rw [dif_neg hactive]
    rfl
  · rename_i hnone
    rw [h] at hnone
    cases hnone

theorem Opens.inlined {schema : Json} (h : Opens defs active schema) :
    ∃ inlinedMap, inlineGeminiSchemaRefs defs active schema = .object inlinedMap := by
  induction h with
  | plain hnone => exact ⟨_, inlineRefs_object hnone⟩
  | cycle hsome hactive => exact ⟨[], inlineRefs_cycle hsome hactive⟩
  | follow hsome hactive _ ih =>
    obtain ⟨inlinedMap, hinlined⟩ := ih
    rw [inlineRefs_follow hsome hactive, hinlined]
    split
    · exact ⟨_, rfl⟩
    · exact ⟨_, rfl⟩

/-- A reference with a keyword beside it has two members. -/
theorem two_members {k : String} {v : Json} (h : refTarget defs members = some d)
    (hk : Json.getMember k members = some v) (href : k ≠ "$ref") : 1 < members.length := by
  have hr : ∃ r, Json.getMember "$ref" members = some r := by
    unfold refTarget at h
    split at h
    · rename_i r hr
      exact ⟨_, hr⟩
    · cases h
  obtain ⟨r, hr⟩ := hr
  match members, hk, hr with
  | [], hk, _ => cases hk
  | [m], hk, hr =>
    obtain ⟨k', v'⟩ := m
    rw [Json.getMember_cons, Json.getMember_nil] at hk hr
    by_cases hkk : k' = k
    · rw [if_neg (hkk ▸ href)] at hr
      cases hr
    · rw [if_neg hkk] at hk
      cases hk
  | _ :: _ :: rest, _, _ =>
    simp only [List.length_cons]
    omega

/-- Inserting members of other names keeps a member. -/
theorem sanitizeMembers_insertMember {k k' : String} (v : Json) (hk : k ≠ k') (ms : List (String × Json)) :
    Json.getMember k (sanitizeMembers (Json.insertMember k' v ms)) = Json.getMember k (sanitizeMembers ms) := by
  have hskip : ∀ (v : Json) (ms : List (String × Json)),
      Json.getMember k (sanitizeMembers ((k', v) :: ms)) = Json.getMember k (sanitizeMembers ms) := by
    intro v ms
    rw [sanitizeMembers_cons]
    split
    · rw [Json.getMember_cons, if_neg (Ne.symm hk)]
    · rfl
  induction ms with
  | nil => exact hskip v []
  | cons m rest ih =>
    obtain ⟨k'', v''⟩ := m
    unfold Json.insertMember
    by_cases he : k' = k''
    · rw [if_pos he, hskip, ← he, hskip]
    · rw [if_neg he]
      split
      · rw [hskip]
      · rw [sanitizeMembers_cons, sanitizeMembers_cons]
        split
        · rw [Json.getMember_cons, Json.getMember_cons, ih]
        · exact ih

theorem mem_inlineSiblings {s : String × Json} (h : s ∈ inlineSiblings defs active members) :
    ∃ v, Json.getMember s.1 members = some v := by
  induction members with
  | nil =>
    rw [inlineSiblings] at h
    cases h
  | cons m rest ih =>
    obtain ⟨k, v⟩ := m
    rw [inlineSiblings] at h
    rw [Json.getMember_cons]
    by_cases hk : k = s.1
    · exact ⟨v, if_pos hk⟩
    · rw [if_neg hk]
      refine ih ?_
      split at h
      · exact h
      · rcases List.mem_cons.1 h with heq | hrest
        · exact absurd (congrArg Prod.fst heq).symm hk
        · exact hrest

/-- A keyword that nothing overrides is the definition's. -/
theorem sanitize_overlaid_target {k : String} (hk : Json.getMember k members = none)
    (inlinedMap : List (String × Json)) :
    Json.getMember k (sanitizeMembers (overlaid defs active members inlinedMap)) =
      Json.getMember k (sanitizeMembers inlinedMap) := by
  have hother : ∀ s ∈ inlineSiblings defs active members, k ≠ s.1 := by
    intro s hs heq
    obtain ⟨v, hv⟩ := mem_inlineSiblings hs
    rw [← heq, hk] at hv
    cases hv
  unfold overlaid
  generalize inlineSiblings defs active members = siblings at hother
  induction siblings generalizing inlinedMap with
  | nil => rfl
  | cons s rest ih =>
    rw [List.foldl_cons, ih _ (fun s' hs' => hother s' (List.mem_cons_of_mem _ hs'))]
    exact sanitizeMembers_insertMember _ (hother s List.mem_cons_self) inlinedMap

/-- A keyword beside the reference takes its place. -/
theorem getMember_overlaid {k : String} {v : Json} (hnodup : (members.map Prod.fst).Nodup)
    (hk : Json.getMember k members = some v) (href : k ≠ "$ref") (inlinedMap : List (String × Json)) :
    Json.getMember k (overlaid defs active members inlinedMap) = some (inlineGeminiSchemaRefs defs active v) := by
  have hkeep : ∀ (siblings ms : List (String × Json)), (∀ s ∈ siblings, k ≠ s.1) →
      Json.getMember k (siblings.foldl (fun m s => Json.insertMember s.1 s.2 m) ms) = Json.getMember k ms := by
    intro siblings
    induction siblings with
    | nil => exact fun ms _ => rfl
    | cons s rest ih =>
      intro ms hother
      rw [List.foldl_cons, ih _ (fun s' hs' => hother s' (List.mem_cons_of_mem _ hs')),
        Json.getMember_insertMember, if_neg (hother s List.mem_cons_self)]
  unfold overlaid
  induction members generalizing inlinedMap with
  | nil => cases hk
  | cons m rest ih =>
    obtain ⟨k', v'⟩ := m
    obtain ⟨hfresh, hrest⟩ := List.nodup_cons.1 hnodup
    rw [Json.getMember_cons] at hk
    rw [inlineSiblings]
    by_cases hkk : k' = k
    · rw [if_pos hkk] at hk
      obtain rfl := Option.some.inj hk
      have hne : k' ≠ "$ref" := hkk ▸ href
      rw [if_neg hne, List.foldl_cons, hkk]
      -- no later sibling has the same name
      rw [hkeep, Json.getMember_insertMember, if_pos rfl]
      intro s hs heq
      obtain ⟨w, hw⟩ := mem_inlineSiblings hs
      have hmem : s.1 ∈ rest.map Prod.fst := by
        have hfound : (s.1, w) ∈ rest := by
          unfold Json.getMember at hw
          obtain ⟨e, he, hew⟩ := Option.map_eq_some_iff.1 hw
          have hkey : e.1 = s.1 := by simpa using List.find?_some he
          have hin := List.mem_of_find?_eq_some he
          rw [← hkey, ← hew]
          exact hin
        exact List.mem_map.2 ⟨_, hfound, rfl⟩
      have hk'mem : k' ∈ rest.map Prod.fst := by
        rw [hkk, heq]
        exact hmem
      exact hfresh hk'mem
    · rw [if_neg hkk] at hk
      split
      · exact ih hrest hk inlinedMap
      · rw [List.foldl_cons]
        exact ih hrest hk _

end References

/-! ### Every path is kept -/

theorem at_key_object (members : List (String × Json)) (k : String) (path : List JsonStep) :
    (Json.object members).at? (.key k :: path) = (Json.getMember k members).bind (fun v => v.at? path) := rfl

/-- What stands under a key of what is sent. -/
theorem at_key_sanitize (members : List (String × Json)) (k : String) (path : List JsonStep) :
    (sanitizeGeminiSchema (.object members)).at? (.key k :: path) =
      (Json.getMember k (sanitizeMembers members)).bind (fun v => v.at? path) := by
  rw [sanitizeGeminiSchema, at_key_object]

theorem keepsMember_not_defs {k : String} {v : Json} (h : keepsMember k v = true) : k ∉ defsKeys := by
  intro hk
  unfold defsKeys at hk
  simp only [List.mem_cons, List.not_mem_nil, or_false] at hk
  rcases hk with rfl | rfl
  · simp [keepsMember, geminiSchemaRejectedKeys] at h
  · simp [keepsMember, geminiSchemaRejectedKeys] at h

theorem keepsMember_not_ref {k : String} {v : Json} (h : keepsMember k v = true) : k ≠ "$ref" := by
  rintro rfl
  simp [keepsMember, geminiSchemaRejectedKeys] at h

/-- The name-keyed maps are no rejected keywords, whatever they hold. -/
theorem keepsMember_nameKeyed {k : String} (v : Json) (h : k ∈ geminiSchemaNameKeyedMaps) :
    keepsMember k v = true := by
  unfold geminiSchemaNameKeyedMaps at h
  simp only [List.mem_cons, List.not_mem_nil, or_false] at h
  rcases h with rfl | rfl
  · simp [keepsMember, geminiSchemaRejectedKeys]
  · simp [keepsMember, geminiSchemaRejectedKeys]

section Kept

variable {defs : List (String × Json)} {active : List String}

/-- A boolean stays one. -/
theorem inline_asBool {v : Json} (h : v.asBool.isSome = true) : inlineGeminiSchemaRefs defs active v = v := by
  cases v with
  | bool b => rw [inlineGeminiSchemaRefs]
  | null | number _ | string _ | array _ | object _ => cases h

theorem keepsMember_inline {k : String} {v : Json} (h : keepsMember k v = true) :
    keepsMember k (inlineGeminiSchemaRefs defs active v) = true := by
  unfold keepsMember at h ⊢
  by_cases hk : k = "additionalProperties"
  · rw [if_pos hk] at h ⊢
    rw [inline_asBool h]
    exact h
  · rw [if_neg hk] at h ⊢
    exact h

/-- What is no object does not become one. -/
theorem nameKeyed_inline {k : String} {v : Json} (h : nameKeyed k v = false) :
    nameKeyed k (inlineGeminiSchemaRefs defs active v) = false := by
  unfold nameKeyed at h ⊢
  by_cases hk : k ∈ geminiSchemaNameKeyedMaps
  · have hv : v.isObject = false := by simpa [hk] using h
    cases v with
    | object members => cases hv
    | null | bool _ | number _ | string _ | array _ => simp [inlineGeminiSchemaRefs, Json.isObject]
  · simp [hk]

/-- A keyword's value, both passes done. -/
theorem getMember_kept {k : String} {v : Json} {ms : List (String × Json)}
    (hkeeps : keepsMember k v = true) (hname : nameKeyed k v = false)
    (h : Json.getMember k ms = some (inlineGeminiSchemaRefs defs active v)) :
    Json.getMember k (sanitizeMembers ms) = some (sanitizeGeminiSchema (inlineGeminiSchemaRefs defs active v)) := by
  have hstill : nameKeyed k (inlineGeminiSchemaRefs defs active v) = false := nameKeyed_inline hname
  have hvalue := sanitizedValue_keyword hstill
  rw [getMember_sanitizeMembers h (keepsMember_inline hkeeps), hvalue]

theorem leads_kept {schema t : Json} {a : List String} {path : List JsonStep}
    (h : Leads defs active schema path a t) :
    (sanitizeGeminiSchema (inlineGeminiSchemaRefs defs active schema)).at? path =
      some (sanitizeGeminiSchema (inlineGeminiSchemaRefs defs a t)) := by
  induction h with
  | here active schema => rfl
  | @item active elems i v path a t hi _ ih =>
    have hinline : ∀ (es : List Json) (i : Nat), es[i]? = some v →
        (sanitizeElems (inlineElems defs active es))[i]? =
          some (sanitizeGeminiSchema (inlineGeminiSchemaRefs defs active v)) := by
      intro es
      induction es with
      | nil => intro i hi; cases hi
      | cons e rest ihes =>
        intro i hi
        rw [inlineElems, sanitizeElems]
        cases i with
        | zero =>
          obtain rfl := Option.some.inj hi
          rfl
        | succ i => exact ihes i hi
    rw [inlineGeminiSchemaRefs, sanitizeGeminiSchema]
    unfold Json.at?
    have hes := hinline elems i hi
    simp only [Json.asArray, Option.bind_some, hes]
    exact ih
  | @keyword active members k v path a t hplain hk hkeeps hname _ ih =>
    have hmember : Json.getMember k (inlineMembers defs active members) =
        some (inlineGeminiSchemaRefs defs active v) := by
      rw [getMember_inlineMembers hk (keepsMember_not_defs hkeeps), inlinedValue_keyword hname]
    rw [inlineRefs_object hplain, at_key_sanitize, getMember_kept hkeeps hname hmember, Option.bind_some]
    exact ih
  | @name active members k names n v path a t hplain hkey hk hn _ ih =>
    have hkeeps := keepsMember_nameKeyed (.object names) hkey
    have hmember : Json.getMember k (inlineMembers defs active members) =
        some (.object (inlineNames defs active names)) := by
      rw [getMember_inlineMembers hk (keepsMember_not_defs hkeeps), inlinedValue, if_pos hkey]
    have hsent : Json.getMember k (sanitizeMembers (inlineMembers defs active members)) =
        some (.object (sanitizeNames (inlineNames defs active names))) := by
      rw [getMember_sanitizeMembers hmember (keepsMember_nameKeyed _ hkey), sanitizedValue, if_pos hkey]
    have hinlined : Json.getMember n (inlineNames defs active names) = some (inlineGeminiSchemaRefs defs active v) :=
      getMember_inlineNames hn
    have hentry := getMember_sanitizeNames hinlined
    rw [inlineRefs_object hplain, at_key_sanitize, hsent, Option.bind_some, at_key_object, hentry, Option.bind_some]
    exact ih
  | @alone active members d path a t href hactive hlen _ ih =>
    have hnot : ¬ 1 < members.length := by omega
    rw [inlineRefs_follow href hactive, if_neg hnot]
    exact ih
  | @target active members d k path a t href hactive hk _ ih =>
    rw [inlineRefs_follow href hactive]
    split
    · split
      · rename_i inlinedMap hinlined
        rw [hinlined, at_key_sanitize] at ih
        rw [at_key_sanitize, sanitize_overlaid_target hk]
        exact ih
      · exact ih
    · exact ih
  | @beside active members d k v path a t href hactive hopens hnodup hk hkeeps hname _ ih =>
    obtain ⟨inlinedMap, hinlined⟩ := hopens.inlined
    have hmember : Json.getMember k (overlaid defs active members inlinedMap) =
        some (inlineGeminiSchemaRefs defs active v) :=
      getMember_overlaid hnodup hk (keepsMember_not_ref hkeeps) inlinedMap
    have hsent := getMember_kept hkeeps hname hmember
    by_cases hlen : 1 < members.length
    · rw [inlineRefs_follow href hactive, if_pos hlen, hinlined]
      dsimp only
      rw [at_key_sanitize, hsent, Option.bind_some]
      exact ih
    · -- a reference alone has nothing beside it
      exact absurd (two_members href hk (keepsMember_not_ref hkeeps)) hlen
  | @nameBeside active members d k names n v path a t href hactive hopens hnodup hkey hk hplain hdefs hn hname _ ih =>
    obtain ⟨inlinedMap, hinlined⟩ := hopens.inlined
    have hne := keepsMember_not_ref (keepsMember_nameKeyed (.object names) hkey)
    have hmember : Json.getMember k (overlaid defs active members inlinedMap) =
        some (inlineGeminiSchemaRefs defs active (.object names)) := getMember_overlaid hnodup hk hne inlinedMap
    rw [inlineRefs_object hplain] at hmember
    have hsent : Json.getMember k (sanitizeMembers (overlaid defs active members inlinedMap)) =
        some (.object (sanitizeNames (inlineMembers defs active names))) := by
      rw [getMember_sanitizeMembers hmember (keepsMember_nameKeyed _ hkey), sanitizedValue, if_pos hkey]
    have hvalue : Json.getMember n (inlineMembers defs active names) = some (inlineGeminiSchemaRefs defs active v) := by
      rw [getMember_inlineMembers hn hdefs, inlinedValue_keyword hname]
    have hentry := getMember_sanitizeNames hvalue
    by_cases hlen : 1 < members.length
    · rw [inlineRefs_follow href hactive, if_pos hlen, hinlined]
      dsimp only
      rw [at_key_sanitize, hsent, Option.bind_some, at_key_object, hentry, Option.bind_some]
      exact ih
    · exact absurd (two_members href hk hne) hlen

end Kept

/-! ## Where definitions are found -/

/-- A definition in a map of definitions that stands where keywords stand. -/
inductive Defines : Json → String × Json → Prop
  | here {members k defs d} : k ∈ defsKeys → Json.getMember k members = some (.object defs) → d ∈ defs →
      Defines (.object members) d
  | keyword {members k v d} : (k, v) ∈ members → k ∉ defsKeys → k ∉ geminiSchemaNameKeyedMaps → Defines v d →
      Defines (.object members) d
  | name {members k names n v d} : (k, Json.object names) ∈ members → k ∈ geminiSchemaNameKeyedMaps →
      (n, v) ∈ names → Defines v d → Defines (.object members) d
  | item {elems v d} : v ∈ elems → Defines v d → Defines (.array elems) d

/-- A definition below a member of a schema. -/
def DefinesBelow (members : List (String × Json)) (d : String × Json) : Prop :=
  (∃ k v, (k, v) ∈ members ∧ k ∉ defsKeys ∧ k ∉ geminiSchemaNameKeyedMaps ∧ Defines v d) ∨
    ∃ k names n v, (k, Json.object names) ∈ members ∧ k ∈ geminiSchemaNameKeyedMaps ∧ (n, v) ∈ names ∧ Defines v d

theorem DefinesBelow.mono {members : List (String × Json)} {m d : String × Json} (h : DefinesBelow members d) :
    DefinesBelow (m :: members) d := by
  rcases h with ⟨k, v, hmem, hrest⟩ | ⟨k, names, n, v, hmem, hrest⟩
  · exact Or.inl ⟨k, v, List.mem_cons_of_mem _ hmem, hrest⟩
  · exact Or.inr ⟨k, names, n, v, List.mem_cons_of_mem _ hmem, hrest⟩

theorem DefinesBelow.defines {members : List (String × Json)} {d : String × Json} (h : DefinesBelow members d) :
    Defines (.object members) d := by
  rcases h with ⟨k, v, hmem, hdefs, hname, hd⟩ | ⟨k, names, n, v, hmem, hname, hn, hd⟩
  · exact .keyword hmem hdefs hname hd
  · exact .name hmem hname hn hd

theorem mem_insertMember {k : String} {v : Json} {d : String × Json} {ms : List (String × Json)}
    (h : d ∈ Json.insertMember k v ms) : d = (k, v) ∨ d ∈ ms := by
  induction ms with
  | nil => exact Or.inl (List.mem_singleton.1 h)
  | cons m rest ih =>
    obtain ⟨k', v'⟩ := m
    unfold Json.insertMember at h
    split at h
    · rcases List.mem_cons.1 h with heq | hrest
      · exact Or.inl heq
      · exact Or.inr (List.mem_cons_of_mem _ hrest)
    · split at h
      · exact List.mem_cons.1 h
      · rcases List.mem_cons.1 h with heq | hrest
        · exact Or.inr (List.mem_cons.2 (Or.inl heq))
        · rcases ih hrest with heq | hmem
          · exact Or.inl heq
          · exact Or.inr (List.mem_cons_of_mem _ hmem)

theorem mem_orInsertMember {k : String} {v : Json} {d : String × Json} {ms : List (String × Json)}
    (h : d ∈ Json.orInsertMember k v ms) : d = (k, v) ∨ d ∈ ms := by
  unfold Json.orInsertMember at h
  split at h
  · exact Or.inr h
  · exact mem_insertMember h

theorem mem_collectDefsMap {members out : List (String × Json)} {k : String} {d : String × Json}
    (hk : k ∈ defsKeys) (h : d ∈ collectDefsMap members out k) : d ∈ out ∨ Defines (.object members) d := by
  have hfold : ∀ (defs out : List (String × Json)),
      d ∈ defs.foldl (fun out e => Json.orInsertMember e.1 e.2 out) out → d ∈ out ∨ d ∈ defs := by
    intro defs
    induction defs with
    | nil => exact fun out hd => Or.inl hd
    | cons e rest ih =>
      intro out hd
      rcases ih _ hd with hout | hrest
      · rcases mem_orInsertMember hout with heq | hmem
        · exact Or.inr (List.mem_cons.2 (Or.inl heq))
        · exact Or.inl hmem
      · exact Or.inr (List.mem_cons_of_mem _ hrest)
  unfold collectDefsMap at h
  split at h
  · rename_i defs hdefs
    rcases hfold defs out h with hout | hmem
    · exact Or.inl hout
    · exact Or.inr (.here hk hdefs hmem)
  · exact Or.inl h

mutual

theorem mem_collectDefs {d : String × Json} : ∀ (schema : Json) (out : List (String × Json)),
    d ∈ collectGeminiSchemaDefs out schema → d ∈ out ∨ Defines schema d
  | .object members, out, h => by
    rw [collectGeminiSchemaDefs] at h
    rcases mem_collectMembers members _ h with hmaps | hbelow
    · have hfirst : d ∈ collectDefsMap members out "$defs" ∨ Defines (.object members) d :=
        mem_collectDefsMap (by decide) hmaps
      rcases hfirst with hout | hdefines
      · exact mem_collectDefsMap (by decide) hout
      · exact Or.inr hdefines
    · exact Or.inr hbelow.defines
  | .array elems, out, h => by
    rw [collectGeminiSchemaDefs] at h
    rcases mem_collectElems elems out h with hout | ⟨v, hv, hd⟩
    · exact Or.inl hout
    · exact Or.inr (.item hv hd)
  | .null, _, h => Or.inl (by simpa [collectGeminiSchemaDefs] using h)
  | .bool _, _, h => Or.inl (by simpa [collectGeminiSchemaDefs] using h)
  | .number _, _, h => Or.inl (by simpa [collectGeminiSchemaDefs] using h)
  | .string _, _, h => Or.inl (by simpa [collectGeminiSchemaDefs] using h)

theorem mem_collectMembers {d : String × Json} : ∀ (members out : List (String × Json)),
    d ∈ collectMembers out members → d ∈ out ∨ DefinesBelow members d
  | [], _, h => Or.inl (by simpa only [collectMembers] using h)
  | (k, .object names) :: rest, out, h => by
    rw [collectMembers] at h
    split at h
    · exact (mem_collectMembers rest out h).imp_right DefinesBelow.mono
    · rename_i hdefs
      split at h
      · rename_i hname
        rcases mem_collectMembers rest _ h with hout | hbelow
        · rcases mem_collectNames names out hout with hout | ⟨n, v, hn, hd⟩
          · exact Or.inl hout
          · exact Or.inr (Or.inr ⟨k, names, n, v, List.mem_cons_self, hname, hn, hd⟩)
        · exact Or.inr hbelow.mono
      · rename_i hname
        rcases mem_collectMembers rest _ h with hout | hbelow
        · rcases mem_collectDefs (.object names) out hout with hout | hd
          · exact Or.inl hout
          · exact Or.inr (Or.inl ⟨k, .object names, List.mem_cons_self, hdefs, hname, hd⟩)
        · exact Or.inr hbelow.mono
  | (k, .array elems) :: rest, out, h => by
    rw [collectMembers.eq_3 _ _ _ _ (fun names hnames => by cases hnames)] at h
    split at h
    · exact (mem_collectMembers rest out h).imp_right DefinesBelow.mono
    · rename_i hdefs
      split at h
      · exact (mem_collectMembers rest out h).imp_right DefinesBelow.mono
      · rename_i hname
        rcases mem_collectMembers rest _ h with hout | hbelow
        · rcases mem_collectDefs (.array elems) out hout with hout | hd
          · exact Or.inl hout
          · exact Or.inr (Or.inl ⟨k, .array elems, List.mem_cons_self, hdefs, hname, hd⟩)
        · exact Or.inr hbelow.mono
  | (_, .null) :: rest, out, h => by
    simp only [collectMembers, collectGeminiSchemaDefs, ite_self] at h
    exact (mem_collectMembers rest out h).imp_right DefinesBelow.mono
  | (_, .bool _) :: rest, out, h => by
    simp only [collectMembers, collectGeminiSchemaDefs, ite_self] at h
    exact (mem_collectMembers rest out h).imp_right DefinesBelow.mono
  | (_, .number _) :: rest, out, h => by
    simp only [collectMembers, collectGeminiSchemaDefs, ite_self] at h
    exact (mem_collectMembers rest out h).imp_right DefinesBelow.mono
  | (_, .string _) :: rest, out, h => by
    simp only [collectMembers, collectGeminiSchemaDefs, ite_self] at h
    exact (mem_collectMembers rest out h).imp_right DefinesBelow.mono

theorem mem_collectNames {d : String × Json} : ∀ (names out : List (String × Json)),
    d ∈ collectNames out names → d ∈ out ∨ ∃ n v, (n, v) ∈ names ∧ Defines v d
  | [], _, h => Or.inl (by simpa only [collectNames] using h)
  | (n, v) :: rest, out, h => by
    rw [collectNames] at h
    rcases mem_collectNames rest _ h with hout | ⟨n', v', hmem, hd⟩
    · rcases mem_collectDefs v out hout with hout | hd
      · exact Or.inl hout
      · exact Or.inr ⟨n, v, List.mem_cons_self, hd⟩
    · exact Or.inr ⟨n', v', List.mem_cons_of_mem _ hmem, hd⟩

theorem mem_collectElems {d : String × Json} : ∀ (elems : List Json) (out : List (String × Json)),
    d ∈ collectElems out elems → d ∈ out ∨ ∃ v ∈ elems, Defines v d
  | [], _, h => Or.inl (by simpa only [collectElems] using h)
  | v :: rest, out, h => by
    rw [collectElems] at h
    rcases mem_collectElems rest _ h with hout | ⟨v', hmem, hd⟩
    · rcases mem_collectDefs v out hout with hout | hd
      · exact Or.inl hout
      · exact Or.inr ⟨v, List.mem_cons_self, hd⟩
    · exact Or.inr ⟨v', List.mem_cons_of_mem _ hmem, hd⟩

end

/-! ## What Gemini is sent -/

/-- A list of names. -/
def nameList (names : List String) : Json := .array (names.map Json.string)

/-- A list of names is what it was. -/
theorem kept_nameList (defs : List (String × Json)) (active names : List String) :
    sanitizeGeminiSchema (inlineGeminiSchemaRefs defs active (nameList names)) = nameList names := by
  unfold nameList
  rw [inlineGeminiSchemaRefs, sanitizeGeminiSchema]
  congr 1
  induction names with
  | nil => simp only [List.map_nil, inlineElems, sanitizeElems]
  | cons n rest ih => simp only [List.map_cons, inlineElems, sanitizeElems, inlineGeminiSchemaRefs, sanitizeGeminiSchema, ih]

/-- What is sent of a schema is accepted whatever the schema is; definitions are taken from where keywords
stand only; every path of the schema with its references followed leads to the same place in what is sent;
and so does every required list, with the names it requires where they are declared. -/
theorem schema_paths_kept (schema : Json) :
    Accepted (sanitizeGeminiSchema (resolveGeminiSchemaRefs schema)) ∧
    (∀ d ∈ collectGeminiSchemaDefs [] schema, Defines schema d) ∧
    (∀ path active t, Leads (collectGeminiSchemaDefs [] schema) [] schema path active t →
      (sanitizeGeminiSchema (resolveGeminiSchemaRefs schema)).at? path =
        some (sanitizeGeminiSchema (inlineGeminiSchemaRefs (collectGeminiSchemaDefs [] schema) active t))) ∧
    (∀ path active names,
      Leads (collectGeminiSchemaDefs [] schema) [] schema (path ++ [.key "required"]) active (nameList names) →
      (∀ n ∈ names, ∃ active' t,
        Leads (collectGeminiSchemaDefs [] schema) [] schema (path ++ [.key "properties", .key n]) active' t) →
      (sanitizeGeminiSchema (resolveGeminiSchemaRefs schema)).at? (path ++ [.key "required"]) =
        some (nameList names) ∧
      ∀ n ∈ names,
        ((sanitizeGeminiSchema (resolveGeminiSchemaRefs schema)).at?
          (path ++ [.key "properties", .key n])).isSome = true) := by
  have hkept : ∀ path active t, Leads (collectGeminiSchemaDefs [] schema) [] schema path active t →
      (sanitizeGeminiSchema (resolveGeminiSchemaRefs schema)).at? path =
        some (sanitizeGeminiSchema (inlineGeminiSchemaRefs (collectGeminiSchemaDefs [] schema) active t)) := by
    intro path active t h
    rw [sanitize_resolve]
    exact leads_kept h
  refine ⟨accepted_sanitize _, ?_, hkept, ?_⟩
  · intro d hd
    rcases mem_collectDefs schema [] hd with hnil | hdefines
    · cases hnil
    · exact hdefines
  · intro path active names hrequired hdeclared
    have hlist := hkept _ _ _ hrequired
    rw [kept_nameList] at hlist
    refine ⟨hlist, fun n hn => ?_⟩
    obtain ⟨active', t, hlead⟩ := hdeclared n hn
    rw [hkept _ _ _ hlead]
    rfl

/-! ## Definitions that a sibling overrides -/

/-- Whether a schema's own required names are among its own properties. -/
def declaresRequired (members : List (String × Json)) : Bool :=
  match Json.getMember "required" members with
  | some (.array names) =>
    names.all fun n =>
      match n, Json.getMember "properties" members with
      | .string n, some (.object props) => (Json.getMember n props).isSome
      | .string _, _ => false
      | _, _ => true
  | _ => true

mutual

/-- Every schema in the document declares what it requires. -/
def declaredThroughout : Json → Bool
  | .object members => declaresRequired members && declaredMembers members
  | .array elems => declaredElems elems
  | .null | .bool _ | .number _ | .string _ => true

def declaredMembers : List (String × Json) → Bool
  | [] => true
  | (k, v) :: rest =>
    declaredMembers rest &&
      match v with
      | .object names =>
        if k ∈ geminiSchemaNameKeyedMaps ∨ k ∈ defsKeys then declaredNames names
        else declaresRequired names && declaredMembers names
      | v => declaredThroughout v

def declaredNames : List (String × Json) → Bool
  | [] => true
  | (_, v) :: rest => declaredThroughout v && declaredNames rest

def declaredElems : List Json → Bool
  | [] => true
  | v :: rest => declaredThroughout v && declaredElems rest

end

/-- A definition that requires its one property. -/
def requiringDef : List (String × Json) :=
  [("properties", .object [("a", .object [])]), ("required", nameList ["a"])]

/-- A reference to it with properties of its own. -/
def overridingRef : List (String × Json) :=
  [("$defs", .object [("A", .object requiringDef)]), ("$ref", .string "#/$defs/A"),
    ("properties", .object [("b", .object [])])]

theorem overridingRef_sent : sanitizeGeminiSchema (resolveGeminiSchemaRefs (.object overridingRef)) =
    .object [("properties", .object [("b", .object [])]), ("required", nameList ["a"])] := by
  have hdefs : collectGeminiSchemaDefs [] (.object overridingRef) = [("A", .object requiringDef)] := by
    simp [overridingRef, collectGeminiSchemaDefs, collectMembers, collectNames, defsKeys, collectDefsMap,
      Json.getMember, Json.orInsertMember, Json.insertMember, geminiSchemaNameKeyedMaps]
  have href : refTarget [("A", .object requiringDef)] overridingRef = some ("A", .object requiringDef) := rfl
  have hplain : ∀ defs, refTarget defs requiringDef = none := fun defs => rfl
  have hb : ∀ defs, refTarget defs [("b", Json.object [])] = none := fun defs => rfl
  have hempty : ∀ defs, refTarget defs [] = none := fun defs => rfl
  rw [sanitize_resolve, hdefs, inlineRefs_follow href List.not_mem_nil, if_pos (by decide),
    inlineRefs_object (hplain _)]
  dsimp only
  have hsiblings : inlineSiblings [("A", .object requiringDef)] [] overridingRef =
      [("$defs", inlineGeminiSchemaRefs [("A", .object requiringDef)] [] (.object [("A", .object requiringDef)])),
        ("properties", .object [("b", .object [])])] := by
    simp [overridingRef, inlineSiblings, inlineRefs_object (hb _), inlineMembers, inlineRefs_object (hempty _),
      defsKeys, geminiSchemaNameKeyedMaps]
  have hinlined : inlineMembers [("A", .object requiringDef)] ["A"] requiringDef =
      [("properties", .object [("a", .object [])]), ("required", nameList ["a"])] := by
    simp [requiringDef, inlineMembers, inlineNames, inlineRefs_object (hempty _), defsKeys,
      geminiSchemaNameKeyedMaps, nameList, inlineGeminiSchemaRefs, inlineElems]
  unfold overlaid
  rw [hsiblings, hinlined]
  rfl

/-- The properties beside the reference take the place of the definition's, whose required list stays. -/
theorem overridden_name_required : ¬ ∀ schema, declaredThroughout schema = true →
    declaredThroughout (sanitizeGeminiSchema (resolveGeminiSchemaRefs schema)) = true := by
  intro h
  have hsent := h (.object overridingRef) (by decide +kernel)
  rw [overridingRef_sent] at hsent
  have hlost : declaredThroughout (.object [("properties", .object [("b", .object [])]), ("required", nameList ["a"])]) =
      false := by
    decide +kernel
  rw [hlost] at hsent
  cases hsent

end Busbar
