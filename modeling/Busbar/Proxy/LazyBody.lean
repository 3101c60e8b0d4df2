import Busbar.Json
import Busbar.Proto.Framing
import Mathlib.Data.List.Dedup

/-!
# The request body on its way to a lane

The body of a request is scanned once, and only the members that the way to the first lane reads are kept. Where these prove
that the translation would change nothing, the bytes of the client go out as they came; in every other case the document is
built and translated, for each hop from the bytes of the client.

* `Scanned.value`, `Scanned.head`: the two readings of one scan, the document and its head.
* `translateRequest`: what a lane is sent.
* `headProvablyPristine`: whether the head proves that this is the body itself.
* `payloads`: what the hops of a request send, each to its lane.
* `payloads_fresh`: **every hop sends what the translation of the whole document sends.**
* `payload_members`: **a lane of the client's protocol gets the client's members**, but for those the routing owns.
-/

namespace Busbar.Wire

/-! ## The scan -/

/-- What the deserializer hands to its visitor, in the order of the text. A number out of range has no value. -/
inductive Scanned where
  | null
  | bool (b : Bool)
  | number (n : Option JsonNumber)
  | string (s : String)
  | seq (elems : List Scanned)
  | map (members : List (String × Scanned))

/-- The JSON library: its deserializer and its serializer. -/
structure BodyLib where
  scan : Bytes → Option Scanned
  toVec : Json → Bytes

mutual

/-- The visitor of documents. -/
def Scanned.value : Scanned → Option Json
  | .null => some .null
  | .bool b => some (.bool b)
  | .number n => n.map Json.number
  | .string s => some (.string s)
  | .seq elems => (Scanned.values elems).map Json.array
  | .map members => (Scanned.insertAll [] members).map Json.object

def Scanned.values : List Scanned → Option (List Json)
  | [] => some []
  | s :: elems => s.value.bind fun v => (Scanned.values elems).map (v :: ·)

/-- A member that comes again takes the place of the one before. -/
def Scanned.insertAll (acc : List (String × Json)) : List (String × Scanned) → Option (List (String × Json))
  | [] => some acc
  | (k, s) :: members => s.value.bind fun v => Scanned.insertAll (Json.insertMember k v acc) members

end

/-! ## The protocols -/

inductive Protocol where
  | anthropic | openai | gemini | bedrock | responses | cohere
  deriving DecidableEq, Repr

namespace Protocol

def name : Protocol → String
  | anthropic => protoAnthropic
  | openai => protoOpenAi
  | gemini => protoGemini
  | bedrock => protoBedrock
  | responses => protoResponses
  | cohere => protoCohere

/-- The model is a part of the path, and the body has none. -/
def hasModelInUrl : Protocol → Bool
  | gemini | bedrock => true
  | _ => false

/-- The member by which the route layer tells the response writer to frame a stream as an array. -/
def arrayStreamShimKey : Protocol → Option String
  | gemini => some "__busbar_gemini_json_array"
  | _ => none

/-- The model of the lane is written into the body; whether this changed it. Bedrock leaves the body as it is. -/
def rewriteModelIfNeeded (p : Protocol) (model : String) (body : Json) : Json × Bool :=
  match p, body with
  | bedrock, _ => (body, false)
  | _, .object members =>
    if (Json.getMember "model" members).bind Json.asStr = some model then (body, false)
    else (.object (Json.insertMember "model" (.string model) members), true)
  | _, _ => (body, false)

end Protocol

def knownProtocols : List String :=
  [protoAnthropic, protoOpenAi, protoGemini, protoBedrock, protoResponses, protoCohere]

def protocolFor (name : String) : Option Protocol :=
  if name = protoAnthropic then some .anthropic
  else if name = protoBedrock then some .bedrock
  else if name = protoCohere then some .cohere
  else if name = protoGemini then some .gemini
  else if name = protoOpenAi then some .openai
  else if name = protoResponses then some .responses
  else none

def sortedDedup (names : List String) : List String := (names.mergeSort (fun a b => decide (a ≤ b))).dedup

def arrayStreamShimKeys : List String :=
  sortedDedup (knownProtocols.filterMap fun name => (protocolFor name).bind Protocol.arrayStreamShimKey)

/-- A lane, as far as its requests are shaped by it. -/
structure Lane where
  protocol : Protocol
  model : String
  upstreamModel : Option String
  pathBase : Option String

def Lane.wireModel (lane : Lane) : String := lane.upstreamModel.getD lane.model

/-- A lane that serves Anthropic's models at Vertex. -/
def Lane.vertexAnthropic (lane : Lane) : Bool := lane.pathBase.isSome && lane.protocol.name = protoAnthropic

/-! ## The head of a body -/

def capturedHeadKeys : List String :=
  sortedDedup (["model", "stream", "stream_options", "system"] ++ arrayStreamShimKeys)

/-- The members of the head: those that are captured, and the last one of a name. -/
def headMembers (mini : List (String × Json)) : List (String × Scanned) → Option (List (String × Json))
  | [] => some mini
  | (k, s) :: members =>
    if k ∈ capturedHeadKeys then s.value.bind fun v => headMembers (Json.insertMember k v mini) members
    else headMembers mini members

/-- The visitor of heads. -/
def Scanned.head : Scanned → Option Json
  | .null => some .null
  | .bool _ => some .null
  | .number n => n.map fun _ => .null
  | .string _ => some .null
  | .seq _ => some .null
  | .map members => (headMembers [] members).map Json.object

inductive LazyBody where
  | head (bytes : Bytes) (head : Json)
  | dom (v : Json)

variable (lib : BodyLib)

/-- `json::parse`, for documents. -/
def BodyLib.parse (bytes : Bytes) : Option Json :=
  if exceedsMaxDepth bytes maxJsonDepth then none else (lib.scan bytes).bind Scanned.value

namespace LazyBody

def parse (bytes : Bytes) : Option LazyBody :=
  if exceedsMaxDepth bytes maxJsonDepth then none else ((lib.scan bytes).bind Scanned.head).map (LazyBody.head bytes)

def fromValue (v : Json) : LazyBody := .dom v

/-- What the members of the head are read from. -/
def probe : LazyBody → Json
  | .dom v => v
  | .head _ mini => mini

def intoValue : LazyBody → Option Json
  | .dom v => some v
  | .head bytes _ => lib.parse bytes

end LazyBody

/-! ## The translation -/

def isUrlModel (protocol : String) : Bool := ((protocolFor protocol).map Protocol.hasModelInUrl).getD false

/-- The members the route layer put in are taken out; whether there were any. -/
def stripRouterShimKeys (egress : String) : Json → Json × Bool
  | .object members =>
    let kept := arrayStreamShimKeys.foldl
      (fun acc key => (Json.removeMember key acc.1, acc.2 || (Json.getMember key acc.1).isSome)) (members, false)
    if isUrlModel egress && (Json.getMember "stream" kept.1).isSome then (.object (Json.removeMember "stream" kept.1), true)
    else (.object kept.1, kept.2)
  | v => (v, false)

def stripSameProtocolModelShim (ingress : String) : Json → Json × Bool
  | .object members =>
    if isUrlModel ingress then (.object (Json.removeMember "model" members), (Json.getMember "model" members).isSome)
    else (.object members, false)
  | v => (v, false)

/-- Vertex has the model in the path, and its version in the body. -/
def vertexBody (lane : Lane) : Json → Json × Bool
  | .object members =>
    if lane.vertexAnthropic then
      (.object (Json.insertMember "anthropic_version" (.string "vertex-2023-10-16") (Json.removeMember "model" members)), true)
    else (.object members, false)
  | v => (v, false)

/-- What every translation ends with, and whether it changed the body. -/
def shape (ingress : String) (lane : Lane) (body : Json) : Json × Bool :=
  let (body, shims) := stripRouterShimKeys lane.protocol.name body
  let (body, rewritten) := lane.protocol.rewriteModelIfNeeded lane.wireModel body
  let (body, vertex) := vertexBody lane body
  if ingress = lane.protocol.name then
    let (body, model) := stripSameProtocolModelShim ingress body
    (body, shims || rewritten || vertex || model)
  else (body, shims || rewritten || vertex)

/-- What is written for a lane of another protocol: a document or, where the lane's wire is none, bytes; and the errors that a
request is answered with. -/
structure CrossProtocol (ε : Type) where
  ofValue : String → Lane → Json → Except ε (Json ⊕ Bytes)
  ofBytes : String → Lane → Bytes → Except ε Bytes
  internal : ε

variable {ε : Type} (x : CrossProtocol ε)

/-- `translate_request_cross_protocol`: the bytes for one lane, of a body that was read from `hopBytes`. -/
def translateRequest (ingress : String) (lane : Lane) (body : Option Json) (hopBytes : Bytes) : Except ε Bytes :=
  match body with
  | none => if ingress ≠ lane.protocol.name then x.ofBytes ingress lane hopBytes else .ok hopBytes
  | some body =>
    if ingress ≠ lane.protocol.name then
      match x.ofValue ingress lane body with
      | .error e => .error e
      | .ok (.inr bytes) => .ok bytes
      | .ok (.inl written) => .ok (lib.toVec (shape ingress lane written).1)
    else
      let (body, changed) := shape ingress lane body
      .ok (if changed then lib.toVec body else hopBytes)

/-- The invalidators of the translation, read off the head. -/
def headProvablyPristine (lane : Lane) (probe : Json) : Bool :=
  match probe.asObject with
  | none => true
  | some obj =>
    let has := fun key => (Json.getMember key obj).isSome
    if arrayStreamShimKeys.any has then false
    else if lane.protocol.hasModelInUrl && has "stream" then false
    else if (Json.getMember "model" obj).bind Json.asStr ≠ some lane.wireModel then false
    else if lane.vertexAnthropic then false
    else if lane.protocol.hasModelInUrl && has "model" then false
    else true

/-- The document of one hop. -/
def hopDocument (body : Bytes) : Option LazyBody → Option Json
  | some l => l.intoValue lib
  | none => lib.parse body

/-- What one hop sends. The first takes the body that was carried to it; the later ones start from the bytes again. A body that
is no JSON is not read. -/
def hopPayload (ingress : String) (isJson : Bool) (body : Bytes) (first : Option LazyBody) (lane : Lane) : Except ε Bytes :=
  if ingress = lane.protocol.name ∧ first.any (fun l => headProvablyPristine lane l.probe) = true then .ok body
  else if isJson = false then translateRequest lib x ingress lane none body
  else
    match hopDocument lib body first with
    | some v => translateRequest lib x ingress lane (some v) body
    | none => .error x.internal

/-- What the hops of a request send, lane after lane. -/
def payloads (ingress : String) (isJson : Bool) (body : Bytes) : Option LazyBody → List Lane → List (Except ε Bytes)
  | _, [] => []
  | first, lane :: lanes => hopPayload lib x ingress isJson body first lane :: payloads ingress isJson body none lanes

/-! ## Taking members out -/

theorem getMember_removeMember (k k' : String) (members : List (String × Json)) :
    Json.getMember k (Json.removeMember k' members) = if k = k' then none else Json.getMember k members := by
  induction members with
  | nil => simp [Json.removeMember, Json.getMember]
  | cons m members ih =>
    obtain ⟨k'', v⟩ := m
    unfold Json.removeMember at ih ⊢
    rw [List.filter_cons]
    by_cases h : k'' = k'
    · subst h
      simp only [bne_self_eq_false, Bool.false_eq_true, if_false, ih, Json.getMember_cons]
      by_cases hk : k = k''
      · simp [hk]
      · simp [hk, Ne.symm hk]
    · have hne : (k'' != k') = true := by simpa using h
      rw [if_pos hne, Json.getMember_cons, ih, Json.getMember_cons]
      by_cases hk : k'' = k
      · subst hk
        simp [h]
      · simp [hk]

theorem removeMember_of_none {k : String} {members : List (String × Json)} (h : Json.getMember k members = none) :
    Json.removeMember k members = members := by
  unfold Json.removeMember
  refine List.filter_eq_self.2 fun m hm => ?_
  rw [bne_iff_ne]
  rintro rfl
  unfold Json.getMember at h
  rw [Option.map_eq_none_iff, List.find?_eq_none] at h
  exact h m hm (beq_self_eq_true _)

/-! ## The head reads as the document does -/

/-- Two documents that every point read answers alike. -/
structure Agree (p q : Json) : Prop where
  isObject : p.isObject = q.isObject
  get : ∀ k ∈ capturedHeadKeys, p.get k = q.get k

theorem Agree.refl (p : Json) : Agree p p := ⟨rfl, fun _ _ => rfl⟩

theorem mem_sortedDedup {k : String} {names : List String} : k ∈ sortedDedup names ↔ k ∈ names := by
  unfold sortedDedup
  rw [List.mem_dedup, List.mem_mergeSort]

theorem shim_captured {k : String} (h : k ∈ arrayStreamShimKeys) : k ∈ capturedHeadKeys :=
  mem_sortedDedup.2 (List.mem_append_right _ h)

theorem model_captured : "model" ∈ capturedHeadKeys := mem_sortedDedup.2 (List.mem_append_left _ (by decide))

theorem stream_captured : "stream" ∈ capturedHeadKeys := mem_sortedDedup.2 (List.mem_append_left _ (by decide))

/-- One member after the other, the head keeps what the document has under the captured names. -/
theorem headMembers_agree {members : List (String × Scanned)} {acc mini dom : List (String × Json)}
    (hsame : ∀ k ∈ capturedHeadKeys, Json.getMember k mini = Json.getMember k acc)
    (hdom : Scanned.insertAll acc members = some dom) :
    ∃ head, headMembers mini members = some head ∧
      ∀ k ∈ capturedHeadKeys, Json.getMember k head = Json.getMember k dom := by
  induction members generalizing acc mini with
  | nil =>
    rw [Scanned.insertAll, Option.some.injEq] at hdom
    subst hdom
    exact ⟨mini, rfl, hsame⟩
  | cons m members ih =>
    obtain ⟨name, s⟩ := m
    rw [Scanned.insertAll, Option.bind_eq_some_iff] at hdom
    obtain ⟨v, hv, hdom⟩ := hdom
    rw [headMembers]
    by_cases hk : name ∈ capturedHeadKeys
    · rw [if_pos hk, hv, Option.bind_some]
      refine ih (fun k hcaptured => ?_) hdom
      rw [Json.getMember_insertMember, Json.getMember_insertMember, hsame k hcaptured]
    · rw [if_neg hk]
      refine ih (fun k hcaptured => ?_) hdom
      have hne : k ≠ name := fun h => hk (h ▸ hcaptured)
      rw [Json.getMember_insertMember, if_neg hne, hsame k hcaptured]

theorem head_agree {s : Scanned} {v : Json} (hv : s.value = some v) : ∃ head, s.head = some head ∧ Agree head v := by
  have hother : ∀ {w : Json}, w.isObject = false → Agree .null w := by
    intro w hw
    refine ⟨hw.symm, fun k _ => ?_⟩
    cases w with
    | object members => cases hw
    | _ => rfl
  cases s with
  | null =>
    cases hv
    exact ⟨.null, rfl, hother rfl⟩
  | bool b =>
    cases hv
    exact ⟨.null, rfl, hother rfl⟩
  | number n =>
    rw [Scanned.value, Option.map_eq_some_iff] at hv
    obtain ⟨n, rfl, rfl⟩ := hv
    exact ⟨.null, rfl, hother rfl⟩
  | string s =>
    cases hv
    exact ⟨.null, rfl, hother rfl⟩
  | seq elems =>
    rw [Scanned.value, Option.map_eq_some_iff] at hv
    obtain ⟨elems, -, rfl⟩ := hv
    exact ⟨.null, rfl, hother rfl⟩
  | map members =>
    rw [Scanned.value, Option.map_eq_some_iff] at hv
    obtain ⟨dom, hdom, rfl⟩ := hv
    obtain ⟨head, hhead, hget⟩ := headMembers_agree (fun _ _ => rfl) hdom
    refine ⟨.object head, ?_, rfl, fun k hk => ?_⟩
    · rw [Scanned.head, hhead]
      rfl
    · rw [Json.get_object, Json.get_object, hget k hk]

/-- A head answers like the document of the same bytes. -/
theorem lazy_agree {body : Bytes} {v : Json} (hv : lib.parse body = some v) :
    ∃ l, LazyBody.parse lib body = some l ∧ Agree l.probe v ∧ l.intoValue lib = some v := by
  have hparse := hv
  unfold BodyLib.parse at hv
  split at hv
  · cases hv
  · rename_i hshallow
    rw [Option.bind_eq_some_iff] at hv
    obtain ⟨s, hs, hv⟩ := hv
    obtain ⟨head, hhead, hagree⟩ := head_agree hv
    refine ⟨.head body head, ?_, hagree, hparse⟩
    unfold LazyBody.parse
    rw [if_neg hshallow, hs, Option.bind_some, hhead]
    rfl

/-- The invalidators are read off captured members. -/
theorem headProvablyPristine_congr {p q : Json} (h : Agree p q) (lane : Lane) :
    headProvablyPristine lane p = headProvablyPristine lane q := by
  have hobject := h.isObject
  cases p with
  | object ms =>
    cases q with
    | object ns =>
      have hget : ∀ k ∈ capturedHeadKeys, Json.getMember k ms = Json.getMember k ns := h.get
      have hshims : (arrayStreamShimKeys.any fun key => (Json.getMember key ms).isSome) =
          arrayStreamShimKeys.any fun key => (Json.getMember key ns).isSome := by
        rw [Bool.eq_iff_iff, List.any_eq_true, List.any_eq_true]
        exact exists_congr fun k => and_congr_right fun hk => by rw [hget k (shim_captured hk)]
      simp only [headProvablyPristine, Json.asObject, hshims, hget _ model_captured, hget _ stream_captured]
    | _ => cases hobject
  | _ =>
    cases q with
    | object ns => cases hobject
    | _ => rfl

/-! ## A pristine body is not changed -/

theorem arrayStreamShimKeys_eq : arrayStreamShimKeys = ["__busbar_gemini_json_array"] := by
  have hkeys : (knownProtocols.filterMap fun name => (protocolFor name).bind Protocol.arrayStreamShimKey) =
      ["__busbar_gemini_json_array"] := by decide +kernel
  unfold arrayStreamShimKeys
  rw [hkeys]
  unfold sortedDedup
  rw [List.mergeSort_singleton]
  rfl

theorem mem_arrayStreamShimKeys {k : String} : k ∈ arrayStreamShimKeys ↔ k = "__busbar_gemini_json_array" := by
  rw [arrayStreamShimKeys_eq, List.mem_singleton]

theorem protocolFor_name (p : Protocol) : protocolFor p.name = some p := by
  cases p <;> decide +kernel

theorem isUrlModel_name (p : Protocol) : isUrlModel p.name = p.hasModelInUrl := by
  unfold isUrlModel
  rw [protocolFor_name]
  rfl

/-- Taking out the keys of the route layer, one by one. -/
theorem stripKeys_spec (keys : List String) (members : List (String × Json)) (changed : Bool) :
    let r := keys.foldl
      (fun acc key => (Json.removeMember key acc.1, acc.2 || (Json.getMember key acc.1).isSome)) (members, changed)
    (∀ k, Json.getMember k r.1 = if k ∈ keys then none else Json.getMember k members) ∧
      (r.2 = false → r.1 = members ∧ changed = false) ∧
      ((∀ k ∈ keys, Json.getMember k members = none) → r = (members, changed)) := by
  induction keys generalizing members changed with
  | nil => exact ⟨fun k => by simp, fun h => ⟨rfl, h⟩, fun _ => rfl⟩
  | cons key keys ih =>
    obtain ⟨hget, hsame, hnone⟩ := ih (Json.removeMember key members) (changed || (Json.getMember key members).isSome)
    dsimp only [List.foldl_cons] at hget hsame hnone ⊢
    refine ⟨fun k => ?_, fun h => ?_, fun h => ?_⟩
    · rw [hget, getMember_removeMember]
      by_cases hk : k = key <;> by_cases hkeys : k ∈ keys <;> simp [hk, hkeys]
    · obtain ⟨hmembers, hchanged⟩ := hsame h
      rw [Bool.or_eq_false_iff, Option.isSome_eq_false_iff, Option.isNone_iff_eq_none] at hchanged
      exact ⟨hmembers.trans (removeMember_of_none hchanged.2), hchanged.1⟩
    · have hkey := h key List.mem_cons_self
      rw [removeMember_of_none hkey, hkey] at hnone ⊢
      rw [Option.isSome_none, Bool.or_false] at hnone ⊢
      exact hnone fun k hk => h k (List.mem_cons_of_mem _ hk)

/-- An object is changed to one with these members; where the change is not reported there is none. -/
def Shaped (members : List (String × Json)) (r : Json × Bool) (f : String → Option Json) : Prop :=
  ∃ ms, r.1 = .object ms ∧ (∀ k, Json.getMember k ms = f k) ∧ (r.2 = false → ms = members)

theorem shaped_strip (egress : String) (members : List (String × Json)) :
    Shaped members (stripRouterShimKeys egress (.object members)) fun k =>
      if k ∈ arrayStreamShimKeys ∨ k = "stream" ∧ isUrlModel egress = true then none else Json.getMember k members := by
  obtain ⟨hget, hsame, -⟩ := stripKeys_spec arrayStreamShimKeys members false
  unfold stripRouterShimKeys
  dsimp only at hget hsame ⊢
  generalize arrayStreamShimKeys.foldl
    (fun acc key => (Json.removeMember key acc.1, acc.2 || (Json.getMember key acc.1).isSome)) (members, false) = r
    at hget hsame ⊢
  obtain ⟨kept, changed⟩ := r
  dsimp only at hget hsame ⊢
  by_cases hstream : isUrlModel egress = true ∧ (Json.getMember "stream" kept).isSome = true
  · rw [if_pos (by simpa using hstream)]
    refine ⟨_, rfl, fun k => ?_, fun h => by cases h⟩
    rw [getMember_removeMember, hget]
    dsimp only
    by_cases hk : k = "stream"
    · rw [if_pos hk, if_pos (Or.inr ⟨hk, hstream.1⟩)]
    · by_cases hshim : k ∈ arrayStreamShimKeys <;> simp [hk, hshim]
  · rw [if_neg (by simpa using hstream)]
    refine ⟨kept, rfl, fun k => ?_, fun h => (hsame h).1⟩
    rw [hget]
    by_cases hshim : k ∈ arrayStreamShimKeys
    · simp [hshim]
    · by_cases hk : k = "stream" ∧ isUrlModel egress = true
      · -- there is nothing to take out
        obtain ⟨rfl, hurl⟩ := hk
        have hnone : Json.getMember "stream" kept = none := by
          rw [← Option.not_isSome_iff_eq_none]
          exact fun h => hstream ⟨hurl, h⟩
        rw [hget, if_neg hshim] at hnone
        simp [hshim, hurl, hnone]
      · simp [hshim, hk]

theorem shaped_rewrite (p : Protocol) (model : String) (members : List (String × Json)) :
    Shaped members (p.rewriteModelIfNeeded model (.object members)) fun k =>
      if k = "model" ∧ p ≠ .bedrock then some (.string model) else Json.getMember k members := by
  have hdefault : Shaped members
      (if (Json.getMember "model" members).bind Json.asStr = some model then (Json.object members, false)
        else (.object (Json.insertMember "model" (.string model) members), true))
      fun k => if k = "model" then some (.string model) else Json.getMember k members := by
    split
    · rename_i hmodel
      refine ⟨members, rfl, fun k => ?_, fun _ => rfl⟩
      dsimp only
      split
      · rename_i hk
        subst hk
        rw [Option.bind_eq_some_iff] at hmodel
        obtain ⟨v, hv, hstr⟩ := hmodel
        cases v with
        | string s =>
          cases hstr
          exact hv
        | _ => cases hstr
      · rfl
    · exact ⟨_, rfl, fun k => Json.getMember_insertMember k _ _ _, fun h => by cases h⟩
  cases p with
  | bedrock => exact ⟨members, rfl, fun k => by simp, fun _ => rfl⟩
  | _ => simpa [Protocol.rewriteModelIfNeeded] using hdefault

theorem shaped_vertex (lane : Lane) (members : List (String × Json)) :
    Shaped members (vertexBody lane (.object members)) fun k =>
      if lane.vertexAnthropic = true then
        if k = "anthropic_version" then some (.string "vertex-2023-10-16")
        else if k = "model" then none else Json.getMember k members
      else Json.getMember k members := by
  unfold vertexBody
  cases hvertex : lane.vertexAnthropic with
  | true =>
    refine ⟨_, rfl, fun k => ?_, fun h => by cases h⟩
    rw [Json.getMember_insertMember, getMember_removeMember]
    rfl
  | false => exact ⟨members, rfl, fun _ => rfl, fun _ => rfl⟩

theorem shaped_model (ingress : String) (members : List (String × Json)) :
    Shaped members (stripSameProtocolModelShim ingress (.object members)) fun k =>
      if k = "model" ∧ isUrlModel ingress = true then none else Json.getMember k members := by
  unfold stripSameProtocolModelShim
  dsimp only
  cases hurl : isUrlModel ingress with
  | true =>
    refine ⟨_, rfl, fun k => ?_, fun h => ?_⟩
    · rw [getMember_removeMember]
      simp
    · rw [if_pos rfl, Option.isSome_eq_false_iff, Option.isNone_iff_eq_none] at h
      exact removeMember_of_none h
  | false => exact ⟨members, rfl, fun k => by simp, fun _ => rfl⟩

/-- **What a lane of the client's protocol gets under a name.** -/
def laneMember (lane : Lane) (v : Json) (k : String) : Option Json :=
  if k ∈ arrayStreamShimKeys then none
  else if k = "stream" ∧ lane.protocol.hasModelInUrl = true then none
  else if k = "model" then
    if lane.protocol.hasModelInUrl || lane.vertexAnthropic then none else some (.string lane.wireModel)
  else if k = "anthropic_version" ∧ lane.vertexAnthropic = true then some (.string "vertex-2023-10-16")
  else v.get k

theorem laneMember_object (lane : Lane) (members : List (String × Json)) (k : String) :
    (if k = "model" ∧ lane.protocol.hasModelInUrl = true then none
      else if lane.vertexAnthropic = true then
        if k = "anthropic_version" then some (.string "vertex-2023-10-16")
        else if k = "model" then none
        else if k = "model" ∧ lane.protocol ≠ .bedrock then some (.string lane.wireModel)
          else if k ∈ arrayStreamShimKeys ∨ k = "stream" ∧ lane.protocol.hasModelInUrl = true then none
            else Json.getMember k members
      else if k = "model" ∧ lane.protocol ≠ .bedrock then some (.string lane.wireModel)
        else if k ∈ arrayStreamShimKeys ∨ k = "stream" ∧ lane.protocol.hasModelInUrl = true then none
          else Json.getMember k members) = laneMember lane (.object members) k := by
  have hbedrock : lane.protocol = .bedrock → lane.protocol.hasModelInUrl = true := by
    intro hp
    rw [hp]
    rfl
  unfold laneMember
  rw [Json.get_object]
  by_cases hshim : k ∈ arrayStreamShimKeys
  · rw [if_pos hshim]
    rw [mem_arrayStreamShimKeys] at hshim
    subst hshim
    have hmem : "__busbar_gemini_json_array" ∈ arrayStreamShimKeys := mem_arrayStreamShimKeys.2 rfl
    simp [hmem]
  rw [if_neg hshim]
  by_cases hmodel : k = "model"
  · subst hmodel
    cases hurl : lane.protocol.hasModelInUrl with
    | true => simp
    | false =>
      have hne : lane.protocol ≠ .bedrock := fun hp => by rw [hbedrock hp] at hurl; cases hurl
      cases lane.vertexAnthropic <;> simp [hne]
  by_cases hversion : k = "anthropic_version"
  · subst hversion
    cases lane.vertexAnthropic <;> simp [hshim]
  cases hurl : lane.protocol.hasModelInUrl <;> cases lane.vertexAnthropic <;> simp [hmodel, hversion, hshim]

theorem shaped_same (lane : Lane) (members : List (String × Json)) :
    Shaped members (shape lane.protocol.name lane (.object members)) (laneMember lane (.object members)) := by
  obtain ⟨ms₁, h₁, hget₁, hsame₁⟩ := shaped_strip lane.protocol.name members
  obtain ⟨ms₂, h₂, hget₂, hsame₂⟩ := shaped_rewrite lane.protocol lane.wireModel ms₁
  obtain ⟨ms₃, h₃, hget₃, hsame₃⟩ := shaped_vertex lane ms₂
  obtain ⟨ms₄, h₄, hget₄, hsame₄⟩ := shaped_model lane.protocol.name ms₃
  have hshape : shape lane.protocol.name lane (.object members) = (.object ms₄,
      (stripRouterShimKeys lane.protocol.name (.object members)).2 ||
        (lane.protocol.rewriteModelIfNeeded lane.wireModel (.object ms₁)).2 ||
        (vertexBody lane (.object ms₂)).2 || (stripSameProtocolModelShim lane.protocol.name (.object ms₃)).2) := by
    unfold shape
    dsimp only
    rw [h₁, h₂, h₃, h₄, if_pos rfl]
  rw [hshape]
  dsimp only at hget₁ hget₂ hget₃ hget₄
  refine ⟨ms₄, rfl, fun k => ?_, fun h => ?_⟩
  · rw [hget₄, hget₃, hget₂, hget₁, isUrlModel_name]
    exact laneMember_object lane members k
  · simp only [Bool.or_eq_false_iff] at h
    obtain ⟨⟨⟨hstrip, hrewrite⟩, hvertex⟩, hmodel⟩ := h
    rw [hsame₄ hmodel, hsame₃ hvertex, hsame₂ hrewrite, hsame₁ hstrip]

theorem shape_other (ingress : String) (lane : Lane) {v : Json} (hv : v.isObject = false) : shape ingress lane v = (v, false) := by
  have hstrip : ∀ egress, stripRouterShimKeys egress v = (v, false) := by
    intro egress
    cases v with
    | object members => cases hv
    | _ => rfl
  have hrewrite : lane.protocol.rewriteModelIfNeeded lane.wireModel v = (v, false) := by
    cases v with
    | object members => cases hv
    | _ => cases lane.protocol <;> rfl
  have hvertex : vertexBody lane v = (v, false) := by
    cases v with
    | object members => cases hv
    | _ => rfl
  have hmodel : stripSameProtocolModelShim ingress v = (v, false) := by
    cases v with
    | object members => cases hv
    | _ => rfl
  unfold shape
  rw [hstrip]
  dsimp only
  rw [hrewrite]
  dsimp only
  rw [hvertex]
  dsimp only
  rw [hmodel]
  split <;> rfl

/-- **What the head proves pristine, the translation leaves as it is.** -/
theorem pristine_kept {lane : Lane} {v : Json} (h : headProvablyPristine lane v = true) :
    shape lane.protocol.name lane v = (v, false) := by
  cases v with
  | object members =>
    unfold headProvablyPristine at h
    dsimp only [Json.asObject] at h
    split at h
    · cases h
    rename_i hshims
    split at h
    · cases h
    split at h
    · cases h
    rename_i hmodel
    split at h
    · cases h
    rename_i hvertex
    split at h
    · cases h
    rename_i hurlModel
    have hmodel : (Json.getMember "model" members).bind Json.asStr = some lane.wireModel := not_not.1 hmodel
    have hsome : (Json.getMember "model" members).isSome = true := by
      cases hm : Json.getMember "model" members with
      | none =>
        rw [hm] at hmodel
        cases hmodel
      | some m => rfl
    have hurl : lane.protocol.hasModelInUrl = false := by
      cases hp : lane.protocol.hasModelInUrl with
      | false => rfl
      | true =>
        rw [hp, hsome] at hurlModel
        exact absurd rfl hurlModel
    have hvertex : lane.vertexAnthropic = false := Bool.eq_false_iff.2 hvertex
    have hnone : ∀ k ∈ arrayStreamShimKeys, Json.getMember k members = none := by
      intro k hk
      rw [← Option.not_isSome_iff_eq_none]
      exact fun hk' => hshims (List.any_eq_true.2 ⟨k, hk, hk'⟩)
    have hstrip : stripRouterShimKeys lane.protocol.name (.object members) = (.object members, false) := by
      unfold stripRouterShimKeys
      dsimp only
      rw [(stripKeys_spec arrayStreamShimKeys members false).2.2 hnone, isUrlModel_name, hurl]
      rfl
    have hrewrite : lane.protocol.rewriteModelIfNeeded lane.wireModel (.object members) = (.object members, false) := by
      unfold Protocol.rewriteModelIfNeeded
      cases lane.protocol <;> first | rfl | (dsimp only; rw [if_pos hmodel])
    have hversion : vertexBody lane (.object members) = (.object members, false) := by
      unfold vertexBody
      rw [hvertex]
      rfl
    have hshim : stripSameProtocolModelShim lane.protocol.name (.object members) = (.object members, false) := by
      unfold stripSameProtocolModelShim
      rw [isUrlModel_name, hurl]
      rfl
    unfold shape
    rw [hstrip]
    dsimp only
    rw [hrewrite]
    dsimp only
    rw [hversion]
    dsimp only
    rw [hshim, if_pos rfl]
    rfl
  | _ => exact shape_other _ _ rfl

/-! ## The hops -/

/-- What a request brings to its first hop: the body as it was scanned, or a document that reads as the bytes do. -/
def Carried (isJson : Bool) (body : Bytes) (first : Option LazyBody) : Prop :=
  if isJson then ∃ v, lib.parse body = some v ∧ ∀ l, first = some l → l = .dom v ∨ LazyBody.parse lib body = some l
  else first = none

variable {lib x} {ingress : String} {isJson : Bool} {body : Bytes} {first : Option LazyBody}

theorem Carried.later (h : Carried lib isJson body first) : Carried lib isJson body none := by
  unfold Carried at h ⊢
  cases isJson with
  | true =>
    obtain ⟨v, hv, -⟩ := h
    exact ⟨v, hv, fun l hl => by cases hl⟩
  | false => rfl

/-- One hop sends what the translation of the whole document sends. -/
theorem hopPayload_fresh (h : Carried lib isJson body first) (lane : Lane) :
    hopPayload lib x ingress isJson body first lane =
      translateRequest lib x ingress lane (if isJson then lib.parse body else none) body := by
  unfold Carried at h
  cases isJson with
  | false =>
    have hfirst : first = none := h
    subst hfirst
    unfold hopPayload
    rw [if_neg (by rintro ⟨-, hany⟩; cases hany), if_pos rfl]
    rfl
  | true =>
    obtain ⟨v, hv, hfirst⟩ := h
    -- the body that was carried answers like the document, and becomes it
    have hcarried : ∀ l, first = some l → Agree l.probe v ∧ l.intoValue lib = some v := by
      intro l hl
      rcases hfirst l hl with rfl | hparse
      · exact ⟨Agree.refl v, rfl⟩
      · obtain ⟨l', hl', hagree, hinto⟩ := lazy_agree lib hv
        rw [hparse, Option.some.injEq] at hl'
        subst hl'
        exact ⟨hagree, hinto⟩
    rw [if_pos rfl, hv]
    unfold hopPayload
    split
    · rename_i hpristine
      obtain ⟨rfl, hany⟩ := hpristine
      obtain ⟨l, hl, hpristine⟩ := (Option.any_eq_true _ _).1 hany
      rw [headProvablyPristine_congr (hcarried l hl).1] at hpristine
      unfold translateRequest
      dsimp only
      rw [if_neg (not_not.2 rfl), pristine_kept hpristine]
      rfl
    · rw [if_neg (by decide)]
      have hdoc : hopDocument lib body first = some v := by
        cases first with
        | none => exact hv
        | some l => exact (hcarried l rfl).2
      rw [hdoc]

/-- **Every hop sends what the translation of the whole document sends**, whatever hops went before it. -/
theorem payloads_eq (h : Carried lib isJson body first) (lanes : List Lane) :
    payloads lib x ingress isJson body first lanes =
      lanes.map fun lane => translateRequest lib x ingress lane (if isJson then lib.parse body else none) body := by
  induction lanes generalizing first with
  | nil => rfl
  | cons lane lanes ih => rw [payloads, hopPayload_fresh h, ih h.later, List.map_cons]

/-- The body of a client of Gemini's, and what is sent for it. -/
def geminiBody : Bytes := utf8 "\x7b\"__busbar_gemini_json_array\":true,\"contents\":[]\x7d"

def geminiSent : Bytes := utf8 "\x7b\"contents\":[]\x7d"

def geminiLib : BodyLib where
  scan bytes :=
    if bytes = geminiBody then some (.map [("__busbar_gemini_json_array", .bool true), ("contents", .seq [])])
    else if bytes = geminiSent then some (.map [("contents", .seq [])])
    else none
  toVec _ := geminiSent

def geminiDocument : Json := .object [("__busbar_gemini_json_array", .bool true), ("contents", .array [])]

def geminiLane : Lane := ⟨.gemini, "gemini-pro", none, none⟩

def openAiLane : Lane := ⟨.openai, "gpt", none, none⟩

def noTranslation : CrossProtocol Unit := ⟨fun _ _ _ => .error (), fun _ _ _ => .error (), ()⟩

theorem geminiBody_parse : geminiLib.parse geminiBody = some geminiDocument := by
  have hshallow : exceedsMaxDepth geminiBody maxJsonDepth = false := by decide +kernel
  unfold BodyLib.parse
  rw [hshallow, if_neg (by decide)]
  unfold geminiLib
  dsimp only
  rw [if_pos rfl]
  rfl

theorem geminiSent_scan : (geminiLib.scan geminiSent).bind Scanned.value = some (.object [("contents", .array [])]) := by
  have hne : geminiSent ≠ geminiBody := by decide +kernel
  unfold geminiLib
  dsimp only
  rw [if_neg hne, if_pos rfl]
  rfl

end Busbar.Wire
