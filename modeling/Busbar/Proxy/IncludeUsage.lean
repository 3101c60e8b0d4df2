import Busbar.Lib.JsonMembers
import Busbar.Proxy.LazyBody

/-!
# Asking OpenAI's stream for its usage

A stream of chat completions tells its usage only where the request asks for it, and the request is billed by what it tells. So
the body that goes to an OpenAI lane is made to ask: through the document, or by one member put in front of the others, which
leaves the bytes of the client as they are.

* `injectOpenAiStreamIncludeUsage`, `injectOpenAiStreamIncludeUsagePristine`: the two ways.
* `asking_spliced`: **the member in front makes an object of the client's members and the one that asks.**
* `asking_document`: **through the document, the options ask, and nothing else changes.**
-/

namespace Busbar.Wire

open JsonText

def optionsName : Bytes := utf8 "\"stream_options\""

def optionsValue : Bytes := utf8 "\x7b\"include_usage\":true\x7d"

/-- `"stream_options":{"include_usage":true},` -/
def insertedMember : Bytes := optionsName ++ 0x3A :: (optionsValue ++ [0x2C])

def containsSubslice (haystack needle : Bytes) : Bool :=
  if needle.isEmpty || needle.length > haystack.length then needle.isEmpty
  else (List.range (haystack.length - needle.length + 1)).any fun i => (haystack.drop i).take needle.length = needle

variable (lib : BodyLib)

/-- The options of the document ask; a body without options of its own gets some. -/
def injectOpenAiStreamIncludeUsage (payload : Bytes) : Bytes :=
  match lib.parse payload with
  | some (.object obj) =>
    match (Json.getMember "stream_options" obj).getD (.object []) with
    | .object options =>
      lib.toVec (.object
        (Json.insertMember "stream_options" (.object (Json.insertMember "include_usage" (.bool true) options)) obj))
    | _ => payload
  | _ => payload

/-- The same for a body whose head has no options: the member goes behind the opening brace. -/
def injectOpenAiStreamIncludeUsagePristine (payload : Bytes) : Bytes :=
  if containsSubslice payload optionsName then injectOpenAiStreamIncludeUsage lib payload
  else
    let i := (payload.takeWhile isAsciiSpace).length
    let next := ((payload.drop (i + 1)).dropWhile isAsciiSpace).head?
    if payload[i]? ≠ some 0x7B ∨ next ≠ some 0x22 then injectOpenAiStreamIncludeUsage lib payload
    else payload.take (i + 1) ++ (insertedMember ++ payload.drop (i + 1))

/-- The body that leaves for a lane: a stream of OpenAI's is made to ask, unless the client asked. -/
def askingPayload (wantsStream : Bool) (lane : Lane) (probe : Json) (payload : Bytes) : Bytes :=
  let options := probe.get "stream_options"
  let clientIncludeUsage := wantsStream && ((options.bind (Json.get "include_usage")).bind Json.asBool).getD false
  let clientHasStreamOptions := wantsStream && options.isSome
  if wantsStream && lane.protocol.name = protoOpenAi && !clientIncludeUsage then
    if clientHasStreamOptions then injectOpenAiStreamIncludeUsage lib payload
    else injectOpenAiStreamIncludeUsagePristine lib payload
  else payload

/-! ## Finding the name -/

theorem containsSubslice_of_isInfix {haystack needle : Bytes} (h : needle <:+: haystack) :
    containsSubslice haystack needle = true := by
  obtain ⟨s, t, rfl⟩ := h
  unfold containsSubslice
  by_cases hne : needle = []
  · subst hne
    simp
  · have hlen : ¬ (needle.isEmpty || decide (needle.length > (s ++ needle ++ t).length)) = true := by
      simp only [List.length_append, Bool.or_eq_true, List.isEmpty_iff, decide_eq_true_eq, not_or]
      exact ⟨hne, by omega⟩
    rw [if_neg hlen, List.any_eq_true]
    refine ⟨s.length, ?_, ?_⟩
    · rw [List.mem_range]
      simp only [List.length_append]
      omega
    · simp

/-- The name of a member stands in the text. -/
theorem name_infix {ms : List (Bytes × Bytes)} {t : Bytes} (h : MembersText ms t) {m : Bytes × Bytes} (hm : m ∈ ms) :
    m.1 <:+: t := by
  have hone : ∀ {m : Bytes × Bytes} {t : Bytes}, MemberText m t → m.1 <:+: t := by
    rintro m t ⟨w, p, w', -, ⟨v, v', -, -, -, -, rfl⟩, -, rfl⟩
    exact ⟨w, v ++ 0x3A :: (v' ++ m.2) ++ w', by simp⟩
  induction h with
  | one h =>
    rw [List.mem_singleton.1 hm]
    exact hone h
  | more h _ ih =>
    rcases List.mem_cons.1 hm with rfl | hm
    · exact (hone h).trans (List.infix_append' [] _ _)
    · exact (ih hm).trans (List.suffix_append_of_suffix (List.suffix_cons _ _)).isInfix

/-- Members start with the quote of a name. -/
theorem members_quote {ms : List (Bytes × Bytes)} {t : Bytes} (h : MembersText ms t) :
    ∃ w r, Spaces w ∧ t = w ++ 0x22 :: r := by
  have hone : ∀ {m : Bytes × Bytes} {t : Bytes}, MemberText m t → ∃ w r, Spaces w ∧ t = w ++ 0x22 :: r := by
    rintro m t ⟨w, p, w', hw, ⟨v, v', ⟨body, -, hbody⟩, -, -, -, rfl⟩, -, rfl⟩
    exact ⟨w, _, hw, by rw [hbody, List.cons_append, List.cons_append]⟩
  cases h with
  | one h => exact hone h
  | @more _ _ _ u h _ =>
    obtain ⟨w, r, hw, rfl⟩ := hone h
    exact ⟨w, r ++ 0x2C :: u, hw, by simp⟩

/-! ## The member that asks -/

theorem stringBody_of_plain {t : Bytes} (h : ∀ b ∈ t, 0x20 ≤ b ∧ b ≠ 0x22 ∧ b ≠ 0x5C) : StringBody t := by
  induction t with
  | nil => exact .nil
  | cons b t ih =>
    obtain ⟨hb, hquote, hescape⟩ := h b List.mem_cons_self
    exact .plain hb hquote hescape (ih fun b' hb' => h b' (List.mem_cons_of_mem _ hb'))

theorem stringText_of_plain {t : Bytes} (h : ∀ b ∈ t, 0x20 ≤ b ∧ b ≠ 0x22 ∧ b ≠ 0x5C) :
    StringText (0x22 :: (t ++ [0x22])) := ⟨t, stringBody_of_plain h, rfl⟩

theorem asking_pair : PairText (optionsName, optionsValue) (optionsName ++ 0x3A :: optionsValue) := by
  have hname : optionsName = 0x22 :: (utf8 "stream_options" ++ [0x22]) := by decide +kernel
  have hvalue : optionsValue = 0x7B :: ((0x22 :: (utf8 "include_usage" ++ [0x22])) ++ 0x3A :: utf8 "true" ++ [0x7D]) := by
    decide +kernel
  refine ⟨[], [], ?_, spaces_nil, spaces_nil, ?_, rfl⟩
  · rw [hname]
    exact stringText_of_plain (by decide +kernel)
  · have hmember : Text .members ((0x22 :: (utf8 "include_usage" ++ [0x22])) ++ 0x3A :: utf8 "true") := by
      have h := Text.member spaces_nil (stringText_of_plain (t := utf8 "include_usage") (by decide +kernel)) spaces_nil
        spaces_nil (Text.literal (t := utf8 "true") (by decide +kernel)) spaces_nil
      simpa using h
    rw [hvalue]
    exact .object hmember

theorem asciiSpace_of_spaces {w : Bytes} (h : Spaces w) : ∀ b ∈ w, isAsciiSpace b = true := by
  intro b hb
  have hspace := h b hb
  unfold isSpace at hspace
  unfold isAsciiSpace
  simp only [Bool.or_eq_true, decide_eq_true_eq] at hspace ⊢
  tauto

theorem takeWhile_spaces {w r : Bytes} {b : UInt8} (hw : Spaces w) (hb : isAsciiSpace b = false) :
    (w ++ b :: r).takeWhile isAsciiSpace = w := by
  rw [List.takeWhile_append_of_pos (asciiSpace_of_spaces hw), List.takeWhile_cons_of_neg (by simp [hb]), List.append_nil]

theorem dropWhile_spaces {w r : Bytes} {b : UInt8} (hw : Spaces w) (hb : isAsciiSpace b = false) :
    (w ++ b :: r).dropWhile isAsciiSpace = b :: r := by
  rw [List.dropWhile_append_of_pos (asciiSpace_of_spaces hw), List.dropWhile_cons_of_neg (by simp [hb])]

variable {lib}

/-- **The member in front makes an object of the client's members and the one that asks**, of a name that none of them has; a
body that has the name in it goes through the document. -/
theorem asking_spliced {ms : List (Bytes × Bytes)} {t : Bytes} (h : ObjectText ms t) :
    (injectOpenAiStreamIncludeUsagePristine lib t = injectOpenAiStreamIncludeUsage lib t ∧
        (ms = [] ∨ containsSubslice t optionsName = true)) ∨
      (ObjectText ((optionsName, optionsValue) :: ms) (injectOpenAiStreamIncludeUsagePristine lib t) ∧
        ∀ m ∈ ms, m.1 ≠ optionsName) := by
  by_cases hname : containsSubslice t optionsName = true
  · refine Or.inl ⟨?_, Or.inr hname⟩
    unfold injectOpenAiStreamIncludeUsagePristine
    rw [if_pos hname]
  obtain ⟨w, body, w', hw, hw', hbody, rfl⟩ := h
  have hi : ((w ++ 0x7B :: (body ++ 0x7D :: w')).takeWhile isAsciiSpace).length = w.length := by
    rw [takeWhile_spaces hw (by decide)]
  have hbrace : (w ++ 0x7B :: (body ++ 0x7D :: w'))[w.length]? = some 0x7B := by simp
  have hdrop : (w ++ 0x7B :: (body ++ 0x7D :: w')).drop (w.length + 1) = body ++ 0x7D :: w' := by simp
  have htake : (w ++ 0x7B :: (body ++ 0x7D :: w')).take (w.length + 1) = w ++ [0x7B] := by
    rw [List.take_append, List.take_of_length_le (by omega)]
    simp
  unfold injectOpenAiStreamIncludeUsagePristine
  rw [if_neg hname]
  dsimp only
  rw [hi, hbrace, hdrop, htake]
  rcases hbody with ⟨rfl, hspaces⟩ | hmembers
  · refine Or.inl ⟨?_, Or.inl rfl⟩
    rw [dropWhile_spaces hspaces (by decide), if_pos (Or.inr (by simp))]
  · refine Or.inr ⟨?_, ?_⟩
    · obtain ⟨v, r, hv, hr⟩ := members_quote hmembers
      have hquote : ((body ++ 0x7D :: w').dropWhile isAsciiSpace).head? = some 0x22 := by
        rw [hr, List.append_assoc, List.cons_append, dropWhile_spaces hv (by decide)]
        rfl
      rw [hquote, if_neg (by simp)]
      have hfront : MembersText ((optionsName, optionsValue) :: ms)
          ((optionsName ++ 0x3A :: optionsValue) ++ 0x2C :: body) :=
        .more ⟨[], _, [], spaces_nil, asking_pair, spaces_nil, by simp⟩ hmembers
      exact ⟨w, _, w', hw, hw', Or.inr hfront, by simp [insertedMember]⟩
    · intro m hm heq
      refine hname (containsSubslice_of_isInfix ?_)
      rw [← heq]
      obtain ⟨s, u, hsu⟩ := name_infix hmembers hm
      exact ⟨w ++ 0x7B :: s, u ++ 0x7D :: w', by rw [← hsu]; simp⟩

/-- The document asks: its options have the usage, the other options and the other members are the client's. -/
structure Asks (obj : List (String × Json)) (w : Json) : Prop where
  asks : (w.get "stream_options").bind (Json.get "include_usage") = some (.bool true)
  options : ∀ k, k ≠ "include_usage" →
    (w.get "stream_options").bind (Json.get k) = (Json.getMember "stream_options" obj).bind (Json.get k)
  members : ∀ k, k ≠ "stream_options" → w.get k = Json.getMember k obj

/-- **Through the document, the options ask, and nothing else changes.** -/
theorem asking_document {t : Bytes} {obj options : List (String × Json)} (hv : lib.parse t = some (.object obj))
    (hoptions : (Json.getMember "stream_options" obj).getD (.object []) = .object options) :
    ∃ w, injectOpenAiStreamIncludeUsage lib t = lib.toVec w ∧ Asks obj w := by
  refine ⟨_, by rw [injectOpenAiStreamIncludeUsage, hv]; dsimp only; rw [hoptions], ?_, ?_, ?_⟩
  · rw [Json.get_object, Json.getMember_insertMember, if_pos rfl, Option.bind_some, Json.get_object,
      Json.getMember_insertMember, if_pos rfl]
  · intro k hk
    rw [Json.get_object, Json.getMember_insertMember, if_pos rfl, Option.bind_some, Json.get_object,
      Json.getMember_insertMember, if_neg hk]
    cases hget : Json.getMember "stream_options" obj with
    | none =>
      rw [hget] at hoptions
      cases hoptions
      rfl
    | some v =>
      rw [hget] at hoptions
      cases (show v = .object options from hoptions)
      rfl
  · intro k hk
    rw [Json.get_object, Json.getMember_insertMember, if_neg hk]

/-- A stream that was asked for without options. -/
def streamBody : Bytes := utf8 "\x7b\"stream\":true\x7d"

def streamLib : BodyLib where
  scan bytes := if bytes = streamBody then some (.map [("stream", .bool true)]) else none
  toVec _ := utf8 "\x7b\"stream\":true,\"stream_options\":\x7b\"include_usage\":true\x7d\x7d"

theorem streamBody_parse : streamLib.parse streamBody = some (.object [("stream", .bool true)]) := by
  have hshallow : exceedsMaxDepth streamBody maxJsonDepth = false := by decide +kernel
  unfold BodyLib.parse
  rw [hshallow, if_neg (by decide)]
  unfold streamLib
  dsimp only
  rw [if_pos rfl]
  rfl

theorem streamBody_text : ObjectText [(utf8 "\"stream\"", utf8 "true")] streamBody := by
  have hname : utf8 "\"stream\"" = 0x22 :: (utf8 "stream" ++ [0x22]) := by decide +kernel
  have hpair : PairText (utf8 "\"stream\"", utf8 "true") (utf8 "\"stream\"" ++ 0x3A :: utf8 "true") := by
    refine ⟨[], [], ?_, spaces_nil, spaces_nil, .literal (by decide +kernel), rfl⟩
    rw [hname]
    exact stringText_of_plain (by decide +kernel)
  exact ⟨[], _, [], spaces_nil, spaces_nil, Or.inr (.one ⟨[], _, [], spaces_nil, hpair, spaces_nil, rfl⟩), by decide +kernel⟩

end Busbar.Wire
