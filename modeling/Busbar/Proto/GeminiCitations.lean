import Busbar.Lib.Offsets
import Busbar.Proto.GeminiBlocks
import Busbar.Proto.GeminiResponse
import Busbar.Proto.GeminiWriter
import Mathlib.Data.List.ReduceOption

/-!
# Citations through the Gemini dialect

A citation counts the characters of its block; on the wire it counts the bytes of all the text. Written and read again it
is on its block, at its place.

* `byteOffsetToChar_mem`, `byteOffsetToChar_edge`: byte offsets as characters, for any offset and for one of a character.
* `attach_sources`: the sources that were written find their blocks.
* `citations_survive`: responses written and read again, and responses with any sources.
-/

namespace Busbar.Gemini

open Offsets

/-! ## Offsets -/

theorem isCharBoundary_iff {cs : List Char} {b : Nat} : isCharBoundary cs b = true ↔ Edge Char.utf8Size cs b := by
  unfold isCharBoundary
  rw [decide_eq_true_iff, edge_iff]
  rfl

/-- The boundary a text is cut at to count the characters before a byte offset. -/
def safeBoundary (text : String) (byteIdx : Int) : Nat :=
  ((List.range (min (max byteIdx 0).toNat (byteLen text.toList) + 1)).reverse.find? (isCharBoundary text.toList)).getD 0

theorem geminiByteOffsetToChar_eq (text : String) (byteIdx : Int) : geminiByteOffsetToChar text byteIdx =
    ((starts Char.utf8Size text.toList).countP (· < safeBoundary text byteIdx) : Nat) := rfl

/-- It is the last one up to the offset. -/
theorem safeBoundary_spec (text : String) (byteIdx : Int) : Edge Char.utf8Size text.toList (safeBoundary text byteIdx) ∧
    safeBoundary text byteIdx ≤ (max byteIdx 0).toNat ∧
    ∀ c ≤ min (max byteIdx 0).toNat (byteLen text.toList), Edge Char.utf8Size text.toList c → c ≤ safeBoundary text byteIdx := by
  obtain ⟨f, hf, hedge, hle, hlast⟩ := find?_reverse_range (p := isCharBoundary text.toList)
    (isCharBoundary_iff.2 edge_zero) (min (max byteIdx 0).toNat (byteLen text.toList))
  have hsafe : safeBoundary text byteIdx = f := by
    unfold safeBoundary
    rw [hf]
    rfl
  rw [hsafe]
  exact ⟨isCharBoundary_iff.1 hedge, by omega, fun c hc hcedge => hlast c hc (isCharBoundary_iff.2 hcedge)⟩

/-- The text is cut between two characters. -/
theorem isCharBoundary_safeBoundary (text : String) (byteIdx : Int) :
    isCharBoundary text.toList (safeBoundary text byteIdx) = true :=
  isCharBoundary_iff.2 (safeBoundary_spec text byteIdx).1

/-- Any byte offset becomes a place in the text. -/
theorem byteOffsetToChar_mem (text : String) (byteIdx : Int) :
    0 ≤ geminiByteOffsetToChar text byteIdx ∧ geminiByteOffsetToChar text byteIdx ≤ text.length := by
  obtain ⟨⟨n, hn, hsize⟩, -, -⟩ := safeBoundary_spec text byteIdx
  have hcount := countP_starts (w := Char.utf8Size) Char.utf8Size_pos hn
  rw [geminiByteOffsetToChar_eq, hsize, hcount]
  rw [String.length_toList] at hn
  omega

/-- The byte offset of a place becomes that place. -/
theorem byteOffsetToChar_edge {text : String} {n : Nat} (hn : n ≤ text.toList.length) :
    geminiByteOffsetToChar text (size Char.utf8Size (text.toList.take n)) = n := by
  obtain ⟨-, hupto, hlast⟩ := safeBoundary_spec text (size Char.utf8Size (text.toList.take n))
  have hle : size Char.utf8Size (text.toList.take n) ≤ byteLen text.toList := size_take_le n
  have hsafe : safeBoundary text (size Char.utf8Size (text.toList.take n)) = size Char.utf8Size (text.toList.take n) :=
    le_antisymm (by omega) (hlast _ (by omega) ⟨n, hn, rfl⟩)
  rw [geminiByteOffsetToChar_eq, hsafe, countP_starts Char.utf8Size_pos hn]

theorem charOffsetToByte_eq {text : String} {n : Nat} (hn : n ≤ text.toList.length) :
    geminiCharOffsetToByte text n = size Char.utf8Size (text.toList.take n) := by
  have hclamp : (max (n : Int) 0).toNat = n := by omega
  have hstarts : (starts Char.utf8Size text.toList)[n]? =
      if n < text.toList.length then some (size Char.utf8Size (text.toList.take n)) else none := getElem?_starts n
  unfold geminiCharOffsetToByte
  rw [hclamp]
  have heq : (charIndices text.toList)[n]? = _ := hstarts
  rw [heq]
  by_cases hlt : n < text.toList.length
  · rw [if_pos hlt]
  · rw [if_neg hlt, List.take_of_length_le (by omega)]
    rfl

/-- A place of one text, written as a byte offset of all texts, is that place of all texts. -/
theorem offset_roundtrip {full text : String} {before after : List Char} {n : Nat}
    (hfull : full.toList = before ++ (text.toList ++ after)) (hn : n ≤ text.toList.length) :
    geminiByteOffsetToChar full (geminiCharOffsetToByte text n + (size Char.utf8Size before : Nat)) =
      ((before.length + n : Nat) : Int) := by
  have htake : size Char.utf8Size (full.toList.take (before.length + n)) =
      size Char.utf8Size before + size Char.utf8Size (text.toList.take n) := by
    rw [hfull, size_take_append, size_take_append_left hn]
  have hlen : before.length + n ≤ full.toList.length := by
    rw [hfull, List.length_append, List.length_append]
    omega
  have hsum : geminiCharOffsetToByte text n + (size Char.utf8Size before : Nat) =
      ((size Char.utf8Size (full.toList.take (before.length + n)) : Nat) : Int) := by
    rw [charOffsetToByte_eq hn, htake]
    omega
  rw [hsum]
  exact byteOffsetToChar_edge hlen

/-! ## Parts -/

variable {lib : GeminiLib} {salt : String} {pre rest blocks : List IrBlock}

def isText : IrBlock → Bool
  | .text .. => true
  | _ => false

/-- A text block comes back without its citations, if it has any text. -/
theorem readParts_text (text : String) (citations : List IrCitation) (i : Nat) (parts : List Json) :
    readParts lib salt i (blockParts lib.toJsonLib (.text text citations) ++ parts) =
      (if text = "" then [] else [.text text []]) ++ readParts lib salt i parts := by
  have hparts : blockParts lib.toJsonLib (.text text citations) =
      if text = "" then [] else [.object [("text", .string text)]] := rfl
  by_cases he : text = ""
  · rw [hparts, if_pos he, if_pos he]
    rfl
  · have htext : partText (Json.object [("text", .string text)]) = some text := by
      simp [partText, Json.getStr, Json.get_object, Json.getMember_cons, Json.asStr, he, Option.filter_some]
    have hthought : isThought (Json.object [("text", .string text)]) = false := by
      simp [isThought, Json.get_object, Json.getMember_cons, Json.getMember_nil]
    have hcall : (Json.object [("text", .string text)]).get fieldFunctionCall = none := by
      simp [fieldFunctionCall, Json.get_object, Json.getMember_cons, Json.getMember_nil]
    have hblocks : textBlocks (Json.object [("text", .string text)]) = [.text text []] := by
      unfold textBlocks
      rw [htext, hthought]
      rfl
    have hcalls : callBlocks lib salt i (Json.object [("text", .string text)]) = [] := by
      unfold callBlocks
      rw [hcall]
      rfl
    have hcons : ∀ part, readParts lib salt i (part :: parts) = textBlocks part ++ callBlocks lib salt i part ++
      readParts lib salt (if (part.get fieldFunctionCall).isSome then i + 1 else i) parts := fun _ => rfl
    rw [hparts, if_neg he, if_neg he, List.singleton_append, hcons, hblocks, hcalls, hcall]
    rfl

/-- What comes back of any other block is no text. -/
theorem readParts_other (lib : GeminiLib) (salt : String) {b : IrBlock} (hb : isText b = false) (i : Nat) (parts : List Json) :
    ∃ j echoes, readParts lib salt i (blockParts lib.toJsonLib b ++ parts) = echoes ++ readParts lib salt j parts ∧
      ∀ e ∈ echoes, isText e = false := by
  have hone : ∀ part, partText part = none ∨ isThought part = true → ∃ j echoes,
      readParts lib salt i ([part] ++ parts) = echoes ++ readParts lib salt j parts ∧ ∀ e ∈ echoes, isText e = false := by
    intro part hpart
    refine ⟨_, textBlocks part ++ callBlocks lib salt i part, rfl, fun e he => ?_⟩
    rcases List.mem_append.1 he with he | he
    · unfold textBlocks at he
      rcases hpart with hnone | hthought
      · rw [hnone] at he
        split at he
        · rw [List.mem_singleton.1 he]
          rfl
        · cases he
      · rw [if_pos hthought] at he
        rw [List.mem_singleton.1 he]
        rfl
    · unfold callBlocks at he
      cases hcall : part.get fieldFunctionCall with
      | none =>
        rw [hcall] at he
        cases he
      | some funcCall =>
        rw [hcall] at he
        rw [List.mem_singleton.1 he]
        rfl
  cases b with
  | text text citations => cases hb
  | toolUse id name input thoughtSignature =>
    refine hone _ (Or.inl ?_)
    cases thoughtSignature <;>
      simp [functionCallPart, Json.mapObject, partText, Json.getStr, Json.get_object, Json.getMember_cons,
        Json.getMember_nil, Json.getMember_insertMember, fieldFunctionCall]
  | thinking text signature redacted =>
    cases redacted with
    | true => exact ⟨i, [], rfl, fun e he => by cases he⟩
    | false =>
      refine hone _ (Or.inr ?_)
      cases signature <;>
        simp [isThought, Json.get_object, Json.getMember_cons, Json.asBool]
  | toolResult => exact ⟨i, [], rfl, fun e he => by cases he⟩
  | image => exact ⟨i, [], rfl, fun e he => by cases he⟩
  | json => exact ⟨i, [], rfl, fun e he => by cases he⟩

/-! ## Blocks and their ranges -/

/-- The text blocks, their places counted from `k`. -/
def positionsFrom : Nat → List IrBlock → List (Nat × String)
  | _, [] => []
  | k, .text text _ :: content => (k, text) :: positionsFrom (k + 1) content
  | k, _ :: content => positionsFrom (k + 1) content

theorem textPositions_from (content : List IrBlock) (k : Nat) :
    ((content.zipIdx k).map (fun (b, i) => match b with
      | .text text _ => some (i, text)
      | _ => none)).reduceOption = positionsFrom k content := by
  induction content generalizing k with
  | nil => rfl
  | cons b content ih =>
    rw [List.zipIdx_cons, List.map_cons]
    cases b with
    | text text citations =>
      rw [List.reduceOption_cons_of_some, ih]
      rfl
    | _ =>
      rw [List.reduceOption_cons_of_none, ih]
      rfl

theorem textPositions_eq (content : List IrBlock) : textPositions content = positionsFrom 0 content :=
  textPositions_from content 0

theorem positionsFrom_other {echoes : List IrBlock} (h : ∀ e ∈ echoes, isText e = false) (k : Nat) :
    positionsFrom k (echoes ++ rest) = positionsFrom (k + echoes.length) rest := by
  induction echoes generalizing k with
  | nil => rfl
  | cons e es ih =>
    have hes := ih (fun e' he' => h e' (List.mem_cons_of_mem _ he')) (k + 1)
    have he := h e List.mem_cons_self
    have hcons : positionsFrom k (e :: (es ++ rest)) = positionsFrom (k + 1) (es ++ rest) := by
      cases e with
      | text text citations => cases he
      | _ => rfl
    rw [List.cons_append, hcons, hes, List.length_cons]
    congr 1
    omega

/-- The block of a start that lies in its range. -/
theorem ownerOf_middle {before after : List (Nat × Int × Int)} {k : Nat} {s e start : Int}
    (hbefore : ∀ r ∈ before, r.2.2 ≤ s) (hs : s ≤ start) (he : start < e) :
    ownerOf (before ++ (k, s, e) :: after) start = some (k, s, e) := by
  have hpast : ∀ r ∈ before, ¬ (start ≥ r.2.1 ∧ start < r.2.2) := by
    intro r hr
    have hle := hbefore r hr
    omega
  unfold ownerOf
  rw [List.find?_append, List.find?_eq_none.2, Option.none_or, List.find?_cons_of_pos (by simpa using And.intro hs he)]
  · rfl
  · exact fun r hr => by simpa using hpast r hr

/-! ## Written sources -/

/-- **An anchored citation** has no source of the dialect's own, and both its offsets lie in the text of its block. -/
structure Anchored (text : String) (c : IrCitation) : Prop where
  foreign : ∀ raw ∈ c.raw, raw.get "uri" = none ∧ raw.get "startIndex" = none ∧ raw.get "endIndex" = none
  offsets : ∃ s e : Nat, c.startIndex = some (s : Int) ∧ c.endIndex = some (e : Int) ∧ s < text.length ∧ s ≤ e ∧
    e ≤ text.length

/-- What a client sees of a citation. -/
def placeOf (c : IrCitation) : Option String × Option String × Option Int × Option Int :=
  (c.title, c.url, c.startIndex, c.endIndex)

/-- A text block with the places of its citations; one without text does not count. -/
def passageOf : IrBlock → Option (String × List (Option String × Option String × Option Int × Option Int))
  | .text text citations => if text = "" then none else some (text, citations.map placeOf)
  | _ => none

/-- A source that was written is read at the same place, counted from the start of all the text. -/
theorem read_written {full text : String} {before after : List Char} {c : IrCitation} (hc : Anchored text c)
    (hfull : full.toList = before ++ (text.toList ++ after)) (hfits : size Char.utf8Size full.toList < 2 ^ 63) :
    ∃ s e : Nat, c.startIndex = some (s : Int) ∧ c.endIndex = some (e : Int) ∧ s < text.length ∧
      let c' := readGeminiCitation (some full) (writeGeminiCitation c text (size Char.utf8Size before : Nat))
      c'.title = c.title ∧ c'.url = c.url ∧ c'.startIndex = some ((before.length + s : Nat) : Int) ∧
        c'.endIndex = some ((before.length + e : Nat) : Int) := by
  obtain ⟨s, e, hs, he, hlt, -, hle⟩ := hc.offsets
  refine ⟨s, e, hs, he, hlt, ?_⟩
  have hne : ¬ text = "" := by
    intro h
    rw [h] at hlt
    exact absurd hlt (by simp)
  have hforeign : c.raw.filter (fun raw =>
      (raw.get "uri").isSome || (raw.get "startIndex").isSome || (raw.get "endIndex").isSome) = none := by
    refine Option.filter_eq_none_iff.2 (fun raw hraw => ?_)
    obtain ⟨huri, hstart, hend⟩ := hc.foreign raw hraw
    simp [huri, hstart, hend]
  have hbound : ∀ n ≤ text.toList.length, 0 ≤ geminiCharOffsetToByte text n + (size Char.utf8Size before : Nat) ∧
      geminiCharOffsetToByte text n + (size Char.utf8Size before : Nat) < 2 ^ 63 := by
    intro n hn
    have htake : size Char.utf8Size (text.toList.take n) ≤ size Char.utf8Size text.toList := size_take_le n
    have hsum : size Char.utf8Size full.toList =
        size Char.utf8Size before + (size Char.utf8Size text.toList + size Char.utf8Size after) := by
      rw [hfull, size_append, size_append]
    rw [charOffsetToByte_eq hn]
    omega
  rw [← String.length_toList] at hlt hle
  obtain ⟨hs0, hs63⟩ := hbound s hlt.le
  obtain ⟨he0, he63⟩ := hbound e hle
  unfold writeGeminiCitation
  rw [hforeign, hs, he]
  unfold readGeminiCitation
  simp only [if_neg hne]
  cases c.url <;> cases c.title <;>
    simp [Json.getStr, Json.get_object, Json.getMember_insertMember, Json.getMember_nil, Json.asStr,
      Json.asI64_ofInt hs0 hs63, Json.asI64_ofInt he0 he63, offset_roundtrip hfull hlt.le, offset_roundtrip hfull hle]

theorem modify_middle (f : IrBlock → IrBlock) (b : IrBlock) : (pre ++ b :: rest).modify pre.length f = pre ++ f b :: rest := by
  induction pre with
  | nil => simp
  | cons p ps ih => simpa using ih

/-- The sources of one block go back to it, in their order. -/
theorem attach_block {full text : String} {before after : List Char} {ranges : List (Nat × Int × Int)}
    (pre rest : List IrBlock) (ranges' : List (Nat × Int × Int))
    (hfull : full.toList = before ++ (text.toList ++ after)) (hfits : size Char.utf8Size full.toList < 2 ^ 63)
    (hranges : ∀ r ∈ ranges, r.2.2 ≤ (before.length : Int)) (citations : List IrCitation)
    (hcitations : ∀ c ∈ citations, Anchored text c) (done : List IrCitation) :
    ∃ back : List IrCitation, back.map placeOf = citations.map placeOf ∧
      ((citations.map (fun c => writeGeminiCitation c text (size Char.utf8Size before : Nat))).map
        (readGeminiCitation (some full))).foldl
          (attachCitation (ranges ++ (pre.length, (before.length : Int), (before.length : Int) + text.length) :: ranges'))
          (pre ++ .text text done :: rest) = pre ++ .text text (done ++ back) :: rest := by
  induction citations generalizing done with
  | nil => exact ⟨[], rfl, by simp⟩
  | cons c cs ih =>
    obtain ⟨s, e, hs, he, hlt, htitle, hurl, hstart, hend⟩ := read_written (hcitations c List.mem_cons_self) hfull hfits
    obtain ⟨c', hc'⟩ : ∃ c', c' = readGeminiCitation (some full)
      (writeGeminiCitation c text (size Char.utf8Size before : Nat)) := ⟨_, rfl⟩
    rw [← hc'] at htitle hurl hstart hend
    have howner : ownerOf (ranges ++ (pre.length, (before.length : Int), (before.length : Int) + text.length) :: ranges')
        (c'.startIndex.getD 0) = some (pre.length, (before.length : Int), (before.length : Int) + text.length) := by
      rw [hstart, Option.getD_some]
      exact ownerOf_middle hranges (by omega) (by omega)
    have hattach : attachCitation (ranges ++ (pre.length, (before.length : Int), (before.length : Int) + text.length) :: ranges')
        (pre ++ .text text done :: rest) c' = pre ++ .text text (done ++ [relativeTo before.length c']) :: rest := by
      unfold attachCitation
      rw [howner]
      exact modify_middle _ _
    have hplace : placeOf (relativeTo before.length c') = placeOf c := by
      unfold placeOf relativeTo
      rw [htitle, hurl, hstart, hend, hs, he]
      simp only [Option.map_some]
      have hs' : ((before.length + s : Nat) : Int) - before.length = s := by omega
      have he' : ((before.length + e : Nat) : Int) - before.length = e := by omega
      rw [hs', he']
    obtain ⟨back, hback, hfold⟩ := ih (fun c hc => hcitations c (List.mem_cons_of_mem _ hc))
      (done ++ [relativeTo before.length c'])
    refine ⟨relativeTo before.length c' :: back, ?_, ?_⟩
    · rw [List.map_cons, List.map_cons, hplace, hback]
    · rw [List.map_cons, List.map_cons, List.foldl_cons, ← hc', hattach, hfold, List.append_assoc]
      rfl

/-- **The sources of all blocks go back to them.** -/
theorem attach_sources (lib : GeminiLib) (salt : String) {full : String}
    (hfits : size Char.utf8Size full.toList < 2 ^ 63) (blocks pre : List IrBlock) {before : List Char}
    (ranges : List (Nat × Int × Int)) (i : Nat)
    (hfull : full.toList = before ++ (String.join (blocks.filterMap blockText)).toList)
    (hanchored : ∀ text citations, .text text citations ∈ blocks → ∀ c ∈ citations, Anchored text c)
    (hranges : ∀ r ∈ ranges, r.2.2 ≤ (before.length : Int)) :
    ∃ content : List IrBlock, content.filterMap passageOf = blocks.filterMap passageOf ∧
      ((citationSources (size Char.utf8Size before : Nat) blocks).map (readGeminiCitation (some full))).foldl
        (attachCitation (ranges ++ blockCharRanges before.length
          (positionsFrom pre.length (readParts lib salt i (blocks.flatMap (blockParts lib.toJsonLib))))))
        (pre ++ readParts lib salt i (blocks.flatMap (blockParts lib.toJsonLib))) = pre ++ content := by
  induction blocks generalizing pre before ranges i with
  | nil => exact ⟨[], rfl, rfl⟩
  | cons b bs ih =>
    have hanchored' : ∀ text citations, .text text citations ∈ bs → ∀ c ∈ citations, Anchored text c :=
      fun text citations hmem => hanchored text citations (List.mem_cons_of_mem _ hmem)
    rw [List.flatMap_cons]
    by_cases hb : isText b = true
    · obtain ⟨text, citations, rfl⟩ : ∃ text citations, b = .text text citations := by
        cases b with
        | text text citations => exact ⟨text, citations, rfl⟩
        | _ => cases hb
      have hblock := hanchored text citations List.mem_cons_self
      have hsplit : full.toList = before ++ (text.toList ++ (String.join (bs.filterMap blockText)).toList) := by
        rw [hfull]
        simp [blockText]
      have hsources : citationSources (size Char.utf8Size before : Nat) (.text text citations :: bs) =
          citations.map (fun c => writeGeminiCitation c text (size Char.utf8Size before : Nat)) ++
            citationSources (size Char.utf8Size (before ++ text.toList) : Nat) bs := by
        have hbytes : ((size Char.utf8Size before : Nat) : Int) + byteLen text.toList =
            (size Char.utf8Size (before ++ text.toList) : Nat) := by
          rw [size_append]
          push_cast
          rfl
        rw [← hbytes]
        rfl
      have hsplit' : full.toList = (before ++ text.toList) ++ (String.join (bs.filterMap blockText)).toList := by
        rw [hsplit, List.append_assoc]
      rw [readParts_text, hsources, List.map_append, List.foldl_append]
      by_cases he : text = ""
      · -- a block without text has no part, and no citation fits on it
        have hnone : citations = [] := by
          refine List.eq_nil_iff_forall_not_mem.2 (fun c hc => ?_)
          obtain ⟨s, e, -, -, hlt, -⟩ := (hblock c hc).offsets
          rw [he] at hlt
          exact absurd hlt (by simp)
        obtain ⟨content, hpassages, hfold⟩ := ih pre ranges i hsplit' hanchored' (by
          rw [he]
          simpa using hranges)
        have hlen : (before ++ text.toList).length = before.length := by simp [he]
        refine ⟨content, ?_, ?_⟩
        · rw [hpassages, List.filterMap_cons_none (by simp [passageOf, he])]
        · rw [if_pos he, hnone, List.map_nil, List.map_nil, List.foldl_nil, List.nil_append]
          rw [hlen] at hfold
          exact hfold
      · rw [if_neg he, List.singleton_append]
        obtain ⟨back, hback, hone⟩ := attach_block pre
          (readParts lib salt i (bs.flatMap (blockParts lib.toJsonLib)))
          (blockCharRanges ((before.length : Int) + text.length) (positionsFrom (pre.length + 1)
            (readParts lib salt i (bs.flatMap (blockParts lib.toJsonLib))))) hsplit hfits hranges citations hblock []
        have hlen : (((before ++ text.toList).length : Nat) : Int) = (before.length : Int) + text.length := by
          rw [List.length_append, String.length_toList]
          push_cast
          rfl
        obtain ⟨content, hpassages, hfold⟩ := ih (pre ++ [.text text back])
          (ranges ++ [(pre.length, (before.length : Int), (before.length : Int) + text.length)]) i hsplit'
          hanchored' (by
            intro r hr
            rw [hlen]
            rcases List.mem_append.1 hr with hr | hr
            · have hle := hranges r hr
              omega
            · rw [List.mem_singleton.1 hr])
        refine ⟨.text text back :: content, ?_, ?_⟩
        · have hpassage : passageOf (.text text back) = passageOf (.text text citations) := by
            have hone : ∀ cs, passageOf (.text text cs) = if text = "" then none else some (text, cs.map placeOf) :=
              fun _ => rfl
            rw [hone, hone, hback]
          rw [List.filterMap_cons, List.filterMap_cons, hpassage, hpassages]
        · have hcons : blockCharRanges before.length (positionsFrom pre.length
              (.text text [] :: readParts lib salt i (bs.flatMap (blockParts lib.toJsonLib)))) =
              (pre.length, (before.length : Int), (before.length : Int) + text.length) ::
                blockCharRanges ((before.length : Int) + text.length) (positionsFrom (pre.length + 1)
                  (readParts lib salt i (bs.flatMap (blockParts lib.toJsonLib)))) := rfl
          rw [hlen, List.length_append, List.length_singleton, List.append_assoc, List.append_assoc,
            List.append_assoc] at hfold
          rw [hcons, hone, List.nil_append]
          exact hfold
    · have hother : isText b = false := by simpa using hb
      obtain ⟨j, echoes, hread, hechoes⟩ := readParts_other lib salt hother i
        (bs.flatMap (blockParts lib.toJsonLib))
      have htext : blockText b = none := by
        cases b with
        | text text citations => cases hother
        | _ => rfl
      have hsources : citationSources (size Char.utf8Size before : Nat) (b :: bs) =
          citationSources (size Char.utf8Size before : Nat) bs := by
        cases b with
        | text text citations => cases hother
        | _ => rfl
      rw [List.filterMap_cons_none htext] at hfull
      obtain ⟨content, hpassages, hfold⟩ := ih (pre ++ echoes) ranges j hfull hanchored' hranges
      refine ⟨echoes ++ content, ?_, ?_⟩
      · have hnone : ∀ b, isText b = false → passageOf b = none := by
          intro b hb
          cases b with
          | text text citations => cases hb
          | _ => rfl
        rw [List.filterMap_append, List.filterMap_cons_none (hnone b hother), hpassages,
          List.filterMap_eq_nil_iff.2 (fun e he => hnone e (hechoes e he)), List.nil_append]
      · rw [hread, hsources, positionsFrom_other hechoes]
        rw [List.length_append, List.append_assoc, List.append_assoc] at hfold
        exact hfold

/-! ## Responses -/

/-- All the text of a response. -/
def fullText (content : List IrBlock) : String := String.join (content.filterMap blockText)

theorem map_positionsFrom (content : List IrBlock) (k : Nat) :
    (positionsFrom k content).map Prod.snd = content.filterMap blockText := by
  induction content generalizing k with
  | nil => rfl
  | cons b content ih =>
    cases b with
    | text text citations => exact congrArg (text :: ·) (ih (k + 1))
    | _ => exact ih (k + 1)

/-- Without a text block there is no block to hand a citation to. -/
theorem attach_eq (candidate : Json) (content : List IrBlock) : attachGeminiCitationsToTextBlocks candidate content =
    (readGeminiCitations candidate (some (fullText content))).foldl
      (attachCitation (blockCharRanges 0 (positionsFrom 0 content))) content := by
  have hfull : String.join ((textPositions content).map Prod.snd) = fullText content := by
    rw [textPositions_eq, map_positionsFrom]
    rfl
  unfold attachGeminiCitationsToTextBlocks
  dsimp only
  rw [hfull, textPositions_eq]
  by_cases hempty : (positionsFrom 0 content).isEmpty = true
  · have hnone : ∀ citations : List IrCitation, citations.foldl (attachCitation []) content = content := by
      intro citations
      induction citations with
      | nil => rfl
      | cons c cs ih => exact ih
    rw [if_pos hempty, List.isEmpty_iff.1 hempty]
    exact (hnone _).symm
  · rw [if_neg hempty]

theorem fullText_readParts (blocks : List IrBlock) (i : Nat) :
    fullText (readParts lib salt i (blocks.flatMap (blockParts lib.toJsonLib))) = fullText blocks := by
  unfold fullText
  induction blocks generalizing i with
  | nil => rfl
  | cons b bs ih =>
    rw [List.flatMap_cons]
    by_cases hb : isText b = true
    · obtain ⟨text, citations, rfl⟩ : ∃ text citations, b = .text text citations := by
        cases b with
        | text text citations => exact ⟨text, citations, rfl⟩
        | _ => cases hb
      have hhead : String.join ((if text = "" then [] else [IrBlock.text text []]).filterMap blockText) = text := by
        by_cases he : text = "" <;> simp [he, blockText]
      have hcons : (IrBlock.text text citations :: bs).filterMap blockText = text :: bs.filterMap blockText := rfl
      rw [readParts_text, List.filterMap_append, String.join_append, ih, hhead, hcons, String.join_cons]
    · have hother : isText b = false := by simpa using hb
      obtain ⟨j, echoes, hread, hechoes⟩ := readParts_other lib salt hother i
        (bs.flatMap (blockParts lib.toJsonLib))
      have hnone : ∀ b, isText b = false → blockText b = none := by
        intro b hb
        cases b with
        | text text citations => cases hb
        | _ => rfl
      rw [hread, List.filterMap_append, List.filterMap_eq_nil_iff.2 (fun e he => hnone e (hechoes e he)),
        List.nil_append, ih, List.filterMap_cons_none (hnone b hother)]

/-- What is read of a response that was written: its parts and its sources. -/
theorem written_candidate (lib : GeminiLib) (synthId : String) (resp : IrResponse) :
    candidate0 (writeResponse lib.toJsonLib synthId resp) = some (writeCandidate lib.toJsonLib resp) ∧
    bodyParts (writeCandidate lib.toJsonLib resp) = resp.content.flatMap (blockParts lib.toJsonLib) ∧
    ∀ text, readGeminiCitations (writeCandidate lib.toJsonLib resp) text =
      (citationSources 0 resp.content).map (readGeminiCitation text) := by
  refine ⟨?_, ?_, fun text => ?_⟩
  · unfold candidate0 writeResponse
    cases resp.model <;> cases resp.id <;> cases resp.created <;>
      simp [Json.get_object, Json.getMember_insertMember, Json.asArray, fieldUsageMetadata, fieldModelVersion,
        fieldResponseId]
  · have hcontent : (writeCandidate lib.toJsonLib resp).get "content" =
        some (modelContent (resp.content.flatMap (blockParts lib.toJsonLib))) := by
      unfold writeCandidate
      dsimp only
      split <;> split <;>
        simp [Json.get_object, Json.getMember_insertMember, fieldFinishReason]
    unfold bodyParts
    rw [hcontent]
    simp [modelContent, Json.get_object, Json.getMember_cons, Json.asArray]
  · obtain ⟨sources, hsources⟩ : ∃ sources, sources = citationSources 0 resp.content := ⟨_, rfl⟩
    have hmetadata : (writeCandidate lib.toJsonLib resp).get "citationMetadata" =
        if sources.isEmpty then none else some (.object [("citationSources", .array sources)]) := by
      unfold writeCandidate
      dsimp only
      rw [← hsources]
      split <;> split <;>
        simp [Json.get_object, Json.getMember_insertMember, Json.getMember_nil, fieldFinishReason]
    unfold readGeminiCitations
    rw [hmetadata, ← hsources]
    by_cases hempty : sources.isEmpty = true
    · rw [if_pos hempty, List.isEmpty_iff.1 hempty]
      rfl
    · rw [if_neg hempty]
      simp [Json.get_object, Json.getMember_cons, Json.asArray]

/-- The content of a response that can be read. -/
theorem readResponse_content (lib : GeminiLib) {body candidate : Json} (hc : candidate0 body = some candidate) : ∃ r,
    readResponse lib body = .ok r ∧ r.content = attachGeminiCitationsToTextBlocks candidate
      (readParts lib ((body.getStr fieldResponseId).getD "") 0 (bodyParts candidate)) := by
  unfold readResponse
  dsimp only
  rw [if_neg (isObject_of_candidate0 hc), unblocked_of_candidate0 hc, hc]
  exact ⟨_, rfl, rfl⟩

/-- **Written and read again**, every passage has its citations where they were. -/
theorem write_read {synthId : String} {resp : IrResponse}
    (hfits : size Char.utf8Size (fullText resp.content).toList < 2 ^ 63)
    (hanchored : ∀ text citations, .text text citations ∈ resp.content → ∀ c ∈ citations, Anchored text c) :
    ∃ r, readResponse lib (writeResponse lib.toJsonLib synthId resp) = .ok r ∧
      r.content.filterMap passageOf = resp.content.filterMap passageOf := by
  obtain ⟨hcandidate, hparts, hcitations⟩ := written_candidate lib synthId resp
  obtain ⟨r, hr, hcontent⟩ := readResponse_content lib hcandidate
  obtain ⟨content, hpassages, hfold⟩ := @attach_sources lib
    (((writeResponse lib.toJsonLib synthId resp).getStr fieldResponseId).getD "") _ hfits resp.content [] [] [] 0 rfl
    hanchored nofun
  refine ⟨r, hr, ?_⟩
  rw [hcontent, attach_eq, hcitations, hparts, fullText_readParts]
  have hall : ((citationSources 0 resp.content).map (readGeminiCitation (some (fullText resp.content)))).foldl _ _ = content :=
    hfold
  exact (congrArg (List.filterMap passageOf) hall).trans hpassages

/-! ## Offsets inside the text -/

/-- The offsets of a response lie in its text, counted from the start of all the text. -/
def Inside (content : List IrBlock) : Prop :=
  ∀ k text citations, content[k]? = some (.text text citations) → ∀ c ∈ citations, ∀ o,
    o ∈ c.startIndex ∨ o ∈ c.endIndex → 0 ≤ ((fullText (content.take k)).length : Int) + o ∧
      ((fullText (content.take k)).length : Int) + o ≤ (fullText content).length

/-- A range starts where its block does. -/
theorem range_start {i : Nat} {b e : Int} (content : List IrBlock) (k : Nat) (cursor : Int)
    (h : (i, b, e) ∈ blockCharRanges cursor (positionsFrom k content)) :
    ∃ n, i = k + n ∧ b = cursor + (fullText (content.take n)).length := by
  induction content generalizing k cursor with
  | nil => cases h
  | cons block content ih =>
    have hskip : ∀ n, isText block = false → (fullText ((block :: content).take (n + 1))).length =
        (fullText (content.take n)).length := by
      intro n hb
      cases block with
      | text text citations => cases hb
      | _ => rfl
    by_cases hb : isText block = true
    · obtain ⟨text, citations, rfl⟩ : ∃ text citations, block = .text text citations := by
        cases block with
        | text text citations => exact ⟨text, citations, rfl⟩
        | _ => cases hb
      rcases List.mem_cons.1 h with heq | hrest
      · cases heq
        exact ⟨0, rfl, by simp [fullText]⟩
      · obtain ⟨n, hi, hstart⟩ := ih (k + 1) (cursor + text.length) hrest
        have hcons : (fullText ((IrBlock.text text citations :: content).take (n + 1))).length =
            text.length + (fullText (content.take n)).length := by
          simp [fullText, blockText]
        refine ⟨n + 1, by omega, ?_⟩
        rw [hstart, hcons]
        push_cast
        omega
    · have hother : isText block = false := by simpa using hb
      have hcons : positionsFrom k (block :: content) = positionsFrom (k + 1) content := by
        cases block with
        | text text citations => cases hother
        | _ => rfl
      rw [hcons] at h
      obtain ⟨n, hi, hstart⟩ := ih (k + 1) cursor h
      refine ⟨n + 1, by omega, ?_⟩
      rw [hstart, hskip n hother]

theorem fullText_congr {content content' : List IrBlock} (h : content'.map blockText = content.map blockText) (k : Nat) :
    fullText (content'.take k) = fullText (content.take k) ∧ fullText content' = fullText content := by
  have hfilter : ∀ l l' : List IrBlock, l'.map blockText = l.map blockText → fullText l' = fullText l := by
    intro l l' hl
    have hid : ∀ l : List IrBlock, l.filterMap blockText = (l.map blockText).filterMap id := by
      intro l
      rw [List.filterMap_map]
      rfl
    unfold fullText
    rw [hid, hid, hl]
  refine ⟨hfilter _ _ ?_, hfilter _ _ h⟩
  rw [List.map_take, List.map_take, h]

/-- One citation keeps the texts, and its own offsets lie inside. -/
theorem inside_attachCitation {content content' : List IrBlock} {c : IrCitation}
    (htexts : content'.map blockText = content.map blockText) (h : Inside content')
    (hc : ∀ o, o ∈ c.startIndex ∨ o ∈ c.endIndex → 0 ≤ o ∧ o ≤ (fullText content).length) :
    (attachCitation (blockCharRanges 0 (positionsFrom 0 content)) content' c).map blockText = content.map blockText ∧
      Inside (attachCitation (blockCharRanges 0 (positionsFrom 0 content)) content' c) := by
  unfold attachCitation
  cases howner : ownerOf (blockCharRanges 0 (positionsFrom 0 content)) (c.startIndex.getD 0) with
  | none => exact ⟨htexts, h⟩
  | some owner =>
    obtain ⟨i, start, stop⟩ := owner
    dsimp only
    have hmem : (i, start, stop) ∈ blockCharRanges 0 (positionsFrom 0 content) := by
      unfold ownerOf at howner
      rcases Option.or_eq_some_iff.1 howner with hfind | ⟨-, hlast⟩
      · exact List.mem_of_find?_eq_some hfind
      · exact List.mem_of_getLast? hlast
    obtain ⟨n, hi, hstart⟩ := range_start content 0 0 hmem
    rw [Nat.zero_add] at hi
    rw [Int.zero_add] at hstart
    subst hi
    have hkeep : (content'.modify i (pushCitation (relativeTo start c))).map blockText = content.map blockText := by
      rw [← htexts]
      refine List.ext_getElem? (fun k => ?_)
      rw [List.getElem?_map, List.getElem?_map, List.getElem?_modify]
      by_cases hk : i = k
      · have hpush : ∀ b, blockText (pushCitation (relativeTo start c) b) = blockText b := by
          intro b
          cases b <;> rfl
        cases hb : content'[k]? <;> simp [hk, hpush]
      · cases hb : content'[k]? <;> simp [hk]
    refine ⟨hkeep, fun k text citations hk c' hc' o ho => ?_⟩
    obtain ⟨hbefore, hall⟩ := fullText_congr hkeep k
    obtain ⟨hbefore', hall'⟩ := fullText_congr htexts k
    rw [hbefore, hall]
    rw [List.getElem?_modify] at hk
    by_cases hik : i = k
    · subst hik
      cases hb : content'[i]? with
      | none =>
        rw [hb] at hk
        cases hk
      | some b =>
        have hpush : pushCitation (relativeTo start c) b = .text text citations := by
          rw [hb] at hk
          simpa using hk
        cases b with
        | text text' citations' =>
          cases hpush
          rcases List.mem_append.1 hc' with hold | hnew
          · have hin := h i _ _ hb c' hold o ho
            rw [hbefore', hall'] at hin
            exact hin
          · rw [List.mem_singleton.1 hnew] at ho
            -- the new citation was counted from the start of all the text
            obtain ⟨o', ho', hsub⟩ : ∃ o', (o' ∈ c.startIndex ∨ o' ∈ c.endIndex) ∧ o = o' - start := by
              rcases ho with ho | ho
              · obtain ⟨o', ho', rfl⟩ := Option.map_eq_some_iff.1 ho
                exact ⟨o', Or.inl ho', rfl⟩
              · obtain ⟨o', ho', rfl⟩ := Option.map_eq_some_iff.1 ho
                exact ⟨o', Or.inr ho', rfl⟩
            have hin := hc o' ho'
            omega
        | _ => cases hpush
    · have hold : content'[k]? = some (.text text citations) := by
        cases hb : content'[k]? with
        | none =>
          rw [hb] at hk
          cases hk
        | some b =>
          rw [hb] at hk
          simpa [hik] using hk
      have hin := h k _ _ hold c' hc' o ho
      rw [hbefore', hall'] at hin
      exact hin

/-- **Any sources** lie in the text of the candidate. -/
theorem inside_attach (candidate : Json) {content : List IrBlock}
    (hbare : ∀ text citations, .text text citations ∈ content → citations = []) :
    Inside (attachGeminiCitationsToTextBlocks candidate content) := by
  have hfold : ∀ (citations : List IrCitation) content',
      (∀ c ∈ citations, ∀ o, o ∈ c.startIndex ∨ o ∈ c.endIndex → 0 ≤ o ∧ o ≤ (fullText content).length) →
      content'.map blockText = content.map blockText → Inside content' →
      Inside (citations.foldl (attachCitation (blockCharRanges 0 (positionsFrom 0 content))) content') := by
    intro citations
    induction citations with
    | nil => exact fun _ _ _ h => h
    | cons c cs ih =>
      intro content' hcitations htexts h
      obtain ⟨htexts', h'⟩ := inside_attachCitation htexts h (hcitations c List.mem_cons_self)
      exact ih _ (fun c' hc' => hcitations c' (List.mem_cons_of_mem _ hc')) htexts' h'
  rw [attach_eq]
  refine hfold _ _ ?_ rfl ?_
  · intro c hc o ho
    have hsource : ∃ src, c = readGeminiCitation (some (fullText content)) src := by
      unfold readGeminiCitations at hc
      split at hc
      · cases hc
      · obtain ⟨src, -, rfl⟩ := List.mem_map.1 hc
        exact ⟨src, rfl⟩
    obtain ⟨src, rfl⟩ := hsource
    rcases ho with ho | ho
    · obtain ⟨i, -, rfl⟩ := Option.map_eq_some_iff.1 ho
      exact byteOffsetToChar_mem _ i
    · obtain ⟨i, -, rfl⟩ := Option.map_eq_some_iff.1 ho
      exact byteOffsetToChar_mem _ i
  · intro k text citations hk c hc
    rw [hbare text citations (List.mem_of_getElem? hk)] at hc
    cases hc

theorem bare_readParts (i : Nat) (parts : List Json) :
    ∀ text citations, .text text citations ∈ readParts lib salt i parts → citations = [] := by
  induction parts generalizing i with
  | nil => exact nofun
  | cons part parts ih =>
    intro text citations hmem
    unfold readParts at hmem
    rcases List.mem_append.1 hmem with hmem | hmem
    · rcases List.mem_append.1 hmem with hmem | hmem
      · unfold textBlocks at hmem
        split at hmem
        · cases List.mem_singleton.1 hmem
        · cases hp : partText part with
          | none =>
            rw [hp] at hmem
            cases hmem
          | some t =>
            rw [hp] at hmem
            cases List.mem_singleton.1 hmem
            rfl
      · unfold callBlocks at hmem
        cases hcall : part.get fieldFunctionCall with
        | none =>
          rw [hcall] at hmem
          cases hmem
        | some funcCall =>
          rw [hcall] at hmem
          cases List.mem_singleton.1 hmem
    · exact ih _ text citations hmem

/-- **Citations keep their places.** A response whose citations are anchored in their blocks, written and read again, has
on every block with text the same citations at the same offsets. A response with any sources whatever is read: the text is
cut between characters only, and the offsets that come out lie in it. -/
theorem citations_survive (lib : GeminiLib) :
    (∀ synthId resp, size Char.utf8Size (fullText resp.content).toList < 2 ^ 63 →
      (∀ text citations, .text text citations ∈ resp.content → ∀ c ∈ citations, Anchored text c) →
      ∃ r, readResponse lib (writeResponse lib.toJsonLib synthId resp) = .ok r ∧
        r.content.filterMap passageOf = resp.content.filterMap passageOf) ∧
    (∀ body candidate, candidate0 body = some candidate → ∃ r, readResponse lib body = .ok r ∧ Inside r.content) ∧
    ∀ text byteIdx, isCharBoundary text.toList (safeBoundary text byteIdx) = true := by
  refine ⟨fun synthId resp hfits hanchored => write_read hfits hanchored, fun body candidate hc => ?_,
    isCharBoundary_safeBoundary⟩
  obtain ⟨r, hr, hcontent⟩ := readResponse_content lib hc
  refine ⟨r, hr, ?_⟩
  rw [hcontent]
  exact inside_attach candidate (bare_readParts 0 _)

def spot (s e : Int) : IrCitation := ⟨none, none, some "t", none, none, some s, some e, none, none⟩

/-- Two passages with a call and an empty block between them. -/
def quoting : IrResponse where
  role := .assistant
  content := [.text "é!" [spot 0 2], .toolUse "" "f" .null none, .text "" [], .text "日本" [spot 1 2, spot 0 1]]
  stopReason := some .endTurn
  usage := .zero
  model := none
  id := none
  created := none
  systemFingerprint := none
  stopSequence := none
  logprobs := []

theorem quoting_survives : (∃ r, readResponse bareLib (writeResponse bareLib.toJsonLib "" quoting) = .ok r ∧
      r.content.filterMap passageOf = quoting.content.filterMap passageOf) ∧
    ∃ r, readResponse bareLib (writeResponse bareLib.toJsonLib "" quoting) = .ok r ∧ Inside r.content := by
  obtain ⟨hsurvive, hinside, -⟩ := citations_survive bareLib
  refine ⟨hsurvive "" quoting (by decide +kernel) ?_, hinside _ _ (written_candidate _ "" quoting).1⟩
  intro text citations hmem c hc
  simp only [quoting, List.mem_cons, IrBlock.text.injEq, reduceCtorEq, false_or, List.not_mem_nil, or_false] at hmem
  rcases hmem with ⟨rfl, rfl⟩ | ⟨rfl, rfl⟩ | ⟨rfl, rfl⟩
  · rw [List.mem_singleton.1 hc]
    exact ⟨(fun j hj => by cases hj), 0, 2, rfl, rfl, by decide, by decide, by decide⟩
  · cases hc
  · rcases List.mem_cons.1 hc with rfl | hc
    · exact ⟨(fun j hj => by cases hj), 1, 2, rfl, rfl, by decide, by decide, by decide⟩
    · rw [List.mem_singleton.1 hc]
      exact ⟨(fun j hj => by cases hj), 0, 1, rfl, rfl, by decide, by decide, by decide⟩

end Busbar.Gemini
