import Busbar.Json
import Busbar.Lib.Framer

/-!
# Server-sent events

Cutting a buffer into the frames of an SSE stream, reading a frame's event name and data, and taking the
`usage` member out of one.

* `findFrameTerminator_append`: more input does not move the first terminator.
* `findFrameTerminator_resume`: a scan may resume three bytes before the end of what was scanned.
* `sseFramer`: SSE as a framer.
-/

namespace Busbar

def lf : UInt8 := 0x0A

def cr : UInt8 := 0x0D

/-- What the scan sees at the line feed at offset `i`: the offset and the length of a terminator. -/
def terminatorAt (buf : Bytes) (i : Nat) : Option (Nat × Nat) :=
  if buf[i]? = some lf then
    if buf[i + 1]? = some lf then some (i, 2)
    else if 1 ≤ i ∧ buf[i - 1]? = some cr ∧ buf[i + 1]? = some cr ∧ buf[i + 2]? = some lf then some (i - 1, 4)
    else none
  else none

/-- The offset and the length of the first blank line: `\n\n` or `\r\n\r\n`. -/
def findFrameTerminator (buf : Bytes) : Option (Nat × Nat) :=
  (List.range buf.length).findSome? (terminatorAt buf)

/-- The event name and the data of a frame: none without a `data:` line, or outside UTF-8. -/
def parseSseFrame (frame : Bytes) : Option (String × String) := do
  let text ← fromUtf8 frame
  let (eventType, dataLines) := (lines text).foldl (fun (eventType, dataLines) line =>
    match stripPrefix "event:" line with
    | some rest => (trim rest, dataLines)
    | none =>
      match stripPrefix "data:" line with
      | some rest => (eventType, dataLines ++ [(stripPrefix " " rest).getD rest])
      | none => (eventType, dataLines)) ("", [])
  if dataLines.isEmpty then none else some (eventType, "\n".intercalate dataLines)

def sseDoneSentinel : String := "[DONE]"

def sseDoneFrame : Bytes := utf8 "data: [DONE]\n\n"

/-- `write_sse_frame`. -/
def writeSseFrame (lib : JsonLib) (eventType : String) (data : Json) : Bytes :=
  (if eventType = "" then [] else utf8 "event: " ++ utf8 eventType ++ [lf])
    ++ utf8 "data: " ++ lib.toVec data ++ utf8 "\n\n"

/-! ## Taking the `usage` member out of a frame -/

def skipSpaces (bytes : Bytes) (i : Nat) : Nat := i + ((bytes.drop i).takeWhile isAsciiSpace).length

def quote : UInt8 := 0x22

/-- One past the closing quote of the string whose opening quote is at `i`. -/
def scanJsonStringEnd (bytes : Bytes) (i : Nat) : Option Nat :=
  go (bytes.drop (i + 1)) (i + 1)
where
  go : Bytes → Nat → Option Nat
    | [], _ => none
    | 0x5C :: _ :: bs, i => go bs (i + 2)
    | 0x5C :: [], _ => none
    | b :: bs, i => if b = quote then some (i + 1) else go bs (i + 1)

def opens (b : UInt8) : Bool := b = 0x7B || b = 0x5B

def closes (b : UInt8) : Bool := b = 0x7D || b = 0x5D

/-- One past the bracket that closes the value under way; strings are skipped. -/
def scanNested (bytes : Bytes) : Nat → Nat → Nat → Option Nat
  | 0, _, _ => none
  | fuel + 1, i, depth =>
    match bytes[i]? with
    | none => none
    | some b =>
      if b = quote then (scanJsonStringEnd bytes i).bind (fun j => scanNested bytes fuel j depth)
      else if opens b then scanNested bytes fuel (i + 1) (depth + 1)
      else if closes b then
        if depth - 1 = 0 then some (i + 1) else scanNested bytes fuel (i + 1) (depth - 1)
      else scanNested bytes fuel (i + 1) depth

/-- One past the JSON value that starts at `start`, white space before it allowed. -/
def scanJsonValueEnd (bytes : Bytes) (start : Nat) : Option Nat :=
  let i := skipSpaces bytes start
  match bytes[i]? with
  | none => none
  | some b =>
    if b = quote then scanJsonStringEnd bytes i
    else if opens b then scanNested bytes bytes.length i 0
    else
      let scalar := (bytes.drop i).takeWhile (fun c => c ≠ 0x2C && !closes c && !isAsciiSpace c)
      if scalar = [] then none else some (i + scalar.length)

/-- Scan the members of the top-level object for the byte range of a single `usage` member. -/
def scanMembers (bytes : Bytes) :
    Nat → Nat → Nat → Option (Nat × Nat) → Bool → Option (Option (Nat × Nat))
  | 0, _, _, usageRange, _ => some usageRange
  | fuel + 1, i, depth, usageRange, expectKey =>
    match bytes[i]? with
    | none => some usageRange
    | some b =>
      if b = quote then
        match scanJsonStringEnd bytes i with
        | none => none
        | some strEnd =>
          if depth = 0 ∧ expectKey then
            let isUsage := (bytes.drop i).take (strEnd - i) = utf8 "\"usage\""
            let j := skipSpaces bytes strEnd
            if bytes[j]? ≠ some 0x3A then none
            else
              match scanJsonValueEnd bytes (j + 1) with
              | none => none
              | some valueEnd =>
                if isUsage then
                  if usageRange.isSome then none
                  else scanMembers bytes fuel valueEnd depth (some (i, valueEnd)) false
                else scanMembers bytes fuel valueEnd depth usageRange false
          else scanMembers bytes fuel strEnd depth usageRange expectKey
      else if opens b then scanMembers bytes fuel (i + 1) (depth + 1) usageRange false
      else if closes b then
        if depth = 0 then if b = 0x5D then none else some usageRange
        else scanMembers bytes fuel (i + 1) (depth - 1) usageRange expectKey
      else if b = 0x2C then
        scanMembers bytes fuel (i + 1) depth usageRange (if depth = 0 then true else expectKey)
      else scanMembers bytes fuel (i + 1) depth usageRange expectKey

/-- The last offset at or before `i`, above `floor`, with no white space right before it. -/
def backSpaces (bytes : Bytes) (floor i : Nat) : Nat :=
  i - (((bytes.take i).drop floor).reverse.takeWhile isAsciiSpace).length

/-- Remove the top-level `usage` member together with one adjacent comma. -/
def stripTopLevelUsageMember (bytes : Bytes) : Option Bytes := do
  let objOpen := skipSpaces bytes 0
  if bytes[objOpen]? ≠ some 0x7B then none
  else
    let usageRange ← scanMembers bytes bytes.length (objOpen + 1) 0 none true
    let (start, stop) ← usageRange
    let k := backSpaces bytes (objOpen + 1) start
    if objOpen + 1 < k ∧ bytes[k - 1]? = some 0x2C then some (bytes.take (k - 1) ++ bytes.drop stop)
    else
      let m := skipSpaces bytes stop
      if bytes[m]? = some 0x2C then some (bytes.take start ++ bytes.drop (m + 1))
      else some (bytes.take start ++ bytes.drop stop)

/-- `str::find`: the offset of the first occurrence. -/
def findBytes (pat : Bytes) (bs : Bytes) : Option Nat :=
  (List.range (bs.length + 1)).find? (fun i => pat.isPrefixOf (bs.drop i))

/-- The line terminator a rebuilt frame takes over. -/
def frameEnding (frame : Bytes) : Bytes :=
  if (utf8 "\r\n\r\n").isSuffixOf frame then utf8 "\r\n\r\n"
  else if (utf8 "\n\n").isSuffixOf frame then utf8 "\n\n"
  else if (utf8 "\r\n").isSuffixOf frame then utf8 "\r\n"
  else if (utf8 "\n").isSuffixOf frame then utf8 "\n"
  else utf8 "\n\n"

/-- The frame without the top-level `usage` member of its data, every other byte kept where that is safe. -/
def rewriteFrameStripUsage (frame : Bytes) (dataStr : String) : Bytes :=
  let payload := utf8 dataStr
  match stripTopLevelUsageMember payload with
  | none => frame
  | some stripped =>
    match (fromUtf8 frame).bind (fun _ => findBytes payload frame) with
    | some pos =>
      if findBytes payload (frame.drop (pos + payload.length)) = none then
        frame.take pos ++ stripped ++ frame.drop (pos + payload.length)
      else utf8 "data: " ++ stripped ++ frameEnding frame
    | none => utf8 "data: " ++ stripped ++ frameEnding frame

/-! ## The scan -/

theorem terminatorAt_eq_some {b : Bytes} {i p n : Nat} : terminatorAt b i = some (p, n) ↔
    b[i]? = some lf ∧ (b[i + 1]? = some lf ∧ p = i ∧ n = 2 ∨
      1 ≤ i ∧ b[i - 1]? = some cr ∧ b[i + 1]? = some cr ∧ b[i + 2]? = some lf ∧ p = i - 1 ∧ n = 4) := by
  unfold terminatorAt
  by_cases h₀ : b[i]? = some lf
  · by_cases h₁ : b[i + 1]? = some lf
    · simp [h₀, h₁, lf, cr, eq_comm]
    · simp [h₀, h₁, eq_comm, and_assoc]
  · simp [h₀]

theorem terminatorAt_bounds {b : Bytes} {i p n : Nat} (h : terminatorAt b i = some (p, n)) :
    i + 1 < b.length ∧ p ≤ i ∧ i + 1 < p + n ∧ p + n ≤ b.length := by
  obtain ⟨-, ⟨h₁, rfl, rfl⟩ | ⟨hi, -, h₁, h₂, rfl, rfl⟩⟩ := terminatorAt_eq_some.1 h
  · have := (List.getElem?_eq_some_iff.1 h₁).1; omega
  · have := (List.getElem?_eq_some_iff.1 h₁).1
    have := (List.getElem?_eq_some_iff.1 h₂).1
    omega

theorem terminatorAt_append {b : Bytes} {i : Nat} (c : Bytes) (h : i + 2 < b.length) :
    terminatorAt (b ++ c) i = terminatorAt b i := by
  unfold terminatorAt
  rw [List.getElem?_append_left (by omega), List.getElem?_append_left (by omega),
    List.getElem?_append_left (by omega), List.getElem?_append_left (by omega)]

theorem terminatorAt_take {b : Bytes} {i p n s : Nat} (h : terminatorAt b i = some (p, n)) (hs : p + n ≤ s) :
    terminatorAt (b.take s) i = some (p, n) := by
  have hb := terminatorAt_bounds h
  rw [terminatorAt_eq_some] at h ⊢
  obtain ⟨h₀, ⟨h₁, rfl, rfl⟩ | ⟨hi, h₁, h₂, h₃, rfl, rfl⟩⟩ := h
  · exact ⟨by rwa [List.getElem?_take_of_lt (by omega)], Or.inl
      ⟨by rwa [List.getElem?_take_of_lt (by omega)], rfl, rfl⟩⟩
  · exact ⟨by rwa [List.getElem?_take_of_lt (by omega)], Or.inr
      ⟨hi, by rwa [List.getElem?_take_of_lt (by omega)], by rwa [List.getElem?_take_of_lt (by omega)],
        by rwa [List.getElem?_take_of_lt (by omega)], rfl, rfl⟩⟩

theorem terminatorAt_append_of_some {b : Bytes} {i p n : Nat} (c : Bytes) (h : terminatorAt b i = some (p, n)) :
    terminatorAt (b ++ c) i = some (p, n) := by
  have hb := terminatorAt_bounds h
  rw [terminatorAt_eq_some] at h ⊢
  obtain ⟨h₀, ⟨h₁, rfl, rfl⟩ | ⟨hi, h₁, h₂, h₃, rfl, rfl⟩⟩ := h
  · exact ⟨by rwa [List.getElem?_append_left (by omega)], Or.inl
      ⟨by rwa [List.getElem?_append_left (by omega)], rfl, rfl⟩⟩
  · exact ⟨by rwa [List.getElem?_append_left (by omega)], Or.inr
      ⟨hi, by rwa [List.getElem?_append_left (by omega)], by rwa [List.getElem?_append_left (by omega)],
        by rwa [List.getElem?_append_left (by omega)], rfl, rfl⟩⟩

theorem terminatorAt_drop {b : Bytes} {i k p n : Nat} :
    terminatorAt (b.drop k) i = some (p, n) ↔ terminatorAt b (i + k) = some (p + k, n) ∧ (1 ≤ i ∨ n = 2) := by
  simp only [terminatorAt_eq_some, List.getElem?_drop]
  constructor
  · rintro ⟨h₀, ⟨h₁, rfl, rfl⟩ | ⟨hi, h₁, h₂, h₃, rfl, rfl⟩⟩
    · exact ⟨⟨by rwa [Nat.add_comm], Or.inl ⟨by rw [← h₁]; congr 1; omega, rfl, rfl⟩⟩, Or.inr rfl⟩
    · refine ⟨⟨by rwa [Nat.add_comm], Or.inr ⟨by omega, ?_, ?_, ?_, by omega, rfl⟩⟩, Or.inl hi⟩
      · rw [← h₁]; congr 1; omega
      · rw [← h₂]; congr 1; omega
      · rw [← h₃]; congr 1; omega
  · rintro ⟨⟨h₀, ⟨h₁, hp, rfl⟩ | ⟨hi, h₁, h₂, h₃, hp, rfl⟩⟩, hik⟩
    · exact ⟨by rwa [Nat.add_comm], Or.inl ⟨by rw [← h₁]; congr 1; omega, by omega, rfl⟩⟩
    · have hi' : 1 ≤ i := by omega
      refine ⟨by rwa [Nat.add_comm], Or.inr ⟨hi', ?_, ?_, ?_, by omega, rfl⟩⟩
      · rw [← h₁]; congr 1; omega
      · rw [← h₂]; congr 1; omega
      · rw [← h₃]; congr 1; omega

theorem findSome?_range_eq_some {β : Type*} {f : Nat → Option β} {m : Nat} {t : β} :
    (List.range m).findSome? f = some t ↔ ∃ i < m, f i = some t ∧ ∀ j < i, f j = none := by
  induction m with
  | zero => simp
  | succ m ih =>
    rw [List.range_succ, List.findSome?_append, Option.or_eq_some_iff, ih, List.findSome?_eq_none_iff]
    simp only [List.mem_range, List.findSome?_singleton]
    constructor
    · rintro (⟨i, hi, h⟩ | ⟨h₁, h₂⟩)
      · exact ⟨i, by omega, h⟩
      · exact ⟨m, by omega, h₂, h₁⟩
    · rintro ⟨i, hi, h⟩
      rcases Nat.lt_succ_iff_lt_or_eq.1 hi with hlt | rfl
      · exact Or.inl ⟨i, hlt, h⟩
      · exact Or.inr ⟨h.2, h.1⟩

theorem findFrameTerminator_eq_some {b : Bytes} {p n : Nat} : findFrameTerminator b = some (p, n) ↔
    ∃ i, terminatorAt b i = some (p, n) ∧ ∀ j < i, terminatorAt b j = none := by
  rw [findFrameTerminator, findSome?_range_eq_some]
  constructor
  · rintro ⟨i, -, h⟩; exact ⟨i, h⟩
  · rintro ⟨i, h⟩; exact ⟨i, by have := terminatorAt_bounds h.1; omega, h⟩

theorem findFrameTerminator_eq_none {b : Bytes} :
    findFrameTerminator b = none ↔ ∀ i, terminatorAt b i = none := by
  rw [findFrameTerminator, List.findSome?_eq_none_iff]
  constructor
  · intro h i
    by_contra hne
    obtain ⟨⟨p, n⟩, hsome⟩ := Option.ne_none_iff_exists'.1 hne
    exact hne (h i (List.mem_range.2 (by have := terminatorAt_bounds hsome; omega)))
  · intro h i _; exact h i

theorem findFrameTerminator_bounds {b : Bytes} {p n : Nat} (h : findFrameTerminator b = some (p, n)) :
    0 < p + n ∧ p + n ≤ b.length := by
  obtain ⟨i, hi, -⟩ := findFrameTerminator_eq_some.1 h
  have := terminatorAt_bounds hi
  omega

/-- More input does not move the first terminator. -/
theorem findFrameTerminator_append {b : Bytes} {p n : Nat} (c : Bytes) (h : findFrameTerminator b = some (p, n)) :
    findFrameTerminator (b ++ c) = some (p, n) := by
  obtain ⟨i, hi, hmin⟩ := findFrameTerminator_eq_some.1 h
  refine findFrameTerminator_eq_some.2 ⟨i, terminatorAt_append_of_some c hi, fun j hj => ?_⟩
  have := terminatorAt_bounds hi
  rw [terminatorAt_append c (by omega)]
  exact hmin j hj

/-- The terminator is found in the frame it ends. -/
theorem findFrameTerminator_take {b : Bytes} {p n : Nat} (h : findFrameTerminator b = some (p, n)) :
    findFrameTerminator (b.take (p + n)) = some (p, n) := by
  obtain ⟨i, hi, hmin⟩ := findFrameTerminator_eq_some.1 h
  refine findFrameTerminator_eq_some.2 ⟨i, terminatorAt_take hi le_rfl, fun j hj => ?_⟩
  by_contra hne
  obtain ⟨⟨p', n'⟩, hsome⟩ := Option.ne_none_iff_exists'.1 hne
  have := terminatorAt_append_of_some (b.drop (p + n)) hsome
  rw [List.take_append_drop, hmin j hj] at this
  cases this

/-- **A scan may resume three bytes before the end of what was scanned.** -/
theorem findFrameTerminator_resume {b : Bytes} {s : Nat} (h : findFrameTerminator (b.take s) = none) :
    findFrameTerminator b = (findFrameTerminator (b.drop (s - 3))).map (fun t => (t.1 + (s - 3), t.2)) := by
  have hnone := findFrameTerminator_eq_none.1 h
  -- a terminator of the buffer ends past the scanned part, so it starts in the part scanned again
  have hpast : ∀ {i p n}, terminatorAt b i = some (p, n) → s < p + n := fun {i p n} hi => by
    by_contra hle
    have := hnone i
    rw [terminatorAt_take hi (by omega)] at this
    cases this
  have hback : ∀ {i p n}, terminatorAt b i = some (p, n) →
      s - 3 ≤ i ∧ terminatorAt (b.drop (s - 3)) (i - (s - 3)) = some (p - (s - 3), n) := fun {i p n} hi => by
    have hs := hpast hi
    have hb := terminatorAt_bounds hi
    obtain ⟨-, ⟨-, rfl, rfl⟩ | ⟨h₁, -, -, -, rfl, rfl⟩⟩ := terminatorAt_eq_some.1 hi
    · refine ⟨by omega, terminatorAt_drop.2 ⟨?_, Or.inr rfl⟩⟩
      rw [Nat.sub_add_cancel (by omega)]; exact hi
    · refine ⟨by omega, terminatorAt_drop.2 ⟨?_, Or.inl (by omega)⟩⟩
      rw [Nat.sub_add_cancel (by omega), Nat.sub_add_cancel (by omega)]; exact hi
  cases hf : findFrameTerminator (b.drop (s - 3)) with
  | none =>
    have hdrop := findFrameTerminator_eq_none.1 hf
    rw [Option.map_none, findFrameTerminator_eq_none]
    intro i
    by_contra hne
    obtain ⟨⟨p, n⟩, hi⟩ := Option.ne_none_iff_exists'.1 hne
    have := (hback hi).2
    rw [hdrop] at this; cases this
  | some t =>
    obtain ⟨p, n⟩ := t
    obtain ⟨i, hi, hmin⟩ := findFrameTerminator_eq_some.1 hf
    refine findFrameTerminator_eq_some.2 ⟨i + (s - 3), (terminatorAt_drop.1 hi).1, fun j hj => ?_⟩
    by_contra hne
    obtain ⟨⟨p', n'⟩, hsome⟩ := Option.ne_none_iff_exists'.1 hne
    obtain ⟨hle, hj'⟩ := hback hsome
    rw [hmin _ (by omega)] at hj'; cases hj'

/-- SSE as a framer: a frame ends with the first blank line. -/
def sseFramer : Framer UInt8 where
  front b :=
    match findFrameTerminator b with
    | some (p, n) => .frame (b.take (p + n)) (b.drop (p + n))
    | none => .more
  front_nil := rfl
  split {b f r} h := by
    split at h
    · rename_i p n hf
      cases h
      have := findFrameTerminator_bounds hf
      refine ⟨(List.take_append_drop _ _).symm, fun h => ?_⟩
      have := congrArg List.length h
      rw [List.length_take, List.length_nil] at this
      omega
    · cases h
  whole {b f r} h := by
    split at h
    · rename_i p n hf
      cases h
      simp only [findFrameTerminator_take hf, List.take_take, Nat.min_self, List.drop_take, Nat.sub_self,
        List.take_zero]
    · cases h
  frame_append {b f r} c h := by
    split at h
    · rename_i p n hf
      cases h
      have := findFrameTerminator_bounds hf
      simp only [findFrameTerminator_append c hf, List.take_append_of_le_length this.2,
        List.drop_append_of_le_length this.2]
    · cases h
  malformed_append {b} c h := by split at h <;> cases h

theorem sseFramer_frame {b : Bytes} {p n : Nat} (h : findFrameTerminator b = some (p, n)) :
    sseFramer.front b = .frame (b.take (p + n)) (b.drop (p + n)) := by
  show (match findFrameTerminator b with | some (p, n) => Front.frame _ _ | none => .more) = _
  rw [h]

theorem sseFramer_more {b : Bytes} : sseFramer.front b = .more ↔ findFrameTerminator b = none := by
  show (match findFrameTerminator b with | some (p, n) => Front.frame _ _ | none => .more) = _ ↔ _
  cases findFrameTerminator b <;> simp

end Busbar
