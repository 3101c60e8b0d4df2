import Busbar.Json
import Busbar.Lib.Framer

/-!
# AWS event-stream framing

Cutting a buffer into binary frames, reading a frame's event name and payload, and writing frames. Checksums
come from outside the repository.

* `eventFramer`: the event stream as a framer.
* `drainFramesChecked_eq`: the drain of a buffer is the framer's.
-/

namespace Busbar

/-- What the wire code takes from outside the repository: the JSON library and CRC32. -/
structure WireLib extends JsonLib where
  crc32 : Bytes → UInt32

def preludeLen : Nat := 12

def crcBytes : Nat := 4

def minFrameBytes : Nat := preludeLen + crcBytes

def maxFrameBytes : Nat := 16 * 1024 * 1024

def hdrEventType : String := ":event-type"

def hdrContentType : String := ":content-type"

def hdrMessageType : String := ":message-type"

def hdrExceptionType : String := ":exception-type"

def msgTypeEvent : String := "event"

def msgTypeException : String := "exception"

def hdrTypeString : UInt8 := 7

def applicationJson : String := "application/json"

/-- A big-endian number. -/
def ofBe (bs : Bytes) : Nat := bs.foldl (fun n b => n * 256 + b.toNat) 0

def toBe (width n : Nat) : Bytes := (List.range width).reverse.map (fun i => UInt8.ofNat (n / 256 ^ i % 256))

/-! ## Reading frames -/

structure FrameHeaders where
  eventType : Option String
  messageType : Option String
  exceptionType : Option String

/-- The width of the value types that carry no length. -/
def fixedWidth (valueType : UInt8) : Option Nat :=
  if valueType = 0 ∨ valueType = 1 then some 0
  else if valueType = 2 then some 1
  else if valueType = 3 then some 2
  else if valueType = 4 then some 4
  else if valueType = 5 ∨ valueType = 8 then some 8
  else if valueType = 9 then some 16
  else none

/-- The value at offset `p` and the offset after it; none where the scan stops. -/
def headerValue (h : Bytes) (p : Nat) (valueType : UInt8) : Option (Option Bytes × Nat) :=
  if valueType = 6 ∨ valueType = hdrTypeString then
    if h.length < p + 2 then none
    else
      let vlen := ofBe ((h.drop p).take 2)
      if h.length < p + 2 + vlen then none
      else some (some ((h.drop (p + 2)).take vlen), p + 2 + vlen)
  else
    match fixedWidth valueType with
    | some w => if h.length < p + w then none else some (none, p + w)
    | none => none

def recordHeader (found : FrameHeaders) (name : Bytes) (value : Option Bytes) : FrameHeaders :=
  match value.bind fromUtf8 with
  | some v =>
    if name = utf8 hdrEventType then { found with eventType := some v }
    else if name = utf8 hdrMessageType then { found with messageType := some v }
    else if name = utf8 hdrExceptionType then { found with exceptionType := some v }
    else found
  | none => found

def parseFrameHeaders (h : Bytes) : FrameHeaders := go h.length h ⟨none, none, none⟩
where
  /-- Each header takes at least two bytes, so the length of the block bounds the turns. -/
  go : Nat → Bytes → FrameHeaders → FrameHeaders
    | 0, _, found => found
    | _ + 1, [], found => found
    | turns + 1, h@(nameLenByte :: _), found =>
      let nameLen := nameLenByte.toNat
      match h[1 + nameLen]? with
      | none => found
      | some valueType =>
        match headerValue h (1 + nameLen + 1) valueType with
        | none => found
        | some (value, p) => go turns (h.drop p) (recordHeader found ((h.drop 1).take nameLen) value)

def lowercaseFirst (s : String) : String :=
  match s.toList with
  | c :: cs => String.ofList (c.toLower :: cs)
  | [] => ""

/-- The last non-empty piece between `#` and `/`, or the whole name. -/
def bareException (exc : String) : String :=
  let pieces := exc.toList.splitOnP (fun c => c = '#' || c = '/')
  match pieces.reverse.find? (· ≠ []) with
  | some piece => String.ofList piece
  | none => exc

def eventTypeForFrame (headers : Bytes) : String :=
  let parsed := parseFrameHeaders headers
  let event := parsed.eventType.getD ""
  if parsed.messageType = some msgTypeException then
    match parsed.exceptionType with
    | some exc => lowercaseFirst (bareException exc)
    | none => event
  else event

def totalLen (rem : Bytes) : Nat := ofBe (rem.take 4)

def headersLen (rem : Bytes) : Nat := ofBe ((rem.drop 4).take 4)

/-- The event name and the payload of a complete frame. -/
def decodeFrame (frame : Bytes) : String × Bytes :=
  let headersLen := headersLen frame
  (eventTypeForFrame ((frame.drop preludeLen).take headersLen),
    (frame.take (frame.length - crcBytes)).drop (preludeLen + headersLen))

/-- What stands at the front of the buffer: the prelude is checked before its frame is waited for. -/
def eventFront (rem : Bytes) : Front UInt8 :=
  if rem.length < preludeLen then .more
  else if totalLen rem < minFrameBytes ∨ maxFrameBytes < totalLen rem
      ∨ totalLen rem - minFrameBytes < headersLen rem then .malformed
  else if rem.length < totalLen rem then .more
  else .frame (rem.take (totalLen rem)) (rem.drop (totalLen rem))

theorem lens_append {b : Bytes} (c : Bytes) (h : preludeLen ≤ b.length) :
    totalLen (b ++ c) = totalLen b ∧ headersLen (b ++ c) = headersLen b := by
  unfold preludeLen at h
  unfold totalLen headersLen
  rw [List.take_append_of_le_length (by omega), List.drop_append_of_le_length (by omega),
    List.take_append_of_le_length (by rw [List.length_drop]; omega)]
  exact ⟨rfl, rfl⟩

theorem eventFront_frame {b f r : Bytes} : eventFront b = .frame f r ↔
    preludeLen ≤ b.length ∧ minFrameBytes ≤ totalLen b ∧ totalLen b ≤ maxFrameBytes ∧
      headersLen b ≤ totalLen b - minFrameBytes ∧ totalLen b ≤ b.length ∧
      f = b.take (totalLen b) ∧ r = b.drop (totalLen b) := by
  unfold eventFront
  by_cases h₁ : b.length < preludeLen
  · rw [if_pos h₁]; simp only [reduceCtorEq, false_iff]; omega
  rw [if_neg h₁]
  by_cases h₂ : totalLen b < minFrameBytes ∨ maxFrameBytes < totalLen b
      ∨ totalLen b - minFrameBytes < headersLen b
  · rw [if_pos h₂]; simp only [reduceCtorEq, false_iff]; omega
  rw [if_neg h₂]
  by_cases h₃ : b.length < totalLen b
  · rw [if_pos h₃]; simp only [reduceCtorEq, false_iff]; omega
  rw [if_neg h₃, Front.frame.injEq, eq_comm, eq_comm (a := b.drop _)]
  constructor
  · rintro ⟨hf, hr⟩; exact ⟨by omega, by omega, by omega, by omega, by omega, hf, hr⟩
  · rintro ⟨-, -, -, -, -, hf, hr⟩; exact ⟨hf, hr⟩

theorem eventFront_malformed {b : Bytes} : eventFront b = .malformed ↔
    preludeLen ≤ b.length ∧ (totalLen b < minFrameBytes ∨ maxFrameBytes < totalLen b
      ∨ totalLen b - minFrameBytes < headersLen b) := by
  unfold eventFront
  by_cases h₁ : b.length < preludeLen
  · rw [if_pos h₁]; simp only [reduceCtorEq, false_iff]; omega
  rw [if_neg h₁]
  by_cases h₂ : totalLen b < minFrameBytes ∨ maxFrameBytes < totalLen b
      ∨ totalLen b - minFrameBytes < headersLen b
  · rw [if_pos h₂]; exact iff_of_true rfl ⟨by omega, h₂⟩
  · rw [if_neg h₂]
    refine iff_of_false ?_ (fun h => h₂ h.2)
    split <;> simp

/-- The event stream as a framer. -/
def eventFramer : Framer UInt8 where
  front := eventFront
  front_nil := rfl
  split {b f r} h := by
    obtain ⟨-, hmin, -, -, hlen, rfl, rfl⟩ := eventFront_frame.1 h
    refine ⟨(List.take_append_drop _ _).symm, fun hnil => ?_⟩
    have := congrArg List.length hnil
    rw [List.length_take, List.length_nil] at this
    unfold minFrameBytes preludeLen at hmin
    omega
  whole {b f r} h := by
    obtain ⟨hpre, hmin, hmax, hhead, hlen, rfl, rfl⟩ := eventFront_frame.1 h
    have hlong : preludeLen ≤ (b.take (totalLen b)).length := by
      rw [List.length_take]; unfold minFrameBytes at hmin; omega
    obtain ⟨ht, hh⟩ := lens_append (b.drop (totalLen b)) hlong
    rw [List.take_append_drop] at ht hh
    refine eventFront_frame.2 ⟨hlong, ?_⟩
    rw [← ht, ← hh]
    refine ⟨hmin, hmax, hhead, by rw [List.length_take]; omega, ?_, ?_⟩
    · rw [List.take_take, Nat.min_self]
    · rw [List.drop_take, Nat.sub_self, List.take_zero]
  frame_append {b f r} c h := by
    obtain ⟨hpre, hmin, hmax, hhead, hlen, rfl, rfl⟩ := eventFront_frame.1 h
    obtain ⟨ht, hh⟩ := lens_append c hpre
    refine eventFront_frame.2 ?_
    rw [ht, hh, List.take_append_of_le_length hlen, List.drop_append_of_le_length hlen, List.length_append]
    exact ⟨by omega, hmin, hmax, hhead, by omega, rfl, rfl⟩
  malformed_append {b} c h := by
    obtain ⟨hpre, hbad⟩ := eventFront_malformed.1 h
    obtain ⟨ht, hh⟩ := lens_append c hpre
    refine eventFront_malformed.2 ?_
    rw [ht, hh, List.length_append]
    exact ⟨by omega, hbad⟩

inductive DrainStatus where
  | ok | malformedPrelude
  deriving DecidableEq, Repr

/-- The event names and payloads of the complete frames, why the drain stopped, what stays buffered, and the
verbatim bytes of the frames. -/
def drainFramesChecked (buf : Bytes) : List (String × Bytes) × DrainStatus × Bytes × Bytes :=
  match _h : eventFront buf with
  | .frame f rem =>
    let (out, status, rest, sink) := drainFramesChecked rem
    (decodeFrame f :: out, status, rest, f ++ sink)
  | .malformed => ([], .malformedPrelude, [], [])
  | .more => ([], .ok, buf, [])
termination_by buf.length
decreasing_by exact eventFramer.shorter _h

/-- The drain of a buffer is the framer's. -/
theorem drainFramesChecked_eq (buf : Bytes) : drainFramesChecked buf =
    ((eventFramer.drain buf).1.map decodeFrame,
      (if (eventFramer.drain buf).2.isSome then .ok else .malformedPrelude),
      (eventFramer.drain buf).2.getD [], (eventFramer.drain buf).1.flatten) := by
  induction buf using Framer.drain.induct eventFramer with
  | case1 b f r h ih =>
    rw [drainFramesChecked, Framer.drain_frame h]
    split
    · rename_i f' r' h'
      cases h.symm.trans h'
      rw [ih]; rfl
    · rename_i h'; cases h.symm.trans h'
    · rename_i h'; cases h.symm.trans h'
  | case2 b h =>
    rw [drainFramesChecked, Framer.drain_malformed h]
    split
    · rename_i h'; cases h.symm.trans h'
    · rfl
    · rename_i h'; cases h.symm.trans h'
  | case3 b h =>
    rw [drainFramesChecked, Framer.drain_more h]
    split
    · rename_i h'; cases h.symm.trans h'
    · rename_i h'; cases h.symm.trans h'
    · rfl

/-! ## Writing frames -/

/-- A string header, unless its name or its value is too long for its length field. -/
def pushStringHeader (headers : Bytes) (name value : String) : Option Bytes :=
  let name := utf8 name
  let value := utf8 value
  if name.length > 255 ∨ value.length > 65535 then none
  else some (headers ++ UInt8.ofNat name.length :: name ++ hdrTypeString :: toBe 2 value.length ++ value)

/-- Lengths and checksums around the headers and the payload; an oversized frame is dropped. -/
def frameClose (lib : WireLib) (headers payload : Bytes) : Bytes :=
  let totalLen := preludeLen + headers.length + payload.length + crcBytes
  if totalLen > maxFrameBytes then []
  else
    let lengths := toBe 4 totalLen ++ toBe 4 headers.length
    let frame := lengths ++ toBe 4 (lib.crc32 lengths).toNat ++ headers ++ payload
    frame ++ toBe 4 (lib.crc32 frame).toNat

def encodeWith (lib : WireLib) (typeHeader typeName messageType : String) (payload : Bytes) : Bytes :=
  match (pushStringHeader [] typeHeader typeName).bind fun headers =>
      (pushStringHeader headers hdrContentType applicationJson).bind fun headers =>
        pushStringHeader headers hdrMessageType messageType with
  | some headers => frameClose lib headers payload
  | none => []

def encodeFrame (lib : WireLib) (eventType : String) (payload : Bytes) : Bytes :=
  encodeWith lib hdrEventType eventType msgTypeEvent payload

def encodeExceptionFrame (lib : WireLib) (exceptionType message : String) : Bytes :=
  encodeWith lib hdrExceptionType exceptionType msgTypeException
    (lib.toVec (.object [("message", .string message)]))

end Busbar
