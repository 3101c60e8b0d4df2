import Mathlib.Tactic.Ring
import Busbar.EventStream.Indexed

/-!
# The event-stream codec round-trips

What the encoder writes the drain reads back, cut into chunks anywhere; of any other input the drain gives the
longest sequence of valid frames at its front.

* `drainChunks_eq`: chunks make no difference to what is drained.
* `eventFront_encodeFrame`, `decodeFrame_encodeFrame`: one frame.
* `event_stream_codec`: any list of frames in any chunks, and any bytes at all.
-/

namespace Busbar

/-- Append a chunk to what is buffered and drain; a malformed prelude ends the stream. -/
def drainChunks (buf : Bytes) : List Bytes → Option (List (String × Bytes) × DrainStatus × Bytes × Bytes)
  | [] => some ([], .ok, buf, [])
  | chunk :: chunks => do
    let (out, status, _, rest, sink) ← drainPass (buf ++ chunk)
    match status with
    | .ok =>
      let (outs, status, rest, sinks) ← drainChunks rest chunks
      return (out ++ outs, status, rest, sink ++ sinks)
    | .malformedPrelude => return (out, status, rest, sink)

/-- **Chunks make no difference.** -/
theorem drainChunks_eq {buf : Bytes} (hbuf : eventFront buf = .more) (chunks : List Bytes) :
    drainChunks buf chunks = some (drainFramesChecked (buf ++ chunks.flatten)) := by
  induction chunks generalizing buf with
  | nil =>
    rw [List.flatten_nil, List.append_nil, drainFramesChecked_eq, Framer.drain_more (F := eventFramer) hbuf]
    rfl
  | cons chunk chunks ih =>
    unfold drainChunks
    rw [drainPass_eq]
    dsimp only [Option.bind_eq_bind, Option.bind_some]
    rw [List.flatten_cons, ← List.append_assoc, drainFramesChecked_eq (buf ++ chunk ++ chunks.flatten),
      Framer.drain_append, drainFramesChecked_eq (buf ++ chunk)]
    dsimp only
    rcases hd : eventFramer.drain (buf ++ chunk) with ⟨fs, _ | rest⟩
    · rfl
    · have hrest : eventFramer.front rest = .more := Framer.front_rest (by rw [hd])
      dsimp only [Option.isSome_some, Option.getD_some]
      rw [if_pos rfl]
      dsimp only
      rw [ih hrest, drainFramesChecked_eq]
      dsimp only [Option.bind_some]
      rw [List.map_append, List.flatten_append]
      rfl

/-! ## Numbers in network order -/

theorem length_toBe (width n : Nat) : (toBe width n).length = width := by
  unfold toBe
  rw [List.length_map, List.length_reverse, List.length_range]

theorem toBe_succ (width n : Nat) : toBe (width + 1) n = UInt8.ofNat (n / 256 ^ width % 256) :: toBe width n := by
  unfold toBe
  rw [List.range_succ, List.reverse_append]
  rfl

theorem foldl_toBe (width n acc : Nat) :
    (toBe width n).foldl (fun n b => n * 256 + b.toNat) acc = acc * 256 ^ width + n % 256 ^ width := by
  induction width generalizing acc with
  | zero =>
    show acc = acc * 256 ^ 0 + n % 256 ^ 0
    rw [Nat.pow_zero, Nat.mod_one, Nat.mul_one, Nat.add_zero]
  | succ width ih =>
    have hbyte : (UInt8.ofNat (n / 256 ^ width % 256)).toNat = n / 256 ^ width % 256 :=
      UInt8.toNat_ofNat_of_lt' (Nat.mod_lt _ (by decide))
    have hmod : n % 256 ^ (width + 1) = n % 256 ^ width + 256 ^ width * (n / 256 ^ width % 256) := Nat.mod_pow_succ
    rw [toBe_succ, List.foldl_cons, ih, hbyte, hmod, Nat.pow_succ]
    ring

/-- A number that fits reads back. -/
theorem ofBe_toBe {width n : Nat} (h : n < 256 ^ width) : ofBe (toBe width n) = n := by
  unfold ofBe
  rw [foldl_toBe, Nat.zero_mul, Nat.zero_add, Nat.mod_eq_of_lt h]

/-! ## The header block -/

/-- One string header. -/
def stringHeader (name value : String) : Bytes :=
  UInt8.ofNat (utf8 name).length :: utf8 name ++ hdrTypeString :: toBe 2 (utf8 value).length ++ utf8 value

/-- A name and a value that a string header has room for. -/
def HeaderFits (name value : String) : Prop := (utf8 name).length ≤ 255 ∧ (utf8 value).length ≤ 65535

theorem pushStringHeader_eq (headers : Bytes) (name value : String) :
    pushStringHeader headers name value =
      if (utf8 name).length > 255 ∨ (utf8 value).length > 65535 then none
      else some (headers ++ stringHeader name value) := by
  unfold pushStringHeader stringHeader
  dsimp only
  split
  · rfl
  · rw [List.cons_append, List.append_assoc, List.append_assoc]
    simp

theorem pushStringHeader_fits {name value : String} (h : HeaderFits name value) (headers : Bytes) :
    pushStringHeader headers name value = some (headers ++ stringHeader name value) := by
  rw [pushStringHeader_eq, if_neg]
  have := h.1
  have := h.2
  omega

/-- One turn of the scan. -/
theorem go_header {turns p : Nat} {nameLenByte valueType : UInt8} {t : Bytes} {value : Option Bytes}
    {found : FrameHeaders} (htype : (nameLenByte :: t)[1 + nameLenByte.toNat]? = some valueType)
    (hvalue : headerValue (nameLenByte :: t) (1 + nameLenByte.toNat + 1) valueType = some (value, p)) :
    parseFrameHeaders.go (turns + 1) (nameLenByte :: t) found =
      parseFrameHeaders.go turns ((nameLenByte :: t).drop p)
        (recordHeader found (((nameLenByte :: t).drop 1).take nameLenByte.toNat) value) := by
  rw [parseFrameHeaders.go, htype]
  dsimp only
  rw [hvalue]

/-- The scan takes a string header off the head of its block. -/
theorem go_stringHeader {name value : String} (h : HeaderFits name value) (turns : Nat) (rest : Bytes)
    (found : FrameHeaders) :
    parseFrameHeaders.go (turns + 1) (stringHeader name value ++ rest) found =
      parseFrameHeaders.go turns rest (recordHeader found (utf8 name) (some (utf8 value))) := by
  obtain ⟨hname, hvalue⟩ := h
  have hsize : UInt8.size = 256 := rfl
  have hnameLen : (UInt8.ofNat (utf8 name).length).toNat = (utf8 name).length :=
    UInt8.toNat_ofNat_of_lt' (by omega)
  have hvalueLen : ofBe (toBe 2 (utf8 value).length) = (utf8 value).length := ofBe_toBe (by omega)
  have hbe := length_toBe 2 (utf8 value).length
  unfold stringHeader
  generalize utf8 name = n at *
  generalize utf8 value = v at *
  generalize toBe 2 v.length = l at *
  -- the block, and what stands behind each of its parts
  obtain ⟨h, hh⟩ : ∃ h, h = UInt8.ofNat n.length :: n ++ hdrTypeString :: l ++ v ++ rest := ⟨_, rfl⟩
  have hafter : ∀ a b : Bytes, h = a ++ b → h.drop a.length = b := by
    intro a b hab
    rw [hab, List.drop_left]
  have hn : h.drop 1 = n ++ (hdrTypeString :: l ++ v ++ rest) :=
    hafter [UInt8.ofNat n.length] _ (by rw [hh]; simp)
  have htype : h.drop (1 + n.length) = hdrTypeString :: (l ++ v ++ rest) := by
    have := hafter (UInt8.ofNat n.length :: n) (hdrTypeString :: (l ++ v ++ rest)) (by rw [hh]; simp)
    rw [List.length_cons] at this
    rw [Nat.add_comm]
    exact this
  have hl : h.drop (1 + n.length + 1) = l ++ (v ++ rest) := by
    rw [← List.drop_drop, htype]
    simp
  have hv : h.drop (1 + n.length + 1 + 2) = v ++ rest := by
    rw [← List.drop_drop, hl, ← hbe, List.drop_left]
  have hrest : h.drop (1 + n.length + 1 + 2 + v.length) = rest := by
    rw [← List.drop_drop, hv, List.drop_left]
  have hlen : h.length = 1 + n.length + 1 + 2 + v.length + rest.length := by
    rw [hh]
    simp only [List.length_append, List.length_cons]
    omega
  have hget : h[1 + n.length]? = some hdrTypeString := by
    rw [← List.head?_drop, htype]
    rfl
  have hval : headerValue h (1 + n.length + 1) hdrTypeString = some (some v, 1 + n.length + 1 + 2 + v.length) := by
    have hvlen : ofBe ((h.drop (1 + n.length + 1)).take 2) = v.length := by
      rw [hl, ← hbe, List.take_left, hvalueLen]
    unfold headerValue
    rw [if_pos (Or.inr rfl), if_neg (by omega), hvlen, hv]
    dsimp only
    rw [if_neg (by omega), List.take_left]
  have hcons : h = UInt8.ofNat n.length :: (n ++ (hdrTypeString :: (l ++ (v ++ rest)))) := by
    rw [hh]
    simp
  rw [← hh]
  rw [hcons] at hget hval hrest hn ⊢
  rw [go_header (by rw [hnameLen]; exact hget) (by rw [hnameLen]; exact hval), hrest, hnameLen, hn, List.take_left]

/-- The header block of an event. -/
def eventHeaders (eventType : String) : Bytes :=
  stringHeader hdrEventType eventType ++
    (stringHeader hdrContentType applicationJson ++ stringHeader hdrMessageType msgTypeEvent)

theorem fits_contentType : HeaderFits hdrContentType applicationJson := by
  unfold HeaderFits
  decide +kernel

theorem fits_messageType : HeaderFits hdrMessageType msgTypeEvent := by
  unfold HeaderFits
  decide +kernel

theorem fits_eventType {eventType : String} (h : (utf8 eventType).length ≤ 65535) :
    HeaderFits hdrEventType eventType := ⟨by decide +kernel, h⟩

theorem length_stringHeader (name value : String) :
    (stringHeader name value).length = 1 + (utf8 name).length + 1 + 2 + (utf8 value).length := by
  unfold stringHeader
  simp only [List.length_append, List.length_cons, length_toBe]
  omega

/-- The scan of an event's headers finds its type and that it is an event. -/
theorem parse_eventHeaders {eventType : String} (h : (utf8 eventType).length ≤ 65535) :
    parseFrameHeaders (eventHeaders eventType) = ⟨some eventType, some msgTypeEvent, none⟩ := by
  obtain ⟨turns, hturns⟩ : ∃ turns, (eventHeaders eventType).length = turns + 1 + 1 + 1 := by
    refine ⟨(eventHeaders eventType).length - 3, ?_⟩
    unfold eventHeaders
    simp only [List.length_append, length_stringHeader]
    omega
  have hmsg : stringHeader hdrMessageType msgTypeEvent = stringHeader hdrMessageType msgTypeEvent ++ [] :=
    (List.append_nil _).symm
  have hrecord : ∀ (found : FrameHeaders) (name value : String),
      recordHeader found (utf8 name) (some (utf8 value)) =
        if utf8 name = utf8 hdrEventType then { found with eventType := some value }
        else if utf8 name = utf8 hdrMessageType then { found with messageType := some value }
        else if utf8 name = utf8 hdrExceptionType then { found with exceptionType := some value }
        else found := by
    intro found name value
    unfold recordHeader
    rw [Option.bind_some, fromUtf8_utf8]
  unfold parseFrameHeaders
  rw [hturns]
  unfold eventHeaders
  rw [go_stringHeader (fits_eventType h), go_stringHeader fits_contentType, hmsg, go_stringHeader fits_messageType,
    hrecord, hrecord, hrecord]
  have hne : ∀ a b : String, a ≠ b → utf8 a ≠ utf8 b := fun a b hab => utf8_injective.ne hab
  rw [if_pos rfl, if_neg (hne hdrContentType hdrEventType (by decide)),
    if_neg (hne hdrContentType hdrMessageType (by decide)), if_neg (hne hdrContentType hdrExceptionType (by decide)),
    if_neg (hne hdrMessageType hdrEventType (by decide)), if_pos rfl]
  rcases turns with _ | turns <;> rfl

/-! ## One frame -/

/-- The frame around a header block and a payload. -/
def frameOf (lib : WireLib) (headers payload : Bytes) : Bytes :=
  let lengths := toBe 4 (preludeLen + headers.length + payload.length + crcBytes) ++ toBe 4 headers.length
  let frame := lengths ++ toBe 4 (lib.crc32 lengths).toNat ++ headers ++ payload
  frame ++ toBe 4 (lib.crc32 frame).toNat

/-- A pair has a frame when its event type fits a string header and the frame fits the cap. -/
def FrameFits (eventType : String) (payload : Bytes) : Prop :=
  (utf8 eventType).length ≤ 65535 ∧
    preludeLen + (eventHeaders eventType).length + payload.length + crcBytes ≤ maxFrameBytes

instance (eventType : String) (payload : Bytes) : Decidable (FrameFits eventType payload) := by
  unfold FrameFits
  infer_instance

theorem encodeFrame_eq (lib : WireLib) (eventType : String) (payload : Bytes) :
    encodeFrame lib eventType payload =
      if FrameFits eventType payload then frameOf lib (eventHeaders eventType) payload else [] := by
  unfold encodeFrame encodeWith
  by_cases htype : (utf8 eventType).length ≤ 65535
  · rw [pushStringHeader_fits (fits_eventType htype), Option.bind_some, pushStringHeader_fits fits_contentType,
      Option.bind_some, pushStringHeader_fits fits_messageType, List.nil_append, List.append_assoc]
    show frameClose lib (eventHeaders eventType) payload = _
    unfold frameClose
    dsimp only
    by_cases hlen : maxFrameBytes < preludeLen + (eventHeaders eventType).length + payload.length + crcBytes
    · rw [if_pos hlen, if_neg (fun h => Nat.not_lt.2 h.2 hlen)]
    · rw [if_neg hlen, if_pos ⟨htype, Nat.not_lt.1 hlen⟩]
      rfl
  · rw [pushStringHeader_eq, if_pos (Or.inr (Nat.not_le.1 htype)), if_neg (fun h => htype h.1)]
    rfl

/-- The encoder writes a frame exactly for the pairs that have one. -/
theorem encodeFrame_ne_nil {lib : WireLib} {eventType : String} {payload : Bytes} :
    encodeFrame lib eventType payload ≠ [] ↔ FrameFits eventType payload := by
  rw [encodeFrame_eq]
  split
  · rename_i h
    refine iff_of_true ?_ h
    unfold frameOf
    dsimp only
    intro hnil
    have hlen := congrArg List.length hnil
    simp [length_toBe] at hlen
  · rename_i h
    exact iff_of_false (fun hne => hne rfl) h

section Frame

variable (lib : WireLib) {headers payload : Bytes}
  (h : preludeLen + headers.length + payload.length + crcBytes ≤ maxFrameBytes)

include h

omit h in
variable (headers payload) in
/-- A written frame, part by part. -/
theorem frameOf_parts : ∃ preludeCrc messageCrc : UInt32, frameOf lib headers payload =
    toBe 4 (preludeLen + headers.length + payload.length + crcBytes) ++ (toBe 4 headers.length ++
      (toBe 4 preludeCrc.toNat ++ (headers ++ (payload ++ toBe 4 messageCrc.toNat)))) := by
  let lengths := toBe 4 (preludeLen + headers.length + payload.length + crcBytes) ++ toBe 4 headers.length
  refine ⟨lib.crc32 lengths, lib.crc32 (lengths ++ toBe 4 (lib.crc32 lengths).toNat ++ headers ++ payload), ?_⟩
  unfold frameOf
  simp only [List.append_assoc, lengths]

/-- The length fields of a written frame. -/
theorem lens_frameOf : (frameOf lib headers payload).length =
      preludeLen + headers.length + payload.length + crcBytes ∧
    totalLen (frameOf lib headers payload) = preludeLen + headers.length + payload.length + crcBytes ∧
    headersLen (frameOf lib headers payload) = headers.length := by
  obtain ⟨preludeCrc, messageCrc, hparts⟩ := frameOf_parts lib headers payload
  have hmax : maxFrameBytes < 256 ^ 4 := by decide
  have hp : preludeLen = 12 := rfl
  have hc : crcBytes = 4 := rfl
  have htotal : ofBe (toBe 4 (preludeLen + headers.length + payload.length + crcBytes)) =
      preludeLen + headers.length + payload.length + crcBytes := ofBe_toBe (by omega)
  have hhead : ofBe (toBe 4 headers.length) = headers.length := ofBe_toBe (by omega)
  have hdrop : (frameOf lib headers payload).drop 4 = toBe 4 headers.length ++ (toBe 4 preludeCrc.toNat ++
      (headers ++ (payload ++ toBe 4 messageCrc.toNat))) := by
    rw [hparts]
    exact List.drop_left' (length_toBe 4 _)
  refine ⟨?_, ?_, ?_⟩
  · rw [hparts]
    simp only [List.length_append, length_toBe]
    omega
  · unfold totalLen
    rw [hparts, List.take_left' (length_toBe 4 _), htotal]
  · unfold headersLen
    rw [hdrop, List.take_left' (length_toBe 4 _), hhead]

/-- A written frame is one complete frame. -/
theorem eventFront_frameOf : eventFront (frameOf lib headers payload) = .frame (frameOf lib headers payload) [] := by
  obtain ⟨hlen, htotal, hhead⟩ := lens_frameOf lib h
  have hp : preludeLen = 12 := rfl
  have hc : crcBytes = 4 := rfl
  have hm : minFrameBytes = 16 := rfl
  refine eventFront_frame.2 ?_
  rw [htotal, hhead, ← hlen, List.take_length, List.drop_length]
  exact ⟨by omega, by omega, by omega, by omega, Nat.le_refl _, rfl, rfl⟩

/-- Its header block and its payload read back. -/
theorem decodeFrame_frameOf : decodeFrame (frameOf lib headers payload) = (eventTypeForFrame headers, payload) := by
  obtain ⟨hlen, -, hhead⟩ := lens_frameOf lib h
  obtain ⟨preludeCrc, messageCrc, hparts⟩ := frameOf_parts lib headers payload
  have hp : preludeLen = 12 := rfl
  have hbody : (frameOf lib headers payload).drop preludeLen =
      headers ++ (payload ++ toBe 4 messageCrc.toNat) := by
    rw [hparts, ← List.append_assoc, ← List.append_assoc]
    exact List.drop_left' (by simp only [List.length_append, length_toBe]; rfl)
  have htake : (frameOf lib headers payload).take (preludeLen + headers.length + payload.length) =
      ((frameOf lib headers payload).take preludeLen) ++ (headers ++ payload) := by
    rw [Nat.add_assoc, List.take_add, hbody, ← List.append_assoc headers, List.take_left' (List.length_append)]
  have hpre : ((frameOf lib headers payload).take preludeLen).length = preludeLen := by
    rw [List.length_take]
    omega
  unfold decodeFrame
  dsimp only
  rw [hhead, hbody, List.take_left, hlen, Nat.add_sub_cancel, htake, ← List.drop_drop, List.drop_left' hpre,
    List.drop_left]

end Frame

/-! ## Any list of frames, and any bytes -/

section Codec

variable {lib : WireLib} {eventType : String} {payload : Bytes}

theorem eventFront_encodeFrame (h : FrameFits eventType payload) :
    eventFront (encodeFrame lib eventType payload) = .frame (encodeFrame lib eventType payload) [] := by
  rw [encodeFrame_eq, if_pos h]
  exact eventFront_frameOf lib h.2

/-- **One frame round-trips.** -/
theorem decodeFrame_encodeFrame (h : FrameFits eventType payload) :
    decodeFrame (encodeFrame lib eventType payload) = (eventType, payload) := by
  have htype : eventTypeForFrame (eventHeaders eventType) = eventType := by
    unfold eventTypeForFrame
    rw [parse_eventHeaders h.1]
    exact if_neg (show ¬ some msgTypeEvent = some msgTypeException by decide)
  rw [encodeFrame_eq, if_pos h, decodeFrame_frameOf lib h.2, htype]

/-- What was written is drained frame by frame. -/
theorem drain_encoded {pairs : List (String × Bytes)} (h : ∀ p ∈ pairs, FrameFits p.1 p.2) :
    drainFramesChecked (pairs.map (fun p => encodeFrame lib p.1 p.2)).flatten =
      (pairs, .ok, [], (pairs.map (fun p => encodeFrame lib p.1 p.2)).flatten) := by
  have hframes : ∀ f ∈ pairs.map (fun p => encodeFrame lib p.1 p.2), eventFramer.front f = .frame f [] := by
    intro f hf
    obtain ⟨p, hp, rfl⟩ := List.mem_map.1 hf
    exact eventFront_encodeFrame (h p hp)
  have hdecoded : (pairs.map (fun p => encodeFrame lib p.1 p.2)).map decodeFrame = pairs := by
    rw [List.map_map]
    exact (List.map_congr_left (fun p hp => decodeFrame_encodeFrame (h p hp))).trans (List.map_id _)
  rw [drainFramesChecked_eq, Framer.drain_of_frames hframes, hdecoded]
  rfl

/-- One complete frame with lengths in range. -/
def ValidFrame (f : Bytes) : Prop :=
  minFrameBytes ≤ totalLen f ∧ totalLen f ≤ maxFrameBytes ∧ headersLen f ≤ totalLen f - minFrameBytes ∧
    f.length = totalLen f

/-- A prelude with a length out of range. -/
def MalformedPrelude (b : Bytes) : Prop :=
  preludeLen ≤ b.length ∧ (totalLen b < minFrameBytes ∨ maxFrameBytes < totalLen b ∨
    totalLen b - minFrameBytes < headersLen b)

theorem validFrame_iff {f : Bytes} : ValidFrame f ↔ eventFramer.front f = .frame f [] := by
  have hm : minFrameBytes = preludeLen + 4 := rfl
  refine Iff.trans ?_ eventFront_frame.symm
  unfold ValidFrame
  constructor
  · rintro ⟨hmin, hmax, hhead, hlen⟩
    refine ⟨by omega, hmin, hmax, hhead, by omega, ?_, ?_⟩
    · rw [← hlen, List.take_length]
    · rw [← hlen, List.drop_length]
  · rintro ⟨-, hmin, hmax, hhead, hlen, -, hnil⟩
    have hdrop := congrArg List.length hnil
    rw [List.length_drop, List.length_nil] at hdrop
    exact ⟨hmin, hmax, hhead, by omega⟩

/-- The frames the drain takes are as many as there are at the front. -/
theorem drain_longest {b c : Bytes} {gs : List Bytes} (hgs : ∀ g ∈ gs, ValidFrame g) (hb : b = gs.flatten ++ c) :
    gs <+: (eventFramer.drain b).1 := by
  have hframes : ∀ g ∈ gs, eventFramer.front g = .frame g [] := fun g hg => validFrame_iff.1 (hgs g hg)
  rw [hb, Framer.drain_append, Framer.drain_of_frames hframes]
  exact List.prefix_append _ _

instance (b : Bytes) : Decidable (MalformedPrelude b) := by
  unfold MalformedPrelude
  infer_instance

/-- **The codec.** Written frames come back as they went in, from any chunks, with nothing left in the buffer and
their bytes verbatim. Of any bytes the drain takes the longest sequence of valid frames at the front, without
leaving its buffer, and only then reports a malformed prelude. -/
theorem event_stream_codec (lib : WireLib) :
    (∀ (pairs : List (String × Bytes)) (chunks : List Bytes), (∀ p ∈ pairs, encodeFrame lib p.1 p.2 ≠ []) →
      chunks.flatten = (pairs.map (fun p => encodeFrame lib p.1 p.2)).flatten →
      drainChunks [] chunks = some (pairs, .ok, [], chunks.flatten)) ∧
    ∀ b : Bytes, ∃ (fs : List Bytes) (tail : Bytes),
      b = fs.flatten ++ tail ∧ (∀ f ∈ fs, ValidFrame f) ∧
      (∀ (gs : List Bytes) (c : Bytes), (∀ g ∈ gs, ValidFrame g) → b = gs.flatten ++ c → gs <+: fs) ∧
      drainPass b = some (fs.map decodeFrame, if MalformedPrelude tail then .malformedPrelude else .ok,
        fs.flatten.length, if MalformedPrelude tail then [] else tail, fs.flatten) := by
  constructor
  · intro pairs chunks hfits hchunks
    have hfits : ∀ p ∈ pairs, FrameFits p.1 p.2 := fun p hp => encodeFrame_ne_nil.1 (hfits p hp)
    rw [drainChunks_eq (show eventFront [] = .more from rfl), List.nil_append, hchunks, drain_encoded hfits]
  · intro b
    obtain ⟨tail, hb, htail⟩ := Framer.drain_tail (F := eventFramer) b
    refine ⟨(eventFramer.drain b).1, tail, hb, ?_, fun gs c hgs hc => drain_longest hgs hc, ?_⟩
    · exact fun f hf => validFrame_iff.2 (Framer.front_of_mem_drain hf)
    · rw [drainPass_eq, drainFramesChecked_eq]
      dsimp only
      rcases htail with ⟨hrest, hmore⟩ | ⟨hnone, hbad⟩
      · have hok : ¬ MalformedPrelude tail := by
          intro h
          cases (eventFront_malformed.2 h).symm.trans hmore
        rw [if_neg hok, if_neg hok, hrest]
        rfl
      · have hmal : MalformedPrelude tail := eventFront_malformed.1 hbad
        rw [if_pos hmal, if_pos hmal, hnone]
        rfl

end Codec

/-! ## Two frames in three chunks -/

/-- CRC-32 with the reversed polynomial, bit by bit. -/
def crc32 (bs : Bytes) : UInt32 :=
  let byte (crc : UInt32) (b : UInt8) : UInt32 :=
    (List.range 8).foldl (fun crc _ => if crc &&& 1 = 1 then (crc >>> 1) ^^^ 0xEDB88320 else crc >>> 1)
      (crc ^^^ b.toUInt32)
  bs.foldl byte 0xFFFFFFFF ^^^ 0xFFFFFFFF

example : crc32 (utf8 "123456789") = 0xCBF43926 := by decide +kernel

namespace TwoFrames

/-- The codec needs no JSON. -/
def lib : WireLib where
  fromStr := fun _ => none
  fromSlice := fun _ => none
  toVec := fun _ => []
  crc32 := crc32

def pairs : List (String × Bytes) :=
  [("messageStart", utf8 "[1]"), ("messageStop", utf8 "[2]")]

def wire : Bytes := (pairs.map (fun p => encodeFrame lib p.1 p.2)).flatten

/-- Cut inside the first prelude and inside the second frame. -/
def chunks : List Bytes := [wire.take 7, (wire.drop 7).take 120, (wire.drop 7).drop 120]

theorem fits : ∀ p ∈ pairs, FrameFits p.1 p.2 := by decide +kernel

end TwoFrames

theorem event_stream_codec_two :
    drainChunks [] TwoFrames.chunks = some (TwoFrames.pairs, .ok, [], TwoFrames.chunks.flatten) := by
  refine (event_stream_codec TwoFrames.lib).1 TwoFrames.pairs TwoFrames.chunks ?_ ?_
  · exact fun p hp => encodeFrame_ne_nil.2 (TwoFrames.fits p hp)
  · show [_, _, _].flatten = TwoFrames.wire
    rw [List.flatten_cons, List.flatten_cons, List.flatten_cons, List.flatten_nil, List.append_nil,
      List.take_append_drop, List.take_append_drop]

end Busbar
