import Busbar.EventStream

/-!
# The event-stream decoder with its indices

The decoder trusts lengths it reads from the wire. Here every index, every slice and every subtraction of it can
fail, as it would panic; none ever does, and what comes out is what the decoder of the other modules gives.

* `parseHeaders_total`: the header scan stays inside its block.
* `drainPass_eq`: the drain stays inside its buffer, on every input.
-/

namespace Busbar

/-! ## Operations that can panic -/

/-- `b[lo..hi]`. -/
def slice (b : Bytes) (lo hi : Nat) : Option Bytes :=
  if lo ≤ hi ∧ hi ≤ b.length then some ((b.take hi).drop lo) else none

/-- A subtraction of unsigned numbers. -/
def checkedSub (a b : Nat) : Option Nat := if b ≤ a then some (a - b) else none

/-- `u16::from_be_bytes` of two bytes taken one by one. -/
def u16At (b : Bytes) (i : Nat) : Option Nat := do
  let b₀ ← b[i]?
  let b₁ ← b[i + 1]?
  return ofBe [b₀, b₁]

/-- `u32::from_be_bytes` of four bytes taken one by one. -/
def u32At (b : Bytes) (i : Nat) : Option Nat := do
  let b₀ ← b[i]?
  let b₁ ← b[i + 1]?
  let b₂ ← b[i + 2]?
  let b₃ ← b[i + 3]?
  return ofBe [b₀, b₁, b₂, b₃]

/-! ## The header scan -/

/-- The value at offset `p` and the offset after it; the inner `none` breaks off the scan. -/
def headerValueAt (h : Bytes) (p : Nat) (valueType : UInt8) : Option (Option (Option Bytes × Nat)) :=
  if valueType = 6 ∨ valueType = hdrTypeString then
    if h.length < p + 2 then some none
    else do
      let vlen ← u16At h p
      if h.length < p + 2 + vlen then return none
      else
        let v ← slice h (p + 2) (p + 2 + vlen)
        return some (some v, p + 2 + vlen)
  else
    match fixedWidth valueType with
    | some w => some (if h.length < p + w then none else some (none, p + w))
    | none => some none

/-- One header: its name, its value and what follows it. -/
def headerAt (h : Bytes) : Option (Option (Bytes × Option Bytes × Bytes)) :=
  match h[0]? with
  | none => some none
  | some nameLenByte => do
    let nameLen := nameLenByte.toNat
    if h.length < 1 + nameLen + 1 then return none
    else
      let name ← slice h 1 (1 + nameLen)
      let valueType ← h[1 + nameLen]?
      match ← headerValueAt h (1 + nameLen + 1) valueType with
      | none => return none
      | some (value, p) =>
        let rest ← slice h p h.length
        return some (name, value, rest)

theorem slice_of_le {b : Bytes} {lo hi : Nat} (h : lo ≤ hi) (h' : hi ≤ b.length) :
    slice b lo hi = some ((b.take hi).drop lo) := if_pos ⟨h, h'⟩

theorem getElem?_of_lt {b : Bytes} {i : Nat} (h : i < b.length) : b[i]? = some b[i] := List.getElem?_eq_getElem h

theorem take_two {b : Bytes} {i : Nat} (h : i + 2 ≤ b.length) :
    (b.drop i).take 2 = [b[i], b[i + 1]] := by
  rw [List.drop_eq_getElem_cons (by omega), List.drop_eq_getElem_cons (i := i + 1) (by omega)]
  rfl

theorem u16At_of_le {b : Bytes} {i : Nat} (h : i + 2 ≤ b.length) : u16At b i = some (ofBe ((b.drop i).take 2)) := by
  unfold u16At
  rw [getElem?_of_lt (by omega), getElem?_of_lt (by omega), take_two h]
  rfl

theorem u32At_of_le {b : Bytes} {i : Nat} (h : i + 4 ≤ b.length) : u32At b i = some (ofBe ((b.drop i).take 4)) := by
  have htake : (b.drop i).take 4 = [b[i], b[i + 1], b[i + 2], b[i + 3]] := by
    rw [List.drop_eq_getElem_cons (by omega), List.drop_eq_getElem_cons (i := i + 1) (by omega),
      List.drop_eq_getElem_cons (i := i + 1 + 1) (by omega), List.drop_eq_getElem_cons (i := i + 1 + 1 + 1) (by omega)]
    rfl
  unfold u32At
  rw [getElem?_of_lt (by omega), getElem?_of_lt (by omega), getElem?_of_lt (by omega), getElem?_of_lt (by omega),
    htake]
  rfl

theorem headerValueAt_eq (h : Bytes) (p : Nat) (valueType : UInt8) :
    headerValueAt h p valueType = some (headerValue h p valueType) := by
  unfold headerValueAt headerValue
  split
  · split
    · rfl
    · rename_i hlen
      rw [u16At_of_le (by omega)]
      dsimp only [Option.bind_eq_bind, Option.bind_some]
      split
      · rfl
      · rename_i hv
        rw [slice_of_le (by omega) (by omega), List.drop_take]
        have hlen' : p + 2 + ofBe ((h.drop p).take 2) - (p + 2) = ofBe ((h.drop p).take 2) := by omega
        rw [hlen']
        rfl
  · rcases fixedWidth valueType with _ | w
    · rfl
    · rfl

/-- Where a header's value ends, it ends inside the block. -/
theorem headerValue_le {h : Bytes} {p p' : Nat} {valueType : UInt8} {value : Option Bytes}
    (he : headerValue h p valueType = some (value, p')) : p ≤ p' ∧ p' ≤ h.length := by
  unfold headerValue at he
  split at he
  · split at he
    · cases he
    · dsimp only at he
      split at he
      · cases he
      · cases he
        omega
  · split at he
    · split at he
      · cases he
      · cases he
        omega
    · cases he

/-- What the scan finds at the head of a block, with nothing left to fail. -/
theorem headerAt_eq (h : Bytes) : headerAt h = some (
    match h with
    | [] => none
    | nameLenByte :: _ =>
      match h[1 + nameLenByte.toNat]? with
      | none => none
      | some valueType =>
        (headerValue h (1 + nameLenByte.toNat + 1) valueType).map fun v =>
          ((h.drop 1).take nameLenByte.toNat, v.1, h.drop v.2)) := by
  unfold headerAt
  rcases h with _ | ⟨nameLenByte, t⟩
  · rfl
  · dsimp only [List.getElem?_cons_zero]
    generalize hh : nameLenByte :: t = h
    by_cases hlen : h.length < 1 + nameLenByte.toNat + 1
    · rw [if_pos hlen, List.getElem?_eq_none (by omega)]
      rfl
    · rw [if_neg hlen, slice_of_le (by omega) (by omega), getElem?_of_lt (by omega)]
      dsimp only [Option.bind_eq_bind, Option.bind_some]
      rw [headerValueAt_eq]
      dsimp only [Option.bind_some]
      rcases hv : headerValue h (1 + nameLenByte.toNat + 1) h[1 + nameLenByte.toNat] with _ | ⟨value, p⟩
      · rfl
      · obtain ⟨-, hp⟩ := headerValue_le hv
        dsimp only
        rw [slice_of_le hp (Nat.le_refl _), List.take_length, List.drop_take, Nat.add_sub_cancel_left]
        rfl

theorem headerAt_shorter {h name rest : Bytes} {value : Option Bytes}
    (he : headerAt h = some (some (name, value, rest))) : rest.length < h.length := by
  rw [headerAt_eq] at he
  rcases h with _ | ⟨nameLenByte, t⟩
  · cases he
  · generalize hh : nameLenByte :: t = h at he
    have hpos : 0 < h.length := by
      rw [← hh]
      exact Nat.zero_lt_succ _
    subst hh
    dsimp only at he
    generalize nameLenByte :: t = h at he hpos
    split at he
    · cases he
    · rename_i valueType hvt
      have hlt := (List.getElem?_eq_some_iff.1 hvt).1
      rcases hv : headerValue h (1 + nameLenByte.toNat + 1) valueType with _ | ⟨v, p⟩
      · rw [hv] at he
        cases he
      · obtain ⟨hp, -⟩ := headerValue_le hv
        rw [hv] at he
        simp only [Option.map_some, Option.some.injEq, Prod.mk.injEq] at he
        rw [← he.2.2, List.length_drop]
        omega

/-- The scan of `parse_frame_headers`. -/
def parseHeaders (h : Bytes) (found : FrameHeaders) : Option FrameHeaders :=
  if h.isEmpty then some found
  else
    match _hs : headerAt h with
    | none => none
    | some none => some found
    | some (some (name, value, rest)) => parseHeaders rest (recordHeader found name value)
termination_by h.length
decreasing_by exact headerAt_shorter _hs

/-- **The header scan is total**, and finds what the scan by turns finds. -/
theorem parseHeaders_total {turns : Nat} {h : Bytes} (hturns : h.length ≤ turns) (found : FrameHeaders) :
    parseHeaders h found = some (parseFrameHeaders.go turns h found) := by
  induction turns generalizing h found with
  | zero =>
    rw [List.length_eq_zero_iff.1 (Nat.le_zero.1 hturns), parseHeaders]
    rfl
  | succ turns ih =>
    rcases h with _ | ⟨nameLenByte, t⟩
    · rw [parseHeaders]
      rfl
    · rw [parseHeaders, if_neg (by simp)]
      unfold parseFrameHeaders.go
      have hstep := headerAt_eq (nameLenByte :: t)
      dsimp only at hstep ⊢
      split
      · rename_i hnone
        rw [hnone] at hstep
        cases hstep
      · rename_i hstop
        rw [hstop] at hstep
        split
        · rfl
        · rename_i valueType hvt
          rw [hvt] at hstep
          split
          · rfl
          · rename_i hv
            dsimp only at hstep
            rw [hv] at hstep
            cases hstep
      · rename_i name value rest hnext
        have hshort := headerAt_shorter hnext
        rw [hnext] at hstep
        split
        · rename_i hvt
          rw [hvt] at hstep
          cases hstep
        · rename_i valueType hvt
          rw [hvt] at hstep
          split
          · rename_i hv
            dsimp only at hstep
            rw [hv] at hstep
            cases hstep
          · rename_i hv
            dsimp only at hstep
            rw [hv] at hstep
            cases hstep
            exact ih (by omega) _

/-! ## The drain -/

/-- What one turn of the drain sees at its position. -/
inductive FrameStep where
  | wait
  | malformed
  | frame (eventType : String) (payload verbatim : Bytes) (totalLen : Nat)

/-- `event_type_for_frame`. -/
def eventTypeOf (headers : Bytes) : Option String := do
  let parsed ← parseHeaders headers ⟨none, none, none⟩
  let event := parsed.eventType.getD ""
  if parsed.messageType = some msgTypeException then
    match parsed.exceptionType with
    | some exc => return lowercaseFirst (bareException exc)
    | none => return event
  else return event

/-- One turn of the drain. -/
def nextFrame (rem : Bytes) : Option FrameStep :=
  if rem.length < preludeLen then some .wait
  else do
    let totalLen ← u32At rem 0
    let headersLen ← u32At rem 4
    if totalLen < minFrameBytes ∨ maxFrameBytes < totalLen then return .malformed
    else
      let room ← checkedSub totalLen minFrameBytes
      if room < headersLen then return .malformed
      else if rem.length < totalLen then return .wait
      else
        let headers ← slice rem preludeLen (preludeLen + headersLen)
        let eventType ← eventTypeOf headers
        let payloadEnd ← checkedSub totalLen crcBytes
        let payload ← slice rem (preludeLen + headersLen) payloadEnd
        let verbatim ← slice rem 0 totalLen
        return .frame eventType payload verbatim totalLen

theorem eventTypeOf_eq (headers : Bytes) : eventTypeOf headers = some (eventTypeForFrame headers) := by
  unfold eventTypeOf eventTypeForFrame
  rw [parseHeaders_total (Nat.le_refl _)]
  show _ = some (
    if (parseFrameHeaders headers).messageType = some msgTypeException then
      match (parseFrameHeaders headers).exceptionType with
      | some exc => lowercaseFirst (bareException exc)
      | none => (parseFrameHeaders headers).eventType.getD ""
    else (parseFrameHeaders headers).eventType.getD "")
  dsimp only [Option.bind_eq_bind, Option.bind_some]
  show (if (parseFrameHeaders headers).messageType = some msgTypeException then _ else _) = _
  split
  · unfold parseFrameHeaders
    split <;> rfl
  · rfl

/-- The slices of a complete frame, cut out of the buffer and out of the frame. -/
theorem frame_slices {rem f r : Bytes} (h : eventFront rem = .frame f r) :
    f.length = totalLen rem ∧ headersLen f = headersLen rem ∧
      slice rem preludeLen (preludeLen + headersLen rem) = some ((f.drop preludeLen).take (headersLen rem)) ∧
      slice rem (preludeLen + headersLen rem) (totalLen rem - crcBytes) =
        some ((f.take (totalLen rem - crcBytes)).drop (preludeLen + headersLen rem)) ∧
      slice rem 0 (totalLen rem) = some f := by
  obtain ⟨hpre, hmin, -, hhead, hlen, rfl, -⟩ := eventFront_frame.1 h
  have hmin' : minFrameBytes = 16 := rfl
  have hp : preludeLen = 12 := rfl
  have hc : crcBytes = 4 := rfl
  have hflen : (rem.take (totalLen rem)).length = totalLen rem := by
    rw [List.length_take]
    omega
  have hown := (lens_append (b := rem.take (totalLen rem)) (rem.drop (totalLen rem)) (by omega)).2
  rw [List.take_append_drop] at hown
  refine ⟨hflen, hown.symm, ?_, ?_, ?_⟩
  · rw [slice_of_le (by omega) (by omega), List.drop_take, List.drop_take, List.take_take, Nat.add_sub_cancel_left,
      Nat.min_eq_left (by omega)]
  · rw [slice_of_le (by omega) (by omega), List.take_take, Nat.min_eq_left (by omega)]
  · rw [slice_of_le (by omega) hlen, List.drop_zero]

/-- **No turn of the drain can fail**: it sees what stands at the front of its bytes. -/
theorem nextFrame_eq (rem : Bytes) : nextFrame rem = some (
    match eventFront rem with
    | .frame f _ => .frame (decodeFrame f).1 (decodeFrame f).2 f f.length
    | .malformed => .malformed
    | .more => .wait) := by
  have hmin : minFrameBytes = 16 := rfl
  have hp : preludeLen = 12 := rfl
  have hc : crcBytes = 4 := rfl
  unfold nextFrame
  by_cases hpre : rem.length < preludeLen
  · have hmore : eventFront rem = .more := by
      unfold eventFront
      rw [if_pos hpre]
    rw [if_pos hpre, hmore]
  · have htotal : u32At rem 0 = some (totalLen rem) := by
      rw [u32At_of_le (by omega), List.drop_zero]
      rfl
    have hheaders : u32At rem 4 = some (headersLen rem) := u32At_of_le (by omega)
    rw [if_neg hpre, htotal, hheaders]
    dsimp only [Option.bind_eq_bind, Option.bind_some]
    by_cases hrange : totalLen rem < minFrameBytes ∨ maxFrameBytes < totalLen rem
    · rw [if_pos hrange, eventFront_malformed.2 ⟨by omega, by omega⟩]
      rfl
    · have hsub : checkedSub (totalLen rem) minFrameBytes = some (totalLen rem - minFrameBytes) :=
        if_pos (by omega)
      rw [if_neg hrange, hsub]
      dsimp only [Option.bind_some]
      by_cases hroom : totalLen rem - minFrameBytes < headersLen rem
      · rw [if_pos hroom, eventFront_malformed.2 ⟨by omega, by omega⟩]
        rfl
      · rw [if_neg hroom]
        by_cases hlen : rem.length < totalLen rem
        · have hmore : eventFront rem = .more := by
            unfold eventFront
            rw [if_neg hpre, if_neg (by omega), if_pos hlen]
          rw [if_pos hlen, hmore]
          rfl
        · have hframe : eventFront rem = .frame (rem.take (totalLen rem)) (rem.drop (totalLen rem)) :=
            eventFront_frame.2 ⟨by omega, by omega, by omega, by omega, by omega, rfl, rfl⟩
          obtain ⟨hflen, hown, hblock, hpayload, hverbatim⟩ := frame_slices hframe
          have hcrc : checkedSub (totalLen rem) crcBytes = some (totalLen rem - crcBytes) := if_pos (by omega)
          rw [if_neg hlen, hframe, hblock]
          dsimp only [Option.bind_some]
          rw [eventTypeOf_eq, hcrc]
          dsimp only [Option.bind_some]
          rw [hpayload, hverbatim]
          unfold decodeFrame
          rw [hown, hflen]
          rfl

theorem nextFrame_frame {rem payload verbatim : Bytes} {eventType : String} {totalLen : Nat}
    (h : nextFrame rem = some (.frame eventType payload verbatim totalLen)) :
    ∃ r, eventFront rem = .frame verbatim r ∧ totalLen = verbatim.length ∧
      decodeFrame verbatim = (eventType, payload) := by
  rw [nextFrame_eq] at h
  split at h
  · rename_i f r hf
    cases h
    exact ⟨r, hf, rfl, rfl⟩
  · cases h
  · cases h

theorem slice_rest {buf rem : Bytes} {pos : Nat} (h : slice buf pos buf.length = some rem) :
    rem = buf.drop pos ∧ pos ≤ buf.length := by
  unfold slice at h
  split at h
  · rename_i hle
    cases h
    rw [List.take_length]
    exact ⟨rfl, hle.1⟩
  · cases h

/-- The drain from `pos` on, with what it has gathered so far. -/
def drainLoop (buf : Bytes) (pos : Nat) (out : List (String × Bytes)) (sink : Bytes) :
    Option (List (String × Bytes) × DrainStatus × Bytes × Nat) :=
  match _hr : slice buf pos buf.length with
  | none => none
  | some rem =>
    match _hf : nextFrame rem with
    | none => none
    | some .wait => some (out, .ok, sink, pos)
    | some .malformed => some (out, .malformedPrelude, sink, pos)
    | some (.frame eventType payload verbatim totalLen) =>
      drainLoop buf (pos + totalLen) (out ++ [(eventType, payload)]) (sink ++ verbatim)
termination_by buf.length - pos
decreasing_by
  obtain ⟨rfl, hpos⟩ := slice_rest _hr
  obtain ⟨r, hfront, rfl, -⟩ := nextFrame_frame _hf
  obtain ⟨hsplit, hne⟩ := eventFramer.split hfront
  have hlen := congrArg List.length hsplit
  have hpos' := List.length_pos_iff.2 hne
  rw [List.length_drop, List.length_append] at hlen
  omega

/-- `drain_frames_checked`: what it returns, with the buffer it leaves and the bytes it has pushed to the sink. -/
def drainPass (buf : Bytes) : Option (List (String × Bytes) × DrainStatus × Nat × Bytes × Bytes) := do
  let (out, status, sink, pos) ← drainLoop buf 0 [] []
  match status with
  | .ok =>
    let rest ← slice buf pos buf.length
    return (out, status, pos, rest, sink)
  | .malformedPrelude => return (out, status, pos, [], sink)

theorem nextFrame_stops {rem : Bytes} :
    (nextFrame rem = some .wait → eventFront rem = .more) ∧
      (nextFrame rem = some .malformed → eventFront rem = .malformed) := by
  rw [nextFrame_eq]
  rcases eventFront rem with ⟨f, r⟩ | _ | _
  · exact ⟨nofun, nofun⟩
  · exact ⟨nofun, fun _ => rfl⟩
  · exact ⟨fun _ => rfl, nofun⟩

/-- The drain from `pos` on is that of the bytes from `pos` on. -/
theorem drainLoop_eq {buf : Bytes} {pos : Nat} (hpos : pos ≤ buf.length) (out : List (String × Bytes)) (sink : Bytes) :
    drainLoop buf pos out sink = some (out ++ (drainFramesChecked (buf.drop pos)).1,
      (drainFramesChecked (buf.drop pos)).2.1, sink ++ (drainFramesChecked (buf.drop pos)).2.2.2,
      pos + (drainFramesChecked (buf.drop pos)).2.2.2.length) := by
  have hslice : slice buf pos buf.length = some (buf.drop pos) := by
    rw [slice_of_le hpos (Nat.le_refl _), List.take_length]
  rw [drainFramesChecked_eq]
  fun_induction drainLoop buf pos out sink with
  | case1 pos out sink hr =>
    rw [hr] at hslice
    cases hslice
  | case2 pos out sink rem hr hf =>
    rw [nextFrame_eq] at hf
    cases hf
  | case3 pos out sink rem hr hf =>
    obtain ⟨rfl, -⟩ := slice_rest hr
    rw [Framer.drain_more (F := eventFramer) (nextFrame_stops.1 hf), List.map_nil, List.append_nil, List.flatten_nil,
      List.append_nil]
    rfl
  | case4 pos out sink rem hr hf =>
    obtain ⟨rfl, -⟩ := slice_rest hr
    rw [Framer.drain_malformed (F := eventFramer) (nextFrame_stops.2 hf), List.map_nil, List.append_nil,
      List.flatten_nil, List.append_nil]
    rfl
  | case5 pos out sink rem hr eventType payload verbatim totalLen hf ih =>
    obtain ⟨rfl, -⟩ := slice_rest hr
    obtain ⟨r, hfront, rfl, hdecode⟩ := nextFrame_frame hf
    have hsplit := (eventFramer.split hfront).1
    have hlen := congrArg List.length hsplit
    rw [List.length_drop, List.length_append] at hlen
    have hnext : pos + verbatim.length ≤ buf.length := by omega
    have hrest : buf.drop (pos + verbatim.length) = r := by
      rw [← List.drop_drop, hsplit, List.drop_left]
    have hih := ih hnext (by rw [slice_of_le hnext (Nat.le_refl _), List.take_length])
    rw [hrest] at hih
    rw [hih, Framer.drain_frame (F := eventFramer) hfront]
    dsimp only
    rw [List.map_cons, hdecode, List.flatten_cons, List.append_assoc, List.append_assoc, List.length_append,
      Nat.add_assoc, List.singleton_append]

/-- **The drain stays inside its buffer**, whatever the bytes, and is the one of the framer. -/
theorem drainPass_eq (buf : Bytes) : drainPass buf = some (
    ((drainFramesChecked buf).1, (drainFramesChecked buf).2.1, (drainFramesChecked buf).2.2.2.length,
      (drainFramesChecked buf).2.2.1, (drainFramesChecked buf).2.2.2)) := by
  unfold drainPass
  rw [drainLoop_eq (Nat.zero_le _), List.drop_zero, List.nil_append, List.nil_append, Nat.zero_add]
  dsimp only [Option.bind_eq_bind, Option.bind_some]
  rw [drainFramesChecked_eq]
  dsimp only
  rcases hrest : (eventFramer.drain buf).2 with _ | rest
  · rfl
  · have hflat := Framer.drain_flatten hrest
    have hlen := congrArg List.length hflat
    rw [List.length_append] at hlen
    have hdrop : buf.drop (eventFramer.drain buf).1.flatten.length = rest :=
      calc buf.drop (eventFramer.drain buf).1.flatten.length
          = ((eventFramer.drain buf).1.flatten ++ rest).drop (eventFramer.drain buf).1.flatten.length := by rw [hflat]
        _ = rest := List.drop_left
    rw [Option.isSome_some, if_pos rfl]
    dsimp only
    rw [slice_of_le (by omega) (Nat.le_refl _), List.take_length, hdrop]
    rfl

end Busbar
