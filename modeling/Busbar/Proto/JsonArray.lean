import Busbar.Lib.JsonText
import Busbar.Proto.Chunking

/-!
# A Gemini stream as one JSON array

A client that did not ask for `alt=sse` gets the stream as the elements of one JSON array: the framer cuts the frames out
of its input, takes the payload out of each and writes it behind a bracket or a comma; whoever ends the stream closes the
array.

* `GeminiJsonArrayFramer.feedAll_eq`: the chunks taken in, as frames.
* `GeminiJsonArrayFramer.one_array`: whatever the input and however it ends, what went out is one array.
-/

namespace Busbar

open JsonText (arrayText Text)

def grpcInternal : String := "INTERNAL"

def internalErrorMessage : String := "Internal error encountered."

structure GeminiJsonArrayFramer where
  buf : Bytes
  scanned : Nat
  started : Bool
  finished : Bool
  aborted : Bool

namespace GeminiJsonArrayFramer

def maxBuf : Nat := maxFrameBytes

def new : GeminiJsonArrayFramer where
  buf := []
  scanned := 0
  started := false
  finished := false
  aborted := false

variable (lib : JsonLib)

/-- What a frame adds to the array: nothing without data, at the terminator of another protocol, or if the data is no
JSON. -/
def element (frame : Bytes) : Option Json := do
  let (_, dataStr) ← parseSseFrame frame
  if dataStr = "" ∨ dataStr = sseDoneSentinel then none else lib.parseStr dataStr

/-- What stands before an element: the array's bracket or a comma. -/
def lead (started : Bool) : Bytes := if started then [0x2C] else [0x5B]

/-- The loop over the frames of the buffer. -/
def drain (buf : Bytes) (scanned consumed : Nat) (started : Bool) (out : Bytes) : Nat × Bool × Bytes :=
  let searchFrom := min (max (scanned - 3) consumed) buf.length
  match _h : findFrameTerminator (buf.drop searchFrom) with
  | some (rel, termLen) =>
    let stop := searchFrom + rel + termLen
    match element lib (Translator.slice buf consumed stop) with
    | none => drain buf stop stop started out
    | some data => drain buf stop stop true (out ++ lead started ++ lib.toVec data)
  | none => (consumed, started, out)
termination_by buf.length - consumed
decreasing_by all_goals have := Translator.consumed_lt _h; omega

/-- Take in a chunk. -/
def feed (fr : GeminiJsonArrayFramer) (chunk : Bytes) : GeminiJsonArrayFramer × Bytes :=
  if fr.aborted ∨ fr.finished then (fr, [])
  else
    let buf := fr.buf ++ chunk
    let (consumed, started, out) := drain lib buf fr.scanned 0 fr.started []
    let fr := { fr with started := started, buf := buf.drop consumed, scanned := (buf.drop consumed).length }
    let fr := if fr.buf.length > maxBuf then { fr with aborted := true, buf := [], scanned := 0 } else fr
    (fr, out)

def errorElement (code : Nat) (status message : String) : Json :=
  .object [("error", .object [("code", .number (.posInt code)), ("message", .string message),
    ("status", .string status)])]

def finishWithError (fr : GeminiJsonArrayFramer) (code : Nat) (status message : String) :
    GeminiJsonArrayFramer × Bytes :=
  if fr.finished then (fr, [])
  else
    ({ fr with finished := true, started := true },
      lead fr.started ++ lib.toVec (errorElement code status message) ++ [0x5D])

def finish (fr : GeminiJsonArrayFramer) : GeminiJsonArrayFramer × Bytes :=
  if fr.finished then (fr, [])
  else if fr.aborted then fr.finishWithError lib 500 grpcInternal internalErrorMessage
  else ({ fr with finished := true }, if fr.started then [0x5D] else [0x5B, 0x5D])

def finishForTranslate (fr : GeminiJsonArrayFramer) (translateAborted : Bool) : GeminiJsonArrayFramer × Bytes :=
  if fr.finished then (fr, [])
  else if translateAborted ∨ fr.aborted then fr.finishWithError lib 500 grpcInternal internalErrorMessage
  else fr.finish lib

def finishWithServerError (fr : GeminiJsonArrayFramer) (message : String) : GeminiJsonArrayFramer × Bytes :=
  fr.finishWithError lib 500 grpcInternal message

/-- How the stream ends. -/
inductive Ending where
  | finish
  | finishForTranslate (translateAborted : Bool)
  | finishWithError (code : Nat) (status message : String)

/-- What can be asked of the framer. -/
inductive Call where
  | feed (chunk : Bytes)
  | close (ending : Ending)

def close (fr : GeminiJsonArrayFramer) : Ending → GeminiJsonArrayFramer × Bytes
  | .finish => fr.finish lib
  | .finishForTranslate translateAborted => fr.finishForTranslate lib translateAborted
  | .finishWithError code status message => fr.finishWithError lib code status message

def call (fr : GeminiJsonArrayFramer) : Call → GeminiJsonArrayFramer × Bytes
  | .feed chunk => fr.feed lib chunk
  | .close ending => fr.close lib ending

/-- One call after the other. -/
def run (fr : GeminiJsonArrayFramer) : List Call → GeminiJsonArrayFramer × Bytes
  | [] => (fr, [])
  | c :: cs =>
    let (fr, out) := fr.call lib c
    let (fr, outs) := run fr cs
    (fr, out ++ outs)

/-! ## The frames taken in -/

def onFrame (started : Bool) (frame : Bytes) : Bool × Bytes :=
  match element lib frame with
  | none => (started, [])
  | some data => (true, lead started ++ lib.toVec data)

theorem drain_none {buf : Bytes} {scanned consumed : Nat} {started : Bool} {out : Bytes}
    (h : findFrameTerminator (buf.drop (min (max (scanned - 3) consumed) buf.length)) = none) :
    drain lib buf scanned consumed started out = (consumed, started, out) := by
  rw [drain]
  split
  · rename_i h'
    cases h.symm.trans h'
  · rfl

theorem drain_some {buf : Bytes} {scanned consumed rel termLen stop : Nat} {started : Bool} {out : Bytes}
    (h : findFrameTerminator (buf.drop (min (max (scanned - 3) consumed) buf.length)) = some (rel, termLen))
    (hstop : stop = min (max (scanned - 3) consumed) buf.length + rel + termLen) :
    drain lib buf scanned consumed started out =
      drain lib buf stop stop (onFrame lib started (Translator.slice buf consumed stop)).1
        (out ++ (onFrame lib started (Translator.slice buf consumed stop)).2) := by
  rw [drain]
  split
  swap
  · rename_i h'
    cases h.symm.trans h'
  rename_i rel' termLen' h'
  cases h.symm.trans h'
  simp only [← hstop, onFrame]
  cases element lib (Translator.slice buf consumed stop) with
  | none => simp
  | some data => simp

/-- The loop with its cursors handles the frames of the buffer. -/
theorem drain_eq {buf : Bytes} {scanned consumed : Nat} (started : Bool) (out : Bytes) (hcon : consumed ≤ scanned)
    (hscan : scanned ≤ buf.length)
    (hclean : findFrameTerminator ((buf.drop consumed).take (scanned - consumed)) = none) :
    let r := drain lib buf scanned consumed started out
    let d := sseFramer.drain (buf.drop consumed)
    let c := Framer.consume (onFrame lib) started d.1
    d.2 = some (buf.drop r.1) ∧ r.2.1 = c.1 ∧ r.2.2 = out ++ c.2 := by
  induction hn : buf.length - consumed using Nat.strongRecOn generalizing scanned consumed started out with
  | _ n ih =>
    have hfront := Translator.front_at_cursor hcon hscan hclean
    dsimp only at hfront
    cases hf : findFrameTerminator (buf.drop (min (max (scanned - 3) consumed) buf.length)) with
    | none =>
      rw [hf] at hfront
      rw [drain_none lib hf, Framer.drain_more hfront]
      simp [Framer.consume]
    | some t =>
      obtain ⟨rel, termLen⟩ := t
      rw [hf] at hfront
      obtain ⟨hlt, hle⟩ := Translator.consumed_lt hf
      rw [drain_some lib hf rfl, Framer.drain_frame hfront]
      set stop := min (max (scanned - 3) consumed) buf.length + rel + termLen
      have hnil : findFrameTerminator ((buf.drop stop).take (stop - stop)) = none := by
        rw [Nat.sub_self, List.take_zero]
        rfl
      obtain ⟨h₁, h₂, h₃⟩ := ih (buf.length - stop) (by omega)
        (onFrame lib started (Translator.slice buf consumed stop)).1
        (out ++ (onFrame lib started (Translator.slice buf consumed stop)).2) le_rfl hle hnil rfl
      refine ⟨h₁, h₂, ?_⟩
      rw [h₃, List.append_assoc]
      rfl

/-- The frames of the input never run into something malformed. -/
theorem drain_snd (b : Bytes) : ∃ rest, (sseFramer.drain b).2 = some rest ∧ findFrameTerminator rest = none := by
  obtain ⟨tail, -, htail⟩ := Framer.drain_tail (F := sseFramer) b
  rcases htail with ⟨h, hmore⟩ | ⟨-, hbad⟩
  · exact ⟨tail, h, sseFramer_more.1 hmore⟩
  · cases hf : findFrameTerminator tail with
    | none =>
      rw [sseFramer_more.2 hf] at hbad
      cases hbad
    | some t =>
      obtain ⟨p, n⟩ := t
      rw [sseFramer_frame hf] at hbad
      cases hbad

/-- What is left of the input behind its last complete frame. -/
def unfinished (input : Bytes) : Bytes := (sseFramer.drain input).2.getD []

theorem drain_rest (b : Bytes) :
    (sseFramer.drain b).2 = some (unfinished b) ∧ findFrameTerminator (unfinished b) = none := by
  obtain ⟨rest, hrest, hnone⟩ := drain_snd b
  have hu : unfinished b = rest := by
    unfold unfinished
    rw [hrest]
    rfl
  rw [hu]
  exact ⟨hrest, hnone⟩

/-- The texts of the elements that the complete frames of the input add to the array. -/
def elements (input : Bytes) : List Bytes := ((sseFramer.drain input).1.filterMap (element lib)).map lib.toVec

theorem drain_more_input (b c : Bytes) :
    unfinished (b ++ c) = unfinished (unfinished b ++ c) ∧
      elements lib (b ++ c) = elements lib b ++ elements lib (unfinished b ++ c) := by
  have happ := Framer.drain_append (F := sseFramer) b c
  have hrest := (drain_rest b).1
  rw [show sseFramer.drain b = ((sseFramer.drain b).1, some (unfinished b)) from Prod.ext rfl hrest] at happ
  constructor
  · unfold unfinished
    rw [happ]
    rfl
  · unfold elements
    rw [happ]
    simp

theorem unfinished_length_le (b : Bytes) : (unfinished b).length ≤ b.length :=
  Framer.drain_rest_length (drain_rest b).1

/-- Elements as they go out, each behind its bracket or comma. -/
def joined : Bool → List Bytes → Bytes
  | _, [] => []
  | started, v :: vs => lead started ++ v ++ joined true vs

theorem joined_append (started : Bool) (us vs : List Bytes) :
    joined started (us ++ vs) = joined started us ++ joined (started || !us.isEmpty) vs := by
  induction us generalizing started with
  | nil => simp [joined]
  | cons u us ih => simp [joined, ih]

theorem joined_true (v : Bytes) (vs : List Bytes) :
    v ++ joined true vs = [0x2C].intercalate (v :: vs) := by
  induction vs generalizing v with
  | nil => simp [joined, List.intercalate]
  | cons u us ih =>
    have h := ih u
    simp only [joined, lead, if_true, List.append_assoc]
    rw [h]
    simp [List.intercalate]

/-- A bracket behind the elements closes the array. -/
theorem joined_close {vs : List Bytes} (hne : vs ≠ []) : joined false vs ++ [0x5D] = arrayText vs := by
  cases vs with
  | nil => exact absurd rfl hne
  | cons v vs =>
    unfold joined arrayText
    rw [← joined_true, lead, if_neg Bool.false_ne_true]
    simp

theorem consume_onFrame (started : Bool) (fs : List Bytes) :
    let vs := (fs.filterMap (element lib)).map lib.toVec
    Framer.consume (onFrame lib) started fs = (started || !vs.isEmpty, joined started vs) := by
  induction fs generalizing started with
  | nil => simp [Framer.consume, joined]
  | cons f fs ih =>
    simp only [Framer.consume, ih, onFrame]
    cases hf : element lib f with
    | none => simp [hf]
    | some data => simp [hf, joined]

/-! ## A run -/

variable {lib} in
theorem run_append (fr : GeminiJsonArrayFramer) (cs ds : List Call) :
    fr.run lib (cs ++ ds) = (((fr.run lib cs).1.run lib ds).1, (fr.run lib cs).2 ++ ((fr.run lib cs).1.run lib ds).2) := by
  induction cs generalizing fr with
  | nil => simp [run]
  | cons c cs ih => simp [run, ih]

/-- Once the array is closed nothing goes out any more. -/
theorem call_finished {fr : GeminiJsonArrayFramer} (h : fr.finished = true) (c : Call) : fr.call lib c = (fr, []) := by
  cases c with
  | feed chunk => simp [call, feed, h]
  | close ending =>
    cases ending with
    | finish => simp [call, close, finish, h]
    | finishForTranslate translateAborted => simp [call, close, finishForTranslate, h]
    | finishWithError code status message => simp [call, close, finishWithError, h]

theorem run_finished {fr : GeminiJsonArrayFramer} (h : fr.finished = true) (cs : List Call) :
    fr.run lib cs = (fr, []) := by
  induction cs with
  | nil => rfl
  | cons c cs ih => simp [run, call_finished lib h, ih]

/-- The framer behind some input it has kept up with. -/
def behind (input : Bytes) : GeminiJsonArrayFramer where
  buf := unfinished input
  scanned := (unfinished input).length
  started := !(elements lib input).isEmpty
  finished := false
  aborted := false

/-- The framer that gave up on some input. -/
def abandoned (input : Bytes) : GeminiJsonArrayFramer where
  buf := []
  scanned := 0
  started := !(elements lib input).isEmpty
  finished := false
  aborted := true

theorem behind_nil : behind lib [] = new := by
  have hmore : sseFramer.drain [] = ([], some []) := Framer.drain_more sseFramer.front_nil
  unfold behind unfinished elements
  rw [hmore]
  rfl

/-- **A chunk more**: what its frames add goes out, and a rest that is too long ends the reading. -/
theorem feed_behind (input chunk : Bytes) :
    ∃ out, joined false (elements lib (input ++ chunk)) = joined false (elements lib input) ++ out ∧
      (behind lib input).feed lib chunk =
        (if maxBuf < (unfinished (input ++ chunk)).length then abandoned lib (input ++ chunk)
          else behind lib (input ++ chunk), out) := by
  obtain ⟨hrest, helems⟩ := drain_more_input lib input chunk
  set buf := unfinished input ++ chunk with hbuf
  set started := !(elements lib input).isEmpty with hstarted
  have hclean : findFrameTerminator ((buf.drop 0).take ((unfinished input).length - 0)) = none := by
    rw [List.drop_zero, Nat.sub_zero, hbuf, List.take_left]
    exact (drain_rest input).2
  have hlen : (unfinished input).length ≤ buf.length := by
    rw [hbuf, List.length_append]
    omega
  obtain ⟨h₁, h₂, h₃⟩ := drain_eq lib started [] (Nat.zero_le _) hlen hclean
  rw [List.drop_zero] at h₁ h₂ h₃
  rw [consume_onFrame] at h₂ h₃
  rcases hd : drain lib buf (unfinished input).length 0 started [] with ⟨consumed, started', out⟩
  rw [hd] at h₁ h₂ h₃
  have hdrop : buf.drop consumed = unfinished (input ++ chunk) := by
    rw [hrest]
    exact Option.some.inj (h₁.symm.trans (drain_rest buf).1)
  have hout : out = joined started (elements lib buf) := h₃
  have hstarted' : started' = !(elements lib (input ++ chunk)).isEmpty := by
    have h : started' = (started || !(elements lib buf).isEmpty) := h₂
    rw [h, helems, hstarted]
    cases elements lib input <;> simp
  refine ⟨out, ?_, ?_⟩
  · rw [helems, joined_append, hout, Bool.false_or]
  · unfold feed
    rw [if_neg (by simp [behind])]
    simp only [behind, ← hbuf, ← hstarted, hd, hdrop, hstarted', gt_iff_lt]
    split <;> rfl

/-- No prefix of the chunks leaves more than the buffer may hold. -/
def Fits (chunks : List Bytes) : Prop :=
  ∀ ds, ds <+: chunks → (unfinished ds.flatten).length ≤ maxBuf

theorem fits_of_length {chunks : List Bytes} (h : chunks.flatten.length ≤ maxBuf) : Fits chunks := by
  rintro ds ⟨es, rfl⟩
  have hle := unfinished_length_le ds.flatten
  rw [List.flatten_append, List.length_append] at h
  omega

theorem fits_snoc {ds : List Bytes} {c : Bytes} :
    Fits (ds ++ [c]) ↔ Fits ds ∧ (unfinished (ds ++ [c]).flatten).length ≤ maxBuf := by
  constructor
  · intro h
    exact ⟨fun es hes => h es (hes.trans (List.prefix_append ds [c])), h _ List.prefix_rfl⟩
  · rintro ⟨hfits, hlast⟩ es hes
    rcases List.prefix_concat_iff.1 hes with rfl | hes
    · exact hlast
    · exact hfits es hes

/-- Chunks that do not fit have a first one that is too much. -/
theorem fits_or_overflows (cs : List Bytes) : Fits cs ∨ ∃ ds c es, cs = ds ++ c :: es ∧ Fits ds ∧
    maxBuf < (unfinished (ds ++ [c]).flatten).length := by
  induction cs using List.reverseRecOn with
  | nil => exact Or.inl (fits_of_length (Nat.zero_le _))
  | append_singleton cs c ih =>
    rcases ih with hfits | ⟨ds, d, es, rfl, hds, hlong⟩
    · by_cases hlast : (unfinished (cs ++ [c]).flatten).length ≤ maxBuf
      · exact Or.inl (fits_snoc.2 ⟨hfits, hlast⟩)
      · exact Or.inr ⟨cs, c, [], rfl, hfits, by omega⟩
    · exact Or.inr ⟨ds, d, es ++ [c], by simp, hds, hlong⟩

/-- **The chunks taken in, as frames.** -/
theorem feedAll_eq {cs : List Bytes} (h : Fits cs) :
    new.run lib (cs.map .feed) = (behind lib cs.flatten, joined false (elements lib cs.flatten)) := by
  induction cs using List.reverseRecOn with
  | nil =>
    have hmore : sseFramer.drain [] = ([], some []) := Framer.drain_more sseFramer.front_nil
    have hnil : elements lib [] = [] := by
      unfold elements
      rw [hmore]
      rfl
    rw [List.flatten_nil, behind_nil, hnil]
    rfl
  | append_singleton cs c ih =>
    obtain ⟨hfits, hlast⟩ := fits_snoc.1 h
    rw [List.flatten_append, List.flatten_singleton] at hlast ⊢
    obtain ⟨out, hout, hfeed⟩ := feed_behind lib cs.flatten c
    rw [if_neg (by omega)] at hfeed
    rw [List.map_append, run_append, ih hfits]
    simp [run, call, hfeed, hout]

theorem run_abandoned (input : Bytes) (cs : List Bytes) :
    (abandoned lib input).run lib (cs.map .feed) = (abandoned lib input, []) := by
  induction cs with
  | nil => rfl
  | cons c cs ih =>
    have hfeed : (abandoned lib input).feed lib c = (abandoned lib input, []) := by simp [feed, abandoned]
    simp only [List.map_cons, run, call, hfeed, ih, List.append_nil]

/-- From the chunk that is too much on, nothing is read any more. -/
theorem feedAll_overflow {ds es : List Bytes} {c : Bytes} (h : Fits ds)
    (hlong : maxBuf < (unfinished (ds ++ [c]).flatten).length) :
    new.run lib ((ds ++ c :: es).map .feed) =
      (abandoned lib (ds ++ [c]).flatten, joined false (elements lib (ds ++ [c]).flatten)) := by
  rw [List.flatten_append, List.flatten_singleton] at hlong ⊢
  obtain ⟨out, hout, hfeed⟩ := feed_behind lib ds.flatten c
  rw [if_pos hlong] at hfeed
  rw [List.map_append, run_append, feedAll_eq lib h, List.map_cons]
  simp only [run, call, hfeed, run_abandoned, hout, List.append_nil]

/-! ## The end of a run -/

/-- The element that an ending adds. -/
def Ending.error (aborted : Bool) : Ending → Option Json
  | .finish => if aborted then some (errorElement 500 grpcInternal internalErrorMessage) else none
  | .finishForTranslate translateAborted =>
    if translateAborted ∨ aborted then some (errorElement 500 grpcInternal internalErrorMessage) else none
  | .finishWithError code status message => some (errorElement code status message)

def Ending.errors (aborted : Bool) (e : Ending) : List Bytes := (e.error aborted).toList.map lib.toVec

/-- Closing the array behind what has gone out. -/
theorem finishWithError_out {fr : GeminiJsonArrayFramer} (hf : fr.finished = false) {vs : List Bytes}
    (hs : fr.started = !vs.isEmpty) (code : Nat) (status message : String) :
    joined false vs ++ (fr.finishWithError lib code status message).2 =
      arrayText (vs ++ [lib.toVec (errorElement code status message)]) := by
  rw [← joined_close (by simp), joined_append, Bool.false_or, ← hs]
  simp [finishWithError, hf, joined]

theorem finish_out {fr : GeminiJsonArrayFramer} (hf : fr.finished = false) (ha : fr.aborted = false) {vs : List Bytes}
    (hs : fr.started = !vs.isEmpty) : joined false vs ++ (fr.finish lib).2 = arrayText vs := by
  unfold finish
  rw [hf, ha, hs]
  cases vs with
  | nil => rfl
  | cons v vs =>
    rw [← joined_close (List.cons_ne_nil v vs)]
    rfl

theorem close_out {fr : GeminiJsonArrayFramer} (hf : fr.finished = false) {vs : List Bytes}
    (hs : fr.started = !vs.isEmpty) (e : Ending) :
    joined false vs ++ (fr.close lib e).2 = arrayText (vs ++ e.errors lib fr.aborted) ∧
      (fr.close lib e).1.finished = true := by
  cases e with
  | finish =>
    cases ha : fr.aborted with
    | true =>
      have h : fr.close lib .finish = fr.finishWithError lib 500 grpcInternal internalErrorMessage := by
        simp [close, finish, hf, ha]
      rw [h]
      exact ⟨finishWithError_out lib hf hs _ _ _, by simp [finishWithError, hf]⟩
    | false =>
      have h : vs ++ Ending.errors lib false .finish = vs := by simp [Ending.errors, Ending.error]
      rw [h]
      exact ⟨finish_out lib hf ha hs, by simp [close, finish, hf, ha]⟩
  | finishForTranslate translateAborted =>
    by_cases hab : translateAborted = true ∨ fr.aborted = true
    · have h : fr.close lib (.finishForTranslate translateAborted) =
          fr.finishWithError lib 500 grpcInternal internalErrorMessage := by
        simp [close, finishForTranslate, hf, hab]
      rw [h, Ending.errors, Ending.error, if_pos hab]
      exact ⟨finishWithError_out lib hf hs _ _ _, by simp [finishWithError, hf]⟩
    · have ha : fr.aborted = false := by simpa using fun h => hab (Or.inr h)
      have h : fr.close lib (.finishForTranslate translateAborted) = fr.finish lib := by
        simp [close, finishForTranslate, hf, hab]
      rw [h, Ending.errors, Ending.error, if_neg hab, Option.toList_none, List.map_nil, List.append_nil]
      exact ⟨finish_out lib hf ha hs, by simp [finish, hf, ha]⟩
  | finishWithError code status message =>
    exact ⟨finishWithError_out lib hf hs code status message, by simp [close, finishWithError, hf]⟩

theorem run_close {fr : GeminiJsonArrayFramer} {cs : List Call} {vs : List Bytes}
    (hrun : new.run lib cs = (fr, joined false vs)) (hf : fr.finished = false) (hs : fr.started = !vs.isEmpty)
    (e : Ending) (later : List Call) :
    (new.run lib (cs ++ .close e :: later)).2 = arrayText (vs ++ e.errors lib fr.aborted) := by
  obtain ⟨hout, hclosed⟩ := close_out lib hf hs e
  rw [run_append, hrun]
  simp only [run, call, run_finished lib hclosed, List.append_nil]
  exact hout

theorem run_fits {cs : List Bytes} (h : Fits cs) (e : Ending) (later : List Call) :
    (new.run lib (cs.map .feed ++ .close e :: later)).2 = arrayText (elements lib cs.flatten ++ e.errors lib false) :=
  run_close lib (feedAll_eq lib h) rfl rfl e later

theorem run_overflows {ds es : List Bytes} {c : Bytes} (h : Fits ds)
    (hlong : maxBuf < (unfinished (ds ++ [c]).flatten).length) (e : Ending) (later : List Call) :
    (new.run lib ((ds ++ c :: es).map .feed ++ .close e :: later)).2 =
      arrayText (elements lib (ds ++ [c]).flatten ++ e.errors lib true) :=
  run_close lib (feedAll_overflow lib h hlong) rfl rfl e later

theorem values_elements (hjson : ∀ j, Text .value (lib.toVec j)) (input : Bytes) (aborted : Bool) (e : Ending) :
    ∀ v ∈ elements lib input ++ e.errors lib aborted, Text .value v := by
  intro v hv
  rcases List.mem_append.1 hv with hv | hv
  · obtain ⟨j, -, rfl⟩ := List.mem_map.1 hv
    exact hjson j
  · obtain ⟨j, -, rfl⟩ := List.mem_map.1 hv
    exact hjson j

/-- **One array**, whatever the input, its chunks, the ending and what is asked for later: its elements are the payloads of
the complete frames, in order, and the error of the ending. The chunks matter only to a frame that outgrows the buffer:
the reading ends there, with an error. -/
theorem one_array (hjson : ∀ j, Text .value (lib.toVec j)) (cs : List Bytes) (e : Ending) (later : List Call) :
    let out := (new.run lib (cs.map .feed ++ .close e :: later)).2
    Text .value out ∧
      (Fits cs → out = arrayText (elements lib cs.flatten ++ e.errors lib false)) ∧
      (∀ ds c es, cs = ds ++ c :: es → Fits ds → maxBuf < (unfinished (ds ++ [c]).flatten).length →
        out = arrayText (elements lib (ds ++ [c]).flatten ++ e.errors lib true)) ∧
      (Fits cs → ∀ cs', Fits cs' → cs'.flatten = cs.flatten →
        (new.run lib (cs'.map .feed ++ .close e :: later)).2 = out) ∧
      (cs.flatten.length ≤ maxBuf → Fits cs) := by
  intro out
  have hover : ∀ ds c es, cs = ds ++ c :: es → Fits ds → maxBuf < (unfinished (ds ++ [c]).flatten).length →
      out = arrayText (elements lib (ds ++ [c]).flatten ++ e.errors lib true) := by
    rintro ds c es rfl hfits hlong
    exact run_overflows lib hfits hlong e later
  refine ⟨?_, fun h => run_fits lib h e later, hover, ?_, fits_of_length⟩
  · rcases fits_or_overflows cs with hfits | ⟨ds, c, es, hcs, hfits, hlong⟩
    · have hout : out = _ := run_fits lib hfits e later
      rw [hout]
      exact JsonText.text_arrayText (values_elements lib hjson _ _ e)
    · rw [hover ds c es hcs hfits hlong]
      exact JsonText.text_arrayText (values_elements lib hjson _ _ e)
  · intro hfits cs' hfits' hcs'
    have hout : out = _ := run_fits lib hfits e later
    rw [run_fits lib hfits' e later, hout, hcs']

section Witness

/-- A library that knows `null` only. -/
def nullLib : JsonLib where
  fromStr s := if s = "null" then some .null else none
  fromSlice _ := none
  toVec _ := utf8 "null"

theorem one_array_null :
    let out := (new.run nullLib [.feed (utf8 "data: null\n\n"), .close .finish]).2
    Text .value out ∧ out = arrayText [utf8 "null"] := by
  have hnull : utf8 "null" ∈ JsonText.literals := by decide +kernel
  have hjson : ∀ j, Text .value (nullLib.toVec j) := fun _ => Text.literal hnull
  obtain ⟨hvalue, hfits, -⟩ := one_array nullLib hjson [utf8 "data: null\n\n"] .finish []
  refine ⟨hvalue, ?_⟩
  refine (hfits (fits_of_length (by decide +kernel))).trans ?_
  decide +kernel

/-- A library that takes nothing for JSON, with the text of the error element. -/
def refusing : JsonLib where
  fromStr _ := none
  fromSlice _ := none
  toVec _ := utf8 "\x7b\"error\":\x7b\"code\":500,\"message\":\"Internal error encountered.\",\"status\":\"INTERNAL\"\x7d\x7d"

/-- A line that outgrows the buffer. -/
def longLine : Bytes := List.replicate (maxBuf + 1) 0x61

theorem getElem?_ne_lf {text : Bytes} (h : lf ∉ text) (i : Nat) : text[i]? ≠ some lf :=
  fun hlf => h (List.mem_of_getElem? hlf)

/-- A line is unfinished until a blank line follows. -/
theorem unfinished_line {line : Bytes} (h : lf ∉ line) :
    unfinished line = line ∧ unfinished (line ++ [lf, lf]) = [] := by
  constructor
  · have hnone : findFrameTerminator line = none := by
      rw [findFrameTerminator_eq_none]
      intro i
      rw [terminatorAt, if_neg (getElem?_ne_lf h i)]
    have hdrain : sseFramer.drain line = ([], some line) := Framer.drain_more (sseFramer_more.2 hnone)
    unfold unfinished
    rw [hdrain]
    rfl
  · have hsome : findFrameTerminator (line ++ [lf, lf]) = some (line.length, 2) := by
      refine findFrameTerminator_eq_some.2 ⟨line.length, terminatorAt_eq_some.2 ⟨?_, Or.inl ⟨?_, rfl, rfl⟩⟩, ?_⟩
      · simp
      · simp
      · intro j hj
        rw [terminatorAt, List.getElem?_append_left hj, if_neg (getElem?_ne_lf h j)]
    have hdrop : (line ++ [lf, lf]).drop (line.length + 2) = [] := List.drop_eq_nil_of_le (by simp)
    have hfront := sseFramer_frame hsome
    rw [hdrop] at hfront
    have hdrain := Framer.drain_frame hfront
    rw [Framer.drain_more sseFramer.front_nil] at hdrain
    unfold unfinished
    rw [hdrain]
    rfl

theorem lf_notMem_longLine : lf ∉ longLine := by
  intro h
  cases List.eq_of_mem_replicate h

theorem elements_refusing (input : Bytes) : elements refusing input = [] := by
  have hnone : ∀ frame, element refusing frame = none := by
    intro frame
    unfold element
    cases parseSseFrame frame with
    | none => rfl
    | some p =>
      obtain ⟨eventType, dataStr⟩ := p
      simp [JsonLib.parseStr, refusing]
  unfold elements
  rw [List.map_eq_nil_iff, List.filterMap_eq_nil_iff]
  intro frame _
  exact hnone frame

theorem payloads_and_chunks_matter :
    (parseSseFrame (utf8 "data: x\n\n") = some ("", "x") ∧
      (new.run refusing [.feed (utf8 "data: x\n\n"), .close .finish]).2 = utf8 "[]") ∧
    (new.run refusing [.feed (longLine ++ [lf, lf]), .close .finish]).2 ≠
      (new.run refusing [.feed longLine, .feed [lf, lf], .close .finish]).2 := by
  refine ⟨⟨by decide +kernel, ?_⟩, ?_⟩
  · have hfits : Fits [utf8 "data: x\n\n"] := fits_of_length (by decide +kernel)
    have h := run_fits refusing hfits .finish []
    rw [elements_refusing] at h
    exact h.trans (by decide +kernel)
  · obtain ⟨hopen, hclosed⟩ := unfinished_line lf_notMem_longLine
    have hwhole : Fits [longLine ++ [lf, lf]] := by
      rw [show [longLine ++ [lf, lf]] = [] ++ [longLine ++ [lf, lf]] from rfl, fits_snoc, List.nil_append,
        List.flatten_singleton, hclosed]
      exact ⟨fits_of_length (Nat.zero_le _), Nat.zero_le _⟩
    have h₁ := run_fits refusing hwhole .finish []
    have hlong : maxBuf < (unfinished ([] ++ [longLine]).flatten).length := by
      rw [List.nil_append, List.flatten_singleton, hopen]
      simp [longLine]
    have h₂ := @run_overflows refusing [] [[lf, lf]] longLine (fits_of_length (Nat.zero_le _)) hlong .finish []
    rw [elements_refusing] at h₁ h₂
    intro heq
    have := h₁.symm.trans (heq.trans h₂)
    revert this
    decide +kernel

end Witness

/-! ## The end of a body -/

/-- What `FirstByteBody` asks for at the end of its input: the translator's tail as elements, unless the translator gave
up, and the close. -/
def arrayEnd (translateAborted : Bool) (tail : Bytes) : List Call :=
  (if translateAborted then [] else [.feed tail]) ++ [.close (.finishForTranslate translateAborted)]

theorem arrayEnd_out {cs : List Bytes} {tail : Bytes} (h : Fits (cs ++ [tail])) (translateAborted : Bool) :
    (new.run lib (cs.map .feed ++ arrayEnd translateAborted tail)).2 =
      if translateAborted then
        arrayText (elements lib cs.flatten ++ [lib.toVec (errorElement 500 grpcInternal internalErrorMessage)])
      else arrayText (elements lib (cs.flatten ++ tail)) := by
  cases translateAborted with
  | true => exact run_fits lib (fits_snoc.1 h).1 (.finishForTranslate true) []
  | false =>
    have hrun := run_fits lib h (.finishForTranslate false) []
    have herr : Ending.errors lib false (.finishForTranslate false) = [] := rfl
    rw [herr, List.append_nil, List.flatten_append, List.flatten_singleton] at hrun
    rw [← hrun, List.map_append, List.append_assoc]
    rfl

end GeminiJsonArrayFramer

end Busbar
