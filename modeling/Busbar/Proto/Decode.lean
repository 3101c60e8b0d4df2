import Busbar.Lib.Registry
import Busbar.Lib.Slots
import Busbar.Proto.Stream

/-!
# Decoding flat streams into blocks

A flat stream has no block boundaries; its reader makes them up and keeps what it has opened in a decode state. A reader
is put together from sections, each of which reads and changes the state and emits events.

* `StreamDecodeState.claimIrIndex`: block indices come from a counter that is never reset; an index 0 taken by the
  thinking block is passed over.
* `Section.next`, `Section.each`: sections one after the other.
* `IrStreamEvent.act`: what an event does to the blocks of its stream.
* `textOf`, `thinkingOf`, `argumentsOf`: what a client puts together from the deltas.
-/

namespace Busbar

/-- What the readers of flat streams keep. -/
structure StreamDecodeState where
  started : Bool
  textBlockOpen : Bool
  textIndex : Option Nat
  openTools : List Nat
  reasoningSeen : Bool
  thinkingBlockOpen : Bool
  refusalSeen : Bool
  toolIrIndex : Table Nat Nat
  nextIrIndex : Nat

namespace StreamDecodeState

def default : StreamDecodeState where
  started := false
  textBlockOpen := false
  textIndex := none
  openTools := []
  reasoningSeen := false
  thinkingBlockOpen := false
  refusalSeen := false
  toolIrIndex := Registry.empty
  nextIrIndex := 0

/-- The next free block index. -/
def claimIrIndex (s : StreamDecodeState) : Nat × StreamDecodeState :=
  let idx := max s.nextIrIndex (if s.reasoningSeen then 1 else 0)
  (idx, { s with nextIrIndex := idx + 1 })

end StreamDecodeState

/-- A part of a reader: what it emits, and the state behind it. -/
abbrev Section := StreamDecodeState → List IrStreamEvent × StreamDecodeState

namespace Section

def skip : Section := fun s => ([], s)

def emit (evs : List IrStreamEvent) : Section := fun s => (evs, s)

def next (f g : Section) : Section := fun s =>
  let r := f s
  let r' := g r.2
  (r.1 ++ r'.1, r'.2)

/-- The section of every element, one after the other. -/
def each {α : Type} (f : α → Section) : List α → Section
  | [] => skip
  | a :: as => (f a).next (each f as)

variable {α : Type} (f : α → Section)

theorem each_append (as bs : List α) (s : StreamDecodeState) :
    each f (as ++ bs) s = (each f as).next (each f bs) s := by
  induction as generalizing s with
  | nil => rfl
  | cons a as ih =>
    unfold next
    simp only [List.cons_append, each, next, ih, List.append_assoc]

theorem each_snoc (as : List α) (a : α) (s : StreamDecodeState) :
    each f (as ++ [a]) s = ((each f as s).1 ++ (f a (each f as s).2).1, (f a (each f as s).2).2) := by
  rw [each_append]
  simp [next, each, skip]

/-- Open the thinking block, always at index 0, if it is not open. -/
def openThinking : Section := fun s =>
  let s := { s with reasoningSeen := true }
  if s.thinkingBlockOpen then ([], s) else ([.blockStart 0 .thinking], { s with thinkingBlockOpen := true })

/-- Close the thinking block, if it is open. -/
def closeThinking : Section := fun s =>
  if s.thinkingBlockOpen then ([.blockStop 0], { s with thinkingBlockOpen := false }) else ([], s)

/-- The index of the text block, claimed when it is first asked for. -/
def textSlot (s : StreamDecodeState) : Nat × StreamDecodeState :=
  match s.textIndex with
  | some i => (i, s)
  | none =>
    let (i, s) := s.claimIrIndex
    (i, { s with textIndex := some i })

/-- Open the text block at its index, if it is not open. -/
def openText : Section := fun s =>
  let (ti, s) := textSlot s
  if s.textBlockOpen then ([], s) else ([.blockStart ti .text], { s with textBlockOpen := true })

/-- A delta of the text block. -/
def onText (delta : IrDelta) : Section := fun s =>
  match s.textIndex with
  | some ti => ([.blockDelta ti delta], s)
  -- an open text block has its index
  | none => ([], s)

/-- A delta of the text block, which is opened if need be. -/
def onOpenText (delta : IrDelta) : Section := closeThinking.next (openText.next (onText delta))

end Section

/-! ## Blocks -/

/-- What an event does to the blocks of its stream; thinking and text are never open together. -/
def IrStreamEvent.act : IrStreamEvent → Slots.Act Nat
  | .blockStart index .thinking | .blockStart index .text => .take index true
  | .blockStart index _ => .take index false
  | .blockDelta index _ => .use index
  | .blockStop index => .drop index
  | .messageStop => .seal
  | _ => .other

def acts (evs : List IrStreamEvent) : List (Slots.Act Nat) := evs.map IrStreamEvent.act

theorem acts_append (evs evs' : List IrStreamEvent) : acts (evs ++ evs') = acts evs ++ acts evs' := List.map_append

/-! ## What a client puts together -/

/-- The texts that a function of events picks, joined. -/
def joined (pick : IrStreamEvent → Option String) (evs : List IrStreamEvent) : String :=
  String.join (evs.filterMap pick)

theorem joined_append (pick : IrStreamEvent → Option String) (evs evs' : List IrStreamEvent) :
    joined pick (evs ++ evs') = joined pick evs ++ joined pick evs' := by
  unfold joined
  rw [List.filterMap_append, String.join_append]

/-- Only deltas are picked. -/
def OnDeltas (pick : IrStreamEvent → Option String) : Prop :=
  ∀ ev, (∀ i d, ev ≠ .blockDelta i d) → pick ev = none

/-- A section of which nothing is picked. -/
def Mute (pick : IrStreamEvent → Option String) (f : Section) (s : StreamDecodeState) : Prop :=
  ∀ ev ∈ (f s).1, pick ev = none

section

variable {pick : IrStreamEvent → Option String} {f g : Section} {s : StreamDecodeState}

theorem joined_next : joined pick ((f.next g) s).1 = joined pick (f s).1 ++ joined pick (g (f s).2).1 :=
  joined_append pick _ _

theorem Mute.joined (h : Mute pick f s) : joined pick (f s).1 = "" := by
  unfold Busbar.joined
  rw [List.filterMap_eq_nil_iff.2 h]
  rfl

theorem Mute.next (hf : Mute pick f s) (hg : Mute pick g (f s).2) : Mute pick (f.next g) s := by
  intro ev hev
  rcases List.mem_append.1 hev with h | h
  · exact hf ev h
  · exact hg ev h

theorem mute_skip (h : (f s).1 = []) : Mute pick f s := by
  intro ev hev
  rw [h] at hev
  cases hev

variable (hp : OnDeltas pick)
include hp

theorem mute_closeThinking : Mute pick Section.closeThinking s := by
  intro ev hev
  unfold Section.closeThinking at hev
  split at hev
  · cases List.mem_singleton.1 hev
    exact hp _ nofun
  · cases hev

theorem mute_openThinking : Mute pick Section.openThinking s := by
  intro ev hev
  unfold Section.openThinking at hev
  dsimp only at hev
  split at hev
  · cases hev
  · cases List.mem_singleton.1 hev
    exact hp _ nofun

theorem mute_openText : Mute pick Section.openText s := by
  intro ev hev
  unfold Section.openText at hev
  dsimp only at hev
  split at hev
  · cases hev
  · cases List.mem_singleton.1 hev
    exact hp _ nofun

/-- The delta is all there is to pick where the text block is opened for it. -/
theorem joined_onOpenText (d : IrDelta) :
    ∃ i, joined pick (Section.onOpenText d s).1 = (pick (.blockDelta i d)).getD "" := by
  obtain ⟨s', hs'⟩ : ∃ s', s' = (Section.closeThinking s).2 := ⟨_, rfl⟩
  obtain ⟨i, hi⟩ : ∃ i, (Section.openText s').2.textIndex = some i := by
    have hslot : ∃ i, (Section.textSlot s').2.textIndex = some i := by
      unfold Section.textSlot
      cases hidx : s'.textIndex with
      | some i => exact ⟨i, hidx⟩
      | none => exact ⟨_, rfl⟩
    unfold Section.openText
    dsimp only
    split <;> exact hslot
  refine ⟨i, ?_⟩
  have hdelta : (Section.onText d (Section.openText s').2).1 = [.blockDelta i d] := by
    unfold Section.onText
    rw [hi]
  unfold Section.onOpenText
  rw [joined_next, joined_next, (mute_closeThinking hp).joined, ← hs', (mute_openText hp).joined, hdelta]
  unfold Busbar.joined
  cases hpick : pick (.blockDelta i d) <;> simp [hpick]

end

def textDelta : IrStreamEvent → Option String
  | .blockDelta _ (.text s) => some s
  | _ => none

def thinkingDelta : IrStreamEvent → Option String
  | .blockDelta _ (.thinking s) => some s
  | _ => none

def argumentsDelta (index : Nat) : IrStreamEvent → Option String
  | .blockDelta i (.inputJson s) => if i = index then some s else none
  | _ => none

def textOf (evs : List IrStreamEvent) : String := joined textDelta evs

def thinkingOf (evs : List IrStreamEvent) : String := joined thinkingDelta evs

def argumentsOf (index : Nat) (evs : List IrStreamEvent) : String := joined (argumentsDelta index) evs

theorem onDeltas_textDelta : OnDeltas textDelta := by
  intro ev hev
  cases ev with
  | blockDelta i d => exact absurd rfl (hev i d)
  | _ => rfl

theorem onDeltas_thinkingDelta : OnDeltas thinkingDelta := by
  intro ev hev
  cases ev with
  | blockDelta i d => exact absurd rfl (hev i d)
  | _ => rfl

theorem onDeltas_argumentsDelta (index : Nat) : OnDeltas (argumentsDelta index) := by
  intro ev hev
  cases ev with
  | blockDelta i d => exact absurd rfl (hev i d)
  | _ => rfl

def toolStart : IrStreamEvent → Option (Nat × String)
  | .blockStart index (.toolUse _ name) => some (index, name)
  | _ => none

/-- The names of the tool calls, with the arguments their blocks got. -/
def callsOf (evs : List IrStreamEvent) : List (String × String) :=
  (evs.filterMap toolStart).map (fun (index, name) => (name, argumentsOf index evs))

def ending : IrStreamEvent → Option (Option IrStopReason × IrUsage)
  | .messageDelta stopReason _ usage => some (stopReason, usage)
  | _ => none

/-- The last word on the stop reason and the usage. -/
def endOf (evs : List IrStreamEvent) : Option (Option IrStopReason × IrUsage) := (evs.filterMap ending).getLast?

end Busbar
