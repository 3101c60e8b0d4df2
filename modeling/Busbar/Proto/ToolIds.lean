import Busbar.Proto.Framing
import Busbar.Lib.Registry
import Busbar.Lib.TextLines

/-!
# Tool ids across protocols

A foreign tool id reaches the client in the client's native shape, and the echo of it is decoded on the way back.

* `hexDecode_hexEncode`, `hexEncode_of_hexDecode`: the decoder also takes digits in upper case.
* `decode_native`, `native_of_decode`: when one undoes the other.
* `remap_inverts_iff`: what holds for single ids and for a whole conversation.
-/

namespace Busbar

/-! ## Hex digits -/

def hexVal (c : Char) : Option Nat :=
  let n := c.toNat
  if 0x30 ≤ n ∧ n ≤ 0x39 then some (n - 0x30)
  else if 0x61 ≤ n ∧ n ≤ 0x66 then some (n - 0x61 + 10)
  else if 0x41 ≤ n ∧ n ≤ 0x46 then some (n - 0x41 + 10)
  else none

def hexDecodeChars : List Char → Option Bytes
  | [] => some []
  | [_] => none
  | a :: b :: cs => do
    let h ← hexVal a
    let l ← hexVal b
    let bs ← hexDecodeChars cs
    return UInt8.ofNat (16 * h + l) :: bs

/-- `hex::decode`: digits of either case, two a byte. -/
def hexDecode (s : String) : Option Bytes := hexDecodeChars s.toList

def isUpperHex (c : Char) : Bool := 0x41 ≤ c.toNat ∧ c.toNat ≤ 0x46

/-- A digit is written in lower case. -/
theorem hexVal_eq_some {c : Char} {n : Nat} (h : hexVal c = some n) :
    n < 16 ∧ (hexDigits.getD n '0' = c ↔ isUpperHex c = false) := by
  have hchar : c = Char.ofNat c.toNat := (Char.ofNat_toNat c).symm
  have hdigits : ∀ m < 0x3A, 0x30 ≤ m → hexDigits.getD (m - 0x30) '0' = Char.ofNat m ∧
      isUpperHex (Char.ofNat m) = false := by decide
  have hlower : ∀ m < 0x67, 0x61 ≤ m → hexDigits.getD (m - 0x61 + 10) '0' = Char.ofNat m ∧
      isUpperHex (Char.ofNat m) = false := by decide
  have hupper : ∀ m < 0x47, 0x41 ≤ m → hexDigits.getD (m - 0x41 + 10) '0' ≠ Char.ofNat m ∧
      isUpperHex (Char.ofNat m) = true := by decide
  unfold hexVal at h
  dsimp only at h
  generalize c.toNat = m at hchar h
  subst hchar
  split at h
  · cases h
    obtain ⟨hval, hcase⟩ := hdigits m (by omega) (by omega)
    exact ⟨by omega, iff_of_true hval hcase⟩
  · split at h
    · cases h
      obtain ⟨hval, hcase⟩ := hlower m (by omega) (by omega)
      exact ⟨by omega, iff_of_true hval hcase⟩
    · split at h
      · cases h
        obtain ⟨hval, hcase⟩ := hupper m (by omega) (by omega)
        exact ⟨by omega, iff_of_false hval (by rw [hcase]; decide)⟩
      · cases h

theorem hexVal_digit {n : Nat} (h : n < 16) : hexVal (hexDigits.getD n '0') = some n := by
  have hall : ∀ n < 16, hexVal (hexDigits.getD n '0') = some n := by decide
  exact hall n h

def hexChars (bs : Bytes) : List Char :=
  bs.flatMap (fun b => [hexDigits.getD (b.toNat / 16) '0', hexDigits.getD (b.toNat % 16) '0'])

theorem hexEncode_eq (bs : Bytes) : hexEncode bs = String.ofList (hexChars bs) := rfl

theorem hexChars_cons (b : UInt8) (bs : Bytes) : hexChars (b :: bs) =
    hexDigits.getD (b.toNat / 16) '0' :: hexDigits.getD (b.toNat % 16) '0' :: hexChars bs := rfl

theorem hexDecodeChars_hexChars (bs : Bytes) : hexDecodeChars (hexChars bs) = some bs := by
  induction bs with
  | nil => rfl
  | cons b bs ih =>
    have hb : b.toNat < 256 := b.toNat_lt
    have hbyte : UInt8.ofNat (16 * (b.toNat / 16) + b.toNat % 16) = b := by
      rw [Nat.div_add_mod]
      exact UInt8.ofNat_toNat
    rw [hexChars_cons, hexDecodeChars, hexVal_digit (by omega), hexVal_digit (by omega), ih]
    show some (UInt8.ofNat (16 * (b.toNat / 16) + b.toNat % 16) :: bs) = some (b :: bs)
    rw [hbyte]

theorem hexDecode_hexEncode (bs : Bytes) : hexDecode (hexEncode bs) = some bs := by
  unfold hexDecode
  rw [hexEncode_eq, String.toList_ofList]
  exact hexDecodeChars_hexChars bs

/-- What decodes is the encoding exactly when no digit is in upper case. -/
theorem hexChars_iff {cs : List Char} {bs : Bytes} (h : hexDecodeChars cs = some bs) :
    cs = hexChars bs ↔ ∀ c ∈ cs, isUpperHex c = false := by
  induction cs using hexDecodeChars.induct generalizing bs with
  | case1 =>
    cases h
    exact iff_of_true rfl nofun
  | case2 c => cases h
  | case3 a b cs ih =>
    rw [hexDecodeChars] at h
    obtain ⟨x, hx, h⟩ := Option.bind_eq_some_iff.1 h
    obtain ⟨y, hy, h⟩ := Option.bind_eq_some_iff.1 h
    obtain ⟨rest, hrest, h⟩ := Option.bind_eq_some_iff.1 h
    cases h
    obtain ⟨hx16, hxc⟩ := hexVal_eq_some hx
    obtain ⟨hy16, hyc⟩ := hexVal_eq_some hy
    have hbyte : (UInt8.ofNat (16 * x + y)).toNat = 16 * x + y := by
      rw [UInt8.toNat_ofNat']
      exact Nat.mod_eq_of_lt (by omega)
    have hdiv : (16 * x + y) / 16 = x := by omega
    have hmod : (16 * x + y) % 16 = y := by omega
    rw [hexChars_cons, hbyte, hdiv, hmod, List.cons.injEq, List.cons.injEq, ih hrest, eq_comm (a := a), eq_comm (a := b),
      hxc, hyc]
    simp only [List.mem_cons, forall_eq_or_imp]

theorem hexEncode_of_hexDecode {s : String} {bs : Bytes} (h : hexDecode s = some bs) :
    s = hexEncode bs ↔ ∀ c ∈ s.toList, isUpperHex c = false := by
  rw [← hexChars_iff h, hexEncode_eq, String.ext_iff, String.toList_ofList]

/-! ## Single ids -/

/-- `decode_native_tool_id`. -/
def decodeNativeToolId (ingressProtocol id : String) : Option String := do
  let pre ← nativeToolIdPrefix ingressProtocol
  let rest ← stripPrefix pre id
  let hexpart ← stripPrefix toolIdRemapMarker rest
  if hexpart = "" then none
  else
    let bytes ← hexDecode hexpart
    fromUtf8 bytes

variable {ingress pre id : String}

theorem nativeToolId_eq (h : nativeToolIdPrefix ingress = some pre) (id : String) :
    nativeToolId ingress id = pre ++ toolIdRemapMarker ++ hexEncode (utf8 id) := by
  unfold nativeToolId
  rw [h]

/-- What the decoder takes. -/
theorem decode_eq_some (h : nativeToolIdPrefix ingress = some pre) {x y : String} :
    decodeNativeToolId ingress x = some y ↔
      ∃ tail, x = pre ++ toolIdRemapMarker ++ tail ∧ tail ≠ "" ∧ hexDecode tail = some (utf8 y) := by
  unfold decodeNativeToolId
  rw [h, Option.bind_eq_bind, Option.bind_some]
  constructor
  · intro hd
    obtain ⟨rest, hrest, hd⟩ := Option.bind_eq_some_iff.1 hd
    obtain ⟨tail, htail, hd⟩ := Option.bind_eq_some_iff.1 hd
    split at hd
    · cases hd
    · rename_i hne
      obtain ⟨bytes, hbytes, hd⟩ := Option.bind_eq_some_iff.1 hd
      rw [fromUtf8_eq_some] at hd
      refine ⟨tail, ?_, hne, by rw [hbytes, hd]⟩
      rw [stripPrefix_eq_some.1 hrest, stripPrefix_eq_some.1 htail, String.append_assoc]
  · rintro ⟨tail, rfl, hne, hhex⟩
    rw [String.append_assoc, stripPrefix_append, Option.bind_some, stripPrefix_append, Option.bind_some, if_neg hne,
      hhex, Option.bind_eq_bind, Option.bind_some, fromUtf8_utf8]

theorem hexEncode_eq_empty {bs : Bytes} : hexEncode bs = "" ↔ bs = [] := by
  constructor
  · intro h
    have hd := hexDecode_hexEncode bs
    rw [h] at hd
    exact (Option.some.inj hd).symm
  · rintro rfl
    rfl

theorem utf8_eq_nil {s : String} : utf8 s = [] ↔ s = "" := by
  have hnil : utf8 "" = [] := by decide +kernel
  constructor
  · intro h
    exact utf8_injective (h.trans hnil.symm)
  · rintro rfl
    exact hnil

/-- **Every id but the empty one comes back.** -/
theorem decode_native (h : nativeToolIdPrefix ingress = some pre) (id : String) :
    decodeNativeToolId ingress (nativeToolId ingress id) = some id ↔ id ≠ "" := by
  rw [decode_eq_some h, nativeToolId_eq h]
  constructor
  · rintro ⟨tail, htail, hne, -⟩ rfl
    have heq : tail = hexEncode (utf8 "") := by
      exact ((String.append_right_inj _).1 htail).symm
    rw [utf8_eq_nil.2 rfl] at heq
    exact hne heq
  · intro hne
    refine ⟨_, rfl, ?_, hexDecode_hexEncode _⟩
    rw [ne_eq, hexEncode_eq_empty, utf8_eq_nil]
    exact hne

theorem prefix_lower (h : nativeToolIdPrefix ingress = some pre) :
    ∀ c ∈ (pre ++ toolIdRemapMarker).toList, isUpperHex c = false := by
  have hall : ∀ s : String, s.toList.all (fun c => !isUpperHex c) = true → ∀ c ∈ s.toList, isUpperHex c = false := by
    intro s hs c hc
    have hc' := List.all_eq_true.1 hs c hc
    simpa using hc'
  unfold nativeToolIdPrefix at h
  split at h
  · cases h
    exact hall _ (by decide +kernel)
  · split at h
    · cases h
      exact hall _ (by decide +kernel)
    · split at h
      · cases h
        exact hall _ (by decide +kernel)
      · cases h

/-- **What decodes to an id is the native form of that id** unless one of its digits is in upper case. -/
theorem native_of_decode (h : nativeToolIdPrefix ingress = some pre) {x y : String}
    (hd : decodeNativeToolId ingress x = some y) :
    x = nativeToolId ingress y ↔ ∀ c ∈ x.toList, isUpperHex c = false := by
  obtain ⟨tail, rfl, -, hhex⟩ := (decode_eq_some h).1 hd
  rw [nativeToolId_eq h]
  have hcancel : pre ++ toolIdRemapMarker ++ tail = pre ++ toolIdRemapMarker ++ hexEncode (utf8 y) ↔
      tail = hexEncode (utf8 y) := by
    constructor
    · intro heq
      exact (String.append_right_inj _).1 heq
    · rintro rfl
      rfl
  rw [hcancel, hexEncode_of_hexDecode hhex, String.toList_append]
  constructor
  · intro hall c hc
    rcases List.mem_append.1 hc with hc | hc
    · exact prefix_lower h c hc
    · exact hall c hc
  · intro hall c hc
    exact hall c (List.mem_append_right _ hc)

example : decodeNativeToolId protoAnthropic "toolu_bb14A" = some "J" ∧
    nativeToolId protoAnthropic "J" = "toolu_bb14a" := by decide +kernel

/-! ## Whole conversations -/

/-- A block of a message, with what a tool result holds. -/
inductive TurnBlock where
  | toolUse (id name : String) (input : Json) (thoughtSignature : Option String)
  | toolResult (toolUseId : String) (content : List TurnBlock) (isError : Bool)
  | other (block : IrBlock)

structure IrMessage where
  role : IrRole
  content : List TurnBlock

/-- The ids reshaped so far. -/
abbrev ToolIdRemap := Table String String

/-- `ToolIdRemap::native_for` with its map. -/
def nativeFor (ingressProtocol : String) (remap : ToolIdRemap) (egressId : String) : String × ToolIdRemap :=
  match nativeToolIdPrefix ingressProtocol with
  | none => (egressId, remap)
  | some _ =>
    match remap.lookup egressId with
    | some existing => (existing, remap)
    | none =>
      let native := nativeToolId ingressProtocol egressId
      (native, remap.insert egressId native)

mutual

def remapBlock (ingressProtocol : String) (remap : ToolIdRemap) : TurnBlock → TurnBlock × ToolIdRemap
  | .toolUse id name input thoughtSignature =>
    let (id, remap) := nativeFor ingressProtocol remap id
    (.toolUse id name input thoughtSignature, remap)
  | .toolResult toolUseId content isError =>
    let (toolUseId, remap) := nativeFor ingressProtocol remap toolUseId
    let (content, remap) := remapBlocks ingressProtocol remap content
    (.toolResult toolUseId content isError, remap)
  | .other block => (.other block, remap)

def remapBlocks (ingressProtocol : String) (remap : ToolIdRemap) : List TurnBlock → List TurnBlock × ToolIdRemap
  | [] => ([], remap)
  | block :: blocks =>
    let (block, remap) := remapBlock ingressProtocol remap block
    let (blocks, remap) := remapBlocks ingressProtocol remap blocks
    (block :: blocks, remap)

end

/-- The messages of a conversation, one after the other. -/
def remapMessages (ingressProtocol : String) (remap : ToolIdRemap) : List IrMessage → List IrMessage × ToolIdRemap
  | [] => ([], remap)
  | msg :: msgs =>
    let (content, remap) := remapBlocks ingressProtocol remap msg.content
    let (msgs, remap) := remapMessages ingressProtocol remap msgs
    ({ msg with content := content } :: msgs, remap)

/-- An id as the request seam passes it on. -/
def decodedId (ingressProtocol id : String) : String := (decodeNativeToolId ingressProtocol id).getD id

mutual

def decodeBlock (ingressProtocol : String) : TurnBlock → TurnBlock
  | .toolUse id name input thoughtSignature => .toolUse (decodedId ingressProtocol id) name input thoughtSignature
  | .toolResult toolUseId content isError =>
    .toolResult (decodedId ingressProtocol toolUseId) (decodeBlocks ingressProtocol content) isError
  | .other block => .other block

def decodeBlocks (ingressProtocol : String) : List TurnBlock → List TurnBlock
  | [] => []
  | block :: blocks => decodeBlock ingressProtocol block :: decodeBlocks ingressProtocol blocks

end

def decodeRequestToolIds (ingressProtocol : String) (messages : List IrMessage) : List IrMessage :=
  messages.map (fun msg => { msg with content := decodeBlocks ingressProtocol msg.content })

mutual

/-- The tool ids of a block, those inside a tool result included. -/
def toolIdsOf : TurnBlock → List String
  | .toolUse id _ _ _ => [id]
  | .toolResult toolUseId content _ => toolUseId :: toolIdsIn content
  | .other _ => []

def toolIdsIn : List TurnBlock → List String
  | [] => []
  | block :: blocks => toolIdsOf block ++ toolIdsIn blocks

end

def conversationIds (messages : List IrMessage) : List String := messages.flatMap (fun msg => toolIdsIn msg.content)

/-- The map holds native forms. -/
def Remembers (ingressProtocol : String) (remap : ToolIdRemap) : Prop :=
  ∀ id native, remap.lookup id = some native → native = nativeToolId ingressProtocol id

theorem remembers_empty : Remembers ingress Registry.empty := nofun

variable {remap : ToolIdRemap}

theorem nativeFor_spec (hr : Remembers ingress remap) (id : String) :
    (nativeFor ingress remap id).1 = nativeToolId ingress id ∧ Remembers ingress (nativeFor ingress remap id).2 := by
  unfold nativeFor
  cases hpre : nativeToolIdPrefix ingress with
  | none =>
    refine ⟨?_, hr⟩
    unfold nativeToolId
    rw [hpre]
  | some pre =>
    dsimp only
    cases hl : remap.lookup id with
    | some existing => exact ⟨hr id existing hl, hr⟩
    | none =>
      refine ⟨rfl, fun id' native h => ?_⟩
      rw [Table.lookup_insert] at h
      split at h
      · rename_i heq
        cases h
        rw [heq]
      · exact hr id' native h

/-- The decoded native form of an id is the id unless it is empty. -/
theorem decodedId_native (h : nativeToolIdPrefix ingress = some pre) (id : String) :
    decodedId ingress (nativeToolId ingress id) = id ↔ id ≠ "" := by
  unfold decodedId
  constructor
  · rintro heq rfl
    cases hd : decodeNativeToolId ingress (nativeToolId ingress "") with
    | some y =>
      rw [hd] at heq
      have hy : y = "" := heq
      rw [hy] at hd
      exact (decode_native h "").1 hd rfl
    | none =>
      -- the native form is not empty
      rw [hd, Option.getD_none, nativeToolId_eq h] at heq
      have hlen := congrArg (fun s => s.toList.length) heq
      have hmarker : toolIdRemapMarker.toList.length = 3 := rfl
      simp only [String.toList_append, List.length_append, hmarker] at hlen
      have hempty : ("" : String).toList.length = 0 := rfl
      omega
  · intro hne
    rw [(decode_native h id).2 hne]
    rfl

mutual

theorem decode_remapBlock (h : nativeToolIdPrefix ingress = some pre) (remap : ToolIdRemap) (hr : Remembers ingress remap) :
    ∀ b : TurnBlock, Remembers ingress (remapBlock ingress remap b).2 ∧
      (decodeBlock ingress (remapBlock ingress remap b).1 = b ↔ "" ∉ toolIdsOf b)
  | .toolUse id name input thoughtSignature => by
    obtain ⟨hid, hr'⟩ := nativeFor_spec hr id
    refine ⟨hr', ?_⟩
    have hdec := decodedId_native h id
    simp only [remapBlock, decodeBlock, toolIdsOf, hid, TurnBlock.toolUse.injEq, hdec, and_true, List.mem_singleton]
    exact ⟨fun hne heq => hne heq.symm, fun hne heq => hne heq.symm⟩
  | .toolResult toolUseId content isError => by
    obtain ⟨hid, hr'⟩ := nativeFor_spec hr toolUseId
    obtain ⟨hr'', hcontent⟩ := decode_remapBlocks h (nativeFor ingress remap toolUseId).2 hr' content
    refine ⟨hr'', ?_⟩
    have hdec := decodedId_native h toolUseId
    simp only [remapBlock, decodeBlock, toolIdsOf, hid, TurnBlock.toolResult.injEq, hdec, hcontent, and_true,
      List.mem_cons, not_or]
    exact and_congr_left fun _ => ⟨fun hne heq => hne heq.symm, fun hne heq => hne heq.symm⟩
  | .other block => ⟨hr, by simp [remapBlock, decodeBlock, toolIdsOf]⟩

theorem decode_remapBlocks (h : nativeToolIdPrefix ingress = some pre) (remap : ToolIdRemap) (hr : Remembers ingress remap) :
    ∀ bs : List TurnBlock, Remembers ingress (remapBlocks ingress remap bs).2 ∧
      (decodeBlocks ingress (remapBlocks ingress remap bs).1 = bs ↔ "" ∉ toolIdsIn bs)
  | [] => ⟨hr, by simp [remapBlocks, decodeBlocks, toolIdsIn]⟩
  | b :: bs => by
    obtain ⟨hr', hb⟩ := decode_remapBlock h remap hr b
    obtain ⟨hr'', hbs⟩ := decode_remapBlocks h (remapBlock ingress remap b).2 hr' bs
    refine ⟨hr'', ?_⟩
    simp only [remapBlocks, decodeBlocks, toolIdsIn, List.cons.injEq, hb, hbs, List.mem_append, not_or]

end

/-- A conversation comes back exactly when no id in it is empty. -/
theorem decode_remapMessages (h : nativeToolIdPrefix ingress = some pre) {remap : ToolIdRemap}
    (hr : Remembers ingress remap) (messages : List IrMessage) :
    decodeRequestToolIds ingress (remapMessages ingress remap messages).1 = messages ↔
      "" ∉ conversationIds messages := by
  induction messages generalizing remap with
  | nil => simp [remapMessages, decodeRequestToolIds, conversationIds]
  | cons msg msgs ih =>
    obtain ⟨hr', hblocks⟩ := decode_remapBlocks h remap hr msg.content
    have htail := ih hr'
    unfold decodeRequestToolIds conversationIds at htail ⊢
    rw [List.flatMap_cons, List.mem_append, not_or, ← htail, ← hblocks]
    simp only [remapMessages, List.map_cons, List.cons.injEq]
    refine and_congr_left fun _ => ?_
    obtain ⟨role, content⟩ := msg
    simp only [IrMessage.mk.injEq, true_and]

/-- **When remapping can be undone**: for an id and for a conversation when no id is empty, for what the client sends
when its digits are in lower case. -/
theorem remap_inverts_iff (h : nativeToolIdPrefix ingress = some pre) :
    (∀ id, decodeNativeToolId ingress (nativeToolId ingress id) = some id ↔ id ≠ "") ∧
      (∀ x y, decodeNativeToolId ingress x = some y →
        (x = nativeToolId ingress y ↔ ∀ c ∈ x.toList, isUpperHex c = false)) ∧
      ∀ remap, Remembers ingress remap → ∀ messages,
        (decodeRequestToolIds ingress (remapMessages ingress remap messages).1 = messages ↔
          "" ∉ conversationIds messages) :=
  ⟨decode_native h, fun _ _ hd => native_of_decode h hd, fun _ hr messages => decode_remapMessages h hr messages⟩

theorem remap_inverts_anthropic : nativeToolIdPrefix protoAnthropic = some "toolu_" ∧
    Remembers protoAnthropic Registry.empty ∧
      decodeNativeToolId protoAnthropic (nativeToolId protoAnthropic "call_1") = some "call_1" := by
  have h : nativeToolIdPrefix protoAnthropic = some "toolu_" := by decide
  exact ⟨h, remembers_empty, ((remap_inverts_iff h).1 "call_1").2 (by decide)⟩

/-- The empty id does not come back. -/
theorem empty_id_is_lost :
    ¬((∀ id, decodeNativeToolId protoAnthropic (nativeToolId protoAnthropic id) = some id) ∧
      (∀ x y, decodeNativeToolId protoAnthropic x = some y → x = nativeToolId protoAnthropic y) ∧
      ∀ messages, decodeRequestToolIds protoAnthropic (remapMessages protoAnthropic Registry.empty messages).1 =
        messages) := by
  rintro ⟨hid, -, -⟩
  have h : nativeToolIdPrefix protoAnthropic = some "toolu_" := by decide
  exact (decode_native h "").1 (hid "") rfl

end Busbar
