import Busbar.Api.Store
import Busbar.Lib.Registry
import Mathlib.Data.Nat.Digits.Defs
import Mathlib.Tactic.Set

/-!
# Signed tokens and binding generations

Minting and verifying the bearer tokens, and the `binding:<id>:<generation>` marker a key row carries.
Base64, JSON, Ed25519 and HMAC-SHA256 come from outside the repository; they are the fields of
`TokenCrypto`, with what the code relies on stated as named hypotheses where it is needed.

* `TokenVerifier.verify_ok`: a token that verifies at one time differs at another only in its expiry.
* `authentic_mint`: a minted token is authentic and carries the claims it was minted with.
* `bindingGeneration_marker`: a marker gives back its generation, for ids without a colon.
-/

namespace Busbar

/-- A decimal `u64` as `str::parse` reads it: an optional `+`, at least one digit, no overflow. -/
def parseU64 (s : String) : Option Nat :=
  let cs := match s.toList with
    | '+' :: cs => cs
    | cs => cs
  if cs = [] then none
  else
    cs.foldl (fun acc c => acc.bind (fun n =>
      if c.isDigit then
        let n := n * 10 + (c.toNat - '0'.toNat)
        if n ≤ u64Max then some n else none
      else none)) (some 0)

structure TokenClaims where
  sub : String
  exp : Nat
  kid : String
  generation : Option String
  deriving DecidableEq, Repr

inductive VerifyError where
  | malformed | unknownKid | badSignature | expired
  deriving DecidableEq, Repr

/-- What the token code takes from outside the repository. -/
structure TokenCrypto where
  b64Encode : Bytes → String
  b64Decode : String → Option Bytes
  claimsToJson : TokenClaims → Bytes
  claimsOfJson : Bytes → Option TokenClaims
  verifyingKey : Bytes → Bytes
  sign : Bytes → Bytes → Bytes
  verifySig : Bytes → Bytes → Bytes → Bool
  hmacSha256 : Bytes → String → Bytes

def tokenPrefix : String := "bbk_"

/-- The signing key: its 32 secret bytes and its id. -/
structure TokenSigner where
  key : Bytes
  kid : String
  deriving DecidableEq

structure TokenVerifier where
  keys : Table String Bytes

variable (cr : TokenCrypto)

def TokenSigner.mint (s : TokenSigner) (sub : String) (exp : Nat) (generation : Option String) : String :=
  let payload := cr.claimsToJson ⟨sub, exp, s.kid, generation⟩
  tokenPrefix ++ cr.b64Encode payload ++ "." ++ cr.b64Encode (cr.sign s.key payload)

def TokenVerifier.single (kid : String) (key : Bytes) : TokenVerifier := ⟨Registry.empty.put (kid, key)⟩

/-- The payload, the signature and the claims a well-formed token carries. -/
def parseToken (token : String) : Option (Bytes × Bytes × TokenClaims) := do
  let body ← stripPrefix tokenPrefix token
  let (payloadB64, sigB64) ← splitOnce '.' body
  let payload ← cr.b64Decode payloadB64
  let sig ← cr.b64Decode sigB64
  if sig.length ≠ 64 then none
  else
    let claims ← cr.claimsOfJson payload
    some (payload, sig, claims)

/-- The checks of `verify` before the expiry: shape, key id, signature over the exact payload bytes. -/
def TokenVerifier.authentic (v : TokenVerifier) (token : String) : Except VerifyError TokenClaims :=
  match parseToken cr token with
  | none => .error .malformed
  | some (payload, sig, claims) =>
    match v.keys.lookup claims.kid with
    | none => .error .unknownKid
    | some key => if cr.verifySig key payload sig then .ok claims else .error .badSignature

/-- The claims a token carries, whoever signed it. -/
def claimsOf (token : String) : Option TokenClaims := (parseToken cr token).map (fun r => r.2.2)

theorem TokenVerifier.claimsOf_authentic {v : TokenVerifier} {token : String} {c : TokenClaims}
    (h : v.authentic cr token = .ok c) : claimsOf cr token = some c := by
  unfold TokenVerifier.authentic at h
  unfold claimsOf
  split at h
  · cases h
  · rename_i hp
    rw [hp]
    split at h
    · cases h
    · split at h
      · cases h; rfl
      · cases h

def TokenVerifier.verify (v : TokenVerifier) (token : String) (now : Nat) : Except VerifyError TokenClaims :=
  match v.authentic cr token with
  | .error e => .error e
  | .ok claims => if claims.exp ≤ now then .error .expired else .ok claims

/-- A token verifies iff it is authentic and unexpired. -/
theorem TokenVerifier.verify_ok {v : TokenVerifier} {token : String} {now : Nat} {c : TokenClaims} :
    v.verify cr token now = .ok c ↔ v.authentic cr token = .ok c ∧ now < c.exp := by
  unfold TokenVerifier.verify
  cases h : v.authentic cr token with
  | error e => simp
  | ok claims =>
    simp only
    split
    · rename_i hexp
      simp only [reduceCtorEq, Except.ok.injEq, false_iff, not_and, not_lt]
      rintro rfl; exact hexp
    · rename_i hexp
      simp only [Except.ok.injEq]
      constructor
      · rintro rfl; exact ⟨rfl, by omega⟩
      · exact And.left

/-! ## Binding generations -/

def bindingMarkerPrefix : String := "binding:"

def selfKeyGroupPrefix : String := "user:"

def vkIdPrefix : String := "vk_"

def bindingMarker (id generation : String) : String := bindingMarkerPrefix ++ id ++ ":" ++ generation

def bindingGeneration (generationHash : String) : Option String :=
  ((stripPrefix bindingMarkerPrefix generationHash).bind (splitOnce ':')).map Prod.snd

/-- The rotation gate: exact equality, the absent generation included. -/
def generationMatches (generationHash : String) (presented : Option String) : Bool :=
  bindingGeneration generationHash == presented

theorem bindingGeneration_marker {id : String} (gen : String) (h : ':' ∉ id.toList) :
    bindingGeneration (bindingMarker id gen) = some gen := by
  have hs : bindingMarker id gen = bindingMarkerPrefix ++ (id ++ String.singleton ':' ++ gen) := by
    simp only [bindingMarker, String.append_assoc]; rfl
  rw [bindingGeneration, hs, stripPrefix_append, Option.bind_some, splitOnce_append gen h]
  rfl

/-- The deterministic id of a self-serve key, selected by the user and an epoch. -/
def deriveSelfSubject (seed : Bytes) (userSub : String) (epoch : Nat) : String :=
  vkIdPrefix ++ hexEncode ((cr.hmacSha256 seed
    (selfKeyGroupPrefix ++ userSub ++ "#" ++ toString epoch)).take 16)

/-- What base64, JSON and Ed25519 promise. -/
structure TokenCrypto.Lawful : Prop where
  b64 : ∀ bs, cr.b64Decode (cr.b64Encode bs) = some bs
  alphabet : ∀ bs, '.' ∉ (cr.b64Encode bs).toList
  json : ∀ c, cr.claimsOfJson (cr.claimsToJson c) = some c
  signed : ∀ key msg, (cr.sign key msg).length = 64 ∧ cr.verifySig (cr.verifyingKey key) msg (cr.sign key msg) = true

theorem parseToken_encoded (h : cr.Lawful) (payload sig : Bytes) :
    parseToken cr (tokenPrefix ++ cr.b64Encode payload ++ "." ++ cr.b64Encode sig) =
      if sig.length ≠ 64 then none else (cr.claimsOfJson payload).map (fun c => (payload, sig, c)) := by
  have hs : tokenPrefix ++ cr.b64Encode payload ++ "." ++ cr.b64Encode sig =
      tokenPrefix ++ (cr.b64Encode payload ++ String.singleton '.' ++ cr.b64Encode sig) := by
    simp only [String.append_assoc]; rfl
  rw [hs]
  simp only [parseToken, stripPrefix_append, splitOnce_append _ (h.alphabet payload), h.b64,
    Option.bind_eq_bind, Option.bind_some]
  congr 1
  cases cr.claimsOfJson payload <;> rfl

theorem parseToken_mint (h : cr.Lawful) (s : TokenSigner) (sub : String) (exp : Nat) (gen : Option String) :
    parseToken cr (s.mint cr sub exp gen) = some (cr.claimsToJson ⟨sub, exp, s.kid, gen⟩,
      cr.sign s.key (cr.claimsToJson ⟨sub, exp, s.kid, gen⟩), ⟨sub, exp, s.kid, gen⟩) := by
  unfold TokenSigner.mint
  rw [parseToken_encoded cr h, if_neg (not_not.2 (h.signed _ _).1), h.json]
  rfl

/-- A minted token carries the claims it was minted with. -/
theorem claimsOf_mint (h : cr.Lawful) (s : TokenSigner) (sub : String) (exp : Nat) (gen : Option String) :
    claimsOf cr (s.mint cr sub exp gen) = some ⟨sub, exp, s.kid, gen⟩ := by
  rw [claimsOf, parseToken_mint cr h]
  rfl

/-- A minted token is authentic under the verifier of its signer. -/
theorem authentic_mint (h : cr.Lawful) (s : TokenSigner) (sub : String) (exp : Nat) (gen : Option String) :
    (TokenVerifier.single s.kid (cr.verifyingKey s.key)).authentic cr (s.mint cr sub exp gen)
      = .ok ⟨sub, exp, s.kid, gen⟩ := by
  have hkey : (TokenVerifier.single s.kid (cr.verifyingKey s.key)).keys.lookup s.kid
      = some (cr.verifyingKey s.key) := Table.lookup_insert_self _ _ _
  simp only [TokenVerifier.authentic, parseToken_mint cr h, hkey, (h.signed _ _).2, if_true]

/-! ## A runnable instance

Shifted characters in place of base64, separated fields in place of JSON, a keyed constant in place of the
signature and the end of the message in place of its HMAC: enough to run the model on concrete inputs. -/

def plainB64 (bs : Bytes) : String := String.ofList (bs.map (fun b => Char.ofNat (b.toNat + 256)))

def plainB64Decode (s : String) : Option Bytes := some (s.toList.map (fun c => UInt8.ofNat (c.toNat - 256)))

def charBytes (c : Char) : Bytes :=
  [UInt8.ofNat (c.toNat / 16384), UInt8.ofNat (c.toNat / 128 % 128), UInt8.ofNat (c.toNat % 128)]

def textBytes (s : String) : Bytes := s.toList.flatMap charBytes

def bytesText : Bytes → List Char
  | a :: b :: c :: bs => Char.ofNat (a.toNat * 16384 + b.toNat * 128 + c.toNat) :: bytesText bs
  | _ => []

def fieldEnd : UInt8 := 255

def plainClaims (c : TokenClaims) : Bytes :=
  [fieldEnd].intercalate ([textBytes c.sub, (Nat.digits 128 c.exp).map UInt8.ofNat, textBytes c.kid]
    ++ (c.generation.map textBytes).toList)

def plainClaimsOf (bs : Bytes) : Option TokenClaims :=
  let text := fun bs => String.ofList (bytesText bs)
  let number := fun bs : Bytes => Nat.ofDigits 128 (bs.map UInt8.toNat)
  match bs.splitOn fieldEnd with
  | [sub, exp, kid] => some ⟨text sub, number exp, text kid, none⟩
  | [sub, exp, kid, gen] => some ⟨text sub, number exp, text kid, some (text gen)⟩
  | _ => none

def plainSign (key : Bytes) : Bytes := List.replicate 64 (key.foldl (· + ·) 65)

def plainCrypto : TokenCrypto where
  b64Encode := plainB64
  b64Decode := plainB64Decode
  claimsToJson := plainClaims
  claimsOfJson := plainClaimsOf
  verifyingKey key := key
  sign key _ := plainSign key
  verifySig key _ sig := plainSign key == sig
  hmacSha256 seed msg := (msg.toList.map (fun c => UInt8.ofNat c.toNat)).reverse ++ seed

theorem toNat_shifted (b : UInt8) : (Char.ofNat (b.toNat + 256)).toNat = b.toNat + 256 := by
  have hb := b.toNat_lt
  have hv : (b.toNat + 256).isValidChar := Or.inl (by omega)
  rw [Char.ofNat, dif_pos hv]
  rfl

theorem toNat_lt_max (c : Char) : c.toNat < 1114112 := by
  have := c.valid
  unfold UInt32.isValidChar Nat.isValidChar at this
  change c.val.toNat < _
  omega

theorem bytesText_textBytes (cs : List Char) : bytesText (cs.flatMap charBytes) = cs := by
  induction cs with
  | nil => rfl
  | cons c cs ih =>
    have hc := toNat_lt_max c
    have hn : c.toNat / 16384 % 256 * 16384 + c.toNat / 128 % 128 % 256 * 128 + c.toNat % 128 % 256
        = c.toNat := by omega
    simp only [List.flatMap_cons, charBytes, List.cons_append, List.nil_append, bytesText, ih,
      UInt8.toNat_ofNat', Nat.reducePow, hn, Char.ofNat_toNat]

theorem fieldEnd_notMem_textBytes (s : String) : fieldEnd ∉ textBytes s := by
  simp only [textBytes, List.mem_flatMap, not_exists, not_and]
  intro c _ h
  have hc := toNat_lt_max c
  simp only [charBytes, fieldEnd, List.mem_cons, List.not_mem_nil, or_false] at h
  rcases h with h | h | h <;>
  · have := congrArg UInt8.toNat h
    simp at this
    omega

theorem plainClaimsOf_plainClaims (c : TokenClaims) : plainClaimsOf (plainClaims c) = some c := by
  have hnum : fieldEnd ∉ (Nat.digits 128 c.exp).map UInt8.ofNat := by
    simp only [List.mem_map, not_exists, not_and]
    intro d hd h
    have hlt := Nat.digits_lt_base (by norm_num) hd
    have := congrArg UInt8.toNat h
    simp [fieldEnd] at this
    omega
  have hdig : ((Nat.digits 128 c.exp).map UInt8.ofNat).map UInt8.toNat = Nat.digits 128 c.exp := by
    rw [List.map_map]
    nth_rewrite 2 [← List.map_id (Nat.digits 128 c.exp)]
    refine List.map_congr_left fun d hd => ?_
    have hlt := Nat.digits_lt_base (by norm_num) hd
    simp
    omega
  have htext := fieldEnd_notMem_textBytes
  have hback : ∀ s : String, String.ofList (bytesText (textBytes s)) = s := fun s => by
    rw [textBytes, bytesText_textBytes, String.ofList_toList]
  obtain ⟨sub, exp, kid, gen⟩ := c
  cases gen with
  | none =>
    simp only [plainClaimsOf, plainClaims, Option.map_none, Option.toList_none, List.append_nil]
    rw [List.splitOn_intercalate _ (by simp [htext, hnum]) (by simp)]
    simp [hback, hdig, Nat.ofDigits_digits]
  | some g =>
    simp only [plainClaimsOf, plainClaims, Option.map_some, Option.toList_some, List.cons_append, List.nil_append]
    rw [List.splitOn_intercalate _ (by simp [htext, hnum]) (by simp)]
    simp [hback, hdig, Nat.ofDigits_digits]

theorem plainCrypto_lawful : plainCrypto.Lawful where
  b64 bs := by
    simp only [plainCrypto, plainB64Decode, plainB64, String.toList_ofList, List.map_map, Option.some.injEq]
    rw [List.map_congr_left (g := id), List.map_id]
    intro b _
    simp [toNat_shifted]
  alphabet bs := by
    simp only [plainCrypto, plainB64, String.toList_ofList, List.mem_map, not_exists, not_and]
    intro b _ h
    have := congrArg Char.toNat h
    rw [toNat_shifted] at this
    simp at this
  json := plainClaimsOf_plainClaims
  signed key msg := ⟨by simp [plainCrypto, plainSign], by simp [plainCrypto]⟩

end Busbar
