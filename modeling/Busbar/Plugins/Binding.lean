import Busbar.Auth.SigBinding
import Busbar.Plugins.ManifestText

/-!
# A signature covers the whole manifest, and the library

The signed text has every field of the manifest but the signature as a member of its own, an absent option as no member,
and one of the fields is the digest of the library.

* `bound_of_verified`: two plugins whose checks go by one signature and one key.
* `verified_sign`: what is signed verifies.
* `trusted_plugin_bound`: what one signature makes trusted is one plugin; what `sign` signs is trusted.
-/

namespace Busbar.Plugins

/-! ## What a verdict says -/

variable {lib : PluginLib} {bytes : Bytes} {manifest : Manifest} {policy : TrustPolicy}

/-- A trusted verdict names the publisher, whose key has verified the manifest with the library. -/
theorem verified_of_trusted {publisher : String} {firstParty : Bool}
    (h : evaluate lib bytes manifest policy = .ok (.trusted publisher firstParty)) :
    ∃ key, VerifiedBy lib bytes manifest policy key := by
  obtain ⟨-, -, hresolve⟩ := evaluate_ok.1 h
  cases htrust : trust lib bytes manifest policy with
  | ok fp => exact (trust_ok.1 htrust).1
  | error u =>
    -- an untrusted artifact is allowed at most
    rw [htrust] at hresolve
    unfold resolve at hresolve
    cases u with
    | unsigned reason tampered =>
      dsimp only at hresolve
      by_cases hflag : policy.allowUnsigned = true
      · rw [if_pos hflag] at hresolve
        cases hresolve
      · rw [if_neg hflag] at hresolve
        cases hresolve
    | thirdParty p =>
      dsimp only at hresolve
      by_cases hflag : policy.allowThirdParty = true
      · rw [if_pos hflag] at hresolve
        cases hresolve
      · rw [if_neg hflag] at hresolve
        cases hresolve

/-- **The check of a signature.** The digest matches, and the signature has 64 bytes that verify. -/
theorem signatureOk_iff {key : VerifyingKey} : signatureOk lib manifest bytes key = .ok () ↔
    sha256Hex lib bytes = Sigv4.toAsciiLowercase manifest.sha256 ∧
      ∃ sig, hexDecode manifest.signature = some sig ∧ sig.length = 64 ∧
        lib.verify key (manifest.canonicalBytes lib) sig = true := by
  unfold signatureOk
  by_cases hsha : sha256Hex lib bytes = Sigv4.toAsciiLowercase manifest.sha256
  · rw [if_neg (not_not_intro hsha)]
    cases hhex : hexDecode manifest.signature with
    | none => simp
    | some sig =>
      dsimp only
      by_cases hlen : sig.length = 64
      · rw [if_neg (not_not_intro hlen)]
        by_cases hverify : lib.verify key (manifest.canonicalBytes lib) sig = true
        · rw [if_pos hverify]
          simp [hsha, hlen, hverify]
        · rw [if_neg hverify]
          simp [hverify]
      · rw [if_pos hlen]
        simp [hlen]
  · rw [if_pos hsha]
    simp [hsha]

/-- The digest does not collide, a signature verifies for one message under a key, and the signed values have texts of
their own. -/
structure Binds (lib : PluginLib) : Prop where
  sha256 : Function.Injective lib.sha256
  once : ∀ key sig message message', lib.verify key message sig = true → lib.verify key message' sig = true →
    message = message'
  faithful : ∀ m m' : Manifest, lib.toVec m.canonicalValue = lib.toVec m'.canonicalValue →
    m.canonicalValue = m'.canonicalValue

/-- **One signature, one plugin.** -/
theorem bound_of_verified (hlib : Binds lib) {bytes' : Bytes} {manifest' : Manifest} {key : VerifyingKey}
    (h : signatureOk lib manifest bytes key = .ok ()) (h' : signatureOk lib manifest' bytes' key = .ok ())
    (hsig : hexDecode manifest.signature = hexDecode manifest'.signature) :
    { manifest' with signature := manifest.signature } = manifest ∧ bytes = bytes' := by
  obtain ⟨hsha, sig, hhex, -, hverify⟩ := signatureOk_iff.1 h
  obtain ⟨hsha', sig', hhex', -, hverify'⟩ := signatureOk_iff.1 h'
  rw [hhex, hhex'] at hsig
  obtain rfl := Option.some.inj hsig
  -- both manifests have the message that was signed
  have hmessage := hlib.once key sig _ _ hverify hverify'
  have hmanifest := Manifest.canonicalValue_injective (hlib.faithful manifest manifest' hmessage)
  refine ⟨hmanifest, ?_⟩
  have hdigest : manifest'.sha256 = manifest.sha256 := by rw [← hmanifest]
  rw [hdigest, ← hsha] at hsha'
  exact hlib.sha256 (Sigv4.hexEncode_injective hsha'.symm)

/-! ## Signing -/

/-- What the signer signs has 64 bytes and verifies under its key. -/
def Signs (lib : PluginLib) : Prop :=
  ∀ key message, (lib.signBytes key message).length = 64 ∧
    lib.verify (lib.publicKey key) message (lib.signBytes key message) = true

/-- The floors that apply to a manifest; an empty one is none. -/
def floorsOn (manifest : Manifest) (policy : TrustPolicy) : List String :=
  ((if manifest.publisher = firstPartyPublisher then (policy.firstPartyFloors.lookup manifest.name).toList else []) ++
    (policy.minVersions.lookup manifest.name).toList).filter (fun floor => floor ≠ "")

theorem toAsciiLowercase_hexEncode (bs : Bytes) : Sigv4.toAsciiLowercase (hexEncode bs) = hexEncode bs := by
  have hdigits : hexDigits.all (fun c => c.toLower = c) = true := by decide
  have hmap : (hexEncode bs).toList.map Char.toLower = (hexEncode bs).toList := by
    refine (List.map_congr_left fun c hc => ?_).trans (List.map_id _)
    exact of_decide_eq_true (List.all_eq_true.1 hdigits c (Sigv4.mem_hexEncode hc))
  unfold Sigv4.toAsciiLowercase
  rw [hmap, String.ofList_toList]

theorem trim_hexEncode (bs : Bytes) : trim (hexEncode bs) = hexEncode bs := by
  have hdigits : hexDigits.all (fun c => !isWhitespace c) = true := by decide
  refine Sigv4.trim_of_bare (Sigv4.bare_of_forall fun c hc => ?_)
  have hspace := List.all_eq_true.1 hdigits c (Sigv4.mem_hexEncode hc)
  rwa [Bool.not_eq_true'] at hspace

/-- **What is signed verifies.** -/
theorem verified_sign (hlib : Signs lib) {key : SigningKey} {artifact : Bytes}
    (hkey : policy.keyOf manifest.publisher = some (lib.publicKey key)) :
    VerifiedBy lib artifact (sign lib key manifest artifact) policy (lib.publicKey key) := by
  obtain ⟨hlen, hverify⟩ := hlib key ({ manifest with sha256 := sha256Hex lib artifact, signature := "" }.canonicalBytes lib)
  refine ⟨?_, hkey, signatureOk_iff.2 ⟨?_, _, hexDecode_hexEncode _, hlen, ?_⟩⟩
  · unfold sign
    dsimp only
    rw [trim_hexEncode]
    refine Sigv4.hexEncode_ne_empty fun hnil => ?_
    rw [hnil] at hlen
    cases hlen
  · exact (toAsciiLowercase_hexEncode _).symm
  · -- the signature that was put in is not part of the message
    have hmessage : (sign lib key manifest artifact).canonicalBytes lib =
        { manifest with sha256 := sha256Hex lib artifact, signature := "" }.canonicalBytes lib :=
      congrArg lib.toVec (Manifest.canonicalValue_signature _ _)
    rw [hmessage]
    exact hverify

theorem mem_floorsOn {floor : String} : floor ∈ floorsOn manifest policy ↔
    ((manifest.publisher = firstPartyPublisher ∧ policy.firstPartyFloors.lookup manifest.name = some floor) ∨
      policy.minVersions.lookup manifest.name = some floor) ∧ floor ≠ "" := by
  unfold floorsOn
  rw [List.mem_filter, List.mem_append, decide_eq_true_eq, Option.mem_toList]
  by_cases hfirst : manifest.publisher = firstPartyPublisher
  · rw [if_pos hfirst, Option.mem_toList]
    simp [hfirst]
  · rw [if_neg hfirst]
    simp [hfirst]

/-- **A trusted manifest** has a verdict if no floor refuses its version, and the verdict is trust. -/
theorem evaluate_verified {key : VerifyingKey} {v : Verdict} (h : VerifiedBy lib bytes manifest policy key) :
    evaluate lib bytes manifest policy = .ok v ↔
      (∀ floor ∈ floorsOn manifest policy, versionAtLeast manifest.version floor = true) ∧
        v = .trusted manifest.publisher (decide (manifest.publisher = firstPartyPublisher)) := by
  rw [evaluate_ok, trust_ok.2 ⟨⟨key, h⟩, rfl⟩, firstPartyCheck_ok, minVersionCheck_ok, decide_eq_true_eq]
  unfold resolve
  constructor
  · rintro ⟨hfirst, hmin, hv⟩
    refine ⟨fun floor hfloor => ?_, (Except.ok.inj hv).symm⟩
    obtain ⟨⟨hpub, hlookup⟩ | hlookup, hne⟩ := mem_floorsOn.1 hfloor
    · exact hfirst hpub floor hlookup hne
    · exact (hmin floor hlookup).2
  · rintro ⟨hfloors, rfl⟩
    refine ⟨fun hpub floor hlookup hne => hfloors floor (mem_floorsOn.2 ⟨Or.inl ⟨hpub, hlookup⟩, hne⟩), ?_, rfl⟩
    intro floor hlookup
    refine ⟨⟨_, rfl⟩, ?_⟩
    by_cases hempty : floor = ""
    · rw [hempty]
      exact versionAtLeast_empty _
    · exact hfloors floor (mem_floorsOn.2 ⟨Or.inr hlookup, hempty⟩)

/-- **A trusted plugin cannot be altered.** Two plugins with one signature that are trusted by one key are the same in
every field but the text of the signature, and in their bytes; and what `sign` makes with the key the policy has for the
publisher is trusted when no floor applies. -/
theorem trusted_plugin_bound :
    (∀ lib : PluginLib, Binds lib → ∀ (policy : TrustPolicy) (key : VerifyingKey) (manifest manifest' : Manifest)
      (bytes bytes' : Bytes) (publisher publisher' : String) (firstParty firstParty' : Bool),
      evaluate lib bytes manifest policy = .ok (.trusted publisher firstParty) →
      evaluate lib bytes' manifest' policy = .ok (.trusted publisher' firstParty') →
      policy.keyOf manifest.publisher = some key → policy.keyOf manifest'.publisher = some key →
      hexDecode manifest.signature = hexDecode manifest'.signature →
        { manifest' with signature := manifest.signature } = manifest ∧ bytes = bytes') ∧
    ∀ lib : PluginLib, Signs lib → ∀ (policy : TrustPolicy) (key : SigningKey) (manifest : Manifest) (artifact : Bytes),
      policy.keyOf manifest.publisher = some (lib.publicKey key) → floorsOn manifest policy = [] →
        evaluate lib artifact (sign lib key manifest artifact) policy =
          .ok (.trusted manifest.publisher (decide (manifest.publisher = firstPartyPublisher))) := by
  refine ⟨?_, ?_⟩
  · intro lib hlib policy key manifest manifest' bytes bytes' publisher publisher' fp fp' h h' hkey hkey' hsig
    obtain ⟨k, -, hk, hok⟩ := verified_of_trusted h
    obtain ⟨k', -, hk', hok'⟩ := verified_of_trusted h'
    obtain rfl := Option.some.inj (hkey.symm.trans hk)
    obtain rfl := Option.some.inj (hkey'.symm.trans hk')
    exact bound_of_verified hlib hok hok' hsig
  · intro lib hlib policy key manifest artifact hkey hfloors
    refine (evaluate_verified (verified_sign hlib hkey)).2 ⟨fun floor hfloor => ?_, rfl⟩
    -- the floors are those of the name and the publisher, which `sign` keeps
    have hnone : floor ∈ floorsOn manifest policy := hfloor
    rw [hfloors] at hnone
    cases hnone

/-! ## A store plugin -/

namespace Sample

def secretKey : SigningKey :=
  [0x9d, 0x61, 0xb1, 0x9d, 0xef, 0xfd, 0x5a, 0x60, 0xba, 0x84, 0x4a, 0xf4, 0x92, 0xec, 0x2c, 0xc4, 0x44, 0x49, 0xc5,
    0x69, 0x7b, 0x32, 0x69, 0x19, 0x70, 0x3b, 0xac, 0x03, 0x1c, 0xae, 0x7f, 0x60]

def publicKey : VerifyingKey :=
  [0xd7, 0x5a, 0x98, 0x01, 0x82, 0xb1, 0x0a, 0xb7, 0xd5, 0x4b, 0xfe, 0xd3, 0xc9, 0x64, 0x07, 0x3a, 0x0e, 0xe1, 0x72,
    0xf3, 0xda, 0xa6, 0x23, 0x25, 0xaf, 0x02, 0x1a, 0x68, 0xf7, 0x07, 0x51, 0x1a]

def library : Bytes := [0x7f, 0x45, 0x4c, 0x46]

def digest : Bytes :=
  [0x3b, 0xdb, 0xb4, 0xfe, 0x83, 0x97, 0xcd, 0x2b, 0x84, 0x24, 0x30, 0xb3, 0x9c, 0xcf, 0xf0, 0x1a, 0x86, 0x63, 0xc7,
    0x51, 0x94, 0x5e, 0xf5, 0xe9, 0xa0, 0x9e, 0x26, 0x7f, 0xb8, 0xb1, 0xd3, 0x59]

def signature : Bytes :=
  [0x01, 0x69, 0xc4, 0xba, 0x15, 0xf6, 0x44, 0xcf, 0x44, 0xb3, 0xe9, 0xae, 0x9b, 0x23, 0x40, 0x37, 0xc9, 0xff, 0x18,
    0x71, 0x2b, 0x4a, 0xb7, 0xa2, 0xc3, 0xca, 0x7d, 0xa9, 0x04, 0x99, 0x68, 0xbf, 0x89, 0x1e, 0x33, 0x90, 0x6b, 0xb0,
    0xa4, 0x2f, 0x12, 0x42, 0x06, 0xd4, 0xe7, 0x7b, 0x47, 0x83, 0x58, 0xcf, 0x5a, 0x1d, 0x9d, 0x75, 0x41, 0x69, 0x59,
    0x4c, 0x9a, 0x86, 0xb4, 0x93, 0x5a, 0x0c]

/-- The plugin of the publisher `acme`, as its authors write it. -/
def draft : Manifest where
  name := "busbar-store-valkey-plugin"
  «alias» := "valkey"
  kind := "store"
  version := "1.0.0"
  publisher := "acme"
  abiVersion := 1
  sha256 := ""
  signature := ""
  description := ""
  homepage := ""
  license := "Apache-2.0"
  needs := ⟨.no, .no⟩
  settingsSchema := none
  schemaDerived := false
  host := none

def signed : Manifest := { draft with sha256 := hexEncode digest, signature := hexEncode signature }

/-- The same manifest with its signature in upper case. -/
def shouted : Manifest := { signed with signature := String.ofList (signed.signature.toList.map Char.toUpper) }

def toVec (v : Json) : Bytes := utf8 (String.ofList (jsonText v))

def message : Bytes := toVec signed.canonicalValue

/-- The library that has signed the plugin, and nothing else under the publisher's key. -/
def signer : PluginLib where
  sha256 := Equiv.swap library digest
  publicKey key := if key = secretKey then publicKey else []
  signBytes key m := if key = secretKey ∧ m = message then signature else List.replicate 64 0
  verify key m sig := (key ≠ publicKey ∨ m ≠ message) || decide (sig = signature)
  toVec := toVec
  hexError := fun s => s

/-- The library in which the publisher's key verifies this one message. -/
def verifier : PluginLib := { signer with verify := fun key m sig => decide (key = publicKey ∧ m = message ∧ sig = signature) }

def allowing (floors : Table String String) : TrustPolicy where
  firstPartyKey := none
  firstPartyFloors := Registry.empty
  publishers := Table.insert "acme" publicKey Registry.empty
  allowUnsigned := false
  allowThirdParty := false
  minVersions := floors

theorem sha256_library : sha256Hex signer library = hexEncode digest := by
  exact congrArg hexEncode (Equiv.swap_apply_left library digest)

theorem toVec_faithful (m m' : Manifest) (h : toVec m.canonicalValue = toVec m'.canonicalValue) :
    m.canonicalValue = m'.canonicalValue := by
  have htext := utf8_injective h
  rw [String.ofList_inj] at htext
  exact canonicalText_injective htext

theorem binds_verifier : Binds verifier where
  sha256 := (Equiv.swap library digest).injective
  once _ _ _ _ h h' := (of_decide_eq_true h).2.1.trans (of_decide_eq_true h').2.1.symm
  faithful := toVec_faithful

theorem signs_signer : Signs signer := by
  intro key m
  have hempty : ([] : VerifyingKey) ≠ publicKey := by decide
  unfold signer
  dsimp only
  by_cases hkey : key = secretKey
  · by_cases hm : m = message
    · rw [if_pos ⟨hkey, hm⟩, decide_eq_true rfl, Bool.or_true]
      exact ⟨rfl, rfl⟩
    · rw [if_neg (fun h => hm h.2), decide_eq_true (Or.inr hm), Bool.true_or]
      exact ⟨List.length_replicate, rfl⟩
  · rw [if_neg (fun h => hkey h.1), if_neg hkey, decide_eq_true (Or.inl hempty), Bool.true_or]
    exact ⟨List.length_replicate, rfl⟩

theorem toAsciiLowercase_digest : Sigv4.toAsciiLowercase signed.sha256 = hexEncode digest := toAsciiLowercase_hexEncode digest

/-- Both spellings of the signature verify. -/
theorem verified {m : Manifest} (hm : m.canonicalValue = signed.canonicalValue) (hsha : m.sha256 = signed.sha256)
    (hhex : hexDecode m.signature = some signature) : signatureOk verifier m library publicKey = .ok () := by
  refine signatureOk_iff.2 ⟨?_, signature, hhex, rfl, ?_⟩
  · rw [hsha, toAsciiLowercase_digest]
    exact sha256_library
  · have hmessage : m.canonicalBytes verifier = message := congrArg toVec hm
    exact decide_eq_true ⟨rfl, hmessage, rfl⟩

theorem verifiedBy (floors : Table String String) {m : Manifest} (hm : m.canonicalValue = signed.canonicalValue)
    (hsha : m.sha256 = signed.sha256) (hhex : hexDecode m.signature = some signature) (hsig : trim m.signature ≠ "")
    (hpub : m.publisher = "acme") : VerifiedBy verifier library m (allowing floors) publicKey := by
  refine ⟨hsig, ?_, verified hm hsha hhex⟩
  rw [hpub]
  rfl

theorem trusted {m : Manifest} (h : VerifiedBy verifier library m (allowing Registry.empty) publicKey)
    (hpub : m.publisher = "acme") : evaluate verifier library m (allowing Registry.empty) = .ok (.trusted "acme" false) := by
  have hfloors : floorsOn m (allowing Registry.empty) = [] := by
    unfold floorsOn
    rw [hpub]
    rfl
  refine (evaluate_verified h).2 ⟨fun floor hfloor => ?_, ?_⟩
  · rw [hfloors] at hfloor
    cases hfloor
  · rw [hpub]
    rfl

theorem toList_shouted : shouted.signature.toList = (hexEncode signature).toList.map Char.toUpper := String.toList_ofList

theorem hexDecode_shouted : hexDecode shouted.signature = some signature := by
  unfold hexDecode
  rw [toList_shouted]
  unfold hexEncode
  rw [String.toList_ofList]
  decide +kernel

theorem trim_shouted : trim shouted.signature ≠ "" := by
  have hdigits : hexDigits.all (fun c => !isWhitespace c.toUpper) = true := by decide
  have hbare : trim shouted.signature = shouted.signature := by
    refine Sigv4.trim_of_bare (Sigv4.bare_of_forall fun c hc => ?_)
    rw [toList_shouted] at hc
    obtain ⟨d, hd, rfl⟩ := List.mem_map.1 hc
    have hspace := List.all_eq_true.1 hdigits d (Sigv4.mem_hexEncode hd)
    rwa [Bool.not_eq_true'] at hspace
  rw [hbare]
  intro hempty
  have hdecode := hexDecode_shouted
  rw [hempty] at hdecode
  cases hdecode

theorem trim_signed : trim signed.signature ≠ "" := by
  have hsignature : signed.signature = hexEncode signature := rfl
  rw [hsignature, trim_hexEncode]
  exact Sigv4.hexEncode_ne_empty (List.cons_ne_nil _ _)

theorem verifiedBy_signed (floors : Table String String) : VerifiedBy verifier library signed (allowing floors) publicKey :=
  verifiedBy floors rfl rfl (hexDecode_hexEncode _) trim_signed rfl

theorem verifiedBy_shouted (floors : Table String String) : VerifiedBy verifier library shouted (allowing floors) publicKey :=
  verifiedBy floors (Manifest.canonicalValue_signature _ _) rfl hexDecode_shouted trim_shouted rfl

end Sample

/-- The signature in lower case and in upper case, and the signing of the draft. -/
theorem trusted_plugin_bound_sample :
    { Sample.shouted with signature := Sample.signed.signature } = Sample.signed ∧ Sample.library = Sample.library ∧
    evaluate Sample.signer Sample.library (sign Sample.signer Sample.secretKey Sample.draft Sample.library)
      (Sample.allowing (Table.insert "other" "2.0.0" Registry.empty)) = .ok (.trusted "acme" false) := by
  have hsame : hexDecode Sample.signed.signature = hexDecode Sample.shouted.signature :=
    (hexDecode_hexEncode _).trans Sample.hexDecode_shouted.symm
  have hone := Sample.trusted (Sample.verifiedBy_signed Registry.empty) rfl
  have htwo := Sample.trusted (Sample.verifiedBy_shouted Registry.empty) rfl
  have hkey : ∀ floors, (Sample.allowing floors).keyOf "acme" = some Sample.publicKey := fun floors => rfl
  obtain ⟨hmanifest, hbytes⟩ := trusted_plugin_bound.1 Sample.verifier Sample.binds_verifier (Sample.allowing Registry.empty)
    Sample.publicKey Sample.signed Sample.shouted Sample.library Sample.library "acme" "acme" false false hone htwo
    (hkey _) (hkey _) hsame
  refine ⟨hmanifest, hbytes, ?_⟩
  exact trusted_plugin_bound.2 Sample.signer Sample.signs_signer (Sample.allowing (Table.insert "other" "2.0.0" Registry.empty)) Sample.secretKey
    Sample.draft Sample.library rfl rfl

end Busbar.Plugins
