import Busbar.Auth.Sigv4
import Busbar.Json
import Busbar.Proto.ToolIds

/-!
# The trust decision for a plugin

A plugin is a library with a manifest that a publisher has signed: the manifest names the digest of the library, and the
signature covers the manifest. The policy holds the keys, the version floors and two flags that let untrusted plugins in.
SHA-256, ed25519 and the JSON serializer are the fields of `PluginLib`.

* `Manifest.canonicalBytes`, `sign`, `signatureOk`: what is signed and how it is checked.
* `versionAtLeast`, `validSemver`: the comparison with a floor.
* `evaluate`: the verdict, by the trust found, then the floors, then the flags.
-/

namespace Busbar.Plugins

abbrev VerifyingKey := Bytes
abbrev SigningKey := Bytes

/-- The digest, the signature scheme, the JSON serializer, and the text of an error of the hex decoder. -/
structure PluginLib where
  sha256 : Bytes → Bytes
  publicKey : SigningKey → VerifyingKey
  signBytes : SigningKey → Bytes → Bytes
  verify : VerifyingKey → Bytes → Bytes → Bool
  toVec : Json → Bytes
  hexError : String → String

def firstPartyPublisher : String := "busbar"

/-! ## The manifest -/

inductive NeedLevel where
  | no | ro | rw
  deriving DecidableEq, Repr

def NeedLevel.asStr : NeedLevel → String
  | no => "no"
  | ro => "ro"
  | rw => "rw"

structure HookNeeds where
  prompt : NeedLevel
  user : NeedLevel
  deriving DecidableEq, Repr

structure Manifest where
  name : String
  «alias» : String
  kind : String
  version : String
  publisher : String
  abiVersion : Nat
  sha256 : String
  signature : String
  description : String
  homepage : String
  license : String
  needs : HookNeeds
  settingsSchema : Option String
  schemaDerived : Bool
  host : Option String
  deriving DecidableEq, Repr

namespace Manifest

def needsValue (n : HookNeeds) : Json :=
  .object [("prompt", .string n.prompt.asStr), ("user", .string n.user.asStr)]

/-- The members the manifest serializes to, in the order of its fields; an absent option is skipped. -/
def members (m : Manifest) : List (String × Json) :=
  [("name", .string m.name), ("alias", .string m.«alias»), ("kind", .string m.kind), ("version", .string m.version),
    ("publisher", .string m.publisher), ("abi_version", .number (.posInt m.abiVersion)), ("sha256", .string m.sha256),
    ("signature", .string m.signature), ("description", .string m.description), ("homepage", .string m.homepage),
    ("license", .string m.license), ("needs", needsValue m.needs)] ++
  (m.settingsSchema.toList.map fun s => ("settings_schema", .string s)) ++
  [("schema_derived", .bool m.schemaDerived)] ++
  (m.host.toList.map fun h => ("host", .string h))

/-- All members but the signature, sorted. -/
def canonicalValue (m : Manifest) : Json :=
  .object ((m.members.filter (fun e => e.1 ≠ "signature")).foldl (fun acc e => Json.insertMember e.1 e.2 acc) [])

def canonicalBytes (lib : PluginLib) (m : Manifest) : Bytes := lib.toVec m.canonicalValue

end Manifest

def sha256Hex (lib : PluginLib) (bytes : Bytes) : String := hexEncode (lib.sha256 bytes)

def sign (lib : PluginLib) (key : SigningKey) (manifest : Manifest) (artifact : Bytes) : Manifest :=
  let manifest := { manifest with sha256 := sha256Hex lib artifact, signature := "" }
  { manifest with signature := hexEncode (lib.signBytes key (manifest.canonicalBytes lib)) }

/-- The library's digest against the manifest, then the signature over the manifest. -/
def signatureOk (lib : PluginLib) (manifest : Manifest) (bytes : Bytes) (key : VerifyingKey) : Except String Unit :=
  if sha256Hex lib bytes ≠ Sigv4.toAsciiLowercase manifest.sha256 then
    .error "library hash does not match the manifest"
  else
    match hexDecode manifest.signature with
    | none => .error ("signature not hex: " ++ lib.hexError manifest.signature)
    | some sig =>
      if sig.length ≠ 64 then .error "signature must be 64 bytes"
      else if lib.verify key (manifest.canonicalBytes lib) sig then .ok ()
      else .error "signature does not verify"

/-! ## Versions -/

/-- The value of a numeral. -/
def numeral (ds : List Char) : Nat := ds.foldl (fun n c => 10 * n + (c.toNat - '0'.toNat)) 0

/-- A number of any size: digits, a plus sign before them allowed. -/
def parseNat (part : List Char) : Option Nat :=
  let ds := if part.head? = some '+' then part.tail else part
  if ds ≠ [] ∧ ds.all Char.isDigit then some (numeral ds) else none

/-- `str::parse::<u64>`. -/
def parseU64 (part : List Char) : Option Nat := (parseNat part).filter (fun n => n < 2 ^ 64)

/-- The part before a suffix that starts with `-` or `+`. -/
def core (v : List Char) : List Char := v.takeWhile (fun c => c ≠ '-' && c ≠ '+')

/-- Numbers of the first parts; the first part that is none, and all after it, count as zero. -/
def components (parse : List Char → Option Nat) : Nat → List (List Char) → List Nat
  | 0, _ => []
  | n + 1, [] => 0 :: components parse n []
  | n + 1, p :: ps =>
    match parse p with
    | some k => k :: components parse n ps
    | none => List.replicate (n + 1) 0

def versionParts (v : String) : List (List Char) := Fields.segments '.' (core (trim v).toList)

def versionComponents (v : String) : List Nat := components parseU64 3 (versionParts v)

def validSemver (v : String) : Bool :=
  let parts := Fields.segments '.' (core v.toList)
  parts.length = 3 && parts.all (fun p => !p.isEmpty && p.all Char.isDigit)

/-- The order of arrays: the first difference decides. -/
def lexLe : List Nat → List Nat → Bool
  | [], _ => true
  | _ :: _, [] => false
  | a :: as, b :: bs => a < b || (a = b && lexLe as bs)

/-- A floor that is not a version admits nothing; an empty one admits everything. -/
def versionAtLeast (have_ floor : String) : Bool :=
  if floor ≠ "" ∧ validSemver floor = false then false
  else lexLe (versionComponents floor) (versionComponents have_)

def floorNote (floor : String) : String :=
  if floor = "" ∨ validSemver floor = true then ""
  else " — NOTE: this floor is not a valid MAJOR.MINOR.PATCH version (no leading 'v', e.g. '1.6.0'), so nothing can " ++
    "satisfy it. An unparsable floor used to read as 0.0.0, which every version satisfies, silently disarming this " ++
    "control; it now refuses instead. Fix or remove the entry."

/-! ## The policy -/

structure TrustPolicy where
  firstPartyKey : Option VerifyingKey
  firstPartyFloors : Table String String
  publishers : Table String VerifyingKey
  allowUnsigned : Bool
  allowThirdParty : Bool
  minVersions : Table String String

inductive AllowReason where
  | unsigned | thirdParty
  deriving DecidableEq, Repr

inductive Verdict where
  | trusted (publisher : String) (firstParty : Bool)
  | allowed (reason : String) (allow : AllowReason)
  deriving DecidableEq, Repr

inductive RejectKind where
  | antiDowngrade | untrustedFloored | unsigned | tampered | unknownPublisher
  deriving DecidableEq, Repr

structure Rejected where
  kind : RejectKind
  reason : String
  deriving DecidableEq, Repr

/-- Why an artifact is not signed by a trusted key. -/
inductive Untrusted where
  | unsigned (reason : String) (tampered : Bool)
  | thirdParty (publisher : String)
  deriving DecidableEq, Repr

/-- Which key, if any, proves the manifest: the first-party one or a listed publisher's. -/
def trust (lib : PluginLib) (bytes : Bytes) (manifest : Manifest) (policy : TrustPolicy) : Except Untrusted Bool :=
  if trim manifest.signature = "" then .error (.unsigned "manifest carries no signature" false)
  else if manifest.publisher = firstPartyPublisher then
    match policy.firstPartyKey with
    | none =>
      .error (.unsigned ("manifest claims first-party publisher '" ++ firstPartyPublisher
        ++ "' but this build embeds no busbar release key, so it cannot be verified") false)
    | some key =>
      match signatureOk lib manifest bytes key with
      | .ok () => .ok true
      | .error reason => .error (.unsigned ("first-party signature failed: " ++ reason) true)
  else
    match policy.publishers.lookup manifest.publisher with
    | none => .error (.thirdParty manifest.publisher)
    | some key =>
      match signatureOk lib manifest bytes key with
      | .ok () => .ok false
      | .error reason =>
        .error (.unsigned ("signature from allowlisted publisher '" ++ manifest.publisher ++ "' failed: " ++ reason) true)

/-- The rollback pin of a first-party plugin. -/
def firstPartyCheck (manifest : Manifest) (policy : TrustPolicy) (trusted : Except Untrusted Bool) : Except Rejected Unit :=
  match trusted with
  | .ok true =>
    let floor := (policy.firstPartyFloors.lookup manifest.name).getD ""
    if floor ≠ "" ∧ versionAtLeast manifest.version floor = false then
      .error ⟨.antiDowngrade, "first-party plugin '" ++ manifest.name ++ "' version " ++ manifest.version
        ++ " is below the required first-party floor " ++ floor ++ " (automatic first-party anti-downgrade)"
        ++ floorNote floor⟩
    else .ok ()
  | _ => .ok ()

/-- The configured floor, which only a trusted manifest can meet. -/
def minVersionCheck (manifest : Manifest) (policy : TrustPolicy) (trusted : Except Untrusted Bool) :
    Except Rejected Unit :=
  match policy.minVersions.lookup manifest.name with
  | none => .ok ()
  | some floor =>
    match trusted with
    | .ok _ =>
      if versionAtLeast manifest.version floor then .ok ()
      else
        .error ⟨.antiDowngrade, "plugin '" ++ manifest.name ++ "' version " ++ manifest.version
          ++ " is below the pinned minimum " ++ floor ++ " (anti-downgrade)" ++ floorNote floor⟩
    | .error _ =>
      .error ⟨.untrustedFloored, "plugin '" ++ manifest.name ++ "' has a pinned minimum version " ++ floor
        ++ " but the load could not prove it meets the floor (not signed by a trusted key); a trusted manifest at or "
        ++ "above the floor is required (anti-downgrade)" ++ floorNote floor⟩

/-- The verdict once no floor stands in the way. -/
def resolve (manifest : Manifest) (policy : TrustPolicy) : Except Untrusted Bool → Except Rejected Verdict
  | .ok firstParty => .ok (.trusted manifest.publisher firstParty)
  | .error (.unsigned reason tampered) =>
    if policy.allowUnsigned then .ok (.allowed reason .unsigned)
    else
      .error ⟨if tampered then .tampered else .unsigned, reason ++ "; refusing to load an unsigned plugin. Set "
        ++ "plugins.trust.allow_unsigned=true to permit unsigned plugins."⟩
  | .error (.thirdParty publisher) =>
    if policy.allowThirdParty then .ok (.allowed ("signed by non-allowlisted publisher '" ++ publisher ++ "'") .thirdParty)
    else
      .error ⟨.unknownPublisher, "publisher '" ++ publisher ++ "' is not in the allowlist; refusing to load a "
        ++ "third-party plugin. Add the publisher to plugins.trust.publishers, or set "
        ++ "plugins.trust.allow_third_party=true to permit third-party plugins."⟩

def evaluate (lib : PluginLib) (bytes : Bytes) (manifest : Manifest) (policy : TrustPolicy) :
    Except Rejected Verdict := do
  let trusted := trust lib bytes manifest policy
  firstPartyCheck manifest policy trusted
  minVersionCheck manifest policy trusted
  resolve manifest policy trusted

/-! ## Versions in order -/

theorem length_components (parse : List Char → Option Nat) (n : Nat) (ps : List (List Char)) :
    (components parse n ps).length = n := by
  induction n generalizing ps with
  | zero => rfl
  | succ n ih =>
    cases ps with
    | nil => exact congrArg (· + 1) (ih [])
    | cons p ps =>
      unfold components
      cases parse p with
      | none => exact List.length_replicate
      | some k => exact congrArg (· + 1) (ih ps)

theorem lexLe_cons {a b : Nat} {as bs : List Nat} :
    lexLe (a :: as) (b :: bs) = true ↔ a < b ∨ (a = b ∧ lexLe as bs = true) := by
  have hcons : lexLe (a :: as) (b :: bs) = (a < b || (a = b && lexLe as bs)) := rfl
  rw [hcons, Bool.or_eq_true, Bool.and_eq_true, decide_eq_true_eq, decide_eq_true_eq]

/-- Nothing is below zeros. -/
theorem zeros_lexLe (l : List Nat) : lexLe (List.replicate l.length 0) l = true := by
  induction l with
  | nil => rfl
  | cons a l ih =>
    rw [List.length_cons, List.replicate_succ, lexLe_cons]
    rcases Nat.eq_zero_or_pos a with rfl | ha
    · exact Or.inr ⟨rfl, ih⟩
    · exact Or.inl ha

/-- An empty floor is none. -/
theorem versionAtLeast_empty (v : String) : versionAtLeast v "" = true := by
  have hzeros : versionComponents "" = List.replicate 3 0 := by decide
  have hle := zeros_lexLe (versionComponents v)
  unfold versionAtLeast
  rw [if_neg (fun h => h.1 rfl), hzeros]
  unfold versionComponents at hle ⊢
  rw [length_components] at hle
  exact hle

/-! ## What each stage says -/

variable {lib : PluginLib} {bytes : Bytes} {manifest : Manifest} {policy : TrustPolicy} {v : Verdict}

/-- The key a publisher's manifests are checked with. -/
def TrustPolicy.keyOf (policy : TrustPolicy) (publisher : String) : Option VerifyingKey :=
  if publisher = firstPartyPublisher then policy.firstPartyKey else policy.publishers.lookup publisher

/-- A trusted key has verified the manifest with this library. -/
def VerifiedBy (lib : PluginLib) (bytes : Bytes) (manifest : Manifest) (policy : TrustPolicy) (key : VerifyingKey) : Prop :=
  trim manifest.signature ≠ "" ∧ policy.keyOf manifest.publisher = some key ∧ signatureOk lib manifest bytes key = .ok ()

/-- **The first stage.** Trust is a signature that verifies under the publisher's key. -/
theorem trust_ok {firstParty : Bool} : trust lib bytes manifest policy = .ok firstParty ↔
    (∃ key, VerifiedBy lib bytes manifest policy key) ∧ firstParty = decide (manifest.publisher = firstPartyPublisher) := by
  have hcheck : ∀ {keys : Option VerifyingKey} {fp : Bool} {e : Untrusted} {f : String → Untrusted},
      (match keys with
        | none => .error e
        | some key => match signatureOk lib manifest bytes key with
          | .ok () => .ok fp
          | .error reason => .error (f reason) : Except Untrusted Bool) = .ok firstParty ↔
        (∃ key, keys = some key ∧ signatureOk lib manifest bytes key = .ok ()) ∧ firstParty = fp := by
    intro keys fp e f
    cases keys with
    | none => simp
    | some key =>
      dsimp only
      cases hsig : signatureOk lib manifest bytes key with
      | ok u => simp [hsig, eq_comm]
      | error reason => simp [hsig]
  unfold trust VerifiedBy TrustPolicy.keyOf
  by_cases hempty : trim manifest.signature = ""
  · rw [if_pos hempty]
    simp [hempty]
  · rw [if_neg hempty]
    by_cases hfirst : manifest.publisher = firstPartyPublisher
    · rw [if_pos hfirst, if_pos hfirst]
      simp only [ne_eq, hempty, not_false_eq_true, true_and, hfirst, decide_true]
      exact hcheck
    · rw [if_neg hfirst, if_neg hfirst]
      simp only [ne_eq, hempty, not_false_eq_true, true_and, hfirst, decide_false]
      exact hcheck

/-- The first-party floor lets a version at or above it through. -/
theorem firstPartyCheck_ok {firstParty : Bool} : firstPartyCheck manifest policy (.ok firstParty) = .ok () ↔
    (firstParty = true → ∀ floor, policy.firstPartyFloors.lookup manifest.name = some floor → floor ≠ "" →
      versionAtLeast manifest.version floor = true) := by
  unfold firstPartyCheck
  cases firstParty with
  | false => simp
  | true =>
    dsimp only
    cases hlookup : policy.firstPartyFloors.lookup manifest.name with
    | none => simp
    | some floor =>
      rw [Option.getD_some]
      by_cases hbelow : floor ≠ "" ∧ versionAtLeast manifest.version floor = false
      · rw [if_pos hbelow]
        simp [hbelow]
      · rw [if_neg hbelow]
        rw [not_and, Bool.not_eq_false] at hbelow
        simpa using hbelow

/-- The configured floor lets what is trusted through, at or above it; an empty floor is below every version. -/
theorem minVersionCheck_ok {trusted : Except Untrusted Bool} : minVersionCheck manifest policy trusted = .ok () ↔
    ∀ floor, policy.minVersions.lookup manifest.name = some floor →
      (∃ firstParty, trusted = .ok firstParty) ∧ versionAtLeast manifest.version floor = true := by
  unfold minVersionCheck
  cases hlookup : policy.minVersions.lookup manifest.name with
  | none => simp
  | some floor =>
    cases trusted with
    | error u => simp
    | ok firstParty =>
      dsimp only
      by_cases hle : versionAtLeast manifest.version floor = true
      · rw [if_pos hle]
        simp [hle]
      · rw [if_neg hle]
        simp [hle]

/-- **The cascade.** A verdict is what is left when both floors let the manifest through. -/
theorem evaluate_ok : evaluate lib bytes manifest policy = .ok v ↔
    firstPartyCheck manifest policy (trust lib bytes manifest policy) = .ok () ∧
      minVersionCheck manifest policy (trust lib bytes manifest policy) = .ok () ∧
      resolve manifest policy (trust lib bytes manifest policy) = .ok v := by
  unfold evaluate
  dsimp only
  cases hfirst : firstPartyCheck manifest policy (trust lib bytes manifest policy) with
  | error e => simp [bind, Except.bind]
  | ok u =>
    cases hmin : minVersionCheck manifest policy (trust lib bytes manifest policy) with
    | error e => simp [bind, Except.bind]
    | ok u' => simp [bind, Except.bind]

end Busbar.Plugins
