import Busbar.Api.Store
import Busbar.Governance.Civil
import Busbar.Lib.Fields
import Mathlib.Data.List.Sort
import Mathlib.Data.String.Basic

/-!
# Request signatures, version 4

A signature covers a canonical request: method, path, query, the signed headers and the payload's hash, one
a line. The verifier parses the `Authorization` header, picks the signed headers out of the request and
signs again with the secret it knows. SHA-256, HMAC-SHA256 and the lower case of letters outside ASCII are
the fields of `SigLib`.

* `signV4`: the signer, which the verifier uses too.
* `parseAuthorizationHeader`, `parseAmzDate`: what the verifier reads.
* `verifyInboundSigv4`: the verifier.
* `canonicalQueryString`, `verifyBedrockSigv4`: its caller.
-/

namespace Busbar

/-- The digests, and the lower case of text that is not ASCII. -/
structure SigLib where
  sha256 : Bytes → Bytes
  hmacSha256 : Bytes → Bytes → Bytes
  unicodeLower : String → String

namespace Sigv4

def algorithm : String := "AWS4-HMAC-SHA256"
def termination : String := "aws4_request"
def keyPrefix : String := "AWS4"
def xAmzDate : String := "x-amz-date"
def xAmzContentSha256 : String := "x-amz-content-sha256"

/-! ## Text -/

/-- `str::to_ascii_lowercase`. -/
def toAsciiLowercase (s : String) : String := String.ofList (s.toList.map Char.toLower)

def eqIgnoreAsciiCase (a b : String) : Bool := toAsciiLowercase a = toAsciiLowercase b

def isAscii (c : Char) : Bool := c.toNat < 128

/-- `str::to_lowercase`. -/
def toLowercase (lib : SigLib) (s : String) : String :=
  if s.toList.all isAscii then toAsciiLowercase s else lib.unicodeLower s

/-- `str::split` at a character. -/
def split (c : Char) (s : String) : List String := (Fields.segments c s.toList).map String.ofList

/-- `slice::join`. -/
def join (sep : String) (parts : List String) : String := sep.intercalate parts

/-- `busbar_api::constant_time_eq`: the lengths first, then the bytes, their differences gathered. -/
def constantTimeEq (a b : String) : Bool :=
  if (utf8 a).length ≠ (utf8 b).length then false
  else ((utf8 a).zip (utf8 b)).foldl (fun result p => result ||| (p.1 ^^^ p.2)) 0 = 0

def sha256Hex (lib : SigLib) (data : Bytes) : String := hexEncode (lib.sha256 data)

/-! ## The signer -/

def signingKey (lib : SigLib) (secret datestamp region service : String) : Bytes :=
  let kDate := lib.hmacSha256 (utf8 (keyPrefix ++ secret)) (utf8 datestamp)
  let kRegion := lib.hmacSha256 kDate (utf8 region)
  let kService := lib.hmacSha256 kRegion (utf8 service)
  lib.hmacSha256 kService (utf8 termination)

def isUnreserved (b : UInt8) : Bool :=
  (0x41 ≤ b && b ≤ 0x5A) || (0x61 ≤ b && b ≤ 0x7A) || (0x30 ≤ b && b ≤ 0x39) ||
    b = 0x2D || b = 0x5F || b = 0x2E || b = 0x7E || b = 0x2F

def hexUpper : List Char := ['0', '1', '2', '3', '4', '5', '6', '7', '8', '9', 'A', 'B', 'C', 'D', 'E', 'F']

def uriEncodePath (path : String) : String :=
  String.ofList ((utf8 path).flatMap fun b =>
    if isUnreserved b then [Char.ofNat b.toNat]
    else ['%', hexUpper.getD (b.toNat / 16) '0', hexUpper.getD (b.toNat % 16) '0'])

/-- The last digits of a number. -/
def lastDigits : Nat → Nat → List Char
  | 0, _ => []
  | width + 1, n => lastDigits width (n / 10) ++ [(n % 10).digitChar]

/-- `format!` with a width and leading zeros: a longer number is written whole. -/
def zeroPadded (width n : Nat) : String :=
  if n < 10 ^ width then String.ofList (lastDigits width n) else toString n

/-- The time as `YYYYMMDDTHHMMSSZ`, and its date as `YYYYMMDD`. The formula for the date is the ledger's. -/
def formatAmzTime (epochSecs : Nat) : String × String :=
  let days : Int := (epochSecs / 86400 : Nat)
  let sod := epochSecs % 86400
  let (h, mi, s) := (sod / 3600, sod % 3600 / 60, sod % 60)
  let (year, month, day) := civilFromDays days
  let date := zeroPadded 4 year.toNat ++ zeroPadded 2 month.toNat ++ zeroPadded 2 day.toNat
  (date ++ "T" ++ zeroPadded 2 h ++ zeroPadded 2 mi ++ zeroPadded 2 s ++ "Z", date)

/-- One character of a header value: a space waits for the next character that is none. -/
def canonicalizeStep (state : List Char × Bool) (ch : Char) : List Char × Bool :=
  if ch = ' ' then (state.1, true)
  else if state.2 ∧ state.1 ≠ [] then (state.1 ++ [' ', ch], false)
  else (state.1 ++ [ch], false)

def canonicalizeHeaderValue (v : String) : String := String.ofList (v.toList.foldl canonicalizeStep ([], false)).1

abbrev Header := String × String

/-- The order `sort_by` is given, which keeps headers of one name in their order. -/
def byName (a b : Header) : Prop := a.1 ≤ b.1

instance : DecidableRel byName := fun a b => inferInstanceAs (Decidable (a.1 ≤ b.1))

/-- The headers as they are signed. -/
def canonicalHeaders (lib : SigLib) (headers : List Header) : List Header :=
  (headers.map (fun h => (toLowercase lib h.1, canonicalizeHeaderValue h.2))).insertionSort byName

def signedNames (lib : SigLib) (headers : List Header) : String :=
  join ";" ((canonicalHeaders lib headers).map Prod.fst)

def canonicalRequest (lib : SigLib) (method canonicalUri canonicalQuerystring : String) (headers : List Header)
    (payloadHash : String) : String :=
  let lines := String.join ((canonicalHeaders lib headers).map (fun h => h.1 ++ ":" ++ h.2 ++ "\n"))
  method ++ "\n" ++ canonicalUri ++ "\n" ++ canonicalQuerystring ++ "\n" ++ lines ++ "\n" ++
    signedNames lib headers ++ "\n" ++ payloadHash

def stringToSign (lib : SigLib) (region service request amzdate datestamp : String) : String :=
  let scope := datestamp ++ "/" ++ region ++ "/" ++ service ++ "/" ++ termination
  algorithm ++ "\n" ++ amzdate ++ "\n" ++ scope ++ "\n" ++ sha256Hex lib (utf8 request)

/-- The signature, and the names of the headers it covers. -/
def signV4 (lib : SigLib) (secret region service method canonicalUri canonicalQuerystring : String)
    (headers : List Header) (payloadHash amzdate datestamp : String) : String × String :=
  let request := canonicalRequest lib method canonicalUri canonicalQuerystring headers payloadHash
  let key := signingKey lib secret datestamp region service
  (hexEncode (lib.hmacSha256 key (utf8 (stringToSign lib region service request amzdate datestamp))),
    signedNames lib headers)

/-! ## The verifier -/

def clockSkewSecs : Nat := 300

inductive VerifyError where
  | missingAuthorization | malformedAuthorization | missingDate | expired | signedHeadersMismatch | signatureMismatch
  deriving DecidableEq, Repr

structure ParsedAuthHeader where
  accessKeyId : String
  datestamp : String
  region : String
  service : String
  signedHeaders : String
  signature : String
  deriving DecidableEq, Repr

/-- The sections of the header found so far. -/
structure Sections where
  credential : Option String
  signedHeaders : Option String
  signature : Option String

/-- The sections in any order; the last of a kind wins, and one of another kind is skipped. -/
def readSections (found : Sections) : List String → Option Sections
  | [] => some found
  | part :: rest =>
    match splitOnce '=' (trim part) with
    | none => none
    | some (k, v) =>
      if trim k = "Credential" then readSections { found with credential := some (trim v) } rest
      else if trim k = "SignedHeaders" then readSections { found with signedHeaders := some (trim v) } rest
      else if trim k = "Signature" then readSections { found with signature := some (trim v) } rest
      else readSections found rest

/-- The five parts of a credential. -/
def readCredential (credential signedHeaders signature : String) : Except VerifyError ParsedAuthHeader :=
  match split '/' credential with
  | [accessKeyId, datestamp, region, service, last] =>
    if last ≠ termination then .error .malformedAuthorization
    else if accessKeyId = "" ∨ datestamp = "" ∨ region = "" ∨ service = "" then .error .malformedAuthorization
    else .ok ⟨accessKeyId, datestamp, region, service, signedHeaders, signature⟩
  | _ => .error .malformedAuthorization

def parseAuthorizationHeader (value : String) : Except VerifyError ParsedAuthHeader :=
  match splitOnce ' ' (trim value) with
  | none => .error .missingAuthorization
  | some (algo, rest) =>
    if algo ≠ algorithm then .error .missingAuthorization
    else
      match readSections ⟨none, none, none⟩ (split ',' rest) with
      | some ⟨some credential, some signedHeaders, some signature⟩ =>
        if signature = "" ∨ signedHeaders = "" then .error .malformedAuthorization
        else readCredential credential signedHeaders signature
      | _ => .error .malformedAuthorization

/-- The number a few digits stand for. -/
def digits (cs : List Char) : Option Int :=
  if cs.all Char.isDigit then some (cs.foldl (fun n c => n * 10 + (c.toNat - 48)) 0 : Nat) else none

/-- The time a text stands for. A text with a character outside ASCII is refused, whatever its length in bytes; in any
other one the bytes are the characters. -/
def parseAmzDate (amzdate : String) : Option Nat :=
  let b := amzdate.toList
  if ¬b.all isAscii ∨ b.length ≠ 16 ∨ b[8]? ≠ some 'T' ∨ b[15]? ≠ some 'Z' then none
  else do
    let year ← digits (b.take 4)
    let month ← digits ((b.drop 4).take 2)
    let day ← digits ((b.drop 6).take 2)
    let hour ← digits ((b.drop 9).take 2)
    let min ← digits ((b.drop 11).take 2)
    let sec ← digits ((b.drop 13).take 2)
    if ¬(1 ≤ month ∧ month ≤ 12) ∨ ¬(1 ≤ day ∧ day ≤ 31) ∨ hour > 23 ∨ min > 59 ∨ sec > 60 then none
    else
      -- the ledger's formula again
      let epoch := daysFromCivil year month day * 86400 + hour * 3600 + min * 60 + sec
      if epoch < 0 then none else some epoch.toNat

structure InboundRequest where
  method : String
  canonicalUri : String
  canonicalQuerystring : String
  headers : List Header
  payloadHash : String
  amzdate : String

/-- The value of a header: the first one of that name, whatever its case. -/
def headerValue (headers : List Header) (lname : String) : Option String :=
  (headers.find? (fun h => eqIgnoreAsciiCase h.1 lname)).map Prod.snd

/-- The headers of these names, in the order of the names. -/
def selectHeaders (headers : List Header) : List String → Option (List Header)
  | [] => some []
  | name :: names => do
    let value ← headerValue headers (toAsciiLowercase name)
    let rest ← selectHeaders headers names
    some ((toAsciiLowercase name, value) :: rest)

def absDiff (a b : Nat) : Nat := (a - b) + (b - a)

def verifyInboundSigv4 (lib : SigLib) (parsed : ParsedAuthHeader) (req : InboundRequest) (secret : String)
    (now : Nat) : Except VerifyError Unit :=
  match parseAmzDate req.amzdate with
  | none => .error .missingDate
  | some reqEpoch =>
    if clockSkewSecs < absDiff reqEpoch now then .error .expired
    else if parsed.datestamp.toList ≠ req.amzdate.toList.take 8 then .error .malformedAuthorization
    else
      let signed := split ';' parsed.signedHeaders
      if ¬signed.any (fun h => eqIgnoreAsciiCase h "host") then .error .signedHeadersMismatch
      else
        match selectHeaders req.headers signed with
        | none => .error .signedHeadersMismatch
        | some selected =>
          let (computedSig, computedSignedHeaders) :=
            signV4 lib secret parsed.region parsed.service req.method req.canonicalUri req.canonicalQuerystring selected
              req.payloadHash req.amzdate parsed.datestamp
          if constantTimeEq computedSignedHeaders parsed.signedHeaders &&
              constantTimeEq computedSig parsed.signature then .ok ()
          else .error .signatureMismatch

/-! ## The caller of the verifier -/

/-- The order of `sort` on pairs. -/
def pairLe (a b : String × String) : Prop := a.1 < b.1 ∨ a.1 = b.1 ∧ a.2 ≤ b.2

instance : DecidableRel pairLe := fun a b => inferInstanceAs (Decidable (a.1 < b.1 ∨ a.1 = b.1 ∧ a.2 ≤ b.2))

/-- A parameter; one without a value has the empty one. -/
def queryPair (part : String) : String × String := (splitOnce '=' part).getD (part, "")

def queryPairs (query : String) : List (String × String) := ((split '&' query).filter (· ≠ "")).map queryPair

def canonicalQueryString (query : Option String) : String :=
  match query.filter (· ≠ "") with
  | none => ""
  | some q => join "&" (((queryPairs q).insertionSort pairLe).map (fun p => p.1 ++ "=" ++ p.2))

/-- A visible ASCII character that is none of the delimiters `(),/:;<=>?@[\]` and the braces. -/
def isTokenChar (c : Char) : Bool :=
  0x21 ≤ c.toNat ∧ c.toNat ≤ 0x7E ∧
    c.toNat ∉ [0x28, 0x29, 0x2C, 0x2F, 0x3A, 0x3B, 0x3C, 0x3D, 0x3E, 0x3F, 0x40, 0x5B, 0x5C, 0x5D, 0x7B, 0x7D]

/-- The name of a header of a request: a token in lower case. -/
structure HeaderName where
  name : String
  token : ∀ c ∈ name.toList, isTokenChar c = true
  lower : toAsciiLowercase name = name

/-- A request; the value of a header is missing where it is no text. -/
structure Request where
  method : String
  path : String
  query : Option String
  headers : List (HeaderName × Option String)

/-- `HeaderMap::get` with `to_str`: the first value, if it is text. -/
def Request.header (req : Request) (name : String) : Option String :=
  (req.headers.find? (fun h => h.1.name = name)).bind Prod.snd

/-- What the verification asks the governance state. -/
structure GovView where
  lookupCredential : String → String → Option (VirtualKey × CredentialSecret)
  isRevoked : String → Bool

def dummySecret : String := "AWS4-DUMMY-SECRET-FOR-CONSTANT-TIME-REJECT-PATH"

/-- The headers with one of the signed names and text for a value. -/
def signedSubset (parsed : ParsedAuthHeader) (req : Request) : List Header :=
  let names := ((split ';' parsed.signedHeaders).map (fun h => toAsciiLowercase (trim h))).filter (· ≠ "")
  req.headers.filterMap fun h =>
    if toAsciiLowercase h.1.name ∈ names then h.2.map (fun v => (toAsciiLowercase h.1.name, v)) else none

def verifyBedrockSigv4 (lib : SigLib) (gov : GovView) (req : Request) (body : Bytes) (now : Nat) : Option VirtualKey :=
  match parseAuthorizationHeader ((req.header "authorization").getD "") with
  | .error _ => none
  | .ok parsed =>
    let headers := signedSubset parsed req
    match (headers.find? (fun h => h.1 = xAmzContentSha256)).map Prod.snd with
    | none => none
    | some payloadHash =>
      if eqIgnoreAsciiCase payloadHash "UNSIGNED-PAYLOAD" then none
      else if ¬constantTimeEq (sha256Hex lib body) (toAsciiLowercase payloadHash) then none
      else
        match (headers.find? (fun h => h.1 = xAmzDate)).map Prod.snd with
        | none => none
        | some amzdate =>
          let inbound : InboundRequest :=
            ⟨req.method, uriEncodePath req.path, canonicalQueryString req.query, headers, payloadHash, amzdate⟩
          let found := gov.lookupCredential "sigv4" parsed.accessKeyId
          -- an unknown id is verified against a secret nobody has
          let secret := ((found.bind (fun f => f.2.plaintext)).getD dummySecret)
          match verifyInboundSigv4 lib parsed inbound secret now, found with
          | .ok (), some (key, cred) =>
            if cred.metadata.isLive now ∧ key.enabled ∧ ¬gov.isRevoked key.id then some key else none
          | _, _ => none

end Sigv4

end Busbar
