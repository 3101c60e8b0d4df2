import Busbar.Auth.SigText
import Busbar.Auth.SigTime

/-!
# Signed requests verify

A signing is what a client signs, and by whom. It writes the three sections of its `Authorization` header in some
order and its query parameters in some order. The verifier reads the sections back, finds the signed headers in
the request and signs the same text.

* `selectHeaders_of_mem`: the headers of the signed names are the signed headers.
* `parse_authorization`: the sections come back from the header.
* `verify_signed`: the verifier computes the signature it is given.
-/

namespace Busbar.Sigv4

/-! ## Names of headers -/

theorem HeaderName.isAscii {n : HeaderName} {c : Char} (hc : c ∈ n.name.toList) : isAscii c = true := by
  have h := n.token c hc
  unfold isTokenChar at h
  unfold Sigv4.isAscii
  simp only [decide_eq_true_eq] at h ⊢
  omega

/-- No character of a name separates names, sections or words. -/
theorem HeaderName.bare {n : HeaderName} {c : Char} (hc : c ∈ n.name.toList) :
    c ≠ ';' ∧ c ≠ ',' ∧ isWhitespace c = false := by
  have h := n.token c hc
  unfold isTokenChar at h
  simp only [List.mem_cons, List.not_mem_nil, or_false, not_or, decide_eq_true_eq] at h
  obtain ⟨hlow, hhigh, hnone⟩ := h
  refine ⟨?_, ?_, ?_⟩
  · rintro rfl
    exact absurd rfl hnone.2.2.2.2.2.1
  · rintro rfl
    exact absurd rfl hnone.2.2.1
  · unfold isWhitespace
    dsimp only
    simp only [Bool.or_eq_false_iff, Bool.and_eq_false_iff, decide_eq_false_iff_not]
    omega

theorem HeaderName.toLowercase_name (lib : SigLib) (n : HeaderName) : toLowercase lib n.name = n.name := by
  have hall : n.name.toList.all Sigv4.isAscii = true := List.all_eq_true.2 fun c hc => HeaderName.isAscii hc
  unfold toLowercase
  rw [if_pos hall, n.lower]

/-- The names and values of headers. -/
def fields (headers : List (HeaderName × String)) : List Header := headers.map (fun h => (h.1.name, h.2))

/-- A header with its spaces folded. -/
def folded (h : Header) : Header := (h.1, canonicalizeHeaderValue h.2)

instance : Std.Total byName := ⟨fun a b => le_total a.1 b.1⟩

instance : IsTrans Header byName := ⟨fun a b c (hab : a.1 ≤ b.1) (hbc : b.1 ≤ c.1) => hab.trans hbc⟩

section Headers

variable {headers : List Header}

/-- Lower case names are signed in their order. -/
theorem canonicalHeaders_of_lower {lib : SigLib} (h : ∀ x ∈ headers, toLowercase lib x.1 = x.1) :
    canonicalHeaders lib headers = (headers.insertionSort byName).map folded := by
  have hfold : headers.map (fun h => (toLowercase lib h.1, canonicalizeHeaderValue h.2)) = headers.map folded :=
    List.map_congr_left fun x hx => by rw [h x hx]; rfl
  unfold canonicalHeaders
  rw [hfold]
  exact (List.map_insertionSort byName byName folded headers fun a _ b _ => Iff.rfl).symm

/-- Sorted headers are signed as they stand. -/
theorem canonicalHeaders_sorted {lib : SigLib} (h : ∀ x ∈ headers, toLowercase lib x.1 = x.1) :
    canonicalHeaders lib (headers.insertionSort byName) = canonicalHeaders lib headers := by
  have hsorted : (headers.insertionSort byName).Pairwise byName := List.pairwise_insertionSort byName headers
  have hmem : ∀ x ∈ headers.insertionSort byName, toLowercase lib x.1 = x.1 := fun x hx =>
    h x ((List.mem_insertionSort byName).1 hx)
  rw [canonicalHeaders_of_lower h, canonicalHeaders_of_lower hmem, hsorted.insertionSort_eq]

variable (hlower : ∀ x ∈ headers, toAsciiLowercase x.1 = x.1)

include hlower in
/-- A header is found by its name, where no other one has that name. -/
theorem headerValue_of_mem (hnodup : (headers.map Prod.fst).Nodup) {x : Header} (hx : x ∈ headers) :
    headerValue headers x.1 = some x.2 := by
  have hxl : toAsciiLowercase x.1 = x.1 := hlower x hx
  unfold headerValue
  induction headers with
  | nil => exact absurd hx (List.not_mem_nil)
  | cons y rest ih =>
    rw [List.map_cons, List.nodup_cons] at hnodup
    have hyl : toAsciiLowercase y.1 = y.1 := hlower y List.mem_cons_self
    rw [List.find?_cons]
    by_cases hname : y.1 = x.1
    · -- the name stands once, so this is the header
      have hyx : x = y := by
        rcases List.mem_cons.1 hx with h | h
        · exact h
        · exact absurd (List.mem_map.2 ⟨x, h, hname.symm⟩) hnodup.1
      have hmatch : eqIgnoreAsciiCase y.1 x.1 = true := by
        unfold eqIgnoreAsciiCase
        rw [hname, decide_eq_true_eq]
      rw [hmatch, hyx]
      rfl
    · have hrest : x ∈ rest := (List.mem_cons.1 hx).resolve_left fun h => hname (h ▸ rfl)
      have hmiss : eqIgnoreAsciiCase y.1 x.1 = false := by
        unfold eqIgnoreAsciiCase
        rw [hyl, hxl, decide_eq_false_iff_not]
        exact hname
      rw [hmiss]
      exact ih (fun z hz => hlower z (List.mem_cons_of_mem y hz)) hnodup.2 hrest

include hlower in
/-- **The headers of the signed names are the signed headers.** -/
theorem selectHeaders_of_mem (hnodup : (headers.map Prod.fst).Nodup) {part : List Header} (hpart : ∀ x ∈ part, x ∈ headers) :
    selectHeaders headers (part.map Prod.fst) = some part := by
  induction part with
  | nil => rfl
  | cons x part ih =>
    have hx := hpart x List.mem_cons_self
    have hrest := ih fun y hy => hpart y (List.mem_cons_of_mem x hy)
    rw [List.map_cons, selectHeaders, hlower x hx, headerValue_of_mem hlower hnodup hx, hrest]
    rfl

end Headers

/-! ## What is signed, and how it is sent -/

/-- A part of a credential that its separators leave alone. -/
def CredentialPart (s : String) : Prop := s ≠ "" ∧ '/' ∉ s.toList ∧ ',' ∉ s.toList ∧ trim s = s

/-- A request to sign, with the credential it is signed by and the time. -/
structure Signing where
  accessKeyId : String
  region : String
  service : String
  accessKeyId_part : CredentialPart accessKeyId
  region_part : CredentialPart region
  service_part : CredentialPart service
  secret : String
  method : String
  path : String
  query : Option String
  headers : List (HeaderName × String)
  distinct : (headers.map (fun h => h.1.name)).Nodup
  host : "host" ∈ headers.map (fun h => h.1.name)
  payloadHash : String
  time : Nat
  fourDigits : FourDigitYear time

inductive SectionKind where
  | credential | signedHeaders | signature
  deriving DecidableEq, Repr

def SectionKind.label : SectionKind → String
  | .credential => "Credential"
  | .signedHeaders => "SignedHeaders"
  | .signature => "Signature"

/-- Reading a section of a kind: the last of a kind wins. -/
def Sections.set (found : Sections) (kind : SectionKind) (v : String) : Sections :=
  match kind with
  | .credential => { found with credential := some v }
  | .signedHeaders => { found with signedHeaders := some v }
  | .signature => { found with signature := some v }

theorem readSections_cons {part : String} {kind : SectionKind} {v : String} (hpart : trim part = kind.label ++ "=" ++ v)
    (hv : trim v = v) (found : Sections) (rest : List String) :
    readSections found (part :: rest) = readSections (found.set kind v) rest := by
  have heq : ("=" : String) = String.singleton '=' := by decide
  have hlabel : '=' ∉ kind.label.toList := by cases kind <;> decide
  have hsplit : splitOnce '=' (trim part) = some (kind.label, v) := by
    rw [hpart, heq]
    exact splitOnce_append v hlabel
  rw [readSections, hsplit]
  dsimp only
  rw [hv]
  cases kind with
  | credential =>
    have htrim : trim SectionKind.credential.label = "Credential" := by decide
    rw [if_pos htrim]
    rfl
  | signedHeaders =>
    have htrim : trim SectionKind.signedHeaders.label = "SignedHeaders" := by decide
    rw [htrim, if_neg (by decide), if_pos rfl]
    rfl
  | signature =>
    have htrim : trim SectionKind.signature.label = "Signature" := by decide
    rw [htrim, if_neg (by decide), if_neg (by decide), if_pos rfl]
    rfl

/-- The sections are read one by one. -/
theorem readSections_eq {value : SectionKind → String} (hvalue : ∀ kind, trim (value kind) = value kind)
    {order : List SectionKind} {parts : List String}
    (hparts : parts.map trim = order.map (fun kind => kind.label ++ "=" ++ value kind)) (found : Sections) :
    readSections found parts = some (order.foldl (fun f kind => f.set kind (value kind)) found) := by
  induction order generalizing parts found with
  | nil =>
    rw [List.map_nil, List.map_eq_nil_iff] at hparts
    rw [hparts]
    rfl
  | cons kind order ih =>
    rw [List.map_cons] at hparts
    obtain ⟨part, rest, rfl, hpart, hrest⟩ := List.map_eq_cons_iff.1 hparts
    rw [readSections_cons hpart (hvalue kind), ih hrest, List.foldl_cons]

/-- **The order of the sections does not matter.** -/
theorem foldl_set_perm (value : SectionKind → String) {order : List SectionKind}
    (horder : order.Perm [.credential, .signedHeaders, .signature]) (found : Sections) :
    order.foldl (fun f kind => f.set kind (value kind)) found =
      ⟨some (value .credential), some (value .signedHeaders), some (value .signature)⟩ := by
  have hcomm : ∀ x ∈ order, ∀ y ∈ order, ∀ f : Sections,
      (f.set x (value x)).set y (value y) = (f.set y (value y)).set x (value x) := by
    intro x _ y _ f
    cases x <;> cases y <;> rfl
  rw [horder.foldl_eq' hcomm]
  rfl

namespace Signing

variable (lib : SigLib) (s : Signing)

/-- The signature and the names it covers. -/
def signed : String × String :=
  signV4 lib s.secret s.region s.service s.method (uriEncodePath s.path) (canonicalQueryString s.query)
    (fields s.headers) s.payloadHash (formatAmzTime s.time).1 (formatAmzTime s.time).2

def sectionValue : SectionKind → String
  | .credential => join "/" [s.accessKeyId, (formatAmzTime s.time).2, s.region, s.service, termination]
  | .signedHeaders => (s.signed lib).2
  | .signature => (s.signed lib).1

def sectionText (kind : SectionKind) : String := kind.label ++ "=" ++ s.sectionValue lib kind

/-- The header, with its sections in the given order. -/
def authorization (order : List SectionKind) : String := algorithm ++ " " ++ join ", " (order.map (s.sectionText lib))

/-- What the header is parsed to. -/
def parsed : ParsedAuthHeader :=
  ⟨s.accessKeyId, (formatAmzTime s.time).2, s.region, s.service, (s.signed lib).2, (s.signed lib).1⟩

/-- The request as it arrives, with this query. -/
def inbound (query : Option String) : InboundRequest :=
  ⟨s.method, uriEncodePath s.path, canonicalQueryString query, fields s.headers, s.payloadHash, (formatAmzTime s.time).1⟩

/-! ## The signed names -/

theorem fields_lower : ∀ x ∈ fields s.headers, toAsciiLowercase x.1 = x.1 := by
  intro x hx
  obtain ⟨h, -, rfl⟩ := List.mem_map.1 hx
  exact h.1.lower

theorem fields_lowercase : ∀ x ∈ fields s.headers, toLowercase lib x.1 = x.1 := by
  intro x hx
  obtain ⟨h, -, rfl⟩ := List.mem_map.1 hx
  exact h.1.toLowercase_name lib

theorem names_fields : (fields s.headers).map Prod.fst = s.headers.map (fun h => h.1.name) := by
  unfold fields
  rw [List.map_map]
  rfl

/-- The headers in the order they are signed. -/
def sorted : List Header := (fields s.headers).insertionSort byName

theorem perm_sorted : s.sorted.Perm (fields s.headers) := List.perm_insertionSort byName _

/-- The names in the order they are signed. -/
def names : List String := s.sorted.map Prod.fst

theorem host_mem_names : "host" ∈ s.names := by
  have hperm := (s.perm_sorted.map Prod.fst).mem_iff (a := "host")
  exact hperm.2 (s.names_fields ▸ s.host)

/-- A signed name is the name of a header. -/
theorem exists_of_mem_names {name : String} (h : name ∈ s.names) : ∃ n : HeaderName, n.name = name := by
  obtain ⟨x, hx, rfl⟩ := List.mem_map.1 h
  obtain ⟨y, -, rfl⟩ := List.mem_map.1 (s.perm_sorted.mem_iff.1 hx)
  exact ⟨y.1, rfl⟩

theorem signedNames_eq : signedNames lib (fields s.headers) = join ";" s.names := by
  unfold signedNames
  rw [canonicalHeaders_of_lower (s.fields_lowercase lib), List.map_map]
  rfl

theorem signed_names : (s.signed lib).2 = join ";" s.names := s.signedNames_eq lib

theorem split_signed_names : split ';' (s.signed lib).2 = s.names := by
  have hsep : (";" : String) = String.singleton ';' := by decide
  have hne : s.names ≠ [] := List.ne_nil_of_mem s.host_mem_names
  have hbare : ∀ n ∈ s.names, ';' ∉ n.toList := by
    intro n hn hmem
    obtain ⟨m, rfl⟩ := s.exists_of_mem_names hn
    exact (HeaderName.bare hmem).1 rfl
  rw [signed_names, hsep, split_join hne hbare]

/-! ## The values of the sections -/

/-- A value that a section can hold. -/
def ValueText (v : String) : Prop := v ≠ "" ∧ ',' ∉ v.toList ∧ Bare v

theorem ValueText.of_chars {v : String} (hne : v ≠ "") (h : ∀ c ∈ v.toList, c ≠ ',' ∧ isWhitespace c = false) :
    ValueText v :=
  ⟨hne, fun hmem => (h ',' hmem).1 rfl, bare_of_forall fun c hc => (h c hc).2⟩

theorem date_digits : (formatAmzTime s.time).2 ≠ "" ∧ ∀ c ∈ (formatAmzTime s.time).2.toList, c.isDigit = true := by
  obtain ⟨year, month, day, -, -, -, -, -, -, -, -, -, -, -, -, -, htext, -⟩ := toList_formatAmzTime s.fourDigits
  constructor
  · intro hempty
    rw [hempty] at htext
    have hlen := congrArg List.length htext
    rw [List.length_append, List.length_append, length_lastDigits] at hlen
    exact absurd hlen (by simp; omega)
  · intro c hc
    rw [htext, List.mem_append, List.mem_append] at hc
    rcases hc with (hc | hc) | hc
    · exact List.all_eq_true.1 (isDigit_lastDigits 4 year) c hc
    · exact List.all_eq_true.1 (isDigit_lastDigits 2 month) c hc
    · exact List.all_eq_true.1 (isDigit_lastDigits 2 day) c hc

/-- The parts of the credential hold neither of the separators around them. -/
theorem credential_parts : ∀ p ∈ [s.accessKeyId, (formatAmzTime s.time).2, s.region, s.service, termination],
    '/' ∉ p.toList ∧ ',' ∉ p.toList := by
  intro p hp
  simp only [List.mem_cons, List.not_mem_nil, or_false] at hp
  rcases hp with rfl | rfl | rfl | rfl | rfl
  · exact ⟨s.accessKeyId_part.2.1, s.accessKeyId_part.2.2.1⟩
  · exact ⟨fun h => absurd (s.date_digits.2 _ h) (by decide), fun h => absurd (s.date_digits.2 _ h) (by decide)⟩
  · exact ⟨s.region_part.2.1, s.region_part.2.2.1⟩
  · exact ⟨s.service_part.2.1, s.service_part.2.2.1⟩
  · decide

theorem valueText_credential : ValueText (s.sectionValue lib .credential) := by
  obtain ⟨front, hfront⟩ := exists_join_concat "/" [s.accessKeyId, (formatAmzTime s.time).2, s.region, s.service] termination
  have htail : s.sectionValue lib .credential = front ++ termination := hfront
  have hhead : ∃ rest, s.sectionValue lib .credential = s.accessKeyId ++ rest :=
    ⟨_, String.intercalate_cons_cons.trans String.append_assoc⟩
  obtain ⟨rest, hrest⟩ := hhead
  have hakid : s.accessKeyId.toList ≠ [] := fun h => s.accessKeyId_part.1 (String.toList_eq_nil_iff.1 h)
  refine ⟨?_, ?_, ?_, ?_⟩
  · intro hempty
    rw [hrest, String.append_eq_empty_iff] at hempty
    exact s.accessKeyId_part.1 hempty.1
  · intro hmem
    rcases mem_join hmem with h | ⟨p, hp, h⟩
    · exact absurd h (by decide)
    · exact (s.credential_parts p hp).2 h
  · rw [hrest, String.toList_append]
    exact (bareHead_of_trim s.accessKeyId_part.2.2.2).append _ hakid
  · rw [htail, String.toList_append, List.reverse_append]
    have hlast : BareHead termination.toList.reverse := by
      intro c hc
      have hc' : c = 't' := (Option.some.inj hc).symm
      exact hc' ▸ by decide
    exact hlast.append _ (by decide)

theorem valueText_signedHeaders : ValueText (s.sectionValue lib .signedHeaders) := by
  have hvalue : s.sectionValue lib .signedHeaders = join ";" s.names := s.signed_names lib
  refine ValueText.of_chars ?_ ?_
  · intro hempty
    -- no names would be the empty one only
    have hnames := s.split_signed_names lib
    have hnone : (s.signed lib).2 = "" := hempty
    have hsplit : split ';' "" = [""] := by decide
    rw [hnone, hsplit] at hnames
    have hhost := s.host_mem_names
    rw [← hnames, List.mem_singleton] at hhost
    exact absurd hhost (by decide)
  · intro c hc
    rw [hvalue] at hc
    rcases mem_join hc with h | ⟨n, hn, h⟩
    · have hc' : c = ';' := List.mem_singleton.1 h
      exact hc' ▸ by decide
    · obtain ⟨m, rfl⟩ := s.exists_of_mem_names hn
      exact (HeaderName.bare h).2

theorem valueText_signature (hmac : ∀ k d, (lib.hmacSha256 k d).length = 32) :
    ValueText (s.sectionValue lib .signature) := by
  have hdigits : hexDigits.all (fun c => c ≠ ',' && !isWhitespace c) = true := by decide
  refine ValueText.of_chars (hexEncode_ne_empty ?_) ?_
  · intro hnil
    have hlen := congrArg List.length hnil
    rw [hmac] at hlen
    exact absurd hlen (by decide)
  · intro c hc
    have hbare := List.all_eq_true.1 hdigits c (mem_hexEncode hc)
    simpa using hbare

theorem valueText (hmac : ∀ k d, (lib.hmacSha256 k d).length = 32) : ∀ kind, ValueText (s.sectionValue lib kind)
  | .credential => s.valueText_credential lib
  | .signedHeaders => s.valueText_signedHeaders lib
  | .signature => s.valueText_signature lib hmac

/-! ## The header is parsed -/

theorem sectionText_bare (hmac : ∀ k d, (lib.hmacSha256 k d).length = 32) (kind : SectionKind) :
    ',' ∉ (s.sectionText lib kind).toList ∧ Bare (s.sectionText lib kind) ∧ s.sectionText lib kind ≠ "" := by
  obtain ⟨hne, hcomma, -, htail⟩ := s.valueText lib hmac kind
  have hlabel : ',' ∉ (kind.label ++ "=").toList ∧ BareHead (kind.label ++ "=").toList ∧ kind.label ++ "=" ≠ "" := by
    refine ⟨by cases kind <;> decide, ?_, by cases kind <;> decide⟩
    intro c hc
    have hletter : c = 'C' ∨ c = 'S' := by
      cases kind with
      | credential => exact Or.inl (Option.some.inj hc).symm
      | signedHeaders => exact Or.inr (Option.some.inj hc).symm
      | signature => exact Or.inr (Option.some.inj hc).symm
    rcases hletter with rfl | rfl
    · decide
    · decide
  refine ⟨?_, Bare.append hlabel.2.1 htail hlabel.2.2 hne, ?_⟩
  · unfold sectionText
    rw [String.toList_append, List.mem_append, not_or]
    exact ⟨hlabel.1, hcomma⟩
  · unfold sectionText
    rw [ne_eq, String.append_eq_empty_iff, not_and_or]
    exact Or.inr hne

theorem readCredential_value :
    readCredential (s.sectionValue lib .credential) (s.signed lib).2 (s.signed lib).1 = .ok (s.parsed lib) := by
  have hsep : ("/" : String) = String.singleton '/' := by decide
  have hsplit : split '/' (s.sectionValue lib .credential) =
      [s.accessKeyId, (formatAmzTime s.time).2, s.region, s.service, termination] := by
    unfold sectionValue
    rw [hsep]
    exact split_join (List.cons_ne_nil _ _) fun p hp => (s.credential_parts p hp).1
  have hnone : ¬(s.accessKeyId = "" ∨ (formatAmzTime s.time).2 = "" ∨ s.region = "" ∨ s.service = "") := by
    simp only [not_or]
    exact ⟨s.accessKeyId_part.1, s.date_digits.1, s.region_part.1, s.service_part.1⟩
  unfold readCredential
  rw [hsplit]
  dsimp only
  rw [if_neg (not_not.2 rfl), if_neg hnone]
  rfl

/-- **The sections come back from the header**, in whatever order they stand. -/
theorem parse_authorization (hmac : ∀ k d, (lib.hmacSha256 k d).length = 32) {order : List SectionKind}
    (horder : order.Perm [.credential, .signedHeaders, .signature]) :
    parseAuthorizationHeader (s.authorization lib order) = .ok (s.parsed lib) := by
  have hspace : (" " : String) = String.singleton ' ' := by decide
  have hne : order ≠ [] := fun h => by
    have hlen := horder.length_eq
    rw [h] at hlen
    exact absurd hlen (by decide)
  have htexts : ∀ p ∈ order.map (s.sectionText lib), ',' ∉ p.toList ∧ Bare p ∧ p ≠ "" := by
    intro p hp
    obtain ⟨kind, -, rfl⟩ := List.mem_map.1 hp
    exact s.sectionText_bare lib hmac kind
  -- nothing is trimmed: the header starts with the algorithm and ends with the last section
  have htrim : trim (s.authorization lib order) = s.authorization lib order := by
    apply trim_of_bare
    obtain ⟨init, last, hlast⟩ := (List.eq_nil_or_concat' order).resolve_left hne
    obtain ⟨front, hfront⟩ := exists_join_concat ", " (init.map (s.sectionText lib)) (s.sectionText lib last)
    have htext : s.authorization lib order = (algorithm ++ " " ++ front) ++ s.sectionText lib last := by
      unfold authorization
      rw [hlast, List.map_append, List.map_singleton, hfront]
      simp only [String.append_assoc]
    have hend := s.sectionText_bare lib hmac last
    have hhead : BareHead algorithm.toList := by
      intro c hc
      have hc' : c = 'A' := (Option.some.inj hc).symm
      exact hc' ▸ by decide
    have hstart : BareHead (algorithm ++ " " ++ front).toList := by
      rw [String.append_assoc, String.toList_append]
      exact hhead.append _ (by decide)
    have hnonempty : algorithm ++ " " ++ front ≠ "" := by
      rw [ne_eq, String.append_eq_empty_iff]
      exact fun h => absurd h.1 (by decide)
    rw [htext]
    exact Bare.append hstart hend.2.1.2 hnonempty hend.2.2
  have hsplit : splitOnce ' ' (s.authorization lib order) =
      some (algorithm, join ", " (order.map (s.sectionText lib))) := by
    unfold authorization
    rw [hspace]
    exact splitOnce_append _ (by decide)
  have hparts : (split ',' (join ", " (order.map (s.sectionText lib)))).map trim = order.map (s.sectionText lib) := by
    rw [map_trim_split_join (fun h => hne (List.map_eq_nil_iff.1 h)) fun p hp => (htexts p hp).1]
    conv_rhs => rw [← List.map_id (order.map (s.sectionText lib))]
    exact List.map_congr_left fun p hp => trim_of_bare (htexts p hp).2.1
  have hsections : readSections ⟨none, none, none⟩ (split ',' (join ", " (order.map (s.sectionText lib)))) =
      some ⟨some (s.sectionValue lib .credential), some (s.sectionValue lib .signedHeaders),
        some (s.sectionValue lib .signature)⟩ := by
    rw [readSections_eq (fun kind => trim_of_bare (s.valueText lib hmac kind).2.2) hparts, foldl_set_perm _ horder]
  have hnonempty : ¬(s.sectionValue lib .signature = "" ∨ s.sectionValue lib .signedHeaders = "") :=
    not_or.2 ⟨(s.valueText lib hmac .signature).1, (s.valueText lib hmac .signedHeaders).1⟩
  unfold parseAuthorizationHeader
  rw [htrim, hsplit]
  dsimp only
  rw [if_neg (not_not.2 rfl), hsections]
  dsimp only
  rw [if_neg hnonempty]
  exact s.readCredential_value lib

/-! ## The signature is found again -/

/-- The headers of the signed names are those that were signed. -/
theorem selectHeaders_names : selectHeaders (fields s.headers) s.names = some s.sorted := by
  have hnodup : ((fields s.headers).map Prod.fst).Nodup := s.names_fields ▸ s.distinct
  exact selectHeaders_of_mem s.fields_lower hnodup fun x hx => s.perm_sorted.mem_iff.1 hx

/-- The headers sign the same in the order they were signed. -/
theorem signV4_sorted {query : String} (hquery : query = canonicalQueryString s.query) :
    signV4 lib s.secret s.region s.service s.method (uriEncodePath s.path) query s.sorted s.payloadHash
      (formatAmzTime s.time).1 (formatAmzTime s.time).2 = s.signed lib := by
  have hsorted : canonicalHeaders lib s.sorted = canonicalHeaders lib (fields s.headers) :=
    canonicalHeaders_sorted (s.fields_lowercase lib)
  unfold signed signV4 canonicalRequest signedNames
  rw [hsorted, hquery]

theorem datestamp_eq : (formatAmzTime s.time).2.toList = (formatAmzTime s.time).1.toList.take 8 := by
  obtain ⟨year, month, day, h, mi, sec, -, -, -, -, -, -, -, -, -, -, hdate, htext⟩ := toList_formatAmzTime s.fourDigits
  rw [hdate, htext]
  simp [lastDigits]

/-- **The verifier computes the signature it is given**, from any writing of the query. -/
theorem verify_signed {now : Nat} (hnow : absDiff s.time now ≤ clockSkewSecs) {query : Option String}
    (hquery : canonicalQueryString query = canonicalQueryString s.query) :
    verifyInboundSigv4 lib (s.parsed lib) (s.inbound query) s.secret now = .ok () := by
  have htime : parseAmzDate (s.inbound query).amzdate = some s.time := parseAmzDate_formatAmzTime s.fourDigits
  have hsplit : split ';' (s.parsed lib).signedHeaders = s.names := s.split_signed_names lib
  have hhost : s.names.any (fun h => eqIgnoreAsciiCase h "host") = true :=
    List.any_eq_true.2 ⟨"host", s.host_mem_names, by decide⟩
  have hselected : selectHeaders (s.inbound query).headers s.names = some s.sorted := s.selectHeaders_names
  have hsigned : recompute lib (s.parsed lib) (s.inbound query) s.secret s.sorted = s.signed lib :=
    s.signV4_sorted lib hquery
  rw [verify_ok_iff, hsplit]
  exact ⟨s.time, s.sorted, htime, hnow, s.datestamp_eq, hhost, hselected, hsigned⟩

end Signing

/-- **Every correctly signed request verifies.** The sections of the header may stand in any order and so may the
parameters of the query. -/
theorem signed_requests_verify :
    (∀ (lib : SigLib), (∀ k d, (lib.hmacSha256 k d).length = 32) → ∀ (s : Signing) (now : Nat),
      absDiff s.time now ≤ clockSkewSecs → ∀ order : List SectionKind,
      order.Perm [.credential, .signedHeaders, .signature] → ∀ sent : Option String,
      (parameters sent).Perm (parameters s.query) →
      ∃ parsed, parseAuthorizationHeader (s.authorization lib order) = .ok parsed ∧
        parsed.accessKeyId = s.accessKeyId ∧
        verifyInboundSigv4 lib parsed (s.inbound sent) s.secret now = .ok ()) ∧
    (∀ t, FourDigitYear t → parseAmzDate (formatAmzTime t).1 = some t) ∧
    (∀ q, canonicalQueryString (some (canonicalQueryString q)) = canonicalQueryString q) ∧
    ∀ q q', (parameters q').Perm (parameters q) → canonicalQueryString q' = canonicalQueryString q := by
  refine ⟨?_, fun t => parseAmzDate_formatAmzTime, canonicalQueryString_idem, fun q q' => canonicalQueryString_perm⟩
  intro lib hmac s now hnow order horder sent hsent
  have hquery : canonicalQueryString sent = canonicalQueryString s.query := canonicalQueryString_perm hsent
  exact ⟨s.parsed lib, s.parse_authorization lib hmac horder, rfl, s.verify_signed lib hnow hquery⟩

/-! ## A signing and its digests -/

namespace Sample

def dateDigest : Bytes :=
  [0x30, 0x13, 0xdc, 0x37, 0xfb, 0x98, 0xbf, 0x1f, 0x7a, 0xcb, 0xcc, 0x3a, 0xbb, 0x24, 0x1c, 0xf7,
    0x39, 0xd4, 0x49, 0x5a, 0x5c, 0x33, 0x89, 0xd7, 0x15, 0x03, 0x98, 0x51, 0xaa, 0x09, 0xf5, 0x6b]

def regionDigest : Bytes :=
  [0xa7, 0x2e, 0x1a, 0xdd, 0xd5, 0x33, 0x15, 0x79, 0x17, 0x3f, 0xf8, 0xc3, 0xfb, 0x9a, 0xaa, 0x80,
    0xb2, 0x70, 0x0a, 0x39, 0x88, 0x12, 0x16, 0x15, 0x77, 0x28, 0x79, 0x16, 0x74, 0xd8, 0xb1, 0x0d]

def serviceDigest : Bytes :=
  [0xc4, 0x0a, 0x7e, 0xeb, 0x06, 0xa2, 0x0b, 0xbe, 0x7b, 0x2b, 0x1b, 0x23, 0x11, 0x92, 0x2d, 0x33,
    0x39, 0x86, 0xe3, 0xa8, 0x37, 0x46, 0x6d, 0x59, 0x26, 0xdd, 0x76, 0x3b, 0x53, 0xed, 0x17, 0x57]

def keyDigest : Bytes :=
  [0xd6, 0x21, 0xa5, 0xc3, 0xec, 0x30, 0xe5, 0xca, 0x49, 0x9e, 0x83, 0xf5, 0x75, 0x8b, 0xe5, 0x99,
    0x42, 0x81, 0x36, 0x04, 0x0a, 0x50, 0x80, 0x00, 0x56, 0x98, 0x17, 0x63, 0x24, 0x00, 0x07, 0x20]

def signatureDigest : Bytes :=
  [0x80, 0x46, 0x55, 0x68, 0xd3, 0xd7, 0xea, 0xa2, 0x0b, 0xa0, 0x72, 0x0f, 0xb8, 0xab, 0x61, 0x80,
    0x06, 0x5c, 0xe5, 0xd3, 0x78, 0x90, 0x80, 0xaf, 0xbd, 0xbe, 0x34, 0xb8, 0xf7, 0xfd, 0xff, 0x66]

def requestDigest : Bytes :=
  [0x71, 0x32, 0xa4, 0x0d, 0x37, 0x2e, 0xc4, 0xaf, 0xb1, 0xce, 0x8a, 0x86, 0x10, 0x13, 0x59, 0x77,
    0x9c, 0xbc, 0xae, 0xe6, 0xaf, 0x62, 0xa4, 0x8c, 0xa4, 0x23, 0x2f, 0x90, 0xa1, 0xfa, 0xa4, 0x66]

/-- The digest of the empty body. -/
def emptyDigest : Bytes :=
  [0xe3, 0xb0, 0xc4, 0x42, 0x98, 0xfc, 0x1c, 0x14, 0x9a, 0xfb, 0xf4, 0xc8, 0x99, 0x6f, 0xb9, 0x24,
    0x27, 0xae, 0x41, 0xe4, 0x64, 0x9b, 0x93, 0x4c, 0xa4, 0x95, 0x99, 0x1b, 0x78, 0x52, 0xb8, 0x55]

def emptyHash : String := "e3b0c44298fc1c149afbf4c8996fb92427ae41e4649b934ca495991b7852b855"

/-- The text that is hashed, and the text that is signed. -/
def request : String :=
  "POST\n/model/m/converse\na=1&b=2\nhost:example.com\nx-amz-content-sha256:" ++ emptyHash ++
    "\nx-amz-date:20150830T123600Z\n\nhost;x-amz-content-sha256;x-amz-date\n" ++ emptyHash

def toSign : String :=
  "AWS4-HMAC-SHA256\n20150830T123600Z\n20150830/us-east-1/bedrock/aws4_request\n" ++
    "7132a40d372ec4afb1ce8a86101359779cbcaee6af62a48ca4232f90a1faa466"

/-- The digests under a key: the key, the text and its digest. -/
def digests : List (Bytes × Bytes × Bytes) :=
  [(utf8 "AWS4wJalrXUtnFEMI", utf8 "20150830", dateDigest), (dateDigest, utf8 "us-east-1", regionDigest),
    (regionDigest, utf8 "bedrock", serviceDigest), (serviceDigest, utf8 "aws4_request", keyDigest),
    (keyDigest, utf8 toSign, signatureDigest)]

/-- The digest in the list, and zeros for everything else. -/
def hmac (key data : Bytes) : Bytes :=
  ((digests.find? (fun e => e.1 = key ∧ e.2.1 = data)).map (fun e => e.2.2)).getD (List.replicate 32 0)

theorem length_hmac (key data : Bytes) : (hmac key data).length = 32 := by
  have hall : ∀ e ∈ digests, e.2.2.length = 32 := by
    intro e he
    unfold digests at he
    simp only [List.mem_cons, List.not_mem_nil, or_false] at he
    rcases he with rfl | rfl | rfl | rfl | rfl <;> rfl
  unfold hmac
  cases hfind : digests.find? (fun e => e.1 = key ∧ e.2.1 = data) with
  | none => rfl
  | some e => exact hall e (List.mem_of_find?_eq_some hfind)

/-- A library with these digests. -/
def lib : SigLib where
  sha256 data :=
    if data = utf8 request then requestDigest else if data = [] then emptyDigest else List.replicate 32 0
  hmacSha256 := hmac
  unicodeLower := id

def host : HeaderName := ⟨"host", List.all_eq_true.1 (by decide), by decide⟩

def date : HeaderName := ⟨"x-amz-date", List.all_eq_true.1 (by decide), by decide⟩

def contentHash : HeaderName := ⟨"x-amz-content-sha256", List.all_eq_true.1 (by decide), by decide⟩

def signing : Signing where
  accessKeyId := "AKIDEXAMPLE"
  region := "us-east-1"
  service := "bedrock"
  accessKeyId_part := by unfold CredentialPart; decide
  region_part := by unfold CredentialPart; decide
  service_part := by unfold CredentialPart; decide
  secret := "wJalrXUtnFEMI"
  method := "POST"
  path := "/model/m/converse"
  query := some "b=2&a=1"
  headers := [(host, " example.com "), (date, "20150830T123600Z"), (contentHash, emptyHash)]
  distinct := by decide
  host := by decide
  payloadHash := emptyHash
  time := 1440938160
  fourDigits := by unfold FourDigitYear; decide

end Sample

theorem signed_requests_verify_sample :
    ∃ parsed, parseAuthorizationHeader
        (Sample.signing.authorization Sample.lib [.signature, .credential, .signedHeaders]) = .ok parsed ∧
      parsed.accessKeyId = "AKIDEXAMPLE" ∧
      verifyInboundSigv4 Sample.lib parsed (Sample.signing.inbound (some "a=1&b=2")) "wJalrXUtnFEMI" 1440938400 = .ok () :=
  signed_requests_verify.1 Sample.lib Sample.length_hmac Sample.signing 1440938400 (by decide) _ (by decide)
    (some "a=1&b=2") (by decide)

end Busbar.Sigv4
