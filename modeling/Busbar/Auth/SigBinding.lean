import Busbar.Auth.SigRoundTrip
import Busbar.Lib.Separator
import Busbar.Proto.ToolIds
import Mathlib.Logic.Equiv.Basic

/-!
# What a signature binds

Two requests that one signature is accepted for. The digests are taken to be injective, so the canonical requests are
one text; without line feeds in its parts the text has one reading.

* `lines_injective`: header lines of the same names have the same values.
* `canonicalRequest_injective`: a canonical request is read in one way.
* `selected_eq`: the selected headers, name by name.
* `verifyBedrock_signed`: what the caller of the verifier has checked.
-/

namespace Busbar.Sigv4

/-! ## Texts with one reading -/

theorem hexEncode_injective : Function.Injective hexEncode := by
  intro a b h
  have hback := congrArg hexDecode h
  rw [hexDecode_hexEncode, hexDecode_hexEncode] at hback
  exact Option.some.inj hback

/-- A text up to the first line feed. -/
theorem cut_line {a b : String} {t t' : List Char} (ha : '\n' ∉ a.toList) (hb : '\n' ∉ b.toList)
    (h : a.toList ++ '\n' :: t = b.toList ++ '\n' :: t') : a = b ∧ t = t' := by
  obtain ⟨hword, htail⟩ := Separated.word_eq ha hb (Separated.Tail.cons _ _) (Separated.Tail.cons _ _) h
  exact ⟨String.toList_injective hword, (List.cons.inj htail).2⟩

/-- One step adds its character, perhaps behind a space. -/
theorem mem_canonicalizeStep {state : List Char × Bool} {ch c : Char} (h : c ∈ (canonicalizeStep state ch).1) :
    c ∈ state.1 ∨ c = ' ' ∨ c = ch := by
  unfold canonicalizeStep at h
  split at h
  · exact Or.inl h
  · split at h
    · have hpair := (List.mem_append.1 h).imp_right List.mem_cons.1
      exact hpair.imp_right (Or.imp_right List.mem_singleton.1)
    · exact (List.mem_append.1 h).imp_right fun hc => Or.inr (List.mem_singleton.1 hc)

theorem mem_foldl_canonicalizeStep {c : Char} (cs : List Char) (state : List Char × Bool)
    (h : c ∈ (cs.foldl canonicalizeStep state).1) : c ∈ state.1 ∨ c = ' ' ∨ c ∈ cs := by
  induction cs generalizing state with
  | nil => exact Or.inl h
  | cons ch cs ih =>
    rcases ih _ h with hmem | hspace | hmem
    · rcases mem_canonicalizeStep hmem with hs | hs | hs
      · exact Or.inl hs
      · exact Or.inr (Or.inl hs)
      · exact Or.inr (Or.inr (hs ▸ List.mem_cons_self))
    · exact Or.inr (Or.inl hspace)
    · exact Or.inr (Or.inr (List.mem_cons_of_mem ch hmem))

/-- Folding spaces adds nothing but spaces. -/
theorem newline_canonicalizeHeaderValue {v : String} (h : '\n' ∉ v.toList) : '\n' ∉ (canonicalizeHeaderValue v).toList := by
  intro hmem
  unfold canonicalizeHeaderValue at hmem
  rw [String.toList_ofList] at hmem
  rcases mem_foldl_canonicalizeStep v.toList ([], false) hmem with hc | hc | hc
  · exact absurd hc List.not_mem_nil
  · exact absurd hc (by decide)
  · exact h hc

/-- The line of a header. -/
def headerLine (name value : String) : String := name ++ ":" ++ value ++ "\n"

/-- **Header lines of the same names have the same values**, where no value goes on to another line. -/
theorem lines_injective {names : List String} {lower f g : String → String} {t t' : List Char}
    (hf : ∀ n ∈ names, '\n' ∉ (f n).toList) (hg : ∀ n ∈ names, '\n' ∉ (g n).toList)
    (h : names.flatMap (fun n => (headerLine (lower n) (f n)).toList) ++ t =
      names.flatMap (fun n => (headerLine (lower n) (g n)).toList) ++ t') :
    (∀ n ∈ names, f n = g n) ∧ t = t' := by
  induction names with
  | nil => exact ⟨fun n hn => absurd hn List.not_mem_nil, h⟩
  | cons n names ih =>
    have hline : ∀ v : String, (headerLine (lower n) v).toList = (lower n ++ ":").toList ++ (v.toList ++ ['\n']) := by
      intro v
      unfold headerLine
      rw [String.toList_append, String.toList_append, List.append_assoc]
      rfl
    rw [List.flatMap_cons, List.flatMap_cons, hline, hline] at h
    simp only [List.append_assoc, List.singleton_append] at h
    -- the name is the same, and the value ends at the line feed
    obtain ⟨hvalue, hrest⟩ := cut_line (hf n List.mem_cons_self) (hg n List.mem_cons_self) (List.append_cancel_left h)
    obtain ⟨hnames, ht⟩ := ih (fun m hm => hf m (List.mem_cons_of_mem n hm)) (fun m hm => hg m (List.mem_cons_of_mem n hm))
      hrest
    refine ⟨fun m hm => ?_, ht⟩
    rcases List.mem_cons.1 hm with rfl | hm
    · exact hvalue
    · exact hnames m hm

/-! ## The headers the verifier selects -/

/-- The value the verifier takes for a signed name. -/
def valueOf (headers : List Header) (name : String) : String := (headerValue headers (toAsciiLowercase name)).getD ""

theorem selectHeaders_eq_some {headers selected : List Header} {names : List String}
    (h : selectHeaders headers names = some selected) :
    selected = names.map (fun n => (toAsciiLowercase n, valueOf headers n)) ∧
      ∀ n ∈ names, headerValue headers (toAsciiLowercase n) = some (valueOf headers n) := by
  induction names generalizing selected with
  | nil => exact ⟨(Option.some.inj h).symm, fun n hn => absurd hn List.not_mem_nil⟩
  | cons name names ih =>
    rw [selectHeaders] at h
    obtain ⟨value, hvalue, h⟩ := Option.bind_eq_some_iff.1 h
    obtain ⟨rest, hrest, h⟩ := Option.bind_eq_some_iff.1 h
    obtain ⟨hrest_eq, hall⟩ := ih hrest
    have hval : valueOf headers name = value := by
      unfold valueOf
      rw [hvalue, Option.getD_some]
    constructor
    · rw [List.map_cons, hval, ← hrest_eq]
      exact (Option.some.inj h).symm
    · intro n hn
      rcases List.mem_cons.1 hn with rfl | hn
      · rw [hval, hvalue]
      · exact hall n hn

theorem mem_of_headerValue {headers : List Header} {name value : String} (h : headerValue headers name = some value) :
    ∃ x ∈ headers, eqIgnoreAsciiCase x.1 name = true ∧ x.2 = value := by
  obtain ⟨x, hx, hv⟩ := Option.map_eq_some_iff.1 h
  have hmatch := List.find?_some hx
  exact ⟨x, List.mem_of_find?_eq_some hx, hmatch, hv⟩

section Names

variable (lib : SigLib)

/-- A signed name as the signer writes it. -/
def signedForm (name : String) : String := toLowercase lib (toAsciiLowercase name)

def bySignedForm (a b : String) : Prop := signedForm lib a ≤ signedForm lib b

instance : DecidableRel (bySignedForm lib) := fun a b => inferInstanceAs (Decidable (signedForm lib a ≤ signedForm lib b))

/-- The selected headers are signed in an order that their values have no part in. -/
theorem canonicalHeaders_select (names : List String) (value : String → String) :
    canonicalHeaders lib (names.map (fun n => (toAsciiLowercase n, value n))) =
      (names.insertionSort (bySignedForm lib)).map (fun n => (signedForm lib n, canonicalizeHeaderValue (value n))) := by
  have hmap : (names.map (fun n => (toAsciiLowercase n, value n))).map
        (fun h => (toLowercase lib h.1, canonicalizeHeaderValue h.2)) =
      names.map (fun n => (signedForm lib n, canonicalizeHeaderValue (value n))) := by
    rw [List.map_map]
    apply List.map_congr_left
    intro n _
    unfold signedForm
    rfl
  have hsort := List.map_insertionSort (bySignedForm lib) byName
    (fun n => ((signedForm lib n, canonicalizeHeaderValue (value n)) : Header)) names fun a _ b _ => by
      unfold bySignedForm byName
      dsimp only
      rfl
  unfold canonicalHeaders
  rw [hmap, hsort]

/-- **A canonical request is read in one way**, where its parts and the values of its headers are single lines. -/
theorem canonicalRequest_injective {names : List String} {v v' : String → String} {m m' u u' q q' p p' : String}
    (hm : '\n' ∉ m.toList) (hm' : '\n' ∉ m'.toList) (hu : '\n' ∉ u.toList) (hu' : '\n' ∉ u'.toList)
    (hq : '\n' ∉ q.toList) (hq' : '\n' ∉ q'.toList) (hv : ∀ n ∈ names, '\n' ∉ (v n).toList)
    (hv' : ∀ n ∈ names, '\n' ∉ (v' n).toList)
    (h : canonicalRequest lib m u q (names.map (fun n => (toAsciiLowercase n, v n))) p =
      canonicalRequest lib m' u' q' (names.map (fun n => (toAsciiLowercase n, v' n))) p') :
    m = m' ∧ u = u' ∧ q = q' ∧ p = p' ∧ ∀ n ∈ names, canonicalizeHeaderValue (v n) = canonicalizeHeaderValue (v' n) := by
  let sorted := names.insertionSort (bySignedForm lib)
  have hmem : ∀ n, n ∈ sorted ↔ n ∈ names := fun n => List.mem_insertionSort _
  -- the request, part by part
  have htext : ∀ (m u q p : String) (v : String → String),
      (canonicalRequest lib m u q (names.map (fun n => (toAsciiLowercase n, v n))) p).toList =
        m.toList ++ '\n' :: (u.toList ++ '\n' :: (q.toList ++ '\n' ::
          (sorted.flatMap (fun n => (headerLine (signedForm lib n) (canonicalizeHeaderValue (v n))).toList) ++
            '\n' :: ((join ";" (sorted.map (signedForm lib))).toList ++ '\n' :: p.toList)))) := by
    intro m u q p v
    have hnl : ("\n" : String).toList = ['\n'] := by decide
    unfold canonicalRequest signedNames
    rw [canonicalHeaders_select, List.map_map, List.map_map]
    simp only [String.toList_append, String.toList_join, hnl, List.append_assoc, List.singleton_append, List.flatMap_map]
    rfl
  have hlist := congrArg String.toList h
  rw [htext, htext] at hlist
  obtain ⟨hmethod, hlist⟩ := cut_line hm hm' hlist
  obtain ⟨huri, hlist⟩ := cut_line hu hu' hlist
  obtain ⟨hquery, hlist⟩ := cut_line hq hq' hlist
  obtain ⟨hvalues, hlist⟩ := lines_injective (fun n hn => newline_canonicalizeHeaderValue (hv n ((hmem n).1 hn)))
    (fun n hn => newline_canonicalizeHeaderValue (hv' n ((hmem n).1 hn))) hlist
  have hpayload := (List.cons.inj (List.append_cancel_left (List.cons.inj hlist).2)).2
  exact ⟨hmethod, huri, hquery, String.toList_injective hpayload, fun n hn => hvalues n ((hmem n).2 hn)⟩

end Names

/-! ## The text that is signed -/

theorem length_of_parseAmzDate {amzdate : String} {t : Nat} (h : parseAmzDate amzdate = some t) :
    amzdate.toList.length = 16 := by
  by_contra hlen
  unfold parseAmzDate at h
  dsimp only at h
  rw [if_pos (Or.inr (Or.inl hlen))] at h
  cases h

/-- The signed text tells the time and the request, where the digest tells its text. -/
theorem stringToSign_injective {lib : SigLib} (hsha : Function.Injective lib.sha256)
    {region service datestamp request request' amzdate amzdate' : String}
    (hlen : amzdate.toList.length = amzdate'.toList.length)
    (h : stringToSign lib region service request amzdate datestamp =
      stringToSign lib region service request' amzdate' datestamp) : amzdate = amzdate' ∧ request = request' := by
  have hlist := congrArg String.toList h
  unfold stringToSign at hlist
  simp only [String.append_assoc, String.toList_append] at hlist
  have hrest := List.append_cancel_left (List.append_cancel_left hlist)
  obtain ⟨hdate, hrest⟩ := List.append_inj hrest hlen
  refine ⟨String.toList_injective hdate, ?_⟩
  -- the scopes are the same
  simp only [List.append_cancel_left_eq] at hrest
  have hhex : sha256Hex lib (utf8 request) = sha256Hex lib (utf8 request') := String.toList_injective hrest
  exact utf8_injective (hsha (hexEncode_injective hhex))

/-! ## Two accepted requests -/

/-- A request whose parts and header values are single lines. -/
def SingleLine (req : InboundRequest) : Prop :=
  '\n' ∉ req.method.toList ∧ '\n' ∉ req.canonicalUri.toList ∧ '\n' ∉ req.canonicalQuerystring.toList ∧
    '\n' ∉ req.payloadHash.toList ∧ ∀ h ∈ req.headers, '\n' ∉ h.2.toList

/-- The digests tell their texts apart, under each key. -/
def Collisionless (lib : SigLib) : Prop :=
  Function.Injective lib.sha256 ∧ ∀ key, Function.Injective (lib.hmacSha256 key)

theorem SingleLine.valueOf {req : InboundRequest} (h : SingleLine req) {n : String}
    (hn : headerValue req.headers (toAsciiLowercase n) = some (valueOf req.headers n)) :
    '\n' ∉ (Sigv4.valueOf req.headers n).toList := by
  obtain ⟨x, hx, -, hv⟩ := mem_of_headerValue hn
  exact hv ▸ h.2.2.2.2 x hx

/-- **One signature, one request**: what is accepted twice has the same parts, and the same first value of every signed
header once its spaces are folded. -/
theorem accepted_agree {lib : SigLib} (hlib : Collisionless lib) {parsed : ParsedAuthHeader} {secret : String}
    {now now' : Nat} {r r' : InboundRequest} (hline : SingleLine r) (hline' : SingleLine r')
    (hok : verifyInboundSigv4 lib parsed r secret now = .ok ())
    (hok' : verifyInboundSigv4 lib parsed r' secret now' = .ok ()) :
    r.method = r'.method ∧ r.canonicalUri = r'.canonicalUri ∧ r.canonicalQuerystring = r'.canonicalQuerystring ∧
      r.amzdate = r'.amzdate ∧ r.payloadHash = r'.payloadHash ∧
      ∀ n ∈ split ';' parsed.signedHeaders, ∃ v v', headerValue r.headers (toAsciiLowercase n) = some v ∧
        headerValue r'.headers (toAsciiLowercase n) = some v' ∧ canonicalizeHeaderValue v = canonicalizeHeaderValue v' := by
  obtain ⟨t, selected, htime, -, -, -, hselected, hsigned⟩ := verify_ok_iff.1 hok
  obtain ⟨t', selected', htime', -, -, -, hselected', hsigned'⟩ := verify_ok_iff.1 hok'
  obtain ⟨hsel, hfound⟩ := selectHeaders_eq_some hselected
  obtain ⟨hsel', hfound'⟩ := selectHeaders_eq_some hselected'
  -- both requests have the signature of the header
  have hsig := congrArg Prod.fst (hsigned.trans hsigned'.symm)
  have hlen := (length_of_parseAmzDate htime).trans (length_of_parseAmzDate htime').symm
  obtain ⟨hdate, hrequest⟩ :=
    stringToSign_injective hlib.1 hlen (utf8_injective (hlib.2 _ (hexEncode_injective hsig)))
  rw [hsel, hsel'] at hrequest
  obtain ⟨hm, hu, hq, hp, hvalues⟩ := canonicalRequest_injective lib hline.1 hline'.1 hline.2.1 hline'.2.1
    hline.2.2.1 hline'.2.2.1 (fun n hn => hline.valueOf (hfound n hn)) (fun n hn => hline'.valueOf (hfound' n hn)) hrequest
  exact ⟨hm, hu, hq, hdate, hp, fun n hn => ⟨_, _, hfound n hn, hfound' n hn, hvalues n hn⟩⟩

/-! ## The caller -/

/-- **The signed names of an accepted request are names of headers**, where its headers have such names. -/
theorem headerName_of_signed {lib : SigLib} {parsed : ParsedAuthHeader} {req : InboundRequest} {secret : String}
    {now : Nat} (hnames : ∀ x ∈ req.headers, ∃ m : HeaderName, m.name = x.1)
    (hok : verifyInboundSigv4 lib parsed req secret now = .ok ()) :
    ∀ n ∈ split ';' parsed.signedHeaders, ∃ m : HeaderName, m.name = n := by
  obtain ⟨t, selected, -, -, -, -, hselected, hsigned⟩ := verify_ok_iff.1 hok
  obtain ⟨hsel, hfound⟩ := selectHeaders_eq_some hselected
  let names := split ';' parsed.signedHeaders
  let sorted := names.insertionSort (bySignedForm lib)
  have hsplit_ne : names ≠ [] := by
    intro hnil
    exact Fields.segments_ne_nil ';' _ (List.map_eq_nil_iff.1 hnil)
  -- a signed name in lower case is the name of the header that was found
  have hform : ∀ n ∈ names, ∃ m : HeaderName, m.name = signedForm lib n := by
    intro n hn
    obtain ⟨x, hx, hmatch, -⟩ := mem_of_headerValue (hfound n hn)
    obtain ⟨m, hm⟩ := hnames x hx
    have hlower : toAsciiLowercase x.1 = toAsciiLowercase (toAsciiLowercase n) := of_decide_eq_true hmatch
    have hname : m.name = toAsciiLowercase n := by
      rw [← toAsciiLowercase_idem n, ← hlower, ← hm, m.lower]
    refine ⟨m, ?_⟩
    unfold signedForm
    rw [← hname, m.toLowercase_name]
  -- the verifier's list of names is the client's
  have hlist : join ";" (sorted.map (signedForm lib)) = parsed.signedHeaders := by
    have hnames_eq : signedNames lib selected = parsed.signedHeaders := congrArg Prod.snd hsigned
    rw [← hnames_eq, hsel]
    unfold signedNames
    rw [canonicalHeaders_select, List.map_map]
    rfl
  have hsep : (";" : String) = String.singleton ';' := by decide
  have hbare : ∀ f ∈ sorted.map (signedForm lib), ';' ∉ f.toList := by
    intro f hf hmem
    obtain ⟨n, hn, rfl⟩ := List.mem_map.1 hf
    obtain ⟨m, hm⟩ := hform n ((List.mem_insertionSort _).1 hn)
    exact (HeaderName.bare (hm ▸ hmem)).1 rfl
  have hsorted_ne : sorted.map (signedForm lib) ≠ [] := by
    intro hnil
    have hlen : sorted.length = names.length := List.length_insertionSort (bySignedForm lib) names
    rw [List.map_eq_nil_iff.1 hnil] at hlen
    exact hsplit_ne (List.length_eq_zero_iff.1 hlen.symm)
  have hback : names = sorted.map (signedForm lib) := by
    show split ';' parsed.signedHeaders = _
    rw [← hlist, hsep, split_join hsorted_ne hbare]
  intro n hn
  have hn' : n ∈ sorted.map (signedForm lib) := hback ▸ hn
  obtain ⟨k, hk, rfl⟩ := List.mem_map.1 hn'
  exact hform k ((List.mem_insertionSort _).1 hk)

/-- A name among the signed ones, up to case and white space, is one of them as it stands. -/
theorem HeaderName.mem_of_trim {names : List String} (hnames : ∀ n ∈ names, ∃ m : HeaderName, m.name = n) {name : String}
    (h : ∃ n ∈ names, toAsciiLowercase (trim n) = name) : name ∈ names := by
  obtain ⟨n, hn, hlower⟩ := h
  obtain ⟨m, rfl⟩ := hnames n hn
  have htrim : trim m.name = m.name := trim_of_bare (bare_of_forall fun c hc => (HeaderName.bare hc).2.2)
  rw [htrim, m.lower] at hlower
  exact hlower ▸ hn

/-- The headers the caller passes on have names of headers, and are among the signed names. -/
theorem mem_signedSubset {parsed : ParsedAuthHeader} {req : Request} {x : Header} (hx : x ∈ signedSubset parsed req) :
    (∃ m : HeaderName, m.name = x.1) ∧ ∃ n ∈ split ';' parsed.signedHeaders, toAsciiLowercase (trim n) = x.1 := by
  unfold signedSubset at hx
  obtain ⟨h, -, hsome⟩ := List.mem_filterMap.1 hx
  split at hsome
  · rename_i hmem
    obtain ⟨v, -, rfl⟩ := Option.map_eq_some_iff.1 hsome
    obtain ⟨n, hn, hlower⟩ := List.mem_map.1 (List.mem_filter.1 hmem).1
    exact ⟨⟨h.1, h.1.lower.symm⟩, n, hn, hlower⟩
  · cases hsome

section Accepted

variable {parsed : ParsedAuthHeader} (hnames : ∀ n ∈ split ';' parsed.signedHeaders, ∃ m : HeaderName, m.name = n)

include hnames in
theorem host_signed {lib : SigLib} {req : InboundRequest} {secret : String} {now : Nat}
    (hok : verifyInboundSigv4 lib parsed req secret now = .ok ()) : "host" ∈ split ';' parsed.signedHeaders := by
  obtain ⟨t, selected, -, -, -, hany, -⟩ := verify_ok_iff.1 hok
  obtain ⟨n, hn, hmatch⟩ := List.any_eq_true.1 hany
  obtain ⟨m, rfl⟩ := hnames n hn
  have hlower : toAsciiLowercase m.name = toAsciiLowercase "host" := of_decide_eq_true hmatch
  have hword : toAsciiLowercase "host" = "host" := by decide
  rw [m.lower, hword] at hlower
  exact hlower ▸ hn

include hnames in
/-- A header the caller finds is a signed one. -/
theorem carried_signed {req : Request} {name value : String}
    (h : ((signedSubset parsed req).find? (fun h => h.1 = name)).map Prod.snd = some value) :
    name ∈ split ';' parsed.signedHeaders := by
  obtain ⟨x, hx, -⟩ := Option.map_eq_some_iff.1 h
  have hmatch := List.find?_some hx
  have hname : x.1 = name := of_decide_eq_true hmatch
  exact HeaderName.mem_of_trim hnames (hname ▸ (mem_signedSubset (List.mem_of_find?_eq_some hx)).2)

end Accepted

/-- **What the caller has checked.** The body has the digest that is signed, and the headers that carry the host, the
time and the digest are signed. -/
theorem verifyBedrock_signed {lib : SigLib} {gov : GovView} {req : Request} {body : Bytes} {now : Nat} {key : VirtualKey}
    (h : verifyBedrockSigv4 lib gov req body now = some key) :
    ∃ parsed inbound secret, parseAuthorizationHeader ((req.header "authorization").getD "") = .ok parsed ∧
      inbound.headers = signedSubset parsed req ∧
      verifyInboundSigv4 lib parsed inbound secret now = .ok () ∧
      (inbound.headers.find? (fun h => h.1 = xAmzContentSha256)).map Prod.snd = some inbound.payloadHash ∧
      sha256Hex lib body = toAsciiLowercase inbound.payloadHash ∧
      ∀ name ∈ ["host", xAmzDate, xAmzContentSha256], name ∈ split ';' parsed.signedHeaders := by
  unfold verifyBedrockSigv4 at h
  cases hparse : parseAuthorizationHeader ((req.header "authorization").getD "") with
  | error e =>
    rw [hparse] at h
    cases h
  | ok parsed =>
    rw [hparse] at h
    dsimp only at h
    cases hpayload : ((signedSubset parsed req).find? (fun h => h.1 = xAmzContentSha256)).map Prod.snd with
    | none =>
      rw [hpayload] at h
      cases h
    | some payloadHash =>
      rw [hpayload] at h
      dsimp only at h
      split_ifs at h with hunsigned hbody
      rw [constantTimeEq_iff] at hbody
      cases hdate : ((signedSubset parsed req).find? (fun h => h.1 = xAmzDate)).map Prod.snd with
      | none =>
        rw [hdate] at h
        cases h
      | some amzdate =>
        rw [hdate] at h
        dsimp only at h
        have hok : verifyInboundSigv4 lib parsed ⟨req.method, uriEncodePath req.path, canonicalQueryString req.query,
            signedSubset parsed req, payloadHash, amzdate⟩
            (((gov.lookupCredential "sigv4" parsed.accessKeyId).bind (fun f => f.2.plaintext)).getD dummySecret) now =
              .ok () := by
          split at h
          · assumption
          · cases h
        refine ⟨parsed, _, _, rfl, rfl, hok, hpayload, hbody, ?_⟩
        have hnames := headerName_of_signed (fun x hx => (mem_signedSubset hx).1) hok
        intro name hname
        simp only [List.mem_cons, List.not_mem_nil, or_false] at hname
        rcases hname with rfl | rfl | rfl
        · exact host_signed hnames hok
        · exact carried_signed hnames hdate
        · exact carried_signed hnames hpayload

/-- What the caller admits. -/
theorem verifyBedrock_eq {lib : SigLib} {gov : GovView} {req : Request} {body : Bytes} {now : Nat} {key : VirtualKey}
    {cred : CredentialSecret} {parsed : ParsedAuthHeader} {headers : List Header} {payloadHash amzdate secret : String}
    (hparse : parseAuthorizationHeader ((req.header "authorization").getD "") = .ok parsed)
    (hheaders : signedSubset parsed req = headers)
    (hpayload : (headers.find? (fun h => h.1 = xAmzContentSha256)).map Prod.snd = some payloadHash)
    (hunsigned : ¬eqIgnoreAsciiCase payloadHash "UNSIGNED-PAYLOAD" = true)
    (hbody : sha256Hex lib body = toAsciiLowercase payloadHash)
    (hdate : (headers.find? (fun h => h.1 = xAmzDate)).map Prod.snd = some amzdate)
    (hfound : gov.lookupCredential "sigv4" parsed.accessKeyId = some (key, cred)) (hsecret : cred.plaintext = some secret)
    (hok : verifyInboundSigv4 lib parsed ⟨req.method, uriEncodePath req.path, canonicalQueryString req.query, headers,
      payloadHash, amzdate⟩ secret now = .ok ())
    (hlive : cred.metadata.isLive now = true ∧ key.enabled = true ∧ ¬gov.isRevoked key.id = true) :
    verifyBedrockSigv4 lib gov req body now = some key := by
  have hbody' := constantTimeEq_iff.2 hbody
  unfold verifyBedrockSigv4
  rw [hparse]
  dsimp only
  rw [hheaders, hpayload]
  dsimp only
  rw [if_neg hunsigned, if_neg (not_not.2 hbody'), hdate]
  dsimp only
  rw [hfound, Option.bind_some, hsecret, Option.getD_some, hok]
  exact if_pos hlive

/-! ## Headers that stand twice -/

theorem headerValue_append {headers : List Header} (extra : List Header) {name value : String}
    (h : headerValue headers name = some value) : headerValue (headers ++ extra) name = some value := by
  obtain ⟨x, hx, hv⟩ := Option.map_eq_some_iff.1 h
  unfold headerValue
  rw [List.find?_append, hx, Option.some_or, Option.map_some, hv]

theorem selectHeaders_append {headers selected : List Header} (extra : List Header) {names : List String}
    (h : selectHeaders headers names = some selected) : selectHeaders (headers ++ extra) names = some selected := by
  induction names generalizing selected with
  | nil => exact h
  | cons name names ih =>
    rw [selectHeaders] at h ⊢
    obtain ⟨value, hvalue, h⟩ := Option.bind_eq_some_iff.1 h
    obtain ⟨rest, hrest, h⟩ := Option.bind_eq_some_iff.1 h
    rw [headerValue_append extra hvalue, ih hrest]
    exact h

/-- **Headers behind the others change nothing**, whatever their names. -/
theorem verify_append {lib : SigLib} {parsed : ParsedAuthHeader} {req : InboundRequest} {secret : String} {now : Nat}
    (extra : List Header) (h : verifyInboundSigv4 lib parsed req secret now = .ok ()) :
    verifyInboundSigv4 lib parsed { req with headers := req.headers ++ extra } secret now = .ok () := by
  obtain ⟨t, selected, htime, hnow, hdate, hhost, hselected, hsigned⟩ := verify_ok_iff.1 h
  exact verify_ok_iff.2 ⟨t, selected, htime, hnow, hdate, hhost, selectHeaders_append extra hselected, hsigned⟩

theorem SingleLine.append {req : InboundRequest} (h : SingleLine req) {extra : List Header}
    (hextra : ∀ x ∈ extra, '\n' ∉ x.2.toList) : SingleLine { req with headers := req.headers ++ extra } := by
  obtain ⟨hm, hu, hq, hp, hheaders⟩ := h
  refine ⟨hm, hu, hq, hp, fun x hx => ?_⟩
  rcases List.mem_append.1 hx with hx | hx
  · exact hheaders x hx
  · exact hextra x hx

/-- The folded values of the headers of a name. -/
def values (req : InboundRequest) (name : String) : List String :=
  (req.headers.filter (fun h => eqIgnoreAsciiCase h.1 name)).map (fun h => canonicalizeHeaderValue h.2)

/-- The first of them is the value the verifier takes. -/
theorem head_values {req : InboundRequest} {name v : String}
    (h : headerValue req.headers (toAsciiLowercase name) = some v) :
    (values req name).head? = some (canonicalizeHeaderValue v) := by
  have hpred : (fun h : Header => eqIgnoreAsciiCase h.1 (toAsciiLowercase name)) =
      fun h => eqIgnoreAsciiCase h.1 name := by
    funext x
    unfold eqIgnoreAsciiCase
    rw [toAsciiLowercase_idem]
  obtain ⟨x, hx, hv⟩ := Option.map_eq_some_iff.1 h
  unfold values
  rw [List.head?_map, List.head?_filter, ← hpred, hx, Option.map_some, hv]

namespace Sample

/-- The digests of the sample, each exchanged with its text. -/
def swapped : SigLib where
  sha256 := Equiv.swap (utf8 request) requestDigest
  hmacSha256 key := (digests.find? (fun e => e.1 = key)).elim id (fun e => Equiv.swap e.2.1 e.2.2)
  unicodeLower := id

theorem collisionless_swapped : Collisionless swapped := by
  refine ⟨(Equiv.swap _ _).injective, fun key => ?_⟩
  show Function.Injective ((digests.find? (fun e => e.1 = key)).elim id (fun e => Equiv.swap e.2.1 e.2.2))
  cases digests.find? (fun e => e.1 = key) with
  | none => exact Function.injective_id
  | some e => exact (Equiv.swap _ _).injective

/-- The request as it was signed, and with a second host behind it. -/
def once : InboundRequest := signing.inbound (some "a=1&b=2")

def twice : InboundRequest := { once with headers := once.headers ++ [("host", "elsewhere.example")] }

theorem once_accepted : verifyInboundSigv4 swapped (signing.parsed swapped) once signing.secret 1440938400 = .ok () :=
  signing.verify_signed swapped (by decide) (canonicalQueryString_perm (by decide))

theorem twice_accepted : verifyInboundSigv4 swapped (signing.parsed swapped) twice signing.secret 1440938400 = .ok () :=
  verify_append _ once_accepted

theorem singleLine_once : SingleLine once := by
  unfold SingleLine
  decide +kernel

theorem singleLine_twice : SingleLine twice := singleLine_once.append (by decide)

end Sample

/-- A second header of a signed name is not bound. -/
theorem repeated_header_unbound :
    ¬∀ (lib : SigLib) (parsed : ParsedAuthHeader) (secret : String) (now : Nat) (r r' : InboundRequest),
      Collisionless lib → SingleLine r → SingleLine r' → verifyInboundSigv4 lib parsed r secret now = .ok () →
        verifyInboundSigv4 lib parsed r' secret now = .ok () →
          ∀ n ∈ split ';' parsed.signedHeaders, values r n = values r' n := by
  intro hclaim
  have hhost : "host" ∈ split ';' (Sample.signing.parsed Sample.swapped).signedHeaders := by
    have hsplit : split ';' (Sample.signing.parsed Sample.swapped).signedHeaders = Sample.signing.names :=
      Sample.signing.split_signed_names Sample.swapped
    exact hsplit ▸ Sample.signing.host_mem_names
  have hvalues := hclaim Sample.swapped _ Sample.signing.secret 1440938400 Sample.once Sample.twice
    Sample.collisionless_swapped Sample.singleLine_once Sample.singleLine_twice Sample.once_accepted
    Sample.twice_accepted "host" hhost
  exact absurd hvalues (by decide +kernel)

/-- **An accepted signature binds the request**, of every signed header the first value. The caller of the verifier has
the body's digest signed too, and the headers that carry the host, the time and that digest. -/
theorem signature_binds_request :
    (∀ (lib : SigLib) (parsed : ParsedAuthHeader) (secret : String) (now : Nat) (r r' : InboundRequest),
      Collisionless lib → SingleLine r → SingleLine r' → verifyInboundSigv4 lib parsed r secret now = .ok () →
        verifyInboundSigv4 lib parsed r' secret now = .ok () →
          r.method = r'.method ∧ r.canonicalUri = r'.canonicalUri ∧
          r.canonicalQuerystring = r'.canonicalQuerystring ∧ r.amzdate = r'.amzdate ∧ r.payloadHash = r'.payloadHash ∧
          ∀ n ∈ split ';' parsed.signedHeaders, (values r n).head? = (values r' n).head? ∧ values r n ≠ []) ∧
    ∀ (lib : SigLib) (gov : GovView) (req : Request) (body : Bytes) (now : Nat) (key : VirtualKey),
      verifyBedrockSigv4 lib gov req body now = some key →
        ∃ parsed inbound secret, parseAuthorizationHeader ((req.header "authorization").getD "") = .ok parsed ∧
          inbound.headers = signedSubset parsed req ∧ verifyInboundSigv4 lib parsed inbound secret now = .ok () ∧
          (inbound.headers.find? (fun h => h.1 = xAmzContentSha256)).map Prod.snd = some inbound.payloadHash ∧
          sha256Hex lib body = toAsciiLowercase inbound.payloadHash ∧
          ∀ name ∈ ["host", xAmzDate, xAmzContentSha256], name ∈ split ';' parsed.signedHeaders := by
  refine ⟨?_, fun lib gov req body now key => verifyBedrock_signed⟩
  intro lib parsed secret now r r' hlib hline hline' hok hok'
  obtain ⟨hm, hu, hq, hdate, hp, hvalues⟩ := accepted_agree hlib hline hline' hok hok'
  refine ⟨hm, hu, hq, hdate, hp, fun n hn => ?_⟩
  obtain ⟨v, v', hv, hv', heq⟩ := hvalues n hn
  have hhead := head_values hv
  have hhead' := head_values hv'
  refine ⟨by rw [hhead, hhead', heq], ?_⟩
  intro hnil
  rw [hnil] at hhead
  cases hhead

namespace Sample

def authorizationName : HeaderName := ⟨"authorization", List.all_eq_true.1 (by decide), by decide⟩

/-- The request as the server gets it. -/
def sent : Request where
  method := "POST"
  path := "/model/m/converse"
  query := some "a=1&b=2"
  headers :=
    (authorizationName, some (signing.authorization lib [.signature, .credential, .signedHeaders])) ::
      signing.headers.map (fun h => (h.1, some h.2))

def key : VirtualKey := ⟨"key-1", "", "sample", none, true, 0, none, [], none, none, 0⟩

def credential : CredentialSecret where
  metadata := ⟨"cred-1", "key-1", "sigv4", 0, "AKIDEXAMPLE", .recoverable, 0, 0, none, none, none, 0⟩
  secret := "v1:plain:wJalrXUtnFEMI"

def gov : GovView where
  lookupCredential kind publicId := if kind = "sigv4" ∧ publicId = "AKIDEXAMPLE" then some (key, credential) else none
  isRevoked _ := false

theorem sent_authorization : (sent.header "authorization").getD "" =
    signing.authorization lib [.signature, .credential, .signedHeaders] := by
  unfold Request.header sent
  rw [List.find?_cons_of_pos (by decide)]
  rfl

theorem signedSubset_sent : signedSubset (signing.parsed lib) sent = fields signing.headers := by
  have hsplit : split ';' (signing.parsed lib).signedHeaders = signing.names := signing.split_signed_names lib
  unfold signedSubset
  rw [hsplit]
  decide +kernel

theorem inbound_sent : signing.inbound (some "a=1&b=2") = ⟨sent.method, uriEncodePath sent.path,
    canonicalQueryString sent.query, fields signing.headers, emptyHash, "20150830T123600Z"⟩ := by
  have hdate : (formatAmzTime signing.time).1 = "20150830T123600Z" := by decide +kernel
  unfold Signing.inbound
  rw [hdate]
  rfl

theorem parse_sent : parseAuthorizationHeader ((sent.header "authorization").getD "") = .ok (signing.parsed lib) := by
  rw [sent_authorization]
  exact signing.parse_authorization lib length_hmac (by decide)

theorem verify_sent : verifyInboundSigv4 lib (signing.parsed lib) ⟨sent.method, uriEncodePath sent.path,
    canonicalQueryString sent.query, fields signing.headers, emptyHash, "20150830T123600Z"⟩ signing.secret 1440938400 =
      .ok () := by
  rw [← inbound_sent]
  exact signing.verify_signed lib (by decide) (canonicalQueryString_perm (by decide))

theorem sent_accepted : verifyBedrockSigv4 lib gov sent [] 1440938400 = some key := by
  have hpayload : ((fields signing.headers).find? (fun h => h.1 = xAmzContentSha256)).map Prod.snd = some emptyHash := by
    decide +kernel
  have hdate : ((fields signing.headers).find? (fun h => h.1 = xAmzDate)).map Prod.snd = some "20150830T123600Z" := by
    decide +kernel
  have hunsigned : ¬eqIgnoreAsciiCase emptyHash "UNSIGNED-PAYLOAD" = true := by decide +kernel
  have hbody : sha256Hex lib [] = toAsciiLowercase emptyHash := by decide +kernel
  have hfound : gov.lookupCredential "sigv4" (signing.parsed lib).accessKeyId = some (key, credential) := by decide
  have hsecret : credential.plaintext = some signing.secret := by decide
  have hlive : credential.metadata.isLive 1440938400 = true ∧ key.enabled = true ∧ ¬gov.isRevoked key.id = true := by
    decide
  exact verifyBedrock_eq parse_sent signedSubset_sent hpayload hunsigned hbody hdate hfound hsecret verify_sent hlive

end Sample

theorem signature_binds_request_sample :
    (Sample.once.method = Sample.twice.method ∧ Sample.once.canonicalUri = Sample.twice.canonicalUri ∧
      Sample.once.canonicalQuerystring = Sample.twice.canonicalQuerystring ∧
      Sample.once.amzdate = Sample.twice.amzdate ∧ Sample.once.payloadHash = Sample.twice.payloadHash ∧
      ∀ n ∈ split ';' (Sample.signing.parsed Sample.swapped).signedHeaders,
        (values Sample.once n).head? = (values Sample.twice n).head? ∧ values Sample.once n ≠ []) ∧
    ∃ parsed inbound secret, parseAuthorizationHeader ((Sample.sent.header "authorization").getD "") = .ok parsed ∧
      inbound.headers = signedSubset parsed Sample.sent ∧
      verifyInboundSigv4 Sample.lib parsed inbound secret 1440938400 = .ok () ∧
      (inbound.headers.find? (fun h => h.1 = xAmzContentSha256)).map Prod.snd = some inbound.payloadHash ∧
      sha256Hex Sample.lib [] = toAsciiLowercase inbound.payloadHash ∧
      ∀ name ∈ ["host", xAmzDate, xAmzContentSha256], name ∈ split ';' parsed.signedHeaders :=
  ⟨signature_binds_request.1 Sample.swapped _ Sample.signing.secret 1440938400 Sample.once Sample.twice
      Sample.collisionless_swapped Sample.singleLine_once Sample.singleLine_twice Sample.once_accepted
      Sample.twice_accepted,
    signature_binds_request.2 Sample.lib Sample.gov Sample.sent [] 1440938400 Sample.key Sample.sent_accepted⟩

end Busbar.Sigv4
