import Busbar.Auth.Sigv4

/-!
# The texts of a signature

What the signer joins and the verifier splits: lists under a separator, the ends of a section, the parameters of
a query.

* `split_join`, `map_trim_split_join`: parts without the separator come back.
* `constantTimeEq_iff`: the comparison that takes its time is the equality.
* `canonicalQueryString_perm`, `canonicalQueryString_idem`: the order of the parameters does not matter, and the
  text for them stands for itself.
-/

namespace Busbar.Sigv4

/-! ## The ends of a text -/

/-- The first character is no white space. -/
def BareHead (cs : List Char) : Prop := ∀ c ∈ cs.head?, isWhitespace c = false

/-- No white space at the ends. -/
def Bare (s : String) : Prop := BareHead s.toList ∧ BareHead s.toList.reverse

theorem dropWhile_of_bareHead {cs : List Char} (h : BareHead cs) : cs.dropWhile isWhitespace = cs := by
  cases cs with
  | nil => rfl
  | cons c cs =>
    have hc : isWhitespace c = false := h c rfl
    exact List.dropWhile_cons_of_neg (by simp [hc])

theorem trim_of_bare {s : String} (h : Bare s) : trim s = s := by
  unfold trim
  rw [dropWhile_of_bareHead h.1, dropWhile_of_bareHead h.2, List.reverse_reverse, String.ofList_toList]

/-- A text that is its own trimmed text starts bare. -/
theorem bareHead_of_trim {s : String} (h : trim s = s) : BareHead s.toList := by
  intro c hc
  by_contra hspace
  rw [Bool.not_eq_false] at hspace
  obtain ⟨cs, hs⟩ := List.head?_eq_some_iff.1 hc
  -- the first character would be gone
  have hdrop : s.toList.dropWhile isWhitespace = cs.dropWhile isWhitespace := by
    rw [hs, List.dropWhile_cons_of_pos hspace]
  have hlen := congrArg (fun x => x.toList.length) h
  unfold trim at hlen
  rw [hdrop, String.toList_ofList, List.length_reverse, hs, List.length_cons] at hlen
  have h1 := List.length_dropWhile_le isWhitespace (cs.dropWhile isWhitespace).reverse
  have h2 := List.length_dropWhile_le isWhitespace cs
  rw [List.length_reverse] at h1
  omega

/-- A space in front is trimmed. -/
theorem trim_space (s : String) : trim (" " ++ s) = trim s := by
  have htext : (" " ++ s).toList = ' ' :: s.toList := by rw [String.toList_append]; rfl
  have hspace : isWhitespace ' ' = true := by decide
  unfold trim
  rw [htext, List.dropWhile_cons_of_pos hspace]

theorem bare_of_forall {s : String} (h : ∀ c ∈ s.toList, isWhitespace c = false) : Bare s := by
  refine ⟨fun c hc => h c (List.mem_of_mem_head? hc), fun c hc => h c ?_⟩
  exact List.mem_reverse.1 (List.mem_of_mem_head? hc)

theorem BareHead.append {a : List Char} (b : List Char) (hne : a ≠ []) (h : BareHead a) : BareHead (a ++ b) := by
  intro c hc
  rw [List.head?_append_of_ne_nil a hne] at hc
  exact h c hc

/-- Two texts behind each other have the one's first character and the other's last. -/
theorem Bare.append {a b : String} (ha : BareHead a.toList) (hb : BareHead b.toList.reverse) (hane : a ≠ "")
    (hbne : b ≠ "") : Bare (a ++ b) := by
  have ha' : a.toList ≠ [] := fun h => hane (String.toList_eq_nil_iff.1 h)
  have hb' : b.toList.reverse ≠ [] := fun h => hbne (String.toList_eq_nil_iff.1 (List.reverse_eq_nil_iff.1 h))
  unfold Bare
  rw [String.toList_append, List.reverse_append]
  exact ⟨ha.append _ ha', hb.append _ hb'⟩

/-! ## Lower case -/

/-- A lower case letter is its own lower case. -/
theorem toLower_toLower (c : Char) : c.toLower.toLower = c.toLower := by
  by_cases hupper : c.val ≥ 'A'.val ∧ c.val ≤ 'Z'.val
  · have hval : c.toLower.val = c.val + ('a'.val - 'A'.val) := by
      unfold Char.toLower
      rw [dif_pos hupper]
    have hhigh : ¬(c.toLower.val ≥ 'A'.val ∧ c.toLower.val ≤ 'Z'.val) := by
      rw [hval]
      obtain ⟨h1, h2⟩ := hupper
      simp only [ge_iff_le, UInt32.le_iff_toNat_le] at h1 h2 ⊢
      have hadd : (c.val + ('a'.val - 'A'.val)).toNat = c.val.toNat + 32 := by
        rw [UInt32.toNat_add]
        have h90 : 'Z'.val.toNat = 90 := by decide
        have h32 : ('a'.val - 'A'.val).toNat = 32 := by decide
        omega
      have h90 : 'Z'.val.toNat = 90 := by decide
      have h65 : 'A'.val.toNat = 65 := by decide
      omega
    exact dif_neg hhigh
  · have hsame : c.toLower = c := dif_neg hupper
    rw [hsame, hsame]

theorem toAsciiLowercase_idem (s : String) : toAsciiLowercase (toAsciiLowercase s) = toAsciiLowercase s := by
  have hcomp : Char.toLower ∘ Char.toLower = Char.toLower := funext toLower_toLower
  unfold toAsciiLowercase
  rw [String.toList_ofList, List.map_map, hcomp]

/-! ## Splitting and joining -/

theorem toList_join_singleton (c : Char) (parts : List String) :
    (join (String.singleton c) parts).toList = Fields.join c (parts.map String.toList) := by
  unfold join Fields.join
  rw [String.toList_intercalate, String.toList_singleton]

/-- **Parts without the separator come back.** -/
theorem split_join {c : Char} {parts : List String} (hne : parts ≠ []) (h : ∀ p ∈ parts, c ∉ p.toList) :
    split c (join (String.singleton c) parts) = parts := by
  have hfields : ∀ x ∈ parts.map String.toList, c ∉ x := by
    intro x hx
    obtain ⟨p, hp, rfl⟩ := List.mem_map.1 hx
    exact h p hp
  have hne' : parts.map String.toList ≠ [] := fun hnil => hne (List.map_eq_nil_iff.1 hnil)
  have hback : String.ofList ∘ String.toList = id := funext fun s => String.ofList_toList
  unfold split
  rw [toList_join_singleton, Fields.segments_join hne', Fields.flatMap_segments hfields, List.map_map, hback, List.map_id]

theorem notMem_of_mem_split {c : Char} {s p : String} (h : p ∈ split c s) : c ∉ p.toList := by
  obtain ⟨x, hx, rfl⟩ := List.mem_map.1 h
  rw [String.toList_ofList]
  exact Fields.notMem_of_mem_segments x hx

theorem split_append {c : Char} {a : String} (b : String) (h : c ∉ a.toList) :
    split c (a ++ String.singleton c ++ b) = a :: split c b := by
  have htext : (a ++ String.singleton c ++ b).toList = a.toList ++ c :: b.toList := by
    rw [String.toList_append, String.toList_append, String.toList_singleton, List.append_assoc, List.singleton_append]
  unfold split
  rw [htext, Fields.segments_append, Fields.segments_of_notMem h, List.singleton_append, List.map_cons,
    String.ofList_toList]

theorem split_of_notMem {c : Char} {s : String} (h : c ∉ s.toList) : split c s = [s] := by
  unfold split
  rw [Fields.segments_of_notMem h, List.map_singleton, String.ofList_toList]

/-- Parts joined by a comma and a space, behind something that is trimmed away. -/
theorem map_trim_split_front (front : String) {parts : List String} (hne : parts ≠ []) (h : ∀ p ∈ parts, ',' ∉ p.toList)
    (hfront : ',' ∉ front.toList) (htrim : ∀ s, trim (front ++ s) = trim s) :
    (split ',' (front ++ join ", " parts)).map trim = parts.map trim := by
  induction parts generalizing front with
  | nil => exact absurd rfl hne
  | cons p parts ih =>
    have hp : ',' ∉ (front ++ p).toList := by
      rw [String.toList_append, List.mem_append, not_or]
      exact ⟨hfront, h p List.mem_cons_self⟩
    cases parts with
    | nil =>
      have htext : join ", " [p] = p := String.intercalate_singleton
      rw [htext, split_of_notMem hp, List.map_singleton, List.map_singleton, htrim]
    | cons q parts =>
      have hcomma : (", " : String) = String.singleton ',' ++ " " := by decide
      have htext : front ++ join ", " (p :: q :: parts) =
          front ++ p ++ String.singleton ',' ++ (" " ++ join ", " (q :: parts)) := by
        unfold join
        rw [String.intercalate_cons_cons, hcomma]
        simp only [String.append_assoc]
      -- the space after the comma is the next front
      have hrest := ih " " (List.cons_ne_nil q parts) (fun x hx => h x (List.mem_cons_of_mem p hx)) (by decide) trim_space
      rw [htext, split_append _ hp]
      show trim (front ++ p) :: _ = trim p :: (q :: parts).map trim
      rw [hrest, htrim]

theorem map_trim_split_join {parts : List String} (hne : parts ≠ []) (h : ∀ p ∈ parts, ',' ∉ p.toList) :
    (split ',' (join ", " parts)).map trim = parts.map trim := by
  have hempty : ∀ s : String, "" ++ s = s := fun s => String.empty_append
  have hall := map_trim_split_front "" hne h (by decide) (fun s => by rw [hempty])
  rwa [hempty] at hall

/-- Joined texts end with the last one. -/
theorem exists_join_concat (sep : String) (parts : List String) (last : String) :
    ∃ front, join sep (parts ++ [last]) = front ++ last := by
  induction parts with
  | nil => exact ⟨"", String.intercalate_singleton.trans String.empty_append.symm⟩
  | cons p parts ih =>
    obtain ⟨front, hfront⟩ := ih
    have hne : parts ++ [last] ≠ [] := List.append_ne_nil_of_right_ne_nil parts (List.cons_ne_nil last [])
    have htext : join sep (p :: (parts ++ [last])) = p ++ sep ++ join sep (parts ++ [last]) :=
      String.intercalate_cons_of_ne_nil hne
    exact ⟨p ++ sep ++ front, by rw [List.cons_append, htext, hfront, ← String.append_assoc]⟩

theorem mem_join {sep : String} {parts : List String} {c : Char} (h : c ∈ (join sep parts).toList) :
    c ∈ sep.toList ∨ ∃ p ∈ parts, c ∈ p.toList := by
  induction parts with
  | nil => exact absurd h (by simp [join])
  | cons p parts ih =>
    cases parts with
    | nil =>
      have htext : join sep [p] = p := String.intercalate_singleton
      rw [htext] at h
      exact Or.inr ⟨p, List.mem_cons_self, h⟩
    | cons q parts =>
      have htext : join sep (p :: q :: parts) = p ++ sep ++ join sep (q :: parts) := String.intercalate_cons_cons
      rw [htext, String.toList_append, String.toList_append, List.mem_append, List.mem_append] at h
      rcases h with (h | h) | h
      · exact Or.inr ⟨p, List.mem_cons_self, h⟩
      · exact Or.inl h
      · exact (ih h).imp id fun ⟨x, hx, hc⟩ => ⟨x, List.mem_cons_of_mem p hx, hc⟩

/-! ## Hexadecimal digits -/

theorem mem_hexEncode {bs : Bytes} {c : Char} (h : c ∈ (hexEncode bs).toList) : c ∈ hexDigits := by
  have hdigit : ∀ n : Nat, n < 16 → hexDigits.getD n '0' ∈ hexDigits := by
    intro n hn
    have hlen : n < hexDigits.length := hn
    have hget : hexDigits.getD n '0' = hexDigits[n] := by
      rw [List.getD_eq_getElem?_getD, List.getElem?_eq_getElem hlen, Option.getD_some]
    exact hget ▸ List.getElem_mem hlen
  unfold hexEncode at h
  rw [String.toList_ofList, List.mem_flatMap] at h
  obtain ⟨b, -, hc⟩ := h
  have hb : b.toNat < 256 := b.toNat_lt
  rcases List.mem_cons.1 hc with rfl | hc
  · exact hdigit _ (by omega)
  · rw [List.mem_singleton] at hc
    exact hc ▸ hdigit _ (by omega)

theorem hexEncode_ne_empty {bs : Bytes} (h : bs ≠ []) : hexEncode bs ≠ "" := by
  intro hempty
  obtain ⟨b, bs, rfl⟩ := List.exists_cons_of_ne_nil h
  have htext := congrArg String.toList hempty
  unfold hexEncode at htext
  rw [String.toList_ofList, List.flatMap_cons] at htext
  exact absurd htext (by simp)

/-! ## Comparing -/

theorem foldl_or_eq_zero (a b : Bytes) (hlen : a.length = b.length) (r : UInt8) :
    (a.zip b).foldl (fun result p => result ||| (p.1 ^^^ p.2)) r = 0 ↔ r = 0 ∧ a = b := by
  induction a generalizing b r with
  | nil =>
    have hb : b = [] := List.length_eq_zero_iff.1 hlen.symm
    rw [hb]
    exact ⟨fun h => ⟨h, rfl⟩, fun h => h.1⟩
  | cons x a ih =>
    cases b with
    | nil => exact absurd hlen (by simp)
    | cons y b =>
      have hlen' : a.length = b.length := Nat.succ.inj hlen
      rw [List.zip_cons_cons, List.foldl_cons, ih b hlen', UInt8.or_eq_zero_iff, UInt8.xor_eq_zero_iff, List.cons.injEq,
        and_assoc]

/-- **The comparison that takes its time is the equality.** -/
theorem constantTimeEq_iff {a b : String} : constantTimeEq a b = true ↔ a = b := by
  unfold constantTimeEq
  by_cases hlen : (utf8 a).length = (utf8 b).length
  · rw [if_neg (not_not.2 hlen), decide_eq_true_eq, foldl_or_eq_zero _ _ hlen, utf8_injective.eq_iff]
    exact ⟨fun h => h.2, fun h => ⟨rfl, h⟩⟩
  · rw [if_pos hlen]
    constructor
    · exact fun h => absurd h (by decide)
    · rintro rfl
      exact absurd rfl hlen

/-! ## What the verifier accepts -/

/-- The verifier's computation on the headers it has selected. -/
def recompute (lib : SigLib) (parsed : ParsedAuthHeader) (req : InboundRequest) (secret : String)
    (selected : List Header) : String × String :=
  signV4 lib secret parsed.region parsed.service req.method req.canonicalUri req.canonicalQuerystring selected
    req.payloadHash req.amzdate parsed.datestamp

/-- **What the verifier accepts**: a fresh time with the date of the credential, `host` among the signed names, all of
them in the request, and the signature of these headers. -/
theorem verify_ok_iff {lib : SigLib} {parsed : ParsedAuthHeader} {req : InboundRequest} {secret : String} {now : Nat} :
    verifyInboundSigv4 lib parsed req secret now = .ok () ↔
      ∃ t selected, parseAmzDate req.amzdate = some t ∧ absDiff t now ≤ clockSkewSecs ∧
        parsed.datestamp.toList = req.amzdate.toList.take 8 ∧
        (split ';' parsed.signedHeaders).any (fun h => eqIgnoreAsciiCase h "host") = true ∧
        selectHeaders req.headers (split ';' parsed.signedHeaders) = some selected ∧
        recompute lib parsed req secret selected = (parsed.signature, parsed.signedHeaders) := by
  have hcompare : ∀ computed : String × String,
      (constantTimeEq computed.2 parsed.signedHeaders && constantTimeEq computed.1 parsed.signature) = true ↔
        computed = (parsed.signature, parsed.signedHeaders) := by
    intro computed
    rw [Bool.and_eq_true, constantTimeEq_iff, constantTimeEq_iff, Prod.ext_iff, and_comm]
  unfold verifyInboundSigv4
  cases htime : parseAmzDate req.amzdate with
  | none => exact ⟨fun h => (by cases h), fun ⟨t, _, ht, _⟩ => (by cases ht)⟩
  | some t =>
    dsimp only
    constructor
    · intro h
      by_cases hskew : clockSkewSecs < absDiff t now
      · rw [if_pos hskew] at h
        cases h
      rw [if_neg hskew] at h
      by_cases hdate : parsed.datestamp.toList = req.amzdate.toList.take 8
      swap
      · rw [if_pos hdate] at h
        cases h
      rw [if_neg (not_not.2 hdate)] at h
      by_cases hhost : (split ';' parsed.signedHeaders).any (fun h => eqIgnoreAsciiCase h "host") = true
      swap
      · rw [if_pos hhost] at h
        cases h
      rw [if_neg (not_not.2 hhost)] at h
      cases hselected : selectHeaders req.headers (split ';' parsed.signedHeaders) with
      | none =>
        rw [hselected] at h
        cases h
      | some selected =>
        rw [hselected] at h
        dsimp only at h
        refine ⟨t, selected, rfl, not_lt.1 hskew, hdate, hhost, rfl, (hcompare _).1 ?_⟩
        by_contra hdiffer
        rw [if_neg] at h
        · cases h
        · exact hdiffer
    · rintro ⟨t', selected, ht, hskew, hdate, hhost, hselected, hsigned⟩
      obtain rfl := Option.some.inj ht
      rw [if_neg (not_lt.2 hskew), if_neg (not_not.2 hdate), if_neg (not_not.2 hhost), hselected]
      dsimp only
      rw [if_pos]
      exact (hcompare _).2 hsigned

/-! ## The parameters of a query -/

/-- The parameters of a query, as they are written. -/
def parameters (query : Option String) : List String := (split '&' (query.getD "")).filter (· ≠ "")

def pairText (p : String × String) : String := p.1 ++ "=" ++ p.2

def sortedPairs (query : Option String) : List (String × String) :=
  ((parameters query).map queryPair).insertionSort pairLe

instance : Std.Total pairLe where
  total a b := by
    unfold pairLe
    rcases lt_trichotomy a.1 b.1 with h | h | h
    · exact Or.inl (Or.inl h)
    · exact (le_total a.2 b.2).imp (fun h2 => Or.inr ⟨h, h2⟩) (fun h2 => Or.inr ⟨h.symm, h2⟩)
    · exact Or.inr (Or.inl h)

instance : IsTrans (String × String) pairLe where
  trans a b c hab hbc := by
    unfold pairLe at *
    rcases hab with h | ⟨h, h2⟩
    · rcases hbc with h' | ⟨h', -⟩
      · exact Or.inl (h.trans h')
      · exact Or.inl (h' ▸ h)
    · rcases hbc with h' | ⟨h', h2'⟩
      · exact Or.inl (h ▸ h')
      · exact Or.inr ⟨h.trans h', h2.trans h2'⟩

instance : Std.Antisymm pairLe where
  antisymm a b hab hba := by
    unfold pairLe at *
    rcases hab with h | ⟨h, h2⟩
    · rcases hba with h' | ⟨h', -⟩
      · exact absurd (h.trans h') (lt_irrefl _)
      · exact absurd (h' ▸ h) (lt_irrefl _)
    · rcases hba with h' | ⟨-, h2'⟩
      · exact absurd (h ▸ h') (lt_irrefl _)
      · exact Prod.ext h (le_antisymm h2 h2')

/-- The text for a query is that of its sorted parameters; an empty query has none. -/
theorem canonicalQueryString_eq (query : Option String) :
    canonicalQueryString query = join "&" ((sortedPairs query).map pairText) := by
  have hempty : parameters (some "") = [] := by decide
  cases query with
  | none =>
    have hnone : parameters none = [] := hempty
    unfold sortedPairs
    rw [hnone]
    decide
  | some q =>
    by_cases hq : q = ""
    · rw [hq]
      unfold sortedPairs
      rw [hempty]
      decide
    · have hfilter : (some q).filter (· ≠ "") = some q := by simp [hq]
      unfold canonicalQueryString
      rw [hfilter]
      rfl

/-- **The order of the parameters does not matter.** -/
theorem sortedPairs_perm {q q' : Option String} (h : (parameters q').Perm (parameters q)) :
    sortedPairs q' = sortedPairs q := by
  have hperm : (sortedPairs q').Perm (sortedPairs q) :=
    ((List.perm_insertionSort pairLe _).trans (h.map queryPair)).trans (List.perm_insertionSort pairLe _).symm
  exact List.Perm.eq_of_pairwise' (List.pairwise_insertionSort pairLe _) (List.pairwise_insertionSort pairLe _) hperm

theorem canonicalQueryString_perm {q q' : Option String} (h : (parameters q').Perm (parameters q)) :
    canonicalQueryString q' = canonicalQueryString q := by
  rw [canonicalQueryString_eq, canonicalQueryString_eq, sortedPairs_perm h]

theorem queryPair_pairText {p : String × String} (h : '=' ∉ p.1.toList) : queryPair (pairText p) = p := by
  have heq : ("=" : String) = String.singleton '=' := by decide
  unfold queryPair pairText
  rw [heq, splitOnce_append p.2 h]
  rfl

/-- The parts of a parameter hold no separator of parameters, and its key no `=`. -/
theorem queryPair_notMem {part : String} (h : '&' ∉ part.toList) :
    '=' ∉ (queryPair part).1.toList ∧ '&' ∉ (pairText (queryPair part)).toList := by
  unfold queryPair pairText splitOnce
  dsimp only
  split
  · rw [Option.getD_some]
    simp only [String.toList_append, String.toList_ofList, List.mem_append, not_or]
    refine ⟨?_, ⟨?_, by decide⟩, ?_⟩
    · intro hmem
      have hkept := List.mem_takeWhile_imp hmem
      exact of_decide_eq_true hkept rfl
    · exact fun hmem => h ((List.takeWhile_sublist _).mem hmem)
    · exact fun hmem => h ((List.dropWhile_sublist _).mem (List.mem_of_mem_tail hmem))
  · rename_i hno
    rw [Option.getD_none]
    simp only [String.toList_append, List.mem_append, not_or]
    exact ⟨hno, ⟨h, by decide⟩, by decide⟩

/-- The parameters of the text for sorted pairs are these pairs. -/
theorem parameters_join {ps : List (String × String)} (h : ∀ p ∈ ps, '=' ∉ p.1.toList ∧ '&' ∉ (pairText p).toList) :
    parameters (some (join "&" (ps.map pairText))) = ps.map pairText := by
  have hamp : ("&" : String) = String.singleton '&' := by decide
  have hnonempty : ∀ t ∈ ps.map pairText, decide (t ≠ "") = true := by
    intro t ht
    obtain ⟨p, -, rfl⟩ := List.mem_map.1 ht
    have hmem : '=' ∈ (pairText p).toList := by
      unfold pairText
      simp only [String.toList_append, List.mem_append]
      exact Or.inl (Or.inr (by decide))
    rw [decide_eq_true_eq]
    intro hnil
    rw [hnil] at hmem
    exact absurd hmem (by decide)
  have hnone : ∀ t ∈ ps.map pairText, '&' ∉ t.toList := by
    intro t ht
    obtain ⟨p, hp, rfl⟩ := List.mem_map.1 ht
    exact (h p hp).2
  unfold parameters
  rw [Option.getD_some]
  by_cases hnil : ps.map pairText = []
  · rw [hnil]
    decide
  · rw [hamp, split_join hnil hnone, List.filter_eq_self.2 hnonempty]

/-- **The text for a query stands for itself.** -/
theorem canonicalQueryString_idem (q : Option String) :
    canonicalQueryString (some (canonicalQueryString q)) = canonicalQueryString q := by
  have hpairs : ∀ p ∈ sortedPairs q, '=' ∉ p.1.toList ∧ '&' ∉ (pairText p).toList := by
    intro p hp
    obtain ⟨part, hpart, rfl⟩ := List.mem_map.1 ((List.mem_insertionSort pairLe).1 hp)
    exact queryPair_notMem (notMem_of_mem_split (List.mem_filter.1 hpart).1)
  have hback : ((sortedPairs q).map pairText).map queryPair = sortedPairs q := by
    rw [List.map_map]
    conv_rhs => rw [← List.map_id (sortedPairs q)]
    exact List.map_congr_left fun p hp => queryPair_pairText (hpairs p hp).1
  have hsorted : sortedPairs (some (canonicalQueryString q)) = sortedPairs q := by
    have hpairwise : (sortedPairs q).Pairwise pairLe := List.pairwise_insertionSort pairLe _
    rw [canonicalQueryString_eq q]
    unfold sortedPairs at hpairs hback ⊢
    rw [parameters_join hpairs, hback]
    exact hpairwise.insertionSort_eq
  rw [canonicalQueryString_eq (some (canonicalQueryString q)), hsorted, ← canonicalQueryString_eq q]

end Busbar.Sigv4
