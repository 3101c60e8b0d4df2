import Busbar.Admin.Audit
import Busbar.Lib.Fields
import Busbar.Num

/-!
# What the audit digest commits to

The digest of a record is taken over seven fields joined with a bar. The two numbers hold no bar; the hash of the record
before, the action, the resource, the outcome and the principal are any text, so the bytes do not always tell where one
field ends.

* `preimage_eq_iff`: equal bytes are equal segments.
* `Marked`: the records whose bytes are read in one way only.
* `commits_iff`: those are the records the digest commits to.
* `verifies_of_preimage`: elsewhere a record may be exchanged for another without the verification noticing.
-/

namespace Busbar.Audit

open Fields

/-- The text `compute_hash` formats. -/
def canonical (r : AuditRecord) : String :=
  "|".intercalate
    [r.prevHash, toString r.seq, toString r.ts, r.action, r.resource, r.outcome, r.principal]

/-- The bytes that are hashed. -/
def preimage (r : AuditRecord) : Bytes := utf8 (canonical r)

theorem computeHash_eq (sha256Hex : String → String) (r : AuditRecord) :
    computeHash sha256Hex r = sha256Hex (canonical r) := rfl

/-- Equal in every field that the digest is taken over. -/
structure Coincide (r r' : AuditRecord) : Prop where
  prevHash : r'.prevHash = r.prevHash
  seq : r'.seq = r.seq
  ts : r'.ts = r.ts
  action : r'.action = r.action
  resource : r'.resource = r.resource
  outcome : r'.outcome = r.outcome
  principal : r'.principal = r.principal

/-- The two numbers are 64-bit counters. -/
def AuditRecord.Fits (r : AuditRecord) : Prop := r.seq ≤ u64Max ∧ r.ts ≤ u64Max

/-! ## Numerals -/

def digits (n : Nat) : List Char := (toString n).toList

theorem digits_eq (n : Nat) : digits n = Nat.toDigits 10 n := by
  unfold digits
  rw [Nat.toString_eq_repr, Nat.toList_repr]

theorem digits_injective {n m : Nat} (h : digits n = digits m) : n = m := by
  rw [digits_eq, digits_eq] at h
  rw [← @Nat.ofDigitChars_ten_toDigits n, h, Nat.ofDigitChars_ten_toDigits]

theorem bar_notMem_digits (n : Nat) : '|' ∉ digits n := by
  intro h
  rw [digits_eq] at h
  have hd := Nat.isDigit_of_mem_toDigits (by decide) (by decide) h
  exact absurd hd (by decide)

/-- The text of a 64-bit number. -/
def Numeral (x : List Char) : Prop := ∃ n, n ≤ u64Max ∧ x = digits n

/-! ## Segments -/

/-- The seven fields, as they are joined. -/
def fields (r : AuditRecord) : List (List Char) :=
  [r.prevHash.toList, digits r.seq, digits r.ts, r.action.toList, r.resource.toList, r.outcome.toList,
    r.principal.toList]

theorem fields_ne_nil (r : AuditRecord) : fields r ≠ [] := List.cons_ne_nil _ _

theorem toList_canonical (r : AuditRecord) : (canonical r).toList = join '|' (fields r) := String.toList_intercalate

/-- The segments of the four fields after the numbers. -/
def tail (r : AuditRecord) : List (List Char) :=
  segments '|' r.action.toList ++ (segments '|' r.resource.toList ++
    (segments '|' r.outcome.toList ++ segments '|' r.principal.toList))

theorem segments_fields (r : AuditRecord) :
    (fields r).flatMap (segments '|') =
      segments '|' r.prevHash.toList ++ digits r.seq :: digits r.ts :: tail r := by
  simp [fields, tail, segments_of_notMem (bar_notMem_digits _)]

/-- **Equal bytes are equal segments.** -/
theorem preimage_eq_iff {r r' : AuditRecord} :
    preimage r' = preimage r ↔
      segments '|' r'.prevHash.toList ++ digits r'.seq :: digits r'.ts :: tail r' =
        segments '|' r.prevHash.toList ++ digits r.seq :: digits r.ts :: tail r := by
  have hjoin : preimage r' = preimage r ↔ join '|' (fields r') = join '|' (fields r) := by
    rw [← toList_canonical, ← toList_canonical, String.toList_inj]
    exact utf8_injective.eq_iff
  rw [hjoin, join_eq_iff (fields_ne_nil r') (fields_ne_nil r), segments_fields, segments_fields]

/-! ## Records read in one way -/

/-- **The bytes show the fields.** None of the four texts after the numbers holds a bar, and no two neighbours among the
segments of the hash before and the sequence number, the first segment apart, are numerals. -/
structure Marked (r : AuditRecord) : Prop where
  action : '|' ∉ r.action.toList
  resource : '|' ∉ r.resource.toList
  outcome : '|' ∉ r.outcome.toList
  principal : '|' ∉ r.principal.toList
  numbers : ∀ before x y rest, segments '|' r.prevHash.toList ++ [digits r.seq] = before ++ x :: y :: rest →
    before ≠ [] → ¬ (Numeral x ∧ Numeral y)

theorem tail_of_marked {r : AuditRecord} (h : Marked r) :
    tail r = [r.action.toList, r.resource.toList, r.outcome.toList, r.principal.toList] := by
  unfold tail
  rw [segments_of_notMem h.action, segments_of_notMem h.resource, segments_of_notMem h.outcome,
    segments_of_notMem h.principal]
  rfl

theorem length_segments_pos (s : String) : 0 < (segments '|' s.toList).length :=
  List.length_pos_iff.2 (segments_ne_nil '|' s.toList)

theorem length_tail (r : AuditRecord) :
    (tail r).length = (segments '|' r.action.toList).length + (segments '|' r.resource.toList).length +
      (segments '|' r.outcome.toList).length + (segments '|' r.principal.toList).length := by
  unfold tail
  simp only [List.length_append]
  omega

/-- Four texts that make up four segments are these segments. -/
theorem tail_inj {r r' : AuditRecord} (h : Marked r) (heq : tail r' = tail r) :
    r'.action = r.action ∧ r'.resource = r.resource ∧ r'.outcome = r.outcome ∧ r'.principal = r.principal := by
  have hlen := congrArg List.length heq
  rw [length_tail, tail_of_marked h] at hlen
  have ha := length_segments_pos r'.action
  have hr := length_segments_pos r'.resource
  have ho := length_segments_pos r'.outcome
  have hp := length_segments_pos r'.principal
  have hfour : (segments '|' r.action.toList).length = 1 := by rw [segments_of_notMem h.action]; rfl
  simp only [List.length_cons, List.length_nil] at hlen
  have e : tail r' = [r'.action.toList, r'.resource.toList, r'.outcome.toList, r'.principal.toList] := by
    unfold tail
    rw [segments_of_notMem (notMem_of_length (by omega : (segments '|' r'.action.toList).length = 1)),
      segments_of_notMem (notMem_of_length (by omega : (segments '|' r'.resource.toList).length = 1)),
      segments_of_notMem (notMem_of_length (by omega : (segments '|' r'.outcome.toList).length = 1)),
      segments_of_notMem (notMem_of_length (by omega : (segments '|' r'.principal.toList).length = 1))]
    rfl
  rw [e, tail_of_marked h] at heq
  simpa [String.toList_inj] using heq

theorem coincide_of_marked {r r' : AuditRecord} (h : Marked r) (hfits : r'.Fits)
    (heq : preimage r' = preimage r) : Coincide r r' := by
  have hsegs := preimage_eq_iff.1 heq
  have hlen : (tail r).length ≤ (tail r').length := by
    have ha := length_segments_pos r'.action
    have hr := length_segments_pos r'.resource
    have ho := length_segments_pos r'.outcome
    have hp := length_segments_pos r'.principal
    rw [length_tail r', tail_of_marked h]
    simp only [List.length_cons, List.length_nil]
    omega
  rcases readings hsegs.symm hlen with ⟨hprev, hseq, hts, htail⟩ | ⟨rest, hrest⟩
  · obtain ⟨ha, hr, ho, hp⟩ := tail_inj h htail.symm
    refine ⟨?_, (digits_injective hseq).symm, (digits_injective hts).symm, ha, hr, ho, hp⟩
    exact String.toList_inj.1 (segments_injective '|' hprev.symm)
  · -- the other record's numbers were read among the segments before the first one's
    exact absurd ⟨⟨_, hfits.1, rfl⟩, ⟨_, hfits.2, rfl⟩⟩
      (h.numbers _ _ _ _ hrest (segments_ne_nil '|' r'.prevHash.toList))

/-! ## Records read in several ways -/

/-- Two neighbouring fields, one of which holds a bar, are divided in another way as well. -/
theorem divided_elsewhere {x y : String} (h : '|' ∈ x.toList ∨ '|' ∈ y.toList) :
    ∃ x' y' : String, x' ≠ x ∧ segments '|' x'.toList ++ segments '|' y'.toList =
      segments '|' x.toList ++ segments '|' y.toList := by
  rcases h with h | h
  · obtain ⟨a, b, hab⟩ := List.append_of_mem h
    refine ⟨String.ofList a, String.ofList (b ++ '|' :: y.toList), ?_, ?_⟩
    · intro he
      rw [← he, String.toList_ofList] at hab
      exact moved_ne a b hab
    · rw [String.toList_ofList, String.toList_ofList, segments_moved, hab]
  · obtain ⟨a, b, hab⟩ := List.append_of_mem h
    refine ⟨String.ofList (x.toList ++ '|' :: a), String.ofList b, ?_, ?_⟩
    · intro he
      have hx := congrArg String.toList he
      rw [String.toList_ofList] at hx
      exact moved_ne x.toList a hx.symm
    · rw [String.toList_ofList, String.toList_ofList, ← segments_moved, hab]

/-- Two numerals among the segments before the timestamp may be taken for the numbers: what stands between them and
the action becomes the front of the action. -/
theorem numbers_elsewhere {r : AuditRecord} {before rest : List (List Char)} {n m : Nat} (hbefore : before ≠ [])
    (hsplit : segments '|' r.prevHash.toList ++ [digits r.seq] = before ++ digits n :: digits m :: rest) :
    ∃ prevHash action : String, action ≠ r.action ∧
      preimage { r with prevHash := prevHash, seq := n, ts := m, action := action } = preimage r := by
  have hbar : ∀ z ∈ before ++ digits n :: digits m :: rest, '|' ∉ z := by
    intro z hz
    rw [← hsplit, List.mem_append, List.mem_singleton] at hz
    rcases hz with hz | rfl
    · exact notMem_of_mem_segments z hz
    · exact bar_notMem_digits r.seq
  have hprev : segments '|' (join '|' before) = before := by
    rw [segments_join hbefore]
    exact flatMap_segments (fun z hz => hbar z (List.mem_append_left _ hz))
  have hfront : segments '|' (join '|' (rest ++ [digits r.ts, r.action.toList])) =
      rest ++ digits r.ts :: segments '|' r.action.toList := by
    have hrest : rest.flatMap (segments '|') = rest := flatMap_segments (fun z hz =>
      hbar z (List.mem_append_right _ (List.mem_cons_of_mem _ (List.mem_cons_of_mem _ hz))))
    rw [segments_join (by simp), List.flatMap_append, hrest]
    simp [segments_of_notMem (bar_notMem_digits r.ts)]
  refine ⟨String.ofList (join '|' before), String.ofList (join '|' (rest ++ [digits r.ts, r.action.toList])), ?_, ?_⟩
  · -- the action has become longer, by the timestamp at least
    intro he
    have hlen := congrArg (fun s : String => (segments '|' s.toList).length) he
    rw [String.toList_ofList, hfront, List.length_append, List.length_cons] at hlen
    omega
  · have hall := congrArg (· ++ digits r.ts :: tail r) hsplit
    unfold tail at hall
    rw [preimage_eq_iff]
    unfold tail
    rw [String.toList_ofList, String.toList_ofList, hprev, hfront]
    simp only [List.append_assoc, List.cons_append] at hall ⊢
    exact hall.symm

/-- **A record that is not marked has the bytes of another one.** -/
theorem marked_of_commits {r : AuditRecord} (hfits : r.Fits)
    (h : ∀ r' : AuditRecord, r'.Fits → preimage r' = preimage r → Coincide r r') : Marked r := by
  have hfront : ¬ ('|' ∈ r.action.toList ∨ '|' ∈ r.resource.toList) := by
    intro hbar
    obtain ⟨x, y, hne, hsegs⟩ := divided_elsewhere hbar
    have heq : preimage { r with action := x, resource := y } = preimage r := by
      rw [preimage_eq_iff]
      unfold tail
      rw [← List.append_assoc, hsegs, List.append_assoc]
    exact hne (h { r with action := x, resource := y } hfits heq).action
  have hback : ¬ ('|' ∈ r.outcome.toList ∨ '|' ∈ r.principal.toList) := by
    intro hbar
    obtain ⟨x, y, hne, hsegs⟩ := divided_elsewhere hbar
    have heq : preimage { r with outcome := x, principal := y } = preimage r := by
      rw [preimage_eq_iff]
      unfold tail
      rw [hsegs]
    exact hne (h { r with outcome := x, principal := y } hfits heq).outcome
  push Not at hfront hback
  refine ⟨hfront.1, hfront.2, hback.1, hback.2, ?_⟩
  rintro before x y rest hsplit hbefore ⟨⟨n, hn, rfl⟩, ⟨m, hm, rfl⟩⟩
  obtain ⟨prevHash, action, hne, heq⟩ := numbers_elsewhere hbefore hsplit
  exact hne (h _ ⟨hn, hm⟩ heq).action

/-- **What the digest commits to.** The bytes hashed for a record are those of no other record exactly when it is
marked. -/
theorem commits_iff {r : AuditRecord} (hfits : r.Fits) :
    (∀ r' : AuditRecord, r'.Fits → preimage r' = preimage r → Coincide r r') ↔ Marked r := by
  constructor
  · intro h
    exact marked_of_commits hfits h
  · intro h r' hfits' heq
    exact coincide_of_marked h hfits' heq

/-- A deletion of a group that was asked for under a name with a bar. -/
def refusedDelete : AuditRecord where
  seq := 7
  ts := 1760000000
  action := "group.delete"
  resource := "group:a|b"
  outcome := "rejected"
  principal := "admin"
  prevHash := ""
  hash := ""

theorem commits_iff_refused :
    refusedDelete.Fits ∧ ((∀ r' : AuditRecord, r'.Fits → preimage r' = preimage refusedDelete →
      Coincide refusedDelete r') ↔ Marked refusedDelete) :=
  ⟨⟨by decide, by decide⟩, commits_iff ⟨by decide, by decide⟩⟩

/-- A bar in the resource may be taken for the end of the resource. -/
theorem bar_moves :
    ¬ ∀ r r' : AuditRecord, r.Fits → r'.Fits → preimage r' = preimage r → Coincide r r' := by
  intro h
  have hbytes : preimage { refusedDelete with resource := "group:a", outcome := "b|rejected" } =
      preimage refusedDelete := congrArg utf8 (by decide +kernel)
  have hc := h refusedDelete { refusedDelete with resource := "group:a", outcome := "b|rejected" }
    ⟨by decide, by decide⟩ ⟨by decide, by decide⟩ hbytes
  exact absurd hc.resource (by decide)

/-! ## The verification -/

variable {sha256Hex : String → String}

/-- **An exchanged record verifies.** A record in a verified history may be exchanged for any other of the same bytes
that keeps the hashes. -/
theorem verifies_of_preimage {r r' : AuditRecord} (heq : preimage r' = preimage r) (hhash : r'.hash = r.hash)
    (hprev : r'.prevHash = r.prevHash) (before : Option String) (l l' : List AuditRecord) :
    verifies sha256Hex before (l ++ r' :: l') = verifies sha256Hex before (l ++ r :: l') := by
  have hdigest : computeHash sha256Hex r' = computeHash sha256Hex r := by
    rw [computeHash_eq, computeHash_eq, utf8_injective heq]
  induction l generalizing before with
  | nil => simp only [List.nil_append, verifies, hdigest, hhash, hprev]
  | cons a l ih => simp only [List.cons_append, verifies, ih]

end Busbar.Audit
