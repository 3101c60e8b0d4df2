import Busbar.Proto.Sse
import Busbar.Lib.JsonMembers

/-!
# The scan for the `usage` member

What the byte scanner does on the text of a JSON object.

* `scanJsonValueEnd_value`: the scanner finds the end of a value.
* `usage_found`: it finds the `usage` member, and does not look past the byte after its value.
* `strip_cut`: what is removed is the member and one comma.
* `no_usage_before`: no object without a `usage` member starts like one up to that member.
-/

namespace Busbar

open JsonText (Spaces StringBody StringText Text PairText MemberText MembersText ObjectText Cut)

variable {bytes s t u v w : Bytes} {i : Nat} {b c : UInt8}

/-! ## Positions -/

theorem at_drop (h : bytes.drop i = b :: s) : bytes[i]? = some b ∧ bytes.drop (i + 1) = s := by
  have hhead : (bytes.drop i)[0]? = some b := by rw [h]; rfl
  have htail : (bytes.drop i).drop 1 = s := by rw [h]; rfl
  rw [List.getElem?_drop, Nat.add_zero] at hhead
  rw [List.drop_drop] at htail
  exact ⟨hhead, htail⟩

theorem past_drop (h : bytes.drop i = t ++ s) : bytes.drop (i + t.length) = s := by
  rw [← List.drop_drop, h, List.drop_left]

theorem length_drop (h : bytes.drop i = b :: s) : bytes.length = i + s.length + 1 := by
  have hlen := congrArg List.length h
  rw [List.length_drop, List.length_cons] at hlen
  omega

theorem isAsciiSpace_of_isSpace (h : JsonText.isSpace b = true) : isAsciiSpace b = true := by
  simp only [JsonText.isSpace, Bool.or_eq_true, decide_eq_true_eq] at h
  rcases h with ((rfl | rfl) | rfl) | rfl <;> rfl

theorem takeWhile_spaces (hw : Spaces w) (hc : isAsciiSpace c = false) :
    (w ++ c :: s).takeWhile isAsciiSpace = w := by
  have hall : ∀ b ∈ w, isAsciiSpace b = true := fun b hb => isAsciiSpace_of_isSpace (hw b hb)
  rw [List.takeWhile_append_of_pos hall, List.takeWhile_cons_of_neg (by simp [hc]), List.append_nil]

theorem skipSpaces_spaces (h : bytes.drop i = w ++ c :: s) (hw : Spaces w) (hc : isAsciiSpace c = false) :
    skipSpaces bytes i = i + w.length := by
  unfold skipSpaces
  rw [h, takeWhile_spaces hw hc]

/-- What a byte of a scalar is not. -/
theorem plain_byte (h : JsonText.isPlain b = true) :
    b ≠ quote ∧ opens b = false ∧ closes b = false ∧ b ≠ 0x2C ∧ isAsciiSpace b = false := by
  refine ⟨?_, ?_, ?_, ?_, ?_⟩
  · rintro rfl; cases h
  · by_contra ho
    simp only [opens, Bool.not_eq_false, Bool.or_eq_true, decide_eq_true_eq] at ho
    rcases ho with rfl | rfl <;> cases h
  · by_contra ho
    simp only [closes, Bool.not_eq_false, Bool.or_eq_true, decide_eq_true_eq] at ho
    rcases ho with rfl | rfl <;> cases h
  · rintro rfl; cases h
  · by_contra ho
    simp only [isAsciiSpace, Bool.not_eq_false, Bool.or_eq_true, decide_eq_true_eq] at ho
    rcases ho with (((rfl | rfl) | rfl) | rfl) | rfl <;> cases h

/-! ## Strings -/

theorem go_body {body : Bytes} (h : StringBody body) :
    ∀ i, scanJsonStringEnd.go (body ++ quote :: s) i = some (i + body.length + 1) := by
  have hplain : ∀ {b : UInt8} {bs : Bytes} {i : Nat}, b ≠ quote → b ≠ 0x5C →
      scanJsonStringEnd.go (b :: bs) i = scanJsonStringEnd.go bs (i + 1) := by
    intro b bs i hq he
    rw [scanJsonStringEnd.go.eq_4 i b bs (fun _ _ h _ => he h) (fun h _ => he h), if_neg hq]
  have hhex : ∀ {b : UInt8}, JsonText.isHex b = true → b ≠ quote ∧ b ≠ 0x5C := by
    intro b hb
    constructor
    · rintro rfl; cases hb
    · rintro rfl; cases hb
  induction h with
  | nil => intro i; rfl
  | @plain b bs _ hq he _ ih =>
    intro i
    rw [List.cons_append, hplain hq he, ih, List.length_cons]
    congr 1; omega
  | @escape c bs _ _ ih =>
    intro i
    show scanJsonStringEnd.go (bs ++ quote :: s) (i + 2) = _
    rw [ih, List.length_cons, List.length_cons]
    congr 1; omega
  | @unicode h₁ h₂ h₃ h₄ bs hh₁ hh₂ hh₃ hh₄ _ ih =>
    intro i
    show scanJsonStringEnd.go (h₁ :: h₂ :: h₃ :: h₄ :: (bs ++ quote :: s)) (i + 2) = _
    rw [hplain (hhex hh₁).1 (hhex hh₁).2, hplain (hhex hh₂).1 (hhex hh₂).2, hplain (hhex hh₃).1 (hhex hh₃).2,
      hplain (hhex hh₄).1 (hhex hh₄).2, ih]
    simp only [List.length_cons]
    congr 1; omega

theorem scanJsonStringEnd_string (h : bytes.drop i = t ++ s) (ht : StringText t) :
    scanJsonStringEnd bytes i = some (i + t.length) := by
  obtain ⟨body, hbody, rfl⟩ := ht
  have hdrop : bytes.drop (i + 1) = body ++ quote :: s := by
    have h' : bytes.drop i = 0x22 :: (body ++ quote :: s) := by
      rw [h, List.cons_append, List.append_assoc]
      rfl
    exact (at_drop h').2
  unfold scanJsonStringEnd
  rw [hdrop, go_body hbody]
  simp only [List.length_cons, List.length_append, List.length_nil]
  congr 1; omega

/-! ## Nested values -/

/-- Inside brackets the scan gets past `t` at the same depth. The scan has fuel for every byte. -/
def Crosses (d : Nat) (t : Bytes) : Prop := ∀ bytes i n s, bytes.drop i = t ++ s → t.length ≤ n →
  ∃ m, n ≤ m + t.length ∧ scanNested bytes n i d = scanNested bytes m (i + t.length) d

variable {d : Nat}

theorem crosses_nil : Crosses d [] := fun _ _ n _ _ _ => ⟨n, Nat.le_refl _, rfl⟩

theorem crosses_append (hu : Crosses d u) (hv : Crosses d v) : Crosses d (u ++ v) := by
  intro bytes i n s h hn
  rw [List.append_assoc] at h
  rw [List.length_append] at hn ⊢
  obtain ⟨m, hm, hscan⟩ := hu bytes i n _ h (by omega)
  obtain ⟨m', hm', hscan'⟩ := hv bytes (i + u.length) m s (past_drop h) (by omega)
  refine ⟨m', by omega, ?_⟩
  rw [hscan, hscan', Nat.add_assoc]

theorem crosses_byte (hq : b ≠ quote) (ho : opens b = false) (hc : closes b = false) : Crosses d [b] := by
  intro bytes i n s h hn
  obtain ⟨n, rfl⟩ : ∃ n', n = n' + 1 := ⟨n - 1, by simp at hn; omega⟩
  refine ⟨n, Nat.le_refl _, ?_⟩
  rw [scanNested, (at_drop h).1]
  simp [hq, ho, hc]

theorem crosses_string (h : StringText t) : Crosses d t := by
  intro bytes i n s hdrop hn
  obtain ⟨body, -, rfl⟩ := id h
  obtain ⟨n, rfl⟩ : ∃ n', n = n' + 1 := ⟨n - 1, by simp at hn; omega⟩
  refine ⟨n, by simp, ?_⟩
  have hq : bytes[i]? = some quote := (at_drop hdrop).1
  rw [scanNested, hq]
  simp [scanJsonStringEnd_string hdrop h]

theorem crosses_brackets {o : UInt8} (hd : 0 < d) (ho : o = 0x5B ∨ o = 0x7B) (hc : c = 0x5D ∨ c = 0x7D)
    (h : Crosses (d + 1) t) : Crosses d (o :: (t ++ [c])) := by
  intro bytes i n s hdrop hn
  rw [List.cons_append, List.append_assoc] at hdrop
  simp only [List.length_cons, List.length_append, List.length_nil] at hn ⊢
  obtain ⟨n, rfl⟩ : ∃ n', n = n' + 1 := ⟨n - 1, by omega⟩
  obtain ⟨hopen, hrest⟩ := at_drop hdrop
  obtain ⟨m, hm, hscan⟩ := h bytes (i + 1) n _ hrest (by omega)
  obtain ⟨m, rfl⟩ : ∃ m', m = m' + 1 := ⟨m - 1, by omega⟩
  have hclose := (at_drop (past_drop hrest)).1
  have hstart : scanNested bytes (n + 1) i d = scanNested bytes n (i + 1) (d + 1) := by
    rw [scanNested, hopen]
    rcases ho with rfl | rfl <;> rfl
  have hstop : scanNested bytes (m + 1) (i + 1 + t.length) (d + 1) = scanNested bytes m (i + 1 + t.length + 1) d := by
    have hd' : d ≠ 0 := by omega
    rw [scanNested, hclose]
    rcases hc with rfl | rfl <;> simp [quote, opens, closes, hd']
  refine ⟨m, by omega, ?_⟩
  rw [hstart, hscan, hstop]
  congr 1; omega

theorem crosses_spaces (h : Spaces w) : Crosses d w := by
  induction w with
  | nil => exact crosses_nil
  | cons b w ih =>
    have hb : JsonText.isSpace b = true := h b List.mem_cons_self
    have hbyte : Crosses d [b] := by
      simp only [JsonText.isSpace, Bool.or_eq_true, decide_eq_true_eq] at hb
      rcases hb with ((rfl | rfl) | rfl) | rfl <;> exact crosses_byte (by decide) rfl rfl
    exact crosses_append hbyte (ih (fun b hb => h b (List.mem_cons_of_mem _ hb)))

theorem crosses_scalar (h : t ∈ JsonText.literals ∨ JsonText.NumberText t) : Crosses d t := by
  have hall : ∀ {t : Bytes}, (∀ b ∈ t, JsonText.isPlain b = true) → Crosses d t := by
    intro t ht
    induction t with
    | nil => exact crosses_nil
    | cons b t ih =>
      obtain ⟨hq, ho, hc, -⟩ := plain_byte (ht b List.mem_cons_self)
      exact crosses_append (crosses_byte hq ho hc) (ih (fun b hb => ht b (List.mem_cons_of_mem _ hb)))
  exact hall (JsonText.scalar_plain h).2.1

theorem crosses_member {w₁ k w₂ w₃ w₄ : Bytes} (h₁ : Spaces w₁) (hk : StringText k) (h₂ : Spaces w₂) (h₃ : Spaces w₃)
    (hv : Crosses d v) (h₄ : Crosses d w₄) : Crosses d (w₁ ++ (k ++ (w₂ ++ 0x3A :: (w₃ ++ (v ++ w₄))))) := by
  have hcolon : Crosses d [0x3A] := crosses_byte (by decide) rfl rfl
  exact crosses_append (crosses_spaces h₁) (crosses_append (crosses_string hk) (crosses_append (crosses_spaces h₂)
    (crosses_append hcolon (crosses_append (crosses_spaces h₃) (crosses_append hv h₄)))))

/-- **Inside brackets the scan gets past every text.** -/
theorem crosses_text {k : JsonText.Kind} (h : Text k t) : ∀ d, 0 < d → Crosses d t := by
  have hcomma : ∀ {d : Nat}, Crosses d [0x2C] := crosses_byte (by decide) rfl rfl
  induction h with
  | literal h => exact fun d _ => crosses_scalar (Or.inl h)
  | number h => exact fun d _ => crosses_scalar (Or.inr h)
  | string h => exact fun d _ => crosses_string h
  | emptyArray h => exact fun d hd => crosses_brackets hd (Or.inl rfl) (Or.inl rfl) (crosses_spaces h)
  | array _ ih => exact fun d hd => crosses_brackets hd (Or.inl rfl) (Or.inl rfl) (ih (d + 1) (by omega))
  | emptyObject h => exact fun d hd => crosses_brackets hd (Or.inr rfl) (Or.inr rfl) (crosses_spaces h)
  | object _ ih => exact fun d hd => crosses_brackets hd (Or.inr rfl) (Or.inr rfl) (ih (d + 1) (by omega))
  | element h _ h' ih =>
    exact fun d hd => crosses_append (crosses_spaces h) (crosses_append (ih d hd) (crosses_spaces h'))
  | elements h _ h' _ ih ih' =>
    exact fun d hd => crosses_append (crosses_spaces h) (crosses_append (ih d hd) (crosses_append (crosses_spaces h')
      (crosses_append hcomma (ih' d hd))))
  | member h₁ hk h₂ h₃ _ h₄ ih => exact fun d hd => crosses_member h₁ hk h₂ h₃ (ih d hd) (crosses_spaces h₄)
  | members h₁ hk h₂ h₃ _ h₄ _ ih ih' =>
    exact fun d hd => crosses_member h₁ hk h₂ h₃ (ih d hd)
      (crosses_append (crosses_spaces h₄) (crosses_append hcomma (ih' d hd)))

/-! ## Values -/

/-- A byte a value can end before. -/
def isDelimiter (c : UInt8) : Bool := c = 0x2C || closes c || isAsciiSpace c

/-- The scanner finds the end of a value. -/
theorem scanJsonValueEnd_value (h : bytes.drop i = w ++ (v ++ c :: s)) (hw : Spaces w) (hv : Text .value v)
    (hc : isDelimiter c = true) : scanJsonValueEnd bytes i = some (i + w.length + v.length) := by
  have hdrop : bytes.drop (i + w.length) = v ++ c :: s := past_drop h
  rcases JsonText.value_cases hv with hs | hs | ⟨o, body, e, rfl, hoe, hbody⟩
  · obtain ⟨hne, hplain, -⟩ := JsonText.scalar_plain hs
    obtain ⟨f, v', rfl⟩ := List.exists_cons_of_ne_nil hne
    obtain ⟨hq, ho, -, -, hspace⟩ := plain_byte (hplain f List.mem_cons_self)
    have hstop : (f :: v' ++ c :: s).takeWhile (fun c => c ≠ 0x2C && !closes c && !isAsciiSpace c) = f :: v' := by
      have hall : ∀ b ∈ f :: v', (b ≠ 0x2C && !closes b && !isAsciiSpace b) = true := by
        intro b hb
        obtain ⟨-, -, h₁, h₂, h₃⟩ := plain_byte (hplain b hb)
        simp [h₁, h₂, h₃]
      have hc' : (c ≠ 0x2C && !closes c && !isAsciiSpace c) = false := by
        simp only [isDelimiter, Bool.or_eq_true, decide_eq_true_eq] at hc
        rcases hc with (rfl | hc) | hc <;> simp [*]
      rw [List.takeWhile_append_of_pos hall, List.takeWhile_cons, hc']
      simp
    unfold scanJsonValueEnd
    rw [skipSpaces_spaces h hw hspace]
    simp only [(at_drop hdrop).1, hq, ho, if_false, Bool.false_eq_true, hdrop, hstop]
    simp
  · obtain ⟨body, -, rfl⟩ := id hs
    unfold scanJsonValueEnd
    rw [skipSpaces_spaces h hw rfl]
    have hq : bytes[i + w.length]? = some quote := (at_drop hdrop).1
    simp only [hq, if_true]
    exact scanJsonStringEnd_string hdrop hs
  · have hopen : opens o = true ∧ o ≠ quote ∧ isAsciiSpace o = false := by
      rcases hoe with ⟨rfl, -⟩ | ⟨rfl, -⟩ <;> decide
    have hclose : closes e = true ∧ e ≠ quote ∧ opens e = false := by
      rcases hoe with ⟨-, rfl⟩ | ⟨-, rfl⟩ <;> decide
    have hpass : Crosses 1 body := by
      rcases hbody with hbody | hbody | hbody
      · exact crosses_spaces hbody
      · exact crosses_text hbody 1 (by omega)
      · exact crosses_text hbody 1 (by omega)
    unfold scanJsonValueEnd
    rw [skipSpaces_spaces h hw hopen.2.2]
    rw [List.cons_append, List.append_assoc] at hdrop
    obtain ⟨hat, hrest⟩ := at_drop hdrop
    have hlen := length_drop hdrop
    simp only [List.length_append, List.length_cons, List.length_nil] at hlen
    simp only [hat, hopen.2.1, hopen.1, if_true, if_false]
    obtain ⟨n, hn⟩ : ∃ n, bytes.length = n + 1 := ⟨bytes.length - 1, by omega⟩
    obtain ⟨m, hm, hscan⟩ := hpass bytes (i + w.length + 1) n _ hrest (by omega)
    obtain ⟨m, rfl⟩ : ∃ m', m = m' + 1 := ⟨m - 1, by omega⟩
    have hstart : scanNested bytes (n + 1) (i + w.length) 0 = scanNested bytes n (i + w.length + 1) 1 := by
      rw [scanNested, hat]
      simp [hopen.1, hopen.2.1]
    have hend := (at_drop (past_drop hrest)).1
    rw [hn, hstart, hscan, scanNested, hend]
    simp only [hclose.1, hclose.2.1, hclose.2.2, if_true, if_false, List.length_cons, List.length_append, List.length_nil]
    simp
    omega

/-! ## Members -/

/-- The text of the name `usage`. -/
def usageKey : Bytes := utf8 "\"usage\""

variable {n : Nat} {r : Option (Nat × Nat)} {k : Bool} {m : Bytes × Bytes} {ms before after : List (Bytes × Bytes)}

theorem scanMembers_spaces (hw : Spaces w) : ∀ {n i}, bytes.drop i = w ++ s → w.length ≤ n →
    scanMembers bytes n i 0 r k = scanMembers bytes (n - w.length) (i + w.length) 0 r k := by
  induction w with
  | nil => exact fun _ _ => rfl
  | cons b w ih =>
    intro n i h hn
    rw [List.length_cons] at hn ⊢
    obtain ⟨n, rfl⟩ : ∃ n', n = n' + 1 := ⟨n - 1, by omega⟩
    obtain ⟨hat, hrest⟩ := at_drop h
    have hb : JsonText.isSpace b = true := hw b List.mem_cons_self
    have hstep : scanMembers bytes (n + 1) i 0 r k = scanMembers bytes n (i + 1) 0 r k := by
      simp only [JsonText.isSpace, Bool.or_eq_true, decide_eq_true_eq] at hb
      rw [scanMembers, hat]
      rcases hb with ((rfl | rfl) | rfl) | rfl <;> rfl
    rw [hstep, ih (fun b hb => hw b (List.mem_cons_of_mem _ hb)) hrest (by omega)]
    congr 1 <;> omega

theorem scanMembers_comma (h : bytes.drop i = 0x2C :: s) :
    scanMembers bytes (n + 1) i 0 r k = scanMembers bytes n (i + 1) 0 r true := by
  rw [scanMembers, (at_drop h).1]
  rfl

theorem scanMembers_close (h : bytes.drop i = 0x7D :: s) : scanMembers bytes (n + 1) i 0 r k = some r := by
  rw [scanMembers, (at_drop h).1]
  rfl

/-- A member is recorded when its name is `usage`, and skipped otherwise. -/
theorem scanMembers_pair (h : bytes.drop i = t ++ c :: s) (ht : PairText m t) (hc : isDelimiter c = true) :
    scanMembers bytes (n + 1) i 0 r true =
      if m.1 = usageKey then
        if r.isSome then none else scanMembers bytes n (i + t.length) 0 (some (i, i + t.length)) false
      else scanMembers bytes n (i + t.length) 0 r false := by
  obtain ⟨w, w', hk, hw, hw', hv, rfl⟩ := ht
  simp only [List.append_assoc, List.cons_append] at h
  have hquote : bytes[i]? = some quote := by
    obtain ⟨body, -, hbody⟩ := hk
    rw [hbody] at h
    exact (at_drop h).1
  have hend : scanJsonStringEnd bytes i = some (i + m.1.length) := scanJsonStringEnd_string h hk
  have hname : (bytes.drop i).take (i + m.1.length - i) = m.1 := by
    rw [h, Nat.add_sub_cancel_left, List.take_left]
  have hdrop := past_drop h
  have hskip : skipSpaces bytes (i + m.1.length) = i + m.1.length + w.length := skipSpaces_spaces hdrop hw rfl
  obtain ⟨hcolon, hdrop'⟩ := at_drop (past_drop hdrop)
  have hvalue := scanJsonValueEnd_value hdrop' hw' hv hc
  have hlen : i + m.1.length + w.length + 1 + w'.length + m.2.length =
      i + (m.1 ++ (w ++ 0x3A :: (w' ++ m.2))).length := by
    simp only [List.length_append, List.length_cons]
    omega
  rw [hlen] at hvalue
  rw [scanMembers, hquote]
  simp only [hend, hname, hskip, hcolon, hvalue, if_true, ne_eq, not_true_eq_false, if_false, and_self]
  rfl

theorem delimited (hw : Spaces w) (hc : isDelimiter c = true) :
    ∃ c' s', w ++ c :: s = c' :: s' ∧ isDelimiter c' = true := by
  cases w with
  | nil => exact ⟨c, s, rfl, hc⟩
  | cons b w =>
    refine ⟨b, w ++ c :: s, rfl, ?_⟩
    have hb := isAsciiSpace_of_isSpace (hw b List.mem_cons_self)
    simp [isDelimiter, hb]

/-- The scan gets past members with other names. -/
theorem scanMembers_members (ht : MembersText ms t) (hms : ∀ m ∈ ms, m.1 ≠ usageKey) (hc : isDelimiter c = true) :
    ∀ {n i}, bytes.drop i = t ++ c :: s → t.length ≤ n → ∃ n', n ≤ n' + t.length ∧
      scanMembers bytes n i 0 r true = scanMembers bytes n' (i + t.length) 0 r false := by
  have hone : ∀ {m t c s n i}, MemberText m t → m.1 ≠ usageKey → isDelimiter c = true → bytes.drop i = t ++ c :: s →
      t.length ≤ n → ∃ n', n ≤ n' + t.length ∧
        scanMembers bytes n i 0 r true = scanMembers bytes n' (i + t.length) 0 r false := by
    rintro m t c s n i ⟨w, p, w', hw, hp, hw', rfl⟩ hm hc h hn
    have hpos : p ≠ [] := (JsonText.solid_pair hp).ne_nil
    have hpos' : 0 < p.length := List.length_pos_iff.2 hpos
    simp only [List.append_assoc, List.length_append] at h hn ⊢
    obtain ⟨c', s', heq, hc'⟩ := delimited (s := s) hw' hc
    obtain ⟨n', hn'⟩ : ∃ n', n - w.length = n' + 1 := ⟨n - w.length - 1, by omega⟩
    have hdrop := past_drop h
    have hdrop' := past_drop hdrop
    refine ⟨n' - w'.length, by omega, ?_⟩
    rw [heq] at hdrop
    rw [scanMembers_spaces hw h (by omega), hn', scanMembers_pair hdrop hp hc', if_neg hm,
      scanMembers_spaces hw' hdrop' (by omega)]
    congr 1; omega
  induction ht with
  | one h =>
    intro n i hdrop hn
    exact hone h (hms _ List.mem_cons_self) hc hdrop hn
  | @more m ms t u h _ ih =>
    intro n i hdrop hn
    simp only [List.append_assoc, List.cons_append, List.length_append, List.length_cons] at hdrop hn ⊢
    obtain ⟨n₁, hn₁, hscan⟩ := hone (n := n) h (hms _ List.mem_cons_self) rfl hdrop (by omega)
    obtain ⟨n₂, rfl⟩ : ∃ n', n₁ = n' + 1 := ⟨n₁ - 1, by omega⟩
    have hcomma := past_drop hdrop
    obtain ⟨n₃, hn₃, hscan'⟩ := ih (fun m hm => hms m (List.mem_cons_of_mem _ hm)) (n := n₂)
      (at_drop hcomma).2 (by omega)
    refine ⟨n₃, by omega, ?_⟩
    rw [hscan, scanMembers_comma hcomma, hscan']
    congr 1; omega

/-! ## The usage member -/

/-- What stands before a member: nothing, or other members and a comma. -/
def Lead (ms : List (Bytes × Bytes)) (t : Bytes) : Prop := ms = [] ∧ t = [] ∨ ∃ u, MembersText ms u ∧ t = u ++ [0x2C]

/-- What stands after a member. -/
def Rest (ms : List (Bytes × Bytes)) (t : Bytes) : Prop := ms = [] ∧ t = [] ∨ ∃ u, MembersText ms u ∧ t = 0x2C :: u

variable {lead rest w₁ w₂ p : Bytes}

theorem scanMembers_lead (h : bytes.drop i = lead ++ s) (hlead : Lead ms lead) (hms : ∀ m ∈ ms, m.1 ≠ usageKey)
    (hn : lead.length ≤ n) : ∃ n', n ≤ n' + lead.length ∧
      scanMembers bytes n i 0 r true = scanMembers bytes n' (i + lead.length) 0 r true := by
  rcases hlead with ⟨-, rfl⟩ | ⟨u, hu, rfl⟩
  · exact ⟨n, Nat.le_refl _, rfl⟩
  · simp only [List.append_assoc, List.cons_append, List.nil_append, List.length_append, List.length_cons,
      List.length_nil] at h hn ⊢
    obtain ⟨n₁, hn₁, hscan⟩ := scanMembers_members (r := r) hu hms rfl (n := n) h (by omega)
    obtain ⟨n₂, rfl⟩ : ∃ n', n₁ = n' + 1 := ⟨n₁ - 1, by omega⟩
    refine ⟨n₂, by omega, ?_⟩
    rw [hscan, scanMembers_comma (past_drop h)]
    congr 1

theorem scanMembers_rest (h : bytes.drop i = w ++ (rest ++ 0x7D :: s)) (hw : Spaces w) (hrest : Rest ms rest)
    (hms : ∀ m ∈ ms, m.1 ≠ usageKey) (hn : bytes.length ≤ n + i) : scanMembers bytes n i 0 r k = some r := by
  have hlen := congrArg List.length h
  simp only [List.length_drop, List.length_append, List.length_cons] at hlen
  have hdrop := past_drop h
  rw [scanMembers_spaces hw h (by omega)]
  rcases hrest with ⟨-, rfl⟩ | ⟨u, hu, rfl⟩
  · obtain ⟨n₁, hn₁⟩ : ∃ n', n - w.length = n' + 1 := ⟨n - w.length - 1, by omega⟩
    rw [hn₁]
    exact scanMembers_close hdrop
  · rw [List.length_cons] at hlen
    obtain ⟨n₁, hn₁⟩ : ∃ n', n - w.length = n' + 1 := ⟨n - w.length - 1, by omega⟩
    have hdrop' := (at_drop hdrop).2
    rw [hn₁, scanMembers_comma hdrop]
    obtain ⟨n₂, hn₂, hscan⟩ := scanMembers_members (r := r) hu hms rfl (n := n₁) hdrop' (by omega)
    obtain ⟨n₃, rfl⟩ : ∃ n', n₂ = n' + 1 := ⟨n₂ - 1, by omega⟩
    rw [hscan]
    exact scanMembers_close (past_drop hdrop')

/-- **The usage member is found**, whatever follows the byte after its value. -/
theorem usage_found (h : bytes = w ++ 0x7B :: (lead ++ (w₁ ++ (p ++ c :: s)))) (hlead : Lead before lead)
    (hbefore : ∀ m ∈ before, m.1 ≠ usageKey) (hw₁ : Spaces w₁) (hp : PairText m p) (hm : m.1 = usageKey)
    (hc : isDelimiter c = true) : ∃ n, bytes.length ≤ n + (w.length + 1 + lead.length + w₁.length + p.length) ∧
      scanMembers bytes bytes.length (w.length + 1) 0 none true =
        scanMembers bytes n (w.length + 1 + lead.length + w₁.length + p.length) 0
          (some (w.length + 1 + lead.length + w₁.length, w.length + 1 + lead.length + w₁.length + p.length)) false := by
  have hlen := congrArg List.length h
  simp only [List.length_append, List.length_cons] at hlen
  have hdrop₀ : bytes.drop w.length = 0x7B :: (lead ++ (w₁ ++ (p ++ c :: s))) := by
    rw [h, List.drop_left]
  have hdrop₁ := (at_drop hdrop₀).2
  have hdrop₂ := past_drop hdrop₁
  have hdrop₃ := past_drop hdrop₂
  obtain ⟨n₁, hn₁, hscan⟩ := scanMembers_lead (n := bytes.length) (r := none) hdrop₁ hlead hbefore (by omega)
  obtain ⟨n₂, hn₂⟩ : ∃ n', n₁ - w₁.length = n' + 1 := ⟨n₁ - w₁.length - 1, by omega⟩
  have hpos : 0 < p.length := List.length_pos_iff.2 (JsonText.solid_pair hp).ne_nil
  refine ⟨n₂, by omega, ?_⟩
  rw [hscan, scanMembers_spaces hw₁ hdrop₂ (by omega), hn₂, scanMembers_pair hdrop₃ hp hc, if_pos hm]
  rfl

/-- Once found, the range of the usage member does not change. -/
theorem scanMembers_keeps {range : Nat × Nat} : ∀ (n i d : Nat) (k : Bool),
    scanMembers bytes n i d (some range) k = none ∨ scanMembers bytes n i d (some range) k = some (some range) := by
  intro n
  induction n with
  | zero => exact fun _ _ _ => Or.inr rfl
  | succ n ih =>
    intro i d k
    rw [scanMembers]
    cases hb : bytes[i]? with
    | none => exact Or.inr rfl
    | some b =>
      dsimp only
      by_cases hq : b = quote
      · rw [if_pos hq]
        cases scanJsonStringEnd bytes i with
        | none => exact Or.inl rfl
        | some strEnd =>
          dsimp only
          by_cases hk : d = 0 ∧ k = true
          · rw [if_pos hk]
            by_cases hcolon : bytes[skipSpaces bytes strEnd]? ≠ some 0x3A
            · rw [if_pos hcolon]
              exact Or.inl rfl
            · rw [if_neg hcolon]
              cases scanJsonValueEnd bytes (skipSpaces bytes strEnd + 1) with
              | none => exact Or.inl rfl
              | some valueEnd =>
                dsimp only
                by_cases hu : (bytes.drop i).take (strEnd - i) = utf8 "\"usage\""
                · rw [if_pos hu]
                  exact Or.inl rfl
                · rw [if_neg hu]
                  exact ih _ _ _
          · rw [if_neg hk]
            exact ih _ _ _
      · rw [if_neg hq]
        by_cases ho : opens b = true
        · rw [if_pos ho]
          exact ih _ _ _
        · rw [if_neg ho]
          by_cases hc : closes b = true
          · rw [if_pos hc]
            by_cases hd : d = 0
            · rw [if_pos hd]
              by_cases hb : b = 0x5D
              · rw [if_pos hb]
                exact Or.inl rfl
              · rw [if_neg hb]
                exact Or.inr rfl
            · rw [if_neg hd]
              exact ih _ _ _
          · rw [if_neg hc]
            by_cases hcomma : b = 0x2C
            · rw [if_pos hcomma]
              exact ih _ _ _
            · rw [if_neg hcomma]
              exact ih _ _ _

/-- **No object without a usage member starts like one up to that member.** -/
theorem no_usage_before (h : bytes = w ++ 0x7B :: (lead ++ (w₁ ++ (p ++ c :: s)))) (hw : Spaces w) (hlead : Lead before lead)
    (hbefore : ∀ m ∈ before, m.1 ≠ usageKey) (hw₁ : Spaces w₁) (hp : PairText m p) (hm : m.1 = usageKey)
    (hc : isDelimiter c = true) (hms : ∀ m ∈ ms, m.1 ≠ usageKey) : ¬ObjectText ms bytes := by
  rintro ⟨w', body, w'', hw', -, hbody, h'⟩
  have hsame : w'.length = w.length := by
    have h₁ : skipSpaces bytes 0 = 0 + w.length := skipSpaces_spaces h hw rfl
    have h₂ : skipSpaces bytes 0 = 0 + w'.length := skipSpaces_spaces h' hw' rfl
    omega
  have hdrop : bytes.drop w'.length = 0x7B :: (body ++ 0x7D :: w'') := by
    rw [h', List.drop_left]
  have hdrop' := (at_drop hdrop).2
  have hlen := congrArg List.length h'
  simp only [List.length_append, List.length_cons] at hlen
  -- the scan of the object finds no usage member
  have hnone : scanMembers bytes bytes.length (w.length + 1) 0 none true = some none := by
    rw [← hsame]
    rcases hbody with ⟨rfl, hs⟩ | hmembers
    · have hend : Rest [] [] := Or.inl ⟨rfl, rfl⟩
      exact scanMembers_rest hdrop' hs hend nofun (by omega)
    · obtain ⟨n₁, hn₁, hscan⟩ := scanMembers_members (r := none) hmembers hms rfl hdrop' (n := bytes.length) (by omega)
      obtain ⟨n₂, rfl⟩ : ∃ n', n₁ = n' + 1 := ⟨n₁ - 1, by omega⟩
      rw [hscan]
      exact scanMembers_close (past_drop hdrop')
  obtain ⟨n, -, hfound⟩ := usage_found h hlead hbefore hw₁ hp hm hc
  rw [hfound] at hnone
  have hkeeps := @scanMembers_keeps bytes (w.length + 1 + lead.length + w₁.length,
    w.length + 1 + lead.length + w₁.length + p.length) n (w.length + 1 + lead.length + w₁.length + p.length) 0 false
  rcases hkeeps with hkeep | hkeep
  · rw [hkeep] at hnone
    cases hnone
  · rw [hkeep] at hnone
    cases hnone

/-! ## What is removed -/

theorem backSpaces_spaces {pre : Bytes} (h : bytes = pre ++ (t ++ (w₁ ++ s))) (hw₁ : Spaces w₁)
    (hlast : ∀ c ∈ t.getLast?, isAsciiSpace c = false) :
    backSpaces bytes pre.length (pre.length + t.length + w₁.length) = pre.length + t.length := by
  have htake : bytes.take (pre.length + t.length + w₁.length) = pre ++ (t ++ w₁) := by
    have hassoc : bytes = (pre ++ (t ++ w₁)) ++ s := by
      rw [h]
      simp
    rw [hassoc]
    apply List.take_left'
    simp only [List.length_append]
    omega
  have hspaces : ((t ++ w₁).reverse.takeWhile isAsciiSpace) = w₁.reverse := by
    have hall : ∀ b ∈ w₁.reverse, isAsciiSpace b = true := by
      intro b hb
      exact isAsciiSpace_of_isSpace (hw₁ b (List.mem_reverse.1 hb))
    rw [List.reverse_append, List.takeWhile_append_of_pos hall]
    cases ht : t.reverse with
    | nil => simp
    | cons c cs =>
      have hc : c ∈ t.getLast? := by
        rw [← List.head?_reverse, ht]
        rfl
      rw [List.takeWhile_cons_of_neg (by simp [hlast c hc]), List.append_nil]
  unfold backSpaces
  rw [htake, List.drop_left, hspaces, List.length_reverse]
  omega

/-- The member goes with the comma before it. -/
theorem strip_back (h : bytes = w ++ 0x7B :: (t ++ 0x2C :: (w₁ ++ (p ++ s)))) (hw : Spaces w) (hw₁ : Spaces w₁)
    (hscan : scanMembers bytes bytes.length (w.length + 1) 0 none true =
      some (some (w.length + 1 + (t ++ [0x2C]).length + w₁.length,
        w.length + 1 + (t ++ [0x2C]).length + w₁.length + p.length))) :
    stripTopLevelUsageMember bytes = some ((w ++ 0x7B :: t) ++ s) := by
  have hopen : skipSpaces bytes 0 = w.length := by
    have : skipSpaces bytes 0 = 0 + w.length := skipSpaces_spaces h hw rfl
    omega
  have hbrace : bytes[w.length]? = some 0x7B := by
    rw [h, List.getElem?_append_right (Nat.le_refl _), Nat.sub_self]
    rfl
  have hback : backSpaces bytes (w.length + 1) (w.length + 1 + (t ++ [0x2C]).length + w₁.length) =
      w.length + 1 + (t ++ [0x2C]).length := by
    have hlast : ∀ c ∈ (t ++ [0x2C]).getLast?, isAsciiSpace c = false := by
      intro c hc
      rw [List.getLast?_append] at hc
      cases hc
      rfl
    have hpre : bytes = (w ++ [0x7B]) ++ ((t ++ [0x2C]) ++ (w₁ ++ (p ++ s))) := by
      rw [h]
      simp
    have := backSpaces_spaces hpre hw₁ hlast
    rwa [List.length_append, List.length_singleton] at this
  have hcomma : bytes[w.length + 1 + (t ++ [0x2C]).length - 1]? = some 0x2C := by
    have hpre : bytes = (w ++ 0x7B :: t) ++ 0x2C :: (w₁ ++ (p ++ s)) := by
      rw [h]
      simp
    have hlen : w.length + 1 + (t ++ [0x2C]).length - 1 = (w ++ 0x7B :: t).length := by
      simp only [List.length_append, List.length_cons, List.length_nil]
      omega
    rw [hlen, hpre, List.getElem?_append_right (Nat.le_refl _), Nat.sub_self]
    rfl
  have htake : bytes.take (w.length + 1 + (t ++ [0x2C]).length - 1) = w ++ 0x7B :: t := by
    have hpre : bytes = (w ++ 0x7B :: t) ++ 0x2C :: (w₁ ++ (p ++ s)) := by
      rw [h]
      simp
    rw [hpre]
    apply List.take_left'
    simp only [List.length_append, List.length_cons, List.length_nil]
    omega
  have hdrop : bytes.drop (w.length + 1 + (t ++ [0x2C]).length + w₁.length + p.length) = s := by
    have hpre : bytes = (w ++ 0x7B :: ((t ++ [0x2C]) ++ (w₁ ++ p))) ++ s := by
      rw [h]
      simp
    rw [hpre]
    apply List.drop_left'
    simp only [List.length_append, List.length_cons, List.length_nil]
    omega
  have hlt : w.length + 1 < w.length + 1 + (t ++ [0x2C]).length := by
    simp only [List.length_append, List.length_cons, List.length_nil]
    omega
  unfold stripTopLevelUsageMember
  simp only [hopen, hbrace, ne_eq, not_true_eq_false, if_false, hscan, Option.bind_eq_bind, Option.bind_some, hback,
    hlt, hcomma, and_self, if_true, htake, hdrop]

/-- The first member goes with the comma after it, if there is one. -/
theorem strip_front (h : bytes = w ++ 0x7B :: (w₁ ++ (p ++ (w₂ ++ c :: s)))) (hw : Spaces w) (hw₁ : Spaces w₁)
    (hw₂ : Spaces w₂) (hc : isAsciiSpace c = false)
    (hscan : scanMembers bytes bytes.length (w.length + 1) 0 none true =
      some (some (w.length + 1 + w₁.length, w.length + 1 + w₁.length + p.length))) :
    stripTopLevelUsageMember bytes =
      some ((w ++ 0x7B :: w₁) ++ if c = 0x2C then s else w₂ ++ c :: s) := by
  have hopen : skipSpaces bytes 0 = w.length := by
    have : skipSpaces bytes 0 = 0 + w.length := skipSpaces_spaces h hw rfl
    omega
  have hbrace : bytes[w.length]? = some 0x7B := by
    rw [h, List.getElem?_append_right (Nat.le_refl _), Nat.sub_self]
    rfl
  have hback : backSpaces bytes (w.length + 1) (w.length + 1 + w₁.length) = w.length + 1 := by
    have hpre : bytes = (w ++ [0x7B]) ++ ([] ++ (w₁ ++ (p ++ (w₂ ++ c :: s)))) := by
      rw [h]
      simp
    have := backSpaces_spaces hpre hw₁ nofun
    simpa only [List.length_append, List.length_singleton, List.length_nil, Nat.add_zero] using this
  have hdrop : bytes.drop (w.length + 1 + w₁.length + p.length) = w₂ ++ c :: s := by
    have hpre : bytes = (w ++ 0x7B :: (w₁ ++ p)) ++ (w₂ ++ c :: s) := by
      rw [h]
      simp
    rw [hpre]
    apply List.drop_left'
    simp only [List.length_append, List.length_cons]
    omega
  have htake : bytes.take (w.length + 1 + w₁.length) = w ++ 0x7B :: w₁ := by
    have hpre : bytes = (w ++ 0x7B :: w₁) ++ (p ++ (w₂ ++ c :: s)) := by
      rw [h]
      simp
    rw [hpre]
    apply List.take_left'
    simp only [List.length_append, List.length_cons]
    omega
  have hskip := skipSpaces_spaces hdrop hw₂ hc
  obtain ⟨hat, hrest⟩ := at_drop (past_drop hdrop)
  unfold stripTopLevelUsageMember
  simp only [hopen, hbrace, ne_eq, not_true_eq_false, if_false, hscan, Option.bind_eq_bind, Option.bind_some, hback,
    Nat.lt_irrefl, false_and, hskip, hat, hrest, htake, hdrop, Option.some.injEq]
  by_cases hcomma : c = 0x2C
  · rw [if_pos hcomma, if_pos hcomma]
  · rw [if_neg hcomma, if_neg hcomma]

variable {a x b' : Bytes}

/-- **What is removed is the usage member and one comma.** -/
theorem strip_cut (h : Cut m before after a x b') (hm : m.1 = usageKey) (hbefore : ∀ m ∈ before, m.1 ≠ usageKey)
    (hafter : ∀ m ∈ after, m.1 ≠ usageKey) : stripTopLevelUsageMember (a ++ (x ++ b')) = some (a ++ b') := by
  -- the scan finds the usage member and nothing after it
  have hscan : ∀ {bytes w lead w₁ p w₂ rest w'}, bytes = w ++ 0x7B :: (lead ++ (w₁ ++ (p ++ (w₂ ++ (rest ++ 0x7D :: w'))))) →
      Lead before lead → Rest after rest → Spaces w₁ → Spaces w₂ → PairText m p →
      scanMembers bytes bytes.length (w.length + 1) 0 none true =
        some (some (w.length + 1 + lead.length + w₁.length, w.length + 1 + lead.length + w₁.length + p.length)) := by
    intro bytes w lead w₁ p w₂ rest w' h hlead hrest hw₁ hw₂ hp
    obtain ⟨c, s, heq, hc⟩ : ∃ c s, w₂ ++ (rest ++ 0x7D :: w') = c :: s ∧ isDelimiter c = true := by
      rcases hrest with ⟨-, rfl⟩ | ⟨u, -, rfl⟩
      · exact delimited hw₂ rfl
      · exact delimited hw₂ rfl
    rw [heq] at h
    obtain ⟨n, hn, hfound⟩ := usage_found h hlead hbefore hw₁ hp hm hc
    rw [hfound]
    refine scanMembers_rest (s := w') ?_ hw₂ hrest hafter hn
    have hpre : bytes = (w ++ 0x7B :: (lead ++ (w₁ ++ p))) ++ c :: s := by
      rw [h]
      simp
    rw [heq, hpre]
    apply List.drop_left'
    simp only [List.length_append, List.length_cons]
    omega
  cases h with
  | @alone w w₁ _ w₂ w' hw hw₁ hp hw₂ hw' =>
    have heq : (w ++ 0x7B :: w₁) ++ (x ++ (w₂ ++ 0x7D :: w')) = w ++ 0x7B :: (w₁ ++ (x ++ (w₂ ++ 0x7D :: w'))) := by simp
    have heq' : (w ++ 0x7B :: w₁) ++ (x ++ (w₂ ++ 0x7D :: w')) =
        w ++ 0x7B :: ([] ++ (w₁ ++ (x ++ (w₂ ++ ([] ++ 0x7D :: w'))))) := by simp
    have h := hscan heq' (Or.inl ⟨rfl, rfl⟩) (Or.inl ⟨rfl, rfl⟩) hw₁ hw₂ hp
    exact strip_front heq hw hw₁ hw₂ rfl h
  | @first _ w w₁ p w₂ t w' hw hw₁ hp hw₂ ht hw' =>
    have heq : (w ++ 0x7B :: w₁) ++ ((p ++ (w₂ ++ [0x2C])) ++ (t ++ 0x7D :: w')) =
        w ++ 0x7B :: (w₁ ++ (p ++ (w₂ ++ 0x2C :: (t ++ 0x7D :: w')))) := by simp
    have heq' : (w ++ 0x7B :: w₁) ++ ((p ++ (w₂ ++ [0x2C])) ++ (t ++ 0x7D :: w')) =
        w ++ 0x7B :: ([] ++ (w₁ ++ (p ++ (w₂ ++ (0x2C :: t ++ 0x7D :: w'))))) := by simp
    have h := hscan heq' (Or.inl ⟨rfl, rfl⟩) (Or.inr ⟨t, ht, rfl⟩) hw₁ hw₂ hp
    exact strip_front heq hw hw₁ hw₂ rfl h
  | @last _ w t w₁ p w₂ w' hw ht hw₁ hp hw₂ hw' =>
    have heq : (w ++ 0x7B :: t) ++ (0x2C :: (w₁ ++ p) ++ (w₂ ++ 0x7D :: w')) =
        w ++ 0x7B :: (t ++ 0x2C :: (w₁ ++ (p ++ (w₂ ++ 0x7D :: w')))) := by simp
    have heq' : (w ++ 0x7B :: t) ++ (0x2C :: (w₁ ++ p) ++ (w₂ ++ 0x7D :: w')) =
        w ++ 0x7B :: ((t ++ [0x2C]) ++ (w₁ ++ (p ++ (w₂ ++ ([] ++ 0x7D :: w'))))) := by simp
    have h := hscan heq' (Or.inr ⟨t, ht, rfl⟩) (Or.inl ⟨rfl, rfl⟩) hw₁ hw₂ hp
    exact strip_back heq hw hw₁ h
  | @middle _ _ w t w₁ p w₂ u w' hw ht hw₁ hp hw₂ hu hw' =>
    have heq : (w ++ 0x7B :: t) ++ (0x2C :: (w₁ ++ p) ++ (w₂ ++ 0x2C :: (u ++ 0x7D :: w'))) =
        w ++ 0x7B :: (t ++ 0x2C :: (w₁ ++ (p ++ (w₂ ++ 0x2C :: (u ++ 0x7D :: w'))))) := by simp
    have heq' : (w ++ 0x7B :: t) ++ (0x2C :: (w₁ ++ p) ++ (w₂ ++ 0x2C :: (u ++ 0x7D :: w'))) =
        w ++ 0x7B :: ((t ++ [0x2C]) ++ (w₁ ++ (p ++ (w₂ ++ (0x2C :: u ++ 0x7D :: w'))))) := by simp
    have h := hscan heq' (Or.inr ⟨t, ht, rfl⟩) (Or.inr ⟨u, hu, rfl⟩) hw₁ hw₂ hp
    exact strip_back heq hw hw₁ h

/-- An object that goes on after the cut as `a ++ (x ++ b')` does has the usage member. -/
theorem usage_of_cut (h : Cut m before after a x b') (hm : m.1 = usageKey) (hbefore : ∀ m ∈ before, m.1 ≠ usageKey)
    (hb : b'.head? = some b) (hms : ∀ m ∈ ms, m.1 ≠ usageKey) : ¬ObjectText ms (a ++ (x ++ b :: s)) := by
  have hdelim : ∀ {w c s}, Spaces w → isDelimiter c = true → (w ++ c :: s).head? = some b → isDelimiter b = true := by
    intro w c s hw hc hhead
    obtain ⟨c', s', heq, hc'⟩ := delimited (s := s) hw hc
    rw [heq] at hhead
    cases hhead
    exact hc'
  cases h with
  | @alone w w₁ _ w₂ w' hw hw₁ hp hw₂ hw' =>
    have heq : (w ++ 0x7B :: w₁) ++ (x ++ b :: s) = w ++ 0x7B :: ([] ++ (w₁ ++ (x ++ b :: s))) := by simp
    exact no_usage_before heq hw (Or.inl ⟨rfl, rfl⟩) hbefore hw₁ hp hm (hdelim hw₂ rfl hb) hms
  | @first _ w w₁ p w₂ t w' hw hw₁ hp hw₂ ht hw' =>
    obtain ⟨c', s', hs', hc'⟩ := delimited (c := 0x2C) (s := b :: s) hw₂ rfl
    have heq : (w ++ 0x7B :: w₁) ++ ((p ++ (w₂ ++ [0x2C])) ++ b :: s) = w ++ 0x7B :: ([] ++ (w₁ ++ (p ++ c' :: s'))) := by
      rw [← hs']
      simp
    exact no_usage_before heq hw (Or.inl ⟨rfl, rfl⟩) hbefore hw₁ hp hm hc' hms
  | @last _ w t w₁ p w₂ w' hw ht hw₁ hp hw₂ hw' =>
    have heq : (w ++ 0x7B :: t) ++ (0x2C :: (w₁ ++ p) ++ b :: s) =
        w ++ 0x7B :: ((t ++ [0x2C]) ++ (w₁ ++ (p ++ b :: s))) := by simp
    exact no_usage_before heq hw (Or.inr ⟨t, ht, rfl⟩) hbefore hw₁ hp hm (hdelim hw₂ rfl hb) hms
  | @middle _ _ w t w₁ p w₂ u w' hw ht hw₁ hp hw₂ hu hw' =>
    have heq : (w ++ 0x7B :: t) ++ (0x2C :: (w₁ ++ p) ++ b :: s) =
        w ++ 0x7B :: ((t ++ [0x2C]) ++ (w₁ ++ (p ++ b :: s))) := by simp
    exact no_usage_before heq hw (Or.inr ⟨t, ht, rfl⟩) hbefore hw₁ hp hm (hdelim hw₂ rfl hb) hms

end Busbar
