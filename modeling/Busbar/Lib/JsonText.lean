import Mathlib.Data.List.Chain

/-!
# JSON texts

The grammar of JSON over bytes. An object is kept together with its members: the texts of their names and values, in their
order, without the white space around them.

* `Text`: values, the elements of an array and the members of an object.
* `ObjectText`: an object and its members.
* `solid_value`, `solid_pair`: a text neither starts nor ends with white space.
* `text_arrayText`: values with commas between them, in brackets.
* `quiet_object`: what the lines of a text start with.
-/

namespace JsonText

abbrev Bytes := List UInt8

def isSpace (b : UInt8) : Bool := b = 0x20 || b = 0x09 || b = 0x0A || b = 0x0D

def Spaces (w : Bytes) : Prop := ∀ b ∈ w, isSpace b = true

def isDigit (b : UInt8) : Bool := 0x30 ≤ b && b ≤ 0x39

def isHex (b : UInt8) : Bool := isDigit b || (0x41 ≤ b && b ≤ 0x46) || (0x61 ≤ b && b ≤ 0x66)

/-- What stands between the quotes of a string. -/
inductive StringBody : Bytes → Prop where
  | nil : StringBody []
  | plain {b : UInt8} {bs : Bytes} : 0x20 ≤ b → b ≠ 0x22 → b ≠ 0x5C → StringBody bs → StringBody (b :: bs)
  | escape {c : UInt8} {bs : Bytes} : c ∈ [0x22, 0x5C, 0x2F, 0x62, 0x66, 0x6E, 0x72, 0x74] → StringBody bs →
      StringBody (0x5C :: c :: bs)
  | unicode {h₁ h₂ h₃ h₄ : UInt8} {bs : Bytes} : isHex h₁ = true → isHex h₂ = true → isHex h₃ = true → isHex h₄ = true →
      StringBody bs → StringBody (0x5C :: 0x75 :: h₁ :: h₂ :: h₃ :: h₄ :: bs)

def StringText (t : Bytes) : Prop := ∃ body, StringBody body ∧ t = 0x22 :: (body ++ [0x22])

def Digits (ds : Bytes) : Prop := ds ≠ [] ∧ ∀ b ∈ ds, isDigit b = true

def NumberText (t : Bytes) : Prop := ∃ sign int frac exp,
  (sign = [] ∨ sign = [0x2D]) ∧ (int = [0x30] ∨ Digits int ∧ int.head? ≠ some 0x30) ∧
    (frac = [] ∨ ∃ ds, Digits ds ∧ frac = 0x2E :: ds) ∧
    (exp = [] ∨ ∃ e s ds, (e = 0x65 ∨ e = 0x45) ∧ (s = [] ∨ s = [0x2B] ∨ s = [0x2D]) ∧ Digits ds ∧ exp = e :: (s ++ ds)) ∧
    t = sign ++ (int ++ (frac ++ exp))

/-- `true`, `false` and `null`. -/
def literals : List Bytes := [[0x74, 0x72, 0x75, 0x65], [0x66, 0x61, 0x6C, 0x73, 0x65], [0x6E, 0x75, 0x6C, 0x6C]]

inductive Kind where
  | value | elements | members

/-- Values, the elements of an array and the members of an object. -/
inductive Text : Kind → Bytes → Prop where
  | literal {t : Bytes} : t ∈ literals → Text .value t
  | number {t : Bytes} : NumberText t → Text .value t
  | string {t : Bytes} : StringText t → Text .value t
  | emptyArray {w : Bytes} : Spaces w → Text .value (0x5B :: (w ++ [0x5D]))
  | array {t : Bytes} : Text .elements t → Text .value (0x5B :: (t ++ [0x5D]))
  | emptyObject {w : Bytes} : Spaces w → Text .value (0x7B :: (w ++ [0x7D]))
  | object {t : Bytes} : Text .members t → Text .value (0x7B :: (t ++ [0x7D]))
  | element {w v w' : Bytes} : Spaces w → Text .value v → Spaces w' → Text .elements (w ++ (v ++ w'))
  | elements {w v w' t : Bytes} : Spaces w → Text .value v → Spaces w' → Text .elements t →
      Text .elements (w ++ (v ++ (w' ++ 0x2C :: t)))
  | member {w₁ k w₂ w₃ v w₄ : Bytes} : Spaces w₁ → StringText k → Spaces w₂ → Spaces w₃ → Text .value v → Spaces w₄ →
      Text .members (w₁ ++ (k ++ (w₂ ++ 0x3A :: (w₃ ++ (v ++ w₄)))))
  | members {w₁ k w₂ w₃ v w₄ t : Bytes} : Spaces w₁ → StringText k → Spaces w₂ → Spaces w₃ → Text .value v → Spaces w₄ →
      Text .members t → Text .members (w₁ ++ (k ++ (w₂ ++ 0x3A :: (w₃ ++ (v ++ (w₄ ++ 0x2C :: t))))))

/-- A name and its value. -/
def PairText (m : Bytes × Bytes) (t : Bytes) : Prop := ∃ w w',
  StringText m.1 ∧ Spaces w ∧ Spaces w' ∧ Text .value m.2 ∧ t = m.1 ++ (w ++ 0x3A :: (w' ++ m.2))

/-- A name and its value, with the white space around them. -/
def MemberText (m : Bytes × Bytes) (t : Bytes) : Prop :=
  ∃ w p w', Spaces w ∧ PairText m p ∧ Spaces w' ∧ t = w ++ (p ++ w')

/-- Members, with a comma between two of them. -/
inductive MembersText : List (Bytes × Bytes) → Bytes → Prop where
  | one {m : Bytes × Bytes} {t : Bytes} : MemberText m t → MembersText [m] t
  | more {m : Bytes × Bytes} {ms : List (Bytes × Bytes)} {t u : Bytes} : MemberText m t → MembersText ms u →
      MembersText (m :: ms) (t ++ 0x2C :: u)

/-- An object and its members. -/
def ObjectText (ms : List (Bytes × Bytes)) (t : Bytes) : Prop :=
  ∃ w body w', Spaces w ∧ Spaces w' ∧ (ms = [] ∧ Spaces body ∨ MembersText ms body) ∧ t = w ++ 0x7B :: (body ++ 0x7D :: w')

variable {t u v w : Bytes} {ms : List (Bytes × Bytes)}

/-! ## White space -/

theorem spaces_nil : Spaces [] := nofun

theorem spaces_append : Spaces (u ++ v) ↔ Spaces u ∧ Spaces v := by
  unfold Spaces
  simp only [List.mem_append]
  constructor
  · exact fun h => ⟨fun b hb => h b (Or.inl hb), fun b hb => h b (Or.inr hb)⟩
  · rintro ⟨hu, hv⟩ b (hb | hb)
    · exact hu b hb
    · exact hv b hb

/-- How many bytes are no white space. -/
def weight (t : Bytes) : Nat := t.countP (fun b => !isSpace b)

theorem weight_append : weight (u ++ v) = weight u + weight v := List.countP_append

theorem weight_eq_zero : weight w = 0 ↔ Spaces w := by
  unfold weight Spaces
  rw [List.countP_eq_zero]
  simp

theorem weight_cons {b : UInt8} (h : isSpace b = false) : weight (b :: t) = weight t + 1 := by
  unfold weight
  rw [List.countP_cons_of_pos (by simpa using h)]

/-! ## Strings and scalars -/

/-- Bytes of a scalar. -/
def isPlain (b : UInt8) : Bool :=
  isDigit b || b = 0x2B || b = 0x2D || b = 0x2E || (0x41 ≤ b && b ≤ 0x5A) || (0x61 ≤ b && b ≤ 0x7A)

/-- `true`, `false`, `null` and numbers: plain bytes, which do not start with `d` or `e`. -/
theorem scalar_plain (h : t ∈ literals ∨ NumberText t) :
    t ≠ [] ∧ (∀ b ∈ t, isPlain b = true) ∧ ∀ b ∈ t.head?, b ≠ 0x64 ∧ b ≠ 0x65 := by
  rcases h with h | ⟨sign, int, frac, exp, hsign, hint, hfrac, hexp, rfl⟩
  · have hall : ∀ t ∈ literals, t ≠ [] ∧ (∀ b ∈ t, isPlain b = true) ∧ ∀ b ∈ t.head?, b ≠ 0x64 ∧ b ≠ 0x65 := by
      decide +kernel
    exact hall t h
  · have hdigit : ∀ b, isDigit b = true → isPlain b = true := by
      intro b hb
      unfold isPlain
      rw [hb]
      rfl
    have hhead : ∀ b, isDigit b = true → b ≠ 0x64 ∧ b ≠ 0x65 := by
      intro b hb
      constructor
      · rintro rfl
        cases hb
      · rintro rfl
        cases hb
    have hint' : int ≠ [] ∧ ∀ b ∈ int, isDigit b = true := by
      rcases hint with rfl | ⟨⟨hne, hall⟩, -⟩
      · decide +kernel
      · exact ⟨hne, hall⟩
    have hfrac' : ∀ b ∈ frac, isPlain b = true := by
      rcases hfrac with rfl | ⟨ds, ⟨-, hds⟩, rfl⟩
      · exact nofun
      · intro b hb
        rcases List.mem_cons.1 hb with rfl | hb
        · decide
        · exact hdigit b (hds b hb)
    have hexp' : ∀ b ∈ exp, isPlain b = true := by
      rcases hexp with rfl | ⟨e, s, ds, he, hs, ⟨-, hds⟩, rfl⟩
      · exact nofun
      · intro b hb
        rcases List.mem_cons.1 hb with rfl | hb
        · rcases he with rfl | rfl <;> decide
        · rcases List.mem_append.1 hb with hb | hb
          · rcases hs with rfl | rfl | rfl
            · cases hb
            · rw [List.mem_singleton.1 hb]
              decide
            · rw [List.mem_singleton.1 hb]
              decide
          · exact hdigit b (hds b hb)
    have hsign' : ∀ b ∈ sign, b = 0x2D := by
      rcases hsign with rfl | rfl
      · exact nofun
      · exact fun b hb => List.mem_singleton.1 hb
    refine ⟨?_, ?_, ?_⟩
    · simp [hint'.1]
    · intro b hb
      simp only [List.mem_append] at hb
      rcases hb with hb | hb | hb | hb
      · rw [hsign' b hb]
        decide
      · exact hdigit b (hint'.2 b hb)
      · exact hfrac' b hb
      · exact hexp' b hb
    · intro b hb
      rcases hsign with rfl | rfl
      · rw [List.nil_append, List.head?_append_of_ne_nil _ hint'.1] at hb
        exact hhead b (hint'.2 b (List.mem_of_mem_head? hb))
      · cases hb
        decide

theorem body_printable (h : StringBody t) : ∀ b ∈ t, 0x20 ≤ b := by
  induction h with
  | nil => exact nofun
  | plain hb _ _ _ ih =>
    intro b' hb'
    rcases List.mem_cons.1 hb' with rfl | hb'
    · exact hb
    · exact ih b' hb'
  | escape hc _ ih =>
    have hall : ∀ c ∈ ([0x22, 0x5C, 0x2F, 0x62, 0x66, 0x6E, 0x72, 0x74] : List UInt8), 0x20 ≤ c := by decide +kernel
    intro b' hb'
    rcases List.mem_cons.1 hb' with rfl | hb'
    · decide
    · rcases List.mem_cons.1 hb' with rfl | hb'
      · exact hall _ hc
      · exact ih b' hb'
  | unicode h₁ h₂ h₃ h₄ _ ih =>
    have hhex : ∀ b, isHex b = true → 0x20 ≤ b := by
      intro b hb
      simp [isHex, isDigit, UInt8.le_iff_toNat_le] at hb ⊢
      omega
    intro b' hb'
    simp only [List.mem_cons] at hb'
    rcases hb' with rfl | rfl | rfl | rfl | rfl | rfl | hb'
    · decide
    · decide
    · exact hhex _ h₁
    · exact hhex _ h₂
    · exact hhex _ h₃
    · exact hhex _ h₄
    · exact ih b' hb'

/-! ## The ends of a text -/

/-- A text that neither starts nor ends with white space. -/
def Solid (t : Bytes) : Prop := (∃ b ∈ t.head?, isSpace b = false) ∧ ∃ b ∈ t.getLast?, isSpace b = false

theorem solid_singleton {b : UInt8} (h : isSpace b = false) : Solid [b] := ⟨⟨b, rfl, h⟩, b, rfl, h⟩

theorem Solid.ne_nil (h : Solid t) : t ≠ [] := by
  obtain ⟨⟨b, hb, -⟩, -⟩ := h
  rintro rfl
  cases hb

/-- Two solid texts, whatever stands between them. -/
theorem solid_around (hu : Solid u) (m : Bytes) (hv : Solid v) : Solid (u ++ (m ++ v)) := by
  have hnu := hu.ne_nil
  have hnv := hv.ne_nil
  obtain ⟨⟨b, hb, hsb⟩, -⟩ := hu
  obtain ⟨-, c, hc, hsc⟩ := hv
  refine ⟨⟨b, ?_, hsb⟩, c, ?_, hsc⟩
  · rwa [List.head?_append_of_ne_nil _ hnu]
  · rwa [← List.append_assoc, List.getLast?_append_of_ne_nil _ hnv]

theorem solid_append (hu : Solid u) (hv : Solid v) : Solid (u ++ v) := by
  have h := solid_around hu [] hv
  rwa [List.nil_append] at h

theorem Solid.weight_pos (h : Solid t) : 0 < weight t := by
  obtain ⟨⟨b, hb, hsb⟩, -⟩ := h
  rw [Nat.pos_iff_ne_zero, ne_eq, weight_eq_zero]
  intro hall
  rw [hall b (List.mem_of_mem_head? hb)] at hsb
  cases hsb

theorem solid_of_forall (hne : t ≠ []) (h : ∀ b ∈ t, isSpace b = false) : Solid t := by
  have hhead : t.head? = some (t.head hne) := List.head?_eq_some_head hne
  have hlast : t.getLast? = some (t.getLast hne) := List.getLast?_eq_some_getLast hne
  exact ⟨⟨_, hhead, h _ (List.head_mem hne)⟩, _, hlast, h _ (List.getLast_mem hne)⟩

theorem plain_not_space {b : UInt8} (h : isPlain b = true) : isSpace b = false := by
  by_contra hs
  have hs' : isSpace b = true := by simpa using hs
  simp only [isSpace, Bool.or_eq_true, decide_eq_true_eq] at hs'
  rcases hs' with ((rfl | rfl) | rfl) | rfl <;> cases h

theorem solid_string (h : StringText t) : Solid t := by
  obtain ⟨body, -, rfl⟩ := h
  exact solid_around (solid_singleton rfl) body (solid_singleton rfl)

/-- A value is a scalar, a string or stands in brackets. -/
theorem value_cases (h : Text .value v) :
    (v ∈ literals ∨ NumberText v) ∨ StringText v ∨ ∃ o body c, v = o :: (body ++ [c]) ∧
      (o = 0x5B ∧ c = 0x5D ∨ o = 0x7B ∧ c = 0x7D) ∧
      (Spaces body ∨ Text .elements body ∨ Text .members body) := by
  cases h with
  | literal h => exact Or.inl (Or.inl h)
  | number h => exact Or.inl (Or.inr h)
  | string h => exact Or.inr (Or.inl h)
  | emptyArray h => exact Or.inr (Or.inr ⟨_, _, _, rfl, Or.inl ⟨rfl, rfl⟩, Or.inl h⟩)
  | array h => exact Or.inr (Or.inr ⟨_, _, _, rfl, Or.inl ⟨rfl, rfl⟩, Or.inr (Or.inl h)⟩)
  | emptyObject h => exact Or.inr (Or.inr ⟨_, _, _, rfl, Or.inr ⟨rfl, rfl⟩, Or.inl h⟩)
  | object h => exact Or.inr (Or.inr ⟨_, _, _, rfl, Or.inr ⟨rfl, rfl⟩, Or.inr (Or.inr h)⟩)

theorem solid_value (h : Text .value v) : Solid v := by
  rcases value_cases h with hs | hs | ⟨o, body, c, rfl, hoc, -⟩
  · obtain ⟨hne, hplain, -⟩ := scalar_plain hs
    exact solid_of_forall hne (fun b hb => plain_not_space (hplain b hb))
  · exact solid_string hs
  · have ho : isSpace o = false := by rcases hoc with ⟨rfl, -⟩ | ⟨rfl, -⟩ <;> rfl
    have hc : isSpace c = false := by rcases hoc with ⟨-, rfl⟩ | ⟨-, rfl⟩ <;> rfl
    exact solid_around (solid_singleton ho) body (solid_singleton hc)

theorem solid_pair {m : Bytes × Bytes} (h : PairText m t) : Solid t := by
  obtain ⟨w, w', hk, -, -, hv, rfl⟩ := h
  have h := solid_around (solid_string hk) (w ++ 0x3A :: w') (solid_value hv)
  rwa [List.append_assoc, List.cons_append] at h

/-! ## Arrays -/

/-- The array of some values, with nothing but commas between them. -/
def arrayText (vs : List Bytes) : Bytes := 0x5B :: ([0x2C].intercalate vs ++ [0x5D])

theorem text_elements {vs : List Bytes} (hne : vs ≠ []) (h : ∀ v ∈ vs, Text .value v) :
    Text .elements ([0x2C].intercalate vs) := by
  induction vs with
  | nil => exact absurd rfl hne
  | cons v vs ih =>
    have hv : Text .value v := h v List.mem_cons_self
    cases vs with
    | nil =>
      have hone := Text.element spaces_nil hv spaces_nil
      simpa [List.intercalate] using hone
    | cons u us =>
      have hrest := ih (List.cons_ne_nil u us) (fun x hx => h x (List.mem_cons_of_mem v hx))
      have hmore := Text.elements spaces_nil hv spaces_nil hrest
      simpa [List.intercalate] using hmore

theorem text_arrayText {vs : List Bytes} (h : ∀ v ∈ vs, Text .value v) : Text .value (arrayText vs) := by
  by_cases hne : vs = []
  · subst hne
    exact Text.emptyArray spaces_nil
  · exact Text.array (text_elements hne h)

/-! ## What new lines start with -/

/-- No byte that `data:` or `event:` starts with. -/
def Calm (b : UInt8) : Prop := b ≠ 0x64 ∧ b ≠ 0x65

/-- The text and each of its new lines start with a calm byte. -/
def Quiet (t : Bytes) : Prop := (∀ b ∈ t.head?, Calm b) ∧ t.IsChain (fun a b => a = 0x0A → Calm b)

theorem quiet_append (hu : Quiet u) (hv : Quiet v) : Quiet (u ++ v) := by
  refine ⟨?_, ?_⟩
  · intro b hb
    rw [List.head?_append] at hb
    cases h : u.head? with
    | none =>
      rw [h] at hb
      exact hv.1 b hb
    | some c =>
      rw [h] at hb
      cases hb
      exact hu.1 _ h
  · exact List.isChain_append.2 ⟨hu.2, hv.2, fun a _ b hb _ => hv.1 b hb⟩

theorem quiet_of_calm (h : ∀ b ∈ t, Calm b) : Quiet t := by
  refine ⟨fun b hb => h b (List.mem_of_mem_head? hb), ?_⟩
  induction t with
  | nil => exact List.isChain_nil
  | cons c t ih =>
    have ht : ∀ b ∈ t, Calm b := fun b hb => h b (List.mem_cons_of_mem c hb)
    exact List.isChain_cons.2 ⟨fun b hb _ => ht b (List.mem_of_mem_head? hb), ih ht⟩

/-- On one line only the start counts. -/
theorem quiet_of_line (hhead : ∀ b ∈ t.head?, Calm b) (h : ∀ b ∈ t, b ≠ 0x0A) : Quiet t := by
  refine ⟨hhead, ?_⟩
  clear hhead
  induction t with
  | nil => exact List.isChain_nil
  | cons c t ih =>
    refine List.isChain_cons.2 ⟨?_, ih (fun b hb => h b (List.mem_cons_of_mem c hb))⟩
    intro b _ hc
    exact absurd hc (h c List.mem_cons_self)

theorem quiet_cons {b : UInt8} (hb : Calm b) (h : Quiet t) : Quiet (b :: t) :=
  quiet_append (u := [b]) (quiet_of_calm (by simpa using hb)) h

theorem quiet_nil : Quiet [] := quiet_of_calm nofun

theorem quiet_spaces (h : Spaces w) : Quiet w := by
  apply quiet_of_calm
  intro b hb
  have hs := h b hb
  constructor
  · rintro rfl
    cases hs
  · rintro rfl
    cases hs

theorem quiet_scalar (h : t ∈ literals ∨ NumberText t) : Quiet t := by
  obtain ⟨-, hplain, hhead⟩ := scalar_plain h
  apply quiet_of_line hhead
  rintro b hb rfl
  cases hplain _ hb

theorem quiet_string (h : StringText t) : Quiet t := by
  obtain ⟨body, hbody, rfl⟩ := h
  have hq : Calm 0x22 := ⟨by decide, by decide⟩
  apply quiet_of_line
  · intro b hb
    cases hb
    exact hq
  · rintro b hb rfl
    simp only [List.mem_cons, List.mem_append, List.not_mem_nil, or_false] at hb
    rcases hb with hb | hb | hb
    · cases hb
    · have := body_printable hbody _ hb
      exact absurd this (by decide)
    · cases hb

theorem quiet_brackets {o c : UInt8} (ho : Calm o) (hc : Calm c) (h : Quiet t) : Quiet (o :: (t ++ [c])) :=
  quiet_cons ho (quiet_append h (quiet_cons hc quiet_nil))

theorem quiet_member {w₁ k w₂ w₃ w₄ : Bytes} (h₁ : Spaces w₁) (hk : Quiet k) (h₂ : Spaces w₂) (h₃ : Spaces w₃)
    (hv : Quiet v) (h₄ : Quiet w₄) : Quiet (w₁ ++ (k ++ (w₂ ++ 0x3A :: (w₃ ++ (v ++ w₄))))) :=
  quiet_append (quiet_spaces h₁) (quiet_append hk (quiet_append (quiet_spaces h₂)
    (quiet_cons ⟨by decide, by decide⟩ (quiet_append (quiet_spaces h₃) (quiet_append hv h₄)))))

theorem quiet_text {k : Kind} (h : Text k t) : Quiet t := by
  induction h with
  | literal h => exact quiet_scalar (Or.inl h)
  | number h => exact quiet_scalar (Or.inr h)
  | string h => exact quiet_string h
  | emptyArray h => exact quiet_brackets ⟨by decide, by decide⟩ ⟨by decide, by decide⟩ (quiet_spaces h)
  | array _ ih => exact quiet_brackets ⟨by decide, by decide⟩ ⟨by decide, by decide⟩ ih
  | emptyObject h => exact quiet_brackets ⟨by decide, by decide⟩ ⟨by decide, by decide⟩ (quiet_spaces h)
  | object _ ih => exact quiet_brackets ⟨by decide, by decide⟩ ⟨by decide, by decide⟩ ih
  | element h _ h' ih => exact quiet_append (quiet_spaces h) (quiet_append ih (quiet_spaces h'))
  | elements h _ h' _ ih ih' =>
    exact quiet_append (quiet_spaces h) (quiet_append ih (quiet_append (quiet_spaces h')
      (quiet_cons ⟨by decide, by decide⟩ ih')))
  | member h₁ hk h₂ h₃ _ h₄ ih => exact quiet_member h₁ (quiet_string hk) h₂ h₃ ih (quiet_spaces h₄)
  | members h₁ hk h₂ h₃ _ h₄ _ ih ih' =>
    exact quiet_member h₁ (quiet_string hk) h₂ h₃ ih
      (quiet_append (quiet_spaces h₄) (quiet_cons ⟨by decide, by decide⟩ ih'))

theorem quiet_pair {m : Bytes × Bytes} (h : PairText m t) : Quiet t := by
  obtain ⟨w, w', hk, hw, hw', hv, rfl⟩ := h
  have h := quiet_member spaces_nil (quiet_string hk) hw hw' (quiet_text hv) quiet_nil
  rwa [List.nil_append, List.append_nil] at h

theorem quiet_members (h : MembersText ms t) : Quiet t := by
  have hone : ∀ {m : Bytes × Bytes} {t : Bytes}, MemberText m t → Quiet t := by
    rintro m t ⟨w, p, w', hw, hp, hw', rfl⟩
    exact quiet_append (quiet_spaces hw) (quiet_append (quiet_pair hp) (quiet_spaces hw'))
  induction h with
  | one h => exact hone h
  | more h _ ih => exact quiet_append (hone h) (quiet_cons ⟨by decide, by decide⟩ ih)

theorem quiet_object (h : ObjectText ms t) : Quiet t := by
  obtain ⟨w, body, w', hw, hw', hbody, rfl⟩ := h
  have hq : Quiet body := by
    rcases hbody with ⟨-, hs⟩ | hm
    · exact quiet_spaces hs
    · exact quiet_members hm
  exact quiet_append (quiet_spaces hw) (quiet_cons ⟨by decide, by decide⟩
    (quiet_append hq (quiet_cons ⟨by decide, by decide⟩ (quiet_spaces hw'))))

end JsonText
