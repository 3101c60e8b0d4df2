import Busbar.Plugins.Trust

/-!
# The text of a signed manifest

Compact JSON for the values a manifest is signed as: strings with their escapes, the number of the ABI, the two words for
a Boolean, and objects of these. A text of that form shows every field, so one serializer at least is faithful.

* `escape_append`, `stringText_append`: a string is read off the front of a text in one way.
* `Manifest.canonicalValue_eq`, `Manifest.canonicalValue_injective`: the signed value, and that it has every field but
  the signature.
* `canonicalText_injective`: manifests with one text have one signed value.
-/

namespace Busbar.Plugins

open Json

/-! ## What is signed -/

namespace Manifest

/-- **What is signed.** The members stand in the order of their keys. -/
theorem canonicalValue_eq (m : Manifest) : m.canonicalValue = .object (
    [("abi_version", .number (.posInt m.abiVersion)), ("alias", .string m.«alias»),
      ("description", .string m.description), ("homepage", .string m.homepage)] ++
    (m.host.toList.map fun h => ("host", .string h)) ++
    [("kind", .string m.kind), ("license", .string m.license), ("name", .string m.name), ("needs", needsValue m.needs),
      ("publisher", .string m.publisher), ("schema_derived", .bool m.schemaDerived)] ++
    (m.settingsSchema.toList.map fun s => ("settings_schema", .string s)) ++
    [("sha256", .string m.sha256), ("version", .string m.version)]) := by
  unfold canonicalValue members
  cases m.host <;> cases m.settingsSchema
  all_goals
    simp only [Option.toList, List.map_cons, List.map_nil, List.append_nil, List.cons_append, List.nil_append]
    simp only [List.filter_cons, List.filter_nil, ne_eq, String.reduceEq, not_false_eq_true, decide_true, if_true,
      not_true_eq_false, decide_false, Bool.false_eq_true, if_false, List.foldl_cons, List.foldl_nil]
    simp only [insertMember, String.reduceEq, String.reduceLT, if_true, if_false]

/-- The signature is not signed. -/
theorem canonicalValue_signature (m : Manifest) (signature : String) :
    { m with signature := signature }.canonicalValue = m.canonicalValue := by
  rw [canonicalValue_eq, canonicalValue_eq]

theorem asStr_injective : Function.Injective NeedLevel.asStr := by
  intro a b h
  cases a <;> cases b <;> first | rfl | exact absurd h (by decide)

/-- **Every field but the signature is signed.** -/
theorem canonicalValue_injective {m m' : Manifest} (h : m.canonicalValue = m'.canonicalValue) :
    { m' with signature := m.signature } = m := by
  rw [canonicalValue_eq, canonicalValue_eq] at h
  obtain ⟨name, «alias», kind, version, publisher, abiVersion, sha256, signature, description, homepage, license, ⟨prompt, user⟩,
    settingsSchema, schemaDerived, host⟩ := m
  obtain ⟨name', alias', kind', version', publisher', abiVersion', sha256', signature', description', homepage', license',
    ⟨prompt', user'⟩, settingsSchema', schemaDerived', host'⟩ := m'
  have hlevel : ∀ a b : NeedLevel, a.asStr = b.asStr ↔ a = b := fun a b => asStr_injective.eq_iff
  cases host <;> cases host' <;> cases settingsSchema <;> cases settingsSchema' <;>
    simp_all [needsValue]

end Manifest

/-! ## The writer -/

/-- The characters that are escaped, each with what follows the backslash. -/
def escapes : List (Char × List Char) :=
  [('"', ['"']), ('\\', ['\\']), (Char.ofNat 8, ['b']), ('\t', ['t']), ('\n', ['n']), (Char.ofNat 12, ['f']), ('\r', ['r'])] ++
  ((List.range 0x20).filter (fun n => n ≠ 8 ∧ n ≠ 9 ∧ n ≠ 10 ∧ n ≠ 12 ∧ n ≠ 13)).map fun n =>
    (Char.ofNat n, ['u', '0', '0', hexDigits.getD (n / 16) '0', hexDigits.getD (n % 16) '0'])

def escape (c : Char) : List Char :=
  match escapes.lookup c with
  | some tail => '\\' :: tail
  | none => [c]

def stringText (s : List Char) : List Char := '"' :: (s.flatMap escape ++ ['"'])

mutual

/-- A value as compact JSON; no manifest has a fraction. -/
def jsonText : Json → List Char
  | .null => "null".toList
  | .bool true => "true".toList
  | .bool false => "false".toList
  | .number (.posInt n) => (toString n).toList
  | .number (.negInt n) => (toString n).toList
  | .number (.float _) => []
  | .string s => stringText s.toList
  | .array elems => '[' :: (elementsText elems ++ [']'])
  | .object members => '{' :: (membersText members ++ ['}'])

def elementsText : List Json → List Char
  | [] => []
  | [v] => jsonText v
  | v :: vs => jsonText v ++ ',' :: elementsText vs

def membersText : List (String × Json) → List Char
  | [] => []
  | [(k, v)] => stringText k.toList ++ ':' :: jsonText v
  | (k, v) :: ms => stringText k.toList ++ ':' :: (jsonText v ++ ',' :: membersText ms)

end

/-! ## Reading it back -/

variable {a b : Char} {r r' s s' : List Char}

/-- No escape is the beginning of another, and no character that is kept starts one or ends a string. -/
theorem escapes_apart : escapes.all (fun e => escapes.all fun e' => e.1 = e'.1 || !(e.2.isPrefixOf e'.2)) = true := by
  decide +kernel

theorem escape_cases (c : Char) : (∃ tail, (c, tail) ∈ escapes ∧ escape c = '\\' :: tail) ∨
    (c ≠ '\\' ∧ c ≠ '"' ∧ escape c = [c]) := by
  unfold escape
  cases h : escapes.lookup c with
  | some tail =>
    obtain ⟨l₁, l₂, hsplit, -⟩ := List.lookup_eq_some_iff.1 h
    refine Or.inl ⟨tail, ?_, rfl⟩
    rw [hsplit]
    exact List.mem_append_right _ List.mem_cons_self
  | none =>
    refine Or.inr ⟨?_, ?_, rfl⟩
    · rintro rfl
      exact absurd h (by decide)
    · rintro rfl
      exact absurd h (by decide)

/-- **A character is read off the front in one way.** -/
theorem escape_append (h : escape a ++ r = escape b ++ r') : a = b ∧ r = r' := by
  rcases escape_cases a with ⟨ta, ha, hea⟩ | ⟨ha, -, hea⟩
  · rcases escape_cases b with ⟨tb, hb, heb⟩ | ⟨hb, -, heb⟩
    · -- both are escaped, and one escape would begin the other
      rw [hea, heb, List.cons_append, List.cons_append, List.cons.injEq] at h
      have htails := h.2
      have hapart : ∀ x ∈ escapes, ∀ y ∈ escapes, x.2 <+: y.2 → x.1 = y.1 := by
        intro x hx y hy hpre
        have hxy := List.all_eq_true.1 (List.all_eq_true.1 escapes_apart x hx) y hy
        rw [Bool.or_eq_true, decide_eq_true_eq, Bool.not_eq_true'] at hxy
        rcases hxy with hxy | hno
        · exact hxy
        · rw [List.isPrefixOf_iff_prefix.2 hpre] at hno
          cases hno
      have hab : a = b := by
        rcases List.prefix_or_prefix_of_prefix (List.prefix_append ta r) (htails ▸ List.prefix_append tb r') with hp | hp
        · exact hapart _ ha _ hb hp
        · exact (hapart _ hb _ ha hp).symm
      subst hab
      rw [hea] at heb
      rw [(List.cons.inj heb).2] at htails
      exact ⟨rfl, List.append_cancel_left htails⟩
    · rw [hea, heb, List.cons_append, List.cons_append, List.cons.injEq] at h
      exact absurd h.1.symm hb
  · rcases escape_cases b with ⟨tb, hb, heb⟩ | ⟨hb, -, heb⟩
    · rw [hea, heb, List.cons_append, List.cons_append, List.cons.injEq] at h
      exact absurd h.1 ha
    · rw [hea, heb] at h
      exact ⟨(List.cons.inj h).1, (List.cons.inj h).2⟩

/-- No character is written with a quote in front. -/
theorem quote_ne_escape (a : Char) : ('"' :: r) ≠ escape a ++ r' := by
  intro h
  rcases escape_cases a with ⟨t, -, he⟩ | ⟨-, hq, he⟩
  · rw [he] at h
    exact absurd (List.cons.inj h).1 (by decide)
  · rw [he] at h
    exact hq (List.cons.inj h).1.symm

/-- **A string is read off the front in one way.** -/
theorem stringText_append (h : stringText s ++ r = stringText s' ++ r') : s = s' ∧ r = r' := by
  have hbody : s.flatMap escape ++ '"' :: r = s'.flatMap escape ++ '"' :: r' := by
    unfold stringText at h
    simpa using h
  clear h
  induction s generalizing s' with
  | nil =>
    cases s' with
    | nil => exact ⟨rfl, (List.cons.inj hbody).2⟩
    | cons b s' =>
      rw [List.flatMap_cons, List.append_assoc] at hbody
      exact absurd hbody (quote_ne_escape b)
  | cons a s ih =>
    cases s' with
    | nil =>
      rw [List.flatMap_cons, List.append_assoc] at hbody
      exact absurd hbody.symm (quote_ne_escape a)
    | cons b s' =>
      rw [List.flatMap_cons, List.flatMap_cons, List.append_assoc, List.append_assoc] at hbody
      obtain ⟨rfl, hrest⟩ := escape_append hbody
      obtain ⟨rfl, hr⟩ := ih hrest
      exact ⟨rfl, hr⟩

/-- A numeral before a comma is read off in one way. -/
theorem numeral_append {n m : Nat} (h : (toString n).toList ++ ',' :: r = (toString m).toList ++ ',' :: r') :
    n = m ∧ r = r' := by
  have htext : ∀ n : Nat, (toString n).toList = Nat.toDigits 10 n := by
    intro n
    rw [Nat.toString_eq_repr, Nat.toList_repr]
  have hdigits : ∀ n, ∀ c ∈ Nat.toDigits 10 n, c.isDigit = true :=
    fun n c hc => Nat.isDigit_of_mem_toDigits (by decide) (by decide) hc
  have htake : ∀ (n : Nat) (x : List Char), (Nat.toDigits 10 n ++ ',' :: x).takeWhile Char.isDigit = Nat.toDigits 10 n := by
    intro n x
    rw [List.takeWhile_append_of_pos (hdigits n)]
    simp
  rw [htext, htext] at h
  have hsame : Nat.toDigits 10 n = Nat.toDigits 10 m := by rw [← htake n r, h, htake]
  have hn : n = m := by rw [← @Nat.ofDigitChars_ten_toDigits n, hsame, Nat.ofDigitChars_ten_toDigits]
  subst hn
  exact ⟨rfl, (List.cons.inj (List.append_cancel_left h)).2⟩

/-- An optional member, before another one. -/
def optionalText (key : String) (part : Option String) : List Char :=
  match part with
  | some s => stringText key.toList ++ ':' :: (stringText s.toList ++ [','])
  | none => []

/-- An optional member is read off if the next one has another key. -/
theorem optionalText_append {key next : String} {part part' : Option String} (hkey : key ≠ next)
    (h : optionalText key part ++ (stringText next.toList ++ r) = optionalText key part' ++ (stringText next.toList ++ r')) :
    part = part' ∧ stringText next.toList ++ r = stringText next.toList ++ r' := by
  have hno : ∀ (s : String) (x y : List Char),
      stringText next.toList ++ x ≠ optionalText key (some s) ++ (stringText next.toList ++ y) := by
    intro s x y heq
    unfold optionalText at heq
    rw [List.append_assoc] at heq
    exact hkey (String.toList_inj.1 (stringText_append heq).1.symm)
  cases part with
  | none =>
    cases part' with
    | none => exact ⟨rfl, h⟩
    | some s' => exact absurd h (hno s' r r')
  | some s =>
    cases part' with
    | none => exact absurd h.symm (hno s r' r)
    | some s' =>
      unfold optionalText at h
      simp only [List.append_assoc, List.cons_append, List.append_cancel_left_eq, List.cons.injEq, true_and] at h
      obtain ⟨hs, hrest⟩ := stringText_append h
      rw [String.toList_inj] at hs
      exact ⟨congrArg some hs, (List.cons.inj hrest).2⟩

/-- A member and what follows the comma after it. -/
def memberText (key : String) (value rest : List Char) : List Char :=
  stringText key.toList ++ ':' :: (value ++ ',' :: rest)

theorem memberText_cancel {key : String} {x y : List Char} (h : memberText key x r = memberText key y r') :
    x ++ ',' :: r = y ++ ',' :: r' := (List.cons.inj (List.append_cancel_left h)).2

theorem memberText_string {key s s' : String} (h : memberText key (stringText s.toList) r = memberText key (stringText s'.toList) r') :
    s = s' ∧ r = r' := by
  obtain ⟨hs, hr⟩ := stringText_append (memberText_cancel h)
  exact ⟨String.toList_inj.1 hs, (List.cons.inj hr).2⟩

theorem memberText_bool {key : String} {x y : Bool} (h : memberText key (jsonText (.bool x)) r = memberText key (jsonText (.bool y)) r') :
    x = y ∧ r = r' := by
  have hvalue := memberText_cancel h
  cases x <;> cases y
  · exact ⟨rfl, (List.cons.inj (List.append_cancel_left hvalue)).2⟩
  · exact absurd (List.cons.inj hvalue).1 (by decide)
  · exact absurd (List.cons.inj hvalue).1 (by decide)
  · exact ⟨rfl, (List.cons.inj (List.append_cancel_left hvalue)).2⟩

open Manifest

theorem jsonText_needs (n : HookNeeds) : jsonText (needsValue n) =
    '{' :: memberText "prompt" (stringText n.prompt.asStr.toList)
      (stringText "user".toList ++ ':' :: (stringText n.user.asStr.toList ++ ['}'])) := by
  unfold needsValue memberText
  simp [jsonText, membersText]

theorem memberText_needs {key : String} {n n' : HookNeeds}
    (h : memberText key (jsonText (needsValue n)) r = memberText key (jsonText (needsValue n')) r') : n = n' ∧ r = r' := by
  have hvalue := memberText_cancel h
  rw [jsonText_needs, jsonText_needs] at hvalue
  have happend : ∀ (n : HookNeeds) (x : List Char), '{' :: memberText "prompt" (stringText n.prompt.asStr.toList)
      (stringText "user".toList ++ ':' :: (stringText n.user.asStr.toList ++ ['}'])) ++ x =
      '{' :: memberText "prompt" (stringText n.prompt.asStr.toList)
        (stringText "user".toList ++ ':' :: (stringText n.user.asStr.toList ++ '}' :: x)) := by
    intro n x
    simp [memberText]
  rw [happend, happend] at hvalue
  obtain ⟨hp, hrest⟩ := memberText_string (List.cons.inj hvalue).2
  obtain ⟨hu, hr⟩ := stringText_append (List.cons.inj (List.append_cancel_left hrest)).2
  have hprompt := asStr_injective hp
  have huser := asStr_injective (String.toList_inj.1 hu)
  cases n
  cases n'
  exact ⟨congrArg₂ HookNeeds.mk hprompt huser, (List.cons.inj (List.cons.inj hr).2).2⟩

/-- The text of a manifest, member by member. -/
theorem jsonText_canonicalValue (m : Manifest) : jsonText m.canonicalValue =
    '{' :: memberText "abi_version" (toString m.abiVersion).toList
      (memberText "alias" (stringText m.«alias».toList)
      (memberText "description" (stringText m.description.toList)
      (memberText "homepage" (stringText m.homepage.toList)
      (optionalText "host" m.host ++
      memberText "kind" (stringText m.kind.toList)
      (memberText "license" (stringText m.license.toList)
      (memberText "name" (stringText m.name.toList)
      (memberText "needs" (jsonText (needsValue m.needs))
      (memberText "publisher" (stringText m.publisher.toList)
      (memberText "schema_derived" (jsonText (.bool m.schemaDerived))
      (optionalText "settings_schema" m.settingsSchema ++
      memberText "sha256" (stringText m.sha256.toList)
      (stringText "version".toList ++ ':' :: (stringText m.version.toList ++ ['}']))))))))))))  := by
  have hstring : ∀ s, jsonText (.string s) = stringText s.toList := fun s => by unfold jsonText; rfl
  have hcons : ∀ k v e ms, membersText ((k, v) :: e :: ms) =
      stringText k.toList ++ ':' :: (jsonText v ++ ',' :: membersText (e :: ms)) := fun k v e ms => by
    conv_lhs => unfold membersText
  have hlast : ∀ k v, membersText [(k, v)] = stringText k.toList ++ ':' :: jsonText v := fun k v => by unfold membersText; rfl
  have hnumber : jsonText (.number (.posInt m.abiVersion)) = (toString m.abiVersion).toList := by unfold jsonText; rfl
  have hobject : ∀ ms, jsonText (.object ms) = '{' :: (membersText ms ++ ['}']) := fun ms => by
    conv_lhs => unfold jsonText
  rw [canonicalValue_eq, hobject]
  cases m.host <;> cases m.settingsSchema <;>
    simp only [Option.toList, List.map_cons, List.map_nil, List.append_nil, List.cons_append, List.nil_append, hcons, hlast,
      hstring, hnumber, memberText, optionalText, List.append_assoc]

/-- **The text of a manifest shows every field that is signed.** -/
theorem canonicalText_injective {m m' : Manifest} (h : jsonText m.canonicalValue = jsonText m'.canonicalValue) :
    m.canonicalValue = m'.canonicalValue := by
  rw [jsonText_canonicalValue, jsonText_canonicalValue] at h
  obtain ⟨habi, h⟩ := numeral_append (memberText_cancel (List.cons.inj h).2)
  obtain ⟨halias, h⟩ := memberText_string h
  obtain ⟨hdescription, h⟩ := memberText_string h
  obtain ⟨hhomepage, h⟩ := memberText_string h
  obtain ⟨hhost, h⟩ := optionalText_append (by decide : "host" ≠ "kind") h
  obtain ⟨hkind, h⟩ := memberText_string h
  obtain ⟨hlicense, h⟩ := memberText_string h
  obtain ⟨hname, h⟩ := memberText_string h
  obtain ⟨hneeds, h⟩ := memberText_needs h
  obtain ⟨hpublisher, h⟩ := memberText_string h
  obtain ⟨hderived, h⟩ := memberText_bool h
  obtain ⟨hschema, h⟩ := optionalText_append (by decide : "settings_schema" ≠ "sha256") h
  obtain ⟨hsha, h⟩ := memberText_string h
  obtain ⟨hversion, -⟩ := stringText_append (List.cons.inj (List.append_cancel_left h)).2
  rw [canonicalValue_eq, canonicalValue_eq, habi, halias, hdescription, hhomepage, hhost, hkind, hlicense, hname, hneeds,
    hpublisher, hderived, hschema, hsha, String.toList_inj.1 hversion]

end Busbar.Plugins
