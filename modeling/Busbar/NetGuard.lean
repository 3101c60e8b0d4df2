import Busbar.Lib.Fields
import Mathlib.Algebra.GroupWithZero.Nat

/-!
# Host strings that are addresses in disguise

A host string can spell an IPv4 address without being a dotted quad: as one number, in fewer than four parts, or with a
part in hexadecimal or octal. The guards against requests into the internal network refuse these spellings.

* `NetGuard.Number`: the parts the resolver reads as numbers.
* `NetGuard.isAlternate_iff`: the guard's three branches as one condition on the parts.
* `NetGuard.numeric_host_guarded`: a numeric host of at most four parts is refused, or it is four decimal numbers without
  leading zeros, and those are a dotted quad or out of range.
-/

namespace Busbar.NetGuard

/-- `u8::is_ascii_hexdigit`. -/
def isAsciiHexdigit (c : Char) : Bool :=
  c.isDigit || (('a' ≤ c && c ≤ 'f') || ('A' ≤ c && c ≤ 'F'))

/-- `str::len`. -/
def utf8Len (p : List Char) : Nat := (p.map Char.utf8Size).sum

/-- What follows `0x` or `0X`. -/
def stripHexPrefix : List Char → Option (List Char)
  | '0' :: 'x' :: hex => some hex
  | '0' :: 'X' :: hex => some hex
  | _ => none

def isHexDigits (hex : List Char) : Bool := !hex.isEmpty && hex.all isAsciiHexdigit

/-- A numeric encoding: decimal, hexadecimal or octal. -/
def isNumeric (p : List Char) : Bool :=
  match stripHexPrefix p with
  | some hex => isHexDigits hex
  | none => !p.isEmpty && p.all Char.isDigit

/-- A hexadecimal part or one with a leading zero. -/
def isAlternatePart (p : List Char) : Bool :=
  (stripHexPrefix p).isSome || (1 < utf8Len p && p.head? = some '0' && p.all Char.isDigit)

def isAlternateIpv4Encoding (host : String) : Bool :=
  let h := host.toList
  if h = [] then false
  else
    match (if '.' ∈ h then none else stripHexPrefix h) with
    | some hex => isHexDigits hex
    | none =>
      if '.' ∈ h then
        let parts := Fields.segments '.' h
        if parts.all isNumeric then
          -- a short form is expanded by the resolver
          if parts.length < 4 then true else parts.any isAlternatePart
        else false
      else h.all Char.isDigit

/-! ## The numbers a resolver reads -/

def Decimal (p : List Char) : Prop := p ≠ [] ∧ ∀ c ∈ p, c.isDigit = true

def Hexadecimal (p : List Char) : Prop :=
  ∃ x hex, (x = 'x' ∨ x = 'X') ∧ p = '0' :: x :: hex ∧ hex ≠ [] ∧ ∀ c ∈ hex, isAsciiHexdigit c = true

def Octal (p : List Char) : Prop := ∃ ds, p = '0' :: ds ∧ ds ≠ [] ∧ ∀ c ∈ ds, '0' ≤ c ∧ c ≤ '7'

def Number (p : List Char) : Prop := Decimal p ∨ Hexadecimal p ∨ Octal p

def parts (host : String) : List (List Char) := Fields.segments '.' host.toList

/-- The value of a decimal number. -/
def value (p : List Char) : Nat := p.foldl (fun n c => 10 * n + (c.toNat - '0'.toNat)) 0

/-- A decimal number as it is written without padding. -/
def Plain (p : List Char) : Prop := Decimal p ∧ (p.head? = some '0' → p = ['0'])

/-- Four plain decimal numbers. -/
def FourPlain (host : String) : Prop := (parts host).length = 4 ∧ ∀ p ∈ parts host, Plain p

/-- A canonical dotted quad: four octets. -/
def DottedQuad (host : String) : Prop := FourPlain host ∧ ∀ p ∈ parts host, value p ≤ 255

variable {p hex : List Char} {host : String}

theorem stripHexPrefix_eq : stripHexPrefix p = some hex ↔ ∃ x, (x = 'x' ∨ x = 'X') ∧ p = '0' :: x :: hex := by
  constructor
  · intro h
    unfold stripHexPrefix at h
    split at h
    · exact ⟨'x', Or.inl rfl, by rw [Option.some.inj h]⟩
    · exact ⟨'X', Or.inr rfl, by rw [Option.some.inj h]⟩
    · cases h
  · rintro ⟨x, rfl | rfl, rfl⟩ <;> rfl

theorem isHexDigits_iff : isHexDigits hex = true ↔ hex ≠ [] ∧ ∀ c ∈ hex, isAsciiHexdigit c = true := by
  unfold isHexDigits
  rw [Bool.and_eq_true, List.all_eq_true, Bool.not_eq_true', List.isEmpty_eq_false_iff]

/-- A hexadecimal number has a letter in it, so it is not a decimal one. -/
theorem not_decimal_of_strip (h : stripHexPrefix p = some hex) : ¬ Decimal p := by
  obtain ⟨x, hx, rfl⟩ := stripHexPrefix_eq.1 h
  intro hdec
  have hdigit := hdec.2 x (by simp)
  rcases hx with rfl | rfl
  · exact absurd hdigit (by decide)
  · exact absurd hdigit (by decide)

theorem Octal.decimal (h : Octal p) : Decimal p := by
  obtain ⟨ds, rfl, -, hds⟩ := h
  refine ⟨List.cons_ne_nil _ _, ?_⟩
  intro c hc
  rcases List.mem_cons.1 hc with rfl | hc
  · rfl
  · obtain ⟨hlow, hhigh⟩ := hds c hc
    unfold Char.isDigit
    rw [Bool.and_eq_true, decide_eq_true_eq, decide_eq_true_eq]
    exact ⟨hlow, Char.le_trans hhigh (by decide : '7' ≤ '9')⟩

theorem hexadecimal_iff : Hexadecimal p ↔ ∃ hex, stripHexPrefix p = some hex ∧ isHexDigits hex = true := by
  constructor
  · rintro ⟨x, hex, hx, rfl, hne, hall⟩
    exact ⟨hex, stripHexPrefix_eq.2 ⟨x, hx, rfl⟩, isHexDigits_iff.2 ⟨hne, hall⟩⟩
  · rintro ⟨hex, hstrip, hhex⟩
    obtain ⟨x, hx, rfl⟩ := stripHexPrefix_eq.1 hstrip
    obtain ⟨hne, hall⟩ := isHexDigits_iff.1 hhex
    exact ⟨x, hex, hx, rfl, hne, hall⟩

theorem number_iff : Number p ↔ Decimal p ∨ Hexadecimal p := by
  constructor
  · rintro (h | h | h)
    · exact Or.inl h
    · exact Or.inr h
    · exact Or.inl h.decimal
  · rintro (h | h)
    · exact Or.inl h
    · exact Or.inr (Or.inl h)

theorem decimal_iff : Decimal p ↔ (!p.isEmpty && p.all Char.isDigit) = true := by
  unfold Decimal
  rw [Bool.and_eq_true, List.all_eq_true, Bool.not_eq_true', List.isEmpty_eq_false_iff]

/-- **The guard's test of a part is the resolver's.** -/
theorem isNumeric_iff : isNumeric p = true ↔ Number p := by
  rw [number_iff, hexadecimal_iff]
  unfold isNumeric
  cases hstrip : stripHexPrefix p with
  | some hex =>
    dsimp only
    constructor
    · intro h
      exact Or.inr ⟨hex, rfl, h⟩
    · rintro (h | ⟨hex', heq, h⟩)
      · exact absurd h (not_decimal_of_strip hstrip)
      · rw [Option.some.inj heq]
        exact h
  | none =>
    dsimp only
    rw [← decimal_iff]
    constructor
    · exact Or.inl
    · rintro (h | ⟨hex', heq, -⟩)
      · exact h
      · cases heq

theorem utf8Len_pos (h : p ≠ []) : 0 < utf8Len p := by
  obtain ⟨c, cs, rfl⟩ := List.exists_cons_of_ne_nil h
  have hc := c.utf8Size_pos
  unfold utf8Len
  rw [List.map_cons, List.sum_cons]
  omega

/-- Among numbers, the parts that mark an alternate encoding are those not written plainly. -/
theorem isAlternatePart_iff (h : Number p) : isAlternatePart p = true ↔ ¬ Plain p := by
  unfold isAlternatePart Plain
  rcases number_iff.1 h with hdec | hhex
  · have hstrip : stripHexPrefix p = none := by
      rw [Option.eq_none_iff_forall_ne_some]
      intro hex hsome
      exact not_decimal_of_strip hsome hdec
    have hall : p.all Char.isDigit = true := List.all_eq_true.2 hdec.2
    rw [hstrip, hall]
    simp only [Option.isSome_none, Bool.false_or, Bool.and_true, Bool.and_eq_true, decide_eq_true_eq]
    constructor
    · rintro ⟨hlen, hhead⟩ hplain
      rw [hplain.2 hhead] at hlen
      exact absurd hlen (by decide)
    · intro hplain
      have hpad : p.head? = some '0' ∧ p ≠ ['0'] := by
        by_contra hno
        refine hplain ⟨hdec, fun hhead => ?_⟩
        by_contra hne
        exact hno ⟨hhead, hne⟩
      obtain ⟨hhead, hne⟩ := hpad
      obtain ⟨ds, rfl⟩ : ∃ ds, p = '0' :: ds := List.head?_eq_some_iff.1 hhead
      have hds : ds ≠ [] := fun hnil => hne (by rw [hnil])
      have hpos := utf8Len_pos hds
      refine ⟨?_, rfl⟩
      have hlen : utf8Len ('0' :: ds) = 1 + utf8Len ds := by
        unfold utf8Len
        rw [List.map_cons, List.sum_cons]
        rfl
      omega
  · obtain ⟨hex, hstrip, -⟩ := hexadecimal_iff.1 hhex
    rw [hstrip]
    simp only [Option.isSome_some, Bool.true_or, true_iff]
    exact fun hplain => not_decimal_of_strip hstrip hplain.1

/-! ## The guard -/

theorem parts_of_dot (h : '.' ∉ host.toList) : parts host = [host.toList] := Fields.segments_of_notMem h

/-- A host of several parts has a dot in it. -/
theorem length_parts (h : '.' ∈ host.toList) : 2 ≤ (parts host).length := by
  have hpos : 0 < (parts host).length := List.length_pos_iff.2 (Fields.segments_ne_nil '.' host.toList)
  by_contra hlt
  have hone : (parts host).length = 1 := by omega
  exact Fields.notMem_of_length hone h

/-- **The guard on the parts.** It refuses a host all of whose parts are numbers when it has fewer than four or one
that is not written plainly. -/
theorem isAlternate_iff : isAlternateIpv4Encoding host = true ↔
    (∀ p ∈ parts host, Number p) ∧ ((parts host).length < 4 ∨ ∃ p ∈ parts host, ¬ Plain p) := by
  unfold isAlternateIpv4Encoding
  dsimp only
  by_cases hdot : '.' ∈ host.toList
  · have hne : host.toList ≠ [] := List.ne_nil_of_mem hdot
    rw [if_neg hne, if_pos hdot]
    dsimp only
    rw [if_pos hdot]
    change (if (parts host).all isNumeric = true then
      (if (parts host).length < 4 then true else (parts host).any isAlternatePart) else false) = true ↔ _
    by_cases hall : (parts host).all isNumeric = true
    · have hnumber : ∀ p ∈ parts host, Number p := fun p hp => isNumeric_iff.1 (List.all_eq_true.1 hall p hp)
      rw [if_pos hall]
      by_cases hlen : (parts host).length < 4
      · rw [if_pos hlen]
        exact ⟨fun _ => ⟨hnumber, Or.inl hlen⟩, fun _ => rfl⟩
      · rw [if_neg hlen, List.any_eq_true]
        constructor
        · rintro ⟨p, hp, halt⟩
          exact ⟨hnumber, Or.inr ⟨p, hp, (isAlternatePart_iff (hnumber p hp)).1 halt⟩⟩
        · rintro ⟨-, hlt | ⟨p, hp, hplain⟩⟩
          · exact absurd hlt hlen
          · exact ⟨p, hp, (isAlternatePart_iff (hnumber p hp)).2 hplain⟩
    · rw [if_neg hall]
      constructor
      · exact fun hf => absurd hf Bool.false_ne_true
      · rintro ⟨hnumber, -⟩
        exact absurd (List.all_eq_true.2 fun p hp => isNumeric_iff.2 (hnumber p hp)) hall
  · -- without a dot the host is its one part
    rw [parts_of_dot hdot]
    have hshort : [host.toList].length < 4 := by
      rw [List.length_singleton]
      decide
    have hright : ((∀ p ∈ [host.toList], Number p) ∧ ([host.toList].length < 4 ∨ ∃ p ∈ [host.toList], ¬ Plain p)) ↔
        Number host.toList := by
      rw [List.forall_mem_singleton]
      exact ⟨fun h => h.1, fun h => ⟨h, Or.inl hshort⟩⟩
    rw [hright, ← isNumeric_iff, if_neg hdot, if_neg hdot]
    unfold isNumeric
    by_cases hnil : host.toList = []
    · rw [if_pos hnil, hnil]
      decide
    · rw [if_neg hnil]
      have hempty : (!host.toList.isEmpty) = true := by
        rw [Bool.not_eq_true', List.isEmpty_eq_false_iff]
        exact hnil
      cases stripHexPrefix host.toList with
      | some hex => exact Iff.rfl
      | none =>
        dsimp only
        rw [hempty, Bool.true_and]

/-- **No numeric address passes the guard but a dotted quad.** A host of at most four numbers is refused unless it is
four plain decimal numbers: a canonical dotted quad, or no address at all because one is out of range. A host with a part
that is not a number is not refused here, and neither are four plain numbers. -/
theorem numeric_host_guarded (host : String) :
    ((∀ p ∈ parts host, Number p) → (parts host).length ≤ 4 →
        DottedQuad host ∨ (FourPlain host ∧ ∃ p ∈ parts host, 255 < value p) ∨
          isAlternateIpv4Encoding host = true) ∧
      ((∃ p ∈ parts host, ¬ Number p) → isAlternateIpv4Encoding host = false) ∧
      (DottedQuad host → isAlternateIpv4Encoding host = false) := by
  refine ⟨?_, ?_, ?_⟩
  · intro hnumber hlen
    by_cases halt : isAlternateIpv4Encoding host = true
    · exact Or.inr (Or.inr halt)
    · have hfour : FourPlain host := by
        have hno : ¬ ((parts host).length < 4 ∨ ∃ p ∈ parts host, ¬ Plain p) :=
          fun h => halt (isAlternate_iff.2 ⟨hnumber, h⟩)
        refine ⟨?_, fun p hp => ?_⟩
        · have hge : ¬ (parts host).length < 4 := fun hlt => hno (Or.inl hlt)
          omega
        · by_contra hpad
          exact hno (Or.inr ⟨p, hp, hpad⟩)
      by_cases hrange : ∃ p ∈ parts host, 255 < value p
      · exact Or.inr (Or.inl ⟨hfour, hrange⟩)
      · refine Or.inl ⟨hfour, fun p hp => ?_⟩
        by_contra hlarge
        exact hrange ⟨p, hp, by omega⟩
  · rintro ⟨p, hp, hno⟩
    rw [Bool.eq_false_iff]
    intro halt
    exact hno ((isAlternate_iff.1 halt).1 p hp)
  · rintro ⟨⟨hlen, hplain⟩, -⟩
    rw [Bool.eq_false_iff]
    intro halt
    rcases (isAlternate_iff.1 halt).2 with hlt | ⟨p, hp, hno⟩
    · omega
    · exact hno (hplain p hp)

/-- A short form with a hexadecimal part, a name, and the loopback quad. -/
theorem numeric_host_guarded_samples :
    isAlternateIpv4Encoding "0x7f.1" = true ∧ isAlternateIpv4Encoding "10.internal" = false ∧
      isAlternateIpv4Encoding "127.0.0.1" = false := by
  refine ⟨?_, ?_, ?_⟩
  · have hparts : parts "0x7f.1" = [['0', 'x', '7', 'f'], ['1']] := by decide
    have hnumber : ∀ p ∈ parts "0x7f.1", Number p := by
      rw [hparts]
      intro p hp
      exact isNumeric_iff.1 (List.all_eq_true.1 (by decide : [['0', 'x', '7', 'f'], ['1']].all isNumeric = true) p hp)
    have hlen : (parts "0x7f.1").length = 2 := by rw [hparts]; rfl
    rcases (numeric_host_guarded "0x7f.1").1 hnumber (by omega) with hquad | ⟨hfour, -⟩ | halt
    · have hfour := hquad.1.1
      omega
    · have hfour := hfour.1
      omega
    · exact halt
  · have hparts : parts "10.internal" = [['1', '0'], "internal".toList] := by decide
    have hname : ¬ Number "internal".toList := fun h => absurd (isNumeric_iff.2 h) (by decide)
    exact (numeric_host_guarded "10.internal").2.1 ⟨_, by rw [hparts]; simp, hname⟩
  · have hparts : parts "127.0.0.1" = [['1', '2', '7'], ['0'], ['0'], ['1']] := by decide
    have hplain : ∀ p ∈ parts "127.0.0.1", Plain p ∧ value p ≤ 255 := by
      rw [hparts]
      intro p hp
      have hdec : Decimal p := decimal_iff.2
        (List.all_eq_true.1 (by decide :
          [['1', '2', '7'], ['0'], ['0'], ['1']].all (fun p => !p.isEmpty && p.all Char.isDigit) = true) p hp)
      simp only [List.mem_cons, List.not_mem_nil, or_false] at hp
      rcases hp with rfl | rfl | rfl | rfl <;> exact ⟨⟨hdec, by decide⟩, by decide⟩
    have hlen : (parts "127.0.0.1").length = 4 := by rw [hparts]; rfl
    exact (numeric_host_guarded "127.0.0.1").2.2 ⟨⟨hlen, fun p hp => (hplain p hp).1⟩, fun p hp => (hplain p hp).2⟩

/-- Four plain numbers, one too large for an octet: the host is no dotted quad and passes the guard. -/
theorem out_of_range_quad_passes :
    (parts "1.2.3.256").length = 4 ∧ (∀ p ∈ parts "1.2.3.256", Number p) ∧ ¬ DottedQuad "1.2.3.256" ∧
      isAlternateIpv4Encoding "1.2.3.256" = false := by
  have hparts : parts "1.2.3.256" = [['1'], ['2'], ['3'], ['2', '5', '6']] := by decide
  refine ⟨by rw [hparts]; rfl, ?_, ?_, by decide⟩
  · rw [hparts]
    intro p hp
    exact isNumeric_iff.1
      (List.all_eq_true.1 (by decide : [['1'], ['2'], ['3'], ['2', '5', '6']].all isNumeric = true) p hp)
  · rintro ⟨-, hrange⟩
    rw [hparts] at hrange
    exact absurd (hrange ['2', '5', '6'] (by simp)) (by decide)

end Busbar.NetGuard
