import Mathlib.Data.List.TakeWhile
import Mathlib.Algebra.Group.Int.Defs
import Mathlib.Algebra.GroupWithZero.Nat

/-!
# Bytes and text

Byte strings, UTF-8, and the string operations of the standard library the modules share.
-/

namespace Busbar

abbrev Bytes := List UInt8

/-- `str::as_bytes`. -/
def utf8 (s : String) : Bytes := s.toUTF8.toList

/-- `std::str::from_utf8`. -/
def fromUtf8 (bs : Bytes) : Option String := String.fromUTF8? ⟨bs.toArray⟩

/-- `str::strip_prefix`. -/
def stripPrefix (pre s : String) : Option String :=
  if pre.toList.isPrefixOf s.toList then some (String.ofList (s.toList.drop pre.toList.length)) else none

/-- `str::split_once` at a character. -/
def splitOnce (c : Char) (s : String) : Option (String × String) :=
  let cs := s.toList
  if c ∈ cs then
    some (String.ofList (cs.takeWhile (· ≠ c)), String.ofList ((cs.dropWhile (· ≠ c)).tail))
  else none

/-- `char::is_whitespace`. -/
def isWhitespace (c : Char) : Bool :=
  let n := c.toNat
  (0x09 ≤ n && n ≤ 0x0D) || n = 0x20 || n = 0x85 || n = 0xA0 || n = 0x1680 || (0x2000 ≤ n && n ≤ 0x200A)
    || n = 0x2028 || n = 0x2029 || n = 0x202F || n = 0x205F || n = 0x3000

/-- `str::trim`. -/
def trim (s : String) : String :=
  String.ofList ((s.toList.dropWhile isWhitespace).reverse.dropWhile isWhitespace).reverse

/-- `str::lines`: split after each line feed, drop it and a carriage return before it. -/
def lines (s : String) : List String :=
  let ls := s.toList.splitOn '\n'
  let ls := if ls.getLast? = some [] then ls.dropLast else ls
  ls.mapIdx fun i l =>
    -- the last line keeps its carriage return unless a line feed followed it
    if l.getLast? = some '\r' ∧ (i + 1 < ls.length ∨ s.toList.getLast? = some '\n') then
      String.ofList l.dropLast
    else String.ofList l

/-- `u8::is_ascii_whitespace`. -/
def isAsciiSpace (b : UInt8) : Bool := b = 0x20 || b = 0x09 || b = 0x0A || b = 0x0C || b = 0x0D

def hexDigits : List Char := ['0', '1', '2', '3', '4', '5', '6', '7', '8', '9', 'a', 'b', 'c', 'd', 'e', 'f']

def hexEncode (bs : Bytes) : String :=
  String.ofList (bs.flatMap (fun b =>
    [hexDigits.getD (b.toNat / 16) '0', hexDigits.getD (b.toNat % 16) '0']))

theorem toList_loop (bs : ByteArray) (i : Nat) (r : Bytes) :
    ByteArray.toList.loop bs i r = r.reverse ++ bs.data.toList.drop i := by
  fun_induction ByteArray.toList.loop bs i r with
  | case1 i r hi ih =>
    have hlen : i < bs.data.toList.length := by simpa using hi
    have hget : bs.get! i = bs.data.toList[i] := by
      unfold ByteArray.get!
      simp [getElem!_pos, hi]
    rw [ih, List.reverse_cons, List.append_assoc, List.singleton_append, hget, ← List.drop_eq_getElem_cons]
  | case2 i r hi => rw [List.drop_eq_nil_of_le (by simpa using hi), List.append_nil]

theorem utf8_eq (s : String) : utf8 s = s.toByteArray.data.toList := toList_loop s.toByteArray 0 []

/-- A string's own bytes are valid UTF-8. -/
theorem fromUtf8_utf8 (s : String) : fromUtf8 (utf8 s) = some s := by
  have h : (⟨(utf8 s).toArray⟩ : ByteArray) = s.toByteArray := by
    rw [utf8_eq]
  unfold fromUtf8 String.fromUTF8?
  rw [h, dif_pos s.isValidUTF8]
  rfl

theorem utf8_injective : Function.Injective utf8 := by
  intro a b h
  have hsome := congrArg fromUtf8 h
  rw [fromUtf8_utf8, fromUtf8_utf8] at hsome
  exact Option.some.inj hsome

theorem stripPrefix_append (p s : String) : stripPrefix p (p ++ s) = some s := by
  have h : p.toList.isPrefixOf (p.toList ++ s.toList) = true :=
    List.isPrefixOf_iff_prefix.2 (List.prefix_append _ _)
  simp [stripPrefix, h]

theorem stripPrefix_eq_some {p s t : String} : stripPrefix p s = some t ↔ s = p ++ t := by
  constructor
  · intro h
    unfold stripPrefix at h
    split at h
    · rename_i hp
      obtain ⟨r, hr⟩ := List.isPrefixOf_iff_prefix.1 hp
      obtain rfl := Option.some.inj h
      rw [← String.toList_inj, String.toList_append, String.toList_ofList, ← hr, List.drop_left]
    · cases h
  · rintro rfl
    exact stripPrefix_append p t

theorem splitOnce_append {c : Char} {a : String} (b : String) (h : c ∉ a.toList) :
    splitOnce c (a ++ String.singleton c ++ b) = some (a, b) := by
  have ht : (a.toList ++ (c :: b.toList)).takeWhile (fun x => !decide (x = c)) = a.toList := by
    rw [List.takeWhile_append_of_pos (by intro x hx; simp; rintro rfl; exact h hx)]
    simp
  have hd : (a.toList ++ (c :: b.toList)).dropWhile (fun x => !decide (x = c)) = c :: b.toList := by
    rw [List.dropWhile_append_of_pos (by intro x hx; simp; rintro rfl; exact h hx)]
    simp
  simp [splitOnce, ht, hd]

end Busbar
