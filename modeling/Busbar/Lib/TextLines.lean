import Busbar.Lib.Text

/-!
# Characters and bytes

How a text lies in its bytes.

* `bytesOf_append`, `bytesOf_injective`: the bytes of the parts of a text are those of the whole.
* `split_before`: the bytes of a text can be cut before any ASCII byte.
-/

namespace Busbar

/-! ## Bytes -/

/-- The bytes of a list of characters. -/
def bytesOf (cs : List Char) : Bytes := utf8 (String.ofList cs)

variable {cs ds l r s t : List Char} {x y : Bytes}

theorem bytesOf_toList (s : String) : bytesOf s.toList = utf8 s := by
  unfold bytesOf
  rw [String.ofList_toList]

theorem bytesOf_eq (cs : List Char) : bytesOf cs = cs.flatMap String.utf8EncodeChar := by
  unfold bytesOf
  rw [utf8_eq, String.toByteArray_ofList]
  unfold List.utf8Encode
  simp

@[simp] theorem bytesOf_nil : bytesOf [] = [] := by
  rw [bytesOf_eq, List.flatMap_nil]

theorem bytesOf_append : bytesOf (cs ++ ds) = bytesOf cs ++ bytesOf ds := by
  rw [bytesOf_eq, bytesOf_eq, bytesOf_eq, List.flatMap_append]

theorem bytesOf_injective : Function.Injective bytesOf := by
  intro a b h
  exact String.ofList_injective (utf8_injective h)

theorem fromUtf8_eq_some {s : String} : fromUtf8 x = some s ↔ x = utf8 s := by
  constructor
  · intro h
    unfold fromUtf8 String.fromUTF8? at h
    split at h
    · cases h
      rw [utf8_eq]
      rfl
    · cases h
  · rintro rfl
    exact fromUtf8_utf8 s

/-- The bytes of a text can be cut before any ASCII byte. -/
theorem split_before (h : bytesOf cs = x ++ y) (hy : ∀ b ∈ y.head?, b < 0x80) :
    ∃ a b, cs = a ++ b ∧ x = bytesOf a ∧ y = bytesOf b := by
  induction cs generalizing x with
  | nil =>
    rw [bytesOf_nil] at h
    obtain ⟨rfl, rfl⟩ := List.append_eq_nil_iff.1 h.symm
    exact ⟨[], [], rfl, bytesOf_nil.symm, bytesOf_nil.symm⟩
  | cons c cs ih =>
    have hcons : String.utf8EncodeChar c ++ bytesOf cs = x ++ y := by
      rw [← h, bytesOf_eq, bytesOf_eq, List.flatMap_cons]
    have hc : bytesOf [c] = String.utf8EncodeChar c := by
      rw [bytesOf_eq]
      simp
    rcases List.append_eq_append_iff.1 hcons with ⟨z, rfl, hz⟩ | ⟨z, hz, rfl⟩
    · obtain ⟨a, b, rfl, rfl, rfl⟩ := ih hz
      refine ⟨c :: a, b, rfl, ?_, rfl⟩
      rw [← hc, ← bytesOf_append]
      rfl
    · cases x with
      | nil =>
        refine ⟨[], c :: cs, rfl, bytesOf_nil.symm, ?_⟩
        rw [h, List.nil_append]
      | cons b x =>
        cases z with
        | nil =>
          refine ⟨[c], cs, rfl, ?_, rfl⟩
          rw [hc, hz, List.append_nil]
        | cons b' z =>
          -- the cut would be inside the character
          have hlt : b' < 0x80 := hy b' rfl
          have hidx : x.length + 1 < (String.utf8EncodeChar c).length := by
            rw [hz]
            simp
          have hget : (String.utf8EncodeChar c)[x.length + 1] = b' := by
            simp [hz]
          have hfirst : b'.IsUTF8FirstByte := by
            left
            have hlt' : b'.toNat < 2 ^ 7 := UInt8.lt_iff_toNat_lt.1 hlt
            have hand : b'.toNat &&& 2 ^ 7 = 0 := by
              apply Nat.eq_of_testBit_eq
              intro i
              rw [Nat.testBit_and, Nat.testBit_two_pow, Nat.zero_testBit]
              by_cases hi : 7 = i
              · rw [← hi, Nat.testBit_lt_two_pow hlt', Bool.false_and]
              · rw [decide_eq_false hi, Bool.and_false]
            exact UInt8.toNat_inj.1 (by rw [UInt8.toNat_and]; exact hand)
          rw [← hget] at hfirst
          have := UInt8.isUTF8FirstByte_getElem_utf8EncodeChar.1 hfirst
          omega

end Busbar
