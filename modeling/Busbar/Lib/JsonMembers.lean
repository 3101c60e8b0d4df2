import Busbar.Lib.JsonText
import Mathlib.Algebra.BigOperators.Group.List.Basic
import Mathlib.Algebra.GroupWithZero.Nat

/-!
# The members of a JSON object

Taking one member out of the text of an object.

* `members_append`, `members_split`: a comma joins the members before it and those after it.
* `weight_object`: the members tell how many bytes of the text are no white space.
* `Cut`: the text before a member, the member with one comma, the text after it.
* `exists_cut`, `Cut.kept`: every member can be cut out, and the rest is the object without it.
-/

namespace JsonText

variable {t u v w : Bytes} {m : Bytes × Bytes} {ms ns : List (Bytes × Bytes)}

theorem members_ne_nil (h : MembersText ms t) : ms ≠ [] := by
  cases h with
  | one _ => exact List.cons_ne_nil _ _
  | more _ _ => exact List.cons_ne_nil _ _

theorem members_append (h : MembersText ms t) (h' : MembersText ns u) :
    MembersText (ms ++ ns) (t ++ 0x2C :: u) := by
  induction h with
  | one h => exact .more h h'
  | more h _ ih =>
    rw [List.append_assoc, List.cons_append]
    exact .more h ih

theorem members_split (hms : ms ≠ []) (hns : ns ≠ []) (h : MembersText (ms ++ ns) t) :
    ∃ u v, MembersText ms u ∧ MembersText ns v ∧ t = u ++ 0x2C :: v := by
  induction ms generalizing t with
  | nil => exact absurd rfl hms
  | cons m ms ih =>
    rw [List.cons_append] at h
    generalize hall : m :: (ms ++ ns) = l at h
    cases h with
    | one _ =>
      obtain ⟨-, hnil⟩ := List.cons.inj hall
      exact absurd (List.append_eq_nil_iff.1 hnil).2 hns
    | more hm hrest =>
      obtain ⟨rfl, rfl⟩ := List.cons.inj hall
      by_cases hnil : ms = []
      · subst hnil
        exact ⟨_, _, .one hm, hrest, rfl⟩
      · obtain ⟨u, v, hu, hv, rfl⟩ := ih hnil hrest
        refine ⟨_, v, .more hm hu, hv, ?_⟩
        rw [List.append_assoc, List.cons_append]

/-- The white space before the first member may be any other. -/
theorem members_front (h : MembersText ms t) : ∃ w r, Spaces w ∧ t = w ++ r ∧ (∃ b ∈ r.head?, isSpace b = false) ∧
    ∀ s, Spaces s → MembersText ms (s ++ r) := by
  cases h with
  | one h =>
    obtain ⟨w, p, w', hw, hp, hw', rfl⟩ := h
    have hs := solid_pair hp
    refine ⟨w, p ++ w', hw, rfl, ?_, fun s h => .one ⟨s, p, w', h, hp, hw', rfl⟩⟩
    rw [List.head?_append_of_ne_nil _ hs.ne_nil]
    exact hs.1
  | @more m ms _ v h hv =>
    obtain ⟨w, p, w', hw, hp, hw', rfl⟩ := h
    have hs := solid_pair hp
    refine ⟨w, p ++ (w' ++ 0x2C :: v), hw, by simp only [List.append_assoc], ?_, fun s h => ?_⟩
    · rw [List.head?_append_of_ne_nil _ hs.ne_nil]
      exact hs.1
    · have h' := MembersText.more ⟨s, p, w', h, hp, hw', rfl⟩ hv
      simpa only [List.append_assoc] using h'

/-- The white space after the last member may be any other. -/
theorem members_back (h : MembersText ms t) : ∃ r w, Spaces w ∧ t = r ++ w ∧ (∃ b ∈ r.getLast?, isSpace b = false) ∧
    ∀ s, Spaces s → MembersText ms (r ++ s) := by
  induction h with
  | one h =>
    obtain ⟨w, p, w', hw, hp, hw', rfl⟩ := h
    have hs := solid_pair hp
    refine ⟨w ++ p, w', hw', by rw [List.append_assoc], ?_, fun s h => .one ⟨w, p, s, hw, hp, h, by rw [List.append_assoc]⟩⟩
    rw [List.getLast?_append_of_ne_nil _ hs.ne_nil]
    exact hs.2
  | @more m ms t _ h _ ih =>
    obtain ⟨r, w, hw, rfl, ⟨b, hb, hsb⟩, hall⟩ := ih
    refine ⟨t ++ 0x2C :: r, w, hw, by rw [List.append_assoc, List.cons_append], ⟨b, ?_, hsb⟩, fun s hs => ?_⟩
    · have hne : r ≠ [] := by
        rintro rfl
        cases hb
      rwa [List.getLast?_append_of_ne_nil _ (List.cons_ne_nil _ _), List.getLast?_cons_of_ne_nil hne]
    · rw [List.append_assoc, List.cons_append]
      exact .more h (hall s hs)

/-! ## The weight of an object -/

theorem weight_spaces (h : Spaces w) : weight w = 0 := weight_eq_zero.2 h

theorem weight_pair (h : PairText m t) : weight t = weight m.1 + weight m.2 + 1 := by
  obtain ⟨w, w', -, hw, hw', -, rfl⟩ := h
  have hcolon : isSpace 0x3A = false := rfl
  simp only [weight_append, weight_cons hcolon, weight_spaces hw, weight_spaces hw']
  omega

theorem weight_member (h : MemberText m t) : weight t = weight m.1 + weight m.2 + 1 := by
  obtain ⟨w, p, w', hw, hp, hw', rfl⟩ := h
  simp only [weight_append, weight_spaces hw, weight_spaces hw', weight_pair hp]
  omega

theorem weight_members (h : MembersText ms t) :
    weight t + 1 = (ms.map (fun m => weight m.1 + weight m.2 + 2)).sum := by
  have hcomma : isSpace 0x2C = false := rfl
  induction h with
  | one h => simp [weight_member h]
  | more h _ ih =>
    rw [List.map_cons, List.sum_cons, ← ih, weight_append, weight_cons hcomma, weight_member h]
    omega

/-- **Two texts of an object with the same members have the same weight.** -/
theorem weight_object (h : ObjectText ms t) (h' : ObjectText ms u) : weight t = weight u := by
  have hform : ∀ {t : Bytes}, ObjectText ms t → weight t =
      if ms = [] then 2 else (ms.map (fun m => weight m.1 + weight m.2 + 2)).sum + 1 := by
    rintro t ⟨w, body, w', hw, hw', hbody, rfl⟩
    have hopen : isSpace 0x7B = false := rfl
    have hclose : isSpace 0x7D = false := rfl
    rw [weight_append, weight_cons hopen, weight_append, weight_cons hclose, weight_spaces hw, weight_spaces hw']
    rcases hbody with ⟨rfl, hs⟩ | hm
    · rw [weight_spaces hs, if_pos rfl]
    · rw [if_neg (members_ne_nil hm), ← weight_members hm]
      omega
  rw [hform h, hform h']

/-! ## Cutting a member out -/

/-- The text before the member `m`, the member with the comma before it, and the text after it. The first member goes with
the comma after it. -/
inductive Cut (m : Bytes × Bytes) : List (Bytes × Bytes) → List (Bytes × Bytes) → Bytes → Bytes → Bytes → Prop where
  | alone {w w₁ p w₂ w' : Bytes} : Spaces w → Spaces w₁ → PairText m p → Spaces w₂ → Spaces w' →
      Cut m [] [] (w ++ 0x7B :: w₁) p (w₂ ++ 0x7D :: w')
  | first {after : List (Bytes × Bytes)} {w w₁ p w₂ t w' : Bytes} : Spaces w → Spaces w₁ → PairText m p → Spaces w₂ →
      MembersText after t → Spaces w' → Cut m [] after (w ++ 0x7B :: w₁) (p ++ (w₂ ++ [0x2C])) (t ++ 0x7D :: w')
  | last {before : List (Bytes × Bytes)} {w t w₁ p w₂ w' : Bytes} : Spaces w → MembersText before t → Spaces w₁ →
      PairText m p → Spaces w₂ → Spaces w' →
      Cut m before [] (w ++ 0x7B :: t) (0x2C :: (w₁ ++ p)) (w₂ ++ 0x7D :: w')
  | middle {before after : List (Bytes × Bytes)} {w t w₁ p w₂ u w' : Bytes} : Spaces w → MembersText before t →
      Spaces w₁ → PairText m p → Spaces w₂ → MembersText after u → Spaces w' →
      Cut m before after (w ++ 0x7B :: t) (0x2C :: (w₁ ++ p)) (w₂ ++ 0x2C :: (u ++ 0x7D :: w'))

theorem member_inv (h : MembersText [m] t) : MemberText m t := by
  cases h with
  | one h => exact h
  | more _ h => exact absurd rfl (members_ne_nil h)

variable {before after : List (Bytes × Bytes)} {a x b : Bytes}

/-- Every member can be cut out. -/
theorem exists_cut (h : ObjectText (before ++ m :: after) t) : ∃ a x b, Cut m before after a x b ∧ t = a ++ (x ++ b) := by
  obtain ⟨w, body, w', hw, hw', hbody, rfl⟩ := h
  have hm : MembersText (before ++ m :: after) body := by
    rcases hbody with ⟨hnil, -⟩ | hm
    · exact absurd (List.append_eq_nil_iff.1 hnil).2 (List.cons_ne_nil _ _)
    · exact hm
  -- the member and what follows it
  have htail : ∀ {t : Bytes}, MembersText (m :: after) t → ∃ w₁ p w₂ rest, Spaces w₁ ∧ PairText m p ∧ Spaces w₂ ∧
      t = w₁ ++ (p ++ (w₂ ++ rest)) ∧ (after = [] ∧ rest = [] ∨ ∃ u, MembersText after u ∧ rest = 0x2C :: u) := by
    intro t ht
    by_cases hafter : after = []
    · subst hafter
      obtain ⟨w₁, p, w₂, hw₁, hp, hw₂, rfl⟩ := member_inv ht
      exact ⟨w₁, p, w₂, [], hw₁, hp, hw₂, by rw [List.append_nil], Or.inl ⟨rfl, rfl⟩⟩
    · have hone : MembersText ([m] ++ after) t := ht
      obtain ⟨u, v, hu, hv, rfl⟩ := members_split (List.cons_ne_nil _ _) hafter hone
      obtain ⟨w₁, p, w₂, hw₁, hp, hw₂, rfl⟩ := member_inv hu
      exact ⟨w₁, p, w₂, _, hw₁, hp, hw₂, by simp only [List.append_assoc], Or.inr ⟨v, hv, rfl⟩⟩
  by_cases hbefore : before = []
  · subst hbefore
    obtain ⟨w₁, p, w₂, rest, hw₁, hp, hw₂, rfl, ⟨rfl, rfl⟩ | ⟨u, hu, rfl⟩⟩ := htail hm
    · exact ⟨_, _, _, .alone hw hw₁ hp hw₂ hw', by simp⟩
    · exact ⟨_, _, _, .first hw hw₁ hp hw₂ hu hw', by simp⟩
  · obtain ⟨t, v, ht, hv, rfl⟩ := members_split hbefore (List.cons_ne_nil _ _) hm
    obtain ⟨w₁, p, w₂, rest, hw₁, hp, hw₂, rfl, ⟨rfl, rfl⟩ | ⟨u, hu, rfl⟩⟩ := htail hv
    · exact ⟨_, _, _, .last hw ht hw₁ hp hw₂ hw', by simp⟩
    · exact ⟨_, _, _, .middle hw ht hw₁ hp hw₂ hu hw', by simp⟩

theorem Cut.solid (h : Cut m before after a x b) : Solid x := by
  have hcomma : Solid [0x2C] := solid_singleton rfl
  cases h with
  | alone _ _ hp _ _ => exact solid_pair hp
  | first _ _ hp _ _ _ => exact solid_around (solid_pair hp) _ hcomma
  | last _ _ _ hp _ _ => exact solid_around hcomma _ (solid_pair hp)
  | middle _ _ _ hp _ _ _ => exact solid_around hcomma _ (solid_pair hp)

/-- **What is left is the object without the member**, whatever white space stands where it stood. -/
theorem Cut.kept (h : Cut m before after a x b) : ∃ a₀ w₁ w₂ b₀, Spaces w₁ ∧ Spaces w₂ ∧ a = a₀ ++ w₁ ∧ b = w₂ ++ b₀ ∧
    (∃ c ∈ a₀.getLast?, isSpace c = false) ∧ (∃ c ∈ b₀.head?, isSpace c = false) ∧
    ∀ s, Spaces s → ObjectText (before ++ after) (a₀ ++ (s ++ b₀)) := by
  have hopen : ∀ w : Bytes, ∃ c ∈ (w ++ [0x7B]).getLast?, isSpace c = false := fun w => ⟨0x7B, by simp, rfl⟩
  cases h with
  | @alone w w₁ p w₂ w' hw hw₁ hp hw₂ hw' =>
    refine ⟨w ++ [0x7B], w₁, w₂, 0x7D :: w', hw₁, hw₂, by simp, rfl, hopen w, ⟨_, rfl, rfl⟩, fun s hs => ?_⟩
    exact ⟨w, s, w', hw, hw', Or.inl ⟨rfl, hs⟩, by simp⟩
  | @first _ w w₁ p w₂ t w' hw hw₁ hp hw₂ ht hw' =>
    obtain ⟨v, r, hv, rfl, ⟨c, hc, hsc⟩, hall⟩ := members_front ht
    refine ⟨w ++ [0x7B], w₁, v, r ++ 0x7D :: w', hw₁, hv, by simp, by simp, hopen w, ⟨c, ?_, hsc⟩, fun s hs => ?_⟩
    · rw [List.head?_append, hc]
      rfl
    · exact ⟨w, s ++ r, w', hw, hw', Or.inr (hall s hs), by simp⟩
  | @last _ w t w₁ p w₂ w' hw ht hw₁ hp hw₂ hw' =>
    obtain ⟨r, v, hv, rfl, ⟨c, hc, hsc⟩, hall⟩ := members_back ht
    refine ⟨w ++ 0x7B :: r, v, w₂, 0x7D :: w', hv, hw₂, by simp, rfl, ⟨c, ?_, hsc⟩, ⟨_, rfl, rfl⟩, fun s hs => ?_⟩
    · have hc' : r.getLast? = some c := hc
      simp [List.getLast?_append, List.getLast?_cons, hc']
    · exact ⟨w, r ++ s, w', hw, hw', Or.inr (by rw [List.append_nil]; exact hall s hs), by simp⟩
  | @middle _ _ w t w₁ p w₂ u w' hw ht hw₁ hp hw₂ hu hw' =>
    obtain ⟨r, v, hv, rfl, ⟨c, hc, hsc⟩, hall⟩ := members_back ht
    refine ⟨w ++ 0x7B :: r, v, w₂, 0x2C :: (u ++ 0x7D :: w'), hv, hw₂, by simp, rfl, ⟨c, ?_, hsc⟩, ⟨_, rfl, rfl⟩,
      fun s hs => ?_⟩
    · have hc' : r.getLast? = some c := hc
      simp [List.getLast?_append, List.getLast?_cons, hc']
    · exact ⟨w, r ++ s ++ 0x2C :: u, w', hw, hw', Or.inr (members_append (hall s hs) hu), by simp⟩

/-- White space after an object is no part of it. -/
theorem object_trim (h : ObjectText ms (t ++ w)) (hw : Spaces w) : ObjectText ms t := by
  obtain ⟨w₁, body, w', hw₁, hw', hbody, heq⟩ := h
  have hle : w.length ≤ w'.length := by
    by_contra hlt
    -- the closing brace would be white space
    have hbrace : (0x7D : UInt8) ∈ w := by
      have hsuf : w <:+ w₁ ++ 0x7B :: (body ++ 0x7D :: w') := heq ▸ List.suffix_append t w
      have hsuf' : 0x7D :: w' <:+ w₁ ++ 0x7B :: (body ++ 0x7D :: w') :=
        ⟨w₁ ++ 0x7B :: body, by simp⟩
      have := List.suffix_of_suffix_length_le hsuf' hsuf (by simp only [List.length_cons]; omega)
      exact this.subset List.mem_cons_self
    have := hw _ hbrace
    cases this
  obtain ⟨v, rfl⟩ : w <:+ w' := by
    have hsuf : w <:+ w₁ ++ 0x7B :: (body ++ 0x7D :: w') := heq ▸ List.suffix_append t w
    have hsuf' : w' <:+ w₁ ++ 0x7B :: (body ++ 0x7D :: w') := ⟨w₁ ++ 0x7B :: (body ++ [0x7D]), by simp⟩
    exact List.suffix_of_suffix_length_le hsuf hsuf' hle
  refine ⟨w₁, body, v, hw₁, (spaces_append.1 hw').1, hbody, ?_⟩
  refine @List.append_cancel_right _ _ w _ ?_
  rw [heq]
  simp

end JsonText
