import Mathlib.Data.Finset.Card
import Mathlib.Data.Nat.Find
import Mathlib.Data.List.Nodup
import Mathlib.Tactic.ByContra
import Mathlib.Data.Finset.Range
import Mathlib.Logic.Relation

/-!
# Walks along a partial function

From a start, step by step to the successor, as long as there is one. A walk clamped at the number of places it can be
at misses nothing, cycle or not.

* `Walk.mem_walk`: a clamped walk visits what the first steps reach.
* `Walk.mem_walk_iff`: clamped at the number of places it visits all that can be reached.
* `Walk.nodup_walk_iff`: it visits nothing twice unless it runs into a cycle and there are places it misses.
* `Walk.Path.nodup`, `Walk.Path.walk_eq`: a way that ends visits nothing twice, and a walk long enough follows it to its
  end.
-/

namespace Walk

variable {α : Type} (next : α → Option α)

/-- Where the walk is after `n` steps. -/
def iter (start : Option α) : ℕ → Option α
  | 0 => start
  | n + 1 => (iter start n).bind next

/-- The places of the first `n` steps. -/
def walk : ℕ → Option α → List α
  | 0, _ => []
  | _ + 1, none => []
  | n + 1, some a => a :: walk n (next a)

variable {next} {start : Option α} {a b : α}

theorem iter_none (n : ℕ) : iter next none n = none := by
  induction n with
  | zero => rfl
  | succ n ih => rw [iter, ih]; rfl

theorem iter_add (m n : ℕ) : iter next start (m + n) = iter next (iter next start m) n := by
  induction n with
  | zero => rfl
  | succ n ih => rw [← Nat.add_assoc, iter, ih, iter]

theorem mem_walk {n : ℕ} : a ∈ walk next n start ↔ ∃ k < n, iter next start k = some a := by
  induction n generalizing start with
  | zero => exact ⟨fun h => absurd h List.not_mem_nil, fun ⟨_, hk, _⟩ => absurd hk (Nat.not_lt_zero _)⟩
  | succ n ih =>
    cases start with
    | none =>
      refine ⟨fun h => absurd h List.not_mem_nil, fun ⟨k, _, hk⟩ => ?_⟩
      rw [iter_none] at hk
      cases hk
    | some b =>
      have hshift : ∀ k, iter next (some b) (1 + k) = iter next (next b) k := fun k => iter_add 1 k
      rw [walk, List.mem_cons, ih]
      constructor
      · rintro (rfl | ⟨k, hk, ha⟩)
        · exact ⟨0, Nat.succ_pos n, rfl⟩
        · exact ⟨1 + k, by omega, (hshift k).trans ha⟩
      · rintro ⟨k, hk, ha⟩
        cases k with
        | zero => exact Or.inl (Option.some.inj ha).symm
        | succ k =>
          rw [Nat.add_comm, hshift] at ha
          exact Or.inr ⟨k, by omega, ha⟩

theorem length_walk_le (n : ℕ) : (walk next n start).length ≤ n := by
  induction n generalizing start with
  | zero => exact Nat.le_refl 0
  | succ n ih =>
    cases start with
    | none => exact Nat.zero_le _
    | some b => exact Nat.succ_le_succ ih

/-- The walk can get there. -/
def Reaches (next : α → Option α) (start : Option α) (a : α) : Prop := ∃ k, iter next start k = some a

/-- A step that ends somewhere had somewhere to start from. -/
theorem iter_isSome_of_le {j k : ℕ} (hjk : j ≤ k) (h : iter next start k = some a) :
    ∃ b, iter next start j = some b := by
  obtain ⟨d, rfl⟩ := Nat.exists_eq_add_of_le hjk
  rw [iter_add] at h
  cases hj : iter next start j with
  | some b => exact ⟨b, rfl⟩
  | none =>
    rw [hj, iter_none] at h
    cases h

section Places

variable [DecidableEq α] {places : Finset α} (hin : ∀ a, Reaches next start a → a ∈ places)
include hin

/-- **What can be reached is reached before the places run out**: on the shortest way no place comes twice. -/
theorem reaches_early (h : Reaches next start a) : ∃ k < places.card, iter next start k = some a := by
  classical
  obtain ⟨k, hk, hmin⟩ : ∃ k, iter next start k = some a ∧ ∀ j < k, iter next start j ≠ some a :=
    ⟨Nat.find h, Nat.find_spec h, fun j hj => Nat.find_min h hj⟩
  refine ⟨k, ?_, hk⟩
  have hinj : ∀ i j, i < j → j ≤ k → iter next start i ≠ iter next start j := by
    intro i j hij hjk heq
    -- were a place visited twice, the end would come earlier
    have hshort : iter next start (i + (k - j)) = some a := by
      rw [iter_add, heq, ← iter_add, Nat.add_sub_cancel' hjk]
      exact hk
    exact hmin (i + (k - j)) (by omega) hshort
  have hcard : ((Finset.range (k + 1)).image fun i => (iter next start i).getD a).card = k + 1 := by
    rw [Finset.card_image_of_injOn, Finset.card_range]
    intro i hi j hj heq
    rw [Finset.coe_range, Set.mem_Iio] at hi hj
    obtain ⟨b, hb⟩ := iter_isSome_of_le (by omega : i ≤ k) hk
    obtain ⟨c, hc⟩ := iter_isSome_of_le (by omega : j ≤ k) hk
    simp only [hb, hc, Option.getD_some] at heq
    by_contra hne
    rcases Nat.lt_or_gt_of_ne hne with hlt | hlt
    · exact hinj i j hlt (by omega) (by rw [hb, hc, heq])
    · exact hinj j i hlt (by omega) (by rw [hb, hc, heq])
  have hsub : ((Finset.range (k + 1)).image fun i => (iter next start i).getD a) ⊆ places := by
    intro b hb
    obtain ⟨i, hi, rfl⟩ := Finset.mem_image.1 hb
    obtain ⟨c, hc⟩ := iter_isSome_of_le (by rw [Finset.mem_range] at hi; omega : i ≤ k) hk
    rw [hc]
    exact hin c ⟨i, hc⟩
  have hle := Finset.card_le_card hsub
  omega

theorem mem_walk_iff {n : ℕ} (hn : places.card ≤ n) : a ∈ walk next n start ↔ Reaches next start a := by
  rw [mem_walk]
  constructor
  · rintro ⟨k, -, hk⟩
    exact ⟨k, hk⟩
  · intro h
    obtain ⟨k, hk, ha⟩ := reaches_early hin h
    exact ⟨k, by omega, ha⟩

end Places

/-- No place on the way is reached from itself again. -/
def Acyclic (next : α → Option α) (start : Option α) : Prop :=
  ∀ a, Reaches next start a → ∀ m, 0 < m → iter next (some a) m ≠ some a

/-- A cycle on the way never ends. -/
theorem iter_of_cycle {m : ℕ} (hm : 0 < m) (hcycle : iter next (some a) m = some a) (h : Reaches next start a) (k : ℕ) :
    ∃ b, iter next start k = some b := by
  obtain ⟨k₀, hk₀⟩ := h
  have hround : ∀ r, iter next start (k₀ + m * r) = some a := by
    intro r
    induction r with
    | zero => exact hk₀
    | succ r ih => rw [Nat.mul_succ, ← Nat.add_assoc, iter_add, ih, hcycle]
  have hfar : k ≤ k₀ + m * k := Nat.le_add_left_of_le (Nat.le_mul_of_pos_left k hm)
  exact iter_isSome_of_le hfar (hround k)

theorem length_walk_of_endless {n : ℕ} (h : ∀ k, ∃ b, iter next start k = some b) :
    (walk next n start).length = n := by
  induction n generalizing start with
  | zero => rfl
  | succ n ih =>
    obtain ⟨b, hb⟩ := h 0
    obtain rfl : start = some b := hb
    rw [walk, List.length_cons, ih fun k => ?_]
    obtain ⟨c, hc⟩ := h (1 + k)
    exact ⟨c, by rw [iter_add] at hc; exact hc⟩

theorem nodup_of_acyclic (h : Acyclic next start) (n : ℕ) : (walk next n start).Nodup := by
  induction n generalizing start with
  | zero => exact List.nodup_nil
  | succ n ih =>
    cases start with
    | none => exact List.nodup_nil
    | some b =>
      have hshift : ∀ k, iter next (some b) (1 + k) = iter next (next b) k := fun k => iter_add 1 k
      rw [walk, List.nodup_cons]
      refine ⟨fun hmem => ?_, ih fun a ha => h a ?_⟩
      · obtain ⟨k, -, hk⟩ := mem_walk.1 hmem
        exact h b ⟨0, rfl⟩ (1 + k) (by omega) ((hshift k).trans hk)
      · obtain ⟨k, hk⟩ := ha
        exact ⟨1 + k, (hshift k).trans hk⟩

/-- **Nothing twice**, if and only if the way has no cycle or leaves no place out. -/
theorem nodup_walk_iff [DecidableEq α] {places : Finset α} (hin : ∀ a, Reaches next start a → a ∈ places) :
    (walk next places.card start).Nodup ↔ Acyclic next start ∨ ∀ a ∈ places, Reaches next start a := by
  constructor
  · intro hnodup
    by_contra hno
    push Not at hno
    obtain ⟨hcyc, a, ha, hmissed⟩ := hno
    unfold Acyclic at hcyc
    push Not at hcyc
    obtain ⟨b, hb, m, hm, hround⟩ := hcyc
    have hlen := length_walk_of_endless (n := places.card) (iter_of_cycle hm hround hb)
    -- as many different places as there are: none is missed
    have hall : (walk next places.card start).toFinset = places := by
      refine Finset.eq_of_subset_of_card_le (fun c hc => ?_) ?_
      · exact hin c ((mem_walk_iff hin (Nat.le_refl _)).1 (List.mem_toFinset.1 hc))
      · rw [List.toFinset_card_of_nodup hnodup, hlen]
    rw [← hall, List.mem_toFinset, mem_walk_iff hin (Nat.le_refl _)] at ha
    exact hmissed ha
  · rintro (hac | hall)
    · exact nodup_of_acyclic hac _
    · have hcover : places ⊆ (walk next places.card start).toFinset := fun a ha =>
        List.mem_toFinset.2 ((mem_walk_iff hin (Nat.le_refl _)).2 (hall a ha))
      have hle := Finset.card_le_card hcover
      have hshort : (walk next places.card start).length ≤ places.card := length_walk_le places.card
      rw [List.card_toFinset] at hle
      have hsub := List.dedup_sublist (walk next places.card start)
      exact List.dedup_eq_self.1 (hsub.eq_of_length_le (by omega))

/-! ## Ways that end -/

/-- The places from `a` to where the way ends. -/
inductive Path (next : α → Option α) : α → List α → Prop where
  | stop {a : α} : next a = none → Path next a [a]
  | step {a b : α} {l : List α} : next a = some b → Path next b l → Path next a (a :: l)

/-- One place after another, in one step or more. -/
abbrev Before (next : α → Option α) : α → α → Prop := Relation.TransGen (fun a b => next a = some b)

variable {l l' : List α}

theorem Path.unique (h : Path next a l) (h' : Path next a l') : l = l' := by
  induction h generalizing l' with
  | stop hnone =>
    cases h' with
    | stop _ => rfl
    | step hsome _ =>
      rw [hnone] at hsome
      cases hsome
  | step hsome _ ih =>
    cases h' with
    | stop hnone =>
      rw [hnone] at hsome
      cases hsome
    | step hsome' hl' =>
      rw [hsome] at hsome'
      cases hsome'
      rw [ih hl']

/-- From a place further on the way is shorter. -/
theorem Path.shorter (h : Path next a l) (hb : Before next a b) : ∃ l', Path next b l' ∧ l'.length < l.length := by
  induction hb with
  | single hstep =>
    cases h with
    | stop hnone =>
      rw [hnone] at hstep
      cases hstep
    | step hsome hl =>
      rw [hsome] at hstep
      cases hstep
      exact ⟨_, hl, Nat.lt_succ_self _⟩
  | tail _ hstep ih =>
    obtain ⟨l', hl', hlt⟩ := ih
    cases hl' with
    | stop hnone =>
      rw [hnone] at hstep
      cases hstep
    | step hsome hl =>
      rw [hsome] at hstep
      cases hstep
      exact ⟨_, hl, Nat.lt_of_succ_lt (by simpa using hlt)⟩

/-- A way that ends does not come back. -/
theorem Path.no_return (h : Path next a l) : ¬Before next a a := by
  intro hb
  obtain ⟨l', hl', hlt⟩ := h.shorter hb
  rw [h.unique hl'] at hlt
  exact Nat.lt_irrefl _ hlt

theorem Path.mem_iff (h : Path next a l) : b ∈ l ↔ b = a ∨ Before next a b := by
  induction h with
  | stop hnone =>
    rw [List.mem_singleton]
    refine ⟨Or.inl, ?_⟩
    rintro (h | h)
    · exact h
    · obtain ⟨c, hc, -⟩ := Relation.TransGen.head'_iff.1 h
      rw [hnone] at hc
      cases hc
  | @step a c l hsome _ ih =>
    rw [List.mem_cons, ih]
    constructor
    · rintro (h | rfl | h)
      · exact Or.inl h
      · exact Or.inr (.single hsome)
      · exact Or.inr (.head hsome h)
    · rintro (h | h)
      · exact Or.inl h
      · obtain ⟨d, hd, hrest⟩ := Relation.TransGen.head'_iff.1 h
        rw [hsome] at hd
        cases hd
        rcases Relation.reflTransGen_iff_eq_or_transGen.1 hrest with heq | hrest
        · exact Or.inr (Or.inl heq)
        · exact Or.inr (Or.inr hrest)

/-- **A way that ends visits nothing twice.** -/
theorem Path.nodup (h : Path next a l) : l.Nodup := by
  induction h with
  | stop _ => exact List.nodup_singleton _
  | @step a b l hsome hl ih =>
    refine List.nodup_cons.2 ⟨fun hmem => ?_, ih⟩
    -- the start among what follows would be a return
    have hback : Before next a a := by
      rcases hl.mem_iff.1 hmem with rfl | hb
      · exact .single hsome
      · exact .head hsome hb
    exact (Path.step hsome hl).no_return hback

/-- **A walk that is long enough follows the way to its end.** -/
theorem Path.walk_eq (h : Path next a l) {n : ℕ} (hn : l.length ≤ n) : walk next n (some a) = l := by
  induction h generalizing n with
  | stop hnone =>
    obtain ⟨n, rfl⟩ : ∃ m, n = m + 1 := ⟨n - 1, by simp at hn; omega⟩
    rw [walk, hnone]
    cases n <;> rfl
  | step hsome _ ih =>
    rw [List.length_cons] at hn
    obtain ⟨n, rfl⟩ : ∃ m, n = m + 1 := ⟨n - 1, by omega⟩
    rw [walk, hsome, ih (by omega)]

end Walk
