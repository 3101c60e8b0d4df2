import Mathlib.Data.Set.Basic
import Mathlib.Data.Option.Basic

/-!
# A layer of changes over a base that cannot be written

Two partial maps, one over the other, and the keys that are gone. What is written above stands, what is not comes from the
base, and what is gone stays gone. A layer is enough to tell a state if the base is left as it is: the whole state goes
above, and a key is gone if the base has it and the state does not.

* `merge`, `marks`: the map and the set of marked keys that two layers make.
* `merge_write`, `marks_write`: what is written above is what the merge tells.
-/

namespace Layer

variable {κ ν : Type}

/-- The map two layers make. -/
def merge (base upper : κ → Option ν) (gone : Set κ) [DecidablePred (· ∈ gone)] (k : κ) : Option ν :=
  if k ∈ gone then none else (upper k).or (base k)

/-- The keys two layers mark. -/
def marks (base upper : Set κ) (gone : Set κ) : Set κ := (base ∪ upper) \ gone

/-- The keys of a map. -/
def dom (m : κ → Option ν) : Set κ := {k | (m k).isSome = true}

/-- The two agree on the keys of the base. -/
def Agree (base m m' : κ → Option ν) : Prop := ∀ k ∈ dom base, m k = m' k

/-- What has to be gone for a state to come out: the keys of the base that it does not have. -/
def pruned (base state : κ → Option ν) (gone : Set κ) : Set κ := {k | k ∈ gone ∧ k ∉ dom state ∧ k ∈ dom base}

variable {base upper state state' : κ → Option ν} {gone gone' : Set κ} {k : κ}

theorem notMem_dom : k ∉ dom state ↔ state k = none := by
  unfold dom
  cases hk : state k with
  | none => simp [hk]
  | some v => simp [hk]

theorem Agree.dom_iff (h : Agree base state state') (hk : k ∈ dom base) : k ∈ dom state ↔ k ∈ dom state' := by
  unfold dom
  rw [Set.mem_ofPred_eq, Set.mem_ofPred_eq, h k hk]

/-- A base key that a merge does not have is gone. -/
theorem mem_gone [DecidablePred (· ∈ gone)] (h : merge base upper gone k = none) (hk : k ∈ dom base) : k ∈ gone := by
  by_contra hstay
  unfold merge at h
  rw [if_neg hstay, Option.or_eq_none_iff] at h
  exact notMem_dom.2 h.2 hk

/-- **Writing a state.** From a state that the layers tell, to one that has the base's keys as it had them: written above,
with what has to be gone pruned from a set that goes on holding the base's gone keys, it is what the layers tell. -/
theorem merge_write [DecidablePred (· ∈ gone)] {rest : Set κ} [DecidablePred (· ∈ rest)]
    (htold : ∀ k, merge base upper gone k = state k) (hsame : Agree base state state')
    (hgone : ∀ k ∈ dom base, k ∈ gone → k ∈ gone') (hrest : rest = pruned base state' gone') (k : κ) :
    merge base state' rest k = state' k := by
  subst hrest
  unfold merge
  by_cases hk : k ∈ pruned base state' gone'
  · rw [if_pos hk]
    exact (notMem_dom.1 hk.2.1).symm
  · rw [if_neg hk]
    cases hv : state' k with
    | some v => rfl
    | none =>
      -- the base does not have the key either, or it would be gone
      have hbase : base k = none := by
        rw [← notMem_dom]
        intro hdom
        have hnone : merge base upper gone k = none := by rw [htold k, hsame k hdom, hv]
        exact hk ⟨hgone k hdom (mem_gone hnone hdom), notMem_dom.2 hv, hdom⟩
      rw [hbase]
      rfl

/-- The same for the marked keys, where the base marks keys of its own only. -/
theorem marks_write [DecidablePred (· ∈ gone)] {marked upperMarks stateMarks stateMarks' : Set κ}
    (htold : ∀ k, merge base upper gone k = state k) (hmarks : marks marked upperMarks gone = stateMarks)
    (hsame : Agree base state state') (hsameMarks : ∀ k ∈ dom base, k ∈ stateMarks ↔ k ∈ stateMarks')
    (hown : marked ⊆ dom base) (hgone : ∀ k ∈ dom base, k ∈ gone' ↔ k ∈ gone) :
    marks marked stateMarks' (pruned base state' gone') = stateMarks' := by
  ext k
  constructor
  · rintro ⟨hbase | hup, hstay⟩
    · have hdom := hown hbase
      -- a key of the base that is gone has no value, so its mark would have been pruned
      have hnot : k ∉ gone := by
        intro hg
        have hnone : state k = none := by
          rw [← htold k]
          unfold merge
          rw [if_pos hg]
        exact hstay ⟨(hgone k hdom).2 hg, fun hd => notMem_dom.2 hnone ((hsame.dom_iff hdom).2 hd), hdom⟩
      rw [← hsameMarks k hdom, ← hmarks]
      exact ⟨Or.inl hbase, hnot⟩
    · exact hup
  · intro hup
    refine ⟨Or.inr hup, ?_⟩
    rintro ⟨hg, -, hdom⟩
    have hstate : k ∈ stateMarks := (hsameMarks k hdom).2 hup
    rw [← hmarks] at hstate
    exact hstate.2 ((hgone k hdom).1 hg)

end Layer
