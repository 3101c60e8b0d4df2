import Mathlib.Data.Finset.Basic

/-!
# Brackets

A stream opens keys, uses them while they are open, closes them, and is sealed. The monitor reads it bracket by
bracket: nothing may be open at a seal, and a strict one has every bracket in its place besides.

* `Brackets.closed`: what is open at any time is closed ahead of the next seal.
* `Brackets.closedOnce`: in a strict stream it is closed once, and there are no brackets behind the seal.
-/

namespace Busbar

inductive Bracket (κ : Type*) where
  | opens (k : κ)
  | inside (k : κ)
  | closes (k : κ)
  | seals
  | other
  deriving DecidableEq, Repr

structure Brackets (κ : Type*) where
  held : Finset κ
  isSealed : Bool

namespace Brackets

variable {κ : Type*} [DecidableEq κ]

def start : Brackets κ := ⟨∅, false⟩

/-- Whether a bracket is in place. -/
def allows (strict : Bool) (s : Brackets κ) : Bracket κ → Bool
  | .opens k => !strict || (!s.isSealed && k ∉ s.held)
  | .inside k | .closes k => !strict || (!s.isSealed && k ∈ s.held)
  | .seals => s.held = ∅
  | .other => true

def after (s : Brackets κ) : Bracket κ → Brackets κ
  | .opens k => { s with held := insert k s.held }
  | .closes k => { s with held := s.held.erase k }
  | .seals => { s with isSealed := true }
  | .inside _ | .other => s

def step (strict : Bool) (s : Brackets κ) (b : Bracket κ) : Option (Brackets κ) :=
  if s.allows strict b then some (s.after b) else none

def run (strict : Bool) (s : Brackets κ) : List (Bracket κ) → Option (Brackets κ)
  | [] => some s
  | b :: bs => (s.step strict b).bind fun s => run strict s bs

variable {strict : Bool} {s s' : Brackets κ} {k : κ}

theorem step_eq_some {b : Bracket κ} : s.step strict b = some s' ↔ s.allows strict b = true ∧ s' = s.after b := by
  unfold step
  split
  · rename_i h
    simp only [Option.some.injEq, h, true_and]
    exact eq_comm
  · rename_i h
    simp [h]

theorem run_cons {b : Bracket κ} {bs : List (Bracket κ)} : s.run strict (b :: bs) = some s' ↔
    s.allows strict b = true ∧ (s.after b).run strict bs = some s' := by
  simp only [run, Option.bind_eq_some_iff, step_eq_some]
  constructor
  · rintro ⟨_, ⟨hb, rfl⟩, h⟩
    exact ⟨hb, h⟩
  · rintro ⟨hb, h⟩
    exact ⟨_, ⟨hb, rfl⟩, h⟩

theorem run_append {bs cs : List (Bracket κ)} : s.run strict (bs ++ cs) = some s' ↔
    ∃ s₁, s.run strict bs = some s₁ ∧ s₁.run strict cs = some s' := by
  induction bs generalizing s with
  | nil => simp [run]
  | cons b bs ih =>
    rw [List.cons_append, run_cons, ih]
    constructor
    · rintro ⟨hb, s₁, h₁, h₂⟩
      exact ⟨s₁, run_cons.2 ⟨hb, h₁⟩, h₂⟩
    · rintro ⟨s₁, h₁, h₂⟩
      obtain ⟨hb, h₁⟩ := run_cons.1 h₁
      exact ⟨hb, s₁, h₁, h₂⟩

/-- The monitor around one bracket of the stream. -/
theorem run_split {pre post : List (Bracket κ)} {b : Bracket κ} (h : s.run strict (pre ++ b :: post) = some s') :
    ∃ s₁, s.run strict pre = some s₁ ∧ s₁.allows strict b = true ∧ (s₁.after b).run strict post = some s' := by
  obtain ⟨s₁, hpre, hpost⟩ := run_append.1 h
  obtain ⟨hb, hpost⟩ := run_cons.1 hpost
  exact ⟨s₁, hpre, hb, hpost⟩

theorem mem_held_after {b : Bracket κ} (hb : b ≠ .closes k) (hk : k ∈ s.held) : k ∈ (s.after b).held := by
  cases b with
  | opens k' => exact Finset.mem_insert_of_mem hk
  | closes k' => exact Finset.mem_erase.2 ⟨fun he => hb (he ▸ rfl), hk⟩
  | _ => exact hk

theorem mem_held_of_after {b : Bracket κ} (hb : b ≠ .opens k) (hk : k ∈ (s.after b).held) :
    b ≠ .closes k ∧ k ∈ s.held := by
  cases b with
  | opens k' =>
    have hne : k ≠ k' := fun he => hb (he ▸ rfl)
    exact ⟨nofun, (Finset.mem_insert.1 hk).resolve_left hne⟩
  | closes k' =>
    obtain ⟨hne, hk⟩ := Finset.mem_erase.1 hk
    exact ⟨fun he => hne (by cases he; rfl), hk⟩
  | _ => exact ⟨nofun, hk⟩

/-- What is held and is not at the end is closed, ahead of the next seal and, in a strict stream, of being opened
again. -/
theorem closes_of_held {bs : List (Bracket κ)} (h : s.run strict bs = some s') (hk : k ∈ s.held)
    (hend : k ∉ s'.held) : ∃ mid rest, bs = mid ++ .closes k :: rest ∧ .closes k ∉ mid ∧ .seals ∉ mid ∧
      (strict = true → .opens k ∉ mid) := by
  induction bs generalizing s with
  | nil =>
    cases h
    exact absurd hk hend
  | cons b bs ih =>
    obtain ⟨hb, hrun⟩ := run_cons.1 h
    by_cases hclose : b = .closes k
    · subst hclose
      exact ⟨[], bs, rfl, by simp, by simp, by simp⟩
    obtain ⟨mid, rest, rfl, hc, hs, ho⟩ := ih hrun (mem_held_after hclose hk)
    refine ⟨b :: mid, rest, rfl, ?_, ?_, fun hstrict => ?_⟩
    · simpa using ⟨Ne.symm hclose, hc⟩
    · have hseal : b ≠ .seals := by
        rintro rfl
        have hempty : s.held = ∅ := by simpa [allows] using hb
        rw [hempty] at hk
        exact absurd hk (Finset.notMem_empty k)
      simpa using ⟨Ne.symm hseal, hs⟩
    · have hopen : b ≠ .opens k := by
        rintro rfl
        simp [allows, hstrict, hk] at hb
      simpa using ⟨Ne.symm hopen, ho hstrict⟩

/-- What is held and was not at the start has been opened, and neither opened again nor closed since. -/
theorem opens_of_held {bs : List (Bracket κ)} (h : s.run strict bs = some s') (hk : k ∈ s'.held)
    (hstart : k ∉ s.held) : ∃ pre mid, bs = pre ++ .opens k :: mid ∧ .opens k ∉ mid ∧ .closes k ∉ mid := by
  induction bs using List.reverseRecOn generalizing s' with
  | nil =>
    cases h
    exact absurd hk hstart
  | append_singleton bs b ih =>
    obtain ⟨s₁, h₁, -, hlast⟩ := run_split h
    cases hlast
    by_cases hopen : b = .opens k
    · subst hopen
      exact ⟨bs, [], rfl, by simp, by simp⟩
    obtain ⟨hclose, hk₁⟩ := mem_held_of_after hopen hk
    obtain ⟨pre, mid, rfl, ho, hc⟩ := ih h₁ hk₁
    refine ⟨pre, mid ++ [b], by simp, ?_, ?_⟩
    · simpa using ⟨ho, Ne.symm hopen⟩
    · simpa using ⟨hc, Ne.symm hclose⟩

/-- A sealed strict stream has no brackets left. -/
theorem eq_of_isSealed {bs : List (Bracket κ)} (h : s.run true bs = some s') (hs : s.isSealed = true) :
    ∀ b ∈ bs, b = .seals ∨ b = .other := by
  induction bs generalizing s with
  | nil => simp
  | cons b bs ih =>
    obtain ⟨hb, hrun⟩ := run_cons.1 h
    have hhead : b = .seals ∨ b = .other := by
      cases b with
      | seals => exact Or.inl rfl
      | other => exact Or.inr rfl
      | _ => simp [allows, hs] at hb
    have hs' : (s.after b).isSealed = true := by
      cases b with
      | seals => rfl
      | _ => exact hs
    intro b' hb'
    rcases List.mem_cons.1 hb' with rfl | hmem
    · exact hhead
    · exact ih hrun hs' b' hmem

/-! ## Streams -/

/-- Every key that is opened is closed ahead of the next seal. -/
def Closed (bs : List (Bracket κ)) : Prop :=
  ∀ pre k post, bs = pre ++ .opens k :: post → ∃ mid rest, post = mid ++ .closes k :: rest ∧ .seals ∉ mid

/-- It is closed once, used while it is open, and no bracket comes behind the seal. -/
structure ClosedOnce (bs : List (Bracket κ)) : Prop where
  closed : ∀ pre k post, bs = pre ++ .opens k :: post →
    ∃ mid rest, post = mid ++ .closes k :: rest ∧ .closes k ∉ mid ∧ .opens k ∉ mid ∧ .seals ∉ mid
  opened : ∀ pre k post, bs = pre ++ .closes k :: post →
    ∃ before mid, pre = before ++ .opens k :: mid ∧ .opens k ∉ mid ∧ .closes k ∉ mid
  used : ∀ pre k post, bs = pre ++ .inside k :: post →
    ∃ before mid, pre = before ++ .opens k :: mid ∧ .opens k ∉ mid ∧ .closes k ∉ mid
  last : ∀ pre post, bs = pre ++ .seals :: post → ∀ b ∈ post, b = .seals ∨ b = .other

theorem closed {bs : List (Bracket κ)} (h : start.run strict bs = some s') (hend : s'.held = ∅) : Closed bs := by
  rintro pre k post rfl
  obtain ⟨s₁, -, -, hpost⟩ := run_split h
  obtain ⟨mid, rest, hmid, -, hseal, -⟩ := closes_of_held (k := k) hpost (Finset.mem_insert_self k s₁.held)
    (by rw [hend]; exact Finset.notMem_empty k)
  exact ⟨mid, rest, hmid, hseal⟩

theorem closedOnce {bs : List (Bracket κ)} (h : start.run true bs = some s') (hend : s'.held = ∅) :
    ClosedOnce bs := by
  have hnone : ∀ k : κ, k ∉ (start : Brackets κ).held := fun k => Finset.notMem_empty k
  refine ⟨?_, ?_, ?_, ?_⟩
  · rintro pre k post rfl
    obtain ⟨s₁, -, -, hpost⟩ := run_split h
    obtain ⟨mid, rest, hmid, hc, hseal, ho⟩ := closes_of_held (k := k) hpost (Finset.mem_insert_self k s₁.held)
      (by rw [hend]; exact Finset.notMem_empty k)
    exact ⟨mid, rest, hmid, hc, ho rfl, hseal⟩
  · rintro pre k post rfl
    obtain ⟨s₁, hpre, hb, -⟩ := run_split h
    have hk : k ∈ s₁.held := by simp [allows] at hb; exact hb.2
    exact opens_of_held hpre hk (hnone k)
  · rintro pre k post rfl
    obtain ⟨s₁, hpre, hb, -⟩ := run_split h
    have hk : k ∈ s₁.held := by simp [allows] at hb; exact hb.2
    exact opens_of_held hpre hk (hnone k)
  · rintro pre post rfl
    obtain ⟨s₁, -, -, hpost⟩ := run_split h
    exact eq_of_isSealed hpost rfl

/-- Closing exactly what is held leaves nothing. -/
theorem run_closes {ks : List κ} (hnd : ks.Nodup) (hheld : s.held = ks.toFinset)
    (hs : strict = true → s.isSealed = true → ks = []) :
    s.run strict (ks.map .closes) = some { s with held := ∅ } := by
  induction ks generalizing s with
  | nil =>
    obtain ⟨held, isSealed⟩ := s
    cases hheld
    rfl
  | cons k ks ih =>
    obtain ⟨hk, hnd⟩ := List.nodup_cons.1 hnd
    rw [List.map_cons, run_cons]
    refine ⟨?_, ?_⟩
    · cases hst : strict with
      | false => rfl
      | true =>
        have hopen : s.isSealed = false := by
          by_contra hne
          cases hs hst (by simpa using hne)
        simp [allows, hopen, hheld]
    · have herase : (s.held.erase k) = ks.toFinset := by
        rw [hheld, List.toFinset_cons, Finset.erase_insert (by simpa using hk)]
      refine ih (s := s.after (.closes k)) hnd herase fun hst hseal => ?_
      cases hs hst hseal

end Brackets

end Busbar
