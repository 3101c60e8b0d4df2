import Mathlib.Data.Finset.Basic
import Mathlib.Data.List.Basic

/-!
# Slots handed out once

A stream takes slots into use, uses them, gives them up and is sealed now and then. A slot is taken once in the life of
the stream; a solo slot is taken only while no other solo slot is in use. The monitor reads the stream act by act.

* `run_append`: the monitor over parts of a stream.
* `mem_spent`: the slots the monitor has marked are the slots the stream has taken.
* `Paired`, `Orderly`, `orderly_of_run`: what a stream that the monitor accepts has kept to.
* `Balanced`, `balanced_of_run`, `not_balanced_of_refused`: the same for what is dropped, and what the monitor refuses.
* `not_paired_of_retake`: a slot taken again.
-/

namespace Slots

inductive Act (κ : Type) where
  | take (k : κ) (solo : Bool)
  | use (k : κ)
  | drop (k : κ)
  | seal
  | other
  deriving DecidableEq, Repr

/-- The slots taken so far, those in use, and those in use that are solo. -/
structure Monitor (κ : Type) where
  spent : Finset κ
  live : Finset κ
  solo : Finset κ

namespace Monitor

variable {κ : Type} [DecidableEq κ]

def start : Monitor κ := ⟨∅, ∅, ∅⟩

/-- Whether an act is in place. -/
def allows (m : Monitor κ) : Act κ → Prop
  | .take k solo => k ∉ m.spent ∧ (solo = true → m.solo = ∅)
  | .use k | .drop k => k ∈ m.live
  | .seal => m.live = ∅
  | .other => True

instance (m : Monitor κ) (a : Act κ) : Decidable (m.allows a) := by
  cases a <;> unfold allows <;> infer_instance

def after (m : Monitor κ) : Act κ → Monitor κ
  | .take k solo => ⟨insert k m.spent, insert k m.live, if solo then insert k m.solo else m.solo⟩
  | .drop k => { m with live := m.live.erase k, solo := m.solo.erase k }
  | .use _ | .seal | .other => m

def run (m : Monitor κ) : List (Act κ) → Option (Monitor κ)
  | [] => some m
  | a :: as => if m.allows a then run (m.after a) as else none

variable {m m' : Monitor κ} {a : Act κ} {as bs : List (Act κ)} {k : κ}

theorem run_cons : m.run (a :: as) = some m' ↔ m.allows a ∧ (m.after a).run as = some m' := by
  have hrun : m.run (a :: as) = if m.allows a then (m.after a).run as else none := rfl
  rw [hrun]
  by_cases h : m.allows a
  · rw [if_pos h]
    exact ⟨fun h' => ⟨h, h'⟩, fun h' => h'.2⟩
  · rw [if_neg h]
    exact ⟨nofun, fun h' => absurd h'.1 h⟩

theorem run_append : m.run (as ++ bs) = some m' ↔ ∃ m₁, m.run as = some m₁ ∧ m₁.run bs = some m' := by
  induction as generalizing m with
  | nil => exact ⟨fun h => ⟨m, rfl, h⟩, fun ⟨m₁, h₁, h⟩ => by cases h₁; exact h⟩
  | cons a as ih =>
    rw [List.cons_append, run_cons, ih]
    constructor
    · rintro ⟨ha, m₁, h₁, h₂⟩
      exact ⟨m₁, run_cons.2 ⟨ha, h₁⟩, h₂⟩
    · rintro ⟨m₁, h₁, h₂⟩
      obtain ⟨ha, h₁⟩ := run_cons.1 h₁
      exact ⟨ha, m₁, h₁, h₂⟩

/-- The monitor around one act of the stream. -/
theorem run_split (h : m.run (as ++ a :: bs) = some m') :
    ∃ m₁, m.run as = some m₁ ∧ m₁.allows a ∧ (m₁.after a).run bs = some m' := by
  obtain ⟨m₁, hpre, hpost⟩ := run_append.1 h
  obtain ⟨ha, hpost⟩ := run_cons.1 hpost
  exact ⟨m₁, hpre, ha, hpost⟩

theorem mem_spent_run (h : m.run as = some m') : k ∈ m'.spent ↔ k ∈ m.spent ∨ ∃ solo, .take k solo ∈ as := by
  induction as generalizing m with
  | nil =>
    cases h
    simp
  | cons a as ih =>
    obtain ⟨-, hrun⟩ := run_cons.1 h
    rw [ih hrun]
    cases a with
    | take k' solo =>
      simp only [after, Finset.mem_insert, List.mem_cons, Act.take.injEq]
      constructor
      · rintro ((rfl | hk) | ⟨s, hs⟩)
        · exact Or.inr ⟨solo, Or.inl ⟨rfl, rfl⟩⟩
        · exact Or.inl hk
        · exact Or.inr ⟨s, Or.inr hs⟩
      · rintro (hk | ⟨s, ⟨rfl, -⟩ | hs⟩)
        · exact Or.inl (Or.inr hk)
        · exact Or.inl (Or.inl rfl)
        · exact Or.inr ⟨s, hs⟩
    | _ => simp [after]

/-- **The slots marked are the slots taken.** -/
theorem mem_spent (h : start.run as = some m') : k ∈ m'.spent ↔ ∃ solo, .take k solo ∈ as := by
  rw [mem_spent_run h]
  unfold start
  simp

/-- What is in use at the end was in use at the start and not dropped, or was taken and not dropped since. -/
theorem live_run (h : m.run as = some m') (hk : k ∈ m'.live) :
    (k ∈ m.live ∧ .drop k ∉ as) ∨ ∃ before solo mid, as = before ++ .take k solo :: mid ∧ .drop k ∉ mid := by
  induction as generalizing m with
  | nil =>
    cases h
    exact Or.inl ⟨hk, by simp⟩
  | cons a as ih =>
    obtain ⟨-, hrun⟩ := run_cons.1 h
    rcases ih hrun with ⟨hlive, hdrop⟩ | ⟨before, solo, mid, rfl, hdrop⟩
    · cases a with
      | take k' solo =>
        rcases Finset.mem_insert.1 hlive with rfl | hlive
        · exact Or.inr ⟨[], solo, as, rfl, hdrop⟩
        · exact Or.inl ⟨hlive, by simpa using hdrop⟩
      | drop k' =>
        obtain ⟨hne, hlive⟩ := Finset.mem_erase.1 hlive
        exact Or.inl ⟨hlive, by simpa using ⟨hne, hdrop⟩⟩
      | _ => exact Or.inl ⟨hlive, by simpa using hdrop⟩
    · exact Or.inr ⟨a :: before, solo, mid, rfl, hdrop⟩

/-- What was in use and is not at the end has been dropped. -/
theorem dropped_of_live (h : m.run as = some m') (hk : k ∈ m.live) (hend : k ∉ m'.live) : .drop k ∈ as := by
  induction as generalizing m with
  | nil =>
    cases h
    exact absurd hk hend
  | cons a as ih =>
    obtain ⟨-, hrun⟩ := run_cons.1 h
    cases a with
    | drop k' =>
      by_cases he : k = k'
      · exact he ▸ List.mem_cons_self
      · exact List.mem_cons_of_mem _ (ih hrun (Finset.mem_erase.2 ⟨he, hk⟩))
    | take k' solo => exact List.mem_cons_of_mem _ (ih hrun (Finset.mem_insert_of_mem hk))
    | _ => exact List.mem_cons_of_mem _ (ih hrun hk)

/-- The same for solo slots. -/
theorem dropped_of_solo (h : m.run as = some m') (hk : k ∈ m.solo) (hend : k ∉ m'.solo) : .drop k ∈ as := by
  induction as generalizing m with
  | nil =>
    cases h
    exact absurd hk hend
  | cons a as ih =>
    obtain ⟨-, hrun⟩ := run_cons.1 h
    cases a with
    | drop k' =>
      by_cases he : k = k'
      · exact he ▸ List.mem_cons_self
      · exact List.mem_cons_of_mem _ (ih hrun (Finset.mem_erase.2 ⟨he, hk⟩))
    | take k' solo =>
      have hmem : k ∈ (m.after (.take k' solo)).solo := by
        unfold after
        dsimp only
        split
        · exact Finset.mem_insert_of_mem hk
        · exact hk
      exact List.mem_cons_of_mem _ (ih hrun hmem)
    | _ => exact List.mem_cons_of_mem _ (ih hrun hk)

/-- What is in use stays so until it is dropped. -/
theorem live_kept (h : m.run as = some m') (hk : k ∈ m.live) (hdrop : .drop k ∉ as) : k ∈ m'.live := by
  by_contra hend
  exact hdrop (dropped_of_live h hk hend)

/-- **The slots in use are those taken and not dropped since.** -/
theorem mem_live (h : start.run as = some m') :
    k ∈ m'.live ↔ ∃ before solo mid, as = before ++ .take k solo :: mid ∧ .drop k ∉ mid := by
  constructor
  · intro hk
    rcases live_run h hk with ⟨hnone, -⟩ | hsome
    · exact absurd hnone (Finset.notMem_empty k)
    · exact hsome
  · rintro ⟨before, solo, mid, rfl, hdrop⟩
    obtain ⟨m₁, -, -, hmid⟩ := run_split h
    exact live_kept hmid (Finset.mem_insert_self k m₁.live) hdrop

end Monitor

variable {κ : Type}

/-- **A stream in pairs.** A slot is taken once, used while it is taken, and dropped ahead of a seal. -/
structure Paired (as : List (Act κ)) : Prop where
  fresh : ∀ pre k solo post, as = pre ++ .take k solo :: post → ∀ solo', .take k solo' ∉ pre
  used : ∀ pre k post, as = pre ++ .use k :: post →
    ∃ before solo mid, pre = before ++ .take k solo :: mid ∧ .drop k ∉ mid
  closed : ∀ pre post, as = pre ++ .seal :: post → ∀ before k solo mid, pre = before ++ .take k solo :: mid → .drop k ∈ mid

/-- **A stream in order**: in pairs, and solo slots are taken one after the other. -/
structure Orderly (as : List (Act κ)) : Prop extends Paired as where
  alone : ∀ pre k post, as = pre ++ .take k true :: post → ∀ before k' mid, pre = before ++ .take k' true :: mid →
    .drop k' ∈ mid

/-- **A stream in balance**: in pairs, and what is dropped is in use. -/
structure Balanced (as : List (Act κ)) : Prop extends Paired as where
  dropped : ∀ pre k post, as = pre ++ .drop k :: post →
    ∃ before solo mid, pre = before ++ .take k solo :: mid ∧ .drop k ∉ mid

variable [DecidableEq κ]

/-- **What the monitor accepts is in order.** -/
theorem orderly_of_run {as : List (Act κ)} {m : Monitor κ} (h : Monitor.start.run as = some m) : Orderly as := by
  refine ⟨⟨?_, ?_, ?_⟩, ?_⟩
  · rintro pre k solo post rfl solo' hmem
    obtain ⟨m₁, hpre, hallow, -⟩ := Monitor.run_split h
    exact hallow.1 ((Monitor.mem_spent hpre).2 ⟨solo', hmem⟩)
  · rintro pre k post rfl
    obtain ⟨m₁, hpre, hallow, -⟩ := Monitor.run_split h
    rcases Monitor.live_run hpre hallow with ⟨hnone, -⟩ | hsome
    · exact absurd hnone (Finset.notMem_empty k)
    · exact hsome
  · rintro pre post rfl before k solo mid rfl
    obtain ⟨m₁, hpre, hallow, -⟩ := Monitor.run_split h
    obtain ⟨m₂, -, -, hmid⟩ := Monitor.run_split hpre
    have hend : k ∉ m₁.live := by
      rw [show m₁.live = ∅ from hallow]
      exact Finset.notMem_empty k
    exact Monitor.dropped_of_live hmid (Finset.mem_insert_self k m₂.live) hend
  · rintro pre k post rfl before k' mid rfl
    obtain ⟨m₁, hpre, hallow, -⟩ := Monitor.run_split h
    obtain ⟨m₂, -, -, hmid⟩ := Monitor.run_split hpre
    have hend : k' ∉ m₁.solo := by
      rw [hallow.2 rfl]
      exact Finset.notMem_empty k'
    exact Monitor.dropped_of_solo hmid (Finset.mem_insert_self k' m₂.solo) hend

theorem balanced_of_run {as : List (Act κ)} {m : Monitor κ} (h : Monitor.start.run as = some m) : Balanced as := by
  refine ⟨(orderly_of_run h).toPaired, ?_⟩
  rintro pre k post rfl
  obtain ⟨m₁, hpre, hallow, -⟩ := Monitor.run_split h
  exact (Monitor.mem_live hpre).1 hallow

/-- An act other than a solo one that the monitor refuses, behind what it has accepted. -/
theorem not_balanced_of_refused {as cs : List (Act κ)} {m : Monitor κ} {a : Act κ} (h : Monitor.start.run as = some m)
    (hn : ¬ m.allows a) (hsolo : ∀ k, a ≠ .take k true) : ¬ Balanced (as ++ a :: cs) := by
  intro hb
  cases a with
  | take k solo =>
    cases solo with
    | true => exact hsolo k rfl
    | false =>
      refine hn ⟨fun hk => ?_, nofun⟩
      obtain ⟨solo', hmem⟩ := (Monitor.mem_spent h).1 hk
      exact hb.fresh as k false cs rfl solo' hmem
  | use k => exact hn ((Monitor.mem_live h).2 (hb.used as k cs rfl))
  | drop k => exact hn ((Monitor.mem_live h).2 (hb.dropped as k cs rfl))
  | «seal» =>
    refine hn (Finset.eq_empty_of_forall_notMem fun k hk => ?_)
    obtain ⟨before, solo, mid, hpre, hdrop⟩ := (Monitor.mem_live h).1 hk
    exact hdrop (hb.closed as cs rfl before k solo mid hpre)
  | other => exact hn trivial

/-- A slot taken once more behind what the monitor has accepted. -/
theorem not_paired_of_retake {as cs : List (Act κ)} {m : Monitor κ} {k : κ} {solo : Bool}
    (h : Monitor.start.run as = some m) (hk : k ∈ m.spent) : ¬ Paired (as ++ .take k solo :: cs) := by
  intro hp
  obtain ⟨solo', hmem⟩ := (Monitor.mem_spent h).1 hk
  exact hp.fresh as k solo cs rfl solo' hmem

end Slots
