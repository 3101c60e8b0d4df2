import Mathlib.Logic.Function.Basic

/-!
# Files and what a power loss leaves of them

A volume holds files under names. What the processes see is ahead of what is on disk: an entry gets there when its directory
is synced, the contents of a file when the file is. Files have no links: one name, one file.

* `Volume.AfterLoss`: what may stand under a name after a power loss.
* `Volume.Settled.afterLoss`: an entry that is on disk with its contents stays.
* `run_invariant`, `run_append`, `run_progress`: steps that may fail, one after the other, and the volumes on the way.
-/

structure Volume.File (β : Type) where
  content : β
  /-- Whether the contents are on disk. -/
  synced : Bool

/-- The entries that the processes see, and those on disk. -/
structure Volume (κ β : Type) where
  live : κ → Option (Volume.File β)
  disk : κ → Option (Volume.File β)

namespace Volume

variable {κ β : Type} [DecidableEq κ]

/-- What a reader finds under a name. -/
def read (v : Volume κ β) (k : κ) : Option β := (v.live k).map File.content

def put (v : Volume κ β) (k : κ) (f : Option (File β)) : Volume κ β := { v with live := Function.update v.live k f }

def remove (v : Volume κ β) (k : κ) : Volume κ β := v.put k none

def syncFile (v : Volume κ β) (k : κ) : Volume κ β := v.put k ((v.live k).map fun f => { f with synced := true })

/-- The file under `k` gets the name `k'`, whatever had it before. -/
def rename (v : Volume κ β) (k k' : κ) : Volume κ β := (v.put k' (v.live k)).put k none

/-- The entries of a directory go to disk. -/
def syncDir (v : Volume κ β) (inDir : κ → Bool) : Volume κ β :=
  { v with disk := fun k => if inDir k then v.live k else v.disk k }

/-- What may be left of an entry: the contents only if they are on disk. -/
def Left (e left : Option (File β)) : Prop :=
  match e with
  | none => left = none
  | some f => ∃ g, left = some g ∧ (f.synced = true → g = f)

/-- **What may stand under a name after a power loss**: the entry on disk, or the one that was to replace it. -/
def AfterLoss (v : Volume κ β) (k : κ) (left : Option (File β)) : Prop := Left (v.live k) left ∨ Left (v.disk k) left

/-- An entry that is on disk, with its contents. -/
structure Settled (v : Volume κ β) (k : κ) : Prop where
  entry : v.disk k = v.live k
  content : ∀ f, v.live k = some f → f.synced = true

variable {v w : Volume κ β} {k k' : κ} {f : Option (File β)}

@[simp] theorem live_put_self : (v.put k f).live k = f := by
  unfold put
  simp

theorem live_put_of_ne (h : k' ≠ k) : (v.put k f).live k' = v.live k' := by
  unfold put
  simp [h]

@[simp] theorem disk_put : (v.put k f).disk = v.disk := rfl

@[simp] theorem live_remove_self : (v.remove k).live k = none := live_put_self

theorem live_remove_of_ne (h : k' ≠ k) : (v.remove k).live k' = v.live k' := live_put_of_ne h

theorem live_rename (h : k ≠ k') : (v.rename k k').live k' = v.live k ∧ (v.rename k k').live k = none := by
  unfold rename
  refine ⟨?_, live_put_self⟩
  rw [live_put_of_ne h.symm, live_put_self]

theorem live_rename_of_ne {j : κ} (h : j ≠ k) (h' : j ≠ k') : (v.rename k k').live j = v.live j := by
  unfold rename
  rw [live_put_of_ne h, live_put_of_ne h']

/-- What is left of an entry whose contents are on disk. -/
theorem Left.eq {e left : Option (File β)} (h : Left e left) (hsynced : ∀ f, e = some f → f.synced = true) : left = e := by
  cases e with
  | none => exact h
  | some f =>
    obtain ⟨g, rfl, hg⟩ := h
    rw [hg (hsynced f rfl)]

omit [DecidableEq κ] in
theorem Settled.afterLoss (h : v.Settled k) {left : Option (File β)} (hl : v.AfterLoss k left) : left = v.live k := by
  rcases hl with hl | hl
  · exact hl.eq h.content
  · rw [h.entry] at hl
    exact hl.eq h.content

/-! ## Steps that may fail -/

/-- A step: whether it succeeded, and the volume behind it. -/
abbrev Step (κ β : Type) := Volume κ β → Bool × Volume κ β

/-- The steps up to the first that fails: whether none did, the volumes on the way and the last one. -/
def run (v : Volume κ β) : List (Step κ β) → Bool × List (Volume κ β) × Volume κ β
  | [] => (true, [], v)
  | step :: steps =>
    if (step v).1 then
      let r := run (step v).2 steps
      (r.1, v :: r.2.1, r.2.2)
    else (false, [v], (step v).2)

omit [DecidableEq κ]

variable {step : Step κ β} {steps steps' : List (Step κ β)}

theorem run_cons_ok (h : (step v).1 = true) : v.run (step :: steps) =
    (((step v).2.run steps).1, v :: ((step v).2.run steps).2.1, ((step v).2.run steps).2.2) := if_pos h

theorem run_cons_failed (h : (step v).1 = false) : v.run (step :: steps) = (false, [v], (step v).2) :=
  if_neg (by simp [h])

/-- **Invariant rule.** What every step keeps, failing or not, holds all the way. -/
theorem run_invariant {I : Volume κ β → Prop} (hstep : ∀ step ∈ steps, ∀ u, I u → I (step u).2) (h : I v) :
    (∀ u ∈ (v.run steps).2.1, I u) ∧ I (v.run steps).2.2 := by
  induction steps generalizing v with
  | nil => exact ⟨nofun, h⟩
  | cons step steps ih =>
    have hnext := hstep step List.mem_cons_self v h
    cases hok : (step v).1 with
    | true =>
      obtain ⟨hpassed, hlast⟩ := ih (fun s hs => hstep s (List.mem_cons_of_mem step hs)) hnext
      rw [run_cons_ok hok]
      exact ⟨List.forall_mem_cons.2 ⟨h, hpassed⟩, hlast⟩
    | false =>
      rw [run_cons_failed hok]
      exact ⟨List.forall_mem_cons.2 ⟨h, nofun⟩, hnext⟩

/-- **Steps in two parts**: the second goes on from the volume that the first has come to. -/
theorem run_append (steps steps' : List (Step κ β)) (v : Volume κ β) :
    ((v.run steps).1 = false ∧ v.run (steps ++ steps') = v.run steps) ∨
      (v.run steps).1 = true ∧ v.run (steps ++ steps') = (((v.run steps).2.2.run steps').1,
        (v.run steps).2.1 ++ ((v.run steps).2.2.run steps').2.1, ((v.run steps).2.2.run steps').2.2) := by
  induction steps generalizing v with
  | nil => exact Or.inr ⟨rfl, rfl⟩
  | cons step steps ih =>
    rw [List.cons_append]
    cases hok : (step v).1 with
    | true =>
      rw [run_cons_ok hok, run_cons_ok hok]
      rcases ih (step v).2 with ⟨hfail, heq⟩ | ⟨hrest, heq⟩
      · exact Or.inl ⟨hfail, by rw [heq]⟩
      · exact Or.inr ⟨hrest, by rw [heq]; rfl⟩
    | false =>
      rw [run_cons_failed hok, run_cons_failed hok]
      exact Or.inl ⟨rfl, rfl⟩

/-- **Progress rule.** A run that succeeds goes on from where its first step came to. -/
theorem run_progress {P : Volume κ β → Prop} (hstep : (step v).1 = true → P (step v).2)
    (h : (v.run (step :: steps)).1 = true) : ∃ u, P u ∧ (u.run steps).1 = true ∧
      (v.run (step :: steps)).2.2 = (u.run steps).2.2 := by
  cases hok : (step v).1 with
  | true =>
    rw [run_cons_ok hok] at h ⊢
    exact ⟨(step v).2, hstep hok, h, rfl⟩
  | false =>
    rw [run_cons_failed hok] at h
    cases h

end Volume
