import Mathlib.Data.Nat.Init
import Mathlib.Order.Basic

/-!
# A cap for each window, from one counter

One counter for windows that follow each other: it is for the newest window that was touched, a later window starts it anew,
and it may be dropped when its window has long been over. What is charged to a window is not kept anywhere else, so the cap
of a window holds only as long as no charge comes back to a window whose counter may have been dropped.

* `Counter.roll`: the counter that a window finds.
* `Bounded`: the cap, and what the counter knows of the windows that were not dropped.
* `Bounded.start`, `Bounded.touch`, `Bounded.charge`, `Bounded.drop`: the operations keep it.
-/

namespace WindowCap

/-- A counter, with the start of its window. -/
@[ext]
structure Counter where
  start : Nat
  used : Nat
  deriving DecidableEq, Repr

/-- The counter that a window finds: its own, a newer window's, or a new one. -/
def Counter.roll (cell : Option Counter) (w : Nat) : Counter :=
  match cell with
  | some c => if c.start < w then ⟨w, 0⟩ else c
  | none => ⟨w, 0⟩

variable {cap horizon : Nat} {base total : Nat → Nat} {cell : Option Counter} {drops : List Nat} {w : Nat}

/-- The window is younger than every drop. -/
def Live (horizon : Nat) (drops : List Nat) (w : Nat) : Prop := ∀ d ∈ drops, d < w + horizon

/-- **The cap of every window**, and what the counter knows. `total` is what was charged to a window, `base` what was charged
before. A live window's total is in the counter if the counter is its own, and nothing if the counter is of an earlier window
or not there. -/
structure Bounded (cap horizon : Nat) (base total : Nat → Nat) (cell : Option Counter) (drops : List Nat) : Prop where
  capped : ∀ w, total w ≤ max cap (base w)
  own : ∀ w c, Live horizon drops w → cell = some c → c.start = w → total w ≤ c.used
  ahead : ∀ w c, Live horizon drops w → cell = some c → c.start < w → total w = 0
  absent : ∀ w, Live horizon drops w → cell = none → total w = 0

theorem Live.mono {w' : Nat} (h : Live horizon drops w) (hle : w ≤ w') : Live horizon drops w' :=
  fun d hd => Nat.lt_of_lt_of_le (h d hd) (Nat.add_le_add_right hle horizon)

theorem roll_cases (cell : Option Counter) (w : Nat) :
    Counter.roll cell w = ⟨w, 0⟩ ∧ (∀ c, cell = some c → c.start < w) ∨
      ∃ c, cell = some c ∧ Counter.roll cell w = c ∧ w ≤ c.start := by
  unfold Counter.roll
  cases cell with
  | none => exact .inl ⟨rfl, fun c hc => by cases hc⟩
  | some c =>
    dsimp only
    by_cases hlt : c.start < w
    · rw [if_pos hlt]
      refine .inl ⟨rfl, fun c' hc' => ?_⟩
      cases hc'
      exact hlt
    · rw [if_neg hlt]
      exact .inr ⟨c, rfl, rfl, Nat.le_of_not_lt hlt⟩

/-- A counter that holds what was charged before. -/
theorem Bounded.start (hown : ∀ c, cell = some c → base c.start ≤ c.used)
    (hother : ∀ w, (∀ c, cell = some c → c.start ≠ w) → base w = 0) : Bounded cap horizon base base cell [] where
  capped w := Nat.le_max_right cap (base w)
  own := by
    rintro w c - hc rfl
    exact hown c hc
  ahead := by
    rintro w c - hc hlt
    refine hother w fun c' hc' => ?_
    rw [hc, Option.some.injEq] at hc'
    rw [← hc']
    exact Nat.ne_of_lt hlt
  absent := by
    rintro w - hnone
    refine hother w fun c hc => ?_
    rw [hnone] at hc
    cases hc

/-- What a window finds in its counter. -/
theorem Bounded.rolled (h : Bounded cap horizon base total cell drops) (w : Nat) :
    (∀ w', Live horizon drops w' → (Counter.roll cell w).start = w' → total w' ≤ (Counter.roll cell w).used) ∧
      ∀ w', Live horizon drops w' → (Counter.roll cell w).start < w' → total w' = 0 := by
  rcases roll_cases cell w with ⟨hnew, hbefore⟩ | ⟨c, hc, hsame, -⟩
  · -- a new counter is ahead of the old one
    have hnothing : ∀ w', w ≤ w' → Live horizon drops w' → total w' = 0 := by
      intro w' hle hlive
      cases hcell : cell with
      | none => exact h.absent w' hlive hcell
      | some c => exact h.ahead w' c hlive hcell (Nat.lt_of_lt_of_le (hbefore c hcell) hle)
    rw [hnew]
    refine ⟨fun w' hlive hw => ?_, fun w' hlive hlt => hnothing w' (Nat.le_of_lt hlt) hlive⟩
    exact Nat.le_of_eq (hnothing w' (Nat.le_of_eq hw) hlive)
  · rw [hsame]
    exact ⟨fun w' hlive hw => h.own w' c hlive hc hw, fun w' hlive hlt => h.ahead w' c hlive hc hlt⟩

/-- A window that is touched without a charge. -/
theorem Bounded.touch (h : Bounded cap horizon base total cell drops) (w : Nat) :
    Bounded cap horizon base total (some (Counter.roll cell w)) drops where
  capped := h.capped
  own := by
    rintro w' c hlive hc hw
    cases hc
    exact (h.rolled w).1 w' hlive hw
  ahead := by
    rintro w' c hlive hc hlt
    cases hc
    exact (h.rolled w).2 w' hlive hlt
  absent := by
    rintro w' - hnone
    cases hnone

/-- **A charge** to a live window that finds room under the cap: it goes to the window of the counter it finds. -/
theorem Bounded.charge (h : Bounded cap horizon base total cell drops) (hlive : Live horizon drops w)
    (hroom : (Counter.roll cell w).used + 1 ≤ cap) :
    Bounded cap horizon base (Function.update total (Counter.roll cell w).start (total (Counter.roll cell w).start + 1))
      (some ⟨(Counter.roll cell w).start, (Counter.roll cell w).used + 1⟩) drops := by
  have hle : w ≤ (Counter.roll cell w).start := by
    rcases roll_cases cell w with ⟨hnew, -⟩ | ⟨c, -, hsame, hle⟩
    · exact Nat.le_of_eq (congrArg Counter.start hnew).symm
    · rw [hsame]
      exact hle
  have hused := (h.rolled w).1 _ (hlive.mono hle) rfl
  constructor
  · intro w'
    by_cases hw : w' = (Counter.roll cell w).start
    · subst hw
      rw [Function.update_self]
      exact Nat.le_trans (Nat.le_trans (Nat.succ_le_succ hused) hroom) (Nat.le_max_left _ _)
    · rw [Function.update_of_ne hw]
      exact h.capped w'
  · rintro w' c - hc rfl
    cases hc
    rw [Function.update_self]
    exact Nat.succ_le_succ hused
  · rintro w' c hlive' hc hlt
    cases hc
    rw [Function.update_of_ne (Nat.ne_of_gt hlt)]
    exact (h.rolled w).2 w' hlive' hlt
  · rintro w' - hnone
    cases hnone

/-- **A drop**: of a counter whose window was over at one of the drops, or of none. -/
theorem Bounded.drop (h : Bounded cap horizon base total cell drops) {drops' : List Nat} (hsub : drops ⊆ drops')
    {cell' : Option Counter}
    (hcell : cell' = cell ∨ cell' = none ∧ ∀ c, cell = some c → ∃ d ∈ drops', c.start + horizon ≤ d) :
    Bounded cap horizon base total cell' drops' := by
  have hlive : ∀ w, Live horizon drops' w → Live horizon drops w := fun w hw d hd => hw d (hsub hd)
  rcases hcell with rfl | ⟨rfl, hover⟩
  · exact ⟨h.capped, fun w c hw => h.own w c (hlive w hw), fun w c hw => h.ahead w c (hlive w hw),
      fun w hw => h.absent w (hlive w hw)⟩
  · refine ⟨h.capped, fun w c _ hc => (by cases hc), fun w c _ hc => (by cases hc), fun w hw _ => ?_⟩
    cases hcell : cell with
    | none => exact h.absent w (hlive w hw) hcell
    | some c =>
      -- a window that outlives the drop is later than the one that was dropped
      obtain ⟨d, hd, hdrop⟩ := hover c hcell
      have hnow : d < w + horizon := hw d hd
      exact h.ahead w c (hlive w hw) hcell (Nat.lt_of_add_lt_add_right (Nat.lt_of_le_of_lt hdrop hnow))

end WindowCap
