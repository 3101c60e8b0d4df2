import Busbar.Lib.Prog
import Busbar.Lib.Run
import Mathlib.Data.List.Nodup

/-!
# Exclusive sections

Programs over a shared state that each run from end to end under one lock. Which program takes the free lock next is left
open, and so is when a caller goes away: one that still waits gives up its section, one that is inside gives up the answer only.

* `Sections.step`: a program takes the lock or makes its next access, or a caller goes away.
* `serial`: the state after the programs of a list, one whole program after the other.
* `throughout_exec`: what every program keeps through its own run holds through every run of all of them.
* `Serial.exec`: **at any time the state is that of the programs inside so far, run one after the other in the order in which
  they took the lock**, and each of them has the answer it has there.
-/

namespace Exclusive

variable {S ε α : Type}

inductive Phase (S ε α : Type) : Type 1 where
  | waiting (p : Prog S ε α)
  | cancelled
  | inside (p : Prog S ε α) (abandoned : Bool)
  | ended (r : Except ε α) (abandoned : Bool)

/-- The lock, the state and the calls; `order` remembers who took the lock. -/
structure Sections (S ε α : Type) : Type 1 where
  holder : Option Nat
  state : S
  calls : List (Phase S ε α)
  order : List Nat

inductive Event where
  | acquire (i : Nat)
  | advance (i : Nat)
  | cancel (i : Nat)
  deriving DecidableEq, Repr

namespace Sections

/-- All calls wait. -/
def start (progs : List (Prog S ε α)) (s : S) : Sections S ε α := ⟨none, s, progs.map Phase.waiting, []⟩

def acquire (i : Nat) (t : Sections S ε α) : Sections S ε α :=
  match t.holder, t.calls[i]? with
  | none, some (.waiting p) =>
    { t with holder := some i, calls := t.calls.set i (.inside p false), order := t.order ++ [i] }
  | _, _ => t

/-- The next access of the holder; at its end it gives the lock back. -/
def advance (i : Nat) (t : Sections S ε α) : Sections S ε α :=
  match t.calls[i]? with
  | some (.inside (.done r) abandoned) => { t with holder := none, calls := t.calls.set i (.ended r abandoned) }
  | some (.inside (.access act next) abandoned) =>
    { t with state := (act t.state).2, calls := t.calls.set i (.inside (next (act t.state).1) abandoned) }
  | _ => t

def cancel (i : Nat) (t : Sections S ε α) : Sections S ε α :=
  match t.calls[i]? with
  | some (.waiting _) => { t with calls := t.calls.set i .cancelled }
  | some (.inside p _) => { t with calls := t.calls.set i (.inside p true) }
  | _ => t

def step (t : Sections S ε α) : Event → Sections S ε α
  | .acquire i => t.acquire i
  | .advance i => t.advance i
  | .cancel i => t.cancel i

end Sections

/-- The state after the listed programs, one whole program after the other. -/
def serial (progs : List (Prog S ε α)) (order : List Nat) (s : S) : S :=
  order.foldl (fun s i => ((progs[i]?).map fun p => p.exec s).getD s) s

theorem serial_snoc (progs : List (Prog S ε α)) (order : List Nat) {i : Nat} {p : Prog S ε α} (hp : progs[i]? = some p) (s : S) :
    serial progs (order ++ [i]) s = p.exec (serial progs order s) := by
  unfold serial
  rw [List.foldl_append, List.foldl_cons, List.foldl_nil, hp]
  rfl

theorem serial_snoc_none (progs : List (Prog S ε α)) (order : List Nat) {i : Nat} (hi : progs[i]? = none) (s : S) :
    serial progs (order ++ [i]) s = serial progs order s := by
  unfold serial
  rw [List.foldl_append, List.foldl_cons, List.foldl_nil, hi]
  rfl

variable (progs : List (Prog S ε α)) (s₀ : S)

/-- What has become of a call: it never came in, it is the holder on its way to the end that its whole run has, or it has had
that end. -/
inductive Place (t : Sections S ε α) (i : Nat) (p : Prog S ε α) : Prop where
  | out : t.holder ≠ some i → i ∉ t.order → t.calls[i]? = some (.waiting p) ∨ t.calls[i]? = some .cancelled →
      Place t i p
  | holds {before : List Nat} {q : Prog S ε α} {abandoned : Bool} : t.holder = some i → t.order = before ++ [i] →
      t.calls[i]? = some (.inside q abandoned) → q.run t.state = p.run (serial progs before s₀) → Place t i p
  | ended {before after : List Nat} {abandoned : Bool} : t.holder ≠ some i → t.order = before ++ i :: after →
      t.calls[i]? = some (.ended (p.run (serial progs before s₀)).1 abandoned) → Place t i p

/-- The sections so far are those of the order, one after the other. -/
structure Serial (t : Sections S ε α) : Prop where
  nodup : t.order.Nodup
  places : ∀ (i : Nat) (p : Prog S ε α), progs[i]? = some p → Place progs s₀ t i p
  known : ∀ i : Nat, progs[i]? = none → t.calls[i]? = none
  free : t.holder = none → t.state = serial progs t.order s₀

variable {progs s₀} {t : Sections S ε α}

theorem Serial.start : Serial progs s₀ (Sections.start progs s₀) := by
  refine ⟨List.nodup_nil, fun i p hp => .out (fun he => by cases he) List.not_mem_nil (Or.inl ?_), fun i hi => ?_, fun _ => rfl⟩
  · unfold Sections.start
    rw [List.getElem?_map, hp]
    rfl
  · unfold Sections.start
    rw [List.getElem?_map, hi]
    rfl

/-- The lock has one holder, who is the last one of the order. -/
theorem Serial.holder_of_inside (h : Serial progs s₀ t) {i : Nat} {q : Prog S ε α} {abandoned : Bool}
    (hi : t.calls[i]? = some (.inside q abandoned)) :
    t.holder = some i ∧ ∃ p before, progs[i]? = some p ∧ t.order = before ++ [i] ∧
      q.run t.state = p.run (serial progs before s₀) := by
  cases hp : progs[i]? with
  | none =>
    rw [h.known i hp] at hi
    cases hi
  | some p =>
    cases h.places i p hp with
    | out _ _ hphase => rcases hphase with hphase | hphase <;> rw [hi] at hphase <;> cases hphase
    | holds hholder horder hphase hrun =>
      rw [hi] at hphase
      cases hphase
      exact ⟨hholder, p, _, rfl, horder, hrun⟩
    | ended _ _ hphase =>
      rw [hi] at hphase
      cases hphase

theorem Serial.acquire (h : Serial progs s₀ t) (i : Nat) : Serial progs s₀ (t.acquire i) := by
  unfold Sections.acquire
  split
  · rename_i p hfree hwaiting
    -- the call is one of the programs and was never inside
    obtain ⟨hp, hnew⟩ : progs[i]? = some p ∧ i ∉ t.order := by
      cases hp : progs[i]? with
      | none =>
        rw [h.known i hp] at hwaiting
        cases hwaiting
      | some p' =>
        cases h.places i p' hp with
        | out _ hnew hphase =>
          rcases hphase with hphase | hphase
          · rw [hwaiting] at hphase
            cases hphase
            exact ⟨rfl, hnew⟩
          · rw [hwaiting] at hphase
            cases hphase
        | holds _ _ hphase _ =>
          rw [hwaiting] at hphase
          cases hphase
        | ended _ _ hphase =>
          rw [hwaiting] at hphase
          cases hphase
    have hlt : i < t.calls.length := (List.getElem?_eq_some_iff.1 hwaiting).1
    refine ⟨?_, fun j p' hj => ?_, fun j hj => ?_, fun hnone => by cases hnone⟩
    · exact List.nodup_append.2 ⟨h.nodup, List.nodup_singleton i, fun a ha b hb hab => hnew (by
        rw [List.mem_singleton] at hb
        exact hb ▸ hab ▸ ha)⟩
    · by_cases hij : i = j
      · subst hij
        rw [hp] at hj
        cases hj
        refine .holds rfl rfl (List.getElem?_set_self hlt) ?_
        exact congrArg p.run (h.free hfree)
      · have hother : (t.calls.set i (.inside p false))[j]? = t.calls[j]? := List.getElem?_set_ne hij
        cases h.places j p' hj with
        | out _ hnot hphase =>
          refine .out (fun he => hij (Option.some.inj he)) ?_ (hother ▸ hphase)
          simp [hnot, Ne.symm hij]
        | holds hholder _ _ _ =>
          rw [hfree] at hholder
          cases hholder
        | @ended before after _ _ horder hphase =>
          refine @Place.ended _ _ _ _ _ _ _ _ before (after ++ [i]) _ ?_ ?_ (hother ▸ hphase)
          · exact fun he => hij (Option.some.inj he)
          · rw [horder, List.append_assoc, List.cons_append]
    · rw [List.getElem?_set_ne, h.known j hj]
      rintro rfl
      rw [hp] at hj
      cases hj
  · exact h

theorem Serial.advance (h : Serial progs s₀ t) (i : Nat) : Serial progs s₀ (t.advance i) := by
  unfold Sections.advance
  split
  · rename_i r abandoned hinside
    obtain ⟨hholder, p, before, hp, horder, hrun⟩ := h.holder_of_inside hinside
    have hlt : i < t.calls.length := (List.getElem?_eq_some_iff.1 hinside).1
    refine ⟨h.nodup, fun j p' hj => ?_, fun j hj => ?_, fun _ => ?_⟩
    · by_cases hij : i = j
      · subst hij
        rw [hp] at hj
        cases hj
        refine @Place.ended _ _ _ _ _ _ _ _ before [] abandoned ?_ horder ?_
        · exact fun he => by cases he
        · rw [← hrun]
          exact List.getElem?_set_self hlt
      · have hother : (t.calls.set i (.ended r abandoned))[j]? = t.calls[j]? := List.getElem?_set_ne hij
        cases h.places j p' hj with
        | out _ hnot hphase => exact .out (fun he => by cases he) hnot (hother ▸ hphase)
        | holds hholder' _ _ _ =>
          rw [hholder] at hholder'
          exact absurd (Option.some.inj hholder') hij
        | ended _ horder' hphase => exact .ended (fun he => by cases he) horder' (hother ▸ hphase)
    · rw [List.getElem?_set_ne, h.known j hj]
      rintro rfl
      rw [hp] at hj
      cases hj
    · dsimp only
      rw [horder, serial_snoc progs before hp]
      exact congrArg Prod.snd hrun
  · rename_i act next abandoned hinside
    obtain ⟨hholder, p, before, hp, horder, hrun⟩ := h.holder_of_inside hinside
    have hlt : i < t.calls.length := (List.getElem?_eq_some_iff.1 hinside).1
    refine ⟨h.nodup, fun j p' hj => ?_, fun j hj => ?_, fun hnone => ?_⟩
    · by_cases hij : i = j
      · subst hij
        rw [hp] at hj
        cases hj
        exact .holds hholder horder (List.getElem?_set_self hlt) hrun
      · have hother : (t.calls.set i (.inside (next (act t.state).1) abandoned))[j]? = t.calls[j]? := List.getElem?_set_ne hij
        cases h.places j p' hj with
        | out hfree hnot hphase => exact .out hfree hnot (hother ▸ hphase)
        | holds hholder' _ _ _ =>
          rw [hholder] at hholder'
          exact absurd (Option.some.inj hholder') hij
        | ended hnot horder' hphase => exact .ended hnot horder' (hother ▸ hphase)
    · rw [List.getElem?_set_ne, h.known j hj]
      rintro rfl
      rw [hp] at hj
      cases hj
    · rw [hholder] at hnone
      cases hnone
  · exact h

theorem Serial.cancel (h : Serial progs s₀ t) (i : Nat) : Serial progs s₀ (t.cancel i) := by
  -- only the phase of the call changes, and its place stays
  have hset : ∀ phase : Phase S ε α, (∀ p, progs[i]? = some p → Place progs s₀ { t with calls := t.calls.set i phase } i p) →
      Serial progs s₀ { t with calls := t.calls.set i phase } := by
    intro phase hplace
    refine ⟨h.nodup, fun j p hj => ?_, fun j hj => ?_, h.free⟩
    · by_cases hij : i = j
      · subst hij
        exact hplace p hj
      · have hother : (t.calls.set i phase)[j]? = t.calls[j]? := List.getElem?_set_ne hij
        cases h.places j p hj with
        | out hfree hnot hphase => exact .out hfree hnot (hother ▸ hphase)
        | holds hholder horder hphase hrun => exact .holds hholder horder (hother ▸ hphase) hrun
        | ended hnot horder hphase => exact .ended hnot horder (hother ▸ hphase)
    · have hnone := h.known j hj
      rw [List.getElem?_eq_none_iff] at hnone ⊢
      rwa [List.length_set]
  unfold Sections.cancel
  split
  · rename_i q hwaiting
    have hlt : i < t.calls.length := (List.getElem?_eq_some_iff.1 hwaiting).1
    refine hset _ fun p hp => ?_
    cases h.places i p hp with
    | out hfree hnot _ => exact .out hfree hnot (Or.inr (List.getElem?_set_self hlt))
    | holds _ _ hphase _ =>
      rw [hwaiting] at hphase
      cases hphase
    | ended _ _ hphase =>
      rw [hwaiting] at hphase
      cases hphase
  · rename_i q abandoned hinside
    have hlt : i < t.calls.length := (List.getElem?_eq_some_iff.1 hinside).1
    obtain ⟨hholder, p, before, hp, horder, hrun⟩ := h.holder_of_inside hinside
    refine hset _ fun p' hp' => ?_
    rw [hp] at hp'
    cases hp'
    exact .holds hholder horder (List.getElem?_set_self hlt) hrun
  · exact h

theorem Serial.step (h : Serial progs s₀ t) (e : Event) : Serial progs s₀ (t.step e) := by
  cases e with
  | acquire i => exact h.acquire i
  | advance i => exact h.advance i
  | cancel i => exact h.cancel i

/-- **The sections of every run are those of its order, one after the other.** -/
theorem Serial.exec (events : List Event) : Serial progs s₀ (Run.exec Sections.step (Sections.start progs s₀) events) :=
  @Run.exec_invariant _ _ Sections.step (Serial progs s₀) (fun _ e h => h.step e) _ Serial.start events

/-! ## What holds all the time -/

/-- It holds in every state of the program's run from here on. -/
def Throughout (I : S → Prop) : Prog S ε α → S → Prop
  | .done _, s => I s
  | .access act next, s => I s ∧ Throughout I (next (act s).1) (act s).2

theorem Throughout.here {I : S → Prop} {p : Prog S ε α} {s : S} (h : Throughout I p s) : I s := by
  cases p with
  | done r => exact h
  | access act next => exact h.1

/-- It holds, the calls that wait will keep it, and what is left of the one inside does. -/
structure KeptAt (I : S → Prop) (t : Sections S ε α) : Prop where
  here : I t.state
  waiting : ∀ (i : Nat) (p : Prog S ε α), t.calls[i]? = some (.waiting p) → ∀ s, I s → Throughout I p s
  inside : ∀ (i : Nat) (p : Prog S ε α) (abandoned : Bool), t.calls[i]? = some (.inside p abandoned) →
    t.holder = some i ∧ Throughout I p t.state

variable {I : S → Prop}

theorem KeptAt.acquire (h : KeptAt I t) (i : Nat) : KeptAt I (t.acquire i) := by
  unfold Sections.acquire
  split
  · rename_i p hfree hwaiting
    refine ⟨h.here, fun j q hj => ?_, fun j q abandoned hj => ?_⟩
    · rw [List.getElem?_set] at hj
      split at hj
      · split at hj <;> cases hj
      · exact h.waiting j q hj
    · rw [List.getElem?_set] at hj
      split at hj
      · rename_i hij
        split at hj
        · cases hj
          exact ⟨congrArg some hij, h.waiting i p hwaiting _ h.here⟩
        · cases hj
      · obtain ⟨hholder, -⟩ := h.inside j q abandoned hj
        rw [hfree] at hholder
        cases hholder
  · exact h

theorem KeptAt.advance (h : KeptAt I t) (i : Nat) : KeptAt I (t.advance i) := by
  unfold Sections.advance
  split
  · rename_i r abandoned hinside
    obtain ⟨hholder, -⟩ := h.inside i _ _ hinside
    refine ⟨h.here, fun j q hj => ?_, fun j q abandoned hj => ?_⟩
    · rw [List.getElem?_set] at hj
      split at hj
      · split at hj <;> cases hj
      · exact h.waiting j q hj
    · rw [List.getElem?_set] at hj
      split at hj
      · split at hj <;> cases hj
      · rename_i hne
        have hj' := (h.inside j q abandoned hj).1
        rw [hholder] at hj'
        exact absurd (Option.some.inj hj') hne
  · rename_i act next abandoned hinside
    obtain ⟨hholder, -, hnext⟩ := h.inside i _ _ hinside
    refine ⟨hnext.here, fun j q hj => ?_, fun j q abandoned hj => ?_⟩
    · rw [List.getElem?_set] at hj
      split at hj
      · split at hj <;> cases hj
      · exact h.waiting j q hj
    · rw [List.getElem?_set] at hj
      split at hj
      · rename_i hij
        split at hj
        · cases hj
          exact ⟨hij ▸ hholder, hnext⟩
        · cases hj
      · rename_i hne
        have hj' := (h.inside j q abandoned hj).1
        rw [hholder] at hj'
        exact absurd (Option.some.inj hj') hne
  · exact h

theorem KeptAt.cancel (h : KeptAt I t) (i : Nat) : KeptAt I (t.cancel i) := by
  unfold Sections.cancel
  split
  · refine ⟨h.here, fun j q hj => ?_, fun j q abandoned hj => ?_⟩
    · rw [List.getElem?_set] at hj
      split at hj
      · split at hj <;> cases hj
      · exact h.waiting j q hj
    · rw [List.getElem?_set] at hj
      split at hj
      · split at hj <;> cases hj
      · exact h.inside j q abandoned hj
  · rename_i p abandoned hinside
    obtain ⟨hholder, hp⟩ := h.inside i p abandoned hinside
    refine ⟨h.here, fun j q hj => ?_, fun j q abandoned hj => ?_⟩
    · rw [List.getElem?_set] at hj
      split at hj
      · split at hj <;> cases hj
      · exact h.waiting j q hj
    · rw [List.getElem?_set] at hj
      split at hj
      · rename_i hij
        split at hj
        · cases hj
          exact ⟨hij ▸ hholder, hp⟩
        · cases hj
      · exact h.inside j q abandoned hj
  · exact h

/-- **What every program keeps through its own run holds through every run of all of them.** -/
theorem throughout_exec (hprogs : ∀ p ∈ progs, ∀ s, I s → Throughout I p s) (h₀ : I s₀) (events : List Event) :
    I (Run.exec Sections.step (Sections.start progs s₀) events).state := by
  have hstart : KeptAt I (Sections.start progs s₀) := by
    refine ⟨h₀, fun i p hi => ?_, fun i p abandoned hi => ?_⟩
    · unfold Sections.start at hi
      rw [List.getElem?_map, Option.map_eq_some_iff] at hi
      obtain ⟨q, hq, hqp⟩ := hi
      cases hqp
      exact hprogs p (List.mem_of_getElem? hq)
    · unfold Sections.start at hi
      rw [List.getElem?_map, Option.map_eq_some_iff] at hi
      obtain ⟨q, -, hqp⟩ := hi
      cases hqp
  have hstep : ∀ (t : Sections S ε α) (e : Event), KeptAt I t → KeptAt I (t.step e) := by
    intro t e h
    cases e with
    | acquire i => exact h.acquire i
    | advance i => exact h.advance i
    | cancel i => exact h.cancel i
  exact (Run.exec_invariant Sections.step hstep hstart events).here

end Exclusive
