import Mathlib.Data.Set.Function
import Mathlib.Order.Interval.Set.Defs
import Mathlib.Data.List.Nodup
import Mathlib.Data.List.Range

/-!
# Leases with fencing tokens

A lease has at most one holder. Each grant carries the next token `tok 1`, `tok 2`, …; while the lease is
free, members may join it without a grant and carry the current token. A member gives the lease back by
showing its token; a token that is not the current one does nothing. The lessor may take the lease back at
any time. With a bounded counter the tokens repeat in the end, so what needs them to differ says so.

* `Reach.granted_eq`: the granted tokens are the first ones, in order.
* `Reach.granted_nodup`: no token is granted twice.
* `Reach.unique_holder`: a held lease has exactly one outstanding member that carries its token, and that
  member was granted it.
-/

namespace Lease

variable {τ : Type}

/-- What members see of a lease. -/
inductive Event (τ : Type) where
  | granted (t : τ)
  | joined (t : τ)
  | released (t : τ)
  deriving DecidableEq, Repr

def Event.token : Event τ → τ
  | granted t => t
  | joined t => t
  | released t => t

/-- How often the lease was granted, and whether it is held. -/
structure State where
  grants : Nat
  held : Bool

/-- The states of a lease with the histories that lead to them. -/
inductive Reach (tok : Nat → τ) : State → List (Event τ) → Prop
  | start : Reach tok ⟨0, false⟩ []
  | grant {n h} : Reach tok ⟨n, false⟩ h → Reach tok ⟨n + 1, true⟩ (h ++ [.granted (tok (n + 1))])
  | join {n h} : Reach tok ⟨n, false⟩ h → Reach tok ⟨n, false⟩ (h ++ [.joined (tok n)])
  | release {n h} (t : τ) : Reach tok ⟨n, true⟩ h → t = tok n → Reach tok ⟨n, false⟩ (h ++ [.released t])
  | stale {s h} (t : τ) : Reach tok s h → (t = tok s.grants → s.held = false) →
      Reach tok s (h ++ [.released t])
  | revoke {n b h} : Reach tok ⟨n, b⟩ h → Reach tok ⟨n, false⟩ h

/-- The tokens that were granted, oldest first. -/
def granted (h : List (Event τ)) : List τ :=
  h.filterMap fun
    | .granted t => some t
    | _ => none

@[simp] theorem granted_nil : granted ([] : List (Event τ)) = [] := rfl

@[simp] theorem granted_snoc_granted (h : List (Event τ)) (t : τ) :
    granted (h ++ [.granted t]) = granted h ++ [t] := by
  simp [granted]

@[simp] theorem granted_snoc_joined (h : List (Event τ)) (t : τ) :
    granted (h ++ [.joined t]) = granted h := by
  simp [granted]

@[simp] theorem granted_snoc_released (h : List (Event τ)) (t : τ) :
    granted (h ++ [.released t]) = granted h := by
  simp [granted]

section Outstanding

variable [DecidableEq τ]

/-- Members come in one by one; a release sends away every member that carries its token. -/
def settle (members : List (Event τ)) : Event τ → List (Event τ)
  | .released t => members.filter (fun e => e.token ≠ t)
  | e => members ++ [e]

/-- The members that have not given their token back. -/
def outstanding (h : List (Event τ)) : List (Event τ) := h.foldl settle []

/-- The outstanding members that carry `t`. -/
def holders (t : τ) (h : List (Event τ)) : List (Event τ) :=
  (outstanding h).filter (fun e => e.token = t)

theorem outstanding_snoc (h : List (Event τ)) (e : Event τ) :
    outstanding (h ++ [e]) = settle (outstanding h) e := by
  unfold outstanding
  rw [List.foldl_append]
  rfl

theorem holders_snoc_granted (h : List (Event τ)) (t u : τ) :
    holders t (h ++ [.granted u]) = holders t h ++ if u = t then [.granted u] else [] := by
  unfold holders
  rw [outstanding_snoc]
  by_cases hu : u = t <;> simp [settle, Event.token, hu]

theorem holders_snoc_released_ne (h : List (Event τ)) {t u : τ} (hu : u ≠ t) :
    holders t (h ++ [.released u]) = holders t h := by
  unfold holders
  rw [outstanding_snoc]
  simp only [settle, List.filter_filter]
  apply List.filter_congr
  intro e _
  by_cases he : e.token = t
  · have hne : e.token ≠ u := fun h' => hu (h'.symm.trans he)
    simp [he, Ne.symm hu]
  · simp [he]

end Outstanding

namespace Reach

variable {tok : Nat → τ} {s : State} {h : List (Event τ)}

/-- **The granted tokens are the first ones, in order.** -/
theorem granted_eq (hr : Reach tok s h) : granted h = (List.range s.grants).map (fun i => tok (i + 1)) := by
  induction hr with
  | start => rfl
  | grant hr ih =>
    rw [granted_snoc_granted, ih, List.range_succ, List.map_append]
    rfl
  | join hr ih => rw [granted_snoc_joined]; exact ih
  | release t hr ht ih => rw [granted_snoc_released]; exact ih
  | stale t hr ht ih => rw [granted_snoc_released]; exact ih
  | revoke hr ih => exact ih

theorem granted_length (hr : Reach tok s h) : (granted h).length = s.grants := by
  rw [hr.granted_eq, List.length_map, List.length_range]

/-- **No token is granted twice**, as long as the tokens of the grants differ. -/
theorem granted_nodup (hr : Reach tok s h) (hinj : Set.InjOn tok (Set.Iic s.grants)) :
    (granted h).Nodup := by
  rw [hr.granted_eq]
  refine List.Nodup.map_on ?_ List.nodup_range
  intro i hi j hj he
  have hi' : i + 1 ≤ s.grants := List.mem_range.1 hi
  have hj' : j + 1 ≤ s.grants := List.mem_range.1 hj
  have := hinj hi' hj' he
  omega

variable [DecidableEq τ]

/-- Outstanding members carry tokens up to the current one. -/
theorem token_le (hr : Reach tok s h) : ∀ e ∈ outstanding h, ∃ i ≤ s.grants, e.token = tok i := by
  induction hr with
  | start => intro e he; simp [outstanding] at he
  | @grant n h hr ih =>
    intro e he
    rw [outstanding_snoc] at he
    rcases List.mem_append.1 he with he | he
    · obtain ⟨i, hi, hei⟩ := ih e he
      have hi' : i ≤ n := hi
      exact ⟨i, by show i ≤ n + 1; omega, hei⟩
    · obtain rfl := List.mem_singleton.1 he
      exact ⟨n + 1, le_rfl, rfl⟩
  | @join n h hr ih =>
    intro e he
    rw [outstanding_snoc] at he
    rcases List.mem_append.1 he with he | he
    · exact ih e he
    · obtain rfl := List.mem_singleton.1 he
      exact ⟨n, le_rfl, rfl⟩
  | release t hr ht ih =>
    intro e he
    rw [outstanding_snoc] at he
    exact ih e (List.mem_filter.1 he).1
  | stale t hr ht ih =>
    intro e he
    rw [outstanding_snoc] at he
    exact ih e (List.mem_filter.1 he).1
  | revoke hr ih => exact ih

/-- **A held lease has exactly one holder**: the member that was granted the current token. -/
theorem unique_holder (hr : Reach tok s h) (hinj : Set.InjOn tok (Set.Iic s.grants))
    (hheld : s.held = true) : holders (tok s.grants) h = [.granted (tok s.grants)] := by
  induction hr with
  | start => simp at hheld
  | @grant n h hr ih =>
    -- the members before the grant carry older tokens
    have hold : holders (tok (n + 1)) h = [] := by
      unfold holders
      rw [List.filter_eq_nil_iff]
      intro e he ht
      obtain ⟨i, hi, hei⟩ := hr.token_le e he
      have hi' : i ≤ n := hi
      have : i = n + 1 := hinj (show i ≤ n + 1 by omega) (show n + 1 ≤ n + 1 from le_rfl)
        (hei.symm.trans (by simpa using ht))
      omega
    rw [holders_snoc_granted, hold, if_pos rfl, List.nil_append]
  | join hr ih => simp at hheld
  | release t hr ht ih => simp at hheld
  | @stale s h t hr ht ih =>
    have hne : t ≠ tok s.grants := by
      intro he
      rw [ht he] at hheld
      simp at hheld
    rw [holders_snoc_released_ne h hne]
    exact ih hinj hheld
  | revoke hr ih => simp at hheld

end Reach

end Lease
