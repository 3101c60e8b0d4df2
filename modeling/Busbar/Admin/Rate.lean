import Busbar.Lib.Registry
import Busbar.Lib.Run
import Busbar.Lib.Text
import Mathlib.Data.List.DropRight

/-!
# The limit on admin mutations

Counters for one minute at a time, by principal and class. A check belongs to the minute it reads off the clock, drops every
counter of another minute and spends an attempt, so the map never outgrows the principals of the moment.

* `MutationLimiter.check`: one check.
* `spell`: the checks that the next one still shares its minute with, back to the last one that does not.
* `Counts`: every counter is the number of attempts in the spell, split at the budget.
* `check_by_history`: the limiter answers by the history alone.
* `spell_eq_filter`: under a clock that never runs back the spell is the minute.
-/

namespace Busbar.Admin

open Run

inductive MutationClass where
  | config
  | crud
  | pluginInspect
  | forbidden
  deriving DecidableEq, Repr

/-- `MUTATION_RATE_WINDOW_SECS`. -/
def mutationRateWindowSecs : Nat := 60

def MutationClass.limit : MutationClass → Nat
  | config => 10
  | crud => 60
  | pluginInspect => 30
  | forbidden => 0

def MutationClass.label : MutationClass → String
  | config => "config"
  | crud => "crud"
  | pluginInspect => "plugin-inspect"
  | forbidden => "forbidden"

/-! ## The classes -/

inductive PathRule where
  | exact (p : String)
  | startsWith (p : String)
  deriving DecidableEq, Repr

def PathRule.covers (rel : String) : PathRule → Bool
  | exact p => rel = p
  | startsWith p => (stripPrefix p rel).isSome

/-- `PATH_ADMIN_AUTH`. -/
def pathAdminAuth : String := "/admin-auth"

/-- `PATH_CONFIG_VALIDATE`. -/
def pathConfigValidate : String := "/config/validate"

/-- `PATH_PLUGINS_INSPECT`. -/
def pathPluginsInspect : String := "/plugins/inspect"

inductive NamedMapSection where
  | identityProviders
  | «export»
  deriving DecidableEq, Repr

namespace NamedMapSection

/-- `NamedMapSection::ALL`. -/
def all : List NamedMapSection := [identityProviders, «export»]

def pathRoot : NamedMapSection → String
  | identityProviders => "/identity-providers"
  | «export» => "/export"

end NamedMapSection

/-- `CONFIG_CLASS_RULES`. -/
def configClassRules : List PathRule :=
  [.startsWith "/config/", .exact pathAdminAuth, .startsWith "/overlay/", .exact "/plugins/reload",
    .exact "/plugins/rollback", .exact "/restart"]

def classifyMutation (rel : String) : MutationClass :=
  if rel = pathConfigValidate then .crud
  else if rel = pathPluginsInspect then .pluginInspect
  else if NamedMapSection.all.any (fun s => (stripPrefix s.pathRoot rel).isSome) then .config
  else if configClassRules.any (PathRule.covers rel) then .config
  else .crud

/-! ## The limiter -/

/-- The minute, the attempts spent in it, the denials in it. -/
structure Window where
  start : Nat
  attempts : Nat
  denials : Nat
  deriving DecidableEq, Repr

inductive RateCheck where
  | admitted
  | denied (firstInWindow : Bool)
  deriving DecidableEq, Repr

/-- Whose attempt it is and of which class. -/
abbrev Spender := String × MutationClass

/-- No map before the first check. -/
structure MutationLimiter where
  windows : Option (Table Spender Window)

namespace MutationLimiter

def new : MutationLimiter := ⟨none⟩

/-- `u32` addition as the release build has it. -/
def increment (n : Nat) : Nat := (n + 1) % 2 ^ 32

/-- The start of the minute. -/
def windowOf (now : Nat) : Nat := now - now % mutationRateWindowSecs

def check (l : MutationLimiter) (principal : String) (class' : MutationClass) (now : Nat) :
    RateCheck × MutationLimiter :=
  let window := windowOf now
  let map := l.windows.getD Registry.empty
  let map : Table Spender Window := Registry.retain (fun e => e.2.start = window) map
  let entry := (map.lookup (principal, class')).getD ⟨window, 0, 0⟩
  if entry.attempts ≥ class'.limit then
    let entry := { entry with denials := increment entry.denials }
    (.denied (entry.denials = 1), ⟨some (map.insert (principal, class') entry)⟩)
  else
    (.admitted, ⟨some (map.insert (principal, class') { entry with attempts := increment entry.attempts })⟩)

end MutationLimiter

/-- A check that was made. -/
structure Attempt where
  principal : String
  class' : MutationClass
  now : Nat
  deriving DecidableEq, Repr

namespace Attempt

def spender (a : Attempt) : Spender := (a.principal, a.class')

def window (a : Attempt) : Nat := MutationLimiter.windowOf a.now

end Attempt

open MutationLimiter

/-- The limiter after a history of checks. -/
def MutationLimiter.after (history : List Attempt) : MutationLimiter :=
  exec (fun l a => (l.check a.principal a.class' a.now).2) new history

@[simp] theorem after_nil : MutationLimiter.after [] = new := rfl

theorem after_snoc (history : List Attempt) (a : Attempt) :
    MutationLimiter.after (history ++ [a]) = ((MutationLimiter.after history).check a.principal a.class' a.now).2 :=
  exec_snoc _ _ _ _

/-! ## What the counters count -/

/-- The checks at the end of the history that fall in the window. -/
def spell (history : List Attempt) (window : Nat) : List Attempt := history.rtakeWhile (fun a => a.window = window)

/-- How often the spender has tried in the spell. -/
def spent (history : List Attempt) (window : Nat) (s : Spender) : Nat :=
  (spell history window).countP (fun a => a.spender = s)

theorem spell_snoc_of_eq (history : List Attempt) {a : Attempt} {window : Nat} (h : a.window = window) :
    spell (history ++ [a]) window = spell history window ++ [a] :=
  List.rtakeWhile_concat_pos (fun b : Attempt => b.window = window) history a (decide_eq_true h)

theorem spell_snoc_of_ne (history : List Attempt) {a : Attempt} {window : Nat} (h : a.window ≠ window) :
    spell (history ++ [a]) window = [] :=
  List.rtakeWhile_concat_neg (fun b : Attempt => b.window = window) history a (by simpa using h)

@[simp] theorem spent_nil (window : Nat) (s : Spender) : spent [] window s = 0 := rfl

theorem spent_snoc (history : List Attempt) (a : Attempt) (window : Nat) (s : Spender) :
    spent (history ++ [a]) window s =
      if a.window = window then spent history window s + if a.spender = s then 1 else 0 else 0 := by
  unfold spent
  by_cases hw : a.window = window
  · rw [spell_snoc_of_eq history hw, if_pos hw, List.countP_append, List.countP_singleton]
    simp only [decide_eq_true_eq]
  · rw [spell_snoc_of_ne history hw, if_neg hw]
    rfl

/-- The counter of a spender with `n` attempts: the budget fills up first, the rest are denials. -/
def counter (window limit n : Nat) : Option Window :=
  if n = 0 then none else some ⟨window, min n limit, (n - limit) % 2 ^ 32⟩

/-- The answer to an attempt after `n` others. -/
def verdict (limit n : Nat) : RateCheck :=
  if n < limit then .admitted else .denied ((n - limit) % 2 ^ 32 = 0)

/-- A counter of any window, as far as it is of this one, has the count of the spell. -/
def Counts (history : List Attempt) (l : MutationLimiter) : Prop :=
  ∀ window s, ((l.windows.getD Registry.empty).lookup s).filter (fun e => e.start = window) =
    counter window s.2.limit (spent history window s)

theorem limit_lt (c : MutationClass) : c.limit < 2 ^ 32 := by
  cases c <;> decide

theorem counter_start {window limit n : Nat} {e : Window} (h : counter window limit n = some e) : e.start = window := by
  unfold counter at h
  split at h
  · cases h
  · cases h
    rfl

/-- The entry a check works on. -/
theorem counter_getD (window limit n : Nat) :
    (counter window limit n).getD ⟨window, 0, 0⟩ = ⟨window, min n limit, (n - limit) % 2 ^ 32⟩ := by
  unfold counter
  split
  · rename_i hn
    rw [hn, Nat.zero_min, Nat.zero_sub, Nat.zero_mod]
    rfl
  · rfl

/-- A first denial is one that brings the count to one, also after the count has wrapped. -/
theorem first_iff (n : Nat) : increment (n % 2 ^ 32) = 1 ↔ n % 2 ^ 32 = 0 := by
  unfold increment
  omega

theorem verdict_of_lt {limit n : Nat} (h : n < limit) : verdict limit n = .admitted := if_pos h

theorem counter_succ_of_lt {window limit n : Nat} (h : n < limit) (hlimit : limit < 2 ^ 32) :
    counter window limit (n + 1) = some ⟨window, increment (min n limit), (n - limit) % 2 ^ 32⟩ := by
  have hmin : min (n + 1) limit = increment (min n limit) := by
    unfold increment
    omega
  have hsub : n + 1 - limit = n - limit := by omega
  rw [counter, if_neg (Nat.succ_ne_zero n), hmin, hsub]

theorem counter_succ_of_ge {window limit n : Nat} (h : limit ≤ n) :
    counter window limit (n + 1) = some ⟨window, min n limit, increment ((n - limit) % 2 ^ 32)⟩ := by
  have hmin : min (n + 1) limit = min n limit := by omega
  have hsub : (n + 1 - limit) % 2 ^ 32 = increment ((n - limit) % 2 ^ 32) := by
    unfold increment
    omega
  rw [counter, if_neg (Nat.succ_ne_zero n), hmin, hsub]

variable {history : List Attempt} {l : MutationLimiter}

/-- **One check**, from counters that count: the answer by the count, and the map of the counters one attempt later. -/
theorem Counts.check (h : Counts history l) (a : Attempt) :
    (l.check a.principal a.class' a.now).1 = verdict a.class'.limit (spent history a.window a.spender) ∧
      ∃ map, (l.check a.principal a.class' a.now).2.windows = some map ∧
        ∀ s, map.lookup s = counter a.window s.2.limit (spent (history ++ [a]) a.window s) := by
  have hretained : ∀ s, Table.lookup (Registry.retain (fun e : Spender × Window => e.2.start = a.window)
      (l.windows.getD Registry.empty)) s =
      counter a.window s.2.limit (spent history a.window s) := by
    intro s
    rw [Table.lookup_retain]
    exact h a.window s
  have hentry : (Table.lookup (Registry.retain (fun e : Spender × Window => e.2.start = windowOf a.now)
      (l.windows.getD Registry.empty)) (a.principal, a.class')).getD ⟨windowOf a.now, 0, 0⟩ =
      ⟨a.window, min (spent history a.window a.spender) a.class'.limit,
        (spent history a.window a.spender - a.class'.limit) % 2 ^ 32⟩ :=
    (congrArg (Option.getD · _) (hretained a.spender)).trans (counter_getD _ _ _)
  have hspent : spent (history ++ [a]) a.window a.spender = spent history a.window a.spender + 1 := by
    rw [spent_snoc, if_pos rfl, if_pos rfl]
  have hother : ∀ s, a.spender ≠ s → spent (history ++ [a]) a.window s = spent history a.window s := by
    intro s hs
    rw [spent_snoc, if_pos rfl, if_neg hs, Nat.add_zero]
  unfold MutationLimiter.check
  dsimp only
  rw [hentry]
  by_cases hlt : spent history a.window a.spender < a.class'.limit
  · have hroom : ¬ min (spent history a.window a.spender) a.class'.limit ≥ a.class'.limit := by omega
    rw [if_neg hroom, verdict_of_lt hlt]
    refine ⟨rfl, _, rfl, fun s => ?_⟩
    rw [Table.lookup_insert]
    split
    · rename_i hs
      subst hs
      exact (hspent ▸ counter_succ_of_lt hlt (limit_lt _)).symm
    · rename_i hs
      rw [hother s hs]
      exact hretained s
  · have hfull : min (spent history a.window a.spender) a.class'.limit ≥ a.class'.limit := by omega
    rw [if_pos hfull, verdict, if_neg hlt]
    refine ⟨?_, _, rfl, fun s => ?_⟩
    · dsimp only
      rw [decide_eq_decide.2 (first_iff _)]
    · rw [Table.lookup_insert]
      split
      · rename_i hs
        subst hs
        exact (hspent ▸ counter_succ_of_ge (Nat.le_of_not_lt hlt)).symm
      · rename_i hs
        rw [hother s hs]
        exact hretained s

theorem counts_after (history : List Attempt) : Counts history (MutationLimiter.after history) := by
  induction history using List.reverseRecOn with
  | nil => exact fun _ _ => rfl
  | append_singleton history a ih =>
    obtain ⟨_, map, hmap, hlookup⟩ := ih.check a
    intro window s
    rw [after_snoc, hmap, Option.getD_some, hlookup s]
    cases hc : counter a.window s.2.limit (spent (history ++ [a]) a.window s) with
    | none =>
      by_cases hw : a.window = window
      · rw [← hw, hc]
        rfl
      · rw [spent_snoc, if_neg hw]
        rfl
    | some e =>
      have hstart := counter_start hc
      by_cases hw : a.window = window
      · rw [← hw, hc, Option.filter_some, if_pos (decide_eq_true hstart)]
      · rw [spent_snoc, if_neg hw, Option.filter_some, if_neg (by simpa [hstart] using hw)]
        rfl

/-- **The limiter answers by the history alone**: by how often the same principal has tried the same class since the last
check that fell in another minute. The map holds the spenders of that spell and no others. -/
theorem check_by_history (history : List Attempt) (a : Attempt) :
    ((MutationLimiter.after history).check a.principal a.class' a.now).1 =
        verdict a.class'.limit (spent history a.window a.spender) ∧
      ∃ map, (MutationLimiter.after (history ++ [a])).windows = some map ∧
        ∀ s, map.lookup s = counter a.window s.2.limit (spent (history ++ [a]) a.window s) := by
  rw [after_snoc]
  exact (counts_after history).check a

/-! ## A clock that does not run back -/

/-- Under such a clock the spell of the last window is all that ever fell in it. -/
theorem spell_eq_filter {history : List Attempt} (hclock : history.Pairwise (fun a b => a.now ≤ b.now)) {now : Nat}
    (hnow : ∀ a ∈ history, a.now ≤ now) :
    spell history (windowOf now) = history.filter (fun a => a.window = windowOf now) := by
  induction history using List.reverseRecOn with
  | nil => rfl
  | append_singleton history a ih =>
    rw [List.pairwise_append] at hclock
    have hbefore : ∀ b ∈ history, b.now ≤ a.now := fun b hb => hclock.2.2 b hb a (List.mem_singleton.2 rfl)
    rw [List.filter_append]
    by_cases hw : a.window = windowOf now
    · have hrest := ih hclock.1 (fun b hb => hnow b (List.mem_append_left _ hb))
      rw [spell_snoc_of_eq history hw, hrest, List.filter_cons_of_pos (by simpa using hw), List.filter_nil]
    · rw [spell_snoc_of_ne history hw]
      have hle : a.now ≤ now := hnow a (List.mem_append_right _ (List.mem_singleton.2 rfl))
      -- what came before an earlier minute is of an earlier minute
      have hnone : ∀ b ∈ history, b.window ≠ windowOf now := by
        intro b hb hsame
        have hle' := hbefore b hb
        unfold Attempt.window windowOf mutationRateWindowSecs at hw hsame
        omega
      rw [List.filter_cons_of_neg (by simpa using hw), List.filter_nil, List.append_nil]
      exact (List.filter_eq_nil_iff.2 (fun b hb => by simpa using hnone b hb)).symm

end Busbar.Admin
