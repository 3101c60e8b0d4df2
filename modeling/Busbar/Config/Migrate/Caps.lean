import Busbar.Config.Migrate.Frames

/-!
# Groups and their caps

The groups of a document as a table: the parent of a group, and its limits as caps. The caps of the old format are carried
to the windows there are; what a document says of groups before the migration gives such a table as well.

* `Cap.Implies`, `Holds`: a cap implied by one on the way up from a group.
* `readLimit_carried`: a limit that is written reads as the cap carried.
* `groupView_budgetGroup`, `groupView_generated`: the groups that are written.
-/

namespace Busbar.Migrate

open Logged

/-! ## Caps -/

inductive CapMetric where
  | requests | tokens | budget
  deriving DecidableEq, Repr

inductive CapWindow where
  | minute | hour | day | week | month | year | total
  deriving DecidableEq, Repr

/-- The minutes of a window that rolls. A year is twelve months. -/
def CapWindow.minutes : CapWindow → Option Nat
  | minute => some 1
  | hour => some 60
  | day => some 1440
  | week => some 10080
  | month => some 43800
  | year => some 525600
  | total => none

structure Cap where
  metric : CapMetric
  amount : Nat
  per : CapWindow
  deriving DecidableEq, Repr

/-- The cap allows no more in a unit of time than the other. What is spent in all is spent in every window. -/
def Cap.Implies (l c : Cap) : Prop :=
  l.metric = c.metric ∧
  match l.per.minutes, c.per.minutes with
  | none, _ => l.amount ≤ c.amount
  | some _, none => False
  | some w, some p => l.amount * p ≤ c.amount * w

/-- What a table has on a group. -/
structure GroupView where
  parent : Option String
  caps : List Cap

inductive Chain (table : String → Option GroupView) : String → String → Prop where
  | here (g : String) : Chain table g g
  | up {g p h : String} {v : GroupView} : table g = some v → v.parent = some p → Chain table p h → Chain table g h

/-- Some cap on the way up from the group implies this one. -/
def Holds (table : String → Option GroupView) (g : String) (c : Cap) : Prop :=
  ∃ h v, Chain table g h ∧ table h = some v ∧ ∃ l ∈ v.caps, l.Implies c

/-! ## The groups of a document -/

def windowOf (word : String) : Option CapWindow :=
  ([("minute", .minute), ("hour", .hour), ("day", .day), ("month", .month), ("total", .total)] :
    List (String × CapWindow)).lookup word

def amountOf (m : Mapping) (k : String) : Option Nat := (m.get k).bind Yaml.asU64

/-- The amount of a limit, with its metric. -/
def metricOf (m : Mapping) : Option (CapMetric × Nat) :=
  match amountOf m "requests", amountOf m "tokens", amountOf m "budget" with
  | some n, _, _ => some (.requests, n)
  | none, some n, _ => some (.tokens, n)
  | none, none, some n => some (.budget, n)
  | none, none, none => none

def readLimit (l : Yaml) : Option Cap :=
  l.mapping?.bind fun m =>
    (((m.get "per").bind Yaml.asStr).bind windowOf).bind fun per => (metricOf m).map fun e => ⟨e.1, e.2, per⟩

def groupView (g : Yaml) : GroupView where
  parent := ((asMap g).get "parent").bind Yaml.asStr
  caps := ((((asMap g).get "limits").bind Yaml.sequence?).getD []).filterMap readLimit

/-- The groups of a document of the new format. -/
def groupsOf (root : Mapping) (name : String) : Option GroupView :=
  (((root.get "groups").bind Yaml.mapping?).bind fun groups => groups.get name).map groupView

/-! ## The caps of the old format -/

/-- The window of a period. -/
def periodOfWord (word : String) : Option CapWindow :=
  if word ∈ ["minute", "minutely", "per_minute"] then some .minute
  else if word ∈ ["hour", "hourly", "per_hour"] then some .hour
  else if word ∈ ["day", "daily", "per_day"] then some .day
  else if word ∈ ["month", "monthly", "per_month"] then some .month
  else if word ∈ ["total", "lifetime", "all_time", "alltime", "never"] then some .total
  else if word ∈ ["week", "weekly", "per_week"] then some .week
  else if word ∈ ["year", "yearly", "annual", "annually", "per_year"] then some .year
  else none

/-- A budget as it is carried: a week, and a period that is not known, to a month; of a year the twelfth part. -/
def carryBudget (word : String) (n : Nat) : Cap :=
  match periodOfWord word with
  | some .week | none => ⟨.budget, n, .month⟩
  | some .year => ⟨.budget, max (n / 12) 1, .month⟩
  | some w => ⟨.budget, n, w⟩

def wordOf (m : Mapping) : String := periodOf (m.get "budget_period")

def minuteCaps (m : Mapping) : List Cap :=
  ((amountOf m "rpm_limit").toList.map fun n => ⟨.requests, n, .minute⟩) ++
  ((amountOf m "tpm_limit").toList.map fun n => ⟨.tokens, n, .minute⟩)

/-- The budget of a role or a group, if its period is one that is known. -/
def writtenBudget (m : Mapping) : List Cap :=
  match amountOf m "max_budget_cents", periodOfWord (wordOf m) with
  | some n, some w => [⟨.budget, n, w⟩]
  | _, _ => []

def writtenCaps (m : Mapping) : List Cap := minuteCaps m ++ writtenBudget m

def carriedCaps (m : Mapping) : List Cap :=
  minuteCaps m ++ (amountOf m "max_budget_cents").toList.map (carryBudget (wordOf m))

/-- A budget group; without an amount it has none to spend. -/
def budgetView (g : Yaml) : GroupView where
  parent := ((asMap g).get "parent").bind Yaml.asStr
  caps := ((((asMap g).get "max_budget_cents").getD (.number (.posInt 0))).asU64).toList.map (carryBudget (wordOf (asMap g)))

def hasCaps (b : Mapping) : Bool := b.containsKey "rpm_limit" || b.containsKey "tpm_limit" || b.containsKey "max_budget_cents"

/-- The group generated under a name: that of the last role with caps that has the name. -/
def generatedView (gm : Mapping) (name : String) : Option GroupView :=
  ((gm.filter fun e => hasCaps (asMap e.2) && groupName e.1 = name).getLast?).map fun e => ⟨none, carriedCaps (asMap e.2)⟩

/-! ## Limits that are written -/

variable {m b gm : Mapping} {g role : Yaml} {word name module : String} {ctx : List Yaml}

theorem readLimit_minute (v : Yaml) : readLimit (.mapping [(str "requests", v), (str "per", str "minute")]) =
    v.asU64.map fun n => ⟨.requests, n, .minute⟩ := by
  have hmetric : metricOf [(str "requests", v), (str "per", str "minute")] = v.asU64.map fun n => (.requests, n) := by
    have hrequests : amountOf [(str "requests", v), (str "per", str "minute")] "requests" = v.asU64 := rfl
    unfold metricOf
    rw [hrequests]
    cases v.asU64 <;> rfl
  have hread : readLimit (.mapping [(str "requests", v), (str "per", str "minute")]) =
      (metricOf [(str "requests", v), (str "per", str "minute")]).map fun e => ⟨e.1, e.2, .minute⟩ := rfl
  rw [hread, hmetric, Option.map_map]
  rfl

theorem readLimit_tokens (v : Yaml) : readLimit (.mapping [(str "tokens", v), (str "per", str "minute")]) =
    v.asU64.map fun n => ⟨.tokens, n, .minute⟩ := by
  have hmetric : metricOf [(str "tokens", v), (str "per", str "minute")] = v.asU64.map fun n => (.tokens, n) := by
    have htokens : amountOf [(str "tokens", v), (str "per", str "minute")] "tokens" = v.asU64 := rfl
    have hrequests : amountOf [(str "tokens", v), (str "per", str "minute")] "requests" = none := rfl
    unfold metricOf
    rw [hrequests, htokens]
    cases v.asU64 <;> rfl
  have hread : readLimit (.mapping [(str "tokens", v), (str "per", str "minute")]) =
      (metricOf [(str "tokens", v), (str "per", str "minute")]).map fun e => ⟨e.1, e.2, .minute⟩ := rfl
  rw [hread, hmetric, Option.map_map]
  rfl

theorem readLimit_budget (v : Yaml) {word : String} {w : CapWindow} (hw : windowOf word = some w) :
    readLimit (.mapping [(str "budget", v), (str "per", str word)]) = v.asU64.map fun n => ⟨.budget, n, w⟩ := by
  have hmetric : metricOf [(str "budget", v), (str "per", str word)] = v.asU64.map fun n => (.budget, n) := by
    have hbudget : amountOf [(str "budget", v), (str "per", str word)] "budget" = v.asU64 := rfl
    have htokens : amountOf [(str "budget", v), (str "per", str word)] "tokens" = none := rfl
    have hrequests : amountOf [(str "budget", v), (str "per", str word)] "requests" = none := rfl
    unfold metricOf
    rw [hrequests, htokens, hbudget]
    cases v.asU64 <;> rfl
  have hread : readLimit (.mapping [(str "budget", v), (str "per", str word)]) =
      (windowOf word).bind fun per => (metricOf [(str "budget", v), (str "per", str word)]).map fun e => ⟨e.1, e.2, per⟩ := rfl
  rw [hread, hw, Option.bind_some, hmetric, Option.map_map]
  rfl

/-- The amount of a year is divided, if it is an amount. -/
theorem asU64_rescaleAmount (v : Yaml) : (rescaleAmount v 12).asU64 = v.asU64.map fun n => max (n / 12) 1 := by
  unfold rescaleAmount
  rw [if_neg (by decide)]
  cases h : v.asU64 with
  | none => exact h
  | some n => rfl

/-- The budget limit of an old cap. -/
def budgetLimit (v : Yaml) (word : String) (ctx : List Yaml) : Yaml :=
  .mapping [(str "budget", rescaleAmount v (windowNoun word ctx).value.2), (str "per", str (windowNoun word ctx).value.1)]

/-- **A limit reads as the cap that was carried.** -/
theorem readLimit_carried (v : Yaml) (word : String) (ctx : List Yaml) :
    readLimit (budgetLimit v word ctx) = v.asU64.map (carryBudget word) := by
  unfold budgetLimit windowNoun carryBudget periodOfWord
  by_cases hminute : word ∈ ["minute", "minutely", "per_minute"]
  · rw [if_pos hminute, if_pos hminute]
    exact readLimit_budget v rfl
  rw [if_neg hminute, if_neg hminute]
  by_cases hhour : word ∈ ["hour", "hourly", "per_hour"]
  · rw [if_pos hhour, if_pos hhour]
    exact readLimit_budget v rfl
  rw [if_neg hhour, if_neg hhour]
  by_cases hday : word ∈ ["day", "daily", "per_day"]
  · rw [if_pos hday, if_pos hday]
    exact readLimit_budget v rfl
  rw [if_neg hday, if_neg hday]
  by_cases hmonth : word ∈ ["month", "monthly", "per_month"]
  · rw [if_pos hmonth, if_pos hmonth]
    exact readLimit_budget v rfl
  rw [if_neg hmonth, if_neg hmonth]
  by_cases htotal : word ∈ ["total", "lifetime", "all_time", "alltime", "never"]
  · rw [if_pos htotal, if_pos htotal]
    exact readLimit_budget v rfl
  rw [if_neg htotal, if_neg htotal]
  -- a period without a window goes to the month
  have hmonthly : windowOf "month" = some .month := rfl
  dsimp only
  by_cases hyear : word ∈ ["year", "yearly", "annual", "annually", "per_year"]
  · have hweek : word ∉ ["week", "weekly", "per_week"] := by
      simp only [List.mem_cons, List.not_mem_nil, or_false] at hyear
      rcases hyear with rfl | rfl | rfl | rfl | rfl <;> decide
    have hread := readLimit_budget (rescaleAmount v 12) hmonthly
    rw [asU64_rescaleAmount, Option.map_map] at hread
    rw [if_neg hweek]
    simp only [if_pos hyear]
    exact hread
  · have hread := readLimit_budget v hmonthly
    simp only [if_neg hyear]
    by_cases hweek : word ∈ ["week", "weekly", "per_week"]
    · rw [if_pos hweek]
      exact hread
    · rw [if_neg hweek]
      exact hread

/-! ## Groups that are written -/

/-- A budget group with its limit. -/
def writtenGroup (parent : Option Yaml) (limits : List Yaml) : Mapping :=
  (parent.toList.map fun p => (str "parent", p)) ++ [(str "limits", .sequence limits)]

theorem groupView_written (parent : Option Yaml) (limits : List Yaml) :
    groupView (.mapping (writtenGroup parent limits)) = ⟨parent.bind Yaml.asStr, limits.filterMap readLimit⟩ := by
  cases parent <;> rfl

theorem budgetGroup_value (hg : Mapping.Distinct (asMap g)) (name : Yaml) : (budgetGroup name g).value =
    .mapping (writtenGroup ((asMap g).get "parent") [budgetLimit (((asMap g).get "max_budget_cents").getD (.number (.posInt 0)))
      (wordOf (asMap g)) [str "groups", name]]) := by
  have hparent := Mapping.distinct_swapRemove hg "parent"
  have hamount : (Mapping.swapRemove "parent" (asMap g)).get "max_budget_cents" = (asMap g).get "max_budget_cents" :=
    (Mapping.get_swapRemove hg _ _).trans (if_neg (by decide))
  have hperiod : (Mapping.swapRemove "max_budget_cents" (Mapping.swapRemove "parent" (asMap g))).get "budget_period" =
      (asMap g).get "budget_period" := by
    rw [Mapping.get_swapRemove hparent, if_neg (by decide), Mapping.get_swapRemove hg, if_neg (by decide)]
  unfold budgetGroup take wordOf budgetLimit
  rw [← hamount, ← hperiod]
  rfl

/-- **A budget group.** It keeps its parent, and its budget as carried. -/
theorem groupView_budgetGroup (hg : Mapping.Distinct (asMap g)) (name : Yaml) :
    groupView (budgetGroup name g).value = budgetView g := by
  rw [budgetGroup_value hg, groupView_written]
  unfold budgetView
  rw [List.filterMap_cons, List.filterMap_nil, readLimit_carried]
  cases (((asMap g).get "max_budget_cents").getD (.number (.posInt 0))).asU64 <;> rfl

/-! ## Roles -/

/-- The caps of a role, when nothing else of it is taken. -/
theorem roleCaps_value (hb : Mapping.Distinct b) :
    (roleCaps b).1 = ⟨b.get "rpm_limit", b.get "tpm_limit", b.get "max_budget_cents", wordOf b⟩ := by
  have h1 := Mapping.distinct_swapRemove hb "rpm_limit"
  have h2 := Mapping.distinct_swapRemove h1 "tpm_limit"
  have h3 := Mapping.distinct_swapRemove h2 "max_budget_cents"
  have htpm : (b.swapRemove "rpm_limit").get "tpm_limit" = b.get "tpm_limit" :=
    (Mapping.get_swapRemove hb _ _).trans (if_neg (by decide))
  have hbudget : ((b.swapRemove "rpm_limit").swapRemove "tpm_limit").get "max_budget_cents" = b.get "max_budget_cents" := by
    rw [Mapping.get_swapRemove h1, if_neg (by decide), Mapping.get_swapRemove hb, if_neg (by decide)]
  have hperiod : (((b.swapRemove "rpm_limit").swapRemove "tpm_limit").swapRemove "max_budget_cents").get "budget_period" =
      b.get "budget_period" := by
    rw [Mapping.get_swapRemove h2, if_neg (by decide), Mapping.get_swapRemove h1, if_neg (by decide),
      Mapping.get_swapRemove hb, if_neg (by decide)]
  unfold roleCaps take wordOf
  dsimp only
  rw [htpm, hbudget, hperiod]

/-- The keys that a binding takes out of a role. -/
def bindingKeys : List String := ["allowed_pools", "budget_group", "group", "admin_scope"]

/-- The group a role names. -/
def namedGroup (b : Mapping) : Option Yaml := (b.get "budget_group").or (b.get "group")

def bindingOf (b : Mapping) : Mapping :=
  ((b.get "allowed_pools").toList.map fun v => (str "allowed_pools", v)) ++ ((namedGroup b).toList.map fun v => (str "group", v))
    ++ ((b.get "admin_scope").toList.map fun v => (str "admin_scope", v))

theorem roleBinding_value (module : String) (role : Yaml) (hb : Mapping.Distinct b) : (roleBinding module role b).value.1 = bindingOf b ∧
    Changes bindingKeys b (roleBinding module role b).value.2 := by
  have h1 := Mapping.distinct_swapRemove hb "allowed_pools"
  have h2 := Mapping.distinct_swapRemove h1 "budget_group"
  have hpools : Changes bindingKeys b (b.swapRemove "allowed_pools") := changes_swapRemove (by decide) b
  have hbudget : Changes bindingKeys b ((b.swapRemove "allowed_pools").swapRemove "budget_group") :=
    hpools.trans (changes_swapRemove (by decide) _)
  have hgroup : (b.swapRemove "allowed_pools").get "budget_group" = b.get "budget_group" :=
    (Mapping.get_swapRemove hb _ _).trans (if_neg (by decide))
  have hother : ((b.swapRemove "allowed_pools").swapRemove "budget_group").get "group" = b.get "group" := by
    rw [Mapping.get_swapRemove h1, if_neg (by decide), Mapping.get_swapRemove hb, if_neg (by decide)]
  have hscope : ((b.swapRemove "allowed_pools").swapRemove "budget_group").get "admin_scope" = b.get "admin_scope" := by
    rw [Mapping.get_swapRemove h1, if_neg (by decide), Mapping.get_swapRemove hb, if_neg (by decide)]
  have hscope' : (((b.swapRemove "allowed_pools").swapRemove "budget_group").swapRemove "group").get "admin_scope" =
      b.get "admin_scope" := by
    rw [Mapping.get_swapRemove h2, if_neg (by decide), hscope]
  unfold roleBinding take bindingOf namedGroup
  simp only [value_bind, value_pure, hgroup]
  cases b.get "budget_group" with
  | some v =>
    dsimp only
    rw [hscope]
    exact ⟨rfl, hbudget.trans (changes_swapRemove (by decide) _)⟩
  | none =>
    dsimp only
    rw [hscope', hother, Option.none_or]
    exact ⟨rfl, hbudget.trans ((changes_swapRemove (by decide) _).trans (changes_swapRemove (by decide) _))⟩

/-- The group of a binding: the one the role names, or the one generated for it. -/
def boundGroup (role : Yaml) (b : Mapping) : Option Yaml :=
  (namedGroup b).or (if hasCaps b then some (str (groupName role)) else none)

theorem limits_value (c : RoleCaps) (group : Yaml) : (c.limits group).value.filterMap readLimit =
    (c.rpm.toList.filterMap fun v => v.asU64.map fun n => ⟨.requests, n, .minute⟩) ++
    (c.tpm.toList.filterMap fun v => v.asU64.map fun n => ⟨.tokens, n, .minute⟩) ++
    (c.budget.toList.filterMap fun v => v.asU64.map (carryBudget c.period)) := by
  have hvalue : (c.limits group).value = (c.rpm.toList.map fun v => .mapping [(str "requests", v), (str "per", str "minute")]) ++
      (c.tpm.toList.map fun v => .mapping [(str "tokens", v), (str "per", str "minute")]) ++
      (c.budget.toList.map fun v => budgetLimit v c.period [str "groups", group]) := by
    unfold RoleCaps.limits
    cases c.budget <;> rfl
  rw [hvalue, List.filterMap_append, List.filterMap_append, List.filterMap_map, List.filterMap_map, List.filterMap_map]
  have hrequests : (readLimit ∘ fun v => .mapping [(str "requests", v), (str "per", str "minute")]) =
      fun v : Yaml => v.asU64.map fun n => ⟨.requests, n, .minute⟩ := funext readLimit_minute
  have htokens : (readLimit ∘ fun v => .mapping [(str "tokens", v), (str "per", str "minute")]) =
      fun v : Yaml => v.asU64.map fun n => ⟨.tokens, n, .minute⟩ := funext readLimit_tokens
  have hbudget : (readLimit ∘ fun v => budgetLimit v c.period [str "groups", group]) =
      fun v : Yaml => v.asU64.map (carryBudget c.period) := funext fun v => readLimit_carried v _ _
  rw [hrequests, htokens, hbudget]

/-- **A role.** Its binding has the group, and the group generated for it has its caps. -/
theorem migrateRole_value (module : String) (role : Yaml) (generated : Mapping) {b : Yaml} (hb : Mapping.Distinct (asMap b)) :
    ∃ limits : List Yaml, limits.filterMap readLimit = carriedCaps (asMap b) ∧
      ((migrateRole module role b generated).value.1.mapping?.bind fun m => m.get "group") = boundGroup role (asMap b) ∧
      (migrateRole module role b generated).value.2 =
        if hasCaps (asMap b) then Mapping.insert (groupName role) (.mapping (writtenGroup none limits)) generated
        else generated := by
  obtain ⟨hbinding, hrest⟩ := roleBinding_value module role hb
  obtain ⟨hdistinct, hget⟩ := hrest hb
  -- the caps are not among the keys that the binding takes
  have hcaps : (roleCaps (roleBinding module role (asMap b)).value.2).1 = ⟨(asMap b).get "rpm_limit", (asMap b).get "tpm_limit",
      (asMap b).get "max_budget_cents", wordOf (asMap b)⟩ := by
    rw [roleCaps_value hdistinct]
    unfold wordOf
    rw [hget _ (by decide), hget _ (by decide), hget _ (by decide), hget _ (by decide)]
  have hsome : (((asMap b).get "rpm_limit").isSome || ((asMap b).get "tpm_limit").isSome ||
      ((asMap b).get "max_budget_cents").isSome) = hasCaps (asMap b) := by
    unfold hasCaps
    rw [Mapping.containsKey_eq, Mapping.containsKey_eq, Mapping.containsKey_eq]
  have hnamed : (bindingOf (asMap b)).get "group" = namedGroup (asMap b) := by
    unfold bindingOf
    cases (asMap b).get "allowed_pools" <;> cases namedGroup (asMap b) <;> cases (asMap b).get "admin_scope" <;> rfl
  have hlimits := limits_value ⟨(asMap b).get "rpm_limit", (asMap b).get "tpm_limit", (asMap b).get "max_budget_cents",
    wordOf (asMap b)⟩ (str (groupName role))
  refine ⟨_, hlimits.trans ?_, ?_⟩
  · unfold carriedCaps minuteCaps amountOf
    have hcap : ∀ (v : Option Yaml) (f : Nat → Cap),
        (v.toList.filterMap fun v => v.asU64.map f) = (v.bind Yaml.asU64).toList.map f := by
      intro v f
      cases v with
      | none => rfl
      | some v =>
        rw [Option.bind_some, Option.toList_some, List.filterMap_cons, List.filterMap_nil]
        cases v.asU64 <;> rfl
    rw [hcap, hcap, hcap]
  · unfold migrateRole boundGroup
    rw [value_bind]
    generalize (roleBinding module role (asMap b)).value = taken at hbinding hcaps
    obtain ⟨binding, rest⟩ := taken
    dsimp only at hbinding hcaps
    subst hbinding
    dsimp only
    rw [hcaps, hsome]
    by_cases hhas : hasCaps (asMap b) = true
    · rw [if_pos hhas, if_pos hhas, if_pos hhas]
      refine ⟨?_, rfl⟩
      have hkey : (bindingOf (asMap b)).containsKey "group" = (namedGroup (asMap b)).isSome := by
        rw [Mapping.containsKey_eq, hnamed]
      rw [hkey]
      cases hgroup : namedGroup (asMap b) with
      | some g =>
        rw [hgroup] at hnamed
        exact hnamed
      | none => exact (Mapping.get_insert _ _ _ _).trans (if_pos rfl)
    · rw [if_neg hhas, if_neg hhas, if_neg hhas]
      refine ⟨?_, rfl⟩
      rw [Option.or_none]
      exact hnamed

/-! ## The role map -/

theorem generatedView_cons (e : Yaml × Yaml) (gm : Mapping) (name : String) : generatedView (e :: gm) name =
    (generatedView gm name).or
      (if hasCaps (asMap e.2) ∧ groupName e.1 = name then some ⟨none, carriedCaps (asMap e.2)⟩ else none) := by
  unfold generatedView
  rw [List.filter_cons]
  by_cases h : hasCaps (asMap e.2) ∧ groupName e.1 = name
  · rw [if_pos h, if_pos (by simp [h])]
    rcases List.eq_nil_or_concat (gm.filter fun e => hasCaps (asMap e.2) && groupName e.1 = name) with hnil | ⟨l, x, hl⟩
    · rw [hnil]
      rfl
    · rw [hl, List.concat_eq_append, ← List.cons_append, List.getLast?_concat, List.getLast?_concat]
      rfl
  · rw [if_neg h, if_neg (by simpa using h), Option.or_none]

/-- Every key is a string. -/
def Named (m : Mapping) : Prop := ∀ e ∈ m, ∃ s, e.1 = .string s

theorem named_insert {v : Yaml} {k : String} (hm : Named m) : Named (Mapping.insert k v m) := by
  induction m with
  | nil => exact fun e he => ⟨k, by rw [List.mem_singleton.1 he]⟩
  | cons e m ih =>
    unfold Mapping.insert
    have htail : Named m := fun x hx => hm x (List.mem_cons_of_mem e hx)
    by_cases hkey : Mapping.isKey k e.1 = true
    · rw [if_pos hkey]
      intro x hx
      rcases List.mem_cons.1 hx with rfl | hx
      · exact hm e List.mem_cons_self
      · exact htail x hx
    · rw [if_neg hkey]
      intro x hx
      rcases List.mem_cons.1 hx with rfl | hx
      · exact hm x List.mem_cons_self
      · exact ih htail x hx

/-- **The roles of a map.** Each has its binding, and the groups generated are those of the table. -/
theorem migrateRoles_value (module : String) (hgm : ∀ e ∈ gm, Mapping.Distinct (asMap e.2)) (generated : Mapping) :
    (∀ r, (((migrateRoles module gm generated).value.1.get r).bind Yaml.mapping?).bind (fun m => m.get "group") =
      (gm.get r).bind fun b => boundGroup (.string r) (asMap b)) ∧
    (∀ name, ((migrateRoles module gm generated).value.2.get name).map groupView =
      (generatedView gm name).or ((generated.get name).map groupView)) ∧
    (Named generated → Named (migrateRoles module gm generated).value.2) ∧
    (Mapping.Distinct generated → Mapping.Distinct (migrateRoles module gm generated).value.2) := by
  induction gm generalizing generated with
  | nil => exact ⟨fun r => rfl, fun name => (Option.none_or ..).symm, id, id⟩
  | cons e gm ih =>
    obtain ⟨role, b⟩ := e
    obtain ⟨limits, hlimits, hbound, hgroups⟩ :=
      migrateRole_value module role generated (hgm _ List.mem_cons_self)
    obtain ⟨hroles, hviews, hnamed, hdistinct⟩ :=
      ih (fun e he => hgm e (List.mem_cons_of_mem _ he)) (migrateRole module role b generated).value.2
    have hfirst : (migrateRoles module ((role, b) :: gm) generated).value.1 =
        (role, (migrateRole module role b generated).value.1) ::
          (migrateRoles module gm (migrateRole module role b generated).value.2).value.1 := rfl
    have hsecond : (migrateRoles module ((role, b) :: gm) generated).value.2 =
        (migrateRoles module gm (migrateRole module role b generated).value.2).value.2 := rfl
    rw [hsecond]
    refine ⟨?_, ?_, ?_, ?_⟩
    · intro r
      rw [hfirst, Mapping.get_cons, Mapping.get_cons]
      by_cases hkey : Mapping.isKey r role = true
      · rw [if_pos hkey, if_pos hkey, Option.bind_some, Option.bind_some]
        rw [Mapping.isKey_iff] at hkey
        rw [← hkey]
        exact hbound
      · rw [if_neg hkey, if_neg hkey]
        exact hroles r
    · intro name
      rw [hviews, hgroups, generatedView_cons]
      dsimp only
      by_cases hhas : hasCaps (asMap b) = true
      · rw [if_pos hhas, Mapping.get_insert]
        by_cases hname : name = groupName role
        · rw [if_pos hname, if_pos ⟨hhas, hname.symm⟩, Option.map_some, groupView_written, hlimits]
          cases generatedView gm name <;> rfl
        · rw [if_neg hname, if_neg (fun h => hname h.2.symm), Option.or_none]
      · rw [if_neg hhas, if_neg (fun h => hhas h.1), Option.or_none]
    · intro h
      refine hnamed ?_
      rw [hgroups]
      split
      · exact named_insert h
      · exact h
    · intro h
      refine hdistinct ?_
      rw [hgroups]
      split
      · exact Mapping.distinct_insert h _ _
      · exact h

theorem insertKey_string (k : String) (v : Yaml) (m : Mapping) : Mapping.insertKey (.string k) v m = Mapping.insert k v m := by
  induction m with
  | nil => rfl
  | cons e m ih =>
    have hkey : (Yaml.string k).eq e.1 = Mapping.isKey k e.1 := by
      cases e.1 with
      | string s =>
        unfold Yaml.eq Mapping.isKey
        rw [decide_eq_decide]
        exact eq_comm
      | _ =>
        unfold Yaml.eq Mapping.isKey
        rfl
    unfold Mapping.insertKey Mapping.insert
    rw [hkey, ih]

/-- The groups that join win. -/
theorem get_addGroups {generated : Mapping} (hdistinct : Mapping.Distinct generated) (hnamed : Named generated)
    (groups : Mapping) (k : String) : (addGroups generated groups).get k = (generated.get k).or (groups.get k) := by
  induction generated generalizing groups with
  | nil => exact (Option.none_or ..).symm
  | cons e generated ih =>
    obtain ⟨key, v⟩ := e
    obtain ⟨s, hs⟩ := hnamed _ List.mem_cons_self
    dsimp only at hs
    subst hs
    have htail : Mapping.Distinct generated := (List.nodup_cons.1 hdistinct).2
    have hfresh : Mapping.get generated s = none := Mapping.get_eq_none_iff.2 (List.nodup_cons.1 hdistinct).1
    unfold addGroups
    rw [ih htail (fun e he => hnamed e (List.mem_cons_of_mem _ he)), insertKey_string, Mapping.get_insert, Mapping.get_cons]
    by_cases hk : k = s
    · subst hk
      rw [hfresh, if_pos rfl, if_pos (Mapping.isKey_self k)]
      rfl
    · have hno : Mapping.isKey k (.string s) = false := by
        rw [Bool.eq_false_iff, ne_eq, Mapping.isKey_iff, Yaml.string.injEq]
        exact fun h => hk h.symm
      rw [if_neg hk, hno, if_neg Bool.false_ne_true]

end Busbar.Migrate
