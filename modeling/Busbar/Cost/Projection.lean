import Busbar.Cost
import Busbar.Governance.Admit
import Busbar.Lib.Walk
import Mathlib.Order.Bounds.Basic

/-!
# What the projected limits mean

The limits of a group are merged into buckets by window and scope. A bucket's cap of a metric is the least amount of the
limits merged into it, whatever their order, and its downgrade that of a least budget.

* `CapOf`: the least of a set, if it has any.
* `Projects.step`: one more limit keeps what a projection says of the limits so far.
* `projectGroups_spec`: the buckets of the configured groups.
-/

namespace Busbar

/-- The cap a set of amounts makes: none for no amount, else the least. -/
def CapOf {α : Type} [LinearOrder α] (S : Set α) : Option α → Prop
  | none => S = ∅
  | some c => IsLeast S c

namespace CapOf

variable {α : Type} [LinearOrder α] {S : Set α} {cap : Option α}

/-- One more amount: the smaller one counts. -/
theorem insert (h : CapOf S cap) (a : α) : CapOf (insert a S) (some (cap.elim a (fun c => min c a))) := by
  cases cap with
  | none =>
    rw [show S = ∅ from h]
    exact ⟨Set.mem_insert a ∅, fun b hb => (Set.mem_insert_iff.1 hb).elim (fun he => he.ge) fun hf => hf.elim⟩
  | some c =>
    have hc : IsLeast S c := h
    have hmin := hc.insert a
    rwa [min_comm] at hmin

/-- A set makes one cap. -/
theorem unique {cap' : Option α} (h : CapOf S cap) (h' : CapOf S cap') : cap = cap' := by
  cases cap with
  | none =>
    cases cap' with
    | none => rfl
    | some c' =>
      rw [show S = ∅ from h] at h'
      exact h'.1.elim
  | some c =>
    cases cap' with
    | none =>
      rw [show S = ∅ from h'] at h
      exact h.1.elim
    | some c' => exact congrArg some (IsLeast.unique h h')

/-- A test that the least amount fails is one that some amount fails. -/
theorem any_iff (h : CapOf S cap) {p : α → Bool} (hp : ∀ a b, a ≤ b → p b = true → p a = true) :
    cap.any p = true ↔ ∃ a ∈ S, p a = true := by
  cases cap with
  | none =>
    rw [show S = ∅ from h]
    simp
  | some c =>
    have hc : IsLeast S c := h
    rw [Option.any_some]
    exact ⟨fun hpc => ⟨c, hc.1, hpc⟩, fun ⟨a, ha, hpa⟩ => hp c a (hc.2 ha) hpa⟩

end CapOf

/-- The limit caps a windowed metric in the bucket of this window word and scope. -/
def LimitCfg.Into (l : LimitCfg) (window : String) (scope : Option ScopeRef) : Prop :=
  l.metric ≠ .concurrent ∧ l.per.map LimitWindow.asStr = some window ∧ l.scope = scope

/-- The amounts of a metric that meet in a bucket. -/
def amounts (limits : List LimitCfg) (metric : LimitMetric) (window : String) (scope : Option ScopeRef) : Set Nat :=
  {a | ∃ l ∈ limits, l.metric = metric ∧ l.Into window scope ∧ l.amount = a}

/-- An amount of cents as the signed type holds it. -/
def asCents (amount : Nat) : Int := min amount i64Max

theorem amounts_snoc (limits : List LimitCfg) (l : LimitCfg) (metric : LimitMetric) (window : String)
    (scope : Option ScopeRef) :
    amounts (limits ++ [l]) metric window scope =
      {a | a ∈ amounts limits metric window scope ∨ l.metric = metric ∧ l.Into window scope ∧ l.amount = a} := by
  ext a
  simp only [amounts, Set.mem_ofPred_eq, List.mem_append, List.mem_singleton]
  constructor
  · rintro ⟨l', hl' | rfl, h⟩
    · exact Or.inl ⟨l', hl', h⟩
    · exact Or.inr h
  · rintro (⟨l', hl', h⟩ | h)
    · exact ⟨l', Or.inl hl', h⟩
    · exact ⟨l, Or.inr rfl, h⟩

theorem amounts_skip {limits : List LimitCfg} {l : LimitCfg} {metric : LimitMetric} {window : String}
    {scope : Option ScopeRef} (h : ¬ (l.metric = metric ∧ l.Into window scope)) :
    amounts (limits ++ [l]) metric window scope = amounts limits metric window scope := by
  rw [amounts_snoc]
  ext a
  exact ⟨fun ha => ha.elim id fun hf => absurd ⟨hf.1, hf.2.1⟩ h, Or.inl⟩

theorem amounts_add {limits : List LimitCfg} {l : LimitCfg} {window : String} {scope : Option ScopeRef}
    (h : l.Into window scope) :
    amounts (limits ++ [l]) l.metric window scope = insert l.amount (amounts limits l.metric window scope) := by
  rw [amounts_snoc]
  ext a
  rw [Set.mem_insert_iff]
  exact ⟨fun ha => ha.elim Or.inr fun hf => Or.inl hf.2.2.symm,
    fun ha => ha.elim (fun he => Or.inr ⟨rfl, h, he.symm⟩) Or.inl⟩

/-! ## One bucket -/

/-- What a bucket says of the limits merged into it. -/
structure Merges (limits : List LimitCfg) (b : GroupBucket) : Prop where
  requests : CapOf (amounts limits .requests b.window b.scope) b.requestsCap
  tokens : CapOf (amounts limits .tokens b.window b.scope) b.tokensCap
  budget : CapOf (asCents '' amounts limits .budget b.window b.scope) b.budgetCap
  downgrade : ∀ c, b.budgetCap = some c → ∃ l ∈ limits, l.metric = .budget ∧ l.Into b.window b.scope ∧
    asCents l.amount = c ∧ l.downgradeTo = b.downgradeTo

namespace GroupBucket

variable (b : GroupBucket) (l : LimitCfg)

@[simp] theorem window_add : (b.add l).window = b.window := by
  unfold add
  split <;> rfl

@[simp] theorem scope_add : (b.add l).scope = b.scope := by
  unfold add
  split <;> rfl

@[simp] theorem bucketId_add : (b.add l).bucketId = b.bucketId := by
  unfold add
  split <;> rfl

end GroupBucket

variable {limits : List LimitCfg} {b : GroupBucket} {l : LimitCfg}

theorem Merges.skip (h : Merges limits b) (hl : ¬ l.Into b.window b.scope) : Merges (limits ++ [l]) b := by
  have hsame : ∀ metric, amounts (limits ++ [l]) metric b.window b.scope = amounts limits metric b.window b.scope :=
    fun metric => amounts_skip fun hf => hl hf.2
  refine ⟨?_, ?_, ?_, fun c hc => ?_⟩
  · rw [hsame]
    exact h.requests
  · rw [hsame]
    exact h.tokens
  · rw [hsame]
    exact h.budget
  · obtain ⟨l', hl', hrest⟩ := h.downgrade c hc
    exact ⟨l', List.mem_append_left _ hl', hrest⟩

theorem Merges.empty {name window : String} {scope : Option ScopeRef} (h : ∀ l ∈ limits, ¬ l.Into window scope) :
    Merges limits (GroupBucket.empty name window scope) := by
  have hnone : ∀ metric, amounts limits metric window scope = ∅ := by
    intro metric
    ext a
    exact ⟨fun ⟨l, hl, _, hinto, _⟩ => h l hl hinto, fun hf => hf.elim⟩
  refine ⟨hnone .requests, hnone .tokens, ?_, fun c hc => by cases hc⟩
  show asCents '' amounts limits .budget window scope = ∅
  rw [hnone, Set.image_empty]

/-- One more limit merged into its bucket. -/
theorem Merges.add (h : Merges limits b) (hl : l.Into b.window b.scope) : Merges (limits ++ [l]) (b.add l) := by
  have hother : ∀ metric, l.metric ≠ metric →
      amounts (limits ++ [l]) metric b.window b.scope = amounts limits metric b.window b.scope :=
    fun metric hne => amounts_skip fun hf => hne hf.1
  have hown : amounts (limits ++ [l]) l.metric b.window b.scope =
      insert l.amount (amounts limits l.metric b.window b.scope) := amounts_add hl
  have hkept : ∀ c, b.budgetCap = some c → ∃ l' ∈ limits ++ [l], l'.metric = .budget ∧ l'.Into b.window b.scope ∧
      asCents l'.amount = c ∧ l'.downgradeTo = b.downgradeTo := by
    intro c hc
    obtain ⟨l', hl', hrest⟩ := h.downgrade c hc
    exact ⟨l', List.mem_append_left _ hl', hrest⟩
  unfold GroupBucket.add
  cases hm : l.metric with
  | concurrent => exact absurd hm hl.1
  | requests =>
    rw [hm] at hown
    refine ⟨?_, ?_, ?_, hkept⟩
    · show CapOf (amounts (limits ++ [l]) .requests b.window b.scope) (GroupBucket.minCap b.requestsCap l.amount)
      rw [hown]
      exact h.requests.insert l.amount
    · show CapOf (amounts (limits ++ [l]) .tokens b.window b.scope) b.tokensCap
      rw [hother .tokens (by rw [hm]; decide)]
      exact h.tokens
    · show CapOf (asCents '' amounts (limits ++ [l]) .budget b.window b.scope) b.budgetCap
      rw [hother .budget (by rw [hm]; decide)]
      exact h.budget
  | tokens =>
    rw [hm] at hown
    refine ⟨?_, ?_, ?_, hkept⟩
    · show CapOf (amounts (limits ++ [l]) .requests b.window b.scope) b.requestsCap
      rw [hother .requests (by rw [hm]; decide)]
      exact h.requests
    · show CapOf (amounts (limits ++ [l]) .tokens b.window b.scope) (GroupBucket.minCap b.tokensCap l.amount)
      rw [hown]
      exact h.tokens.insert l.amount
    · show CapOf (asCents '' amounts (limits ++ [l]) .budget b.window b.scope) b.budgetCap
      rw [hother .budget (by rw [hm]; decide)]
      exact h.budget
  | budget =>
    rw [hm] at hown
    have hin : l ∈ limits ++ [l] := List.mem_append_right _ (List.mem_singleton_self l)
    refine ⟨?_, ?_, ?_, ?_⟩
    · show CapOf (amounts (limits ++ [l]) .requests b.window b.scope) b.requestsCap
      rw [hother .requests (by rw [hm]; decide)]
      exact h.requests
    · show CapOf (amounts (limits ++ [l]) .tokens b.window b.scope) b.tokensCap
      rw [hother .tokens (by rw [hm]; decide)]
      exact h.tokens
    · show CapOf (asCents '' amounts (limits ++ [l]) .budget b.window b.scope)
        (some (b.budgetCap.elim (asCents l.amount) (fun c => min c (asCents l.amount))))
      rw [hown, Set.image_insert_eq]
      exact h.budget.insert (asCents l.amount)
    · -- the downgrade moves exactly when the new amount is strictly the least
      intro c hc
      obtain rfl : b.budgetCap.elim (asCents l.amount) (fun c => min c (asCents l.amount)) = c := Option.some.inj hc
      show ∃ l' ∈ limits ++ [l], l'.metric = .budget ∧ l'.Into b.window b.scope ∧
        asCents l'.amount = b.budgetCap.elim (asCents l.amount) (fun c => min c (asCents l.amount)) ∧
        l'.downgradeTo =
          if b.budgetCap.all (fun c => asCents l.amount < c) then l.downgradeTo else b.downgradeTo
      cases hcap : b.budgetCap with
      | none => exact ⟨l, hin, hm, hl, rfl, rfl⟩
      | some old =>
        by_cases hless : asCents l.amount < old
        · refine ⟨l, hin, hm, hl, (min_eq_right hless.le).symm, ?_⟩
          simp [hless]
        · obtain ⟨l', hl', hm', hinto, hamount, hdown⟩ := hkept old hcap
          refine ⟨l', hl', hm', hinto, hamount.trans (min_eq_left (not_lt.1 hless)).symm, ?_⟩
          simp [hless, hdown]

/-! ## The buckets of a group -/

/-- What a projection says of the limits of a group. -/
structure Projects (name : String) (limits : List LimitCfg) (acc : Option Nat × List GroupBucket) : Prop where
  concurrent : CapOf {a | ∃ l ∈ limits, l.metric = .concurrent ∧ l.amount = a} acc.1
  keys : (acc.2.map fun b => (b.window, b.scope)).Nodup
  ids : ∀ b ∈ acc.2, b.bucketId = GroupBucket.idOf name b.window b.scope
  merges : ∀ b ∈ acc.2, Merges limits b
  covers : ∀ l ∈ limits, ∀ window scope, l.Into window scope → ∃ b ∈ acc.2, b.window = window ∧ b.scope = scope
  used : ∀ b ∈ acc.2, ∃ l ∈ limits, l.Into b.window b.scope

/-- A limit goes into the bucket of its window and scope, or into a new one at the end. -/
theorem addToBuckets_cases (name : String) (l : LimitCfg) (window : String) (bs : List GroupBucket) :
    (∃ bs₁ b bs₂, bs = bs₁ ++ b :: bs₂ ∧ (b.window = window ∧ b.scope = l.scope) ∧
        addToBuckets name l window bs = bs₁ ++ b.add l :: bs₂) ∨
      (∀ b ∈ bs, ¬ (b.window = window ∧ b.scope = l.scope)) ∧
        addToBuckets name l window bs = bs ++ [(GroupBucket.empty name window l.scope).add l] := by
  induction bs with
  | nil => exact Or.inr ⟨fun _ hf => absurd hf List.not_mem_nil, rfl⟩
  | cons b bs ih =>
    unfold addToBuckets
    by_cases hb : b.window = window ∧ b.scope = l.scope
    · rw [if_pos hb]
      exact Or.inl ⟨[], b, bs, rfl, hb, rfl⟩
    · rw [if_neg hb]
      rcases ih with ⟨bs₁, b', bs₂, rfl, hb', heq⟩ | ⟨hno, heq⟩
      · exact Or.inl ⟨b :: bs₁, b', bs₂, rfl, hb', by rw [heq]; rfl⟩
      · exact Or.inr ⟨List.forall_mem_cons.2 ⟨hb, hno⟩, by rw [heq]; rfl⟩

theorem concurrent_skip (h : l.metric ≠ .concurrent) :
    {a | ∃ l' ∈ limits ++ [l], l'.metric = .concurrent ∧ l'.amount = a} =
      {a | ∃ l' ∈ limits, l'.metric = LimitMetric.concurrent ∧ l'.amount = a} := by
  ext a
  simp only [Set.mem_ofPred_eq, List.mem_append, List.mem_singleton]
  constructor
  · rintro ⟨l', hl' | rfl, hm, ha⟩
    · exact ⟨l', hl', hm, ha⟩
    · exact absurd hm h
  · rintro ⟨l', hl', hrest⟩
    exact ⟨l', Or.inl hl', hrest⟩

theorem concurrent_add (h : l.metric = .concurrent) :
    {a | ∃ l' ∈ limits ++ [l], l'.metric = .concurrent ∧ l'.amount = a} =
      insert l.amount {a | ∃ l' ∈ limits, l'.metric = LimitMetric.concurrent ∧ l'.amount = a} := by
  ext a
  simp only [Set.mem_ofPred_eq, List.mem_append, List.mem_singleton, Set.mem_insert_iff]
  constructor
  · rintro ⟨l', hl' | rfl, hm, ha⟩
    · exact Or.inr ⟨l', hl', hm, ha⟩
    · exact Or.inl ha.symm
  · rintro (rfl | ⟨l', hl', hrest⟩)
    · exact ⟨l, Or.inr rfl, h, rfl⟩
    · exact ⟨l', Or.inl hl', hrest⟩

variable {name : String} {acc : Option Nat × List GroupBucket}

/-- A limit that reaches no bucket leaves the buckets as they are. -/
theorem Projects.skip (h : Projects name limits acc) (hl : ∀ window scope, ¬ l.Into window scope) {cap : Option Nat}
    (hcap : CapOf {a | ∃ l' ∈ limits ++ [l], l'.metric = LimitMetric.concurrent ∧ l'.amount = a} cap) :
    Projects name (limits ++ [l]) (cap, acc.2) where
  concurrent := hcap
  keys := h.keys
  ids := h.ids
  merges := fun b hb => (h.merges b hb).skip (hl _ _)
  covers := by
    intro l' hl' window scope hinto
    rcases List.mem_append.1 hl' with hl' | hl'
    · exact h.covers l' hl' window scope hinto
    · rw [List.mem_singleton.1 hl'] at hinto
      exact absurd hinto (hl window scope)
  used := by
    intro b hb
    obtain ⟨l', hl', hinto⟩ := h.used b hb
    exact ⟨l', List.mem_append_left _ hl', hinto⟩

/-- A limit merged into a bucket that stands there. -/
theorem Projects.merge (h : Projects name limits acc) {bs₁ bs₂ : List GroupBucket}
    (hbs : acc.2 = bs₁ ++ b :: bs₂) (hl : l.Into b.window b.scope) :
    Projects name (limits ++ [l]) (acc.1, bs₁ ++ b.add l :: bs₂) := by
  have hkeys := h.keys
  rw [hbs] at hkeys
  have hmem : ∀ b', b' ∈ bs₁ ++ b.add l :: bs₂ → b' = b.add l ∨ b' ∈ acc.2 ∧ (b' ∈ bs₁ ∨ b' ∈ bs₂) := by
    intro b' hb'
    rw [hbs]
    rcases List.mem_append.1 hb' with hb' | hb'
    · exact Or.inr ⟨List.mem_append_left _ hb', Or.inl hb'⟩
    · rcases List.mem_cons.1 hb' with rfl | hb'
      · exact Or.inl rfl
      · exact Or.inr ⟨List.mem_append_right _ (List.mem_cons_of_mem _ hb'), Or.inr hb'⟩
  have hb : b ∈ acc.2 := by
    rw [hbs]
    exact List.mem_append_right _ List.mem_cons_self
  -- the other buckets are of another window or scope
  have hother : ∀ b', b' ∈ bs₁ ∨ b' ∈ bs₂ → ¬ l.Into b'.window b'.scope := by
    intro b' hb' hinto
    have hkey : (b'.window, b'.scope) = (b.window, b.scope) :=
      Prod.ext (Option.some.inj (hinto.2.1.symm.trans hl.2.1)) (hinto.2.2.symm.trans hl.2.2)
    rw [List.map_append, List.map_cons, List.nodup_append, List.nodup_cons] at hkeys
    obtain ⟨-, ⟨hafter, -⟩, hbefore⟩ := hkeys
    rcases hb' with hb' | hb'
    · exact hbefore _ (List.mem_map_of_mem hb') _ List.mem_cons_self hkey
    · exact hafter (hkey ▸ List.mem_map_of_mem hb')
  refine ⟨?_, ?_, ?_, ?_, ?_, ?_⟩
  · rw [concurrent_skip hl.1]
    exact h.concurrent
  · rw [List.map_append, List.map_cons] at hkeys ⊢
    simpa using hkeys
  · intro b' hb'
    rcases hmem b' hb' with rfl | ⟨hold, -⟩
    · simpa using h.ids b hb
    · exact h.ids b' hold
  · intro b' hb'
    rcases hmem b' hb' with rfl | ⟨hold, hside⟩
    · exact (h.merges b hb).add hl
    · exact (h.merges b' hold).skip (hother b' hside)
  · intro l' hl' window scope hinto
    rcases List.mem_append.1 hl' with hl' | hl'
    · obtain ⟨b', hb', hw, hs⟩ := h.covers l' hl' window scope hinto
      rw [hbs] at hb'
      rcases List.mem_append.1 hb' with hb' | hb'
      · exact ⟨b', List.mem_append_left _ hb', hw, hs⟩
      · rcases List.mem_cons.1 hb' with rfl | hb'
        · exact ⟨b'.add l, List.mem_append_right _ List.mem_cons_self, by simpa using hw, by simpa using hs⟩
        · exact ⟨b', List.mem_append_right _ (List.mem_cons_of_mem _ hb'), hw, hs⟩
    · rw [List.mem_singleton.1 hl'] at hinto
      refine ⟨b.add l, List.mem_append_right _ List.mem_cons_self, ?_, ?_⟩
      · rw [GroupBucket.window_add]
        exact Option.some.inj (hl.2.1.symm.trans hinto.2.1)
      · rw [GroupBucket.scope_add]
        exact hl.2.2.symm.trans hinto.2.2
  · intro b' hb'
    rcases hmem b' hb' with rfl | ⟨hold, -⟩
    · exact ⟨l, List.mem_append_right _ (List.mem_singleton_self l), by simpa using hl⟩
    · obtain ⟨l', hl', hinto⟩ := h.used b' hold
      exact ⟨l', List.mem_append_left _ hl', hinto⟩

/-- A limit that is the first of its window and scope. -/
theorem Projects.first (h : Projects name limits acc) {window : String} (hl : l.Into window l.scope)
    (hno : ∀ b ∈ acc.2, ¬ (b.window = window ∧ b.scope = l.scope)) :
    Projects name (limits ++ [l]) (acc.1, acc.2 ++ [(GroupBucket.empty name window l.scope).add l]) := by
  have hfresh : ∀ l' ∈ limits, ¬ l'.Into window l.scope := by
    intro l' hl' hinto
    obtain ⟨b, hb, hkey⟩ := h.covers l' hl' window l.scope hinto
    exact hno b hb hkey
  have hother : ∀ b ∈ acc.2, ¬ l.Into b.window b.scope := by
    intro b hb hinto
    exact hno b hb ⟨Option.some.inj (hinto.2.1.symm.trans hl.2.1), hinto.2.2.symm⟩
  have hnew : Merges (limits ++ [l]) ((GroupBucket.empty name window l.scope).add l) :=
    (Merges.empty hfresh).add hl
  refine ⟨?_, ?_, ?_, ?_, ?_, ?_⟩
  · rw [concurrent_skip hl.1]
    exact h.concurrent
  · rw [List.map_append, List.map_singleton, List.nodup_append]
    refine ⟨h.keys, List.nodup_singleton _, ?_⟩
    intro k hk k' hk' he
    obtain ⟨b, hb, rfl⟩ := List.mem_map.1 hk
    rw [List.mem_singleton.1 hk'] at he
    simp only [GroupBucket.window_add, GroupBucket.scope_add, Prod.mk.injEq] at he
    exact hno b hb he
  · intro b hb
    rcases List.mem_append.1 hb with hb | hb
    · exact h.ids b hb
    · rw [List.mem_singleton.1 hb, GroupBucket.bucketId_add, GroupBucket.window_add, GroupBucket.scope_add]
      rfl
  · intro b hb
    rcases List.mem_append.1 hb with hb | hb
    · exact (h.merges b hb).skip (hother b hb)
    · rw [List.mem_singleton.1 hb]
      exact hnew
  · intro l' hl' w s hinto
    rcases List.mem_append.1 hl' with hl' | hl'
    · obtain ⟨b, hb, hkey⟩ := h.covers l' hl' w s hinto
      exact ⟨b, List.mem_append_left _ hb, hkey⟩
    · rw [List.mem_singleton.1 hl'] at hinto
      refine ⟨_, List.mem_append_right _ (List.mem_singleton_self _), ?_, ?_⟩
      · rw [GroupBucket.window_add]
        exact Option.some.inj (hl.2.1.symm.trans hinto.2.1)
      · rw [GroupBucket.scope_add]
        exact hinto.2.2
  · intro b hb
    rcases List.mem_append.1 hb with hb | hb
    · obtain ⟨l', hl', hinto⟩ := h.used b hb
      exact ⟨l', List.mem_append_left _ hl', hinto⟩
    · rw [List.mem_singleton.1 hb, GroupBucket.window_add, GroupBucket.scope_add]
      exact ⟨l, List.mem_append_right _ (List.mem_singleton_self l), hl⟩

/-- **One more limit.** -/
theorem Projects.step (h : Projects name limits acc) (l : LimitCfg) :
    Projects name (limits ++ [l]) (projectLimit name acc l) := by
  unfold projectLimit
  by_cases hm : l.metric = .concurrent
  · rw [hm]
    refine h.skip (fun w s hf => hf.1 hm) ?_
    rw [concurrent_add hm]
    exact h.concurrent.insert l.amount
  have hcap : CapOf {a | ∃ l' ∈ limits ++ [l], l'.metric = LimitMetric.concurrent ∧ l'.amount = a} acc.1 := by
    rw [concurrent_skip hm]
    exact h.concurrent
  cases hper : l.per with
  | none =>
    -- a windowed metric without its window cannot be configured, and is skipped
    have hskip := h.skip (fun w s hf => by rw [LimitCfg.Into, hper] at hf; cases hf.2.1) hcap
    cases hmetric : l.metric with
    | concurrent => exact absurd hmetric hm
    | requests | tokens | budget => exact hskip
  | some w =>
    have hinto : l.Into w.asStr l.scope := ⟨hm, by rw [hper]; rfl, rfl⟩
    have hadd : Projects name (limits ++ [l]) (acc.1, addToBuckets name l w.asStr acc.2) := by
      rcases addToBuckets_cases name l w.asStr acc.2 with ⟨bs₁, b, bs₂, hbs, hkey, heq⟩ | ⟨hno, heq⟩
      · rw [heq]
        exact h.merge hbs (hkey.1.symm ▸ hkey.2.symm ▸ hinto)
      · rw [heq]
        exact h.first hinto hno
    cases hmetric : l.metric with
    | concurrent => exact absurd hmetric hm
    | requests | tokens | budget => exact hadd

/-- **A group's projection**, over all its limits. -/
theorem projects (name : String) (limits : List LimitCfg) :
    Projects name limits (limits.foldl (projectLimit name) (none, [])) := by
  induction limits using List.reverseRecOn with
  | nil =>
    refine ⟨?_, List.nodup_nil, ?_, ?_, ?_, ?_⟩
    · show {a | ∃ l ∈ ([] : List LimitCfg), l.metric = LimitMetric.concurrent ∧ l.amount = a} = ∅
      ext a
      simp
    · exact fun b hb => absurd hb List.not_mem_nil
    · exact fun b hb => absurd hb List.not_mem_nil
    · exact fun l hl => absurd hl List.not_mem_nil
    · exact fun b hb => absurd hb List.not_mem_nil
  | append_singleton limits l ih =>
    rw [List.foldl_append]
    exact ih.step l

/-- Each configured group has its runtime, and the other way round. -/
theorem mem_projectGroups {groups : Table String GroupCfg} {g : GroupRuntime} (hg : g ∈ CostModel.projectGroups groups) :
    ∃ cfg, (g.name, cfg) ∈ groups.rows ∧ Projects g.name cfg.limits (g.concurrentCap, g.buckets) ∧
      g.enabled = cfg.enabled := by
  obtain ⟨⟨name, cfg⟩, hrow, rfl⟩ := List.mem_map.1 hg
  exact ⟨cfg, hrow, projects name cfg.limits, rfl⟩

/-! ## What a bucket tests -/

/-- One more request is within one windowed limit, at the counters of its bucket. A budget is held in the signed
type. -/
def LimitCfg.Holds (fee : Int) (used : Nat × Nat × Int) (l : LimitCfg) : Prop :=
  match l.metric with
  | .requests => satAdd used.1 1 ≤ l.amount
  | .tokens => used.2.1 < l.amount
  | .budget => used.2.2 < asCents l.amount ∧ min (used.2.2 + fee) i64Max ≤ asCents l.amount
  | .concurrent => True

/-- **A bucket lets a request through if and only if each limit merged into it does.** -/
theorem Merges.blockedMetric_iff (h : Merges limits b) (group : String) (fee : Int) (used : Nat × Nat × Int) :
    (b.toChain group).blockedMetric fee used = none ↔
      ∀ l ∈ limits, l.Into b.window b.scope → l.Holds fee used := by
  have hrequests := h.requests.any_iff (p := fun cap => decide (cap < satAdd used.1 1)) fun a c hac hc => by
    rw [decide_eq_true_eq] at hc ⊢
    omega
  have htokens := h.tokens.any_iff (p := fun cap => decide (cap ≤ used.2.1)) fun a c hac hc => by
    rw [decide_eq_true_eq] at hc ⊢
    omega
  have hbudget := h.budget.any_iff (p := fun cap => decide (cap ≤ used.2.2 ∨ cap < min (used.2.2 + fee) i64Max))
    fun a c hac hc => by
      rw [decide_eq_true_eq] at hc ⊢
      omega
  have hblocked : (b.toChain group).blockedMetric fee used = none ↔
      ¬ b.requestsCap.any (fun cap => decide (cap < satAdd used.1 1)) = true ∧
      ¬ b.tokensCap.any (fun cap => decide (cap ≤ used.2.1)) = true ∧
      ¬ b.budgetCap.any (fun cap => decide (cap ≤ used.2.2 ∨ cap < min (used.2.2 + fee) i64Max)) = true := by
    unfold ChainBucket.blockedMetric GroupBucket.toChain
    dsimp only
    split
    · simp_all
    · split
      · simp_all
      · split
        · simp_all
        · simp_all
  rw [hblocked, hrequests, htokens, hbudget]
  constructor
  · rintro ⟨hr, ht, hb⟩ l hl hinto
    unfold LimitCfg.Holds
    cases hm : l.metric with
    | concurrent => trivial
    | requests =>
      by_contra hno
      exact hr ⟨l.amount, ⟨l, hl, hm, hinto, rfl⟩, decide_eq_true (not_le.1 hno)⟩
    | tokens =>
      by_contra hno
      exact ht ⟨l.amount, ⟨l, hl, hm, hinto, rfl⟩, decide_eq_true (not_lt.1 hno)⟩
    | budget =>
      by_contra hno
      refine hb ⟨asCents l.amount, ⟨l.amount, ⟨l, hl, hm, hinto, rfl⟩, rfl⟩, decide_eq_true ?_⟩
      dsimp only at hno
      omega
  · intro hall
    refine ⟨?_, ?_, ?_⟩
    · rintro ⟨a, ⟨l, hl, hm, hinto, rfl⟩, ha⟩
      have hholds := hall l hl hinto
      unfold LimitCfg.Holds at hholds
      rw [hm] at hholds
      exact absurd hholds (not_le.2 (of_decide_eq_true ha))
    · rintro ⟨a, ⟨l, hl, hm, hinto, rfl⟩, ha⟩
      have hholds := hall l hl hinto
      unfold LimitCfg.Holds at hholds
      rw [hm] at hholds
      exact absurd hholds (not_lt.2 (of_decide_eq_true ha))
    · rintro ⟨c, ⟨a, ⟨l, hl, hm, hinto, rfl⟩, rfl⟩, ha⟩
      have hholds := hall l hl hinto
      unfold LimitCfg.Holds at hholds
      rw [hm] at hholds
      have hover := of_decide_eq_true ha
      dsimp only at hholds
      omega

/-- Permuted limits make the same buckets with the same caps. -/
theorem amounts_perm {limits' : List LimitCfg} (h : limits.Perm limits') (metric : LimitMetric) (window : String)
    (scope : Option ScopeRef) : amounts limits metric window scope = amounts limits' metric window scope := by
  ext a
  exact ⟨fun ⟨l, hl, hrest⟩ => ⟨l, h.mem_iff.1 hl, hrest⟩, fun ⟨l, hl, hrest⟩ => ⟨l, h.mem_iff.2 hl, hrest⟩⟩

theorem Projects.perm {limits' : List LimitCfg} {acc' : Option Nat × List GroupBucket} (h : Projects name limits acc)
    (h' : Projects name limits' acc') (hperm : limits.Perm limits') :
    acc.1 = acc'.1 ∧ ∀ b ∈ acc.2, ∃ b' ∈ acc'.2, b'.bucketId = b.bucketId ∧ b'.window = b.window ∧ b'.scope = b.scope ∧
      b'.requestsCap = b.requestsCap ∧ b'.tokensCap = b.tokensCap ∧ b'.budgetCap = b.budgetCap := by
  refine ⟨?_, fun b hb => ?_⟩
  · refine h.concurrent.unique ?_
    have hsame : {a | ∃ l ∈ limits, l.metric = LimitMetric.concurrent ∧ l.amount = a} =
        {a | ∃ l ∈ limits', l.metric = LimitMetric.concurrent ∧ l.amount = a} := by
      ext a
      exact ⟨fun ⟨l, hl, hrest⟩ => ⟨l, hperm.mem_iff.1 hl, hrest⟩,
        fun ⟨l, hl, hrest⟩ => ⟨l, hperm.mem_iff.2 hl, hrest⟩⟩
    rw [hsame]
    exact h'.concurrent
  · obtain ⟨l, hl, hinto⟩ := h.used b hb
    obtain ⟨b', hb', hw, hs⟩ := h'.covers l (hperm.mem_iff.1 hl) _ _ hinto
    have hm := h.merges b hb
    have hm' := h'.merges b' hb'
    refine ⟨b', hb', ?_, hw, hs, ?_, ?_, ?_⟩
    · rw [h'.ids b' hb', h.ids b hb, hw, hs]
    · refine hm'.requests.unique ?_
      rw [hw, hs, ← amounts_perm hperm]
      exact hm.requests
    · refine hm'.tokens.unique ?_
      rw [hw, hs, ← amounts_perm hperm]
      exact hm.tokens
    · refine hm'.budget.unique ?_
      rw [hw, hs, ← amounts_perm hperm]
      exact hm.budget

/-! ## The chain -/

namespace CostModel

/-- The parent a group names, if there is a group of that name. -/
def parentOf (groups : Table String GroupCfg) (name : String) : Option String :=
  (groups.lookup name).bind fun cfg => cfg.parent.filter fun p => (groups.lookup p).isSome

def groupNames (groups : Table String GroupCfg) : List String := groups.rows.map Prod.fst

variable {groups : Table String GroupCfg}

theorem lookup_isSome {n : String} : (groups.lookup n).isSome = true ↔ n ∈ groupNames groups := by
  rw [Option.isSome_iff_exists]
  constructor
  · rintro ⟨cfg, hcfg⟩
    exact List.mem_map_of_mem (Table.lookup_eq_some.1 hcfg)
  · intro h
    obtain ⟨⟨n', cfg⟩, hrow, rfl⟩ := List.mem_map.1 h
    exact ⟨cfg, Table.lookup_eq_some.2 hrow⟩

theorem indexOf_eq_some {n : String} {i : Nat} :
    indexOf (groupNames groups) n = some i ↔ (groupNames groups)[i]? = some n := by
  unfold indexOf
  rw [List.findIdx?_eq_some_iff_getElem]
  constructor
  · rintro ⟨hi, hn, -⟩
    rw [List.getElem?_eq_getElem hi]
    exact congrArg some (of_decide_eq_true hn)
  · intro h
    obtain ⟨hi, hn⟩ := List.getElem?_eq_some_iff.1 h
    refine ⟨hi, decide_eq_true hn, fun j hj => ?_⟩
    have hnodup : (groupNames groups).Nodup := groups.nodup
    rw [decide_eq_true_eq]
    intro hjn
    exact absurd ((hnodup.getElem_inj_iff).1 (hjn.trans hn.symm)) (Nat.ne_of_lt hj)

theorem indexOf_isSome {n : String} : (indexOf (groupNames groups) n).isSome = (groups.lookup n).isSome := by
  rw [Bool.eq_iff_iff, lookup_isSome, Option.isSome_iff_exists]
  constructor
  · rintro ⟨i, hi⟩
    exact List.mem_of_getElem? (indexOf_eq_some.1 hi)
  · intro h
    obtain ⟨i, hi⟩ := List.mem_iff_getElem?.1 h
    exact ⟨i, indexOf_eq_some.2 hi⟩

/-- The runtime at a position. -/
theorem projectGroups_get {i : Nat} {n : String} {cfg : GroupCfg} (h : groups.rows[i]? = some (n, cfg)) :
    ∃ g, (projectGroups groups)[i]? = some g ∧ g.name = n ∧ g.parent = cfg.parent.bind (indexOf (groupNames groups)) := by
  unfold projectGroups
  rw [List.getElem?_map, h]
  exact ⟨_, rfl, rfl, rfl⟩

theorem name_get (i : Nat) : ((projectGroups groups)[i]?).map GroupRuntime.name = (groupNames groups)[i]? := by
  unfold projectGroups groupNames
  rw [List.getElem?_map, List.getElem?_map, Option.map_map]
  rfl

/-- A position and its name, or neither. -/
def Named (groups : Table String GroupCfg) : Option Nat → Option String → Prop
  | none, none => True
  | some i, some n => (groupNames groups)[i]? = some n
  | _, _ => False

/-- The parent's position is that of the parent's name. -/
theorem named_parent {i : Nat} {n : String} {g : GroupRuntime} (h : (groupNames groups)[i]? = some n)
    (hg : (projectGroups groups)[i]? = some g) : Named groups g.parent (parentOf groups n) := by
  unfold groupNames at h
  rw [List.getElem?_map] at h
  obtain ⟨⟨n', cfg⟩, hrow, rfl⟩ := Option.map_eq_some_iff.1 h
  obtain ⟨g', hg', -, hparent⟩ := projectGroups_get hrow
  obtain rfl : g = g' := Option.some.inj (hg.symm.trans hg')
  have hcfg : groups.lookup n' = some cfg := Table.lookup_eq_some.2 (List.mem_of_getElem? hrow)
  unfold parentOf
  rw [hparent, hcfg, Option.bind_some]
  cases hp : cfg.parent with
  | none => trivial
  | some p =>
    have hsome : (indexOf (groupNames groups) p).isSome = (groups.lookup p).isSome := indexOf_isSome
    rw [Option.bind_some, Option.filter_some]
    cases hi : indexOf (groupNames groups) p with
    | none =>
      rw [hi] at hsome
      rw [← hsome]
      trivial
    | some j =>
      rw [hi] at hsome
      rw [← hsome]
      exact indexOf_eq_some.1 hi

variable {rates : Option (Table String RateNanos)} {perRequestFee : Int}

/-- The clamped loop walks the configured parents. -/
theorem walkGroups_names (fuel : Nat) {i : Option Nat} {n : Option String} (h : Named groups i n) :
    ((resolveParts rates perRequestFee groups).walkGroups fuel i).filterMap
        (fun i => ((projectGroups groups)[i]?).map GroupRuntime.name) =
      Walk.walk (parentOf groups) fuel n := by
  induction fuel generalizing i n with
  | zero => rfl
  | succ fuel ih =>
    cases i with
    | none =>
      cases n with
      | none => rfl
      | some n => exact h.elim
    | some i =>
      cases n with
      | none => exact h.elim
      | some n =>
        have hname : (groupNames groups)[i]? = some n := h
        obtain ⟨g, hg, hgn⟩ := Option.map_eq_some_iff.1 ((name_get i).trans hname)
        have hstep : (resolveParts rates perRequestFee groups).walkGroups (fuel + 1) (some i) =
            i :: (resolveParts rates perRequestFee groups).walkGroups fuel g.parent := by
          have hown : (resolveParts rates perRequestFee groups).groups[i]? = some g := hg
          rw [walkGroups, hown]
        rw [hstep, List.filterMap_cons, hg]
        dsimp only [Option.map_some]
        rw [hgn, ih (named_parent hname hg)]
        rfl

theorem groupBuckets_runtimes (cost : CostModel) (l : List Nat) :
    cost.groupBuckets l = (l.filterMap (fun i => cost.groups[i]?)).flatMap fun g =>
      g.buckets.map (GroupBucket.toChain g.name) := by
  unfold groupBuckets
  induction l with
  | nil => rfl
  | cons i l ih =>
    rw [List.flatMap_cons, ih, List.filterMap_cons]
    cases cost.groups[i]? with
    | none => rfl
    | some g => rfl

/-- **The chain of a key**: its own bucket and those of the groups its walk comes to. -/
theorem chainFor_ok {key : VirtualKey} {chain : Chain}
    (h : (resolveParts rates perRequestFee groups).chainFor key = .ok chain) :
    (chain.runtimes (resolveParts rates perRequestFee groups)).map GroupRuntime.name =
        Walk.walk (parentOf groups) groups.rows.length key.group ∧
      chain.buckets = keyBucket key.id ::
        (chain.runtimes (resolveParts rates perRequestFee groups)).flatMap fun g =>
          g.buckets.map (GroupBucket.toChain g.name) := by
  have hlen : (resolveParts rates perRequestFee groups).groups.length = groups.rows.length := List.length_map _
  unfold chainFor at h
  cases hgroup : key.group with
  | none =>
    rw [hgroup] at h
    cases h
    refine ⟨?_, rfl⟩
    cases groups.rows.length with
    | zero => rfl
    | succ n => rfl
  | some n =>
    rw [hgroup] at h
    dsimp only at h
    cases hi : (resolveParts rates perRequestFee groups).groupIdx n with
    | none =>
      rw [hi] at h
      cases h
    | some i =>
      rw [hi] at h
      cases h
      have hnamed : Named groups (some i) (some n) := indexOf_eq_some.1 hi
      refine ⟨?_, ?_⟩
      · unfold Chain.runtimes
        rw [List.map_filterMap, hlen]
        exact walkGroups_names groups.rows.length hnamed
      · unfold Chain.runtimes
        rw [← groupBuckets_runtimes]

theorem chainFor_error {key : VirtualKey} {n : String} :
    (resolveParts rates perRequestFee groups).chainFor key = .error n ↔
      key.group = some n ∧ groups.lookup n = none := by
  unfold chainFor
  cases hgroup : key.group with
  | none => simp
  | some m =>
    have hsome : (indexOf (groupNames groups) m).isSome = (groups.lookup m).isSome := indexOf_isSome
    have hidx : (resolveParts rates perRequestFee groups).groupIdx m = indexOf (groupNames groups) m := rfl
    dsimp only
    rw [hidx]
    cases hi : indexOf (groupNames groups) m with
    | none =>
      rw [hi] at hsome
      have hnone : groups.lookup m = none := Option.isNone_iff_eq_none.1 (by rw [← Option.not_isSome, ← hsome]; rfl)
      constructor
      · intro h
        cases h
        exact ⟨rfl, hnone⟩
      · rintro ⟨h, -⟩
        cases h
        rfl
    | some i =>
      rw [hi] at hsome
      constructor
      · intro h
        cases h
      · rintro ⟨h, hnone⟩
        cases h
        rw [hnone] at hsome
        cases hsome

/-- Every place of a walk is a group of the configuration. -/
theorem reaches_mem {start : Option String} (hstart : ∀ n, start = some n → n ∈ groupNames groups) {n : String}
    (h : Walk.Reaches (parentOf groups) start n) : n ∈ (groupNames groups).toFinset := by
  obtain ⟨k, hk⟩ := h
  rw [List.mem_toFinset]
  cases k with
  | zero => exact hstart n hk
  | succ k =>
    obtain ⟨m, -, hm⟩ := Option.bind_eq_some_iff.1 hk
    obtain ⟨cfg, -, hp⟩ := Option.bind_eq_some_iff.1 hm
    exact lookup_isSome.1 (Option.filter_eq_some_iff.1 hp).2

theorem card_groupNames (groups : Table String GroupCfg) :
    (groupNames groups).toFinset.card = groups.rows.length := by
  have hnodup : (groupNames groups).Nodup := groups.nodup
  rw [List.toFinset_card_of_nodup hnodup, groupNames, List.length_map]

/-! ## Limits along the path -/

/-- A limit without a scope counts for every request, one with a scope for those of its pool. -/
def scopeApplies (scope : Option ScopeRef) (pool : String) : Bool :=
  match scope with
  | none => true
  | some s => s.kind == "pool" && s.value == pool

/-- A request to the pool is within one limit of a group: `used` are the counters by bucket id, `gauges` the requests
in flight. -/
def WithinLimit (fee : Int) (used : String → Nat × Nat × Int) (gauges : String → Int) (pool name : String)
    (l : LimitCfg) : Prop :=
  (l.metric = .concurrent → gauges name < asCents l.amount) ∧
    ∀ window, l.Into window l.scope → scopeApplies l.scope pool = true →
      l.Holds fee (used (GroupBucket.idOf name window l.scope))

/-- A request to the pool is within the chain: no bucket of the pool blocks it and no gauge is full. -/
def WithinChain (cost : CostModel) (chain : Chain) (used : String → Nat × Nat × Int) (gauges : String → Int)
    (pool : String) : Prop :=
  (∀ b ∈ chain.buckets, b.appliesToPool pool = true →
      b.blockedMetric cost.pricePerRequestCents (used b.bucketId) = none) ∧
    ∀ g ∈ chain.runtimes cost, ∀ cap, g.concurrentCap = some cap → gauges g.name < asCents cap

/-- One group: its buckets and its gauge let a request through exactly if each of its limits does. -/
theorem within_group {g : GroupRuntime} {limits : List LimitCfg}
    (hg : Projects g.name limits (g.concurrentCap, g.buckets)) (fee : Int) (used : String → Nat × Nat × Int)
    (gauges : String → Int) (pool : String) :
    ((∀ b ∈ g.buckets, scopeApplies b.scope pool = true →
        (b.toChain g.name).blockedMetric fee (used b.bucketId) = none) ∧
      ∀ cap, g.concurrentCap = some cap → gauges g.name < asCents cap) ↔
    ∀ l ∈ limits, WithinLimit fee used gauges pool g.name l := by
  constructor
  · rintro ⟨hbuckets, hgauge⟩ l hl
    refine ⟨fun hm => ?_, fun window hinto happlies => ?_⟩
    · have hcap := hg.concurrent
      cases hc : g.concurrentCap with
      | none =>
        have hempty : {a | ∃ l ∈ limits, l.metric = LimitMetric.concurrent ∧ l.amount = a} = ∅ := by rwa [hc] at hcap
        have hin : l.amount ∈ {a | ∃ l ∈ limits, l.metric = LimitMetric.concurrent ∧ l.amount = a} := ⟨l, hl, hm, rfl⟩
        rw [hempty] at hin
        exact hin.elim
      | some cap =>
        have hleast : IsLeast {a | ∃ l ∈ limits, l.metric = LimitMetric.concurrent ∧ l.amount = a} cap := by
          rwa [hc] at hcap
        have hle : cap ≤ l.amount := hleast.2 ⟨l, hl, hm, rfl⟩
        have hlt := hgauge cap hc
        unfold asCents at hlt ⊢
        omega
    · obtain ⟨b, hb, hw, hs⟩ := hg.covers l hl window l.scope hinto
      have hfree := hbuckets b hb (hs.symm ▸ happlies)
      rw [(hg.merges b hb).blockedMetric_iff, hg.ids b hb, hw, hs] at hfree
      exact hfree l hl hinto
  · intro hall
    refine ⟨fun b hb happlies => ?_, fun cap hc => ?_⟩
    · rw [(hg.merges b hb).blockedMetric_iff, hg.ids b hb]
      intro l hl hinto
      have hscope : l.scope = b.scope := hinto.2.2
      have hholds := (hall l hl).2 b.window (hscope.symm ▸ hinto) (hscope.symm ▸ happlies)
      rwa [hscope] at hholds
    · have hcap := hg.concurrent
      have hleast : IsLeast {a | ∃ l ∈ limits, l.metric = LimitMetric.concurrent ∧ l.amount = a} cap := by rwa [hc] at hcap
      obtain ⟨⟨l, hl, hm, rfl⟩, -⟩ := hleast
      exact (hall l hl).1 hm

/-- **The chain tests every limit of every group on the path**, and nothing else. -/
theorem within_chain {key : VirtualKey} {chain : Chain}
    (h : (resolveParts rates perRequestFee groups).chainFor key = .ok chain)
    (hpath : ∀ n, n ∈ (chain.runtimes (resolveParts rates perRequestFee groups)).map GroupRuntime.name ↔
      Walk.Reaches (parentOf groups) key.group n)
    (used : String → Nat × Nat × Int) (gauges : String → Int) (pool : String) :
    WithinChain (resolveParts rates perRequestFee groups) chain used gauges pool ↔
      ∀ n cfg, Walk.Reaches (parentOf groups) key.group n → groups.lookup n = some cfg →
        ∀ l ∈ cfg.limits,
          WithinLimit (resolveParts rates perRequestFee groups).pricePerRequestCents used gauges pool n l := by
  obtain ⟨-, hbuckets⟩ := chainFor_ok h
  have hruntime : ∀ g ∈ chain.runtimes (resolveParts rates perRequestFee groups),
      ∃ cfg, groups.lookup g.name = some cfg ∧ Projects g.name cfg.limits (g.concurrentCap, g.buckets) := by
    intro g hg
    obtain ⟨i, -, hi⟩ := List.mem_filterMap.1 hg
    have hmem : g ∈ projectGroups groups := List.mem_of_getElem? hi
    obtain ⟨cfg, hrow, hproj, -⟩ := mem_projectGroups hmem
    exact ⟨cfg, Table.lookup_eq_some.2 hrow, hproj⟩
  constructor
  · rintro ⟨hb, hgauge⟩ n cfg hn hcfg
    obtain ⟨g, hg, rfl⟩ := List.mem_map.1 ((hpath n).2 hn)
    obtain ⟨cfg', hcfg', hproj⟩ := hruntime g hg
    obtain rfl : cfg' = cfg := Option.some.inj (hcfg'.symm.trans hcfg)
    refine (within_group hproj _ used gauges pool).1 ⟨fun b hbm happlies => ?_, hgauge g hg⟩
    refine hb (b.toChain g.name) ?_ happlies
    rw [hbuckets]
    exact List.mem_cons_of_mem _ (List.mem_flatMap.2 ⟨g, hg, List.mem_map_of_mem hbm⟩)
  · intro hall
    have hgroup : ∀ g ∈ chain.runtimes (resolveParts rates perRequestFee groups),
        (∀ b ∈ g.buckets, scopeApplies b.scope pool = true →
          (b.toChain g.name).blockedMetric (resolveParts rates perRequestFee groups).pricePerRequestCents
            (used b.bucketId) = none) ∧
          ∀ cap, g.concurrentCap = some cap → gauges g.name < asCents cap := by
      intro g hg
      obtain ⟨cfg, hcfg, hproj⟩ := hruntime g hg
      exact (within_group hproj (resolveParts rates perRequestFee groups).pricePerRequestCents used gauges pool).2
        (hall g.name cfg ((hpath g.name).1 (List.mem_map_of_mem hg)) hcfg)
    refine ⟨fun b hb happlies => ?_, fun g hg => (hgroup g hg).2⟩
    rw [hbuckets] at hb
    rcases List.mem_cons.1 hb with rfl | hb
    · rfl
    · obtain ⟨g, hg, hb⟩ := List.mem_flatMap.1 hb
      obtain ⟨gb, hgb, rfl⟩ := List.mem_map.1 hb
      exact (hgroup g hg).1 gb hgb happlies

/-- **Projected limits mean what the configuration says**, for any parents and any order of limits. Each group's caps
are the least amounts of its limits, the downgrade that of a least budget, and a permutation of the limits changes no
cap; only a key with an unknown group has no chain; the chain names the groups of the parent path, each once unless the
path runs into a cycle and misses a group; and a request is within the chain if and only if it is within every limit of
every group on the path. -/
theorem projected_limits (rates : Option (Table String RateNanos)) (perRequestFee : Int)
    (groups : Table String GroupCfg) (key : VirtualKey) :
    (∀ g ∈ projectGroups groups, ∃ cfg, groups.lookup g.name = some cfg ∧
      Projects g.name cfg.limits (g.concurrentCap, g.buckets)) ∧
    (∀ (name : String) (limits limits' : List LimitCfg), limits.Perm limits' →
      (limits.foldl (projectLimit name) (none, [])).1 = (limits'.foldl (projectLimit name) (none, [])).1 ∧
      ∀ b ∈ (limits.foldl (projectLimit name) (none, [])).2, ∃ b' ∈ (limits'.foldl (projectLimit name) (none, [])).2,
        b'.bucketId = b.bucketId ∧ b'.window = b.window ∧ b'.scope = b.scope ∧ b'.requestsCap = b.requestsCap ∧
          b'.tokensCap = b.tokensCap ∧ b'.budgetCap = b.budgetCap) ∧
    (∀ n, (resolveParts rates perRequestFee groups).chainFor key = .error n ↔
      key.group = some n ∧ groups.lookup n = none) ∧
    ∀ chain, (resolveParts rates perRequestFee groups).chainFor key = .ok chain →
      (∀ n, n ∈ (chain.runtimes (resolveParts rates perRequestFee groups)).map GroupRuntime.name ↔
        Walk.Reaches (parentOf groups) key.group n) ∧
      (((chain.runtimes (resolveParts rates perRequestFee groups)).map GroupRuntime.name).Nodup ↔
        Walk.Acyclic (parentOf groups) key.group ∨
          ∀ n ∈ groupNames groups, Walk.Reaches (parentOf groups) key.group n) ∧
      ∀ used gauges pool, WithinChain (resolveParts rates perRequestFee groups) chain used gauges pool ↔
        ∀ n cfg, Walk.Reaches (parentOf groups) key.group n → groups.lookup n = some cfg →
          ∀ l ∈ cfg.limits,
            WithinLimit (resolveParts rates perRequestFee groups).pricePerRequestCents used gauges pool n l := by
  refine ⟨fun g hg => ?_, fun name limits limits' hperm => ?_, fun n => chainFor_error, fun chain hchain => ?_⟩
  · obtain ⟨cfg, hrow, hproj, -⟩ := mem_projectGroups hg
    exact ⟨cfg, Table.lookup_eq_some.2 hrow, hproj⟩
  · exact (projects name limits).perm (projects name limits') hperm
  obtain ⟨hnames, -⟩ := chainFor_ok hchain
  have hstart : ∀ n, key.group = some n → n ∈ groupNames groups := by
    intro n hn
    by_contra hno
    have hnone : groups.lookup n = none := by
      rw [← Option.not_isSome_iff_eq_none, lookup_isSome]
      exact hno
    have herr : (resolveParts rates perRequestFee groups).chainFor key = .error n := chainFor_error.2 ⟨hn, hnone⟩
    rw [hchain] at herr
    cases herr
  have hin := fun n => reaches_mem hstart (n := n)
  have hcard := card_groupNames groups
  have hpath : ∀ n, n ∈ (chain.runtimes (resolveParts rates perRequestFee groups)).map GroupRuntime.name ↔
      Walk.Reaches (parentOf groups) key.group n := by
    intro n
    rw [hnames]
    exact Walk.mem_walk_iff hin hcard.le
  refine ⟨hpath, ?_, within_chain hchain hpath⟩
  have hnodup := Walk.nodup_walk_iff hin
  rw [hcard] at hnodup
  simp only [List.mem_toFinset] at hnodup
  rw [hnames]
  exact hnodup

/-- Two groups that name each other as parents, and a third. -/
def cyclicGroups : Table String GroupCfg :=
  Table.insert "a" ⟨some "b", true, []⟩ (Table.insert "b" ⟨some "a", true, []⟩
    (Table.insert "c" ⟨none, true, []⟩ Registry.empty))

/-- A key of a group. -/
def keyIn (group : String) : VirtualKey where
  id := "vk_1"
  generationHash := ""
  name := "k"
  allowedScopes := none
  enabled := true
  createdAt := 0
  group := some group
  labels := []
  expiresAt := none
  deletedAt := none
  revision := 0

/-- On a cycle the clamp lets a group in twice. -/
theorem cycle_is_listed_twice :
    ∃ chain, (resolveParts none 0 cyclicGroups).chainFor (keyIn "a") = .ok chain ∧
      (chain.runtimes (resolveParts none 0 cyclicGroups)).map GroupRuntime.name = ["a", "b", "a"] := by
  refine ⟨_, rfl, ?_⟩
  decide +kernel

end CostModel

end Busbar
