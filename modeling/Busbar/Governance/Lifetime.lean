import Busbar.Governance.Rollover

/-!
# Reported usage

What `usage_for` reports of a key: the live cell when it holds the window, else the durable row. A cell that
is never given up only grows, and the row never gets ahead of it.

* `usageFor`: the read.
* `backed_step`: cell, snapshots on their way and row stay in line, however large the counters get.
* `lifetime_grows`: what is reported of a key's all-time bucket never goes backwards, as long as no sweep
  takes its cell.
* `sweep_resets_lifetime`: the sweep gives up the clean cell of a key that was idle for 31 days, and the next
  request starts over at one.
-/

namespace Busbar

structure DerivedUsage where
  spendCents : Int
  tokens : Nat
  requests : Nat
  deriving DecidableEq, Repr

def UsageLedger.totalTokens (u : UsageLedger) : Nat :=
  u.models.foldl (fun acc m => Busbar.satAdd acc m.tokens.total) 0

/-- The usage of one bucket's current window: the live cell, else the durable row. -/
def derivedBucketUsage (cost : CostModel) (cells : Cells) (store : MemoryStore) (bucketId budgetPeriod : String)
    (includeRequestFee : Bool) (now : Nat) : DerivedUsage :=
  let window := budgetWindow budgetPeriod now
  match (cells.lookup bucketId).filter (fun c => c.windowStart = window) with
  | some c =>
    { spendCents := cost.deriveSpendCents c.modelViews c.billableRequests includeRequestFee
      tokens := c.totalTokens
      requests := c.requests }
  | none =>
    let ledger := store.getUsage bucketId window
    { spendCents := cost.deriveSpendCents (ledger.models.map (fun m => (m.model, m.tokens)))
        ledger.billableRequests includeRequestFee
      tokens := ledger.totalTokens
      requests := ledger.requests }

/-- The all-time usage of a key; nothing for a key the store does not know. -/
def usageFor (cost : CostModel) (cells : Cells) (store : MemoryStore) (id : String) (now : Nat) :
    Option DerivedUsage :=
  (store.getKey id).map (fun _ => derivedBucketUsage cost cells store id windowTotal true now)

variable {cost : CostModel} {id : String} {W : Nat}

/-! ## Cells that grow -/

/-- A held cell stays, with no smaller reading of requests and tokens and the same acknowledged ones; a new
one has nothing acknowledged. -/
structure GrowsTo (o o' : Option BudgetCell) : Prop where
  grown : ∀ c, o = some c → ∃ c', o' = some c' ∧ (∀ m, m ≠ .billable → c.cur m ≤ c'.cur m) ∧
    ∀ m, c'.acked m = c.acked m
  fresh : o = none → ∀ c', o' = some c' → ∀ m, c'.acked m = 0
  sized : (∀ c, o = some c → ∀ m, c.cur m ≤ u64Max) → ∀ c', o' = some c' → ∀ m, c'.cur m ≤ u64Max

theorem GrowsTo.refl (o : Option BudgetCell) : GrowsTo o o where
  grown := fun c hc => ⟨c, hc, fun _ _ => Nat.le_refl _, fun _ => rfl⟩
  fresh := by
    rintro rfl c' hc'
    cases hc'
  sized := fun h => h

theorem GrowsTo.trans {o₁ o₂ o₃ : Option BudgetCell} (h : GrowsTo o₁ o₂) (h' : GrowsTo o₂ o₃) :
    GrowsTo o₁ o₃ where
  grown := by
    intro c hc
    obtain ⟨c₂, hc₂, hcur, hack⟩ := h.grown c hc
    obtain ⟨c₃, hc₃, hcur', hack'⟩ := h'.grown c₂ hc₂
    exact ⟨c₃, hc₃, fun m hm => Nat.le_trans (hcur m hm) (hcur' m hm), fun m => (hack' m).trans (hack m)⟩
  fresh := by
    intro h₁ c₃ hc₃ m
    rcases h₂ : o₂ with _ | c₂
    · exact h'.fresh h₂ c₃ hc₃ m
    · obtain ⟨c₃', hc₃', -, hack⟩ := h'.grown c₂ h₂
      rw [Option.some.inj (hc₃.symm.trans hc₃'), hack, h.fresh h₁ c₂ h₂]
  sized := fun hs => h'.sized (h.sized hs)

theorem GrowsTo.map {f : BudgetCell → BudgetCell} (hc : ∀ c m, m ≠ .billable → (f c).cur m = c.cur m)
    (hb : ∀ c, (f c).cur .billable ≤ c.cur .billable) (ha : ∀ c m, (f c).acked m = c.acked m)
    (o : Option BudgetCell) : GrowsTo o (o.map f) where
  grown := by
    rintro c rfl
    exact ⟨f c, rfl, fun m hm => Nat.le_of_eq (hc c m hm).symm, fun m => ha c m⟩
  fresh := by
    rintro rfl c' hc'
    cases hc'
  sized := by
    intro hs c' hc' m
    obtain ⟨c, rfl, rfl⟩ := Option.map_eq_some_iff.1 hc'
    by_cases hm : m = .billable
    · subst hm
      exact Nat.le_trans (hb c) (hs c rfl _)
    · rw [hc c m hm]
      exact hs c rfl m

/-- A cell that is rolled and then credited or charged, its window staying held. -/
theorem growsTo_touch {o : Option BudgetCell} {w : Nat} {c' : BudgetCell} {d : Meter → Nat}
    (hws : c'.windowStart = (BudgetCell.roll o w).windowStart)
    (hcur : ∀ m, (BudgetCell.roll o w).cur m ≤ u64Max →
      c'.cur m = satAdd ((BudgetCell.roll o w).cur m) (d m))
    (hack : ∀ m, c'.acked m = (BudgetCell.roll o w).acked m)
    (hstay : (held W o).isSome → (held W (some c')).isSome)
    (hsized : ∀ c, held W o = some c → ∀ m, c.cur m ≤ u64Max) : GrowsTo (held W o) (held W (some c')) := by
  have hroll : ∀ m, c'.windowStart = W → ((BudgetCell.roll o w).cur m : Int) = curOf (held W o) m ∧
      ((BudgetCell.roll o w).acked m : Int) = ackedOf (held W o) m :=
    fun m hw => roll_reading (hws.symm.trans hw) m
  have hsmall : ∀ m, c'.windowStart = W → (BudgetCell.roll o w).cur m ≤ u64Max := by
    intro m hw
    have hread := (hroll m hw).1
    rcases ho : held W o with _ | c
    · rw [ho] at hread
      have hz : curOf none m = 0 := rfl
      omega
    · rw [ho] at hread
      have hle := hsized c ho m
      have hc : curOf (some c) m = c.cur m := rfl
      omega
  constructor
  · intro c hc
    have hs := hstay (by rw [hc]; rfl)
    obtain ⟨c'', hc''⟩ := Option.isSome_iff_exists.1 hs
    have hw : c'.windowStart = W := by
      obtain ⟨h₁, h₂⟩ := held_eq_some.1 hc''
      cases h₁
      exact h₂
    refine ⟨c', held_some hw, ?_, ?_⟩
    · intro m _
      have hread := (hroll m hw).1
      rw [hc] at hread
      have hcm : curOf (some c) m = c.cur m := rfl
      have := hsmall m hw
      rw [hcur m this]
      unfold satAdd
      omega
    · intro m
      have hread := (hroll m hw).2
      rw [hc] at hread
      have hcm : ackedOf (some c) m = c.acked m := rfl
      rw [hack]
      omega
  · intro hnone c'' hc'' m
    obtain ⟨h₁, h₂⟩ := held_eq_some.1 hc''
    cases h₁
    have hread := (hroll m h₂).2
    rw [hnone] at hread
    have hz : ackedOf none m = 0 := rfl
    rw [hack]
    omega
  · intro _ c'' hc'' m
    obtain ⟨h₁, h₂⟩ := held_eq_some.1 hc''
    cases h₁
    rw [hcur m (hsmall m h₂)]
    unfold satAdd
    omega

/-- A charge pass whose window stays held. -/
theorem growsTo_charges {k now : Nat} {buckets : List ChainBucket} {cells : Cells}
    (hstays : (held W (cells.lookup id)).isSome →
      (held W ((buckets.foldl (chargeBucket now) cells).lookup id)).isSome)
    (hlands : ∀ e ∈ chargeEvents k now cells buckets, e.IsOf id W →
      (held W ((buckets.foldl (chargeBucket now) cells).lookup id)).isSome)
    (hsized : ∀ c, held W (cells.lookup id) = some c → ∀ m, c.cur m ≤ u64Max) :
    GrowsTo (held W (cells.lookup id)) (held W ((buckets.foldl (chargeBucket now) cells).lookup id)) := by
  induction buckets generalizing cells with
  | nil => exact GrowsTo.refl _
  | cons b bs ih =>
    rw [List.foldl_cons] at hstays hlands ⊢
    have htail := charges_stay_tail hstays hlands
    have hhead := charges_stay_head hstays
    have hl := lookup_chargeBucket now cells b id
    have hfirst : GrowsTo (held W (cells.lookup id)) (held W ((chargeBucket now cells b).lookup id)) := by
      by_cases hb : b.bucketId = id
      · rw [if_pos hb] at hl
        rw [hl] at hhead ⊢
        exact growsTo_touch (d := admission) rfl (fun m hm => cur_charge _ now m hm) (fun m => acked_charge _ now m)
          hhead hsized
      · rw [if_neg hb] at hl
        rw [hl]
        exact GrowsTo.refl _
    refine hfirst.trans (ih htail ?_ (hfirst.sized hsized))
    intro e he
    refine hlands e ?_
    unfold chargeEvents
    exact List.mem_cons_of_mem _ he

/-! ## Rows stay keyed -/

theorem mem_applyModelDelta {models : List ModelTokens} {d : ModelTokensDelta} {model : String} :
    model ∈ (applyModelDelta models d).map ModelTokens.model ↔
      model = d.model ∨ model ∈ models.map ModelTokens.model := by
  induction models with
  | nil =>
    unfold applyModelDelta
    simp
  | cons m ms ih =>
    unfold applyModelDelta
    by_cases h : m.model = d.model
    · rw [if_pos h, List.map_cons, List.map_cons, List.mem_cons]
      show model = m.model ∨ _ ↔ model = d.model ∨ model = m.model ∨ _
      rw [h]
      tauto
    · rw [if_neg h, List.map_cons, List.map_cons, List.mem_cons, List.mem_cons, ih]
      tauto

theorem keyed_applyModelDelta {models : List ModelTokens} (hnd : (models.map ModelTokens.model).Nodup)
    (d : ModelTokensDelta) : ((applyModelDelta models d).map ModelTokens.model).Nodup := by
  induction models with
  | nil => exact List.nodup_singleton _
  | cons m ms ih =>
    rw [List.map_cons, List.nodup_cons] at hnd
    unfold applyModelDelta
    by_cases h : m.model = d.model
    · rw [if_pos h, List.map_cons, List.nodup_cons]
      exact hnd
    · rw [if_neg h, List.map_cons, List.nodup_cons]
      refine ⟨fun hmem => ?_, ih hnd.2⟩
      rcases mem_applyModelDelta.1 hmem with he | hmem
      · exact h he
      · exact hnd.1 hmem

/-- A row keeps one entry a model. -/
theorem keyed_applyDelta {u : UsageLedger} (hnd : (u.models.map ModelTokens.model).Nodup) (d : UsageDelta) :
    ((u.applyDelta d).models.map ModelTokens.model).Nodup := by
  show ((d.models.foldl applyModelDelta u.models).map ModelTokens.model).Nodup
  generalize u.models = models at hnd
  induction d.models generalizing models with
  | nil => exact hnd
  | cons d ds ih =>
    rw [List.foldl_cons]
    exact ih _ (keyed_applyModelDelta hnd d)

/-! ## Cell, snapshots and row -/

/-- A snapshot on its way against the cell it was taken of. -/
structure Taken (s : DirtySnap) (c : BudgetCell) : Prop where
  delta : ∀ m, s.delta.meter m = signed (s.cur m) - signed (c.acked m)
  models : (s.delta.models.map ModelTokensDelta.model).Nodup
  grown : ∀ m, m ≠ .billable → s.cur m ≤ c.cur m
  unseen : ∀ model, s.curModels.find? (fun e => e.1 = model) = none →
    ∀ tier, c.acked (.tokens model tier) = 0

theorem Taken.mono {s : DirtySnap} {c c' : BudgetCell} (h : Taken s c)
    (hcur : ∀ m, m ≠ .billable → c.cur m ≤ c'.cur m) (hack : ∀ m, c'.acked m = c.acked m) : Taken s c' where
  delta := by
    intro m
    rw [hack]
    exact h.delta m
  models := h.models
  grown := fun m hm => Nat.le_trans (h.grown m hm) (hcur m hm)
  unseen := by
    intro model hf tier
    rw [hack]
    exact h.unseen model hf tier

theorem taken_snap (id : String) (c : BudgetCell) : Taken (DirtySnap.of id c) c where
  delta := by
    intro m
    rw [meter_snap, cur_snap]
  models := nodup_modelDeltas c
  grown := by
    intro m _
    rw [cur_snap]
  unseen := fun _ hf tier => unseen_snap hf tier

/-- What the row is known to hold of a cell, in the signed domain. -/
def ackedSigned (o : Option BudgetCell) (m : Meter) : Int := o.elim 0 (fun c => signed (c.acked m))

/-- What the row holds: the acknowledged reading, or that of a written snapshot. -/
def Node.durable (n : Node) (id : String) (W : Nat) (m : Meter) : Int :=
  match n.flush with
  | .settling s true _ => if s.IsOf id W then signed (s.cur m) else ackedSigned (n.cellOf id W) m
  | _ => ackedSigned (n.cellOf id W) m

/-- The row stands at what is acknowledged, and the cell is never behind it. -/
structure Backed (id : String) (W : Nat) (n : Node) : Prop where
  ordered : n.Ordered
  sized : ∀ c, n.cellOf id W = some c → ∀ m, c.cur m ≤ u64Max
  grown : ∀ c, n.cellOf id W = some c → ∀ m, m ≠ .billable → c.acked m ≤ c.cur m
  taken : ∀ s ∈ n.flush.live, s.IsOf id W → ∃ c, n.cellOf id W = some c ∧ Taken s c
  row : ∀ m, m ≠ .billable → (n.row id W m : Int) = n.durable id W m
  keyed : ((n.store.getUsage id W).models.map ModelTokens.model).Nodup

theorem GrowsTo.ackedSigned {o o' : Option BudgetCell} (h : GrowsTo o o') (m : Meter) :
    Busbar.ackedSigned o' m = Busbar.ackedSigned o m := by
  rcases ho : o with _ | c
  · rcases ho' : o' with _ | c'
    · rfl
    · show signed (c'.acked m) = 0
      rw [h.fresh ho c' ho' m]
      rfl
  · obtain ⟨c', ho', -, hack⟩ := h.grown c ho
    rw [ho']
    show signed (c'.acked m) = signed (c.acked m)
    rw [hack]

theorem durable_congr {n n' : Node} (hflush : n'.flush = n.flush) {m : Meter}
    (hack : ackedSigned (n'.cellOf id W) m = ackedSigned (n.cellOf id W) m) :
    n'.durable id W m = n.durable id W m := by
  unfold Node.durable
  rw [hflush, hack]

/-- A step of the cells alone. -/
theorem Backed.ofCells {n n' : Node} (hb : Backed id W n) (hflush : n'.flush = n.flush)
    (husage : n'.store.usage = n.store.usage) (hg : GrowsTo (n.cellOf id W) (n'.cellOf id W)) :
    Backed id W n' where
  ordered := by
    obtain ⟨h₁, h₂⟩ := hb.ordered
    exact ⟨by rw [hflush]; exact h₁, by rw [hflush]; exact h₂⟩
  sized := hg.sized hb.sized
  grown := by
    intro c' hc' m hm
    rcases hc : n.cellOf id W with _ | c
    · rw [hg.fresh hc c' hc' m]
      exact Nat.zero_le _
    · obtain ⟨c₂, hc₂, hcur, hack⟩ := hg.grown c hc
      have heq : c' = c₂ := Option.some.inj (hc'.symm.trans hc₂)
      rw [heq, hack]
      exact Nat.le_trans (hb.grown c hc m hm) (hcur m hm)
  taken := by
    intro s hs ho
    rw [hflush] at hs
    obtain ⟨c, hc, ht⟩ := hb.taken s hs ho
    obtain ⟨c', hc', hcur, hack⟩ := hg.grown c hc
    exact ⟨c', hc', ht.mono hcur hack⟩
  row := by
    intro m hm
    have hrow : n'.row id W m = n.row id W m := by
      unfold Node.row MemoryStore.getUsage
      rw [husage]
    rw [hrow, durable_congr hflush (hg.ackedSigned m)]
    exact hb.row m hm
  keyed := by
    unfold MemoryStore.getUsage
    rw [husage]
    exact hb.keyed

/-- A flush that starts, turns to writing or ends. -/
theorem Backed.turn {n n' : Node} (hb : Backed id W n) (hord : n'.Ordered) (hcells : n'.cells = n.cells)
    (hstore : n'.store = n.store) (hlive : n'.flush.live = n.flush.live)
    (hdurable : ∀ m, n'.durable id W m = n.durable id W m) : Backed id W n' where
  ordered := hord
  sized := by
    unfold Node.cellOf
    rw [hcells]
    exact hb.sized
  grown := by
    unfold Node.cellOf
    rw [hcells]
    exact hb.grown
  taken := by
    unfold Node.cellOf
    rw [hcells, hlive]
    exact hb.taken
  row := by
    intro m hm
    unfold Node.row
    rw [hstore, hdurable]
    exact hb.row m hm
  keyed := by
    rw [hstore]
    exact hb.keyed

theorem signed_nonneg (v : Nat) : 0 ≤ signed v := by
  unfold signed i64Max
  omega

theorem signed_le (v : Nat) : signed v ≤ v := by
  unfold signed
  omega

/-- A difference of signed readings takes a row from the one to the other. -/
theorem satAddSigned_signed {a v w : Nat} (ha : (a : Int) = signed w) :
    (satAddSigned a (signed v - signed w) : Int) = signed v := by
  have hv := signed_nonneg v
  have hmax : signed v ≤ i64Max := by
    unfold signed
    omega
  unfold satAddSigned u64Max
  unfold i64Max at hmax
  omega

theorem ackedSigned_some (c : BudgetCell) (m : Meter) : ackedSigned (some c) m = signed (c.acked m) := rfl

/-- Reading a shard. -/
theorem Backed.readShard {n n' : Node} (hb : Backed id W n) {shard : Nat} {snaps : List DirtySnap}
    (hph : n.flush = .reading shard snaps) (hcells : n'.cells = cleanShard n.cells shard)
    (hstore : n'.store = n.store)
    (hflush : n'.flush = .reading (shard + 1) (snaps ++ dirtySnaps n.cells shard)) : Backed id W n' := by
  have hcell : n'.cellOf id W = (n.cellOf id W).map (cleaned id shard) := by
    unfold Node.cellOf
    rw [hcells, lookup_cleanShard]
    exact held_map (windowStart_cleaned id shard) _
  have hg : GrowsTo (n.cellOf id W) (n'.cellOf id W) := by
    rw [hcell]
    exact GrowsTo.map (fun c m _ => cur_cleaned id shard c m) (fun c => Nat.le_of_eq (cur_cleaned id shard c _))
      (acked_cleaned id shard) _
  -- but for the flush itself the step is one of the cells
  have hmid : Backed id W { n' with flush := n.flush } := hb.ofCells rfl (by rw [← hstore]) hg
  refine ⟨ordered_read hb.ordered hph hflush, hmid.sized, hmid.grown, ?_, ?_, hmid.keyed⟩
  · intro s hs ho
    rw [hflush] at hs
    rcases List.mem_append.1 hs with hs | hs
    · exact hmid.taken s (by rw [hph]; exact hs) ho
    · obtain ⟨c, hc, -, rfl⟩ := dirtySnaps_isOf hs ho
      obtain ⟨c', hc', hcur, hack⟩ := hg.grown c hc
      exact ⟨c', hc', (taken_snap id c).mono hcur hack⟩
  · intro m hm
    have hrow := hmid.row m hm
    unfold Node.durable at hrow ⊢
    rw [hflush]
    rw [hph] at hrow
    exact hrow

/-- Writing a snapshot brings the row to its reading. -/
theorem Backed.writeSnap {n n' : Node} (hb : Backed id W n) {pick : Nat} {ok : Bool} {snaps : List DirtySnap}
    {s : DirtySnap} (hord : n'.Ordered) (hph : n.flush = .writing snaps) (hpick : snaps[pick]? = some s)
    (hcells : n'.cells = n.cells) (hstore : n'.store = (Busbar.writeSnap n.store s ok).1)
    (hflush : n'.flush = .settling s (Busbar.writeSnap n.store s ok).2 (snaps.eraseIdx pick))
    (hspares : ok = true → s.delta.isZero = false → (n.store.usageSweepTicker + 1) % sweepInterval = 0 →
      n.store.clock < satAdd W maxRetentionSecs) : Backed id W n' := by
  have hcell : n'.cellOf id W = n.cellOf id W := by
    unfold Node.cellOf
    rw [hcells]
  have hperm := perm_eraseIdx hpick
  have hmem : s ∈ snaps := hperm.mem_iff.1 List.mem_cons_self
  have hlive : ∀ s' ∈ n'.flush.live, s' ∈ snaps := by
    intro s' hs'
    rw [hflush] at hs'
    rcases hok : (Busbar.writeSnap n.store s ok).2 with _ | _
    · rw [hok] at hs'
      exact hperm.mem_iff.1 (List.mem_cons_of_mem _ hs')
    · rw [hok] at hs'
      exact hperm.mem_iff.1 hs'
  have hrow := hb.row
  have hdur : ∀ m, n.durable id W m = ackedSigned (n.cellOf id W) m := by
    intro m
    unfold Node.durable
    rw [hph]
  have hdur' : ∀ m, n'.durable id W m =
      if (Busbar.writeSnap n.store s ok).2 = true ∧ s.IsOf id W then signed (s.cur m)
      else ackedSigned (n.cellOf id W) m := by
    intro m
    unfold Node.durable
    rw [hflush, hcell]
    cases (Busbar.writeSnap n.store s ok).2 with
    | true => simp only [true_and]
    | false => simp
  -- the row moves only when the snapshot is of this (bucket, window) and written
  have husage : (n'.store.getUsage id W = n.store.getUsage id W ∧
      ((Busbar.writeSnap n.store s ok).2 = true ∧ s.IsOf id W → ∀ m, s.delta.meter m = 0)) ∨
      ((Busbar.writeSnap n.store s ok).2 = true ∧ s.IsOf id W ∧
        n'.store.getUsage id W = (n.store.getUsage id W).applyDelta s.delta) := by
    rw [hstore]
    unfold Busbar.writeSnap
    by_cases hz : s.delta.isZero = true
    · rw [if_pos hz]
      exact Or.inl ⟨rfl, fun _ => meter_of_isZero hz⟩
    · rw [if_neg hz]
      cases ok with
      | false => exact Or.inl ⟨rfl, fun h => absurd h.1 (by simp)⟩
      | true =>
        have hu := MemoryStore.getUsage_addUsage (hspares rfl (by simpa using hz)) id s.bucketId s.window s.delta
        by_cases ho : s.IsOf id W
        · rw [if_pos (show s.bucketId = id ∧ s.window = W from ho)] at hu
          exact Or.inr ⟨rfl, ho, hu⟩
        · rw [if_neg (show ¬ (s.bucketId = id ∧ s.window = W) from ho)] at hu
          exact Or.inl ⟨hu, fun h => absurd h.2 ho⟩
  refine ⟨hord, by rw [hcell]; exact hb.sized, by rw [hcell]; exact hb.grown, ?_, ?_, ?_⟩
  · intro s' hs' ho
    rw [hcell]
    exact hb.taken s' (by rw [hph]; exact hlive s' hs') ho
  · intro m hm
    have hr := hrow m hm
    rw [hdur] at hr
    rw [hdur']
    unfold Node.row at hr ⊢
    rcases husage with ⟨hsame, hzero⟩ | ⟨hok, ho, hsum⟩
    · rw [hsame, hr]
      by_cases hw : (Busbar.writeSnap n.store s ok).2 = true ∧ s.IsOf id W
      · obtain ⟨c, hc, ht⟩ := hb.taken s (by rw [hph]; exact hmem) hw.2
        have hd := ht.delta m
        rw [hzero hw m] at hd
        rw [if_pos hw, hc, ackedSigned_some]
        omega
      · rw [if_neg hw]
    · obtain ⟨c, hc, ht⟩ := hb.taken s (by rw [hph]; exact hmem) ho
      rw [hc, ackedSigned_some] at hr
      have hsmall : (n.store.getUsage id W).meter m ≤ u64Max := by
        have := signed_le (c.acked m)
        have hmax : signed (c.acked m) ≤ i64Max := by
          unfold signed
          omega
        unfold i64Max at hmax
        unfold u64Max
        omega
      rw [if_pos ⟨hok, ho⟩, hsum, meter_applyDelta ht.models m hsmall, ht.delta m]
      exact satAddSigned_signed hr
  · rcases husage with ⟨hsame, -⟩ | ⟨-, -, hsum⟩
    · rw [hsame]
      exact hb.keyed
    · rw [hsum]
      exact keyed_applyDelta hb.keyed s.delta

/-- Settling a snapshot acknowledges what the row has. -/
theorem Backed.settleSnap {n n' : Node} (hb : Backed id W n) {ok : Bool} {snaps : List DirtySnap}
    {s : DirtySnap} (hord : n'.Ordered) (hph : n.flush = .settling s ok snaps)
    (hcells : n'.cells = settle n.cells s ok) (hstore : n'.store = n.store)
    (hflush : n'.flush = .writing snaps) : Backed id W n' := by
  have hnd : ((s :: snaps).map DirtySnap.bucketId).Nodup := by
    have := hb.ordered.nodup
    rw [hph] at this
    exact this
  have hlive : ∀ s' ∈ snaps, s' ∈ n.flush.live := by
    intro s' hs'
    rw [hph]
    cases ok with
    | true => exact List.mem_cons_of_mem _ hs'
    | false => exact hs'
  have hrow := hb.row
  have hdur' : ∀ m, n'.durable id W m = ackedSigned (n'.cellOf id W) m := by
    intro m
    unfold Node.durable
    rw [hflush]
  by_cases hack : ok = true ∧ s.IsOf id W
  · obtain ⟨rfl, ho⟩ := hack
    obtain ⟨c, hc, ht⟩ := hb.taken s (by rw [hph]; exact List.mem_cons_self) ho
    have hcell : n'.cellOf id W = some (c.acknowledge s) := by
      unfold Node.cellOf at hc ⊢
      rw [hcells, cellOf_settle_of true ho, hc]
      rfl
    have hacked := acked_acknowledge_of (fun model tier => ht.grown (.tokens model tier) (by simp)) ht.unseen
    refine ⟨hord, ?_, ?_, ?_, ?_, by rw [hstore]; exact hb.keyed⟩
    · intro c' hc' m
      rw [Option.some.inj (hc'.symm.trans hcell), cur_acknowledge]
      exact hb.sized c hc m
    · intro c' hc' m hm
      rw [Option.some.inj (hc'.symm.trans hcell), cur_acknowledge, hacked m]
      exact ht.grown m hm
    · intro s' hs' ho'
      rw [hflush] at hs'
      exact absurd (List.find?_eq_none.1 (find_none_of_nodup ho hnd) s' hs') (by simpa using ho')
    · intro m hm
      have hr := hrow m hm
      unfold Node.durable at hr
      rw [hph] at hr
      dsimp only at hr
      rw [if_pos ho] at hr
      rw [hdur', hcell, ackedSigned_some, hacked m]
      unfold Node.row at hr ⊢
      rw [hstore]
      exact hr
  · -- readings stay as they are
    have hg : GrowsTo (n.cellOf id W) (n'.cellOf id W) := by
      unfold Node.cellOf
      rw [hcells]
      by_cases ho : s.IsOf id W
      · have hok : ok = false := by
          cases ok with
          | true => exact absurd ⟨rfl, ho⟩ hack
          | false => rfl
        subst hok
        rw [cellOf_settle_of false ho]
        exact GrowsTo.map (f := settled s false) (fun c m _ => by cases m <;> rfl) (fun c => Nat.le_refl _)
          (fun c m => by cases m <;> rfl) _
      · rw [cellOf_settle_ne ok ho]
        exact GrowsTo.refl _
    have hmid : Backed id W { n' with flush := n.flush } := hb.ofCells rfl (by rw [← hstore]) hg
    refine ⟨hord, hmid.sized, hmid.grown, ?_, ?_, hmid.keyed⟩
    · intro s' hs' ho'
      rw [hflush] at hs'
      exact hmid.taken s' (hlive s' hs') ho'
    · intro m hm
      have hr := hmid.row m hm
      rw [hdur']
      unfold Node.durable at hr
      dsimp only at hr
      rw [hph] at hr
      cases ok with
      | true =>
        dsimp only at hr
        rw [if_neg (fun ho => hack ⟨rfl, ho⟩)] at hr
        exact hr
      | false => exact hr

/-- **The step lemma.** A cell that stays in the window grows, and cell and row stay in line. -/
theorem backed_step {n : Node} {op : NodeOp} (hb : Backed id W n) (hstay : n.StaysResident cost id W op)
    (hkeep : n.StoreKeeps W op) : Backed id W (n.step cost op) ∧
      ∀ c, n.cellOf id W = some c → ∃ c', (n.step cost op).cellOf id W = some c' ∧
        ∀ m, m ≠ .billable → c.cur m ≤ c'.cur m := by
  have hord := ordered_step hb.ordered cost op
  obtain ⟨hres, hlands⟩ := hstay
  have heff := n.effect cost op
  generalize n.step cost op = n' at *
  generalize n.events cost op = ev at *
  have hcells : n'.flush = n.flush → n'.store.usage = n.store.usage →
      GrowsTo (n.cellOf id W) (n'.cellOf id W) → Backed id W n' ∧
        ∀ c, n.cellOf id W = some c → ∃ c', n'.cellOf id W = some c' ∧
          ∀ m, m ≠ .billable → c.cur m ≤ c'.cur m := by
    intro hflush husage hg
    refine ⟨hb.ofCells hflush husage hg, fun c hc => ?_⟩
    obtain ⟨c', hc', hcur, -⟩ := hg.grown c hc
    exact ⟨c', hc', hcur⟩
  -- a flush step leaves the current readings
  have hflushed : Backed id W n' → (∃ f : BudgetCell → BudgetCell, (∀ c m, (f c).cur m = c.cur m) ∧
      n'.cellOf id W = (n.cellOf id W).map f) → Backed id W n' ∧
        ∀ c, n.cellOf id W = some c → ∃ c', n'.cellOf id W = some c' ∧
          ∀ m, m ≠ .billable → c.cur m ≤ c'.cur m := by
    rintro hb' ⟨f, hf, hcell⟩
    refine ⟨hb', fun c hc => ⟨f c, ?_, fun m _ => Nat.le_of_eq (hf c m).symm⟩⟩
    rw [hcell, hc, Option.map_some]
  have hsame : n'.cells = n.cells → ∃ f : BudgetCell → BudgetCell, (∀ c m, (f c).cur m = c.cur m) ∧
      n'.cellOf id W = (n.cellOf id W).map f := by
    intro h
    refine ⟨fun c => c, fun _ _ => rfl, ?_⟩
    unfold Node.cellOf
    rw [h, Option.map_id']
  cases heff with
  | idle hc husage hflush =>
    refine hcells hflush husage ?_
    unfold Node.cellOf
    rw [hc]
    exact GrowsTo.refl _
  | swept shard now hop hc hstore hflush =>
    refine hcells hflush (by rw [hstore]) ?_
    have hcell : n'.cellOf id W = held W ((sweepShard cost now n.cells shard).lookup id) := by
      unfold Node.cellOf
      rw [hc]
    rw [hcell] at hres ⊢
    rcases sweepShard_held id W cost now n.cells shard with h | h | h
    · have hnone : n.cellOf id W = none := by
        rw [h] at hres
        exact Option.not_isSome_iff_eq_none.1 (fun hs => absurd (hres hs) (by simp))
      rw [h, hnone]
      exact GrowsTo.refl _
    · rw [h]
      exact GrowsTo.refl _
    · rw [h]
      exact GrowsTo.map (fun c m _ => cur_pruneDeadModels c m) (fun c => Nat.le_of_eq (cur_pruneDeadModels c _))
        (fun c m => acked_pruneDeadModels c m) _
  | locked k c hop hcall hphase hc hstore hflush =>
    refine hcells hflush (by rw [hstore]) ?_
    have hcell : n'.cellOf id W = held W ((checkAndCharge cost c.buckets c.now n.cells).2.lookup id) := by
      unfold Node.cellOf
      rw [hc]
    rw [hcell] at hres hlands ⊢
    rcases hr : (checkAndCharge cost c.buckets c.now n.cells).1 with _ | e
    · rw [hr, if_pos rfl] at hlands
      rw [(checkAndCharge_none hr).2] at hres hlands ⊢
      exact growsTo_charges hres hlands hb.sized
    · rw [(checkAndCharge_some hr).2]
      exact GrowsTo.refl _
  | accrued key pool i model tokens now b hop hbk hc hstore hflush =>
    refine hcells hflush (by rw [hstore]) ?_
    have hcell : n'.cellOf id W = held W ((accrueBucket n.cells b.1 b.2 model tokens now).lookup id) := by
      unfold Node.cellOf
      rw [hc]
    rw [hcell] at hres ⊢
    rw [lookup_accrueBucket] at hres ⊢
    by_cases hid : b.1 = id
    · rw [if_pos hid] at hres ⊢
      exact growsTo_touch (d := accrual model tokens) rfl (fun m hm => cur_credit _ model tokens now m hm)
        (fun m => acked_credit _ model tokens now m) hres hb.sized
    · rw [if_neg hid]
      exact GrowsTo.refl _
  | refunded k c i b hop hcall hbk hc hstore hflush =>
    refine hcells hflush (by rw [hstore]) ?_
    have hcell : n'.cellOf id W = (n.cellOf id W).map (fun cell =>
        if b.1 = id ∧ cell.windowStart = budgetWindow b.2 c.now then cell.refund else cell) := by
      unfold Node.cellOf
      rw [hc, lookup_refundBucket]
      refine held_map (fun cell => ?_) _
      split <;> rfl
    rw [hcell]
    refine GrowsTo.map (fun cell m hm => ?_) (fun cell => ?_) (fun cell m => ?_) _
    · split
      · rw [cur_refund, if_neg hm]
      · rfl
    · split
      · exact Nat.sub_le _ _
      · exact Nat.le_refl _
    · split
      · exact acked_refund cell m
      · rfl
  | started hph hc hstore hflush =>
    refine hflushed (hb.turn hord hc hstore (by rw [hph, hflush]; rfl) (fun m => ?_)) (hsame hc)
    unfold Node.durable Node.cellOf
    rw [hph, hflush, hc]
  | read shard snaps hph hc hstore hflush =>
    refine hflushed (hb.readShard hph hc hstore hflush) ⟨cleaned id shard, cur_cleaned id shard, ?_⟩
    unfold Node.cellOf
    rw [hc, lookup_cleanShard]
    exact held_map (windowStart_cleaned id shard) _
  | readAll shard snaps hph hlast hc hstore hflush =>
    refine hflushed (hb.turn hord hc hstore (by rw [hph, hflush]; rfl) (fun m => ?_)) (hsame hc)
    unfold Node.durable Node.cellOf
    rw [hph, hflush, hc]
  | wrote pick ok s snaps hop hph hpick hc hstore hflush =>
    refine hflushed (hb.writeSnap hord hph hpick hc hstore hflush ?_) (hsame hc)
    intro hok hz
    refine hkeep ?_
    subst hop hok
    unfold Node.writes
    rw [hph]
    simp [hpick, hz]
  | settled s ok snaps hph hc hstore hflush =>
    have hb' := hb.settleSnap hord hph hc hstore hflush
    by_cases ho : s.IsOf id W
    · refine hflushed hb' ⟨settled s ok, ?_, ?_⟩
      · intro c m
        unfold settled
        split
        · exact cur_acknowledge c s m
        · cases m <;> rfl
      · unfold Node.cellOf
        rw [hc]
        exact cellOf_settle_of ok ho
    · refine hflushed hb' ⟨fun c => c, fun _ _ => rfl, ?_⟩
      unfold Node.cellOf
      rw [hc, cellOf_settle_ne ok ho, Option.map_id']
  | ended hph hc hstore hflush =>
    refine hflushed (hb.turn hord hc hstore (by rw [hph, hflush]; rfl) (fun m => ?_)) (hsame hc)
    unfold Node.durable Node.cellOf
    rw [hph, hflush, hc]

/-! ## What is reported -/

/-- A meter as it is reported: the cell's reading, else the row's. -/
def Node.reading (n : Node) (id : String) (W : Nat) (m : Meter) : Nat :=
  (n.cellOf id W).elim (n.row id W m) (fun c => c.cur m)

theorem reading_some {n : Node} {c : BudgetCell} (h : n.cellOf id W = some c) (m : Meter) :
    n.reading id W m = c.cur m := by
  unfold Node.reading
  rw [h]
  rfl

theorem reading_none {n : Node} (h : n.cellOf id W = none) (m : Meter) : n.reading id W m = n.row id W m := by
  unfold Node.reading
  rw [h]
  rfl

/-- Without a cell of the window there is nothing in its row. -/
theorem Backed.row_of_none {n : Node} (hb : Backed id W n) (h : n.cellOf id W = none) {m : Meter}
    (hm : m ≠ .billable) : n.row id W m = 0 := by
  have hr := hb.row m hm
  have hd : n.durable id W m = 0 := by
    unfold Node.durable
    rw [h]
    rcases hph : n.flush with _ | ⟨shard, snaps⟩ | snaps | ⟨s, ok, snaps⟩
    · rfl
    · rfl
    · rfl
    · cases ok with
      | false => rfl
      | true =>
        have hno : ¬ s.IsOf id W := by
          intro ho
          obtain ⟨c, hc, -⟩ := hb.taken s (by rw [hph]; exact List.mem_cons_self) ho
          rw [h] at hc
          cases hc
        exact if_neg hno
  omega

/-- The row is never ahead of what is reported. -/
theorem Backed.row_le {n : Node} (hb : Backed id W n) {m : Meter} (hm : m ≠ .billable) :
    n.row id W m ≤ n.reading id W m := by
  rcases hc : n.cellOf id W with _ | c
  · rw [reading_none hc]
  · rw [reading_some hc]
    have hr := hb.row m hm
    have hacked : n.durable id W m ≤ c.cur m := by
      have hle : ackedSigned (n.cellOf id W) m ≤ c.cur m := by
        rw [hc, ackedSigned_some]
        have h₁ := signed_le (c.acked m)
        have h₂ := hb.grown c hc m hm
        omega
      unfold Node.durable
      rcases hph : n.flush with _ | ⟨shard, snaps⟩ | snaps | ⟨s, ok, snaps⟩
      · exact hle
      · exact hle
      · exact hle
      · cases ok with
        | false => exact hle
        | true =>
          dsimp only
          split
          · rename_i ho
            obtain ⟨c', hc', ht⟩ := hb.taken s (by rw [hph]; exact List.mem_cons_self) ho
            rw [Option.some.inj (hc.symm.trans hc')]
            have h₁ := signed_le (s.cur m)
            have h₂ := ht.grown m hm
            omega
          · exact hle
    omega

/-- The conditions of a run: the cell stays once it is there, and the store keeps the row. -/
def NodeRun.KeptAlong (cost : CostModel) (id : String) (W : Nat) (n : Node) (ops : List NodeOp) : Prop :=
  Run.Along (fun pre op => (NodeRun.after cost n pre).node.StaysResident cost id W op ∧
    (NodeRun.after cost n pre).node.StoreKeeps W op) ops

theorem backed_after {n : Node} (hb : Backed id W n) {ops : List NodeOp}
    (hk : NodeRun.KeptAlong cost id W n ops) : Backed id W (NodeRun.after cost n ops).node := by
  refine Run.Along.invariant (I := fun ops => Backed id W (NodeRun.after cost n ops).node) hb ?_ hk
  rintro pre op ih ⟨hstay, hkeep⟩
  rw [NodeRun.after_snoc]
  exact (backed_step ih hstay hkeep).1

/-- What is reported never goes down. -/
theorem reading_grows {n : Node} (hb : Backed id W n) {pre post : List NodeOp}
    (hk : NodeRun.KeptAlong cost id W n (pre ++ post)) {m : Meter} (hm : m ≠ .billable) :
    (NodeRun.after cost n pre).node.reading id W m ≤
      (NodeRun.after cost n (pre ++ post)).node.reading id W m := by
  induction post using List.reverseRecOn with
  | nil =>
    rw [List.append_nil]
  | append_singleton post op ih =>
    rw [← List.append_assoc] at hk ⊢
    obtain ⟨hk', hstay, hkeep⟩ := Run.Along.snoc_iff.1 hk
    refine Nat.le_trans (ih hk') ?_
    have hb₁ := backed_after hb hk'
    rw [NodeRun.after_snoc]
    obtain ⟨hb₂, hgrows⟩ := backed_step hb₁ hstay hkeep
    rcases hc : (NodeRun.after cost n (pre ++ post)).node.cellOf id W with _ | c
    · rw [reading_none hc, hb₁.row_of_none hc hm]
      exact Nat.zero_le _
    · obtain ⟨c', hc', hcur⟩ := hgrows c hc
      rw [reading_some hc]
      have hread := reading_some (n := ((NodeRun.after cost n (pre ++ post)).step cost op).node) hc' m
      rw [hread]
      exact hcur m hm

/-! ## Totals over models -/

/-- The models a report of the (bucket, window) sums over. -/
def Node.views (n : Node) (id : String) (W : Nat) : List (String × TierTokens) :=
  match n.cellOf id W with
  | some c => c.modelViews
  | none => (n.store.getUsage id W).models.map (fun m => (m.model, m.tokens))

theorem find_ledgerViews (u : UsageLedger) (model : String) :
    (viewOf (u.models.map (fun m => (m.model, m.tokens))) model) = (u.tokensFor model).getD TierTokens.zero := by
  unfold viewOf UsageLedger.tokensFor
  rw [List.find?_map, Option.map_map]
  rfl

theorem viewOf_views (n : Node) (model : String) (tier : Tier) :
    (viewOf (n.views id W) model).get tier = n.reading id W (.tokens model tier) := by
  unfold Node.views
  rcases hc : n.cellOf id W with _ | c
  · rw [reading_none hc]
    dsimp only
    rw [find_ledgerViews]
    rfl
  · rw [reading_some hc]
    dsimp only
    unfold viewOf
    rw [find_modelViews]
    show _ = (modelOf c.models model).cur.get tier
    unfold modelOf
    rcases c.models.lookup model with _ | mc <;> rfl

theorem Backed.nodup_views {n : Node} (hb : Backed id W n) : ((n.views id W).map Prod.fst).Nodup := by
  unfold Node.views
  split
  · rename_i c _
    unfold BudgetCell.modelViews
    rw [List.map_map]
    exact c.models.nodup
  · rw [List.map_map]
    exact hb.keyed

/-- What `usage_for` reports of a key: the all-time readings. -/
theorem usageFor_eq (cost : CostModel) {n : Node} {id : String} (hkey : (n.store.getKey id).isSome) (now : Nat) :
    ∃ u, usageFor cost n.cells n.store id now = some u ∧ u.requests = n.reading id 0 .requests ∧
      u.tokens = totalOf (n.views id 0) := by
  obtain ⟨k, hk⟩ := Option.isSome_iff_exists.1 hkey
  refine ⟨derivedBucketUsage cost n.cells n.store id windowTotal true now, ?_, ?_⟩
  · unfold usageFor
    rw [hk]
    rfl
  · have hw : budgetWindow windowTotal now = 0 := rfl
    unfold derivedBucketUsage
    dsimp only
    rw [hw]
    have hcell : (n.cells.lookup id).filter (fun c => c.windowStart = 0) = n.cellOf id 0 := rfl
    rw [hcell]
    unfold Node.views
    rcases hc : n.cellOf id 0 with _ | c
    · refine ⟨(reading_none hc .requests).symm, ?_⟩
      show UsageLedger.totalTokens _ = totalOf _
      unfold UsageLedger.totalTokens totalOf
      rw [List.foldl_map]
    · refine ⟨(reading_some hc .requests).symm, ?_⟩
      show BudgetCell.totalTokens _ = totalOf _
      unfold BudgetCell.totalTokens totalOf BudgetCell.modelViews
      rw [List.foldl_map]

/-- The ledger's work leaves the key rows alone. -/
theorem keys_step (cost : CostModel) (n : Node) (op : NodeOp) : (n.step cost op).store.keys = n.store.keys := by
  have hadvance : ∀ k c, (n.advanceCall cost k c).store = n.store := by
    intro k c
    unfold Node.advanceCall
    split
    · split <;> rfl
    · rfl
    · split <;> rfl
    · rfl
    · rfl
  have hwrite : ∀ s ok, (writeSnap n.store s ok).1.keys = n.store.keys := by
    intro s ok
    unfold writeSnap
    split
    · rfl
    · split <;> rfl
  cases op with
  | advance k =>
    unfold Node.step
    dsimp only
    split
    · rw [hadvance]
    · rfl
  | flushStep pick ok =>
    show (n.advanceFlush pick ok).store.keys = _
    unfold Node.advanceFlush
    split
    · rfl
    · split <;> rfl
    · split
      · exact hwrite _ ok
      · split <;> rfl
    · rfl
  | finish k =>
    unfold Node.step
    dsimp only
    split
    · split <;> rfl
    · rfl
  | accrue key pool i model tokens now =>
    unfold Node.step
    dsimp only
    split
    · split <;> rfl
    · rfl
  | refund k i =>
    unfold Node.step
    dsimp only
    split
    · split <;> rfl
    · rfl
  | flush =>
    unfold Node.step
    dsimp only
    split <;> rfl
  | _ => rfl

theorem keys_after (cost : CostModel) (n : Node) (ops : List NodeOp) :
    (NodeRun.after cost n ops).node.store.keys = n.store.keys := by
  induction ops using List.reverseRecOn with
  | nil => rfl
  | append_singleton ops op ih =>
    rw [NodeRun.after_snoc]
    exact (keys_step cost _ op).trans ih

/-! ## Restarts -/

/-- A node as it starts over a ledger: the cell, if there is one, was seeded from the row. -/
structure Node.Restored (n : Node) (id : String) (W : Nat) : Prop where
  flush : n.flush = .idle
  seeded : ∀ c, n.cellOf id W = some c → ∀ m, c.cur m = n.row id W m ∧ c.acked m = n.row id W m ∧
    (n.row id W m : Int) ≤ i64Max
  empty : n.cellOf id W = none → ∀ m, m ≠ .billable → n.row id W m = 0
  keyed : ((n.store.getUsage id W).models.map ModelTokens.model).Nodup

theorem backed_restored {n : Node} (hn : n.Restored id W) : Backed id W n where
  ordered := by
    constructor
    · rw [hn.flush]
      exact List.nodup_nil
    · intro shard snaps he
      rw [hn.flush] at he
      cases he
  sized := by
    intro c hc m
    obtain ⟨hcur, -, hle⟩ := hn.seeded c hc m
    rw [hcur]
    unfold i64Max at hle
    unfold u64Max
    omega
  grown := by
    intro c hc m _
    obtain ⟨hcur, hack, -⟩ := hn.seeded c hc m
    rw [hcur, hack]
  taken := by
    intro s hs
    rw [hn.flush] at hs
    exact absurd hs List.not_mem_nil
  row := by
    intro m hm
    unfold Node.durable
    rw [hn.flush]
    dsimp only
    rcases hc : n.cellOf id W with _ | c
    · rw [hn.empty hc m hm]
      rfl
    · obtain ⟨-, hack, hle⟩ := hn.seeded c hc m
      rw [ackedSigned_some, hack]
      unfold signed
      omega
  keyed := hn.keyed

/-- A cell seeded from its row: touched now, and nothing to flush. -/
def BudgetCell.seeded (window now : Nat) (ledger : UsageLedger) : BudgetCell :=
  { BudgetCell.fresh window with
    lastTouch := now
    requests := ledger.requests
    flushedRequests := ledger.requests
    billableRequests := ledger.billableRequests
    flushedBillableRequests := ledger.billableRequests
    models := ledger.models.foldl (fun models m => models.set m.model ⟨m.tokens, m.tokens⟩) Registry.empty }

/-- `hydrate_budgets` of one bucket; an empty row seeds nothing. -/
def hydrateBucket (store : MemoryStore) (now : Nat) (cells : Cells) (b : String × String) : Cells :=
  let window := budgetWindow b.2 now
  let ledger := store.getUsage b.1 window
  if ledger.requests = 0 ∧ ledger.models = [] then cells
  else cells.insert b.1 (BudgetCell.seeded window now ledger)

/-- The buckets a boot hydrates: every key's own, and every group's. -/
def hydratedBuckets (cost : CostModel) (store : MemoryStore) : List (String × String) :=
  store.listKeys.map (fun k => (k.id, windowTotal)) ++
    cost.groups.flatMap (fun g => g.buckets.map (fun b => (b.bucketId, b.window)))

def hydrateBudgets (cost : CostModel) (store : MemoryStore) (now : Nat) : Cells :=
  (hydratedBuckets cost store).foldl (hydrateBucket store now) Registry.empty

theorem lookup_hydrateBucket_ne {store : MemoryStore} {now : Nat} {b : String × String} (h : b.1 ≠ id)
    (cells : Cells) : (hydrateBucket store now cells b).lookup id = cells.lookup id := by
  unfold hydrateBucket
  dsimp only
  split
  · rfl
  · rw [Table.lookup_insert, if_neg h]

theorem lookup_hydrate_ne (store : MemoryStore) (now : Nat) {bs : List (String × String)}
    (h : ∀ b ∈ bs, b.1 ≠ id) (cells : Cells) :
    (bs.foldl (hydrateBucket store now) cells).lookup id = cells.lookup id := by
  induction bs generalizing cells with
  | nil => rfl
  | cons b bs ih =>
    rw [List.foldl_cons, ih (fun b' hb' => h b' (List.mem_cons_of_mem _ hb')),
      lookup_hydrateBucket_ne (h b List.mem_cons_self)]

/-- The models of a seeded cell are those of the row. -/
theorem modelOf_seeded {models : List ModelTokens} (hnd : (models.map ModelTokens.model).Nodup)
    (T : Table String ModelCell) (model : String) :
    modelOf (models.foldl (fun models m => models.set m.model ⟨m.tokens, m.tokens⟩) T) model =
      match models.find? (fun m => m.model = model) with
      | some m => ⟨m.tokens, m.tokens⟩
      | none => modelOf T model := by
  induction models generalizing T with
  | nil => rfl
  | cons m ms ih =>
    rw [List.map_cons, List.nodup_cons] at hnd
    rw [List.foldl_cons, ih hnd.2]
    by_cases h : m.model = model
    · have hnone : ms.find? (fun m => m.model = model) = none := by
        rw [List.find?_eq_none]
        intro m' hm' he
        exact hnd.1 (List.mem_map.2 ⟨m', hm', (by simpa using he : m'.model = model).trans h.symm⟩)
      rw [hnone, List.find?_cons_of_pos (by simpa using h), modelOf_set, if_pos h]
    · rw [List.find?_cons_of_neg (by simpa using h), modelOf_set, if_neg h]

theorem readings_seeded {u : UsageLedger} (hnd : (u.models.map ModelTokens.model).Nodup) (window now : Nat)
    (m : Meter) : (BudgetCell.seeded window now u).cur m = u.meter m ∧
      (BudgetCell.seeded window now u).acked m = u.meter m := by
  cases m with
  | requests => exact ⟨rfl, rfl⟩
  | billable => exact ⟨rfl, rfl⟩
  | tokens model tier =>
    have hmodel := modelOf_seeded hnd Registry.empty model
    have hrow : u.meter (.tokens model tier) =
        (((u.models.find? (fun m => m.model = model)).map ModelTokens.tokens).getD TierTokens.zero).get tier := rfl
    have hcell : modelOf (BudgetCell.seeded window now u).models model = _ := hmodel
    unfold BudgetCell.cur BudgetCell.acked
    dsimp only
    rw [hcell, hrow]
    rcases hf : u.models.find? (fun m => m.model = model) with _ | e
    · rw [hf]
      exact ⟨rfl, rfl⟩
    · rw [hf]
      exact ⟨rfl, rfl⟩

/-- **A boot restores every key** the store knows whose id is no group bucket's. -/
theorem restored_hydrate {cost : CostModel} {store : MemoryStore} {id : String} (now : Nat)
    (hkey : (store.getKey id).isSome)
    (hgroup : ∀ g ∈ cost.groups, ∀ b ∈ g.buckets, b.bucketId ≠ id)
    (hkeyed : ((store.getUsage id 0).models.map ModelTokens.model).Nodup)
    (hle : ∀ m, ((store.getUsage id 0).meter m : Int) ≤ i64Max) :
    ({ Node.new with cells := hydrateBudgets cost store now, store := store } : Node).Restored id 0 := by
  have hlookup : (hydrateBudgets cost store now).lookup id =
      (hydrateBucket store now Registry.empty (id, windowTotal)).lookup id := by
    obtain ⟨k, hk⟩ := Option.isSome_iff_exists.1 hkey
    have hid : k.id = id := Registry.key_of_get hk
    have hmem : k ∈ store.listKeys := MemoryStore.mem_listKeys.2 (Registry.get_eq_some.1 hk).1
    obtain ⟨before, after, hsplit⟩ := List.append_of_mem hmem
    have hnd := MemoryStore.nodup_listKeys store
    rw [hsplit, List.map_append, List.map_cons] at hnd
    have hone := List.nodup_append.1 hnd
    have hbefore : ∀ b ∈ before.map (fun k => (k.id, windowTotal)), b.1 ≠ id := by
      intro b hb he
      obtain ⟨k', hk', rfl⟩ := List.mem_map.1 hb
      exact hone.2.2 _ (List.mem_map.2 ⟨k', hk', rfl⟩) _ List.mem_cons_self (he.trans hid.symm)
    have hafter : ∀ b ∈ after.map (fun k => (k.id, windowTotal)) ++
        cost.groups.flatMap (fun g => g.buckets.map (fun b => (b.bucketId, b.window))), b.1 ≠ id := by
      intro b hb he
      rcases List.mem_append.1 hb with hb | hb
      · obtain ⟨k', hk', rfl⟩ := List.mem_map.1 hb
        exact (List.nodup_cons.1 hone.2.1).1 (List.mem_map.2 ⟨k', hk', he.trans hid.symm⟩)
      · obtain ⟨g, hg, hb⟩ := List.mem_flatMap.1 hb
        obtain ⟨b', hb', rfl⟩ := List.mem_map.1 hb
        exact hgroup g hg b' hb' he
    have hlist : hydratedBuckets cost store = before.map (fun k => (k.id, windowTotal)) ++
        (id, windowTotal) :: (after.map (fun k => (k.id, windowTotal)) ++
          cost.groups.flatMap (fun g => g.buckets.map (fun b => (b.bucketId, b.window)))) := by
      unfold hydratedBuckets
      rw [hsplit, List.map_append, List.map_cons, List.append_assoc, List.cons_append, hid]
    unfold hydrateBudgets
    rw [hlist, List.foldl_append, List.foldl_cons, lookup_hydrate_ne store now hafter]
    have hempty := lookup_hydrate_ne store now hbefore Registry.empty
    generalize (before.map (fun k => (k.id, windowTotal))).foldl (hydrateBucket store now) Registry.empty = cells
      at hempty
    unfold hydrateBucket
    dsimp only
    split
    · exact hempty
    · rw [Table.lookup_insert_self, Table.lookup_insert_self]
  have hw : budgetWindow windowTotal now = 0 := rfl
  have hempty : Table.lookup (Registry.empty : Cells) id = none := rfl
  unfold hydrateBucket at hlookup
  dsimp only at hlookup
  rw [hw] at hlookup
  refine ⟨rfl, ?_, ?_, hkeyed⟩
  · intro c hc m
    have hl : (hydrateBudgets cost store now).lookup id = some c := (held_eq_some.1 hc).1
    rw [hlookup] at hl
    split at hl
    · rw [hempty] at hl
      cases hl
    · rw [Table.lookup_insert_self] at hl
      rw [← Option.some.inj hl]
      obtain ⟨hcur, hack⟩ := readings_seeded hkeyed 0 now m
      exact ⟨hcur, hack, hle m⟩
  · intro hnone m hm
    have hzero : (store.getUsage id 0).requests = 0 ∧ (store.getUsage id 0).models = [] := by
      by_contra hne
      rw [if_neg hne, Table.lookup_insert_self] at hlookup
      have hcell : held 0 ((hydrateBudgets cost store now).lookup id) = none := hnone
      rw [hlookup, held_some (show (BudgetCell.seeded 0 now (store.getUsage id 0)).windowStart = 0 from rfl)]
        at hcell
      cases hcell
    show (store.getUsage id 0).meter m = 0
    cases m with
    | requests => exact hzero.1
    | billable => exact absurd rfl hm
    | tokens model tier =>
      unfold UsageLedger.meter UsageLedger.tokensFor
      dsimp only
      rw [hzero.2]
      exact get_zero tier

theorem restored_boot {n : Node} (hn : n.Boots id W) : n.Restored id W := by
  have hcell : n.cellOf id W = none := by
    unfold Node.cellOf
    rw [hn.cells]
    rfl
  have hrow : n.store.getUsage id W = UsageLedger.default := by
    unfold MemoryStore.getUsage
    rw [hn.row]
    rfl
  refine ⟨hn.flush, ?_, ?_, by rw [hrow]; exact List.nodup_nil⟩
  · intro c hc
    rw [hcell] at hc
    cases hc
  · intro _ m _
    unfold Node.row
    rw [hrow]
    exact meter_default m

/-- **Reported usage never goes backwards** while the key's cell stays: what is reported of the key's
all-time bucket only grows, and is never less than what the row holds. -/
theorem lifetime_grows (cost : CostModel) (id : String) (n : Node) (hn : n.Restored id 0)
    (hkey : (n.store.getKey id).isSome) (pre post : List NodeOp)
    (hkept : NodeRun.KeptAlong cost id 0 n (pre ++ post)) (now now' : Nat) :
    let early := (NodeRun.after cost n pre).node
    let late := (NodeRun.after cost n (pre ++ post)).node
    ∃ u u', usageFor cost early.cells early.store id now = some u ∧
      usageFor cost late.cells late.store id now' = some u' ∧ u.requests ≤ u'.requests ∧ u.tokens ≤ u'.tokens ∧
      (late.store.getUsage id 0).requests ≤ u'.requests ∧
      (late.store.getUsage id 0).totalTokens ≤ u'.tokens := by
  intro early late
  have hb := backed_restored hn
  have hb₁ : Backed id 0 early := backed_after hb hkept.append_left
  have hb₂ : Backed id 0 late := backed_after hb hkept
  have hgrows : ∀ m, m ≠ .billable → early.reading id 0 m ≤ late.reading id 0 m :=
    fun m hm => reading_grows hb hkept hm
  have hkeys : ∀ ops, ((NodeRun.after cost n ops).node.store.getKey id).isSome := by
    intro ops
    unfold MemoryStore.getKey
    rw [keys_after]
    exact hkey
  obtain ⟨u, hu, hreq, htok⟩ := usageFor_eq cost (hkeys pre) now
  obtain ⟨u', hu', hreq', htok'⟩ := usageFor_eq cost (hkeys (pre ++ post)) now'
  refine ⟨u, u', hu, hu', ?_, ?_, ?_, ?_⟩
  · rw [hreq, hreq']
    exact hgrows .requests (by simp)
  · rw [htok, htok']
    refine totalOf_le hb₁.nodup_views (fun model tier => ?_)
    rw [viewOf_views, viewOf_views]
    exact hgrows _ (by simp)
  · rw [hreq']
    exact hb₂.row_le (m := .requests) (by simp)
  · have hrow : (late.store.getUsage id 0).totalTokens =
        totalOf ((late.store.getUsage id 0).models.map (fun m => (m.model, m.tokens))) := by
      unfold UsageLedger.totalTokens totalOf
      rw [List.foldl_map]
    rw [htok', hrow]
    refine totalOf_le (by rw [List.map_map]; exact hb₂.keyed) (fun model tier => ?_)
    rw [viewOf_views, find_ledgerViews]
    exact hb₂.row_le (m := .tokens model tier) (by simp)

namespace LoneKey

/-- A store that knows the key. -/
def knownStore : MemoryStore := { MemoryStore.new with keys := Registry.empty.put key }

/-- Two requests and the flush after them. -/
def twoRequests : List NodeOp :=
  [.begin key "" 100, .advance 0, .begin key "" 200, .advance 1] ++ flushRun 70

/-- A sweep of the key's shard and a request, 31 days later. -/
def monthLater : List NodeOp :=
  [.sweep (shardIndex "vk_a") (200 + maxWindow), .begin key "" (200 + maxWindow), .advance 2]

theorem keptAlong {st : MemoryStore} {ops : List NodeOp}
    (h : Run.checks (NodeRun.step cost) (fun r op => r.node.StaysResident cost "vk_a" 0 op ∧
      r.node.StoreKeeps 0 op) (NodeRun.start (node st)) ops = true) :
    NodeRun.KeptAlong cost "vk_a" 0 (node st) ops := Run.Along.of_checks _ h

end LoneKey

/-- **The sweep resets what is reported.** Two requests are reported; after an idle month the sweep gives up
the clean cell, and with the next request one is, which is less than the row holds. -/
theorem sweep_resets_lifetime :
    let early := (NodeRun.after LoneKey.cost (LoneKey.node LoneKey.knownStore) LoneKey.twoRequests).node
    let late := (NodeRun.after LoneKey.cost (LoneKey.node LoneKey.knownStore)
      (LoneKey.twoRequests ++ LoneKey.monthLater)).node
    (LoneKey.node LoneKey.knownStore).Restored "vk_a" 0 ∧
      NodeRun.RowKeptAlong LoneKey.cost 0 (LoneKey.node LoneKey.knownStore)
        (LoneKey.twoRequests ++ LoneKey.monthLater) ∧
      usageFor LoneKey.cost early.cells early.store "vk_a" 200 = some ⟨0, 0, 2⟩ ∧
      usageFor LoneKey.cost late.cells late.store "vk_a" (200 + maxWindow) = some ⟨0, 0, 1⟩ ∧
      (late.store.getUsage "vk_a" 0).requests = 2 := by
  refine ⟨restored_boot (LoneKey.boots _ rfl), LoneKey.rowKeptAlong ?_, ?_⟩
  · decide +kernel
  · decide +kernel

/-- A request, its tokens and its flush, with a second request while the flush runs. -/
theorem lifetime_grows_flushed :
    ∃ u u', usageFor LoneKey.cost
        (NodeRun.after LoneKey.cost (LoneKey.node LoneKey.knownStore) (LoneKey.admitAndWrite 100 true)).node.cells
        (NodeRun.after LoneKey.cost (LoneKey.node LoneKey.knownStore) (LoneKey.admitAndWrite 100 true)).node.store
        "vk_a" 100 = some u ∧
      usageFor LoneKey.cost
        (NodeRun.after LoneKey.cost (LoneKey.node LoneKey.knownStore) (LoneKey.admitAndWrite 100 true ++
          [.accrue LoneKey.key "" 0 "m" ⟨3, 1, 0, 0⟩ 150, .begin LoneKey.key "" 200, .advance 1,
            .flushStep 0 true])).node.cells
        (NodeRun.after LoneKey.cost (LoneKey.node LoneKey.knownStore) (LoneKey.admitAndWrite 100 true ++
          [.accrue LoneKey.key "" 0 "m" ⟨3, 1, 0, 0⟩ 150, .begin LoneKey.key "" 200, .advance 1,
            .flushStep 0 true])).node.store
        "vk_a" 200 = some u' ∧
      u.requests ≤ u'.requests ∧ u.tokens ≤ u'.tokens := by
  obtain ⟨u, u', hu, hu', hreq, htok, -, -⟩ := lifetime_grows LoneKey.cost "vk_a"
    (LoneKey.node LoneKey.knownStore) (restored_boot (LoneKey.boots _ rfl)) (by decide +kernel)
    (LoneKey.admitAndWrite 100 true)
    [.accrue LoneKey.key "" 0 "m" ⟨3, 1, 0, 0⟩ 150, .begin LoneKey.key "" 200, .advance 1, .flushStep 0 true]
    (LoneKey.keptAlong (by decide +kernel)) 100 200
  exact ⟨u, u', hu, hu', hreq, htok⟩

end Busbar
