import Busbar.Governance.Conservation

/-!
# What a window boundary loses

A clean cell has nothing the store does not hold or is about to get, so a flush leaves the row with everything
ledgered before it began, unless a cell was given up before it was settled.

* `Clean`: what an unset dirty flag promises.
* `flush_secures`: a flush among other work, shard by shard and snapshot by snapshot.
* `eventually_durable`: everything ledgered reaches the row with the next flush, if cells leave their window
  settled only.
* `rollover_loses_tail`: a charge after the last flush is gone when the next window's charge replaces the
  cell.
-/

namespace Busbar

variable {cost : CostModel} {id : String} {W : Nat}

/-- The promise of a clean flag: what a snapshot on its way has read is current, and without one the cell is
settled. -/
structure Clean (id : String) (W : Nat) (n : Node) : Prop where
  read : ∀ c, n.cellOf id W = some c → c.dirty = false → ∀ s ∈ n.flush.inFlight, s.IsOf id W →
    ∀ m, s.cur m = c.cur m
  settled : ∀ c, n.cellOf id W = some c → c.dirty = false → (∀ s ∈ n.flush.inFlight, ¬ s.IsOf id W) →
    ∀ m, c.cur m = c.acked m

/-- A cell that is clean after a step was clean before, with the same readings. -/
def KeepsClean (o o' : Option BudgetCell) : Prop :=
  ∀ c', o' = some c' → c'.dirty = false →
    ∃ c, o = some c ∧ c.dirty = false ∧ ∀ m, c'.cur m = c.cur m ∧ c'.acked m = c.acked m

theorem KeepsClean.refl (o : Option BudgetCell) : KeepsClean o o :=
  fun c hc hd => ⟨c, hc, hd, fun _ => ⟨rfl, rfl⟩⟩

theorem keepsClean_dirty {o : Option BudgetCell} {c : BudgetCell} (h : c.dirty = true) :
    KeepsClean o (held W (some c)) := by
  intro c' hc' hd
  rw [← Option.some.inj (held_eq_some.1 hc').1, h] at hd
  cases hd

theorem Clean.ofCells {n n' : Node} (hc : Clean id W n) (hflush : n'.flush.inFlight = n.flush.inFlight)
    (hkeep : KeepsClean (n.cellOf id W) (n'.cellOf id W)) : Clean id W n' where
  read := by
    intro c' hc' hd s hs ho m
    obtain ⟨c, hcell, hdc, hread⟩ := hkeep c' hc' hd
    rw [hflush] at hs
    rw [(hread m).1]
    exact hc.read c hcell hdc s hs ho m
  settled := by
    intro c' hc' hd hno m
    obtain ⟨c, hcell, hdc, hread⟩ := hkeep c' hc' hd
    rw [hflush] at hno
    rw [(hread m).1, (hread m).2]
    exact hc.settled c hcell hdc hno m

/-- A charge pass leaves a cell alone or dirty. -/
theorem charges_dirty (now : Nat) (buckets : List ChainBucket) (cells : Cells) (id : String) :
    (buckets.foldl (chargeBucket now) cells).lookup id = cells.lookup id ∨
      ∃ c, (buckets.foldl (chargeBucket now) cells).lookup id = some c ∧ c.dirty = true := by
  induction buckets generalizing cells with
  | nil => exact Or.inl rfl
  | cons b bs ih =>
    rw [List.foldl_cons]
    rcases ih (chargeBucket now cells b) with h | h
    · rw [h, lookup_chargeBucket]
      by_cases hb : b.bucketId = id
      · rw [if_pos hb]
        exact Or.inr ⟨_, rfl, rfl⟩
      · rw [if_neg hb]
        exact Or.inl rfl
    · exact Or.inr h

/-- **The flag keeps its promise.** -/
theorem clean_step {r : NodeRun} {op : NodeOp} (hm : Mirrored id W r) (hc : Clean id W r.node) :
    Clean id W (r.node.step cost op) := by
  obtain ⟨n, h⟩ := r
  have heff := n.effect cost op
  show Clean id W (n.step cost op)
  have hc : Clean id W n := hc
  generalize n.step cost op = n' at *
  generalize n.events cost op = ev at *
  cases heff with
  | idle hcells husage hflush =>
    refine hc.ofCells (by rw [hflush]) ?_
    unfold Node.cellOf
    rw [hcells]
    exact KeepsClean.refl _
  | swept shard now hop hcells hstore hflush =>
    refine hc.ofCells (by rw [hflush]) ?_
    unfold Node.cellOf
    rw [hcells]
    rcases sweepShard_held id W cost now n.cells shard with h' | h' | h'
    · rw [h']
      intro c' hc'
      cases hc'
    · rw [h']
      exact KeepsClean.refl _
    · rw [h']
      intro c' hc' hd
      obtain ⟨c, hcell, rfl⟩ := Option.map_eq_some_iff.1 hc'
      exact ⟨c, hcell, hd, fun m => ⟨cur_pruneDeadModels c m, acked_pruneDeadModels c m⟩⟩
  | locked k c hop hcall hphase hcells hstore hflush =>
    refine hc.ofCells (by rw [hflush]) ?_
    unfold Node.cellOf
    rw [hcells]
    rcases hr : (checkAndCharge cost c.buckets c.now n.cells).1 with _ | e
    · rw [(checkAndCharge_none hr).2]
      rcases charges_dirty c.now c.buckets n.cells id with h' | ⟨c', h', hd⟩
      · rw [h']
        exact KeepsClean.refl _
      · rw [h']
        exact keepsClean_dirty hd
    · rw [(checkAndCharge_some hr).2]
      exact KeepsClean.refl _
  | accrued key pool i model tokens now b hop hb hcells hstore hflush =>
    refine hc.ofCells (by rw [hflush]) ?_
    unfold Node.cellOf
    rw [hcells, lookup_accrueBucket]
    split
    · exact keepsClean_dirty rfl
    · exact KeepsClean.refl _
  | refunded k c i b hop hcall hb hcells hstore hflush =>
    refine hc.ofCells (by rw [hflush]) ?_
    unfold Node.cellOf
    rw [hcells, lookup_refundBucket]
    rcases n.cells.lookup id with _ | cell
    · exact KeepsClean.refl _
    · rw [Option.map_some]
      split
      · exact keepsClean_dirty rfl
      · exact KeepsClean.refl _
  | started h hcells hstore hflush =>
    refine hc.ofCells (by rw [hflush, h]; rfl) ?_
    unfold Node.cellOf
    rw [hcells]
    exact KeepsClean.refl _
  | read shard snaps h hcells hstore hflush =>
    have hcell : n'.cellOf id W = (n.cellOf id W).map (cleaned id shard) := by
      unfold Node.cellOf
      rw [hcells, lookup_cleanShard]
      exact held_map (windowStart_cleaned id shard) _
    have hin : n'.flush.inFlight = n.flush.inFlight ++ dirtySnaps n.cells shard := by
      rw [hflush, h]
      rfl
    have hbehind := hm.ordered.behind shard snaps h
    -- the snapshots of this (bucket, window): those before of an earlier shard, a new one of the cell itself
    have hnew : ∀ s ∈ dirtySnaps n.cells shard, s.IsOf id W → shardIndex id = shard ∧
        ∃ c, n.cellOf id W = some c ∧ c.dirty = true ∧ s = DirtySnap.of id c := by
      rintro s hs ⟨rfl, hw⟩
      obtain ⟨c, hl, hsh, hd, he⟩ := mem_dirtySnaps.1 hs
      rw [he] at hw
      exact ⟨hsh, c, held_eq_some.2 ⟨hl, hw⟩, hd, he⟩
    have hold : ∀ s ∈ n.flush.inFlight, s.IsOf id W → shardIndex id ≠ shard := by
      intro s hs ho
      rw [h] at hs
      have := hbehind s hs
      rw [ho.1] at this
      omega
    constructor
    · intro c' hc' hd s hs ho m
      rw [hcell] at hc'
      obtain ⟨c, hcc, rfl⟩ := Option.map_eq_some_iff.1 hc'
      rw [cur_cleaned]
      rw [hin] at hs
      rcases List.mem_append.1 hs with hs | hs
      · have hd' : c.dirty = false := by
          have hne := hold s hs ho
          unfold cleaned at hd
          rwa [if_neg hne] at hd
        exact hc.read c hcc hd' s hs ho m
      · obtain ⟨-, c₂, hc₂, -, rfl⟩ := hnew s hs ho
        rw [cur_snap, Option.some.inj (hc₂.symm.trans hcc)]
    · intro c' hc' hd hno m
      rw [hcell] at hc'
      obtain ⟨c, hcc, rfl⟩ := Option.map_eq_some_iff.1 hc'
      rw [cur_cleaned, acked_cleaned]
      rw [hin] at hno
      have hd' : c.dirty = false := by
        by_contra hdirty
        have hdirty : c.dirty = true := by simpa using hdirty
        unfold cleaned at hd
        split at hd
        · rename_i hsh
          obtain ⟨hl, hw⟩ := held_eq_some.1 hcc
          have hs : DirtySnap.of id c ∈ dirtySnaps n.cells shard :=
            mem_dirtySnaps.2 ⟨c, hl, hsh, hdirty, rfl⟩
          exact hno _ (List.mem_append_right _ hs) ⟨rfl, hw⟩
        · rw [hdirty] at hd
          cases hd
      exact hc.settled c hcc hd' (fun s hs => hno s (List.mem_append_left _ hs)) m
  | readAll shard snaps h hlast hcells hstore hflush =>
    refine hc.ofCells (by rw [hflush, h]; rfl) ?_
    unfold Node.cellOf
    rw [hcells]
    exact KeepsClean.refl _
  | wrote pick ok s snaps hop h hpick hcells hstore hflush =>
    have hcell : n'.cellOf id W = n.cellOf id W := by
      unfold Node.cellOf
      rw [hcells]
    have hin : ∀ s', s' ∈ n'.flush.inFlight ↔ s' ∈ n.flush.inFlight := by
      intro s'
      rw [hflush, h]
      exact (perm_eraseIdx hpick).mem_iff
    constructor
    · intro c hcc hd s' hs' ho m
      rw [hcell] at hcc
      exact hc.read c hcc hd s' ((hin s').1 hs') ho m
    · intro c hcc hd hno m
      rw [hcell] at hcc
      exact hc.settled c hcc hd (fun s' hs' => hno s' ((hin s').2 hs')) m
  | settled s ok snaps h hcells hstore hflush =>
    have hin : n.flush.inFlight = s :: n'.flush.inFlight := by
      rw [h, hflush]
      rfl
    by_cases ho : s.IsOf id W
    · have hcell : n'.cellOf id W = (n.cellOf id W).map (settled s ok) := by
        unfold Node.cellOf
        rw [hcells]
        exact cellOf_settle_of ok ho
      have hnone : ∀ s' ∈ n'.flush.inFlight, ¬ s'.IsOf id W := by
        intro s' hs' ho'
        have hnd := hm.ordered.nodup
        rw [hin] at hnd
        exact absurd (List.find?_eq_none.1 (find_none_of_nodup ho hnd) s' hs') (by simpa using ho')
      constructor
      · intro c' _ _ s' hs' ho'
        exact absurd ho' (hnone s' hs')
      · intro c' hc' hd _ m
        rw [hcell] at hc'
        obtain ⟨c, hcc, rfl⟩ := Option.map_eq_some_iff.1 hc'
        cases ok with
        | false => cases hd
        | true =>
          obtain ⟨c₂, hc₂, hfit⟩ := hm.fits s (by rw [h]; exact List.mem_cons_self) ho
          have heq : c₂ = c := Option.some.inj (hc₂.symm.trans hcc)
          rw [heq] at hfit
          have hread := hc.read c hcc hd s (by rw [hin]; exact List.mem_cons_self) ho m
          show (c.acknowledge s).cur m = (c.acknowledge s).acked m
          rw [cur_acknowledge, acked_acknowledge hfit, hread]
    · have hcell : n'.cellOf id W = n.cellOf id W := by
        unfold Node.cellOf
        rw [hcells]
        exact cellOf_settle_ne ok ho
      constructor
      · intro c hcc hd s' hs' ho' m
        rw [hcell] at hcc
        exact hc.read c hcc hd s' (by rw [hin]; exact List.mem_cons_of_mem _ hs') ho' m
      · intro c hcc hd hno m
        rw [hcell] at hcc
        refine hc.settled c hcc hd (fun s' hs' => ?_) m
        rw [hin] at hs'
        rcases List.mem_cons.1 hs' with rfl | hs'
        · exact ho
        · exact hno s' hs'
  | ended h hcells hstore hflush =>
    refine hc.ofCells (by rw [hflush, h]; rfl) ?_
    unfold Node.cellOf
    rw [hcells]
    exact KeepsClean.refl _

/-! ## A flush that runs to its end -/

/-- The cells whose flag is set. -/
def dirtyCount (cells : Cells) : Nat := (cells.rows.filter (fun e => e.2.dirty)).length

theorem dirtyCount_cleanShard (cells : Cells) (shard : Nat) :
    dirtyCount (cleanShard cells shard) + (dirtySnaps cells shard).length = dirtyCount cells := by
  unfold dirtyCount dirtySnaps cleanShard Table.mapValues
  dsimp only
  rw [List.length_map]
  induction cells.rows with
  | nil => rfl
  | cons e l ih =>
    by_cases hs : shardIndex e.1 = shard
    · by_cases hd : e.2.dirty = true
      · simp only [List.map_cons, List.filter_cons, hs, hd, decide_true, Bool.and_self, if_true,
          List.length_cons, Bool.false_eq_true, if_false]
        omega
      · simp only [List.map_cons, List.filter_cons, hs, hd, Bool.and_false, Bool.false_eq_true, if_true, if_false]
        exact ih
    · by_cases hd : e.2.dirty = true
      · simp only [List.map_cons, List.filter_cons, hs, hd, decide_false, Bool.false_and, if_true,
          List.length_cons, Bool.false_eq_true, if_false]
        omega
      · simp only [List.map_cons, List.filter_cons, hs, hd, decide_false, Bool.false_and,
          Bool.false_eq_true, if_false]
        exact ih

/-- A bound on the steps a flush has left. -/
def flushLeft (n : Node) : Nat :=
  match n.flush with
  | .idle => 0
  | .reading shard snaps => (govShards - shard) + 2 + 2 * (snaps.length + dirtyCount n.cells)
  | .writing snaps => 1 + 2 * snaps.length
  | .settling _ _ snaps => 2 + 2 * snaps.length

/-- The flags a successful flush has cleared so far. -/
def FlushCleans (n : Node) : Prop :=
  match n.flush with
  | .reading shard _ => ∀ id c, n.cells.lookup id = some c → shardIndex id < shard → c.dirty = false
  | .settling _ ok _ => ok = true ∧ ∀ id c, n.cells.lookup id = some c → c.dirty = false
  | _ => ∀ id c, n.cells.lookup id = some c → c.dirty = false

theorem flushStep_spec {n : Node} (hf : FlushCleans n) :
    FlushCleans (n.advanceFlush 0 true) ∧
      (n.flush = .idle ∨ flushLeft (n.advanceFlush 0 true) < flushLeft n) := by
  unfold FlushCleans at hf
  rcases hph : n.flush with _ | ⟨shard, snaps⟩ | snaps | ⟨s, ok, snaps⟩
  · have hsame : n.advanceFlush 0 true = n := by
      unfold Node.advanceFlush
      rw [hph]
    rw [hsame]
    refine ⟨?_, Or.inl rfl⟩
    unfold FlushCleans
    rw [hph] at hf ⊢
    exact hf
  · rw [hph] at hf
    dsimp only at hf
    unfold Node.advanceFlush
    rw [hph]
    dsimp only
    by_cases hs : shard < govShards
    · rw [if_pos hs]
      constructor
      · intro id c hl hlt
        have hl' : (cleanShard n.cells shard).lookup id = some c := hl
        rw [lookup_cleanShard] at hl'
        obtain ⟨c₀, hl₀, rfl⟩ := Option.map_eq_some_iff.1 hl'
        by_cases he : shardIndex id = shard
        · rw [if_pos he]
        · rw [if_neg he]
          exact hf id c₀ hl₀ (by omega)
      · refine Or.inr ?_
        have hcount := dirtyCount_cleanShard n.cells shard
        unfold flushLeft
        rw [hph]
        dsimp only
        rw [List.length_append]
        omega
    · rw [if_neg hs]
      constructor
      · intro id c hl
        exact hf id c hl (Nat.lt_of_lt_of_le (shardIndex_lt id) (by omega))
      · refine Or.inr ?_
        unfold flushLeft
        rw [hph]
        dsimp only
        omega
  · rw [hph] at hf
    dsimp only at hf
    unfold Node.advanceFlush
    rw [hph]
    dsimp only
    rcases hpick : snaps[0]? with _ | s
    · have hnil : snaps = [] := by
        rcases snaps with _ | ⟨s, l⟩
        · rfl
        · cases hpick
      subst hnil
      refine ⟨hf, Or.inr ?_⟩
      unfold flushLeft
      rw [hph]
      exact Nat.zero_lt_one
    · dsimp only
      have hok : (writeSnap n.store s true).2 = true := by
        unfold writeSnap
        split <;> rfl
      refine ⟨⟨hok, hf⟩, Or.inr ?_⟩
      have hlen := (perm_eraseIdx hpick).length_eq
      rw [List.length_cons] at hlen
      unfold flushLeft
      rw [hph]
      dsimp only
      omega
  · rw [hph] at hf
    dsimp only at hf
    obtain ⟨rfl, hclean⟩ := hf
    unfold Node.advanceFlush
    rw [hph]
    dsimp only
    constructor
    · intro id c hl
      have hl' : (settle n.cells s true).lookup id = some c := hl
      rw [lookup_settle] at hl'
      obtain ⟨c₀, hl₀, rfl⟩ := Option.map_eq_some_iff.1 hl'
      have hd := hclean id c₀ hl₀
      split
      · exact hd
      · exact hd
    · refine Or.inr ?_
      unfold flushLeft
      rw [hph]
      dsimp only
      omega

/-- A flush that nothing disturbs and whose store calls succeed. -/
def flushRun (steps : Nat) : List NodeOp := .flush :: List.replicate steps (.flushStep 0 true)

variable (cost) in
theorem exec_flushSteps {n : Node} (hf : FlushCleans n) (h : List LedgerEvent) {k : Nat}
    (hk : flushLeft n ≤ k) :
    let r := Run.exec (NodeRun.step cost) ⟨n, h⟩ (List.replicate k (.flushStep 0 true))
    r.history = h ∧ r.node.flush = .idle ∧ FlushCleans r.node := by
  induction k generalizing n h with
  | zero =>
    refine ⟨rfl, ?_, hf⟩
    show n.flush = .idle
    rcases hph : n.flush with _ | ⟨shard, snaps⟩ | snaps | ⟨s, ok, snaps⟩
    · rfl
    all_goals
      unfold flushLeft at hk
      rw [hph] at hk
      dsimp only at hk
      omega
  | succ k ih =>
    obtain ⟨hf', hleft⟩ := flushStep_spec hf
    have hstep : NodeRun.step cost ⟨n, h⟩ (.flushStep 0 true) = ⟨n.advanceFlush 0 true, h⟩ := by
      unfold NodeRun.step
      show (⟨n.advanceFlush 0 true, h ++ []⟩ : NodeRun) = _
      rw [List.append_nil]
    rw [List.replicate_succ, Run.exec_cons, hstep]
    refine ih hf' h ?_
    rcases hleft with hidle | hlt
    · have hsame : n.advanceFlush 0 true = n := by
        unfold Node.advanceFlush
        rw [hidle]
      rw [hsame]
      unfold flushLeft
      rw [hidle]
      exact Nat.zero_le _
    · omega

/-- How many steps a flush of the node takes at most. -/
def flushLength (n : Node) : Nat := govShards + 2 + 2 * dirtyCount n.cells

variable (cost) in
/-- **A flush ends** with every flag cleared. -/
theorem flush_ends {n : Node} (hidle : n.flush = .idle) (h : List LedgerEvent) {k : Nat}
    (hk : flushLength n ≤ k) :
    let r := Run.exec (NodeRun.step cost) ⟨n, h⟩ (flushRun k)
    r.history = h ∧ r.node.flush = .idle ∧ ∀ id c, r.node.cells.lookup id = some c → c.dirty = false := by
  have hstep : NodeRun.step cost ⟨n, h⟩ .flush = ⟨{ n with flush := .reading 0 [] }, h⟩ := by
    show (⟨n.step cost .flush, h ++ []⟩ : NodeRun) = _
    rw [List.append_nil]
    unfold Node.step
    rw [hidle]
  have hclean : FlushCleans { n with flush := .reading 0 [] } :=
    fun id c _ hlt => absurd hlt (Nat.not_lt_zero _)
  have hleft : flushLeft { n with flush := .reading 0 [] } ≤ k := by
    unfold flushLeft
    unfold flushLength at hk
    simp only [List.length_nil]
    omega
  unfold flushRun
  rw [Run.exec_cons, hstep]
  obtain ⟨h₁, h₂, h₃⟩ := exec_flushSteps cost hclean h hleft
  refine ⟨h₁, h₂, ?_⟩
  unfold FlushCleans at h₃
  rw [h₂] at h₃
  exact h₃

/-! ## What reaches the row -/

theorem clean_boot {n : Node} (hn : n.Boots id W) : Clean id W n := by
  have hcell : n.cellOf id W = none := by
    unfold Node.cellOf
    rw [hn.cells]
    rfl
  constructor
  · intro c hc
    rw [hcell] at hc
    cases hc
  · intro c hc
    rw [hcell] at hc
    cases hc

theorem clean_after {n : Node} (hn : n.Boots id W) {ops : List NodeOp}
    (hc : CarriedAlong cost id W n ops) : Clean id W (NodeRun.after cost n ops).node := by
  have hboth : Mirrored id W (NodeRun.after cost n ops) ∧ Clean id W (NodeRun.after cost n ops).node := by
    refine Run.Along.invariant (I := fun ops => Mirrored id W (NodeRun.after cost n ops) ∧
      Clean id W (NodeRun.after cost n ops).node) ⟨mirrored_boot hn, clean_boot hn⟩ ?_ hc
    rintro pre op ⟨ihm, ihc⟩ hop
    rw [NodeRun.after_snoc]
    exact ⟨mirrored_step ihm hop, clean_step ihm ihc⟩
  exact hboth.2

/-- Between flushes the row of a clean cell, or of a window whose cell is gone, has everything. -/
theorem durable_of_clean {n : Node} (hn : n.Boots id W) {ops : List NodeOp}
    (hc : CarriedAlong cost id W n ops) (hidle : (NodeRun.after cost n ops).node.flush = .idle)
    (hclean : ∀ c, (NodeRun.after cost n ops).node.cellOf id W = some c → c.dirty = false) (m : Meter) :
    ((NodeRun.after cost n ops).node.row id W m : Int) = tally id W m (NodeRun.after cost n ops).history := by
  have hcons := (mirrored_after (mirrored_boot hn) hc).conserved m
  have hcl := clean_after hn hc
  have hunder : (NodeRun.after cost n ops).node.underWay id W m = 0 := by
    unfold Node.underWay
    rw [hidle]
  have hzero : curOf ((NodeRun.after cost n ops).node.cellOf id W) m =
      ackedOf ((NodeRun.after cost n ops).node.cellOf id W) m := by
    rcases hcell : (NodeRun.after cost n ops).node.cellOf id W with _ | c
    · rfl
    · have hno : ∀ s ∈ (NodeRun.after cost n ops).node.flush.inFlight, ¬ s.IsOf id W := by
        intro s hs
        rw [hidle] at hs
        exact absurd hs List.not_mem_nil
      exact congrArg Int.ofNat (hcl.settled c hcell (hclean c hcell) hno m)
  rw [hunder, hzero] at hcons
  omega

/-! ## A flush among other work -/

/-- What the snapshots still to be written add to the row. -/
def awaiting (id : String) (W : Nat) (m : Meter) (snaps : List DirtySnap) : Int :=
  match snaps.find? (fun s => s.IsOf id W) with
  | some s => s.delta.meter m
  | none => 0

theorem awaiting_none {m : Meter} {snaps : List DirtySnap} (h : ∀ s ∈ snaps, ¬ s.IsOf id W) :
    awaiting id W m snaps = 0 := by
  unfold awaiting
  rw [List.find?_eq_none.2 (fun s hs => by simpa using h s hs)]

theorem awaiting_of_mem {m : Meter} {snaps : List DirtySnap} {s : DirtySnap}
    (hnd : (snaps.map DirtySnap.bucketId).Nodup) (hs : s ∈ snaps) (ho : s.IsOf id W) :
    awaiting id W m snaps = s.delta.meter m := by
  unfold awaiting
  rcases hf : snaps.find? (fun s => s.IsOf id W) with _ | s'
  · exact absurd ho (by simpa using List.find?_eq_none.1 hf s hs)
  · have ho' : s'.IsOf id W := by simpa using List.find?_some hf
    have heq : s' = s := List.inj_on_of_nodup_map hnd (List.mem_of_find?_eq_some hf) hs
      (ho'.1.trans ho.1.symm)
    rw [hf, heq]

/-- A flush has secured the amount `T` once it is in the row, with what is still to be written. -/
def Secured (id : String) (W : Nat) (m : Meter) (T : Int) (n : Node) : Prop :=
  T ≤ n.row id W m + awaiting id W m n.flush.unwritten

/-- A flush that is past the bucket's shard has secured the amount. -/
def FlushSecures (id : String) (W : Nat) (m : Meter) (T : Int) (n : Node) : Prop :=
  match n.flush with
  | .reading shard _ => shardIndex id < shard → Secured id W m T n
  | _ => Secured id W m T n

theorem Secured.congr {m : Meter} {T : Int} {n n' : Node} (h : Secured id W m T n)
    (hrow : n'.row id W m = n.row id W m) (hun : n'.flush.unwritten = n.flush.unwritten) :
    Secured id W m T n' := by
  unfold Secured
  rw [hrow, hun]
  exact h

variable (id W) in
/-- Requests and tokens only grow. -/
theorem tally_events_nonneg (cost : CostModel) (n : Node) (op : NodeOp) {m : Meter} (hm : m ≠ .billable) :
    0 ≤ tally id W m (n.events cost op) := by
  have heff := n.effect cost op
  generalize n.step cost op = n' at *
  generalize n.events cost op = ev at *
  cases heff with
  | locked k c hop hcall hphase hcells hstore hflush =>
    split
    · exact tally_chargeEvents_nonneg id W m k c.now n.cells c.buckets
    · exact Int.le_refl _
  | accrued key pool i model tokens now b hop hb hcells hstore hflush =>
    rw [tally_cons, tally_nil, Int.add_zero]
    exact accrual_nonneg model tokens m b.1 _
  | refunded k c i b hop hcall hb hcells hstore hflush =>
    unfold Node.refundEvents
    split
    · rename_i cell hcell
      split
      · rw [tally_cons, tally_nil, Int.add_zero]
        have hz : LedgerEvent.amount id W m (.refunded k b.1 cell.windowStart) = 0 :=
          if_neg (fun h => hm h.2.2)
        exact Int.le_of_eq hz.symm
      · exact Int.le_refl _
    · exact Int.le_refl _
  | _ => exact Int.le_refl _

/-- When a flush comes to the bucket's shard it secures everything ledgered so far. -/
theorem secured_read {n n' : Node} {h : List LedgerEvent} {m : Meter} (hm : Mirrored id W ⟨n, h⟩)
    (hcl : Clean id W n) {snaps : List DirtySnap} (hph : n.flush = .reading (shardIndex id) snaps)
    (hstore : n'.store = n.store)
    (hflush : n'.flush = .reading (shardIndex id + 1) (snaps ++ dirtySnaps n.cells (shardIndex id)))
    (hnd : (n'.flush.unwritten.map DirtySnap.bucketId).Nodup) : Secured id W m (tally id W m h) n' := by
  have hcons := hm.conserved m
  have hrow : n'.row id W m = n.row id W m := by
    unfold Node.row
    rw [hstore]
  have hun : n'.flush.unwritten = snaps ++ dirtySnaps n.cells (shardIndex id) := by
    rw [hflush]
    rfl
  have hno : ∀ s ∈ snaps, ¬ s.IsOf id W := by
    intro s hs ho
    have := hm.ordered.behind (shardIndex id) snaps hph s hs
    rw [ho.1] at this
    omega
  have hunder : n.underWay id W m = 0 := by
    unfold Node.underWay
    rw [hph]
  dsimp only at hcons
  rw [hunder] at hcons
  -- without a snapshot of its own the cell, if there, has nothing the row lacks
  have hclean : (∀ s ∈ dirtySnaps n.cells (shardIndex id), ¬ s.IsOf id W) →
      curOf (n.cellOf id W) m = ackedOf (n.cellOf id W) m := by
    intro hnone
    rcases hcell : n.cellOf id W with _ | c
    · rfl
    · have hd : c.dirty = false := by
        by_contra hdirty
        obtain ⟨hl, hw⟩ := held_eq_some.1 hcell
        have hs : DirtySnap.of id c ∈ dirtySnaps n.cells (shardIndex id) :=
          mem_dirtySnaps.2 ⟨c, hl, rfl, by simpa using hdirty, rfl⟩
        exact hnone _ hs ⟨rfl, hw⟩
      have hnof : ∀ s ∈ n.flush.inFlight, ¬ s.IsOf id W := by
        rw [hph]
        exact hno
      exact congrArg Int.ofNat (hcl.settled c hcell hd hnof m)
  unfold Secured
  rw [hrow]
  by_cases hown : ∃ s ∈ dirtySnaps n.cells (shardIndex id), s.IsOf id W
  · obtain ⟨s, hs, ho⟩ := hown
    rw [awaiting_of_mem hnd (by rw [hun]; exact List.mem_append_right _ hs) ho]
    obtain ⟨c, hl, -, -, he⟩ := mem_dirtySnaps.1 hs
    obtain ⟨hid, hw⟩ := ho
    rw [hid] at hl he
    subst he
    have hcell : n.cellOf id W = some c := held_eq_some.2 ⟨hl, hw⟩
    have hcb := (hm.below m).1
    have hab := hm.ackedBelow m
    dsimp only at hcb hab
    rw [hcell] at hcons hcb hab
    have hcv : curOf (some c) m - ackedOf (some c) m = (c.cur m : Int) - c.acked m := rfl
    rw [hcv] at hcons
    rw [meter_snap, signed_of_lt hcb, signed_of_lt hab]
    omega
  · have hnone : ∀ s ∈ dirtySnaps n.cells (shardIndex id), ¬ s.IsOf id W := fun s hs ho => hown ⟨s, hs, ho⟩
    rw [awaiting_none (by
      rw [hun]
      intro s hs
      rcases List.mem_append.1 hs with hs | hs
      · exact hno s hs
      · exact hnone s hs)]
    rw [hclean hnone] at hcons
    omega

variable (id W) in
/-- A written snapshot passes from what is awaited to the row. -/
theorem awaiting_wrote (m : Meter) {snaps : List DirtySnap} {pick : Nat} {s : DirtySnap}
    (hnd : (snaps.map DirtySnap.bucketId).Nodup) (hpick : snaps[pick]? = some s) :
    awaiting id W m snaps =
      awaiting id W m (snaps.eraseIdx pick) + if s.IsOf id W then s.delta.meter m else 0 := by
  have hperm := perm_eraseIdx hpick
  have hmem : s ∈ snaps := hperm.mem_iff.1 List.mem_cons_self
  have hnd' := nodup_eraseIdx hpick hnd
  by_cases ho : s.IsOf id W
  · have hrest : ∀ s' ∈ snaps.eraseIdx pick, ¬ s'.IsOf id W := by
      intro s' hs' ho'
      exact absurd (List.find?_eq_none.1 (find_none_of_nodup ho hnd') s' hs') (by simpa using ho')
    rw [if_pos ho, awaiting_of_mem hnd hmem ho, awaiting_none hrest, zero_add]
  · rw [if_neg ho, add_zero]
    by_cases hown : ∃ s' ∈ snaps, s'.IsOf id W
    · obtain ⟨s', hs', ho'⟩ := hown
      have hmem' : s' ∈ snaps.eraseIdx pick := by
        rcases List.mem_cons.1 (hperm.mem_iff.2 hs') with rfl | hmem'
        · exact absurd ho' ho
        · exact hmem'
      rw [awaiting_of_mem hnd hs' ho', awaiting_of_mem (List.nodup_cons.1 hnd').2 hmem' ho']
    · have hnone : ∀ s' ∈ snaps, ¬ s'.IsOf id W := fun s' hs' ho' => hown ⟨s', hs', ho'⟩
      rw [awaiting_none hnone, awaiting_none]
      exact fun s' hs' => hnone s' (hperm.mem_iff.1 (List.mem_cons_of_mem _ hs'))

/-- What a busy flush has secured it keeps, store calls succeeding, to its end; and it secures what was
ledgered before it came to the bucket's shard. -/
theorem flushSecures_step {r : NodeRun} {op : NodeOp} {m : Meter} {T : Int} (hm : Mirrored id W r)
    (hcl : Clean id W r.node) (hc : r.node.Carries cost id W op) (hbusy : r.node.flush ≠ .idle)
    (hok : ∀ pick, op ≠ .flushStep pick false) (hT : T ≤ tally id W m r.history)
    (hsec : FlushSecures id W m T r.node) : FlushSecures id W m T (r.node.step cost op) := by
  have hm' := mirrored_step hm hc
  have hcons := hm.conserved m
  have hcons' := hm'.conserved m
  have hord' := hm'.ordered
  obtain ⟨n, h⟩ := r
  have hev : (NodeRun.step cost ⟨n, h⟩ op).history = h ++ n.events cost op := rfl
  have hnode : (NodeRun.step cost ⟨n, h⟩ op).node = n.step cost op := rfl
  rw [hev, hnode, tally_append] at hcons'
  rw [hnode] at hord'
  have heff := n.effect cost op
  show FlushSecures id W m T (n.step cost op)
  dsimp only at hcons hsec hbusy hT hcl
  clear hev hnode hm' hc
  generalize n.step cost op = n' at *
  generalize n.events cost op = ev at *
  -- steps that keep flush and row keep what is secured
  have hkeep : n'.flush = n.flush → n'.store.usage = n.store.usage → FlushSecures id W m T n' := by
    intro hflush husage
    have hrow : n'.row id W m = n.row id W m := by
      unfold Node.row MemoryStore.getUsage
      rw [husage]
    have hsame : Secured id W m T n → Secured id W m T n' := fun hs => hs.congr hrow (by rw [hflush])
    unfold FlushSecures at hsec ⊢
    rw [hflush]
    rcases hph : n.flush with _ | ⟨shard, snaps⟩ | snaps | ⟨s, ok, snaps⟩
    · exact absurd hph hbusy
    all_goals rw [hph] at hsec
    · exact fun hlt => hsame (hsec hlt)
    · exact hsame hsec
    · exact hsame hsec
  -- as do those that turn the flush to its next phase
  have hturn : Secured id W m T n → n'.flush.unwritten = n.flush.unwritten → n'.store = n.store →
      Secured id W m T n' := by
    intro hs hun hstore
    refine hs.congr ?_ hun
    unfold Node.row
    rw [hstore]
  cases heff with
  | idle hcells husage hflush => exact hkeep hflush husage
  | swept shard now hop hcells hstore hflush => exact hkeep hflush (by rw [hstore])
  | locked k c hop hcall hphase hcells hstore hflush => exact hkeep hflush (by rw [hstore])
  | accrued key pool i model tokens now b hop hb hcells hstore hflush => exact hkeep hflush (by rw [hstore])
  | refunded k c i b hop hcall hb hcells hstore hflush => exact hkeep hflush (by rw [hstore])
  | started hph hcells hstore hflush => exact absurd hph hbusy
  | read shard snaps hph hcells hstore hflush =>
    have hnd : (n'.flush.unwritten.map DirtySnap.bucketId).Nodup := by
      have := hord'.nodup
      rw [hflush] at this ⊢
      exact this
    unfold FlushSecures at hsec ⊢
    rw [hph] at hsec
    rw [hflush]
    intro hlt
    by_cases hshard : shardIndex id = shard
    · subst hshard
      exact le_trans hT (secured_read hm hcl hph hstore hflush hnd)
    · have hs := hsec (by omega)
      have hsame : awaiting id W m n'.flush.unwritten = awaiting id W m n.flush.unwritten := by
        have hno : ∀ s ∈ dirtySnaps n.cells shard, ¬ s.IsOf id W := by
          rintro s hsn ⟨rfl, -⟩
          obtain ⟨c, -, hsh, -, -⟩ := mem_dirtySnaps.1 hsn
          exact hshard hsh
        have hnone : (dirtySnaps n.cells shard).find? (fun s => s.IsOf id W) = none :=
          List.find?_eq_none.2 (fun s hs => by simpa using hno s hs)
        rw [hflush, hph]
        unfold awaiting FlushPhase.unwritten
        rw [List.find?_append, hnone, Option.or_none]
      have hrow : n'.row id W m = n.row id W m := by
        unfold Node.row
        rw [hstore]
      unfold Secured at hs ⊢
      rw [hrow, hsame]
      exact hs
  | readAll shard snaps hph hlast hcells hstore hflush =>
    unfold FlushSecures at hsec ⊢
    rw [hph] at hsec
    rw [hflush]
    have := shardIndex_lt id
    exact hturn (hsec (by omega)) (by rw [hph, hflush]; rfl) hstore
  | wrote pick ok s snaps hop hph hpick hcells hstore hflush =>
    have hok' : ok = true := by
      cases ok with
      | true => rfl
      | false => exact absurd hop (hok pick)
    subst hok'
    have hwr : (writeSnap n.store s true).2 = true := by
      unfold writeSnap
      split <;> rfl
    rw [hwr] at hflush
    have hcell : n'.cellOf id W = n.cellOf id W := by
      unfold Node.cellOf
      rw [hcells]
    have hunder : n.underWay id W m = 0 := by
      unfold Node.underWay
      rw [hph]
    have hunder' : n'.underWay id W m = if s.IsOf id W then s.delta.meter m else 0 := by
      unfold Node.underWay
      rw [hflush]
    have hnd : (snaps.map DirtySnap.bucketId).Nodup := by
      have := hm.ordered.nodup
      rw [hph] at this
      exact this
    have hmove := awaiting_wrote id W m hnd hpick
    rw [hunder] at hcons
    rw [hcell, hunder', tally_nil] at hcons'
    unfold FlushSecures at hsec ⊢
    rw [hph] at hsec
    rw [hflush]
    unfold Secured at hsec ⊢
    rw [hph] at hsec
    rw [hflush]
    show T ≤ n'.row id W m + awaiting id W m (snaps.eraseIdx pick)
    have hsec : T ≤ n.row id W m + awaiting id W m snaps := hsec
    omega
  | settled s ok snaps hph hcells hstore hflush =>
    unfold FlushSecures at hsec ⊢
    rw [hph] at hsec
    rw [hflush]
    exact hturn hsec (by rw [hph, hflush]; rfl) hstore
  | ended hph hcells hstore hflush =>
    unfold FlushSecures at hsec ⊢
    rw [hph] at hsec
    rw [hflush]
    exact hturn hsec (by rw [hph, hflush]; rfl) hstore

/-- A whole flush among other work: it starts after `pre`, is busy all along `post` and over at its end, and
its store calls go through. -/
structure FlushSpan (cost : CostModel) (n : Node) (pre post : List NodeOp) : Prop where
  starts : (NodeRun.after cost n pre).node.flush = .idle
  busy : ∀ mid op rest, post = mid ++ op :: rest →
    (NodeRun.after cost n (pre ++ .flush :: mid)).node.flush ≠ .idle
  ends : (NodeRun.after cost n (pre ++ .flush :: post)).node.flush = .idle
  succeeds : ∀ pick, .flushStep pick false ∉ post

/-- What was ledgered before a flush is in the row when it ends. -/
theorem flush_secures {n : Node} (hn : n.Boots id W) {pre post : List NodeOp}
    (hspan : FlushSpan cost n pre post) (hc : CarriedAlong cost id W n (pre ++ .flush :: post)) {m : Meter}
    (hm : m ≠ .billable) :
    tally id W m (NodeRun.after cost n pre).history ≤
      (NodeRun.after cost n (pre ++ .flush :: post)).node.row id W m := by
  have hall : ∀ mid rest, post = mid ++ rest →
      tally id W m (NodeRun.after cost n pre).history ≤
          tally id W m (NodeRun.after cost n (pre ++ .flush :: mid)).history ∧
        FlushSecures id W m (tally id W m (NodeRun.after cost n pre).history)
          (NodeRun.after cost n (pre ++ .flush :: mid)).node := by
    intro mid
    induction mid using List.reverseRecOn with
    | nil =>
      intro rest _
      rw [NodeRun.after_snoc]
      have hstart : (NodeRun.after cost n pre).node.step cost .flush =
          { (NodeRun.after cost n pre).node with flush := .reading 0 [] } := by
        unfold Node.step
        dsimp only
        rw [hspan.starts]
      refine ⟨?_, ?_⟩
      · show _ ≤ tally id W m ((NodeRun.after cost n pre).history ++ [])
        rw [List.append_nil]
      · show FlushSecures id W m _ ((NodeRun.after cost n pre).node.step cost .flush)
        rw [hstart]
        exact fun hlt => absurd hlt (Nat.not_lt_zero _)
    | append_singleton mid op ih =>
      intro rest he
      rw [List.append_assoc, List.singleton_append] at he
      obtain ⟨hle, hsec⟩ := ih (op :: rest) he
      have hsplit : pre ++ .flush :: post = (pre ++ .flush :: mid) ++ op :: rest := by
        rw [he, List.append_assoc, List.cons_append]
      have hcmid : CarriedAlong cost id W n (pre ++ .flush :: mid) := by
        unfold CarriedAlong at hc ⊢
        rw [hsplit] at hc
        exact hc.append_left
      have hcop := hc _ _ _ hsplit
      have hok : ∀ pick, op ≠ .flushStep pick false := by
        rintro pick rfl
        exact hspan.succeeds pick (by rw [he]; exact List.mem_append_right _ List.mem_cons_self)
      have hsnoc : pre ++ .flush :: (mid ++ [op]) = (pre ++ .flush :: mid) ++ [op] := by
        rw [List.append_assoc, List.cons_append]
      rw [hsnoc, NodeRun.after_snoc]
      have hmir := mirrored_after (mirrored_boot hn) hcmid
      refine ⟨?_, flushSecures_step hmir (clean_after hn hcmid) hcop (hspan.busy mid op rest he) hok hle hsec⟩
      have hnonneg := tally_events_nonneg id W cost
        (NodeRun.after cost n (pre ++ .flush :: mid)).node op hm
      show _ ≤ tally id W m ((NodeRun.after cost n (pre ++ .flush :: mid)).history ++ _)
      rw [tally_append]
      omega
  have hend : tally id W m (NodeRun.after cost n pre).history ≤
      (NodeRun.after cost n (pre ++ .flush :: post)).node.row id W m + awaiting id W m [] := by
    have hsec := (hall post [] (List.append_nil post).symm).2
    unfold FlushSecures Secured at hsec
    rw [hspan.ends] at hsec
    exact hsec
  rw [awaiting_none (fun s hs => absurd hs List.not_mem_nil), add_zero] at hend
  exact hend

/-- A flush nothing disturbs leaves the row with exactly what was ledgered. -/
theorem durable_of_flush {n : Node} (hn : n.Boots id W) {ops : List NodeOp}
    (hidle : (NodeRun.after cost n ops).node.flush = .idle) {k : Nat}
    (hk : flushLength (NodeRun.after cost n ops).node ≤ k)
    (hc : CarriedAlong cost id W n (ops ++ flushRun k)) (m : Meter) :
    ((NodeRun.after cost n (ops ++ flushRun k)).node.row id W m : Int) =
      tally id W m (NodeRun.after cost n ops).history := by
  obtain ⟨h₁, h₂, h₃⟩ := flush_ends cost hidle (NodeRun.after cost n ops).history hk
  have happ : NodeRun.after cost n (ops ++ flushRun k) =
      Run.exec (NodeRun.step cost) (NodeRun.after cost n ops) (flushRun k) := Run.exec_append _ _ _ _
  have hdur := durable_of_clean hn hc (by rw [happ]; exact h₂) (by
    intro c hcell
    rw [happ] at hcell
    exact h₃ id c (held_eq_some.1 hcell).1) m
  rw [hdur, happ]
  exact congrArg _ h₁

/-! ## Cells that leave their window settled -/

/-- Everything the cell has counted is acknowledged. -/
def BudgetCell.flushed (c : BudgetCell) : Bool :=
  decide (c.requests = c.flushedRequests ∧ c.billableRequests = c.flushedBillableRequests) &&
    c.models.rows.all (fun e => e.2.cur = e.2.flushed)

theorem cur_flushed {c : BudgetCell} (h : c.flushed = true) (m : Meter) : c.cur m = c.acked m := by
  unfold BudgetCell.flushed at h
  rw [Bool.and_eq_true, decide_eq_true_eq, List.all_eq_true] at h
  cases m with
  | requests => exact h.1.1
  | billable => exact h.1.2
  | tokens model tier =>
    show (modelOf c.models model).cur.get tier = (modelOf c.models model).flushed.get tier
    unfold modelOf
    rcases hl : c.models.lookup model with _ | mc
    · rfl
    · have heq := h.2 _ (Table.lookup_eq_some.1 hl)
      rw [decide_eq_true_eq] at heq
      rw [Option.getD_some, heq]

/-- When the step takes the cell out of its window, by a newer window's charge or by a sweep, nothing of it
is unflushed or on its way; and what the step ledgers to the window is in its cell. -/
def Node.LeavesSettled (cost : CostModel) (id : String) (W : Nat) (n : Node) (op : NodeOp) : Prop :=
  ((n.cellOf id W).isSome → ((n.step cost op).cellOf id W).isSome ∨
      (n.cellOf id W).all BudgetCell.flushed = true ∧ ∀ s ∈ n.flush.live, ¬ s.IsOf id W) ∧
    ∀ e ∈ n.events cost op, e.IsOf id W → ((n.step cost op).cellOf id W).isSome

instance (s : DirtySnap) (id : String) (W : Nat) : Decidable (s.IsOf id W) := by
  unfold DirtySnap.IsOf
  infer_instance

instance (cost : CostModel) (id : String) (W : Nat) (n : Node) (op : NodeOp) :
    Decidable (n.LeavesSettled cost id W op) := by
  unfold Node.LeavesSettled
  infer_instance

/-- The cell leaves its window settled and its counters stay small, all along the run. -/
def NodeRun.SettledAlong (cost : CostModel) (id : String) (W : Nat) (n : Node) (ops : List NodeOp) : Prop :=
  Run.Along (fun pre op => (NodeRun.after cost n pre).node.LeavesSettled cost id W op ∧
    ((NodeRun.after cost n pre).node.step cost op).CountersBelow id W) ops

theorem settled_of_flushed {n : Node} (hall : (n.cellOf id W).all BudgetCell.flushed = true)
    (hlive : ∀ s ∈ n.flush.live, ¬ s.IsOf id W) : n.Settled id W where
  flushed := by
    intro m
    rcases hc : n.cellOf id W with _ | c
    · rfl
    · rw [hc, Option.all_some] at hall
      exact congrArg Int.ofNat (cur_flushed hall m)
  landed := hlive

theorem carried_of_settled {n : Node} {ops : List NodeOp} (hset : NodeRun.SettledAlong cost id W n ops)
    (hkept : NodeRun.RowKeptAlong cost W n ops) : CarriedAlong cost id W n ops := by
  intro pre op post he
  obtain ⟨⟨hleaves, hlands⟩, hbelow⟩ := hset pre op post he
  exact {
    leaves := fun h => (hleaves h).imp_right (fun hs => settled_of_flushed hs.1 hs.2)
    lands := hlands
    spares := hkept pre op post he
    below := below_of_counters hbelow }

/-- **Nothing is lost when cells leave their window settled.** A flush among other work leaves the row with
every request and token ledgered before it began; one that nothing disturbs leaves it with exactly what was
ledgered, refunds included. -/
theorem eventually_durable (cost : CostModel) (id : String) (W : Nat) (n : Node) (hn : n.Boots id W) :
    (∀ pre post, FlushSpan cost n pre post →
      NodeRun.SettledAlong cost id W n (pre ++ .flush :: post) →
      NodeRun.RowKeptAlong cost W n (pre ++ .flush :: post) → ∀ m, m ≠ .billable →
      tally id W m (NodeRun.after cost n pre).history ≤
        (NodeRun.after cost n (pre ++ .flush :: post)).node.row id W m) ∧
    (∀ ops k, (NodeRun.after cost n ops).node.flush = .idle →
      flushLength (NodeRun.after cost n ops).node ≤ k →
      NodeRun.SettledAlong cost id W n (ops ++ flushRun k) →
      NodeRun.RowKeptAlong cost W n (ops ++ flushRun k) → ∀ m,
      ((NodeRun.after cost n (ops ++ flushRun k)).node.row id W m : Int) =
        tally id W m (NodeRun.after cost n ops).history) := by
  constructor
  · intro pre post hspan hset hkept m hm
    exact flush_secures hn hspan (carried_of_settled hset hkept) hm
  · intro ops k hidle hk hset hkept m
    exact durable_of_flush hn hidle hk (carried_of_settled hset hkept) m

/-! ## The tail of a day -/

/-- No flag is set and no snapshot is on its way. -/
structure Quiet (n : Node) : Prop where
  clean : ∀ id c, n.cells.lookup id = some c → c.dirty = false
  nothing : n.flush.inFlight = []

variable (cost) in
/-- A flush of a quiet node writes nothing. -/
theorem quiet_flush {n : Node} (hq : Quiet n) {op : NodeOp} (hop : op = .flush ∨ ∃ pick ok, op = .flushStep pick ok) :
    Quiet (n.step cost op) ∧ (n.step cost op).store.usage = n.store.usage := by
  have heff := n.effect cost op
  generalize n.step cost op = n' at *
  generalize n.events cost op = ev at *
  cases heff with
  | idle hcells husage hflush =>
    refine ⟨⟨?_, ?_⟩, husage⟩
    · rw [hcells]
      exact hq.clean
    · rw [hflush]
      exact hq.nothing
  | swept shard now ho => simp [ho] at hop
  | locked k c ho => simp [ho] at hop
  | accrued key pool i model tokens now b ho => simp [ho] at hop
  | refunded k c i b ho => simp [ho] at hop
  | started hph hcells hstore hflush =>
    refine ⟨⟨?_, by rw [hflush]; rfl⟩, by rw [hstore]⟩
    rw [hcells]
    exact hq.clean
  | read shard snaps hph hcells hstore hflush =>
    have hnone : dirtySnaps n.cells shard = [] := by
      rw [List.eq_nil_iff_forall_not_mem]
      intro s hs
      obtain ⟨c, hl, -, hd, -⟩ := mem_dirtySnaps.1 hs
      rw [hq.clean _ c hl] at hd
      cases hd
    refine ⟨⟨?_, ?_⟩, by rw [hstore]⟩
    · intro id c hl
      rw [hcells, lookup_cleanShard] at hl
      obtain ⟨c₀, hl₀, rfl⟩ := Option.map_eq_some_iff.1 hl
      split
      · rfl
      · exact hq.clean id c₀ hl₀
    · have hnil := hq.nothing
      rw [hph] at hnil
      rw [hflush, hnone, List.append_nil]
      exact hnil
  | readAll shard snaps hph hlast hcells hstore hflush =>
    refine ⟨⟨?_, ?_⟩, by rw [hstore]⟩
    · rw [hcells]
      exact hq.clean
    · have hnil := hq.nothing
      rw [hph] at hnil
      rw [hflush]
      exact hnil
  | wrote pick ok s snaps ho hph hpick hcells hstore hflush =>
    have hnil : snaps = [] := by
      have := hq.nothing
      rw [hph] at this
      exact this
    rw [hnil] at hpick
    cases hpick
  | settled s ok snaps hph hcells hstore hflush =>
    have hnil := hq.nothing
    rw [hph] at hnil
    cases hnil
  | ended hph hcells hstore hflush =>
    refine ⟨⟨?_, by rw [hflush]; rfl⟩, by rw [hstore]⟩
    rw [hcells]
    exact hq.clean

variable (cost) in
/-- Nor does any number of flushes. -/
theorem quiet_flushes {n : Node} (hq : Quiet n) (h : List LedgerEvent) {ops : List NodeOp}
    (hops : ∀ op ∈ ops, op = .flush ∨ ∃ pick ok, op = .flushStep pick ok) :
    (Run.exec (NodeRun.step cost) ⟨n, h⟩ ops).node.store.usage = n.store.usage := by
  induction ops generalizing n h with
  | nil => rfl
  | cons op ops ih =>
    obtain ⟨hq', husage⟩ := quiet_flush cost hq (hops op List.mem_cons_self)
    rw [Run.exec_cons, ← husage]
    exact ih hq' _ (fun op' hop' => hops op' (List.mem_cons_of_mem _ hop'))

namespace DayGroup

/-- One group with ten requests a day. -/
def groups : Table String GroupCfg :=
  Table.insert "a" ⟨none, true, [⟨.requests, 10, some .day, none, none⟩]⟩ Registry.empty

def costModel : CostModel := CostModel.resolveParts none 0 groups

def key : VirtualKey := { LoneKey.key with group := some "a" }

def request (call now : Nat) : List NodeOp := [.begin key "" now, .advance call]

/-- A request of the day that starts at 0 and one of the next day, before the first flush. -/
def late : NodeRun := NodeRun.after costModel Node.new (request 0 100 ++ request 1 86500)

end DayGroup

/-- **A window's tail is lost with its cell.** The day's request is counted, the next day's first request
replaces the cell before a flush has come by, and no flush finds it any more. -/
theorem rollover_loses_tail :
    Node.new.Boots "group:a@day" 0 ∧ DayGroup.late.node.row "group:a@day" 0 .requests = 0 ∧
      tally "group:a@day" 0 .requests DayGroup.late.history = 1 ∧
      let flushed := Run.exec (NodeRun.step DayGroup.costModel) DayGroup.late (flushRun 71)
      flushed.node.flush.inFlight = [] ∧
      ∀ more : List NodeOp, (∀ op ∈ more, op = .flush ∨ ∃ pick, op = .flushStep pick true) →
        (Run.exec (NodeRun.step DayGroup.costModel) flushed more).node.row "group:a@day" 0 .requests = 0 := by
  have hlen : flushLength DayGroup.late.node ≤ 71 := by decide +kernel
  have hstart : DayGroup.late.node.flush = .idle := by rfl
  obtain ⟨-, hidle, hclean⟩ := flush_ends DayGroup.costModel hstart DayGroup.late.history hlen
  have hrow : (Run.exec (NodeRun.step DayGroup.costModel) DayGroup.late (flushRun 71)).node.row
      "group:a@day" 0 .requests = 0 := by decide +kernel
  refine ⟨⟨rfl, rfl, rfl⟩, by decide +kernel, by decide +kernel, ?_⟩
  dsimp only
  generalize hr : Run.exec (NodeRun.step DayGroup.costModel) DayGroup.late (flushRun 71) = r at *
  obtain ⟨n, h⟩ := r
  have hidle : n.flush = .idle := hidle
  have hnothing : n.flush.inFlight = [] := by
    rw [hidle]
    rfl
  refine ⟨hnothing, ?_⟩
  intro more hmore
  have hsame := quiet_flushes DayGroup.costModel ⟨hclean, hnothing⟩ h (fun op hop => by
    rcases hmore op hop with he | ⟨pick, he⟩
    · exact Or.inl he
    · exact Or.inr ⟨pick, true, he⟩)
  unfold Node.row MemoryStore.getUsage at hrow ⊢
  rw [hsame]
  exact hrow

instance (ph : FlushPhase) : Decidable (ph = .idle) :=
  match ph with
  | .idle => .isTrue rfl
  | .reading _ _ => .isFalse (by rintro ⟨⟩)
  | .writing _ => .isFalse (by rintro ⟨⟩)
  | .settling _ _ _ => .isFalse (by rintro ⟨⟩)

namespace DayGroup

/-- A flush with another request of the day in its midst. -/
def amidst : List NodeOp :=
  List.replicate 30 (.flushStep 0 true) ++ request 1 200 ++ List.replicate 40 (.flushStep 0 true)

theorem settledAlong {ops : List NodeOp}
    (h : Run.checks (NodeRun.step costModel) (fun r op => r.node.LeavesSettled costModel "group:a@day" 0 op ∧
      (r.node.step costModel op).CountersBelow "group:a@day" 0) (NodeRun.start Node.new) ops = true) :
    NodeRun.SettledAlong costModel "group:a@day" 0 Node.new ops := Run.Along.of_checks _ h

theorem rowKeptAlong {ops : List NodeOp}
    (h : Run.checks (NodeRun.step costModel) (fun r op => r.node.StoreKeeps 0 op) (NodeRun.start Node.new) ops =
      true) : NodeRun.RowKeptAlong costModel 0 Node.new ops := Run.Along.of_checks _ h

theorem flushSpan_amidst : FlushSpan costModel Node.new (request 0 100) amidst where
  starts := rfl
  busy := by
    have hchecks : Run.checks (NodeRun.step costModel) (fun r _ => ¬ r.node.flush = .idle)
        (NodeRun.after costModel Node.new (request 0 100 ++ [.flush])) amidst = true := by decide +kernel
    intro mid op rest he
    have hbusy := Run.Along.of_checks (NodeRun.step costModel) hchecks mid op rest he
    have happ : request 0 100 ++ NodeOp.flush :: mid = (request 0 100 ++ [.flush]) ++ mid := rfl
    rw [happ]
    unfold NodeRun.after at hbusy ⊢
    rw [Run.exec_append]
    exact hbusy
  ends := by decide +kernel
  succeeds := by
    intro pick hpick
    unfold amidst request at hpick
    simp at hpick

end DayGroup

/-- A flush with a request in its midst, and a day that ends flushed before the next one's request comes. -/
theorem eventually_durable_day :
    tally "group:a@day" 0 .requests (NodeRun.after DayGroup.costModel Node.new (DayGroup.request 0 100)).history ≤
        (NodeRun.after DayGroup.costModel Node.new
          (DayGroup.request 0 100 ++ .flush :: DayGroup.amidst)).node.row "group:a@day" 0 .requests ∧
      ((NodeRun.after DayGroup.costModel Node.new (DayGroup.request 0 100 ++ flushRun 71 ++
          DayGroup.request 1 86500 ++ flushRun 71)).node.row "group:a@day" 0 .requests : Int) =
        tally "group:a@day" 0 .requests (NodeRun.after DayGroup.costModel Node.new
          (DayGroup.request 0 100 ++ flushRun 71 ++ DayGroup.request 1 86500)).history := by
  have hmain := eventually_durable DayGroup.costModel "group:a@day" 0 Node.new ⟨rfl, rfl, rfl⟩
  constructor
  · exact hmain.1 _ _ DayGroup.flushSpan_amidst (DayGroup.settledAlong (by decide +kernel))
      (DayGroup.rowKeptAlong (by decide +kernel)) .requests (by decide)
  · exact hmain.2 _ 71 (by decide +kernel) (by decide +kernel) (DayGroup.settledAlong (by decide +kernel))
      (DayGroup.rowKeptAlong (by decide +kernel)) .requests

end Busbar
