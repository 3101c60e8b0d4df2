import Busbar.Governance.Reading
import Busbar.Lib.WriteBehind

/-!
# The durable row as the mirror of the cell

For one (bucket, window) and each meter, the node is a write-behind counter: the cell's current and
acknowledged reading, the durable row, and the snapshot the flush has under way. `Mirrored` says so; a step
preserves it as long as it `Carries` the (bucket, window).

* `mirrored_step`: the step lemma, one case a kind of step.
* `Mirrored.conserved`: what is durable and what is unflushed add up to what was ledgered.
-/

namespace Busbar

open WriteBehind (Flight Step Reach)

/-- The snapshot is of the (bucket, window). -/
def DirtySnap.IsOf (s : DirtySnap) (id : String) (W : Nat) : Prop := s.bucketId = id ∧ s.window = W

instance (s : DirtySnap) (id : String) (W : Nat) : Decidable (s.IsOf id W) := by
  unfold DirtySnap.IsOf
  infer_instance

namespace FlushPhase

/-- The snapshots still to be written. -/
def unwritten : FlushPhase → List DirtySnap
  | idle => []
  | reading _ snaps => snaps
  | writing snaps => snaps
  | settling _ _ snaps => snaps

/-- Every snapshot the flush holds. -/
def inFlight : FlushPhase → List DirtySnap
  | settling s _ snaps => s :: snaps
  | ph => ph.unwritten

/-- The snapshots that are still to be written, and the one that has reached the store. -/
def live : FlushPhase → List DirtySnap
  | settling s true snaps => s :: snaps
  | ph => ph.unwritten

end FlushPhase

/-- What a list of snapshots to be written has read of a meter. -/
def unwrittenFlight (id : String) (W : Nat) (m : Meter) (base : Nat) (snaps : List DirtySnap) : Flight Int :=
  match snaps.find? (fun s => s.IsOf id W) with
  | some s => .read (base + s.cur m)
  | none => .none

def FlushPhase.flight (id : String) (W : Nat) (m : Meter) (base : Nat) : FlushPhase → Flight Int
  | .settling s true snaps =>
    if s.IsOf id W then .written (base + s.cur m) else unwrittenFlight id W m base snaps
  | ph => unwrittenFlight id W m base ph.unwritten

namespace Node

/-- The cell of the bucket, while it holds the window. -/
def cellOf (n : Node) (id : String) (W : Nat) : Option BudgetCell := held W (n.cells.lookup id)

/-- The durable reading. -/
def row (n : Node) (id : String) (W : Nat) (m : Meter) : Nat := (n.store.getUsage id W).meter m

/-- The node as a write-behind counter of one meter; `base` is what cells given up earlier had flushed. -/
def view (n : Node) (id : String) (W : Nat) (m : Meter) (base : Nat) : WriteBehind.State Int where
  current := base + curOf (n.cellOf id W) m
  flushed := base + ackedOf (n.cellOf id W) m
  durable := n.row id W m
  flight := n.flush.flight id W m base

/-- The snapshots are of different buckets, and of shards the flush has passed. -/
structure Ordered (n : Node) : Prop where
  nodup : (n.flush.inFlight.map DirtySnap.bucketId).Nodup
  behind : ∀ shard snaps, n.flush = .reading shard snaps → ∀ s ∈ snaps, shardIndex s.bucketId < shard

/-- Nothing of the (bucket, window) is unflushed or on its way. -/
structure Settled (n : Node) (id : String) (W : Nat) : Prop where
  flushed : ∀ m, curOf (n.cellOf id W) m = ackedOf (n.cellOf id W) m
  landed : ∀ s ∈ n.flush.live, ¬ s.IsOf id W

/-- The step is a store call that goes through. -/
def writes (n : Node) : NodeOp → Bool
  | .flushStep pick true =>
    match n.flush with
    | .writing snaps => (snaps[pick]?).any (fun s => !s.delta.isZero)
    | _ => false
  | _ => false

/-- **A step carries a (bucket, window)**: it takes the cell away only when it is settled, the cell it
ledgers to is there afterwards, the store's retention sweep spares the row, and no counter reaches
`i64::MAX`. -/
structure Carries (cost : CostModel) (id : String) (W : Nat) (n : Node) (op : NodeOp) : Prop where
  leaves : (n.cellOf id W).isSome → ((n.step cost op).cellOf id W).isSome ∨ n.Settled id W
  lands : ∀ e ∈ n.events cost op, e.IsOf id W → ((n.step cost op).cellOf id W).isSome
  spares : n.writes op → (n.store.usageSweepTicker + 1) % sweepInterval = 0 →
    n.store.clock < satAdd W maxRetentionSecs
  below : ∀ m, curOf ((n.step cost op).cellOf id W) m < i64Max ∧ ((n.step cost op).row id W m : Int) < i64Max

end Node

/-- A snapshot on its way agrees with the cell it was taken of. -/
structure FitsCell (s : DirtySnap) (c : BudgetCell) : Prop where
  delta : ∀ m, s.delta.meter m = s.cur m - c.acked m
  models : (s.delta.models.map ModelTokensDelta.model).Nodup
  below : ∀ m, (s.cur m : Int) < i64Max
  grown : ∀ model tier, s.cur (.tokens model tier) ≤ c.cur (.tokens model tier)
  unseen : ∀ model, s.curModels.find? (fun e => e.1 = model) = none →
    ∀ tier, c.acked (.tokens model tier) = 0

/-- The durable row mirrors the (bucket, window). -/
structure Mirrored (id : String) (W : Nat) (r : NodeRun) : Prop where
  ordered : r.node.Ordered
  fits : ∀ s ∈ r.node.flush.live, s.IsOf id W → ∃ c, r.node.cellOf id W = some c ∧ FitsCell s c
  ackedBelow : ∀ m, ackedOf (r.node.cellOf id W) m < i64Max
  below : ∀ m, curOf (r.node.cellOf id W) m < i64Max ∧ (r.node.row id W m : Int) < i64Max
  reach : ∀ m, ∃ base, Reach (r.node.view id W m base) (tally id W m r.history)

/-! ## Snapshots -/

theorem signed_of_lt {v : Nat} (h : (v : Int) < i64Max) : signed v = v := by
  unfold signed
  omega

/-- What a snapshot has not seen of the models has nothing acknowledged. -/
theorem unseen_snap {id : String} {c : BudgetCell} {model : String}
    (h : (DirtySnap.of id c).curModels.find? (fun e => e.1 = model) = none) (tier : Tier) :
    c.acked (.tokens model tier) = 0 := by
  have hf : c.modelViews.find? (fun e => e.1 = model) = none := h
  rw [find_modelViews, Option.map_eq_none_iff] at hf
  show (modelOf c.models model).flushed.get tier = 0
  unfold modelOf
  rw [hf]
  exact get_zero tier

/-- A fresh snapshot fits its cell. -/
theorem fitsCell_snap {id : String} {c c' : BudgetCell} (hcur : ∀ m, c'.cur m = c.cur m)
    (hack : ∀ m, c'.acked m = c.acked m) (hc : ∀ m, (c.cur m : Int) < i64Max)
    (ha : ∀ m, (c.acked m : Int) < i64Max) : FitsCell (DirtySnap.of id c) c' where
  delta := by
    intro m
    rw [meter_snap, signed_of_lt (hc m), signed_of_lt (ha m), cur_snap, hack]
  models := nodup_modelDeltas c
  below := by
    intro m
    rw [cur_snap]
    exact hc m
  grown := by
    intro model tier
    rw [cur_snap, hcur]
  unseen := by
    intro model hf tier
    rw [hack]
    exact unseen_snap hf tier

theorem FitsCell.mono {s : DirtySnap} {c c' : BudgetCell} (h : FitsCell s c)
    (hack : ∀ m, c'.acked m = c.acked m)
    (hcur : ∀ model tier, c.cur (.tokens model tier) ≤ c'.cur (.tokens model tier)) : FitsCell s c' where
  delta := by
    intro m
    rw [hack]
    exact h.delta m
  models := h.models
  below := h.below
  grown := fun model tier => Nat.le_trans (h.grown model tier) (hcur model tier)
  unseen := by
    intro model hf tier
    rw [hack]
    exact h.unseen model hf tier

theorem find_curModels_none {s : DirtySnap} {model : String}
    (h : s.curModels.find? (fun e => e.1 = model) = none) (tier : Tier) : s.cur (.tokens model tier) = 0 := by
  unfold DirtySnap.cur
  dsimp only
  rw [h]
  exact get_zero tier

/-- Acknowledging a snapshot makes its reading the acknowledged one, if the cell has only grown since. -/
theorem acked_acknowledge_of {s : DirtySnap} {c : BudgetCell}
    (hgrown : ∀ model tier, s.cur (.tokens model tier) ≤ c.cur (.tokens model tier))
    (hunseen : ∀ model, s.curModels.find? (fun e => e.1 = model) = none →
      ∀ tier, c.acked (.tokens model tier) = 0) (m : Meter) : (c.acknowledge s).acked m = s.cur m := by
  cases m with
  | requests => rfl
  | billable => rfl
  | tokens model tier =>
    have hgrown := hgrown model tier
    show (modelOf (c.acknowledge s).models model).flushed.get tier = _
    unfold modelOf BudgetCell.acknowledge
    dsimp only
    rw [Table.lookup_mapValues]
    rcases hl : c.models.lookup model with _ | mc
    · -- a model pruned since was at zero already when the snapshot was taken
      have hz : c.cur (.tokens model tier) = 0 := by
        show (modelOf c.models model).cur.get tier = 0
        unfold modelOf
        rw [hl]
        exact get_zero tier
      rw [hz] at hgrown
      rw [Option.map_none, Option.getD_none, get_zero]
      omega
    · rw [Option.map_some, Option.getD_some]
      rcases hf : s.curModels.find? (fun e => e.1 = model) with _ | e
      · -- a model first seen since has nothing acknowledged
        have hmc : c.acked (.tokens model tier) = mc.flushed.get tier := by
          show (modelOf c.models model).flushed.get tier = _
          unfold modelOf
          rw [hl]
          rfl
        rw [hf, find_curModels_none hf tier, ← hunseen model hf tier, hmc]
      · unfold DirtySnap.cur
        dsimp only
        rw [hf]
        rfl

theorem acked_acknowledge {s : DirtySnap} {c : BudgetCell} (h : FitsCell s c) (m : Meter) :
    (c.acknowledge s).acked m = s.cur m := acked_acknowledge_of h.grown h.unseen m

theorem cur_acknowledge (c : BudgetCell) (s : DirtySnap) (m : Meter) : (c.acknowledge s).cur m = c.cur m := by
  cases m with
  | requests => rfl
  | billable => rfl
  | tokens model tier =>
    show (modelOf (c.acknowledge s).models model).cur.get tier = (modelOf c.models model).cur.get tier
    unfold modelOf BudgetCell.acknowledge
    dsimp only
    rw [Table.lookup_mapValues]
    rcases c.models.lookup model with _ | mc
    · rfl
    · rw [Option.map_some, Option.getD_some, Option.getD_some]
      split <;> rfl

/-! ## Flights -/

theorem find_none_of_nodup {l : List DirtySnap} {s : DirtySnap} {id : String} {W : Nat} (hs : s.IsOf id W)
    (hnd : ((s :: l).map DirtySnap.bucketId).Nodup) : l.find? (fun s => s.IsOf id W) = none := by
  rw [List.map_cons, List.nodup_cons] at hnd
  rw [List.find?_eq_none]
  intro s' hs' he
  have he' : s'.IsOf id W := by simpa using he
  exact hnd.1 (List.mem_map.2 ⟨s', hs', he'.1.trans hs.1.symm⟩)

theorem unwrittenFlight_none {id : String} {W : Nat} {m : Meter} {base : Nat} {l : List DirtySnap}
    (h : ∀ s ∈ l, ¬ s.IsOf id W) : unwrittenFlight id W m base l = .none := by
  unfold unwrittenFlight
  rw [List.find?_eq_none.2 (fun s hs => by simpa using h s hs)]

/-- The picked snapshot, with the rest in order. -/
theorem perm_eraseIdx {l : List DirtySnap} {i : Nat} {s : DirtySnap} (h : l[i]? = some s) :
    (s :: l.eraseIdx i).Perm l := by
  obtain ⟨hi, rfl⟩ := List.getElem?_eq_some_iff.1 h
  exact List.getElem_cons_eraseIdx_perm hi

theorem nodup_eraseIdx {l : List DirtySnap} {i : Nat} {s : DirtySnap} (h : l[i]? = some s)
    (hnd : (l.map DirtySnap.bucketId).Nodup) : ((s :: l.eraseIdx i).map DirtySnap.bucketId).Nodup :=
  ((perm_eraseIdx h).map _).nodup_iff.2 hnd

/-- In a list of snapshots of different buckets the one of the (bucket, window) is found. -/
theorem unwrittenFlight_of_mem {id : String} {W : Nat} {m : Meter} {base : Nat} {l : List DirtySnap}
    {s : DirtySnap} (hnd : (l.map DirtySnap.bucketId).Nodup) (hs : s ∈ l) (ho : s.IsOf id W) :
    unwrittenFlight id W m base l = .read (base + s.cur m) := by
  unfold unwrittenFlight
  rcases hf : l.find? (fun s => s.IsOf id W) with _ | s'
  · exact absurd (List.find?_eq_none.1 hf s hs) (by simpa using ho)
  · have ho' : s'.IsOf id W := by simpa using List.find?_some hf
    have : s' = s :=
      List.inj_on_of_nodup_map hnd (List.mem_of_find?_eq_some hf) hs (ho'.1.trans ho.1.symm)
    rw [hf, this]

/-- Flights of lists with the same snapshots of the (bucket, window) are the same. -/
theorem unwrittenFlight_congr {id : String} {W : Nat} {m : Meter} {base : Nat} {l l' : List DirtySnap}
    (hnd : (l.map DirtySnap.bucketId).Nodup) (hnd' : (l'.map DirtySnap.bucketId).Nodup)
    (h : ∀ s, s.IsOf id W → (s ∈ l ↔ s ∈ l')) :
    unwrittenFlight id W m base l = unwrittenFlight id W m base l' := by
  by_cases he : ∃ s ∈ l, s.IsOf id W
  · obtain ⟨s, hs, ho⟩ := he
    rw [unwrittenFlight_of_mem hnd hs ho, unwrittenFlight_of_mem hnd' ((h s ho).1 hs) ho]
  · have hn : ∀ s ∈ l, ¬ s.IsOf id W := fun s hs ho => he ⟨s, hs, ho⟩
    have hn' : ∀ s ∈ l', ¬ s.IsOf id W := fun s hs ho => he ⟨s, (h s ho).2 hs, ho⟩
    rw [unwrittenFlight_none hn, unwrittenFlight_none hn']

theorem FlushPhase.flight_none {ph : FlushPhase} {id : String} {W : Nat} {m : Meter} {base : Nat}
    (h : ∀ s ∈ ph.live, ¬ s.IsOf id W) : ph.flight id W m base = .none := by
  cases ph with
  | idle => rfl
  | reading shard snaps => exact unwrittenFlight_none h
  | writing snaps => exact unwrittenFlight_none h
  | settling s ok snaps =>
    cases ok with
    | true =>
      unfold FlushPhase.flight
      dsimp only
      rw [if_neg (h s List.mem_cons_self)]
      exact unwrittenFlight_none (fun s' hs' => h s' (List.mem_cons_of_mem _ hs'))
    | false => exact unwrittenFlight_none h

/-! ## The order of the snapshots -/

/-- A snapshot of the (bucket, window) is of the cell that holds it. -/
theorem dirtySnaps_isOf {n : Node} {id : String} {W shard : Nat} {s : DirtySnap}
    (hs : s ∈ dirtySnaps n.cells shard) (ho : s.IsOf id W) :
    ∃ c, n.cellOf id W = some c ∧ c.dirty = true ∧ s = DirtySnap.of id c := by
  obtain ⟨rfl, hw⟩ := ho
  obtain ⟨c, hl, -, hd, he⟩ := mem_dirtySnaps.1 hs
  rw [he] at hw
  exact ⟨c, held_eq_some.2 ⟨hl, hw⟩, hd, he⟩

theorem shardIndex_dirtySnaps {cells : Cells} {shard : Nat} {s : DirtySnap} (hs : s ∈ dirtySnaps cells shard) :
    shardIndex s.bucketId = shard := by
  obtain ⟨c, -, h, -⟩ := mem_dirtySnaps.1 hs
  exact h

/-- Reading a shard adds snapshots of that shard only. -/
theorem ordered_read {n n' : Node} (hord : n.Ordered) {shard : Nat} {snaps : List DirtySnap}
    (hph : n.flush = .reading shard snaps)
    (hflush : n'.flush = .reading (shard + 1) (snaps ++ dirtySnaps n.cells shard)) : n'.Ordered := by
  have hbehind := hord.behind shard snaps hph
  have hnd : (snaps.map DirtySnap.bucketId).Nodup := by
    have := hord.nodup
    rw [hph] at this
    exact this
  constructor
  · rw [hflush]
    show ((snaps ++ dirtySnaps n.cells shard).map DirtySnap.bucketId).Nodup
    rw [List.map_append, List.nodup_append]
    refine ⟨hnd, nodup_dirtySnaps _ _, ?_⟩
    intro a ha b hb hab
    obtain ⟨s, hs, rfl⟩ := List.mem_map.1 ha
    obtain ⟨s', hs', rfl⟩ := List.mem_map.1 hb
    have h₁ := hbehind s hs
    have h₂ := shardIndex_dirtySnaps hs'
    rw [hab] at h₁
    omega
  · intro shard' snaps' he s hs
    rw [hflush] at he
    cases he
    rcases List.mem_append.1 hs with hs | hs
    · have := hbehind s hs
      omega
    · have := shardIndex_dirtySnaps hs
      omega

/-- A flush that is not reading only has to keep its snapshots apart. -/
theorem ordered_of_nodup {n : Node} (hnd : (n.flush.inFlight.map DirtySnap.bucketId).Nodup)
    (hread : ∀ shard snaps, n.flush = .reading shard snaps → snaps = []) : n.Ordered where
  nodup := hnd
  behind := by
    intro shard snaps he s hs
    rw [hread shard snaps he] at hs
    exact absurd hs List.not_mem_nil

theorem ordered_step {n : Node} (hord : n.Ordered) (cost : CostModel) (op : NodeOp) :
    (n.step cost op).Ordered := by
  have hsame : ∀ n' : Node, n'.flush = n.flush → n'.Ordered := by
    intro n' hflush
    exact ⟨by rw [hflush]; exact hord.nodup, by rw [hflush]; exact hord.behind⟩
  have hnd := hord.nodup
  have heff := n.effect cost op
  generalize n.step cost op = n' at *
  generalize n.events cost op = ev at *
  cases heff with
  | idle hcells husage hflush => exact hsame n' hflush
  | swept shard now hop hcells hstore hflush => exact hsame n' hflush
  | locked k c hop hcall hphase hcells hstore hflush => exact hsame n' hflush
  | accrued key pool i model tokens now b hop hb hcells hstore hflush => exact hsame n' hflush
  | refunded k c i b hop hcall hb hcells hstore hflush => exact hsame n' hflush
  | read shard snaps h hcells hstore hflush => exact ordered_read hord h hflush
  | started h hcells hstore hflush =>
    refine ordered_of_nodup (by rw [hflush]; exact List.nodup_nil) ?_
    intro shard snaps he
    rw [hflush] at he
    cases he
    rfl
  | readAll shard snaps h hlast hcells hstore hflush =>
    rw [h] at hnd
    refine ordered_of_nodup (by rw [hflush]; exact hnd) ?_
    intro shard' snaps' he
    rw [hflush] at he
    cases he
  | wrote pick ok s snaps hop h hpick hcells hstore hflush =>
    rw [h] at hnd
    refine ordered_of_nodup (by rw [hflush]; exact nodup_eraseIdx hpick hnd) ?_
    intro shard' snaps' he
    rw [hflush] at he
    cases he
  | settled s ok snaps h hcells hstore hflush =>
    rw [h] at hnd
    refine ordered_of_nodup (by rw [hflush]; exact (List.nodup_cons.1 hnd).2) ?_
    intro shard' snaps' he
    rw [hflush] at he
    cases he
  | ended h hcells hstore hflush =>
    refine ordered_of_nodup (by rw [hflush]; exact List.nodup_nil) ?_
    intro shard' snaps' he
    rw [hflush] at he
    cases he

/-! ## The steps -/

variable {cost : CostModel} {id : String} {W : Nat}

/-- A step of the cells that leaves the flush and the rows alone: it adds what it ledgers, or it gives up a
settled cell. -/
theorem Mirrored.ofCells {n n' : Node} {h ev : List LedgerEvent} (hm : Mirrored id W ⟨n, h⟩)
    (hflush : n'.flush = n.flush) (hrow : ∀ m, n'.row id W m = n.row id W m)
    (hbelow : ∀ m, curOf (n'.cellOf id W) m < i64Max)
    (hcell : (∀ m, curOf (n'.cellOf id W) m = curOf (n.cellOf id W) m + tally id W m ev ∧
        ackedOf (n'.cellOf id W) m = ackedOf (n.cellOf id W) m) ∧
        ((n.cellOf id W).isSome → (n'.cellOf id W).isSome) ∧
        (∀ model tier, 0 ≤ tally id W (.tokens model tier) ev) ∨
      n'.cellOf id W = none ∧ n.Settled id W ∧ ∀ m, tally id W m ev = 0) :
    Mirrored id W ⟨n', h ++ ev⟩ := by
  obtain ⟨hord, hfits, hackB, hbel, hreach⟩ := hm
  have hord' : n'.Ordered := by
    obtain ⟨h₁, h₂⟩ := hord
    exact ⟨by rw [hflush]; exact h₁, by rw [hflush]; exact h₂⟩
  rcases hcell with ⟨hadd, hstay, htok⟩ | ⟨hnone, hset, hzero⟩
  · refine ⟨hord', ?_, ?_, ?_, ?_⟩
    · intro s hs ho
      rw [hflush] at hs
      obtain ⟨c, hc, hfit⟩ := hfits s hs ho
      obtain ⟨c', hc'⟩ := Option.isSome_iff_exists.1 (hstay (by rw [hc]; rfl))
      refine ⟨c', hc', hfit.mono ?_ ?_⟩
      · intro m
        have := (hadd m).2
        rw [hc, hc'] at this
        exact Int.ofNat.inj this
      · intro model tier
        have h₁ := (hadd (.tokens model tier)).1
        rw [hc, hc'] at h₁
        have h₂ := htok model tier
        have h₃ : (c'.cur (.tokens model tier) : Int) = c.cur (.tokens model tier) +
          tally id W (.tokens model tier) ev := h₁
        omega
    · intro m
      rw [(hadd m).2]
      exact hackB m
    · intro m
      refine ⟨hbelow m, ?_⟩
      show (n'.row id W m : Int) < _
      rw [hrow]
      exact (hbel m).2
    · intro m
      obtain ⟨base, hr⟩ := hreach m
      refine ⟨base, ?_⟩
      rw [tally_append]
      refine Reach.step hr ?_
      have hview : n'.view id W m base =
          { n.view id W m base with
            current := (n.view id W m base).current + tally id W m ev } := by
        unfold Node.view
        rw [(hadd m).1, (hadd m).2, hrow, hflush]
        simp only [Int.add_assoc]
      rw [hview]
      exact Step.add _ _
  · refine ⟨hord', ?_, ?_, ?_, ?_⟩
    · intro s hs ho
      rw [hflush] at hs
      exact absurd ho (hset.landed s hs)
    · intro m
      rw [hnone]
      exact (by decide : (0 : Int) < i64Max)
    · intro m
      refine ⟨hbelow m, ?_⟩
      show (n'.row id W m : Int) < _
      rw [hrow]
      exact (hbel m).2
    · intro m
      obtain ⟨base, hr⟩ := hreach m
      -- what the settled cell has flushed becomes part of the base
      obtain ⟨v, hv⟩ : ∃ v : Nat, curOf (n.cellOf id W) m = v := by
        unfold curOf
        rcases n.cellOf id W with _ | c
        · exact ⟨0, rfl⟩
        · exact ⟨c.cur m, rfl⟩
      refine ⟨base + v, ?_⟩
      have hflight : ∀ b, n.flush.flight id W m b = .none := fun b => FlushPhase.flight_none hset.landed
      have hview : n'.view id W m (base + v) = n.view id W m base := by
        unfold Node.view
        rw [hnone, hrow, hflush, hflight, hflight, ← hset.flushed m, hv]
        simp [curOf, ackedOf]
      rw [hview, tally_append, hzero m]
      exact Reach.step hr (Step.stay _)

/-- A step of the flush that moves the counter of every meter by one step of the write-behind counter, and
ledgers nothing. -/
theorem Mirrored.ofFlush {n n' : Node} {h : List LedgerEvent} (hm : Mirrored id W ⟨n, h⟩)
    (hord : n'.Ordered)
    (hfits : ∀ s ∈ n'.flush.live, s.IsOf id W → ∃ c, n'.cellOf id W = some c ∧ FitsCell s c)
    (hack : ∀ m, ackedOf (n'.cellOf id W) m < i64Max)
    (hbelow : ∀ m, curOf (n'.cellOf id W) m < i64Max ∧ (n'.row id W m : Int) < i64Max)
    (hview : ∀ m base, Reach (n.view id W m base) (tally id W m h) →
      Step (n.view id W m base) 0 (n'.view id W m base)) : Mirrored id W ⟨n', h ++ []⟩ where
  ordered := hord
  fits := hfits
  ackedBelow := hack
  below := hbelow
  reach := by
    intro m
    obtain ⟨base, hr⟩ := hm.reach m
    refine ⟨base, ?_⟩
    rw [List.append_nil, ← Int.add_zero (tally id W m h)]
    exact Reach.step hr (hview m base hr)

theorem fits_map {f : BudgetCell → BudgetCell} {s : DirtySnap} {o : Option BudgetCell}
    (hc : ∀ c m, (f c).cur m = c.cur m) (ha : ∀ c m, (f c).acked m = c.acked m)
    (h : ∃ c, o = some c ∧ FitsCell s c) : ∃ c, o.map f = some c ∧ FitsCell s c := by
  obtain ⟨c, rfl, hfit⟩ := h
  refine ⟨f c, rfl, hfit.mono (fun m => ha c m) ?_⟩
  intro model tier
  rw [hc]

/-- The cell update of a snapshot pass over a shard. -/
def cleaned (id : String) (shard : Nat) (c : BudgetCell) : BudgetCell :=
  if shardIndex id = shard then { c with dirty := false } else c

theorem cur_cleaned (id : String) (shard : Nat) (c : BudgetCell) (m : Meter) :
    (cleaned id shard c).cur m = c.cur m := by
  unfold cleaned
  split
  · cases m <;> rfl
  · rfl

theorem acked_cleaned (id : String) (shard : Nat) (c : BudgetCell) (m : Meter) :
    (cleaned id shard c).acked m = c.acked m := by
  unfold cleaned
  split
  · cases m <;> rfl
  · rfl

theorem windowStart_cleaned (id : String) (shard : Nat) (c : BudgetCell) :
    (cleaned id shard c).windowStart = c.windowStart := by
  unfold cleaned
  split <;> rfl

/-- A view after a step that keeps readings and row. -/
theorem view_flight {n n' : Node} {m : Meter} (hcur : curOf (n'.cellOf id W) m = curOf (n.cellOf id W) m)
    (hack : ackedOf (n'.cellOf id W) m = ackedOf (n.cellOf id W) m) (hrow : n'.row id W m = n.row id W m)
    (base : Nat) :
    n'.view id W m base = { n.view id W m base with flight := n'.flush.flight id W m base } := by
  unfold Node.view
  rw [hcur, hack, hrow]

/-- **Reading a shard.** -/
theorem Mirrored.readShard {n n' : Node} {h : List LedgerEvent} (hm : Mirrored id W ⟨n, h⟩) {shard : Nat}
    {snaps : List DirtySnap} (hph : n.flush = .reading shard snaps)
    (hcells : n'.cells = cleanShard n.cells shard) (hstore : n'.store = n.store)
    (hph' : n'.flush = .reading (shard + 1) (snaps ++ dirtySnaps n.cells shard)) :
    Mirrored id W ⟨n', h ++ []⟩ := by
  have hcell : n'.cellOf id W = (n.cellOf id W).map (cleaned id shard) := by
    unfold Node.cellOf
    rw [hcells, lookup_cleanShard]
    exact held_map (windowStart_cleaned id shard) _
  have hread : ∀ m, curOf (n'.cellOf id W) m = curOf (n.cellOf id W) m ∧
      ackedOf (n'.cellOf id W) m = ackedOf (n.cellOf id W) m := by
    intro m
    rw [hcell]
    exact readings_map (fun c => cur_cleaned id shard c m) (fun c => acked_cleaned id shard c m) _
  have hrow : ∀ m, n'.row id W m = n.row id W m := by
    intro m
    unfold Node.row
    rw [hstore]
  have hbehind := hm.ordered.behind shard snaps hph
  have hnd : (snaps.map DirtySnap.bucketId).Nodup := by
    have := hm.ordered.nodup
    rw [hph] at this
    exact this
  have hord := ordered_read hm.ordered hph hph'
  have hnd' : ((snaps ++ dirtySnaps n.cells shard).map DirtySnap.bucketId).Nodup := by
    have := hord.nodup
    rw [hph'] at this
    exact this
  refine hm.ofFlush hord ?_ ?_ ?_ ?_
  · intro s hs ho
    rw [hph'] at hs
    rw [hcell]
    rcases List.mem_append.1 hs with hs | hs
    · exact fits_map (cur_cleaned id shard) (acked_cleaned id shard)
        (hm.fits s (by rw [hph]; exact hs) ho)
    · obtain ⟨c, hc, -, rfl⟩ := dirtySnaps_isOf hs ho
      have hack := hm.ackedBelow
      have hcur := hm.below
      rw [hc] at hack hcur
      rw [hc]
      exact ⟨_, rfl, fitsCell_snap (cur_cleaned id shard c) (acked_cleaned id shard c)
        (fun m => (hcur m).1) hack⟩
  · intro m
    rw [(hread m).2]
    exact hm.ackedBelow m
  · intro m
    rw [(hread m).1, hrow]
    exact hm.below m
  · intro m base _
    rw [view_flight (hread m).1 (hread m).2 (hrow m) base]
    have hflight : n.flush.flight id W m base = unwrittenFlight id W m base snaps := by
      rw [hph]
      rfl
    have hflight' : n'.flush.flight id W m base =
        unwrittenFlight id W m base (snaps ++ dirtySnaps n.cells shard) := by
      rw [hph']
      rfl
    by_cases he : ∃ s ∈ dirtySnaps n.cells shard, s.IsOf id W
    · obtain ⟨s, hs, ho⟩ := he
      obtain ⟨c, hc, -, hsc⟩ := dirtySnaps_isOf hs ho
      have hnone : n.flush.flight id W m base = .none := by
        rw [hflight]
        refine unwrittenFlight_none (fun s' hs' ho' => ?_)
        have h₁ := hbehind s' hs'
        have h₂ := shardIndex_dirtySnaps hs
        rw [ho'.1] at h₁
        rw [ho.1] at h₂
        omega
      have hafter : n'.flush.flight id W m base = .read (n.view id W m base).current := by
        rw [hflight', unwrittenFlight_of_mem hnd' (List.mem_append_right _ hs) ho, hsc, cur_snap]
        show _ = Flight.read ((base : Int) + curOf (n.cellOf id W) m)
        rw [hc]
        rfl
      rw [hafter]
      exact Step.read _ hnone
    · have hsame : n'.flush.flight id W m base = (n.view id W m base).flight := by
        rw [hflight']
        refine (unwrittenFlight_congr hnd' hnd (fun s ho => ?_)).trans hflight.symm
        rw [List.mem_append]
        exact ⟨fun h => h.resolve_right (fun hs => he ⟨s, hs, ho⟩), Or.inl⟩
      rw [hsame]
      exact Step.stay _

theorem meter_of_isZero {d : UsageDelta} (h : d.isZero = true) (m : Meter) : d.meter m = 0 := by
  unfold UsageDelta.isZero at h
  simp only [Bool.and_eq_true, beq_iff_eq, List.all_eq_true] at h
  obtain ⟨⟨h₁, h₂⟩, h₃⟩ := h
  cases m with
  | requests => exact h₁
  | billable => exact h₂
  | tokens model tier =>
    unfold UsageDelta.meter UsageDelta.tokensFor
    dsimp only
    rcases hf : d.models.find? (fun m => m.model = model) with _ | e
    · rw [hf]
      exact get_zeroDelta tier
    · rw [hf]
      exact (isZero_iff _).1 (h₃ e (List.mem_of_find?_eq_some hf)) tier

theorem satAddSigned_exact {a : Nat} {d : Int} (h : (satAddSigned a d : Int) < i64Max) (hd : 0 ≤ (a : Int) + d) :
    (satAddSigned a d : Int) = a + d := by
  unfold satAddSigned i64Max u64Max at *
  omega

/-- **Writing a snapshot.** -/
theorem Mirrored.writeSnap {n n' : Node} {h : List LedgerEvent} (hm : Mirrored id W ⟨n, h⟩) {pick : Nat}
    {ok : Bool} {snaps : List DirtySnap} {s : DirtySnap} (hph : n.flush = .writing snaps)
    (hpick : snaps[pick]? = some s) (hcells : n'.cells = n.cells)
    (hstore : n'.store = (Busbar.writeSnap n.store s ok).1)
    (hph' : n'.flush = .settling s (Busbar.writeSnap n.store s ok).2 (snaps.eraseIdx pick))
    (hspares : ok = true → s.delta.isZero = false → (n.store.usageSweepTicker + 1) % sweepInterval = 0 →
      n.store.clock < satAdd W maxRetentionSecs)
    (hbelow : ∀ m, (n'.row id W m : Int) < i64Max) : Mirrored id W ⟨n', h ++ []⟩ := by
  have hcell : n'.cellOf id W = n.cellOf id W := by
    unfold Node.cellOf
    rw [hcells]
  have hperm := perm_eraseIdx hpick
  have hmem : s ∈ snaps := hperm.mem_iff.1 List.mem_cons_self
  have hnd : (snaps.map DirtySnap.bucketId).Nodup := by
    have := hm.ordered.nodup
    rw [hph] at this
    exact this
  have hnd' := nodup_eraseIdx hpick hnd
  have hlive : ∀ s' ∈ n'.flush.live, s' ∈ snaps := by
    intro s' hs'
    rw [hph'] at hs'
    rcases hok : (Busbar.writeSnap n.store s ok).2 with _ | _
    · rw [hok] at hs'
      exact hperm.mem_iff.1 (List.mem_cons_of_mem _ hs')
    · rw [hok] at hs'
      exact hperm.mem_iff.1 hs'
  have hflight : ∀ m base, n.flush.flight id W m base = unwrittenFlight id W m base snaps := by
    intro m base
    rw [hph]
    rfl
  refine hm.ofFlush ⟨by rw [hph']; exact hnd', ?_⟩ ?_ ?_ ?_ ?_
  · intro shard' snaps' he
    rw [hph'] at he
    cases he
  · intro s' hs' ho
    rw [hcell]
    exact hm.fits s' (by rw [hph]; exact hlive s' hs') ho
  · intro m
    rw [hcell]
    exact hm.ackedBelow m
  · intro m
    rw [hcell]
    exact ⟨(hm.below m).1, hbelow m⟩
  · intro m base hr
    by_cases ho : s.IsOf id W
    · -- the snapshot of this (bucket, window)
      obtain ⟨c, hc, hfit⟩ := hm.fits s (by rw [hph]; exact hmem) ho
      have hread : n.flush.flight id W m base = .read (base + s.cur m) := by
        rw [hflight]
        exact unwrittenFlight_of_mem hnd hmem ho
      have hrest : ∀ s' ∈ snaps.eraseIdx pick, ¬ s'.IsOf id W := by
        intro s' hs' ho'
        have := find_none_of_nodup ho hnd'
        exact absurd (List.find?_eq_none.1 this s' hs') (by simpa using ho')
      have hdelta : s.delta.meter m = (base + s.cur m : Int) - (base + ackedOf (n.cellOf id W) m) := by
        rw [hfit.delta m, hc]
        show _ = _ - ((base : Int) + c.acked m)
        omega
      have hwritten : (Busbar.writeSnap n.store s ok).2 = true →
          n'.flush.flight id W m base = .written (base + s.cur m) := by
        intro hok
        rw [hph', hok]
        show (if s.IsOf id W then _ else _) = _
        rw [if_pos ho]
      unfold Busbar.writeSnap at hstore hph' hwritten
      by_cases hz : s.delta.isZero = true
      · -- an empty difference counts as written
        rw [if_pos hz] at hstore hwritten
        have hrow : n'.row id W m = n.row id W m := by
          unfold Node.row
          rw [hstore]
        rw [view_flight (by rw [hcell]) (by rw [hcell]) hrow base, hwritten rfl]
        have hstep := Step.write (n.view id W m base) _ hread
        have hzero : (n.view id W m base).durable + ((base + s.cur m : Int) - (n.view id W m base).flushed) =
            (n.view id W m base).durable := by
          have h0 := meter_of_isZero hz m
          rw [hdelta] at h0
          show (_ : Int) + (_ - ((base : Int) + ackedOf (n.cellOf id W) m)) = _
          omega
        rw [hzero] at hstep
        exact hstep
      · rw [if_neg hz] at hstore hph' hwritten
        cases ok with
        | true =>
          rw [if_pos rfl] at hstore hwritten
          have hz' : s.delta.isZero = false := by simpa using hz
          have hu := MemoryStore.getUsage_addUsage (hspares rfl hz') id s.bucketId s.window s.delta
          rw [if_pos (show s.bucketId = id ∧ s.window = W from ho)] at hu
          have hrow : n'.row id W m = satAddSigned (n.row id W m) (s.delta.meter m) := by
            unfold Node.row
            rw [hstore]
            show ((n.store.addUsage s.bucketId s.window s.delta).getUsage id W).meter m = _
            rw [hu]
            refine meter_applyDelta hfit.models m ?_
            have hb : (n.row id W m : Int) < i64Max := (hm.below m).2
            unfold i64Max at hb
            show n.row id W m ≤ u64Max
            unfold u64Max
            omega
          -- the row holds what was acknowledged, so nothing is cut off
          have hdur : (n.row id W m : Int) = base + ackedOf (n.cellOf id W) m := by
            have := hr.durable_eq
            unfold WriteBehind.State.underWay at this
            have hfl : (n.view id W m base).flight = .read (base + s.cur m) := hread
            rw [hfl, add_zero] at this
            exact this
          have hexact : (n'.row id W m : Int) = n.row id W m + s.delta.meter m := by
            have hb := hbelow m
            rw [hrow] at hb ⊢
            refine satAddSigned_exact hb ?_
            rw [hdelta, hdur]
            omega
          have hview : n'.view id W m base =
              { n.view id W m base with
                durable := (n.view id W m base).durable + ((base + s.cur m : Int) - (n.view id W m base).flushed)
                flight := .written (base + s.cur m) } := by
            unfold Node.view
            rw [hcell, hwritten rfl, hexact, hdelta]
          rw [hview]
          exact Step.write _ _ hread
        | false =>
          rw [if_neg (by decide)] at hstore hph'
          have hrow : n'.row id W m = n.row id W m := by
            unfold Node.row
            rw [hstore]
          have hnone : n'.flush.flight id W m base = .none := by
            rw [hph']
            exact unwrittenFlight_none hrest
          rw [view_flight (by rw [hcell]) (by rw [hcell]) hrow base, hnone]
          exact Step.fail _ _ hread
    · -- a snapshot of another one
      have hrow : n'.row id W m = n.row id W m := by
        unfold Node.row
        rw [hstore]
        unfold Busbar.writeSnap
        by_cases hz : s.delta.isZero = true
        · rw [if_pos hz]
        · rw [if_neg hz]
          cases ok with
          | true =>
            have hz' : s.delta.isZero = false := by simpa using hz
            rw [if_pos rfl]
            show ((n.store.addUsage s.bucketId s.window s.delta).getUsage id W).meter m = _
            rw [MemoryStore.getUsage_addUsage (hspares rfl hz') id s.bucketId s.window s.delta,
              if_neg (show ¬ (s.bucketId = id ∧ s.window = W) from ho)]
          | false => rw [if_neg (by decide)]
      have hsame : n'.flush.flight id W m base = (n.view id W m base).flight := by
        have hrest : unwrittenFlight id W m base (snaps.eraseIdx pick) = unwrittenFlight id W m base snaps := by
          refine unwrittenFlight_congr ?_ hnd (fun s' ho' => ?_)
          · rw [List.map_cons, List.nodup_cons] at hnd'
            exact hnd'.2
          · rw [← hperm.mem_iff, List.mem_cons]
            refine ⟨Or.inr, fun h' => h'.resolve_left (fun he => ?_)⟩
            exact ho (he ▸ ho')
        show _ = n.flush.flight id W m base
        rw [hflight, ← hrest, hph']
        cases (Busbar.writeSnap n.store s ok).2 with
        | true => exact if_neg ho
        | false => rfl
      rw [view_flight (by rw [hcell]) (by rw [hcell]) hrow base, hsame]
      exact Step.stay _

/-- The cell update of a settled snapshot. -/
def settled (s : DirtySnap) (ok : Bool) (c : BudgetCell) : BudgetCell :=
  if ok then c.acknowledge s else { c with dirty := true }

theorem cellOf_settle_of {cells : Cells} {s : DirtySnap} (ok : Bool) (ho : s.IsOf id W) :
    held W ((settle cells s ok).lookup id) = (held W (cells.lookup id)).map (settled s ok) := by
  rw [lookup_settle]
  rcases cells.lookup id with _ | c
  · rfl
  · by_cases hw : c.windowStart = W
    · have hset : (settled s ok c).windowStart = W := by
        unfold settled
        split <;> exact hw
      rw [Option.map_some, if_pos ⟨ho.1, hw.trans ho.2.symm⟩, held_some hw]
      exact held_some hset
    · have hne : ¬ (s.bucketId = id ∧ c.windowStart = s.window) := fun h => hw (h.2.trans ho.2)
      rw [Option.map_some, if_neg hne, held_some_ne hw]
      rfl

theorem cellOf_settle_ne {cells : Cells} {s : DirtySnap} (ok : Bool) (ho : ¬ s.IsOf id W) :
    held W ((settle cells s ok).lookup id) = held W (cells.lookup id) := by
  rw [lookup_settle]
  rcases cells.lookup id with _ | c
  · rfl
  · rw [Option.map_some]
    by_cases hc : s.bucketId = id ∧ c.windowStart = s.window
    · -- the bucket's cell holds the snapshot's window, which is another one
      have hw : c.windowStart ≠ W := fun h => ho ⟨hc.1, hc.2.symm.trans h⟩
      have hw' : (if ok = true then c.acknowledge s else { c with dirty := true }).windowStart ≠ W := by
        split <;> exact hw
      rw [if_pos hc, held_some_ne hw, held_some_ne hw']
    · rw [if_neg hc]

/-- **Settling a snapshot.** -/
theorem Mirrored.settleSnap {n n' : Node} {h : List LedgerEvent} (hm : Mirrored id W ⟨n, h⟩) {ok : Bool}
    {snaps : List DirtySnap} {s : DirtySnap} (hph : n.flush = .settling s ok snaps)
    (hcells : n'.cells = settle n.cells s ok) (hstore : n'.store = n.store)
    (hph' : n'.flush = .writing snaps) : Mirrored id W ⟨n', h ++ []⟩ := by
  have hnd : ((s :: snaps).map DirtySnap.bucketId).Nodup := by
    have := hm.ordered.nodup
    rw [hph] at this
    exact this
  have hnd' : (snaps.map DirtySnap.bucketId).Nodup := by
    rw [List.map_cons, List.nodup_cons] at hnd
    exact hnd.2
  have hrow : ∀ m, n'.row id W m = n.row id W m := by
    intro m
    unfold Node.row
    rw [hstore]
  have hflight' : ∀ m base, n'.flush.flight id W m base = unwrittenFlight id W m base snaps := by
    intro m base
    rw [hph']
    rfl
  have hlive : ∀ s' ∈ snaps, s' ∈ n.flush.live := by
    intro s' hs'
    rw [hph]
    cases ok with
    | true => exact List.mem_cons_of_mem _ hs'
    | false => exact hs'
  have hord : n'.Ordered := by
    refine ⟨by rw [hph']; exact hnd', ?_⟩
    intro shard' snaps' he
    rw [hph'] at he
    cases he
  by_cases hack : ok = true ∧ s.IsOf id W
  · -- the acknowledgement of this (bucket, window)
    obtain ⟨rfl, ho⟩ := hack
    obtain ⟨c, hc, hfit⟩ := hm.fits s (by rw [hph]; exact List.mem_cons_self) ho
    have hcell : n'.cellOf id W = some (c.acknowledge s) := by
      unfold Node.cellOf at hc ⊢
      rw [hcells, cellOf_settle_of true ho, hc]
      rfl
    have hnone : ∀ s' ∈ snaps, ¬ s'.IsOf id W := by
      intro s' hs' ho'
      exact absurd (List.find?_eq_none.1 (find_none_of_nodup ho hnd) s' hs') (by simpa using ho')
    have hcur : ∀ m, curOf (n'.cellOf id W) m = curOf (n.cellOf id W) m := by
      intro m
      rw [hcell, hc]
      show ((c.acknowledge s).cur m : Int) = c.cur m
      rw [cur_acknowledge]
    have hacked : ∀ m, ackedOf (n'.cellOf id W) m = s.cur m := by
      intro m
      rw [hcell]
      show ((c.acknowledge s).acked m : Int) = s.cur m
      rw [acked_acknowledge hfit]
    refine hm.ofFlush hord ?_ ?_ ?_ ?_
    · intro s' hs' ho'
      rw [hph'] at hs'
      exact absurd ho' (hnone s' hs')
    · intro m
      rw [hacked]
      exact hfit.below m
    · intro m
      rw [hcur, hrow]
      exact hm.below m
    · intro m base _
      have hwritten : n.flush.flight id W m base = .written (base + s.cur m) := by
        rw [hph]
        exact if_pos ho
      have hview : n'.view id W m base =
          { n.view id W m base with flushed := base + s.cur m, flight := .none } := by
        unfold Node.view
        rw [hcur, hacked, hrow, hflight', unwrittenFlight_none hnone]
      rw [hview]
      exact Step.ack _ _ hwritten
  · -- a failed write of it, or a snapshot of another one: its readings stay
    have hread : ∀ m, curOf (n'.cellOf id W) m = curOf (n.cellOf id W) m ∧
        ackedOf (n'.cellOf id W) m = ackedOf (n.cellOf id W) m := by
      intro m
      unfold Node.cellOf
      rw [hcells]
      by_cases ho : s.IsOf id W
      · have hok : ok = false := by simpa using fun he => hack ⟨he, ho⟩
        subst hok
        rw [cellOf_settle_of false ho]
        exact readings_map (fun c => by cases m <;> rfl) (fun c => by cases m <;> rfl) _
      · rw [cellOf_settle_ne ok ho]
        exact ⟨rfl, rfl⟩
    refine hm.ofFlush hord ?_ ?_ ?_ ?_
    · intro s' hs' ho'
      rw [hph'] at hs'
      have hne : ¬ s.IsOf id W := by
        intro ho
        exact absurd (List.find?_eq_none.1 (find_none_of_nodup ho hnd) s' hs') (by simpa using ho')
      unfold Node.cellOf
      rw [hcells, cellOf_settle_ne ok hne]
      exact hm.fits s' (hlive s' hs') ho'
    · intro m
      rw [(hread m).2]
      exact hm.ackedBelow m
    · intro m
      rw [(hread m).1, hrow]
      exact hm.below m
    · intro m base _
      have hsame : n'.flush.flight id W m base = (n.view id W m base).flight := by
        rw [hflight']
        show _ = n.flush.flight id W m base
        rw [hph]
        cases ok with
        | true => exact (if_neg (fun ho => hack ⟨rfl, ho⟩)).symm
        | false => rfl
      rw [view_flight (hread m).1 (hread m).2 (hrow m) base, hsame]
      exact Step.stay _

/-! ## One step and a run -/

/-- A step that touches neither cells, rows nor the flush. -/
theorem Mirrored.idle {n n' : Node} {h : List LedgerEvent} (hm : Mirrored id W ⟨n, h⟩)
    (hcells : n'.cells = n.cells) (hrow : ∀ m, n'.row id W m = n.row id W m) (hflush : n'.flush = n.flush) :
    Mirrored id W ⟨n', h ++ []⟩ := by
  have hcell : n'.cellOf id W = n.cellOf id W := by
    unfold Node.cellOf
    rw [hcells]
  refine hm.ofCells hflush hrow ?_ (Or.inl ⟨?_, ?_, ?_⟩)
  · intro m
    rw [hcell]
    exact (hm.below m).1
  · intro m
    rw [hcell]
    exact ⟨(Int.add_zero _).symm, rfl⟩
  · rw [hcell]
    exact fun h => h
  · exact fun _ _ => Int.le_refl _

/-- A step of the cells alone, given up cells included. -/
theorem Mirrored.touched {n n' : Node} {h ev : List LedgerEvent} (hm : Mirrored id W ⟨n, h⟩)
    (hflush : n'.flush = n.flush) (hstore : n'.store = n.store)
    (hleaves : (n.cellOf id W).isSome → (n'.cellOf id W).isSome ∨ n.Settled id W)
    (hlands : ∀ e ∈ ev, e.IsOf id W → (n'.cellOf id W).isSome)
    (hbelow : ∀ m, curOf (n'.cellOf id W) m < i64Max)
    (htok : ∀ model tier, 0 ≤ tally id W (.tokens model tier) ev)
    (hstays : ((n.cellOf id W).isSome → (n'.cellOf id W).isSome) → ∀ m,
      curOf (n'.cellOf id W) m = curOf (n.cellOf id W) m + tally id W m ev ∧
        ackedOf (n'.cellOf id W) m = ackedOf (n.cellOf id W) m) : Mirrored id W ⟨n', h ++ ev⟩ := by
  have hrow : ∀ m, n'.row id W m = n.row id W m := by
    intro m
    unfold Node.row
    rw [hstore]
  by_cases hgone : (n.cellOf id W).isSome ∧ n'.cellOf id W = none
  · obtain ⟨hs, hnone⟩ := hgone
    have hset : n.Settled id W := by
      rcases hleaves hs with h' | h'
      · rw [hnone] at h'
        cases h'
      · exact h'
    refine hm.ofCells hflush hrow hbelow (Or.inr ⟨hnone, hset, fun m => ?_⟩)
    refine tally_of_not_isOf (fun e he ho => ?_)
    have := hlands e he ho
    rw [hnone] at this
    cases this
  · have hstay : (n.cellOf id W).isSome → (n'.cellOf id W).isSome := by
      intro hs
      rcases hn : n'.cellOf id W with _ | c
      · exact absurd ⟨hs, hn⟩ hgone
      · rfl
    exact hm.ofCells hflush hrow hbelow (Or.inl ⟨hstays hstay, hstay, htok⟩)

theorem tally_tokens_charges_nonneg (k now : Nat) (cells : Cells) (buckets : List ChainBucket)
    (m : Meter) : 0 ≤ tally id W m (chargeEvents k now cells buckets) :=
  tally_chargeEvents_nonneg id W m k now cells buckets

/-- The lock section of an admission. -/
theorem Mirrored.admitted {n n' : Node} {h ev : List LedgerEvent} (hm : Mirrored id W ⟨n, h⟩) {k now : Nat}
    {buckets : List ChainBucket} (hcells : n'.cells = (checkAndCharge cost buckets now n.cells).2)
    (hev : ev = if (checkAndCharge cost buckets now n.cells).1 = none then
      chargeEvents k now n.cells buckets else [])
    (hflush : n'.flush = n.flush) (hstore : n'.store = n.store)
    (hleaves : (n.cellOf id W).isSome → (n'.cellOf id W).isSome ∨ n.Settled id W)
    (hlands : ∀ e ∈ ev, e.IsOf id W → (n'.cellOf id W).isSome)
    (hbelow : ∀ m, curOf (n'.cellOf id W) m < i64Max) : Mirrored id W ⟨n', h ++ ev⟩ := by
  rcases hr : (checkAndCharge cost buckets now n.cells).1 with _ | e
  · rw [hr, if_pos rfl] at hev
    rw [(checkAndCharge_none hr).2] at hcells
    have hcell : n'.cellOf id W = held W ((buckets.foldl (chargeBucket now) n.cells).lookup id) := by
      unfold Node.cellOf
      rw [hcells]
    refine hm.touched hflush hstore hleaves hlands hbelow ?_ ?_
    · intro model tier
      rw [hev]
      exact tally_chargeEvents_nonneg id W _ k now n.cells buckets
    · intro hstay m
      have hb := hbelow m
      rw [hcell] at hstay hb ⊢
      rw [hev] at hlands ⊢
      rw [hcell] at hlands
      have hsmall : curOf (n.cellOf id W) m ≤ u64Max := by
        have : curOf (n.cellOf id W) m < i64Max := (hm.below m).1
        unfold i64Max at this
        unfold u64Max
        omega
      exact charges_spec ⟨hsmall, hstay, hlands, hb⟩
  · rw [hr, if_neg (by simp)] at hev
    rw [(checkAndCharge_some hr).2] at hcells
    rw [hev]
    refine hm.idle hcells (fun m => ?_) hflush
    unfold Node.row
    rw [hstore]

theorem Mirrored.swept {n n' : Node} {h : List LedgerEvent} (hm : Mirrored id W ⟨n, h⟩) {shard now : Nat}
    (hcells : n'.cells = sweepShard cost now n.cells shard) (hflush : n'.flush = n.flush)
    (hstore : n'.store = n.store)
    (hleaves : (n.cellOf id W).isSome → (n'.cellOf id W).isSome ∨ n.Settled id W) :
    Mirrored id W ⟨n', h ++ []⟩ := by
  have hcell : n'.cellOf id W = held W ((sweepShard cost now n.cells shard).lookup id) := by
    unfold Node.cellOf
    rw [hcells]
  have hread : n'.cellOf id W = none ∨ ∀ m, curOf (n'.cellOf id W) m = curOf (n.cellOf id W) m ∧
      ackedOf (n'.cellOf id W) m = ackedOf (n.cellOf id W) m := by
    rw [hcell]
    rcases sweepShard_held id W cost now n.cells shard with h' | h' | h'
    · exact Or.inl h'
    · refine Or.inr (fun m => ?_)
      rw [h']
      exact ⟨rfl, rfl⟩
    · refine Or.inr (fun m => ?_)
      rw [h']
      exact readings_map (fun c => cur_pruneDeadModels c m) (fun c => acked_pruneDeadModels c m) _
  refine hm.touched hflush hstore hleaves (fun e he => absurd he List.not_mem_nil) ?_
    (fun _ _ => Int.le_refl _) ?_
  · intro m
    rcases hread with h' | h'
    · rw [h']
      exact (by decide : (0 : Int) < i64Max)
    · rw [(h' m).1]
      exact (hm.below m).1
  · intro hstay m
    rw [tally_nil, Int.add_zero]
    rcases hread with h' | h'
    · have hn : n.cellOf id W = none := by
        rcases ho : n.cellOf id W with _ | c
        · rfl
        · rw [ho, h'] at hstay
          exact absurd (hstay rfl) (by simp)
      rw [h', hn]
      exact ⟨rfl, rfl⟩
    · exact h' m

/-- A flush that starts, turns to writing, or ends. -/
theorem Mirrored.turn {n n' : Node} {h : List LedgerEvent} (hm : Mirrored id W ⟨n, h⟩)
    (hcells : n'.cells = n.cells) (hstore : n'.store = n.store) (hin : n'.flush.inFlight = n.flush.inFlight)
    (hlive : n'.flush.live = n.flush.live)
    (hflight : ∀ m base, n'.flush.flight id W m base = n.flush.flight id W m base)
    (hread : ∀ shard snaps, n'.flush = .reading shard snaps → snaps = []) :
    Mirrored id W ⟨n', h ++ []⟩ := by
  have hcell : n'.cellOf id W = n.cellOf id W := by
    unfold Node.cellOf
    rw [hcells]
  have hrow : ∀ m, n'.row id W m = n.row id W m := by
    intro m
    unfold Node.row
    rw [hstore]
  refine hm.ofFlush ⟨by rw [hin]; exact hm.ordered.nodup, ?_⟩ ?_ ?_ ?_ ?_
  · intro shard snaps he s hs
    rw [hread shard snaps he] at hs
    exact absurd hs List.not_mem_nil
  · intro s hs ho
    rw [hlive] at hs
    rw [hcell]
    exact hm.fits s hs ho
  · intro m
    rw [hcell]
    exact hm.ackedBelow m
  · intro m
    rw [hcell, hrow]
    exact hm.below m
  · intro m base _
    rw [view_flight (by rw [hcell]) (by rw [hcell]) (hrow m) base, hflight]
    exact Step.stay _

/-- Refunds take no tokens. -/
theorem tally_refundEvents_tokens (k now : Nat) (cells : Cells) (b : String × String) (model : String)
    (tier : Tier) : tally id W (.tokens model tier) (Node.refundEvents k now cells b) = 0 := by
  unfold Node.refundEvents
  split
  · split
    · rw [tally_cons, tally_nil, Int.add_zero]
      refine if_neg (fun h => ?_)
      cases h.2.2
    · rfl
  · rfl

/-- **The step lemma.** -/
theorem mirrored_step {r : NodeRun} {op : NodeOp} (hm : Mirrored id W r) (hc : r.node.Carries cost id W op) :
    Mirrored id W (r.step cost op) := by
  obtain ⟨n, h⟩ := r
  obtain ⟨hleaves, hlands, hspares, hbelow⟩ := hc
  show Mirrored id W ⟨n.step cost op, h ++ n.events cost op⟩
  have hcur := fun m => (hbelow m).1
  have heff := n.effect cost op
  generalize n.step cost op = n' at *
  generalize n.events cost op = ev at *
  cases heff with
  | idle hcells husage hflush =>
    refine hm.idle hcells (fun m => ?_) hflush
    unfold Node.row MemoryStore.getUsage
    rw [husage]
  | swept shard now hop hcells hstore hflush => exact hm.swept hcells hflush hstore hleaves
  | locked k c hop hcall hphase hcells hstore hflush =>
    exact hm.admitted hcells rfl hflush hstore hleaves hlands hcur
  | accrued key pool i model tokens now b hop hb hcells hstore hflush =>
    have hcell : n'.cellOf id W = held W ((accrueBucket n.cells b.1 b.2 model tokens now).lookup id) := by
      unfold Node.cellOf
      rw [hcells]
    refine hm.touched hflush hstore hleaves hlands hcur ?_ ?_
    · intro model' tier
      rw [tally_cons, tally_nil, Int.add_zero]
      exact accrual_nonneg model tokens _ b.1 _
    · intro hstay m
      have hb := hcur m
      rw [hcell] at hstay hb ⊢
      rw [tally_cons, tally_nil, Int.add_zero]
      exact accrueBucket_spec (hm.below m).1 hb hstay
  | refunded k c i b hop hcall hb hcells hstore hflush =>
    have hcell : n'.cellOf id W = held W ((refundBucket n.cells b.1 b.2 c.now).lookup id) := by
      unfold Node.cellOf
      rw [hcells]
    have hspec := fun m => refundBucket_spec id W n.cells b.1 b.2 c.now k m
    refine hm.touched hflush hstore hleaves hlands hcur ?_ ?_
    · intro model tier
      refine Int.le_of_eq (tally_refundEvents_tokens k c.now n.cells b model tier).symm
    · intro _ m
      rw [hcell]
      exact ⟨(hspec m).1, (hspec m).2.1⟩
  | started h hcells hstore hflush =>
    refine hm.turn hcells hstore (by rw [h, hflush]; rfl) (by rw [h, hflush]; rfl)
      (fun m base => by rw [h, hflush]; rfl) ?_
    intro shard snaps he
    rw [hflush] at he
    cases he
    rfl
  | read shard snaps h hcells hstore hflush => exact hm.readShard h hcells hstore hflush
  | readAll shard snaps h hlast hcells hstore hflush =>
    refine hm.turn hcells hstore (by rw [h, hflush]; rfl) (by rw [h, hflush]; rfl)
      (fun m base => by rw [h, hflush]; rfl) ?_
    intro shard' snaps' he
    rw [hflush] at he
    cases he
  | wrote pick ok s snaps hop h hpick hcells hstore hflush =>
    refine hm.writeSnap h hpick hcells hstore hflush ?_ (fun m => (hbelow m).2)
    intro hok hz
    refine hspares ?_
    subst hop hok
    unfold Node.writes
    rw [h]
    simp [hpick, hz]
  | settled s ok snaps h hcells hstore hflush => exact hm.settleSnap h hcells hstore hflush
  | ended h hcells hstore hflush =>
    refine hm.turn hcells hstore (by rw [h, hflush]; rfl) (by rw [h, hflush]; rfl)
      (fun m base => by rw [h, hflush]; rfl) ?_
    intro shard' snaps' he
    rw [hflush] at he
    cases he

/-- A node as it boots: no cells, no flush, and no row of the (bucket, window) yet. -/
structure Node.Boots (n : Node) (id : String) (W : Nat) : Prop where
  cells : n.cells = Registry.empty
  flush : n.flush = .idle
  row : n.store.usage.lookup (id, W) = none

theorem mirrored_boot {n : Node} (hn : n.Boots id W) : Mirrored id W (NodeRun.start n) := by
  have hcell : n.cellOf id W = none := by
    unfold Node.cellOf
    rw [hn.cells]
    rfl
  have hrow : ∀ m, n.row id W m = 0 := by
    intro m
    unfold Node.row MemoryStore.getUsage
    rw [hn.row]
    exact meter_default m
  refine ⟨⟨?_, ?_⟩, ?_, ?_, ?_, ?_⟩
  · show (n.flush.inFlight.map DirtySnap.bucketId).Nodup
    rw [hn.flush]
    exact List.nodup_nil
  · intro shard snaps he
    have he' : n.flush = .reading shard snaps := he
    rw [hn.flush] at he'
    cases he'
  · intro s hs
    have hs' : s ∈ n.flush.live := hs
    rw [hn.flush] at hs'
    exact absurd hs' List.not_mem_nil
  · intro m
    show ackedOf (n.cellOf id W) m < i64Max
    rw [hcell]
    exact (by decide : (0 : Int) < i64Max)
  · intro m
    show curOf (n.cellOf id W) m < i64Max ∧ (n.row id W m : Int) < i64Max
    rw [hcell, hrow]
    exact (by decide : (0 : Int) < i64Max ∧ ((0 : Nat) : Int) < i64Max)
  · intro m
    refine ⟨0, ?_⟩
    have hview : n.view id W m 0 = WriteBehind.State.init := by
      unfold Node.view
      rw [hcell, hrow, hn.flush]
      rfl
    show Reach (n.view id W m 0) 0
    rw [hview]
    exact Reach.init

/-- The operations of a run carry the (bucket, window), step by step. -/
def CarriedAlong (cost : CostModel) (id : String) (W : Nat) (n : Node) (ops : List NodeOp) : Prop :=
  Run.Along (fun pre op => (NodeRun.after cost n pre).node.Carries cost id W op) ops

/-- **The run lemma.** -/
theorem mirrored_after {n : Node} (hm : Mirrored id W (NodeRun.start n)) {ops : List NodeOp}
    (hc : CarriedAlong cost id W n ops) : Mirrored id W (NodeRun.after cost n ops) := by
  refine Run.Along.invariant (I := fun ops => Mirrored id W (NodeRun.after cost n ops)) hm ?_ hc
  intro pre op ih hop
  rw [NodeRun.after_snoc]
  exact mirrored_step ih hop

/-- What a flush has written of a meter and not yet acknowledged. -/
def Node.underWay (n : Node) (id : String) (W : Nat) (m : Meter) : Int :=
  match n.flush with
  | .settling s true _ => if s.IsOf id W then s.delta.meter m else 0
  | _ => 0

/-- **Conservation.** Durable and unflushed add up to what was ledgered, with a difference that is written
and not yet acknowledged on both sides. -/
theorem Mirrored.conserved {r : NodeRun} (hm : Mirrored id W r) (m : Meter) :
    (r.node.row id W m : Int) + (curOf (r.node.cellOf id W) m - ackedOf (r.node.cellOf id W) m) =
      tally id W m r.history + r.node.underWay id W m := by
  obtain ⟨base, hr⟩ := hm.reach m
  have hcons := hr.conserved
  have hunder : (r.node.view id W m base).underWay = r.node.underWay id W m := by
    have hun : ∀ l, r.node.flush.flight id W m base = unwrittenFlight id W m base l →
        (r.node.view id W m base).underWay = 0 := by
      intro l hl
      unfold unwrittenFlight at hl
      rcases hf : l.find? (fun s => s.IsOf id W) with _ | s
      · rw [hf] at hl
        exact WriteBehind.State.underWay_none hl
      · rw [hf] at hl
        exact WriteBehind.State.underWay_read hl
    unfold Node.underWay
    rcases hph : r.node.flush with _ | ⟨shard, snaps⟩ | snaps | ⟨s, ok, snaps⟩
    · exact hun [] (by rw [hph]; rfl)
    · exact hun snaps (by rw [hph]; rfl)
    · exact hun snaps (by rw [hph]; rfl)
    · cases ok with
      | false => exact hun snaps (by rw [hph]; rfl)
      | true =>
        dsimp only
        by_cases ho : s.IsOf id W
        · obtain ⟨c, hc, hfit⟩ := hm.fits s (by rw [hph]; exact List.mem_cons_self) ho
          have hfl : (r.node.view id W m base).flight = .written ((base : Int) + s.cur m) := by
            show r.node.flush.flight id W m base = _
            rw [hph]
            exact if_pos ho
          rw [if_pos ho, hfit.delta, WriteBehind.State.underWay_written hfl]
          show (base : Int) + s.cur m - (base + ackedOf (r.node.cellOf id W) m) = _
          rw [hc]
          show (base : Int) + s.cur m - (base + c.acked m) = _
          omega
        · rw [if_neg ho]
          exact hun snaps (by rw [hph]; exact if_neg ho)
  rw [hunder] at hcons
  rw [← hcons]
  show (r.node.row id W m : Int) + _ = r.node.row id W m + ((base : Int) + curOf (r.node.cellOf id W) m -
    (base + ackedOf (r.node.cellOf id W) m))
  omega

end Busbar
