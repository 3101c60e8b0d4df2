import Busbar.Ir
import Busbar.Lib.Parcels
import Busbar.Store.Memory
import Mathlib.Algebra.Group.Pi.Basic

/-!
# Metering

The raw consumption of every response, by key, day, model and provider. Requests add to a pending map; a flush takes
the whole map and writes it to the store entry by entry, and puts an entry the store refused back under whatever has been
recorded meanwhile. Any number of flushes run at a time.

* `Metering.step`: recording, and the sections of a flush.
* `view`: what is pending, what running flushes hold, what the store accepted.
* `step_parcels`: every step whose additions fit the counters moves these amounts without loss.
* `metering_conserved`: the counts recorded are written, pending or held.
* `row_of_accepted`: the store's row holds what the store accepted for it until a sweep reaches its day.
-/

namespace Busbar

open Run

/-- What metering rows are filed under: key, day, model and provider. -/
structure MeterKey where
  keyId : String
  bucket : Nat
  model : String
  provider : String
  deriving DecidableEq, Repr

structure MeterCounts where
  requests : Nat
  tokensInput : Nat
  tokensOutput : Nat
  tokensCacheRead : Nat
  tokensCacheWrite : Nat
  deriving DecidableEq, Repr

namespace MeterCounts

def default : MeterCounts := ⟨0, 0, 0, 0, 0⟩

def isZero (c : MeterCounts) : Bool :=
  c.requests == 0 && c.tokensInput == 0 && c.tokensOutput == 0 && c.tokensCacheRead == 0 && c.tokensCacheWrite == 0

/-- Counter by counter, saturating. -/
def add (a b : MeterCounts) : MeterCounts where
  requests := satAdd a.requests b.requests
  tokensInput := satAdd a.tokensInput b.tokensInput
  tokensOutput := satAdd a.tokensOutput b.tokensOutput
  tokensCacheRead := satAdd a.tokensCacheRead b.tokensCacheRead
  tokensCacheWrite := satAdd a.tokensCacheWrite b.tokensCacheWrite

end MeterCounts

def meteringBucketSecs : Nat := 86400

/-- The start of the day. -/
def meteringBucket (now : Nat) : Nat := now - now % meteringBucketSecs

/-! ## The store's side -/

structure MeteringDelta where
  keyId : String
  bucket : Nat
  model : String
  provider : String
  tokensInput : Nat
  tokensOutput : Nat
  tokensCacheRead : Nat
  tokensCacheWrite : Nat
  requests : Nat
  billableRequests : Nat
  keyGroupAtUse : String
  pricingVersion : String
  deriving DecidableEq, Repr

structure MeteringRow where
  keyId : String
  model : String
  provider : String
  tokensInput : Nat
  tokensOutput : Nat
  tokensCacheRead : Nat
  tokensCacheWrite : Nat
  requests : Nat
  billableRequests : Nat
  keyGroupAtUse : String
  pricingVersion : String
  deriving DecidableEq, Repr

def MeteringDelta.key (d : MeteringDelta) : MeterKey := ⟨d.keyId, d.bucket, d.model, d.provider⟩

/-- The metering map of the in-memory store, with its sweep's ticker and clock. -/
structure MeteringStore where
  rows : Table MeterKey MeteringRow
  sweepTicker : Nat
  clock : Nat

def MeteringRow.accumulate (e : MeteringRow) (d : MeteringDelta) : MeteringRow :=
  { e with
    tokensInput := satAdd e.tokensInput d.tokensInput
    tokensOutput := satAdd e.tokensOutput d.tokensOutput
    tokensCacheRead := satAdd e.tokensCacheRead d.tokensCacheRead
    tokensCacheWrite := satAdd e.tokensCacheWrite d.tokensCacheWrite
    requests := satAdd e.requests d.requests
    billableRequests := satAdd e.billableRequests d.billableRequests }

namespace MeteringStore

def new : MeteringStore := ⟨Registry.empty, 0, 0⟩

/-- The row a delta starts. -/
def freshRow (d : MeteringDelta) : MeteringRow where
  keyId := d.keyId
  model := d.model
  provider := d.provider
  tokensInput := 0
  tokensOutput := 0
  tokensCacheRead := 0
  tokensCacheWrite := 0
  requests := 0
  billableRequests := 0
  keyGroupAtUse := d.keyGroupAtUse
  pricingVersion := d.pricingVersion

def addMetering (s : MeteringStore) (d : MeteringDelta) : MeteringStore :=
  let rows := s.rows.insert d.key (((s.rows.lookup d.key).getD (freshRow d)).accumulate d)
  let ticker := s.sweepTicker + 1
  let rows :=
    if ticker % sweepInterval = 0 then
      Registry.retain (fun r => decide (s.clock < satAdd r.1.bucket maxRetentionSecs)) rows
    else rows
  { s with rows := rows, sweepTicker := ticker }

end MeteringStore

/-! ## The engine's side -/

/-- What one response consumed; without a usage it still counts as a request. -/
def consumed (usage : Option IrUsage) : MeterCounts where
  requests := 1
  tokensInput := (usage.map (fun u => u.inputTokens)).getD 0
  tokensOutput := (usage.map (fun u => u.outputTokens)).getD 0
  tokensCacheRead := (usage.bind (fun u => u.cacheReadInputTokens)).getD 0
  tokensCacheWrite := (usage.bind (fun u => u.cacheCreationInputTokens)).getD 0

def MeterCounts.delta (key : MeterKey) (c : MeterCounts) : MeteringDelta where
  keyId := key.keyId
  bucket := key.bucket
  model := key.model
  provider := key.provider
  tokensInput := c.tokensInput
  tokensOutput := c.tokensOutput
  tokensCacheRead := c.tokensCacheRead
  tokensCacheWrite := c.tokensCacheWrite
  requests := c.requests
  billableRequests := c.requests
  keyGroupAtUse := ""
  pricingVersion := ""

/-- A running `flush_metering`: the entries it has not come to, the one it is about to put back, and how many the store
has accepted. -/
structure MeteringFlush where
  taken : List (MeterKey × MeterCounts)
  returning : Option (MeterKey × MeterCounts)
  flushed : Nat

/-- The pending map, the running flushes and the store; `accepted` keeps the deltas of the calls that succeeded. -/
structure Metering where
  pending : Table MeterKey MeterCounts
  running : List MeteringFlush
  store : MeteringStore
  accepted : List MeteringDelta

inductive MeterOp where
  | record (keyId model provider : String) (usage : Option IrUsage) (now : Nat)
  /-- a flush takes the map -/
  | flush
  /-- the flush comes to one of its entries, with the clock the store's sweep reads and the outcome of the call -/
  | write (flush entry now : Nat) (ok : Bool)
  /-- the flush puts the refused entry back -/
  | giveBack (flush : Nat)
  deriving DecidableEq, Repr

namespace Metering

def new : Metering := ⟨Registry.empty, [], .new, []⟩

/-- Add to the pending entry of a key. -/
def addPending (s : Metering) (key : MeterKey) (c : MeterCounts) : Metering :=
  { s with pending := s.pending.insert key (((s.pending.lookup key).getD .default).add c) }

def recordMetering (s : Metering) (keyId model provider : String) (usage : Option IrUsage) (now : Nat) : Metering :=
  s.addPending ⟨keyId, meteringBucket now, model, provider⟩ (consumed usage)

/-- One entry of a flush's loop, up to the point where a refused one is put back. -/
def writeEntry (s : Metering) (i j now : Nat) (ok : Bool) (f : MeteringFlush) (e : MeterKey × MeterCounts) : Metering :=
  let f := { f with taken := f.taken.eraseIdx j }
  if e.2.isZero then { s with running := s.running.set i f }
  else if ok then
    { s with
      running := s.running.set i { f with flushed := f.flushed + 1 }
      store := { s.store with clock := now }.addMetering (e.2.delta e.1)
      accepted := s.accepted ++ [e.2.delta e.1] }
  else { s with running := s.running.set i { f with returning := some e } }

def step (s : Metering) : MeterOp → Metering
  | .record keyId model provider usage now => s.recordMetering keyId model provider usage now
  | .flush => { s with pending := Registry.empty, running := s.running ++ [⟨s.pending.rows, none, 0⟩] }
  | .write i j now ok =>
    match s.running[i]? with
    | none => s
    | some f =>
      match f.returning, f.taken[j]? with
      | none, some e => s.writeEntry i j now ok f e
      | _, _ => s
  | .giveBack i =>
    match s.running[i]? with
    | none => s
    | some f =>
      match f.returning with
      | none => s
      | some e => { s.addPending e.1 e.2 with running := s.running.set i { f with returning := none } }

end Metering

/-! ## Amounts -/

inductive MeterField where
  | requests | tokensInput | tokensOutput | tokensCacheRead | tokensCacheWrite
  deriving DecidableEq, Repr

def MeterCounts.get (c : MeterCounts) : MeterField → Nat
  | .requests => c.requests
  | .tokensInput => c.tokensInput
  | .tokensOutput => c.tokensOutput
  | .tokensCacheRead => c.tokensCacheRead
  | .tokensCacheWrite => c.tokensCacheWrite

def MeteringDelta.counts (d : MeteringDelta) : MeterCounts where
  requests := d.requests
  tokensInput := d.tokensInput
  tokensOutput := d.tokensOutput
  tokensCacheRead := d.tokensCacheRead
  tokensCacheWrite := d.tokensCacheWrite

def MeteringRow.counts (e : MeteringRow) : MeterCounts where
  requests := e.requests
  tokensInput := e.tokensInput
  tokensOutput := e.tokensOutput
  tokensCacheRead := e.tokensCacheRead
  tokensCacheWrite := e.tokensCacheWrite

/-- A reading of every counter of every key. -/
abbrev Amounts := MeterKey → MeterField → Nat

def single (key : MeterKey) (c : MeterCounts) : Amounts := fun key' f => if key = key' then c.get f else 0

/-- The sum of some entries. -/
def metered (entries : List (MeterKey × MeterCounts)) : Amounts := (entries.map (fun e => single e.1 e.2)).sum

/-- No counter of the sum is past its bound. -/
def MeterCounts.Fits (a b : MeterCounts) : Prop := ∀ f, a.get f + b.get f ≤ u64Max

instance (a b : MeterCounts) : Decidable (a.Fits b) :=
  decidable_of_iff (a.requests + b.requests ≤ u64Max ∧ a.tokensInput + b.tokensInput ≤ u64Max ∧
      a.tokensOutput + b.tokensOutput ≤ u64Max ∧ a.tokensCacheRead + b.tokensCacheRead ≤ u64Max ∧
      a.tokensCacheWrite + b.tokensCacheWrite ≤ u64Max) (by
    constructor
    · rintro ⟨hr, hi, ho, hcr, hcw⟩ f
      cases f
      · exact hr
      · exact hi
      · exact ho
      · exact hcr
      · exact hcw
    · intro h
      exact ⟨h .requests, h .tokensInput, h .tokensOutput, h .tokensCacheRead, h .tokensCacheWrite⟩)

@[simp] theorem get_default (f : MeterField) : MeterCounts.default.get f = 0 := by
  cases f <;> rfl

theorem get_add (a b : MeterCounts) (f : MeterField) : (a.add b).get f = satAdd (a.get f) (b.get f) := by
  cases f <;> rfl

theorem get_add_of_fits {a b : MeterCounts} (h : a.Fits b) (f : MeterField) : (a.add b).get f = a.get f + b.get f := by
  have hf := h f
  rw [get_add]
  unfold satAdd
  omega

theorem get_of_isZero {c : MeterCounts} (h : c.isZero = true) (f : MeterField) : c.get f = 0 := by
  unfold MeterCounts.isZero at h
  simp only [Bool.and_eq_true, beq_iff_eq] at h
  obtain ⟨⟨⟨⟨hr, hi⟩, ho⟩, hcr⟩, hcw⟩ := h
  cases f
  · exact hr
  · exact hi
  · exact ho
  · exact hcr
  · exact hcw

theorem single_of_isZero {c : MeterCounts} (h : c.isZero = true) (key : MeterKey) : single key c = 0 := by
  funext key' f
  unfold single
  rw [get_of_isZero h]
  exact ite_self 0

theorem metered_perm {l l' : List (MeterKey × MeterCounts)} (h : l.Perm l') : metered l = metered l' :=
  (h.map _).sum_eq

theorem metered_cons (e : MeterKey × MeterCounts) (l : List (MeterKey × MeterCounts)) :
    metered (e :: l) = single e.1 e.2 + metered l := by
  unfold metered
  rw [List.map_cons, List.sum_cons]

/-- Taking an entry out of a list takes its amounts out of the sum. -/
theorem metered_eraseIdx {l : List (MeterKey × MeterCounts)} {j : Nat} {e : MeterKey × MeterCounts}
    (h : l[j]? = some e) : metered l = single e.1 e.2 + metered (l.eraseIdx j) := by
  obtain ⟨hj, rfl⟩ := List.getElem?_eq_some_iff.1 h
  rw [← metered_cons]
  exact metered_perm (List.getElem_cons_eraseIdx_perm hj).symm

theorem metered_nil_of_key {l : List (MeterKey × MeterCounts)} {key : MeterKey} (h : key ∉ l.map Prod.fst)
    (f : MeterField) : metered l key f = 0 := by
  induction l with
  | nil => rfl
  | cons e l ih =>
    rw [List.map_cons, List.mem_cons, not_or] at h
    rw [metered_cons, Pi.add_apply, Pi.add_apply, ih h.2]
    unfold single
    rw [if_neg (fun he => h.1 he.symm)]

/-- The sum of a table's rows is what a lookup finds. -/
theorem metered_rows (T : Table MeterKey MeterCounts) (key : MeterKey) (f : MeterField) :
    metered T.rows key f = ((T.lookup key).getD .default).get f := by
  rcases hl : T.lookup key with _ | c
  · have hno : key ∉ T.rows.map Prod.fst := by
      intro hmem
      obtain ⟨e, he, hk⟩ := List.mem_map.1 hmem
      exact Table.lookup_eq_none.1 hl e he hk
    rw [metered_nil_of_key hno, Option.getD_none, get_default]
  · obtain ⟨l, l', hrows⟩ := List.append_of_mem (Table.lookup_eq_some.1 hl)
    have hperm : T.rows.Perm ((key, c) :: (l ++ l')) := by
      rw [hrows]
      exact List.perm_middle
    have hnd := (hperm.map Prod.fst).nodup_iff.1 T.nodup
    rw [List.map_cons, List.nodup_cons] at hnd
    rw [metered_perm hperm, metered_cons, Pi.add_apply, Pi.add_apply, metered_nil_of_key hnd.1]
    unfold single
    rw [if_pos rfl, Option.getD_some, Nat.add_zero]

/-! ## Where the amounts are -/

def MeteringFlush.held (f : MeteringFlush) : Amounts := metered f.taken + metered f.returning.toList

namespace Metering

/-- The counts still pending. -/
def pendingOf (s : Metering) : Amounts := fun key f => ((s.pending.lookup key).getD .default).get f

/-- The counts held by running flushes. -/
def held (s : Metering) : Amounts := (s.running.map MeteringFlush.held).sum

/-- The counts written to the store. -/
def written (s : Metering) : Amounts := (s.accepted.map (fun d => single d.key d.counts)).sum

/-- The three places as parcels. -/
def view (s : Metering) : Parcels.State Amounts := ⟨s.pendingOf, s.held, s.written⟩

end Metering

/-- What an operation records. -/
def MeterOp.amount : MeterOp → Amounts
  | .record keyId model provider usage now => single ⟨keyId, meteringBucket now, model, provider⟩ (consumed usage)
  | _ => 0

/-- The counts recorded in a run. -/
def recordedCounts (ops : List MeterOp) : Amounts := (ops.map MeterOp.amount).sum

namespace Metering

/-- The row of a key in the store. -/
def rowOf (s : Metering) (key : MeterKey) : MeterCounts := ((s.store.rows.lookup key).map MeteringRow.counts).getD .default

/-- No addition of the step saturates: to a pending entry, and to the store's row. -/
def Exact (s : Metering) : MeterOp → Prop
  | .record keyId model provider usage now =>
    ((s.pending.lookup ⟨keyId, meteringBucket now, model, provider⟩).getD .default).Fits (consumed usage)
  | .flush => True
  | .write i j _ ok => ∀ f ∈ s.running[i]?, ∀ e ∈ f.taken[j]?, ok = true → (s.rowOf e.1).Fits e.2
  | .giveBack i => ∀ f ∈ s.running[i]?, ∀ e ∈ f.returning, ((s.pending.lookup e.1).getD .default).Fits e.2

instance (s : Metering) (op : MeterOp) : Decidable (s.Exact op) := by
  cases op <;> unfold Exact <;> infer_instance

/-- A flush that has moved on, among the others. -/
theorem held_set {s : Metering} {i : Nat} {f : MeteringFlush} (f' : MeteringFlush) (h : s.running[i]? = some f) :
    ∃ rest : Amounts, s.held = f.held + rest ∧
      ∀ s' : Metering, s'.running = s.running.set i f' → s'.held = f'.held + rest := by
  obtain ⟨hi, rfl⟩ := List.getElem?_eq_some_iff.1 h
  refine ⟨((s.running.eraseIdx i).map MeteringFlush.held).sum, ?_, ?_⟩
  · have hperm := ((List.getElem_cons_eraseIdx_perm hi).map MeteringFlush.held).sum_eq
    rw [List.map_cons, List.sum_cons] at hperm
    exact hperm.symm
  · intro s' hs'
    have hperm := ((List.set_perm_cons_eraseIdx hi f').map MeteringFlush.held).sum_eq
    rw [List.map_cons, List.sum_cons] at hperm
    unfold held
    rw [hs', hperm]

theorem pendingOf_addPending {s : Metering} {key : MeterKey} {c : MeterCounts}
    (h : ((s.pending.lookup key).getD .default).Fits c) :
    (s.addPending key c).pendingOf = s.pendingOf + single key c := by
  funext key' f
  rw [Pi.add_apply, Pi.add_apply]
  unfold pendingOf addPending single
  dsimp only
  rw [Table.lookup_insert]
  by_cases hk : key = key'
  · rw [if_pos hk, if_pos hk, ← hk, Option.getD_some, get_add_of_fits h]
  · rw [if_neg hk, if_neg hk, Nat.add_zero]

theorem held_flush (s : Metering) : (s.step .flush).held = s.held + s.pendingOf := by
  have hnew : MeteringFlush.held ⟨s.pending.rows, none, 0⟩ = s.pendingOf := by
    funext key f
    unfold MeteringFlush.held
    rw [Option.toList_none]
    show metered s.pending.rows key f + 0 = s.pendingOf key f
    rw [Nat.add_zero, metered_rows]
    rfl
  show ((s.running ++ [({ taken := s.pending.rows, returning := none, flushed := 0 } : MeteringFlush)]).map
    MeteringFlush.held).sum = s.held + s.pendingOf
  rw [List.map_append, List.sum_append, List.map_singleton, List.sum_singleton, hnew]
  rfl

theorem written_snoc {s s' : Metering} {key : MeterKey} {c : MeterCounts}
    (h : s'.accepted = s.accepted ++ [c.delta key]) : s'.written = s.written + single key c := by
  unfold written
  rw [h, List.map_append, List.sum_append, List.map_singleton, List.sum_singleton]
  rfl

/-- **One entry of a flush's loop.** An entry without counts is passed over, an accepted one is delivered, and a refused
one stays with the flush. -/
theorem writeEntry_parcels {s : Metering} {i j now : Nat} {ok : Bool} {f : MeteringFlush} {e : MeterKey × MeterCounts}
    (hf : s.running[i]? = some f) (hr : f.returning = none) (he : f.taken[j]? = some e) :
    Parcels.Step s.view 0 (s.writeEntry i j now ok f e).view := by
  have hheld : f.held = single e.1 e.2 + metered (f.taken.eraseIdx j) := by
    unfold MeteringFlush.held
    rw [hr, metered_eraseIdx he]
    exact add_zero _
  have hleft : ∀ n, MeteringFlush.held ⟨f.taken.eraseIdx j, none, n⟩ = metered (f.taken.eraseIdx j) := fun _ => add_zero _
  unfold writeEntry
  dsimp only
  rw [hr]
  by_cases hz : e.2.isZero = true
  · rw [if_pos hz]
    obtain ⟨rest, hs, hset⟩ := held_set ⟨f.taken.eraseIdx j, none, f.flushed⟩ hf
    refine .stay rfl ?_ rfl
    show Metering.held _ = s.held
    rw [hset _ rfl, hs, hheld, hleft, single_of_isZero hz, zero_add]
  · rw [if_neg hz]
    cases ok with
    | true =>
      obtain ⟨rest, hs, hset⟩ := held_set ⟨f.taken.eraseIdx j, none, f.flushed + 1⟩ hf
      refine .deliver (a := single e.1 e.2) rfl ?_ (written_snoc rfl)
      calc s.held = single e.1 e.2 + (metered (f.taken.eraseIdx j) + rest) := by rw [hs, hheld, add_assoc]
        _ = single e.1 e.2 + (MeteringFlush.held ⟨f.taken.eraseIdx j, none, f.flushed + 1⟩ + rest) := by rw [hleft]
        _ = _ := congrArg (single e.1 e.2 + ·) (hset _ rfl).symm
    | false =>
      obtain ⟨rest, hs, hset⟩ := held_set ⟨f.taken.eraseIdx j, some e, f.flushed⟩ hf
      refine .stay rfl ?_ rfl
      show Metering.held _ = s.held
      have hback : MeteringFlush.held ⟨f.taken.eraseIdx j, some e, f.flushed⟩ = f.held := by
        have hone : metered [e] = single e.1 e.2 := (metered_cons e []).trans (add_zero _)
        unfold MeteringFlush.held
        rw [Option.toList_some, hone, add_comm]
        exact hheld.symm
      rw [hset _ rfl, hs, hback]

/-- The flush comes to an entry, or there is nothing to do. -/
theorem write_cases (s : Metering) (i j now : Nat) (ok : Bool) :
    s.step (.write i j now ok) = s ∨ ∃ f e, s.running[i]? = some f ∧ f.returning = none ∧ f.taken[j]? = some e ∧
      s.step (.write i j now ok) = s.writeEntry i j now ok f e := by
  unfold step
  dsimp only
  rcases hf : s.running[i]? with _ | f
  · exact Or.inl rfl
  · dsimp only
    rcases hr : f.returning with _ | e
    · rcases he : f.taken[j]? with _ | e
      · exact Or.inl rfl
      · exact Or.inr ⟨f, e, rfl, hr, he, rfl⟩
    · exact Or.inl rfl

/-- The flush puts an entry back, or there is nothing to do. -/
theorem giveBack_cases (s : Metering) (i : Nat) :
    s.step (.giveBack i) = s ∨ ∃ f e, s.running[i]? = some f ∧ f.returning = some e ∧
      s.step (.giveBack i) = { s.addPending e.1 e.2 with running := s.running.set i { f with returning := none } } := by
  unfold step
  dsimp only
  rcases hf : s.running[i]? with _ | f
  · exact Or.inl rfl
  · dsimp only
    rcases hr : f.returning with _ | e
    · exact Or.inl rfl
    · exact Or.inr ⟨f, e, rfl, hr, rfl⟩

/-- **Every step without saturation is a step of parcels.** -/
theorem step_parcels {s : Metering} {op : MeterOp} (h : s.Exact op) :
    Parcels.Step s.view op.amount (s.step op).view := by
  cases op with
  | record keyId model provider usage now => exact .collect (pendingOf_addPending h) rfl rfl
  | flush =>
    have hempty : (s.step .flush).pendingOf = 0 := by
      funext key f
      exact get_default f
    exact .take hempty (held_flush s) rfl
  | write i j now ok =>
    rcases write_cases s i j now ok with hs | ⟨f, e, hf, hr, he, hs⟩
    · rw [hs]
      exact .stay rfl rfl rfl
    · rw [hs]
      exact writeEntry_parcels hf hr he
  | giveBack i =>
    rcases giveBack_cases s i with hs | ⟨f, e, hf, hr, hs⟩
    · rw [hs]
      exact .stay rfl rfl rfl
    · rw [hs]
      obtain ⟨rest, hheld, hset⟩ := held_set ⟨f.taken, none, f.flushed⟩ hf
      have hone : metered [e] = single e.1 e.2 := (metered_cons e []).trans (add_zero _)
      have hflush : f.held = single e.1 e.2 + MeteringFlush.held ⟨f.taken, none, f.flushed⟩ := by
        unfold MeteringFlush.held
        rw [hr, Option.toList_some, hone, Option.toList_none, add_comm]
        exact congrArg (single e.1 e.2 + ·) (add_zero _).symm
      refine .giveBack (a := single e.1 e.2) (pendingOf_addPending (h f hf e hr)) ?_ rfl
      calc s.held = single e.1 e.2 + (MeteringFlush.held ⟨f.taken, none, f.flushed⟩ + rest) := by
            rw [hheld, hflush, add_assoc]
        _ = _ := congrArg (single e.1 e.2 + ·) (hset _ rfl).symm

/-! ## The store's rows -/

/-- The step's call, if it sweeps, does so before a day's rows are too old. -/
def SparesDay (bucket : Nat) (s : Metering) : MeterOp → Prop
  | .write _ _ now _ => (s.store.sweepTicker + 1) % sweepInterval = 0 → now < satAdd bucket maxRetentionSecs
  | _ => True

theorem counts_accumulate (e : MeteringRow) (d : MeteringDelta) : (e.accumulate d).counts = e.counts.add d.counts := rfl

/-- A row after a call whose sweep spares it. -/
theorem rowOf_addMetering {st : MeteringStore} {d : MeteringDelta} {key : MeterKey}
    (hs : (st.sweepTicker + 1) % sweepInterval = 0 → st.clock < satAdd key.bucket maxRetentionSecs) :
    (((st.addMetering d).rows.lookup key).map MeteringRow.counts).getD .default =
      if d.key = key then (((st.rows.lookup key).map MeteringRow.counts).getD .default).add d.counts
      else ((st.rows.lookup key).map MeteringRow.counts).getD .default := by
  obtain ⟨T, hT⟩ : ∃ T, T = st.rows.insert d.key (((st.rows.lookup d.key).getD (MeteringStore.freshRow d)).accumulate d) :=
    ⟨_, rfl⟩
  have hins : ((T.lookup key).map MeteringRow.counts).getD .default =
      if d.key = key then (((st.rows.lookup key).map MeteringRow.counts).getD .default).add d.counts
      else ((st.rows.lookup key).map MeteringRow.counts).getD .default := by
    rw [hT, Table.lookup_insert]
    by_cases hk : d.key = key
    · rw [if_pos hk, if_pos hk, ← hk]
      cases st.rows.lookup d.key <;> rfl
    · rw [if_neg hk, if_neg hk]
  have hrows : (st.addMetering d).rows =
      if (st.sweepTicker + 1) % sweepInterval = 0 then
        Registry.retain (fun r => decide (st.clock < satAdd r.1.bucket maxRetentionSecs)) T
      else T := by
    rw [hT]
    rfl
  rw [hrows, ← hins]
  split
  · rename_i hdue
    rw [Table.lookup_retain]
    rcases T.lookup key with _ | e
    · rfl
    · simp [Option.filter_some, hs hdue]
  · rfl

/-- **What the store accepted is in its row**, step by step. -/
theorem rowOf_step {s : Metering} {op : MeterOp} {key : MeterKey} (hexact : s.Exact op) (hspares : SparesDay key.bucket s op)
    (h : ∀ f, (s.rowOf key).get f = s.written key f) (f : MeterField) :
    ((s.step op).rowOf key).get f = (s.step op).written key f := by
  cases op with
  | record keyId model provider usage now => exact h f
  | flush => exact h f
  | write i j now ok =>
    rcases write_cases s i j now ok with hs | ⟨fl, e, hfl, -, he, hs⟩
    · rw [hs]
      exact h f
    · rw [hs]
      unfold writeEntry
      dsimp only
      by_cases hz : e.2.isZero = true
      · rw [if_pos hz]
        exact h f
      · rw [if_neg hz]
        cases ok with
        | false => exact h f
        | true =>
          have hrow := @rowOf_addMetering { s.store with clock := now } (e.2.delta e.1) key hspares
          have hkey : (e.2.delta e.1).key = e.1 := rfl
          rw [hkey] at hrow
          rw [if_pos rfl, @written_snoc s _ e.1 e.2 rfl, Pi.add_apply, Pi.add_apply, ← h f]
          unfold rowOf
          rw [hrow]
          unfold single
          by_cases hk : e.1 = key
          · have hfits := hexact fl hfl e he rfl
            rw [hk] at hfits
            rw [if_pos hk, if_pos hk]
            exact get_add_of_fits hfits f
          · rw [if_neg hk, if_neg hk]
            rfl
  | giveBack i =>
    rcases giveBack_cases s i with hs | ⟨fl, e, -, -, hs⟩
    · rw [hs]
      exact h f
    · rw [hs]
      exact h f

/-! ## Every interleaving -/

theorem view_new : new.view = Parcels.State.init := by
  have hnone : new.pendingOf = 0 := by
    funext key f
    exact get_default f
  unfold view
  rw [hnone]
  rfl

/-- **Metering is delivered exactly once.** At every point of every interleaving in which no counter saturates, the
counts written, pending and held by running flushes are the counts recorded; and the store's row holds the counts
written for it, as long as no sweep has reached its day. -/
theorem metering_conserved (ops : List MeterOp)
    (h : Along (fun pre op => (exec step new pre).Exact op) ops) (key : MeterKey) (f : MeterField) :
    (exec step new ops).written key f + (exec step new ops).pendingOf key f + (exec step new ops).held key f =
        recordedCounts ops key f ∧
      (Along (fun pre op => SparesDay key.bucket (exec step new pre) op) ops →
        ((exec step new ops).rowOf key).get f = (exec step new ops).written key f) := by
  constructor
  · have hreach := Parcels.Reach.of_along view_new (fun pre op hop => step_parcels hop) h
    exact congrFun (congrFun hreach.conserved key) f
  · intro hspares
    induction ops using List.reverseRecOn generalizing f with
    | nil => exact get_default f
    | append_singleton ops op ih =>
      obtain ⟨hpre, hop⟩ := Along.snoc_iff.1 h
      obtain ⟨hspre, hsop⟩ := Along.snoc_iff.1 hspares
      rw [exec_snoc]
      exact rowOf_step hop hsop (fun f' => ih hpre f' hspre) f

/-- Two flushes at once: the first one's entry is refused, and put back after the second has taken the response that came
between. -/
def overlapping : List MeterOp :=
  [.record "k" "m" "p" (some ⟨5, 7, none, some 2⟩) 100, .flush, .record "k" "m" "p" none 200, .write 0 0 300 false,
    .flush, .giveBack 0, .write 1 0 300 true]

theorem metering_conserved_overlapping :
    (exec step new overlapping).written ⟨"k", 0, "m", "p"⟩ .requests +
        (exec step new overlapping).pendingOf ⟨"k", 0, "m", "p"⟩ .requests +
        (exec step new overlapping).held ⟨"k", 0, "m", "p"⟩ .requests =
      recordedCounts overlapping ⟨"k", 0, "m", "p"⟩ .requests :=
  (metering_conserved overlapping (Along.of_checks step (by decide +kernel)) ⟨"k", 0, "m", "p"⟩ .requests).1

end Metering

end Busbar
