import Mathlib.Data.List.Perm.Basic
import Busbar.Config.Groups

/-!
# The grammar of one limit

A limit is a map of one metric with its amount and the qualifiers that metric takes. It is read by a visitor, key by key
in whatever order they come, and written by hand for the overlay. The format (YAML or JSON) reads and writes the scalars.

* `LimitField`: a key with the value read for it.
* `visit_ok`: the visitor accepts the maps whose keys are known, readable and distinct.
* `finish_ok`: the checks at the end, each masked by those before it, as one condition on the fields.
* `limit_grammar`: which maps are accepted, and that what is written is read back in any order of the keys.
-/

namespace Busbar

/-- The configuration's spelling of a metric. -/
def LimitMetric.asStr : LimitMetric → String
  | requests => "requests"
  | tokens => "tokens"
  | budget => "budget"
  | concurrent => "concurrent"

/-- The window named by a variant. -/
def LimitWindow.ofVariant (s : String) : Option LimitWindow :=
  if s = "minute" then some .minute
  else if s = "hour" then some .hour
  else if s = "day" then some .day
  else if s = "month" then some .month
  else if s = "total" then some .total
  else none

def OnExhaust.variant : OnExhaust → String
  | block => "block"
  | downgrade => "downgrade"

def OnExhaust.ofVariant (s : String) : Option OnExhaust :=
  if s = "block" then some .block else if s = "downgrade" then some .downgrade else none

@[simp] theorem LimitWindow.ofVariant_asStr (w : LimitWindow) : ofVariant w.asStr = some w := by
  cases w <;> decide

@[simp] theorem OnExhaust.ofVariant_variant (o : OnExhaust) : ofVariant o.variant = some o := by
  cases o <;> decide

/-- How a format reads and writes the scalars of a map. -/
structure ScalarFormat (V : Type) where
  readKey : V → Option String
  readU64 : V → Option Nat
  readString : V → Option String
  /-- the name of a unit variant -/
  readVariant : V → Option String
  writeU64 : Nat → V
  writeStr : String → V
  writeVariant : String → V

/-- What is written is read back, and an amount has 64 bits. -/
structure ScalarFormat.Lawful {V : Type} (fmt : ScalarFormat V) : Prop where
  u64_le : ∀ v n, fmt.readU64 v = some n → n ≤ u64Max
  u64_write : ∀ n, n ≤ u64Max → fmt.readU64 (fmt.writeU64 n) = some n
  key_write : ∀ s, fmt.readKey (fmt.writeStr s) = some s
  string_write : ∀ s, fmt.readString (fmt.writeStr s) = some s
  variant_str : ∀ s, fmt.readVariant (fmt.writeStr s) = some s
  variant_write : ∀ s, fmt.readVariant (fmt.writeVariant s) = some s

inductive LimitError where
  /-- the format could not read a key -/
  | badKey
  /-- the format could not read the value of a key -/
  | badValue (key : String)
  | duplicateField (key : String)
  | unknownField (key : String) (expected : List String)
  | custom (message : String)
  deriving DecidableEq, Repr

/-- The keys of the grammar. -/
inductive LimitKey where
  | metric (m : LimitMetric)
  | per
  | pool
  | onExhaust
  | downgradeTo
  deriving DecidableEq, Repr

namespace LimitKey

def asStr : LimitKey → String
  | metric m => m.asStr
  | per => "per"
  | pool => "pool"
  | onExhaust => "on_exhaust"
  | downgradeTo => "downgrade_to"

def all : List LimitKey :=
  [.metric .requests, .metric .tokens, .metric .budget, .metric .concurrent, .per, .pool, .onExhaust, .downgradeTo]

def ofStr (s : String) : Option LimitKey := all.find? (fun k => k.asStr = s)

@[simp] theorem ofStr_asStr (k : LimitKey) : ofStr k.asStr = some k := by
  cases k with
  | metric m => cases m <;> decide
  | per => decide
  | pool => decide
  | onExhaust => decide
  | downgradeTo => decide

end LimitKey

/-- What the visitor has collected. -/
structure LimitParts where
  metric : Option (LimitMetric × Nat)
  per : Option LimitWindow
  pool : Option String
  onExhaust : Option OnExhaust
  downgradeTo : Option String
  deriving DecidableEq, Repr

namespace LimitParts

def empty : LimitParts := ⟨none, none, none, none, none⟩

variable {V : Type} (fmt : ScalarFormat V)

/-- `next_value`, an error naming its key. -/
def value {α : Type} (key : LimitKey) (read : Option α) : Except LimitError α :=
  match read with
  | some a => .ok a
  | none => .error (.badValue key.asStr)

/-- One turn of the visitor's loop. -/
def visitEntry (st : LimitParts) (entry : V × V) : Except LimitError LimitParts :=
  match fmt.readKey entry.1 with
  | none => .error .badKey
  | some key =>
    match LimitKey.ofStr key with
    | none => .error (.unknownField key (LimitKey.all.map LimitKey.asStr))
    | some .per =>
      if st.per.isSome then .error (.duplicateField "per")
      else do
        let w ← value .per ((fmt.readVariant entry.2).bind LimitWindow.ofVariant)
        pure { st with per := some w }
    | some .pool =>
      if st.pool.isSome then .error (.duplicateField "pool")
      else do
        let p ← value .pool (fmt.readString entry.2)
        pure { st with pool := some p }
    | some .onExhaust =>
      if st.onExhaust.isSome then .error (.duplicateField "on_exhaust")
      else do
        let o ← value .onExhaust ((fmt.readVariant entry.2).bind OnExhaust.ofVariant)
        pure { st with onExhaust := some o }
    | some .downgradeTo =>
      if st.downgradeTo.isSome then .error (.duplicateField "downgrade_to")
      else do
        let t ← value .downgradeTo (fmt.readString entry.2)
        pure { st with downgradeTo := some t }
    | some (.metric m) =>
      match st.metric with
      | some (prev, _) =>
        .error (.custom ("a limit takes exactly ONE metric key; found both '" ++ prev.asStr ++ "' and '" ++ m.asStr ++ "'"))
      | none => do
        let n ← value (.metric m) (fmt.readU64 entry.2)
        pure { st with metric := some (m, n) }

def visitMap (st : LimitParts) : List (V × V) → Except LimitError LimitParts
  | [] => .ok st
  | entry :: rest => do
    let st ← visitEntry fmt st entry
    visitMap st rest

/-- The checks after the last key. -/
def finish (st : LimitParts) : Except LimitError LimitEntry :=
  match st.metric with
  | none => .error (.custom "a limit needs exactly one metric key (requests | tokens | budget | concurrent)")
  | some (metric, amount) =>
    if metric = .concurrent ∧ st.pool.isSome then
      .error (.custom ("`concurrent` is a per-group in-flight gauge and takes NO `pool:` qualifier; "
        ++ "remove `pool`"))
    else if st.onExhaust = some .downgrade ∧ st.downgradeTo = none then
      .error (.custom ("`on_exhaust: downgrade` requires `downgrade_to: <pool>` - where should the exhausted "
        ++ "traffic go?"))
    else if st.downgradeTo.isSome ∧ st.onExhaust ≠ some .downgrade then
      .error (.custom "`downgrade_to` only makes sense with `on_exhaust: downgrade`")
    else if st.onExhaust.isSome ∧ metric ≠ .budget then
      .error (.custom ("`on_exhaust` is a BUDGET-exhaustion behavior; a `" ++ metric.asStr
        ++ "` limit does not take it"))
    else if st.onExhaust = some .downgrade ∧ st.pool = none then
      .error (.custom ("`on_exhaust: downgrade` requires a `pool:` scope on the limit - a GROUP-WIDE budget "
        ++ "charges every pool, so there is nowhere cheaper to send the traffic"))
    else if st.onExhaust = some .downgrade ∧ st.downgradeTo = st.pool then
      .error (.custom "`downgrade_to` must name a DIFFERENT pool than the limit's own `pool:`")
    else
      match metric, st.per with
      | .concurrent, some _ =>
        .error (.custom ("`concurrent` is an instantaneous in-flight cap and takes NO `per:` window; "
          ++ "remove `per`"))
      | .concurrent, none => .ok ⟨⟨metric, amount, none, none, none⟩, none⟩
      | _, none =>
        .error (.custom ("a `" ++ metric.asStr ++ "` limit requires a `per:` window "
          ++ "(minute | hour | day | month | total)"))
      | _, some window =>
        .ok ⟨⟨metric, amount, some window, st.pool.map ScopeRef.pool, st.downgradeTo.map ScopeRef.pool⟩, st.onExhaust⟩

end LimitParts

namespace LimitEntry

variable {V : Type} (fmt : ScalarFormat V)

def deserialize (map : List (V × V)) : Except LimitError LimitEntry := do
  let st ← LimitParts.visitMap fmt LimitParts.empty map
  st.finish

def serialize (limit : LimitEntry) : List (V × V) :=
  [(fmt.writeStr limit.metric.asStr, fmt.writeU64 limit.amount)] ++
  (limit.per.toList.map fun w => (fmt.writeStr "per", fmt.writeStr w.asStr)) ++
  (limit.scope.toList.map fun scope => (fmt.writeStr "pool", fmt.writeStr scope.value)) ++
  (limit.onExhaust.toList.map fun o => (fmt.writeStr "on_exhaust", fmt.writeVariant o.variant)) ++
  (limit.downgradeTo.toList.map fun target => (fmt.writeStr "downgrade_to", fmt.writeStr target.value))

end LimitEntry

/-! ## The fields of a map -/

/-- A key of the grammar with the value read for it. -/
inductive LimitField where
  | metric (m : LimitMetric) (amount : Nat)
  | per (w : LimitWindow)
  | pool (name : String)
  | onExhaust (o : OnExhaust)
  | downgradeTo (name : String)
  deriving DecidableEq, Repr

namespace LimitField

/-- The slot a field goes to: the metrics share one. -/
inductive Slot where
  | metric | per | pool | onExhaust | downgradeTo
  deriving DecidableEq, Repr

def slot : LimitField → Slot
  | metric .. => .metric
  | per _ => .per
  | pool _ => .pool
  | onExhaust _ => .onExhaust
  | downgradeTo _ => .downgradeTo

variable {V : Type} (fmt : ScalarFormat V)

/-- The value of a key. -/
def readValue (v : V) : LimitKey → Option LimitField
  | .metric m => (fmt.readU64 v).map (.metric m)
  | .per => ((fmt.readVariant v).bind LimitWindow.ofVariant).map .per
  | .pool => (fmt.readString v).map .pool
  | .onExhaust => ((fmt.readVariant v).bind OnExhaust.ofVariant).map .onExhaust
  | .downgradeTo => (fmt.readString v).map .downgradeTo

/-- One entry of a map as the format reads it. -/
def read (entry : V × V) : Option LimitField :=
  ((fmt.readKey entry.1).bind LimitKey.ofStr).bind (readValue fmt entry.2)

end LimitField

/-- The conditions on the fields of a limit that are stated on the metric and its qualifiers. -/
structure LimitFields (metric : LimitMetric) (fs : List LimitField) : Prop where
  /-- no key twice, and one metric -/
  distinct : (fs.map LimitField.slot).Nodup
  amount : ∃ n, .metric metric n ∈ fs
  window : (∃ w, .per w ∈ fs) ↔ metric ≠ .concurrent
  gauge : metric = .concurrent → ∀ p, .pool p ∉ fs
  exhaust : (∃ o, .onExhaust o ∈ fs) → metric = .budget
  target : (∃ t, .downgradeTo t ∈ fs) ↔ .onExhaust .downgrade ∈ fs
  elsewhere : ∀ t, .downgradeTo t ∈ fs → .pool t ∉ fs

/-- The grammar: a limit that downgrades has a pool of its own besides. -/
structure LimitGrammar (metric : LimitMetric) (fs : List LimitField) : Prop extends LimitFields metric fs where
  pooled : .onExhaust .downgrade ∈ fs → ∃ p, .pool p ∈ fs

namespace LimitParts

open LimitField

variable {V : Type} {fmt : ScalarFormat V} {st st' : LimitParts} {f g : LimitField} {fs : List LimitField}

/-- The parts with a field put into its slot. -/
def put (st : LimitParts) : LimitField → LimitParts
  | .metric m n => { st with metric := some (m, n) }
  | .per w => { st with per := some w }
  | .pool p => { st with pool := some p }
  | .onExhaust o => { st with onExhaust := some o }
  | .downgradeTo t => { st with downgradeTo := some t }

def Has (st : LimitParts) : LimitField → Prop
  | .metric m n => st.metric = some (m, n)
  | .per w => st.per = some w
  | .pool p => st.pool = some p
  | .onExhaust o => st.onExhaust = some o
  | .downgradeTo t => st.downgradeTo = some t

/-- A slot nothing was put into. -/
def Free (st : LimitParts) (k : Slot) : Prop := ∀ g : LimitField, g.slot = k → ¬ st.Has g

theorem has_put : (st.put f).Has g ↔ g = f ∨ (g.slot ≠ f.slot ∧ st.Has g) := by
  cases f <;> cases g <;> simp [put, Has, slot, eq_comm]

theorem free_put {k : Slot} : (st.put f).Free k ↔ f.slot ≠ k ∧ st.Free k := by
  constructor
  · intro h
    refine ⟨fun hf => h f hf (has_put.2 (Or.inl rfl)), fun g hg hhas => ?_⟩
    by_cases hs : g.slot = f.slot
    · exact h f (hs.symm.trans hg) (has_put.2 (Or.inl rfl))
    · exact h g hg (has_put.2 (Or.inr ⟨hs, hhas⟩))
  · rintro ⟨hf, hfree⟩ g hg hhas
    rcases has_put.1 hhas with rfl | ⟨-, hold⟩
    · exact hf hg
    · exact hfree g hg hold

theorem free_iff (st : LimitParts) : (st.Free .metric ↔ st.metric = none) ∧ (st.Free .per ↔ st.per = none) ∧
    (st.Free .pool ↔ st.pool = none) ∧ (st.Free .onExhaust ↔ st.onExhaust = none) ∧
    (st.Free .downgradeTo ↔ st.downgradeTo = none) := by
  have hslot : ∀ {α : Type} {k : Slot} (field : α → LimitField) {part : Option α},
      (∀ a, (field a).slot = k) → (∀ g, g.slot = k → ∃ a, g = field a) → (∀ a, st.Has (field a) ↔ part = some a) →
      (st.Free k ↔ part = none) := by
    intro α k field part hk hof hhas
    constructor
    · intro h
      rw [Option.eq_none_iff_forall_ne_some]
      exact fun a ha => h (field a) (hk a) ((hhas a).2 ha)
    · rintro hnone g hg h
      obtain ⟨a, rfl⟩ := hof g hg
      rw [(hhas a).1 h] at hnone
      cases hnone
  refine ⟨hslot (fun a : LimitMetric × Nat => .metric a.1 a.2) (fun _ => rfl) ?_ (fun _ => Iff.rfl),
    hslot .per (fun _ => rfl) ?_ (fun _ => Iff.rfl), hslot .pool (fun _ => rfl) ?_ (fun _ => Iff.rfl),
    hslot .onExhaust (fun _ => rfl) ?_ (fun _ => Iff.rfl), hslot .downgradeTo (fun _ => rfl) ?_ (fun _ => Iff.rfl)⟩
  all_goals
    intro g hg
    cases g <;> first | exact ⟨_, rfl⟩ | exact ⟨(_, _), rfl⟩ | cases hg

/-- A key with a slot of its own: taken at most once, and its value has to be readable. -/
theorem slotted_ok {α : Type} {part : Option α} {e : LimitError} {key : LimitKey} {r : Option α} {mk : α → LimitParts} :
    ((if part.isSome then .error e else (do let a ← value key r; pure (mk a)) : Except LimitError LimitParts) = .ok st') ↔
      part = none ∧ ∃ a, r = some a ∧ st' = mk a := by
  cases part with
  | some p => simp
  | none =>
    cases r with
    | none => simp [value, bind, Except.bind]
    | some a => simp [value, bind, Except.bind, pure, Except.pure, eq_comm]

/-- **One turn of the visitor.** It reads a field and puts it into a slot that was free. -/
theorem visitEntry_ok {entry : V × V} :
    visitEntry fmt st entry = .ok st' ↔ ∃ f, LimitField.read fmt entry = some f ∧ st.Free f.slot ∧ st' = st.put f := by
  obtain ⟨hmetric, hper, hpool, hexhaust, htarget⟩ := free_iff st
  have hfield : ∀ {α β : Type} (field : α → LimitField) {part : Option β} {r : Option α} {k : Slot},
      (∀ a, (field a).slot = k) → (st.Free k ↔ part = none) →
      ((∃ f, r.map field = some f ∧ st.Free f.slot ∧ st' = st.put f) ↔
        part = none ∧ ∃ a, r = some a ∧ st' = st.put (field a)) := by
    intro α β field part r k hk hfree
    constructor
    · rintro ⟨f, hf, hslot, hst⟩
      obtain ⟨a, hr, rfl⟩ := Option.map_eq_some_iff.1 hf
      rw [hk, hfree] at hslot
      exact ⟨hslot, a, hr, hst⟩
    · rintro ⟨hpart, a, hr, hst⟩
      refine ⟨field a, by rw [hr]; rfl, ?_, hst⟩
      rw [hk, hfree]
      exact hpart
  unfold visitEntry LimitField.read
  cases hkey : fmt.readKey entry.1 with
  | none => simp
  | some key =>
    rw [Option.bind_some]
    dsimp only
    cases hof : LimitKey.ofStr key with
    | none => simp
    | some k =>
      rw [Option.bind_some]
      cases k with
      | per => exact slotted_ok.trans (hfield LimitField.per (fun _ => rfl) hper).symm
      | pool => exact slotted_ok.trans (hfield LimitField.pool (fun _ => rfl) hpool).symm
      | onExhaust => exact slotted_ok.trans (hfield LimitField.onExhaust (fun _ => rfl) hexhaust).symm
      | downgradeTo => exact slotted_ok.trans (hfield LimitField.downgradeTo (fun _ => rfl) htarget).symm
      | metric m =>
        dsimp only
        refine Iff.trans ?_ (hfield (LimitField.metric m) (fun _ => rfl) hmetric).symm
        cases st.metric with
        | some prev => simp
        | none =>
          cases fmt.readU64 entry.2 with
          | none => simp [value, bind, Except.bind]
          | some n => simp [value, bind, Except.bind, pure, Except.pure, put, eq_comm]

/-- **The visitor's loop.** It goes through when every entry is a field and every field finds its slot free. -/
theorem visit_ok {map : List (V × V)} :
    visitMap fmt st map = .ok st' ↔ ∃ fs, map.mapM (LimitField.read fmt) = some fs ∧ (fs.map slot).Nodup ∧
      (∀ f ∈ fs, st.Free f.slot) ∧ st' = fs.foldl put st := by
  induction map generalizing st with
  | nil => simp [visitMap, eq_comm]
  | cons entry rest ih =>
    have hbind : visitMap fmt st (entry :: rest) = .ok st' ↔
        ∃ st₁, visitEntry fmt st entry = .ok st₁ ∧ visitMap fmt st₁ rest = .ok st' := by
      have hcons : visitMap fmt st (entry :: rest) = visitEntry fmt st entry >>= fun st => visitMap fmt st rest := rfl
      rw [hcons]
      cases visitEntry fmt st entry <;> simp [bind, Except.bind]
    rw [hbind, List.mapM_cons]
    constructor
    · rintro ⟨st₁, hentry, hrest⟩
      obtain ⟨f, hf, hfree, rfl⟩ := visitEntry_ok.1 hentry
      obtain ⟨fs, hfs, hnodup, hfrees, rfl⟩ := ih.1 hrest
      refine ⟨f :: fs, by simp [hf, hfs], ?_, ?_, rfl⟩
      · rw [List.map_cons, List.nodup_cons]
        refine ⟨?_, hnodup⟩
        -- a second field of the slot would have found it taken
        intro hmem
        obtain ⟨g, hg, hslot⟩ := List.mem_map.1 hmem
        exact (free_put.1 (hfrees g hg)).1 hslot.symm
      · intro g hg
        rcases List.mem_cons.1 hg with rfl | hg
        · exact hfree
        · exact (free_put.1 (hfrees g hg)).2
    · rintro ⟨fs, hfs, hnodup, hfrees, hst⟩
      simp only [Option.pure_def, Option.bind_eq_bind, Option.bind_eq_some_iff, Option.some.injEq] at hfs
      obtain ⟨f, hf, gs, hgs, rfl⟩ := hfs
      rw [List.map_cons, List.nodup_cons] at hnodup
      refine ⟨st.put f, visitEntry_ok.2 ⟨f, hf, hfrees f List.mem_cons_self, rfl⟩, ih.2 ⟨gs, hgs, hnodup.2, ?_, hst⟩⟩
      intro g hg
      refine free_put.2 ⟨?_, hfrees g (List.mem_cons_of_mem f hg)⟩
      intro hslot
      exact hnodup.1 (List.mem_map.2 ⟨g, hg, hslot.symm⟩)

/-- The parts hold the fields that were put into them. -/
theorem has_foldl (hnodup : (fs.map slot).Nodup) (hfree : ∀ f ∈ fs, st.Free f.slot) :
    (fs.foldl put st).Has g ↔ g ∈ fs ∨ st.Has g := by
  induction fs generalizing st with
  | nil => simp
  | cons f fs ih =>
    rw [List.map_cons, List.nodup_cons] at hnodup
    have hne : ∀ h ∈ fs, f.slot ≠ h.slot := fun h hh hs => hnodup.1 (List.mem_map.2 ⟨h, hh, hs.symm⟩)
    have hfree' : ∀ h ∈ fs, (st.put f).Free h.slot :=
      fun h hh => free_put.2 ⟨hne h hh, hfree h (List.mem_cons_of_mem f hh)⟩
    rw [List.foldl_cons, ih hnodup.2 hfree', has_put, List.mem_cons]
    constructor
    · rintro (hmem | rfl | ⟨-, hhas⟩)
      · exact Or.inl (Or.inr hmem)
      · exact Or.inl (Or.inl rfl)
      · exact Or.inr hhas
    · rintro ((rfl | hmem) | hhas)
      · exact Or.inr (Or.inl rfl)
      · exact Or.inl hmem
      · refine Or.inr (Or.inr ⟨?_, hhas⟩)
        intro hs
        exact hfree f List.mem_cons_self g hs hhas

/-! ## The checks after the last key -/

/-- What the checks ask of the parts, all at once. -/
structure Sound (metric : LimitMetric) (st : LimitParts) : Prop where
  window : st.per = none ↔ metric = .concurrent
  gauge : metric = .concurrent → st.pool = none
  exhaust : st.onExhaust ≠ none → metric = .budget
  target : st.downgradeTo ≠ none ↔ st.onExhaust = some .downgrade
  pooled : st.onExhaust = some .downgrade → st.pool ≠ none
  elsewhere : st.onExhaust = some .downgrade → st.downgradeTo ≠ st.pool

/-- The limit of the parts. -/
def limit (st : LimitParts) (metric : LimitMetric) (amount : Nat) : LimitEntry :=
  ⟨⟨metric, amount, st.per, st.pool.map ScopeRef.pool, st.downgradeTo.map ScopeRef.pool⟩, st.onExhaust⟩

variable {metric : LimitMetric} {amount : Nat} {l : LimitEntry}

/-- A gauge has nothing but its amount. -/
theorem Sound.gauge_limit (h : Sound .concurrent st) : st.limit .concurrent amount = ⟨⟨.concurrent, amount, none, none, none⟩, none⟩ := by
  have hexhaust : st.onExhaust = none := by
    by_contra hne
    cases h.exhaust hne
  have htarget : st.downgradeTo = none := by
    by_contra hne
    have hdown := h.target.1 hne
    rw [hexhaust] at hdown
    cases hdown
  unfold limit
  rw [h.window.2 rfl, h.gauge rfl, hexhaust, htarget]
  rfl

/-- **The checks as one condition.** -/
theorem finish_ok : st.finish = .ok l ↔
    ∃ metric amount, st.metric = some (metric, amount) ∧ Sound metric st ∧ l = st.limit metric amount := by
  unfold finish
  cases hm : st.metric with
  | none => simp
  | some pair =>
    obtain ⟨metric, amount⟩ := pair
    dsimp only
    have hright : (∃ metric' amount', some (metric, amount) = some (metric', amount') ∧ Sound metric' st ∧
        l = st.limit metric' amount') ↔ Sound metric st ∧ l = st.limit metric amount := by
      constructor
      · rintro ⟨metric', amount', heq, h⟩
        obtain ⟨rfl, rfl⟩ := Prod.mk.inj (Option.some.inj heq)
        exact h
      · exact fun h => ⟨metric, amount, rfl, h⟩
    rw [hright]
    -- each check that fires contradicts one part of the condition
    by_cases h₁ : metric = .concurrent ∧ st.pool.isSome
    · rw [if_pos h₁]
      refine ⟨nofun, fun h => ?_⟩
      have hpool := h.1.gauge h₁.1
      rw [hpool] at h₁
      cases h₁.2
    rw [if_neg h₁]
    by_cases h₂ : st.onExhaust = some .downgrade ∧ st.downgradeTo = none
    · rw [if_pos h₂]
      exact ⟨nofun, fun h => absurd h₂.2 (h.1.target.2 h₂.1)⟩
    rw [if_neg h₂]
    by_cases h₃ : st.downgradeTo.isSome ∧ st.onExhaust ≠ some .downgrade
    · rw [if_pos h₃]
      refine ⟨nofun, fun h => absurd (h.1.target.1 ?_) h₃.2⟩
      exact Option.isSome_iff_ne_none.1 h₃.1
    rw [if_neg h₃]
    by_cases h₄ : st.onExhaust.isSome ∧ metric ≠ .budget
    · rw [if_pos h₄]
      exact ⟨nofun, fun h => absurd (h.1.exhaust (Option.isSome_iff_ne_none.1 h₄.1)) h₄.2⟩
    rw [if_neg h₄]
    by_cases h₅ : st.onExhaust = some .downgrade ∧ st.pool = none
    · rw [if_pos h₅]
      exact ⟨nofun, fun h => absurd h₅.2 (h.1.pooled h₅.1)⟩
    rw [if_neg h₅]
    by_cases h₆ : st.onExhaust = some .downgrade ∧ st.downgradeTo = st.pool
    · rw [if_pos h₆]
      exact ⟨nofun, fun h => absurd h₆.2 (h.1.elsewhere h₆.1)⟩
    rw [if_neg h₆]
    -- what is left of the condition is the window
    have hsound : (st.per = none ↔ metric = .concurrent) → Sound metric st := by
      intro hwindow
      refine ⟨hwindow, fun hc => ?_, fun ho => ?_, ⟨fun ht => ?_, fun ho ht => h₂ ⟨ho, ht⟩⟩, fun ho hp => h₅ ⟨ho, hp⟩,
        fun ho hp => h₆ ⟨ho, hp⟩⟩
      · by_contra hp
        exact h₁ ⟨hc, Option.isSome_iff_ne_none.2 hp⟩
      · by_contra hb
        exact h₄ ⟨Option.isSome_iff_ne_none.2 ho, hb⟩
      · by_contra ho
        exact h₃ ⟨Option.isSome_iff_ne_none.2 ht, ho⟩
    by_cases hc : metric = .concurrent
    · subst hc
      cases hper : st.per with
      | some w =>
        refine ⟨nofun, fun h => ?_⟩
        have hnone := h.1.window.2 rfl
        rw [hper] at hnone
        cases hnone
      | none =>
        have hs := hsound (by rw [hper]; simp)
        rw [hs.gauge_limit]
        exact ⟨fun h => ⟨hs, (Except.ok.inj h).symm⟩, fun h => by rw [h.2]⟩
    · cases hper : st.per with
      | none =>
        have hno : ¬ Sound metric st := fun h => hc (h.window.1 hper)
        cases metric
        case concurrent => exact absurd rfl hc
        all_goals exact ⟨nofun, fun h => absurd h.1 hno⟩
      | some w =>
        have hs := hsound (by rw [hper]; simp [hc])
        have hlimit : st.limit metric amount =
            ⟨⟨metric, amount, some w, st.pool.map ScopeRef.pool, st.downgradeTo.map ScopeRef.pool⟩, st.onExhaust⟩ := by
          unfold limit
          rw [hper]
        rw [hlimit]
        cases metric
        case concurrent => exact absurd rfl hc
        all_goals exact ⟨fun h => ⟨hs, (Except.ok.inj h).symm⟩, fun h => by rw [h.2]⟩

/-- The condition on the parts is the grammar of the fields they hold. -/
theorem sound_iff (hnodup : (fs.map slot).Nodup) (hhas : ∀ g, st.Has g ↔ g ∈ fs) :
    (st.metric = some (metric, amount) ∧ Sound metric st) ↔ .metric metric amount ∈ fs ∧ LimitGrammar metric fs := by
  have hmetric : st.metric = some (metric, amount) ↔ .metric metric amount ∈ fs := hhas (.metric metric amount)
  have hper : ∀ w, st.per = some w ↔ .per w ∈ fs := fun w => hhas (.per w)
  have hpool : ∀ p, st.pool = some p ↔ .pool p ∈ fs := fun p => hhas (.pool p)
  have hexhaust : ∀ o, st.onExhaust = some o ↔ .onExhaust o ∈ fs := fun o => hhas (.onExhaust o)
  have htarget : ∀ t, st.downgradeTo = some t ↔ .downgradeTo t ∈ fs := fun t => hhas (.downgradeTo t)
  rw [hmetric]
  constructor
  · rintro ⟨hm, h⟩
    refine ⟨hm, ⟨⟨hnodup, ⟨amount, hm⟩, ?_, ?_, ?_, ?_, ?_⟩, ?_⟩⟩
    · simp only [← hper, ← Option.ne_none_iff_exists']
      exact not_congr h.window
    · intro hc p
      rw [← hpool, h.gauge hc]
      nofun
    · rintro ⟨o, ho⟩
      rw [← hexhaust] at ho
      exact h.exhaust (by rw [ho]; nofun)
    · simp only [← htarget, ← hexhaust, ← Option.ne_none_iff_exists']
      exact h.target
    · intro t ht hp
      rw [← htarget] at ht
      rw [← hpool] at hp
      exact h.elsewhere (h.target.1 (by rw [ht]; nofun)) (ht.trans hp.symm)
    · intro hd
      rw [← hexhaust] at hd
      simp only [← hpool, ← Option.ne_none_iff_exists']
      exact h.pooled hd
  · rintro ⟨hm, h⟩
    have hdown := h.target
    have hwindow := h.window
    have hpooled := h.pooled
    simp only [← htarget, ← hper, ← hpool, ← hexhaust, ← Option.ne_none_iff_exists'] at hdown hwindow hpooled
    refine ⟨hm, ⟨?_, ?_, ?_, hdown, hpooled, ?_⟩⟩
    · rw [← not_iff_not]
      exact hwindow
    · intro hc
      rw [Option.eq_none_iff_forall_ne_some]
      exact fun p hp => h.gauge hc p ((hpool p).1 hp)
    · intro ho
      obtain ⟨o, ho⟩ := Option.ne_none_iff_exists'.1 ho
      exact h.exhaust ⟨o, (hexhaust o).1 ho⟩
    · intro ho heq
      obtain ⟨t, ht⟩ := Option.ne_none_iff_exists'.1 (hdown.2 ho)
      exact h.elsewhere t ((htarget t).1 ht) ((hpool t).1 (heq ▸ ht))

theorem free_empty (k : Slot) : empty.Free k := by
  intro g _ hhas
  cases g <;> cases hhas

/-- The parts of distinct fields do not depend on their order. -/
theorem foldl_put_perm {fs' : List LimitField} (hp : fs.Perm fs') (hnodup : (fs.map slot).Nodup) :
    fs.foldl put empty = fs'.foldl put empty := by
  have hnodup' : (fs'.map slot).Nodup := (hp.map slot).nodup_iff.1 hnodup
  have hhas : ∀ g, (fs.foldl put empty).Has g ↔ (fs'.foldl put empty).Has g := by
    intro g
    rw [has_foldl hnodup (fun f _ => free_empty f.slot), has_foldl hnodup' (fun f _ => free_empty f.slot), hp.mem_iff]
  have hpart : ∀ {α : Type} {x y : Option α}, (∀ a, x = some a ↔ y = some a) → x = y :=
    fun h => Option.ext fun a => h a
  have hext : ∀ {a b : LimitParts}, a.metric = b.metric → a.per = b.per → a.pool = b.pool → a.onExhaust = b.onExhaust →
      a.downgradeTo = b.downgradeTo → a = b := by
    rintro ⟨⟩ ⟨⟩ rfl rfl rfl rfl rfl
    rfl
  exact hext (hpart fun p => hhas (.metric p.1 p.2)) (hpart fun w => hhas (.per w)) (hpart fun p => hhas (.pool p))
    (hpart fun o => hhas (.onExhaust o)) (hpart fun t => hhas (.downgradeTo t))

end LimitParts

/-! ## Maps and limits -/

namespace LimitEntry

open LimitParts LimitField

variable {V : Type} {fmt : ScalarFormat V} {map map' : List (V × V)} {l : LimitEntry}

/-- **What the deserializer accepts.** -/
theorem deserialize_ok : deserialize fmt map = .ok l ↔
    ∃ fs metric amount, map.mapM (LimitField.read fmt) = some fs ∧ .metric metric amount ∈ fs ∧
      LimitGrammar metric fs ∧ l = (fs.foldl put empty).limit metric amount := by
  have hbind : deserialize fmt map = .ok l ↔ ∃ st, visitMap fmt LimitParts.empty map = .ok st ∧ st.finish = .ok l := by
    unfold deserialize
    cases visitMap fmt LimitParts.empty map <;> simp [bind, Except.bind]
  rw [hbind]
  constructor
  · rintro ⟨st, hvisit, hfinish⟩
    obtain ⟨fs, hfs, hnodup, hfree, rfl⟩ := visit_ok.1 hvisit
    obtain ⟨metric, amount, hm, hs, rfl⟩ := finish_ok.1 hfinish
    have hhas : ∀ g, (fs.foldl put LimitParts.empty).Has g ↔ g ∈ fs := by
      intro g
      rw [has_foldl hnodup hfree]
      exact or_iff_left (free_empty g.slot g rfl)
    obtain ⟨hmem, hgrammar⟩ := (sound_iff hnodup hhas).1 ⟨hm, hs⟩
    exact ⟨fs, metric, amount, hfs, hmem, hgrammar, rfl⟩
  · rintro ⟨fs, metric, amount, hfs, hmem, hgrammar, rfl⟩
    have hfree : ∀ f ∈ fs, LimitParts.empty.Free f.slot := fun f _ => free_empty f.slot
    have hhas : ∀ g, (fs.foldl put LimitParts.empty).Has g ↔ g ∈ fs := by
      intro g
      rw [has_foldl hgrammar.distinct hfree]
      exact or_iff_left (free_empty g.slot g rfl)
    obtain ⟨hm, hs⟩ := (sound_iff hgrammar.distinct hhas).2 ⟨hmem, hgrammar⟩
    exact ⟨_, visit_ok.2 ⟨fs, hfs, hgrammar.distinct, hfree, rfl⟩, finish_ok.2 ⟨metric, amount, hm, hs, rfl⟩⟩

/-- Entries in another order are read as the same fields in another order. -/
theorem read_perm (hp : map'.Perm map) {fs : List LimitField} (h : map.mapM (LimitField.read fmt) = some fs) :
    ∃ fs', map'.mapM (LimitField.read fmt) = some fs' ∧ fs'.Perm fs := by
  induction hp generalizing fs with
  | nil => exact ⟨fs, h, List.Perm.refl fs⟩
  | cons entry _ ih =>
    simp only [List.mapM_cons, Option.pure_def, Option.bind_eq_bind, Option.bind_eq_some_iff, Option.some.injEq] at h ⊢
    obtain ⟨f, hf, gs, hgs, rfl⟩ := h
    obtain ⟨gs', hgs', hperm⟩ := ih hgs
    exact ⟨f :: gs', ⟨f, hf, gs', hgs', rfl⟩, hperm.cons f⟩
  | swap entry entry' rest =>
    simp only [List.mapM_cons, Option.pure_def, Option.bind_eq_bind, Option.bind_eq_some_iff, Option.some.injEq] at h ⊢
    obtain ⟨f, hf, _, ⟨f', hf', gs, hgs, rfl⟩, rfl⟩ := h
    exact ⟨f' :: f :: gs, ⟨f', hf', _, ⟨f, hf, gs, hgs, rfl⟩, rfl⟩, List.Perm.swap f f' gs⟩
  | trans _ _ ih₁ ih₂ =>
    obtain ⟨gs, hgs, hp₂⟩ := ih₂ h
    obtain ⟨gs', hgs', hp₁⟩ := ih₁ hgs
    exact ⟨gs', hgs', hp₁.trans hp₂⟩

theorem grammar_perm {metric : LimitMetric} {fs fs' : List LimitField} (hp : fs'.Perm fs)
    (h : LimitGrammar metric fs) : LimitGrammar metric fs' := by
  have hmem : ∀ f, f ∈ fs' ↔ f ∈ fs := fun f => hp.mem_iff
  refine ⟨⟨(hp.map slot).nodup_iff.2 h.distinct, ?_, ?_, ?_, ?_, ?_, ?_⟩, ?_⟩
  all_goals simp only [hmem]
  · exact h.amount
  · exact h.window
  · exact h.gauge
  · exact h.exhaust
  · exact h.target
  · exact h.elsewhere
  · exact h.pooled

/-- **The order of the keys does not matter.** -/
theorem deserialize_perm (hp : map'.Perm map) (h : deserialize fmt map = .ok l) : deserialize fmt map' = .ok l := by
  obtain ⟨fs, metric, amount, hfs, hmem, hgrammar, rfl⟩ := deserialize_ok.1 h
  obtain ⟨fs', hfs', hperm⟩ := read_perm hp hfs
  refine deserialize_ok.2 ⟨fs', metric, amount, hfs', hperm.mem_iff.2 hmem, grammar_perm hperm hgrammar, ?_⟩
  rw [foldl_put_perm hperm.symm hgrammar.distinct]

/-- The fields a limit is written with. -/
def fields (l : LimitEntry) : List LimitField :=
  [.metric l.metric l.amount] ++ l.per.toList.map .per ++ l.scope.toList.map (fun s => .pool s.value) ++
    l.onExhaust.toList.map .onExhaust ++ l.downgradeTo.toList.map (fun t => .downgradeTo t.value)

theorem mapM_optional {α : Type} {part : Option α} {write : α → V × V} {field : α → LimitField}
    (h : ∀ a, LimitField.read fmt (write a) = some (field a)) :
    (part.toList.map write).mapM (LimitField.read fmt) = some (part.toList.map field) := by
  cases part with
  | none => rfl
  | some a => simp [h a]

/-- Each entry that is written is read as its field. -/
theorem read_serialize (hfmt : fmt.Lawful) (hamount : l.amount ≤ u64Max) :
    (serialize fmt l).mapM (LimitField.read fmt) = some (fields l) := by
  have hread : ∀ (k : LimitKey) (v : V), LimitField.read fmt (fmt.writeStr k.asStr, v) = LimitField.readValue fmt v k := by
    intro k v
    unfold LimitField.read
    dsimp only
    rw [hfmt.key_write, Option.bind_some, LimitKey.ofStr_asStr, Option.bind_some]
  have hmetric : LimitField.read fmt (fmt.writeStr l.metric.asStr, fmt.writeU64 l.amount) =
      some (.metric l.metric l.amount) := by
    refine (hread (.metric l.metric) _).trans ?_
    unfold LimitField.readValue
    dsimp only
    rw [hfmt.u64_write _ hamount, Option.map_some]
  have hper : ∀ w : LimitWindow, LimitField.read fmt (fmt.writeStr "per", fmt.writeStr w.asStr) = some (.per w) := by
    intro w
    refine (hread .per _).trans ?_
    unfold LimitField.readValue
    dsimp only
    rw [hfmt.variant_str, Option.bind_some, LimitWindow.ofVariant_asStr, Option.map_some]
  have hpool : ∀ s : ScopeRef, LimitField.read fmt (fmt.writeStr "pool", fmt.writeStr s.value) = some (.pool s.value) := by
    intro s
    refine (hread .pool _).trans ?_
    unfold LimitField.readValue
    dsimp only
    rw [hfmt.string_write, Option.map_some]
  have hexhaust : ∀ o : OnExhaust, LimitField.read fmt (fmt.writeStr "on_exhaust", fmt.writeVariant o.variant) =
      some (.onExhaust o) := by
    intro o
    refine (hread .onExhaust _).trans ?_
    unfold LimitField.readValue
    dsimp only
    rw [hfmt.variant_write, Option.bind_some, OnExhaust.ofVariant_variant, Option.map_some]
  have htarget : ∀ t : ScopeRef, LimitField.read fmt (fmt.writeStr "downgrade_to", fmt.writeStr t.value) =
      some (.downgradeTo t.value) := by
    intro t
    refine (hread .downgradeTo _).trans ?_
    unfold LimitField.readValue
    dsimp only
    rw [hfmt.string_write, Option.map_some]
  unfold serialize fields
  rw [List.mapM_append, List.mapM_append, List.mapM_append, List.mapM_append, mapM_optional hper, mapM_optional hpool,
    mapM_optional hexhaust, mapM_optional htarget]
  simp [hmetric]

/-- The fields of the limit made of some parts are what the parts hold. -/
theorem mem_fields {st : LimitParts} {metric : LimitMetric} {amount : Nat} (hm : st.metric = some (metric, amount))
    (g : LimitField) : st.Has g ↔ g ∈ fields (st.limit metric amount) := by
  cases g <;> simp [fields, limit, Has, hm, ScopeRef.pool, Prod.ext_iff, eq_comm]

theorem nodup_fields : ((fields l).map slot).Nodup := by
  obtain ⟨⟨metric, amount, per, scope, downgradeTo⟩, onExhaust⟩ := l
  cases per <;> cases scope <;> cases onExhaust <;> cases downgradeTo <;> simp [fields, slot]

/-- Reading the fields of a limit into the parts makes the parts it was made of. -/
theorem foldl_fields {st : LimitParts} {metric : LimitMetric} {amount : Nat} (hm : st.metric = some (metric, amount)) :
    (fields (st.limit metric amount)).foldl put LimitParts.empty = st := by
  obtain ⟨m, per, pool, onExhaust, downgradeTo⟩ := st
  obtain rfl : m = some (metric, amount) := hm
  cases per <;> cases pool <;> cases onExhaust <;> cases downgradeTo <;> rfl

/-- The amount of an accepted limit was read by the format. -/
theorem amount_le (hfmt : fmt.Lawful) {fs : List LimitField} {metric : LimitMetric} {amount : Nat}
    (hfs : map.mapM (LimitField.read fmt) = some fs) (hmem : .metric metric amount ∈ fs) : amount ≤ u64Max := by
  induction map generalizing fs with
  | nil =>
    cases hfs
    cases hmem
  | cons entry rest ih =>
    simp only [List.mapM_cons, Option.pure_def, Option.bind_eq_bind, Option.bind_eq_some_iff, Option.some.injEq] at hfs
    obtain ⟨f, hf, gs, hgs, rfl⟩ := hfs
    rcases List.mem_cons.1 hmem with rfl | hmem
    · unfold LimitField.read at hf
      obtain ⟨k, -, hk⟩ := Option.bind_eq_some_iff.1 hf
      cases k with
      | metric m =>
        obtain ⟨n, hn, heq⟩ := Option.map_eq_some_iff.1 hk
        obtain ⟨rfl, rfl⟩ := LimitField.metric.inj heq
        exact hfmt.u64_le _ _ hn
      | per | pool | onExhaust | downgradeTo =>
        obtain ⟨a, -, heq⟩ := Option.map_eq_some_iff.1 hk
        cases heq
    · exact ih hgs hmem

/-- **Limits survive.** What an accepted limit is written as, in whatever order of the keys, is read as that limit. -/
theorem deserialize_serialize (hfmt : fmt.Lawful) (h : deserialize fmt map = .ok l) (hp : map'.Perm (serialize fmt l)) :
    deserialize fmt map' = .ok l := by
  refine deserialize_perm hp ?_
  obtain ⟨fs, metric, amount, hfs, hmem, hgrammar, rfl⟩ := deserialize_ok.1 h
  have hhas : ∀ g, (fs.foldl put LimitParts.empty).Has g ↔ g ∈ fs := by
    intro g
    rw [has_foldl hgrammar.distinct (fun f _ => free_empty f.slot)]
    exact or_iff_left (free_empty g.slot g rfl)
  obtain ⟨hm, hs⟩ := (sound_iff hgrammar.distinct hhas).2 ⟨hmem, hgrammar⟩
  obtain ⟨hmem', hgrammar'⟩ := (sound_iff nodup_fields (mem_fields hm)).1 ⟨hm, hs⟩
  refine deserialize_ok.2 ⟨_, metric, amount, read_serialize hfmt (amount_le hfmt hfs hmem), hmem', hgrammar', ?_⟩
  rw [foldl_fields hm]

end LimitEntry

open LimitEntry

/-- **The grammar of a limit.** A map is accepted when its keys and values are read as distinct fields, one metric with
the qualifiers it takes; and an accepted limit is read back from what it is written as, in any order of the keys. -/
theorem limit_grammar {V : Type} (fmt : ScalarFormat V) (hfmt : fmt.Lawful) :
    (∀ map, (∃ l, deserialize fmt map = .ok l) ↔
      ∃ fs metric, map.mapM (LimitField.read fmt) = some fs ∧ LimitGrammar metric fs) ∧
      ∀ map l map', deserialize fmt map = .ok l → map'.Perm (serialize fmt l) → deserialize fmt map' = .ok l := by
  refine ⟨fun map => ?_, fun map l map' h hp => deserialize_serialize hfmt h hp⟩
  constructor
  · rintro ⟨l, h⟩
    obtain ⟨fs, metric, -, hfs, -, hgrammar, -⟩ := deserialize_ok.1 h
    exact ⟨fs, metric, hfs, hgrammar⟩
  · rintro ⟨fs, metric, hfs, hgrammar⟩
    obtain ⟨amount, hmem⟩ := hgrammar.amount
    exact ⟨_, deserialize_ok.2 ⟨fs, metric, amount, hfs, hmem, hgrammar, rfl⟩⟩

/-! ## Two maps -/

/-- Scalars that are numbers or texts. -/
inductive Scalar where
  | num (n : Nat)
  | text (s : String)
  deriving DecidableEq, Repr

namespace Scalar

def asText : Scalar → Option String
  | text s => some s
  | num _ => none

def asU64 : Scalar → Option Nat
  | num n => if n ≤ u64Max then some n else none
  | text _ => none

def format : ScalarFormat Scalar := ⟨asText, asU64, asText, asText, num, text, text⟩

theorem format_lawful : format.Lawful where
  u64_le v n h := by
    cases v with
    | text s => cases h
    | num k =>
      change (if k ≤ u64Max then some k else none) = some n at h
      by_cases hk : k ≤ u64Max
      · rw [if_pos hk] at h
        rw [← Option.some.inj h]
        exact hk
      · rw [if_neg hk] at h
        cases h
  u64_write n h := if_pos h
  key_write _ := rfl
  string_write _ := rfl
  variant_str _ := rfl
  variant_write _ := rfl

/-- A budget that sends what it cannot pay to another pool. -/
def downgrading : List (Scalar × Scalar) :=
  [(text "downgrade_to", text "cheap"), (text "budget", num 500), (text "pool", text "fast"),
    (text "on_exhaust", text "downgrade"), (text "per", text "month")]

/-- The same for the whole group. -/
def groupWide : List (Scalar × Scalar) :=
  [(text "budget", num 500), (text "per", text "month"), (text "on_exhaust", text "downgrade"),
    (text "downgrade_to", text "cheap")]

end Scalar

theorem limit_grammar_downgrading : ∃ l, deserialize Scalar.format Scalar.downgrading = .ok l ∧
    deserialize Scalar.format (serialize Scalar.format l).reverse = .ok l := by
  have hok : ∃ l, deserialize Scalar.format Scalar.downgrading = .ok l := by
    refine ((limit_grammar Scalar.format Scalar.format_lawful).1 _).2
      ⟨[.downgradeTo "cheap", .metric .budget 500, .pool "fast", .onExhaust .downgrade, .per .month], .budget, by decide, ?_⟩
    exact ⟨⟨by decide, ⟨500, by simp⟩, by simp, by simp, by simp, by simp, by simp⟩, by simp⟩
  obtain ⟨l, hl⟩ := hok
  exact ⟨l, hl, (limit_grammar Scalar.format Scalar.format_lawful).2 _ l _ hl (List.reverse_perm _)⟩

/-- A downgrade without a pool of its own keeps all the conditions on metric and qualifiers and is refused. -/
theorem group_wide_downgrade_refused :
    (∃ fs, Scalar.groupWide.mapM (LimitField.read Scalar.format) = some fs ∧ LimitFields .budget fs) ∧
      ∀ l, deserialize Scalar.format Scalar.groupWide ≠ .ok l := by
  refine ⟨⟨[.metric .budget 500, .per .month, .onExhaust .downgrade, .downgradeTo "cheap"], by decide, ?_⟩, ?_⟩
  · refine ⟨by decide, ⟨500, by simp⟩, by simp, by simp, by simp, by simp, by simp⟩
  · intro l h
    obtain ⟨fs, metric, -, hfs, -, hgrammar, -⟩ := deserialize_ok.1 h
    have hread : Scalar.groupWide.mapM (LimitField.read Scalar.format) =
        some [.metric .budget 500, .per .month, .onExhaust .downgrade, .downgradeTo "cheap"] := by decide
    obtain rfl := Option.some.inj (hread.symm.trans hfs)
    obtain ⟨p, hp⟩ := hgrammar.pooled (by simp)
    simp at hp

end Busbar
