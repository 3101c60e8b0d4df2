import Busbar.Lib.Yaml

/-!
# What a migration records

A pass of the migrator rewrites a mapping and records changes, items for the operator and warnings. A pass that takes a
key out of a mapping looks at the shape of the value first.

* `Logged`: a value and what was recorded on the way to it.
* `takeMapping`, `takeSequence`: the value is taken out if it has the shape, and stays, with an item, if it has not.
-/

namespace Busbar.Migrate

/-- An item for the operator: the path it is about, and the paths it says were left as they are. -/
structure Todo where
  path : List Yaml
  kept : List (List Yaml)
  text : String

inductive Entry where
  | change (text : String)
  | todo (t : Todo)
  | warning (text : String)
  /-- The pass stops here; what it returns does not matter. -/
  | panicked (text : String)

structure Logged (α : Type) where
  value : α
  ledger : List Entry

namespace Logged

instance : Monad Logged where
  pure a := ⟨a, []⟩
  bind m f := ⟨(f m.value).value, m.ledger ++ (f m.value).ledger⟩

variable {α β : Type}

def record (e : Entry) : Logged Unit := ⟨(), [e]⟩

/-- What is recorded only if the condition holds. -/
def recordIf (c : Bool) (e : Entry) : Logged Unit := if c then record e else pure ()

@[simp] theorem value_pure (a : α) : (pure a : Logged α).value = a := rfl
@[simp] theorem ledger_pure (a : α) : (pure a : Logged α).ledger = [] := rfl
@[simp] theorem value_bind (m : Logged α) (f : α → Logged β) : (m >>= f).value = (f m.value).value := rfl
@[simp] theorem ledger_bind (m : Logged α) (f : α → Logged β) : (m >>= f).ledger = m.ledger ++ (f m.value).ledger := rfl
@[simp] theorem value_record (e : Entry) : (record e).value = () := rfl
@[simp] theorem ledger_record (e : Entry) : (record e).ledger = [e] := rfl

end Logged

open Logged

def change (text : String) : Logged Unit := record (.change text)
def warn (text : String) : Logged Unit := record (.warning text)

/-- The keys of a path, as the ledger shows them. -/
def keyText (k : Yaml) : String := k.asStr.getD "?"

def pathText (path : List Yaml) : String := ".".intercalate (path.map keyText)

/-- An item that starts with its path. -/
def todo (path : List Yaml) (text : String) : Logged Unit := record (.todo ⟨path, [], pathText path ++ text⟩)

/-- An item that starts with its path and leaves values as they are. -/
def todoKept (path : List Yaml) (kept : List (List Yaml)) (text : String) : Logged Unit :=
  record (.todo ⟨path, kept, pathText path ++ text⟩)

/-! ## Rewriting in place -/

/-- A pass over the values of a mapping. -/
def mapValues (f : Yaml → Yaml → Logged Yaml) : Mapping → Logged Mapping
  | [] => pure []
  | (k, v) :: m => do
    let w ← f k v
    let rest ← mapValues f m
    pure ((k, w) :: rest)

def mapItems (f : Yaml → Logged Yaml) : List Yaml → Logged (List Yaml)
  | [] => pure []
  | v :: vs => do
    let w ← f v
    let rest ← mapItems f vs
    pure (w :: rest)

/-- A value that is a mapping is rewritten, any other stays. -/
def onMapping (f : Mapping → Logged Mapping) : Yaml → Logged Yaml
  | .mapping m => do
    let m ← f m
    pure (.mapping m)
  | v => pure v

def onSequence (f : List Yaml → Logged (List Yaml)) : Yaml → Logged Yaml
  | .sequence s => do
    let s ← f s
    pure (.sequence s)
  | v => pure v

/-- `get_mut` of a string key. -/
def atKey (k : String) (f : Yaml → Logged Yaml) (m : Mapping) : Logged Mapping :=
  mapValues (fun key v => if Mapping.isKey k key then f v else pure v) m

def atMapping (k : String) (f : Mapping → Logged Mapping) (m : Mapping) : Logged Mapping := atKey k (onMapping f) m

def atSequence (k : String) (f : List Yaml → Logged (List Yaml)) (m : Mapping) : Logged Mapping := atKey k (onSequence f) m

variable {m m' m'' : Mapping} {k k' : String}

theorem value_mapValues (f : Yaml → Yaml → Logged Yaml) (m : Mapping) :
    (mapValues f m).value = m.map fun e => (e.1, (f e.1 e.2).value) := by
  induction m with
  | nil => rfl
  | cons e m ih =>
    unfold mapValues
    simp only [value_bind, value_pure, ih, List.map_cons]

theorem value_mapItems (f : Yaml → Logged Yaml) (vs : List Yaml) : (mapItems f vs).value = vs.map fun v => (f v).value := by
  induction vs with
  | nil => rfl
  | cons v vs ih =>
    unfold mapItems
    simp only [value_bind, value_pure, ih, List.map_cons]

@[simp] theorem value_onMapping (f : Mapping → Logged Mapping) (m : Mapping) :
    (onMapping f (.mapping m)).value = .mapping (f m).value := rfl

theorem value_onMapping_other {v : Yaml} (hv : v.mapping? = none) (f : Mapping → Logged Mapping) : (onMapping f v).value = v := by
  cases v with
  | mapping m => cases hv
  | _ => rfl

theorem value_onSequence_other {v : Yaml} (hv : v.sequence? = none) (f : List Yaml → Logged (List Yaml)) :
    (onSequence f v).value = v := by
  cases v with
  | sequence s => cases hv
  | _ => rfl

/-- Rewriting inside of mappings is rewriting of what is looked up. -/
theorem mapping?_onMapping (f : Mapping → Logged Mapping) (v : Yaml) :
    (onMapping f v).value.mapping? = v.mapping?.map fun m => (f m).value := by
  cases v <;> rfl

theorem get_mapValues (f : Yaml → Yaml → Logged Yaml) (m : Mapping) (k : String) :
    (mapValues f m).value.get k = (m.get k).map fun v => (f (.string k) v).value := by
  rw [value_mapValues, Mapping.get_map fun k v => (f k v).value]

theorem get_atKey (k k' : String) (f : Yaml → Logged Yaml) (m : Mapping) :
    (atKey k f m).value.get k' = if k' = k then (m.get k).map fun v => (f v).value else m.get k' := by
  unfold atKey
  rw [value_mapValues, Mapping.get_map fun key v => (if Mapping.isKey k key then f v else pure v).value]
  by_cases hk : k' = k
  · subst hk
    rw [if_pos rfl, Mapping.isKey_self]
    rfl
  · have hno : Mapping.isKey k (.string k') = false := by
      rw [Bool.eq_false_iff, ne_eq, Mapping.isKey_iff, Yaml.string.injEq]
      exact hk
    rw [if_neg hk, hno]
    exact Option.map_id' ..

theorem get_atMapping (k k' : String) (f : Mapping → Logged Mapping) (m : Mapping) :
    (atMapping k f m).value.get k' = if k' = k then (m.get k).map fun v => (onMapping f v).value else m.get k' :=
  get_atKey k k' _ m

/-! ## What a pass leaves -/

/-- Only these keys may have other values, and keys stay distinct. -/
def Changes (ks : List String) (m m' : Mapping) : Prop :=
  Mapping.Distinct m → Mapping.Distinct m' ∧ ∀ k, k ∉ ks → m'.get k = m.get k

theorem Changes.refl (ks : List String) (m : Mapping) : Changes ks m m := fun hm => ⟨hm, fun _ _ => rfl⟩

theorem Changes.trans {ks : List String} (h : Changes ks m m') (h' : Changes ks m' m'') : Changes ks m m'' := by
  intro hm
  obtain ⟨hm', hget⟩ := h hm
  obtain ⟨hm'', hget'⟩ := h' hm'
  exact ⟨hm'', fun k hk => (hget' k hk).trans (hget k hk)⟩

theorem Changes.mono {ks ks' : List String} (h : Changes ks m m') (hks : ∀ k ∈ ks, k ∈ ks') : Changes ks' m m' :=
  fun hm => ⟨(h hm).1, fun k hk => (h hm).2 k fun hmem => hk (hks k hmem)⟩

theorem changes_insert {ks : List String} (hk : k ∈ ks) (v : Yaml) (m : Mapping) : Changes ks m (Mapping.insert k v m) := by
  intro hm
  refine ⟨Mapping.distinct_insert hm k v, fun k' hk' => ?_⟩
  rw [Mapping.get_insert, if_neg]
  rintro rfl
  exact hk' hk

theorem changes_swapRemove {ks : List String} (hk : k ∈ ks) (m : Mapping) : Changes ks m (m.swapRemove k) := by
  intro hm
  refine ⟨Mapping.distinct_swapRemove hm k, fun k' hk' => ?_⟩
  rw [Mapping.get_swapRemove hm, if_neg]
  rintro rfl
  exact hk' hk

theorem changes_atKey {ks : List String} (hk : k ∈ ks) (f : Yaml → Logged Yaml) (m : Mapping) :
    Changes ks m (atKey k f m).value := by
  intro hm
  constructor
  · unfold atKey Mapping.Distinct
    rw [value_mapValues, Mapping.names_map fun e => (if Mapping.isKey k e.1 then f e.2 else pure e.2).value]
    exact hm
  · intro k' hk'
    rw [get_atKey, if_neg]
    rintro rfl
    exact hk' hk

/-! ## Taking a key out -/

inductive Taken (α : Type) where
  /-- The value, and the mapping without it. -/
  | got (value : α) (rest : Mapping)
  | absent
  | malformed

section

variable (oneLine : Yaml → String)

/-- The key is removed if its value has the shape; otherwise it stays as written. -/
def takeShaped (m : Mapping) (k want : String) (matchesShape : Yaml → Bool) (ctx : List Yaml) : Logged (Taken Yaml) :=
  match m.get k with
  | none => pure .absent
  | some found =>
    if matchesShape found then pure (.got found (m.swapRemove k))
    else do
      let path := ctx ++ [.string k]
      todoKept path [path] (": is not " ++ want ++ " (`" ++ oneLine found ++ "`) — it was left EXACTLY as written and was NOT "
        ++ "migrated, because this migrator cannot mechanically convert that shape and will never silently drop what you "
        ++ "wrote. Fix it by hand and re-run `--migrate-config`.")
      pure .malformed

/-- A tagged mapping passes the check of the shape and is none. -/
def takeMapping (m : Mapping) (k : String) (ctx : List Yaml) : Logged (Taken Mapping) := do
  match ← takeShaped oneLine m k "a mapping" Yaml.isMapping ctx with
  | .got (.mapping mm) rest => pure (.got mm rest)
  | .got _ _ =>
    record (.panicked "internal error: entered unreachable code: shape was checked")
    pure .malformed
  | .absent => pure .absent
  | .malformed => pure .malformed

def takeSequence (m : Mapping) (k : String) (ctx : List Yaml) : Logged (Taken (List Yaml)) := do
  match ← takeShaped oneLine m k "a list" Yaml.isSequence ctx with
  | .got (.sequence s) rest => pure (.got s rest)
  | .got _ _ =>
    record (.panicked "internal error: entered unreachable code: shape was checked")
    pure .malformed
  | .absent => pure .absent
  | .malformed => pure .malformed

variable {oneLine}

/-- A mapping that is taken out is the value of the key. -/
theorem value_takeMapping (m : Mapping) (k : String) (ctx : List Yaml) :
    (takeMapping oneLine m k ctx).value = match m.get k with
      | none => .absent
      | some (.mapping mm) => .got mm (m.swapRemove k)
      | some _ => .malformed := by
  unfold takeMapping takeShaped
  cases hget : m.get k with
  | none => rfl
  | some v =>
    dsimp only
    by_cases hshape : v.isMapping = true
    · rw [if_pos hshape]
      cases v <;> rfl
    · rw [if_neg hshape]
      cases v with
      | mapping mm => exact absurd rfl hshape
      | _ => rfl

theorem value_takeSequence (m : Mapping) (k : String) (ctx : List Yaml) :
    (takeSequence oneLine m k ctx).value = match m.get k with
      | none => .absent
      | some (.sequence s) => .got s (m.swapRemove k)
      | some _ => .malformed := by
  unfold takeSequence takeShaped
  cases hget : m.get k with
  | none => rfl
  | some v =>
    dsimp only
    by_cases hshape : v.isSequence = true
    · rw [if_pos hshape]
      cases v <;> rfl
    · rw [if_neg hshape]
      cases v with
      | sequence s => exact absurd rfl hshape
      | _ => rfl

end

end Busbar.Migrate
