import Busbar.Cost
import Mathlib.Data.List.Sort

/-!
# The configured groups

A `groups:` entry as the configuration holds it, the check of the whole tree, and the leaf that a mint provisions.

* `validateGroups`: the errors of a tree, in the order of the names.
* `provisionChild`: a leaf under a parent, its limits from the nearest template above.
-/

namespace Busbar

inductive OnExhaust where
  | block | downgrade
  deriving DecidableEq, Repr

/-- A limit with what happens when its budget is spent, which the cost model does not read. -/
structure LimitEntry extends LimitCfg where
  onExhaust : Option OnExhaust
  deriving DecidableEq, Repr

/-- The limits for a group that is provisioned below. -/
structure ChildDefault where
  limits : List LimitEntry
  deriving DecidableEq, Repr

/-- A `groups:` entry in full. -/
structure GroupEntry where
  parent : Option String
  enabled : Bool
  limits : List LimitEntry
  childDefault : Option ChildDefault
  deriving DecidableEq, Repr

/-- What the cost model reads of an entry. -/
def GroupEntry.toCfg (g : GroupEntry) : GroupCfg := ⟨g.parent, g.enabled, g.limits.map LimitEntry.toLimitCfg⟩

abbrev GroupTable := Table String GroupEntry

namespace GroupTable

def names (groups : GroupTable) : List String := groups.rows.map Prod.fst

/-- The rows in the order of the map. -/
def sorted (groups : GroupTable) : List (String × GroupEntry) :=
  groups.rows.insertionSort (fun a b => a.1 ≤ b.1)

theorem mem_names {groups : GroupTable} {name : String} {g : GroupEntry} (h : groups.lookup name = some g) :
    name ∈ groups.names := List.mem_map.2 ⟨(name, g), Table.lookup_eq_some.1 h, rfl⟩

end GroupTable

/-! ## The check of the tree -/

/-- A pool that a limit names has to exist. -/
def limitErrors (poolExists : String → Bool) (name field : String) (limit : LimitEntry) : List String :=
  (match limit.scope with
    | some scope =>
      if poolExists scope.value then []
      else
        ["groups." ++ name ++ "." ++ field ++ " has `pool: " ++ scope.value ++ "`, but no such pool exists; name a pool "
          ++ "from the top-level `pools:` section or drop the qualifier for a group-wide limit"]
    | none => []) ++
  (match limit.downgradeTo with
    | some target =>
      if poolExists target.value then []
      else
        ["groups." ++ name ++ "." ++ field ++ " has `downgrade_to: " ++ target.value ++ "`, but no such pool exists; "
          ++ "exhausted traffic needs a real pool to land on"]
    | none => [])

/-- A name of the table that goes on the path leaves fewer that are not. -/
theorem names_left_lt {groups : GroupTable} {path : List String} {cur : String} {g : GroupEntry}
    (hseen : cur ∉ path) (hg : groups.lookup cur = some g) :
    (groups.names.filter (fun name => name ∉ path ++ [cur])).length <
      (groups.names.filter (fun name => name ∉ path)).length := by
  have hsplit : groups.names.filter (fun name => name ∉ path ++ [cur]) =
      (groups.names.filter (fun name => name ∉ path)).filter (fun name => name ≠ cur) := by
    rw [List.filter_filter]
    refine List.filter_congr fun name _ => ?_
    simp [and_comm]
  rw [hsplit]
  refine List.length_filter_lt_length_iff_exists.2 ⟨cur, ?_, ?_⟩
  · exact List.mem_filter.2 ⟨GroupTable.mem_names hg, decide_eq_true hseen⟩
  · simp

/-- Up the parents from a cursor: the path and the name that comes again on it, if one does. -/
def walkParents (groups : GroupTable) (path : List String) (cursor : Option String) : Option (List String × String) :=
  match cursor with
  | none => none
  | some cur =>
    if _hseen : cur ∈ path then some (path, cur)
    else
      match _hg : groups.lookup cur with
      | none => none
      | some g => walkParents groups (path ++ [cur]) g.parent
termination_by (groups.names.filter (fun name => name ∉ path)).length
decreasing_by exact names_left_lt _hseen _hg

/-- What is wrong with one entry: pools that do not exist, then a parent that does not, or else a cycle above. -/
def groupErrors (groups : GroupTable) (poolExists : String → Bool) (name : String) (group : GroupEntry) : List String :=
  let own := group.limits.flatMap (limitErrors poolExists name "limits")
  let tmpl := (group.childDefault.elim [] ChildDefault.limits).flatMap
    (limitErrors poolExists name "child_default.limits")
  let missing := group.parent.filter (fun parent => (groups.lookup parent).isNone)
  own ++ tmpl ++
    match missing with
    | some parent =>
      ["groups." ++ name ++ " names parent '" ++ parent ++ "', which does not exist.\nPaste this under groups and set its "
        ++ "limits:\n\n    " ++ parent ++ ":\n      limits:\n        - \x7b requests: 0, per: minute \x7d\n"]
    | none =>
      match walkParents groups [name] group.parent with
      | some (path, cur) =>
        ["groups chain starting at '" ++ name ++ "' is CYCLIC (" ++ String.intercalate " -> " path ++ " -> " ++ cur
          ++ "); break the cycle by removing one `parent:`"]
      | none => []

def validateGroups (groups : GroupTable) (poolExists : String → Bool) : List String :=
  groups.sorted.flatMap (fun r => groupErrors groups poolExists r.1 r.2)

/-! ## The provisioned leaf -/

/-- The nearest template at or above `cursor`, at most `fuel` groups up. -/
def childDefaultFrom (groups : GroupTable) : Nat → Option String → Option ChildDefault
  | 0, _ => none
  | _ + 1, none => none
  | fuel + 1, some name =>
    match groups.lookup name with
    | none => none
    | some g =>
      match g.childDefault with
      | some cd => some cd
      | none => childDefaultFrom groups fuel g.parent

def resolveChildDefault (groups : GroupTable) (parent : String) : Option ChildDefault :=
  childDefaultFrom groups (groups.rows.length + 1) (some parent)

def provisionChild (groups : GroupTable) (parent : String) : GroupEntry :=
  { parent := some parent
    enabled := true
    limits := ((resolveChildDefault groups parent).map ChildDefault.limits).getD []
    childDefault := none }

end Busbar
