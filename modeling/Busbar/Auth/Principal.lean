import Busbar.Cost
import Busbar.Governance.Signing

/-!
# Principals and their governance keys

A module's verdict names a principal with its roles. The bindings of the module turn the roles into a key that no store
holds: pools and a group for the enforcement, and the principal's id as ledger bucket.

* `synthesizePrincipalKey`: the key, if some role is bound and grants a pool.
-/

namespace Busbar

structure Principal where
  id : String
  name : Option String
  roles : List String
  ttlSecs : Option Nat
  deriving DecidableEq, Repr

/-- What a bound role grants on the data plane; no pool list is all pools. -/
structure RoleBindingCfg where
  allowedPools : Option (List String)
  group : Option String
  deriving DecidableEq, Repr

/-- The pools of the granting bindings in order of first mention, and whether some binding grants them all. -/
def unionPools (granting : List RoleBindingCfg) : List String × Bool :=
  granting.foldl
    (fun acc b =>
      match b.allowedPools with
      | none => (acc.1, true)
      | some list => (list.foldl (fun pools p => if p ∈ pools then pools else pools ++ [p]) acc.1, acc.2))
    ([], false)

/-- `none` for a principal whose id starts like a group bucket's or a virtual key's, one without a bound role, and one
whose bindings grant no pool. -/
def synthesizePrincipalKey (principal : Principal) (bindings : Option (Table String RoleBindingCfg)) :
    Option VirtualKey :=
  if (stripPrefix groupBucketPrefix principal.id).isSome || (stripPrefix vkIdPrefix principal.id).isSome then none
  else
    match bindings with
    | none => none
    | some table =>
      let granting := principal.roles.filterMap table.lookup
      if granting = [] then none
      else
        let (pools, allPools) := unionPools granting
        if allPools = false ∧ pools = [] then none
        else
          some {
            id := principal.id
            -- a marker: the key never authenticates anything
            generationHash := "principal:" ++ principal.id
            name := principal.name.getD principal.id
            allowedScopes := if allPools then none else some (pools.map ScopeRef.pool)
            enabled := true
            createdAt := 0
            group := granting.findSome? RoleBindingCfg.group
            labels := []
            expiresAt := none
            deletedAt := none
            revision := 0 }

/-- **A principal's key has the principal's id**, and that starts neither like a group bucket's nor like a key's. -/
theorem synthesizePrincipalKey_id {principal : Principal} {bindings : Option (Table String RoleBindingCfg)}
    {k : VirtualKey} (h : synthesizePrincipalKey principal bindings = some k) :
    k.id = principal.id ∧ stripPrefix groupBucketPrefix k.id = none ∧ stripPrefix vkIdPrefix k.id = none := by
  unfold synthesizePrincipalKey at h
  split at h
  · cases h
  rename_i hguard
  rw [Bool.or_eq_true, not_or, Bool.not_eq_true, Bool.not_eq_true, Option.isSome_eq_false_iff,
    Option.isSome_eq_false_iff, Option.isNone_iff_eq_none, Option.isNone_iff_eq_none] at hguard
  cases bindings with
  | none => cases h
  | some table =>
    dsimp only at h
    split at h
    · cases h
    · split at h
      · cases h
      · cases h
        exact ⟨rfl, hguard⟩

end Busbar
