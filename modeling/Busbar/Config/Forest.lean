import Busbar.Config.Groups
import Busbar.Cost.Projection

/-!
# The groups as a forest

What the check of the tree accepts, and what the two walks over an accepted tree find.

* `walkParents_none_iff`: the check walks up without a repetition exactly from the groups whose way up ends.
* `forest_iff`: no missing parent and no cycle is reported if and only if every parent exists and no group is above
  itself; then the chain of a key is the way from its group to the root, and a template comes from the nearest group
  on the way that has one.
-/

namespace Busbar

namespace GroupTable

/-- The parent a group names. -/
def parentName (groups : GroupTable) (name : String) : Option String := (groups.lookup name).bind GroupEntry.parent

/-- Every group that is named as a parent exists. -/
def ParentsExist (groups : GroupTable) : Prop :=
  ∀ name parent, groups.parentName name = some parent → (groups.lookup parent).isSome = true

/-- No group is above itself. -/
def NoCycle (groups : GroupTable) : Prop := ∀ name, ¬Walk.Before groups.parentName name name

/-- A group with its ancestors up to the root. -/
abbrev PathUp (groups : GroupTable) : String → List String → Prop := Walk.Path groups.parentName

/-- The template of a group. -/
def templateOf (groups : GroupTable) (name : String) : Option ChildDefault :=
  (groups.lookup name).bind GroupEntry.childDefault

/-- What the cost model is built from. -/
def toCost (groups : GroupTable) : Table String GroupCfg where
  rows := groups.sorted.map (fun r => (r.1, r.2.toCfg))
  nodup := by
    rw [List.map_map]
    exact ((List.perm_insertionSort _ groups.rows).map Prod.fst).nodup_iff.2 groups.nodup

variable {groups : GroupTable} {name : String}

theorem mem_sorted {r : String × GroupEntry} : r ∈ groups.sorted ↔ groups.lookup r.1 = some r.2 := by
  unfold sorted
  rw [(List.perm_insertionSort _ groups.rows).mem_iff, Table.lookup_eq_some]

theorem lookup_toCost : groups.toCost.lookup name = (groups.lookup name).map GroupEntry.toCfg := by
  ext cfg
  rw [Table.lookup_eq_some, Option.map_eq_some_iff]
  unfold toCost
  rw [List.mem_map]
  constructor
  · rintro ⟨r, hr, heq⟩
    cases heq
    exact ⟨r.2, mem_sorted.1 hr, rfl⟩
  · rintro ⟨g, hg, rfl⟩
    exact ⟨(name, g), mem_sorted.2 hg, rfl⟩

theorem length_toCost (groups : GroupTable) : groups.toCost.rows.length = groups.rows.length := by
  unfold toCost sorted
  rw [List.length_map, List.length_insertionSort]

theorem parentOf_toCost (h : groups.ParentsExist) (name : String) :
    CostModel.parentOf groups.toCost name = groups.parentName name := by
  unfold CostModel.parentOf
  rw [lookup_toCost]
  cases hg : groups.lookup name with
  | none =>
    unfold parentName
    rw [hg]
    rfl
  | some g =>
    have hparent : groups.parentName name = g.parent := by
      unfold parentName
      rw [hg]
      rfl
    rw [hparent, Option.map_some, Option.bind_some]
    cases hp : g.parent with
    | none =>
      show Option.filter _ g.parent = none
      rw [hp]
      rfl
    | some parent =>
      have hsome := h name parent (hparent.trans hp)
      show Option.filter _ g.parent = some parent
      rw [hp, Option.filter_some, lookup_toCost, Option.isSome_map, hsome, if_pos rfl]

end GroupTable

open GroupTable

variable {groups : GroupTable} {name : String}

/-! ## The check -/

theorem parentName_of_lookup {g : GroupEntry} (h : groups.lookup name = some g) :
    groups.parentName name = g.parent := by
  unfold parentName
  rw [h]
  rfl

/-- The walk ends where the way up ends. -/
theorem path_of_walkParents (hexist : groups.ParentsExist) {path : List String} {cursor : Option String}
    (h : walkParents groups path cursor = none) :
    ∀ cur, cursor = some cur → (groups.lookup cur).isSome = true → ∃ l, groups.PathUp cur l := by
  fun_induction walkParents groups path cursor with
  | case1 => exact nofun
  | case2 path cur hseen => cases h
  | case3 path cur hseen hg =>
    rintro cur' hcur hsome
    cases hcur
    rw [hg] at hsome
    cases hsome
  | case4 path cur hseen g hg ih =>
    rintro cur' hcur -
    cases hcur
    have hparent := parentName_of_lookup hg
    cases hp : g.parent with
    | none => exact ⟨[cur], .stop (hparent.trans hp)⟩
    | some parent =>
      obtain ⟨l, hl⟩ := ih h parent hp (hexist cur parent (hparent.trans hp))
      exact ⟨cur :: l, .step (hparent.trans hp) hl⟩

/-- Without a cycle the walk meets no name again. -/
theorem walkParents_of_noCycle (hcycle : groups.NoCycle) {path : List String} {cursor : Option String}
    (hpath : ∀ n ∈ path, ∀ cur, cursor = some cur → Walk.Before groups.parentName n cur) :
    walkParents groups path cursor = none := by
  fun_induction walkParents groups path cursor with
  | case1 => rfl
  | case2 path cur hseen => exact absurd (hpath cur hseen cur rfl) (hcycle cur)
  | case3 => rfl
  | case4 path cur hseen g hg ih =>
    have hparent := parentName_of_lookup hg
    apply ih
    intro n hn parent hp
    have hstep : groups.parentName cur = some parent := hparent.trans hp
    rcases List.mem_append.1 hn with hn | hn
    · exact .tail (hpath n hn cur rfl) hstep
    · rw [List.mem_singleton.1 hn]
      exact .single hstep

/-- Where all ways up end there is no cycle. -/
theorem noCycle_of_paths (h : ∀ name, (groups.lookup name).isSome = true → ∃ l, groups.PathUp name l) :
    groups.NoCycle := by
  intro name hb
  obtain ⟨parent, hparent, -⟩ := Relation.TransGen.head'_iff.1 hb
  have hsome : (groups.lookup name).isSome = true := by
    unfold parentName at hparent
    obtain ⟨g, hg, -⟩ := Option.bind_eq_some_iff.1 hparent
    rw [hg]
    rfl
  obtain ⟨l, hl⟩ := h name hsome
  exact hl.no_return hb

/-! ## The reports -/

/-- The report of a parent that does not exist. -/
def MissingParent (e : String) : Prop := ∃ name parent,
  e = "groups." ++ name ++ " names parent '" ++ parent ++ "', which does not exist.\nPaste this under groups and set its "
    ++ "limits:\n\n    " ++ parent ++ ":\n      limits:\n        - \x7b requests: 0, per: minute \x7d\n"

/-- The report of a cycle. -/
def CyclicChain (e : String) : Prop := ∃ name path cur,
  e = "groups chain starting at '" ++ name ++ "' is CYCLIC (" ++ path ++ " -> " ++ cur
    ++ "); break the cycle by removing one `parent:`"

/-- Neither a missing parent nor a cycle is reported. -/
def ReportsForest (errors : List String) : Prop := ∀ e ∈ errors, ¬MissingParent e ∧ ¬CyclicChain e

theorem getLast?_append_right {a b : String} (hb : b.toList ≠ []) : (a ++ b).toList.getLast? = b.toList.getLast? := by
  rw [String.toList_append, List.getLast?_append_of_ne_nil _ hb]

theorem last_missing {e : String} (h : MissingParent e) : e.toList.getLast? = some '\n' := by
  obtain ⟨name, parent, rfl⟩ := h
  rw [getLast?_append_right (by decide)]
  rfl

theorem last_cyclic {e : String} (h : CyclicChain e) : e.toList.getLast? = some (Char.ofNat 0x60) := by
  obtain ⟨name, path, cur, rfl⟩ := h
  rw [getLast?_append_right (by decide)]
  rfl

/-- What is reported of a limit ends otherwise. -/
theorem last_limit {poolExists : String → Bool} {name field : String} {limit : LimitEntry} {e : String}
    (h : e ∈ limitErrors poolExists name field limit) :
    e.toList.getLast? = some 't' ∨ e.toList.getLast? = some 'n' := by
  unfold limitErrors at h
  rcases List.mem_append.1 h with h | h
  · left
    split at h
    · split at h
      · cases h
      · rw [List.mem_singleton.1 h, getLast?_append_right (by decide)]
        rfl
    · cases h
  · right
    split at h
    · split at h
      · cases h
      · rw [List.mem_singleton.1 h, getLast?_append_right (by decide)]
        rfl
    · cases h

/-- An entry is reported neither for its parent nor for a cycle exactly if the parent exists and the walk ends. -/
theorem groupErrors_iff {poolExists : String → Bool} {g : GroupEntry} :
    ReportsForest (groupErrors groups poolExists name g) ↔
      (∀ parent, g.parent = some parent → (groups.lookup parent).isSome = true) ∧
        walkParents groups [name] g.parent = none := by
  -- what is reported of the limits is neither of the two
  have hlimit : ∀ {field : String} {limits : List LimitEntry} {e : String},
      e ∈ limits.flatMap (limitErrors poolExists name field) → ¬MissingParent e ∧ ¬CyclicChain e := by
    intro field limits e he
    obtain ⟨limit, -, he⟩ := List.mem_flatMap.1 he
    have hlast := last_limit he
    refine ⟨fun h => ?_, fun h => ?_⟩
    · rw [last_missing h] at hlast
      revert hlast
      decide
    · rw [last_cyclic h] at hlast
      revert hlast
      decide
  have hmem : ∀ {a b c : List String}, (∀ e ∈ a, ¬MissingParent e ∧ ¬CyclicChain e) →
      (∀ e ∈ b, ¬MissingParent e ∧ ¬CyclicChain e) → (ReportsForest (a ++ b ++ c) ↔ ReportsForest c) := by
    intro a b c ha hb
    refine ⟨fun h e he => h e (List.mem_append_right _ he), fun h e he => ?_⟩
    rcases List.mem_append.1 he with he | he
    · rcases List.mem_append.1 he with he | he
      · exact ha e he
      · exact hb e he
    · exact h e he
  unfold groupErrors
  dsimp only
  rw [hmem (fun e he => hlimit he) (fun e he => hlimit he)]
  cases hp : g.parent with
  | none =>
    have hwalk : walkParents groups [name] none = none := by
      rw [walkParents]
    rw [Option.filter_none, hwalk]
    simp [ReportsForest]
  | some parent =>
    cases hexists : (groups.lookup parent).isNone with
    | true =>
      have hsome : (groups.lookup parent).isSome = false := by
        rw [← Option.not_isNone, hexists]
        rfl
      rw [Option.filter_some, hexists, if_pos rfl]
      constructor
      · intro h
        exact absurd ⟨name, parent, rfl⟩ (h _ (List.mem_singleton_self _)).1
      · rintro ⟨h, -⟩
        rw [h parent rfl] at hsome
        cases hsome
    | false =>
      have hsome : (groups.lookup parent).isSome = true := by
        rw [← Option.not_isNone, hexists]
        rfl
      rw [Option.filter_some, hexists, if_neg Bool.false_ne_true]
      dsimp only
      have hparent : ∀ p, some parent = some p → (groups.lookup p).isSome = true := by
        intro p h
        cases h
        exact hsome
      cases hwalk : walkParents groups [name] (some parent) with
      | none => simpa [ReportsForest] using hsome
      | some r =>
        obtain ⟨path, cur⟩ := r
        constructor
        · intro h
          exact absurd ⟨name, String.intercalate " -> " path, cur, rfl⟩ (h _ (List.mem_singleton_self _)).2
        · rintro ⟨-, h⟩
          cases h

/-- **The check reports neither a missing parent nor a cycle exactly on the forests.** -/
theorem reportsForest_iff (poolExists : String → Bool) :
    ReportsForest (validateGroups groups poolExists) ↔ groups.ParentsExist ∧ groups.NoCycle := by
  have hall : ReportsForest (validateGroups groups poolExists) ↔
      ∀ name g, groups.lookup name = some g → ReportsForest (groupErrors groups poolExists name g) := by
    unfold validateGroups
    constructor
    · intro h name g hg e he
      exact h e (List.mem_flatMap.2 ⟨(name, g), mem_sorted.2 hg, he⟩)
    · intro h e he
      obtain ⟨r, hr, he⟩ := List.mem_flatMap.1 he
      exact h r.1 r.2 (mem_sorted.1 hr) e he
  rw [hall]
  constructor
  · intro h
    have hexist : groups.ParentsExist := by
      intro name parent hparent
      obtain ⟨g, hg, hp⟩ := Option.bind_eq_some_iff.1 hparent
      exact (groupErrors_iff.1 (h name g hg)).1 parent hp
    refine ⟨hexist, noCycle_of_paths fun name hname => ?_⟩
    obtain ⟨g, hg⟩ := Option.isSome_iff_exists.1 hname
    have hwalk := (groupErrors_iff.1 (h name g hg)).2
    have hparent := parentName_of_lookup hg
    cases hp : g.parent with
    | none => exact ⟨[name], .stop (hparent.trans hp)⟩
    | some parent =>
      obtain ⟨l, hl⟩ := path_of_walkParents hexist hwalk parent hp (hexist name parent (hparent.trans hp))
      exact ⟨name :: l, .step (hparent.trans hp) hl⟩
  · rintro ⟨hexist, hcycle⟩ name g hg
    have hparent := parentName_of_lookup hg
    refine groupErrors_iff.2 ⟨fun parent hp => hexist name parent (hparent.trans hp), walkParents_of_noCycle hcycle ?_⟩
    intro n hn parent hp
    rw [List.mem_singleton.1 hn]
    exact .single (hparent.trans hp)

/-! ## The walks over an accepted tree -/

theorem exists_path (hexist : groups.ParentsExist) (hcycle : groups.NoCycle) (hname : (groups.lookup name).isSome = true) :
    ∃ l, groups.PathUp name l := by
  have hwalk : walkParents groups [] (some name) = none := walkParents_of_noCycle hcycle nofun
  exact path_of_walkParents hexist hwalk name rfl hname

theorem path_names (hexist : groups.ParentsExist) {l : List String} (h : groups.PathUp name l)
    (hname : (groups.lookup name).isSome = true) : ∀ n ∈ l, (groups.lookup n).isSome = true := by
  induction h with
  | stop _ =>
    intro n hn
    rw [List.mem_singleton.1 hn]
    exact hname
  | step hsome _ ih =>
    intro n hn
    rcases List.mem_cons.1 hn with rfl | hn
    · exact hname
    · exact ih (hexist _ _ hsome) n hn

/-- A way up is no longer than there are groups. -/
theorem length_path_le (hexist : groups.ParentsExist) {l : List String} (h : groups.PathUp name l)
    (hname : (groups.lookup name).isSome = true) : l.length ≤ groups.rows.length := by
  have hsub : l ⊆ groups.names := by
    intro n hn
    obtain ⟨g, hg⟩ := Option.isSome_iff_exists.1 (path_names hexist h hname n hn)
    exact mem_names hg
  have hle := (h.nodup.subperm hsub).length_le
  unfold names at hle
  rwa [List.length_map] at hle

/-- The template search follows the way up. -/
theorem childDefaultFrom_path {l : List String} (h : groups.PathUp name l) :
    ∀ {fuel}, l.length < fuel → childDefaultFrom groups fuel (some name) = l.findSome? groups.templateOf := by
  have hrow : ∀ {name : String} {fuel : Nat}, childDefaultFrom groups (fuel + 1) (some name) =
      (groups.templateOf name).or (childDefaultFrom groups fuel (groups.parentName name)) := by
    intro name fuel
    rw [childDefaultFrom]
    unfold templateOf parentName
    cases groups.lookup name with
    | none => cases fuel <;> rfl
    | some g =>
      dsimp only [Option.bind_some]
      cases g.childDefault <;> rfl
  induction h with
  | @stop name hnone =>
    intro fuel hfuel
    obtain ⟨fuel, rfl⟩ : ∃ m, fuel = m + 1 := ⟨fuel - 1, by omega⟩
    have hend : childDefaultFrom groups fuel none = none := by cases fuel <;> rfl
    rw [hrow, hnone, hend, Option.or_none, List.findSome?_singleton]
  | @step name parent l hsome _ ih =>
    intro fuel hfuel
    rw [List.length_cons] at hfuel
    obtain ⟨fuel, rfl⟩ : ∃ m, fuel = m + 1 := ⟨fuel - 1, by omega⟩
    rw [hrow, hsome, ih (by omega), List.findSome?_cons]
    cases groups.templateOf name <;> rfl

/-- What an accepted tree promises of a group: its way to the root, the chain of its keys and its template. -/
structure Rooted (groups : GroupTable) (name : String) (l : List String) : Prop where
  path : groups.PathUp name l
  nodup : l.Nodup
  chain : ∀ rates fee (key : VirtualKey), key.group = some name →
    ∃ chain, (CostModel.resolveParts rates fee groups.toCost).chainFor key = .ok chain ∧
      (chain.runtimes (CostModel.resolveParts rates fee groups.toCost)).map GroupRuntime.name = l ∧
      chain.buckets = CostModel.keyBucket key.id ::
        (chain.runtimes (CostModel.resolveParts rates fee groups.toCost)).flatMap
          (fun g => g.buckets.map (GroupBucket.toChain g.name))
  nearest : ∀ cd, resolveChildDefault groups name = some cd ↔
    ∃ below n above, l = below ++ n :: above ∧ groups.templateOf n = some cd ∧ ∀ m ∈ below, groups.templateOf m = none
  inherits : resolveChildDefault groups name = none ↔ ∀ n ∈ l, groups.templateOf n = none

theorem rooted (hexist : groups.ParentsExist) (hcycle : groups.NoCycle) (hname : (groups.lookup name).isSome = true) :
    ∃ l, Rooted groups name l := by
  obtain ⟨l, hl⟩ := exists_path hexist hcycle hname
  have hlen := length_path_le hexist hl hname
  have htemplate : resolveChildDefault groups name = l.findSome? groups.templateOf :=
    childDefaultFrom_path hl (by omega)
  refine ⟨l, hl, hl.nodup, ?_, ?_, ?_⟩
  · intro rates fee key hkey
    cases hchain : (CostModel.resolveParts rates fee groups.toCost).chainFor key with
    | error n =>
      obtain ⟨hgroup, hnone⟩ := CostModel.chainFor_error.1 hchain
      rw [hkey] at hgroup
      cases hgroup
      rw [lookup_toCost, Option.map_eq_none_iff] at hnone
      rw [hnone] at hname
      cases hname
    | ok chain =>
      obtain ⟨hnames, hbuckets⟩ := CostModel.chainFor_ok hchain
      refine ⟨chain, rfl, ?_, hbuckets⟩
      have hnext : CostModel.parentOf groups.toCost = groups.parentName := funext (parentOf_toCost hexist)
      rw [hnames, hkey, hnext, length_toCost]
      exact hl.walk_eq hlen
  · intro cd
    rw [htemplate, List.findSome?_eq_some_iff]
  · rw [htemplate, List.findSome?_eq_none_iff]

/-- **The check accepts exactly the forests**, and on a forest the walks over it agree: every group has one way to the
root, which is the chain of its keys, and its template comes from the nearest group on it that has one. -/
theorem forest_iff (groups : GroupTable) (poolExists : String → Bool) :
    (ReportsForest (validateGroups groups poolExists) ↔ groups.ParentsExist ∧ groups.NoCycle) ∧
      (ReportsForest (validateGroups groups poolExists) → ∀ name,
        ((groups.lookup name).isSome = true → ∃ l, Rooted groups name l) ∧
          (groups.lookup name = none → resolveChildDefault groups name = none)) := by
  refine ⟨reportsForest_iff poolExists, fun h name => ⟨fun hname => ?_, fun hnone => ?_⟩⟩
  · obtain ⟨hexist, hcycle⟩ := (reportsForest_iff poolExists).1 h
    exact rooted hexist hcycle hname
  · unfold resolveChildDefault
    rw [childDefaultFrom, hnone]

end Busbar
