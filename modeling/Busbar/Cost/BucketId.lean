import Busbar.Auth.Principal
import Busbar.Cost.Projection
import Busbar.Lib.Separator

/-!
# What a bucket id names

A bucket id strings the group's name, the window word and the scope together; names and scope values may hold the marks
between them. The same text can then be read as a bucket of another group.

* `isBucketOfGroup_idOf`: the groups a bucket's id is read to belong to.
* `Clear`: no name and no scope value holds what reads as the end of a shorter name.
* `unambiguous_iff`: the ids tell the buckets apart if and only if the configuration is clear.
-/

namespace Busbar

namespace LimitWindow

/-- `LimitWindow::ALL`. -/
def all : List LimitWindow := [minute, hour, day, month, total]

theorem mem_all (w : LimitWindow) : w ∈ all := by
  cases w <;> decide

/-- The five words hold none of the marks. -/
theorem marks_notMem (w : LimitWindow) : '@' ∉ w.asStr.toList ∧ '#' ∉ w.asStr.toList := by
  cases w <;> decide

theorem asStr_injective {w w' : LimitWindow} (h : w.asStr = w'.asStr) : w = w' := by
  cases w <;> cases w' <;> first | rfl | exact absurd h (by decide)

end LimitWindow

/-- What a scope adds to the id after its mark. -/
def ScopeRef.text (s : ScopeRef) : String := s.kind ++ ":" ++ s.value

/-- The first piece of `str::split` at a character. -/
def firstPiece (c : Char) (s : String) : String := String.ofList (s.toList.takeWhile (· ≠ c))

/-- The id is read as the prefix, the group's name, a mark, one of the window words, and a scope or nothing. -/
def isBucketOfGroup (bucketId group : String) : Bool :=
  match ((stripPrefix groupBucketPrefix bucketId).bind (stripPrefix group)).bind (stripPrefix "@") with
  | none => false
  | some tail => LimitWindow.all.any fun w => w.asStr == firstPiece '#' tail

/-! ## Reading an id -/

theorem firstPiece_eq {c : Char} {s w : String} (hw : c ∉ w.toList) :
    firstPiece c s = w ↔ ∃ t, Separated.Tail c t ∧ s.toList = w.toList ++ t := by
  unfold firstPiece
  rw [← String.toList_inj, String.toList_ofList]
  constructor
  · intro h
    refine ⟨s.toList.dropWhile (· ≠ c), ?_, by rw [← h, List.takeWhile_append_dropWhile]⟩
    cases hd : s.toList.dropWhile (· ≠ c) with
    | nil => exact Or.inl rfl
    | cons d r =>
      have hstop : ¬ decide (d ≠ c) = true := by
        have hhead := List.head?_dropWhile_not (fun x => decide (x ≠ c)) s.toList
        rw [hd] at hhead
        simpa using hhead
      rw [decide_eq_true_eq, not_not] at hstop
      exact hstop ▸ Separated.Tail.cons d r
  · rintro ⟨t, ht, hs⟩
    have hword : ∀ x ∈ w.toList, decide (x ≠ c) = true := by
      intro x hx
      rw [decide_eq_true_eq]
      rintro rfl
      exact hw hx
    rw [hs, List.takeWhile_append_of_pos hword]
    rcases ht with rfl | ⟨r, rfl⟩
    · rw [List.takeWhile_nil, List.append_nil]
    · simp

theorem isBucketOfGroup_iff {bucketId group : String} :
    isBucketOfGroup bucketId group = true ↔
      ∃ (w : LimitWindow) (t : List Char), Separated.Tail '#' t ∧
        bucketId.toList = groupBucketPrefix.toList ++ (group.toList ++ '@' :: (w.asStr.toList ++ t)) := by
  have hstrip : ∀ tail, ((stripPrefix groupBucketPrefix bucketId).bind (stripPrefix group)).bind (stripPrefix "@") =
      some tail ↔ bucketId.toList = groupBucketPrefix.toList ++ (group.toList ++ '@' :: tail.toList) := by
    intro tail
    simp only [Option.bind_eq_some_iff, stripPrefix_eq_some]
    constructor
    · rintro ⟨_, ⟨_, rfl, rfl⟩, rfl⟩
      simp
    · intro h
      refine ⟨"@" ++ tail, ⟨group ++ ("@" ++ tail), ?_, rfl⟩, rfl⟩
      rw [← String.toList_inj, h]
      simp
  unfold isBucketOfGroup
  constructor
  · intro h
    split at h
    · cases h
    · rename_i tail htail
      obtain ⟨w, -, hw⟩ := List.any_eq_true.1 h
      obtain ⟨t, ht, htl⟩ := (firstPiece_eq w.marks_notMem.2).1 (beq_iff_eq.1 hw).symm
      exact ⟨w, t, ht, by rw [(hstrip tail).1 htail, htl]⟩
  · rintro ⟨w, t, ht, hid⟩
    have htail := (hstrip (String.ofList (w.asStr.toList ++ t))).2 (by rw [hid, String.toList_ofList])
    rw [htail]
    refine List.any_eq_true.2 ⟨w, w.mem_all, beq_iff_eq.2 ?_⟩
    exact ((firstPiece_eq w.marks_notMem.2).2 ⟨t, ht, String.toList_ofList⟩).symm

/-- What follows the window word of an id. -/
def scopeTail : Option ScopeRef → List Char
  | none => []
  | some s => '#' :: s.text.toList

theorem scopeTail_tail (s : Option ScopeRef) : Separated.Tail '#' (scopeTail s) := by
  cases s with
  | none => exact Or.inl rfl
  | some s => exact Separated.Tail.cons '#' s.text.toList

theorem toList_idOf (n window : String) (s : Option ScopeRef) :
    (GroupBucket.idOf n window s).toList =
      groupBucketPrefix.toList ++ (n.toList ++ '@' :: (window.toList ++ scopeTail s)) := by
  cases s with
  | none => simp [GroupBucket.idOf, scopeTail]
  | some s => simp [GroupBucket.idOf, scopeTail, ScopeRef.text]

/-- The text ends in a mark and a window word, or goes on after them with the scope's mark. -/
def EndsName (u : String) (w : LimitWindow) (text : String) : Prop :=
  text = u ++ "@" ++ w.asStr ∨ ∃ r, text = u ++ "@" ++ w.asStr ++ "#" ++ r

theorem endsName_iff {u text : String} {w : LimitWindow} :
    EndsName u w text ↔ ∃ t, Separated.Tail '#' t ∧ text.toList = u.toList ++ '@' :: (w.asStr.toList ++ t) := by
  constructor
  · rintro (rfl | ⟨r, rfl⟩)
    · exact ⟨[], Or.inl rfl, by simp⟩
    · exact ⟨'#' :: r.toList, Separated.Tail.cons '#' r.toList, by simp⟩
  · rintro ⟨t, rfl | ⟨r, rfl⟩, h⟩
    · exact Or.inl (by rw [← String.toList_inj, h]; simp)
    · exact Or.inr ⟨String.ofList r, by rw [← String.toList_inj, h]; simp⟩

/-- **Whose bucket an id is read to be**: the group's own; that of a group whose name the group's name goes on from with
a mark, a window word and the scope's mark; or that of a group whose name takes in the bucket's own window. -/
theorem isBucketOfGroup_idOf {n group : String} {w : LimitWindow} {s : Option ScopeRef} :
    isBucketOfGroup (GroupBucket.idOf n w.asStr s) group = true ↔
      group = n ∨ (∃ (w' : LimitWindow) (r : String), n = group ++ "@" ++ w'.asStr ++ "#" ++ r) ∨
        ∃ (sc : ScopeRef) (u : String) (w' : LimitWindow), s = some sc ∧ group = n ++ "@" ++ w.asStr ++ "#" ++ u ∧
          EndsName u w' sc.text := by
  rw [isBucketOfGroup_iff]
  simp only [toList_idOf, List.append_cancel_left_eq]
  constructor
  · rintro ⟨w', t, ht, h⟩
    rcases Separated.split (by decide) w.marks_notMem w'.marks_notMem (scopeTail_tail s) ht h with
      ⟨heq, -, -⟩ | ⟨r, hgroup, htail⟩ | ⟨r, hname, -⟩
    · exact Or.inl (String.toList_inj.1 heq).symm
    · cases s with
      | none => cases htail
      | some sc =>
        refine Or.inr (Or.inr ⟨sc, String.ofList r, w', rfl, ?_, endsName_iff.2 ⟨t, ht, ?_⟩⟩)
        · rw [← String.toList_inj, hgroup]
          simp
        · rw [String.toList_ofList]
          exact (List.cons.inj htail).2
    · refine Or.inr (Or.inl ⟨w', String.ofList r, ?_⟩)
      rw [← String.toList_inj, hname]
      simp
  · rintro (rfl | ⟨w', r, rfl⟩ | ⟨sc, u, w', rfl, rfl, hends⟩)
    · exact ⟨w, scopeTail s, scopeTail_tail s, rfl⟩
    · refine ⟨w', '#' :: (r.toList ++ '@' :: (w.asStr.toList ++ scopeTail s)), Separated.Tail.cons _ _, ?_⟩
      simp
    · obtain ⟨t, ht, htext⟩ := endsName_iff.1 hends
      refine ⟨w', t, ht, ?_⟩
      simp [scopeTail, htext]

/-! ## The buckets of a configuration -/

namespace CostModel

/-- The group has a limit in this window and scope. -/
def Configured (groups : Table String GroupCfg) (n : String) (w : LimitWindow) (s : Option ScopeRef) : Prop :=
  ∃ cfg, groups.lookup n = some cfg ∧ ∃ l ∈ cfg.limits, l.Into w.asStr s

variable {groups : Table String GroupCfg}

theorem bucket_configured {g : GroupRuntime} {b : GroupBucket} (hg : g ∈ projectGroups groups) (hb : b ∈ g.buckets) :
    ∃ w : LimitWindow, b.window = w.asStr ∧ b.bucketId = GroupBucket.idOf g.name w.asStr b.scope ∧
      Configured groups g.name w b.scope := by
  obtain ⟨cfg, hrow, hproj, -⟩ := mem_projectGroups hg
  obtain ⟨l, hl, hinto⟩ := hproj.used b hb
  obtain ⟨w, -, hw⟩ := Option.map_eq_some_iff.1 hinto.2.1
  refine ⟨w, hw.symm, ?_, cfg, Table.lookup_eq_some.2 hrow, l, hl, hw.symm ▸ hinto⟩
  rw [hproj.ids b hb, hw]

theorem Configured.bucket {n : String} {w : LimitWindow} {s : Option ScopeRef} (h : Configured groups n w s) :
    ∃ g ∈ projectGroups groups, g.name = n ∧ ∃ b ∈ g.buckets, b.window = w.asStr ∧ b.scope = s ∧
      b.bucketId = GroupBucket.idOf n w.asStr s := by
  obtain ⟨cfg, hcfg, l, hl, hinto⟩ := h
  have hg : _ ∈ projectGroups groups := List.mem_map_of_mem (Table.lookup_eq_some.1 hcfg)
  obtain ⟨cfg', hrow, hproj, -⟩ := mem_projectGroups hg
  obtain rfl : cfg = cfg' := Option.some.inj (hcfg.symm.trans (Table.lookup_eq_some.2 hrow))
  obtain ⟨b, hb, hw, hs⟩ := hproj.covers l hl w.asStr s hinto
  refine ⟨_, hg, rfl, b, hb, hw, hs, ?_⟩
  rw [hproj.ids b hb, hw, hs]

/-- The ids the ledger may hold: of a bucket, of a virtual key, of a principal's key. -/
inductive LedgerId (groups : Table String GroupCfg) : String → Prop
  | bucket {g : GroupRuntime} {b : GroupBucket} (hg : g ∈ projectGroups groups) (hb : b ∈ g.buckets) :
      LedgerId groups b.bucketId
  | key (suffix : String) : LedgerId groups (vkIdPrefix ++ suffix)
  | principal {p : Principal} {bindings : Option (Table String RoleBindingCfg)} {k : VirtualKey}
      (h : synthesizePrincipalKey p bindings = some k) : LedgerId groups k.id

/-- A name that may be asked for: of a configured group, or one of the others, of a group that is gone. -/
def Asked (groups : Table String GroupCfg) (others : Set String) (name : String) : Prop :=
  name ∈ groupNames groups ∨ name ∈ others

/-- Ids tell the ledger's buckets apart. -/
structure Unambiguous (groups : Table String GroupCfg) (others : Set String) : Prop where
  buckets : ∀ g ∈ projectGroups groups, ∀ b ∈ g.buckets, ∀ g' ∈ projectGroups groups, ∀ b' ∈ g'.buckets,
    b.bucketId = b'.bucketId → g.name = g'.name ∧ b.window = b'.window ∧ b.scope = b'.scope
  keys : ∀ g ∈ projectGroups groups, ∀ b ∈ g.buckets, ∀ suffix, b.bucketId ≠ vkIdPrefix ++ suffix
  principals : ∀ g ∈ projectGroups groups, ∀ b ∈ g.buckets, ∀ p bindings k,
    synthesizePrincipalKey p bindings = some k → b.bucketId ≠ k.id
  reads : ∀ id, LedgerId groups id → ∀ name, Asked groups others name →
    (isBucketOfGroup id name = true ↔ ∃ g ∈ projectGroups groups, g.name = name ∧ ∃ b ∈ g.buckets, b.bucketId = id)

/-- No name of a group with buckets goes on from a name asked for with a mark, a window word and the scope's mark; no
scope of a bucket ends a name asked for that takes in the bucket's window; and within a window of a group scopes have
different texts, as those of one kind have. -/
structure Clear (groups : Table String GroupCfg) (others : Set String) : Prop where
  names : ∀ n w s, Configured groups n w s → ∀ name, Asked groups others name →
    ∀ (w' : LimitWindow) (r : String), n ≠ name ++ "@" ++ w'.asStr ++ "#" ++ r
  scopes : ∀ n w sc, Configured groups n w (some sc) → ∀ (u : String) (w' : LimitWindow), EndsName u w' sc.text →
    ¬ Asked groups others (n ++ "@" ++ w.asStr ++ "#" ++ u)
  texts : ∀ n w sc sc', Configured groups n w (some sc) → Configured groups n w (some sc') → sc.text = sc'.text →
    sc = sc'

theorem idOf_prefix (n window : String) (s : Option ScopeRef) : ∃ t, GroupBucket.idOf n window s = groupBucketPrefix ++ t := by
  refine ⟨String.ofList (n.toList ++ '@' :: (window.toList ++ scopeTail s)), ?_⟩
  rw [← String.toList_inj, toList_idOf, String.toList_append, String.toList_ofList]

theorem isBucketOfGroup_prefix {id group : String} (h : isBucketOfGroup id group = true) :
    ∃ t, id = groupBucketPrefix ++ t := by
  obtain ⟨w, t, -, hid⟩ := isBucketOfGroup_iff.1 h
  refine ⟨String.ofList (group.toList ++ '@' :: (w.asStr.toList ++ t)), ?_⟩
  rw [← String.toList_inj, hid, String.toList_append, String.toList_ofList]

/-- The group prefix starts like no virtual key's id. -/
theorem prefix_ne_key (t suffix : String) : groupBucketPrefix ++ t ≠ vkIdPrefix ++ suffix := by
  intro h
  rw [← String.toList_inj, String.toList_append, String.toList_append] at h
  exact absurd (List.cons.inj h).1 (by decide)

/-- A principal of such an id is given no key. -/
theorem prefix_ne_principal (t : String) {p : Principal} {bindings : Option (Table String RoleBindingCfg)}
    {k : VirtualKey} (h : synthesizePrincipalKey p bindings = some k) : groupBucketPrefix ++ t ≠ k.id := by
  intro heq
  obtain ⟨-, hnone, -⟩ := synthesizePrincipalKey_id h
  rw [← heq, stripPrefix_append] at hnone
  cases hnone

theorem name_ne (n : String) (word r : String) : n ≠ n ++ "@" ++ word ++ "#" ++ r := by
  intro h
  have hlen := congrArg (fun s => s.toList.length) h
  simp only [String.toList_append, List.length_append] at hlen
  have hmark : "@".toList.length = 1 := rfl
  omega

variable {others : Set String}

theorem Asked.of_runtime {g : GroupRuntime} (hg : g ∈ projectGroups groups) : Asked groups others g.name := by
  obtain ⟨cfg, hrow, -⟩ := mem_projectGroups hg
  exact Or.inl (List.mem_map_of_mem hrow)

/-- In a clear configuration an id is read as its own group's only. -/
theorem Clear.own (h : Clear groups others) {n name : String} {w : LimitWindow} {s : Option ScopeRef}
    (hconf : Configured groups n w s) (hname : Asked groups others name)
    (hread : isBucketOfGroup (GroupBucket.idOf n w.asStr s) name = true) : name = n := by
  rcases isBucketOfGroup_idOf.1 hread with heq | ⟨w', r, heq⟩ | ⟨sc, u, w', rfl, rfl, hends⟩
  · exact heq
  · exact absurd heq (h.names n w s hconf name hname w' r)
  · exact absurd hname (h.scopes n w sc hconf u w' hends)

/-- Within a group, ids differ as windows and scopes do. -/
theorem Clear.within (h : Clear groups others) {n : String} {w w' : LimitWindow} {s s' : Option ScopeRef}
    (hconf : Configured groups n w s) (hconf' : Configured groups n w' s')
    (heq : GroupBucket.idOf n w.asStr s = GroupBucket.idOf n w'.asStr s') : w = w' ∧ s = s' := by
  rw [← String.toList_inj, toList_idOf, toList_idOf, List.append_cancel_left_eq, List.append_cancel_left_eq] at heq
  obtain ⟨hw, htail⟩ := Separated.word_eq w.marks_notMem.2 w'.marks_notMem.2 (scopeTail_tail s) (scopeTail_tail s')
    (List.cons.inj heq).2
  obtain rfl := LimitWindow.asStr_injective (String.toList_inj.1 hw)
  refine ⟨rfl, ?_⟩
  cases s with
  | none =>
    cases s' with
    | none => rfl
    | some sc' => cases htail
  | some sc =>
    cases s' with
    | none => cases htail
    | some sc' =>
      have htext : sc.text = sc'.text := String.toList_inj.1 (List.cons.inj htail).2
      exact congrArg some (h.texts n w sc sc' hconf hconf' htext)

theorem Clear.unambiguous (h : Clear groups others) : Unambiguous groups others := by
  have hdiff : ∀ g ∈ projectGroups groups, ∀ b ∈ g.buckets, ∀ g' ∈ projectGroups groups, ∀ b' ∈ g'.buckets,
      b.bucketId = b'.bucketId → g.name = g'.name ∧ b.window = b'.window ∧ b.scope = b'.scope := by
    intro g hg b hb g' hg' b' hb' heq
    obtain ⟨w, hw, hid, hconf⟩ := bucket_configured hg hb
    obtain ⟨w', hw', hid', hconf'⟩ := bucket_configured hg' hb'
    have hread : isBucketOfGroup (GroupBucket.idOf g.name w.asStr b.scope) g'.name = true := by
      rw [← hid, heq, hid']
      exact isBucketOfGroup_idOf.2 (Or.inl rfl)
    have hname := h.own hconf (Asked.of_runtime hg') hread
    rw [hid, hid', hname] at heq
    rw [hname] at hconf'
    obtain ⟨hww, hss⟩ := h.within hconf hconf' heq
    exact ⟨hname.symm, by rw [hw, hw', hww], hss⟩
  have hkeys : ∀ g ∈ projectGroups groups, ∀ b ∈ g.buckets, ∀ suffix, b.bucketId ≠ vkIdPrefix ++ suffix := by
    intro g hg b hb suffix
    obtain ⟨w, -, hid, -⟩ := bucket_configured hg hb
    obtain ⟨t, ht⟩ := idOf_prefix g.name w.asStr b.scope
    rw [hid, ht]
    exact prefix_ne_key t suffix
  have hprincipals : ∀ g ∈ projectGroups groups, ∀ b ∈ g.buckets, ∀ p bindings k,
      synthesizePrincipalKey p bindings = some k → b.bucketId ≠ k.id := by
    intro g hg b hb p bindings k hk
    obtain ⟨w, -, hid, -⟩ := bucket_configured hg hb
    obtain ⟨t, ht⟩ := idOf_prefix g.name w.asStr b.scope
    rw [hid, ht]
    exact prefix_ne_principal t hk
  refine ⟨hdiff, hkeys, hprincipals, fun id hid name hname => ?_⟩
  constructor
  · intro hread
    cases hid with
    | bucket hg hb =>
      obtain ⟨w, -, hid, hconf⟩ := bucket_configured hg hb
      rw [hid] at hread
      exact ⟨_, hg, (h.own hconf hname hread).symm, _, hb, rfl⟩
    | key suffix =>
      obtain ⟨t, ht⟩ := isBucketOfGroup_prefix hread
      exact absurd ht.symm (prefix_ne_key t suffix)
    | principal hk =>
      obtain ⟨t, ht⟩ := isBucketOfGroup_prefix hread
      exact absurd ht.symm (prefix_ne_principal t hk)
  · rintro ⟨g, hg, rfl, b, hb, rfl⟩
    obtain ⟨w, -, hid, -⟩ := bucket_configured hg hb
    rw [hid]
    exact isBucketOfGroup_idOf.2 (Or.inl rfl)

theorem Unambiguous.clear (h : Unambiguous groups others) : Clear groups others := by
  -- a name asked for that an id is read to belong to is its group's
  have hown : ∀ n w s, Configured groups n w s → ∀ name, Asked groups others name →
      isBucketOfGroup (GroupBucket.idOf n w.asStr s) name = true → name = n := by
    intro n w s hconf name hname hread
    obtain ⟨g, hg, rfl, b, hb, -, -, hid⟩ := hconf.bucket
    rw [← hid] at hread
    obtain ⟨g', hg', rfl, b', hb', heq⟩ := (h.reads _ (.bucket hg hb) name hname).1 hread
    exact (h.buckets g' hg' b' hb' g hg b hb heq).1
  refine ⟨?_, ?_, ?_⟩
  · intro n w s hconf name hname w' r heq
    have hread := hown n w s hconf name hname (isBucketOfGroup_idOf.2 (Or.inr (Or.inl ⟨w', r, heq⟩)))
    rw [hread] at heq
    exact name_ne n w'.asStr r heq
  · intro n w sc hconf u w' hends hname
    have hread := hown n w (some sc) hconf _ hname (isBucketOfGroup_idOf.2 (Or.inr (Or.inr ⟨sc, u, w', rfl, rfl, hends⟩)))
    exact name_ne n w.asStr u hread.symm
  · intro n w sc sc' hconf hconf' htext
    obtain ⟨g, hg, -, b, hb, -, hs, hid⟩ := hconf.bucket
    obtain ⟨g', hg', -, b', hb', -, hs', hid'⟩ := hconf'.bucket
    have heq : b.bucketId = b'.bucketId := by
      rw [hid, hid', ← String.toList_inj, toList_idOf, toList_idOf, scopeTail, scopeTail, htext]
    have hscope := (h.buckets g hg b hb g' hg' b' hb' heq).2.2
    rw [hs, hs'] at hscope
    exact Option.some.inj hscope

/-- **Bucket ids name one bucket each**, of one group, exactly in the clear configurations. -/
theorem unambiguous_iff (groups : Table String GroupCfg) (others : Set String) :
    Unambiguous groups others ↔ Clear groups others :=
  ⟨Unambiguous.clear, Clear.unambiguous⟩

/-- A group of one budget. -/
def budgeted (window : LimitWindow) (scope : Option ScopeRef) : GroupCfg where
  parent := none
  enabled := true
  limits := [⟨.budget, 100, some window, scope, none⟩]

/-- A user, a user whose subject goes on from the first one's, and two groups that a pool's name makes meet. -/
def meetingGroups : Table String GroupCfg :=
  Table.insert "team" (budgeted .day (some (.pool "x@total"))) (Table.insert "team@day#pool:x" (budgeted .total none)
    (Table.insert "user:alice" (budgeted .total none)
      (Table.insert "user:alice@day#x" (budgeted .total none) Registry.empty)))

/-- One id for two groups' buckets, and a live group's bucket read to be another's. -/
theorem ids_meet :
    ((projectGroups meetingGroups).map fun g => (g.name, g.buckets.map GroupBucket.bucketId)) =
        [("team", ["group:team@day#pool:x@total"]), ("team@day#pool:x", ["group:team@day#pool:x@total"]),
          ("user:alice", ["group:user:alice@total"]), ("user:alice@day#x", ["group:user:alice@day#x@total"])] ∧
      isBucketOfGroup "group:user:alice@day#x@total" "user:alice" = true ∧ ¬ Unambiguous meetingGroups ∅ := by
  refine ⟨by decide +kernel, by decide +kernel, fun h => ?_⟩
  have hconf : Configured meetingGroups "user:alice@day#x" .total none :=
    ⟨budgeted .total none, by decide +kernel, _, List.mem_singleton_self _, by decide, rfl, rfl⟩
  exact h.clear.names _ _ _ hconf "user:alice" (Or.inl (by decide +kernel)) .day "x" (by decide +kernel)

end CostModel

end Busbar
