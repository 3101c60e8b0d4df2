import Mathlib.Data.List.Nodup
import Busbar.Lib.Text

/-!
# YAML values

The values of the YAML library the configuration is read with. A mapping is a list of entries in their order; its keys
are distinct, and `remove` puts the last entry in the place of the one removed. The accessors look through tags, patterns
do not.

* `Mapping.get`, `Mapping.insert`, `Mapping.swapRemove`: a mapping by its string keys.
* `get_insert`, `get_swapRemove`: what each leaves at every other key.
* `Document`: a mapping without a string twice among the keys of any mapping in it.
-/

namespace Busbar

inductive YamlNumber where
  | posInt (n : Nat)
  | negInt (n : Nat)
  | float (bits : Nat)
  deriving DecidableEq, Repr

inductive Yaml where
  | null
  | bool (b : Bool)
  | number (n : YamlNumber)
  | string (s : String)
  | sequence (items : List Yaml)
  | mapping (entries : List (Yaml × Yaml))
  | tagged (tag : String) (value : Yaml)
  deriving Inhabited

abbrev Mapping := List (Yaml × Yaml)

namespace Yaml

/-- `untag_ref`. -/
def untag : Yaml → Yaml
  | .tagged _ v => untag v
  | v => v

def asStr (v : Yaml) : Option String :=
  match v.untag with
  | .string s => some s
  | _ => none

def asBool (v : Yaml) : Option Bool :=
  match v.untag with
  | .bool b => some b
  | _ => none

def asU64 (v : Yaml) : Option Nat :=
  match v.untag with
  | .number (.posInt n) => some n
  | _ => none

def asNumber (v : Yaml) : Option YamlNumber :=
  match v.untag with
  | .number n => some n
  | _ => none

def asSequence (v : Yaml) : Option (List Yaml) :=
  match v.untag with
  | .sequence items => some items
  | _ => none

def asMapping (v : Yaml) : Option Mapping :=
  match v.untag with
  | .mapping m => some m
  | _ => none

def isMapping (v : Yaml) : Bool := v.asMapping.isSome
def isSequence (v : Yaml) : Bool := v.asSequence.isSome

def isNull (v : Yaml) : Bool :=
  match v.untag with
  | .null => true
  | _ => false

/-- The pattern `Value::Mapping`. -/
def mapping? : Yaml → Option Mapping
  | .mapping m => some m
  | _ => none

/-- The pattern `Value::Sequence`. -/
def sequence? : Yaml → Option (List Yaml)
  | .sequence s => some s
  | _ => none

theorem mapping?_eq_some {v : Yaml} {m : Mapping} : v.mapping? = some m ↔ v = .mapping m := by
  cases v <;> simp [mapping?]

theorem sequence?_eq_some {v : Yaml} {s : List Yaml} : v.sequence? = some s ↔ v = .sequence s := by
  cases v <;> simp [sequence?]

/-! ## Equality -/

/-- Equality of `f64`, with one value for the numbers that are none. -/
def floatEq (a b : Nat) : Bool :=
  let magnitude (n : Nat) := n % 2 ^ 63
  let isNan (n : Nat) := decide (0x7FF0000000000000 < magnitude n)
  a = b || (magnitude a = 0 && magnitude b = 0) || (isNan a && isNan b)

def numberEq : YamlNumber → YamlNumber → Bool
  | .float a, .float b => floatEq a b
  | a, b => a = b

mutual

/-- `PartialEq`: mappings are equal if they have the same entries. -/
def eq : Yaml → Yaml → Bool
  | .null, .null => true
  | .bool a, .bool b => a = b
  | .number a, .number b => numberEq a b
  | .string a, .string b => a = b
  | .sequence a, .sequence b => eqItems a b
  | .mapping a, .mapping b => a.length = b.length && eqEntries a b
  | .tagged s a, .tagged t b => s = t && eq a b
  | _, _ => false

def eqItems : List Yaml → List Yaml → Bool
  | [], [] => true
  | a :: as, b :: bs => eq a b && eqItems as bs
  | _, _ => false

def eqEntries : List (Yaml × Yaml) → List (Yaml × Yaml) → Bool
  | [], _ => true
  | (k, v) :: as, bs => (bs.any fun e => eq k e.1 && eq v e.2) && eqEntries as bs

end

end Yaml

/-! ## Mappings -/

namespace Mapping

/-- The key is this string. -/
def isKey (k : String) : Yaml → Bool
  | .string s => s = k
  | _ => false

def get (m : Mapping) (k : String) : Option Yaml := (m.find? (fun e => isKey k e.1)).map Prod.snd

def containsKey (m : Mapping) (k : String) : Bool := m.any (fun e => isKey k e.1)

/-- A new key goes to the end, an old one stays where it is. -/
def insert (k : String) (v : Yaml) : Mapping → Mapping
  | [] => [(.string k, v)]
  | e :: m => if isKey k e.1 then (e.1, v) :: m else e :: insert k v m

/-- The entry of a key of any kind. -/
def insertKey (k v : Yaml) : Mapping → Mapping
  | [] => [(k, v)]
  | e :: m => if k.eq e.1 then (e.1, v) :: m else e :: insertKey k v m

/-- `remove`. -/
def swapRemove (k : String) (m : Mapping) : Mapping :=
  match m.findIdx? (fun e => isKey k e.1) with
  | none => m
  | some i =>
    match m.getLast? with
    | none => m
    | some e => (m.set i e).dropLast

/-- `get_mut`, with what is done to the value. -/
def modify (k : String) (f : Yaml → Yaml) (m : Mapping) : Mapping :=
  m.map fun e => if isKey k e.1 then (e.1, f e.2) else e

/-- The string keys. -/
def names (m : Mapping) : List String :=
  m.filterMap fun e => match e.1 with
    | .string s => some s
    | _ => none

end Mapping

namespace Yaml

mutual

/-- No mapping has a string twice among its keys; the parser accepts no others. -/
def keyed : Yaml → Bool
  | .sequence items => keyedItems items
  | .mapping m => decide (Mapping.names m).Nodup && keyedEntries m
  | .tagged _ v => keyed v
  | _ => true

def keyedItems : List Yaml → Bool
  | [] => true
  | v :: vs => keyed v && keyedItems vs

def keyedEntries : List (Yaml × Yaml) → Bool
  | [] => true
  | e :: m => keyed e.2 && keyedEntries m

end

end Yaml

/-- A parsed document that is a mapping. -/
structure Document where
  root : Mapping
  keyed : (Yaml.mapping root).keyed = true

namespace Mapping

/-! ## What the operations leave -/

/-- No string stands twice among the keys. -/
def Distinct (m : Mapping) : Prop := m.names.Nodup

variable {m m' : Mapping} {k k' : String} {v : Yaml}

theorem isKey_iff {x : Yaml} : isKey k x = true ↔ x = .string k := by
  cases x with
  | string s => simp [isKey]
  | _ => simp [isKey]

theorem isKey_self (k : String) : isKey k (.string k) = true := isKey_iff.2 rfl

theorem isKey_ne {x : Yaml} (hne : k' ≠ k) (h : isKey k x = true) : isKey k' x = false := by
  rw [isKey_iff] at h
  subst h
  rw [Bool.eq_false_iff, ne_eq, isKey_iff, Yaml.string.injEq]
  exact fun hk => hne hk.symm

theorem get_nil (k : String) : get [] k = none := rfl

theorem get_cons (e : Yaml × Yaml) (m : Mapping) (k : String) :
    get (e :: m) k = if isKey k e.1 then some e.2 else get m k := by
  unfold get
  rw [List.find?_cons]
  cases isKey k e.1 <;> rfl

theorem names_cons (e : Yaml × Yaml) (m : Mapping) :
    names (e :: m) = (match e.1 with | .string s => [s] | _ => []) ++ names m := by
  unfold names
  rw [List.filterMap_cons]
  cases e.1 <;> rfl

theorem mem_names : k ∈ m.names ↔ ∃ v, (.string k, v) ∈ m := by
  unfold names
  rw [List.mem_filterMap]
  constructor
  · rintro ⟨⟨key, v⟩, hmem, hkey⟩
    cases key with
    | string s =>
      obtain rfl := Option.some.inj hkey
      exact ⟨v, hmem⟩
    | _ => cases hkey
  · rintro ⟨v, hmem⟩
    exact ⟨_, hmem, rfl⟩

theorem containsKey_iff : m.containsKey k = true ↔ k ∈ m.names := by
  unfold containsKey
  rw [List.any_eq_true, mem_names]
  constructor
  · rintro ⟨⟨key, v⟩, hmem, hkey⟩
    rw [isKey_iff] at hkey
    dsimp only at hkey
    subst hkey
    exact ⟨v, hmem⟩
  · rintro ⟨v, hmem⟩
    exact ⟨_, hmem, isKey_self k⟩

theorem get_eq_none_iff : m.get k = none ↔ k ∉ m.names := by
  rw [← containsKey_iff, Bool.not_eq_true]
  unfold get containsKey
  rw [Option.map_eq_none_iff, List.find?_eq_none, List.any_eq_false]

theorem containsKey_eq (m : Mapping) (k : String) : m.containsKey k = (m.get k).isSome := by
  rw [Bool.eq_iff_iff, containsKey_iff, Option.isSome_iff_ne_none, ne_eq, get_eq_none_iff, not_not]

theorem mem_of_get (h : m.get k = some v) : (.string k, v) ∈ m := by
  unfold get at h
  obtain ⟨⟨key, w⟩, hfind, rfl⟩ := Option.map_eq_some_iff.1 h
  have hkey := List.find?_some hfind
  dsimp only at hkey
  obtain rfl := isKey_iff.1 hkey
  exact List.mem_of_find?_eq_some hfind

/-- With distinct keys, a member is the entry of its key. -/
theorem get_of_mem (hm : Distinct m) (h : (.string k, v) ∈ m) : m.get k = some v := by
  induction m with
  | nil => cases h
  | cons e m ih =>
    unfold Distinct at hm
    rw [names_cons] at hm
    rw [get_cons]
    rcases List.mem_cons.1 h with rfl | hmem
    · rw [if_pos (isKey_self k)]
    · have hno : isKey k e.1 = false := by
        rw [Bool.eq_false_iff, ne_eq, isKey_iff]
        intro hkey
        rw [hkey] at hm
        exact (List.nodup_cons.1 hm).1 (mem_names.2 ⟨v, hmem⟩)
      rw [hno, if_neg Bool.false_ne_true]
      exact ih (List.Nodup.of_append_right hm) hmem

theorem get_perm (hm : Distinct m) (h : m.Perm m') (k : String) : m'.get k = m.get k := by
  have hm' : Distinct m' := (h.filterMap _).nodup_iff.1 hm
  cases hget : m.get k with
  | some v => exact get_of_mem hm' (h.mem_iff.1 (mem_of_get hget))
  | none =>
    rw [get_eq_none_iff] at hget ⊢
    exact fun hmem => hget ((h.filterMap _).mem_iff.2 hmem)

/-! ### Documents -/

theorem keyed_mapping : (Yaml.mapping m).keyed = true ↔ Distinct m ∧ ∀ e ∈ m, e.2.keyed = true := by
  have hentries : ∀ l : List (Yaml × Yaml), Yaml.keyedEntries l = true ↔ ∀ e ∈ l, e.2.keyed = true := by
    intro l
    induction l with
    | nil => exact ⟨fun _ e he => absurd he List.not_mem_nil, fun _ => by unfold Yaml.keyedEntries; rfl⟩
    | cons e l ih =>
      unfold Yaml.keyedEntries
      rw [Bool.and_eq_true, ih, List.forall_mem_cons]
  have hkeyed : (Yaml.mapping m).keyed = (decide (names m).Nodup && Yaml.keyedEntries m) := by
    conv_lhs => unfold Yaml.keyed
  rw [hkeyed, Bool.and_eq_true, decide_eq_true_eq, hentries]
  rfl

theorem keyed_get (hm : (Yaml.mapping m).keyed = true) (h : m.get k = some v) : v.keyed = true :=
  (keyed_mapping.1 hm).2 _ (mem_of_get h)

/-! ### Insertion -/

@[simp] theorem get_insert (m : Mapping) (k k' : String) (v : Yaml) :
    (insert k v m).get k' = if k' = k then some v else m.get k' := by
  induction m with
  | nil =>
    unfold insert
    rw [get_cons]
    by_cases hk : k' = k
    · subst hk
      rw [if_pos (isKey_self _), if_pos rfl]
    · rw [if_neg hk, if_neg]
      rw [isKey_iff, Yaml.string.injEq]
      exact fun h => hk h.symm
  | cons e m ih =>
    unfold insert
    by_cases hkey : isKey k e.1 = true
    · rw [if_pos hkey, get_cons, get_cons]
      by_cases hk : k' = k
      · subst hk
        rw [if_pos hkey, if_pos rfl]
      · rw [isKey_ne hk hkey, if_neg hk, if_neg Bool.false_ne_true, if_neg Bool.false_ne_true]
    · rw [if_neg hkey, get_cons, get_cons, ih]
      by_cases hk : k' = k
      · subst hk
        rw [if_neg hkey, if_pos rfl, if_pos rfl]
      · rw [if_neg hk, if_neg hk]

theorem mem_insert {e : Yaml × Yaml} (h : e ∈ insert k v m) : e ∈ m ∨ e = (.string k, v) := by
  induction m with
  | nil =>
    rw [List.mem_singleton.1 h]
    exact Or.inr rfl
  | cons x m ih =>
    unfold insert at h
    by_cases hkey : isKey k x.1 = true
    · rw [if_pos hkey] at h
      rcases List.mem_cons.1 h with rfl | h
      · rw [isKey_iff.1 hkey]
        exact Or.inr rfl
      · exact Or.inl (List.mem_cons_of_mem _ h)
    · rw [if_neg hkey] at h
      rcases List.mem_cons.1 h with rfl | h
      · exact Or.inl List.mem_cons_self
      · exact (ih h).imp (List.mem_cons_of_mem _) id

theorem names_insert (m : Mapping) (k : String) (v : Yaml) :
    (insert k v m).names = if k ∈ m.names then m.names else m.names ++ [k] := by
  induction m with
  | nil => rfl
  | cons e m ih =>
    unfold insert
    by_cases hkey : isKey k e.1 = true
    · have hmem : k ∈ names (e :: m) := by
        rw [isKey_iff] at hkey
        rw [names_cons, hkey]
        exact List.mem_cons_self
      rw [if_pos hkey, if_pos hmem, names_cons, names_cons]
    · have hmem : k ∈ names (e :: m) ↔ k ∈ names m := by
        rw [names_cons, List.mem_append]
        constructor
        · rintro (h | h)
          · cases hx : e.1 with
            | string s =>
              rw [hx] at h
              obtain rfl := List.mem_singleton.1 h
              exact absurd (isKey_iff.2 hx) hkey
            | _ =>
              rw [hx] at h
              cases h
          · exact h
        · exact Or.inr
      rw [if_neg hkey, names_cons, ih, names_cons]
      by_cases hk : k ∈ names m
      · rw [if_pos hk, if_pos (names_cons e m ▸ hmem.2 hk)]
      · rw [if_neg hk, if_neg (fun h => hk (hmem.1 (names_cons e m ▸ h))), List.append_assoc]

theorem distinct_insert (hm : Distinct m) (k : String) (v : Yaml) : Distinct (insert k v m) := by
  unfold Distinct
  rw [names_insert]
  by_cases hk : k ∈ m.names
  · rw [if_pos hk]
    exact hm
  · rw [if_neg hk]
    exact List.nodup_append.2 ⟨hm, List.nodup_singleton k, fun a ha b hb => by
      obtain rfl := List.mem_singleton.1 hb
      rintro rfl
      exact hk ha⟩

/-! ### Removal -/

theorem names_append (m m' : Mapping) : names (m ++ m') = m.names ++ names m' := List.filterMap_append

theorem mem_swapRemove {e : Yaml × Yaml} (h : e ∈ m.swapRemove k) : e ∈ m := by
  unfold swapRemove at h
  split at h
  · exact h
  · split at h
    · exact h
    · next last hlast =>
      rcases List.mem_or_eq_of_mem_set (List.dropLast_subset _ h) with h | h
      · exact h
      · rw [h]
        exact List.mem_of_getLast? hlast

theorem swapRemove_of_absent (h : m.get k = none) : m.swapRemove k = m := by
  have hidx : m.findIdx? (fun e => isKey k e.1) = none := by
    rw [List.findIdx?_eq_none_iff]
    intro e he
    unfold get at h
    exact Bool.eq_false_iff.2 (List.find?_eq_none.1 (Option.map_eq_none_iff.1 h) e he)
  unfold swapRemove
  rw [hidx]

/-- What is removed is the entry of the key; the others change places at most. -/
theorem swapRemove_perm (hm : Distinct m) (k : String) :
    (m.swapRemove k).Perm (m.filter fun e => !isKey k e.1) := by
  have hkeep : ∀ {l : Mapping}, k ∉ l.names → (l.filter fun e => !isKey k e.1) = l := by
    intro l hl
    rw [List.filter_eq_self]
    intro e he
    rw [Bool.not_eq_true', Bool.eq_false_iff, ne_eq, isKey_iff]
    intro hkey
    exact hl (mem_names.2 ⟨e.2, by rw [← hkey]; exact he⟩)
  unfold swapRemove
  cases hidx : m.findIdx? (fun e => isKey k e.1) with
  | none =>
    have hno : k ∉ m.names := by
      intro hmem
      obtain ⟨v, hv⟩ := mem_names.1 hmem
      have hkey := List.findIdx?_eq_none_iff.1 hidx _ hv
      rw [isKey_self] at hkey
      cases hkey
    rw [hkeep hno]
  | some i =>
    obtain ⟨hi, hkey, -⟩ := List.findIdx?_eq_some_iff_getElem.1 hidx
    obtain ⟨l, x, r, hsplit, hlen, hx⟩ : ∃ l x r, m = l ++ x :: r ∧ l.length = i ∧ isKey k x.1 = true := by
      refine ⟨m.take i, m[i], m.drop (i + 1), ?_, List.length_take_of_le hi.le, hkey⟩
      rw [List.getElem_cons_drop, List.take_append_drop]
    rw [isKey_iff] at hx
    subst hsplit hlen
    -- no other entry has the key
    unfold Distinct at hm
    rw [names_append, names_cons, hx, List.singleton_append, List.nodup_append] at hm
    obtain ⟨-, hr, hdisj⟩ := hm
    have hl : k ∉ names l := fun hmem => hdisj k hmem k List.mem_cons_self rfl
    rw [List.filter_append, List.filter_cons, isKey_iff.2 hx, Bool.not_true, if_neg Bool.false_ne_true, hkeep hl,
      hkeep (List.nodup_cons.1 hr).1]
    rcases List.eq_nil_or_concat r with rfl | ⟨r', e, rfl⟩
    · simp
    · have hlast : (l ++ x :: r'.concat e).getLast? = some e := by
        rw [List.concat_eq_append, ← List.cons_append, ← List.append_assoc, List.getLast?_concat]
      rw [hlast]
      dsimp only
      rw [List.concat_eq_append, List.set_append_right _ _ le_rfl, Nat.sub_self, List.set_cons_zero, List.dropLast_append_of_ne_nil (by simp)]
      refine List.Perm.append_left l ?_
      rw [← List.cons_append, List.dropLast_concat]
      exact (List.perm_append_singleton e r').symm

theorem distinct_filter (hm : Distinct m) (p : Yaml × Yaml → Bool) : Distinct (m.filter p) :=
  List.Nodup.sublist (List.filter_sublist.filterMap _) hm

theorem distinct_swapRemove (hm : Distinct m) (k : String) : Distinct (m.swapRemove k) :=
  (((swapRemove_perm hm k).filterMap _).nodup_iff).2 (distinct_filter hm _)

/-- **Removal.** The key is gone, and nothing else. -/
theorem get_swapRemove (hm : Distinct m) (k k' : String) :
    (m.swapRemove k).get k' = if k' = k then none else m.get k' := by
  rw [← get_perm (distinct_swapRemove hm k) (swapRemove_perm hm k)]
  by_cases hk : k' = k
  · subst hk
    rw [if_pos rfl, get_eq_none_iff, mem_names]
    rintro ⟨v, hv⟩
    have hno := List.mem_filter.1 hv
    rw [isKey_self] at hno
    cases hno.2
  · rw [if_neg hk]
    cases hget : m.get k' with
    | some v =>
      refine get_of_mem (distinct_filter hm _) (List.mem_filter.2 ⟨mem_of_get hget, ?_⟩)
      rw [Bool.not_eq_true', Bool.eq_false_iff, ne_eq, isKey_iff, Yaml.string.injEq]
      exact hk
    | none =>
      rw [get_eq_none_iff, mem_names] at hget ⊢
      rintro ⟨v, hv⟩
      exact hget ⟨v, (List.mem_filter.1 hv).1⟩

/-! ### Rewriting values -/

theorem names_map (f : Yaml × Yaml → Yaml) (m : Mapping) : names (m.map fun e => (e.1, f e)) = m.names := by
  unfold names
  rw [List.filterMap_map]
  rfl

/-- Values that are rewritten are found under their keys. -/
theorem get_map (f : Yaml → Yaml → Yaml) (m : Mapping) (k : String) :
    get (m.map fun e => (e.1, f e.1 e.2)) k = (m.get k).map (f (.string k)) := by
  induction m with
  | nil => rfl
  | cons e m ih =>
    rw [List.map_cons, get_cons, get_cons, ih]
    by_cases hkey : isKey k e.1 = true
    · rw [if_pos hkey, if_pos hkey, isKey_iff.1 hkey, Option.map_some]
    · rw [if_neg hkey, if_neg hkey]

@[simp] theorem get_modify (k k' : String) (f : Yaml → Yaml) (m : Mapping) :
    (m.modify k f).get k' = if k' = k then (m.get k).map f else m.get k' := by
  have hmap : m.modify k f = m.map fun e => (e.1, if isKey k e.1 then f e.2 else e.2) := by
    refine List.map_congr_left fun e _ => ?_
    by_cases hkey : isKey k e.1 = true
    · rw [if_pos hkey, if_pos hkey]
    · rw [if_neg hkey, if_neg hkey]
  rw [hmap, get_map fun key v => if isKey k key then f v else v]
  by_cases hk : k' = k
  · subst hk
    rw [if_pos rfl, isKey_self]
    rfl
  · have hno : isKey k (.string k') = false := by
      rw [Bool.eq_false_iff, ne_eq, isKey_iff, Yaml.string.injEq]
      exact hk
    rw [if_neg hk, hno]
    exact Option.map_id' ..

theorem distinct_modify (hm : Distinct m) (k : String) (f : Yaml → Yaml) : Distinct (m.modify k f) := by
  have hnames : (m.modify k f).names = m.names := by
    unfold names modify
    rw [List.filterMap_map]
    refine List.filterMap_congr fun e _ => ?_
    dsimp only [Function.comp]
    by_cases hkey : isKey k e.1 = true
    · rw [if_pos hkey]
    · rw [if_neg hkey]
  unfold Distinct
  rw [hnames]
  exact hm

end Mapping

end Busbar
