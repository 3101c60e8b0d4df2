import Mathlib.Data.List.Basic
import Mathlib.Data.List.Nodup

/-!
# Registries: finite tables of self-keyed rows

A registry holds rows that carry their own key, at most one row a key; the invariant is a field, so a
mis-filed or doubled row cannot be built. It is the model of a `HashMap<K, Row>` filled only by
`insert(row.key(), row)`.

* `mem_rows` / `get_eq_some`: the row found under a key is the row of the table with that key.
* `get_put`, `get_retain`, `get_erase`, `get_ofList`: what a lookup sees after each operation.
-/

/-- A table of rows of type `α`, filed under `key`. -/
structure Registry {κ α : Type} (key : α → κ) where
  rows : List α
  nodup : (rows.map key).Nodup

namespace Registry

variable {κ α : Type} {key : α → κ}

def empty : Registry key := ⟨[], List.nodup_nil⟩

instance : Inhabited (Registry key) := ⟨empty⟩

/-- Keep the rows `p` accepts. -/
def retain (p : α → Bool) (R : Registry key) : Registry key where
  rows := R.rows.filter p
  nodup := R.nodup.sublist (List.filter_sublist.map key)

@[simp] theorem mem_rows_retain {R : Registry key} {p : α → Bool} {a : α} :
    a ∈ (R.retain p).rows ↔ a ∈ R.rows ∧ p a = true := by
  simp [retain]

theorem eq_of_mem {R : Registry key} {a b : α} (ha : a ∈ R.rows) (hb : b ∈ R.rows) (h : key a = key b) :
    a = b := List.inj_on_of_nodup_map R.nodup ha hb h

variable [DecidableEq κ]

/-- The row filed under `k`. -/
def get (R : Registry key) (k : κ) : Option α := R.rows.find? (fun a => key a = k)

/-- Drop the row filed under `k`. -/
def erase (k : κ) (R : Registry key) : Registry key := R.retain (fun a => key a ≠ k)

/-- Insert a row, replacing the one filed under the same key. -/
def put (a : α) (R : Registry key) : Registry key where
  rows := a :: (R.erase (key a)).rows
  nodup := by
    refine List.nodup_cons.2 ⟨?_, (R.erase (key a)).nodup⟩
    simp [erase, retain]

/-- Collect rows in order; a later row replaces an earlier one of the same key. -/
def ofList (l : List α) : Registry key := l.foldl (fun R a => R.put a) empty

theorem mem_of_get {R : Registry key} {k : κ} {a : α} (h : R.get k = some a) : a ∈ R.rows :=
  List.mem_of_find?_eq_some h

theorem key_of_get {R : Registry key} {k : κ} {a : α} (h : R.get k = some a) : key a = k := by
  simpa using List.find?_some h

theorem get_of_mem {R : Registry key} {a : α} (h : a ∈ R.rows) : R.get (key a) = some a := by
  cases hg : R.get (key a) with
  | none =>
    have := List.find?_eq_none.1 hg a h
    simp at this
  | some b => rw [eq_of_mem (mem_of_get hg) h (key_of_get hg)]

theorem get_eq_some {R : Registry key} {k : κ} {a : α} : R.get k = some a ↔ a ∈ R.rows ∧ key a = k := by
  constructor
  · intro h; exact ⟨mem_of_get h, key_of_get h⟩
  · rintro ⟨h, rfl⟩; exact get_of_mem h

theorem get_eq_none {R : Registry key} {k : κ} : R.get k = none ↔ ∀ a ∈ R.rows, key a ≠ k := by
  simp [get, List.find?_eq_none]

theorem mem_rows_put {R : Registry key} {a b : α} :
    b ∈ (R.put a).rows ↔ b = a ∨ b ∈ R.rows ∧ key b ≠ key a := by
  simp [put, erase, retain]

@[simp] theorem get_empty (k : κ) : (empty : Registry key).get k = none := rfl

theorem get_put (R : Registry key) (a : α) (k : κ) :
    (R.put a).get k = if key a = k then some a else R.get k := by
  split
  · rename_i h; exact get_eq_some.2 ⟨mem_rows_put.2 (Or.inl rfl), h⟩
  · rename_i h
    ext b
    rw [get_eq_some, get_eq_some, mem_rows_put]
    constructor
    · rintro ⟨rfl | ⟨hb, -⟩, hk⟩
      · exact absurd hk h
      · exact ⟨hb, hk⟩
    · rintro ⟨hb, hk⟩
      exact ⟨Or.inr ⟨hb, fun e => h (e ▸ hk)⟩, hk⟩

@[simp] theorem get_put_self (R : Registry key) (a : α) : (R.put a).get (key a) = some a := by
  rw [get_put, if_pos rfl]

theorem get_put_ne (R : Registry key) {a : α} {k : κ} (h : key a ≠ k) : (R.put a).get k = R.get k := by
  rw [get_put, if_neg h]

@[simp] theorem get_retain (R : Registry key) (p : α → Bool) (k : κ) :
    (R.retain p).get k = (R.get k).filter p := by
  ext a
  rw [get_eq_some, mem_rows_retain, Option.filter_eq_some_iff, get_eq_some]
  tauto

theorem get_erase (R : Registry key) (k k' : κ) :
    (R.erase k).get k' = if k = k' then none else R.get k' := by
  rw [erase, get_retain]
  cases hg : R.get k' with
  | none => simp
  | some a =>
    have hk := key_of_get hg
    by_cases h : k = k'
    · simp [h, hk]
    · simp [h, hk, Ne.symm h]

theorem get_foldl_put (l : List α) (R : Registry key) (hl : (l.map key).Nodup) (k : κ) :
    (l.foldl (fun R a => R.put a) R).get k = ((l.find? (fun a => key a = k)).or (R.get k)) := by
  induction l generalizing R with
  | nil => simp
  | cons a l ih =>
    simp only [List.map_cons, List.nodup_cons] at hl
    rw [List.foldl_cons, ih _ hl.2, get_put, List.find?_cons]
    by_cases h : key a = k
    · have hn : l.find? (fun b => key b = k) = none := by
        rw [List.find?_eq_none]
        intro b hb e
        exact hl.1 (List.mem_map.2 ⟨b, hb, by simpa [h] using e⟩)
      simp [h, hn]
    · simp [h]

theorem get_ofList {l : List α} (hl : (l.map key).Nodup) (k : κ) :
    (ofList l : Registry key).get k = l.find? (fun a => key a = k) := by
  rw [ofList, get_foldl_put l empty hl k]; simp

theorem mem_ofList {l : List α} (hl : (l.map key).Nodup) {a : α} :
    a ∈ (ofList l : Registry key).rows ↔ a ∈ l := by
  constructor
  · intro h
    have := get_of_mem h
    rw [get_ofList hl] at this
    exact List.mem_of_find?_eq_some this
  · intro h
    cases hf : l.find? (fun b => key b = key a) with
    | none => exact absurd (List.find?_eq_none.1 hf a h) (by simp)
    | some b =>
      have hb : key b = key a := by simpa using List.find?_some hf
      have : b = a := List.inj_on_of_nodup_map hl (List.mem_of_find?_eq_some hf) h hb
      subst this
      rw [← get_ofList hl] at hf
      exact mem_of_get hf

end Registry

/-- A keyed table whose values do not carry their key: a `HashMap<K, V>`. -/
abbrev Table (κ β : Type) := Registry (Prod.fst : κ × β → κ)

namespace Table

variable {κ β : Type} [DecidableEq κ]

def lookup (T : Table κ β) (k : κ) : Option β := (T.get k).map Prod.snd

def insert (k : κ) (v : β) (T : Table κ β) : Table κ β := T.put (k, v)

theorem lookup_insert (T : Table κ β) (k k' : κ) (v : β) :
    (T.insert k v).lookup k' = if k = k' then some v else T.lookup k' := by
  simp only [lookup, insert, Registry.get_put]
  split <;> rfl

@[simp] theorem lookup_insert_self (T : Table κ β) (k : κ) (v : β) : (T.insert k v).lookup k = some v := by
  rw [lookup_insert, if_pos rfl]

theorem lookup_erase (T : Table κ β) (k k' : κ) :
    Table.lookup (Registry.erase k T) k' = if k = k' then none else T.lookup k' := by
  simp only [lookup, Registry.get_erase]
  split <;> rfl

theorem lookup_eq_some {T : Table κ β} {k : κ} {v : β} : T.lookup k = some v ↔ (k, v) ∈ T.rows := by
  simp only [lookup, Option.map_eq_some_iff, Registry.get_eq_some]
  constructor
  · rintro ⟨⟨k', v'⟩, ⟨hm, rfl⟩, rfl⟩; exact hm
  · intro h; exact ⟨(k, v), ⟨h, rfl⟩, rfl⟩

theorem lookup_retain (T : Table κ β) (p : κ × β → Bool) (k : κ) :
    Table.lookup (Registry.retain p T) k = (T.lookup k).filter (fun v => p (k, v)) := by
  ext v
  rw [lookup_eq_some, Registry.mem_rows_retain, Option.filter_eq_some_iff, lookup_eq_some]

theorem lookup_eq_none {T : Table κ β} {k : κ} : T.lookup k = none ↔ ∀ e ∈ T.rows, e.1 ≠ k := by
  rw [lookup, Option.map_eq_none_iff, Registry.get_eq_none]

/-- Rewrite every value, whatever its key. -/
def mapValues (f : κ → β → β) (T : Table κ β) : Table κ β where
  rows := T.rows.map (fun e => (e.1, f e.1 e.2))
  nodup := by
    rw [List.map_map]
    exact T.nodup

theorem lookup_mapValues (f : κ → β → β) (T : Table κ β) (k : κ) :
    (T.mapValues f).lookup k = (T.lookup k).map (f k) := by
  ext v
  rw [lookup_eq_some, Option.map_eq_some_iff]
  constructor
  · intro h
    obtain ⟨⟨k', v'⟩, hm, he⟩ := List.mem_map.1 h
    obtain ⟨rfl, rfl⟩ := Prod.mk.inj he
    exact ⟨v', lookup_eq_some.2 hm, rfl⟩
  · rintro ⟨v', hv', rfl⟩
    exact List.mem_map.2 ⟨(k, v'), lookup_eq_some.1 hv', rfl⟩

/-- Overwrite the value under `k` where it stands, or append it: a `Vec` of pairs kept by `find` and
`push`. -/
def set (k : κ) (v : β) (T : Table κ β) : Table κ β where
  rows := match T.lookup k with
    | some _ => T.rows.map (fun e => if e.1 = k then (k, v) else e)
    | none => T.rows ++ [(k, v)]
  nodup := by
    rcases hl : T.lookup k with _ | v₀
    · have hk := lookup_eq_none.1 hl
      rw [List.map_append, List.nodup_append]
      refine ⟨T.nodup, by simp, ?_⟩
      intro a ha b hb hab
      obtain ⟨e, he, rfl⟩ := List.mem_map.1 ha
      rw [List.map_singleton, List.mem_singleton] at hb
      exact hk e he (hab.trans hb)
    · have hkeys : (T.rows.map (fun e => if e.1 = k then (k, v) else e)).map Prod.fst
          = T.rows.map Prod.fst := by
        rw [List.map_map]
        apply List.map_congr_left
        intro e _
        by_cases h : e.1 = k <;> simp [h]
      show ((T.rows.map _).map Prod.fst).Nodup
      rw [hkeys]
      exact T.nodup

theorem rows_set (T : Table κ β) (k : κ) (v : β) :
    (T.set k v).rows = match T.lookup k with
      | some _ => T.rows.map (fun e => if e.1 = k then (k, v) else e)
      | none => T.rows ++ [(k, v)] := rfl

theorem mem_rows_set {T : Table κ β} {k : κ} {v : β} {e : κ × β} :
    e ∈ (T.set k v).rows ↔ e = (k, v) ∨ e ∈ T.rows ∧ e.1 ≠ k := by
  rw [rows_set]
  rcases hl : T.lookup k with _ | v₀
  · have hk := lookup_eq_none.1 hl
    simp only [List.mem_append, List.mem_singleton]
    constructor
    · rintro (he | he)
      · exact Or.inr ⟨he, hk e he⟩
      · exact Or.inl he
    · rintro (he | ⟨he, -⟩)
      · exact Or.inr he
      · exact Or.inl he
  · have hm := lookup_eq_some.1 hl
    simp only [List.mem_map]
    constructor
    · rintro ⟨e', he', rfl⟩
      by_cases h : e'.1 = k
      · rw [if_pos h]; exact Or.inl rfl
      · rw [if_neg h]; exact Or.inr ⟨he', h⟩
    · rintro (rfl | ⟨he, h⟩)
      · exact ⟨(k, v₀), hm, if_pos rfl⟩
      · exact ⟨e, he, if_neg h⟩

theorem lookup_set (T : Table κ β) (k k' : κ) (v : β) :
    (T.set k v).lookup k' = if k = k' then some v else T.lookup k' := by
  ext w
  rw [lookup_eq_some, mem_rows_set]
  by_cases h : k = k'
  · subst h
    rw [if_pos rfl]
    constructor
    · rintro (he | ⟨-, hne⟩)
      · rw [(Prod.mk.inj he).2]
      · exact absurd rfl hne
    · intro hv
      rw [Option.some.inj hv]
      exact Or.inl rfl
  · rw [if_neg h, lookup_eq_some]
    constructor
    · rintro (he | ⟨hm, -⟩)
      · exact absurd (Prod.mk.inj he).1.symm h
      · exact hm
    · intro hm
      exact Or.inr ⟨hm, Ne.symm h⟩

/-- Overwriting a value with itself changes nothing. -/
theorem set_lookup {T : Table κ β} {k : κ} {v : β} (h : T.lookup k = some v) : T.set k v = T := by
  have hrows : T.rows.map (fun e => if e.1 = k then (k, v) else e) = T.rows := by
    conv_rhs => rw [← List.map_id T.rows]
    apply List.map_congr_left
    intro e he
    by_cases hk : e.1 = k
    · have hv : T.lookup k = some e.2 := lookup_eq_some.2 (hk ▸ he)
      have : v = e.2 := Option.some.inj (h.symm.trans hv)
      rw [if_pos hk, this, ← hk]
      rfl
    · rw [if_neg hk]; rfl
  unfold set
  simp only [h, hrows]

end Table
