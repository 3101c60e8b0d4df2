import Busbar.Config.Migrate.Cleared

/-!
# Export without marks

An entry of `export` without a module gets one if it has the name of a retired type. Any other is left with an item, if the
projection of its streams is looked at at all.

* `EntriesRead`: the entries before the named map.
* `EntriesNamed`: the entries after it.
* `export_cleared`: the projection pass.
-/

namespace Busbar.Migrate

open Logged

variable {lib : YamlLib} {root : Mapping} {entries entries' : Mapping}

/-- An entry that lacks a module has a name that no other key reads as, and no streams. -/
def LackOk (entries : Mapping) (e : Yaml × Yaml) : Prop :=
  ∃ s v, e = (.string s, v) ∧ (∀ inst, v = .mapping inst → Mapping.get inst "streams" = none) ∧
    ∀ e' ∈ entries, e'.1.asStr.getD "" = s → e'.1 = .string s

/-- An entry that lacks a module is retired, or will be looked at. -/
def EntriesRead (entries : Mapping) : Prop :=
  ∀ e ∈ entries, typeKeyed e.2 = true → (retiredExport e).isSome = true ∨ LackOk entries e

def EntriesNamed (entries : Mapping) : Prop := ∀ e ∈ entries, typeKeyed e.2 = true → LackOk entries e

/-- What holds of the entries of a document. -/
def OfExport (P : Mapping → Prop) (root : Mapping) : Prop := ∀ entries, root.get "export" = some (.mapping entries) → P entries

/-- New entries with names in their keys are in no other's way. -/
theorem LackOk.mono {e : Yaml × Yaml} (h : LackOk entries e) (hsub : ∀ e' ∈ entries', e' ∈ entries ∨ ∃ n, e'.1 = .string n) :
    LackOk entries' e := by
  obtain ⟨s, v, he, hstreams, hname⟩ := h
  refine ⟨s, v, he, hstreams, fun e' he' hs => ?_⟩
  rcases hsub e' he' with hmem | ⟨n, hn⟩
  · exact hname e' hmem hs
  · rw [hn] at hs ⊢
    exact congrArg Yaml.string hs

theorem sub_insert (name : String) (v : Yaml) : ∀ e' ∈ Mapping.insert name v entries, e' ∈ entries ∨ ∃ n, e'.1 = .string n := by
  intro e' he'
  rcases Mapping.mem_insert he' with he' | rfl
  · exact Or.inl he'
  · exact Or.inr ⟨name, rfl⟩

theorem get_insertExport (name : String) (v : Yaml) (root : Mapping) :
    (insertExport name v root).get "export" = some (.mapping (Mapping.insert name v (asMap ((root.get "export").getD .null)))) := by
  unfold insertExport exportMap
  rw [Mapping.get_modify, if_pos rfl, Mapping.get_modify, if_pos rfl, get_orEmpty, if_pos rfl]
  cases root.get "export" with
  | none => rfl
  | some w => cases w <;> rfl

section

variable {P : Mapping → Prop}

theorem OfExport.congr {root' : Mapping} (hget : root'.get "export" = root.get "export") (h : OfExport P root) : OfExport P root' :=
  fun entries hentries => h entries (hget ▸ hentries)

theorem ofExport_insertExport {name : String} {v : Yaml} (hnil : P [])
    (hinsert : ∀ entries, P entries → P (Mapping.insert name v entries)) (h : OfExport P root) :
    OfExport P (insertExport name v root) := by
  intro entries' hget
  rw [get_insertExport] at hget
  obtain rfl := Yaml.mapping.inj (Option.some.inj hget)
  refine hinsert _ ?_
  cases hold : root.get "export" with
  | none => exact hnil
  | some w =>
    cases w with
    | mapping entries => exact h entries hold
    | _ => exact hnil

/-- The blocks of old become entries with their names. -/
theorem ofExport_migrateObservabilityExport (hnil : P [])
    (hinsert : ∀ name v entries, (retiredExport (str name, v)).isSome = true → P entries → P (Mapping.insert name v entries))
    (hroot : Mapping.Distinct root) (h : OfExport P root) : OfExport P (migrateObservabilityExport lib root).value := by
  have hwebhook : OfExport P (migrateWebhook root).value := by
    unfold migrateWebhook
    split
    · exact h
    · next obs hobs =>
      dsimp only
      have hsame : OfExport P (if (takeKeys webhookKeys obs).2.isEmpty then root.swapRemove "observability"
          else Mapping.insert "observability" (.mapping (takeKeys webhookKeys obs).2) root) := by
        refine h.congr ?_
        split
        · rw [Mapping.get_swapRemove hroot, if_neg (by decide)]
        · rw [Mapping.get_insert, if_neg (by decide)]
      split
      · exact ofExport_insertExport hnil (fun entries => hinsert _ _ entries rfl) hsame
      · exact hsame
  have hdistinct := (migrateWebhook_changes hroot).1
  unfold migrateObservabilityExport
  rw [value_bind]
  generalize (migrateWebhook root).value = root1 at hwebhook hdistinct ⊢
  have hremoved : OfExport P (root1.swapRemove "metrics") :=
    hwebhook.congr ((Mapping.get_swapRemove hdistinct ..).trans (if_neg (by decide)))
  unfold migrateMetrics take
  cases root1.get "metrics" with
  | none => exact hremoved
  | some v =>
    cases v with
    | mapping metrics => exact ofExport_insertExport hnil (fun entries => hinsert _ _ entries rfl) hremoved
    | _ => exact hremoved

/-- What is left of the block becomes an entry with a module. -/
theorem ofExport_migrateObservabilityBlock (hnil : P [])
    (hinsert : ∀ name v entries, typeKeyed v = false → P entries → P (Mapping.insert name v entries))
    (hroot : Mapping.Distinct root) (h : OfExport P root) : OfExport P (migrateObservabilityBlock lib root).value := by
  have hremoved : OfExport P (root.swapRemove "observability") :=
    h.congr ((Mapping.get_swapRemove hroot ..).trans (if_neg (by decide)))
  unfold migrateObservabilityBlock take
  cases root.get "observability" with
  | none => exact hremoved
  | some v =>
    cases v with
    | mapping obs =>
      dsimp only
      split
      · exact ofExport_insertExport hnil (fun entries => hinsert _ _ entries rfl) hremoved
      · exact hremoved
    | _ => exact hremoved

end

theorem entriesRead_insert {name : String} {v : Yaml} (hv : (retiredExport (str name, v)).isSome = true)
    (h : EntriesRead entries) : EntriesRead (Mapping.insert name v entries) := by
  intro e he hlack
  rcases Mapping.mem_insert he with hmem | rfl
  · exact (h e hmem hlack).imp id fun hok => hok.mono (sub_insert name v)
  · exact Or.inl hv

theorem entriesNamed_insert {name : String} {v : Yaml} (hv : typeKeyed v = false) (h : EntriesNamed entries) :
    EntriesNamed (Mapping.insert name v entries) := by
  intro e he hlack
  rcases Mapping.mem_insert he with hmem | rfl
  · exact (h e hmem hlack).mono (sub_insert name v)
  · rw [hv] at hlack
    cases hlack

/-! ## The named map -/

theorem mem_renameExports {es kept : Mapping} : ∀ e ∈ (renameExports es kept).value,
    e ∈ kept ∨ ∃ n v, e = (.string n, v) ∧ typeKeyed v = false := by
  induction es generalizing kept with
  | nil => exact fun e he => Or.inl he
  | cons x es ih =>
    intro e he
    unfold renameExports at he
    cases hret : retiredExport x with
    | none =>
      rw [hret] at he
      exact ih e he
    | some t =>
      rw [hret] at he
      change e ∈ (renameExports es (renameExport t x.2 kept).value).value at he
      rcases ih e he with hmem | hnew
      · change e ∈ Mapping.insert _ _ kept at hmem
        rcases Mapping.mem_insert hmem with hmem | rfl
        · exact Or.inl hmem
        · exact Or.inr ⟨_, _, rfl, rfl⟩
      · exact Or.inr hnew

theorem exportNamed_migrateExportNamedMap (h : OfExport EntriesRead root) :
    OfExport EntriesNamed (migrateExportNamedMap root).value := by
  unfold migrateExportNamedMap
  cases hmap : (root.get "export").bind Yaml.mapping? with
  | none =>
    intro entries hget
    rw [value_pure] at hget
    rw [hget] at hmap
    cases hmap
  | some entries =>
    obtain ⟨v, hget, hv⟩ := Option.bind_eq_some_iff.1 hmap
    rw [Yaml.mapping?_eq_some] at hv
    subst hv
    have hread := h entries hget
    dsimp only
    split
    · next hall =>
      -- no entry is retired
      intro entries' hget' e he hlack
      rw [value_pure, hget] at hget'
      obtain rfl := Yaml.mapping.inj (Option.some.inj hget')
      rcases hread e he hlack with hret | hok
      · have hno := List.all_eq_true.1 hall e he
        rw [Option.isNone_iff_eq_none] at hno
        rw [hno] at hret
        cases hret
      · exact hok
    · intro entries' hget' e he hlack
      rw [value_bind, value_pure, Mapping.get_insert, if_pos rfl] at hget'
      obtain rfl := Yaml.mapping.inj (Option.some.inj hget')
      have hsub : ∀ e' ∈ (renameExports entries (entries.filter fun e => (retiredExport e).isNone)).value,
          e' ∈ entries ∨ ∃ n, e'.1 = .string n := by
        intro e' he'
        rcases mem_renameExports e' he' with hmem | ⟨n, v, rfl, -⟩
        · exact Or.inl (List.mem_filter.1 hmem).1
        · exact Or.inr ⟨n, rfl⟩
      rcases mem_renameExports e he with hmem | ⟨n, v, rfl, hv⟩
      · obtain ⟨hmem, hno⟩ := List.mem_filter.1 hmem
        rcases hread e hmem hlack with hret | hok
        · rw [Option.isNone_iff_eq_none] at hno
          rw [hno] at hret
          cases hret
        · exact hok.mono hsub
      · rw [hv] at hlack
        cases hlack

theorem distinct_renameExports {es kept : Mapping} (h : Mapping.Distinct kept) : Mapping.Distinct (renameExports es kept).value := by
  induction es generalizing kept with
  | nil => exact h
  | cons e es ih =>
    unfold renameExports
    cases retiredExport e with
    | none => exact ih h
    | some t => exact ih (Mapping.distinct_insert h _ _)

theorem exportDistinct_migrateExportNamedMap (h : OfExport Mapping.Distinct root) :
    OfExport Mapping.Distinct (migrateExportNamedMap root).value := by
  unfold migrateExportNamedMap
  cases hmap : (root.get "export").bind Yaml.mapping? with
  | none => exact h
  | some entries =>
    obtain ⟨v, hget, hv⟩ := Option.bind_eq_some_iff.1 hmap
    rw [Yaml.mapping?_eq_some] at hv
    subst hv
    dsimp only
    split
    · exact h
    · intro entries' hget'
      rw [value_bind, value_pure, Mapping.get_insert, if_pos rfl] at hget'
      obtain rfl := Yaml.mapping.inj (Option.some.inj hget')
      exact distinct_renameExports (Mapping.distinct_filter (h entries hget) _)

/-! ## The projection -/

theorem eq_string {key : Yaml} {s : String} (h : key.eq (.string s) = true) : key = .string s := by
  cases key with
  | string t =>
    unfold Yaml.eq at h
    rw [decide_eq_true_eq] at h
    rw [h]
  | _ =>
    unfold Yaml.eq at h
    cases h

/-- An instance that lacks a module has an item. -/
theorem projection_said {name : String} {inst : Mapping} (hstreams : inst.get "streams" = none)
    (hmodule : inst.containsKey "module" = false) :
    Says (migrateOneExportProjection name inst).ledger [str "export", str name] := by
  have hnone : inst.get "module" = none := by
    rw [Mapping.containsKey_eq, Option.isSome_eq_false_iff, Option.isNone_iff_eq_none] at hmodule
    exact hmodule
  unfold migrateOneExportProjection
  rw [hstreams, hnone]
  exact says_bind_left (says_todo _ _)

theorem projection_module {name : String} {inst : Mapping}
    (h : (migrateOneExportProjection name inst).value.containsKey "module" = false) : inst.containsKey "module" = false := by
  unfold migrateOneExportProjection at h
  dsimp only at h
  split at h
  · split at h
    · exact h
    · exact h
  · split at h
    · exact h
    · split at h
      · exact h
      · rw [value_bind, value_pure, Mapping.containsKey_eq, Mapping.get_insert, if_neg (by decide)] at h
        rw [Mapping.containsKey_eq]
        exact h

theorem value_takeMapping_malformed {m : Mapping} {k : String} {v : Yaml} {ctx : List Yaml} (hget : m.get k = some v)
    (hshape : v.mapping? = none) : (takeMapping lib.oneLine m k ctx).value = .malformed := by
  rw [value_takeMapping, hget]
  cases v with
  | mapping mm => cases hshape
  | _ => rfl

theorem not_typeKeyed {v : Yaml} (h : v.isMapping = false) : ¬ typeKeyed v = true := by
  unfold typeKeyed
  cases hv : v.asMapping with
  | none => exact nofun
  | some m =>
    unfold Yaml.isMapping at h
    rw [hv] at h
    cases h

/-- A value of another shape is put back under the key, if the key has one. -/
theorem mem_projectExports_malformed {key : Yaml} {keys : List Yaml} {m : Mapping}
    (h : (takeMapping lib.oneLine m (key.asStr.getD "") [str "export"]).value = .malformed) :
    ∀ e ∈ (projectExports lib (key :: keys) m).value,
      e ∈ (projectExports lib keys m).value ∨ ∃ e', m.find? (fun e => key.eq e.1) = some e' ∧ e = (key, e'.2) := by
  intro e he
  unfold projectExports at he
  rw [value_bind, h] at he
  dsimp only at he
  rw [value_bind] at he
  cases hfind : m.find? fun e => key.eq e.1 with
  | none =>
    rw [hfind] at he
    exact Or.inl he
  | some e' =>
    rw [hfind] at he
    rcases List.mem_cons.1 he with rfl | he
    · exact Or.inr ⟨e', rfl, rfl⟩
    · exact Or.inl he

theorem ledger_projectExports_malformed {key : Yaml} {keys : List Yaml} {m : Mapping}
    (h : (takeMapping lib.oneLine m (key.asStr.getD "") [str "export"]).value = .malformed) :
    ∀ x ∈ (takeMapping lib.oneLine m (key.asStr.getD "") [str "export"]).ledger ++ (projectExports lib keys m).ledger,
      x ∈ (projectExports lib (key :: keys) m).ledger := by
  intro x hx
  unfold projectExports
  rw [ledger_bind, h]
  dsimp only
  rw [ledger_bind]
  rcases List.mem_append.1 hx with hx | hx
  · exact List.mem_append_left _ hx
  · exact List.mem_append_right _ (List.mem_append_left _ hx)

theorem projectExports_said (h : EntriesNamed entries) (keys : List Yaml) (hkeys : ∀ key ∈ keys, ∃ v, (key, v) ∈ entries)
    (m : Mapping) (hm : Mapping.Distinct m) (hsub : ∀ e ∈ m, e ∈ entries) :
    ∀ e ∈ (projectExports lib keys m).value, typeKeyed e.2 = true →
      Says (projectExports lib keys m).ledger [str "export", e.1] ∨ Panics (projectExports lib keys m).ledger := by
  induction keys generalizing m with
  | nil => exact fun e he => absurd he List.not_mem_nil
  | cons key keys ih =>
    have htail := ih fun key hkey => hkeys key (List.mem_cons_of_mem _ hkey)
    intro e he hlack
    have he' := he
    unfold projectExports at he
    rw [value_bind, value_takeMapping] at he
    cases hget : m.get (key.asStr.getD "") with
    | none =>
      rw [hget] at he
      unfold projectExports
      rw [ledger_bind, value_takeMapping, hget]
      exact (htail m hm hsub e he hlack).imp (fun hsaid => hsaid.mono fun _ hx => List.mem_append_right _ hx)
        fun hpanic => hpanic.mono fun _ hx => List.mem_append_right _ hx
    | some v =>
      rw [hget] at he
      cases hv : v.mapping? with
      | some inst =>
        rw [Yaml.mapping?_eq_some] at hv
        subst hv
        unfold projectExports
        rw [ledger_bind, value_takeMapping, hget]
        rcases List.mem_cons.1 he with rfl | he
        · -- the instance itself
          change (!(migrateOneExportProjection (key.asStr.getD "") inst).value.containsKey "module") = true at hlack
          rw [Bool.not_eq_true'] at hlack
          have hmodule := projection_module hlack
          have hmem := hsub _ (Mapping.mem_of_get hget)
          obtain ⟨s, v, hentry, hstreams, hname⟩ := h _ hmem (by change (!inst.containsKey "module") = true; rw [hmodule]; rfl)
          obtain ⟨hs, rfl⟩ := Prod.mk.inj hentry
          obtain ⟨w, hw⟩ := hkeys key List.mem_cons_self
          have hkey : key = .string (key.asStr.getD "") := by
            rw [Yaml.string.inj hs]
            exact hname _ hw (Yaml.string.inj hs)
          have hsaid : Says (migrateOneExportProjection (key.asStr.getD "") inst).ledger [str "export", key] := by
            conv => arg 2; rw [hkey]
            exact projection_said (hstreams inst rfl) hmodule
          exact Or.inl (hsaid.mono fun _ hx => List.mem_append_right _ (List.mem_append_left _ hx))
        · have hrest := htail _ (Mapping.distinct_swapRemove hm _) (fun e he => hsub e (Mapping.mem_swapRemove he)) e he hlack
          have hin : ∀ x ∈ (projectExports lib keys (m.swapRemove (key.asStr.getD ""))).ledger,
              x ∈ (takeMapping lib.oneLine m (key.asStr.getD "") [str "export"]).ledger ++
                ((migrateOneExportProjection (key.asStr.getD "") inst).ledger ++
                  ((projectExports lib keys (m.swapRemove (key.asStr.getD ""))).ledger ++ [])) :=
            fun x hx => List.mem_append_right _ (List.mem_append_right _ (List.mem_append_left _ hx))
          exact hrest.imp (fun hsaid => hsaid.mono hin) fun hpanic => hpanic.mono hin
      | none =>
        have hshape := @takeMapping_malformed _ lib.oneLine _ _ [str "export"] hget hv
        have hvalue := @value_takeMapping_malformed lib _ _ _ [str "export"] hget hv
        have hin := @ledger_projectExports_malformed lib _ keys _ hvalue
        rcases mem_projectExports_malformed hvalue e he' with hrest | ⟨e', hfind, rfl⟩
        · have hsaid := htail m hm hsub e hrest hlack
          exact hsaid.imp (fun hsaid => hsaid.mono fun x hx => hin x (List.mem_append_right _ hx))
            fun hpanic => hpanic.mono fun x hx => hin x (List.mem_append_right _ hx)
        · rcases hshape with ⟨-, hnomapping⟩ | hpanic
          · -- the value of the key is that of its name, which is no mapping
            have hmem := List.mem_of_find?_eq_some hfind
            obtain ⟨s, w, rfl, -, -⟩ := h e' (hsub e' hmem) hlack
            have hfound := List.find?_some hfind
            dsimp only at hfound
            obtain rfl := eq_string hfound
            have hsame := Mapping.get_of_mem hm hmem
            change m.get s = some v at hget
            obtain rfl := Option.some.inj (hsame.symm.trans hget)
            exact absurd hlack (not_typeKeyed hnomapping)
          · exact Or.inr (hpanic.mono fun x hx => hin x (List.mem_append_left _ hx))

theorem export_cleared (hdeep : OfExport Mapping.Distinct root) (h : OfExport EntriesNamed root) {entries : Mapping}
    (hget : (migrateExportProjection lib root).value.get "export" = some (.mapping entries)) :
    ∀ e ∈ entries, typeKeyed e.2 = true → Says (migrateExportProjection lib root).ledger [str "export", e.1] ∨
      Panics (migrateExportProjection lib root).ledger := by
  unfold migrateExportProjection at hget ⊢
  cases hmap : (root.get "export").bind Yaml.mapping? with
  | none =>
    rw [hmap, value_pure] at hget
    rw [hget] at hmap
    cases hmap
  | some old =>
    obtain ⟨v, hold, hv⟩ := Option.bind_eq_some_iff.1 hmap
    rw [Yaml.mapping?_eq_some] at hv
    subst hv
    rw [hmap] at hget
    dsimp only at hget ⊢
    rw [value_bind, value_pure, Mapping.get_insert, if_pos rfl] at hget
    obtain rfl := Yaml.mapping.inj (Option.some.inj hget)
    have hkeys : ∀ key ∈ old.map Prod.fst, ∃ v, (key, v) ∈ old := by
      intro key hkey
      obtain ⟨e, he, rfl⟩ := List.mem_map.1 hkey
      exact ⟨e.2, he⟩
    intro e he hlack
    have hsaid := projectExports_said (h old hold) (old.map Prod.fst) hkeys old (hdeep old hold) (fun _ he => he) e he hlack
    exact hsaid.imp says_bind_left panics_bind_left

end Busbar.Migrate
