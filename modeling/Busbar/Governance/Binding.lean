import Busbar.Governance.Death

/-!
# One binding for each user

The store does not keep the self-serve bindings of a user apart. A mint looks the enabled binding up in the
cache and writes a second row only if it finds none; a refresh tombstones the row it replaces. The admin plane
is under no such rule.

* `binds_step`: after an operation other than an admin's, a user's binding is the one it had, or the only one.
* `bindings_stay_single_iff`: a run keeps the bindings single if and only if no update of it makes a second one.
* `thaw_binds_second`: the run on which a thaw leaves a user with two.
-/

namespace Busbar.GovState

variable (cr : TokenCrypto)

open Run (Along)

/-- The row is an enabled self-serve binding of the user. -/
def Binds (u : String) (k : VirtualKey) : Prop := k.enabled = true ∧ k.group = some (selfGroup u)

/-- The id has a live row that binds the user. -/
def BindsAt (s : GovState) (u id : String) : Prop := ∃ k, s.live id = some k ∧ Binds u k

/-- At most one live row binds the user, and the tokens of the user that verify name one id. -/
structure SoleBinding (s : GovState) (u : String) : Prop where
  row : ∀ id id', BindsAt s u id → BindsAt s u id' → id = id'
  token : ∀ token token' now now' k k', verifyToken cr s token now = some k →
    verifyToken cr s token' now' = some k' → Binds u k → Binds u k' → k.id = k'.id

/-- An update that makes its row an enabled binding of a user who has an enabled binding elsewhere. -/
def BindsSecond (s : GovState) : Op → Prop
  | .updateKey id enabled group => ∃ u k id', s.live id = some k ∧
      Binds u { k with enabled := enabled.getD k.enabled, group := group.getD k.group } ∧ id' ≠ id ∧ BindsAt s u id'
  | _ => False

/-- The mint of the admin plane, which draws a random id. -/
def Op.isAdminMint : Op → Bool
  | .mintSigned .. => true
  | _ => false

variable {cr}

theorem Binds.congr {u : String} {k k' : VirtualKey} (h : Binds u k) (he : unstamped k = unstamped k') :
    Binds u k' := by
  obtain ⟨-, -, hen, hgr, -⟩ := unstamped_eq he
  exact ⟨hen ▸ h.1, hgr ▸ h.2⟩

/-- A write of a live row moves the bindings under its own id only. -/
theorem bindsAt_put {s : GovState} {key : VirtualKey} {st : MemoryStore} (h : s.store.putKey key = .ok st)
    (hd : key.deletedAt = none) {u id : String} : BindsAt (reloaded { s with store := st }) u id ↔
      if key.id = id then Binds u key else BindsAt s u id := by
  unfold BindsAt
  rw [live_put h hd]
  split
  · constructor
    · rintro ⟨k, hk, hb⟩
      cases hk
      exact hb
    · intro hb
      exact ⟨_, rfl, hb⟩
  · exact Iff.rfl

/-- What the cache finds no binding for has no binding. -/
theorem not_bindsAt_of_none {s : GovState} (hco : Coherent s) {u : String} {probe : Nat}
    (h : findSelfBinding s.caches.byId u probe = none) (id : String) : ¬ BindsAt s u id := by
  rintro ⟨k, hk, hb⟩
  obtain ⟨k', hk', he⟩ := hco.stored hk
  have hb' := hb.congr he.symm
  have hd : k'.deletedAt = none := by
    obtain ⟨-, -, -, -, -, hd, -⟩ := unstamped_eq he
    rw [hd]
    exact (MemoryStore.live_eq_some.1 hk).2
  exact findSelfBinding_none h hk' hb'.1 hd hb'.2

theorem selfGroup_injective {u u' : String} (h : selfGroup u = selfGroup u') : u = u' := by
  have := congrArg String.toList h
  simp only [selfGroup, String.toList_append, List.append_cancel_left_eq] at this
  exact String.toList_inj.1 this

/-- A self-serve binding binds its own user and no other. -/
theorem binds_selfBinding {u u' : String} {pools : Option (List String)} {id : String} {epoch now : Nat}
    (h : Binds u' (selfBinding u pools id epoch now)) : u' = u :=
  (selfGroup_injective (Option.some.inj h.2)).symm

/-- A mint at a free epoch, and the deletion of the binding it replaces, leave the user one binding. -/
theorem bindsAt_written {s : GovState} {u : String} {pools : Option (List String)} {id : String} {epoch now : Nat}
    {st : MemoryStore} (hp : s.store.putKey (selfBinding u pools id epoch now) = .ok st) {u' id' : String}
    (h : BindsAt (reloaded { s with store := st }) u' id') : id' = id ∧ u' = u ∨ id' ≠ id ∧ BindsAt s u' id' := by
  have hput := (bindsAt_put hp rfl).1 h
  by_cases he : id = id'
  · rw [if_pos (show (selfBinding u pools id epoch now).id = id' from he)] at hput
    exact Or.inl ⟨he.symm, binds_selfBinding hput⟩
  · rw [if_neg (show ¬ (selfBinding u pools id epoch now).id = id' from he)] at hput
    exact Or.inr ⟨fun e => he e.symm, hput⟩

theorem binds_issueSelf {s : GovState} (hco : Coherent s) {u v : String} {pools : Option (List String)}
    {exp now probe : Nat} {id : String} (h : BindsAt ((issueSelf cr v pools exp now probe).exec s) u id) :
    BindsAt s u id ∨ ∀ id', BindsAt ((issueSelf cr v pools exp now probe).exec s) u id' → id' = id := by
  rcases issueSelf_cases cr s v pools exp now probe with he | ⟨k, st, hf, hp, he⟩ | ⟨i, ep, st, ht, hp, he⟩
  · rw [he] at h
    exact Or.inl h
  · -- the row in place keeps its id, its group and its switch
    obtain ⟨hget, hen, hd, hgr⟩ := findSelfBinding_some hf
    obtain ⟨k₀, hk₀, hu⟩ := hco.cached hget
    rw [he, bindsAt_put hp hd] at h
    dsimp only at h
    split at h
    · rename_i hid
      have hb : Binds u k := h
      exact Or.inl ⟨k₀, hid ▸ hk₀, hb.congr hu.symm⟩
    · exact Or.inl h
  · have hnone : findSelfBinding s.caches.byId v probe = none := by
      simp only [selfTarget] at ht
      split at ht
      · assumption
      · cases ht
    rw [he] at h ⊢
    rcases bindsAt_written hp h with ⟨rfl, rfl⟩ | ⟨-, hold⟩
    · refine Or.inr fun id' h' => ?_
      rcases bindsAt_written hp h' with ⟨hid, -⟩ | ⟨-, hold⟩
      · exact hid
      · exact absurd hold (not_bindsAt_of_none hco hnone id')
    · exact Or.inl hold

theorem binds_refreshSelf {s : GovState} (hco : Coherent s) {u v : String}
    (hsole : ∀ id id', BindsAt s u id → BindsAt s u id' → id = id') {pools : Option (List String)}
    {exp now probe : Nat} {id : String} (h : BindsAt ((refreshSelf cr v pools exp now probe).exec s) u id) :
    BindsAt s u id ∨ ∀ id', BindsAt ((refreshSelf cr v pools exp now probe).exec s) u id' → id' = id := by
  rcases refreshSelf_cases cr hco v pools exp now probe with he | ⟨i, ep, st, st', ht, hp, hdel, he⟩
  · rw [he] at h
    exact Or.inl h
  rw [he] at h ⊢
  have hput : ∀ id', BindsAt (reloaded { s with store := st' }) u id' →
      BindsAt (reloaded { s with store := st }) u id' ∧
        ∀ old, findSelfBinding s.caches.byId v probe = some old → id' = i ∨ id' ≠ old.id := by
    rintro id' ⟨k', hk', hb⟩
    rcases hdel with ⟨rfl, hsame⟩ | ⟨old, hold, hne, hdel⟩
    · refine ⟨⟨k', hk', hb⟩, fun old hold => ?_⟩
      have := hsame old hold
      by_cases hid : id' = i
      · exact Or.inl hid
      · exact Or.inr fun e => hid (e.trans this)
    · have hlive := (MemoryStore.deleteKey_ok hdel).2.2 id'
      have hk'' : st'.live id' = some k' := hk'
      rw [hk''] at hlive
      split at hlive
      · cases hlive
      · rename_i hid
        refine ⟨⟨k', hlive.symm, hb⟩, fun old' hold' => Or.inr ?_⟩
        cases hold.symm.trans hold'
        exact fun e => hid e.symm
  rcases bindsAt_written hp (hput id h).1 with ⟨rfl, rfl⟩ | ⟨-, hold⟩
  · refine Or.inr fun id' h' => ?_
    obtain ⟨h₁, h₂⟩ := hput id' h'
    rcases bindsAt_written hp h₁ with ⟨hid, -⟩ | ⟨hne, hbound⟩
    · exact hid
    -- a second binding would be the row the refresh replaced
    cases hf : findSelfBinding s.caches.byId u probe with
    | none => exact absurd hbound (not_bindsAt_of_none hco hf id')
    | some old =>
      obtain ⟨hget, hen, hd, hgr⟩ := findSelfBinding_some hf
      obtain ⟨k₀, hk₀, hu⟩ := hco.cached hget
      have hbinds : Binds u old := ⟨hen, hgr⟩
      have hid : id' = old.id := hsole _ _ hbound ⟨k₀, hk₀, hbinds.congr hu.symm⟩
      rcases h₂ old hf with h₃ | h₃
      · exact h₃
      · exact absurd hid h₃
  · exact Or.inl hold

theorem binds_rotateKey {s : GovState} {u i gen : String} {exp : Nat} {id : String}
    (h : BindsAt ((rotateKey cr i exp gen).exec s) u id) : BindsAt s u id := by
  have hspec := rotateKey_spec cr s i exp gen
  cases hl : s.live i with
  | none =>
    rw [hl] at hspec
    rw [hspec] at h
    exact h
  | some k =>
    cases hs : s.signing with
    | none =>
      rw [hl, hs] at hspec
      rw [hspec] at h
      exact h
    | some signer =>
      rw [hl, hs] at hspec
      obtain ⟨st, hp, hrun⟩ := hspec
      rw [hrun, ← hs, bindsAt_put hp (MemoryStore.live_eq_some.1 hl).2] at h
      dsimp only at h
      split at h
      · rename_i hid
        rw [MemoryStore.live_id hl] at hid
        exact ⟨k, hid ▸ hl, h⟩
      · exact h

theorem binds_updateKey {s : GovState} {u i : String} {enabled : Option Bool} {group : Option (Option String)}
    (hsafe : ¬ BindsSecond s (.updateKey i enabled group)) {id : String}
    (h : BindsAt ((updateKey i enabled group).exec s) u id) :
    BindsAt s u id ∨ ∀ id', BindsAt ((updateKey i enabled group).exec s) u id' → id' = id := by
  have hspec := updateKey_spec s i enabled group
  cases hl : s.live i with
  | none =>
    rw [hl] at hspec
    rw [hspec] at h
    exact Or.inl h
  | some k =>
    rw [hl] at hspec
    obtain ⟨st, hp, hrun⟩ := hspec
    have hd := (MemoryStore.live_eq_some.1 hl).2
    have hid := MemoryStore.live_id hl
    have hput : ∀ id', BindsAt (reloaded { s with store := st }) u id' ↔ if i = id' then
        Binds u { k with enabled := enabled.getD k.enabled, group := group.getD k.group } else BindsAt s u id' := by
      intro id'
      rw [bindsAt_put hp hd]
      simp only [hid]
    rw [hrun] at h ⊢
    rw [hput] at h
    split at h
    · rename_i hi
      subst hi
      refine Or.inr fun id' h' => ?_
      by_contra hne
      rw [hput, if_neg (fun e => hne e.symm)] at h'
      exact hsafe ⟨u, k, id', hl, h, hne, h'⟩
    · exact Or.inl h

/-- **One operation.** A binding of the user is one it had, or the only one it has. -/
theorem binds_step {s : GovState} (hco : Coherent s) {u : String}
    (hsole : ∀ id id', BindsAt s u id → BindsAt s u id' → id = id') {op : Op} (hop : op.isAdminMint = false)
    (hsafe : ¬ BindsSecond s op) {id : String} (h : BindsAt (step cr s op) u id) :
    BindsAt s u id ∨ ∀ id', BindsAt (step cr s op) u id' → id' = id := by
  cases op with
  | issueSelf => exact binds_issueSelf hco h
  | refreshSelf => exact binds_refreshSelf hco hsole h
  | rotateKey => exact Or.inl (binds_rotateKey h)
  | updateKey => exact binds_updateKey hsafe h
  | revoke sub reason gen =>
    rw [step] at h
    obtain ⟨k', hk', hb⟩ := h
    rcases revoke_live s sub reason gen with ⟨hlive, -⟩ | ⟨k, r, hl, -, hlive, -⟩
    · rw [hlive] at hk'
      exact Or.inl ⟨k', hk', hb⟩
    · rw [hlive] at hk'
      split at hk'
      · cases hk'
        cases hb.1
      · exact Or.inl ⟨k', hk', hb⟩
  | deleteKey i =>
    rw [step] at h
    have hspec := deleteKey_spec s i
    obtain ⟨k', hk', hb⟩ := h
    cases hd : s.store.deleteKey i with
    | error e =>
      rw [hd] at hspec
      rw [hspec] at hk'
      exact Or.inl ⟨k', hk', hb⟩
    | ok st =>
      rw [hd] at hspec
      rw [hspec] at hk'
      have hlive := (MemoryStore.deleteKey_ok hd).2.2 id
      have hk'' : st.live id = some k' := hk'
      rw [hk''] at hlive
      split at hlive
      · cases hlive
      · exact Or.inl ⟨k', hlive.symm, hb⟩
  | mintSigned => cases hop
  | setSigningKey | syncDenylist | reload | tick => exact Or.inl h

variable (cr) in
/-- What an update that binds a second row leaves behind. -/
theorem bindsSecond_breaks {s : GovState} {op : Op} (h : BindsSecond s op) :
    ∃ u id id', id' ≠ id ∧ BindsAt (step cr s op) u id ∧ BindsAt (step cr s op) u id' := by
  cases op with
  | updateKey i enabled group =>
    obtain ⟨u, k, id', hl, hb, hne, hother⟩ := h
    have hspec := updateKey_spec s i enabled group
    rw [hl] at hspec
    obtain ⟨st, hp, hrun⟩ := hspec
    have hd := (MemoryStore.live_eq_some.1 hl).2
    have hid := MemoryStore.live_id hl
    refine ⟨u, i, id', hne, ?_, ?_⟩
    · rw [step, hrun, bindsAt_put hp hd, if_pos hid]
      exact hb
    · rw [step, hrun, bindsAt_put hp hd, if_neg (fun e => hne (e.symm.trans hid))]
      exact hother
  | _ => exact h.elim

/-- A token that verifies for the user names a row that binds it. -/
theorem bindsAt_of_verifyToken {s : GovState} (hco : Coherent s) {token : String} {now : Nat} {k : VirtualKey}
    {u : String} (h : verifyToken cr s token now = some k) (hb : Binds u k) : BindsAt s u k.id := by
  have hcached : s.caches.byId.get k.id = some k := by
    unfold verifyToken lookupBySub at h
    split at h
    · cases h
    · split at h
      · cases h
      · split at h
        · cases h
        · split at h
          · rename_i k' hk'
            split at h
            · cases h
              rwa [Registry.key_of_get hk']
            · cases h
          · cases h
  obtain ⟨k', hk', hu⟩ := hco.cached hcached
  exact ⟨k', hk', hb.congr hu.symm⟩

theorem SoleBinding.of_rows {s : GovState} (hco : Coherent s) {u : String}
    (h : ∀ id id', BindsAt s u id → BindsAt s u id' → id = id') : SoleBinding cr s u where
  row := h
  token _ _ _ _ _ _ hk hk' hb hb' := h _ _ (bindsAt_of_verifyToken hco hk hb) (bindsAt_of_verifyToken hco hk' hb')

/-- **Whole runs.** From a store without keys, every state of the run has at most one binding for each user if and
only if no update of the run makes a second one. -/
theorem bindings_stay_single_iff {s₀ : GovState} (h₀ : Coherent s₀) (hempty : ∀ id, s₀.live id = none)
    {ops : List Op} (hops : ∀ op ∈ ops, op.isAdminMint = false) :
    (∀ pre, pre <+: ops → ∀ u, SoleBinding cr (after cr s₀ pre) u) ↔
      Along (fun pre op => ¬ BindsSecond (after cr s₀ pre) op) ops := by
  constructor
  · rintro h pre op post rfl hsecond
    obtain ⟨u, id, id', hne, hid, hid'⟩ := bindsSecond_breaks cr hsecond
    have hpre : pre ++ [op] <+: pre ++ op :: post := ⟨post, by simp⟩
    have hsole := h _ hpre u
    rw [after_snoc] at hsole
    exact hne (hsole.row _ _ hid' hid)
  · intro h pre hpre u
    obtain ⟨post, rfl⟩ := hpre
    refine .of_rows (after_coherent cr h₀ pre) ?_
    have hpre : ∀ op ∈ pre, op.isAdminMint = false := fun op hm => hops op (List.mem_append_left _ hm)
    have halong := h.append_left
    clear h hops
    -- along the run: what one operation leaves is what there was, or all there is
    induction pre using List.reverseRecOn with
    | nil =>
      rintro id - ⟨k, hk, -⟩
      rw [after, Run.exec_nil, hempty] at hk
      cases hk
    | append_singleton pre op ih =>
      obtain ⟨hbefore, hsafe⟩ := Along.snoc_iff.1 halong
      have hsole := ih (fun o hm => hpre o (List.mem_append_left _ hm)) hbefore
      have hmint := hpre op (List.mem_append_right _ List.mem_cons_self)
      have hstep : ∀ {id}, BindsAt (step cr (after cr s₀ pre) op) u id →
          BindsAt (after cr s₀ pre) u id ∨ ∀ id', BindsAt (step cr (after cr s₀ pre) op) u id' → id' = id :=
        binds_step (after_coherent cr h₀ pre) hsole hmint hsafe
      rw [after_snoc]
      intro id id' hid hid'
      rcases hstep hid with hold | hall
      · rcases hstep hid' with hold' | hall'
        · exact hsole _ _ hold hold'
        · exact hall' _ hid
      · exact (hall _ hid').symm

namespace Thrice

open Revival

def login : Op := .issueSelf "u" none 100 0 0

def refreshAgain : Op := .refreshSelf "u" none 100 0 0

/-- The binding three refreshes end at. -/
def fourthId : String := deriveSelfSubject plainCrypto signer.key "u" 3

/-- The one a login writes next: its probe skips from the epoch 2 to the epoch 4. -/
def fifthId : String := deriveSelfSubject plainCrypto signer.key "u" 4

def refreshed : List Op := [login, refreshAgain, refreshAgain, refreshAgain]

/-- A freeze, a login, and the freeze lifted. -/
def thawed : List Op :=
  refreshed ++ [.updateKey fourthId (some false) none, login, .updateKey fourthId (some true) none]

theorem bindsAt_of_any {s : GovState} {u id : String}
    (h : (s.live id).any (fun k => k.enabled && k.group == some (selfGroup u)) = true) : BindsAt s u id := by
  simp only [Option.any_eq_true, Bool.and_eq_true, beq_iff_eq] at h
  exact h

theorem fourth_bound : BindsAt (after plainCrypto boot thawed) "u" fourthId := bindsAt_of_any (by decide +kernel)

theorem fifth_bound : BindsAt (after plainCrypto boot thawed) "u" fifthId := bindsAt_of_any (by decide +kernel)

theorem ids_differ : fourthId ≠ fifthId := by decide +kernel

end Thrice

/-- **A user can have two bindings as it stands**: a key that is frozen, replaced by a login and thawed. -/
theorem thaw_binds_second : ¬ ∀ (cr : TokenCrypto) (s₀ : GovState), Coherent s₀ → (∀ id, s₀.live id = none) →
    ∀ ops : List Op, (∀ op ∈ ops, op.isAdminMint = false) → ∀ u, SoleBinding cr (after cr s₀ ops) u := by
  intro h
  have hsole := h plainCrypto Revival.boot Revival.boot_coherent (fun _ => rfl) Thrice.thawed
    (by simp [Thrice.thawed, Thrice.refreshed, Thrice.login, Thrice.refreshAgain, Op.isAdminMint]) "u"
  exact Thrice.ids_differ (hsole.row _ _ Thrice.fourth_bound Thrice.fifth_bound)

theorem bindings_stay_single_iff_refreshed :
    (∀ pre, pre <+: Thrice.refreshed → ∀ u, SoleBinding plainCrypto (after plainCrypto Revival.boot pre) u) ↔
      Along (fun pre op => ¬ BindsSecond (after plainCrypto Revival.boot pre) op) Thrice.refreshed :=
  bindings_stay_single_iff Revival.boot_coherent (fun _ => rfl)
    (by simp [Thrice.refreshed, Thrice.login, Thrice.refreshAgain, Op.isAdminMint])

end Busbar.GovState
