import Busbar.Governance.Ops

/-!
# Where a live row comes from

The one-step facts the run properties rest on, derived from the specifications of the operations.

* `LiveFrom`: the ways a row can be live after an operation: it was live with the same generation, its
  generation was drawn by a rotation or a revocation, a self-serve mint wrote it, or an admin mint did.
* `step_live`: there is no other way. `step_coherent`, `step_denylist`, `step_signing`: the caches stay
  coherent, the denylist only grows, the signing key changes only by `setSigningKey`.
-/

namespace Busbar.GovState

variable (cr : TokenCrypto)

open Prog

/-- The origin of a live row `k'` under `id` after the operation `op` in the state `s`. -/
inductive LiveFrom (s : GovState) (op : Op) (id : String) (k' : VirtualKey) : Prop where
  | kept (k : VirtualKey) (was : s.live id = some k) (gen : k'.generationHash = k.generationHash)
      (on : k'.enabled = k.enabled ∨ ∃ e g, op = .updateKey id (some e) g ∧ k'.enabled = e)
  | rotated (k : VirtualKey) (exp : Nat) (g : String) (was : s.live id = some k) (by_ : op = .rotateKey id exp g)
      (gen : k'.generationHash = bindingMarker id g) (on : k'.enabled = k.enabled)
  | revoked (reason g : String) (by_ : op = .revoke id reason g)
      (gen : k'.generationHash = bindingMarker id g) (off : k'.enabled = false)
  | selfServe (epoch : Nat) (target : selfTarget cr s op = some (id, epoch))
      (gen : k'.generationHash = bindingMarker id (toString epoch)) (on : k'.enabled = true)
  | minted (spec : NewKeySpec) (exp now : Nat) (raw : Bytes) (g : String)
      (by_ : op = .mintSigned spec exp now raw g) (named : id = vkIdPrefix ++ hexEncode raw)
      (gen : k'.generationHash = bindingMarker id g) (on : k'.enabled = true)

/-- A row no operation touched. -/
theorem LiveFrom.same {s : GovState} {op : Op} {id : String} {k : VirtualKey} (h : s.live id = some k) :
    LiveFrom cr s op id k := .kept k h rfl (Or.inl rfl)

theorem live_put {s : GovState} {key : VirtualKey} {st : MemoryStore} (h : s.store.putKey key = .ok st)
    (hd : key.deletedAt = none) (id : String) :
    (reloaded { s with store := st }).live id
      = if key.id = id then some { key with revision := s.store.revision + 1 } else s.live id :=
  MemoryStore.live_putKey h hd id

/-- The row of a put is the only one whose origin needs an argument. -/
theorem LiveFrom.of_put {s : GovState} {op : Op} {key : VirtualKey} {st : MemoryStore}
    (h : s.store.putKey key = .ok st) (hd : key.deletedAt = none)
    (hkey : LiveFrom cr s op key.id { key with revision := s.store.revision + 1 }) {id : String} {k' : VirtualKey}
    (hl : (reloaded { s with store := st }).live id = some k') : LiveFrom cr s op id k' := by
  rw [live_put h hd] at hl
  by_cases he : key.id = id
  · rw [if_pos he] at hl; cases hl; exact he ▸ hkey
  · rw [if_neg he] at hl; exact .same cr hl

/-- What a self-serve mint leaves: nothing changed, a row of the cache rewritten, or a binding written and
at most one other row tombstoned. -/
theorem issueSelf_cases (s : GovState) (u : String) (pools : Option (List String))
    (exp now probe : Nat) :
    (issueSelf cr u pools exp now probe).exec s = s ∨
      (∃ k st, findSelfBinding s.caches.byId u probe = some k ∧
        s.store.putKey { k with allowedScopes := poolScopes pools } = .ok st ∧
        (issueSelf cr u pools exp now probe).exec s = reloaded { s with store := st }) ∨
      ∃ id epoch st, selfTarget cr s (.issueSelf u pools exp now probe) = some (id, epoch) ∧
        s.store.putKey (selfBinding u pools id epoch now) = .ok st ∧
        (issueSelf cr u pools exp now probe).exec s = reloaded { s with store := st } := by
  have hspec := issueSelf_spec cr s u pools exp now probe
  cases hs : s.signing with
  | none => rw [hs] at hspec; left; simp only [exec, hspec]
  | some signer =>
    cases hf : findSelfBinding s.caches.byId u probe with
    | none =>
      rw [hs, hf] at hspec
      have hw := run_writeSelfBinding cr signer u pools 0 exp now s
      cases hfe : freeEpoch cr s.store signer.key u 0 maxProbes 0 with
      | none => rw [hfe] at hw; left; simp only [exec, hspec, hw]
      | some r =>
        obtain ⟨id, epoch⟩ := r
        rw [hfe] at hw
        obtain ⟨st, hst, hrun⟩ := hw
        refine Or.inr (Or.inr ⟨id, epoch, st, ?_, hst, ?_⟩)
        · simp only [selfTarget, hs, hf, hfe]
        · simp only [exec, hspec, hrun, hs]
    | some k =>
      rw [hs, hf] at hspec
      rcases hspec with ⟨-, hrun⟩ | ⟨-, ⟨e, hp, hrun⟩ | ⟨st, hp, hrun⟩⟩
      · left; simp only [exec, hrun]
      · left; simp only [exec, hrun]
      · exact Or.inr (Or.inl ⟨k, st, rfl, hp, by simp only [exec, hrun]⟩)

theorem refreshSelf_cases {s : GovState} (hco : Coherent s) (u : String) (pools : Option (List String))
    (exp now probe : Nat) :
    (refreshSelf cr u pools exp now probe).exec s = s ∨
      ∃ id epoch st st', selfTarget cr s (.refreshSelf u pools exp now probe) = some (id, epoch) ∧
        s.store.putKey (selfBinding u pools id epoch now) = .ok st ∧
        (st' = st ∧ (∀ old, findSelfBinding s.caches.byId u probe = some old → old.id = id) ∨
          ∃ old, findSelfBinding s.caches.byId u probe = some old ∧ old.id ≠ id ∧
            st.deleteKey old.id = .ok st') ∧
        (refreshSelf cr u pools exp now probe).exec s = reloaded { s with store := st' } := by
  have hspec := refreshSelf_spec cr hco u pools exp now probe
  cases hs : s.signing with
  | none => rw [hs] at hspec; left; simp only [exec, hspec]
  | some signer =>
    rw [hs] at hspec
    dsimp only at hspec
    cases hfe : freeEpoch cr s.store signer.key u (nextEpoch (findSelfBinding s.caches.byId u probe))
        maxProbes 0 with
    | none => rw [hfe] at hspec; left; simp only [exec, hspec]
    | some r =>
      obtain ⟨id, epoch⟩ := r
      rw [hfe] at hspec
      obtain ⟨st, hst, st', hst', hrun⟩ := hspec
      refine Or.inr ⟨id, epoch, st, st', ?_, hst, hst', ?_⟩
      · simp only [selfTarget, hs, hfe]
      · simp only [exec, hrun]

/-! ## One step -/

/-- What a revocation does to the live rows. -/
theorem revoke_live (s : GovState) (sub reason gen : String) :
    ((∀ id, ((revoke sub reason gen).exec s).live id = s.live id) ∧
        ((revoke sub reason gen).exec s).caches.byId = s.caches.byId) ∨
      ∃ k r, s.live sub = some k ∧ sub ∈ ((revoke sub reason gen).exec s).denylist ∧
        (∀ id, ((revoke sub reason gen).exec s).live id = if sub = id
          then some { k with generationHash := bindingMarker sub gen, enabled := false, revision := r }
          else s.live id) ∧
        ((revoke sub reason gen).exec s).caches.byId
          = s.caches.byId.put { k with generationHash := bindingMarker sub gen, enabled := false } := by
  obtain ⟨-, -, -, h⟩ := revoke_spec s sub reason gen
  rcases h with ⟨hk, hc⟩ | ⟨k, st, hl, hden, hkeys, hput, hc⟩
  · left
    exact ⟨fun id => by simp only [live, MemoryStore.live, hk], hc⟩
  · right
    have hid := MemoryStore.live_id hl
    obtain ⟨hget, hd⟩ := MemoryStore.live_eq_some.1 hl
    refine ⟨k, st.revision + 1, hl, hden, fun id => ?_, by rw [hc, hid]⟩
    have hst : ∀ id, st.live id = s.live id := fun id => by simp only [live, MemoryStore.live, hkeys]
    have := MemoryStore.live_putKey hput hd id
    rw [hst] at this
    simpa only [hid] using this

/-- The operations that write the store and reload. -/
def Op.reloads : Op → Bool
  | .revoke .. | .setSigningKey _ | .syncDenylist | .tick _ => false
  | _ => true

/-- Such an operation leaves everything as it was, or a rewritten store with freshly loaded caches. -/
theorem step_shape {s : GovState} (hco : Coherent s) {op : Op} (hop : op.reloads = true) :
    step cr s op = s ∨ ∃ st b, step cr s op = { reloaded { s with store := st } with budget := b } := by
  cases op with
  | issueSelf u pools exp now probe =>
    rcases issueSelf_cases cr s u pools exp now probe with h | ⟨_, st, _, _, h⟩ | ⟨_, _, st, _, _, h⟩
    · exact Or.inl h
    · exact Or.inr ⟨st, s.budget, h⟩
    · exact Or.inr ⟨st, s.budget, h⟩
  | refreshSelf u pools exp now probe =>
    rcases refreshSelf_cases cr hco u pools exp now probe with h | ⟨_, _, _, st, _, _, _, h⟩
    · exact Or.inl h
    · exact Or.inr ⟨st, s.budget, h⟩
  | rotateKey id exp gen =>
    have h := rotateKey_spec cr s id exp gen
    cases hl : s.live id with
    | none => rw [hl] at h; exact Or.inl h
    | some k =>
      cases hs : s.signing with
      | none => rw [hl, hs] at h; exact Or.inl h
      | some signer =>
        rw [hl, hs] at h
        obtain ⟨st, -, h⟩ := h
        exact Or.inr ⟨st, s.budget, h⟩
  | updateKey id enabled group =>
    have h := updateKey_spec s id enabled group
    cases hl : s.live id with
    | none => rw [hl] at h; exact Or.inl h
    | some k => rw [hl] at h; obtain ⟨st, -, h⟩ := h; exact Or.inr ⟨st, s.budget, h⟩
  | deleteKey id =>
    have h := deleteKey_spec s id
    cases hd : s.store.deleteKey id with
    | error e => rw [hd] at h; exact Or.inl h
    | ok st => rw [hd] at h; exact Or.inr ⟨st, _, h⟩
  | mintSigned spec exp now raw gen =>
    rcases mintSigned_spec cr s spec exp now raw gen with h | ⟨_, st, _, _, _, _, _, h⟩
    · exact Or.inl h
    · exact Or.inr ⟨st, s.budget, h⟩
  | reload => exact Or.inr ⟨s.store, s.budget, rfl⟩
  | revoke | setSigningKey | syncDenylist | tick => cases hop

theorem step_coherent {s : GovState} (hco : Coherent s) (op : Op) : Coherent (step cr s op) := by
  cases hop : op.reloads with
  | true =>
    rcases step_shape cr hco hop with h | ⟨st, b, h⟩
    · rw [h]; exact hco
    · rw [h]; exact reloaded_coherent _
  | false =>
    cases op with
    | revoke sub reason gen =>
      intro id
      rw [step]
      rcases revoke_live s sub reason gen with ⟨hlive, hc⟩ | ⟨k, r, hl, -, hlive, hc⟩
      · rw [hlive, hc]; exact hco id
      · have hid := MemoryStore.live_id hl
        rw [hlive, hc, Registry.get_put]
        by_cases he : sub = id
        · have he' : k.id = id := hid.trans he
          rw [if_pos he', if_pos he]; rfl
        · have he' : ¬ k.id = id := fun e => he (hid.symm.trans e)
          rw [if_neg he', if_neg he]; exact hco id
    | setSigningKey | syncDenylist | tick => exact hco
    | _ => cases hop

theorem step_denylist {s : GovState} (hco : Coherent s) (op : Op) : s.denylist ⊆ (step cr s op).denylist := by
  cases hop : op.reloads with
  | true =>
    rcases step_shape cr hco hop with h | ⟨st, b, h⟩
    · rw [h]
    · rw [h]; exact Finset.Subset.refl _
  | false =>
    cases op with
    | revoke sub reason gen => exact (revoke_spec s sub reason gen).2.2.1
    | syncDenylist => exact Finset.subset_union_left
    | setSigningKey | tick => exact Finset.Subset.refl _
    | _ => cases hop

theorem step_signing {s : GovState} (hco : Coherent s) {op : Op} (hop : ∀ k, op ≠ .setSigningKey k) :
    (step cr s op).signing = s.signing := by
  cases hr : op.reloads with
  | true =>
    rcases step_shape cr hco hr with h | ⟨st, b, h⟩ <;> rw [h]
    rfl
  | false =>
    cases op with
    | revoke sub reason gen => exact (revoke_spec s sub reason gen).1
    | setSigningKey k => exact absurd rfl (hop k)
    | syncDenylist | tick => rfl
    | _ => cases hr

/-- **Every live row has an origin.** -/
theorem step_live {s : GovState} (hco : Coherent s) (op : Op) {id : String} {k' : VirtualKey}
    (h' : (step cr s op).live id = some k') : LiveFrom cr s op id k' := by
  cases op with
  | issueSelf u pools exp now probe =>
    rw [step] at h'
    rcases issueSelf_cases cr s u pools exp now probe with h | ⟨k, st, hf, hp, h⟩ | ⟨i, ep, st, ht, hp, h⟩
    · rw [h] at h'; exact .same cr h'
    · -- the cached row the in-place update starts from is the stored one
      obtain ⟨hget, hen, hd, -⟩ := findSelfBinding_some hf
      obtain ⟨k₀, hk₀, he⟩ := hco.cached hget
      obtain ⟨-, hgen, hon, -⟩ := unstamped_eq he
      rw [h] at h'
      exact .of_put cr hp hd (.kept k₀ hk₀ hgen.symm (Or.inl hon.symm)) h'
    · rw [h] at h'
      exact .of_put cr hp rfl (.selfServe ep ht rfl rfl) h'
  | refreshSelf u pools exp now probe =>
    rw [step] at h'
    rcases refreshSelf_cases cr hco u pools exp now probe with h | ⟨i, ep, st, st', ht, hp, hdel, h⟩
    · rw [h] at h'; exact .same cr h'
    · rw [h] at h'
      have hput : (reloaded { s with store := st }).live id = some k' := by
        rcases hdel with ⟨rfl, -⟩ | ⟨old, -, -, hdel⟩
        · exact h'
        · have := (MemoryStore.deleteKey_ok hdel).2.2 id
          by_cases he : old.id = id
          · rw [if_pos he] at this
            have h'' : st'.live id = some k' := h'
            rw [this] at h''; cases h''
          · rw [if_neg he] at this
            exact this.symm.trans h'
      exact .of_put cr hp rfl (.selfServe ep ht rfl rfl) hput
  | rotateKey i exp gen =>
    have h := rotateKey_spec cr s i exp gen
    rw [step] at h'
    cases hl : s.live i with
    | none => rw [hl] at h; rw [h] at h'; exact .same cr h'
    | some k =>
      cases hs : s.signing with
      | none => rw [hl, hs] at h; rw [h] at h'; exact .same cr h'
      | some signer =>
        rw [hl, hs] at h
        obtain ⟨st, hp, h⟩ := h
        rw [h, ← hs] at h'
        have hid := MemoryStore.live_id hl
        refine .of_put cr hp (MemoryStore.live_eq_some.1 hl).2 ?_ h'
        show LiveFrom cr s (.rotateKey i exp gen) k.id _
        rw [hid]
        exact .rotated k exp gen hl rfl rfl rfl
  | updateKey i enabled group =>
    have h := updateKey_spec s i enabled group
    rw [step] at h'
    cases hl : s.live i with
    | none => rw [hl] at h; rw [h] at h'; exact .same cr h'
    | some k =>
      rw [hl] at h
      obtain ⟨st, hp, h⟩ := h
      rw [h] at h'
      have hid := MemoryStore.live_id hl
      refine .of_put cr hp (MemoryStore.live_eq_some.1 hl).2 ?_ h'
      show LiveFrom cr s (.updateKey i enabled group) k.id _
      rw [hid]
      refine .kept k hl rfl ?_
      cases enabled with
      | none => exact Or.inl rfl
      | some e => exact Or.inr ⟨e, group, rfl, rfl⟩
  | revoke sub reason gen =>
    rw [step] at h'
    rcases revoke_live s sub reason gen with ⟨hlive, -⟩ | ⟨k, r, hl, -, hlive, -⟩
    · rw [hlive] at h'; exact .same cr h'
    · rw [hlive] at h'
      by_cases he : sub = id
      · subst he
        rw [if_pos rfl] at h'
        cases h'
        exact .revoked reason gen rfl rfl rfl
      · rw [if_neg he] at h'; exact .same cr h'
  | deleteKey i =>
    have h := deleteKey_spec s i
    rw [step] at h'
    cases hd : s.store.deleteKey i with
    | error e => rw [hd] at h; rw [h] at h'; exact .same cr h'
    | ok st =>
      rw [hd] at h
      rw [h] at h'
      have := (MemoryStore.deleteKey_ok hd).2.2 id
      have h'' : st.live id = some k' := h'
      rw [this] at h''
      by_cases he : i = id
      · rw [if_pos he] at h''; cases h''
      · rw [if_neg he] at h''; exact .same cr h''
  | mintSigned spec exp now raw gen =>
    rw [step] at h'
    rcases mintSigned_spec cr s spec exp now raw gen with h | ⟨key, st, hid, hgen, hen, hd, hp, h⟩
    · rw [h] at h'; exact .same cr h'
    · rw [h] at h'
      exact .of_put cr hp hd (.minted spec exp now raw gen rfl hid hgen hen) h'
  | setSigningKey | syncDenylist | reload | tick => exact .same cr h'

end Busbar.GovState
