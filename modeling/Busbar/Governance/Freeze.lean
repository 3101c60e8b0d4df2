import Busbar.Governance.Death

/-!
# Frozen users

An administrator freezes a user by disabling the user's self-serve binding. The freeze holds until a
self-serve mint for the user, or over one of the user's rows, lands on an id that is not denylisted.

* `Frozen`: every id the user was issued a token for is off (denylisted, gone or disabled).
* `frozen_step`: one operation keeps the user frozen.
* `freeze_holds`: along a run that meets the condition no token of a frozen user verifies.
* `login_thaws`: the run on which the next login re-enables the frozen row.
-/

namespace Busbar.GovState

variable (cr : TokenCrypto)

open Run (Along)
open Prog

/-- The id and the token a self-serve operation issues to the user. -/
def issues (s : GovState) (u : String) : Op → Option (String × String)
  | .issueSelf u' pools exp now probe =>
    if u' = u then
      match ((issueSelf cr u' pools exp now probe).run s).1 with
      | .ok (k, token) => some (k.id, token)
      | .error _ => none
    else none
  | .refreshSelf u' pools exp now probe =>
    if u' = u then
      match ((refreshSelf cr u' pools exp now probe).run s).1 with
      | .ok (k, token) => some (k.id, token)
      | .error _ => none
    else none
  | _ => none

/-- The run issued this token under this id to the user. -/
def IssuedTo (s₀ : GovState) (ops : List Op) (u id token : String) : Prop :=
  ∃ pre op post, ops = pre ++ op :: post ∧ issues cr (after cr s₀ pre) u op = some (id, token)

/-- The user a self-serve operation acts for, with the id of the binding it issues a token for: the one it
finds, or the one it is about to write. -/
def selfMint (s : GovState) : Op → Option (String × String)
  | .issueSelf u pools exp now probe =>
    match s.signing, findSelfBinding s.caches.byId u probe with
    | none, _ => none
    | some _, some k => some (u, k.id)
    | some _, none => (selfTarget cr s (.issueSelf u pools exp now probe)).map (fun t => (u, t.1))
  | .refreshSelf u pools exp now probe =>
    (selfTarget cr s (.refreshSelf u pools exp now probe)).map (fun t => (u, t.1))
  | _ => none

/-- The id is refused whatever token names it: denylisted, gone or disabled. -/
def Off (s : GovState) (id : String) : Prop :=
  id ∈ s.denylist ∨ ∀ k, s.live id = some k → k.enabled = false

/-- Every id the user was issued a token for is off. -/
def Frozen (s₀ : GovState) (ops : List Op) (u : String) : Prop :=
  ∀ id token, IssuedTo cr s₀ ops u id token → Off (after cr s₀ ops) id

/-- The random id of an admin mint has not been seen before in the run. -/
def IdFresh (s₀ : GovState) (pre : List Op) : Op → Prop
  | .mintSigned _ _ _ raw _ => ∀ g, ¬ EverHeld cr s₀ pre (vkIdPrefix ++ hexEncode raw) g
  | _ => True

/-- No key the user was issued a token for is switched back on. -/
def NotThawed (s₀ : GovState) (u : String) (pre : List Op) : Op → Prop
  | .updateKey id (some true) _ => ∀ token, ¬ IssuedTo cr s₀ pre u id token
  | _ => True

/-- A self-serve mint for the user, or on an id the user was issued a token for, is on a denylisted id. -/
def MintSafe (s₀ : GovState) (u : String) (pre : List Op) (op : Op) : Prop :=
  ∀ u' id, selfMint cr (after cr s₀ pre) op = some (u', id) →
    u' = u ∨ (∃ token, IssuedTo cr s₀ pre u id token) → id ∈ (after cr s₀ pre).denylist

variable {cr} {s₀ : GovState} {u : String}

theorem IssuedTo.snoc_iff (ops : List Op) {op : Op} {id token : String} :
    IssuedTo cr s₀ (ops ++ [op]) u id token ↔
      IssuedTo cr s₀ ops u id token ∨ issues cr (after cr s₀ ops) u op = some (id, token) := by
  constructor
  · rintro ⟨pre, o, post, he, h⟩
    rcases List.eq_nil_or_concat post with rfl | ⟨post, o', rfl⟩
    · obtain ⟨e₁, e₂⟩ := List.append_inj' he rfl
      simp only [List.cons.injEq, and_true] at e₂
      subst e₁; subst e₂; exact Or.inr h
    · have he' : ops ++ [op] = (pre ++ o :: post) ++ [o'] := by simpa using he
      exact Or.inl ⟨pre, o, post, (List.append_inj' he' rfl).1, h⟩
  · rintro (⟨pre, o, post, rfl, h⟩ | h)
    · exact ⟨pre, o, post ++ [op], by simp, h⟩
    · exact ⟨ops, op, [], rfl, h⟩

theorem live_written {st st' : MemoryStore} {pools : Option (List String)} {id : String} {epoch now : Nat}
    (h : st.putKey (selfBinding u pools id epoch now) = .ok st') :
    st'.live id = some { selfBinding u pools id epoch now with revision := st.revision + 1 } :=
  (MemoryStore.live_putKey h rfl id).trans (if_pos rfl)

/-- What an operation issues is what `selfMint` says, minted under that id, and the row of the id is live
before or after. -/
theorem issues_spec {s : GovState} (hco : Coherent s) {op : Op} {id token : String}
    (h : issues cr s u op = some (id, token)) :
    selfMint cr s op = some (u, id) ∧
      (∃ (signer : TokenSigner) (exp : Nat) (gen : Option String), token = signer.mint cr id exp gen) ∧
      ((∃ k, s.live id = some k) ∨ ∃ k, (step cr s op).live id = some k) := by
  cases op with
  | issueSelf u' pools exp now probe =>
    simp only [issues] at h
    split at h
    swap
    · cases h
    rename_i hu
    subst hu
    have hspec := issueSelf_spec cr s u' pools exp now probe
    cases hs : s.signing with
    | none => rw [hs] at hspec; rw [hspec] at h; cases h
    | some signer =>
      cases hf : findSelfBinding s.caches.byId u' probe with
      | some k =>
        obtain ⟨hget, -, -, -⟩ := findSelfBinding_some hf
        obtain ⟨k₀, hk₀, -⟩ := hco.cached hget
        have hid : k.id = id ∧ signer.mint cr k.id exp (bindingGeneration k.generationHash) = token := by
          rw [hs, hf] at hspec
          rcases hspec with ⟨-, hrun⟩ | ⟨-, ⟨e, -, hrun⟩ | ⟨st, -, hrun⟩⟩ <;> rw [hrun] at h <;>
            simp only [Option.some.injEq, Prod.mk.injEq, reduceCtorEq] at h
          · exact h
          · exact h
        obtain ⟨rfl, rfl⟩ := hid
        exact ⟨by simp only [selfMint, hs, hf], ⟨signer, exp, _, rfl⟩, Or.inl ⟨k₀, hk₀⟩⟩
      | none =>
        rw [hs, hf] at hspec
        have hw := run_writeSelfBinding cr signer u' pools 0 exp now s
        cases hfe : freeEpoch cr s.store signer.key u' 0 maxProbes 0 with
        | none => rw [hfe] at hw; rw [hspec, hw] at h; cases h
        | some r =>
          obtain ⟨i, epoch⟩ := r
          rw [hfe] at hw
          obtain ⟨st, hst, hrun⟩ := hw
          rw [hspec, hrun] at h
          simp only [Option.some.injEq, Prod.mk.injEq] at h
          obtain ⟨hid, rfl⟩ := h
          change i = id at hid
          subst hid
          refine ⟨by simp only [selfMint, selfTarget, hs, hf, hfe, Option.map_some], ⟨signer, exp, _, rfl⟩,
            Or.inr ?_⟩
          rw [step, exec, hspec, hrun]
          exact ⟨_, live_written hst⟩
  | refreshSelf u' pools exp now probe =>
    simp only [issues] at h
    split at h
    swap
    · cases h
    rename_i hu
    subst hu
    have hspec := refreshSelf_spec cr hco u' pools exp now probe
    cases hs : s.signing with
    | none => rw [hs] at hspec; rw [hspec] at h; cases h
    | some signer =>
      rw [hs] at hspec
      dsimp only at hspec
      cases hfe : freeEpoch cr s.store signer.key u' (nextEpoch (findSelfBinding s.caches.byId u' probe))
          maxProbes 0 with
      | none => rw [hfe] at hspec; rw [hspec] at h; cases h
      | some r =>
        obtain ⟨i, epoch⟩ := r
        rw [hfe] at hspec
        obtain ⟨st, hst, st', hst', hrun⟩ := hspec
        rw [hrun] at h
        simp only [Option.some.injEq, Prod.mk.injEq] at h
        obtain ⟨hid, rfl⟩ := h
        change i = id at hid
        subst hid
        refine ⟨by simp only [selfMint, selfTarget, hs, hfe, Option.map_some], ⟨signer, exp, _, rfl⟩,
          Or.inr ?_⟩
        rw [step, exec, hrun]
        rcases hst' with ⟨rfl, -⟩ | ⟨old, -, hne, hdel⟩
        · exact ⟨_, live_written hst⟩
        · exact ⟨_, ((MemoryStore.deleteKey_ok hdel).2.2 i).trans ((if_neg hne).trans (live_written hst))⟩
  | _ => cases h

theorem IssuedTo.everHeld (h₀ : Coherent s₀) {ops : List Op} {id token : String}
    (h : IssuedTo cr s₀ ops u id token) : ∃ g, EverHeld cr s₀ ops id g := by
  obtain ⟨pre, op, post, rfl, hi⟩ := h
  rcases (issues_spec (after_coherent cr h₀ pre) hi).2.2 with ⟨k, hk⟩ | ⟨k, hk⟩
  · exact ⟨_, (EverHeld.now hk).mono (List.prefix_append _ _)⟩
  · rw [← after_snoc] at hk
    exact ⟨_, (EverHeld.now hk).mono ⟨post, by simp⟩⟩

/-- A token issued under an id names it. -/
theorem IssuedTo.sub (h₀ : Coherent s₀) (hcr : cr.Lawful) {ops : List Op} {id token : String}
    (h : IssuedTo cr s₀ ops u id token) {c : TokenClaims} (hc : claimsOf cr token = some c) : c.sub = id := by
  obtain ⟨pre, op, post, -, hi⟩ := h
  obtain ⟨signer, exp, gen, rfl⟩ := (issues_spec (after_coherent cr h₀ pre) hi).2.1
  rw [claimsOf_mint cr hcr] at hc
  cases hc; rfl

/-- The target of a self-serve write is the id of the mint. -/
theorem selfMint_of_target {s : GovState} {op : Op} {id : String} {epoch : Nat}
    (h : selfTarget cr s op = some (id, epoch)) : ∃ u', selfMint cr s op = some (u', id) := by
  cases op with
  | issueSelf u' pools exp now probe =>
    refine ⟨u', ?_⟩
    cases hs : s.signing with
    | none => simp only [selfTarget, hs, reduceCtorEq] at h
    | some signer =>
      cases hf : findSelfBinding s.caches.byId u' probe with
      | some k => simp only [selfTarget, hs, hf, reduceCtorEq] at h
      | none => simp only [selfMint, hs, hf, h, Option.map_some]
  | refreshSelf u' pools exp now probe => exact ⟨u', by simp only [selfMint, h, Option.map_some]⟩
  | _ => cases h

/-- One operation keeps an id off, unless it switches it on or a self-serve mint writes it. -/
theorem off_step (h₀ : Coherent s₀) {ops : List Op} {op : Op} {id : String} (hoff : Off (after cr s₀ ops) id)
    (hheld : ∃ g, EverHeld cr s₀ ops id g) (hfresh : IdFresh cr s₀ ops op)
    (hthaw : ∀ g, op ≠ .updateKey id (some true) g)
    (hmint : ∀ u', selfMint cr (after cr s₀ ops) op = some (u', id) → id ∈ (after cr s₀ ops).denylist) :
    Off (after cr s₀ (ops ++ [op])) id := by
  have hco := after_coherent cr h₀ ops
  rw [after_snoc]
  by_cases hden : id ∈ (after cr s₀ ops).denylist
  · exact Or.inl (step_denylist cr hco op hden)
  have hdis := hoff.resolve_left hden
  right
  intro k' hk'
  cases step_live cr hco op hk' with
  | kept k was gen on =>
    rcases on with on | ⟨e, g, rfl, on⟩
    · rw [on]; exact hdis k was
    · cases e with
      | false => exact on
      | true => exact absurd rfl (hthaw g)
  | rotated k exp g was by_ gen on => rw [on]; exact hdis k was
  | revoked reason g by_ gen off => exact off
  | selfServe epoch target gen on =>
    obtain ⟨u', hu'⟩ := selfMint_of_target target
    exact absurd (hmint u' hu') hden
  | minted spec exp now raw g by_ named gen on =>
    subst by_; subst named
    obtain ⟨g', hg'⟩ := hheld
    exact absurd hg' (hfresh g')

/-- One operation keeps the user frozen. -/
theorem frozen_step (h₀ : Coherent s₀) {ops : List Op} {op : Op} (hfr : Frozen cr s₀ ops u)
    (hfresh : IdFresh cr s₀ ops op) (hthaw : NotThawed cr s₀ u ops op) (hmint : MintSafe cr s₀ u ops op) :
    Frozen cr s₀ (ops ++ [op]) u := by
  intro id token hid
  rcases (IssuedTo.snoc_iff _).1 hid with hold | hnew
  · refine off_step h₀ (hfr id token hold) (hold.everHeld h₀) hfresh ?_ ?_
    · rintro g rfl; exact hthaw token hold
    · intro u' hu'; exact hmint u' id hu' (Or.inr ⟨token, hold⟩)
  · have hm := (issues_spec (after_coherent cr h₀ ops) hnew).1
    have hden := hmint u id hm (Or.inl rfl)
    rw [after_snoc]
    exact Or.inl (step_denylist cr (after_coherent cr h₀ ops) op hden)

/-- A token that names an id that is off does not verify. -/
theorem verifyToken_off {s : GovState} (hco : Coherent s) {id token : String} (hoff : Off s id)
    (hsub : ∀ c, claimsOf cr token = some c → c.sub = id) (now : Nat) : verifyToken cr s token now = none := by
  by_contra hne
  obtain ⟨signer, c, k, -, ha, -, hden, hk, hen, -⟩ :=
    verifyToken_isSome.1 (Option.ne_none_iff_isSome.1 hne)
  have hid := hsub c (TokenVerifier.claimsOf_authentic cr ha)
  rw [hid] at hden hk
  obtain ⟨k', hk', he⟩ := hco.cached hk
  obtain ⟨-, -, hen', -⟩ := unstamped_eq he
  have := (hoff.resolve_left hden) k' hk'
  rw [hen', hen] at this; cases this

/-- **An administrator's freeze holds.** After the user's live binding is disabled, with every other id the
user was issued a token for already off, no token issued to the user before or after verifies, as long as no
such key is switched back on and every self-serve mint for the user or on such an id is on a denylisted id. -/
theorem freeze_holds (hcr : cr.Lawful) (h₀ : Coherent s₀) {pre post : List Op} {id₀ : String} {group : Option (Option String)}
    (hbinding : ∃ k, (after cr s₀ pre).live id₀ = some k ∧ k.enabled = true ∧ k.group = some (selfGroup u))
    (halone : ∀ id token, IssuedTo cr s₀ pre u id token → id ≠ id₀ → Off (after cr s₀ pre) id)
    (hfresh : Along (IdFresh cr s₀) (pre ++ .updateKey id₀ (some false) group :: post))
    (hthaw : ∀ p op q, post = p ++ op :: q →
      NotThawed cr s₀ u (pre ++ .updateKey id₀ (some false) group :: p) op)
    (hmint : ∀ p op q, post = p ++ op :: q →
      MintSafe cr s₀ u (pre ++ .updateKey id₀ (some false) group :: p) op)
    {id token : String} (hissued : IssuedTo cr s₀ (pre ++ .updateKey id₀ (some false) group :: post) u id token)
    (now : Nat) :
    verifyToken cr (after cr s₀ (pre ++ .updateKey id₀ (some false) group :: post)) token now = none := by
  set freeze : Op := .updateKey id₀ (some false) group with hfreeze
  have hco := after_coherent cr h₀ pre
  -- at the freeze
  have hat : Frozen cr s₀ (pre ++ [freeze]) u := by
    intro i t hi
    have hi' : IssuedTo cr s₀ pre u i t := by
      rcases (IssuedTo.snoc_iff _).1 hi with h | h
      · exact h
      · cases h
    by_cases he : i = id₀
    · subst he
      obtain ⟨k, hk, -, -⟩ := hbinding
      have hspec := updateKey_spec (after cr s₀ pre) i (some false) group
      rw [hk] at hspec
      obtain ⟨st, hst, hrun⟩ := hspec
      right
      intro k' hk'
      rw [after_snoc, hfreeze, step, hrun, live_put hst (MemoryStore.live_eq_some.1 hk).2,
        if_pos (MemoryStore.live_id hk)] at hk'
      cases hk'; rfl
    · refine off_step h₀ (halone i t hi' he) (hi'.everHeld h₀) trivial ?_ ?_
      · intro g h
        rw [hfreeze] at h
        cases h
      · intro u' h
        rw [hfreeze] at h
        cases h
  have hsplit : ∀ q, pre ++ freeze :: q = (pre ++ [freeze]) ++ q := fun q => by simp
  -- from the freeze on
  have hend : Frozen cr s₀ (pre ++ freeze :: post) u := by
    clear hissued
    induction post using List.reverseRecOn with
    | nil => exact hat
    | append_singleton post op ih =>
      have hcons : pre ++ freeze :: (post ++ [op]) = (pre ++ freeze :: post) ++ [op] := by simp
      have hf := hfresh
      rw [hcons] at hf
      obtain ⟨hf₁, hf₂⟩ := Along.snoc_iff.1 hf
      rw [hcons]
      refine frozen_step h₀ (ih hf₁ ?_ ?_) hf₂ (hthaw post op [] rfl) (hmint post op [] rfl)
      · intro p o q e; exact hthaw p o (q ++ [op]) (by simp [e])
      · intro p o q e; exact hmint p o (q ++ [op]) (by simp [e])
  exact verifyToken_off (after_coherent cr h₀ _) (hend id token hissued)
    (fun _ hc => hissued.sub h₀ hcr hc) now

/-! ## A run that thaws a frozen user

Log in, freeze, log in again: the disabled row is not an enabled binding, so the login starts over at epoch 0,
finds the id free of a tombstone and writes the row back enabled. -/

namespace Thaw

open Revival (signer boot boot_coherent firstId signing_after)

def login : Op := .issueSelf "u" none 100 0 0

def freeze : Op := .updateKey firstId (some false) none

def rotation : Op := .rotateKey firstId 100 "00112233445566778899aabbccddeeff"

def token : String := signer.mint plainCrypto firstId 100 (some "0")

theorem token_issued : issues plainCrypto boot "u" login = some (firstId, token) := by decide +kernel

theorem bound : ∃ k, (after plainCrypto boot [login]).live firstId = some k ∧ k.enabled = true ∧
    k.group = some (selfGroup "u") := by
  have h : ((after plainCrypto boot [login]).live firstId).any
      (fun k => k.enabled && k.group == some (selfGroup "u")) = true := by decide +kernel
  simpa [Option.any_eq_true] using h

theorem ids_fresh (op : Op) (h : op = login ∨ op = rotation) :
    Along (IdFresh plainCrypto boot) ([login] ++ freeze :: [op]) := by
  refine Along.of_getElem fun i hi => ?_
  match i, hi with
  | 0, _ | 1, _ => trivial
  | 2, _ => rcases h with rfl | rfl <;> trivial

theorem at_last {P : List Op → Op → Prop} {op : Op} (h : ∀ p, P p op) :
    ∀ p o q, [op] = p ++ o :: q → P ([login] ++ freeze :: p) o := by
  intro p o q he
  have hlen := congrArg List.length he
  simp only [List.length_append, List.length_cons, List.length_nil] at hlen
  obtain rfl : p = [] := List.eq_nil_of_length_eq_zero (by omega)
  obtain ⟨rfl, -⟩ := List.cons.inj he
  exact h _

theorem verifies_again :
    (verifyToken plainCrypto (after plainCrypto boot ([login] ++ freeze :: [login])) token 5).isSome = true := by
  rw [token, verifyToken_of_authentic (signing_after _ (by simp [login, freeze]))
    (authentic_mint plainCrypto plainCrypto_lawful signer firstId 100 (some "0"))]
  decide +kernel

theorem sole_id {id tok : String} (h : IssuedTo plainCrypto boot [login] "u" id tok) : id = firstId := by
  rcases (IssuedTo.snoc_iff []).1 h with ⟨pre, op, post, he, -⟩ | h
  · simp at he
  · cases token_issued.symm.trans h; rfl

end Thaw

/-- **A login thaws a frozen user as it stands**: the run above meets everything but `MintSafe`. -/
theorem login_thaws : ¬ ∀ (cr : TokenCrypto) (s₀ : GovState) (u : String), cr.Lawful → Coherent s₀ →
    ∀ (pre post : List Op) (id₀ : String) (group : Option (Option String)),
    (∃ k, (after cr s₀ pre).live id₀ = some k ∧ k.enabled = true ∧ k.group = some (selfGroup u)) →
    Along (IdFresh cr s₀) (pre ++ .updateKey id₀ (some false) group :: post) →
    (∀ p op q, post = p ++ op :: q →
      NotThawed cr s₀ u (pre ++ .updateKey id₀ (some false) group :: p) op) →
    ∀ id token, IssuedTo cr s₀ (pre ++ .updateKey id₀ (some false) group :: post) u id token →
    ∀ now, verifyToken cr (after cr s₀ (pre ++ .updateKey id₀ (some false) group :: post)) token now = none := by
  intro h
  have hnone := h plainCrypto Revival.boot "u" plainCrypto_lawful Revival.boot_coherent [Thaw.login]
    [Thaw.login] Revival.firstId none Thaw.bound (Thaw.ids_fresh _ (Or.inl rfl))
    (Thaw.at_last (fun _ => trivial)) Revival.firstId Thaw.token
    ⟨[], Thaw.login, _, rfl, Thaw.token_issued⟩ 5
  have hsome := Thaw.verifies_again
  rw [Thaw.freeze, hnone] at hsome
  cases hsome

theorem freeze_holds_rotation : verifyToken plainCrypto (after plainCrypto Revival.boot
    ([Thaw.login] ++ .updateKey Revival.firstId (some false) none :: [Thaw.rotation])) Thaw.token 5 = none :=
  freeze_holds plainCrypto_lawful Revival.boot_coherent Thaw.bound
    (fun _ _ h hne => absurd (Thaw.sole_id h) hne) (Thaw.ids_fresh _ (Or.inr rfl))
    (Thaw.at_last (fun _ => trivial))
    (Thaw.at_last (P := MintSafe plainCrypto Revival.boot "u") (fun _ _ _ h => by cases h))
    ⟨[], Thaw.login, _, rfl, Thaw.token_issued⟩ 5

end Busbar.GovState
