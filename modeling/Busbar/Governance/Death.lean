import Busbar.Governance.Steps

/-!
# Retired credentials

A token names a key id and a generation. Once a refresh, a rotation or a deletion has taken that generation
out of use, no later operation brings it back, as long as no self-serve mint re-stamps a generation the id
has already left behind.

* `Retired`: the generation was in use under the id, and is not in use now (or the id is denylisted).
* `retired_step`: one operation keeps a generation retired.
* `death_is_permanent`: a token that a refresh, a rotation or a deletion stopped never verifies again.
* `rotation_then_refresh_revives`: the run on which a second refresh after a rotation revives a token.
-/

namespace Busbar.GovState

variable (cr : TokenCrypto)

open Run (Along)

/-- The state after a run. -/
def after (s₀ : GovState) (ops : List Op) : GovState := Run.exec (step cr) s₀ ops

/-- Some state of the run had a live row of this generation under the id. -/
def EverHeld (s₀ : GovState) (ops : List Op) (id : String) (g : Option String) : Prop :=
  ∃ p, p <+: ops ∧ ∃ k, (after cr s₀ p).live id = some k ∧ bindingGeneration k.generationHash = g

/-- The random draws of the operation have not been seen before in the run. -/
def DrawFresh (s₀ : GovState) (pre : List Op) : Op → Prop
  | .rotateKey id _ g => ¬ EverHeld cr s₀ pre id (bindingGeneration (bindingMarker id g))
  | .revoke id _ g => ¬ EverHeld cr s₀ pre id (bindingGeneration (bindingMarker id g))
  | .mintSigned _ _ _ raw _ => ∀ g, ¬ EverHeld cr s₀ pre (vkIdPrefix ++ hexEncode raw) g
  | _ => True

/-- If the operation writes a self-serve binding, then the generation it stamps is the current one of the id
or was never in use under it, or the id is denylisted. -/
def StampSafe (s₀ : GovState) (pre : List Op) (op : Op) : Prop :=
  ∀ id epoch, selfTarget cr (after cr s₀ pre) op = some (id, epoch) →
    id ∈ (after cr s₀ pre).denylist ∨
    (∃ k, (after cr s₀ pre).live id = some k ∧
      bindingGeneration k.generationHash = bindingGeneration (bindingMarker id (toString epoch))) ∨
    ¬ EverHeld cr s₀ pre id (bindingGeneration (bindingMarker id (toString epoch)))

/-- The operations that retire credentials. -/
def Op.retires : Op → Bool
  | .refreshSelf .. | .rotateKey .. | .deleteKey _ => true
  | _ => false

/-- The generation was in use under the id and is not any more. -/
structure Retired (s₀ : GovState) (ops : List Op) (id : String) (g : Option String) : Prop where
  held : EverHeld cr s₀ ops id g
  gone : id ∈ (after cr s₀ ops).denylist ∨
    ∀ k, (after cr s₀ ops).live id = some k → bindingGeneration k.generationHash ≠ g

variable {cr} {s₀ : GovState}

theorem after_snoc (ops : List Op) (op : Op) :
    after cr s₀ (ops ++ [op]) = step cr (after cr s₀ ops) op := Run.exec_snoc _ _ _ _

variable (cr) in
theorem after_coherent (h : Coherent s₀) (ops : List Op) : Coherent (after cr s₀ ops) :=
  Run.exec_invariant _ (I := Coherent) (fun _ op hs => step_coherent cr hs op) h ops

theorem EverHeld.mono {ops ops' : List Op} {id : String} {g : Option String} (h : EverHeld cr s₀ ops id g)
    (hp : ops <+: ops') : EverHeld cr s₀ ops' id g := by
  obtain ⟨p, hpre, hk⟩ := h
  exact ⟨p, hpre.trans hp, hk⟩

theorem EverHeld.now {ops : List Op} {id : String} {k : VirtualKey} (h : (after cr s₀ ops).live id = some k) :
    EverHeld cr s₀ ops id (bindingGeneration k.generationHash) :=
  ⟨ops, List.prefix_refl _, k, h, rfl⟩

/-- When a token verifies. -/
theorem verifyToken_isSome {s : GovState} {token : String} {now : Nat} :
    (verifyToken cr s token now).isSome = true ↔ ∃ signer c k, s.signing = some signer ∧
      (TokenVerifier.single signer.kid (cr.verifyingKey signer.key)).authentic cr token = .ok c ∧ now < c.exp ∧
      c.sub ∉ s.denylist ∧ s.caches.byId.get c.sub = some k ∧ k.enabled = true ∧
      bindingGeneration k.generationHash = c.generation := by
  constructor
  · intro h
    unfold verifyToken lookupBySub at h
    split at h
    · cases h
    · rename_i signer hs
      split at h
      · cases h
      · rename_i c hv
        obtain ⟨ha, hexp⟩ := (TokenVerifier.verify_ok cr).1 hv
        split at h
        · cases h
        · rename_i hden
          split at h
          · rename_i k hk
            split at h
            · rename_i hok
              simp only [Bool.and_eq_true, generationMatches, beq_iff_eq] at hok
              exact ⟨signer, c, k, hs, ha, hexp, hden, hk, hok.1, hok.2⟩
            · cases h
          · cases h
  · rintro ⟨signer, c, k, hs, ha, hexp, hden, hk, hen, hgen⟩
    have hv := (TokenVerifier.verify_ok cr).2 ⟨ha, hexp⟩
    simp [verifyToken, lookupBySub, hs, hv, hden, hk, hen, generationMatches, hgen]

/-- What `verifyToken` answers for an authentic token. -/
theorem verifyToken_of_authentic {s : GovState} {signer : TokenSigner} (hs : s.signing = some signer)
    {token : String} {c : TokenClaims}
    (ha : (TokenVerifier.single signer.kid (cr.verifyingKey signer.key)).authentic cr token = .ok c) (now : Nat) :
    verifyToken cr s token now = if now < c.exp ∧ c.sub ∉ s.denylist then (s.lookupBySub c.sub).filter
      (fun k => k.enabled && generationMatches k.generationHash c.generation) else none := by
  unfold verifyToken TokenVerifier.verify
  simp only [hs, ha]
  by_cases hexp : c.exp ≤ now
  · rw [if_pos hexp, if_neg (by omega)]
  · rw [if_neg hexp]
    by_cases hden : c.sub ∈ s.denylist
    · rw [if_neg (by tauto)]; simp only [hden, if_true]
    · rw [if_pos ⟨by omega, hden⟩]
      simp only [hden, if_false]
      cases s.lookupBySub c.sub with
      | none => rfl
      | some k => simp only [Option.filter_some]

/-- One operation keeps a generation retired. -/
theorem retired_step (h₀ : Coherent s₀) {ops : List Op} {op : Op} {id : String} {g : Option String}
    (hr : Retired cr s₀ ops id g) (hfresh : DrawFresh cr s₀ ops op) (hsafe : StampSafe cr s₀ ops op) :
    Retired cr s₀ (ops ++ [op]) id g := by
  have hco := after_coherent cr h₀ ops
  refine ⟨hr.held.mono (List.prefix_append _ _), ?_⟩
  rw [after_snoc]
  rcases hr.gone with hden | hgone
  · exact Or.inl (step_denylist cr hco op hden)
  by_cases hden : id ∈ (after cr s₀ ops).denylist
  · exact Or.inl (step_denylist cr hco op hden)
  right
  intro k' hk' hg
  -- the row can carry `g` again only if this operation stamped it
  cases step_live cr hco op hk' with
  | kept k was gen on => exact hgone k was (gen ▸ hg)
  | rotated k exp g' was by_ gen on => subst by_; rw [gen] at hg; exact hfresh (hg ▸ hr.held)
  | revoked reason g' by_ gen off => subst by_; rw [gen] at hg; exact hfresh (hg ▸ hr.held)
  | selfServe epoch target gen on =>
    rw [gen] at hg
    rcases hsafe id epoch target with h | ⟨k, was, hcur⟩ | h
    · exact hden h
    · exact hgone k was (hcur.trans hg)
    · exact h (hg ▸ hr.held)
  | minted spec exp now raw g' by_ named gen on => subst by_; subst named; exact hfresh g hr.held

/-- A refresh, a rotation or a deletion that stops a token retires its generation. -/
theorem retired_of_stop (h₀ : Coherent s₀) {ops : List Op} {op : Op} (hop : op.retires = true)
    {token : String} {now : Nat} {signer : TokenSigner} {c : TokenClaims}
    (hs : (after cr s₀ ops).signing = some signer)
    (ha : (TokenVerifier.single signer.kid (cr.verifyingKey signer.key)).authentic cr token = .ok c)
    (hv : (verifyToken cr (after cr s₀ ops) token now).isSome = true)
    (hstop : verifyToken cr (after cr s₀ (ops ++ [op])) token now = none) :
    Retired cr s₀ (ops ++ [op]) c.sub c.generation := by
  have hco := after_coherent cr h₀ ops
  obtain ⟨signer', c', k, hs', ha', hexp, hden, hk, hen, hgen⟩ := verifyToken_isSome.1 hv
  rw [hs] at hs'; cases hs'
  rw [ha] at ha'; cases ha'
  obtain ⟨k₀, hk₀, he⟩ := hco.cached hk
  obtain ⟨-, hgen₀, hen₀, -⟩ := unstamped_eq he
  refine ⟨(hgen ▸ hgen₀ ▸ EverHeld.now hk₀ : EverHeld cr s₀ ops c.sub c.generation).mono
    (List.prefix_append _ _), ?_⟩
  by_contra hcon
  simp only [not_or, not_forall, not_not] at hcon
  obtain ⟨hden', k', hk', hg'⟩ := hcon
  have hco' := after_coherent cr h₀ (ops ++ [op])
  obtain ⟨k'', hk'', he'⟩ := hco'.stored hk'
  obtain ⟨-, hgen', hen', -⟩ := unstamped_eq he'
  have hsign : (after cr s₀ (ops ++ [op])).signing = some signer := by
    rw [after_snoc, step_signing cr hco (by rintro k rfl; cases hop)]; exact hs
  -- an enabled row of the token's generation would still admit it, so the row must be off
  have hoff : k'.enabled = false := by
    by_contra hon
    have : (verifyToken cr (after cr s₀ (ops ++ [op])) token now).isSome = true :=
      verifyToken_isSome.2 ⟨signer, c, k'', hsign, ha, hexp, hden', hk'',
        by rw [hen']; simpa using hon, hgen' ▸ hg'⟩
    rw [hstop] at this; cases this
  rw [after_snoc] at hk'
  rw [← hen₀] at hen
  cases step_live cr hco op hk' with
  | kept k₁ was gen on =>
    rcases on with on | ⟨e, g, rfl, -⟩
    · rw [was] at hk₀; cases hk₀
      rw [hoff, hen] at on; cases on
    · cases hop
  | rotated k₁ exp g was by_ gen on =>
    rw [was] at hk₀; cases hk₀
    rw [hoff, hen] at on; cases on
  | revoked reason g by_ gen off => subst by_; cases hop
  | selfServe epoch target gen on => rw [hoff] at on; cases on
  | minted spec exp now raw g by_ named gen on => rw [hoff] at on; cases on

variable (cr) in
/-- The signing key is fixed along a run that never sets it. -/
theorem after_signing (h₀ : Coherent s₀) {ops : List Op} (hfix : ∀ k, Op.setSigningKey k ∉ ops) :
    (after cr s₀ ops).signing = s₀.signing := by
  induction ops using List.reverseRecOn with
  | nil => rfl
  | append_singleton ops op ih =>
    rw [after_snoc, step_signing cr (after_coherent cr h₀ ops)]
    · exact ih (fun k hk => hfix k (List.mem_append_left _ hk))
    · rintro k rfl
      exact hfix k (List.mem_append_right _ (List.mem_singleton.2 rfl))

/-- **Credential death is permanent.** Along a run in which every self-serve mint stamps a generation that
is current under its id or new to it, a token that a refresh, a rotation or a deletion stops never verifies
again, at any later time. -/
theorem death_is_permanent (h₀ : Coherent s₀) {pre post : List Op} {op : Op}
    (hfix : ∀ k, Op.setSigningKey k ∉ pre ++ op :: post)
    (hfresh : Along (DrawFresh cr s₀) (pre ++ op :: post))
    (hsafe : Along (StampSafe cr s₀) (pre ++ op :: post))
    (hop : op.retires = true) {token : String} {now : Nat}
    (hv : (verifyToken cr (after cr s₀ pre) token now).isSome = true)
    (hstop : verifyToken cr (after cr s₀ (pre ++ [op])) token now = none) (later : Nat) :
    verifyToken cr (after cr s₀ (pre ++ op :: post)) token later = none := by
  obtain ⟨signer, c, k, hs, ha, -, -, -, -, -⟩ := verifyToken_isSome.1 hv
  have hret := retired_of_stop h₀ hop hs ha hv hstop
  have hsplit : pre ++ op :: post = (pre ++ [op]) ++ post := by simp
  have hend : Retired cr s₀ ((pre ++ [op]) ++ post) c.sub c.generation := by
    refine Along.invariant_from (C := fun p o => DrawFresh cr s₀ p o ∧ StampSafe cr s₀ p o) hret
      (fun ops o hI hC => retired_step h₀ hI hC.1 hC.2) ?_
    intro p o q e
    exact ⟨hfresh p o q (hsplit.trans e), hsafe p o q (hsplit.trans e)⟩
  rw [← hsplit] at hend
  have hpre : ∀ k, Op.setSigningKey k ∉ pre := fun k hk => hfix k (List.mem_append_left _ hk)
  have hsign : (after cr s₀ (pre ++ op :: post)).signing = some signer := by
    rw [after_signing cr h₀ hfix, ← after_signing cr h₀ hpre]
    exact hs
  by_contra hne
  obtain ⟨signer', c', k', hs', ha', -, hden, hk', -, hgen⟩ :=
    verifyToken_isSome.1 (Option.ne_none_iff_isSome.1 hne)
  rw [hsign] at hs'; cases hs'
  rw [ha] at ha'; cases ha'
  obtain ⟨k'', hk'', he⟩ := (after_coherent cr h₀ _).cached hk'
  obtain ⟨-, hgen'', -⟩ := unstamped_eq he
  rcases hend.gone with h | h
  · exact hden h
  · exact h k'' hk'' ((congrArg bindingGeneration hgen'').trans hgen)

/-! ## A run that revives a token

Issue, refresh (epoch 1), rotate by hand, refresh again: the random generation does not read as a number, so
the second refresh restarts at epoch 1 and stamps the generation the rotation had retired. -/

instance (ops : List Op) (id : String) (g : Option String) : Decidable (EverHeld cr s₀ ops id g) :=
  decidable_of_iff (∃ p ∈ ops.inits, ((after cr s₀ p).live id).any
    (fun k => bindingGeneration k.generationHash == g) = true) (by
      simp only [EverHeld, List.mem_inits, Option.any_eq_true, beq_iff_eq])

namespace Revival

def signer : TokenSigner := ⟨[7], "k1"⟩

def boot : GovState := newWithSigner MemoryStore.new (some signer)

def firstId : String := deriveSelfSubject plainCrypto signer.key "u" 0

def secondId : String := deriveSelfSubject plainCrypto signer.key "u" 1

def token : String := signer.mint plainCrypto secondId 100 (some "1")

def issued : List Op := [.issueSelf "u" none 100 0 0, .refreshSelf "u" none 100 0 0]

def rotation : Op := .rotateKey secondId 100 "00112233445566778899aabbccddeeff"

def refreshAgain : Op := .refreshSelf "u" none 100 0 0

theorem boot_coherent : Coherent boot := fun _ => rfl

theorem token_authentic : (TokenVerifier.single signer.kid (plainCrypto.verifyingKey signer.key)).authentic
    plainCrypto token = .ok ⟨secondId, 100, "k1", some "1"⟩ :=
  authentic_mint plainCrypto plainCrypto_lawful signer secondId 100 (some "1")

theorem draws_fresh : Along (DrawFresh plainCrypto boot) (issued ++ rotation :: [refreshAgain]) := by
  refine Along.of_getElem fun i hi => ?_
  match i, hi with
  | 0, _ | 1, _ | 3, _ => trivial
  | 2, _ => show ¬ EverHeld plainCrypto boot issued secondId _; decide +kernel

theorem signing_after (ops : List Op) (h : ∀ k, Op.setSigningKey k ∉ ops) :
    (after plainCrypto boot ops).signing = some signer := after_signing plainCrypto boot_coherent h

theorem verifies_at_first : (verifyToken plainCrypto (after plainCrypto boot issued) token 5).isSome = true := by
  rw [verifyToken_of_authentic (signing_after _ (by simp [issued])) token_authentic]
  decide +kernel

theorem stops_at_rotation :
    verifyToken plainCrypto (after plainCrypto boot (issued ++ [rotation])) token 5 = none := by
  rw [verifyToken_of_authentic (signing_after _ (by simp [issued, rotation])) token_authentic]
  decide +kernel

theorem verifies_again : (verifyToken plainCrypto
    (after plainCrypto boot (issued ++ rotation :: [refreshAgain])) token 5).isSome = true := by
  rw [verifyToken_of_authentic (signing_after _ (by simp [issued, rotation, refreshAgain])) token_authentic]
  decide +kernel

end Revival

/-- **Death is not permanent as it stands**: the run above meets everything but `StampSafe`. -/
theorem rotation_then_refresh_revives : ¬ ∀ (cr : TokenCrypto) (s₀ : GovState), Coherent s₀ →
    ∀ (pre post : List Op) (op : Op), (∀ k, Op.setSigningKey k ∉ pre ++ op :: post) →
    Along (DrawFresh cr s₀) (pre ++ op :: post) → op.retires = true → ∀ (token : String) (now : Nat),
    (verifyToken cr (after cr s₀ pre) token now).isSome = true →
    verifyToken cr (after cr s₀ (pre ++ [op])) token now = none →
    ∀ later, verifyToken cr (after cr s₀ (pre ++ op :: post)) token later = none := by
  intro h
  have hnone := h plainCrypto Revival.boot Revival.boot_coherent Revival.issued [Revival.refreshAgain]
    Revival.rotation (by simp [Revival.issued, Revival.rotation, Revival.refreshAgain])
    Revival.draws_fresh rfl Revival.token 5 Revival.verifies_at_first Revival.stops_at_rotation 5
  have hsome := Revival.verifies_again
  rw [hnone] at hsome
  cases hsome

namespace Revival

def loginAgain : Op := .issueSelf "u" none 100 0 0

theorem stamps_safe : Along (StampSafe plainCrypto boot) (issued ++ rotation :: [loginAgain]) := by
  refine Along.of_getElem fun i hi => ?_
  match i, hi with
  | 0, _ =>
    intro id epoch h
    have ht : selfTarget plainCrypto (after plainCrypto boot []) (.issueSelf "u" none 100 0 0)
        = some (firstId, 0) := by decide +kernel
    cases ht.symm.trans h
    exact Or.inr (Or.inr (by decide +kernel))
  | 1, _ =>
    intro id epoch h
    have ht : selfTarget plainCrypto (after plainCrypto boot [.issueSelf "u" none 100 0 0])
        (.refreshSelf "u" none 100 0 0) = some (secondId, 1) := by decide +kernel
    cases ht.symm.trans h
    exact Or.inr (Or.inr (by decide +kernel))
  | 2, _ => intro id epoch h; cases h
  | 3, _ =>
    intro id epoch h
    have ht : selfTarget plainCrypto (after plainCrypto boot (issued ++ [rotation])) loginAgain = none := by
      decide +kernel
    cases ht.symm.trans h

theorem draws_fresh_login : Along (DrawFresh plainCrypto boot) (issued ++ rotation :: [loginAgain]) := by
  refine Along.of_getElem fun i hi => ?_
  match i, hi with
  | 0, _ | 1, _ | 3, _ => trivial
  | 2, _ => show ¬ EverHeld plainCrypto boot issued secondId _; decide +kernel

end Revival

theorem death_is_permanent_login : verifyToken plainCrypto (after plainCrypto Revival.boot
    (Revival.issued ++ Revival.rotation :: [Revival.loginAgain])) Revival.token 7 = none :=
  death_is_permanent Revival.boot_coherent
    (by simp [Revival.issued, Revival.rotation, Revival.loginAgain]) Revival.draws_fresh_login
    Revival.stamps_safe rfl Revival.verifies_at_first Revival.stops_at_rotation 7

end Busbar.GovState
