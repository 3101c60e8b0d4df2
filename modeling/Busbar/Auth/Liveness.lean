import Busbar.Governance.Death

/-!
# One key, two credential planes

The Bedrock-ingress SigV4 admission next to the signed-token admission, and what each asks of the key row.

* `mem_loadByCredential`: which credentials the credential cache holds.
* `verifyToken_good`, `verifyBedrockSigv4_good`: with a valid credential in hand both planes admits iff the key
  is enabled, not tombstoned and not denylisted. Neither reads the key's own expiry.
* `planes_keep_rule_iff`: both planes keep the four-part liveness rule iff the row is refused on the other
  three parts or has not expired.
-/

namespace Busbar

/-- What the admission takes from the SigV4 codec: the access key id of a well-formed request whose body hash
and date are in order, and whether its signature matches under a secret at a time. -/
structure Sigv4Front (Req : Type) where
  accessKeyId : Req → Option String
  signatureOk : Req → String → Nat → Bool

def dummySecret : String := "AWS4-DUMMY-SECRET-FOR-CONSTANT-TIME-REJECT-PATH"

namespace GovState

variable {Req : Type}

/-- An unknown id is checked against the dummy secret, so that it rejects like a wrong signature. -/
def verifyBedrockSigv4 (f : Sigv4Front Req) (s : GovState) (req : Req) (now : Nat) : Option VirtualKey :=
  match f.accessKeyId req with
  | none => none
  | some accessKeyId =>
    let (secret, resolved) := match s.lookupCredential "sigv4" accessKeyId with
      | some (key, cred) => (cred.plaintext.getD dummySecret, some (key, cred.metadata.isLive now))
      | none => (dummySecret, none)
    match f.signatureOk req secret now, resolved with
    | true, some (key, true) => if key.enabled && !s.isRevoked key.id then some key else none
    | _, _ => none

/-! ## The caches, freshly loaded -/

/-- The caches and the denylist are what the store holds at `now`. -/
structure Fresh (s : GovState) (now : Nat) : Prop where
  byId : s.caches.byId = load s.store.listKeys
  byCredential : s.caches.byCredential = loadByCredential s.caches.byId (s.store.listCredentialsSince 0) now
  denylist : s.denylist = s.store.denylist

/-- No two credentials answer to the same (kind, public id): what `putCredential` enforces. -/
def UniqueHandles (creds : List CredentialSecret) : Prop :=
  ∀ c ∈ creds, ∀ c' ∈ creds, c.metadata.kind = c'.metadata.kind → c.metadata.publicId = c'.metadata.publicId →
    c = c'

theorem UniqueHandles.mono {l l' : List CredentialSecret} (h : UniqueHandles l) (hl : ∀ c ∈ l', c ∈ l) :
    UniqueHandles l' := fun c hc c' hc' => h c (hl c hc) c' (hl c' hc')

/-- `putCredential` keeps the handles unique. -/
theorem putCredential_uniqueHandles {st st' : MemoryStore} {c : CredentialSecret}
    (h : UniqueHandles st.creds.rows) (hp : st.putCredential c = .ok st') : UniqueHandles st'.creds.rows := by
  unfold MemoryStore.putCredential at hp
  split at hp
  · cases hp
  split at hp
  · cases hp
  rename_i hfree
  have hput : UniqueHandles (st.creds.put
      { c with metadata := { c.metadata with revision := st.revision + 1 } }).rows := by
    have hother : ∀ d ∈ st.creds.rows, d.metadata.id ≠ c.metadata.id →
        ¬ (d.metadata.kind = c.metadata.kind ∧ d.metadata.publicId = c.metadata.publicId) := by
      intro d hd hne heq
      refine hfree (List.any_eq_true.2 ⟨d, hd, ?_⟩)
      simp [hne, heq.1, heq.2]
    intro a ha b hb hk hpid
    rcases Registry.mem_rows_put.1 ha with rfl | ⟨ha, hna⟩ <;>
      rcases Registry.mem_rows_put.1 hb with rfl | ⟨hb, hnb⟩
    · rfl
    · exact absurd ⟨hk.symm, hpid.symm⟩ (hother b hb hnb)
    · exact absurd ⟨hk, hpid⟩ (hother a ha hna)
    · exact h a ha b hb hk hpid
  cases hp
  dsimp only
  split
  · exact hput.mono (fun d hd => (Registry.mem_rows_retain.1 hd).1)
  · exact hput

/-- The credential cache maps a handle to the live credential with that handle whose key is loaded. -/
theorem lookup_loadByCredential {byId : Registry VirtualKey.id} {creds : List CredentialSecret} {now : Nat}
    (hu : UniqueHandles creds) (kind publicId : String) (key : VirtualKey) (c : CredentialSecret) :
    (loadByCredential byId creds now).lookup (kind, publicId) = some (key, c) ↔
      c ∈ creds ∧ c.metadata.kind = kind ∧ c.metadata.publicId = publicId ∧ c.metadata.isLive now = true ∧
        byId.get c.metadata.keyId = some key := by
  unfold loadByCredential
  induction creds using List.reverseRecOn with
  | nil => simp [Table.lookup]
  | append_singleton creds d ih =>
    have ih := ih (hu.mono fun c hc => List.mem_append_left _ hc)
    rw [List.foldl_append, List.foldl_cons, List.foldl_nil]
    -- a handle of the last credential occurs nowhere before it
    have hlast : ∀ c ∈ creds, c.metadata.kind = d.metadata.kind → c.metadata.publicId = d.metadata.publicId → c = d :=
      fun c hc => hu c (List.mem_append_left _ hc) d (by simp)
    cases hlive : d.metadata.isLive now with
    | false =>
      simp only [Bool.false_eq_true, if_false, ih, List.mem_append, List.mem_singleton]
      constructor
      · rintro ⟨hm, rest⟩; exact ⟨Or.inl hm, rest⟩
      · rintro ⟨hm | rfl, rest⟩
        · exact ⟨hm, rest⟩
        · rw [hlive] at rest; exact absurd rest.2.2.1 (by simp)
    | true =>
      simp only [if_true]
      cases hk : byId.get d.metadata.keyId with
      | none =>
        simp only [ih, List.mem_append, List.mem_singleton]
        constructor
        · rintro ⟨hm, rest⟩; exact ⟨Or.inl hm, rest⟩
        · rintro ⟨hm | rfl, rest⟩
          · exact ⟨hm, rest⟩
          · rw [hk] at rest; exact absurd rest.2.2.2 (by simp)
      | some key' =>
        simp only [Table.lookup_insert, Prod.mk.injEq]
        by_cases hh : d.metadata.kind = kind ∧ d.metadata.publicId = publicId
        · rw [if_pos hh]
          obtain ⟨rfl, rfl⟩ := hh
          simp only [Option.some.injEq, Prod.mk.injEq, List.mem_append, List.mem_singleton]
          constructor
          · rintro ⟨rfl, rfl⟩; exact ⟨Or.inr rfl, rfl, rfl, hlive, hk⟩
          · rintro ⟨hm | rfl, hkd, hpd, -, hkey⟩
            · have := hlast c hm hkd hpd
              subst this
              rw [hk] at hkey; exact ⟨Option.some.inj hkey, rfl⟩
            · rw [hk] at hkey; exact ⟨Option.some.inj hkey, rfl⟩
        · rw [if_neg hh, ih]
          simp only [List.mem_append, List.mem_singleton]
          constructor
          · rintro ⟨hm, rest⟩; exact ⟨Or.inl hm, rest⟩
          · rintro ⟨hm | rfl, hkd, hpd, rest⟩
            · exact ⟨hm, hkd, hpd, rest⟩
            · exact absurd ⟨hkd, hpd⟩ hh

/-! ## Presented credentials -/

/-- A bearer token or a signed request. -/
inductive Presented (Req : Type) where
  | token (token : String)
  | request (req : Req)

variable (cr : TokenCrypto) (f : Sigv4Front Req)

/-- The key row a presented credential resolves to, if it is admitted. -/
def admits (s : GovState) (now : Nat) : Presented Req → Option VirtualKey
  | .token t => verifyToken cr s t now
  | .request req => verifyBedrockSigv4 f s req now

/-- The credential is valid in itself and belongs to the key: an authentic unexpired token of the current
generation, or a request signed with a stored live credential. -/
def Good (s : GovState) (k : VirtualKey) (now : Nat) : Presented Req → Prop
  | .token t => ∃ signer c, s.signing = some signer ∧
      (TokenVerifier.single signer.kid (cr.verifyingKey signer.key)).authentic cr t = .ok c ∧ now < c.exp ∧
      c.sub = k.id ∧ bindingGeneration k.generationHash = c.generation
  | .request req => ∃ c ∈ s.store.creds.rows, 0 < c.metadata.revision ∧ c.metadata.keyId = k.id ∧
      c.metadata.kind = "sigv4" ∧ c.metadata.isLive now = true ∧
      f.accessKeyId req = some c.metadata.publicId ∧ f.signatureOk req (c.plaintext.getD dummySecret) now = true

def Unexpired (k : VirtualKey) (now : Nat) : Prop := ∀ exp, k.expiresAt = some exp → now < exp

/-- The four conditions on the key row. -/
structure Admissible (s : GovState) (k : VirtualKey) (now : Nat) : Prop where
  enabled : k.enabled = true
  live : k.deletedAt = none
  listed : k.id ∉ s.store.denylist
  unexpired : Unexpired k now

variable {cr f} {s : GovState} {k : VirtualKey} {now : Nat}

theorem UniqueHandles.listed (h : UniqueHandles s.store.creds.rows) :
    UniqueHandles (s.store.listCredentialsSince 0) := h.mono fun _ hc => (List.mem_filter.1 hc).1

theorem Fresh.get (hf : Fresh s now) (id : String) : s.caches.byId.get id = s.live id := by
  rw [hf.byId, get_load]

/-- Whatever is admitted resolves to an enabled row that is live in the store and not denylisted. -/
theorem admit_some (hf : Fresh s now) (hu : UniqueHandles s.store.creds.rows) {p : Presented Req}
    {k' : VirtualKey} (h : admits cr f s now p = some k') :
    s.live k'.id = some k' ∧ k'.enabled = true ∧ k'.id ∉ s.store.denylist := by
  cases p with
  | token t =>
    have hsome : (verifyToken cr s t now).isSome = true := Option.isSome_iff_exists.2 ⟨k', h⟩
    obtain ⟨signer, c, k₀, hs, ha, hexp, hden, hk, hen, hgen⟩ := verifyToken_isSome.1 hsome
    have hk' : k₀ = k' := by
      have h : verifyToken cr s t now = some k' := h
      rw [verifyToken_of_authentic hs ha, if_pos ⟨hexp, hden⟩, lookupBySub, hk,
        Option.filter_some, if_pos (by simp [hen, generationMatches, hgen])] at h
      exact Option.some.inj h
    subst hk'
    have hid := Registry.key_of_get hk
    rw [← hid] at hden hk
    exact ⟨hf.get k₀.id ▸ hk, hen, hf.denylist ▸ hden⟩
  | request req =>
    simp only [admits, verifyBedrockSigv4] at h
    split at h
    · cases h
    rename_i akid hakid
    cases hl : s.lookupCredential "sigv4" akid with
    | none =>
      rw [hl] at h
      dsimp only at h
      split at h <;> simp_all
    | some r =>
      obtain ⟨key, cred⟩ := r
      rw [hl] at h
      dsimp only at h
      split at h
      · rename_i k₁ hsig hlive
        simp only [Option.some.injEq, Prod.mk.injEq] at hlive
        obtain ⟨rfl, -⟩ := hlive
        split at h
        · rename_i hok
          cases h
          simp only [Bool.and_eq_true, isRevoked, Bool.not_eq_true', decide_eq_false_iff_not] at hok
          have hin := hl
          rw [lookupCredential, hf.byCredential, lookup_loadByCredential hu.listed] at hin
          obtain ⟨-, -, -, -, hkey⟩ := hin
          rw [← Registry.key_of_get hkey, hf.get] at hkey
          exact ⟨hkey, hok.1, hf.denylist ▸ hok.2⟩
        · cases h
      · cases h

/-- A signed request's handle resolves to the key iff the key is live. -/
theorem lookup_good (hf : Fresh s now) (hu : UniqueHandles s.store.creds.rows)
    (hrow : s.store.getKey k.id = some k) {c : CredentialSecret} (hc : c ∈ s.store.creds.rows)
    (hrev : 0 < c.metadata.revision) (hown : c.metadata.keyId = k.id) (hkind : c.metadata.kind = "sigv4")
    (hcl : c.metadata.isLive now = true) :
    s.lookupCredential "sigv4" c.metadata.publicId = if k.deletedAt = none then some (k, c) else none := by
  have hmem : c ∈ s.store.listCredentialsSince 0 := List.mem_filter.2 ⟨hc, by simpa using hrev⟩
  cases hr : s.lookupCredential "sigv4" c.metadata.publicId with
  | none =>
    have hn : k.deletedAt ≠ none := by
      intro hd
      have hl : s.live k.id = some k := MemoryStore.live_eq_some.2 ⟨hrow, hd⟩
      have : s.lookupCredential "sigv4" c.metadata.publicId = some (k, c) := by
        rw [lookupCredential, hf.byCredential, lookup_loadByCredential hu.listed]
        exact ⟨hmem, hkind, rfl, hcl, by rw [hown, hf.get, hl]⟩
      rw [hr] at this; cases this
    rw [if_neg hn]
  | some r =>
    obtain ⟨key, cred⟩ := r
    rw [lookupCredential, hf.byCredential, lookup_loadByCredential hu.listed] at hr
    obtain ⟨hm, hkd, hpd, -, hkey⟩ := hr
    have hcc : cred = c := hu _ (List.mem_filter.1 hm).1 _ hc (hkd.trans hkind.symm) hpd
    subst hcc
    rw [hown, hf.get] at hkey
    obtain ⟨hg, hd⟩ := MemoryStore.live_eq_some.1 hkey
    have : key = k := Option.some.inj (hg.symm.trans hrow)
    subst this
    rw [if_pos hd]

/-- **A valid credential is admitted iff its key is enabled, not tombstoned and not denylisted.** -/
theorem admit_good (hf : Fresh s now) (hu : UniqueHandles s.store.creds.rows)
    (hrow : s.store.getKey k.id = some k) {p : Presented Req} (hp : Good cr f s k now p) :
    admits cr f s now p = if k.enabled = true ∧ k.deletedAt = none ∧ k.id ∉ s.store.denylist then some k
      else none := by
  have hlive : s.live k.id = if k.deletedAt = none then some k else none := by
    rw [live, MemoryStore.live, show s.store.keys.get k.id = some k from hrow, Option.filter_some]
    simp only [Option.isNone_iff_eq_none]
  cases p with
  | token t =>
    obtain ⟨signer, c, hs, ha, hexp, hsub, hgen⟩ := hp
    rw [admits, verifyToken_of_authentic hs ha, hsub, hf.denylist, lookupBySub, hf.get, hlive]
    by_cases hd : k.deletedAt = none <;> by_cases hden : k.id ∈ s.store.denylist <;> cases hen : k.enabled <;>
      simp [hexp, hd, hden, hen, generationMatches, hgen]
  | request req =>
    obtain ⟨c, hc, hrev, hown, hkind, hcl, hak, hsig⟩ := hp
    have hl := lookup_good hf hu hrow hc hrev hown hkind hcl
    by_cases hd : k.deletedAt = none
    · rw [if_pos hd] at hl
      simp only [admits, verifyBedrockSigv4, hak, hl, hsig, hcl, isRevoked, hf.denylist]
      by_cases hden : k.id ∈ s.store.denylist <;> cases hen : k.enabled <;> simp [hd, hden]
    · rw [if_neg hd] at hl
      simp only [admits, verifyBedrockSigv4, hak, hl, hd, false_and, and_false, if_false]
      split <;> simp_all

/-- **The liveness rule on both planes.** Given a valid credential of the key, both planes admits the key only
on the four conditions, and judge its valid credentials alike, iff the row is refused on one of the other
three conditions or has not expired: the key's own `expires_at` is read by neither plane. -/
theorem planes_keep_rule_iff (hf : Fresh s now) (hu : UniqueHandles s.store.creds.rows)
    (hrow : s.store.getKey k.id = some k) {p : Presented Req} (hp : Good cr f s k now p) :
    ((∀ q k', admits cr f s now q = some k' → k'.id = k.id → Admissible s k now) ∧
      ∀ q r, Good cr f s k now q → Good cr f s k now r →
        (admits cr f s now q).isSome = (admits cr f s now r).isSome) ↔
    (k.enabled = true → k.deletedAt = none → k.id ∉ s.store.denylist → Unexpired k now) := by
  constructor
  · rintro ⟨hrule, -⟩ hen hd hden
    have hin := admit_good hf hu hrow hp
    rw [if_pos ⟨hen, hd, hden⟩] at hin
    exact (hrule p k hin rfl).unexpired
  · intro hcond
    refine ⟨fun q k' hq hid => ?_, fun q r hq hr => ?_⟩
    · obtain ⟨hl, hen, hden⟩ := admit_some hf hu hq
      rw [hid] at hl hden
      obtain ⟨hg, hd⟩ := MemoryStore.live_eq_some.1 hl
      have : k' = k := Option.some.inj (hg.symm.trans hrow)
      subst this
      exact ⟨hen, hd, hden, hcond hen hd hden⟩
    · rw [admit_good hf hu hrow hq, admit_good hf hu hrow hr]

/-! ## An expired key that both planes admits -/

namespace Expired

def row : VirtualKey where
  id := "vk_a"
  generationHash := "binding:vk_a:0"
  name := "a"
  allowedScopes := none
  enabled := true
  createdAt := 0
  group := none
  labels := []
  expiresAt := some 5
  deletedAt := none
  revision := 1

def cred : CredentialSecret where
  metadata := ⟨"cred_a", "vk_a", "sigv4", 0, "AKIAA", .recoverable, 0, 0, none, none, none, 1⟩
  secret := "v1:plain:s"

def store : MemoryStore :=
  { MemoryStore.new with keys := Registry.empty.put row, creds := Registry.empty.put cred, clock := 10 }

def boot : GovState := newWithSigner store none

/-- A client that signs with the credential. -/
def client : Sigv4Front Unit := ⟨fun _ => some "AKIAA", fun _ secret _ => secret == "s"⟩

theorem boot_fresh : Fresh boot 10 := ⟨rfl, rfl, rfl⟩

theorem boot_unique : UniqueHandles boot.store.creds.rows := by
  intro c hc c' hc' _ _
  rw [show boot.store.creds.rows = [cred] from rfl, List.mem_singleton] at hc hc'
  rw [hc, hc']

theorem boot_row : boot.store.getKey row.id = some row := by decide

theorem request_good : Good plainCrypto client boot row 10 (.request ()) :=
  ⟨cred, by rw [show boot.store.creds.rows = [cred] from rfl]; simp, by decide, rfl, rfl, by decide, rfl,
    by decide⟩

end Expired

/-- The row expired at 5, and at 10 the SigV4 plane admits it. -/
theorem expired_key_is_admitted : ¬ ∀ (cr : TokenCrypto) (f : Sigv4Front Unit) (s : GovState) (k : VirtualKey)
    (now : Nat) (p : Presented Unit), Fresh s now → UniqueHandles s.store.creds.rows →
    s.store.getKey k.id = some k → Good cr f s k now p →
    (∀ q k', admits cr f s now q = some k' → k'.id = k.id → Admissible s k now) ∧
      ∀ q r, Good cr f s k now q → Good cr f s k now r →
        (admits cr f s now q).isSome = (admits cr f s now r).isSome := by
  intro h
  have hrule := (h plainCrypto Expired.client Expired.boot Expired.row 10 (.request ()) Expired.boot_fresh
    Expired.boot_unique Expired.boot_row Expired.request_good).1 (.request ()) Expired.row (by decide) rfl
  exact absurd (hrule.unexpired 5 rfl) (by decide)

theorem planes_keep_rule_expired :
    ((∀ q k', admits plainCrypto Expired.client Expired.boot 10 q = some k' → k'.id = Expired.row.id →
        Admissible Expired.boot Expired.row 10) ∧
      ∀ q r, Good plainCrypto Expired.client Expired.boot Expired.row 10 q →
        Good plainCrypto Expired.client Expired.boot Expired.row 10 r →
        (admits plainCrypto Expired.client Expired.boot 10 q).isSome
          = (admits plainCrypto Expired.client Expired.boot 10 r).isSome) ↔
    (Expired.row.enabled = true → Expired.row.deletedAt = none →
      Expired.row.id ∉ Expired.boot.store.denylist → Unexpired Expired.row 10) :=
  planes_keep_rule_iff Expired.boot_fresh Expired.boot_unique Expired.boot_row Expired.request_good

end GovState

end Busbar
