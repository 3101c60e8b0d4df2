import Busbar.Admin.Mint

/-!
# One key for one Idempotency-Key

A slot goes from free to held by one request and from there to done, with the response or without one. A section
that fails frees it again: then a row must not have been left behind.

* `mintUnder_clean`: a section whose store calls do not fail once the row is durable leaves no row behind when it
  fails.
* `Once`: what a slot's state says of the cache, the requests, the rows and the answers.
* `retry_mints_once`: so at most one row comes from a slot within its window, and one response.
* `retry_mints_twice`: a list call that fails after the row was put frees the slot of a minted key.
-/

namespace Busbar

open Prog

/-! ## The section -/

namespace GovState

variable {f : MintFaults} (cr : TokenCrypto) (cap : Nat) (order : MintOrder) (draws : MintDraws) (s : GovState)

theorem clean_cases (hf : f.clean = true) :
    f.put = .failed ∨ (f.put = .ok ∧ f.listKeys = .ok ∧ f.listCredentials = .ok) := by
  cases hp : f.put <;> simp_all [MintFaults.clean]

theorem refreshUnder_ok (hk : f.listKeys = .ok) (hc : f.listCredentials = .ok) : refreshUnder f = refresh := by
  unfold refreshUnder
  rw [hk, hc]
  rfl

/-- A refused access leaves the state alone. -/
theorem attempt_refused {α : Type} {g : GovState → Except StoreError (α × GovState)} {e : StoreError}
    (h : ((Prog.attempt g).run s).1 = .error e) : ((Prog.attempt g).run s).2 = s := by
  rw [run_attempt] at h ⊢
  cases hg : g s with
  | error e' => simp only [hg]
  | ok r =>
    rw [hg] at h
    cases h

/-- A write that is all or nothing, and the reload after it: it fails with the store as it was, or it returns. -/
theorem write_clean (hf : f.clean = true) {w : Gov Unit}
    (hw : ∀ e, (w.run s).1 = .error e → (w.run s).2 = s) {α : Type} (a : α) :
    ((storeCall f.put w >>= fun _ => refreshUnder f >>= fun _ => pure a).run s).2.store = s.store ∨
      ((storeCall f.put w >>= fun _ => refreshUnder f >>= fun _ => pure a).run s).1 = .ok a := by
  rcases clean_cases hf with hp | ⟨hp, hk, hc⟩
  · left
    rw [hp]
    rfl
  · rw [hp, refreshUnder_ok hk hc, run_bind]
    dsimp only [storeCall]
    cases hrun : w.run s with
    | mk r t =>
      cases r with
      | ok u =>
        right
        rfl
      | error e =>
        left
        have hsame := hw e (by rw [hrun])
        rw [hrun] at hsame
        rw [hsame]

theorem run_signingMaterial {α : Type} (k : Option TokenSigner → Gov α) :
    (signingMaterial >>= k).run s = (k s.signing).run s := rfl

theorem mintSignedUnder_clean (hf : f.clean = true) (spec : NewKeySpec) (exp now : Nat) (raw : Bytes)
    (gen : String) : ((mintSignedUnder f cr spec exp now raw gen).run s).2.store = s.store ∨
      ∃ m, ((mintSignedUnder f cr spec exp now raw gen).run s).1 = .ok m := by
  unfold mintSignedUnder
  rw [run_signingMaterial]
  cases s.signing with
  | none => exact Or.inl rfl
  | some signer =>
    refine (write_clean s hf (fun e he => ?_) _).imp_right fun h => ⟨_, h⟩
    exact attempt_refused s he

theorem mintSignedWithAwsUnder_clean (hf : f.clean = true) (spec : NewKeySpec) (exp now : Nat) (raw : Bytes)
    (gen akid sak : String) (credRaw : Bytes) :
    ((mintSignedWithAwsUnder f cr spec exp now raw gen akid sak credRaw).run s).2.store = s.store ∨
      ∃ m, ((mintSignedWithAwsUnder f cr spec exp now raw gen akid sak credRaw).run s).1 = .ok m := by
  unfold mintSignedWithAwsUnder
  rw [run_signingMaterial]
  cases s.signing with
  | none => exact Or.inl rfl
  | some signer =>
    refine (write_clean s hf (fun e he => ?_) _).imp_right fun h => ⟨_, h⟩
    exact attempt_refused s he

theorem clean_map {α β : Type} {p : Gov α} (h : (p.run s).2.store = s.store ∨ ∃ m, (p.run s).1 = .ok m)
    (g : α → β) : ((p >>= fun m => pure (g m)).run s).2.store = s.store ∨
      ∃ m, ((p >>= fun m => pure (g m)).run s).1 = .ok (g m) := by
  rw [run_bind]
  cases hrun : p.run s with
  | mk r t =>
    rw [hrun] at h
    refine h.imp (fun h => ?_) fun ⟨m, h⟩ => ?_
    · cases r with
      | ok m => exact h
      | error e => exact h
    · cases h
      exact ⟨m, rfl⟩

theorem run_checkKeyCapUnder (group excludeId : Option String) :
    ((checkKeyCapUnder f cap group excludeId).run s).2 = s := by
  unfold checkKeyCapUnder
  split
  · rfl
  · cases hc : f.count <;> rfl

/-- **A section whose calls do not fail once its row is durable** leaves the store as it was, or mints. -/
theorem mintUnder_clean (hf : f.clean = true) : ((mintUnder f cr cap order draws).run s).2.store = s.store ∨
    ∃ minted, ((mintUnder f cr cap order draws).run s).1 = .ok minted ∧
      ∀ provisioned, ∃ body, keyBody order provisioned minted = .ok body := by
  unfold mintUnder
  rw [run_bind]
  have hsame := run_checkKeyCapUnder (f := f) cap s order.spec.group none
  cases hrun : (checkKeyCapUnder f cap order.spec.group none).run s with
  | mk r t =>
    rw [hrun] at hsame
    -- counting changed nothing
    cases hsame
    match r with
    | .error e => exact Or.inl rfl
    | .ok (some (group, n)) => exact Or.inl rfl
    | .ok none =>
      dsimp only
      cases order.issueAws with
      | true =>
        refine (clean_map t (mintSignedWithAwsUnder_clean cr t hf _ _ _ _ _ _ _ _) _).imp_right fun ⟨m, h⟩ => ?_
        exact ⟨_, h, fun _ => ⟨_, rfl⟩⟩
      | false =>
        refine (clean_map t (mintSignedUnder_clean cr t hf _ _ _ _ _) _).imp_right fun ⟨m, h⟩ => ?_
        exact ⟨_, h, fun _ => ⟨_, rfl⟩⟩

end GovState

/-! ## The slot -/

namespace MintServer

/-- The ids of the rows minted for a slot. -/
def rowsFor (ck : IdemKey) (s : MintServer) : List String :=
  (s.rows.filter (fun e => decide (e.1 = some ck))).map Prod.snd

/-- A 201 with this body has been answered for the slot. -/
def Answered (ck : IdemKey) (body : KeyBody) (s : MintServer) : Prop := (some ck, .created body) ∈ s.answers

/-- A slot is free, held by a request, or done, with the response or without one. -/
inductive Slot where
  | free
  | held (i : Nat)
  | done (body : Option KeyBody)

/-- What the cache has for a slot in that state. -/
def Slot.CachedIn (T : Nat) (ck : IdemKey) (cache : Table IdemKey (Nat × Option KeyBody)) : Slot → Prop
  | free => cache.lookup ck = none
  | held _ => ∃ t, T ≤ t ∧ cache.lookup ck = some (t, none)
  | done body => ∃ t, T ≤ t ∧ cache.lookup ck = some (t, body)

end MintServer

def Phase.isOver : Phase → Bool
  | .ended => true
  | _ => false

/-- The section has landed with a key. -/
def Phase.minted : Phase → Bool
  | .landed order outcome => (outcome.bind (fun m => keyBody order m.2 m.1)).isOk
  | _ => false

namespace MintServer

variable {T : Nat} {ck : IdemKey} {σ : Slot} {s s' : MintServer}

/-- The server with the slot `ck` in the state `σ`; its first request came in at `T` or later. -/
structure Once (T : Nat) (ck : IdemKey) (σ : Slot) (s : MintServer) : Prop where
  cached : s.clock < T + idempotencyTtlSecs → σ.CachedIn T ck s.cache
  begun : ∀ i, σ = .held i → T ≤ s.clock
  sole : ∀ j r, s.requests[j]? = some r → r.idem = some ck → r.phase.isOver = false → σ = .held j
  holder : ∀ i, σ = .held i → ∃ r, s.requests[i]? = some r ∧ r.idem = some ck ∧ r.phase.isOver = false ∧
    (r.phase.minted = false → rowsFor ck s = [])
  free : σ = .free → rowsFor ck s = []
  rows : (rowsFor ck s).length ≤ 1
  answers : ∀ body, Answered ck body s → σ = .done (some body)

/-- What does not touch the slot keeps it. -/
theorem Once.frame (h : Once T ck σ s) (hclock : s'.clock = s.clock)
    (hcache : s.clock < T + idempotencyTtlSecs → s'.cache.lookup ck = s.cache.lookup ck)
    (hreq : ∀ (j : ℕ) r, r.idem = some ck → (s'.requests[j]? = some r ↔ s.requests[j]? = some r))
    (hrows : rowsFor ck s' = rowsFor ck s) (hans : ∀ body, Answered ck body s' → Answered ck body s) :
    Once T ck σ s' where
  cached hlt := by
    rw [hclock] at hlt
    have hc := h.cached hlt
    cases σ with
    | free | held | done =>
      simp only [Slot.CachedIn, hcache hlt] at hc ⊢
      exact hc
  begun i hi := by
    rw [hclock]
    exact h.begun i hi
  sole j r hj hid hover := h.sole j r ((hreq j r hid).1 hj) hid hover
  holder i hi := by
    obtain ⟨r, hr, hid, hover, hempty⟩ := h.holder i hi
    rw [hrows]
    exact ⟨r, (hreq i r hid).2 hr, hid, hover, hempty⟩
  free hfree := by
    rw [hrows]
    exact h.free hfree
  rows := by
    rw [hrows]
    exact h.rows
  answers body hb := h.answers body (hans body hb)

/-- A request of another slot moves. -/
theorem set_other {i : Nat} {r : MintRequest} {phase : Phase} {requests : List MintRequest}
    (hi : requests[i]? = some r) (hne : r.idem ≠ some ck) (j : Nat) (q : MintRequest) (hq : q.idem = some ck) :
    (requests.set i { r with phase := phase })[j]? = some q ↔ requests[j]? = some q := by
  constructor
  · intro h
    rcases Gate.getElem?_set_cases h with ⟨-, h⟩ | ⟨-, rfl⟩
    · exact h
    · exact absurd hq hne
  · intro h
    rw [List.getElem?_set]
    split
    · rename_i hij
      subst hij
      cases hi.symm.trans h
      exact absurd hq hne
    · exact h

/-- The holder moves: it is still the only request of its slot under way. -/
theorem Once.set_own (h : Once T ck σ s) {i : Nat} (hi : σ = .held i) {r : MintRequest} {j : Nat} {q : MintRequest}
    (hq : (s.requests.set i r)[j]? = some q) (hid : q.idem = some ck) (hover : q.phase.isOver = false) :
    j = i ∧ q = r := by
  rcases Gate.getElem?_set_cases hq with ⟨hne, hq⟩ | ⟨hj, hq⟩
  · cases hi.symm.trans (h.sole j q hq hid hover)
    exact absurd rfl hne
  · exact ⟨hj, hq⟩

theorem lookup_clearSentinel_ne {cache : Table IdemKey (Nat × Option KeyBody)} {ck' : IdemKey} (hne : ck' ≠ ck) :
    (clearSentinel cache ck').lookup ck = cache.lookup ck := by
  unfold clearSentinel
  split
  · rw [Table.lookup_erase, if_neg hne]
  · rfl

theorem lookup_clearSentinel_self {cache : Table IdemKey (Nat × Option KeyBody)} {t : Nat}
    (h : cache.lookup ck = some (t, none)) : (clearSentinel cache ck).lookup ck = none := by
  unfold clearSentinel
  rw [h]
  dsimp only
  rw [Table.lookup_erase, if_pos rfl]

theorem lookup_elim_ne {cache : Table IdemKey (Nat × Option KeyBody)} {idem : Option IdemKey} (hne : idem ≠ some ck)
    {g : IdemKey → Table IdemKey (Nat × Option KeyBody)} (hg : ∀ ck', ck' ≠ ck → (g ck').lookup ck = cache.lookup ck) :
    (idem.elim cache g).lookup ck = cache.lookup ck := by
  cases idem with
  | none => rfl
  | some ck' => exact hg ck' fun h => hne (congrArg some h)

/-- The holder moves on, or a request of another slot does. -/
theorem Once.moves (h : Once T ck σ s) {i : Nat} {r : MintRequest} (hr : s.requests[i]? = some r)
    (hover : r.phase.isOver = false) {phase : Phase} (hreq : s'.requests = s.requests.set i { r with phase := phase })
    (hclock : s'.clock = s.clock) (hcache : s'.cache = s.cache) (hans : s'.answers = s.answers)
    (hother : r.idem ≠ some ck → rowsFor ck s' = rowsFor ck s)
    (hown : r.idem = some ck → (rowsFor ck s').length ≤ 1 ∧
      (phase.isOver = false → phase.minted = false → rowsFor ck s' = [])) : ∃ σ', Once T ck σ' s' := by
  by_cases hid : r.idem = some ck
  · have hσ : σ = .held i := h.sole i r hr hid hover
    obtain ⟨hle, hempty⟩ := hown hid
    have hset : ∀ j q, s'.requests[j]? = some q → q.idem = some ck → q.phase.isOver = false →
        j = i ∧ q = { r with phase := phase } := by
      intro j q hq hqid hqover
      rw [hreq] at hq
      exact h.set_own hσ hq hqid hqover
    have hans' : ∀ body, ¬ Answered ck body s' := by
      intro body hb
      rw [Answered, hans] at hb
      cases hσ.symm.trans (h.answers body hb)
    have hcached : s'.clock < T + idempotencyTtlSecs → ∃ t, T ≤ t ∧ s'.cache.lookup ck = some (t, none) := by
      intro hlt
      rw [hclock] at hlt
      rw [hcache]
      have hc := h.cached hlt
      rw [hσ] at hc
      exact hc
    cases hp : phase.isOver with
    | true =>
      -- its client is gone: nobody will answer
      refine ⟨.done none, hcached, nofun, fun j q hq hqid hqover => ?_, nofun, nofun, hle,
        fun body hb => absurd hb (hans' body)⟩
      obtain ⟨-, rfl⟩ := hset j q hq hqid hqover
      rw [hp] at hqover
      cases hqover
    | false =>
      refine ⟨.held i, hcached, fun j hj => ?_, fun j q hq hqid hqover => ?_, fun j hj => ?_,
        nofun, hle, fun body hb => absurd hb (hans' body)⟩
      · rw [hclock]
        exact h.begun i hσ
      · obtain ⟨rfl, -⟩ := hset j q hq hqid hqover
        rfl
      · cases hj
        refine ⟨{ r with phase := phase }, ?_, hid, hp, hempty hp⟩
        rw [hreq, List.getElem?_set_self (List.getElem?_eq_some_iff.1 hr).1]
  · refine ⟨σ, h.frame hclock (fun _ => by rw [hcache]) (fun j q hq => ?_) (hother hid) fun body hb => ?_⟩
    · rw [hreq]
      exact set_other hr hid j q hq
    · rw [Answered, hans] at hb
      exact hb

/-- A request that has minted nothing gives its slot back. -/
theorem Once.freed (h : Once T ck σ s) {i : Nat} {r : MintRequest} (hr : s.requests[i]? = some r)
    (hover : r.phase.isOver = false) (hm : r.phase.minted = false)
    (hreq : s'.requests = s.requests.set i { r with phase := .ended }) (hclock : s'.clock = s.clock)
    (hcache : s'.cache = r.idem.elim s.cache (clearSentinel s.cache)) (hrows : s'.rows = s.rows)
    (hans : ∀ body, Answered ck body s' → Answered ck body s) : ∃ σ', Once T ck σ' s' := by
  have hrows : rowsFor ck s' = rowsFor ck s := by rw [rowsFor, hrows, rowsFor]
  by_cases hid : r.idem = some ck
  · have hσ : σ = .held i := h.sole i r hr hid hover
    have hnone : rowsFor ck s' = [] := by
      obtain ⟨r', hr', -, -, hempty⟩ := h.holder i hσ
      cases hr.symm.trans hr'
      exact hrows.trans (hempty hm)
    refine ⟨.free, fun hlt => ?_, nofun, fun j q hq hqid hqover => ?_, nofun, fun _ => hnone, (by simp [hnone]),
      fun body hb => ?_⟩
    · rw [hclock] at hlt
      have hc := h.cached hlt
      rw [hσ] at hc
      obtain ⟨t, -, hc⟩ := hc
      rw [hcache, hid]
      exact lookup_clearSentinel_self hc
    · rw [hreq] at hq
      obtain ⟨-, rfl⟩ := h.set_own hσ hq hqid hqover
      cases hqover
    · cases hσ.symm.trans (h.answers body (hans body hb))
  · refine ⟨σ, h.frame hclock (fun _ => ?_) (fun j q hq => ?_) hrows hans⟩
    · rw [hcache]
      exact lookup_elim_ne hid fun ck' hne => lookup_clearSentinel_ne hne
    · rw [hreq]
      exact set_other hr hid j q hq

theorem Once.refuse (h : Once T ck σ s) {i : Nat} {r : MintRequest} (hr : s.requests[i]? = some r)
    (hover : r.phase.isOver = false) (hm : r.phase.minted = false) (e : AdminError) :
    ∃ σ', Once T ck σ' (s.refuse i r e) := by
  refine h.freed hr hover hm rfl rfl rfl rfl fun body hb => ?_
  rcases List.mem_append.1 hb with hb | hb
  · exact hb
  · cases (Prod.mk.inj (List.mem_singleton.1 hb)).2

/-! ## The events -/

/-- The sweep of an arrival within the window leaves the slot alone. -/
theorem Once.lookup_swept (h : Once T ck σ s) (hlt : s.clock < T + idempotencyTtlSecs) :
    Table.lookup (Registry.retain (fun e => decide (s.clock - e.2.1 < idempotencyTtlSecs)) s.cache) ck
      = s.cache.lookup ck := by
  rw [Table.lookup_retain]
  have hc := h.cached hlt
  have hfresh : ∀ t, T ≤ t → s.clock - t < idempotencyTtlSecs := by
    intro t ht
    have hpos : 0 < idempotencyTtlSecs := by decide
    omega
  cases σ with
  | free =>
    rw [show s.cache.lookup ck = none from hc]
    rfl
  | held i =>
    obtain ⟨t, ht, hc⟩ := hc
    rw [hc]
    simp [hfresh t ht]
  | done body =>
    obtain ⟨t, ht, hc⟩ := hc
    rw [hc]
    simp [hfresh t ht]

theorem snoc_other {q : MintRequest} {requests : List MintRequest} (hne : q.idem ≠ some ck) (j : Nat) (r : MintRequest)
    (hr : r.idem = some ck) : (requests ++ [q])[j]? = some r ↔ requests[j]? = some r := by
  constructor
  · intro h
    rcases Gate.getElem?_snoc_cases h with h | ⟨-, rfl⟩
    · exact h
    · exact absurd hr hne
  · intro h
    rw [List.getElem?_append_left (List.getElem?_eq_some_iff.1 h).1]
    exact h

theorem Once.arrive (h : Once T ck σ s) (actor : String) (header : Option String) (body : Option CreateKeyReq)
    (hwin : idemKey actor header = some ck → T ≤ s.clock ∧ s.clock < T + idempotencyTtlSecs) :
    ∃ σ', Once T ck σ' (s.arrive actor header body) := by
  unfold MintServer.arrive
  cases hk : idemKey actor header with
  | none => exact ⟨σ, h.frame rfl (fun _ => rfl) (snoc_other (by simp)) rfl fun _ hb => hb⟩
  | some ck' =>
    dsimp only
    by_cases he : ck' = ck
    · subst he
      obtain ⟨hT, hlt⟩ := hwin hk
      have hswept := h.lookup_swept hlt
      have hc := h.cached hlt
      cases σ with
      | free =>
        -- the first of the window takes the slot
        have hnone : Table.lookup (Registry.retain (fun e => decide (s.clock - e.2.1 < idempotencyTtlSecs)) s.cache) ck'
            = none := hswept.trans hc
        rw [hnone]
        refine ⟨.held s.requests.length, fun _ => ⟨s.clock, hT, Table.lookup_insert_self _ _ _⟩, fun _ _ => hT,
          fun j r hj hid hover => ?_, fun i hi => ?_, nofun, h.rows, fun b hb => ?_⟩
        · rcases Gate.getElem?_snoc_cases hj with hj | ⟨rfl, rfl⟩
          · cases h.sole j r hj hid hover
          · rfl
        · cases hi
          exact ⟨_, List.getElem?_concat_length, rfl, rfl, fun _ => h.free rfl⟩
        · cases h.answers b hb
      | held i =>
        obtain ⟨t, ht, hc⟩ := hc
        rw [hswept, hc]
        refine ⟨.held i, h.frame rfl (fun _ => hswept) (fun _ _ _ => Iff.rfl) rfl fun b hb => ?_⟩
        rcases List.mem_append.1 hb with hb | hb
        · exact hb
        · cases List.mem_singleton.1 hb
      | done cached =>
        obtain ⟨t, ht, hc⟩ := hc
        rw [hswept, hc]
        cases cached with
        | none =>
          refine ⟨.done none, h.frame rfl (fun _ => hswept) (fun _ _ _ => Iff.rfl) rfl fun b hb => ?_⟩
          rcases List.mem_append.1 hb with hb | hb
          · exact hb
          · cases List.mem_singleton.1 hb
        | some cached =>
          -- the replay is the response of the slot
          refine ⟨.done (some cached), fun _ => ⟨t, ht, hswept.trans hc⟩, nofun, h.sole,
            nofun, nofun, h.rows, fun b hb => ?_⟩
          rcases List.mem_append.1 hb with hb | hb
          · exact h.answers b hb
          · cases List.mem_singleton.1 hb
            rfl
    · have hswept := fun hlt => h.lookup_swept hlt
      split
      · refine ⟨σ, h.frame rfl hswept (fun _ _ _ => Iff.rfl) rfl fun b hb => ?_⟩
        rcases List.mem_append.1 hb with hb | hb
        · exact hb
        · cases List.mem_singleton.1 hb
          exact absurd rfl he
      · refine ⟨σ, h.frame rfl hswept (fun _ _ _ => Iff.rfl) rfl fun b hb => ?_⟩
        rcases List.mem_append.1 hb with hb | hb
        · exact hb
        · cases List.mem_singleton.1 hb
      · refine ⟨σ, h.frame rfl (fun hlt => ?_) (snoc_other fun hid => he (Option.some.inj hid)) rfl fun _ hb => hb⟩
        rw [Table.lookup_insert, if_neg he]
        exact hswept hlt

/-- Before its section has landed a request has minted nothing. -/
theorem Once.none_yet (h : Once T ck σ s) {i : Nat} {r : MintRequest} (hr : s.requests[i]? = some r)
    (hover : r.phase.isOver = false) (hm : r.phase.minted = false) (hid : r.idem = some ck) : rowsFor ck s = [] := by
  obtain ⟨r', hr', -, -, hempty⟩ := h.holder i (h.sole i r hr hid hover)
  cases hr.symm.trans hr'
  exact hempty hm

theorem Once.check (h : Once T ck σ s) {i : Nat} {r : MintRequest} (hr : s.requests[i]? = some r)
    (hover : r.phase.isOver = false) (hm : r.phase.minted = false) (body : Option CreateKeyReq) :
    ∃ σ', Once T ck σ' (s.check i r body) := by
  unfold MintServer.check
  cases validate s.gov.signing.isSome s.clock body with
  | error e => exact h.refuse hr hover hm e
  | ok order =>
    exact h.moves hr hover rfl rfl rfl rfl (fun _ => rfl) fun hid => ⟨h.rows, fun _ _ => h.none_yet hr hover hm hid⟩

theorem created_of_store {before after : GovState} (h : after.store = before.store) (id : String) :
    created before after id = false := by
  rw [created, h]
  cases before.store.live id <;> rfl

theorem Once.transact (cr : TokenCrypto) (h : Once T ck σ s) {i : Nat} {r : MintRequest}
    (hr : s.requests[i]? = some r) (hover : r.phase.isOver = false) (hm : r.phase.minted = false)
    (order : MintOrder) (gone : Bool) (plan : Except AdminError Bool) (cap : Nat) (draws : MintDraws)
    {faults : MintFaults} (hclean : r.idem = some ck → faults.clean = true) :
    ∃ σ', Once T ck σ' (s.transact cr i r order gone plan cap draws faults) := by
  unfold MintServer.transact
  cases plan with
  | error e =>
    exact h.moves hr hover rfl rfl rfl rfl (fun _ => rfl) fun hid => ⟨h.rows, fun _ _ => h.none_yet hr hover hm hid⟩
  | ok provisioned =>
    refine h.moves hr hover rfl rfl rfl rfl (fun hid => ?_) fun hid => ?_
    · dsimp only [rowsFor]
      split
      · rw [List.filter_append, List.filter_cons_of_neg (by simpa using hid), List.filter_nil, List.append_nil]
      · rfl
    · have hnone := h.none_yet hr hover hm hid
      dsimp only [rowsFor] at hnone ⊢
      constructor
      · split
        · rw [List.filter_append, List.map_append, hnone, List.nil_append, List.length_map]
          exact List.length_filter_le _ _
        · rw [hnone]
          exact Nat.zero_le _
      · intro hover' hm'
        rcases GovState.mintUnder_clean cr cap order draws s.gov (hclean hid) with hstore | ⟨minted, hrun, hbody⟩
        · rw [created_of_store hstore, if_neg Bool.false_ne_true]
          exact hnone
        · obtain ⟨body, hbody⟩ := hbody provisioned
          cases gone with
          | true => cases hover'
          | false =>
            rw [hrun, if_neg Bool.false_ne_true, Phase.minted, Except.bind, hbody] at hm'
            cases hm'

theorem Once.finish (h : Once T ck σ s) {i : Nat} {r : MintRequest} {order : MintOrder}
    {outcome : Except AdminError (MintOutcome × Bool)} (hr : s.requests[i]? = some r)
    (hp : r.phase = .landed order outcome) : ∃ σ', Once T ck σ' (s.finish i r order outcome) := by
  have hover : r.phase.isOver = false := by rw [hp]; rfl
  unfold MintServer.finish
  cases ho : outcome.bind (fun m => keyBody order m.2 m.1) with
  | error e =>
    refine h.refuse hr hover ?_ e
    rw [hp, Phase.minted, ho]
    rfl
  | ok body =>
    by_cases hid : r.idem = some ck
    · have hσ : σ = .held i := h.sole i r hr hid hover
      have hT := h.begun i hσ
      refine ⟨.done (some body), fun _ => ⟨s.clock, hT, ?_⟩, nofun, fun j q hq hqid hqover => ?_,
        nofun, nofun, h.rows, fun b hb => ?_⟩
      · simp [hid]
      · obtain ⟨-, rfl⟩ := h.set_own hσ hq hqid hqover
        cases hqover
      · rcases List.mem_append.1 hb with hb | hb
        · cases hσ.symm.trans (h.answers b hb)
        · cases (Prod.mk.inj (List.mem_singleton.1 hb)).2
          rfl
    · refine ⟨σ, h.frame rfl (fun _ => ?_) (set_other hr hid) rfl fun b hb => ?_⟩
      · refine lookup_elim_ne hid fun ck' hne => ?_
        rw [Table.lookup_insert, if_neg hne]
      · rcases List.mem_append.1 hb with hb | hb
        · exact hb
        · exact absurd (Prod.mk.inj (List.mem_singleton.1 hb)).1.symm hid

theorem Once.disconnect (h : Once T ck σ s) {i : Nat} {r : MintRequest} (hr : s.requests[i]? = some r) :
    ∃ σ', Once T ck σ' (s.disconnect i r) := by
  unfold MintServer.disconnect
  cases hp : r.phase with
  | reserved body => exact h.freed hr (by rw [hp]; rfl) (by rw [hp]; rfl) rfl rfl rfl rfl fun _ hb => hb
  | inFlight order =>
    have hover : r.phase.isOver = false := by rw [hp]; rfl
    have hm : r.phase.minted = false := by rw [hp]; rfl
    exact h.moves hr hover rfl rfl rfl rfl (fun _ => rfl) fun hid => ⟨h.rows, fun _ _ => h.none_yet hr hover hm hid⟩
  | landed order outcome =>
    have hover : r.phase.isOver = false := by rw [hp]; rfl
    refine h.moves hr hover rfl rfl rfl rfl (fun _ => rfl) fun _ => ⟨h.rows, fun hover' => ?_⟩
    cases hover'
  | abandoned order => exact ⟨σ, h⟩
  | ended => exact ⟨σ, h⟩

/-- Requests of the slot come in within one window. -/
def InWindow (T : Nat) (ck : IdemKey) (s : MintServer) : MintEvent → Prop
  | .arrive actor header _ => idemKey actor header = some ck → T ≤ s.clock ∧ s.clock < T + idempotencyTtlSecs
  | _ => True

/-- No store call of the slot's mints fails that put the key's row in the store, and none after it. -/
def CleanMint (ck : IdemKey) (s : MintServer) : MintEvent → Prop
  | .transact i _ _ _ faults => ∀ r ∈ s.requests[i]?, r.idem = some ck → faults.clean = true
  | _ => True

instance (T : Nat) (ck : IdemKey) (s : MintServer) (e : MintEvent) : Decidable (InWindow T ck s e) :=
  match e with
  | .arrive _ _ _ => inferInstanceAs (Decidable (_ → _))
  | .tick _ | .other _ | .check _ | .transact .. | .finish _ | .disconnect _ => isTrue trivial

instance (ck : IdemKey) (s : MintServer) (e : MintEvent) : Decidable (CleanMint ck s e) :=
  match e with
  | .transact i _ _ _ faults => inferInstanceAs (Decidable (∀ r ∈ s.requests[i]?, r.idem = some ck → faults.clean = true))
  | .tick _ | .other _ | .arrive .. | .check _ | .finish _ | .disconnect _ => isTrue trivial

variable (cr : TokenCrypto)

theorem Once.step (h : Once T ck σ s) {e : MintEvent} (hwin : InWindow T ck s e) (hclean : CleanMint ck s e) :
    ∃ σ', Once T ck σ' (s.step cr e) := by
  cases e with
  | tick secs =>
    refine ⟨σ, fun hlt => h.cached ?_, fun i hi => ?_, h.sole, h.holder, h.free, h.rows, h.answers⟩
    · dsimp only [MintServer.step] at hlt
      omega
    · have hT := h.begun i hi
      dsimp only [MintServer.step]
      omega
  | other gov => exact ⟨σ, h.frame rfl (fun _ => rfl) (fun _ _ _ => Iff.rfl) rfl fun _ hb => hb⟩
  | arrive actor header body => exact h.arrive actor header body hwin
  | check i =>
    dsimp only [MintServer.step]
    cases hr : s.requests[i]? with
    | none => exact ⟨σ, h⟩
    | some r =>
      cases hp : r.phase with
      | reserved body =>
        simp only [hp]
        exact h.check hr (by rw [hp]; rfl) (by rw [hp]; rfl) body
      | inFlight | abandoned | landed | ended =>
        simp only [hp]
        exact ⟨σ, h⟩
  | transact i plan cap draws faults =>
    dsimp only [MintServer.step]
    cases hr : s.requests[i]? with
    | none => exact ⟨σ, h⟩
    | some r =>
      cases hp : r.phase with
      | inFlight order =>
        simp only [hp]
        exact h.transact cr hr (by rw [hp]; rfl) (by rw [hp]; rfl) order false plan cap draws (hclean r hr)
      | abandoned order =>
        simp only [hp]
        exact h.transact cr hr (by rw [hp]; rfl) (by rw [hp]; rfl) order true plan cap draws (hclean r hr)
      | reserved | landed | ended =>
        simp only [hp]
        exact ⟨σ, h⟩
  | finish i =>
    dsimp only [MintServer.step]
    cases hr : s.requests[i]? with
    | none => exact ⟨σ, h⟩
    | some r =>
      cases hp : r.phase with
      | landed order outcome =>
        simp only [hp]
        exact h.finish hr hp
      | reserved | inFlight | abandoned | ended =>
        simp only [hp]
        exact ⟨σ, h⟩
  | disconnect i =>
    dsimp only [MintServer.step]
    cases hr : s.requests[i]? with
    | none => exact ⟨σ, h⟩
    | some r => exact h.disconnect hr

theorem start_once (gov : GovState) (clock : Nat) : Once T ck .free (start gov clock) where
  cached _ := rfl
  begun _ hi := by cases hi
  sole _ _ hj := by cases hj
  holder _ hi := by cases hi
  free _ := rfl
  rows := Nat.zero_le _
  answers _ hb := by cases hb

/-- **A retried mint makes one key**: of a slot whose requests come in within one window, at most one row is
created and every 201 has the same body, if no store call of its mints fails once it has put the row there. -/
theorem retry_mints_once (gov : GovState) (clock T : Nat) (ck : IdemKey) {events : List MintEvent}
    (hwin : Run.Along (fun pre e => InWindow T ck (after cr gov clock pre) e) events)
    (hclean : Run.Along (fun pre e => CleanMint ck (after cr gov clock pre) e) events) :
    (rowsFor ck (after cr gov clock events)).length ≤ 1 ∧
      ∀ body body', Answered ck body (after cr gov clock events) → Answered ck body' (after cr gov clock events) →
        body'.key.id = body.key.id ∧ body'.token = body.token := by
  have hboth : Run.Along (fun pre e => InWindow T ck (after cr gov clock pre) e ∧
      CleanMint ck (after cr gov clock pre) e) events :=
    fun pre e post he => ⟨hwin pre e post he, hclean pre e post he⟩
  obtain ⟨σ, h⟩ : ∃ σ, Once T ck σ (after cr gov clock events) := by
    refine Run.Along.invariant (I := fun events => ∃ σ, Once T ck σ (after cr gov clock events)) ?_ ?_ hboth
    · exact ⟨.free, start_once gov clock⟩
    · rintro pre e ⟨σ, h⟩ ⟨hw, hc⟩
      rw [after, Run.exec_snoc]
      exact h.step cr hw hc
  refine ⟨h.rows, fun body body' hb hb' => ?_⟩
  cases (h.answers body hb).symm.trans (h.answers body' hb')
  exact ⟨rfl, rfl⟩

/-! ## Runs -/

namespace Retry

def gov : GovState := GovState.newWithSigner MemoryStore.new (some ⟨[7], "k1"⟩)

def body : CreateKeyReq := ⟨"n", none, none, none, [], none, none, false⟩

def arrival : MintEvent := .arrive "admin" (some "k") (some body)

def draws (n : Nat) : MintDraws := ⟨[UInt8.ofNat n], "g", "akid", "sak", []⟩

/-- A request from its validation to its answer. -/
def served (i : Nat) (faults : MintFaults) : List MintEvent :=
  [.check i, .transact i (.ok false) 0 (draws i) faults, .finish i]

/-- The put does not reach the store; the retry mints, and a late retry is answered from the cache. -/
def events : List MintEvent :=
  arrival :: served 0 { MintFaults.none with put := .failed } ++ arrival :: arrival :: served 1 .none ++ [arrival]

/-- The row is put, then the reload's list call fails; then the retry. -/
def failing : List MintEvent :=
  arrival :: served 0 { MintFaults.none with listKeys := .failed } ++ arrival :: served 1 .none

end Retry

/-- **A retried mint can make two keys**: the first mint put its row and failed in the reload, which freed the
slot. -/
theorem retry_mints_twice : ¬ ∀ (cr : TokenCrypto) (gov : GovState) (clock T : Nat) (ck : IdemKey)
    (events : List MintEvent), Run.Along (fun pre e => InWindow T ck (after cr gov clock pre) e) events →
    (rowsFor ck (after cr gov clock events)).length ≤ 1 ∧
      ∀ body body', Answered ck body (after cr gov clock events) → Answered ck body' (after cr gov clock events) →
        body'.key.id = body.key.id ∧ body'.token = body.token := by
  intro h
  have hle := (h plainCrypto Retry.gov 5 0 ("admin", "k") Retry.failing
    (Run.Along.of_checks _ (by decide +kernel))).1
  have htwo : (rowsFor ("admin", "k") (after plainCrypto Retry.gov 5 Retry.failing)).length = 2 := by
    decide +kernel
  rw [htwo] at hle
  exact absurd hle (by decide)

/-- One row, and it answers the retries. -/
theorem retry_mints_once_retried :
    (after plainCrypto Retry.gov 5 Retry.events).answers.length = 4 ∧
    (rowsFor ("admin", "k") (after plainCrypto Retry.gov 5 Retry.events)).length = 1 ∧
    (rowsFor ("admin", "k") (after plainCrypto Retry.gov 5 Retry.events)).length ≤ 1 :=
  ⟨by decide +kernel, by decide +kernel, (retry_mints_once plainCrypto Retry.gov 5 0 ("admin", "k")
    (Run.Along.of_checks _ (by decide +kernel)) (Run.Along.of_checks _ (by decide +kernel))).1⟩

end MintServer

end Busbar
