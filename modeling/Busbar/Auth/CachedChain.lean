import Busbar.Auth.CredentialCache
import Busbar.Lib.Run

/-!
# Auth chains around the credential cache

The two runners of an auth chain: that of the data plane buffers what it has to put until a module identifies, that of the
admin plane puts each verdict as it comes. Between two calls on the cache, and while a module is consulted, anything else
may happen.

* `AuthThread.step`: an authentication up to its next call on the cache or answer of a module.
* `CacheRun.step`: authentications, flushes and the clock in any order.
* `AuthEvent`: what a run shows, with the consultation each served verdict goes back to.
-/

namespace Busbar

inductive AuthPlane where
  | data | admin
  deriving DecidableEq, Repr

/-- A module of a chain under its provider's name. -/
structure ChainModule where
  name : String
  cacheable : Bool
  deriving DecidableEq, Repr

/-- The consultation a verdict was obtained from: whose, and when. -/
structure Origin where
  auth : Nat
  time : Nat
  deriving DecidableEq, Repr

/-- A put that is due. `origin` and `hit` are for the record: where the verdict comes from, and when the entry it was
taken from expires, if it was a hit. -/
structure PutCall where
  module : String
  outcome : AuthOutcome
  origin : Option Origin
  hit : Option Nat
  deriving DecidableEq, Repr

inductive AuthPhase where
  /-- the clock is read, the generation not yet captured -/
  | arrived
  | lookup (rest : List ChainModule) (pending : List PutCall)
  | consult (m : ChainModule) (rest : List ChainModule) (pending : List PutCall)
  /-- puts are due; then the chain has identified, or goes on -/
  | commit (puts : List PutCall) (rest : List ChainModule) (identified : Option (String × Principal))
  | finished (identified : Option (String × Principal))
  deriving DecidableEq, Repr

structure AuthThread where
  plane : AuthPlane
  credential : Option String
  now : Nat
  gen : Nat
  chain : List ChainModule
  phase : AuthPhase
  deriving DecidableEq, Repr

/-- What a run shows. A served verdict comes with its origin. -/
inductive AuthEvent where
  | flushed (module : Option String)
  | captured (auth : Nat)
  | consulted (auth : Nat) (module : String) (credential : Option String) (outcome : AuthOutcome) (time : Nat)
  | served (auth : Nat) (module credential : String) (outcome : AuthOutcome) (time : Nat) (origin : Option Origin)
  deriving DecidableEq, Repr

/-- The cache, and beside it the origin of each entry's verdict. -/
structure TracedCache where
  cache : CacheState
  origins : Table CacheKey Origin

namespace AuthThread

/-- The credential the cache is asked about, if the module's verdicts are kept. -/
def cacheHere (t : AuthThread) (m : ChainModule) : Option String := if m.cacheable then t.credential else none

/-- After a hit. The data plane puts an identification back; the admin plane does not. -/
def afterHit (t : AuthThread) (m : ChainModule) (rest : List ChainModule) (pending : List PutCall) (outcome : AuthOutcome)
    (origin : Option Origin) (expiresAt : Nat) : AuthPhase :=
  match outcome with
  | .identify p =>
    match t.plane with
    | .data => .commit (pending ++ [⟨m.name, outcome, origin, some expiresAt⟩]) [] (some (m.name, p))
    | .admin => .finished (some (m.name, p))
  | .reject => .finished none
  | .pass => .lookup rest pending

/-- After a module's answer. -/
def afterConsult (t : AuthThread) (m : ChainModule) (rest : List ChainModule) (pending : List PutCall)
    (outcome : AuthOutcome) (origin : Origin) : AuthPhase :=
  let own : List PutCall :=
    match t.cacheHere m with
    | some _ => [⟨m.name, outcome, some origin, none⟩]
    | none => []
  match t.plane, outcome with
  -- the data plane puts its passes and its identification once there is one
  | .data, .identify p => .commit (pending ++ own) [] (some (m.name, p))
  | .data, .reject => .finished none
  | .data, .pass => .lookup rest (pending ++ own)
  -- the admin plane puts every answer
  | .admin, .identify p => .commit own [] (some (m.name, p))
  | .admin, .reject => .commit own [] none
  | .admin, .pass => .commit own rest none

variable (sha256Hex : String → String)

/-- An authentication up to its next call on the cache or answer of a module; `answer` is what a module consulted in this
step says, `clock` the time. -/
def step (t : AuthThread) (auth clock : Nat) (answer : AuthOutcome) (c : TracedCache) :
    AuthThread × TracedCache × List AuthEvent :=
  match t.phase with
  | .arrived => ({ t with gen := c.cache.generation, phase := .lookup t.chain [] }, c, [.captured auth])
  | .lookup [] _ => ({ t with phase := .finished none }, c, [])
  | .lookup (m :: rest) pending =>
    match t.cacheHere m with
    | none => ({ t with phase := .consult m rest pending }, c, [])
    | some credential =>
      let key := (m.name, sha256Hex credential)
      let r := c.cache.get sha256Hex m.name credential t.now
      match r.1 with
      | none => ({ t with phase := .consult m rest pending }, { c with cache := r.2 }, [])
      | some outcome =>
        let expiresAt := ((c.cache.entries.lookup key).map CacheEntry.expiresAt).getD 0
        ({ t with phase := t.afterHit m rest pending outcome (c.origins.lookup key) expiresAt }, { c with cache := r.2 },
          [.served auth m.name credential outcome clock (c.origins.lookup key)])
  | .consult m rest pending =>
    ({ t with phase := t.afterConsult m rest pending answer ⟨auth, clock⟩ }, c,
      [.consulted auth m.name t.credential answer clock])
  | .commit [] rest identified =>
    match identified with
    | some _ => ({ t with phase := .finished identified }, c, [])
    | none => ({ t with phase := .lookup rest [] }, c, [])
  | .commit (w :: puts) rest identified =>
    match t.credential with
    | none => ({ t with phase := .commit puts rest identified }, c, [])
    | some credential =>
      let key := (w.module, sha256Hex credential)
      let cache := c.cache.put sha256Hex w.module credential w.outcome t.now t.gen
      -- the record follows the entry that was written
      let lands := (CacheState.kept (sha256Hex credential) w.outcome).isSome ∧ c.cache.flushGen = t.gen
      let origins :=
        match w.origin with
        | some origin => if lands then c.origins.insert key origin else c.origins
        | none => c.origins
      ({ t with phase := .commit puts rest identified }, ⟨cache, origins⟩, [])
  | .finished _ => (t, c, [])

variable {sha256Hex} {t : AuthThread} {auth clock : Nat} {answer outcome : AuthOutcome} {c : TracedCache}
  {m : ChainModule} {rest : List ChainModule} {pending puts : List PutCall} {credential : String}

theorem credential_of_cacheHere (h : t.cacheHere m = some credential) : t.credential = some credential := by
  unfold cacheHere at h
  split at h
  · exact h
  · cases h

theorem step_miss (hp : t.phase = .lookup (m :: rest) pending) (hhere : t.cacheHere m = some credential)
    (hget : (c.cache.get sha256Hex m.name credential t.now).1 = none) :
    t.step sha256Hex auth clock answer c =
      ({ t with phase := .consult m rest pending },
        { c with cache := (c.cache.get sha256Hex m.name credential t.now).2 }, []) := by
  unfold step
  rw [hp]
  dsimp only
  rw [hhere]
  dsimp only
  rw [hget]

theorem step_hit (hp : t.phase = .lookup (m :: rest) pending) (hhere : t.cacheHere m = some credential)
    (hget : (c.cache.get sha256Hex m.name credential t.now).1 = some outcome) {e : CacheEntry}
    (he : c.cache.entries.lookup (m.name, sha256Hex credential) = some e) :
    t.step sha256Hex auth clock answer c =
      ({ t with
          phase := t.afterHit m rest pending outcome (c.origins.lookup (m.name, sha256Hex credential)) e.expiresAt },
        { c with cache := (c.cache.get sha256Hex m.name credential t.now).2 },
        [.served auth m.name credential outcome clock (c.origins.lookup (m.name, sha256Hex credential))]) := by
  unfold step
  rw [hp]
  dsimp only
  rw [hhere]
  dsimp only
  rw [hget, he]
  rfl

theorem step_put {w : PutCall} {identified : Option (String × Principal)} {origin : Origin}
    (hp : t.phase = .commit (w :: puts) rest identified) (hcred : t.credential = some credential)
    (horigin : w.origin = some origin) :
    t.step sha256Hex auth clock answer c =
      ({ t with phase := .commit puts rest identified },
        ⟨c.cache.put sha256Hex w.module credential w.outcome t.now t.gen,
          if (CacheState.kept (sha256Hex credential) w.outcome).isSome ∧ c.cache.flushGen = t.gen then
            c.origins.insert (w.module, sha256Hex credential) origin
          else c.origins⟩, []) := by
  unfold step
  rw [hp]
  dsimp only
  split
  · rename_i hnone
    rw [hcred] at hnone
    cases hnone
  · rename_i credential' hsome
    rw [hcred] at hsome
    cases hsome
    rw [horigin]

end AuthThread

inductive CacheOp where
  | tick (secs : Nat)
  | arrive (plane : AuthPlane) (credential : Option String) (chain : List ChainModule)
  | advance (auth : Nat) (answer : AuthOutcome)
  | flushModule (module : String)
  | flushAll
  deriving DecidableEq, Repr

structure CacheRun where
  traced : TracedCache
  clock : Nat
  threads : List AuthThread
  log : List AuthEvent

namespace CacheRun

def start : CacheRun := ⟨⟨.new, Registry.empty⟩, 0, [], []⟩

variable (sha256Hex : String → String)

def step (r : CacheRun) : CacheOp → CacheRun
  | .tick secs => { r with clock := r.clock + secs }
  | .arrive plane credential chain => { r with threads := r.threads ++ [⟨plane, credential, r.clock, 0, chain, .arrived⟩] }
  | .advance auth answer =>
    match r.threads[auth]? with
    | none => r
    | some t =>
      let out := t.step sha256Hex auth r.clock answer r.traced
      { r with traced := out.2.1, threads := r.threads.set auth out.1, log := r.log ++ out.2.2 }
  | .flushModule module =>
    { r with
      traced := { r.traced with cache := (r.traced.cache.flushModule module).2 }
      log := r.log ++ [.flushed (some module)] }
  | .flushAll =>
    { r with
      traced := { r.traced with cache := r.traced.cache.flushAll.2 }
      log := r.log ++ [.flushed none] }

def after (ops : List CacheOp) : CacheRun := Run.exec (step sha256Hex) start ops

end CacheRun

/-! ## The record of a run -/

namespace AuthEvent

/-- A flush that drops the module's entries. -/
def Covers (module : String) (e : AuthEvent) : Prop := e = .flushed none ∨ e = .flushed (some module)

def isFlush : AuthEvent → Bool
  | flushed _ => true
  | _ => false

theorem Covers.isFlush {e : AuthEvent} {module : String} (h : e.Covers module) : e.isFlush = true := by
  rcases h with rfl | rfl <;> rfl

end AuthEvent

/-- The flushes of a record. -/
def flushCount (log : List AuthEvent) : Nat := log.countP AuthEvent.isFlush

/-- The authentication captured its generation after every flush of the module so far. -/
def FreshFor (log : List AuthEvent) (auth : Nat) (module : String) : Prop :=
  ∃ c, log[c]? = some (AuthEvent.captured auth) ∧ ∀ (j : Nat) (f : AuthEvent), log[j]? = some f → f.Covers module → j < c

/-- There was a flush after the authentication captured its generation. -/
def Overtaken (log : List AuthEvent) (auth : Nat) : Prop :=
  ∃ (c j : Nat) (f : AuthEvent), log[c]? = some (AuthEvent.captured auth) ∧ log[j]? = some f ∧ f.isFlush = true ∧ c < j

/-- The verdict is the module's answer in the consultation named, for a credential of the digest. -/
def Vouched (sha256Hex : String → String) (log : List AuthEvent) (module hash : String) (outcome : AuthOutcome)
    (origin : Origin) : Prop :=
  ∃ credential, AuthEvent.consulted origin.auth module (some credential) outcome origin.time ∈ log ∧
    sha256Hex credential = hash

section Record

variable {sha256Hex : String → String} {log events : List AuthEvent} {auth : Nat} {module hash : String}
  {outcome : AuthOutcome} {origin : Origin}

theorem getElem?_snoc {j : Nat} {f : AuthEvent} (h : (log ++ events)[j]? = some f) :
    log[j]? = some f ∨ log.length ≤ j ∧ f ∈ events := by
  by_cases hj : j < log.length
  · rw [List.getElem?_append_left hj] at h
    exact Or.inl h
  · rw [List.getElem?_append_right (Nat.le_of_not_lt hj)] at h
    exact Or.inr ⟨Nat.le_of_not_lt hj, List.mem_of_getElem? h⟩

theorem getElem?_keep {j : Nat} {f : AuthEvent} (h : log[j]? = some f) : (log ++ events)[j]? = some f := by
  rw [List.getElem?_append_left (List.getElem?_eq_some_iff.1 h).1]
  exact h

theorem FreshFor.append (h : FreshFor log auth module) (he : ∀ e ∈ events, ¬ e.Covers module) :
    FreshFor (log ++ events) auth module := by
  obtain ⟨c, hc, hall⟩ := h
  refine ⟨c, getElem?_keep hc, fun j f hf hcov => ?_⟩
  rcases getElem?_snoc hf with hold | ⟨-, hnew⟩
  · exact hall j f hold hcov
  · exact absurd hcov (he f hnew)

theorem Overtaken.append (h : Overtaken log auth) : Overtaken (log ++ events) auth := by
  obtain ⟨c, j, f, hc, hf, hflush, hlt⟩ := h
  exact ⟨c, j, f, getElem?_keep hc, getElem?_keep hf, hflush, hlt⟩

/-- A later flush overtakes. -/
theorem Overtaken.of_flush {c : Nat} {f : AuthEvent} (hc : log[c]? = some (AuthEvent.captured auth))
    (hf : f.isFlush = true) : Overtaken (log ++ [f]) auth := by
  have hlt := (List.getElem?_eq_some_iff.1 hc).1
  exact ⟨c, log.length, f, getElem?_keep hc, by rw [List.getElem?_append_right (Nat.le_refl _), Nat.sub_self]; rfl, hf, hlt⟩

theorem Vouched.append (h : Vouched sha256Hex log module hash outcome origin) :
    Vouched sha256Hex (log ++ events) module hash outcome origin := by
  obtain ⟨credential, hmem, hhash⟩ := h
  exact ⟨credential, List.mem_append_left _ hmem, hhash⟩

theorem flushCount_append : flushCount (log ++ events) = flushCount log + flushCount events := List.countP_append

/-- No flush since the capture, if the generation is still the one captured: the counter has not come round. -/
theorem not_overtaken {c : Nat} (hunique : ∀ c', log[c']? = some (AuthEvent.captured auth) → c' = c)
    (hgen : flushCount (log.take c) % 2 ^ 64 = flushCount log % 2 ^ 64) (hfew : flushCount log < 2 ^ 64) :
    ¬ Overtaken log auth := by
  rintro ⟨c', j, f, hc', hf, hflush, hlt⟩
  obtain rfl := hunique c' hc'
  have hsplit : flushCount log = flushCount (log.take c') + flushCount (log.drop c') := by
    rw [← flushCount_append, List.take_append_drop]
  have hpos : 0 < flushCount (log.drop c') := by
    refine List.countP_pos_iff.2 ⟨f, ?_, hflush⟩
    refine List.mem_of_getElem? (i := j - c') ?_
    rw [List.getElem?_drop, Nat.add_sub_cancel' (Nat.le_of_lt hlt)]
    exact hf
  rw [Nat.mod_eq_of_lt hfew, Nat.mod_eq_of_lt (by omega)] at hgen
  omega

/-- An authentication no flush has overtaken is fresh for every module. -/
theorem freshFor_of_not_overtaken {c : Nat} (hc : log[c]? = some (AuthEvent.captured auth)) (h : ¬ Overtaken log auth)
    (module : String) : FreshFor log auth module := by
  refine ⟨c, hc, fun j f hf hcov => ?_⟩
  by_contra hlt
  have hne : j ≠ c := by
    rintro rfl
    rw [hc] at hf
    cases hf
    rcases hcov with hcov | hcov <;> cases hcov
  exact h ⟨c, j, f, hc, hf, hcov.isFlush, by omega⟩

end Record

end Busbar
