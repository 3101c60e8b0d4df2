import Busbar.Ir
import Busbar.Health.Lane

/-!
# The classification of upstream errors

A lane's error answer is boiled down to a status class and the class to a disposition, which decides both
what the breaker records and where the request goes. The operator's error map refines the class by the
provider's code and by its structured type; without an entry the HTTP status decides.

* `normalizeRawError`, `CanonicalSignal.classify`: the two stages.
* `LaneState.onErrorAnswer`, `LaneState.onProbeAnswer`: the two places that act on a disposition, the
  forwarding loop and the health prober.
* `normalizeRawError_cls`: the order of precedence.
* `Unblamed`: what an answer leaves of a lane that it puts no blame on.
* `errors_classified`: the classes depend on the entries asked for only, and blame and failover agree.
-/

namespace Busbar

def statusClassFromStr (s : String) : Option StatusClass :=
  if s = "rate_limit" then some .rateLimit
  else if s = "overloaded" then some .overloaded
  else if s = "server_error" then some .serverError
  else if s = "timeout" then some .timeout
  else if s = "network" then some .network
  else if s = "auth" then some .auth
  else if s = "billing" then some .billing
  else if s = "client_error" then some .clientError
  else if s = "context_length" then some .contextLength
  else none

inductive Disposition where
  | clientFault | transientUpstream | hardDown | contextLength
  deriving DecidableEq, Repr

/-- What a reader extracts from an error answer. The status is the reader's: one of them overrides it. -/
structure RawUpstreamError where
  httpStatus : Nat
  providerCode : Option String
  structuredType : Option String
  retryAfterSecs : Option Nat
  deriving DecidableEq, Repr

structure CanonicalSignal where
  cls : StatusClass
  providerSignal : Option String
  retryAfter : Option Nat
  deriving DecidableEq, Repr

def CanonicalSignal.classify (sig : CanonicalSignal) : Disposition :=
  match sig.cls with
  | .rateLimit | .overloaded | .serverError | .timeout | .network => .transientUpstream
  | .auth | .billing => .hardDown
  | .clientError => .clientFault
  | .contextLength => .contextLength

def httpOverloaded : Nat := 529

def providerCodeContextLength : String := "context_length_exceeded"

/-- A class that would hide an outage of the upstream behind a request that is too long. -/
def masksOutage (cls : StatusClass) (httpStatus : Nat) : Bool :=
  cls = .contextLength ∧ 500 ≤ httpStatus ∧ httpStatus < 600

/-- The class of the HTTP status alone. -/
def httpStatusClass (httpStatus : Nat) : StatusClass :=
  if httpStatus = 401 ∨ httpStatus = 403 then .auth
  else if httpStatus = 429 then .rateLimit
  else if httpStatus = 408 then .timeout
  else if httpStatus = httpOverloaded then .overloaded
  else if 500 ≤ httpStatus ∧ httpStatus < 600 then .serverError
  else if 400 ≤ httpStatus ∧ httpStatus < 500 then .clientError
  -- a status that is no error at all: relay it and blame nobody
  else .clientError

/-- The class the operator maps a code or a type to. -/
def mappedClass (errorMap : Table String String) (httpStatus : Nat) (key : String) : Option StatusClass :=
  match (errorMap.lookup key).bind statusClassFromStr with
  -- no entry, or one that names no class, which is warned about and ignored
  | none => none
  | some cls => if masksOutage cls httpStatus then none else some cls

/-- The second half of the cascade: the structured type, then the status. -/
def normalizeByType (raw : RawUpstreamError) (errorMap : Table String String) : CanonicalSignal :=
  match raw.structuredType with
  | none => ⟨httpStatusClass raw.httpStatus, raw.providerCode, raw.retryAfterSecs⟩
  | some ty =>
    match mappedClass errorMap raw.httpStatus ty with
    | some cls => ⟨cls, raw.providerCode.or (some ty), raw.retryAfterSecs⟩
    | none => ⟨httpStatusClass raw.httpStatus, raw.providerCode, raw.retryAfterSecs⟩

def normalizeRawError (raw : RawUpstreamError) (errorMap : Table String String) : CanonicalSignal :=
  match raw.providerCode with
  | none => normalizeByType raw errorMap
  | some code =>
    match mappedClass errorMap raw.httpStatus code with
    | some cls => ⟨cls, some code, raw.retryAfterSecs⟩
    | none =>
      -- known without the map, but only on the statuses of a request that is too large
      if code = providerCodeContextLength ∧ (raw.httpStatus = 400 ∨ raw.httpStatus = 413) then
        ⟨.contextLength, some code, raw.retryAfterSecs⟩
      else normalizeByType raw errorMap

namespace LaneState

def recordClientFault (ls : LaneState) : LaneState := { ls with clientFault := wrapInc64 ls.clientFault }

def recordRateLimitIn (ls : LaneState) (lim : HealthLimits) (pool : String) (now : Nat) (cfg : BreakerCfg)
    (retryAfter : Option Nat) (seed : JitterSeed) : LaneState :=
  ls.recordFailureFor lim pool now cfg retryAfter seed

def recordTransientIn (ls : LaneState) (lim : HealthLimits) (pool : String) (now : Nat) (cfg : BreakerCfg)
    (retryAfter : Option Nat) (seed : JitterSeed) : LaneState :=
  ls.recordFailureFor lim pool now cfg retryAfter seed

end LaneState

/-- Where a request goes after a lane's error answer: back with the answer, back with a refusal of the
proxy's own, on to another lane, or on to another lane with a larger context window. -/
inductive AfterError where
  | relayed | refused | nextLane | nextLargerLane
  deriving DecidableEq, Repr

def AfterError.failsOver : AfterError → Bool
  | .nextLane | .nextLargerLane => true
  | .relayed | .refused => false

/-- An answer without success, and the request it answers: the pool it was dispatched for, the probe it may
hold there, and whether it carries the caller's own credential. -/
structure ErrorAnswer where
  pool : String
  probeEpoch : Nat
  passthrough : Bool
  status : Nat
  raw : RawUpstreamError
  now : Nat
  seed : JitterSeed

/-- The caller's own credential failed, not the lane's. -/
def ErrorAnswer.isPassthrough40x (a : ErrorAnswer) : Bool := a.passthrough ∧ (a.status = 401 ∨ a.status = 403)

def hardDownReason (cls : StatusClass) (status : Nat) : String :=
  match cls with
  | .billing => "billing / insufficient balance"
  | .auth => "auth rejected (HTTP " ++ toString status ++ ")"
  | .rateLimit | .overloaded | .serverError | .timeout | .network | .clientError | .contextLength =>
    "request rejected (HTTP " ++ toString status ++ ")"

namespace LaneState

/-- The forwarding loop on an answer without success. -/
def onErrorAnswer (ls : LaneState) (lim : HealthLimits) (cfg : BreakerCfg) (errorMap : Table String String)
    (a : ErrorAnswer) : LaneState × AfterError :=
  if a.isPassthrough40x then (ls.releaseProbeOwnedIn a.pool a.probeEpoch, .relayed)
  else
    let sig := normalizeRawError a.raw errorMap
    match sig.classify with
    | .clientFault => (ls.recordClientFault.releaseProbeOwnedIn a.pool a.probeEpoch, .relayed)
    | .transientUpstream =>
      if sig.cls = .rateLimit then
        (ls.recordRateLimitIn lim a.pool a.now cfg sig.retryAfter a.seed, .nextLane)
      else (ls.recordTransientIn lim a.pool a.now cfg sig.retryAfter a.seed, .nextLane)
    | .hardDown =>
      let down := ls.recordHardDownAllCells lim (hardDownReason sig.cls a.status) a.now
      if sig.cls = .auth then (down, .refused) else (down, .nextLane)
    | .contextLength => (ls.releaseProbeOwnedIn a.pool a.probeEpoch, .nextLargerLane)

/-- The health prober on an answer without success. -/
def onProbeAnswer (ls : LaneState) (lim : HealthLimits) (resolveCfg : String → BreakerCfg)
    (errorMap : Table String String) (raw : RawUpstreamError) (now : Nat) (seed : String → JitterSeed) :
    LaneState :=
  match (normalizeRawError raw errorMap).classify with
  | .hardDown => ls.recordHardDownAllCells lim "health-probe hard-down (auth/billing)" now
  | .transientUpstream => ls.recordProbeFailureAllCells lim now resolveCfg raw.retryAfterSecs seed
  | .clientFault | .contextLength => ls

end LaneState

/-! ## The order of precedence -/

namespace RawUpstreamError

/-- The class an entry of the map gives: none if there is no entry, if it names no class, or if the class
would mask an outage. -/
def entryClass (raw : RawUpstreamError) (errorMap : Table String String) (key : Option String) :
    Option StatusClass :=
  ((key.bind errorMap.lookup).bind statusClassFromStr).filter (fun cls => !masksOutage cls raw.httpStatus)

/-- The code that needs no entry. -/
def builtInClass (raw : RawUpstreamError) : Option StatusClass :=
  if raw.providerCode = some providerCodeContextLength ∧ (raw.httpStatus = 400 ∨ raw.httpStatus = 413) then
    some .contextLength
  else none

/-- The entry of the code, the built-in code, the entry of the type, the status: the first that gives a
class. -/
def precedence (raw : RawUpstreamError) (errorMap : Table String String) : StatusClass :=
  (((raw.entryClass errorMap raw.providerCode).or raw.builtInClass).or
    (raw.entryClass errorMap raw.structuredType)).getD (httpStatusClass raw.httpStatus)

end RawUpstreamError

theorem mappedClass_eq (raw : RawUpstreamError) (errorMap : Table String String) (key : String) :
    mappedClass errorMap raw.httpStatus key = raw.entryClass errorMap (some key) := by
  unfold mappedClass RawUpstreamError.entryClass
  rw [Option.bind_some]
  rcases (errorMap.lookup key).bind statusClassFromStr with _ | cls
  · rfl
  · cases hm : masksOutage cls raw.httpStatus <;> simp [Option.filter, hm]

theorem normalizeByType_cls (raw : RawUpstreamError) (errorMap : Table String String) :
    (normalizeByType raw errorMap).cls =
      (raw.entryClass errorMap raw.structuredType).getD (httpStatusClass raw.httpStatus) := by
  unfold normalizeByType
  rcases hty : raw.structuredType with _ | ty
  · rfl
  · have hmapped := mappedClass_eq raw errorMap ty
    rcases he : raw.entryClass errorMap (some ty) with _ | cls
    · rw [he] at hmapped
      simp [hmapped]
    · rw [he] at hmapped
      simp [hmapped]

theorem normalizeRawError_cls (raw : RawUpstreamError) (errorMap : Table String String) :
    (normalizeRawError raw errorMap).cls = raw.precedence errorMap := by
  have htype := normalizeByType_cls raw errorMap
  unfold normalizeRawError RawUpstreamError.precedence
  rcases hcode : raw.providerCode with _ | code
  · have hbuilt : raw.builtInClass = none := by simp [RawUpstreamError.builtInClass, hcode]
    have hentry : raw.entryClass errorMap none = none := rfl
    rw [hentry, hbuilt]
    exact htype
  · have hmapped := mappedClass_eq raw errorMap code
    rcases he : raw.entryClass errorMap (some code) with _ | cls
    · rw [he] at hmapped
      by_cases hb : code = providerCodeContextLength ∧ (raw.httpStatus = 400 ∨ raw.httpStatus = 413)
      · have hbuilt : raw.builtInClass = some .contextLength := by
          simp [RawUpstreamError.builtInClass, hcode, hb]
        simp only [hmapped, if_pos hb, hbuilt]
        rfl
      · have hbuilt : raw.builtInClass = none := by
          simp [RawUpstreamError.builtInClass, hcode, hb]
        simp only [hmapped, if_neg hb, hbuilt, Option.none_or]
        exact htype
    · rw [he] at hmapped
      simp [hmapped]

/-- Two maps that agree on the keys an error asks for classify it alike, signal and retry hint included. -/
theorem normalizeRawError_congr {raw : RawUpstreamError} {errorMap errorMap' : Table String String}
    (h : ∀ key, raw.providerCode = some key ∨ raw.structuredType = some key →
      errorMap.lookup key = errorMap'.lookup key) :
    normalizeRawError raw errorMap = normalizeRawError raw errorMap' := by
  have hmapped : ∀ key, raw.providerCode = some key ∨ raw.structuredType = some key →
      mappedClass errorMap raw.httpStatus key = mappedClass errorMap' raw.httpStatus key := by
    intro key hkey
    unfold mappedClass
    rw [h key hkey]
  have htype : normalizeByType raw errorMap = normalizeByType raw errorMap' := by
    unfold normalizeByType
    rcases hty : raw.structuredType with _ | ty
    · rfl
    · dsimp only
      rw [hmapped ty (Or.inr hty)]
  unfold normalizeRawError
  rcases hcode : raw.providerCode with _ | code
  · exact htype
  · dsimp only
    rw [hmapped code (Or.inl hcode), htype]

/-- The retry hint of the answer reaches the breaker whatever decides the class. -/
theorem normalizeRawError_retryAfter (raw : RawUpstreamError) (errorMap : Table String String) :
    (normalizeRawError raw errorMap).retryAfter = raw.retryAfterSecs := by
  have htype : (normalizeByType raw errorMap).retryAfter = raw.retryAfterSecs := by
    unfold normalizeByType
    split
    · rfl
    · split <;> rfl
  unfold normalizeRawError
  split
  · exact htype
  · split
    · rfl
    · split
      · rfl
      · exact htype

/-! ## Lanes that are not to blame -/

/-- A lane after an answer that is not its fault: each cell is as it was or gave up the probe it held, and
nothing that admission or selection reads has changed. -/
structure Unblamed (ls ls' : LaneState) : Prop where
  budget : ls'.budget = ls.budget
  dead : ls'.dead = ls.dead
  trips : ls'.trips = ls.trips
  lastTripAt : ls'.lastTripAt = ls.lastTripAt
  cell : ∀ pool, ls'.cell pool = ls.cell pool ∨ ls'.cell pool = cellReleaseProbe (ls.cell pool)

theorem Unblamed.refl (ls : LaneState) : Unblamed ls ls := ⟨rfl, rfl, rfl, rfl, fun _ => Or.inl rfl⟩

theorem cellReleaseProbe_idem (c : BreakerCell) :
    cellReleaseProbe (cellReleaseProbe c) = cellReleaseProbe c := by
  by_cases h : c.breakerState = stHalfOpen
  · simp [cellReleaseProbe, h]
  · simp [cellReleaseProbe, h]

theorem Unblamed.trans {a b c : LaneState} (h : Unblamed a b) (h' : Unblamed b c) : Unblamed a c := by
  refine ⟨h'.budget.trans h.budget, h'.dead.trans h.dead, h'.trips.trans h.trips,
    h'.lastTripAt.trans h.lastTripAt, fun pool => ?_⟩
  have hab := h.cell pool
  have hbc := h'.cell pool
  rcases hbc with hbc | hbc
  · rw [hbc]
    exact hab
  · right
    rw [hbc]
    rcases hab with hab | hab
    · rw [hab]
    · rw [hab, cellReleaseProbe_idem]

/-- A cell that holds no probe is judged as before: in particular a Closed cell has not tripped. -/
theorem Unblamed.verdict {ls ls' : LaneState} (h : Unblamed ls ls') (pool : String) (now : Nat)
    (hstate : (ls.cell pool).breakerState ≠ stHalfOpen) :
    breakerVerdict (ls'.cell pool) now = breakerVerdict (ls.cell pool) now := by
  rcases h.cell pool with hc | hc
  · rw [hc]
  · have hkept : (cellReleaseProbe (ls.cell pool)).breakerState = (ls.cell pool).breakerState := by
      unfold cellReleaseProbe
      rw [if_neg hstate]
    rw [hc]
    unfold breakerVerdict
    rw [hkept]
    rfl

/-- Giving the probe back keeps what a new cell would take over. -/
theorem sibling_releaseProbeOwnedIn (ls : LaneState) (pool : String) (ownedEpoch : Nat) :
    (ls.releaseProbeOwnedIn pool ownedEpoch).sibling = ls.sibling := by
  unfold LaneState.releaseProbeOwnedIn LaneState.setCell
  by_cases hp : pool = ""
  · rw [if_pos hp, hp]
    have hcell : ls.cell "" = ls.defaultCell := rfl
    rw [hcell]
    unfold LaneState.sibling cellReleaseProbeOwned cellReleaseProbe
    by_cases he : ls.defaultCell.probeEpoch ≠ ownedEpoch
    · simp only [if_pos he]
    · simp only [if_neg he]
      by_cases hs : ls.defaultCell.breakerState = stHalfOpen
      · simp [hs]
      · simp [hs]
  · rw [if_neg hp]
    rfl

theorem unblamed_release (ls : LaneState) (pool : String) (ownedEpoch : Nat) :
    Unblamed ls (ls.releaseProbeOwnedIn pool ownedEpoch) := by
  have hfields : ∀ c, (ls.setCell pool c).budget = ls.budget ∧ (ls.setCell pool c).dead = ls.dead ∧
      (ls.setCell pool c).trips = ls.trips ∧ (ls.setCell pool c).lastTripAt = ls.lastTripAt := by
    intro c
    unfold LaneState.setCell
    split <;> exact ⟨rfl, rfl, rfl, rfl⟩
  obtain ⟨hbudget, hdead, htrips, hlast⟩ := hfields (cellReleaseProbeOwned (ls.cell pool) ownedEpoch)
  refine ⟨hbudget, hdead, htrips, hlast, fun q => ?_⟩
  have hat := LaneState.cellAt_setCell ls pool q (cellReleaseProbeOwned (ls.cell pool) ownedEpoch)
  by_cases hq : pool = q
  · subst hq
    rw [if_pos rfl] at hat
    have hcell := LaneState.cell_of_cellAt hat
    have hread : (ls.releaseProbeOwnedIn pool ownedEpoch).cell pool =
        cellReleaseProbeOwned (ls.cell pool) ownedEpoch := hcell
    rw [hread]
    unfold cellReleaseProbeOwned
    by_cases he : (ls.cell pool).probeEpoch ≠ ownedEpoch
    · rw [if_pos he]
      exact Or.inl rfl
    · rw [if_neg he]
      exact Or.inr rfl
  · rw [if_neg hq] at hat
    left
    have hsib := sibling_releaseProbeOwnedIn ls pool ownedEpoch
    unfold LaneState.releaseProbeOwnedIn at hsib ⊢
    unfold LaneState.cell at hat hsib ⊢
    rw [hat, hsib]

theorem unblamed_clientFault (ls : LaneState) : Unblamed ls ls.recordClientFault :=
  ⟨rfl, rfl, rfl, rfl, fun _ => Or.inl rfl⟩

/-- No error answer gives the lane a unit of its budget back, or takes one. -/
theorem budget_onErrorAnswer (ls : LaneState) (lim : HealthLimits) (cfg : BreakerCfg)
    (errorMap : Table String String) (a : ErrorAnswer) :
    (ls.onErrorAnswer lim cfg errorMap a).1.budget = ls.budget := by
  have hrelease : ∀ ls : LaneState, (ls.releaseProbeOwnedIn a.pool a.probeEpoch).budget = ls.budget :=
    fun ls => (unblamed_release ls a.pool a.probeEpoch).budget
  have hfailure : ∀ retryAfter,
      (ls.recordFailureFor lim a.pool a.now cfg retryAfter a.seed).budget = ls.budget := by
    intro retryAfter
    unfold LaneState.recordFailureFor LaneState.countTrip LaneState.countErr LaneState.setCell
    split
    · rfl
    · dsimp only
      split <;> split <;> rfl
  have hdown : ∀ reason, (ls.recordHardDownAllCells lim reason a.now).budget = ls.budget := by
    intro reason
    unfold LaneState.recordHardDownAllCells LaneState.countTrip
    dsimp only
    split <;> rfl
  unfold LaneState.onErrorAnswer
  by_cases hpass : a.isPassthrough40x = true
  · rw [if_pos hpass]
    exact hrelease ls
  · rw [if_neg hpass]
    dsimp only
    cases (normalizeRawError a.raw errorMap).classify with
    | clientFault => exact hrelease _
    | transientUpstream =>
      dsimp only
      split
      · exact hfailure _
      · exact hfailure _
    | hardDown =>
      dsimp only
      split
      · exact hdown _
      · exact hdown _
    | contextLength => exact hrelease ls

/-- The breaker's decision and the request's, class by class. -/
structure Decided (ls : LaneState) (lim : HealthLimits) (cfg : BreakerCfg) (a : ErrorAnswer) (cls : StatusClass)
    (r : LaneState × AfterError) : Prop where
  clientError : cls = .clientError → Unblamed ls r.1 ∧ r.2 = .relayed
  contextLength : cls = .contextLength → Unblamed ls r.1 ∧ r.2 = .nextLargerLane
  transient : cls = .rateLimit ∨ cls = .overloaded ∨ cls = .serverError ∨ cls = .timeout ∨ cls = .network →
    r = (ls.recordFailureFor lim a.pool a.now cfg a.raw.retryAfterSecs a.seed, .nextLane)
  billing : cls = .billing → r = (ls.recordHardDownAllCells lim (hardDownReason cls a.status) a.now, .nextLane)
  auth : cls = .auth → r = (ls.recordHardDownAllCells lim (hardDownReason cls a.status) a.now, .refused)
  budget : r.1.budget = ls.budget

theorem onErrorAnswer_decided (ls : LaneState) (lim : HealthLimits) (cfg : BreakerCfg)
    (errorMap : Table String String) {a : ErrorAnswer} (hpass : a.isPassthrough40x = false) :
    Decided ls lim cfg a (normalizeRawError a.raw errorMap).cls (ls.onErrorAnswer lim cfg errorMap a) := by
  have hbudget := budget_onErrorAnswer ls lim cfg errorMap a
  have hretry := normalizeRawError_retryAfter a.raw errorMap
  have hrelayed : Unblamed ls (ls.recordClientFault.releaseProbeOwnedIn a.pool a.probeEpoch) :=
    (unblamed_clientFault ls).trans (unblamed_release _ _ _)
  have hreleased := unblamed_release ls a.pool a.probeEpoch
  unfold LaneState.onErrorAnswer at hbudget ⊢
  rw [if_neg (by rw [hpass]; exact Bool.false_ne_true)] at hbudget ⊢
  dsimp only at hbudget ⊢
  unfold CanonicalSignal.classify LaneState.recordRateLimitIn LaneState.recordTransientIn at hbudget ⊢
  rw [hretry] at hbudget ⊢
  constructor
  · intro h
    rw [h]
    exact ⟨hrelayed, rfl⟩
  · intro h
    rw [h]
    exact ⟨hreleased, rfl⟩
  · rintro (h | h | h | h | h) <;> rw [h] <;> rfl
  · intro h
    rw [h]
    rfl
  · intro h
    rw [h]
    rfl
  · exact hbudget

/-! ## Runs of client faults -/

/-- What a lane's upstream says without success, to a request or to the health prober. -/
inductive Observed where
  | answer (a : ErrorAnswer)
  | probe (raw : RawUpstreamError) (now : Nat) (seed : String → JitterSeed)

def Observed.raw : Observed → RawUpstreamError
  | .answer a => a.raw
  | .probe raw _ _ => raw

/-- The lane after one observation; both places judge a pool's cell by the pool's own configuration. -/
def LaneState.observe (lim : HealthLimits) (resolveCfg : String → BreakerCfg) (errorMap : Table String String)
    (ls : LaneState) : Observed → LaneState
  | .answer a => (ls.onErrorAnswer lim (resolveCfg a.pool) errorMap a).1
  | .probe raw now seed => ls.onProbeAnswer lim resolveCfg errorMap raw now seed

theorem unblamed_observe (lim : HealthLimits) (resolveCfg : String → BreakerCfg) (errorMap : Table String String)
    (ls : LaneState) {o : Observed} (h : (normalizeRawError o.raw errorMap).cls = .clientError) :
    Unblamed ls (ls.observe lim resolveCfg errorMap o) := by
  cases o with
  | answer a =>
    by_cases hpass : a.isPassthrough40x = true
    · -- the caller's own credential: answered before any classification
      have hls : ls.observe lim resolveCfg errorMap (.answer a) = ls.releaseProbeOwnedIn a.pool a.probeEpoch := by
        unfold LaneState.observe LaneState.onErrorAnswer
        dsimp only
        rw [if_pos hpass]
      rw [hls]
      exact unblamed_release ls a.pool a.probeEpoch
    · have hdecided := onErrorAnswer_decided ls lim (resolveCfg a.pool) errorMap (Bool.eq_false_iff.2 hpass)
      exact (hdecided.clientError h).1
  | probe raw now seed =>
    have hclass : (normalizeRawError raw errorMap).classify = .clientFault := by
      have hcls : (normalizeRawError raw errorMap).cls = .clientError := h
      unfold CanonicalSignal.classify
      rw [hcls]
    have hls : ls.observe lim resolveCfg errorMap (.probe raw now seed) = ls := by
      unfold LaneState.observe LaneState.onProbeAnswer
      dsimp only
      rw [hclass]
    rw [hls]
    exact Unblamed.refl ls

theorem unblamed_run (lim : HealthLimits) (resolveCfg : String → BreakerCfg) (errorMap : Table String String)
    (os : List Observed) (ls : LaneState)
    (h : ∀ o ∈ os, (normalizeRawError o.raw errorMap).cls = .clientError) :
    Unblamed ls (os.foldl (LaneState.observe lim resolveCfg errorMap) ls) := by
  induction os generalizing ls with
  | nil => exact Unblamed.refl ls
  | cons o os ih =>
    have hone := unblamed_observe lim resolveCfg errorMap ls (h o List.mem_cons_self)
    have hrest := ih (ls.observe lim resolveCfg errorMap o) (fun o' ho' => h o' (List.mem_cons_of_mem _ ho'))
    exact hone.trans hrest

/-- The class of an error is the first that its code's entry, the built-in code, its type's entry and the
status give; no other entry of the map has a say in it; the breaker and the walk agree on what it means; and
client faults, however many, in whichever pools, and from requests and probes alike, leave the lane as it
was but for the probes it gave back. -/
theorem errors_classified (lim : HealthLimits) (resolveCfg : String → BreakerCfg)
    (errorMap : Table String String) :
    (∀ raw, (normalizeRawError raw errorMap).cls = raw.precedence errorMap) ∧
    (∀ raw (errorMap' : Table String String),
      (∀ key, raw.providerCode = some key ∨ raw.structuredType = some key →
        errorMap.lookup key = errorMap'.lookup key) →
      normalizeRawError raw errorMap = normalizeRawError raw errorMap') ∧
    (∀ ls a, a.isPassthrough40x = false →
      Decided ls lim (resolveCfg a.pool) a (normalizeRawError a.raw errorMap).cls
        (ls.onErrorAnswer lim (resolveCfg a.pool) errorMap a)) ∧
    (∀ ls (os : List Observed), (∀ o ∈ os, (normalizeRawError o.raw errorMap).cls = .clientError) →
      Unblamed ls (os.foldl (LaneState.observe lim resolveCfg errorMap) ls)) := by
  refine ⟨fun raw => normalizeRawError_cls raw errorMap, fun raw errorMap' h => normalizeRawError_congr h, ?_, ?_⟩
  · intro ls a hpass
    exact onErrorAnswer_decided ls lim (resolveCfg a.pool) errorMap hpass
  · intro ls os h
    exact unblamed_run lim resolveCfg errorMap os ls h

def maskingMap : Table String String := Table.set "prompt_too_long" "context_length" Registry.empty

/-- An outage whose code is mapped to a class that blames nobody stays an outage. -/
theorem explicit_entry_loses : ¬ ∀ (raw : RawUpstreamError) (errorMap : Table String String) (code : String)
    (cls : StatusClass), raw.providerCode = some code →
    (errorMap.lookup code).bind statusClassFromStr = some cls → (normalizeRawError raw errorMap).cls = cls := by
  intro h
  have hclass := h ⟨503, some "prompt_too_long", none, none⟩ maskingMap "prompt_too_long" .contextLength rfl
    (by decide +kernel)
  have hactual : (normalizeRawError ⟨503, some "prompt_too_long", none, none⟩ maskingMap).cls = .serverError := by
    decide +kernel
  rw [hactual] at hclass
  cases hclass

end Busbar
