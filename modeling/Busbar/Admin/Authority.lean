import Busbar.Admin.Gate
import Busbar.Auth.SigText

/-!
# Authority and budget on the admin plane

What the gate lets through, for one request and over a run of them. Full authority is the operator's own credential, or a
role bound to it under a module whose ceiling is full; the rest of a request's fate is a count of the requests before it.

* `contains_cappedBy`: a ceiling takes each scope to its meet with it.
* `chainFrom_spec`: a verdict names a module of the chain and carries its ceiling.
* `full_authority`: who holds the full scope.
* `put_auth_keeps_caller`: a chain that is put keeps its caller in, whatever the cache holds.
* `limiter_after`: the limiter of a run is that of the attempts its requests are charged with.
* `budget_kept`: within a minute the first requests of a budget pass, and one refusal is recorded.
-/

namespace Busbar.Admin

open Run MutationLimiter

/-! ## Grants -/

namespace Grants

theorem bit_and_bit (s t : Scope) : (s.bit &&& t.bit ≠ 0) ↔ s = t := by
  cases s <;> cases t <;> decide

@[simp] theorem contains_empty (s : Scope) : empty.contains s = false := by
  cases s <;> decide

theorem contains_add (g : Grants) (s t : Scope) : (g.add s).contains t = true ↔ g.contains t = true ∨ s = t := by
  have hsplit : (g.bits ||| s.bit) &&& t.bit = (g.bits &&& t.bit) ||| (s.bit &&& t.bit) :=
    UInt8.toBitVec_inj.1 BitVec.and_or_distrib_right
  unfold contains add
  rw [decide_eq_true_eq, decide_eq_true_eq, ← bit_and_bit, hsplit, ne_eq, UInt8.or_eq_zero_iff, not_and_or]

theorem contains_foldl {α : Type} (f : α → Scope) (l : List α) (g : Grants) (t : Scope) :
    (l.foldl (fun acc a => acc.add (f a)) g).contains t = true ↔ g.contains t = true ∨ ∃ a ∈ l, f a = t := by
  induction l generalizing g with
  | nil => simp
  | cons a l ih =>
    rw [List.foldl_cons, ih, contains_add, List.exists_mem_cons_iff, or_assoc]

theorem contains_of (s t : Scope) : (of s).contains t = true ↔ s = t := by
  unfold contains of
  rw [decide_eq_true_eq]
  exact bit_and_bit s t

theorem mem_all (s : Scope) : s ∈ Scope.all := by
  cases s <;> decide

/-- **A ceiling** takes every scope that is held to its meet with the ceiling. -/
theorem contains_cappedBy (g : Grants) (cap t : Scope) :
    (g.cappedBy cap).contains t = true ↔ ∃ s, g.contains s = true ∧ s.meet cap = t := by
  unfold cappedBy
  rw [contains_foldl, contains_empty]
  constructor
  · rintro (h | ⟨s, hs, ht⟩)
    · cases h
    · exact ⟨s, (List.mem_filter.1 hs).2, ht⟩
  · rintro ⟨s, hs, ht⟩
    exact .inr ⟨s, List.mem_filter.2 ⟨mem_all s, hs⟩, ht⟩

theorem allows_full (g : Grants) : g.allows .full = true ↔ g.contains .full = true := by
  unfold allows
  rw [List.any_eq_true]
  constructor
  · rintro ⟨s, -, hs⟩
    rw [Bool.and_eq_true] at hs
    have hfull : s = .full := of_decide_eq_true hs.2
    exact hfull ▸ hs.1
  · intro h
    exact ⟨.full, mem_all _, by rw [h]; rfl⟩

theorem meet_eq_full (s cap : Scope) : s.meet cap = .full ↔ s = .full ∧ cap = .full := by
  cases s <;> cases cap <;> decide

end Grants

/-! ## The chain -/

variable {sha256Hex : String → String} {app : AdminApp} {c : Carriers} {now gen : Nat} {cache : CacheState}

theorem settle_cases (app : AdminApp) (name : String) (outcome : AuthOutcome) :
    settle app name outcome = none ∨ settle app name outcome = some (.denied, none) ∨
      ∃ p, settle app name outcome = some (.identified name p, moduleAdminScopeCap app name) := by
  cases outcome with
  | identify p => exact .inr (.inr ⟨p, rfl⟩)
  | reject => exact .inr (.inl rfl)
  | pass => exact .inl rfl

/-- What a verdict of the chain can be. -/
def Sound (app : AdminApp) (chain : List String) (v : ChainVerdict × Option Scope) : Prop :=
  v = (.denied, none) ∨ ∃ name ∈ chain, ∃ p, v = (.identified name p, moduleAdminScopeCap app name)

theorem Sound.tail {name : String} {chain : List String} {v : ChainVerdict × Option Scope} (h : Sound app chain v) :
    Sound app (name :: chain) v :=
  h.imp_right fun ⟨name', hmem, hv⟩ => ⟨name', List.mem_cons_of_mem name hmem, hv⟩

/-- A module's outcome, taken to its end. -/
theorem sound_settle {name : String} {rest : List String} {outcome : AuthOutcome}
    {after : (ChainVerdict × Option Scope) × CacheState} {cache : CacheState} (hrest : Sound app rest after.1) :
    Sound app (name :: rest)
      (match settle app name outcome with
        | some verdict => (verdict, cache)
        | none => after).1 := by
  rcases settle_cases app name outcome with h | h | ⟨p, h⟩
  · rw [h]
    exact hrest.tail
  · rw [h]
    exact .inl rfl
  · rw [h]
    exact .inr ⟨name, List.mem_cons_self, p, rfl⟩

/-- **A verdict names a module of the chain and carries that module's ceiling**, also where the cache answered. -/
theorem chainFrom_spec (chain : List String) (cache : CacheState) :
    Sound app chain (chainFrom sha256Hex app c now gen chain cache).1 := by
  induction chain generalizing cache with
  | nil => exact .inl rfl
  | cons name rest ih =>
    rw [chainFrom]
    cases hcred : (if name ≠ adminTokensModule then composite c else none) with
    | none => exact sound_settle (ih cache)
    | some cred =>
      dsimp only
      cases hget : cache.get sha256Hex name cred now with
      | mk hit cache =>
        dsimp only
        cases hit with
        | some outcome => exact sound_settle (ih cache)
        | none => exact sound_settle (ih _)

/-! ## Full authority -/

/-- The scope that the bindings of a module give to a role. -/
def boundTo (app : AdminApp) (module role : String) : Option Scope :=
  (((app.roleBindings.lookup module).bind (fun table => table.lookup role)).bind id).bind Scope.parse

/-- A module that may pass the full scope on: the operator's own, or one whose ceiling was raised to it. -/
def Uncapped (app : AdminApp) (module : String) : Prop :=
  module = adminTokensModule ∨ (app.authScopeCaps.lookup module).bind Scope.parse = some .full

/-- The operator's own identity, or one with a role that is bound to the full scope. -/
def Entitled (app : AdminApp) (module : String) (p : Principal) : Prop :=
  (module = adminTokensModule ∧ p.id = adminTokensPrincipalId ∧ p.roles = []) ∨
    ((∃ role ∈ p.roles, boundTo app module role = some .full) ∧ Uncapped app module)

theorem mem_boundScopes (table : Table String (Option String)) (roles : List String) (s : Scope) :
    s ∈ boundScopes table roles ↔ ∃ role ∈ roles, ((table.lookup role).bind id).bind Scope.parse = some s := by
  unfold boundScopes
  simp only [List.mem_filterMap]
  constructor
  · rintro ⟨token, ⟨bound, ⟨role, hrole, hbound⟩, htoken⟩, hs⟩
    refine ⟨role, hrole, ?_⟩
    rw [hbound, Option.bind_some, htoken, Option.bind_some, hs]
  · rintro ⟨role, hrole, hs⟩
    obtain ⟨token, htoken, hs⟩ := Option.bind_eq_some_iff.1 hs
    obtain ⟨bound, hbound, htoken⟩ := Option.bind_eq_some_iff.1 htoken
    exact ⟨token, ⟨bound, ⟨role, hrole, hbound⟩, htoken⟩, hs⟩

/-- The scopes of an identified principal before the ceiling. -/
theorem adminScopeFor_full (app : AdminApp) (module : String) (p : Principal) :
    (adminScopeFor (some module) (some p) app.roleBindings).contains .full = true ↔
      (module = adminTokensModule ∧ p.id = adminTokensPrincipalId ∧ p.roles = []) ∨
        ∃ role ∈ p.roles, boundTo app module role = some .full := by
  unfold adminScopeFor boundTo
  by_cases hroles : p.roles = []
  · simp only [hroles, ↓reduceIte, Option.some.injEq, List.not_mem_nil, false_and, exists_false, or_false, and_true]
    split
    · rename_i h
      simp [Grants.contains_of, h]
    · rename_i h
      simpa using h
  · simp only [hroles, ↓reduceIte, and_false, false_or, Option.bind_some]
    cases app.roleBindings.lookup module with
    | none => simp
    | some table =>
      dsimp only
      rw [show (boundScopes table p.roles).foldl Grants.add .empty =
          (boundScopes table p.roles).foldl (fun acc s => acc.add s) .empty from rfl, Grants.contains_foldl (fun s => s),
        Grants.contains_empty]
      simp only [Bool.false_eq_true, false_or, exists_eq_right, mem_boundScopes, Option.bind_some]

/-- The ceiling leaves the full scope to the modules that are uncapped. -/
theorem verdictGrants_full (app : AdminApp) (module : String) (p : Principal) :
    (verdictGrants app (.identified module p, moduleAdminScopeCap app module)).contains .full = true ↔
      Entitled app module p := by
  have hscopes := adminScopeFor_full app module p
  by_cases hown : module = adminTokensModule
  · have hcap : moduleAdminScopeCap app module = none := if_pos hown
    have huncapped : Uncapped app module := .inl hown
    rw [hcap]
    unfold Entitled
    rw [and_iff_left huncapped]
    exact hscopes
  · have hcap : moduleAdminScopeCap app module =
        some (((app.authScopeCaps.lookup module).bind Scope.parse).getD .readOnly) := if_neg hown
    have hfull : ((app.authScopeCaps.lookup module).bind Scope.parse).getD .readOnly = .full ↔
        (app.authScopeCaps.lookup module).bind Scope.parse = some .full := by
      cases (app.authScopeCaps.lookup module).bind Scope.parse with
      | none => decide
      | some s => simp
    rw [hcap]
    unfold verdictGrants Entitled Uncapped
    dsimp only
    simp only [hown, false_and, false_or] at hscopes ⊢
    rw [Grants.contains_cappedBy, ← hscopes, ← hfull]
    constructor
    · rintro ⟨s, hs, hmeet⟩
      obtain ⟨rfl, hceiling⟩ := (Grants.meet_eq_full s _).1 hmeet
      exact ⟨hs, hceiling⟩
    · rintro ⟨hs, hceiling⟩
      exact ⟨.full, hs, (Grants.meet_eq_full _ _).2 ⟨rfl, hceiling⟩⟩

/-- **Who holds the full scope.** With no chain everyone; otherwise an identity that a module of the chain vouches for and
that is the operator's, or has a role bound to the full scope under a module whose ceiling is full. Nothing that the cache
holds and nothing that a plugin answers makes it more. -/
theorem full_authority (sha256Hex : String → String) (app : AdminApp) (c : Carriers) (now : Nat) (cache : CacheState) :
    (dryRunAdminScope sha256Hex app c now cache).allows .full = true ↔
      app.adminChain = [] ∨ ∃ module ∈ app.adminChain, ∃ p,
        (runAdminChain sha256Hex app c now cache).1 = (.identified module p, moduleAdminScopeCap app module) ∧
          Entitled app module p := by
  rw [Grants.allows_full, dryRunAdminScope]
  by_cases hchain : app.adminChain = []
  · have hrun : (runAdminChain sha256Hex app c now cache).1 = (.anyone, none) := by
      rw [runAdminChain, if_pos hchain]
    rw [hrun]
    simp only [hchain, true_or, iff_true]
    exact (Grants.contains_of .full .full).2 rfl
  · have hsound : Sound app app.adminChain (runAdminChain sha256Hex app c now cache).1 := by
      rw [runAdminChain, if_neg hchain]
      exact chainFrom_spec app.adminChain cache
    rcases hsound with hdenied | ⟨module, hmem, p, hrun⟩
    · rw [hdenied]
      simp [hchain, verdictGrants]
    · rw [hrun, verdictGrants_full]
      simp only [hchain, false_or]
      constructor
      · exact fun h => ⟨module, hmem, p, rfl, h⟩
      · rintro ⟨module', -, p', he, h⟩
        simp only [Prod.mk.injEq, ChainVerdict.identified.injEq] at he
        rw [he.1.1, he.1.2]
        exact h

/-! ## Replacing the chain -/

/-- A carrier holds the operator's token. -/
def Operator (sha256Hex : String → String) (hash : Option String) (c : Carriers) : Prop :=
  ∃ h, hash = some h ∧ (c.bearer.map sha256Hex = some h ∨ c.header.map sha256Hex = some h)

theorem authenticate_operator (sha256Hex : String → String) (hash : Option String) (c : Carriers) :
    (∃ p, authenticateAdminTokens sha256Hex hash c = .identify p ∧ p.id = adminTokensPrincipalId ∧ p.roles = []) ∧
        Operator sha256Hex hash c ∨
      (authenticateAdminTokens sha256Hex hash c = .pass ∨ authenticateAdminTokens sha256Hex hash c = .reject) ∧
        ¬ Operator sha256Hex hash c := by
  cases hash with
  | none => exact .inr ⟨.inl rfl, fun ⟨_, h, _⟩ => by cases h⟩
  | some h =>
    have hmatch : ∀ carrier : Option String,
        (carrier.map (fun b => Sigv4.constantTimeEq (sha256Hex b) h)).getD false = true ↔ carrier.map sha256Hex = some h := by
      intro carrier
      cases carrier with
      | none => simp
      | some b => simp [Sigv4.constantTimeEq_iff]
    have hop : Operator sha256Hex (some h) c ↔ c.bearer.map sha256Hex = some h ∨ c.header.map sha256Hex = some h := by
      constructor
      · rintro ⟨_, he, hc⟩
        cases he
        exact hc
      · exact fun hc => ⟨h, rfl, hc⟩
    rw [hop]
    unfold authenticateAdminTokens
    dsimp only
    by_cases hboth : c.bearer.isNone && c.header.isNone
    · rw [if_pos hboth]
      rw [Bool.and_eq_true, Option.isNone_iff_eq_none, Option.isNone_iff_eq_none] at hboth
      exact .inr ⟨.inl rfl, by simp [hboth]⟩
    · rw [if_neg hboth, ← hmatch c.bearer, ← hmatch c.header, ← Bool.or_eq_true]
      split
      · rename_i hm
        exact .inl ⟨⟨_, rfl, rfl, rfl⟩, hm⟩
      · rename_i hm
        exact .inr ⟨.inr rfl, hm⟩

/-- A chain of the operator's module asks nothing else: the cache and the plugins have no say. -/
theorem builtin_verdict {app : AdminApp} (hown : ∀ name ∈ app.adminChain, name = adminTokensModule) (c : Carriers)
    (now : Nat) (cache : CacheState) :
    (dryRunAdminScope sha256Hex app c now cache).contains .full = true ↔
      app.adminChain = [] ∨ Operator sha256Hex app.adminTokenHash c := by
  by_cases hchain : app.adminChain = []
  · have hrun : (runAdminChain sha256Hex app c now cache).1 = (.anyone, none) := by
      rw [runAdminChain, if_pos hchain]
    rw [dryRunAdminScope, hrun]
    simp only [hchain, true_or, iff_true]
    exact (Grants.contains_of .full .full).2 rfl
  · rw [dryRunAdminScope, runAdminChain, if_neg hchain, or_iff_right hchain]
    -- every module of the chain gives the outcome of the first one
    have hloop : ∀ (chain : List String) (cache : CacheState) (gen : Nat), chain ≠ [] →
        (∀ name ∈ chain, name = adminTokensModule) →
        ((verdictGrants app (chainFrom sha256Hex app c now gen chain cache).1).contains .full = true ↔
          Operator sha256Hex app.adminTokenHash c) := by
      intro chain
      induction chain with
      | nil => exact fun _ _ h => absurd rfl h
      | cons name rest ih =>
        intro cache gen _ hnames
        have hname := hnames name List.mem_cons_self
        rw [chainFrom, if_neg (not_not.2 hname)]
        dsimp only
        have hconsult : consult sha256Hex app name c = authenticateAdminTokens sha256Hex app.adminTokenHash c := if_pos hname
        rw [hconsult]
        rcases authenticate_operator sha256Hex app.adminTokenHash c with
          ⟨⟨p, hout, hid, hroles⟩, hop⟩ | ⟨hout | hout, hop⟩
        · rw [hout]
          exact iff_of_true ((verdictGrants_full app name p).2 (.inl ⟨hname, hid, hroles⟩)) hop
        · rw [hout]
          dsimp only [settle]
          cases rest with
          | nil => exact iff_of_false (by simp [chainFrom, verdictGrants]) hop
          | cons name' rest =>
            exact ih cache gen (List.cons_ne_nil _ _) (fun n hn => hnames n (List.mem_cons_of_mem _ hn))
        · rw [hout]
          exact iff_of_false (by simp [settle, verdictGrants]) hop
    exact hloop app.adminChain cache cache.generation hchain hown

theorem Grants.allows_of_full {g : Grants} (h : g.contains .full = true) (needed : Scope) : g.allows needed = true := by
  unfold Grants.allows
  rw [List.any_eq_true]
  exact ⟨.full, Grants.mem_all _, by rw [h]; cases needed <;> rfl⟩

/-- The chains that a put accepts, and from whom. -/
theorem putAuth_spec {ifMatch : Option Nat} {adminAuth : List String} {current next : LiveApp}
    (h : putAuth sha256Hex ifMatch adminAuth c now cache current = .ok next) :
    (∀ name ∈ adminAuth, name = adminTokensModule) ∧ (adminAuth = [] ∨ Operator sha256Hex current.adminTokenHash c) ∧
      next = { current with configVersion := wrapInc64 current.configVersion, adminChain := adminAuth } := by
  unfold putAuth at h
  split at h
  · cases h
  split at h
  · cases h
  split at h
  · cases h
  rename_i hnames
  have hbuiltin : ∀ name ∈ adminAuth, name = adminTokensModule := by
    intro name hname
    have hnot := List.find?_eq_none.1 hnames name hname
    simpa using hnot
  dsimp only at h
  split at h
  · rename_i hfull
    cases h
    exact ⟨hbuiltin, (builtin_verdict hbuiltin c now cache).1 hfull, rfl⟩
  · cases h

/-- A snapshot behind the operator's token alone. -/
def tokenApp : LiveApp where
  adminChain := []
  adminTokenHash := some "t"
  adminModules := fun _ => none
  authScopeCaps := Registry.empty
  roleBindings := Registry.empty
  configVersion := 4
  overlayPath := some "overlay.yaml"

/-- The chain closes again, by a caller that holds the token. -/
theorem put_tokenApp (cache : CacheState) :
    putAuth id (some 4) [adminTokensModule] ⟨some "t", none⟩ 0 cache tokenApp =
      .ok { tokenApp with configVersion := 5, adminChain := [adminTokensModule] } :=
  if_pos ((builtin_verdict (fun _ hname => List.mem_singleton.1 hname) _ 0 cache).2 (.inr ⟨"t", rfl, .inl rfl⟩))

def tokenRequest : AdminRequest where
  method := .delete
  path := "/api/v1/admin/hooks/h"
  app := { tokenApp with adminChain := [adminTokensModule] }
  verdict := (runAdminChain id { tokenApp with adminChain := [adminTokensModule] } ⟨some "t", none⟩ 0 CacheState.new).1
  now := 60

/-- The attempt that a request is charged with. -/
def charge (r : AdminRequest) : Option Attempt :=
  if r.verdict.1 = .denied then none
  else if ¬ r.authorized then some ⟨r.actor, .forbidden, r.now⟩
  else if isMutation r.method then some ⟨r.actor, classifyMutation (relative r.path), r.now⟩
  else none

/-- What became of a request. -/
structure Served where
  request : AdminRequest
  answer : Answer
  audit : Option AuditCall

/-- The admin plane: the limiter, which every snapshot shares, and what was served. -/
structure Plane where
  limiter : MutationLimiter
  served : List Served

def Plane.step (p : Plane) (r : AdminRequest) : Plane :=
  let (answer, audit, limiter) := gate p.limiter r
  ⟨limiter, p.served ++ [⟨r, answer, audit⟩]⟩

def Plane.after (requests : List AdminRequest) : Plane := exec Plane.step ⟨MutationLimiter.new, []⟩ requests

theorem Plane.after_snoc (requests : List AdminRequest) (r : AdminRequest) :
    Plane.after (requests ++ [r]) = (Plane.after requests).step r := exec_snoc _ _ _ _

theorem Plane.served_step (p : Plane) (r : AdminRequest) :
    (p.step r).served = p.served ++ [⟨r, (gate p.limiter r).1, (gate p.limiter r).2.1⟩] := rfl

/-- The charge of a request is what the gate asks the limiter for. -/
theorem gate_limiter (l : MutationLimiter) (r : AdminRequest) :
    (gate l r).2.2 = match charge r with
      | some a => (l.check a.principal a.class' a.now).2
      | none => l := by
  unfold gate charge
  by_cases hdenied : r.verdict.1 = .denied
  · rw [if_pos hdenied, if_pos hdenied]
  · rw [if_neg hdenied, if_neg hdenied]
    by_cases hauth : ¬ r.authorized
    · rw [if_pos hauth, if_pos hauth]
      dsimp only
      split <;> rfl
    · rw [if_neg hauth, if_neg hauth]
      split
      · dsimp only
        split <;> rfl
      · rfl

/-- **The limiter of a run** is the limiter of the attempts that its requests are charged with. -/
theorem limiter_after (requests : List AdminRequest) :
    (Plane.after requests).limiter = MutationLimiter.after (requests.filterMap charge) := by
  induction requests using List.reverseRecOn with
  | nil => rfl
  | append_singleton requests r ih =>
    rw [Plane.after_snoc]
    change (gate (Plane.after requests).limiter r).2.2 = _
    rw [gate_limiter, List.filterMap_append, ih]
    cases hcharge : charge r with
    | none =>
      rw [List.filterMap_cons_none hcharge, List.filterMap_nil, List.append_nil]
    | some a =>
      rw [List.filterMap_cons_some hcharge, List.filterMap_nil, Admin.after_snoc]

def Answer.isPassed : Answer → Bool
  | passed _ => true
  | _ => false

/-- What a charged request gets, and whether that is recorded. -/
theorem gate_charged (l : MutationLimiter) {r : AdminRequest} {a : Attempt} (h : charge r = some a) :
    (gate l r).1.isPassed = decide ((l.check a.principal a.class' a.now).1 = .admitted ∧ a.class' ≠ .forbidden) ∧
      (gate l r).2.1.isSome = decide ((l.check a.principal a.class' a.now).1 = .denied true) := by
  unfold charge at h
  unfold gate
  by_cases hdenied : r.verdict.1 = .denied
  · rw [if_pos hdenied] at h
    cases h
  · rw [if_neg hdenied] at h ⊢
    by_cases hauth : ¬ r.authorized
    · rw [if_pos hauth] at h ⊢
      cases h
      dsimp only
      split
      · rename_i hfirst
        exact ⟨by simp [Answer.isPassed], by simp [hfirst]⟩
      · rename_i hfirst
        exact ⟨by simp [Answer.isPassed], by simp [hfirst]⟩
    · rw [if_neg hauth] at h ⊢
      split at h
      · rename_i hmutation
        rw [if_pos hmutation]
        cases h
        dsimp only
        have hclass : classifyMutation (relative r.path) ≠ .forbidden := by
          unfold classifyMutation
          split_ifs <;> simp
        split
        · rename_i first hcheck
          rw [hcheck]
          exact ⟨by simp [Answer.isPassed], by cases first <;> simp⟩
        · rename_i hcheck
          rw [hcheck]
          exact ⟨by simp [Answer.isPassed, hclass], by simp⟩
      · cases h

/-! ## A budget over a run -/

/-- The request is charged to the spender in the window. -/
def chargedTo (s : Spender) (window : Nat) (r : AdminRequest) : Bool :=
  (charge r).any (fun a => a.window = window && a.spender = s)

/-- What became of the requests that are charged to the spender in the window. -/
def Plane.budget (requests : List AdminRequest) (s : Spender) (window : Nat) : List Served :=
  (Plane.after requests).served.filter (fun e => chargedTo s window e.request)

theorem charge_now {r : AdminRequest} {a : Attempt} (h : charge r = some a) : a.now = r.now := by
  unfold charge at h
  split_ifs at h
  · cases h
    rfl
  · cases h
    rfl

theorem served_requests (requests : List AdminRequest) :
    (Plane.after requests).served.map Served.request = requests := by
  induction requests using List.reverseRecOn with
  | nil => rfl
  | append_singleton requests r ih =>
    rw [Plane.after_snoc, Plane.served_step, List.map_append, ih]
    rfl

/-- As many requests are served as there are attempts. -/
theorem length_budget (requests : List AdminRequest) (s : Spender) (window : Nat) :
    (Plane.budget requests s window).length =
      ((requests.filterMap charge).filter (fun a => a.window = window)).countP (fun a => a.spender = s) := by
  have hrequests : (Plane.budget requests s window).length = requests.countP (chargedTo s window) := by
    unfold Plane.budget
    rw [← List.countP_eq_length_filter]
    conv_rhs => rw [← served_requests requests, List.countP_map]
    rfl
  rw [hrequests, List.countP_filter, List.countP_filterMap]
  refine List.countP_congr fun r _ => ?_
  unfold chargedTo
  cases charge r with
  | none => simp
  | some a => simp [and_comm]

theorem spent_eq_budget {requests : List AdminRequest} (hclock : requests.Pairwise (fun r r' => r.now ≤ r'.now))
    {r : AdminRequest} {a : Attempt} (hcharge : charge r = some a) (hnow : ∀ b ∈ requests, b.now ≤ r.now) :
    spent (requests.filterMap charge) a.window a.spender = (Plane.budget requests a.spender a.window).length := by
  have hattempts : (requests.filterMap charge).Pairwise (fun a b => a.now ≤ b.now) :=
    List.Pairwise.filterMap charge
      (fun b b' hle x hx y hy => by rw [charge_now hx, charge_now hy]; exact hle) hclock
  have hlast : ∀ b ∈ requests.filterMap charge, b.now ≤ a.now := by
    intro b hb
    obtain ⟨b', hmem, hb'⟩ := List.mem_filterMap.1 hb
    rw [charge_now hb', charge_now hcharge]
    exact hnow b' hmem
  rw [length_budget]
  unfold spent
  rw [Attempt.window, spell_eq_filter hattempts hlast]

theorem budget_snoc (requests : List AdminRequest) (r : AdminRequest) (s : Spender) (window : Nat) :
    Plane.budget (requests ++ [r]) s window =
      Plane.budget requests s window ++
        if chargedTo s window r then
          [⟨r, (gate (Plane.after requests).limiter r).1, (gate (Plane.after requests).limiter r).2.1⟩]
        else [] := by
  unfold Plane.budget
  rw [Plane.after_snoc, Plane.served_step, List.filter_append, List.filter_cons, List.filter_nil]

theorem passed_succ (limit n : Nat) :
    List.replicate (min n limit) true ++ List.replicate (n - limit) false ++ [decide (n < limit)] =
      List.replicate (min (n + 1) limit) true ++ List.replicate (n + 1 - limit) false := by
  by_cases h : n < limit
  · have hmin : min n limit = n := by omega
    have hmin' : min (n + 1) limit = n + 1 := by omega
    have hsub : n - limit = 0 := by omega
    have hsub' : n + 1 - limit = 0 := by omega
    rw [hmin, hmin', hsub, hsub', decide_eq_true h, List.replicate_succ']
    simp
  · have hmin : min n limit = limit := by omega
    have hmin' : min (n + 1) limit = limit := by omega
    have hsub : n + 1 - limit = n - limit + 1 := by omega
    rw [hmin, hmin', hsub, decide_eq_false h, List.replicate_succ', List.append_assoc]

theorem recorded_succ (limit n : Nat) :
    (n - limit + (2 ^ 32 - 1)) / 2 ^ 32 + (if verdict limit n = .denied true then 1 else 0) =
      (n + 1 - limit + (2 ^ 32 - 1)) / 2 ^ 32 := by
  unfold verdict
  by_cases h : n < limit
  · simp only [h, ↓reduceIte, reduceCtorEq]
    omega
  · simp only [h, ↓reduceIte, RateCheck.denied.injEq, decide_eq_true_eq]
    split <;> omega

theorem verdict_admitted (c : MutationClass) (n : Nat) :
    (verdict c.limit n = .admitted ∧ c ≠ .forbidden) ↔ n < c.limit := by
  unfold verdict
  by_cases h : n < c.limit
  · have hclass : c ≠ .forbidden := by
      rintro rfl
      exact Nat.not_lt_zero n h
    simp [h, hclass]
  · simp [h]

/-- **A budget over a run of requests**, under a clock that does not run back. Of the requests that are charged to a principal
and a class within one minute, as many pass as the class allows, and they are the ones that came first; of the others one in
2³² is recorded, which is the first. -/
theorem budget_kept (requests : List AdminRequest) (hclock : requests.Pairwise (fun r r' => r.now ≤ r'.now)) (s : Spender)
    (window : Nat) :
    (Plane.budget requests s window).map (fun e => e.answer.isPassed) =
        List.replicate (min (Plane.budget requests s window).length s.2.limit) true ++
          List.replicate ((Plane.budget requests s window).length - s.2.limit) false ∧
      (Plane.budget requests s window).countP (fun e => e.audit.isSome) =
        ((Plane.budget requests s window).length - s.2.limit + (2 ^ 32 - 1)) / 2 ^ 32 := by
  induction requests using List.reverseRecOn with
  | nil =>
    refine ⟨?_, ?_⟩
    · simp [Plane.budget, Plane.after]
    · simp [Plane.budget, Plane.after]
  | append_singleton requests r ih =>
    rw [List.pairwise_append] at hclock
    obtain ⟨hpassed, hrecorded⟩ := ih hclock.1
    rw [budget_snoc]
    by_cases hto : chargedTo s window r
    · rw [if_pos hto]
      cases hcharge : charge r with
      | none =>
        rw [chargedTo, hcharge] at hto
        cases hto
      | some a =>
        rw [chargedTo, hcharge, Option.any_some, Bool.and_eq_true, decide_eq_true_eq, decide_eq_true_eq] at hto
        obtain ⟨rfl, rfl⟩ := hto
        have hspent := spent_eq_budget hclock.1 hcharge (fun b hb => hclock.2.2 b hb r (List.mem_singleton.2 rfl))
        have hverdict : ((Plane.after requests).limiter.check a.principal a.class' a.now).1 =
            verdict a.class'.limit (Plane.budget requests a.spender a.window).length := by
          rw [limiter_after, ← hspent]
          exact ((counts_after _).check a).1
        obtain ⟨hanswer, haudit⟩ := gate_charged (Plane.after requests).limiter hcharge
        rw [hverdict] at hanswer haudit
        rw [List.map_append, List.countP_append, List.length_append, List.map_singleton, List.countP_singleton,
          List.length_singleton, hpassed, hrecorded, hanswer, haudit]
        rw [decide_eq_decide.2 (verdict_admitted a.class' _)]
        refine ⟨passed_succ a.class'.limit _, ?_⟩
        simp only [decide_eq_true_eq]
        exact recorded_succ a.class'.limit _
    · rw [if_neg hto, List.append_nil]
      exact ⟨hpassed, hrecorded⟩

/-- A restart through the open posture. -/
def restartRequest : AdminRequest where
  method := .post
  path := "/api/v1/admin/restart"
  app := tokenApp.toAdminApp
  verdict := (.anyone, none)
  now := 61

/-- Eleven restarts in one minute: ten pass, and the last one is refused and recorded. -/
theorem budget_kept_restarts :
    (Plane.budget (List.replicate 11 restartRequest) ("anonymous", .config) 60).map (fun e => e.answer.isPassed) =
        List.replicate 10 true ++ List.replicate 1 false ∧
      (Plane.budget (List.replicate 11 restartRequest) ("anonymous", .config) 60).countP (fun e => e.audit.isSome) = 1 := by
  have hlength : (Plane.budget (List.replicate 11 restartRequest) ("anonymous", .config) 60).length = 11 := by
    decide +kernel
  have hkept := budget_kept (List.replicate 11 restartRequest)
    (List.pairwise_replicate.2 (.inr (Nat.le_refl _))) ("anonymous", .config) 60
  rw [hlength] at hkept
  exact hkept

end Busbar.Admin
