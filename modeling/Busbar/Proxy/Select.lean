import Busbar.Proxy.Pools

/-!
# Selection inside a pool

`pick_among` prefers the lane a session sticks to, then the first lane of a ranked order, then the weighted
selection; a lane that does not admit the request is passed over for this selection only, with the reason kept
for what the pool does when it is exhausted. No selection returns a lane the request has tried: what it returns
is a candidate that is left.

* `pickAmong`: the selection.
* `pickAmong_reasons`: the reasons name lanes not tried, and without a sticky session not the lane picked.
-/

namespace Busbar.Proxy

open Prog

variable {n : Nat}

/-- The lane picked with its admission, and the lanes passed over. -/
structure Pick (ms : List (WeightedLane n)) where
  choice : Option (Among ms × Admit)
  excludedReasons : List (Fin n × Unavailable)

/-- The first ranked lane that is a candidate, not drained, and ready. -/
def preferredLane (pool : String) (ms : List (WeightedLane n)) (now : Nat) :
    List (Fin n) → Prog (World n) Empty (Option (Among ms))
  | [] => pure none
  | i :: rest =>
    match h : ms.find? (fun m => m.idx = i) with
    | none => preferredLane pool ms now rest
    | some m =>
      -- weight 0 drains the member
      if m.weight = 0 then preferredLane pool ms now rest
      else do
        if ← read (World.readyIn pool i now) then
          pure (some ⟨i, m, List.mem_of_find?_eq_some h, by simpa using List.find?_some h⟩)
        else preferredLane pool ms now rest

def selectLane (pool : String) (ms : List (WeightedLane n)) (policyOrder : Option (List (Fin n))) :
    Prog (World n) Empty (Option (Among ms)) := do
  let t ← read World.now
  match policyOrder with
  | none => call (World.selectWeightedIn pool ms t)
  | some order =>
    match ← preferredLane pool ms t order with
    | some i => pure (some i)
    -- an unranked lane stays reachable
    | none => call (World.selectWeightedIn pool ms t)

/-- The lane the session sticks to, if it is neither drained nor tried. -/
def trySticky (cands : List (WeightedLane n)) (ctx : RequestCtx n) (affinityKeyHash : Option Nat) (pool : String)
    (t : Nat) : Prog (World n) Empty (Pick (ctx.fillCandidates cands)) :=
  match affinityKeyHash with
  | none => pure ⟨none, []⟩
  | some hash =>
    match h : cands[hash % cands.length]? with
    | none => pure ⟨none, []⟩
    | some m =>
      if hm : m.weight ≠ 0 ∧ m.idx ∉ ctx.excluded then do
        match ← call (World.tryAdmit pool m.idx t) with
        | .ok won =>
          pure ⟨some (⟨m.idx, m, Visited.mem_untried.2 ⟨List.mem_of_getElem? h, hm.2⟩, rfl⟩, won), []⟩
        | .error reason => pure ⟨none, [(m.idx, reason)]⟩
      else pure ⟨none, []⟩

/-- The selection among the candidates left; every round that picks no lane passes one over. -/
def pickLoop (fresh : List (WeightedLane n)) (ctx : RequestCtx n) (pool : String)
    (policyOrder : Option (List (Fin n))) (localExcluded : List (Fin n))
    (reasons : List (Fin n × Unavailable)) : Prog (World n) Empty (Pick fresh) := do
  let filtered := Visited.untried WeightedLane.idx fresh localExcluded
  if ctx.expired (← read World.now) then pure ⟨none, reasons⟩
  else if filtered.isEmpty then pure ⟨none, reasons⟩
  else
    match ← selectLane pool filtered policyOrder with
    | none => pure ⟨none, reasons⟩
    | some i =>
      let t ← read World.now
      match ← call (World.tryAdmit pool i.1 t) with
      | .ok won =>
        pure ⟨some (⟨i.1, i.2.imp fun _ hm => ⟨(Visited.mem_untried.1 hm.1).1, hm.2⟩⟩, won), reasons⟩
      | .error reason => pickLoop fresh ctx pool policyOrder (i.1 :: localExcluded) (reasons ++ [(i.1, reason)])
termination_by (Visited.untried WeightedLane.idx fresh localExcluded).length
decreasing_by
  obtain ⟨m, hm, hi⟩ := i.2
  exact Visited.untried_lt (fun _ hk => List.mem_cons_of_mem _ hk) hm (hi ▸ List.mem_cons_self)

def pickAmong (cands : List (WeightedLane n)) (ctx : RequestCtx n) (affinityKeyHash : Option Nat) (pool : String)
    (policyOrder : Option (List (Fin n))) : Prog (World n) Empty (Pick (ctx.fillCandidates cands)) := do
  let t ← read World.now
  let sticky ← trySticky cands ctx affinityKeyHash pool t
  if sticky.choice.isSome then pure sticky
  else pickLoop (ctx.fillCandidates cands) ctx pool policyOrder [] sticky.excludedReasons

/-! ## What a selection passes over -/

variable {cands fresh : List (WeightedLane n)} {ctx : RequestCtx n} {pool : String}
  {policyOrder : Option (List (Fin n))}

/-- The rounds pass over lanes left to try, and never the one they pick. -/
theorem pickLoop_reasons (hfresh : ∀ m ∈ fresh, m.idx ∉ ctx.excluded) (localExcluded : List (Fin n))
    (reasons : List (Fin n × Unavailable)) (hold : ∀ r ∈ reasons, r.1 ∉ ctx.excluded) :
    (pickLoop fresh ctx pool policyOrder localExcluded reasons).Yields fun p =>
      (∀ r ∈ p.excludedReasons, r.1 ∉ ctx.excluded) ∧
      ((∀ r ∈ reasons, r.1 ∈ localExcluded) → ∀ c ∈ p.choice, ∀ r ∈ p.excludedReasons, r.1 ≠ c.1.1) := by
  -- the measure of the loop carries the induction
  induction hk : (Visited.untried WeightedLane.idx fresh localExcluded).length using Nat.strong_induction_on
    generalizing localExcluded reasons with
  | _ k ih =>
    have hnone : (pure ⟨none, reasons⟩ : Prog (World n) Empty (Pick fresh)).Yields fun p =>
        (∀ r ∈ p.excludedReasons, r.1 ∉ ctx.excluded) ∧
        ((∀ r ∈ reasons, r.1 ∈ localExcluded) → ∀ c ∈ p.choice, ∀ r ∈ p.excludedReasons, r.1 ≠ c.1.1) :=
      yields_pure ⟨hold, fun _ c hc => (by cases hc)⟩
    rw [pickLoop]
    refine Yields.after fun t => ?_
    split
    · exact hnone
    split
    · exact hnone
    refine Yields.after fun picked => ?_
    rcases picked with _ | ⟨i, hi⟩
    · exact hnone
    obtain ⟨m, hm, rfl⟩ := id hi
    obtain ⟨hmem, hlocal⟩ := Visited.mem_untried.1 hm
    refine Yields.after fun t' => Yields.after fun admitted => ?_
    cases admitted with
    | ok won =>
      refine yields_pure ⟨hold, fun hin c hc r hr hsame => ?_⟩
      cases hc
      have hsame : r.1 = m.idx := hsame
      exact hlocal (hsame ▸ hin r hr)
    | error reason =>
      have hless : (Visited.untried WeightedLane.idx fresh (m.idx :: localExcluded)).length <
          (Visited.untried WeightedLane.idx fresh localExcluded).length :=
        Visited.untried_lt (fun _ hk => List.mem_cons_of_mem _ hk) hm List.mem_cons_self
      refine (ih _ (hk ▸ hless) (m.idx :: localExcluded) (reasons ++ [(m.idx, reason)]) ?_ rfl).weaken ?_
      · intro r hr
        rcases List.mem_append.1 hr with hr | hr
        · exact hold r hr
        · rw [List.mem_singleton.1 hr]
          exact hfresh m hmem
      · rintro p ⟨hp, happart⟩
        refine ⟨hp, fun hin => happart fun r hr => ?_⟩
        rcases List.mem_append.1 hr with hr | hr
        · exact List.mem_cons_of_mem _ (hin r hr)
        · rw [List.mem_singleton.1 hr]
          exact List.mem_cons_self

theorem fillCandidates_fresh : ∀ m ∈ ctx.fillCandidates cands, m.idx ∉ ctx.excluded :=
  fun _ hm => (Visited.mem_untried.1 hm).2

/-- **The reasons of a selection** are about lanes not tried. Only a sticky session lets it pass over a lane first
and pick it then. -/
theorem pickAmong_reasons (affinityKeyHash : Option Nat) :
    (pickAmong cands ctx affinityKeyHash pool policyOrder).Yields fun p =>
      (∀ r ∈ p.excludedReasons, r.1 ∉ ctx.excluded) ∧
      (affinityKeyHash = none → ∀ c ∈ p.choice, ∀ r ∈ p.excludedReasons, r.1 ≠ c.1.1) := by
  have hsticky : ∀ t, (trySticky cands ctx affinityKeyHash pool t).Yields fun p =>
      (∀ r ∈ p.excludedReasons, r.1 ∉ ctx.excluded) ∧ (affinityKeyHash = none → p.excludedReasons = []) := by
    intro t
    unfold trySticky
    split
    · exact yields_pure ⟨fun r hr => (by cases hr), fun _ => rfl⟩
    split
    · exact yields_pure ⟨fun r hr => (by cases hr), fun _ => rfl⟩
    split
    · rename_i hm
      refine Yields.after fun admitted => ?_
      cases admitted with
      | ok won => exact yields_pure ⟨fun r hr => (by cases hr), fun _ => rfl⟩
      | error reason =>
        refine yields_pure ⟨fun r hr => ?_, nofun⟩
        rw [List.mem_singleton.1 hr]
        exact hm.2
    · exact yields_pure ⟨fun r hr => (by cases hr), fun _ => rfl⟩
  unfold pickAmong
  refine Yields.after fun t => (hsticky t).bind fun sticky hs => ?_
  split
  · refine yields_pure ⟨hs.1, fun hno c _ r hr => ?_⟩
    rw [hs.2 hno] at hr
    cases hr
  · refine (pickLoop_reasons fillCandidates_fresh [] sticky.excludedReasons hs.1).weaken ?_
    rintro p ⟨hp, happart⟩
    refine ⟨hp, fun hno => happart fun r hr => ?_⟩
    rw [hs.2 hno] at hr
    cases hr

end Busbar.Proxy
