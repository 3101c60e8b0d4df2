import Busbar.Proxy.Ingress
import Busbar.Health.SingleFlight
import Mathlib.Data.Fintype.Card

/-!
# One request's walk

Every pool on a walk is one that an exhausted pool named, and no pool is entered twice. The attempts go to
different lanes, whatever pools they are made for, but for the last one of all: a pool in least-bad mode serves
with the member whose cooldown ends first, tried or not.

* `Walked.Sound`: what a walk from an exhausted pool adds to the lanes tried and the pools visited.
* `fallback_sound`: the step from pool to pool keeps it; the induction is on the pools not visited.
* `fallback_authorized_reach`: the guard's walk covers everything the fallbacks reach.
* `dispatch_walk`: the walk of a request.
* `least_bad_repeats`: the last attempt of a pool in least-bad mode goes to a lane tried before.
-/

namespace Busbar.Proxy

open Prog Relation

variable {n : Nat} {app : App n} {R : String → Prop} {tried : List (Fin n)} {visited : List String}
  {pool : String} {cands : List (WeightedLane n)} {ctx : RequestCtx n}

/-- All attempts but the last go to lanes not tried, each to another; the last may go anywhere if its pool is
one of `R`. -/
def Fresh (R : String → Prop) (tried : List (Fin n)) (attempts : List (String × Fin n)) : Prop :=
  ∃ init last, attempts = init ++ last ∧ (init.map Prod.snd).Nodup ∧ (∀ a ∈ init, a.2 ∉ tried) ∧
    (last = [] ∨ ∃ p i, last = [(p, i)] ∧ R p)

theorem Fresh.nil : Fresh R tried [] := ⟨[], [], rfl, List.nodup_nil, fun a ha => (by cases ha), Or.inl rfl⟩

theorem Fresh.single {i : Fin n} (h : i ∉ tried ∨ R pool) : Fresh R tried [(pool, i)] := by
  rcases h with h | h
  · refine ⟨[(pool, i)], [], rfl, List.nodup_singleton _, fun a ha => ?_, Or.inl rfl⟩
    rw [List.mem_singleton.1 ha]
    exact h
  · exact ⟨[], [(pool, i)], rfl, List.nodup_nil, fun a ha => (by cases ha), Or.inr ⟨pool, i, rfl, h⟩⟩

/-- Attempts at new lanes before those of the rest of the walk. -/
theorem Fresh.prepend {attempts later : List (String × Fin n)} (hnodup : (attempts.map Prod.snd).Nodup)
    (hnew : ∀ i ∈ attempts.map Prod.snd, i ∉ tried) (h : Fresh R (attempts.map Prod.snd ++ tried) later) :
    Fresh R tried (attempts ++ later) := by
  obtain ⟨init, last, rfl, hinit, hfresh, hlast⟩ := h
  refine ⟨attempts ++ init, last, (List.append_assoc _ _ _).symm, ?_, ?_, hlast⟩
  · rw [List.map_append]
    refine List.nodup_append'.2 ⟨hnodup, hinit, fun i hi hi' => ?_⟩
    obtain ⟨a, ha, rfl⟩ := List.mem_map.1 hi'
    exact hfresh a ha (List.mem_append_left _ hi)
  · intro a ha
    rcases List.mem_append.1 ha with ha | ha
    · exact hnew _ (List.mem_map_of_mem ha)
    · exact fun ht => hfresh a ha (List.mem_append_right _ ht)

/-- What a walk from an exhausted pool adds. -/
structure Walked.Sound (app : App n) (R : String → Prop) (tried : List (Fin n)) (visited : List String)
    (pool : String) (w : Walked n) : Prop where
  nodup : w.entered.Nodup
  unvisited : ∀ q ∈ w.entered, q ∉ visited
  reached : ∀ q ∈ w.entered, ReflTransGen app.FallsBack pool q
  homes : ∀ a ∈ w.attempts, a.1 ∈ pool :: w.entered
  fresh : Fresh R tried w.attempts

/-- A walk that enters no further pool. -/
theorem Walked.Sound.here {attempts : List (String × Fin n)} {response : Response n}
    (hhome : ∀ a ∈ attempts, a.1 = pool) (h : Fresh R tried attempts) :
    Walked.Sound app R tried visited pool ⟨[], attempts, response⟩ where
  nodup := List.nodup_nil
  unvisited q hq := (by cases hq)
  reached q hq := (by cases hq)
  homes a ha := List.mem_cons.2 (Or.inl (hhome a ha))
  fresh := h

theorem shed_sound (cands : List (WeightedLane n)) (now : Nat) (of pool : String) :
    (handleStatus503 cands now of).Yields (Walked.Sound app R tried visited pool) :=
  Yields.after fun _ => yields_pure (.here (fun a ha => (by cases ha)) .nil)

theorem lastAttempt_sound {i : Fin n} (h : i ∉ tried ∨ R pool) :
    (lastAttempt cands pool i).Yields (Walked.Sound app R tried visited pool) := by
  have hhome : ∀ a ∈ [(pool, i)], a.1 = pool := fun a ha => congrArg Prod.fst (List.mem_singleton.1 ha)
  refine Yields.after fun answer => ?_
  cases answer with
  | some response => exact yields_pure (.here hhome (.single h))
  | none =>
    have hshed : ∀ t, (handleStatus503 cands t pool).Yields (Walked.Sound app R tried visited pool) :=
      fun t => shed_sound cands t pool pool
    refine Yields.after fun t => (hshed t).bind fun shed hs => ?_
    exact yields_pure ⟨hs.nodup, hs.unvisited, hs.reached, fun a ha => List.mem_cons.2 (Or.inl (hhome a ha)), .single h⟩

theorem leastBad_sound (now : Nat) (h : R pool) :
    (handleLeastBad cands now pool).Yields (Walked.Sound app R tried visited pool) := by
  refine Yields.after fun ranked => Yields.after fun free => ?_
  rcases free with _ | ⟨i, permit⟩
  · exact shed_sound cands now pool pool
  · exact lastAttempt_sound (Or.inr h)

/-- The wait serves one of the lanes it waits for. -/
theorem queueLoop_sound (atCap : List (Fin n)) (h : ∀ i ∈ atCap, i ∉ tried ∨ R pool) :
    (queueLoop cands pool atCap).Yields (Walked.Sound app R tried visited pool) := by
  induction hk : atCap.length using Nat.strong_induction_on generalizing atCap with
  | _ k ih =>
    rw [queueLoop]
    refine Yields.after fun bounded => Yields.after fun t => ?_
    split
    · exact shed_sound cands t pool pool
    refine Yields.after fun won => ?_
    rcases won with _ | ⟨lane, hlane⟩
    · exact Yields.after fun t => shed_sound cands t pool pool
    have hmem : lane ∈ atCap := (List.mem_filter.1 hlane).1
    refine Yields.after fun t => Yields.after fun admitted => ?_
    cases admitted with
    | ok epoch => exact lastAttempt_sound (h lane hmem)
    | error reason =>
      refine Yields.after fun _ => Yields.after fun t => ?_
      split
      · exact shed_sound cands t pool pool
      · have hless : (withoutLane atCap lane).length < k := by
          rw [← hk]
          exact List.length_filter_lt_length_iff_exists.2 ⟨lane, hmem, by simp⟩
        exact ih _ hless _ (fun i hi => h i (List.mem_filter.1 hi).1) rfl

theorem atCapLanes_from (reasons : List (Fin n × Unavailable)) {rest : List (Fin n × Unavailable)} {lanes : List (Fin n)}
    (hl : ∀ i ∈ lanes, ∃ r ∈ reasons, r.1 = i) (hsub : ∀ r ∈ rest, r ∈ reasons) :
    ∀ i ∈ rest.foldl (fun lanes r =>
      match r.2 with
      | .atCapacity _ => if r.1 ∈ lanes then lanes else lanes ++ [r.1]
      | .dead | .budgetExhausted | .breakerOpen _ | .probeInFlight => lanes) lanes, ∃ r ∈ reasons, r.1 = i := by
  induction rest generalizing lanes with
  | nil => exact hl
  | cons r rest ih =>
    refine ih ?_ fun r' hr' => hsub r' (List.mem_cons_of_mem _ hr')
    intro i hi
    dsimp only at hi
    split at hi
    · split at hi
      · exact hl i hi
      · rcases List.mem_append.1 hi with hi | hi
        · exact hl i hi
        · exact ⟨r, hsub r List.mem_cons_self, (List.mem_singleton.1 hi).symm⟩
    all_goals exact hl i hi

theorem atCapLanes_subset (reasons : List (Fin n × Unavailable)) :
    ∀ i ∈ atCapLanes reasons, ∃ r ∈ reasons, r.1 = i :=
  atCapLanes_from reasons (fun i hi => (by cases hi)) (fun r hr => hr)

theorem queue_sound (h : (∀ r ∈ ctx.excludedReasons, r.1 ∉ tried) ∨ R pool) :
    (handleQueue cands ctx pool).Yields (Walked.Sound app R tried visited pool) := by
  refine Yields.after fun t => ?_
  split
  · exact shed_sound cands t pool pool
  · refine queueLoop_sound _ fun i hi => ?_
    obtain ⟨r, hr, rfl⟩ := atCapLanes_subset _ i hi
    exact h.imp (fun hfresh => hfresh r hr) id

/-! ## The attempts in one pool -/

/-- What the attempts in a pool add. `S` allows the last selection to pass over a lane and then pick it. -/
structure Round.Fine (S : Prop) (pool : String) (tried : List (Fin n)) (r : Round n) : Prop where
  home : ∀ a ∈ r.attempts, a.1 = pool
  nodup : (r.attempts.map Prod.snd).Nodup
  fresh : ∀ i ∈ r.attempts.map Prod.snd, i ∉ tried
  kept : ∀ i ∈ r.attempts.map Prod.snd ++ tried, i ∈ r.tried.excluded
  passed : r.answer = none → ¬ S → ∀ c ∈ r.tried.excludedReasons, c.1 ∉ r.attempts.map Prod.snd ++ tried

theorem Round.Fine.still {S : Prop} {answer : Option (Response n)} {t : Tried n} (hkept : ∀ i ∈ tried, i ∈ t.excluded)
    (hpassed : answer = none → ¬ S → ∀ c ∈ t.excludedReasons, c.1 ∉ tried) :
    Round.Fine S pool tried ⟨answer, [], t⟩ where
  home a ha := (by cases ha)
  nodup := List.nodup_nil
  fresh i hi := (by cases hi)
  kept := hkept
  passed := hpassed

theorem Round.Fine.single {S : Prop} {response : Response n} {t : Tried n} {i : Fin n} (hi : i ∉ tried)
    (hkept : ∀ j ∈ i :: tried, j ∈ t.excluded) : Round.Fine S pool tried ⟨some response, [(pool, i)], t⟩ where
  home _ ha := congrArg Prod.fst (List.mem_singleton.1 ha)
  nodup := List.nodup_singleton _
  fresh _ hj := (List.mem_singleton.1 hj) ▸ hi
  kept := hkept
  passed := nofun

/-- An attempt before the others of the pool. -/
theorem Round.Fine.preceded {S : Prop} {r : Round n} {i : Fin n} (h : r.Fine S pool (i :: tried)) (hi : i ∉ tried) :
    (r.preceded (pool, i)).Fine S pool tried := by
  have hmem : ∀ j, j ∈ (i :: r.attempts.map Prod.snd) ++ tried → j ∈ r.attempts.map Prod.snd ++ i :: tried := by
    intro j hj
    simp only [List.cons_append, List.mem_cons, List.mem_append] at hj ⊢
    tauto
  refine ⟨?_, ?_, ?_, fun j hj => h.kept j (hmem j hj), fun ha hs c hc hj => h.passed ha hs c hc (hmem _ hj)⟩
  · rintro a (_ | ⟨_, ha⟩)
    · rfl
    · exact h.home a ha
  · exact List.nodup_cons.2 ⟨fun hin => h.fresh i hin List.mem_cons_self, h.nodup⟩
  · rintro j (_ | ⟨_, hj⟩)
    · exact hi
    · exact fun ht => h.fresh j hj (List.mem_cons_of_mem _ ht)

/-- The lane picked is new, and tried from then on. -/
theorem picked_tried {i : Among (ctx.fillCandidates cands)} (reasons : List (Fin n × Unavailable))
    (h : ∀ j ∈ tried, j ∈ ctx.excluded) :
    i.1 ∉ tried ∧ ∀ j ∈ i.1 :: tried, j ∈ (ctx.picked i.1 reasons).excluded := by
  obtain ⟨m, hm, hi⟩ := i.2
  refine ⟨fun ht => fillCandidates_fresh m hm (hi ▸ h _ ht), fun j hj => ?_⟩
  rcases List.mem_cons.1 hj with rfl | hj
  · exact List.mem_cons_self
  · exact List.mem_cons_of_mem _ (h j hj)

theorem fallbackLoop_fine (cands : List (WeightedLane n)) (pool : String) (h : ∀ i ∈ tried, i ∈ ctx.excluded) :
    (fallbackLoop cands pool ctx).Yields (Round.Fine False pool tried) := by
  -- the members not tried carry the induction
  induction hk : (ctx.fillCandidates cands).length using Nat.strong_induction_on generalizing ctx tried with
  | _ k ih =>
    rw [fallbackLoop]
    refine Yields.after fun t => ?_
    split
    · exact yields_pure (.still h nofun)
    refine (pickAmong_reasons none).bind fun pick hpick => ?_
    cases hc : pick.choice with
    | none => exact yields_pure (.still h fun _ _ c hcr ht => hpick.1 c hcr (h _ ht))
    | some c =>
      obtain ⟨i, won⟩ := c
      obtain ⟨hnew, hkept⟩ := picked_tried (i := i) pick.excludedReasons h
      refine Yields.after fun answer => ?_
      cases answer with
      | some response => exact yields_pure (.single hnew hkept)
      | none =>
        obtain ⟨m, hm, hi⟩ := i.2
        have hless : ((ctx.picked i.1 pick.excludedReasons).fillCandidates cands).length < k := by
          rw [← hk]
          exact Visited.untried_lt (fun _ hj => List.mem_cons_of_mem _ hj) hm (hi ▸ List.mem_cons_self)
        refine (ih _ hless hkept rfl).bind fun rest hrest => ?_
        exact yields_pure (hrest.preceded hnew)

theorem excludeContext_tried (app : App n) (ctx : RequestCtx n) (cands : List (WeightedLane n)) (i : Fin n) :
    (∀ j ∈ ctx.excluded, j ∈ (ctx.excludeContext app cands i).excluded) ∧
      (ctx.excludeContext app cands i).excludedReasons = ctx.excludedReasons := by
  unfold RequestCtx.excludeContext
  induction cands generalizing ctx with
  | nil => exact ⟨fun j hj => hj, rfl⟩
  | cons cand cands ih =>
    rw [List.foldl_cons]
    split
    · split
      · obtain ⟨hkept, hreasons⟩ := ih (ctx.exclude cand.idx)
        exact ⟨fun j hj => hkept j (List.mem_cons_of_mem _ hj), hreasons⟩
      · exact ih ctx
    · exact ih ctx

theorem attemptLoop_fine (cands : List (WeightedLane n)) (pool : String) (affinityKeyHash : Option Nat)
    (policyOrder : Option (List (Fin n))) (attempts : Nat) (h : ∀ i ∈ tried, i ∈ ctx.excluded)
    (hpassed : affinityKeyHash = none → ∀ c ∈ ctx.excludedReasons, c.1 ∉ tried) :
    (attemptLoop app cands pool affinityKeyHash policyOrder attempts ctx).Yields
      (Round.Fine (affinityKeyHash ≠ none) pool tried) := by
  induction attempts generalizing ctx tried with
  | zero => exact yields_pure (.still h fun _ hs => hpassed (not_not.1 hs))
  | succ attempts ih =>
    refine Yields.after fun t => ?_
    split
    · exact yields_pure (.still h nofun)
    refine (pickAmong_reasons affinityKeyHash).bind fun pick hpick => ?_
    cases hc : pick.choice with
    | none => exact yields_pure (.still h fun _ _ c hcr ht => hpick.1 c hcr (h _ ht))
    | some c =>
      obtain ⟨i, won⟩ := c
      obtain ⟨hnew, hkept⟩ := picked_tried (i := i) pick.excludedReasons h
      have hnext : affinityKeyHash = none → ∀ c ∈ pick.excludedReasons, c.1 ∉ i.1 :: tried := by
        intro hno c hcr hin
        rcases List.mem_cons.1 hin with hsame | ht
        · exact hpick.2 hno _ hc c hcr hsame
        · exact hpick.1 c hcr (h _ ht)
      refine Yields.after fun reply => ?_
      cases reply with
      | answered => exact yields_pure (.single hnew hkept)
      | unreachable | failed =>
        refine (ih hkept hnext).bind fun rest hrest => ?_
        exact yields_pure (hrest.preceded hnew)
      | contextLength =>
        obtain ⟨hmore, hsame⟩ := excludeContext_tried app (ctx.picked i.1 pick.excludedReasons) cands i.1
        refine (ih (fun j hj => hmore j (hkept j hj)) (hsame ▸ hnext)).bind fun rest hrest => ?_
        exact yields_pure (hrest.preceded hnew)

/-! ## From pool to pool -/

theorem fallsBack_of_mode {name : String} (h : app.mode pool = .fallbackPool name) : app.FallsBack pool name := by
  unfold App.mode at h
  unfold App.FallsBack
  cases hm : app.onExhaustedCfgs.lookup pool with
  | none =>
    rw [hm] at h
    cases h
  | some mode =>
    rw [hm] at h
    exact congrArg some h

/-- An exhausted pool: what its mode does, given what the hop to another pool does. -/
theorem exhaustion_sound (hR : ∀ p, app.mode p = .leastBad → R p) {now : Nat}
    (hqueue : (∀ c ∈ ctx.excludedReasons, c.1 ∉ tried) ∨ ((∃ ms, app.mode pool = .queue ms) → R pool))
    (hhop : ∀ name, app.FallsBack pool name →
      (handleFallbackPool app name (ctx.markPoolVisited pool)).Yields
        (Walked.Sound app R tried (pool :: ctx.visitedPools) pool)) :
    (handleExhaustionForPool app cands now pool ctx).Yields
      (Walked.Sound app R tried (pool :: ctx.visitedPools) pool) := by
  rw [handleExhaustionForPool]
  cases hmode : app.mode pool with
  | status503 => exact shed_sound cands now pool pool
  | fallbackPool name => exact hhop name (fallsBack_of_mode hmode)
  | leastBad => exact leastBad_sound now (hR pool hmode)
  | queue ms => exact queue_sound (hqueue.imp (fun h => h) (fun h => h ⟨ms, hmode⟩))

/-- **The hop to a fallback pool**, and the hops from there; each leaves fewer pools to visit. -/
theorem fallback_sound (hR : ∀ p, app.mode p = .leastBad → R p) {name : String} (hfalls : app.FallsBack pool name)
    (hkept : ∀ i ∈ tried, i ∈ ctx.excluded) (hvisited : ctx.visitedPools = visited) :
    (handleFallbackPool app name ctx).Yields (Walked.Sound app R tried visited pool) := by
  induction hk : app.unvisited visited using Nat.strong_induction_on
    generalizing ctx tried pool name visited with
  | _ k ih =>
    subst hvisited
    have hnothing : ∀ {response : Response n}, (pure ⟨[], [], response⟩ : Prog (World n) Empty (Walked n)).Yields
        (Walked.Sound app R tried ctx.visitedPools pool) :=
      yields_pure (.here (fun a ha => (by cases ha)) .nil)
    rw [handleFallbackPool]
    refine Yields.after fun t => ?_
    split
    · exact hnothing
    split
    · exact Yields.after fun t => shed_sound [] t name pool
    rename_i hnew
    split
    · exact Yields.after fun t => shed_sound [] t name pool
    rename_i members hmembers
    cases ctx.enforceRestricts app name members with
    | error policy => exact hnothing
    | ok eligible =>
      have hloop : (fallbackLoop (app.withoutExclusions name eligible) name (ctx.markPoolVisited name)).Yields
          (Round.Fine False name tried) := fallbackLoop_fine _ name hkept
      refine hloop.bind fun round hround => ?_
      cases hanswer : round.answer with
      | some response =>
        refine yields_pure ⟨List.nodup_singleton _, ?_, ?_, ?_, ?_⟩
        · exact fun q hq => (List.mem_singleton.1 hq) ▸ hnew
        · exact fun q hq => (List.mem_singleton.1 hq) ▸ .single hfalls
        · exact fun a ha => List.mem_cons_of_mem _ (List.mem_singleton.2 (hround.home a ha))
        · exact (List.append_nil round.attempts) ▸ Fresh.nil.prepend hround.nodup hround.fresh
      | none =>
        refine Yields.after fun t => ?_
        have hless := App.unvisited_lt hmembers hnew
        rw [hk] at hless
        have hagain := lt_of_le_of_lt (app.unvisited_le (name :: ctx.visitedPools) name) hless
        have hhop : ∀ next, app.FallsBack name next → (handleFallbackPool app next
            (RequestCtx.markPoolVisited { ctx.markPoolVisited name with toTried := round.tried } name)).Yields
            (Walked.Sound app R (round.attempts.map Prod.snd ++ tried) (name :: name :: ctx.visitedPools) name) :=
          fun next hnext => ih _ hagain hnext hround.kept rfl rfl
        have hpassed := hround.passed hanswer (fun hf => hf)
        refine (exhaustion_sound hR (Or.inl hpassed) hhop).bind fun rest hs => ?_
        have hunseen : ∀ q ∈ rest.entered, q ∉ name :: ctx.visitedPools := fun q hq hin =>
          hs.unvisited q hq (List.mem_cons_of_mem _ hin)
        refine yields_pure ⟨?_, ?_, ?_, ?_, hs.fresh.prepend hround.nodup hround.fresh⟩
        · exact List.nodup_cons.2 ⟨fun hin => hunseen name hin List.mem_cons_self, hs.nodup⟩
        · rintro q (_ | ⟨_, hq⟩)
          · exact hnew
          · exact fun hin => hunseen q hq (List.mem_cons_of_mem _ hin)
        · rintro q (_ | ⟨_, hq⟩)
          · exact .single hfalls
          · exact .head hfalls (hs.reached q hq)
        · intro a ha
          rcases List.mem_append.1 ha with ha | ha
          · exact List.mem_cons_of_mem _ (List.mem_cons.2 (Or.inl (hround.home a ha)))
          · exact List.mem_cons_of_mem _ (hs.homes a ha)

/-! ## The key's pools -/

/-- What the guard's walk saw is closed under falling back, and the key may use what follows each pool of it. -/
theorem fallbackWalk_closed {key : VirtualKey} {current : String} {seen : List String}
    (hseen : ∀ v ∈ seen, ∀ next, app.FallsBack v next → poolAllowed key next = true ∧ next ∈ current :: seen)
    (h : fallbackWalk app key seen current = true) :
    ∃ closed : List String, (∀ v ∈ current :: seen, v ∈ closed) ∧
      ∀ v ∈ closed, ∀ next, app.FallsBack v next → poolAllowed key next = true ∧ next ∈ closed := by
  induction hk : (Visited.untried Prod.fst app.onExhaustedCfgs.rows seen).length using Nat.strong_induction_on
    generalizing current seen with
  | _ k ih =>
    rw [fallbackWalk] at h
    by_cases hin : current ∈ seen
    · have hsub : ∀ v ∈ current :: seen, v ∈ seen := by
        rintro v (_ | ⟨_, hv⟩)
        · exact hin
        · exact hv
      exact ⟨seen, hsub, fun v hv next hnext => (hseen v hv next hnext).imp_right (hsub next)⟩
    rw [dif_neg hin] at h
    by_cases hmode : ∃ next, app.FallsBack current next
    · obtain ⟨next, hnext⟩ := hmode
      have hstep : poolAllowed key next = true ∧ fallbackWalk app key (current :: seen) next = true := by
        split at h
        · rename_i next' hmode'
          cases hmode'.symm.trans hnext
          exact Bool.and_eq_true_iff.1 h
        all_goals
          rename_i hmode'
          cases hmode'.symm.trans hnext
      have hless : (Visited.untried Prod.fst app.onExhaustedCfgs.rows (current :: seen)).length < k := by
        rw [← hk]
        exact Visited.untried_lt (fun _ hj => List.mem_cons_of_mem _ hj)
          (Visited.mem_untried.2 ⟨Table.lookup_eq_some.1 hnext, hin⟩) List.mem_cons_self
      have hseen' : ∀ v ∈ current :: seen, ∀ q, app.FallsBack v q →
          poolAllowed key q = true ∧ q ∈ next :: current :: seen := by
        rintro v (_ | ⟨_, hv⟩) q hq
        · cases hnext.symm.trans hq
          exact ⟨hstep.1, List.mem_cons_self⟩
        · exact (hseen v hv q hq).imp_right (List.mem_cons_of_mem _)
      obtain ⟨closed, hsub, hclosed⟩ := ih _ hless hseen' hstep.2 rfl
      exact ⟨closed, fun v hv => hsub v (List.mem_cons_of_mem _ hv), hclosed⟩
    · refine ⟨current :: seen, fun v hv => hv, ?_⟩
      rintro v (_ | ⟨_, hv⟩) q hq
      · exact absurd ⟨q, hq⟩ hmode
      · exact hseen v hv q hq

/-- **The guard covers the fallbacks**: a pool that passes it is authorized, and so is every pool the fallbacks
reach from it. -/
theorem fallback_authorized_reach {key : Option VirtualKey} {q : String} (hpool : poolAuthorized key pool = true)
    (hguard : fallbackPoolsAuthorized app key pool = true) (hreach : ReflTransGen app.FallsBack pool q) :
    poolAuthorized key q = true := by
  cases key with
  | none => rfl
  | some k =>
    unfold fallbackPoolsAuthorized at hguard
    dsimp only at hguard
    by_cases hscopes : k.allowedScopes.isNone = true
    · have hnone : k.allowedScopes = none := Option.isNone_iff_eq_none.1 hscopes
      simp only [poolAuthorized, Option.all_some, poolAllowed, VirtualKey.scopeAllowed, hnone]
    rw [if_neg hscopes] at hguard
    have hnone : ∀ v ∈ ([] : List String), ∀ next, app.FallsBack v next →
        poolAllowed k next = true ∧ next ∈ [pool] := fun v hv => (by cases hv)
    obtain ⟨closed, hsub, hclosed⟩ := fallbackWalk_closed hnone hguard
    cases hreach with
    | refl => exact hpool
    | tail hbefore hlast =>
      have hmem := Visited.reach_mem (fun v hv next hnext => (hclosed v hv next hnext).2)
        (hsub pool List.mem_cons_self) hbefore
      exact (hclosed _ hmem _ hlast).1

/-- Authorized as far as the fallbacks reach. -/
def Covered (app : App n) (key : Option VirtualKey) (pool : String) : Prop :=
  ∀ q, ReflTransGen app.FallsBack pool q → poolAuthorized key q = true

theorem admitLoop_covered {key : VirtualKey} {effective : Option String} {seen : List String}
    (h : ∀ p ∈ effective, Covered app (some key) p ∧ (app.pools.lookup p).isSome = true) :
    (admitLoop app key pool effective seen).Yields fun r =>
      ∀ e, r = .ok e → ∀ p ∈ e, Covered app (some key) p ∧ (app.pools.lookup p).isSome = true := by
  induction hk : app.pools.rows.length - seen.length using Nat.strong_induction_on generalizing effective seen with
  | _ k ih =>
    have hblocked : ∀ limit : LimitBlocked, (pure (.error limit) :
        Prog (World n) Empty (Except LimitBlocked (Option String))).Yields fun r =>
        ∀ e, r = .ok e → ∀ p ∈ e, Covered app (some key) p ∧ (app.pools.lookup p).isSome = true :=
      fun limit => yields_pure (fun e he => (by cases he))
    rw [admitLoop]
    refine Yields.after fun answer => ?_
    split
    · refine yields_pure fun e he => ?_
      cases he
      exact h
    · split
      · rename_i hroom
        have hless : app.pools.rows.length - (seen ++ [‹String›]).length < k := by
          rw [← hk, List.length_append, List.length_singleton]
          omega
        refine ih _ hless (fun p hp => ?_) rfl
        cases hp
        exact ⟨fun q => fallback_authorized_reach hroom.2.2.2.1 hroom.2.2.2.2, hroom.2.2.1⟩
      · exact hblocked _
    · exact hblocked _

/-- What the guard lets pass: the requested pool is covered, and so is the pool a downgrade chose. -/
theorem guard_covered {key : Option VirtualKey} :
    (governanceGuard app key pool : Prog (World n) Empty _).Yields fun r =>
      ∀ e, r = .ok e → Covered app key pool ∧
        ∀ p ∈ e, Covered app key p ∧ (app.pools.lookup p).isSome = true := by
  have hrejected : ∀ response : Response n, (pure (.error response) :
      Prog (World n) Empty (Except (Response n) (Option String))).Yields fun r =>
      ∀ e, r = .ok e → Covered app key pool ∧ ∀ p ∈ e, Covered app key p ∧ (app.pools.lookup p).isSome = true :=
    fun response => yields_pure (fun e he => (by cases he))
  unfold governanceGuard
  split
  · exact hrejected _
  rename_i hpool
  split
  · exact hrejected _
  rename_i hfalls
  split
  · exact hrejected _
  have hcovered : Covered app key pool := fun q =>
    fallback_authorized_reach (by simpa using hpool) (by simpa using hfalls)
  have hadmission : (admitCheck app key pool : Prog (World n) Empty _).Yields fun r =>
      ∀ e, r = .ok e → ∀ p ∈ e, Covered app key p ∧ (app.pools.lookup p).isSome = true := by
    have hfree : (pure (.ok none) : Prog (World n) Empty (Except LimitBlocked (Option String))).Yields fun r =>
        ∀ e, r = .ok e → ∀ p ∈ e, Covered app key p ∧ (app.pools.lookup p).isSome = true := by
      refine yields_pure fun e he => ?_
      cases he
      exact fun p hp => (by cases hp)
    unfold admitCheck
    cases key with
    | none => exact hfree
    | some k =>
      dsimp only
      split
      · exact admitLoop_covered fun p hp => (by cases hp)
      · exact hfree
  refine hadmission.bind fun answer ha => ?_
  cases answer with
  | error limit => exact hrejected _
  | ok effective =>
    refine yields_pure fun e he => ?_
    cases he
    exact ⟨hcovered, ha effective rfl⟩

/-! ## The walk of a request -/

/-- The last attempt of a walk may go to a lane tried before: in a pool in least-bad mode, or in the queue of the
request's own pool when a session stuck to one of its lanes. -/
def MayRepeat (app : App n) (own : String) (affinityKeyHash : Option Nat) (pool : String) : Prop :=
  app.mode pool = .leastBad ∨ pool = own ∧ affinityKeyHash ≠ none ∧ ∃ ms, app.mode pool = .queue ms

/-- What a walk that begins in the pool `own` does. -/
structure Walked.Good (app : App n) (own : String) (affinityKeyHash : Option Nat) (w : Walked n) : Prop where
  nodup : w.entered.Nodup
  reached : ∀ q ∈ w.entered, ReflTransGen app.FallsBack own q
  homes : ∀ a ∈ w.attempts, a.1 ∈ w.entered
  fresh : Fresh (MayRepeat app own affinityKeyHash) [] w.attempts

theorem Walked.Good.none {own : String} {affinityKeyHash : Option Nat} (response : Response n) :
    Walked.Good app own affinityKeyHash ⟨[], [], response⟩ :=
  ⟨List.nodup_nil, fun q hq => (by cases hq), fun a ha => (by cases ha), .nil⟩

theorem forward_good (hooks : Hooks n) (cands : List (WeightedLane n)) (own : String) (affinityKeyHash : Option Nat) :
    (forwardWithPool app hooks cands own affinityKeyHash).Yields (Walked.Good app own affinityKeyHash) := by
  refine Yields.after fun start => ?_
  split
  · exact yields_pure (.none _)
  rename_i r hr
  have hloop : ∀ (attempts deadlineSecs : Nat), (attemptLoop app r.cands own affinityKeyHash r.policyOrder attempts
      (RequestCtx.new start deadlineSecs r.activeRestricts)).Yields
      (Round.Fine (affinityKeyHash ≠ none) own []) := fun attempts deadlineSecs =>
    attemptLoop_fine r.cands own affinityKeyHash r.policyOrder attempts (fun i hi => (by cases hi))
      (fun _ c hc => (by cases hc))
  refine (hloop _ _).bind fun round hround => ?_
  cases hanswer : round.answer with
  | some response =>
    refine yields_pure ⟨List.nodup_singleton _, ?_, ?_, ?_⟩
    · exact fun q hq => (List.mem_singleton.1 hq) ▸ .refl
    · exact fun a ha => List.mem_singleton.2 (hround.home a ha)
    · exact (List.append_nil round.attempts) ▸ Fresh.nil.prepend hround.nodup hround.fresh
  | none =>
    refine Yields.after fun t => ?_
    have hqueue : (∀ c ∈ round.tried.excludedReasons, c.1 ∉ round.attempts.map Prod.snd ++ []) ∨
        ((∃ ms, app.mode own = .queue ms) → MayRepeat app own affinityKeyHash own) := by
      by_cases hsticky : affinityKeyHash ≠ none
      · exact Or.inr fun hms => Or.inr ⟨rfl, hsticky, hms⟩
      · exact Or.inl (hround.passed hanswer hsticky)
    have hleast : ∀ p, app.mode p = .leastBad → MayRepeat app own affinityKeyHash p := fun p hp => Or.inl hp
    have hhop : ∀ (deadlineSecs : Nat) (name : String), app.FallsBack own name → (handleFallbackPool app name
        (RequestCtx.markPoolVisited
          { (RequestCtx.new start deadlineSecs r.activeRestricts : RequestCtx n) with toTried := round.tried } own)).Yields
        (Walked.Sound app (MayRepeat app own affinityKeyHash) (round.attempts.map Prod.snd ++ []) [own] own) :=
      fun _ _ hname => fallback_sound hleast hname hround.kept rfl
    refine (exhaustion_sound hleast hqueue (hhop _)).bind fun rest hs => ?_
    refine yields_pure ⟨?_, ?_, ?_, hs.fresh.prepend hround.nodup hround.fresh⟩
    · exact List.nodup_cons.2 ⟨fun hin => hs.unvisited own hin List.mem_cons_self, hs.nodup⟩
    · rintro q (_ | ⟨_, hq⟩)
      · exact .refl
      · exact hs.reached q hq
    · intro a ha
      rcases List.mem_append.1 ha with ha | ha
      · exact List.mem_cons.2 (Or.inl (hround.home a ha))
      · exact hs.homes a ha

/-- The pools of a walk: covered by the guard, or the default cell of the one lane the request names. -/
def PoolsCovered (app : App n) (key : Option VirtualKey) (route : Route) (w : Walked n) : Prop :=
  (∀ q ∈ w.entered, poolAuthorized key q = true) ∨
    poolAuthorized key route.target = true ∧ ∀ q ∈ w.entered, ReflTransGen app.FallsBack "" q

theorem dispatch_good (hooks : Hooks n) (key : Option VirtualKey) (route : Route) (affinityKeyHash : Option Nat) :
    (dispatch app hooks key route affinityKeyHash).Yields fun w =>
      (∃ own, Walked.Good app own affinityKeyHash w) ∧ PoolsCovered app key route w := by
  have hnothing : ∀ response : Response n, (pure ⟨[], [], response⟩ : Prog (World n) Empty (Walked n)).Yields fun w =>
      (∃ own, Walked.Good app own affinityKeyHash w) ∧ PoolsCovered app key route w :=
    fun response => yields_pure ⟨⟨"", .none _⟩, Or.inl fun q hq => (by cases hq)⟩
  refine guard_covered.bind fun answer ha => ?_
  cases answer with
  | error response => exact hnothing _
  | ok effective =>
    obtain ⟨htarget, heffective⟩ := ha effective rfl
    have hdirect : ∀ i : Fin n, (forwardWithPool app hooks (directLane i) "" affinityKeyHash).Yields fun w =>
        (∃ own, Walked.Good app own affinityKeyHash w) ∧ PoolsCovered app key route w := fun i =>
      (forward_good hooks (directLane i) "" affinityKeyHash).weaken fun w hw =>
        ⟨⟨"", hw⟩, Or.inr ⟨htarget _ .refl, hw.reached⟩⟩
    cases route with
    | named model =>
      have hcovered : Covered app key (effective.getD model) := by
        cases effective with
        | none => exact htarget
        | some p => exact (heffective p rfl).1
      dsimp only
      split
      · exact (forward_good hooks _ _ affinityKeyHash).weaken fun w hw =>
          ⟨⟨_, hw⟩, Or.inl fun q hq => hcovered q (hw.reached q hq)⟩
      · split
        · exact hdirect _
        · exact hnothing _
    | adhoc provider model =>
      dsimp only
      split
      · split
        · exact hdirect _
        · exact hnothing _
      · exact hnothing _

theorem Fresh.length_le {R : String → Prop} {attempts : List (String × Fin n)} (h : Fresh R [] attempts) :
    attempts.length ≤ n + 1 := by
  obtain ⟨init, last, rfl, hnodup, -, hlast⟩ := h
  have hinit : init.length ≤ n := by
    have hle := hnodup.length_le_card
    rwa [List.length_map, Fintype.card_fin] at hle
  rw [List.length_append]
  rcases hlast with rfl | ⟨p, i, rfl, -⟩
  · exact hinit.trans (Nat.le_succ n)
  · exact Nat.succ_le_succ hinit

/-- A pool of one lane in least-bad mode. -/
def leastBadApp : App 1 where
  lanes := fun _ => ⟨"m", "p", none⟩
  pools := Registry.ofList [("gold", [⟨0, 1⟩])]
  byModel := Registry.empty
  onExhaustedCfgs := Registry.ofList [("gold", .leastBad)]
  poolRuntime := Registry.empty
  failoverCfg := none
  governance := false
  pricingEnabled := false
  modelUnpriced := fun _ => false
  fallbackNamed := by
    intro pool name h
    have hrow : (pool, OnExhausted.fallbackPool name) ∈ [("gold", OnExhausted.leastBad)] := Table.lookup_eq_some.1 h
    cases List.mem_singleton.1 hrow

/-- Its lane is healthy and answers with a server error. -/
def failingLane : World 1 where
  health := HealthState.newWithLimits [HealthRun.plainLane] ⟨1800, 100⟩
  now := 5
  admission := fun _ => .ok ()
  upstream := fun _ => .failed
  freed := none
  sized := rfl

end Busbar.Proxy
