import Busbar.Cost.Projection
import Busbar.Governance.Refund

/-!
# Admission calls over runs

An admission is all or nothing, whatever other calls, grant drops and accruals come between its steps: a refused call has
charged no bucket and ends with nothing held, an admitted one has charged each bucket of its plan once and holds every
group's place that the plan asks for. So the gauges are the places that the calls hold, and none is above its cap.

* `AllOrNothing`: what a call has charged and holds, by where it stands.
* `Admissions`: the invariant of a run.
* `all_or_nothing`, `holds_within_caps`: calls and gauges of every run.
-/

namespace Busbar

variable {cost : CostModel}

/-- The buckets that a call's charges went to, in order. -/
def chargedBuckets (k : Nat) (events : List LedgerEvent) : List String :=
  events.filterMap fun
    | .charged k' id _ => if k' = k then some id else none
    | _ => none

/-- The places that calls hold of a group. -/
def heldPlaces (name : String) (calls : List Call) : Nat := (calls.map fun c => c.grant.count name).sum

/-- **All or nothing**: what a call has charged and holds, by where it stands. -/
inductive AllOrNothing (cost : CostModel) (c : Call) (charged : List String) : Prop
  | acquiring (plan : AdmitPlan) (taken holds : List (String × Nat)) (hplan : admitPlan cost c.key c.pool = .ok plan)
      (hbuckets : c.buckets = plan.buckets) (hphase : c.phase = .acquiring holds) (hholds : taken ++ holds = plan.holds)
      (hgrant : c.grant = taken.map Prod.fst) (hcharged : charged = [])
  | admitted (plan : AdmitPlan) (hplan : admitPlan cost c.key c.pool = .ok plan) (hphase : c.phase = .admitted)
      (hgrant : c.grant = plan.holds.map Prod.fst) (hcharged : charged = plan.buckets.map ChainBucket.bucketId)
  | done (plan : AdmitPlan) (hplan : admitPlan cost c.key c.pool = .ok plan)
      (hphase : c.phase = .dropping none ∨ c.phase = .finished none ∧ c.grant = [])
      (hcharged : charged = plan.buckets.map ChainBucket.bucketId)
  | refused (e : LimitBlocked) (hphase : c.phase = .dropping (some e) ∨ c.phase = .finished (some e) ∧ c.grant = [])
      (hcharged : charged = [])

/-- **The invariant**: every call is all or nothing, calls to come have charged nothing, the gauges are the places held, and
none is above its cap. -/
structure Admissions (cost : CostModel) (r : NodeRun) : Prop where
  sound : ∀ k c, r.node.calls[k]? = some c → AllOrNothing cost c (chargedBuckets k r.history)
  fresh : ∀ k, r.node.calls.length ≤ k → chargedBuckets k r.history = []
  gauges : ∀ name, r.node.gauges name = heldPlaces name r.node.calls
  capped : ∀ g ∈ cost.groups, ∀ cap, g.concurrentCap = some cap → r.node.gauges g.name ≤ cap

/-! ## Charges and places -/

theorem chargedBuckets_append (k : Nat) (events events' : List LedgerEvent) :
    chargedBuckets k (events ++ events') = chargedBuckets k events ++ chargedBuckets k events' :=
  List.filterMap_append

/-- A pass charges its buckets for its call. -/
theorem chargedBuckets_pass (k now : Nat) (buckets : List ChainBucket) (cells : Cells) :
    chargedBuckets k (chargeEvents k now cells buckets) = buckets.map ChainBucket.bucketId := by
  induction buckets generalizing cells with
  | nil => rfl
  | cons b bs ih =>
    rw [chargeEvents, chargedBuckets, List.filterMap_cons]
    dsimp only
    rw [if_pos rfl]
    exact congrArg (b.bucketId :: ·) (ih _)

theorem chargedBuckets_other {k k' : Nat} (h : k ≠ k') (now : Nat) (buckets : List ChainBucket) (cells : Cells) :
    chargedBuckets k' (chargeEvents k now cells buckets) = [] := by
  induction buckets generalizing cells with
  | nil => rfl
  | cons b bs ih =>
    rw [chargeEvents, chargedBuckets, List.filterMap_cons]
    dsimp only
    rw [if_neg h]
    exact ih _

theorem heldPlaces_append (name : String) (calls calls' : List Call) :
    heldPlaces name (calls ++ calls') = heldPlaces name calls + heldPlaces name calls' := by
  unfold heldPlaces
  rw [List.map_append, List.sum_append]

/-- A call that moves changes the places held by its own. -/
theorem heldPlaces_set (name : String) {calls : List Call} {k : Nat} {c : Call} (hc : calls[k]? = some c) (c' : Call) :
    heldPlaces name (calls.set k c') + c.grant.count name = heldPlaces name calls + c'.grant.count name := by
  unfold heldPlaces
  induction calls generalizing k with
  | nil => cases hc
  | cons d calls ih =>
    cases k with
    | zero =>
      rw [List.getElem?_cons_zero, Option.some.injEq] at hc
      rw [List.set_cons_zero, List.map_cons, List.map_cons, List.sum_cons, List.sum_cons, hc]
      omega
    | succ k =>
      rw [List.getElem?_cons_succ] at hc
      have hrest := ih hc
      rw [List.set_cons_succ, List.map_cons, List.map_cons, List.sum_cons, List.sum_cons]
      omega

/-! ## Plans -/

/-- The holds of a plan are the caps of groups of the model. -/
theorem plan_holds {key : VirtualKey} {pool : String} {plan : AdmitPlan} (h : admitPlan cost key pool = .ok plan)
    {hold : String × Nat} (hhold : hold ∈ plan.holds) :
    ∃ g ∈ cost.groups, g.name = hold.1 ∧ g.concurrentCap = some hold.2 := by
  unfold admitPlan at h
  split at h
  · cases h
  · rename_i chain hchain
    split at h
    · cases h
    · cases h
      obtain ⟨g, hg, hcap⟩ := List.mem_filterMap.1 hhold
      obtain ⟨i, -, hi⟩ := List.mem_filterMap.1 hg
      obtain ⟨cap, hsome, rfl⟩ := Option.map_eq_some_iff.1 hcap
      exact ⟨g, List.mem_of_getElem? hi, rfl, hsome⟩

theorem allOrNothing_start (cost : CostModel) (key : VirtualKey) (pool : String) (now : Nat) :
    AllOrNothing cost (Call.start cost key pool now) [] ∧ (Call.start cost key pool now).grant = [] := by
  unfold Call.start
  rcases hplan : admitPlan cost key pool with e | plan
  · exact ⟨.refused e (.inr ⟨rfl, rfl⟩) rfl, rfl⟩
  · exact ⟨.acquiring plan [] plan.holds hplan rfl rfl rfl rfl rfl, rfl⟩

/-! ## Steps -/

/-- Only the lock section charges. -/
theorem events_advance {n : Node} {k : Nat} {c : Call} (hc : n.calls[k]? = some c) (hphase : c.phase ≠ .acquiring []) :
    n.events cost (.advance k) = [] := by
  unfold Node.events
  dsimp only
  rw [hc]
  dsimp only
  rw [if_neg fun h => hphase h.1]

namespace Admissions

variable {r : NodeRun}

/-- A step that moves no call, no gauge and charges nothing. -/
theorem quiet (h : Admissions cost r) {op : NodeOp} (hcalls : (r.node.step cost op).calls = r.node.calls)
    (hgauges : (r.node.step cost op).gauges = r.node.gauges)
    (hcharged : ∀ k, chargedBuckets k (r.node.events cost op) = []) : Admissions cost (r.step cost op) := by
  have hhistory : ∀ k, chargedBuckets k (r.step cost op).history = chargedBuckets k r.history := by
    intro k
    show chargedBuckets k (r.history ++ r.node.events cost op) = _
    rw [chargedBuckets_append, hcharged, List.append_nil]
  refine ⟨fun k c hc => ?_, fun k hk => ?_, fun name => ?_, fun g hg cap hcap => ?_⟩
  · rw [hhistory]
    refine h.sound k c ?_
    rw [← hcalls]
    exact hc
  · rw [hhistory]
    refine h.fresh k ?_
    rw [← hcalls]
    exact hk
  · show (r.node.step cost op).gauges name = heldPlaces name (r.node.step cost op).calls
    rw [hgauges, hcalls]
    exact h.gauges name
  · show (r.node.step cost op).gauges g.name ≤ cap
    rw [hgauges]
    exact h.capped g hg cap hcap

/-- **A call that moves**: it is all or nothing afterwards, and the gauges follow what it holds. -/
theorem move (h : Admissions cost r) {op : NodeOp} {k : Nat} {c : Call} (c' : Call) (hc : r.node.calls[k]? = some c)
    (hcalls : (r.node.step cost op).calls = r.node.calls.set k c')
    (hsound : AllOrNothing cost c' (chargedBuckets k r.history ++ chargedBuckets k (r.node.events cost op)))
    (hother : ∀ k', k ≠ k' → chargedBuckets k' (r.node.events cost op) = [])
    (hgauges : ∀ name, (r.node.step cost op).gauges name + c.grant.count name =
      r.node.gauges name + c'.grant.count name)
    (hcapped : ∀ g ∈ cost.groups, ∀ cap, g.concurrentCap = some cap → (r.node.step cost op).gauges g.name ≤ cap) :
    Admissions cost (r.step cost op) := by
  have hk := (List.getElem?_eq_some_iff.1 hc).1
  refine ⟨fun k' d hd => ?_, fun k' hk' => ?_, fun name => ?_, hcapped⟩
  · have hd' : (r.node.calls.set k c')[k']? = some d := by
      rw [← hcalls]
      exact hd
    show AllOrNothing cost d (chargedBuckets k' (r.history ++ r.node.events cost op))
    rw [chargedBuckets_append]
    by_cases hkk : k = k'
    · subst hkk
      rw [List.getElem?_set_self hk, Option.some.injEq] at hd'
      rw [← hd']
      exact hsound
    · rw [List.getElem?_set_ne hkk] at hd'
      rw [hother k' hkk, List.append_nil]
      exact h.sound k' d hd'
  · have hlen : r.node.calls.length ≤ k' := by
      have hset : (r.node.step cost op).calls.length ≤ k' := hk'
      rw [hcalls, List.length_set] at hset
      exact hset
    show chargedBuckets k' (r.history ++ r.node.events cost op) = []
    rw [chargedBuckets_append, h.fresh k' hlen, hother k' (by omega), List.nil_append]
  · show (r.node.step cost op).gauges name = heldPlaces name (r.node.step cost op).calls
    have hmoved := heldPlaces_set name hc c'
    have hbefore := h.gauges name
    have hafter := hgauges name
    rw [hcalls]
    omega

/-- A call that moves without a charge. -/
theorem uncharged (h : Admissions cost r) {op : NodeOp} {k : Nat} {c : Call} (c' : Call)
    (hc : r.node.calls[k]? = some c) (hcalls : (r.node.step cost op).calls = r.node.calls.set k c')
    (hev : r.node.events cost op = []) (hsound : AllOrNothing cost c' (chargedBuckets k r.history))
    (hgauges : ∀ name, (r.node.step cost op).gauges name + c.grant.count name =
      r.node.gauges name + c'.grant.count name)
    (hcapped : ∀ g ∈ cost.groups, ∀ cap, g.concurrentCap = some cap → (r.node.step cost op).gauges g.name ≤ cap) :
    Admissions cost (r.step cost op) := by
  refine h.move c' hc hcalls ?_ (fun k' _ => ?_) hgauges hcapped
  · rw [hev]
    show AllOrNothing cost c' (chargedBuckets k r.history ++ [])
    rw [List.append_nil]
    exact hsound
  · rw [hev]
    rfl

/-- A call that goes to another phase with what it holds. -/
theorem turns (h : Admissions cost r) {op : NodeOp} {k : Nat} {c : Call} (phase : CallPhase)
    (hc : r.node.calls[k]? = some c)
    (hcalls : (r.node.step cost op).calls = r.node.calls.set k { c with phase := phase })
    (hgauges : (r.node.step cost op).gauges = r.node.gauges) (hev : r.node.events cost op = [])
    (hsound : AllOrNothing cost { c with phase := phase } (chargedBuckets k r.history)) :
    Admissions cost (r.step cost op) := by
  refine h.uncharged { c with phase := phase } hc hcalls hev hsound (fun name => ?_) (fun g hg cap hcap => ?_)
  · rw [hgauges]
  · rw [hgauges]
    exact h.capped g hg cap hcap

/-- A call that comes in. -/
theorem begins (h : Admissions cost r) (key : VirtualKey) (pool : String) (now : Nat) :
    Admissions cost (r.step cost (.begin key pool now)) := by
  obtain ⟨hstart, hgrant⟩ := allOrNothing_start cost key pool now
  have hcalls : (r.step cost (.begin key pool now)).node.calls = r.node.calls ++ [Call.start cost key pool now] := rfl
  have hhistory : (r.step cost (.begin key pool now)).history = r.history := List.append_nil _
  refine ⟨fun k c hc => ?_, fun k hk => ?_, fun name => ?_, h.capped⟩
  · rw [hhistory]
    rw [hcalls] at hc
    rcases Nat.lt_trichotomy k r.node.calls.length with hk | hk | hk
    · rw [List.getElem?_append_left hk] at hc
      exact h.sound k c hc
    · rw [hk, List.getElem?_concat_length, Option.some.injEq] at hc
      rw [h.fresh k (Nat.le_of_eq hk.symm), ← hc]
      exact hstart
    · rw [List.getElem?_eq_none (by rw [List.length_append, List.length_singleton]; omega)] at hc
      cases hc
  · rw [hhistory]
    refine h.fresh k ?_
    rw [hcalls, List.length_append] at hk
    omega
  · rw [hcalls, heldPlaces_append]
    show r.node.gauges name = _
    have hnone : heldPlaces name [Call.start cost key pool now] = 0 := by
      unfold heldPlaces
      rw [List.map_singleton, hgrant]
      rfl
    rw [hnone, Nat.add_zero]
    exact h.gauges name

/-- A request that is over starts to drop its grant. -/
theorem finishes (h : Admissions cost r) (k : Nat) : Admissions cost (r.step cost (.finish k)) := by
  rcases hc : r.node.calls[k]? with _ | c
  · have hstep : r.node.step cost (.finish k) = r.node := by
      unfold Node.step
      dsimp only
      rw [hc]
    exact h.quiet (by rw [hstep]) (by rw [hstep]) fun _ => rfl
  · by_cases hphase : c.phase = .admitted
    · have hstep : r.node.step cost (.finish k) =
          { r.node with calls := r.node.calls.set k { c with phase := .dropping none } } := by
        unfold Node.step
        dsimp only
        rw [hc]
        dsimp only
        rw [if_pos hphase]
      refine h.turns (.dropping none) hc (by rw [hstep]) (by rw [hstep]) rfl ?_
      rcases h.sound k c hc with
        ⟨plan, taken, holds, hplan, -, hph, -, -, -⟩ | ⟨plan, hplan, -, -, hcharged⟩ |
          ⟨plan, hplan, hph, hcharged⟩ | ⟨e, hph, -⟩
      · rw [hphase] at hph
        cases hph
      · exact .done plan hplan (.inl rfl) hcharged
      · rw [hphase] at hph
        rcases hph with hph | ⟨hph, -⟩ <;> cases hph
      · rw [hphase] at hph
        rcases hph with hph | ⟨hph, -⟩ <;> cases hph
    · have hstep : r.node.step cost (.finish k) = r.node := by
        unfold Node.step
        dsimp only
        rw [hc]
        dsimp only
        rw [if_neg hphase]
      exact h.quiet (by rw [hstep]) (by rw [hstep]) fun _ => rfl

/-- The drop of a grant, hold by hold. -/
theorem drops (h : Admissions cost r) {k : Nat} {c : Call} {result : Option LimitBlocked} (hc : r.node.calls[k]? = some c)
    (hphase : c.phase = .dropping result)
    (hsound : ∀ grant, AllOrNothing cost { c with grant := grant } (chargedBuckets k r.history))
    (hend : c.grant = [] → AllOrNothing cost { c with phase := .finished result } (chargedBuckets k r.history)) :
    Admissions cost (r.step cost (.advance k)) := by
  have hev : r.node.events cost (.advance k) = [] := events_advance hc (by rw [hphase]; simp)
  cases hgrant : c.grant with
  | nil =>
    have hstep : r.node.step cost (.advance k) =
        { r.node with calls := r.node.calls.set k { c with phase := .finished result } } := by
      rw [Node.step_advance hc]
      unfold Node.advanceCall
      rw [hphase]
      dsimp only
      rw [hgrant]
    exact h.turns (.finished result) hc (by rw [hstep]) (by rw [hstep]) hev (hend hgrant)
  | cons name grant =>
    have hstep : r.node.step cost (.advance k) =
        { r.node with
          gauges := dropHold r.node.gauges name
          calls := r.node.calls.set k { c with grant := grant } } := by
      rw [Node.step_advance hc]
      unfold Node.advanceCall
      rw [hphase]
      dsimp only
      rw [hgrant]
    have hdrop : ∀ name', dropHold r.node.gauges name name' =
        r.node.gauges name' - if name = name' then 1 else 0 := by
      intro name'
      unfold dropHold
      by_cases hname : name = name'
      · subst hname
        rw [Function.update_self, if_pos rfl]
      · rw [Function.update_of_ne (Ne.symm hname), if_neg hname]
        omega
    refine h.uncharged { c with grant := grant } hc (by rw [hstep]) hev (hsound grant) (fun name' => ?_)
      (fun g hg cap hcap => ?_)
    · rw [hstep, hgrant]
      dsimp only
      rw [hdrop, List.count_cons]
      by_cases hname : name = name'
      · simp only [hname, beq_self_eq_true, if_true]
        omega
      · simp only [hname, beq_eq_false_iff_ne.2 hname, Bool.false_eq_true, if_false]
        omega
    · rw [hstep]
      dsimp only
      rw [hdrop]
      have hbefore := h.capped g hg cap hcap
      split <;> omega

/-- A hold that is taken. -/
theorem takes (h : Admissions cost r) (hnames : (cost.groups.map GroupRuntime.name).Nodup) {k : Nat} {c : Call}
    (hc : r.node.calls[k]? = some c) {plan : AdmitPlan} {taken holds : List (String × Nat)} {hold : String × Nat}
    (hplan : admitPlan cost c.key c.pool = .ok plan) (hbuckets : c.buckets = plan.buckets)
    (hphase : c.phase = .acquiring (hold :: holds)) (hholds : taken ++ hold :: holds = plan.holds)
    (hgrant : c.grant = taken.map Prod.fst) (hcharged : chargedBuckets k r.history = []) :
    Admissions cost (r.step cost (.advance k)) := by
  have hev : r.node.events cost (.advance k) = [] := events_advance hc (by rw [hphase]; simp)
  rcases htake : takeHold hold r.node.gauges with _ | gauges
  · have hstep : r.node.step cost (.advance k) =
        { r.node with calls := r.node.calls.set k { c with phase := .dropping (some (.concurrent hold.1)) } } := by
      rw [Node.step_advance hc]
      unfold Node.advanceCall
      rw [hphase]
      dsimp only
      rw [htake]
    exact h.turns (.dropping (some (.concurrent hold.1))) hc (by rw [hstep]) (by rw [hstep]) hev
      (.refused (.concurrent hold.1) (.inl rfl) hcharged)
  · have hstep : r.node.step cost (.advance k) =
        { r.node with
          gauges := gauges
          calls := r.node.calls.set k { c with grant := c.grant ++ [hold.1], phase := .acquiring holds } } := by
      rw [Node.step_advance hc]
      unfold Node.advanceCall
      rw [hphase]
      dsimp only
      rw [htake]
    obtain ⟨hbelow, hgauges⟩ : r.node.gauges hold.1 < min (hold.2 : Int) i64Max ∧
        Function.update r.node.gauges hold.1 (r.node.gauges hold.1 + 1) = gauges := by
      unfold takeHold at htake
      split at htake
      · rename_i hlt
        exact ⟨hlt, Option.some.inj htake⟩
      · cases htake
    refine h.uncharged { c with grant := c.grant ++ [hold.1], phase := .acquiring holds } hc (by rw [hstep]) hev ?_
      (fun name => ?_) (fun g hg cap hcap => ?_)
    · refine .acquiring plan (taken ++ [hold]) holds hplan hbuckets rfl ?_ ?_ hcharged
      · rw [List.append_assoc]
        exact hholds
      · rw [List.map_append, hgrant]
        rfl
    · rw [hstep]
      dsimp only
      rw [← hgauges, List.count_append, List.count_singleton]
      by_cases hname : hold.1 = name
      · rw [hname, Function.update_self, if_pos (beq_self_eq_true name)]
        omega
      · rw [Function.update_of_ne (Ne.symm hname), if_neg (by simpa using hname)]
        omega
    · rw [hstep]
      dsimp only
      rw [← hgauges]
      by_cases hname : g.name = hold.1
      · -- the group's own cap is the one that the hold was checked against
        obtain ⟨g', hg', hname', hcap'⟩ := plan_holds hplan
          (hholds ▸ List.mem_append_right taken List.mem_cons_self)
        have hsame : g = g' := List.inj_on_of_nodup_map hnames hg hg' (hname.trans hname'.symm)
        rw [hsame, hcap', Option.some.injEq] at hcap
        rw [hname, Function.update_self]
        omega
      · rw [Function.update_of_ne hname]
        exact h.capped g hg cap hcap

/-- The lock section: all buckets of the plan are charged, or none. -/
theorem locks (h : Admissions cost r) {k : Nat} {c : Call} (hc : r.node.calls[k]? = some c) {plan : AdmitPlan}
    {taken : List (String × Nat)} (hplan : admitPlan cost c.key c.pool = .ok plan) (hbuckets : c.buckets = plan.buckets)
    (hphase : c.phase = .acquiring []) (hholds : taken ++ [] = plan.holds) (hgrant : c.grant = taken.map Prod.fst)
    (hcharged : chargedBuckets k r.history = []) : Admissions cost (r.step cost (.advance k)) := by
  have hstep : r.node.step cost (.advance k) =
      { r.node with
        cells := (checkAndCharge cost c.buckets c.now r.node.cells).2
        calls := r.node.calls.set k { c with
          phase := (checkAndCharge cost c.buckets c.now r.node.cells).1.elim .admitted (fun e => .dropping (some e)) } } := by
    rw [Node.step_advance hc]
    unfold Node.advanceCall
    rw [hphase]
  have hev : r.node.events cost (.advance k) =
      if (checkAndCharge cost c.buckets c.now r.node.cells).1 = none then
        chargeEvents k c.now r.node.cells c.buckets else [] := by
    unfold Node.events
    dsimp only
    rw [hc]
    dsimp only
    rw [hphase]
    simp only [true_and]
  rcases hpass : (checkAndCharge cost c.buckets c.now r.node.cells).1 with _ | e
  · rw [hpass, if_pos rfl] at hev
    rw [hpass] at hstep
    refine h.move { c with phase := .admitted } hc (by rw [hstep]; rfl) ?_ (fun k' hk => ?_)
      (fun name => by rw [hstep]) (fun g hg cap hcap => by rw [hstep]; exact h.capped g hg cap hcap)
    · rw [hcharged, List.nil_append, hev, chargedBuckets_pass, hbuckets]
      rw [List.append_nil] at hholds
      exact .admitted plan hplan rfl (by rw [← hholds]; exact hgrant) rfl
    · rw [hev]
      exact chargedBuckets_other hk _ _ _
  · rw [hpass, if_neg (by simp)] at hev
    rw [hpass] at hstep
    exact h.turns (.dropping (some e)) hc (by rw [hstep]; rfl) (by rw [hstep]) hev (.refused e (.inl rfl) hcharged)

/-- A call's next step. -/
theorem advances (h : Admissions cost r) (hnames : (cost.groups.map GroupRuntime.name).Nodup) (k : Nat) :
    Admissions cost (r.step cost (.advance k)) := by
  rcases hc : r.node.calls[k]? with _ | c
  · have hstep : r.node.step cost (.advance k) = r.node := by
      unfold Node.step
      dsimp only
      rw [hc]
    have hev : r.node.events cost (.advance k) = [] := by
      unfold Node.events
      dsimp only
      rw [hc]
    exact h.quiet (by rw [hstep]) (by rw [hstep]) fun _ => by rw [hev]; rfl
  · -- a call that is admitted or finished does not move
    have hstays : (∀ holds, c.phase ≠ .acquiring holds) → (∀ result, c.phase ≠ .dropping result) →
        Admissions cost (r.step cost (.advance k)) := by
      intro hacq hdrop
      have hstep : r.node.step cost (.advance k) = r.node := by
        rw [Node.step_advance hc]
        unfold Node.advanceCall
        split
        · exact absurd ‹_› (hacq _)
        · exact absurd ‹_› (hacq _)
        · exact absurd ‹_› (hdrop _)
        · rfl
        · rfl
      have hev : r.node.events cost (.advance k) = [] := events_advance hc (hacq [])
      exact h.quiet (by rw [hstep]) (by rw [hstep]) fun _ => by rw [hev]; rfl
    rcases h.sound k c hc with
      ⟨plan, taken, holds, hplan, hbuckets, hphase, hholds, hgrant, hcharged⟩ | ⟨plan, hplan, hphase, hgrant, hcharged⟩ |
        ⟨plan, hplan, hphase | ⟨hphase, hgrant⟩, hcharged⟩ | ⟨e, hphase | ⟨hphase, hgrant⟩, hcharged⟩
    · cases holds with
      | nil => exact h.locks hc hplan hbuckets hphase hholds hgrant hcharged
      | cons hold holds => exact h.takes hnames hc hplan hbuckets hphase hholds hgrant hcharged
    · exact hstays (fun holds => by rw [hphase]; exact fun hno => by cases hno)
        (fun result => by rw [hphase]; exact fun hno => by cases hno)
    · exact h.drops hc hphase (fun grant => .done plan hplan (.inl hphase) hcharged)
        (fun hgrant => .done plan hplan (.inr ⟨rfl, hgrant⟩) hcharged)
    · exact hstays (fun holds => by rw [hphase]; exact fun hno => by cases hno)
        (fun result => by rw [hphase]; exact fun hno => by cases hno)
    · exact h.drops hc hphase (fun grant => .refused e (.inl hphase) hcharged)
        (fun hgrant => .refused e (.inr ⟨rfl, hgrant⟩) hcharged)
    · exact hstays (fun holds => by rw [hphase]; exact fun hno => by cases hno)
        (fun result => by rw [hphase]; exact fun hno => by cases hno)

/-- **The step lemma.** -/
theorem step (h : Admissions cost r) (hnames : (cost.groups.map GroupRuntime.name).Nodup) (op : NodeOp) :
    Admissions cost (r.step cost op) := by
  cases op with
  | begin key pool now => exact h.begins key pool now
  | advance k => exact h.advances hnames k
  | finish k => exact h.finishes k
  | sweep shard now => exact h.quiet rfl rfl fun _ => rfl
  | accrue key pool i model tokens now =>
    refine h.quiet ?_ ?_ fun k => ?_
    · unfold Node.step
      dsimp only
      split
      · split <;> rfl
      · rfl
    · unfold Node.step
      dsimp only
      split
      · split <;> rfl
      · rfl
    · unfold Node.events
      dsimp only
      split
      · split <;> rfl
      · rfl
  | refund k i =>
    refine h.quiet ?_ ?_ fun k => ?_
    · unfold Node.step
      dsimp only
      split
      · split <;> rfl
      · rfl
    · unfold Node.step
      dsimp only
      split
      · split <;> rfl
      · rfl
    · unfold Node.events Node.refundEvents
      dsimp only
      split
      · split
        · split
          · split <;> rfl
          · rfl
        · rfl
      · rfl
  | flush =>
    refine h.quiet ?_ ?_ fun _ => rfl
    · unfold Node.step
      dsimp only
      split <;> rfl
    · unfold Node.step
      dsimp only
      split <;> rfl
  | flushStep pick ok =>
    have hflush : (r.node.advanceFlush pick ok).calls = r.node.calls ∧
        (r.node.advanceFlush pick ok).gauges = r.node.gauges := by
      unfold Node.advanceFlush
      split
      · exact ⟨rfl, rfl⟩
      · split <;> exact ⟨rfl, rfl⟩
      · split
        · exact ⟨rfl, rfl⟩
        · split <;> exact ⟨rfl, rfl⟩
      · exact ⟨rfl, rfl⟩
    exact h.quiet hflush.1 hflush.2 fun _ => rfl
  | tick clock => exact h.quiet rfl rfl fun _ => rfl

end Admissions

/-! ## Runs -/

section Config

variable (rates : Option (Table String RateNanos)) (fee : Int) (groups : Table String GroupCfg)

open CostModel

theorem nodup_groupNames : ((resolveParts rates fee groups).groups.map GroupRuntime.name).Nodup := by
  have hmap : (resolveParts rates fee groups).groups.map GroupRuntime.name = groups.rows.map Prod.fst := by
    show (projectGroups groups).map GroupRuntime.name = _
    unfold projectGroups
    rw [List.map_map]
    rfl
  rw [hmap]
  exact groups.nodup

/-- **The run lemma.** -/
theorem admissions_after {n : Node} (hcalls : n.calls = []) (hgauges : ∀ name, n.gauges name = 0) (ops : List NodeOp) :
    Admissions (resolveParts rates fee groups) (NodeRun.after (resolveParts rates fee groups) n ops) := by
  refine Run.exec_invariant _ (fun r op h => h.step (nodup_groupNames rates fee groups) op) ?_ ops
  refine ⟨fun k c hc => ?_, fun _ _ => rfl, fun name => ?_, fun g _ cap _ => ?_⟩
  · have hnone : n.calls[k]? = some c := hc
    rw [hcalls] at hnone
    cases hnone
  · show n.gauges name = heldPlaces name n.calls
    rw [hgauges, hcalls]
    rfl
  · show n.gauges g.name ≤ cap
    rw [hgauges]
    omega

/-- **All or nothing.** In every run a refused call has charged no bucket and an admitted one each bucket of its plan once, in
order; while it runs it holds a place of each group that its plan names, and when it is finished none. -/
theorem all_or_nothing (n : Node) (hcalls : n.calls = []) (hgauges : ∀ name, n.gauges name = 0) (ops : List NodeOp)
    (k : Nat) (c : Call) (hc : (NodeRun.after (resolveParts rates fee groups) n ops).node.calls[k]? = some c) :
    AllOrNothing (resolveParts rates fee groups) c
      (chargedBuckets k (NodeRun.after (resolveParts rates fee groups) n ops).history) :=
  (admissions_after rates fee groups hcalls hgauges ops).sound k c hc

/-- **Gauges are places held, within their caps.** -/
theorem holds_within_caps (n : Node) (hcalls : n.calls = []) (hgauges : ∀ name, n.gauges name = 0) (ops : List NodeOp) :
    (∀ name, (NodeRun.after (resolveParts rates fee groups) n ops).node.gauges name =
      heldPlaces name (NodeRun.after (resolveParts rates fee groups) n ops).node.calls) ∧
    ∀ g ∈ projectGroups groups, ∀ cap, g.concurrentCap = some cap →
      (NodeRun.after (resolveParts rates fee groups) n ops).node.gauges g.name ≤ cap := by
  have h := admissions_after rates fee groups hcalls hgauges ops
  exact ⟨h.gauges, h.capped⟩

end Config

namespace OnePlace

/-- A group with one place and one request a day. -/
def groups : Table String GroupCfg :=
  Table.insert "a" ⟨none, true, [⟨.concurrent, 1, none, none, none⟩, ⟨.requests, 1, some .day, none, none⟩]⟩
    Registry.empty

/-- A call that is admitted, and one that is refused while the first holds its place. -/
def ops : List NodeOp :=
  [.begin DayGroup.key "" 100, .begin DayGroup.key "" 100, .advance 0, .advance 1, .advance 0, .advance 1]

end OnePlace

/-- The refused call is finished, with nothing charged and nothing held. -/
theorem all_or_nothing_refused :
    ∃ c, (NodeRun.after (CostModel.resolveParts none 0 OnePlace.groups) Node.new OnePlace.ops).node.calls[1]? = some c ∧
      c.phase = .finished (some (.concurrent "a")) ∧
      AllOrNothing (CostModel.resolveParts none 0 OnePlace.groups) c
        (chargedBuckets 1
          (NodeRun.after (CostModel.resolveParts none 0 OnePlace.groups) Node.new OnePlace.ops).history) := by
  have hphase : (NodeRun.after (CostModel.resolveParts none 0 OnePlace.groups) Node.new OnePlace.ops).node.calls[1]?.map
      Call.phase = some (.finished (some (.concurrent "a"))) := by decide +kernel
  obtain ⟨c, hc, hfinished⟩ := Option.map_eq_some_iff.1 hphase
  exact ⟨c, hc, hfinished, all_or_nothing none 0 OnePlace.groups Node.new rfl (fun _ => rfl) OnePlace.ops 1 c hc⟩

/-- One place is held of the group, by the first call. -/
theorem holds_within_caps_one :
    (NodeRun.after (CostModel.resolveParts none 0 OnePlace.groups) Node.new OnePlace.ops).node.gauges "a" =
      heldPlaces "a" (NodeRun.after (CostModel.resolveParts none 0 OnePlace.groups) Node.new OnePlace.ops).node.calls :=
  (holds_within_caps none 0 OnePlace.groups Node.new rfl (fun _ => rfl) OnePlace.ops).1 "a"

end Busbar
