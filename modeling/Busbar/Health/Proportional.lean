import Busbar.Health.Swrr

/-!
# Selection is exactly proportional

With the same usable members in every call a selection of the pool is a turn of a fixed schedule: who wins depends on
the accumulators alone. Calls for other pools and operations on the lanes may come in between.

* `HealthState.select_is_turn`: one selection is the next turn of the schedule.
* `PoolOp.OnSchedule.step`, `PoolOp.onSchedule_run`: a run follows the schedule.
* `PoolOp.exactly_proportional`: the members are chosen in proportion to their weights, exactly.
* `PoolOp.selection_overflows`: more weight than the machine type holds.
-/

namespace Busbar

open Run

namespace HealthState

variable {s : HealthState} {pool q : String} {members : List (Nat × Nat)}

/-! ## One selection -/

theorem laneWeight_addWeight_ne (s : HealthState) (lane : Nat) (delta : Int) (hq : q ≠ pool) (i : Nat) :
    (s.onLane lane (fun ls => ls.addWeight pool delta)).laneWeight q i = s.laneWeight q i := by
  rcases hls : s.lanes[lane]? with _ | ls
  · unfold onLane
    rw [hls]
  · rw [laneWeight_onLane hls]
    by_cases hi : i = lane
    · rw [if_pos hi, hi, laneWeight_of_get hls]
      unfold LaneState.addWeight
      rw [LaneState.currentWeight_writes (writes_setCell ls pool _), if_neg (Ne.symm hq)]
    · rw [if_neg hi]

theorem addAll_ne (members : List (Nat × Nat)) (s : HealthState) (hq : q ≠ pool) (i : Nat) :
    (s.addAll pool members).laneWeight q i = s.laneWeight q i := by
  unfold addAll
  induction members generalizing s with
  | nil => rfl
  | cons m members ih =>
    rw [List.foldl_cons, ih]
    exact laneWeight_addWeight_ne s m.1 m.2 hq i

/-- A selection leaves the accounts of the other pools alone. -/
theorem selectWeightedFor_ne (s : HealthState) (candidates weights : List Nat) (now : Nat) (hq : q ≠ pool) (i : Nat) :
    (s.selectWeightedFor pool candidates weights now).2.laneWeight q i = s.laneWeight q i := by
  obtain ⟨-, hw, -⟩ := healthyMembers_spec pool now (candidates.zip weights) s
  unfold selectWeightedFor
  rcases hr : healthyMembers pool now (candidates.zip weights) s with ⟨_ | _ | ⟨m₀, rest⟩, s₁⟩
  · rw [hr] at hw
    exact hw q i
  · rw [hr] at hw
    exact hw q i
  rw [hr] at hw
  dsimp only
  split
  · rw [addAll_ne _ _ hq, hw]
  · rw [laneWeight_addWeight_ne _ _ _ hq, addAll_ne _ _ hq, hw]

/-- Distinct members get their own weights. -/
theorem credit_of_mem (hdistinct : (members.map Prod.fst).Nodup) {m : Nat × Nat} (hm : m ∈ members) :
    credit members m.1 = m.2 := by
  induction members with
  | nil => cases hm
  | cons m' members ih =>
    rw [List.map_cons, List.nodup_cons] at hdistinct
    obtain ⟨hnew, hrest⟩ := hdistinct
    rw [credit_cons]
    rcases List.mem_cons.1 hm with rfl | hm
    · have hnone : credit members m.1 = 0 := by
        by_contra hne
        obtain ⟨m', hm', he⟩ := credit_pos (lt_of_le_of_ne (credit_nonneg members m.1) (Ne.symm hne))
        exact hnew (he ▸ List.mem_map_of_mem hm')
      rw [if_pos rfl, hnone, add_zero]
    · have hother : m'.1 ≠ m.1 := fun he => hnew (he ▸ List.mem_map_of_mem hm)
      rw [if_neg hother, ih hrest hm, zero_add]

theorem credit_of_not_mem {i : Nat} (hi : i ∉ (members.map Prod.fst).toFinset) : credit members i = 0 := by
  by_contra hne
  obtain ⟨m, hm, rfl⟩ := credit_pos (lt_of_le_of_ne (credit_nonneg members i) (Ne.symm hne))
  exact hi (List.mem_toFinset.2 (List.mem_map_of_mem hm))

/-- What a selection distributes. -/
def totalWeight (members : List (Nat × Nat)) : Nat := (members.map Prod.snd).sum

theorem sum_weights (members : List (Nat × Nat)) :
    (members.map (fun m => (m.2 : Int))).sum = totalWeight members := by
  unfold totalWeight
  induction members with
  | nil => rfl
  | cons m members ih => simp [ih]

theorem sum_credit_members (hdistinct : (members.map Prod.fst).Nodup) :
    ∑ i ∈ (members.map Prod.fst).toFinset, credit members i = totalWeight members := by
  rw [List.sum_toFinset _ hdistinct, List.map_map, ← sum_weights]
  exact congrArg List.sum (List.map_congr_left fun m hm => credit_of_mem hdistinct hm)

/-- The first member with the greatest account. -/
def leader (w : Nat → Int) (m₀ : Nat × Nat) (rest : List (Nat × Nat)) : Nat :=
  (rest.foldl (fun best m => if best.2 < w m.1 then (some m.1, w m.1) else best) (some m₀.1, w m₀.1)).1.getD m₀.1

theorem leader_spec (w : Nat → Int) (m₀ : Nat × Nat) (rest : List (Nat × Nat)) :
    ∃ m ∈ m₀ :: rest, leader w m₀ rest = m.1 ∧ ∀ m' ∈ m₀ :: rest, w m'.1 ≤ w m.1 := by
  obtain ⟨hge, hall, hr⟩ := bestMember_scan w rest (some m₀.1, w m₀.1)
  unfold leader
  rcases hr with hr | ⟨m, hm, hr⟩
  · rw [hr] at hall ⊢
    exact ⟨m₀, List.mem_cons_self, rfl, List.forall_mem_cons.2 ⟨le_rfl, hall⟩⟩
  · rw [hr] at hall hge ⊢
    exact ⟨m, List.mem_cons_of_mem _ hm, rfl, List.forall_mem_cons.2 ⟨hge, hall⟩⟩

theorem bestMember_eq_leader {m₀ : Nat × Nat} {rest : List (Nat × Nat)} {w : Nat → Int}
    (hw : ∀ m ∈ m₀ :: rest, s.laneWeight pool m.1 = w m.1) (hlo : i64Min < w m₀.1) :
    s.bestMember pool (m₀ :: rest) = some (leader w m₀ rest) := by
  have hscan : s.bestMember pool (m₀ :: rest) =
      (rest.foldl (fun best m => if best.2 < w m.1 then (some m.1, w m.1) else best) (some m₀.1, w m₀.1)).1 := by
    unfold bestMember
    rw [List.foldl_cons, if_pos (by rw [hw m₀ List.mem_cons_self]; exact hlo), hw m₀ List.mem_cons_self]
    refine congrArg Prod.fst (List.foldl_ext _ _ _ fun best m hm => ?_)
    rw [hw m (List.mem_cons_of_mem _ hm)]
  obtain ⟨-, -, hr⟩ := bestMember_scan w rest (some m₀.1, w m₀.1)
  rw [hscan]
  unfold leader
  rcases hr with hr | ⟨m, -, hr⟩
  · rw [hr]
    rfl
  · rw [hr]
    rfl

/-- The round robin of the members. -/
def schedule (m₀ : Nat × Nat) (rest : List (Nat × Nat)) :
    RoundRobin.Schedule ((m₀ :: rest).map Prod.fst).toFinset (credit (m₀ :: rest)) (totalWeight (m₀ :: rest)) where
  pick x := leader (fun i => x i + credit (m₀ :: rest) i) m₀ rest
  mem x := by
    obtain ⟨m, hm, hl, -⟩ := leader_spec (fun i => x i + credit (m₀ :: rest) i) m₀ rest
    rw [hl]
    exact List.mem_toFinset.2 (List.mem_map_of_mem hm)
  best x i hi := by
    obtain ⟨m, -, hl, hall⟩ := leader_spec (fun i => x i + credit (m₀ :: rest) i) m₀ rest
    obtain ⟨m', hm', rfl⟩ := List.mem_map.1 (List.mem_toFinset.1 hi)
    rw [hl]
    exact hall m' hm'

/-- **A selection is a turn of the schedule**, while the accounts of its members have room. -/
theorem select_is_turn {m₀ : Nat × Nat} {rest : List (Nat × Nat)} {candidates weights : List Nat} {now : Nat}
    (hsel : (healthyMembers pool now (candidates.zip weights) s).1 = some (m₀ :: rest))
    (hdistinct : ((m₀ :: rest).map Prod.fst).Nodup) {x : Nat → Int}
    (hx : ∀ m ∈ m₀ :: rest, s.laneWeight pool m.1 = x m.1)
    (hlo : ∀ m ∈ m₀ :: rest, -(totalWeight (m₀ :: rest) : Int) < x m.1)
    (hhi : ∀ m ∈ m₀ :: rest, x m.1 + m.2 ≤ i64Max) (hroom : (totalWeight (m₀ :: rest) : Int) ≤ i64Max)
    (hpaid : ∀ m ∈ m₀ :: rest, -(totalWeight (m₀ :: rest) : Int) <
      RoundRobin.turn (credit (m₀ :: rest)) (totalWeight (m₀ :: rest)) ((schedule m₀ rest).pick x) x m.1) :
    (s.selectWeightedFor pool candidates weights now).1 = some (some ((schedule m₀ rest).pick x)) ∧
      ∀ m ∈ m₀ :: rest, (s.selectWeightedFor pool candidates weights now).2.laneWeight pool m.1 =
        RoundRobin.turn (credit (m₀ :: rest)) (totalWeight (m₀ :: rest)) ((schedule m₀ rest).pick x) x m.1 := by
  obtain ⟨hlen, hw, hmem⟩ := healthyMembers_spec pool now (candidates.zip weights) s
  unfold selectWeightedFor
  rcases hr : healthyMembers pool now (candidates.zip weights) s with ⟨found, s₁⟩
  rw [hr] at hsel hlen hw hmem
  cases hsel
  obtain ⟨-, hlane⟩ := hmem _ rfl
  rw [← hlen] at hlane
  have hacct : ∀ m ∈ m₀ :: rest, s₁.laneWeight pool m.1 = x m.1 := fun m hm => (hw pool m.1).trans (hx m hm)
  have hcredit : ∀ m ∈ m₀ :: rest, credit (m₀ :: rest) m.1 = m.2 := fun m hm => credit_of_mem hdistinct hm
  have hadded := addAll_spec (s := s₁) pool (m₀ :: rest) (fun m hm => (hlane m hm).1)
    (fun m hm => by have := hlo m hm; rw [hacct m hm]; unfold i64Min; unfold i64Max at hroom; omega)
    (fun m hm => by rw [hacct m hm, hcredit m hm]; exact hhi m hm)
  have hafter : ∀ m ∈ m₀ :: rest,
      (s₁.addAll pool (m₀ :: rest)).laneWeight pool m.1 = x m.1 + credit (m₀ :: rest) m.1 := by
    intro m hm
    rw [hadded pool m.1, if_pos rfl, hacct m hm]
  have hbest : (s₁.addAll pool (m₀ :: rest)).bestMember pool (m₀ :: rest) = some ((schedule m₀ rest).pick x) := by
    refine bestMember_eq_leader (w := fun i => x i + credit (m₀ :: rest) i) hafter ?_
    have h₀ := hlo m₀ List.mem_cons_self
    have hgain := credit_nonneg (m₀ :: rest) m₀.1
    unfold i64Min
    unfold i64Max at hroom
    omega
  have hwrap : wrapI64 ((m₀ :: rest).map (fun m => (m.2 : Int))).sum = totalWeight (m₀ :: rest) := by
    rw [sum_weights]
    refine wrapI64_of_mem ?_ hroom
    unfold i64Min
    omega
  dsimp only
  rw [hbest, hwrap]
  refine ⟨rfl, fun m hm => ?_⟩
  obtain ⟨mw, hmw, hpick⟩ : ∃ mw ∈ m₀ :: rest, (schedule m₀ rest).pick x = mw.1 := by
    obtain ⟨mw, hmw, heq, -⟩ := leader_spec (fun i => x i + credit (m₀ :: rest) i) m₀ rest
    exact ⟨mw, hmw, heq⟩
  have hwin : mw.1 < (s₁.addAll pool (m₀ :: rest)).lanes.length := by
    rw [length_addAll]
    exact (hlane mw hmw).1
  have hhigh := hhi mw hmw
  have hgain := hcredit mw hmw
  have hlow := hpaid mw hmw
  unfold RoundRobin.turn at hlow
  rw [if_pos hpick.symm] at hlow
  have hdebt : i64Min ≤ (s₁.addAll pool (m₀ :: rest)).laneWeight pool mw.1 + -(totalWeight (m₀ :: rest) : Int) := by
    rw [hafter mw hmw]
    unfold i64Min
    unfold i64Max at hroom
    omega
  have hpay := laneWeight_addWeight (List.getElem?_eq_getElem hwin) pool hdebt
    (by rw [hafter mw hmw, hgain]; omega) pool m.1
  rw [hpick, hpay, hafter m hm]
  unfold RoundRobin.turn
  by_cases hi : m.1 = mw.1
  · rw [if_pos ⟨rfl, hi⟩, if_pos hi]
    ring
  · rw [if_neg (fun hf => hi hf.2), if_neg hi]
    ring

end HealthState

/-! ## Runs -/

namespace PoolOp

variable {s : HealthState} {pool : String} {members : List (Nat × Nat)}

def selects (pool : String) : PoolOp → Bool
  | .lane _ _ => false
  | .selectWeightedFor q _ _ _ => q = pool

/-- How many selections of the pool a run makes. -/
def calls (pool : String) (ops : List PoolOp) : Nat := ops.countP (selects pool)

/-- The lane a selection of the pool chooses. -/
def chosen (pool : String) (s : HealthState) : PoolOp → List Nat
  | .lane _ _ => []
  | .selectWeightedFor q candidates weights now =>
    if q = pool then ((s.selectWeightedFor q candidates weights now).1.join).toList else []

/-- The lanes the pool's selections choose, in order. -/
def picks (pool : String) : HealthState → List PoolOp → List Nat
  | _, [] => []
  | s, op :: ops => chosen pool s op ++ picks pool (run s op) ops

theorem picks_append (s : HealthState) (ops ops' : List PoolOp) :
    picks pool s (ops ++ ops') = picks pool s ops ++ picks pool (exec run s ops) ops' := by
  induction ops generalizing s with
  | nil => rfl
  | cons op ops ih => rw [List.cons_append, picks, picks, ih, List.append_assoc, exec_cons]

/-- The healthy set stays: each selection of the pool finds the same members usable, and a recovery in between
resets no accumulator of the pool. -/
def HealthyUnchanged (pool : String) (members : List (Nat × Nat)) (s : HealthState) : PoolOp → Prop
  | .lane i op => ∀ ls ∈ s.lanes[i]?, ls.recovers pool op = true → ls.currentWeight pool = 0
  | .selectWeightedFor q candidates weights now =>
    q = pool → (HealthState.healthyMembers q now (candidates.zip weights) s).1 = some members

instance (pool : String) (members : List (Nat × Nat)) (s : HealthState) (op : PoolOp) :
    Decidable (HealthyUnchanged pool members s op) := by
  cases op with
  | lane i op => exact Option.decidableForallMem _
  | selectWeightedFor q candidates weights now =>
    exact inferInstanceAs (Decidable (_ → _))

/-- What is no selection of the pool leaves its accounts alone. -/
theorem laneWeight_other {op : PoolOp} (hkeep : HealthyUnchanged pool members s op) (hop : selects pool op = false)
    (i : Nat) : (run s op).laneWeight pool i = s.laneWeight pool i := by
  cases op with
  | selectWeightedFor q candidates weights now =>
    have hq : q ≠ pool := of_decide_eq_false hop
    exact HealthState.selectWeightedFor_ne s candidates weights now hq.symm i
  | lane j op =>
    rcases hls : s.lanes[j]? with _ | ls
    · rw [HealthState.run_lane_none hls]
    · simp only [run]
      rw [HealthState.laneWeight_onLane hls, LaneState.currentWeight_step]
      by_cases hi : i = j
      · subst hi
        rw [if_pos rfl, HealthState.laneWeight_of_get hls]
        split
        · exact (hkeep ls hls ‹_›).symm
        · rfl
      · rw [if_neg hi]

theorem chosen_other {op : PoolOp} (hop : selects pool op = false) : chosen pool s op = [] := by
  cases op with
  | lane j op => rfl
  | selectWeightedFor q candidates weights now =>
    have hq : q ≠ pool := of_decide_eq_false hop
    exact if_neg hq

section Schedule

open HealthState

variable {m₀ : Nat × Nat} {rest : List (Nat × Nat)}

/-- The accounts of the members after `n` calls, and the lanes chosen. -/
structure OnSchedule (pool : String) (m₀ : Nat × Nat) (rest : List (Nat × Nat)) (n : Nat) (s : HealthState)
    (picked : List Nat) : Prop where
  accounts : ∀ m ∈ m₀ :: rest, s.laneWeight pool m.1 = (schedule m₀ rest).accounts n m.1
  picked : picked = (List.range n).map fun j => (schedule m₀ rest).pick ((schedule m₀ rest).accounts j)

theorem count_picked {β : Type} [DecidableEq β] (f : Nat → β) (n : Nat) (b : β) :
    ((List.range n).map f).count b = ((Finset.range n).filter fun j => f j = b).card := by
  induction n with
  | zero => rfl
  | succ n ih =>
    rw [List.range_succ, List.map_append, List.count_append, ih, Finset.range_add_one, Finset.filter_insert]
    by_cases hb : f n = b
    · rw [if_pos hb, Finset.card_insert_of_notMem (by simp)]
      simp [hb]
    · rw [if_neg hb]
      simp [hb]

theorem OnSchedule.count {n : Nat} {picked : List Nat} (h : OnSchedule pool m₀ rest n s picked) (i : Nat) :
    picked.count i = (schedule m₀ rest).wins n i := by
  rw [h.picked]
  exact count_picked _ n i

variable (hdistinct : ((m₀ :: rest).map Prod.fst).Nodup) (hpos : ∀ m ∈ m₀ :: rest, 0 < m.2)

include hpos in
theorem totalWeight_pos : 0 < totalWeight (m₀ :: rest) := by
  have h₀ := hpos m₀ List.mem_cons_self
  unfold totalWeight
  rw [List.map_cons, List.sum_cons]
  omega

include hdistinct hpos in
/-- **The bounds of an account**, whatever the number of calls. -/
theorem accounts_bounds (n : Nat) {m : Nat × Nat} (hm : m ∈ m₀ :: rest) :
    -(totalWeight (m₀ :: rest) : Int) < (schedule m₀ rest).accounts n m.1 ∧
      (schedule m₀ rest).accounts n m.1 ≤ totalWeight (m₀ :: rest) * ((m₀ :: rest).length - 1) := by
  have htotal := sum_credit_members hdistinct
  have hW : (0 : Int) < totalWeight (m₀ :: rest) := by exact_mod_cast totalWeight_pos hpos
  have hmem : m.1 ∈ ((m₀ :: rest).map Prod.fst).toFinset := List.mem_toFinset.2 (List.mem_map_of_mem hm)
  have hcard : ((m₀ :: rest).map Prod.fst).toFinset.card = (m₀ :: rest).length := by
    rw [List.toFinset_card_of_nodup hdistinct, List.length_map]
  have hle := (schedule m₀ rest).accounts_lt htotal hW (credit_nonneg _) n hmem
  rw [hcard] at hle
  exact ⟨(schedule m₀ rest).accounts_gt htotal hW (credit_nonneg _) n _ hmem, hle⟩

theorem weight_le_total {m : Nat × Nat} (hm : m ∈ members) : m.2 ≤ totalWeight members :=
  List.single_le_sum (fun _ _ => Nat.zero_le _) _ (List.mem_map_of_mem hm)

variable (hfits : (m₀ :: rest).length * totalWeight (m₀ :: rest) < 2 ^ 63)

include hdistinct hpos hfits in
/-- A member's account has room for its weight. -/
theorem accounts_room (n : Nat) {m : Nat × Nat} (hm : m ∈ m₀ :: rest) :
    (schedule m₀ rest).accounts n m.1 < (m₀ :: rest).length * totalWeight (m₀ :: rest) ∧
      (schedule m₀ rest).accounts n m.1 + m.2 ≤ i64Max := by
  obtain ⟨-, hle⟩ := accounts_bounds hdistinct hpos n hm
  have hw := weight_le_total hm
  have hW := totalWeight_pos hpos
  have hfits' : ((m₀ :: rest).length : Int) * totalWeight (m₀ :: rest) < 2 ^ 63 := by exact_mod_cast hfits
  have hsplit : (totalWeight (m₀ :: rest) : Int) * ((m₀ :: rest).length - 1) =
      (m₀ :: rest).length * totalWeight (m₀ :: rest) - totalWeight (m₀ :: rest) := by ring
  unfold i64Max
  omega

include hdistinct hpos hfits in
/-- **One operation** keeps the schedule: a selection is its next turn, and nothing else touches the accounts. -/
theorem OnSchedule.step {n : Nat} {picked : List Nat} (h : OnSchedule pool m₀ rest n s picked) {op : PoolOp}
    (hkeep : HealthyUnchanged pool (m₀ :: rest) s op) :
    OnSchedule pool m₀ rest (n + if selects pool op then 1 else 0) (run s op) (picked ++ chosen pool s op) := by
  cases hop : selects pool op with
  | false =>
    refine ⟨fun m hm => ?_, ?_⟩
    · rw [laneWeight_other hkeep hop]
      exact h.accounts m hm
    · rw [chosen_other hop, List.append_nil]
      exact h.picked
  | true =>
    cases op with
    | lane j op => cases hop
    | selectWeightedFor q candidates weights now =>
      obtain rfl : q = pool := of_decide_eq_true hop
      have hone : 1 ≤ (m₀ :: rest).length := Nat.succ_pos _
      have hroom : (totalWeight (m₀ :: rest) : Int) ≤ i64Max := by
        have hle : 1 * totalWeight (m₀ :: rest) ≤ (m₀ :: rest).length * totalWeight (m₀ :: rest) :=
          Nat.mul_le_mul_right _ hone
        unfold i64Max
        omega
      obtain ⟨hpick, hturn⟩ := select_is_turn (hkeep rfl) hdistinct h.accounts
        (fun m hm => (accounts_bounds hdistinct hpos n hm).1)
        (fun m hm => (accounts_room hdistinct hpos hfits n hm).2) hroom
        (fun m hm => (accounts_bounds hdistinct hpos (n + 1) hm).1)
      refine ⟨fun m hm => hturn m hm, ?_⟩
      have hchosen : chosen q s (.selectWeightedFor q candidates weights now) =
          [(schedule m₀ rest).pick ((schedule m₀ rest).accounts n)] := by
        dsimp only [chosen]
        rw [if_pos rfl, hpick]
        rfl
      rw [hchosen, h.picked, if_pos rfl, List.range_succ, List.map_append]
      rfl

include hdistinct hpos hfits in
/-- **A run** that keeps the healthy set follows the schedule, from accounts of zero. -/
theorem onSchedule_run (hzero : ∀ m ∈ m₀ :: rest, s.laneWeight pool m.1 = 0) {ops : List PoolOp}
    (hsame : Along (fun pre op => HealthyUnchanged pool (m₀ :: rest) (exec run s pre) op) ops) :
    OnSchedule pool m₀ rest (calls pool ops) (exec run s ops) (picks pool s ops) := by
  refine Along.invariant
    (I := fun ops => OnSchedule pool m₀ rest (calls pool ops) (exec run s ops) (picks pool s ops))
    ⟨hzero, rfl⟩ ?_ hsame
  intro pre op h hkeep
  have hstep := h.step hdistinct hpos hfits hkeep
  have hcalls : calls pool (pre ++ [op]) = calls pool pre + if selects pool op then 1 else 0 := by
    unfold calls
    rw [List.countP_append, List.countP_singleton]
  have hpicks : picks pool s (pre ++ [op]) = picks pool s pre ++ chosen pool (exec run s pre) op := by
    rw [picks_append, picks, picks, List.append_nil]
  rw [hcalls, exec_snoc, hpicks]
  exact hstep

end Schedule

/-- **Selection is exactly proportional.** From accumulators of zero and with the healthy set unchanged, any calls as
many as the weights sum to choose each member as often as its weight says and leave the accumulators where they
were; after a multiple of that many they are zero; and they never leave the range the machine type must have. -/
theorem exactly_proportional {ops : List PoolOp} (hdistinct : (members.map Prod.fst).Nodup)
    (hpos : ∀ m ∈ members, 0 < m.2) (hzero : ∀ m ∈ members, s.laneWeight pool m.1 = 0)
    (hfits : members.length * HealthState.totalWeight members < 2 ^ 63)
    (hsame : Along (fun pre op => HealthyUnchanged pool members (exec run s pre) op) ops) :
    (∀ pre mid, pre ++ mid <+: ops → calls pool mid = HealthState.totalWeight members → ∀ m ∈ members,
      (picks pool (exec run s pre) mid).count m.1 = m.2 ∧
        (exec run s (pre ++ mid)).laneWeight pool m.1 = (exec run s pre).laneWeight pool m.1) ∧
    (∀ pre, pre <+: ops → HealthState.totalWeight members ∣ calls pool pre → ∀ m ∈ members,
      (exec run s pre).laneWeight pool m.1 = 0) ∧
    ∀ pre, pre <+: ops → ∀ m ∈ members,
      -(HealthState.totalWeight members : Int) < (exec run s pre).laneWeight pool m.1 ∧
        (exec run s pre).laneWeight pool m.1 < members.length * HealthState.totalWeight members ∧
        (exec run s pre).laneWeight pool m.1 + m.2 ≤ i64Max := by
  rcases members with _ | ⟨m₀, rest⟩
  · simp
  have hrun : ∀ pre, pre <+: ops →
      OnSchedule pool m₀ rest (calls pool pre) (exec run s pre) (picks pool s pre) := by
    rintro pre ⟨post, rfl⟩
    exact onSchedule_run hdistinct hpos hfits hzero hsame.append_left
  have htotal := HealthState.sum_credit_members hdistinct
  have hW : (0 : Int) < HealthState.totalWeight (m₀ :: rest) := by exact_mod_cast totalWeight_pos hpos
  have hnonneg := HealthState.credit_nonneg (m₀ :: rest)
  have houtside : ∀ i, i ∉ ((m₀ :: rest).map Prod.fst).toFinset → HealthState.credit (m₀ :: rest) i = 0 :=
    fun i hi => HealthState.credit_of_not_mem hi
  refine ⟨fun pre mid hpre hcalls m hm => ?_, fun pre hpre hdvd m hm => ?_, fun pre hpre m hm => ?_⟩
  · have hbefore := hrun pre ((List.prefix_append pre mid).trans hpre)
    have hafter := hrun (pre ++ mid) hpre
    have hsum : calls pool (pre ++ mid) = calls pool pre + HealthState.totalWeight (m₀ :: rest) := by
      rw [← hcalls]
      exact List.countP_append
    have hcount := hafter.count m.1
    have hwins := (HealthState.schedule m₀ rest).wins_add htotal hW hnonneg rfl houtside (calls pool pre) m.1
    rw [picks_append, List.count_append, hbefore.count, hsum] at hcount
    rw [HealthState.credit_of_mem hdistinct hm] at hwins
    have hback := (HealthState.schedule m₀ rest).accounts_add htotal hW hnonneg rfl houtside (calls pool pre)
    refine ⟨by omega, ?_⟩
    rw [hafter.accounts m hm, hbefore.accounts m hm, hsum, hback]
  · obtain ⟨k, hk⟩ := hdvd
    have hround : ∀ k, (HealthState.schedule m₀ rest).accounts (HealthState.totalWeight (m₀ :: rest) * k) =
        fun _ => 0 := by
      intro k
      induction k with
      | zero => rfl
      | succ k ih =>
        rw [Nat.mul_succ, (HealthState.schedule m₀ rest).accounts_add htotal hW hnonneg rfl houtside, ih]
    rw [(hrun pre hpre).accounts m hm, hk, hround k]
  · rw [(hrun pre hpre).accounts m hm]
    obtain ⟨hlt, hroom⟩ := accounts_room hdistinct hpos hfits (calls pool pre) hm
    exact ⟨(accounts_bounds hdistinct hpos _ hm).1, hlt, hroom⟩

/-- Lanes of weights 2 and 1: three selections, in the middle of which the other pool selects too. -/
def weightedRun : List PoolOp :=
  [.selectWeightedFor "gold" [0, 1] [2, 1] 5, .selectWeightedFor "iron" [1] [7] 5,
    .selectWeightedFor "gold" [0, 1] [2, 1] 6, .lane 0 (.recordSuccess "gold" 6),
    .selectWeightedFor "gold" [0, 1] [2, 1] 7]

theorem exactly_proportional_weighted :
    (picks "gold" (HealthState.newWithLimits twoLanes ⟨1800, 86400⟩) weightedRun).count 0 = 2 := by
  have hsame : Along (fun pre op => HealthyUnchanged "gold" [(0, 2), (1, 1)]
      (exec run (HealthState.newWithLimits twoLanes ⟨1800, 86400⟩) pre) op) weightedRun :=
    Along.of_checks run (by decide +kernel)
  obtain ⟨hany, -⟩ := exactly_proportional (s := HealthState.newWithLimits twoLanes ⟨1800, 86400⟩)
    (by decide) (by decide) (by decide +kernel) (by decide) hsame
  exact (hany [] weightedRun List.prefix_rfl (by decide +kernel) (0, 2) (by decide)).1

end PoolOp

/-! ## Too much weight -/

namespace HealthState

variable {s : HealthState} {pool : String}

theorem cell_touch (ls : LaneState) (pool : String) : (ls.touch pool).cell pool = ls.cell pool :=
  LaneState.cell_of_cellAt (LaneState.cellAt_touch_self ls pool)

theorem laneAdmissible_touch (ls : LaneState) (pool : String) :
    (ls.touch pool).laneAdmissible = ls.laneAdmissible := by
  unfold LaneState.touch LaneState.setCell
  split <;> rfl

/-- Candidates with weight on lanes that would admit are all usable. -/
theorem healthyMembers_ready (pool : String) (now : Nat) (members : List (Nat × Nat)) {s : HealthState}
    (h : ∀ m ∈ members, 0 < m.2 ∧ ∃ ls, s.lanes[m.1]? = some ls ∧ ls.laneAdmissible = true ∧
      cellReadyBreaker (ls.cell pool) now = true) : (healthyMembers pool now members s).1 = some members := by
  induction members generalizing s with
  | nil => rfl
  | cons m rest ih =>
    obtain ⟨candidate, weight⟩ := m
    obtain ⟨hw, ls, hls, hadm, hready⟩ := h _ List.mem_cons_self
    have hlt : candidate < s.lanes.length := (List.getElem?_eq_some_iff.1 hls).1
    -- resolving the cell changes no lane's readiness
    have hrest := ih (s := s.onLane candidate (fun ls => ls.touch pool)) fun m hm => by
      obtain ⟨hw', ls', hls', hadm', hready'⟩ := h m (List.mem_cons_of_mem _ hm)
      refine ⟨hw', ?_⟩
      unfold onLane
      rw [hls]
      by_cases hm : m.1 = candidate
      · rw [hm, hls] at hls'
        cases hls'
        refine ⟨ls.touch pool, ?_, ?_, ?_⟩
        · rw [hm]
          simp [hlt]
        · rw [laneAdmissible_touch]
          exact hadm
        · rw [cell_touch]
          exact hready
      · exact ⟨ls', by simp [Ne.symm hm, hls'], hadm', hready'⟩
    dsimp only [healthyMembers]
    rw [if_neg (Nat.pos_iff_ne_zero.1 hw), hls]
    dsimp only
    rw [if_pos hadm, if_pos hready, hrest]
    rfl

/-- What the chosen lane is left with after a first call whose weights sum beyond the machine type. -/
theorem select_first {m₀ : Nat × Nat} {rest : List (Nat × Nat)} {candidates weights : List Nat} {now : Nat}
    (hsel : (healthyMembers pool now (candidates.zip weights) s).1 = some (m₀ :: rest))
    (hdistinct : ((m₀ :: rest).map Prod.fst).Nodup) (hzero : ∀ m ∈ m₀ :: rest, s.laneWeight pool m.1 = 0)
    (hsmall : ∀ m ∈ m₀ :: rest, (m.2 : Int) ≤ i64Max) :
    ∃ m ∈ m₀ :: rest, (s.selectWeightedFor pool candidates weights now).1 = some (some m.1) ∧
      (s.selectWeightedFor pool candidates weights now).2.laneWeight pool m.1 =
        wrapI64 (m.2 + -wrapI64 (totalWeight (m₀ :: rest))) := by
  obtain ⟨hlen, hw, hmem⟩ := healthyMembers_spec pool now (candidates.zip weights) s
  unfold selectWeightedFor
  rcases hr : healthyMembers pool now (candidates.zip weights) s with ⟨found, s₁⟩
  rw [hr] at hsel hlen hw hmem
  cases hsel
  obtain ⟨-, hlane⟩ := hmem _ rfl
  rw [← hlen] at hlane
  have hacct : ∀ m ∈ m₀ :: rest, s₁.laneWeight pool m.1 = 0 := fun m hm => (hw pool m.1).trans (hzero m hm)
  have hadded := addAll_spec (s := s₁) pool (m₀ :: rest) (fun m hm => (hlane m hm).1)
    (fun m hm => by rw [hacct m hm]; decide)
    (fun m hm => by rw [hacct m hm, credit_of_mem hdistinct hm, zero_add]; exact hsmall m hm)
  have hafter : ∀ m ∈ m₀ :: rest, (s₁.addAll pool (m₀ :: rest)).laneWeight pool m.1 = m.2 := by
    intro m hm
    rw [hadded pool m.1, if_pos rfl, hacct m hm, credit_of_mem hdistinct hm, zero_add]
  have hfloor : ∀ m ∈ m₀ :: rest, i64Min < (s₁.addAll pool (m₀ :: rest)).laneWeight pool m.1 := by
    intro m hm
    rw [hafter m hm]
    unfold i64Min
    omega
  obtain ⟨m, hm, hbest, -⟩ := bestMember_spec (List.cons_ne_nil m₀ rest) hfloor
  have hget : (s₁.addAll pool (m₀ :: rest)).lanes[m.1]? = some _ :=
    List.getElem?_eq_getElem (by rw [length_addAll]; exact (hlane m hm).1)
  dsimp only
  rw [hbest, sum_weights]
  refine ⟨m, hm, rfl, ?_⟩
  have hcell := hafter m hm
  rw [laneWeight_of_get hget] at hcell
  rw [laneWeight_onLane hget, if_pos rfl]
  unfold LaneState.addWeight
  rw [LaneState.currentWeight_writes (writes_setCell _ pool _), if_pos rfl, LaneState.currentWeight_cell, hcell]

end HealthState

namespace PoolOp

def u32Max : Nat := 2 ^ 32 - 1

/-- Lanes enough for their greatest weights to pass `2 ^ 63`. -/
def manyLanes : Nat := 2 ^ 31 + 4

def manyMembers (n : Nat) : List (Nat × Nat) := (List.range n).zip (List.replicate n u32Max)

theorem mem_manyMembers {n : Nat} {m : Nat × Nat} (h : m ∈ manyMembers n) : m.1 < n ∧ m.2 = u32Max := by
  obtain ⟨hfst, hsnd⟩ := List.of_mem_zip h
  exact ⟨List.mem_range.1 hfst, List.eq_of_mem_replicate hsnd⟩

theorem fst_manyMembers (n : Nat) : (manyMembers n).map Prod.fst = List.range n :=
  List.map_fst_zip (by simp)

theorem total_manyMembers (n : Nat) : HealthState.totalWeight (manyMembers n) = n * u32Max := by
  have hsnd : (manyMembers n).map Prod.snd = List.replicate n u32Max := List.map_snd_zip (by simp)
  unfold HealthState.totalWeight
  rw [hsnd, List.sum_replicate_nat]

/-- A store of plain lanes. -/
def manyStore (n : Nat) : HealthState :=
  HealthState.newWithLimits (List.replicate n HealthRun.plainLane) ⟨1800, 86400⟩

theorem manyStore_lane {n i : Nat} (hi : i < n) :
    (manyStore n).lanes[i]? = some (LaneState.ofData HealthRun.plainLane) := by
  simp [manyStore, HealthState.newWithLimits, hi]

/-- **More weight than an `i64` holds.** Distinct ready lanes, each of the greatest weight and with accumulator zero:
their weights sum beyond the type, and the chosen lane's accumulator is not its weight less that sum. -/
theorem selection_overflows :
    ((manyMembers manyLanes).map Prod.fst).Nodup ∧
      (∀ m ∈ manyMembers manyLanes, 0 < m.2 ∧ m.2 ≤ u32Max ∧ (manyStore manyLanes).laneWeight "gold" m.1 = 0) ∧
      HealthyUnchanged "gold" (manyMembers manyLanes) (manyStore manyLanes)
        (.selectWeightedFor "gold" (List.range manyLanes) (List.replicate manyLanes u32Max) 5) ∧
      i64Max < HealthState.totalWeight (manyMembers manyLanes) ∧
      ∃ m ∈ manyMembers manyLanes,
        ((manyStore manyLanes).selectWeightedFor "gold" (List.range manyLanes)
          (List.replicate manyLanes u32Max) 5).1 = some (some m.1) ∧
        ((manyStore manyLanes).selectWeightedFor "gold" (List.range manyLanes)
          (List.replicate manyLanes u32Max) 5).2.laneWeight "gold" m.1 ≠
            m.2 - HealthState.totalWeight (manyMembers manyLanes) := by
  have hlane : ∀ m ∈ manyMembers manyLanes,
      (manyStore manyLanes).lanes[m.1]? = some (LaneState.ofData HealthRun.plainLane) :=
    fun m hm => manyStore_lane (mem_manyMembers hm).1
  have hdistinct : ((manyMembers manyLanes).map Prod.fst).Nodup := by
    rw [fst_manyMembers]
    exact List.nodup_range
  have hzero : ∀ m ∈ manyMembers manyLanes, (manyStore manyLanes).laneWeight "gold" m.1 = 0 := by
    intro m hm
    rw [HealthState.laneWeight_of_get (hlane m hm)]
    rfl
  have hready : (HealthState.healthyMembers "gold" 5 (manyMembers manyLanes) (manyStore manyLanes)).1 =
      some (manyMembers manyLanes) := by
    refine HealthState.healthyMembers_ready _ _ _ fun m hm => ⟨?_, _, hlane m hm, rfl, by decide +kernel⟩
    rw [(mem_manyMembers hm).2]
    decide
  have htotal : HealthState.totalWeight (manyMembers manyLanes) = (2 ^ 31 + 4) * u32Max := total_manyMembers manyLanes
  refine ⟨hdistinct, fun m hm => ⟨?_, (mem_manyMembers hm).2.le, hzero m hm⟩, fun _ => hready, ?_, ?_⟩
  · rw [(mem_manyMembers hm).2]
    decide
  · rw [htotal]
    decide
  · rcases hcons : manyMembers manyLanes with _ | ⟨m₀, rest⟩
    · rw [hcons] at htotal
      exact absurd htotal (by decide)
    have hsel : (HealthState.healthyMembers "gold" 5 ((List.range manyLanes).zip (List.replicate manyLanes u32Max))
        (manyStore manyLanes)).1 = some (m₀ :: rest) := by
      rw [← hcons]
      exact hready
    rw [hcons] at hdistinct hzero htotal
    have hsmall : ∀ m ∈ m₀ :: rest, (m.2 : Int) ≤ i64Max := by
      intro m hm
      rw [(mem_manyMembers (hcons ▸ hm)).2]
      decide
    obtain ⟨m, hm, hbest, hweight⟩ := HealthState.select_first hsel hdistinct hzero hsmall
    refine ⟨m, hm, hbest, ?_⟩
    rw [hweight, htotal, (mem_manyMembers (hcons ▸ hm)).2]
    decide

end PoolOp

end Busbar
