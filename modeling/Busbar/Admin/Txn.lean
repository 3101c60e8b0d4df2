import Busbar.Lib.Exclusive
import Mathlib.Data.List.Chain
import Mathlib.Data.List.Infix

/-!
# Config transactions

The one door to the live configuration. A transaction takes the lock, reads the snapshot, decides on a plan, and the plan is
applied before the lock is given back: what is committed is written to disk first and swapped in after, and the blocking steps
of the plan, which may reach the disk and the store, go on under the same lock. The apply phase is a task of its own, so a
caller that goes away loses the answer and nothing else.

* `configTransaction`: a transaction as a program over the handle and what is outside of it.
* `transactions_serial`: **whatever comes in between, the transactions are those of the lock's order, one after the other.**
* `updates_chained`: **every swap builds on the one before, and no answered update is lost.**
* `disk_covers_live`: **at no time is the live configuration ahead of the disk.**
-/

namespace Busbar.Txn

open Exclusive

/-- The errors of the admin API; the transaction makes two of them itself. -/
inductive AdminError (E : Type) where
  | validation (message : String)
  | internal
  | other (e : E)

/-- How a transaction ends without a value: with an error for its caller, or with a panic in the caller's own task. -/
inductive Failure (E : Type) where
  | rejected (e : AdminError E)
  | unwound

inductive PersistFault where
  | refused (message : String)
  | panicked

/-- The seam to the running engine: the snapshot, and the snapshots the health probers were spawned against. -/
structure AppHandle (A : Type) where
  current : A
  probed : List A

def AppHandle.load {A : Type} (h : AppHandle A) : A := h.current

/-- The probers go with the snapshot. -/
def AppHandle.swap {A : Type} (next : A) (h : AppHandle A) : AppHandle A := ⟨next, h.probed ++ [next]⟩

mutual

/-- The plan of a transaction. `W` is what is outside of the handle: the disk and the store. -/
inductive Outcome (A W E T : Type) : Type 1 where
  | value (v : T)
  | commit (next : A) (persist : Prog W PersistFault Unit) (following : Then A W E T)
  | blocking (f : Deferred A W E T)

/-- What follows a commit. -/
inductive Then (A W E T : Type) : Type 1 where
  | value (v : T)
  | blocking (f : Deferred A W E T)

/-- Blocking work: accesses to what is outside, and then the next outcome, an error or a panic. -/
inductive Deferred (A W E T : Type) : Type 1 where
  | access {β : Type} (act : W → β × W) (next : β → Deferred A W E T)
  | finish (outcome : Outcome A W E T)
  | fail (e : AdminError E)
  | panic

end

variable {A W E T : Type}

/-- `AppHandle::commit_and_swap`, and what comes after it: nothing is swapped unless the disk took it. -/
def commitAndSwap (next : A) (after : Prog (AppHandle A × W) (Failure E) T) :
    Prog W PersistFault Unit → Prog (AppHandle A × W) (Failure E) T
  | .done (.ok ()) => .access (fun s => ((), (s.1.swap next, s.2))) fun _ => after
  | .done (.error (.refused message)) => .done (.error (.rejected (.validation message)))
  | .done (.error .panicked) => .done (.error (.rejected .internal))
  | .access act rest => .access (fun s => ((act s.2).1, (s.1, (act s.2).2))) fun b => commitAndSwap next after (rest b)

mutual

def Outcome.apply : Outcome A W E T → Prog (AppHandle A × W) (Failure E) T
  | .value v => .done (.ok v)
  | .commit next persist following => commitAndSwap next following.apply persist
  | .blocking f => f.apply

def Then.apply : Then A W E T → Prog (AppHandle A × W) (Failure E) T
  | .value v => .done (.ok v)
  | .blocking f => f.apply

/-- A panic of the blocking task is an internal error to the caller. -/
def Deferred.apply : Deferred A W E T → Prog (AppHandle A × W) (Failure E) T
  | .access act next => .access (fun s => ((act s.2).1, (s.1, (act s.2).2))) fun b => (next b).apply
  | .finish outcome => outcome.apply
  | .fail e => .done (.error (.rejected e))
  | .panic => .done (.error (.rejected .internal))

end

/-- The decision of a transaction on the fresh snapshot: a plan or an error, and none where it panics. -/
abbrev Body (A W E T : Type) : Type 1 := A → Option (Except (AdminError E) (Outcome A W E T))

/-- A transaction, from the lock on. -/
def configTransaction (body : Body A W E T) : Prog (AppHandle A × W) (Failure E) T :=
  .access (fun s => (s.1.load, s)) fun snapshot =>
    match body snapshot with
    | none => .done (.error .unwound)
    | some (.error e) => .done (.error (.rejected e))
    | some (.ok outcome) => outcome.apply

/-! ## One after the other -/

/-- What has become of a transaction in a run. -/
inductive Course (t : Sections (AppHandle A × W) (Failure E) T) (bodies : List (Body A W E T)) (s₀ : AppHandle A × W) (i : Nat)
    (body : Body A W E T) : Prop where
  | never : i ∉ t.order → t.calls[i]? = some (.waiting (configTransaction body)) ∨ t.calls[i]? = some .cancelled →
      Course t bodies s₀ i body
  | answered {before after : List Nat} {abandoned : Bool} : t.order = before ++ i :: after →
      t.calls[i]? = some (.ended ((configTransaction body).run (serial (bodies.map configTransaction) before s₀)).1 abandoned) →
      Course t bodies s₀ i body

/-- **Whatever comes in between, the transactions are those of the lock's order, one after the other**: when the lock is free,
the handle and what is outside are as that order leaves them, a transaction has the answer it gets there, and one that never
had the lock did nothing. -/
theorem transactions_serial (bodies : List (Body A W E T)) (s₀ : AppHandle A × W) (events : List Event)
    (t : Sections (AppHandle A × W) (Failure E) T)
    (ht : t = Run.exec Sections.step (Sections.start (bodies.map configTransaction) s₀) events) (hfree : t.holder = none) :
    t.order.Nodup ∧ t.state = serial (bodies.map configTransaction) t.order s₀ ∧
      ∀ i body, bodies[i]? = some body → Course t bodies s₀ i body := by
  have hserial : Serial (bodies.map configTransaction) s₀ t := ht ▸ Serial.exec events
  refine ⟨hserial.nodup, hserial.free hfree, fun i body hi => ?_⟩
  have hprog : (bodies.map configTransaction)[i]? = some (configTransaction body) := by
    rw [List.getElem?_map, hi]
    rfl
  cases hserial.places i _ hprog with
  | out _ hnot hphase => exact .never hnot hphase
  | holds hholder _ _ _ =>
    rw [hfree] at hholder
    cases hholder
  | ended _ horder hphase => exact .answered horder hphase

/-- A transaction that counts the version up, on the disk and live. -/
def bump : Body Nat Nat Unit Unit := fun v => some (.ok (.commit (v + 1) (.modify fun _ => v + 1) (.value ())))

/-- Two of them: the second one comes while the first is inside, and the caller of the first goes away. -/
def crossing : List Event :=
  [.acquire 0, .advance 0, .acquire 1, .cancel 0, .advance 0, .advance 0, .advance 0, .acquire 1, .advance 1, .advance 1,
    .advance 1, .advance 1]

def crossed : Sections (AppHandle Nat × Nat) (Failure Unit) Unit :=
  Run.exec Sections.step (Sections.start ([bump, bump].map configTransaction) (⟨0, []⟩, 0)) crossing

theorem transactions_serial_crossed : crossed.order.Nodup ∧
    crossed.state = serial ([bump, bump].map configTransaction) crossed.order (⟨0, []⟩, 0) ∧
      ∀ i body, [bump, bump][i]? = some body → Course crossed [bump, bump] (⟨0, []⟩, 0) i body :=
  transactions_serial [bump, bump] (⟨0, []⟩, 0) crossing crossed rfl rfl

/-! ## What a plan may do to the handle -/

mutual

/-- The plan commits nothing. -/
def Outcome.Quiet : Outcome A W E T → Prop
  | .value _ => True
  | .commit _ _ _ => False
  | .blocking f => f.Quiet

def Deferred.Quiet : Deferred A W E T → Prop
  | .access _ next => ∀ b, (next b).Quiet
  | .finish outcome => outcome.Quiet
  | .fail _ => True
  | .panic => True

end

def Then.Quiet : Then A W E T → Prop
  | .value _ => True
  | .blocking f => f.Quiet

mutual

/-- The plan has no answer before it has committed once, and what it commits is as required. -/
def Outcome.CommitsOnce (P : A → Prop) : Outcome A W E T → Prop
  | .value _ => False
  | .commit next _ following => P next ∧ following.Quiet
  | .blocking f => f.CommitsOnce P

def Deferred.CommitsOnce (P : A → Prop) : Deferred A W E T → Prop
  | .access _ next => ∀ b, (next b).CommitsOnce P
  | .finish outcome => outcome.CommitsOnce P
  | .fail _ => True
  | .panic => True

end

mutual

theorem Outcome.quiet_run (o : Outcome A W E T) (h : o.Quiet) (s : AppHandle A × W) : (o.apply.run s).2.1 = s.1 := by
  cases o with
  | value v => rfl
  | commit next persist following => exact h.elim
  | blocking f => exact Deferred.quiet_run f h s

theorem Deferred.quiet_run (f : Deferred A W E T) (h : f.Quiet) (s : AppHandle A × W) : (f.apply.run s).2.1 = s.1 := by
  cases f with
  | access act next => exact Deferred.quiet_run (next _) (h _) _
  | finish o => exact Outcome.quiet_run o h s
  | fail e => rfl
  | panic => rfl

end

theorem Then.quiet_run (f : Then A W E T) (h : f.Quiet) (s : AppHandle A × W) : (f.apply.run s).2.1 = s.1 := by
  cases f with
  | value v => rfl
  | blocking f => exact f.quiet_run h s

/-- A commit that the disk refuses swaps nothing. -/
theorem commitAndSwap_run (next : A) (after : Prog (AppHandle A × W) (Failure E) T) (persist : Prog W PersistFault Unit)
    (s : AppHandle A × W) :
    (∃ w, (commitAndSwap next after persist).run s = after.run (s.1.swap next, w) ∧ persist.run s.2 = (.ok (), w)) ∨
      ∃ e w, (commitAndSwap next after persist).run s = (.error e, (s.1, w)) := by
  induction persist generalizing s with
  | done r =>
    cases r with
    | ok u => exact Or.inl ⟨s.2, rfl, rfl⟩
    | error fault => cases fault <;> exact Or.inr ⟨_, s.2, rfl⟩
  | access act rest ih => exact ih (act s.2).1 (s.1, (act s.2).2)

/-- What a plan that commits once leaves in the handle. -/
structure Landed (P : A → Prop) (h : AppHandle A) (r : Except (Failure E) T × (AppHandle A × W)) : Prop where
  kept : r.2.1 = h ∨ ∃ next, P next ∧ r.2.1 = h.swap next
  answered : ∀ v, r.1 = .ok v → ∃ next, P next ∧ r.2.1 = h.swap next

theorem landed_error {P : A → Prop} {h : AppHandle A} (e : Failure E) (w : W) :
    Landed (T := T) P h (.error e, (h, w)) := ⟨Or.inl rfl, fun v hv => by cases hv⟩

mutual

theorem Outcome.commits_run {P : A → Prop} (o : Outcome A W E T) (ho : o.CommitsOnce P) (s : AppHandle A × W) :
    Landed P s.1 (o.apply.run s) := by
  cases o with
  | value v => exact ho.elim
  | commit next persist following =>
    obtain ⟨hnext, hquiet⟩ := ho
    rcases commitAndSwap_run next following.apply persist s with ⟨w, hrun, -⟩ | ⟨e, w, hrun⟩
    · have hswapped : ((commitAndSwap next following.apply persist).run s).2.1 = s.1.swap next := by
        rw [hrun]
        exact following.quiet_run hquiet _
      exact ⟨Or.inr ⟨next, hnext, hswapped⟩, fun _ _ => ⟨next, hnext, hswapped⟩⟩
    · show Landed P s.1 ((commitAndSwap next following.apply persist).run s)
      rw [hrun]
      exact landed_error e w
  | blocking f => exact Deferred.commits_run f ho s

theorem Deferred.commits_run {P : A → Prop} (f : Deferred A W E T) (hf : f.CommitsOnce P) (s : AppHandle A × W) :
    Landed P s.1 (f.apply.run s) := by
  cases f with
  | access act next => exact Deferred.commits_run (next (act s.2).1) (hf _) (s.1, (act s.2).2)
  | finish o => exact Outcome.commits_run o hf s
  | fail e => exact landed_error _ s.2
  | panic => exact landed_error _ s.2

end

/-! ## No update is lost -/

variable {R : A → A → Prop}

/-- Every plan of the body commits once, a snapshot made from the one it was given. -/
def Updates (R : A → A → Prop) (body : Body A W E T) : Prop :=
  ∀ a o, body a = some (.ok o) → o.CommitsOnce (R a)

theorem transaction_run {body : Body A W E T} (hbody : Updates R body) (s : AppHandle A × W) :
    Landed (R s.1.current) s.1 ((configTransaction body).run s) := by
  unfold configTransaction
  rw [Prog.run]
  unfold AppHandle.load
  dsimp only
  cases hplan : body s.1.current with
  | none => exact landed_error _ s.2
  | some plan =>
    cases plan with
    | error e => exact landed_error _ s.2
    | ok o => exact o.commits_run (hbody _ o hplan) s

/-- The swaps so far, each made from the one before. -/
def Chained (R : A → A → Prop) (a₀ : A) (h : AppHandle A) : Prop :=
  List.IsChain R (a₀ :: h.probed) ∧ h.current = (a₀ :: h.probed).getLast (List.cons_ne_nil _ _)

theorem Chained.swap {a₀ next : A} {h : AppHandle A} (hc : Chained R a₀ h) (hnext : R h.current next) :
    Chained R a₀ (h.swap next) := by
  obtain ⟨hchain, hlast⟩ := hc
  have hcons : a₀ :: (h.swap next).probed = (a₀ :: h.probed) ++ [next] := rfl
  refine ⟨?_, ?_⟩
  · rw [hcons, List.isChain_append]
    refine ⟨hchain, List.isChain_singleton next, fun x hx y hy => ?_⟩
    rw [List.getLast?_eq_getLast_of_ne_nil (List.cons_ne_nil _ _), Option.mem_some_iff, ← hlast] at hx
    rw [List.head?_cons, Option.mem_some_iff] at hy
    rw [← hx, ← hy]
    exact hnext
  · simp only [hcons, List.getLast_append_singleton]
    rfl

/-- It holds of the handle as long as nothing is swapped. -/
theorem throughout_access {J : AppHandle A → Prop} {β : Type} {act : W → β × W} {next : β → Prog (AppHandle A × W) (Failure E) T}
    {s : AppHandle A × W} (hJ : J s.1) (hnext : Throughout (fun s => J s.1) (next (act s.2).1) (s.1, (act s.2).2)) :
    Throughout (fun s => J s.1) (.access (fun s : AppHandle A × W => ((act s.2).1, (s.1, (act s.2).2))) next) s :=
  ⟨hJ, hnext⟩

theorem throughout_commit {J : AppHandle A → Prop} {next : A} {after : Prog (AppHandle A × W) (Failure E) T}
    (persist : Prog W PersistFault Unit) {s : AppHandle A × W} (hJ : J s.1)
    (hafter : ∀ w, Throughout (fun s => J s.1) after (s.1.swap next, w)) :
    Throughout (fun s => J s.1) (commitAndSwap next after persist) s := by
  induction persist generalizing s with
  | done r =>
    cases r with
    | ok u => exact ⟨hJ, hafter s.2⟩
    | error fault => cases fault <;> exact hJ
  | access act rest ih => exact throughout_access hJ (ih (act s.2).1 hJ hafter)

mutual

theorem Outcome.quiet_throughout {J : AppHandle A → Prop} (o : Outcome A W E T) (ho : o.Quiet) {s : AppHandle A × W}
    (hJ : J s.1) : Throughout (fun s => J s.1) o.apply s := by
  cases o with
  | value v => exact hJ
  | commit next persist following => exact ho.elim
  | blocking f => exact Deferred.quiet_throughout f ho hJ

theorem Deferred.quiet_throughout {J : AppHandle A → Prop} (f : Deferred A W E T) (hf : f.Quiet) {s : AppHandle A × W}
    (hJ : J s.1) : Throughout (fun s => J s.1) f.apply s := by
  cases f with
  | access act next => exact throughout_access hJ (Deferred.quiet_throughout (next _) (hf _) hJ)
  | finish o => exact Outcome.quiet_throughout o hf hJ
  | fail e => exact hJ
  | panic => exact hJ

end

theorem Then.quiet_throughout {J : AppHandle A → Prop} (f : Then A W E T) (hf : f.Quiet) {s : AppHandle A × W}
    (hJ : J s.1) : Throughout (fun s => J s.1) f.apply s := by
  cases f with
  | value v => exact hJ
  | blocking f => exact f.quiet_throughout hf hJ

mutual

theorem Outcome.commits_throughout {J : AppHandle A → Prop} {P : A → Prop} (o : Outcome A W E T) (ho : o.CommitsOnce P)
    {s : AppHandle A × W} (hJ : J s.1) (hswap : ∀ next, P next → J (s.1.swap next)) :
    Throughout (fun s => J s.1) o.apply s := by
  cases o with
  | value v => exact hJ
  | commit next persist following =>
    exact throughout_commit persist hJ fun w => following.quiet_throughout ho.2 (hswap next ho.1)
  | blocking f => exact Deferred.commits_throughout f ho hJ hswap

theorem Deferred.commits_throughout {J : AppHandle A → Prop} {P : A → Prop} (f : Deferred A W E T) (hf : f.CommitsOnce P)
    {s : AppHandle A × W} (hJ : J s.1) (hswap : ∀ next, P next → J (s.1.swap next)) :
    Throughout (fun s => J s.1) f.apply s := by
  cases f with
  | access act next => exact throughout_access hJ (Deferred.commits_throughout (next _) (hf _) hJ hswap)
  | finish o => exact Outcome.commits_throughout o hf hJ hswap
  | fail e => exact hJ
  | panic => exact hJ

end

theorem chained_throughout {a₀ : A} {body : Body A W E T} (hbody : Updates R body) {s : AppHandle A × W}
    (hc : Chained R a₀ s.1) : Throughout (fun s => Chained R a₀ s.1) (configTransaction body) s := by
  unfold configTransaction
  refine ⟨hc, ?_⟩
  unfold AppHandle.load
  dsimp only
  cases hplan : body s.1.current with
  | none => exact hc
  | some plan =>
    cases plan with
    | error e => exact hc
    | ok o => exact o.commits_throughout (hbody _ o hplan) hc fun next hnext => hc.swap hnext

/-- What the handle has of swaps after some transactions, it keeps. -/
theorem serial_extends {bodies : List (Body A W E T)} (hbodies : ∀ body ∈ bodies, Updates R body) (order after : List Nat)
    (s₀ : AppHandle A × W) :
    (serial (bodies.map configTransaction) order s₀).1.probed <+:
      (serial (bodies.map configTransaction) (order ++ after) s₀).1.probed := by
  induction after using List.reverseRecOn with
  | nil =>
    rw [List.append_nil]
  | append_singleton after i ih =>
    refine ih.trans ?_
    rw [← List.append_assoc]
    cases hi : bodies[i]? with
    | none =>
      have hnone : (bodies.map configTransaction)[i]? = none := by
        rw [List.getElem?_map, hi]
        rfl
      rw [serial_snoc_none _ _ hnone]
    | some body =>
      have hprog : (bodies.map configTransaction)[i]? = some (configTransaction body) := by
        rw [List.getElem?_map, hi]
        rfl
      rw [serial_snoc _ _ hprog]
      have hlanded := transaction_run (hbodies body (List.mem_of_getElem? hi))
        (serial (bodies.map configTransaction) (order ++ after) s₀)
      unfold Prog.exec
      rcases hlanded.kept with hkept | ⟨next, -, hswapped⟩
      · rw [hkept]
      · rw [hswapped]
        exact List.prefix_append _ _

/-- **Every swap builds on the one before, and no answered update is lost.** At any time of any run the snapshots that were
swapped in are a chain of updates from the first one to the live one. Where the lock is free, a transaction that was answered
has its own link in the chain: made from the snapshot that the transactions before it left. -/
theorem updates_chained {bodies : List (Body A W E T)} (hbodies : ∀ body ∈ bodies, Updates R body) (a₀ : A) (w₀ : W)
    (events : List Event) (t : Sections (AppHandle A × W) (Failure E) T)
    (ht : t = Run.exec Sections.step (Sections.start (bodies.map configTransaction) (⟨a₀, []⟩, w₀)) events) :
    Chained R a₀ t.state.1 ∧
      (t.holder = none → ∀ (i : Nat) (v : T) (abandoned : Bool), t.calls[i]? = some (.ended (.ok v) abandoned) →
        ∃ before after next, t.order = before ++ i :: after ∧
          R (serial (bodies.map configTransaction) before (⟨a₀, []⟩, w₀)).1.current next ∧
          (serial (bodies.map configTransaction) before (⟨a₀, []⟩, w₀)).1.probed ++ [next] <+: t.state.1.probed) := by
  subst ht
  refine ⟨?_, fun hfree i v abandoned hi => ?_⟩
  · have hkept : ∀ p ∈ bodies.map configTransaction, ∀ s : AppHandle A × W, Chained R a₀ s.1 →
        Throughout (fun s => Chained R a₀ s.1) p s := by
      intro p hp s hs
      obtain ⟨body, hbody, rfl⟩ := List.mem_map.1 hp
      exact chained_throughout (hbodies body hbody) hs
    have hstart : Chained R a₀ ⟨a₀, []⟩ := ⟨List.isChain_singleton a₀, rfl⟩
    exact throughout_exec hkept hstart events
  · have hserial := @Serial.exec _ _ _ (bodies.map configTransaction) (⟨a₀, []⟩, w₀) events
    generalize Run.exec Sections.step (Sections.start (bodies.map configTransaction) (⟨a₀, []⟩, w₀)) events = t
      at hfree hi hserial ⊢
    cases hb : bodies[i]? with
    | none =>
      have hnone := hserial.known i (by rw [List.getElem?_map, hb]; rfl)
      rw [hi] at hnone
      cases hnone
    | some body =>
      have hprog : (bodies.map configTransaction)[i]? = some (configTransaction body) := by
        rw [List.getElem?_map, hb]
        rfl
      cases hserial.places i _ hprog with
      | out _ _ hphase => rcases hphase with hphase | hphase <;> rw [hi] at hphase <;> cases hphase
      | holds hholder _ _ _ =>
        rw [hfree] at hholder
        cases hholder
      | @ended before after _ _ horder hphase =>
        rw [hi, Option.some.injEq, Phase.ended.injEq] at hphase
        have hlanded := transaction_run (hbodies body (List.mem_of_getElem? hb))
          (serial (bodies.map configTransaction) before (⟨a₀, []⟩, w₀))
        obtain ⟨next, hnext, hswapped⟩ := hlanded.answered v hphase.1.symm
        refine ⟨before, after, next, horder, hnext, ?_⟩
        have hpre := serial_extends hbodies (before ++ [i]) after (⟨a₀, []⟩, w₀)
        rw [List.append_assoc, List.singleton_append, ← horder, ← hserial.free hfree, serial_snoc _ _ hprog] at hpre
        unfold Prog.exec at hpre
        rw [hswapped] at hpre
        exact hpre

theorem bump_updates : Updates (fun v next => next = v + 1) bump := by
  intro v o ho
  cases ho
  exact ⟨rfl, trivial⟩

theorem updates_chained_crossed : Chained (fun v next => next = v + 1) 0 crossed.state.1 ∧
    (crossed.holder = none → ∀ (i : Nat) (v : Unit) (abandoned : Bool),
      crossed.calls[i]? = some (.ended (.ok v) abandoned) →
        ∃ before after next, crossed.order = before ++ i :: after ∧
          next = (serial ([bump, bump].map configTransaction) before (⟨0, []⟩, 0)).1.current + 1 ∧
          (serial ([bump, bump].map configTransaction) before (⟨0, []⟩, 0)).1.probed ++ [next] <+: crossed.state.1.probed) := by
  have hbodies : ∀ body ∈ [bump, bump], Updates (fun v next => next = v + 1) body := by
    intro body hbody
    rw [List.eq_of_mem_replicate (show body ∈ List.replicate 2 bump from hbody)]
    exact bump_updates
  exact updates_chained hbodies 0 0 crossing crossed rfl

/-! ## The disk is never behind -/

variable {D : W → A → Prop}

/-- The persist step of a commit: the disk covers the snapshot the plan was made from all the time, and the new one in the end. -/
def Establishes (D : W → A → Prop) (a next : A) (persist : Prog W PersistFault Unit) : Prop :=
  ∀ w, D w a → Throughout (fun w => D w a) persist w ∧ ∀ w', persist.run w = (.ok (), w') → D w' next

mutual

/-- The plan keeps what is live covered by the disk. -/
def Outcome.Secures (D : W → A → Prop) (a : A) : Outcome A W E T → Prop
  | .value _ => True
  | .commit next persist following => Establishes D a next persist ∧ following.Secures D next
  | .blocking f => f.Secures D a

def Then.Secures (D : W → A → Prop) (a : A) : Then A W E T → Prop
  | .value _ => True
  | .blocking f => f.Secures D a

def Deferred.Secures (D : W → A → Prop) (a : A) : Deferred A W E T → Prop
  | .access act next => (∀ w, D w a → D (act w).2 a) ∧ ∀ b, (next b).Secures D a
  | .finish outcome => outcome.Secures D a
  | .fail _ => True
  | .panic => True

end

/-- The disk covers what is live. -/
def Covered (D : W → A → Prop) (s : AppHandle A × W) : Prop := D s.2 s.1.current

theorem covered_commit {next : A} {after : Prog (AppHandle A × W) (Failure E) T} (persist : Prog W PersistFault Unit)
    {s : AppHandle A × W} (hkept : Throughout (fun w => D w s.1.current) persist s.2)
    (hafter : ∀ w, persist.run s.2 = (.ok (), w) → Throughout (Covered D) after (s.1.swap next, w)) :
    Throughout (Covered D) (commitAndSwap next after persist) s := by
  induction persist generalizing s with
  | done r =>
    cases r with
    | ok u => exact ⟨hkept, hafter s.2 rfl⟩
    | error fault => cases fault <;> exact hkept
  | access act rest ih => exact ⟨hkept.1, @ih (act s.2).1 (s.1, (act s.2).2) hkept.2 hafter⟩

mutual

theorem Outcome.secures_throughout (o : Outcome A W E T) {s : AppHandle A × W} (ho : o.Secures D s.1.current)
    (hs : Covered D s) : Throughout (Covered D) o.apply s := by
  cases o with
  | value v => exact hs
  | commit next persist following =>
    obtain ⟨hpersist, hfollowing⟩ := ho
    obtain ⟨hkept, hdone⟩ := hpersist s.2 hs
    exact covered_commit persist hkept fun w hw =>
      @Then.secures_throughout following (s.1.swap next, w) hfollowing (hdone w hw)
  | blocking f => exact Deferred.secures_throughout f ho hs

theorem Then.secures_throughout (f : Then A W E T) {s : AppHandle A × W} (hf : f.Secures D s.1.current)
    (hs : Covered D s) : Throughout (Covered D) f.apply s := by
  cases f with
  | value v => exact hs
  | blocking f => exact Deferred.secures_throughout f hf hs

theorem Deferred.secures_throughout (f : Deferred A W E T) {s : AppHandle A × W} (hf : f.Secures D s.1.current)
    (hs : Covered D s) : Throughout (Covered D) f.apply s := by
  cases f with
  | access act next =>
    exact ⟨hs, @Deferred.secures_throughout (next (act s.2).1) (s.1, (act s.2).2) (hf.2 _) (hf.1 s.2 hs)⟩
  | finish o => exact Outcome.secures_throughout o hf hs
  | fail e => exact hs
  | panic => exact hs

end

/-- **At no time is the live configuration ahead of the disk**: where every commit persists what it swaps in, a crash at any
point of any run comes up with what was live, or with what was about to be. -/
theorem disk_covers_live {bodies : List (Body A W E T)}
    (hbodies : ∀ body ∈ bodies, ∀ a o, body a = some (.ok o) → o.Secures D a) {s₀ : AppHandle A × W} (h₀ : Covered D s₀)
    (events : List Event) :
    Covered D (Run.exec Sections.step (Sections.start (bodies.map configTransaction) s₀) events).state := by
  refine throughout_exec (fun p hp s hs => ?_) h₀ events
  obtain ⟨body, hbody, rfl⟩ := List.mem_map.1 hp
  unfold configTransaction
  refine ⟨hs, ?_⟩
  unfold AppHandle.load
  dsimp only
  cases hplan : body s.1.current with
  | none => exact hs
  | some plan =>
    cases plan with
    | error e => exact hs
    | ok o => exact o.secures_throughout (hbodies body hbody _ o hplan) hs

theorem disk_covers_live_crossed : Covered (fun disk live => live ≤ disk) crossed.state := by
  refine @disk_covers_live _ _ _ _ (fun disk live => live ≤ disk) [bump, bump] (fun body hbody v o ho => ?_) (⟨0, []⟩, 0)
    (Nat.le_refl 0) crossing
  rw [List.eq_of_mem_replicate (show body ∈ List.replicate 2 bump from hbody)] at ho
  cases ho
  refine ⟨fun w hw => ⟨⟨hw, Nat.le_succ v⟩, fun w' hw' => ?_⟩, trivial⟩
  cases hw'
  exact Nat.le_refl _

end Busbar.Txn
