import Busbar.Lib.Gate

/-!
# Calls behind a gate, by what they rely on

An invariant of the shared state that gated calls keep only as long as the other calls do no more than they rely
on: `R op` says what may happen to the state between two accesses of a gated call of `op`.

* `Prog.Safe`: the program keeps the invariant between changes its rely allows.
* `Prog.Within`: every access of the program is a change of a given kind.
* `reliant_run`: the invariant holds along every run in which each ungated access is one the gated call under way
  relies on.
-/

namespace Prog

variable {S ε α β : Type} {I : S → Prop} {R : S → S → Prop}

/-- From `s` on, and whatever changes of the kind `R` come between its accesses, the program keeps `I` and ends
as `Q` says. -/
def Safe (I : S → Prop) (R : S → S → Prop) (Q : Except ε α → S → Prop) : Prog S ε α → S → Prop
  | done r, s => ∀ s', R s s' → I s' → Q r s'
  | access act next, s => ∀ s', R s s' → I s' → I (act s').2 ∧ Safe I R Q (next (act s').1) (act s').2

/-- Every access of the program, from whatever state, is a change of the kind `E`, and `Q` holds of the value it
ends with. -/
def Within (E : S → S → Prop) (Q : α → Prop) : Prog S ε α → Prop
  | done r => ∀ a, r = .ok a → Q a
  | access act next => ∀ s, E s (act s).2 ∧ Within E Q (next (act s).1)

section Within

variable {E : S → S → Prop} {Q : α → Prop}

theorem within_pure {a : α} (h : Q a) : (pure a : Prog S ε α).Within E Q := by
  intro b hb
  cases hb
  exact h

theorem within_throw (e : ε) : (throw e : Prog S ε α).Within E Q := by
  intro b hb
  cases hb

theorem within_read (hrefl : ∀ s, E s s) {f : S → α} (h : ∀ s, Q (f s)) : (read f : Prog S ε α).Within E Q :=
  fun s => ⟨hrefl s, within_pure (h s)⟩

theorem within_modify {f : S → S} (h : ∀ s, E s (f s)) : (modify f : Prog S ε Unit).Within E (fun _ => True) :=
  fun s => ⟨h s, fun _ _ => trivial⟩

theorem within_attempt (hrefl : ∀ s, E s s) {f : S → Except ε (α × S)}
    (h : ∀ s a s', f s = .ok (a, s') → E s s') : (attempt f).Within E (fun _ => True) := by
  intro s
  cases hf : f s with
  | error e => exact ⟨by simpa only [hf] using hrefl s, fun _ _ => trivial⟩
  | ok r =>
    obtain ⟨a, s'⟩ := r
    exact ⟨by simpa only [hf] using h s a s' hf, fun _ _ => trivial⟩

theorem Within.bind {R : β → Prop} {p : Prog S ε α} {f : α → Prog S ε β} (hp : p.Within E Q)
    (hf : ∀ a, Q a → (f a).Within E R) : (p >>= f).Within E R := by
  induction p with
  | done r =>
    cases r with
    | ok a => exact hf a (hp a rfl)
    | error e =>
      intro b hb
      cases hb
  | access act next ih =>
    intro s
    obtain ⟨hE, hnext⟩ := hp s
    exact ⟨hE, ih _ hnext⟩

theorem Within.result {p : Prog S ε α} (hp : p.Within E Q) :
    p.result.Within E (fun r => ∀ a, r = .ok a → Q a) := by
  induction p with
  | done r =>
    intro b hb
    cases hb
    exact hp
  | access act next ih =>
    intro s
    obtain ⟨hE, hnext⟩ := hp s
    exact ⟨hE, ih _ hnext⟩

end Within

theorem Safe.env {Q : Except ε α → S → Prop} {p : Prog S ε α} {s s' : S} (h : p.Safe I R Q s)
    (htrans : ∀ {a b c}, R a b → R b c → R a c) (hs : R s s') : p.Safe I R Q s' := by
  cases p with
  | done r => exact fun s'' hs'' hI => h s'' (htrans hs hs'') hI
  | access act next => exact fun s'' hs'' hI => h s'' (htrans hs hs'') hI

theorem Safe.relying {R' : S → S → Prop} {Q : Except ε α → S → Prop} {p : Prog S ε α} {s : S} (h : p.Safe I R Q s)
    (hR : ∀ s s', R' s s' → R s s') : p.Safe I R' Q s := by
  induction p generalizing s with
  | done r => exact fun s' hs hI => h s' (hR _ _ hs) hI
  | access act next ih =>
    intro s' hs hI
    obtain ⟨hI', hnext⟩ := h s' (hR _ _ hs) hI
    exact ⟨hI', ih _ hnext⟩

/-- A program whose accesses are all of a kind that keeps the invariant needs nothing of its rely. -/
theorem Within.safe {E : S → S → Prop} {Q : α → Prop} {p : Prog S ε α} (hp : p.Within E Q)
    (hkeep : ∀ s s', E s s' → I s → I s') (s : S) : p.Safe I R (fun _ _ => True) s := by
  induction p generalizing s with
  | done r => exact fun _ _ _ => trivial
  | access act next ih =>
    intro s' _ hI
    obtain ⟨hE, hnext⟩ := hp s'
    exact ⟨hkeep _ _ hE hI, ih _ hnext _⟩

/-- What follows a safe program need only be safe from any state. -/
theorem Safe.followed {p : Prog S ε α} {f : α → Prog S ε β} {s : S} (hp : p.Safe I R (fun _ _ => True) s)
    (hf : ∀ a s, (f a).Safe I R (fun _ _ => True) s) : (p >>= f).Safe I R (fun _ _ => True) s := by
  induction p generalizing s with
  | done r =>
    cases r with
    | ok a => exact hf a s
    | error e => exact fun _ _ _ => trivial
  | access act next ih =>
    intro s' hs hI
    obtain ⟨hI', hnext⟩ := hp s' hs hI
    exact ⟨hI', ih _ hnext⟩

/-- A read: what follows starts from a state the rely allows. -/
theorem safe_read {Q : Except ε β → S → Prop} {f : S → α} {g : α → Prog S ε β} {s : S}
    (h : ∀ s', R s s' → I s' → (g (f s')).Safe I R Q s') : (read f >>= g).Safe I R Q s :=
  fun s' hs hI => ⟨hI, h s' hs hI⟩

/-- An access that may be refused: granted, it keeps the invariant and goes on. -/
theorem safe_attempt {f : S → Except ε (α × S)} {g : α → Prog S ε β} {s : S}
    (h : ∀ s', R s s' → I s' → ∀ a t, f s' = .ok (a, t) → I t ∧ ∀ t', (g a).Safe I R (fun _ _ => True) t') :
    (attempt f >>= g).Safe I R (fun _ _ => True) s := by
  intro s' hs hI
  dsimp only [attempt, Prog.bind]
  cases hf : f s' with
  | error e => exact ⟨hI, fun _ _ _ => trivial⟩
  | ok r =>
    obtain ⟨a, t⟩ := r
    obtain ⟨hI', hnext⟩ := h s' hs hI a t hf
    exact ⟨hI', hnext t⟩

end Prog

namespace Gate

open Prog

variable {S ε Op : Type} (lock : S → Nat) (P : Plan S ε Op) (I : S → Prop) (E : S → S → Prop)
  (R : Op → S → S → Prop)

/-- What the operations rely on and what they do. -/
structure Reliant : Prop where
  refl : ∀ op s, R op s s
  trans : ∀ op {a b c}, R op a b → R op b c → R op a c
  gated : ∀ op, P.gated op = true → ∀ s, I s → (P.body op).Safe I (R op) (fun _ _ => True) s
  lone : ∀ op, P.gated op = false → (P.body op).Within E (fun _ => True)
  keeps : ∀ s s', E s s' → I s → I s'

/-- Each gated call under way is safe from here, there is at most one, and the ungated calls keep to `E`. -/
structure RelyInv (sys : Sys S ε Op) : Prop where
  inv : I sys.shared
  lone : ∀ c ∈ sys.calls, P.gated c.op = false → c.prog.Within E (fun _ => True)
  safe : ∀ c ∈ sys.calls, P.gated c.op = true → c.prog.ended = false →
    c.prog.Safe I (R c.op) (fun _ _ => True) sys.shared
  sole : ∀ (i j : ℕ) (c d : Call S ε Op), sys.calls[i]? = some c → sys.calls[j]? = some d →
    P.gated c.op = true → P.gated d.op = true → c.prog.ended = false → d.prog.ended = false → i = j

/-- The next step, if it is an ungated call's, is one the gated call under way relies on. -/
def Relied (sys : Sys S ε Op) (e : Event Op) : Prop :=
  ∀ i c d, e = .advance i → sys.calls[i]? = some d → P.gated d.op = false → c ∈ sys.calls → P.gated c.op = true →
    c.prog.ended = false → E sys.shared (step lock P true sys e).shared →
    R c.op sys.shared (step lock P true sys e).shared

variable {lock P I E R} {sys : Sys S ε Op}

theorem RelyInv.called (hr : Reliant P I E R) (h : RelyInv P I E R sys) {op : Op}
    (hfree : P.gated op = true → busy P sys = false) :
    RelyInv P I E R { sys with calls := sys.calls ++ [⟨op, P.body op⟩] } := by
  have hidle : P.gated op = true → ∀ c ∈ sys.calls, P.gated c.op = true → c.prog.ended = true :=
    fun hg => busy_eq_false.1 (hfree hg)
  refine ⟨h.inv, ?_, ?_, ?_⟩
  · intro c hc hg
    rcases List.mem_append.1 hc with hc | hc
    · exact h.lone c hc hg
    · cases List.mem_singleton.1 hc
      exact hr.lone op hg
  · intro c hc hg ho
    rcases List.mem_append.1 hc with hc | hc
    · exact h.safe c hc hg ho
    · cases List.mem_singleton.1 hc
      exact hr.gated op hg _ h.inv
  · intro i j c d hc hd hgc hgd hoc hod
    rcases getElem?_snoc_cases hc with hc | ⟨rfl, rfl⟩ <;> rcases getElem?_snoc_cases hd with hd | ⟨rfl, rfl⟩
    · exact h.sole i j c d hc hd hgc hgd hoc hod
    · rw [hidle hgd c (List.mem_of_getElem? hc) hgc] at hoc
      cases hoc
    · rw [hidle hgc d (List.mem_of_getElem? hd) hgd] at hod
      cases hod
    · rfl

theorem RelyInv.step (hr : Reliant P I E R) (h : RelyInv P I E R sys) {e : Event Op}
    (hrely : Relied lock P E R sys e) : RelyInv P I E R (step lock P true sys e) := by
  cases e with
  | call op =>
    rcases step_call lock P true sys op with he | ⟨hfree, he⟩
    · rw [he]
      exact h
    · rw [he]
      exact h.called hr fun hg => hfree rfl hg
  | advance i =>
    have hrely := fun c d => hrely i c d rfl
    rcases step_advance lock P true sys i with he | ⟨⟨op, p⟩, hc, -, he⟩
    · rw [he]
      exact h
    · rw [he] at hrely ⊢
      have hmem := List.mem_of_getElem? hc
      cases p with
      | done r =>
        have hsame : sys.calls.set i ⟨op, done r⟩ = sys.calls := by
          obtain ⟨hlt, hget⟩ := List.getElem?_eq_some_iff.1 hc
          rw [← hget, List.set_getElem_self]
        dsimp only [Prog.step]
        rw [hsame]
        exact h
      | access act next =>
        dsimp only [Prog.step] at hrely ⊢
        have hsole : ∀ (j k : ℕ) (c d : Call S ε Op), (sys.calls.set i ⟨op, next (act sys.shared).1⟩)[j]? = some c →
            (sys.calls.set i ⟨op, next (act sys.shared).1⟩)[k]? = some d → P.gated c.op = true →
            P.gated d.op = true → c.prog.ended = false → d.prog.ended = false → j = k := by
          intro j k c d hc' hd' hgc hgd hoc hod
          rcases getElem?_set_cases hc' with ⟨-, hj⟩ | ⟨hj, rfl⟩ <;>
            rcases getElem?_set_cases hd' with ⟨-, hk⟩ | ⟨hk, rfl⟩
          · exact h.sole j k c d hj hk hgc hgd hoc hod
          · exact (h.sole j i c _ hj hc hgc hgd hoc rfl).trans hk.symm
          · exact hj.trans (h.sole i k _ d hc hk hgc hgd rfl hod)
          · exact hj.trans hk.symm
        cases hg : P.gated op with
        | false =>
          obtain ⟨hE, hnext⟩ := h.lone _ hmem hg sys.shared
          refine ⟨hr.keeps _ _ hE h.inv, fun c hc' hgc => ?_, fun c hc' hgc hoc => ?_, hsole⟩
          · rcases List.mem_or_eq_of_mem_set hc' with hc' | rfl
            · exact h.lone c hc' hgc
            · exact hnext
          · rcases List.mem_or_eq_of_mem_set hc' with hc' | rfl
            · -- the gated call under way relies on what the access did
              have hchange := hrely c _ hc hg hc' hgc hoc hE
              exact (h.safe c hc' hgc hoc).env (hr.trans c.op) hchange
            · rw [hg] at hgc
              cases hgc
        | true =>
          obtain ⟨hI, hnext⟩ := h.safe _ hmem hg rfl sys.shared (hr.refl op _) h.inv
          refine ⟨hI, fun c hc' hgc => ?_, fun c hc' hgc hoc => ?_, hsole⟩
          · rcases List.mem_or_eq_of_mem_set hc' with hc' | rfl
            · exact h.lone c hc' hgc
            · rw [hg] at hgc
              cases hgc
          · rcases List.mem_or_eq_of_mem_set hc' with hc'' | rfl
            · obtain ⟨j, hj⟩ := List.getElem?_of_mem hc'
              rcases getElem?_set_cases hj with ⟨hji, hj⟩ | ⟨-, rfl⟩
              · exact absurd (h.sole j i c _ hj hc hgc hg hoc rfl) hji
              · exact hnext
            · exact hnext

/-- **Rely rule.** The invariant holds after every run whose ungated accesses are relied on. -/
theorem reliant_run (hr : Reliant P I E R) {s : S} (hs : I s) {events : List (Event Op)}
    (hrely : Run.Along (fun pre e => Relied lock P E R (after lock P true s pre) e) events) :
    I (after lock P true s events).shared := by
  have hinv : RelyInv P I E R (after lock P true s events) := by
    refine Run.Along.invariant (I := fun events => RelyInv P I E R (after lock P true s events)) ?_ ?_ hrely
    · exact ⟨hs, fun c hc => (by cases hc), fun c hc => (by cases hc), fun _ _ _ _ hc => (by cases hc)⟩
    · intro pre e h he
      rw [after_snoc]
      exact h.step hr he
  exact hinv.inv

end Gate
