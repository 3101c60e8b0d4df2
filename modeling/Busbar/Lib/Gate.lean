import Busbar.Lib.Prog
import Busbar.Lib.Run

/-!
# Calls under a lock and behind a gate

Calls of programs over one shared state, one access at a time and in any order. `lock` reads off the state how
many calls hold the lock; an access that would make a second holder waits. Calls of a gated operation pass a
gate one at a time: the next one waits until the one before it is over.

A *view* of a *source* is kept in the state. Gated calls write the source and may leave the view behind it, and
any call may rebuild the view from the source under the lock.

* `Prog.Keeps`: every access of a program keeps an invariant, whatever comes between that keeps it too.
* `Orderly`: a gated program puts the view right, under the lock, before it ends.
* `Lone`: an ungated program leaves the source alone and, while it does not hold the lock, carries nothing.
* `InvAt.step`: calls of such programs keep the discipline `InvAt`.
* `settled`: when a gated call ends, what its end says of the source holds of the view too, and does so as long
  as later calls keep it.
-/

namespace Prog

variable {S ε α β : Type}

def ended : Prog S ε α → Bool
  | done _ => true
  | access _ _ => false

/-- Every access of the program keeps `I`, whatever accesses that keep it come between, and `Q` holds of the
value it ends with. -/
def Keeps (I : S → Prop) (Q : α → Prop) : Prog S ε α → Prop
  | done r => ∀ a, r = .ok a → Q a
  | access act next => ∀ s, I s → I (act s).2 ∧ Keeps I Q (next (act s).1)

variable {I : S → Prop} {Q : α → Prop} {R : β → Prop}

theorem keeps_pure {a : α} (h : Q a) : (pure a : Prog S ε α).Keeps I Q := by
  intro b hb
  cases hb
  exact h

theorem keeps_throw (e : ε) : (throw e : Prog S ε α).Keeps I Q := by
  intro b hb
  cases hb

theorem keeps_read {f : S → α} (h : ∀ s, I s → Q (f s)) : (read f : Prog S ε α).Keeps I Q := by
  intro s hs
  refine ⟨hs, fun b hb => ?_⟩
  cases hb
  exact h s hs

theorem keeps_modify {f : S → S} (h : ∀ s, I s → I (f s)) : (modify f : Prog S ε Unit).Keeps I (fun _ => True) := by
  intro s hs
  exact ⟨h s hs, fun _ _ => trivial⟩

theorem keeps_attempt {f : S → Except ε (α × S)} (h : ∀ s a s', I s → f s = .ok (a, s') → I s' ∧ Q a) :
    (attempt f).Keeps I Q := by
  intro s hs
  cases hf : f s with
  | error e =>
    refine ⟨?_, fun b hb => ?_⟩
    · simpa only [hf] using hs
    · simp only [hf] at hb
      cases hb
  | ok r =>
    obtain ⟨a, s'⟩ := r
    obtain ⟨hI, hQ⟩ := h s a s' hs hf
    refine ⟨?_, fun b hb => ?_⟩
    · simpa only [hf] using hI
    · simp only [hf] at hb
      cases hb
      exact hQ

/-- Sequences: the second part may use what the first part's value says. -/
theorem Keeps.bind {p : Prog S ε α} {f : α → Prog S ε β} (hp : p.Keeps I Q)
    (hf : ∀ a, Q a → (f a).Keeps I R) : (p >>= f).Keeps I R := by
  induction p with
  | done r =>
    cases r with
    | ok a => exact hf a (hp a rfl)
    | error e =>
      intro b hb
      cases hb
  | access act next ih =>
    intro s hs
    obtain ⟨hI, hnext⟩ := hp s hs
    exact ⟨hI, ih _ hnext⟩

theorem Keeps.result {p : Prog S ε α} (hp : p.Keeps I Q) :
    p.result.Keeps I (fun r => ∀ a, r = .ok a → Q a) := by
  induction p with
  | done r =>
    intro b hb
    cases hb
    exact hp
  | access act next ih =>
    intro s hs
    obtain ⟨hI, hnext⟩ := hp s hs
    exact ⟨hI, ih _ hnext⟩

theorem Keeps.mono {Q' : α → Prop} {p : Prog S ε α} (hp : p.Keeps I Q) (h : ∀ a, Q a → Q' a) : p.Keeps I Q' := by
  induction p with
  | done r => exact fun a ha => h a (hp a ha)
  | access act next ih =>
    intro s hs
    obtain ⟨hI, hnext⟩ := hp s hs
    exact ⟨hI, ih _ hnext⟩

end Prog

namespace Gate

open Prog

variable {S ε Op : Type}

/-- A call under way: its operation and what is left of its program. -/
structure Call (S ε Op : Type) where
  op : Op
  prog : Prog S ε Unit

structure Sys (S ε Op : Type) where
  shared : S
  calls : List (Call S ε Op)

/-- A call comes in, or a call makes its next access. -/
inductive Event (Op : Type) where
  | call (op : Op)
  | advance (i : Nat)
  deriving DecidableEq

/-- What each operation runs, and which operations pass the gate. -/
structure Plan (S ε Op : Type) where
  body : Op → Prog S ε Unit
  gated : Op → Bool

variable (lock : S → Nat) (P : Plan S ε Op)

/-- A gated call is under way. -/
def busy (sys : Sys S ε Op) : Bool := sys.calls.any (fun c => P.gated c.op && !c.prog.ended)

/-- With `gate`, a gated call waits while another is under way. -/
def step (gate : Bool) (sys : Sys S ε Op) : Event Op → Sys S ε Op
  | .call op =>
    if gate && P.gated op && busy P sys then sys
    else { sys with calls := sys.calls ++ [⟨op, P.body op⟩] }
  | .advance i =>
    match sys.calls[i]? with
    | none => sys
    | some c =>
      let r := c.prog.step sys.shared
      -- the lock has one holder: whoever would be the second waits
      if lock r.2 ≤ 1 then ⟨r.2, sys.calls.set i ⟨c.op, r.1⟩⟩ else sys

/-- The system after a run. -/
def after (gate : Bool) (s : S) (events : List (Event Op)) : Sys S ε Op :=
  Run.exec (step lock P gate) ⟨s, []⟩ events

theorem after_snoc (gate : Bool) (s : S) (events : List (Event Op)) (e : Event Op) :
    after lock P gate s (events ++ [e]) = step lock P gate (after lock P gate s events) e := Run.exec_snoc _ _ _ _

theorem after_append (gate : Bool) (s : S) (pre post : List (Event Op)) :
    after lock P gate s (pre ++ post) = Run.exec (step lock P gate) (after lock P gate s pre) post := Run.exec_append _ _ _ _

variable {lock} {P} {gate : Bool} {sys : Sys S ε Op}

section Step

variable (lock P gate sys)


/-- A call comes in, or waits at the gate. -/
theorem step_call (op : Op) : step lock P gate sys (.call op) = sys ∨
    ((gate = true → P.gated op = true → busy P sys = false) ∧
      step lock P gate sys (.call op) = { sys with calls := sys.calls ++ [⟨op, P.body op⟩] }) := by
  cases hb : gate && P.gated op && busy P sys with
  | true => exact Or.inl (by simp only [step, hb, if_true])
  | false =>
    refine Or.inr ⟨fun hg ho => ?_, by simp only [step, hb, Bool.false_eq_true, if_false]⟩
    rw [hg, ho] at hb
    simpa using hb

/-- A call makes its next access, or waits for the lock. -/
theorem step_advance (i : Nat) : step lock P gate sys (.advance i) = sys ∨
    ∃ c, sys.calls[i]? = some c ∧ lock (c.prog.step sys.shared).2 ≤ 1 ∧
      step lock P gate sys (.advance i)
        = ⟨(c.prog.step sys.shared).2, sys.calls.set i ⟨c.op, (c.prog.step sys.shared).1⟩⟩ := by
  cases hc : sys.calls[i]? with
  | none => exact Or.inl (by simp only [step, hc])
  | some c =>
    by_cases hl : lock (c.prog.step sys.shared).2 ≤ 1
    · exact Or.inr ⟨c, rfl, hl, by simp only [step, hc, hl, if_true]⟩
    · exact Or.inl (by simp only [step, hc, hl, if_false])

end Step

/-! ## An invariant that every call keeps -/

/-- The invariant holds, and every call keeps it from where it stands. -/
def Held (I : S → Prop) (sys : Sys S ε Op) : Prop :=
  I sys.shared ∧ ∀ c ∈ sys.calls, c.prog.Keeps I (fun _ => True)

theorem keeps_step {I : S → Prop} {p : Prog S ε Unit} {s : S} (hk : p.Keeps I (fun _ => True)) (hs : I s) :
    I (p.step s).2 ∧ (p.step s).1.Keeps I (fun _ => True) := by
  cases p with
  | done r => exact ⟨hs, hk⟩
  | access act next => exact hk s hs

theorem Held.step {I : S → Prop} (h : Held I sys) {e : Event Op}
    (hnew : ∀ op, e = .call op → (P.body op).Keeps I (fun _ => True)) : Held I (step lock P gate sys e) := by
  obtain ⟨hI, hcalls⟩ := h
  cases e with
  | call op =>
    rcases step_call lock P gate sys op with he | ⟨-, he⟩
    · rw [he]
      exact ⟨hI, hcalls⟩
    · rw [he]
      refine ⟨hI, fun c hc => ?_⟩
      rcases List.mem_append.1 hc with hc | hc
      · exact hcalls c hc
      · cases List.mem_singleton.1 hc
        exact hnew op rfl
  | advance i =>
    rcases step_advance lock P gate sys i with he | ⟨c, hc, -, he⟩
    · rw [he]
      exact ⟨hI, hcalls⟩
    · rw [he]
      -- the access keeps the invariant, and the rest of the program goes on keeping it
      obtain ⟨hI', hk'⟩ := keeps_step (hcalls c (List.mem_of_getElem? hc)) hI
      refine ⟨hI', fun d hd => ?_⟩
      rcases List.mem_or_eq_of_mem_set hd with hd | rfl
      · exact hcalls d hd
      · exact hk'

/-- Every later call keeps the invariant, so it holds from here on. -/
theorem Held.run {I : S → Prop} (h : Held I sys) {events : List (Event Op)}
    (hnew : ∀ op, Event.call op ∈ events → (P.body op).Keeps I (fun _ => True)) :
    Held I (Run.exec (Gate.step lock P gate) sys events) := by
  induction events generalizing sys with
  | nil => exact h
  | cons e events ih =>
    rw [Run.exec_cons]
    refine ih (h.step fun op he => ?_) fun op hop => hnew op (List.mem_cons_of_mem _ hop)
    exact hnew op (he ▸ List.mem_cons_self)

/-! ## A view rebuilt under the lock -/

/-- A view of a source, both kept in the state, and when the view fits the source. -/
structure Cached (S T V : Type) where
  src : S → T
  view : S → V
  Fits : V → T → Prop

/-- Where a gated call leaves things: the view fits the source `t`, or the source has been moved to `t` and the
view may not fit, or the call holds the lock with the source at `t` and the view at `v`. -/
inductive Mode (T V : Type) where
  | fits (t : T)
  | torn (t : T)
  | locked (t : T) (v : V)

variable {T V ι : Type} (C : Cached S T V)

def Mode.Stands : Mode T V → S → Prop
  | .fits t, s => C.src s = t ∧ C.Fits (C.view s) t
  | .torn t, s => C.src s = t
  | .locked t v, s => C.src s = t ∧ C.view s = v

def Mode.holds : Mode T V → Nat
  | .locked _ _ => 1
  | _ => 0

variable (lock)

/-- What an access of a gated call may do. It may write the source without the lock; the lock is given back with
a view that fits. -/
inductive Move (s s' : S) : Mode T V → Mode T V → Prop where
  | calm {t : T} (hl : lock s' = lock s) (hs : C.src s' = t) (hv : C.Fits (C.view s') t) : Move s s' (.fits t) (.fits t)
  | tear {t : T} (hl : lock s' = lock s) : Move s s' (.fits t) (.torn (C.src s'))
  | tearOn {t : T} (hl : lock s' = lock s) : Move s s' (.torn t) (.torn (C.src s'))
  | enter {t : T} (hl : lock s' = lock s + 1) : Move s s' (.fits t) (.locked (C.src s') (C.view s'))
  | enterTorn {t : T} (hl : lock s' = lock s + 1) : Move s s' (.torn t) (.locked (C.src s') (C.view s'))
  | hold {t : T} {v : V} (hl : lock s' = lock s) : Move s s' (.locked t v) (.locked (C.src s') (C.view s'))
  | leave {t : T} {v : V} (hl : lock s' + 1 = lock s) (hv : C.Fits (C.view s') (C.src s')) :
      Move s s' (.locked t v) (.fits (C.src s'))

/-- Each access of the program is a `Move`, whatever the ungated calls do in between, and it ends as `Q` says. -/
def Orderly {α : Type} (Q : Except ε α → Mode T V → Prop) : Mode T V → Prog S ε α → Prop
  | m, done r => Q r m
  | m, access act next => ∀ s, m.Stands C s → m.holds ≤ lock s →
      ∃ m', Move lock C s (act s).2 m m' ∧ Orderly Q m' (next (act s).1)

/-- What an access of an ungated call may do to lock and view; the flag says whether the call holds the lock. -/
def LoneMove (s s' : S) : Bool → Bool → Prop
  | false, false => lock s' = lock s ∧ C.view s' = C.view s
  | false, true => lock s' = lock s + 1 ∧ C.view s' = C.view s
  | true, true => lock s' = lock s
  | true, false => lock s' + 1 = lock s

variable (I : ι → S → Prop)

/-- The program carries nothing: it keeps a fitting view of any source, and each of the invariants. -/
def Free (p : Prog S ε Unit) : Prop :=
  (∀ t, p.Keeps (Mode.Stands C (.fits t)) (fun _ => True)) ∧ ∀ i, p.Keeps (I i) (fun _ => True)

/-- The program leaves the source alone, touches the view only under the lock, and carries nothing while it does
not hold it. -/
def Lone : Bool → Prog S ε Unit → Prop
  | b, done _ => b = false
  | b, access act next => (b = false → Free C I (access act next)) ∧
      ∀ s, b.toNat ≤ lock s →
        C.src (act s).2 = C.src s ∧ ∃ b', LoneMove lock C s (act s).2 b b' ∧ Lone b' (next (act s).1)

variable (D : ι → T → Prop)

/-- What the program carries fits the source `t`: it keeps the view fitting, and each invariant that `t` allows. -/
def Carry (t : T) (p : Prog S ε Unit) : Prop :=
  p.Keeps (Mode.Stands C (.fits t)) (fun _ => True) ∧ ∀ i, D i t → p.Keeps (I i) (fun _ => True)

variable {C} {I} {lock}

theorem Free.carry {p : Prog S ε Unit} (h : Free C I p) (t : T) : Carry C I D t p := ⟨h.1 t, fun i _ => h.2 i⟩

theorem Lone.free {p : Prog S ε Unit} (h : Lone lock C I false p) : Free C I p := by
  cases p with
  | done r => exact ⟨fun _ _ _ => trivial, fun _ _ _ => trivial⟩
  | access act next => exact h.1 rfl

/-- One access of an ungated program. -/
theorem lone_access {b : Bool} {γ : Type} {act : S → γ × S} {next : γ → Prog S ε Unit}
    (hfree : b = false → Free C I (access act next))
    (h : ∀ s, b.toNat ≤ lock s →
      C.src (act s).2 = C.src s ∧ ∃ b', LoneMove lock C s (act s).2 b b' ∧ Lone lock C I b' (next (act s).1)) :
    Lone lock C I b (access act next) := ⟨hfree, h⟩

/-! ## Rules for gated programs -/

section Rules

variable {α β : Type} {m m' : Mode T V} {Q : Except ε α → Mode T V → Prop} {R : Except ε β → Mode T V → Prop}

theorem Orderly.bind {p : Prog S ε α} {f : α → Prog S ε β}
    (h : Orderly lock C (fun r m => match r with
      | .ok a => Orderly lock C R m (f a)
      | .error e => R (.error e) m) m p) : Orderly lock C R m (p >>= f) := by
  induction p generalizing m with
  | done r =>
    cases r with
    | ok a => exact h
    | error e => exact h
  | access act next ih =>
    intro s hs hl
    obtain ⟨m', hmove, hnext⟩ := h s hs hl
    exact ⟨m', hmove, ih _ hnext⟩

theorem Orderly.result {p : Prog S ε α} {Q : Except ε (Except ε α) → Mode T V → Prop}
    (h : Orderly lock C (fun r m => Q (.ok r) m) m p) : Orderly lock C Q m p.result := by
  induction p generalizing m with
  | done r => exact h
  | access act next ih =>
    intro s hs hl
    obtain ⟨m', hmove, hnext⟩ := h s hs hl
    exact ⟨m', hmove, ih _ hnext⟩

theorem Orderly.mono {Q' : Except ε α → Mode T V → Prop} {p : Prog S ε α} (h : Orderly lock C Q m p)
    (hQ : ∀ r m, Q r m → Q' r m) : Orderly lock C Q' m p := by
  induction p generalizing m with
  | done r => exact hQ r m h
  | access act next ih =>
    intro s hs hl
    obtain ⟨m', hmove, hnext⟩ := h s hs hl
    exact ⟨m', hmove, ih _ hnext⟩

/-- Nothing moves. -/
theorem move_still {s : S} (hs : m.Stands C s) : Move lock C s s m m := by
  cases m with
  | fits t => exact .calm rfl hs.1 hs.2
  | torn t =>
    have hmove : Move lock C s s (.torn t) (.torn (C.src s)) := .tearOn rfl
    rwa [show C.src s = t from hs] at hmove
  | locked t v =>
    have hmove : Move lock C s s (.locked t v) (.locked (C.src s) (C.view s)) := .hold rfl
    rwa [hs.1, hs.2] at hmove

theorem orderly_read {f : S → α} (h : ∀ s, m.Stands C s → Q (.ok (f s)) m) : Orderly lock C Q m (read f) := by
  intro s hs _
  exact ⟨m, move_still hs, h s hs⟩

/-- A write that may be refused. -/
theorem orderly_attempt {f : S → Except ε (α × S)}
    (hok : ∀ s a s', m.Stands C s → m.holds ≤ lock s → f s = .ok (a, s') → ∃ m', Move lock C s s' m m' ∧ Q (.ok a) m')
    (herr : ∀ s e, m.Stands C s → f s = .error e → Q (.error e) m) : Orderly lock C Q m (attempt f) := by
  intro s hs hl
  cases hf : f s with
  | error e =>
    refine ⟨m, ?_, ?_⟩
    · simpa only [hf] using move_still hs
    · simp only [hf]
      exact herr s e hs hf
  | ok r =>
    obtain ⟨a, s'⟩ := r
    obtain ⟨m', hmove, hQ⟩ := hok s a s' hs hl hf
    refine ⟨m', ?_, ?_⟩
    · simpa only [hf] using hmove
    · simp only [hf]
      exact hQ

theorem orderly_modify {f : S → S} {Q : Except ε Unit → Mode T V → Prop}
    (h : ∀ s, m.Stands C s → m.holds ≤ lock s → ∃ m', Move lock C s (f s) m m' ∧ Q (.ok ()) m') :
    Orderly lock C Q m (modify f) := fun s hs hl => h s hs hl

end Rules

/-! ## The discipline over whole runs -/

section Discipline

variable (lock) (C) (I) (P)
variable (Q : Op → Except ε Unit → Mode T V → Prop)

/-- Every call goes by its rules: `o` is the ungated call that holds the lock, `m` is where the gated call under
way stands; without one the view fits. -/
structure InvAt (o : Option ℕ) (m : Mode T V) (sys : Sys S ε Op) : Prop where
  lock_eq : lock sys.shared = (if o.isSome then 1 else 0) + m.holds
  le_one : lock sys.shared ≤ 1
  stands : m.Stands C sys.shared
  holder : ∀ i, o = some i → ∃ c, sys.calls[i]? = some c ∧ P.gated c.op = false
  lone : ∀ (i : ℕ) (c : Call S ε Op), sys.calls[i]? = some c → P.gated c.op = false → Lone lock C I (decide (o = some i)) c.prog
  orderly : ∀ (i : ℕ) (c : Call S ε Op), sys.calls[i]? = some c → P.gated c.op = true → c.prog.ended = false →
    Orderly lock C (Q c.op) m c.prog
  sole : ∀ (i j : ℕ) (c d : Call S ε Op), sys.calls[i]? = some c → sys.calls[j]? = some d →
    P.gated c.op = true → P.gated d.op = true → c.prog.ended = false → d.prog.ended = false → i = j
  under : busy P sys = false → ∃ t, m = .fits t
  carry : ∀ t, m = .fits t → ∀ c ∈ sys.calls, P.gated c.op = false → Carry C I D t c.prog

variable {lock C I P D Q}

theorem busy_eq_false : busy P sys = false ↔
    ∀ c ∈ sys.calls, P.gated c.op = true → c.prog.ended = true := by
  simp [busy]

theorem getElem?_snoc_cases {α : Type*} {l : List α} {a b : α} {i : ℕ} (h : (l ++ [a])[i]? = some b) :
    l[i]? = some b ∨ i = l.length ∧ b = a := by
  rcases Nat.lt_trichotomy i l.length with hi | rfl | hi
  · rw [List.getElem?_append_left hi] at h
    exact Or.inl h
  · rw [List.getElem?_concat_length] at h
    exact Or.inr ⟨rfl, (Option.some.inj h).symm⟩
  · rw [List.getElem?_eq_none (by simp; omega)] at h
    cases h

theorem getElem?_set_cases {α : Type*} {l : List α} {a b : α} {i j : ℕ} (h : (l.set i a)[j]? = some b) :
    j ≠ i ∧ l[j]? = some b ∨ j = i ∧ b = a := by
  rw [List.getElem?_set] at h
  split at h
  · rename_i hij
    split at h
    · exact Or.inr ⟨hij.symm, (Option.some.inj h).symm⟩
    · cases h
  · rename_i hij
    exact Or.inl ⟨fun he => hij he.symm, h⟩

variable {o : Option ℕ} {m : Mode T V}

/-- A call comes in; a gated one finds no other under way. -/
theorem InvAt.called (h : InvAt lock P C I D Q o m sys) {op : Op}
    (hlone : P.gated op = false → Lone lock C I false (P.body op))
    (hgated : P.gated op = true → busy P sys = false ∧ ∀ t, Orderly lock C (Q op) (.fits t) (P.body op)) :
    InvAt lock P C I D Q o m { sys with calls := sys.calls ++ [⟨op, P.body op⟩] } := by
  have hidle : P.gated op = true → ∀ c ∈ sys.calls, P.gated c.op = true → c.prog.ended = true :=
    fun hg => busy_eq_false.1 (hgated hg).1
  have hholder : ∀ i, o = some i → i ≠ sys.calls.length := by
    rintro i hi rfl
    obtain ⟨c, hc, -⟩ := h.holder _ hi
    rw [List.getElem?_eq_none (Nat.le_refl _)] at hc
    cases hc
  refine ⟨h.lock_eq, h.le_one, h.stands, ?_, ?_, ?_, ?_, ?_, ?_⟩
  · intro i hi
    obtain ⟨c, hc, hg⟩ := h.holder i hi
    obtain ⟨hlt, -⟩ := List.getElem?_eq_some_iff.1 hc
    exact ⟨c, by rw [List.getElem?_append_left hlt]; exact hc, hg⟩
  · intro i c hc hg
    rcases getElem?_snoc_cases hc with hc | ⟨rfl, rfl⟩
    · exact h.lone i c hc hg
    · rw [decide_eq_false (fun ho => hholder _ ho rfl)]
      exact hlone hg
  · intro i c hc hg hover
    rcases getElem?_snoc_cases hc with hc | ⟨rfl, rfl⟩
    · exact h.orderly i c hc hg hover
    · obtain ⟨hbusy, hbody⟩ := hgated hg
      obtain ⟨t, rfl⟩ := h.under hbusy
      exact hbody t
  · intro i j c d hc hd hgc hgd hoc hod
    rcases getElem?_snoc_cases hc with hc | ⟨rfl, rfl⟩ <;> rcases getElem?_snoc_cases hd with hd | ⟨rfl, rfl⟩
    · exact h.sole i j c d hc hd hgc hgd hoc hod
    · rw [hidle hgd c (List.mem_of_getElem? hc) hgc] at hoc
      cases hoc
    · rw [hidle hgc d (List.mem_of_getElem? hd) hgd] at hod
      cases hod
    · rfl
  · intro hbusy
    refine h.under (busy_eq_false.2 fun c hc hg => ?_)
    exact busy_eq_false.1 hbusy c (List.mem_append_left _ hc) hg
  · intro t hm c hc hg
    rcases List.mem_append.1 hc with hc | hc
    · exact h.carry t hm c hc hg
    · cases List.mem_singleton.1 hc
      exact (hlone hg).free.carry D t

/-- An ungated call makes an access. -/
theorem InvAt.lone_step (hI : ∀ i t s, Mode.Stands C (.fits t) s → D i t → I i s)
    (h : InvAt lock P C I D Q o m sys) {i : ℕ} {op : Op} {γ : Type} {act : S → γ × S} {next : γ → Prog S ε Unit}
    (hc : sys.calls[i]? = some ⟨op, access act next⟩) (hg : P.gated op = false)
    (hle : lock (act sys.shared).2 ≤ 1) :
    ∃ o', InvAt lock P C I D Q o' m
      ⟨(act sys.shared).2, sys.calls.set i ⟨op, next (act sys.shared).1⟩⟩ := by
  obtain ⟨hlt, -⟩ := List.getElem?_eq_some_iff.1 hc
  have hset : (sys.calls.set i ⟨op, next (act sys.shared).1⟩)[i]? = some ⟨op, next (act sys.shared).1⟩ :=
    List.getElem?_set_self hlt
  -- what the call leaves alone: gated calls, and where they stand
  have hgated : ∀ (j : ℕ) (d : Call S ε Op), (sys.calls.set i ⟨op, next (act sys.shared).1⟩)[j]? = some d →
      P.gated d.op = true → sys.calls[j]? = some d := by
    intro j d hd hgd
    rcases getElem?_set_cases hd with ⟨-, hd⟩ | ⟨-, rfl⟩
    · exact hd
    · rw [hg] at hgd
      cases hgd
  have hbusy : busy P ⟨(act sys.shared).2, sys.calls.set i ⟨op, next (act sys.shared).1⟩⟩ = false →
      busy P sys = false := by
    intro hb
    refine busy_eq_false.2 fun d hd hgd => ?_
    obtain ⟨j, hj⟩ := List.getElem?_of_mem hd
    by_cases hji : j = i
    · subst hji
      rw [hc] at hj
      cases hj
      rw [hg] at hgd
      cases hgd
    · refine busy_eq_false.1 hb d (List.mem_of_getElem? (i := j) ?_) hgd
      rw [List.getElem?_set_ne (Ne.symm hji)]
      exact hj
  have hrules := h.lone i _ hc hg
  unfold Lone at hrules
  obtain ⟨hfree, hstep⟩ := hrules
  have hheld : (decide (o = some i)).toNat ≤ lock sys.shared := by
    by_cases ho : o = some i
    · rw [h.lock_eq, ho]
      simp
    · rw [decide_eq_false ho]
      exact Nat.zero_le _
  obtain ⟨hsrc, b', hmove, hnext⟩ := hstep sys.shared hheld
  -- the rest of the call still carries what fits
  have hkeep : ∀ t, m = .fits t → Mode.Stands C (.fits t) (act sys.shared).2 ∧
      Carry C I D t (next (act sys.shared).1) := by
    rintro t rfl
    have hcarry := h.carry t rfl _ (List.mem_of_getElem? hc) hg
    obtain ⟨hstands, hk⟩ := hcarry.1 sys.shared h.stands
    exact ⟨hstands, hk, fun k hk => (hcarry.2 k hk sys.shared (hI k t _ h.stands hk)).2⟩
  have hcarry' : ∀ t, m = .fits t → ∀ d ∈ sys.calls.set i ⟨op, next (act sys.shared).1⟩, P.gated d.op = false →
      Carry C I D t d.prog := by
    intro t hm d hd hgd
    rcases List.mem_or_eq_of_mem_set hd with hd | rfl
    · exact h.carry t hm d hd hgd
    · exact (hkeep t hm).2
  have horderly : ∀ (j : ℕ) (d : Call S ε Op), (sys.calls.set i ⟨op, next (act sys.shared).1⟩)[j]? = some d →
      P.gated d.op = true → d.prog.ended = false → Orderly lock C (Q d.op) m d.prog :=
    fun j d hd hgd hod => h.orderly j d (hgated j d hd hgd) hgd hod
  have hsole : ∀ (j k : ℕ) (d e : Call S ε Op), (sys.calls.set i ⟨op, next (act sys.shared).1⟩)[j]? = some d →
      (sys.calls.set i ⟨op, next (act sys.shared).1⟩)[k]? = some e → P.gated d.op = true → P.gated e.op = true →
      d.prog.ended = false → e.prog.ended = false → j = k :=
    fun j k d e hd he hgd hge hod hoe => h.sole j k d e (hgated j d hd hgd) (hgated k e he hge) hgd hge hod hoe
  have hlocked := h.lock_eq
  have hone := h.le_one
  -- lock and view, by whether the call held the lock before and after
  by_cases ho : o = some i
  · rw [decide_eq_true ho] at hmove
    rw [ho, Option.isSome_some, if_pos rfl] at hlocked
    have hm : m.holds = 0 := by omega
    have hstands : m.Stands C (act sys.shared).2 := by
      cases m with
      | fits t => exact (hkeep t rfl).1
      | torn t => exact hsrc.trans h.stands
      | locked t v => cases hm
    have hothers : ∀ (o' : Option ℕ), (∀ j, j ≠ i → o' ≠ some j) → ∀ (j : ℕ) (d : Call S ε Op), j ≠ i →
        sys.calls[j]? = some d → P.gated d.op = false → Lone lock C I (decide (o' = some j)) d.prog := by
      intro o' ho' j d hji hd hgd
      have hd' := h.lone j d hd hgd
      rw [decide_eq_false (by rw [ho]; exact fun he => hji (Option.some.inj he).symm)] at hd'
      rwa [decide_eq_false (ho' j hji)]
    cases b' with
    | true =>
      have hl : lock (act sys.shared).2 = lock sys.shared := hmove
      refine ⟨some i, ⟨by rw [hl, hlocked]; rfl, hle, hstands, ?_, ?_, horderly, hsole, fun hb => h.under (hbusy hb),
        hcarry'⟩⟩
      · rintro j hj
        cases hj
        exact ⟨_, hset, hg⟩
      · intro j d hd hgd
        rcases getElem?_set_cases hd with ⟨hji, hd⟩ | ⟨rfl, rfl⟩
        · exact hothers (some i) (fun k hk he => hk (Option.some.inj he).symm) j d hji hd hgd
        · rw [decide_eq_true rfl]
          exact hnext
    | false =>
      have hl : lock (act sys.shared).2 + 1 = lock sys.shared := hmove
      refine ⟨none, ⟨by rw [hm]; simp; omega, hle, hstands, ?_, ?_, horderly, hsole, fun hb => h.under (hbusy hb),
        hcarry'⟩⟩
      · intro j hj
        cases hj
      · intro j d hd hgd
        rcases getElem?_set_cases hd with ⟨hji, hd⟩ | ⟨rfl, rfl⟩
        · exact hothers none (fun k hk he => by cases he) j d hji hd hgd
        · exact hnext
  · rw [decide_eq_false ho] at hmove
    have hview : C.view (act sys.shared).2 = C.view sys.shared := by
      cases b' with
      | true => exact hmove.2
      | false => exact hmove.2
    have hstands : m.Stands C (act sys.shared).2 := by
      have hs := h.stands
      cases m with
      | fits t => exact ⟨hsrc.trans hs.1, by rw [hview]; exact hs.2⟩
      | torn t => exact hsrc.trans hs
      | locked t v => exact ⟨hsrc.trans hs.1, hview.trans hs.2⟩
    cases b' with
    | true =>
      have hl : lock (act sys.shared).2 = lock sys.shared + 1 := hmove.1
      have hnone : o = none := by
        cases o with
        | none => rfl
        | some k =>
          rw [Option.isSome_some, if_pos rfl] at hlocked
          omega
      subst hnone
      have hm : m.holds = 0 := by omega
      refine ⟨some i, ⟨by simp [hm]; omega, hle, hstands, ?_, ?_, horderly, hsole, fun hb => h.under (hbusy hb),
        hcarry'⟩⟩
      · rintro j hj
        cases hj
        exact ⟨_, hset, hg⟩
      · intro j d hd hgd
        rcases getElem?_set_cases hd with ⟨hji, hd⟩ | ⟨rfl, rfl⟩
        · rw [decide_eq_false (fun he => hji (Option.some.inj he).symm)]
          exact h.lone j d hd hgd
        · rw [decide_eq_true rfl]
          exact hnext
    | false =>
      have hl : lock (act sys.shared).2 = lock sys.shared := hmove.1
      refine ⟨o, ⟨by rw [hl]; exact hlocked, hle, hstands, ?_, ?_, horderly, hsole, fun hb => h.under (hbusy hb),
        hcarry'⟩⟩
      · intro j hj
        obtain ⟨d, hd, hgd⟩ := h.holder j hj
        by_cases hji : j = i
        · exact absurd (hji ▸ hj) ho
        · exact ⟨d, by rw [List.getElem?_set_ne (Ne.symm hji)]; exact hd, hgd⟩
      · intro j d hd hgd
        rcases getElem?_set_cases hd with ⟨hji, hd⟩ | ⟨rfl, rfl⟩
        · exact h.lone j d hd hgd
        · rw [decide_eq_false ho]
          exact hnext

/-- The gated call under way makes an access. -/
theorem InvAt.gated_step (hend : ∀ op r m, Q op r m → ∃ t, m = .fits t)
    (h : InvAt lock P C I D Q o m sys) {i : ℕ} {op : Op} {γ : Type} {act : S → γ × S} {next : γ → Prog S ε Unit}
    (hc : sys.calls[i]? = some ⟨op, access act next⟩) (hg : P.gated op = true)
    (hle : lock (act sys.shared).2 ≤ 1) :
    ∃ m', Orderly lock C (Q op) m' (next (act sys.shared).1) ∧ InvAt lock P C I D Q o m'
      ⟨(act sys.shared).2, sys.calls.set i ⟨op, next (act sys.shared).1⟩⟩ := by
  obtain ⟨hlt, -⟩ := List.getElem?_eq_some_iff.1 hc
  have hset : (sys.calls.set i ⟨op, next (act sys.shared).1⟩)[i]? = some ⟨op, next (act sys.shared).1⟩ :=
    List.getElem?_set_self hlt
  have hungated : ∀ (j : ℕ) (d : Call S ε Op), P.gated d.op = false →
      ((sys.calls.set i ⟨op, next (act sys.shared).1⟩)[j]? = some d ↔ sys.calls[j]? = some d) := by
    intro j d hgd
    by_cases hji : j = i
    · subst hji
      rw [hset, hc]
      constructor <;> intro he <;> cases he <;> rw [hg] at hgd <;> cases hgd
    · rw [List.getElem?_set_ne (Ne.symm hji)]
  -- every other gated call is over
  have hover : ∀ (j : ℕ) (d : Call S ε Op), (sys.calls.set i ⟨op, next (act sys.shared).1⟩)[j]? = some d →
      P.gated d.op = true → d.prog.ended = false → j = i ∧ d = ⟨op, next (act sys.shared).1⟩ := by
    intro j d hd hgd hod
    rcases getElem?_set_cases hd with ⟨hji, hd⟩ | ⟨rfl, rfl⟩
    · exact absurd (h.sole j i d _ hd hc hgd hg hod rfl) hji
    · exact ⟨rfl, rfl⟩
  obtain ⟨m', hmove, hnext⟩ := h.orderly i _ hc hg rfl sys.shared h.stands
    (by rw [h.lock_eq]; exact Nat.le_add_left _ _)
  have hlocked := h.lock_eq
  have hone := h.le_one
  -- the parts that do not depend on the move
  have hinv : lock (act sys.shared).2 = (if o.isSome then 1 else 0) + m'.holds → m'.Stands C (act sys.shared).2 →
      (∀ t, m' = .fits t → ∀ d ∈ sys.calls, P.gated d.op = false → Carry C I D t d.prog) →
      InvAt lock P C I D Q o m' ⟨(act sys.shared).2, sys.calls.set i ⟨op, next (act sys.shared).1⟩⟩ := by
    intro hl hs hcarry
    refine ⟨hl, hle, hs, ?_, ?_, ?_, ?_, ?_, ?_⟩
    · intro j hj
      obtain ⟨d, hd, hgd⟩ := h.holder j hj
      exact ⟨d, (hungated j d hgd).2 hd, hgd⟩
    · intro j d hd hgd
      exact h.lone j d ((hungated j d hgd).1 hd) hgd
    · intro j d hd hgd hod
      obtain ⟨-, rfl⟩ := hover j d hd hgd hod
      exact hnext
    · intro j k d e hd he hgd hge hod hoe
      rw [(hover j d hd hgd hod).1, (hover k e he hge hoe).1]
    · intro hb
      have hdone : (next (act sys.shared).1).ended = true := busy_eq_false.1 hb _ (List.mem_of_getElem? hset) hg
      cases hp : next (act sys.shared).1 with
      | done r =>
        rw [hp] at hnext
        exact hend op r m' hnext
      | access act' next' =>
        rw [hp] at hdone
        cases hdone
    · intro t hm d hd hgd
      rcases List.mem_or_eq_of_mem_set hd with hd | rfl
      · exact hcarry t hm d hd hgd
      · rw [hg] at hgd
        cases hgd
  refine ⟨m', hnext, hinv ?_ ?_ ?_⟩
  · cases hmove with
    | calm hl | tear hl | tearOn hl | hold hl => rw [hl]; exact hlocked
    | enter hl | enterTorn hl | leave hl => simp only [Mode.holds] at hlocked ⊢; omega
  · cases hmove with
    | calm hl hs hv => exact ⟨hs, hv⟩
    | tear | tearOn => rfl
    | enter | enterTorn | hold => exact ⟨rfl, rfl⟩
    | leave hl hv => exact ⟨rfl, hv⟩
  · intro t hm d hd hgd
    cases hmove with
    | calm => exact h.carry t hm d hd hgd
    | tear | tearOn | enter | enterTorn | hold => cases hm
    | leave hl hv =>
      -- the call held the lock, so no ungated call does, and none carries anything
      have hnone : o = none := by
        cases o with
        | none => rfl
        | some k =>
          simp only [Mode.holds, Option.isSome_some, if_pos] at hlocked
          omega
      obtain ⟨j, hj⟩ := List.getElem?_of_mem hd
      have hfree := h.lone j d hj hgd
      rw [hnone, decide_eq_false (by simp)] at hfree
      exact hfree.free.carry D t

variable (lock P C I D Q) in
/-- The discipline of the operations. -/
structure Disciplined : Prop where
  agree : ∀ i t s, Mode.Stands C (.fits t) s → D i t → I i s
  ends : ∀ op r m, Q op r m → ∃ t, m = .fits t
  lone : ∀ op, P.gated op = false → Lone lock C I false (P.body op)
  gated : ∀ op, P.gated op = true → ∀ t, Orderly lock C (Q op) (.fits t) (P.body op)

/-- **Every step behind the gate keeps the discipline.** -/
theorem InvAt.step (hd : Disciplined lock P C I D Q) (h : InvAt lock P C I D Q o m sys) (e : Event Op) :
    ∃ o' m', InvAt lock P C I D Q o' m' (Gate.step lock P true sys e) := by
  cases e with
  | call op =>
    rcases step_call lock P true sys op with he | ⟨hfree, he⟩
    · rw [he]
      exact ⟨o, m, h⟩
    · rw [he]
      exact ⟨o, m, h.called (hd.lone op) fun hg => ⟨hfree rfl hg, hd.gated op hg⟩⟩
  | advance i =>
    rcases step_advance lock P true sys i with he | ⟨⟨op, p⟩, hc, hle, he⟩
    · rw [he]
      exact ⟨o, m, h⟩
    · rw [he]
      cases p with
      | done r =>
        have hsame : sys.calls.set i ⟨op, done r⟩ = sys.calls := by
          obtain ⟨hlt, hget⟩ := List.getElem?_eq_some_iff.1 hc
          rw [← hget, List.set_getElem_self]
        dsimp only [Prog.step]
        rw [hsame]
        exact ⟨o, m, h⟩
      | access act next =>
        cases hg : P.gated op with
        | true =>
          obtain ⟨m', -, h'⟩ := h.gated_step hd.ends hc hg hle
          exact ⟨o, m', h'⟩
        | false =>
          obtain ⟨o', h'⟩ := h.lone_step hd.agree hc hg hle
          exact ⟨o', m, h'⟩

theorem InvAt.start {s : S} {t : T} (hlock : lock s = 0) (hs : Mode.Stands C (.fits t) s) :
    InvAt lock P C I D Q none (.fits t) ⟨s, []⟩ :=
  { lock_eq := hlock
    le_one := by rw [hlock]; exact Nat.zero_le 1
    stands := hs
    holder := by intro i hi; cases hi
    lone := by intro i c hc; cases hc
    orderly := by intro i c hc; cases hc
    sole := by intro i j c d hc; cases hc
    under := fun _ => ⟨t, rfl⟩
    carry := by intro t _ c hc; cases hc }

theorem InvAt.run (hd : Disciplined lock P C I D Q) {s : S} {t : T} (hlock : lock s = 0)
    (hs : Mode.Stands C (.fits t) s) (events : List (Event Op)) :
    ∃ o m, InvAt lock P C I D Q o m (after lock P true s events) := by
  induction events using List.reverseRecOn with
  | nil => exact ⟨none, .fits t, InvAt.start hlock hs⟩
  | append_singleton events e ih =>
    obtain ⟨o, m, h⟩ := ih
    rw [after_snoc]
    exact h.step hd e

/-- **What an ending gated call says of the source holds from then on.** If its end says that the source allows
one of the invariants, that one holds at once, and for as long as every later call keeps it. -/
theorem settled (hd : Disciplined lock P C I D Q) {s : S} {t : T} (hlock : lock s = 0)
    (hs : Mode.Stands C (.fits t) s) {pre post : List (Event Op)} {i : ℕ} {op : Op} {r : Except ε Unit} (hg : P.gated op = true)
    (hbefore : ∀ c, (after lock P true s pre).calls[i]? = some c → c.prog.ended = false)
    (hafter : (after lock P true s (pre ++ [.advance i])).calls[i]? = some ⟨op, done r⟩)
    (hmeans : ∀ t, Q op r (.fits t) → ∃ k, D k t)
    (hlater : ∀ k op, Event.call op ∈ post → (P.body op).Keeps (I k) (fun _ => True)) :
    ∃ k, I k (after lock P true s (pre ++ .advance i :: post)).shared := by
  obtain ⟨o, m, h⟩ := InvAt.run hd hlock hs pre
  rw [after_snoc] at hafter
  have hheld : ∃ k, Held (I k) (Gate.step lock P true (after lock P true s pre) (.advance i)) := by
    generalize after lock P true s pre = sys at *
    rcases step_advance lock P true sys i with he | ⟨⟨op', p⟩, hc, hle, he⟩
    · rw [he] at hafter
      have := hbefore _ hafter
      cases this
    · rw [he] at hafter ⊢
      rw [List.getElem?_set_self (List.getElem?_eq_some_iff.1 hc).1] at hafter
      have hnotover := hbefore _ hc
      cases p with
      | done r' => cases hnotover
      | access act next =>
        simp only [Option.some.injEq, Call.mk.injEq] at hafter
        obtain ⟨rfl, hdone⟩ := hafter
        obtain ⟨m', hQ, h'⟩ := h.gated_step hd.ends hc hg hle
        have hdone' : next (act sys.shared).1 = done r := hdone
        rw [hdone'] at hQ h'
        obtain ⟨t', rfl⟩ := hd.ends _ _ _ hQ
        obtain ⟨k, hD⟩ := hmeans t' hQ
        dsimp only [Prog.step]
        rw [hdone']
        refine ⟨k, hd.agree k t' _ h'.stands hD, fun c hc' => ?_⟩
        cases hgc : P.gated c.op with
        | false => exact (h'.carry t' rfl c hc' hgc).2 k hD
        | true =>
          -- the call that just ended was the only gated one under way
          obtain ⟨j, hj⟩ := List.getElem?_of_mem hc'
          have hover : c.prog.ended = true := by
            rcases getElem?_set_cases hj with ⟨hji, hj⟩ | ⟨-, rfl⟩
            · cases hoc : c.prog.ended with
              | true => rfl
              | false => exact absurd (h.sole j i c _ hj hc hgc hg hoc rfl) hji
            · rfl
          cases hp : c.prog with
          | done r' => exact fun _ _ => trivial
          | access act' next' =>
            rw [hp] at hover
            cases hover
  rw [show pre ++ .advance i :: post = (pre ++ [.advance i]) ++ post by simp, after_append, after_snoc]
  obtain ⟨k, hheld⟩ := hheld
  exact ⟨k, (hheld.run (hlater k)).1⟩

end Discipline

end Gate
