import Busbar.Auth.Flush

/-!
# How old a served verdict may be

An entry lives at most an hour from the clock reading of the put, and the put of an answer carries a reading no later than
the answer. The data plane also puts a hit back, with its own reading: each such put moves the entry's expiry on, and a
credential presented often enough is served from one answer forever.

* `Harmless`: a step that does neither that nor serve an entry that has run out since its clock was read.
* `AgeOk.after`: in a run of such steps nothing served is older than an hour.
* `CacheRun.flush_is_final`: all that a run of such steps keeps.
-/

namespace Busbar

open CacheState

variable {sha256Hex : String → String} {clock auth : Nat} {t : AuthThread} {r : CacheRun}

/-! ## The condition -/

namespace AuthThread

variable (sha256Hex)

/-- The lookup hits no entry that has expired by the time it is made. -/
def LooksInTime (t : AuthThread) (c : CacheState) (clock : Nat) (m : ChainModule) : Prop :=
  match t.cacheHere m with
  | none => True
  | some credential =>
    match c.entries.lookup (m.name, sha256Hex credential) with
    | none => True
    | some e => t.now < e.expiresAt → clock ≤ e.expiresAt

/-- The put, if it is of a hit and lands, does not move the expiry on. -/
def PutsNoLater (t : AuthThread) (c : CacheState) (w : PutCall) : Prop :=
  match w.hit, t.credential with
  | some expiresAt, some credential =>
    match kept (sha256Hex credential) w.outcome with
    | some (_, ttl) => c.flushGen = t.gen → t.now + ttl ≤ expiresAt
    | none => True
  | _, _ => True

instance (t : AuthThread) (c : CacheState) (clock : Nat) (m : ChainModule) :
    Decidable (t.LooksInTime sha256Hex c clock m) := by
  unfold LooksInTime
  split
  · exact inferInstanceAs (Decidable True)
  · split
    · exact inferInstanceAs (Decidable True)
    · exact inferInstanceAs (Decidable (_ → _))

instance (t : AuthThread) (c : CacheState) (w : PutCall) : Decidable (t.PutsNoLater sha256Hex c w) := by
  unfold PutsNoLater
  split
  · split
    · exact inferInstanceAs (Decidable (_ → _))
    · exact inferInstanceAs (Decidable True)
  · exact inferInstanceAs (Decidable True)

end AuthThread

namespace CacheRun

variable (sha256Hex)

def ThreadHarmless (r : CacheRun) (t : AuthThread) : Prop :=
  match t.phase with
  | .lookup (m :: _) _ => t.LooksInTime sha256Hex r.traced.cache r.clock m
  | .commit (w :: _) _ _ => t.PutsNoLater sha256Hex r.traced.cache w
  | _ => True

def Harmless (r : CacheRun) : CacheOp → Prop
  | .advance auth _ => ∀ t ∈ r.threads[auth]?, r.ThreadHarmless sha256Hex t
  | _ => True

instance (r : CacheRun) (t : AuthThread) : Decidable (r.ThreadHarmless sha256Hex t) := by
  unfold ThreadHarmless
  split
  · exact inferInstance
  · exact inferInstance
  · exact inferInstanceAs (Decidable True)

instance (r : CacheRun) (op : CacheOp) : Decidable (r.Harmless sha256Hex op) := by
  unfold Harmless
  split
  · exact inferInstance
  · exact inferInstanceAs (Decidable True)

/-- No entry is there after the step that was not there before, unless it expires by the time given. -/
def WritesBy (r : CacheRun) (op : CacheOp) (expiresAt : Nat) : Prop :=
  ∀ key e, (r.step sha256Hex op).traced.cache.entries.lookup key = some e →
    r.traced.cache.entries.lookup key = some e ∨ e.expiresAt ≤ expiresAt

/-- A lookup writes no entry, and the put of a hit none that outlives the entry that was hit. -/
def HitKept (r : CacheRun) : CacheOp → Prop
  | .advance auth answer =>
    ∀ t ∈ r.threads[auth]?,
      match t.phase with
      | .lookup _ _ => r.WritesBy sha256Hex (.advance auth answer) 0
      | .commit (w :: _) _ _ => ∀ x ∈ w.hit, r.WritesBy sha256Hex (.advance auth answer) x
      | _ => True
  | _ => True

end CacheRun

/-! ## Ages -/

structure AgeOk (r : CacheRun) : Prop where
  entries : ∀ key e o, r.traced.cache.entries.lookup key = some e → r.traced.origins.lookup key = some o →
    e.expiresAt ≤ o.time + maxIdentifyTtlSecs
  hits : ∀ (i : Nat) (t : AuthThread), r.threads[i]? = some t → ∀ w ∈ t.phase.puts, ∀ x o, w.hit = some x →
    w.origin = some o → x ≤ o.time + maxIdentifyTtlSecs
  served : ∀ i module credential outcome time o,
    AuthEvent.served i module credential outcome time (some o) ∈ r.log → time ≤ o.time + maxIdentifyTtlSecs

theorem AgeOk.advanced {out : AuthThread × TracedCache × List AuthEvent} (h : AgeOk r)
    (hentries : ∀ key e o, out.2.1.cache.entries.lookup key = some e → out.2.1.origins.lookup key = some o →
      e.expiresAt ≤ o.time + maxIdentifyTtlSecs)
    (hhits : ∀ w ∈ out.1.phase.puts, ∀ x o, w.hit = some x → w.origin = some o → x ≤ o.time + maxIdentifyTtlSecs)
    (hserved : ∀ i module credential outcome time o,
      AuthEvent.served i module credential outcome time (some o) ∈ out.2.2 → time ≤ o.time + maxIdentifyTtlSecs) :
    AgeOk { r with traced := out.2.1, threads := r.threads.set auth out.1, log := r.log ++ out.2.2 } where
  entries := hentries
  hits := fun i t ht => by
    dsimp only at ht
    by_cases hi : auth = i
    · subst hi
      rw [List.getElem?_set] at ht
      split at ht
      · split at ht
        · cases ht
          exact hhits
        · cases ht
      · exact h.hits _ t ht
    · rw [List.getElem?_set_ne hi] at ht
      exact h.hits i t ht
  served := fun i module credential outcome time o hmem => by
    rcases List.mem_append.1 hmem with hold | hnew
    · exact h.served i module credential outcome time o hold
    · exact hserved i module credential outcome time o hnew

/-- A step that writes nothing, shows nothing and gathers nothing. -/
theorem AgeOk.quiet (h : AgeOk r) (ht : r.threads[auth]? = some t) {c : CacheState} {t' : AuthThread}
    {events : List AuthEvent} (hkeeps : ∀ key e, c.entries.lookup key = some e → r.traced.cache.entries.lookup key = some e)
    (hputs : ∀ w ∈ t'.phase.puts, w ∈ t.phase.puts ∨ w.hit = none)
    (hquiet : ∀ i module credential outcome time o, AuthEvent.served i module credential outcome time o ∉ events) :
    AgeOk { r with
      traced := { r.traced with cache := c }, threads := r.threads.set auth t', log := r.log ++ events } := by
  refine @AgeOk.advanced auth r (t', { r.traced with cache := c }, events) h ?_ ?_ ?_
  · intro key e o he ho
    exact h.entries key e o (hkeeps key e he) ho
  · intro w hw x o hx ho
    rcases hputs w hw with hold | hnone
    · exact h.hits auth t ht w hold x o hx ho
    · rw [hnone] at hx
      cases hx
  · intro i module credential outcome time o hmem
    exact absurd hmem (hquiet i module credential outcome time (some o))

theorem AgeOk.lookup (h : AgeOk r) (hrun : RunOk sha256Hex r) {m : ChainModule} {rest : List ChainModule}
    {pending : List PutCall} {answer : AuthOutcome} (ht : r.threads[auth]? = some t)
    (hp : t.phase = .lookup (m :: rest) pending) (hin : t.LooksInTime sha256Hex r.traced.cache r.clock m) :
    AgeOk { r with
      traced := (t.step sha256Hex auth r.clock answer r.traced).2.1
      threads := r.threads.set auth (t.step sha256Hex auth r.clock answer r.traced).1
      log := r.log ++ (t.step sha256Hex auth r.clock answer r.traced).2.2 } := by
  have hpending : ∀ w ∈ pending, w ∈ t.phase.puts ∨ w.hit = none := by
    intro w hw
    rw [hp]
    exact Or.inl hw
  cases hhere : t.cacheHere m with
  | none =>
    unfold AuthThread.step
    rw [hp]
    dsimp only
    rw [hhere]
    exact h.quiet ht (fun key e he => he) hpending nofun
  | some credential =>
    cases hget : (r.traced.cache.get sha256Hex m.name credential t.now).1 with
    | none =>
      rw [AuthThread.step_miss hp hhere hget]
      exact h.quiet ht (fun key e he => get_keeps he) hpending nofun
    | some outcome =>
      obtain ⟨-, e, he, hlive, -⟩ := get_hit hget
      obtain ⟨origin, horigin, -⟩ := hrun.entries _ e he
      have hage := h.entries _ e origin he horigin
      rw [AuthThread.step_hit hp hhere hget he, horigin]
      refine h.advanced ?_ ?_ ?_
      · intro key e' o he' ho
        exact h.entries key e' o (get_keeps he') ho
      · intro w hw x o hx ho
        rcases afterHit_puts hw with hold | ⟨-, rfl⟩
        · refine h.hits auth t ht w ?_ x o hx ho
          rw [hp]
          exact hold
        · cases hx
          cases ho
          exact hage
      · intro i module credential' outcome' time o hmem
        cases List.mem_singleton.1 hmem
        unfold AuthThread.LooksInTime at hin
        rw [hhere] at hin
        dsimp only at hin
        rw [he] at hin
        exact Nat.le_trans (hin hlive) hage

theorem AgeOk.put (h : AgeOk r) (hrun : RunOk sha256Hex r) {w : PutCall} {puts : List PutCall}
    {rest : List ChainModule} {identified : Option (String × Principal)} {answer : AuthOutcome}
    (ht : r.threads[auth]? = some t) (hp : t.phase = .commit (w :: puts) rest identified)
    (hno : t.PutsNoLater sha256Hex r.traced.cache w) :
    AgeOk { r with
      traced := (t.step sha256Hex auth r.clock answer r.traced).2.1
      threads := r.threads.set auth (t.step sha256Hex auth r.clock answer r.traced).1
      log := r.log ++ (t.step sha256Hex auth r.clock answer r.traced).2.2 } := by
  obtain ⟨credential, origin, hput⟩ := (hrun.threads auth t ht).puts w (by rw [hp]; exact List.mem_cons_self)
  rw [AuthThread.step_put hp hput.presents hput.goesBack]
  refine h.advanced ?_ ?_ nofun
  · intro key e o he ho
    rcases put_cases sha256Hex r.traced.cache w.module credential w.outcome t.now t.gen with
      ⟨hdrop, heq⟩ | ⟨verdict, ttl, hkept, hgen, -, hrows⟩
    · dsimp only at he ho
      rw [if_neg hdrop] at ho
      rw [heq] at he
      exact h.entries key e o he ho
    · dsimp only at he ho
      have hland : (kept (sha256Hex credential) w.outcome).isSome = true ∧ r.traced.cache.flushGen = t.gen := by
        rw [hkept]
        exact ⟨rfl, hgen⟩
      rw [if_pos hland, Table.lookup_insert] at ho
      rcases hrows key e he with ⟨rfl, hexp, -⟩ | ⟨hkey, hold⟩
      · rw [if_pos rfl] at ho
        cases ho
        rw [hexp]
        -- an answer's own put is no later than the answer; that of a hit no later than the entry
        cases hhit : w.hit with
        | none =>
          have hown := hput.own hhit
          have httl := (kept_outcome hkept).2
          omega
        | some x =>
          have hx := h.hits auth t ht w (by rw [hp]; exact List.mem_cons_self) x origin hhit hput.goesBack
          unfold AuthThread.PutsNoLater at hno
          rw [hhit, hput.presents] at hno
          dsimp only at hno
          rw [hkept] at hno
          exact Nat.le_trans (hno hgen) hx
      · rw [if_neg (Ne.symm hkey)] at ho
        exact h.entries key e o hold ho
  · intro v hv x o hx ho
    refine h.hits auth t ht v ?_ x o hx ho
    rw [hp]
    exact List.mem_cons_of_mem w hv

theorem AgeOk.advance (h : AgeOk r) (hrun : RunOk sha256Hex r) {answer : AuthOutcome}
    (ht : r.threads[auth]? = some t) (hharm : r.ThreadHarmless sha256Hex t) :
    AgeOk { r with
      traced := (t.step sha256Hex auth r.clock answer r.traced).2.1
      threads := r.threads.set auth (t.step sha256Hex auth r.clock answer r.traced).1
      log := r.log ++ (t.step sha256Hex auth r.clock answer r.traced).2.2 } := by
  unfold CacheRun.ThreadHarmless at hharm
  cases hp : t.phase with
  | arrived =>
    unfold AuthThread.step
    rw [hp]
    exact h.quiet ht (fun key e he => he) nofun (by simp)
  | lookup chain pending =>
    rw [hp] at hharm
    cases chain with
    | nil =>
      unfold AuthThread.step
      rw [hp]
      exact h.quiet ht (fun key e he => he) nofun nofun
    | cons m rest => exact h.lookup hrun ht hp hharm
  | consult m rest pending =>
    unfold AuthThread.step
    rw [hp]
    refine h.quiet ht (fun key e he => he) (fun w hw => ?_) (by simp)
    rw [hp]
    rcases afterConsult_puts hw with hold | ⟨-, -, rfl⟩
    · exact Or.inl hold
    · exact Or.inr rfl
  | commit puts rest identified =>
    rw [hp] at hharm
    cases puts with
    | nil =>
      unfold AuthThread.step
      rw [hp]
      cases identified with
      | some _ => exact h.quiet ht (fun key e he => he) nofun nofun
      | none => exact h.quiet ht (fun key e he => he) nofun nofun
    | cons w puts => exact h.put hrun ht hp hharm
  | finished identified =>
    unfold AuthThread.step
    rw [hp]
    refine h.quiet ht (fun key e he => he) (fun w hw => ?_) nofun
    rw [hp] at hw
    cases hw

theorem AgeOk.step (h : AgeOk r) (hrun : RunOk sha256Hex r) {op : CacheOp} (hharm : r.Harmless sha256Hex op) :
    AgeOk (r.step sha256Hex op) := by
  cases op with
  | tick secs => exact ⟨h.entries, h.hits, h.served⟩
  | arrive plane credential chain =>
    refine ⟨h.entries, fun i t ht => ?_, h.served⟩
    have ht' : (r.threads ++ [⟨plane, credential, r.clock, 0, chain, .arrived⟩])[i]? = some t := ht
    by_cases hi : i < r.threads.length
    · rw [List.getElem?_append_left hi] at ht'
      exact h.hits i t ht'
    · rw [List.getElem?_append_right (Nat.le_of_not_lt hi)] at ht'
      cases List.mem_singleton.1 (List.mem_of_getElem? ht')
      nofun
  | advance auth answer =>
    dsimp only [CacheRun.step]
    cases ht : r.threads[auth]? with
    | none => exact h
    | some t => exact h.advance hrun ht (hharm t ht)
  | flushModule module =>
    refine ⟨fun key e o he ho => ?_, h.hits, fun i name credential outcome time o hmem => ?_⟩
    · have hkeep : Table.lookup (Registry.retain (fun row => row.1.1 ≠ module) r.traced.cache.entries) key = some e := he
      rw [Table.lookup_retain] at hkeep
      exact h.entries key e o (Option.filter_eq_some_iff.1 hkeep).1 ho
    · rcases List.mem_append.1 hmem with hold | hnew
      · exact h.served i name credential outcome time o hold
      · cases List.mem_singleton.1 hnew
  | flushAll =>
    refine ⟨fun key e o he ho => ?_, h.hits, fun i name credential outcome time o hmem => ?_⟩
    · cases he
    · rcases List.mem_append.1 hmem with hold | hnew
      · exact h.served i name credential outcome time o hold
      · cases List.mem_singleton.1 hnew

/-- **Every run of harmless steps.** -/
theorem AgeOk.after {ops : List CacheOp} (hfew : flushCount (CacheRun.after sha256Hex ops).log < 2 ^ 64)
    (halong : Run.Along (fun pre op => (CacheRun.after sha256Hex pre).Harmless sha256Hex op) ops) :
    AgeOk (CacheRun.after sha256Hex ops) := by
  induction ops using List.reverseRecOn with
  | nil => exact ⟨nofun, nofun, nofun⟩
  | append_singleton ops op ih =>
    obtain ⟨hpre, hop⟩ := Run.Along.snoc_iff.1 halong
    have hbefore := Nat.lt_of_le_of_lt (flushCount_snoc_le ops op) hfew
    have hrun := RunOk.after hbefore
    have hage := ih hbefore hpre
    unfold CacheRun.after at hage hrun hop ⊢
    rw [Run.exec_snoc]
    exact hage.step hrun hop

/-! ## Hits -/

theorem CacheRun.step_advance {answer : AuthOutcome} (ht : r.threads[auth]? = some t) :
    (r.step sha256Hex (.advance auth answer)).traced = (t.step sha256Hex auth r.clock answer r.traced).2.1 := by
  dsimp only [CacheRun.step]
  rw [ht]

theorem CacheRun.writesBy_lookup {chain : List ChainModule} {pending : List PutCall} {answer : AuthOutcome}
    (ht : r.threads[auth]? = some t) (hp : t.phase = .lookup chain pending) (expiresAt : Nat) :
    r.WritesBy sha256Hex (.advance auth answer) expiresAt := by
  intro key e he
  refine Or.inl ?_
  rw [CacheRun.step_advance ht] at he
  cases chain with
  | nil =>
    unfold AuthThread.step at he
    rw [hp] at he
    exact he
  | cons m rest =>
    cases hhere : t.cacheHere m with
    | none =>
      unfold AuthThread.step at he
      rw [hp] at he
      dsimp only at he
      rw [hhere] at he
      exact he
    | some credential =>
      cases hget : (r.traced.cache.get sha256Hex m.name credential t.now).1 with
      | none =>
        rw [AuthThread.step_miss hp hhere hget] at he
        exact get_keeps he
      | some outcome =>
        obtain ⟨-, e', he', -⟩ := get_hit hget
        rw [AuthThread.step_hit hp hhere hget he'] at he
        exact get_keeps he

theorem CacheRun.writesBy_put (hrun : RunOk sha256Hex r) {w : PutCall} {puts : List PutCall} {rest : List ChainModule}
    {identified : Option (String × Principal)} {answer : AuthOutcome} (ht : r.threads[auth]? = some t)
    (hp : t.phase = .commit (w :: puts) rest identified) (hno : t.PutsNoLater sha256Hex r.traced.cache w) {x : Nat}
    (hx : w.hit = some x) : r.WritesBy sha256Hex (.advance auth answer) x := by
  intro key e he
  obtain ⟨credential, origin, hput⟩ := (hrun.threads auth t ht).puts w (by rw [hp]; exact List.mem_cons_self)
  rw [CacheRun.step_advance ht, AuthThread.step_put hp hput.presents hput.goesBack] at he
  dsimp only at he
  rcases put_cases sha256Hex r.traced.cache w.module credential w.outcome t.now t.gen with
    ⟨-, heq⟩ | ⟨verdict, ttl, hkept, hgen, -, hrows⟩
  · rw [heq] at he
    exact Or.inl he
  · rcases hrows key e he with ⟨-, hexp, -⟩ | ⟨-, hold⟩
    · unfold AuthThread.PutsNoLater at hno
      rw [hx, hput.presents] at hno
      dsimp only at hno
      rw [hkept] at hno
      rw [hexp]
      exact Or.inr (hno hgen)
    · exact Or.inl hold

theorem CacheRun.hitKept (hrun : RunOk sha256Hex r) {op : CacheOp} (hharm : r.Harmless sha256Hex op) :
    r.HitKept sha256Hex op := by
  cases op with
  | advance auth answer =>
    intro t ht
    have hthis := hharm t ht
    unfold CacheRun.ThreadHarmless at hthis
    cases hp : t.phase with
    | lookup chain pending => exact CacheRun.writesBy_lookup ht hp 0
    | commit puts rest identified =>
      rw [hp] at hthis
      cases puts with
      | nil => trivial
      | cons w puts =>
        intro x hx
        exact CacheRun.writesBy_put hrun ht hp hthis hx
    | _ => trivial
  | _ => trivial

/-! ## What a run keeps -/

namespace CacheRun

/-- The credentials that are presented in a run. -/
def presented (ops : List CacheOp) : List String :=
  ops.filterMap fun
    | .arrive _ credential _ => credential
    | _ => none

/-- The credential an event is about. -/
def credentialOf : AuthEvent → Option String
  | .consulted _ _ credential _ _ => credential
  | .served _ _ credential _ _ _ => some credential
  | _ => none

theorem step_credential (t : AuthThread) (auth clock : Nat) (answer : AuthOutcome) (c : TracedCache) :
    (t.step sha256Hex auth clock answer c).1.credential = t.credential ∧
      ∀ e ∈ (t.step sha256Hex auth clock answer c).2.2, ∀ credential, credentialOf e = some credential →
        t.credential = some credential := by
  unfold AuthThread.step
  split
  · refine ⟨rfl, fun e he credential hc => ?_⟩
    cases List.mem_singleton.1 he
    cases hc
  · exact ⟨rfl, fun e he => by cases he⟩
  · split
    · exact ⟨rfl, fun e he => by cases he⟩
    · rename_i presented hhere
      dsimp only
      split
      · exact ⟨rfl, fun e he => by cases he⟩
      · refine ⟨rfl, fun e he credential hc => ?_⟩
        cases List.mem_singleton.1 he
        cases hc
        exact AuthThread.credential_of_cacheHere hhere
  · refine ⟨rfl, fun e he credential hc => ?_⟩
    cases List.mem_singleton.1 he
    exact hc
  · split
    · exact ⟨rfl, fun e he => by cases he⟩
    · exact ⟨rfl, fun e he => by cases he⟩
  · split
    · exact ⟨rfl, fun e he => by cases he⟩
    · exact ⟨rfl, fun e he => by cases he⟩
  · exact ⟨rfl, fun e he => by cases he⟩

/-- Every credential of the state and of the record is one of the list. -/
structure Among (credentials : List String) (r : CacheRun) : Prop where
  threads : ∀ t ∈ r.threads, ∀ credential, t.credential = some credential → credential ∈ credentials
  log : ∀ e ∈ r.log, ∀ credential, credentialOf e = some credential → credential ∈ credentials

theorem Among.step {credentials : List String} (h : Among credentials r) {op : CacheOp} :
    Among (credentials ++ presented [op]) (r.step sha256Hex op) := by
  have hthreads : ∀ t ∈ r.threads, ∀ credential, t.credential = some credential →
      credential ∈ credentials ++ presented [op] :=
    fun t ht credential hc => List.mem_append_left _ (h.threads t ht credential hc)
  have hlog : ∀ e ∈ r.log, ∀ credential, credentialOf e = some credential →
      credential ∈ credentials ++ presented [op] :=
    fun e he credential hc => List.mem_append_left _ (h.log e he credential hc)
  have hflush : ∀ module, ∀ e ∈ r.log ++ [AuthEvent.flushed module], ∀ credential, credentialOf e = some credential →
      credential ∈ credentials ++ presented [op] := by
    intro module e he credential hc
    rcases List.mem_append.1 he with hold | hnew
    · exact hlog e hold credential hc
    · cases List.mem_singleton.1 hnew
      cases hc
  cases op with
  | tick secs => exact ⟨hthreads, hlog⟩
  | arrive plane credential chain =>
    refine ⟨fun t ht c hc => ?_, hlog⟩
    rcases List.mem_append.1 ht with hold | hnew
    · exact hthreads t hold c hc
    · cases List.mem_singleton.1 hnew
      refine List.mem_append_right _ ?_
      have hsome : credential = some c := hc
      rw [hsome]
      exact List.mem_singleton_self c
  | advance auth answer =>
    dsimp only [CacheRun.step]
    cases ht : r.threads[auth]? with
    | none => exact ⟨hthreads, hlog⟩
    | some t =>
      obtain ⟨hcred, hevents⟩ := step_credential t auth r.clock answer r.traced
      refine ⟨fun t' ht' c hc => ?_, fun e he c hc => ?_⟩
      · rcases List.mem_or_eq_of_mem_set ht' with hold | rfl
        · exact hthreads t' hold c hc
        · exact hthreads t (List.mem_of_getElem? ht) c (hcred ▸ hc)
      · rcases List.mem_append.1 he with hold | hnew
        · exact hlog e hold c hc
        · exact hthreads t (List.mem_of_getElem? ht) c (hevents e hnew c hc)
  | flushModule module => exact ⟨hthreads, hflush (some module)⟩
  | flushAll => exact ⟨hthreads, hflush none⟩

theorem among_presented (ops : List CacheOp) : Among (presented ops) (after sha256Hex ops) := by
  induction ops using List.reverseRecOn with
  | nil => exact ⟨nofun, nofun⟩
  | append_singleton ops op ih =>
    have hsplit : presented (ops ++ [op]) = presented ops ++ presented [op] := List.filterMap_append
    unfold after at ih ⊢
    rw [Run.exec_snoc, hsplit]
    exact ih.step

end CacheRun

/-- **A flush is final, and a verdict served is a recent one**, in a run of harmless steps: whatever is served was said by
the module for that credential at most an hour before, in an authentication that captured its generation after every flush
of the module so far, and was no rejection. A hit leaves its entry no longer life, and the map keeps its bound. -/
theorem CacheRun.flush_is_final {ops : List CacheOp}
    (hdigest : ∀ a ∈ presented ops, ∀ b ∈ presented ops, sha256Hex a = sha256Hex b → a = b)
    (hfew : flushCount (CacheRun.after sha256Hex ops).log < 2 ^ 64)
    (halong : Run.Along (fun pre op => (CacheRun.after sha256Hex pre).Harmless sha256Hex op) ops) :
    (∀ (p i : Nat) module credential outcome time origin,
      (after sha256Hex ops).log[p]? = some (AuthEvent.served i module credential outcome time origin) →
        outcome ≠ .reject ∧
          ∃ (o : Origin) (q : Nat), q < p ∧
            (after sha256Hex ops).log[q]? = some (AuthEvent.consulted o.auth module (some credential) outcome o.time) ∧
            time ≤ o.time + 3600 ∧
            (∃ c : Nat, (after sha256Hex ops).log[c]? = some (AuthEvent.captured o.auth)) ∧
            ∀ (c j : Nat) (f : AuthEvent), (after sha256Hex ops).log[c]? = some (AuthEvent.captured o.auth) → j < p →
              (after sha256Hex ops).log[j]? = some f → f.Covers module → j < c) ∧
      (after sha256Hex ops).traced.cache.entries.rows.length ≤ 4096 ∧
      Run.Along (fun pre op => (after sha256Hex pre).HitKept sha256Hex op) ops := by
  have hrun := RunOk.after hfew
  have hage := AgeOk.after hfew halong
  have hamong : Among (presented ops) (after sha256Hex ops) := among_presented ops
  refine ⟨fun p i module credential outcome time origin hp => ?_, hrun.bound, ?_⟩
  · have hmem := List.mem_of_getElem? hp
    obtain ⟨hne, o, rfl, ⟨credential', hvouched, hhash⟩, c₀, hc₀, hfresh⟩ :=
      hrun.served p i module credential outcome time origin hp
    -- the credential served and the one consulted about are both presented, so the same
    have hsame : credential' = credential := by
      have hconsulted := hamong.log _ (List.mem_of_mem_take hvouched) credential' rfl
      exact hdigest credential' hconsulted credential (hamong.log _ hmem credential rfl) hhash
    subst hsame
    obtain ⟨q, hq⟩ := List.mem_iff_getElem?.1 hvouched
    have htake : ∀ {j : Nat} {f : AuthEvent}, ((after sha256Hex ops).log.take p)[j]? = some f →
        j < p ∧ (after sha256Hex ops).log[j]? = some f := by
      intro j f hf
      rw [List.getElem?_take] at hf
      split at hf
      · rename_i hlt
        exact ⟨hlt, hf⟩
      · cases hf
    refine ⟨hne, o, q, (htake hq).1, (htake hq).2, hage.served i module credential' outcome time o hmem,
      ⟨c₀, (htake hc₀).2⟩, fun c j f hc hj hf hcov => ?_⟩
    rw [hrun.unique o.auth c c₀ hc (htake hc₀).2]
    refine hfresh j f ?_ hcov
    rw [List.getElem?_take, if_pos hj]
    exact hf
  · intro pre op post hsplit
    have hpre : flushCount (after sha256Hex pre).log < 2 ^ 64 := by
      refine Nat.lt_of_le_of_lt ?_ hfew
      rw [hsplit]
      exact flushCount_append_le pre (op :: post)
    exact hitKept (RunOk.after hpre) (halong pre op post hsplit)

/-! ## Runs that show it -/

namespace CacheRun

/-- SHA-256 of the one credential that is presented. -/
def digestOfK (s : String) : String :=
  if s = "k" then "8254c329a92850f6d539dd376f4816ee2764517da5e0235514af433164480d7a" else s

def someone : Principal := { id := "u", name := none, roles := [], ttlSecs := some 3600 }

def keptModule : ChainModule := ⟨"m", true⟩

/-- An answer is put, all is flushed, another is put and hit. -/
def flushBetween : List CacheOp :=
  [.arrive .data (some "k") [keptModule], .advance 0 .pass, .advance 0 .pass, .advance 0 (.identify someone),
    .advance 0 .pass, .flushAll, .arrive .admin (some "k") [keptModule], .advance 1 .pass, .advance 1 .pass,
    .advance 1 (.identify someone), .advance 1 .pass, .tick 10, .arrive .admin (some "k") [keptModule], .advance 2 .pass,
    .advance 2 .pass]

/-- The flush at the third place of the record is before the capture of the authentication that asked. -/
theorem flush_is_final_between :
    ∃ (o : Origin) (q : Nat), q < 6 ∧
      (after digestOfK flushBetween).log[q]? =
        some (AuthEvent.consulted o.auth "m" (some "k") (.identify someone) o.time) ∧
      10 ≤ o.time + 3600 ∧
      ∀ c : Nat, (after digestOfK flushBetween).log[c]? = some (AuthEvent.captured o.auth) → 2 < c := by
  have hserved : (after digestOfK flushBetween).log[6]? =
      some (AuthEvent.served 2 "m" "k" (.identify someone) 10 (some ⟨1, 0⟩)) := by decide +kernel
  have hflushed : (after digestOfK flushBetween).log[2]? = some (AuthEvent.flushed none) := by decide +kernel
  have hall := @flush_is_final digestOfK flushBetween (by decide +kernel) (by decide +kernel)
    (Run.Along.of_checks (step digestOfK) (by decide +kernel))
  obtain ⟨-, o, q, hq, hconsulted, hage, -, hfinal⟩ := hall.1 6 2 "m" "k" (.identify someone) 10 (some ⟨1, 0⟩) hserved
  exact ⟨o, q, hq, hconsulted, hage, fun c hc => hfinal c 2 (.flushed none) hc (by decide) hflushed (Or.inl rfl)⟩

/-- One answer, asked for again and again on the data plane just before it runs out. -/
def askedAgain : List CacheOp :=
  [.arrive .data (some "k") [keptModule], .advance 0 .pass, .advance 0 .pass, .advance 0 (.identify someone),
    .advance 0 .pass, .tick 3599, .arrive .data (some "k") [keptModule], .advance 1 .pass, .advance 1 .pass,
    .advance 1 .pass, .tick 3599, .arrive .data (some "k") [keptModule], .advance 2 .pass, .advance 2 .pass]

/-- A slow module, not kept, is consulted between the clock reading and the lookup. -/
def slowBefore : List CacheOp :=
  [.arrive .data (some "k") [keptModule], .advance 0 .pass, .advance 0 .pass, .advance 0 (.identify someone),
    .advance 0 .pass, .tick 3599, .arrive .data (some "k") [⟨"slow", false⟩, keptModule], .advance 1 .pass,
    .advance 1 .pass, .tick 10, .advance 1 .pass, .advance 1 .pass]

/-- The module's answers before some time, all of them. -/
def AnsweredBy (log : List AuthEvent) (module : String) (time : Nat) : Prop :=
  ∀ e ∈ log,
    match e with
    | .consulted _ m _ _ t => m = module → t ≤ time
    | _ => True

instance (log : List AuthEvent) (module : String) (time : Nat) : Decidable (AnsweredBy log module time) := by
  unfold AnsweredBy
  refine @List.decidableBAll _ _ (fun e => ?_) _
  split
  · exact inferInstance
  · exact inferInstanceAs (Decidable True)

/-- The module answered once, at time 0. Its verdict is served at 7198, after a hit has moved the expiry of its own entry
from 3600 to 7199; behind a slow module it is served at 3609. -/
theorem verdict_outlives_hour :
    (after digestOfK askedAgain).log[5]? = some (AuthEvent.served 2 "m" "k" (.identify someone) 7198 (some ⟨0, 0⟩)) ∧
      AnsweredBy (after digestOfK askedAgain).log "m" 0 ∧
      ((after digestOfK (askedAgain.take 9)).traced.cache.entries.lookup ("m", digestOfK "k")).map CacheEntry.expiresAt =
        some 3600 ∧
      ((after digestOfK (askedAgain.take 10)).traced.cache.entries.lookup ("m", digestOfK "k")).map CacheEntry.expiresAt =
        some 7199 ∧
      (after digestOfK slowBefore).log[4]? = some (AuthEvent.served 1 "m" "k" (.identify someone) 3609 (some ⟨0, 0⟩)) ∧
      AnsweredBy (after digestOfK slowBefore).log "m" 0 := by
  decide +kernel

end CacheRun

end Busbar
