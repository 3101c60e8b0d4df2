import Busbar.Auth.CachedChain

/-!
# A flush of the credential cache is final

What a record holds of each entry of the cache: whose answer it is, and that no flush of its module came after that
authentication captured its generation. A put that a flush has overtaken is dropped, as long as the counter of the flushes
has not come round.

* `RunOk`: what a run's state and record have to do with each other.
* `RunOk.stepOk`: what a step of an authentication may do.
* `RunOk.after`: every run is so, up to the counter's bound.
-/

namespace Busbar

open CacheState

namespace AuthPhase

/-- The puts an authentication has gathered. -/
def puts : AuthPhase → List PutCall
  | arrived => []
  | lookup _ pending => pending
  | consult _ _ pending => pending
  | commit puts _ _ => puts
  | finished _ => []

end AuthPhase

variable {sha256Hex : String → String} {log events : List AuthEvent} {clock clock' auth : Nat} {t : AuthThread}
  {r : CacheRun}

variable (sha256Hex) in
/-- A put that is due holds a verdict some consultation gave, and no flush of the module has come in between unless one
has overtaken the authentication. -/
structure PutOk (log : List AuthEvent) (auth : Nat) (presented : Option String) (now : Nat) (w : PutCall)
    (credential : String) (origin : Origin) : Prop where
  presents : presented = some credential
  goesBack : w.origin = some origin
  vouched : Vouched sha256Hex log w.module (sha256Hex credential) w.outcome origin
  own : w.hit = none → now ≤ origin.time
  fresh : FreshFor log origin.auth w.module ∨ Overtaken log auth

variable (sha256Hex) in
structure ThreadOk (log : List AuthEvent) (clock auth : Nat) (t : AuthThread) : Prop where
  reads : t.now ≤ clock
  begun : t.phase ≠ .arrived →
    ∃ c, log[c]? = some (AuthEvent.captured auth) ∧ t.gen = flushCount (log.take c) % 2 ^ 64
  unborn : t.phase = .arrived → AuthEvent.captured auth ∉ log
  puts : ∀ w ∈ t.phase.puts, ∃ credential origin, PutOk sha256Hex log auth t.credential t.now w credential origin

variable (sha256Hex) in
/-- An entry holds a verdict of a consultation that no flush of its module has come after. -/
def EntryOk (c : TracedCache) (log : List AuthEvent) (key : CacheKey) (e : CacheEntry) : Prop :=
  ∃ origin, c.origins.lookup key = some origin ∧ Vouched sha256Hex log key.1 key.2 e.verdict.outcome origin ∧
    FreshFor log origin.auth key.1

variable (sha256Hex) in
/-- So does what was served. -/
def ServedOk (log : List AuthEvent) (module hash : String) (outcome : AuthOutcome) (origin : Option Origin) : Prop :=
  outcome ≠ .reject ∧ ∃ o, origin = some o ∧ Vouched sha256Hex log module hash outcome o ∧ FreshFor log o.auth module

variable (sha256Hex) in
structure RunOk (r : CacheRun) : Prop where
  gen : r.traced.cache.flushGen = flushCount r.log % 2 ^ 64
  bound : r.traced.cache.entries.rows.length ≤ maxEntries
  unique : ∀ i c c' : Nat, r.log[c]? = some (AuthEvent.captured i) → r.log[c']? = some (AuthEvent.captured i) → c = c'
  late : ∀ i, r.threads.length ≤ i → AuthEvent.captured i ∉ r.log
  threads : ∀ (i : Nat) (t : AuthThread), r.threads[i]? = some t → ThreadOk sha256Hex r.log r.clock i t
  entries : ∀ key e, r.traced.cache.entries.lookup key = some e → EntryOk sha256Hex r.traced r.log key e
  served : ∀ (p i : Nat) module credential outcome time origin,
    r.log[p]? = some (AuthEvent.served i module credential outcome time origin) →
      ServedOk sha256Hex (r.log.take p) module (sha256Hex credential) outcome origin

/-! ## What more record keeps -/

theorem not_covers {e : AuthEvent} (h : e.isFlush = false) (module : String) : ¬ e.Covers module := by
  intro hcov
  have hflush := hcov.isFlush
  rw [h] at hflush
  cases hflush

theorem flushCount_calm (he : ∀ e ∈ events, e.isFlush = false) : flushCount (log ++ events) = flushCount log := by
  have hnone : flushCount events = 0 := by
    refine List.countP_eq_zero.2 fun e hmem => ?_
    rw [he e hmem]
    exact Bool.false_ne_true
  rw [flushCount_append, hnone, Nat.add_zero]

theorem PutOk.append {presented : Option String} {now : Nat} {w : PutCall} {credential : String} {origin : Origin}
    (h : PutOk sha256Hex log auth presented now w credential origin) (he : ∀ e ∈ events, e.isFlush = false) :
    PutOk sha256Hex (log ++ events) auth presented now w credential origin := by
  refine ⟨h.presents, h.goesBack, h.vouched.append, h.own, ?_⟩
  rcases h.fresh with hfresh | hover
  · exact Or.inl (hfresh.append fun e hmem => not_covers (he e hmem) w.module)
  · exact Or.inr hover.append

/-- The position of the capture is in the old record, so what came before it is the same. -/
theorem begun_append {c : Nat} {gen : Nat} (hc : log[c]? = some (AuthEvent.captured auth))
    (hgen : gen = flushCount (log.take c) % 2 ^ 64) :
    ∃ c, (log ++ events)[c]? = some (AuthEvent.captured auth) ∧ gen = flushCount ((log ++ events).take c) % 2 ^ 64 := by
  have hlt := (List.getElem?_eq_some_iff.1 hc).1
  refine ⟨c, getElem?_keep hc, ?_⟩
  rw [List.take_append_of_le_length (Nat.le_of_lt hlt)]
  exact hgen

theorem ThreadOk.append (h : ThreadOk sha256Hex log clock auth t) (he : ∀ e ∈ events, e.isFlush = false)
    (hnew : AuthEvent.captured auth ∉ events) (hclock : clock ≤ clock') :
    ThreadOk sha256Hex (log ++ events) clock' auth t where
  reads := Nat.le_trans h.reads hclock
  begun := fun hp => by
    obtain ⟨c, hc, hgen⟩ := h.begun hp
    exact begun_append hc hgen
  unborn := fun hp hmem => by
    rcases List.mem_append.1 hmem with hold | hnow
    · exact h.unborn hp hold
    · exact hnew hnow
  puts := fun w hw => by
    obtain ⟨credential, origin, hput⟩ := h.puts w hw
    exact ⟨credential, origin, hput.append he⟩

/-- A flush overtakes every authentication that has begun. -/
theorem ThreadOk.flushed (h : ThreadOk sha256Hex log clock auth t) (module : Option String) :
    ThreadOk sha256Hex (log ++ [.flushed module]) clock auth t where
  reads := h.reads
  begun := fun hp => by
    obtain ⟨c, hc, hgen⟩ := h.begun hp
    exact begun_append hc hgen
  unborn := fun hp hmem => by
    rcases List.mem_append.1 hmem with hold | hnow
    · exact h.unborn hp hold
    · cases List.mem_singleton.1 hnow
  puts := fun w hw => by
    obtain ⟨credential, origin, hput⟩ := h.puts w hw
    have hp : t.phase ≠ .arrived := by
      intro hp
      rw [hp] at hw
      cases hw
    obtain ⟨c, hc, -⟩ := h.begun hp
    exact ⟨credential, origin, hput.presents, hput.goesBack, hput.vouched.append, hput.own,
      Or.inr (Overtaken.of_flush hc rfl)⟩

theorem EntryOk.append {c : TracedCache} {key : CacheKey} {e : CacheEntry} (h : EntryOk sha256Hex c log key e)
    (he : ∀ f ∈ events, f.Covers key.1 → False) : EntryOk sha256Hex c (log ++ events) key e := by
  obtain ⟨origin, horigin, hvouched, hfresh⟩ := h
  exact ⟨origin, horigin, hvouched.append, hfresh.append he⟩

/-! ## A step of an authentication -/

variable (sha256Hex) in
/-- What a step of an authentication leaves. -/
structure StepOk (r : CacheRun) (auth : Nat) (t : AuthThread) (out : AuthThread × TracedCache × List AuthEvent) : Prop where
  thread : ThreadOk sha256Hex (r.log ++ out.2.2) r.clock auth out.1
  gen : out.2.1.cache.flushGen = r.traced.cache.flushGen
  bound : out.2.1.cache.entries.rows.length ≤ maxEntries
  calm : ∀ e ∈ out.2.2, e.isFlush = false
  short : out.2.2.length ≤ 1
  captured : ∀ i, AuthEvent.captured i ∈ out.2.2 → i = auth ∧ t.phase = .arrived
  entries : ∀ key e, out.2.1.cache.entries.lookup key = some e → EntryOk sha256Hex out.2.1 r.log key e
  served : ∀ i module credential outcome time origin,
    AuthEvent.served i module credential outcome time origin ∈ out.2.2 →
      ServedOk sha256Hex r.log module (sha256Hex credential) outcome origin

/-- A step that leaves so much keeps the run as it should be. -/
theorem RunOk.advanced {out : AuthThread × TracedCache × List AuthEvent} (h : RunOk sha256Hex r)
    (ht : r.threads[auth]? = some t) (hs : StepOk sha256Hex r auth t out) :
    RunOk sha256Hex { r with traced := out.2.1, threads := r.threads.set auth out.1, log := r.log ++ out.2.2 } := by
  have hauth := (List.getElem?_eq_some_iff.1 ht).1
  -- a new event is at the end
  have hend : ∀ {j : Nat} {f : AuthEvent}, (r.log ++ out.2.2)[j]? = some f → r.log.length ≤ j → j = r.log.length := by
    intro j f hf hj
    have hlt := (List.getElem?_eq_some_iff.1 hf).1
    rw [List.length_append] at hlt
    have hone := hs.short
    omega
  refine ⟨?_, hs.bound, ?_, ?_, ?_, ?_, ?_⟩
  · dsimp only
    rw [hs.gen, h.gen, flushCount_calm hs.calm]
  · intro i c c' hc hc'
    rcases getElem?_snoc hc with hold | ⟨hge, hnew⟩ <;> rcases getElem?_snoc hc' with hold' | ⟨hge', hnew'⟩
    · exact h.unique i c c' hold hold'
    · obtain ⟨rfl, hp⟩ := hs.captured i hnew'
      exact absurd (List.mem_of_getElem? hold) ((h.threads _ t ht).unborn hp)
    · obtain ⟨rfl, hp⟩ := hs.captured i hnew
      exact absurd (List.mem_of_getElem? hold') ((h.threads _ t ht).unborn hp)
    · exact (hend hc hge).trans (hend hc' hge').symm
  · intro i hi hmem
    dsimp only at hi hmem
    rw [List.length_set] at hi
    rcases List.mem_append.1 hmem with hold | hnew
    · exact h.late i hi hold
    · obtain ⟨rfl, -⟩ := hs.captured i hnew
      omega
  · intro i t' ht'
    dsimp only at ht' ⊢
    by_cases hi : auth = i
    · subst hi
      rw [List.getElem?_set_self hauth] at ht'
      cases ht'
      exact hs.thread
    · rw [List.getElem?_set_ne hi] at ht'
      have hnew : AuthEvent.captured i ∉ out.2.2 := fun hmem => hi (hs.captured i hmem).1.symm
      exact (h.threads i t' ht').append hs.calm hnew (Nat.le_refl _)
  · intro key e he
    exact (hs.entries key e he).append fun f hf => not_covers (hs.calm f hf) key.1
  · intro p i module credential outcome time origin hp
    dsimp only at hp ⊢
    rcases getElem?_snoc hp with hold | ⟨hge, hnew⟩
    · have hlt := (List.getElem?_eq_some_iff.1 hold).1
      rw [List.take_append_of_le_length (Nat.le_of_lt hlt)]
      exact h.served p i module credential outcome time origin hold
    · rw [hend hp hge, List.take_append_of_le_length (Nat.le_refl _), List.take_length]
      exact hs.served i module credential outcome time origin hnew

/-- A step of an authentication that has begun, put together. -/
theorem RunOk.stepOk_of (h : RunOk sha256Hex r) (ht : r.threads[auth]? = some t) (hp : t.phase ≠ .arrived)
    {p : AuthPhase} {c' : TracedCache} (hp' : p ≠ .arrived)
    (hcalm : ∀ e ∈ events, e.isFlush = false) (hshort : events.length ≤ 1) (hcap : ∀ i, AuthEvent.captured i ∉ events)
    (hputs : ∀ w ∈ p.puts, ∃ credential origin,
      PutOk sha256Hex (r.log ++ events) auth t.credential t.now w credential origin)
    (hgen : c'.cache.flushGen = r.traced.cache.flushGen) (hbound : c'.cache.entries.rows.length ≤ maxEntries)
    (hentries : ∀ key e, c'.cache.entries.lookup key = some e → EntryOk sha256Hex c' r.log key e)
    (hserved : ∀ i module credential outcome time origin,
      AuthEvent.served i module credential outcome time origin ∈ events →
        ServedOk sha256Hex r.log module (sha256Hex credential) outcome origin) :
    StepOk sha256Hex r auth t ({ t with phase := p }, c', events) := by
  have hthread := h.threads auth t ht
  obtain ⟨c, hc, hcgen⟩ := hthread.begun hp
  refine ⟨⟨hthread.reads, fun _ => begun_append hc hcgen, fun harr => absurd harr hp', hputs⟩, hgen, hbound, hcalm, hshort,
    fun i hi => absurd hi (hcap i), hentries, hserved⟩

/-! ### The phases -/

variable {m : ChainModule} {rest : List ChainModule} {pending : List PutCall} {outcome answer : AuthOutcome}

theorem afterHit_puts {o : Option Origin} {x : Nat} {w : PutCall}
    (hw : w ∈ (t.afterHit m rest pending outcome o x).puts) :
    w ∈ pending ∨ t.plane = .data ∧ w = ⟨m.name, outcome, o, some x⟩ := by
  unfold AuthThread.afterHit at hw
  cases outcome with
  | identify p =>
    cases hplane : t.plane with
    | data =>
      rw [hplane] at hw
      rcases List.mem_append.1 hw with hold | hnew
      · exact Or.inl hold
      · exact Or.inr ⟨rfl, List.mem_singleton.1 hnew⟩
    | admin =>
      rw [hplane] at hw
      cases hw
  | reject => cases hw
  | pass => exact Or.inl hw

theorem afterHit_ne {o : Option Origin} {x : Nat} : t.afterHit m rest pending outcome o x ≠ .arrived := by
  unfold AuthThread.afterHit
  split
  · split <;> nofun
  · nofun
  · nofun

/-- The put of the answer itself. -/
theorem ownPut {o : Origin} {w : PutCall} {own : List PutCall}
    (hown : own = match t.cacheHere m with
      | some _ => [⟨m.name, outcome, some o, none⟩]
      | none => []) (hmem : w ∈ own) :
    ∃ credential, t.credential = some credential ∧ w = ⟨m.name, outcome, some o, none⟩ := by
  subst hown
  cases hhere : t.cacheHere m with
  | none =>
    rw [hhere] at hmem
    cases hmem
  | some credential =>
    rw [hhere] at hmem
    exact ⟨credential, AuthThread.credential_of_cacheHere hhere, List.mem_singleton.1 hmem⟩

theorem afterConsult_puts {o : Origin} {w : PutCall} (hw : w ∈ (t.afterConsult m rest pending outcome o).puts) :
    w ∈ pending ∨ ∃ credential, t.credential = some credential ∧ w = ⟨m.name, outcome, some o, none⟩ := by
  unfold AuthThread.afterConsult at hw
  dsimp only at hw
  split at hw
  · rcases List.mem_append.1 hw with hold | hnew
    · exact Or.inl hold
    · exact Or.inr (ownPut rfl hnew)
  · cases hw
  · rcases List.mem_append.1 hw with hold | hnew
    · exact Or.inl hold
    · exact Or.inr (ownPut rfl hnew)
  · exact Or.inr (ownPut rfl hw)
  · exact Or.inr (ownPut rfl hw)
  · exact Or.inr (ownPut rfl hw)

theorem afterConsult_ne {o : Origin} : t.afterConsult m rest pending outcome o ≠ .arrived := by
  unfold AuthThread.afterConsult
  dsimp only
  split <;> nofun

/-- The puts gathered so far, in the longer record. -/
theorem RunOk.puts_append (h : RunOk sha256Hex r) (ht : r.threads[auth]? = some t)
    (he : ∀ e ∈ events, e.isFlush = false) {w : PutCall} (hw : w ∈ t.phase.puts) :
    ∃ credential origin, PutOk sha256Hex (r.log ++ events) auth t.credential t.now w credential origin := by
  obtain ⟨credential, origin, hput⟩ := (h.threads auth t ht).puts w hw
  exact ⟨credential, origin, hput.append he⟩

theorem notMem_nil_events : ∀ e ∈ ([] : List AuthEvent), e.isFlush = false := by
  intro e he
  cases he

/-- A step that writes nothing and shows nothing. -/
theorem RunOk.stepOk_quiet (h : RunOk sha256Hex r) (ht : r.threads[auth]? = some t) (hp : t.phase ≠ .arrived)
    {p : AuthPhase} (hp' : p ≠ .arrived) (hputs : ∀ w ∈ p.puts, w ∈ t.phase.puts) :
    StepOk sha256Hex r auth t ({ t with phase := p }, r.traced, []) :=
  h.stepOk_of ht hp hp' notMem_nil_events (Nat.zero_le _) (fun i hi => by cases hi)
    (fun w hw => h.puts_append ht notMem_nil_events (hputs w hw)) rfl h.bound h.entries
    (fun i module credential outcome time origin hmem => by cases hmem)

/-- The capture of the generation. -/
theorem RunOk.stepOk_capture (h : RunOk sha256Hex r) (ht : r.threads[auth]? = some t) (hp : t.phase = .arrived) :
    StepOk sha256Hex r auth t
      ({ t with gen := r.traced.cache.generation, phase := .lookup t.chain [] }, r.traced, [.captured auth]) where
  thread := by
    refine ⟨(h.threads auth t ht).reads, fun _ => ⟨r.log.length, ?_, ?_⟩, nofun, nofun⟩
    · rw [List.getElem?_append_right (Nat.le_refl _), Nat.sub_self]
      rfl
    · dsimp only
      rw [List.take_append_of_le_length (Nat.le_refl _), List.take_length]
      exact h.gen
  gen := rfl
  bound := h.bound
  calm := fun e he => by
    rw [List.mem_singleton.1 he]
    rfl
  short := Nat.le_refl _
  captured := fun i hi => by
    cases List.mem_singleton.1 hi
    exact ⟨rfl, hp⟩
  entries := h.entries
  served := fun i module credential outcome time origin hmem => by cases List.mem_singleton.1 hmem

/-- A lookup. A hit serves what the entry holds, so what its record says. -/
theorem RunOk.stepOk_lookup (h : RunOk sha256Hex r) (ht : r.threads[auth]? = some t)
    (hp : t.phase = .lookup (m :: rest) pending) :
    StepOk sha256Hex r auth t (t.step sha256Hex auth r.clock answer r.traced) := by
  have hne : t.phase ≠ .arrived := by
    rw [hp]
    nofun
  have hpending : ∀ w ∈ pending, w ∈ t.phase.puts := by
    intro w hw
    rw [hp]
    exact hw
  cases hhere : t.cacheHere m with
  | none =>
    unfold AuthThread.step
    rw [hp]
    dsimp only
    rw [hhere]
    exact h.stepOk_quiet ht hne nofun hpending
  | some credential =>
    have hentries : ∀ key e, (r.traced.cache.get sha256Hex m.name credential t.now).2.entries.lookup key = some e →
        EntryOk sha256Hex ⟨(r.traced.cache.get sha256Hex m.name credential t.now).2, r.traced.origins⟩ r.log key e :=
      fun key e he => h.entries key e (get_keeps he)
    have hbound : (r.traced.cache.get sha256Hex m.name credential t.now).2.entries.rows.length ≤ maxEntries :=
      length_get h.bound m.name credential t.now
    cases hget : (r.traced.cache.get sha256Hex m.name credential t.now).1 with
    | none =>
      rw [AuthThread.step_miss hp hhere hget]
      exact h.stepOk_of ht hne nofun notMem_nil_events (Nat.zero_le _) (fun i hi => by cases hi)
        (fun w hw => h.puts_append ht notMem_nil_events (hpending w hw)) flushGen_get hbound hentries
        (fun i module credential outcome time origin hmem => by cases hmem)
    | some outcome =>
      obtain ⟨-, e, he, -, hout⟩ := get_hit hget
      rw [AuthThread.step_hit hp hhere hget he]
      obtain ⟨origin, horigin, hvouched, hfresh⟩ := h.entries _ e he
      rw [hout] at hvouched
      have hcalm : ∀ f ∈ [AuthEvent.served auth m.name credential outcome r.clock
          (r.traced.origins.lookup (m.name, sha256Hex credential))], f.isFlush = false := by
        intro f hf
        rw [List.mem_singleton.1 hf]
        rfl
      refine h.stepOk_of ht hne afterHit_ne hcalm (Nat.le_refl _) ?_ ?_ flushGen_get hbound hentries ?_
      · intro i hi
        cases List.mem_singleton.1 hi
      · intro w hw
        rcases afterHit_puts hw with hold | ⟨-, rfl⟩
        · exact h.puts_append ht hcalm (hpending w hold)
        · exact ⟨credential, origin, AuthThread.credential_of_cacheHere hhere, horigin, hvouched.append, nofun,
            Or.inl (hfresh.append fun f hf => not_covers (hcalm f hf) m.name)⟩
      · intro i module credential' outcome' time o hmem
        cases List.mem_singleton.1 hmem
        refine ⟨?_, origin, horigin, hvouched, hfresh⟩
        rw [← hout]
        exact outcome_ne_reject e.verdict

/-- A consultation: what it says is the authentication's own. -/
theorem RunOk.stepOk_consult (h : RunOk sha256Hex r) (ht : r.threads[auth]? = some t)
    (hp : t.phase = .consult m rest pending) :
    StepOk sha256Hex r auth t (t.step sha256Hex auth r.clock answer r.traced) := by
  have hne : t.phase ≠ .arrived := by
    rw [hp]
    nofun
  have hthread := h.threads auth t ht
  obtain ⟨c, hc, -⟩ := hthread.begun hne
  unfold AuthThread.step
  rw [hp]
  dsimp only
  have hcalm : ∀ f ∈ [AuthEvent.consulted auth m.name t.credential answer r.clock], f.isFlush = false := by
    intro f hf
    rw [List.mem_singleton.1 hf]
    rfl
  refine h.stepOk_of ht hne afterConsult_ne hcalm (Nat.le_refl _) ?_ ?_ rfl h.bound h.entries ?_
  · intro i hi
    cases List.mem_singleton.1 hi
  · intro w hw
    rcases afterConsult_puts hw with hold | ⟨credential, hcred, rfl⟩
    · refine h.puts_append ht hcalm ?_
      rw [hp]
      exact hold
    · refine ⟨credential, ⟨auth, r.clock⟩, hcred, rfl, ⟨credential, ?_, rfl⟩, fun _ => hthread.reads, ?_⟩
      · rw [hcred]
        exact List.mem_append_right _ (List.mem_singleton_self _)
      · by_cases hover : Overtaken (r.log ++ [AuthEvent.consulted auth m.name t.credential answer r.clock]) auth
        · exact Or.inr hover
        · exact Or.inl (freshFor_of_not_overtaken (getElem?_keep hc) hover m.name)
  · intro i module credential outcome time origin hmem
    cases List.mem_singleton.1 hmem

/-- A put that lands is of the current generation, so no flush has overtaken it. -/
theorem RunOk.stepOk_put (h : RunOk sha256Hex r) (hfew : flushCount r.log < 2 ^ 64) (ht : r.threads[auth]? = some t)
    {w : PutCall} {puts : List PutCall} {identified : Option (String × Principal)}
    (hp : t.phase = .commit (w :: puts) rest identified) :
    StepOk sha256Hex r auth t (t.step sha256Hex auth r.clock answer r.traced) := by
  have hne : t.phase ≠ .arrived := by
    rw [hp]
    nofun
  have hthread := h.threads auth t ht
  have htail : ∀ v ∈ puts, v ∈ t.phase.puts := by
    intro v hv
    rw [hp]
    exact List.mem_cons_of_mem w hv
  obtain ⟨credential, origin, hput⟩ := hthread.puts w (by rw [hp]; exact List.mem_cons_self)
  obtain ⟨c, hc, hcgen⟩ := hthread.begun hne
  rw [AuthThread.step_put hp hput.presents hput.goesBack]
  refine h.stepOk_of ht hne (p := .commit puts rest identified) nofun notMem_nil_events (Nat.zero_le _)
    (fun i hi => by cases hi) (fun v hv => h.puts_append ht notMem_nil_events (htail v hv)) ?_ ?_ ?_
    (fun i module credential outcome time origin hmem => by cases hmem)
  · rcases put_cases sha256Hex r.traced.cache w.module credential w.outcome t.now t.gen with
      ⟨-, heq⟩ | ⟨verdict, ttl, -, -, hflush, -⟩
    · dsimp only
      rw [heq]
    · exact hflush
  · exact length_put h.bound _ _ _ _ _
  · intro key e he
    rcases put_cases sha256Hex r.traced.cache w.module credential w.outcome t.now t.gen with
      ⟨hno, heq⟩ | ⟨verdict, ttl, hkept, hgen, -, hrows⟩
    · rw [if_neg hno]
      dsimp only at he
      rw [heq] at he
      exact h.entries key e he
    · have hland : (kept (sha256Hex credential) w.outcome).isSome = true ∧ r.traced.cache.flushGen = t.gen := by
        rw [hkept]
        exact ⟨rfl, hgen⟩
      rw [if_pos hland]
      rcases hrows key e he with ⟨rfl, -, hv⟩ | ⟨hkey, hold⟩
      · have hnot : ¬ Overtaken r.log auth := by
          refine not_overtaken (fun c' hc' => h.unique auth c' c hc' hc) ?_ hfew
          rw [← hcgen, ← hgen, h.gen]
        refine ⟨origin, ?_, ?_, hput.fresh.resolve_right hnot⟩
        · dsimp only
          rw [Table.lookup_insert, if_pos rfl]
        · rw [hv, (kept_outcome hkept).1]
          exact hput.vouched
      · obtain ⟨o, ho, hvouched, hfresh⟩ := h.entries key e hold
        refine ⟨o, ?_, hvouched, hfresh⟩
        dsimp only
        rw [Table.lookup_insert, if_neg (Ne.symm hkey)]
        exact ho

/-- **No step of an authentication loses it.** -/
theorem RunOk.stepOk (h : RunOk sha256Hex r) (hfew : flushCount r.log < 2 ^ 64) (ht : r.threads[auth]? = some t) :
    StepOk sha256Hex r auth t (t.step sha256Hex auth r.clock answer r.traced) := by
  have hquiet : ∀ {p : AuthPhase}, t.phase ≠ .arrived → p ≠ .arrived → p.puts = [] →
      StepOk sha256Hex r auth t ({ t with phase := p }, r.traced, []) := by
    intro p hne hp' hnil
    refine h.stepOk_quiet ht hne hp' fun w hw => ?_
    rw [hnil] at hw
    cases hw
  cases hp : t.phase with
  | arrived =>
    unfold AuthThread.step
    rw [hp]
    exact h.stepOk_capture ht hp
  | lookup chain pending =>
    cases chain with
    | nil =>
      unfold AuthThread.step
      rw [hp]
      exact hquiet (by rw [hp]; nofun) nofun rfl
    | cons m rest => exact h.stepOk_lookup ht hp
  | consult m rest pending => exact h.stepOk_consult ht hp
  | commit puts rest identified =>
    cases puts with
    | nil =>
      unfold AuthThread.step
      rw [hp]
      cases identified with
      | some r => exact hquiet (by rw [hp]; nofun) nofun rfl
      | none => exact hquiet (by rw [hp]; nofun) nofun rfl
    | cons w puts => exact h.stepOk_put hfew ht hp
  | finished identified =>
    unfold AuthThread.step
    rw [hp]
    have hsame : { t with phase := .finished identified } = t := by
      rw [← hp]
    have hstay := hquiet (p := .finished identified) (by rw [hp]; nofun) nofun rfl
    rw [hsame] at hstay
    exact hstay

/-! ## Runs -/

/-- **A flush.** What stays is of modules it does not cover. -/
theorem RunOk.flushed (h : RunOk sha256Hex r) (module : Option String) {c : CacheState}
    (hgen : c.flushGen = wrapInc64 r.traced.cache.flushGen)
    (hbound : c.entries.rows.length ≤ r.traced.cache.entries.rows.length)
    (hentries : ∀ key e, c.entries.lookup key = some e →
      r.traced.cache.entries.lookup key = some e ∧ ¬ (AuthEvent.flushed module).Covers key.1) :
    RunOk sha256Hex { r with traced := { r.traced with cache := c }, log := r.log ++ [.flushed module] } := by
  have hnew : ∀ {j : Nat} {e : AuthEvent}, (r.log ++ [.flushed module])[j]? = some e →
      r.log[j]? = some e ∨ e = .flushed module := by
    intro j e he
    rcases getElem?_snoc he with hold | ⟨-, hmem⟩
    · exact Or.inl hold
    · exact Or.inr (List.mem_singleton.1 hmem)
  refine ⟨?_, Nat.le_trans hbound h.bound, ?_, ?_, ?_, ?_, ?_⟩
  · have hone : flushCount [AuthEvent.flushed module] = 1 := rfl
    dsimp only
    rw [hgen, h.gen, flushCount_append, hone]
    unfold wrapInc64
    omega
  · intro i j j' hj hj'
    rcases hnew hj with hold | hbad
    · rcases hnew hj' with hold' | hbad'
      · exact h.unique i j j' hold hold'
      · cases hbad'
    · cases hbad
  · intro i hi hmem
    rcases List.mem_append.1 hmem with hold | hbad
    · exact h.late i hi hold
    · cases List.mem_singleton.1 hbad
  · intro i t ht
    exact (h.threads i t ht).flushed module
  · intro key e he
    obtain ⟨hold, hnot⟩ := hentries key e he
    obtain ⟨origin, horigin, hvouched, hfresh⟩ := h.entries key e hold
    refine ⟨origin, horigin, hvouched.append, hfresh.append fun f hf => ?_⟩
    rw [List.mem_singleton.1 hf]
    exact hnot
  · intro p i name credential outcome time origin hp
    dsimp only at hp ⊢
    rcases hnew hp with hold | hbad
    · have hlt := (List.getElem?_eq_some_iff.1 hold).1
      rw [List.take_append_of_le_length (Nat.le_of_lt hlt)]
      exact h.served p i name credential outcome time origin hold
    · cases hbad

theorem RunOk.start : RunOk sha256Hex CacheRun.start where
  gen := rfl
  bound := Nat.zero_le _
  unique := nofun
  late := nofun
  threads := nofun
  entries := nofun
  served := nofun

/-- **No step loses it**, as long as the counter of the flushes has not come round. -/
theorem RunOk.step (h : RunOk sha256Hex r) (hfew : flushCount r.log < 2 ^ 64) (op : CacheOp) :
    RunOk sha256Hex (r.step sha256Hex op) := by
  cases op with
  | tick secs =>
    refine ⟨h.gen, h.bound, h.unique, h.late, fun i t ht => ?_, h.entries, h.served⟩
    have hthread := h.threads i t ht
    exact ⟨Nat.le_trans hthread.reads (Nat.le_add_right _ _), hthread.begun, hthread.unborn, hthread.puts⟩
  | arrive plane credential chain =>
    refine ⟨h.gen, h.bound, h.unique, fun i hi => ?_, fun i t ht => ?_, h.entries, h.served⟩
    · refine h.late i ?_
      have hlen : (r.threads ++ [(⟨plane, credential, r.clock, 0, chain, .arrived⟩ : AuthThread)]).length ≤ i := hi
      rw [List.length_append] at hlen
      exact Nat.le_of_add_right_le hlen
    · have ht' : (r.threads ++ [⟨plane, credential, r.clock, 0, chain, .arrived⟩])[i]? = some t := ht
      by_cases hi : i < r.threads.length
      · rw [List.getElem?_append_left hi] at ht'
        exact h.threads i t ht'
      · rw [List.getElem?_append_right (Nat.le_of_not_lt hi)] at ht'
        cases List.mem_singleton.1 (List.mem_of_getElem? ht')
        exact ⟨Nat.le_refl _, fun hne => absurd rfl hne, fun _ => h.late i (Nat.le_of_not_lt hi), nofun⟩
  | advance auth answer =>
    dsimp only [CacheRun.step]
    cases ht : r.threads[auth]? with
    | none => exact h
    | some t => exact h.advanced ht (h.stepOk hfew ht)
  | flushModule module =>
    refine h.flushed (some module) rfl (List.length_filter_le _ _) fun key e he => ?_
    have hkeep : Table.lookup (Registry.retain (fun row => row.1.1 ≠ module) r.traced.cache.entries) key = some e := he
    rw [Table.lookup_retain] at hkeep
    obtain ⟨hold, hne⟩ := Option.filter_eq_some_iff.1 hkeep
    refine ⟨hold, fun hcov => ?_⟩
    rcases hcov with hall | hone
    · cases hall
    · cases hone
      exact of_decide_eq_true hne rfl
  | flushAll =>
    refine h.flushed none rfl (Nat.zero_le _) fun key e he => ?_
    cases he

/-- The record of a run only grows. -/
theorem flushCount_step_le (op : CacheOp) : flushCount r.log ≤ flushCount (r.step sha256Hex op).log := by
  have hgrow : ∀ events : List AuthEvent, flushCount r.log ≤ flushCount (r.log ++ events) := by
    intro events
    rw [flushCount_append]
    exact Nat.le_add_right _ _
  cases op with
  | tick secs => exact Nat.le_refl _
  | arrive plane credential chain => exact Nat.le_refl _
  | advance auth answer =>
    dsimp only [CacheRun.step]
    cases r.threads[auth]? with
    | none => exact Nat.le_refl _
    | some t => exact hgrow _
  | flushModule module => exact hgrow _
  | flushAll => exact hgrow _

theorem flushCount_snoc_le (ops : List CacheOp) (op : CacheOp) :
    flushCount (CacheRun.after sha256Hex ops).log ≤ flushCount (CacheRun.after sha256Hex (ops ++ [op])).log := by
  unfold CacheRun.after
  rw [Run.exec_snoc]
  exact flushCount_step_le op

theorem flushCount_append_le (pre post : List CacheOp) :
    flushCount (CacheRun.after sha256Hex pre).log ≤ flushCount (CacheRun.after sha256Hex (pre ++ post)).log := by
  induction post using List.reverseRecOn with
  | nil =>
    rw [List.append_nil]
  | append_singleton post op ih =>
    rw [← List.append_assoc]
    exact Nat.le_trans ih (flushCount_snoc_le (pre ++ post) op)

/-- **Every run** up to the counter's bound. -/
theorem RunOk.after {ops : List CacheOp} (hfew : flushCount (CacheRun.after sha256Hex ops).log < 2 ^ 64) :
    RunOk sha256Hex (CacheRun.after sha256Hex ops) := by
  induction ops using List.reverseRecOn with
  | nil => exact RunOk.start
  | append_singleton ops op ih =>
    have hbefore := Nat.lt_of_le_of_lt (flushCount_snoc_le ops op) hfew
    unfold CacheRun.after at hbefore ih ⊢
    rw [Run.exec_snoc]
    exact (ih hbefore).step hbefore op

end Busbar
