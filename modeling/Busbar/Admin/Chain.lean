import Mathlib.Data.List.Chain
import Mathlib.Data.List.TakeWhile
import Busbar.Admin.Audit

/-!
# The durable audit log is one chain

The ring and the store hold two windows of one history: they agree where they overlap, and the ring's first
entry past the store links to the store's last record. Every section keeps this, in whatever order sections,
recordings and crashes come.

* `Intact`: consecutive sequence numbers, digests that recompute, links to the predecessor.
* `Joined`: the ring continues the store.
* `System.Inv`: the invariant, with what the write-through knows at each of its sections.
* `durable_chain`: every run keeps one unbroken chain that only grows, and the watermark is its end whenever the
  log is reconciled.
-/

namespace Busbar.Audit

open Run

variable {sha256Hex : String → String}

/-! ## Chains of records -/

/-- The second record comes right after the first. -/
def Follows (a b : AuditRecord) : Prop := b.seq = a.seq + 1 ∧ b.prevHash = a.hash

variable (sha256Hex) in
/-- Records that follow one another, with digests that recompute. -/
structure Intact (l : List AuditRecord) : Prop where
  links : l.IsChain Follows
  digest : ∀ r ∈ l, r.hash = computeHash sha256Hex r

variable (sha256Hex) in
/-- The whole durable history: it starts at 1. -/
structure Whole (l : List AuditRecord) : Prop extends Intact sha256Hex l where
  first : ∀ r ∈ l.head?, r.seq = 1

variable {l : List AuditRecord} {r : AuditRecord}

theorem Intact.nil : Intact sha256Hex [] := ⟨List.isChain_nil, fun r hr => by cases hr⟩

theorem Intact.snoc (h : Intact sha256Hex l) (hlink : ∀ last ∈ l.getLast?, Follows last r)
    (hr : r.hash = computeHash sha256Hex r) : Intact sha256Hex (l ++ [r]) := by
  refine ⟨h.links.append (List.isChain_singleton r) ?_, ?_⟩
  · intro last hlast y hy
    obtain rfl : r = y := by simpa using hy
    exact hlink last hlast
  · intro x hx
    rcases List.mem_append.1 hx with hx | hx
    · exact h.digest x hx
    · rw [List.mem_singleton.1 hx]
      exact hr

theorem Intact.drop (h : Intact sha256Hex l) (n : Nat) : Intact sha256Hex (l.drop n) :=
  ⟨h.links.drop n, fun r hr => h.digest r (List.mem_of_mem_drop hr)⟩

/-- Sequence numbers go up one at a time. -/
theorem Intact.seq_getElem (h : Intact sha256Hex l) {i j : Nat} {a b : AuditRecord} (ha : l[i]? = some a)
    (hb : l[i + j]? = some b) : b.seq = a.seq + j := by
  induction j generalizing b with
  | zero =>
    rw [Nat.add_zero, ha] at hb
    rw [Option.some.inj hb, Nat.add_zero]
  | succ j ih =>
    obtain ⟨hlt, rfl⟩ := List.getElem?_eq_some_iff.1 hb
    have hprev : l[i + j]? = some l[i + j] := List.getElem?_eq_getElem (by omega)
    have hnext := (List.isChain_iff_getElem.1 h.links (i + j) hlt).1
    rw [ih hprev] at hnext
    exact hnext

theorem Intact.inj (h : Intact sha256Hex l) {a b : AuditRecord} (ha : a ∈ l) (hb : b ∈ l) (hs : a.seq = b.seq) :
    a = b := by
  obtain ⟨i, hi⟩ := List.mem_iff_getElem?.1 ha
  obtain ⟨j, hj⟩ := List.mem_iff_getElem?.1 hb
  have hij : i = j := by
    rcases Nat.le_total i j with hle | hle
    · obtain ⟨d, rfl⟩ := Nat.exists_eq_add_of_le hle
      have := h.seq_getElem hi hj
      omega
    · obtain ⟨d, rfl⟩ := Nat.exists_eq_add_of_le hle
      have := h.seq_getElem hj hi
      omega
  subst hij
  exact Option.some.inj (hi.symm.trans hj)

/-- The record with the next number links to its predecessor. -/
theorem Intact.next (h : Intact sha256Hex l) {a b : AuditRecord} (ha : a ∈ l) (hb : b ∈ l) (hs : b.seq = a.seq + 1) :
    b.prevHash = a.hash := by
  obtain ⟨i, hi⟩ := List.mem_iff_getElem?.1 ha
  obtain ⟨j, hj⟩ := List.mem_iff_getElem?.1 hb
  have hij : j = i + 1 := by
    rcases Nat.le_total i j with hle | hle
    · obtain ⟨d, rfl⟩ := Nat.exists_eq_add_of_le hle
      have := h.seq_getElem hi hj
      omega
    · obtain ⟨d, rfl⟩ := Nat.exists_eq_add_of_le hle
      have := h.seq_getElem hj hi
      omega
  subst hij
  obtain ⟨hlt, rfl⟩ := List.getElem?_eq_some_iff.1 hj
  obtain ⟨-, rfl⟩ := List.getElem?_eq_some_iff.1 hi
  exact (List.isChain_iff_getElem.1 h.links i hlt).2

theorem Intact.le_last (h : Intact sha256Hex l) {a last : AuditRecord} (ha : a ∈ l) (hlast : l.getLast? = some last) :
    a.seq ≤ last.seq := by
  obtain ⟨i, hi⟩ := List.mem_iff_getElem?.1 ha
  have hlt := (List.getElem?_eq_some_iff.1 hi).1
  rw [List.getLast?_eq_getElem?] at hlast
  obtain ⟨d, hd⟩ := Nat.exists_eq_add_of_le (by omega : i ≤ l.length - 1)
  rw [hd] at hlast
  have := h.seq_getElem hi hlast
  omega

theorem Whole.seq_eq (h : Whole sha256Hex l) {i : Nat} (hr : l[i]? = some r) : r.seq = i + 1 := by
  rcases hl : l with _ | ⟨a, rest⟩
  · simp [hl] at hr
  · have hfirst : l[0]? = some a := by simp [hl]
    have ha := h.first a (by simp [hl])
    have := h.toIntact.seq_getElem hfirst ((Nat.zero_add i).symm ▸ hr)
    omega

theorem Whole.seq_last (h : Whole sha256Hex l) (hr : l.getLast? = some r) : r.seq = l.length := by
  have hne : l.length ≠ 0 := by
    intro hz
    rw [List.length_eq_zero_iff.1 hz] at hr
    cases hr
  rw [List.getLast?_eq_getElem?] at hr
  have := h.seq_eq hr
  omega

theorem Whole.seq_mem (h : Whole sha256Hex l) (hr : r ∈ l) : 1 ≤ r.seq ∧ r.seq ≤ l.length := by
  obtain ⟨i, hi⟩ := List.mem_iff_getElem?.1 hr
  have := h.seq_eq hi
  have := (List.getElem?_eq_some_iff.1 hi).1
  omega

theorem Whole.nil : Whole sha256Hex [] := ⟨Intact.nil, fun r hr => by cases hr⟩

/-- Appending the record with the next number and a link to the last. -/
theorem Whole.snoc (h : Whole sha256Hex l) (hseq : r.seq = l.length + 1)
    (hlink : ∀ last ∈ l.getLast?, r.prevHash = last.hash) (hr : r.hash = computeHash sha256Hex r) :
    Whole sha256Hex (l ++ [r]) := by
  refine ⟨h.toIntact.snoc (fun last hlast => ⟨?_, hlink last hlast⟩) hr, ?_⟩
  · rw [h.seq_last hlast, hseq]
  · rcases l with _ | ⟨a, rest⟩
    · intro x hx
      obtain rfl : r = x := by simpa using hx
      simpa using hseq
    · intro x hx
      exact h.first x (by simpa using hx)

/-! ## The store's calls on a whole history -/

/-- A record with the next number is appended. -/
theorem append_next (h : Whole sha256Hex l) (hseq : r.seq = l.length + 1) : appendAudit l r = (true, l ++ [r]) := by
  have hless : ∀ a ∈ l, a.seq < r.seq := by
    intro a ha
    have := h.seq_mem ha
    omega
  have hnone : l.find? (fun r' => r'.seq = r.seq) = none := by
    rw [List.find?_eq_none]
    intro a ha
    have := hless a ha
    simp only [decide_eq_true_eq]
    omega
  unfold appendAudit
  rw [hnone]
  dsimp only
  have hall : ∀ a ∈ l, decide (a.seq < r.seq) = true := fun a ha => decide_eq_true (hless a ha)
  rw [List.takeWhile_eq_self_iff.2 hall, List.dropWhile_eq_nil_iff.2 hall]

/-- A record that is there already is settled. -/
theorem append_again (h : Whole sha256Hex l) (hr : r ∈ l) : appendAudit l r = (true, l) := by
  unfold appendAudit
  rcases hf : l.find? (fun r' => r'.seq = r.seq) with _ | found
  · have := List.find?_eq_none.1 hf r hr
    simp at this
  · have hsome := List.find?_some hf
    have hseq : found.seq = r.seq := of_decide_eq_true hsome
    obtain rfl := h.toIntact.inj (List.mem_of_find?_eq_some hf) hr hseq
    rw [hf]
    simp

/-- The greatest record of a chain is its last. -/
theorem maxBySeq_concat (l : List AuditRecord) (r : AuditRecord) :
    maxBySeq (l ++ [r]) = match maxBySeq l with
      | none => some r
      | some b => if b.seq ≤ r.seq then some r else some b := by
  unfold maxBySeq
  rw [List.foldl_append]
  rfl

theorem maxBySeq_eq (h : Intact sha256Hex l) : maxBySeq l = l.getLast? := by
  induction l using List.reverseRecOn with
  | nil => rfl
  | append_singleton l r ih =>
    have hl : Intact sha256Hex l :=
      ⟨h.links.left_of_append, fun a ha => h.digest a (List.mem_append_left _ ha)⟩
    rw [maxBySeq_concat, ih hl, List.getLast?_concat]
    rcases hlast : l.getLast? with _ | last
    · rfl
    · have hle := h.le_last (List.mem_append_left [r] (List.mem_of_getLast? hlast)) (List.getLast?_concat)
      dsimp only
      rw [if_pos hle]

theorem getLast_tail (l : DurableLog) {limit : Nat} (hlimit : 0 < limit) :
    (listAuditTail l limit).getLast? = l.getLast? := by
  unfold listAuditTail
  rw [List.getLast?_drop]
  split
  · have : l.length = 0 := by omega
    rw [List.length_eq_zero_iff.1 this]
    rfl
  · rfl

/-- What a successful tail read tells. -/
theorem readTail_last (h : Whole sha256Hex l) {limit : Nat} (hlimit : 0 < limit) {call : Call}
    {tail : List AuditRecord} (htail : readTail l limit call = some tail) :
    Intact sha256Hex tail ∧ maxBySeq tail = l.getLast? ∧ ((maxBySeq tail).map (fun r => r.seq)).getD 0 = l.length := by
  obtain rfl : listAuditTail l limit = tail := by
    cases call with
    | ok => exact Option.some.inj htail
    | failed => cases htail
    | lostAck => cases htail
  have hintact : Intact sha256Hex (listAuditTail l limit) := h.toIntact.drop _
  have hmax : maxBySeq (listAuditTail l limit) = l.getLast? := by rw [maxBySeq_eq hintact, getLast_tail l hlimit]
  refine ⟨hintact, hmax, ?_⟩
  rw [hmax]
  rcases hlast : l.getLast? with _ | last
  · rw [List.getLast?_eq_none_iff.1 hlast]
    rfl
  · exact h.seq_last hlast

theorem mem_tail {limit : Nat} {call : Call} {tail : List AuditRecord} (htail : readTail l limit call = some tail)
    (hr : r ∈ tail) : r ∈ l := by
  cases call with
  | ok =>
    obtain rfl := Option.some.inj htail
    exact List.mem_of_mem_drop hr
  | failed => cases htail
  | lostAck => cases htail

theorem verifies_intact {prev : Option String} (h : Intact sha256Hex l)
    (hprev : ∀ p ∈ prev, ∀ r ∈ l.head?, r.prevHash = p) : verifies sha256Hex prev l = true := by
  induction l generalizing prev with
  | nil => rfl
  | cons r rest ih =>
    have hrest : Intact sha256Hex rest := ⟨h.links.tail, fun a ha => h.digest a (List.mem_cons_of_mem _ ha)⟩
    have hlink : ∀ p ∈ some r.hash, ∀ a ∈ rest.head?, a.prevHash = p := by
      intro p hp a ha
      rw [← Option.some.inj hp]
      exact (h.links.rel_head? ha).2
    unfold verifies
    rw [ih hrest hlink, decide_eq_true (h.digest r List.mem_cons_self), Bool.true_and, Bool.and_true]
    rcases prev with _ | p
    · rfl
    · exact decide_eq_true (hprev p rfl r rfl)

/-! ## The ring -/

variable (sha256Hex) in
/-- The ring is a chain that ends right below the counter. -/
structure AuditLog.Ok (log : AuditLog) : Prop where
  intact : Intact sha256Hex (log.entries.map toRecord)
  next : ∀ e ∈ log.entries.getLast?, e.seq + 1 = log.seq

/-- **The ring continues the store**: entries the store reaches are in it, and the next one links to its last. -/
structure Joined (store : DurableLog) (log : AuditLog) : Prop where
  held : ∀ e ∈ log.entries, e.seq ≤ store.length → toRecord e ∈ store
  links : ∀ e ∈ log.entries, e.seq = store.length + 1 → ∀ last ∈ store.getLast?, e.prevHash = last.hash
  ahead : store.length < log.seq
  fresh : log.entries = [] → store = []

/-- What the write-through knows of the record it is about to append. -/
structure Ready (store : DurableLog) (log : AuditLog) (r : AuditRecord) : Prop where
  seq : r.seq = log.durableHigh + 1
  held : r.seq ≤ store.length → r ∈ store
  links : r.seq = store.length + 1 → ∀ last ∈ store.getLast?, r.prevHash = last.hash
  own : ∀ e ∈ log.entries, e.seq = r.seq → toRecord e = r
  next : ∀ e ∈ log.entries, e.seq = r.seq + 1 → e.prevHash = r.hash
  ahead : r.seq < log.seq

section Record

variable {log : AuditLog} {store : DurableLog} {m : Mutation}

/-- The entry that a recorder pushes. -/
def AuditLog.entry (sha256Hex : String → String) (log : AuditLog) (m : Mutation) : AuditEntry :=
  let r : AuditRecord :=
    { seq := log.seq, ts := m.ts, action := m.action, resource := m.resource, outcome := m.outcome,
      principal := m.principal, prevHash := (log.entries.getLast?.map (fun e => e.hash)).getD "", hash := "" }
  { r with hash := computeHash sha256Hex r, recordedHere := true }

theorem entries_record (log : AuditLog) (m : Mutation) : (log.record sha256Hex m).2.entries =
    log.entries.drop (log.entries.length + 1 - maxAuditEntries) ++ [log.entry sha256Hex m] := rfl

@[simp] theorem seq_record (log : AuditLog) (m : Mutation) : (log.record sha256Hex m).2.seq = log.seq + 1 := rfl

@[simp] theorem durableHigh_record (log : AuditLog) (m : Mutation) :
    (log.record sha256Hex m).2.durableHigh = log.durableHigh := by
  simp only [AuditLog.record]

theorem mem_record {e : AuditEntry} (he : e ∈ (log.record sha256Hex m).2.entries) :
    e ∈ log.entries ∨ e = log.entry sha256Hex m := by
  rw [entries_record] at he
  rcases List.mem_append.1 he with he | he
  · exact Or.inl (List.mem_of_mem_drop he)
  · exact Or.inr (List.mem_singleton.1 he)

/-- The push leaves room for the last entry. -/
theorem getLast_kept (log : AuditLog) {e : AuditEntry}
    (he : e ∈ (log.entries.drop (log.entries.length + 1 - maxAuditEntries)).getLast?) : e ∈ log.entries.getLast? := by
  rw [List.getLast?_drop] at he
  split at he
  · cases he
  · exact he

theorem AuditLog.Ok.record (h : log.Ok sha256Hex) (m : Mutation) : (log.record sha256Hex m).2.Ok sha256Hex := by
  refine ⟨?_, ?_⟩
  · rw [entries_record, List.map_append, List.map_drop]
    refine (h.intact.drop _).snoc ?_ rfl
    intro last hlast
    rw [← List.map_drop, List.getLast?_map] at hlast
    obtain ⟨e, he, rfl⟩ := Option.map_eq_some_iff.1 hlast
    have hlast := getLast_kept log he
    refine ⟨?_, ?_⟩
    · show log.seq = e.seq + 1
      rw [h.next e hlast]
    · show (log.entries.getLast?.map (fun e => e.hash)).getD "" = e.hash
      rw [hlast]
      rfl
  · intro e he
    rw [entries_record, List.getLast?_concat] at he
    obtain rfl := Option.some.inj he
    rfl

/-- The pushed entry follows the ring's last. -/
theorem prevHash_entry {e : AuditEntry} (h : log.Ok sha256Hex) (hne : log.entries ≠ []) (he : e ∈ log.entries)
    (hs : log.seq = e.seq + 1) : (log.entry sha256Hex m).prevHash = e.hash := by
  obtain ⟨last, hlast⟩ := Option.isSome_iff_exists.1 (List.getLast?_isSome.2 hne)
  have hseq := h.next last hlast
  have hsame : toRecord last = toRecord e :=
    h.intact.inj (List.mem_map_of_mem (List.mem_of_getLast? hlast)) (List.mem_map_of_mem he)
      (by show last.seq = e.seq; omega)
  show (log.entries.getLast?.map (fun e => e.hash)).getD "" = e.hash
  rw [hlast]
  exact congrArg AuditRecord.hash hsame

theorem Joined.record (h : Joined store log) (hok : log.Ok sha256Hex) (hw : Whole sha256Hex store) (m : Mutation) :
    Joined store (log.record sha256Hex m).2 := by
  have hahead := h.ahead
  refine ⟨?_, ?_, Nat.lt_succ_of_lt hahead, ?_⟩
  · intro e he hle
    rcases mem_record he with he | rfl
    · exact h.held e he hle
    · exact absurd hle (not_le.2 hahead)
  · intro e he hs last hlast
    rcases mem_record he with he | rfl
    · exact h.links e he hs last hlast
    · -- the entry right after the store links to the ring's last, which is the store's
      have hne : log.entries ≠ [] := by
        intro hnil
        rw [h.fresh hnil] at hlast
        cases hlast
      obtain ⟨back, hback⟩ := Option.isSome_iff_exists.1 (List.getLast?_isSome.2 hne)
      have hmem := List.mem_of_getLast? hback
      have hseq : back.seq = store.length := by
        have := hok.next back hback
        have : log.seq = store.length + 1 := hs
        omega
      have hsame : toRecord back = last :=
        hw.toIntact.inj (h.held back hmem hseq.le) (List.mem_of_getLast? hlast)
          (by rw [hw.seq_last hlast]; exact hseq)
      rw [prevHash_entry hok hne hmem (by rw [hseq]; exact hs), ← hsame]
      rfl
  · intro hnil
    rw [entries_record] at hnil
    simp at hnil

theorem Ready.record {r : AuditRecord} (h : Ready store log r) (hok : log.Ok sha256Hex) (hne : log.entries ≠ [])
    (m : Mutation) : Ready store (log.record sha256Hex m).2 r := by
  have hahead := h.ahead
  refine ⟨by rw [durableHigh_record, h.seq], h.held, h.links, ?_, ?_, by rw [seq_record]; omega⟩
  · intro e he hs
    rcases mem_record he with he | rfl
    · exact h.own e he hs
    · have : log.seq = r.seq := hs
      omega
  · intro e he hs
    rcases mem_record he with he | rfl
    · exact h.next e he hs
    · have hseq : log.seq = r.seq + 1 := hs
      obtain ⟨back, hback⟩ := Option.isSome_iff_exists.1 (List.getLast?_isSome.2 hne)
      have hmem := List.mem_of_getLast? hback
      have hlast := hok.next back hback
      rw [prevHash_entry hok hne hmem (by omega), ← h.own back hmem (by omega)]
      rfl

end Record

/-! ## The rebase -/

section Rebase

variable {log : AuditLog} {store : DurableLog}

variable (sha256Hex) in
theorem length_rechain (seq : Nat) (prev : String) (es : List AuditEntry) :
    (rechain sha256Hex seq prev es).length = es.length := by
  induction es generalizing seq prev with
  | nil => rfl
  | cons e es ih => simp [rechain, ih]

variable (sha256Hex) in
/-- The renumbered entries are a chain that starts at the given number and hash. -/
theorem rechain_spec (seq : Nat) (prev : String) (es : List AuditEntry) :
    Intact sha256Hex ((rechain sha256Hex seq prev es).map toRecord) ∧
    (∀ e ∈ (rechain sha256Hex seq prev es).head?, e.seq = seq ∧ e.prevHash = prev) ∧
    (∀ e ∈ rechain sha256Hex seq prev es, seq ≤ e.seq ∧ (e.seq = seq → e.prevHash = prev)) ∧
    ∀ e ∈ (rechain sha256Hex seq prev es).getLast?, e.seq + 1 = seq + es.length := by
  induction es generalizing seq prev with
  | nil => exact ⟨Intact.nil, by simp [rechain], by simp [rechain], by simp [rechain]⟩
  | cons e es ih =>
    unfold rechain
    dsimp only
    generalize hhash : computeHash sha256Hex _ = hash
    obtain ⟨hintact, hhead, hall, hlast⟩ := ih (seq + 1) hash
    refine ⟨⟨?_, ?_⟩, ?_, ?_, ?_⟩
    · refine List.IsChain.cons hintact.links ?_
      intro y hy
      rw [List.head?_map] at hy
      obtain ⟨next, hnext, rfl⟩ := Option.map_eq_some_iff.1 hy
      exact hhead next hnext
    · intro r hr
      rcases List.mem_cons.1 hr with rfl | hr
      · exact hhash.symm
      · exact hintact.digest r hr
    · intro a ha
      obtain rfl := Option.some.inj ha
      exact ⟨rfl, rfl⟩
    · intro a ha
      rcases List.mem_cons.1 ha with rfl | ha
      · exact ⟨le_rfl, fun _ => rfl⟩
      · obtain ⟨hle, -⟩ := hall a ha
        exact ⟨by omega, fun hs => by omega⟩
    · intro a ha
      rcases es with _ | ⟨e', es⟩
      · obtain rfl := Option.some.inj ha
        rfl
      · rw [List.getLast?_cons_of_ne_nil (by simp [rechain])] at ha
        have := hlast a ha
        simp only [List.length_cons] at this ⊢
        omega

theorem rechain_own {seq : Nat} {prev : String} {es : List AuditEntry} (h : ∀ e ∈ es, e.recordedHere = true) :
    ∀ e ∈ rechain sha256Hex seq prev es, e.recordedHere = true := by
  induction es generalizing seq prev with
  | nil => exact fun e he => by cases he
  | cons e es ih =>
    intro a ha
    unfold rechain at ha
    rcases List.mem_cons.1 ha with rfl | ha
    · exact h e List.mem_cons_self
    · exact ih (fun e' he' => h e' (List.mem_cons_of_mem _ he')) a ha

/-- **The rebase joins the ring to the store**, when all of its entries are this process's own. -/
theorem rebase_joined (hok : log.Ok sha256Hex) (hne : log.entries ≠ [])
    (hown : ∀ e ∈ log.entries, e.recordedHere = true) {anchorHash : String}
    (hanchor : ∀ last ∈ store.getLast?, anchorHash = last.hash) :
    let log' := (log.rebaseNondurableSuffix sha256Hex store.length anchorHash).2
    log'.Ok sha256Hex ∧ Joined store log' ∧ log'.entries ≠ [] ∧ (∀ e ∈ log'.entries, e.recordedHere = true) ∧
      log'.durableHigh = log.durableHigh ∧ log'.durableUnreconciled = log.durableUnreconciled := by
  obtain ⟨first, rest, hentries⟩ := List.exists_cons_of_ne_nil hne
  have hfirst : first.recordedHere = true := hown first (by rw [hentries]; exact List.mem_cons_self)
  have htake : log.entries.takeWhile (fun e => !e.recordedHere) = [] := by
    rw [hentries, List.takeWhile_cons_of_neg (by simp [hfirst])]
  have hdrop : log.entries.dropWhile (fun e => !e.recordedHere) = first :: rest := by
    rw [hentries, List.dropWhile_cons_of_neg (by simp [hfirst])]
  unfold AuditLog.rebaseNondurableSuffix
  rw [htake, hdrop]
  dsimp only
  generalize hprev : (if max (store.length + 1) first.seq = store.length + 1 then anchorHash else first.prevHash) = prev
  generalize hnext : max (store.length + 1) first.seq = nextSeq at hprev ⊢
  obtain ⟨hintact, -, hall, hlast⟩ := rechain_spec sha256Hex nextSeq prev (first :: rest)
  rw [List.nil_append]
  have hge : store.length + 1 ≤ nextSeq := hnext ▸ le_max_left _ _
  have hnil : rechain sha256Hex nextSeq prev (first :: rest) ≠ [] := by
    intro h
    have := length_rechain sha256Hex nextSeq prev (first :: rest)
    rw [h] at this
    cases this
  -- the counter stood right above the old numbers, so it does not pass the new ones
  have hcounter : log.seq ≤ nextSeq + rest.length + 1 := by
    obtain ⟨back, hback⟩ := Option.isSome_iff_exists.1 (List.getLast?_isSome.2 hne)
    have hseq := hok.next back hback
    rw [List.getLast?_eq_getElem?, hentries] at hback
    have h0 : (log.entries.map toRecord)[0]? = some (toRecord first) := by rw [hentries]; rfl
    have h1 : (log.entries.map toRecord)[0 + rest.length]? = some (toRecord back) := by
      rw [hentries, List.getElem?_map, Nat.zero_add]
      rw [List.length_cons, Nat.add_sub_cancel] at hback
      rw [hback]
      rfl
    have hspan : back.seq = first.seq + rest.length := hok.intact.seq_getElem h0 h1
    have := le_max_right (store.length + 1) first.seq
    omega
  refine ⟨⟨hintact, ?_⟩, ⟨?_, ?_, ?_, fun h => absurd h hnil⟩, hnil, rechain_own (hentries ▸ hown),
    rfl, rfl⟩
  · intro e he
    have := hlast e he
    rw [List.length_cons] at this
    show e.seq + 1 = max log.seq (nextSeq + rest.length + 1)
    omega
  · intro e he hle
    have := (hall e he).1
    omega
  · intro e he hs last hl
    obtain ⟨hle, hfirst'⟩ := hall e he
    have hat : nextSeq = store.length + 1 := by omega
    rw [if_pos hat] at hprev
    rw [hfirst' (by omega), ← hprev]
    exact hanchor last hl
  · show store.length < max log.seq (nextSeq + rest.length + 1)
    omega

end Rebase

/-! ## The system -/

variable (sha256Hex) in
/-- What the lock holder knows at each section. -/
def Writing.Knows (s : System) : Writing → Prop
  | .start _ => True
  | .rebase _ durableMax anchorHash => s.log.durableUnreconciled = true ∧ durableMax = s.store.length ∧
      s.log.durableHigh = s.store.length ∧ ∀ last ∈ s.store.getLast?, anchorHash = last.hash
  | .floor _ durableMax => s.log.durableUnreconciled = true ∧ durableMax = s.store.length ∧
      s.log.durableHigh = s.store.length ∧ Joined s.store s.log
  | .check _ => s.log.durableUnreconciled = false
  | .backfill seq _ => s.log.durableUnreconciled = false ∧ seq = s.log.durableHigh + 1
  | .append r _ => s.log.durableUnreconciled = false ∧ Ready s.store s.log r ∧ r.hash = computeHash sha256Hex r

variable (sha256Hex) in
/-- The invariant. `unacked`: the store's last record was appended by a call that returned an error. -/
structure System.Inv (s : System) (unacked : Bool) : Prop where
  whole : Whole sha256Hex s.store
  ring : s.log.Ok sha256Hex
  /-- threads that write have recorded -/
  busy : s.recorders ≠ [] ∨ s.waiting ≠ [] ∨ s.writing.isSome = true → s.log.entries ≠ []
  /-- a sealed log has nothing from the store -/
  own : s.log.durableUnreconciled = true → ∀ e ∈ s.log.entries, e.recordedHere = true
  unsure : s.log.durableUnreconciled = true → s.log.durableHigh ≤ s.store.length ∧ unacked = false
  joined : s.log.durableUnreconciled = false →
    Joined s.store s.log ∧ s.store.length = s.log.durableHigh + unacked.toNat
  knows : ∀ w ∈ s.writing, w.Knows sha256Hex s

/-- **The monitor**: an append was applied and not acknowledged, and its retry neither. -/
def System.unackedAfter (s : System) (unacked : Bool) : Event → Bool
  | .restart _ => false
  | .advance call => match s.writing, call with
    | some (.append _ _), .ok => false
    | some (.append _ _), .lostAck => true
    | _, _ => unacked
  | _ => unacked

theorem boot_inv {store : DurableLog} (hw : Whole sha256Hex store) (read : Call) :
    (System.boot sha256Hex store read).Inv sha256Hex false := by
  unfold System.boot
  rcases htail : readTail store maxAuditEntries read with _ | tail
  · -- the log is sealed until the tail is known
    refine ⟨hw, ⟨Intact.nil, fun e he => by cases he⟩, fun h => ?_, fun _ e he => (by cases he), fun _ =>
      ⟨Nat.zero_le _, rfl⟩, fun hu => ?_, fun w hw => by cases hw⟩
    · rcases h with h | h | h
      · exact absurd rfl h
      · exact absurd rfl h
      · cases h
    · cases hu
  obtain ⟨hintact, hmax, hseq⟩ := readTail_last hw maxAuditEntries_pos htail
  by_cases hnil : tail = []
  · -- an empty log: the process starts at 1
    have hstore : store = [] := by
      rw [hnil] at hmax
      exact List.getLast?_eq_none_iff.1 hmax.symm
    subst hnil hstore
    refine ⟨Whole.nil, ⟨Intact.nil, fun e he => by cases he⟩, fun h => ?_, fun _ e he => (by cases he), fun hu => ?_,
      fun _ => ⟨⟨fun e he => (by cases he), fun e he => (by cases he), Nat.zero_lt_one, fun _ => rfl⟩, rfl⟩,
      fun w hw => by cases hw⟩
    · rcases h with h | h | h
      · exact absurd rfl h
      · exact absurd rfl h
      · cases h
    · cases hu
  have htaillen : tail.length ≤ maxAuditEntries := by
    obtain rfl : listAuditTail store maxAuditEntries = tail := by
      cases read with
      | ok => exact Option.some.inj htail
      | failed => cases htail
      | lostAck => cases htail
    rw [listAuditTail, List.length_drop]
    omega
  have hlog : ({ AuditLog.new with sink := true }.restoreFromStore sha256Hex (some tail)) =
      { entries := tail.map fromRecord, seq := store.length + 1, sink := true, durableHigh := store.length,
        durableUnreconciled := false } := by
    have hver : verifies sha256Hex none tail = true := verifies_intact hintact fun p hp => by cases hp
    simp only [AuditLog.restoreFromStore, if_neg hnil, hseq, hver, if_true, AuditLog.new]
    rw [Nat.sub_eq_zero_of_le htaillen, List.drop_zero, Nat.max_eq_right (by omega), Nat.max_eq_right (by omega)]
  have hrecords : (tail.map fromRecord).map toRecord = tail := by
    rw [List.map_map]
    exact List.map_id tail
  have hmem : ∀ e ∈ tail.map fromRecord, toRecord e ∈ store := by
    intro e he
    obtain ⟨r, hr, rfl⟩ := List.mem_map.1 he
    exact mem_tail htail hr
  rw [hlog]
  refine ⟨hw, ⟨?_, ?_⟩, fun h => ?_, fun hu => (by cases hu), fun hu => (by cases hu), fun _ => ⟨⟨?_, ?_, ?_, ?_⟩, rfl⟩,
    fun w hw => by cases hw⟩
  · rw [hrecords]
    exact hintact
  · intro e he
    rw [List.getLast?_map] at he
    obtain ⟨r, hr, rfl⟩ := Option.map_eq_some_iff.1 he
    have hlast : store.getLast? = some r := by rw [← hmax, maxBySeq_eq hintact, hr]
    exact congrArg (· + 1) (hw.seq_last hlast)
  · rcases h with h | h | h
    · exact absurd rfl h
    · exact absurd rfl h
    · cases h
  · exact fun e he _ => hmem e he
  · intro e he hs
    have hle : e.seq ≤ store.length := (hw.seq_mem (hmem e he)).2
    have hs : e.seq = store.length + 1 := hs
    omega
  · exact Nat.lt_succ_self _
  · intro h
    exact absurd (List.map_eq_nil_iff.1 h) hnil

theorem record_inv {s : System} {unacked : Bool} (h : s.Inv sha256Hex unacked) (m : Mutation) :
    (s.step sha256Hex (.record m)).Inv sha256Hex unacked := by
  have hne : (s.log.record sha256Hex m).2.entries ≠ [] := by simp [entries_record]
  refine ⟨h.whole, h.ring.record m, fun _ => hne, ?_, h.unsure, ?_, ?_⟩
  · intro hu e he
    rcases mem_record he with he | rfl
    · exact h.own hu e he
    · rfl
  · intro hu
    exact ⟨(h.joined hu).1.record h.ring h.whole m, (h.joined hu).2⟩
  · intro w hw
    have hknows := h.knows w hw
    have hbusy := h.busy (Or.inr (Or.inr (Option.isSome_iff_exists.2 ⟨w, hw⟩)))
    cases w with
    | start n => trivial
    | rebase n dmax anchor => exact hknows
    | floor n dmax => exact ⟨hknows.1, hknows.2.1, hknows.2.2.1, hknows.2.2.2.record h.ring h.whole m⟩
    | check n => exact hknows
    | backfill seq n => exact hknows
    | append r n => exact ⟨hknows.1, hknows.2.1.record h.ring hbusy m, hknows.2.2⟩

variable {s : System} {unacked : Bool}

theorem System.Inv.idle (h : s.Inv sha256Hex unacked) : System.Inv sha256Hex { s with writing := none } unacked where
  whole := h.whole
  ring := h.ring
  busy := fun hb => h.busy (by
    rcases hb with hb | hb | hb
    · exact Or.inl hb
    · exact Or.inr (Or.inl hb)
    · cases hb)
  own := h.own
  unsure := h.unsure
  joined := h.joined
  knows := fun w hw => by cases hw

/-- The write-through moves on to a section whose facts hold. -/
theorem System.Inv.move (h : s.Inv sha256Hex unacked) (hne : s.log.entries ≠ []) {w : Writing}
    (hw : w.Knows sha256Hex s) : System.Inv sha256Hex { s with writing := some w } unacked where
  whole := h.whole
  ring := h.ring
  busy := fun _ => hne
  own := h.own
  unsure := h.unsure
  joined := h.joined
  knows := fun w' hw' => by
    obtain rfl := Option.some.inj hw'
    cases w <;> exact hw

theorem start_inv (h : s.Inv sha256Hex unacked) (hne : s.log.entries ≠ []) (call : Call) (n : Nat) :
    (s.advance sha256Hex call (.start n)).Inv sha256Hex unacked := by
  unfold System.advance
  dsimp only
  by_cases hu : s.log.durableUnreconciled = true
  · rw [if_pos hu]
    rcases htail : readTail s.store 1 call with _ | tail
    · exact h.idle
    · obtain ⟨-, hmax, hseq⟩ := readTail_last h.whole Nat.zero_lt_one htail
      obtain ⟨hle, hun⟩ := h.unsure hu
      have hhigh : max s.log.durableHigh s.store.length = s.store.length := Nat.max_eq_right hle
      dsimp only
      rw [hseq, hmax, hhigh]
      refine ⟨h.whole, ⟨h.ring.intact, h.ring.next⟩, fun _ => hne, h.own, fun _ => ⟨le_rfl, hun⟩, fun hf => ?_, ?_⟩
      · have hf : s.log.durableUnreconciled = false := hf
        rw [hu] at hf
        cases hf
      · intro w hw
        obtain rfl := Option.some.inj hw
        refine ⟨hu, rfl, rfl, fun last hlast => ?_⟩
        rw [hlast]
        rfl
  · rw [if_neg hu]
    exact h.move hne (Bool.eq_false_iff.2 hu)

theorem rebase_inv (h : s.Inv sha256Hex unacked) (hne : s.log.entries ≠ []) (call : Call) {n durableMax : Nat}
    {anchorHash : String} (hk : (Writing.rebase n durableMax anchorHash).Knows sha256Hex s) :
    (s.advance sha256Hex call (.rebase n durableMax anchorHash)).Inv sha256Hex unacked := by
  obtain ⟨hu, rfl, hhigh, hanchor⟩ := hk
  obtain ⟨hok, hjoined, hne', hown, hhigh', hu'⟩ := rebase_joined h.ring hne (h.own hu) hanchor
  unfold System.advance
  dsimp only
  refine ⟨h.whole, hok, fun _ => hne', fun _ => hown, fun _ => ⟨?_, (h.unsure hu).2⟩, fun hf => ?_, ?_⟩
  · rw [hhigh', hhigh]
  · rw [hu', hu] at hf
    cases hf
  · intro w hw
    obtain rfl := Option.some.inj hw
    exact ⟨hu'.trans hu, rfl, hhigh'.trans hhigh, hjoined⟩

theorem floor_inv (h : s.Inv sha256Hex unacked) (hne : s.log.entries ≠ []) (call : Call) {n durableMax : Nat}
    (hk : (Writing.floor n durableMax).Knows sha256Hex s) :
    (s.advance sha256Hex call (.floor n durableMax)).Inv sha256Hex unacked := by
  obtain ⟨hu, rfl, hhigh, hjoined⟩ := hk
  have hcounter : max s.log.seq (s.store.length + 1) = s.log.seq := Nat.max_eq_left hjoined.ahead
  unfold System.advance
  dsimp only
  rw [hcounter]
  refine ⟨h.whole, ⟨h.ring.intact, h.ring.next⟩, fun _ => hne, fun hf => (by cases hf), fun hf => (by cases hf),
    fun _ => ⟨⟨hjoined.held, hjoined.links, hjoined.ahead, hjoined.fresh⟩, ?_⟩, ?_⟩
  · rw [(h.unsure hu).2]
    exact hhigh.symm
  · intro w hw
    obtain rfl := Option.some.inj hw
    rfl

theorem check_inv (h : s.Inv sha256Hex unacked) (hne : s.log.entries ≠ []) (call : Call) {n : Nat}
    (hk : (Writing.check n).Knows sha256Hex s) : (s.advance sha256Hex call (.check n)).Inv sha256Hex unacked := by
  have hgo : System.Inv sha256Hex { s with writing :=
      if n < s.log.durableHigh + 1 then none else some (.backfill (s.log.durableHigh + 1) n) } unacked := by
    split
    · exact h.idle
    · exact h.move hne ⟨hk, rfl⟩
  unfold System.advance
  dsimp only
  rcases readTail s.store 1 call with _ | tail
  · exact hgo
  · dsimp only
    split
    · -- the sink says nothing about the chain
      have hidle := h.idle
      exact ⟨h.whole, ⟨h.ring.intact, h.ring.next⟩, hidle.busy, h.own, h.unsure, fun hu =>
        ⟨⟨(h.joined hu).1.held, (h.joined hu).1.links, (h.joined hu).1.ahead, (h.joined hu).1.fresh⟩,
          (h.joined hu).2⟩, fun w hw => by cases hw⟩
    · exact hgo

theorem backfill_inv (h : s.Inv sha256Hex unacked) (hne : s.log.entries ≠ []) (call : Call) {seq n : Nat}
    (hk : (Writing.backfill seq n).Knows sha256Hex s) :
    (s.advance sha256Hex call (.backfill seq n)).Inv sha256Hex unacked := by
  obtain ⟨hu, rfl⟩ := hk
  unfold System.advance
  dsimp only
  split
  · exact h.idle
  split
  · exact h.idle
  rename_i e hf
  have he := List.mem_of_find?_eq_some hf
  have hsome := List.find?_some hf
  have hseq : e.seq = s.log.durableHigh + 1 := of_decide_eq_true hsome
  have hmem : toRecord e ∈ s.log.entries.map toRecord := List.mem_map_of_mem he
  obtain ⟨hjoined, -⟩ := h.joined hu
  refine h.move hne ⟨hu, ⟨hseq, hjoined.held e he, hjoined.links e he, ?_, ?_, ?_⟩, h.ring.intact.digest _ hmem⟩
  · exact fun e' he' hs => h.ring.intact.inj (List.mem_map_of_mem he') hmem hs
  · exact fun e' he' hs => h.ring.intact.next hmem (List.mem_map_of_mem he') hs
  · obtain ⟨back, hback⟩ := Option.isSome_iff_exists.1 (List.getLast?_isSome.2 hne)
    have hle : e.seq ≤ back.seq := h.ring.intact.le_last hmem (by rw [List.getLast?_map, hback]; rfl)
    have := h.ring.next back hback
    show e.seq < s.log.seq
    omega

/-- The append: a new record extends the store, and one the store has already is settled. -/
theorem append_cases (h : s.Inv sha256Hex unacked) {r : AuditRecord} (hu : s.log.durableUnreconciled = false)
    (hr : Ready s.store s.log r) :
    (unacked = false ∧ r.seq = s.store.length + 1 ∧ appendAudit s.store r = (true, s.store ++ [r])) ∨
    (unacked = true ∧ r.seq = s.store.length ∧ r ∈ s.store ∧ appendAudit s.store r = (true, s.store)) := by
  have hlen := (h.joined hu).2
  have hseq := hr.seq
  cases unacked with
  | false =>
    have hnext : r.seq = s.store.length + 1 := by rw [hseq, hlen]; rfl
    exact Or.inl ⟨rfl, hnext, append_next h.whole hnext⟩
  | true =>
    have hat : r.seq = s.store.length := by rw [hseq, hlen]; rfl
    have hmem := hr.held hat.le
    exact Or.inr ⟨rfl, hat, hmem, append_again h.whole hmem⟩

/-- The ring continues the store after an append. -/
theorem Joined.append {r : AuditRecord} {store : DurableLog} {log : AuditLog} (h : Joined store log)
    (hr : Ready store log r) (hnext : r.seq = store.length + 1) (hne : log.entries ≠ []) :
    Joined (store ++ [r]) log := by
  have hlen : (store ++ [r]).length = store.length + 1 := by simp
  refine ⟨?_, ?_, ?_, fun h => absurd h hne⟩
  · intro e he hle
    rw [hlen] at hle
    rcases Nat.lt_or_ge store.length e.seq with hlt | hge
    · rw [hr.own e he (by omega)]
      exact List.mem_append_right _ List.mem_cons_self
    · exact List.mem_append_left _ (h.held e he hge)
  · intro e he hs last hlast
    rw [List.getLast?_concat] at hlast
    obtain rfl := Option.some.inj hlast
    rw [hlen] at hs
    exact hr.next e he (by omega)
  · have := hr.ahead
    omega

/-- The state after an applied append, with the watermark and the section the outcome leaves. -/
theorem System.Inv.appended (h : s.Inv sha256Hex unacked) (hne : s.log.entries ≠ []) {store : DurableLog}
    (hwhole : Whole sha256Hex store) (hu : s.log.durableUnreconciled = false) (hjoined : Joined store s.log)
    {high : Nat} {unacked' : Bool} (hlen : store.length = high + unacked'.toNat) {w : Option Writing}
    (hw : ∀ w' ∈ w, ∃ n, w' = .backfill (high + 1) n) :
    System.Inv sha256Hex { s with
      store := store, log := { s.log with durableHigh := high }, writing := w } unacked' where
  whole := hwhole
  ring := ⟨h.ring.intact, h.ring.next⟩
  busy := fun _ => hne
  own := h.own
  unsure := fun hf => by
    have hf : s.log.durableUnreconciled = true := hf
    rw [hu] at hf
    cases hf
  joined := fun _ => ⟨⟨hjoined.held, hjoined.links, hjoined.ahead, hjoined.fresh⟩, hlen⟩
  knows := fun w' hw' => by
    obtain ⟨n, rfl⟩ := hw w' hw'
    exact ⟨hu, rfl⟩

theorem append_inv (h : s.Inv sha256Hex unacked) (hne : s.log.entries ≠ []) (call : Call) {r : AuditRecord} {n : Nat}
    (hw : s.writing = some (.append r n)) (hk : (Writing.append r n).Knows sha256Hex s) :
    (s.advance sha256Hex call (.append r n)).Inv sha256Hex (s.unackedAfter unacked (.advance call)) := by
  obtain ⟨hu, hr, hdigest⟩ := hk
  obtain ⟨hjoined, hlen⟩ := h.joined hu
  have hidle : ∀ w ∈ (none : Option Writing), ∃ n, w = .backfill (s.log.durableHigh + 1) n := fun w hw => by cases hw
  have hhigh : max s.log.durableHigh r.seq = r.seq := Nat.max_eq_right (by have := hr.seq; omega)
  have hnextw : ∀ w ∈ some (Writing.backfill (r.seq + 1) n), ∃ n, w = .backfill (r.seq + 1) n :=
    fun w hw => ⟨n, (Option.some.inj hw).symm⟩
  unfold System.advance System.unackedAfter
  rw [hw]
  rcases append_cases h hu hr with ⟨rfl, hnext, happ⟩ | ⟨rfl, hat, hmem, happ⟩
  · -- the store gets the record
    have hwhole : Whole sha256Hex (s.store ++ [r]) := h.whole.snoc hnext (hr.links hnext) hdigest
    have hjoined' := hjoined.append hr hnext hne
    have hlen' : (s.store ++ [r]).length = r.seq + false.toNat := by
      rw [hnext, List.length_append, List.length_singleton]
      rfl
    have hlost : (s.store ++ [r]).length = s.log.durableHigh + true.toNat := by
      rw [hlen', hr.seq]
      rfl
    cases call with
    | ok =>
      dsimp only
      rw [happ, hhigh]
      exact h.appended hne hwhole hu hjoined' hlen' hnextw
    | failed => exact h.idle
    | lostAck =>
      dsimp only
      rw [happ]
      exact h.appended hne hwhole hu hjoined' hlost hidle
  · -- the store has it from a call that was not acknowledged
    have hlen' : s.store.length = r.seq + false.toNat := hat.symm
    cases call with
    | ok =>
      dsimp only
      rw [happ, hhigh]
      exact h.appended hne h.whole hu hjoined hlen' hnextw
    | failed => exact h.idle
    | lostAck =>
      dsimp only
      rw [happ]
      exact h.idle

/-- Threads that come and go change nothing else. -/
theorem System.Inv.threads (h : s.Inv sha256Hex unacked) (hne : s.log.entries ≠ []) (recorders waiting : List Nat) :
    System.Inv sha256Hex { s with recorders := recorders, waiting := waiting } unacked where
  whole := h.whole
  ring := h.ring
  busy := fun _ => hne
  own := h.own
  unsure := h.unsure
  joined := h.joined
  knows := fun w hw => by
    have hk := h.knows w hw
    cases w <;> exact hk

theorem advance_inv (h : s.Inv sha256Hex unacked) (call : Call) {w : Writing} (hw : s.writing = some w) :
    (s.advance sha256Hex call w).Inv sha256Hex (s.unackedAfter unacked (.advance call)) := by
  have hne : s.log.entries ≠ [] := h.busy (Or.inr (Or.inr (by rw [hw]; rfl)))
  have hk : w.Knows sha256Hex s := h.knows w (by rw [hw]; rfl)
  have hsame : (∀ r n, w ≠ .append r n) → s.unackedAfter unacked (.advance call) = unacked := by
    intro hnot
    unfold System.unackedAfter
    rw [hw]
    cases w with
    | append r n => exact absurd rfl (hnot r n)
    | _ => cases call <;> rfl
  cases w with
  | start n =>
    rw [hsame fun _ _ => by simp]
    exact start_inv h hne call n
  | rebase n durableMax anchorHash =>
    rw [hsame fun _ _ => by simp]
    exact rebase_inv h hne call hk
  | floor n durableMax =>
    rw [hsame fun _ _ => by simp]
    exact floor_inv h hne call hk
  | check n =>
    rw [hsame fun _ _ => by simp]
    exact check_inv h hne call hk
  | backfill seq n =>
    rw [hsame fun _ _ => by simp]
    exact backfill_inv h hne call hk
  | append r n => exact append_inv h hne call hw hk

/-- **One event keeps the invariant.** -/
theorem System.Inv.step (h : s.Inv sha256Hex unacked) (e : Event) :
    (s.step sha256Hex e).Inv sha256Hex (s.unackedAfter unacked e) := by
  cases e with
  | restart read => exact boot_inv h.whole read
  | record m => exact record_inv h m
  | valve i noFlusher =>
    simp only [System.step, System.unackedAfter]
    rcases hi : s.recorders[i]? with _ | seq
    · exact h
    have hne : s.log.entries ≠ [] := h.busy (Or.inl fun hnil => by simp [hnil] at hi)
    dsimp only
    split
    · exact h.threads hne _ _
    · exact h.threads hne _ _
  | flushDurable =>
    simp only [System.step, System.unackedAfter]
    split
    · rename_i top _ htop
      exact h.threads (fun hnil => by simp [hnil] at htop) _ _
    · exact h
  | lock i =>
    simp only [System.step, System.unackedAfter]
    split
    · rename_i n _ hn
      have hne : s.log.entries ≠ [] := h.busy (Or.inr (Or.inl fun hnil => by simp [hnil] at hn))
      exact (h.threads hne s.recorders (s.waiting.eraseIdx i)).move hne trivial
    · exact h
  | advance call =>
    simp only [System.step]
    rcases hw : s.writing with _ | w
    · simp only [System.unackedAfter, hw]
      exact h
    · exact advance_inv h call hw

/-! ## Runs -/

variable (sha256Hex) in
/-- The monitor after a run. -/
def unackedAt (read : Call) (events : List Event) : Bool :=
  (exec (fun p e => (System.step sha256Hex p.1 e, p.1.unackedAfter p.2 e)) (System.boot sha256Hex [] read, false)
    events).2

theorem after_snoc (read : Call) (events : List Event) (e : Event) :
    System.after sha256Hex read (events ++ [e]) = (System.after sha256Hex read events).step sha256Hex e :=
  exec_snoc _ _ _ _

theorem unackedAt_snoc (read : Call) (events : List Event) (e : Event) :
    unackedAt sha256Hex read (events ++ [e]) =
      (System.after sha256Hex read events).unackedAfter (unackedAt sha256Hex read events) e := by
  have hsystem : ∀ events : List Event, (exec (fun p e => (System.step sha256Hex p.1 e, p.1.unackedAfter p.2 e))
      (System.boot sha256Hex [] read, false) events).1 = System.after sha256Hex read events := by
    intro events
    induction events using List.reverseRecOn with
    | nil => rfl
    | append_singleton events e ih => rw [exec_snoc, ih, after_snoc]
  unfold unackedAt
  rw [exec_snoc, hsystem]

variable (sha256Hex) in
theorem after_inv (read : Call) (events : List Event) :
    (System.after sha256Hex read events).Inv sha256Hex (unackedAt sha256Hex read events) := by
  induction events using List.reverseRecOn with
  | nil => exact boot_inv Whole.nil read
  | append_singleton events e ih =>
    rw [after_snoc, unackedAt_snoc]
    exact ih.step e

/-- Where every error means that nothing was applied, every append is acknowledged. -/
theorem unackedAt_of_clean (read : Call) {events : List Event} (h : ∀ e ∈ events, e ≠ .advance .lostAck) :
    unackedAt sha256Hex read events = false := by
  induction events using List.reverseRecOn with
  | nil => rfl
  | append_singleton events e ih =>
    have he := h e (List.mem_append_right _ List.mem_cons_self)
    rw [unackedAt_snoc, ih fun e' he' => h e' (List.mem_append_left _ he')]
    unfold System.unackedAfter
    repeat' split
    · rfl
    · rfl
    · exact absurd rfl he
    · rfl
    · rfl

/-- One event leaves the durable log, or appends to it. -/
theorem store_step (h : s.Inv sha256Hex unacked) (e : Event) : s.store <+: (s.step sha256Hex e).store := by
  cases e with
  | restart read => exact List.prefix_rfl
  | record m => exact List.prefix_rfl
  | valve i noFlusher =>
    simp only [System.step]
    repeat' split
    all_goals exact List.prefix_rfl
  | flushDurable =>
    simp only [System.step]
    split <;> exact List.prefix_rfl
  | lock i =>
    simp only [System.step]
    split <;> exact List.prefix_rfl
  | advance call =>
    simp only [System.step]
    rcases hw : s.writing with _ | w
    · exact List.prefix_rfl
    have hk : w.Knows sha256Hex s := h.knows w (by rw [hw]; rfl)
    unfold System.advance
    cases w with
    | append r n =>
      obtain ⟨hu, hr, -⟩ := hk
      dsimp only
      rcases append_cases h hu hr with ⟨-, -, happ⟩ | ⟨-, -, -, happ⟩
      · rw [happ]
        cases call with
        | ok => exact List.prefix_append _ _
        | failed => exact List.prefix_rfl
        | lostAck => exact List.prefix_append _ _
      · rw [happ]
        cases call <;> exact List.prefix_rfl
    | _ =>
      dsimp only
      repeat' split
      all_goals exact List.prefix_rfl

/-- **Whole runs**: the durable log is one unbroken chain from 1 on, nothing in it is ever rewritten, and where
errors mean that nothing was applied the watermark of a reconciled log is its end. -/
theorem durable_chain (sha256Hex : String → String) (read : Call) (events : List Event) :
    Whole sha256Hex (System.after sha256Hex read events).store ∧
    (∀ pre, pre <+: events →
      (System.after sha256Hex read pre).store <+: (System.after sha256Hex read events).store) ∧
    ((∀ e ∈ events, e ≠ .advance .lostAck) →
      let s := System.after sha256Hex read events
      s.log.durableHigh ≤ s.store.length ∧
        (s.log.durableUnreconciled = false → s.log.durableHigh = s.store.length)) := by
  have hinv := after_inv sha256Hex read events
  refine ⟨hinv.whole, ?_, ?_⟩
  · rintro pre ⟨post, rfl⟩
    clear hinv
    induction post using List.reverseRecOn with
    | nil => simp
    | append_singleton post e ih =>
      rw [← List.append_assoc, after_snoc]
      exact ih.trans (store_step (after_inv sha256Hex read _) e)
  · intro hclean
    rw [unackedAt_of_clean read hclean] at hinv
    rcases hu : (System.after sha256Hex read events).log.durableUnreconciled with _ | _
    · have hlen := (hinv.joined hu).2
      exact ⟨hlen.symm.le, fun _ => hlen.symm⟩
    · exact ⟨(hinv.unsure hu).1, fun hf => absurd (hf.symm.trans hu) Bool.false_ne_true⟩

def mutation : Mutation := ⟨100, "hook.register", "hook:a", "applied", "admin"⟩

/-- One entry is written through. -/
def firstEntry : List Event := [.record mutation, .valve 0 true, .lock 0] ++ List.replicate 5 (.advance .ok)

theorem durable_chain_first :
    let s := System.after id .ok firstEntry
    s.store.map (fun r => r.seq) = [1] ∧ s.log.durableHigh = s.store.length := by
  refine ⟨by decide +kernel, ?_⟩
  have hclean : ∀ e ∈ firstEntry, e ≠ .advance .lostAck := by decide
  exact ((durable_chain id .ok firstEntry).2.2 hclean).2 (by decide +kernel)

/-- The process restarts and cannot read the tail: until it can, it does not know the end of the log. -/
theorem watermark_unknown :
    let s := System.after id .ok (firstEntry ++ [.restart .failed])
    s.store.map (fun r => r.seq) = [1] ∧ s.log.durableHigh = 0 := by
  decide +kernel

end Busbar.Audit
