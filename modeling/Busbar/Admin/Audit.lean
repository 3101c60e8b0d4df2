import Busbar.Lib.Run
import Mathlib.Data.List.Basic

/-!
# The admin audit log

Each process keeps a bounded ring of audit entries, chained by hash, and writes them through to the
durable log of the store, which is append-only and keyed by sequence number. The write-through runs under
its own lock and goes in sections, between which other threads may record; the process may crash at any
point and boot again from what the store holds.

* `appendAudit`, `listAuditTail`: the store's side, with the outcome a call may have.
* `AuditLog.record`, `AuditLog.rebaseNondurableSuffix`, `AuditLog.restoreFromStore`: the sections on the ring.
* `Writing`, `System.advance`: the write-through, one section at a time.
* `System.step`: the events of a system with one writer process.
-/

namespace Busbar.Audit

open Run

structure AuditRecord where
  seq : Nat
  ts : Nat
  action : String
  resource : String
  outcome : String
  principal : String
  prevHash : String
  hash : String
  deriving DecidableEq, Repr

/-- A ring entry. `recordedHere` tells the entries of this process from those read back from the store. -/
structure AuditEntry extends AuditRecord where
  recordedHere : Bool
  deriving DecidableEq, Repr

def toRecord (e : AuditEntry) : AuditRecord := e.toAuditRecord

def fromRecord (r : AuditRecord) : AuditEntry := { r with recordedHere := false }

/-- The ring's bound. -/
@[irreducible] def maxAuditEntries : Nat := 1000

theorem maxAuditEntries_pos : 0 < maxAuditEntries := by
  unfold maxAuditEntries
  decide

/-- How many entries may wait for the flusher before a recorder writes through itself. -/
def writeThroughHeadroom : Nat := maxAuditEntries - maxAuditEntries / 4

/-! ## The store -/

/-- How a store call ends: applied and Ok, not applied and Err, or applied and Err. A read knows the first two. -/
inductive Call where
  | ok | failed | lostAck
  deriving DecidableEq, Repr

/-- The durable log: its records, oldest first. -/
abbrev DurableLog := List AuditRecord

/-- The contract of `Store::append_audit`: a taken sequence number is settled by comparing the two records. -/
def appendAudit (log : DurableLog) (r : AuditRecord) : Bool × DurableLog :=
  match log.find? (fun r' => r'.seq = r.seq) with
  | some r' => (decide (r' = r), log)
  | none => (true, log.takeWhile (fun r' => r'.seq < r.seq) ++ r :: log.dropWhile (fun r' => r'.seq < r.seq))

def listAuditTail (log : DurableLog) (limit : Nat) : List AuditRecord := log.drop (log.length - limit)

/-- `max_by_key` on the sequence number: the last of the greatest. -/
def maxBySeq (records : List AuditRecord) : Option AuditRecord :=
  records.foldl (fun best r => match best with
    | none => some r
    | some b => if b.seq ≤ r.seq then some r else some b) none

/-! ## The ring -/

/-- The process's log. -/
structure AuditLog where
  entries : List AuditEntry
  seq : Nat
  sink : Bool
  durableHigh : Nat
  durableUnreconciled : Bool

def AuditLog.new : AuditLog where
  entries := []
  seq := 1
  sink := false
  durableHigh := 0
  durableUnreconciled := false

section Digest

-- `sigv4::sha256_hex`
variable (sha256Hex : String → String)

def computeHash (r : AuditRecord) : String :=
  sha256Hex ("|".intercalate
    [r.prevHash, toString r.seq, toString r.ts, r.action, r.resource, r.outcome, r.principal])

/-- What a caller of `record_by` hands over, with the clock. -/
structure Mutation where
  ts : Nat
  action : String
  resource : String
  outcome : String
  principal : String
  deriving DecidableEq, Repr

/-- The section of `record_by` under the entries lock; the sequence number is the recorder's to write through. -/
def AuditLog.record (log : AuditLog) (m : Mutation) : Nat × AuditLog :=
  let r : AuditRecord :=
    { seq := log.seq, ts := m.ts, action := m.action, resource := m.resource, outcome := m.outcome,
      principal := m.principal, prevHash := (log.entries.getLast?.map (fun e => e.hash)).getD "", hash := "" }
  let kept := log.entries.drop (log.entries.length + 1 - maxAuditEntries)
  (log.seq, { log with
    seq := log.seq + 1
    entries := kept ++ [{ r with hash := computeHash sha256Hex r, recordedHere := true }] })

/-- Give the entries consecutive sequence numbers and chain them from a hash. -/
def rechain (seq : Nat) (prev : String) : List AuditEntry → List AuditEntry
  | [] => []
  | e :: es =>
    let e := { e with seq := seq, prevHash := prev }
    let e := { e with hash := computeHash sha256Hex e.toAuditRecord }
    e :: rechain (seq + 1) e.hash es

/-- Renumber the entries this process recorded above the durable tail; tells the highest number it gave. -/
def AuditLog.rebaseNondurableSuffix (log : AuditLog) (durableMax : Nat) (anchorHash : String) :
    Option Nat × AuditLog :=
  let seeded := log.entries.takeWhile (fun e => !e.recordedHere)
  match log.entries.dropWhile (fun e => !e.recordedHere) with
  | [] => (none, log)
  | first :: rest =>
    -- a number never moves down
    let nextSeq := max (durableMax + 1) first.seq
    let prev := if nextSeq = durableMax + 1 then anchorHash else first.prevHash
    let suffix := rechain sha256Hex nextSeq prev (first :: rest)
    (some (nextSeq + rest.length), { log with
      entries := seeded ++ suffix
      seq := max log.seq (nextSeq + rest.length + 1) })

/-- Every digest recomputes and every record links to the one before it. -/
def verifies (prev : Option String) : List AuditRecord → Bool
  | [] => true
  | r :: rs => decide (r.hash = computeHash sha256Hex r) && (prev.all (fun p => decide (r.prevHash = p))) &&
      verifies (some r.hash) rs

/-- The boot restore from what the tail read returned. -/
def AuditLog.restoreFromStore (log : AuditLog) : Option (List AuditRecord) → AuditLog
  | none => { log with durableUnreconciled := true }
  | some records =>
    let log := { log with durableUnreconciled := false }
    if records = [] then log
    else
      -- the floor comes before the verification, so a failed one cannot rewind the counter
      let durableMax := ((maxBySeq records).map (fun r => r.seq)).getD 0
      let log := { log with
        seq := max log.seq (durableMax + 1)
        durableHigh := max log.durableHigh durableMax }
      if verifies sha256Hex none records then
        { log with entries := (records.map fromRecord).drop (records.length - maxAuditEntries) }
      else { log with durableUnreconciled := true }

end Digest

/-! ## The system -/

/-- Where the thread is that holds the durable lock, with the sequence number it writes up to. -/
inductive Writing where
  /-- at the seal: a sealed log reads the tail first -/
  | start (newSeq : Nat)
  | rebase (newSeq durableMax : Nat) (anchorHash : String)
  | floor (newSeq durableMax : Nat)
  /-- at the single-writer check -/
  | check (newSeq : Nat)
  | backfill (seq newSeq : Nat)
  | append (record : AuditRecord) (newSeq : Nat)

/-- The store and the one process that writes to it. `recorders` have recorded and come to the valve, `waiting`
want the durable lock. -/
structure System where
  store : DurableLog
  log : AuditLog
  recorders : List Nat
  waiting : List Nat
  writing : Option Writing

inductive Event where
  /-- a crash, or the end of the process, and the boot of the next -/
  | restart (read : Call)
  | record (m : Mutation)
  /-- a recorder passes the valve; `noFlusher`: no runtime drains the ring -/
  | valve (i : Nat) (noFlusher : Bool)
  | flushDurable
  | lock (i : Nat)
  /-- the next section of the write-through, with the outcome of its store call -/
  | advance (call : Call)
  deriving DecidableEq, Repr

/-- What a tail read returns. -/
def readTail (store : DurableLog) (limit : Nat) : Call → Option (List AuditRecord)
  | .ok => some (listAuditTail store limit)
  | .failed | .lostAck => none

section Step

variable (sha256Hex : String → String)

/-- `set_sink`, then `restore_from_store`. -/
def System.boot (store : DurableLog) (read : Call) : System where
  store := store
  log := { AuditLog.new with sink := true }.restoreFromStore sha256Hex (readTail store maxAuditEntries read)
  recorders := []
  waiting := []
  writing := none

/-- One section of `durable_write_through`. -/
def System.advance (s : System) (call : Call) : Writing → System
  | .start newSeq =>
    if s.log.durableUnreconciled then
      match readTail s.store 1 call with
      | some tail =>
        let anchor := maxBySeq tail
        let durableMax := (anchor.map (fun r => r.seq)).getD 0
        { s with
          log := { s.log with durableHigh := max s.log.durableHigh durableMax }
          writing := some (.rebase newSeq durableMax ((anchor.map (fun r => r.hash)).getD "")) }
      | none => { s with writing := none }
    else { s with writing := some (.check newSeq) }
  | .rebase newSeq durableMax anchorHash =>
    let r := s.log.rebaseNondurableSuffix sha256Hex durableMax anchorHash
    { s with log := r.2, writing := some (.floor (r.1.getD newSeq) durableMax) }
  | .floor newSeq durableMax =>
    { s with
      log := { s.log with seq := max s.log.seq (durableMax + 1), durableUnreconciled := false }
      writing := some (.check newSeq) }
  | .check newSeq =>
    let next := s.log.durableHigh + 1
    let go : System := { s with writing := if newSeq < next then none else some (.backfill next newSeq) }
    match readTail s.store 1 call with
    | some tail =>
      let observed := ((maxBySeq tail).map (fun r => r.seq)).getD 0
      -- a tail ahead of what this process persisted is taken for another writer's
      if s.log.durableHigh < observed then { s with log := { s.log with sink := false }, writing := none } else go
    | none => go
  | .backfill seq newSeq =>
    if newSeq < seq then { s with writing := none }
    else
      match s.log.entries.find? (fun e => e.seq = seq) with
      -- pruned before it was persisted: stop below the hole
      | none => { s with writing := none }
      | some e => { s with writing := some (.append (toRecord e) newSeq) }
  | .append r newSeq =>
    let out := appendAudit s.store r
    match call with
    | .failed => { s with writing := none }
    | .lostAck => { s with store := out.2, writing := none }
    | .ok =>
      if out.1 then
        { s with
          store := out.2
          log := { s.log with durableHigh := max s.log.durableHigh r.seq }
          writing := some (.backfill (r.seq + 1) newSeq) }
      else { s with writing := none }

def System.step (s : System) : Event → System
  | .restart read => System.boot sha256Hex s.store read
  | .record m =>
    let r := s.log.record sha256Hex m
    { s with log := r.2, recorders := s.recorders ++ [r.1] }
  | .valve i noFlusher =>
    match s.recorders[i]? with
    | none => s
    | some seq =>
      let s := { s with recorders := s.recorders.eraseIdx i }
      if s.log.sink ∧ (noFlusher ∨ writeThroughHeadroom ≤ seq - s.log.durableHigh) then
        { s with waiting := s.waiting ++ [seq] }
      else s
  | .flushDurable =>
    match s.log.sink, s.log.entries.getLast? with
    | true, some top => { s with waiting := s.waiting ++ [top.seq] }
    | _, _ => s
  | .lock i =>
    match s.writing, s.waiting[i]? with
    | none, some newSeq => { s with waiting := s.waiting.eraseIdx i, writing := some (.start newSeq) }
    | _, _ => s
  | .advance call =>
    match s.writing with
    | none => s
    | some w => s.advance sha256Hex call w

/-- The system after a run that starts with an empty store. -/
def System.after (read : Call) (events : List Event) : System :=
  exec (System.step sha256Hex) (System.boot sha256Hex [] read) events

end Step

end Busbar.Audit
