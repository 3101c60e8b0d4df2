import Busbar.Lib.Text
import Busbar.Lib.Volume

/-!
# Durable writes

A file is published by writing a temporary sibling, syncing it and renaming it over the target. What the operating system
does at each step is a parameter: a step that fails may leave anything under the temporary name.

* `writeWith`: the volumes a call passes through.
* `writeWith_atomic`: the target holds the old bytes or the new ones, in every volume on the way.
-/

namespace Busbar.Durable

inductive Component where
  | root | parentDir | curDir
  | normal (name : String)
  deriving DecidableEq, Repr

/-- A path by its components. -/
abbrev Path := List Component

namespace Path

/-- `Path::file_name`. -/
def fileName (p : Path) : Option String :=
  match p.getLast? with
  | some (.normal name) => some name
  | _ => none

/-- `Path::parent`. -/
def parent (p : Path) : Option Path :=
  match p.getLast? with
  | none | some .root => none
  | some _ => some p.dropLast

/-- The name of a file in its volume; a leading `.` says nothing. -/
def entry (p : Path) : Path := p.filter (· ≠ .curDir)

end Path

abbrev Disk := Volume Path Bytes

/-- The permissions of the temporary file (`DurableOpts::mode`) do not touch its bytes. -/
structure DurableOpts where
  exclusive : Bool

def holdingDir (path : Path) : Path := (path.parent.filter (· ≠ [])).getD [.curDir]

def tmpName (fileName : String) (pid seq : Nat) : String :=
  "." ++ fileName ++ "." ++ toString pid ++ "-" ++ toString seq ++ ".tmp"

def tmpPath (path : Path) (fileName : String) (pid seq : Nat) : Path :=
  holdingDir path ++ [.normal (tmpName fileName pid seq)]

/-- What a step that fails leaves under the temporary name. -/
abbrev Leftover := Option (Volume.File Bytes)

/-- What the operating system makes of a call: whether the removals and the sync of the directory work, and which of the
other steps fail and how. -/
structure Faults where
  preRemove : Bool
  create : Option Leftover
  write : Option Leftover
  flush : Option Leftover
  sync : Option Leftover
  /-- Whether a rename that fails has been carried out all the same. -/
  rename : Option Bool
  cleanup : Bool
  syncDir : Bool

namespace Steps

variable (tmp : Path)

/-- A step on the temporary file. -/
def onTmp (fault : Option Leftover) (f : Disk → Disk) : Volume.Step Path Bytes := fun v =>
  match fault with
  | some left => (false, v.put tmp left)
  | none => (true, f v)

def preRemove (opts : DurableOpts) (works : Bool) : Volume.Step Path Bytes := fun v =>
  (true, if opts.exclusive && works then v.remove tmp else v)

/-- An exclusive create refuses a file that is there; any other truncates it. -/
def create (opts : DurableOpts) (fault : Option Leftover) : Volume.Step Path Bytes := fun v =>
  if opts.exclusive && (v.live tmp).isSome then (false, v)
  else onTmp tmp fault (fun v => v.put tmp (some ⟨[], false⟩)) v

def writeAll (bytes : Bytes) (fault : Option Leftover) : Volume.Step Path Bytes :=
  onTmp tmp fault (fun v => v.put tmp ((v.live tmp).map fun f => ⟨f.content ++ bytes, false⟩))

def flush (fault : Option Leftover) : Volume.Step Path Bytes := onTmp tmp fault id

def syncAll (fault : Option Leftover) : Volume.Step Path Bytes := onTmp tmp fault (fun v => v.syncFile tmp)

def rename (target : Path) (fault : Option Bool) : Volume.Step Path Bytes := fun v =>
  match fault with
  | some consumed => (false, if consumed then v.rename tmp target else v)
  | none => (true, v.rename tmp target)

/-- What comes before the rename. -/
def prepare (bytes : Bytes) (opts : DurableOpts) (faults : Faults) : List (Volume.Step Path Bytes) :=
  [preRemove tmp opts faults.preRemove, create tmp opts faults.create, writeAll tmp bytes faults.write,
    flush tmp faults.flush, syncAll tmp faults.sync]

end Steps

/-- The result of a call, the volumes it passed through and the one it left. -/
structure Outcome where
  ok : Bool
  passed : List Disk
  final : Disk

def Outcome.volumes (o : Outcome) : List Disk := o.passed ++ [o.final]

/-- `sync_holding_dir`: the entries of the directory that holds the path. -/
def syncHoldingDir (path : Path) (works : Bool) (v : Disk) : Disk :=
  if works then v.syncDir (fun k => k.dropLast = (holdingDir path).entry) else v

def writeWith (v : Disk) (pid seq : Nat) (path : Path) (bytes : Bytes) (opts : DurableOpts) (faults : Faults) : Outcome :=
  match path.fileName with
  | none => ⟨false, [], v⟩
  | some fileName =>
    let tmp := (tmpPath path fileName pid seq).entry
    let (ok, passed, last) :=
      v.run (Steps.prepare tmp bytes opts faults ++ [Steps.rename tmp path.entry faults.rename])
    if ok then ⟨true, passed ++ [last], syncHoldingDir path faults.syncDir last⟩
    -- the guard's destructor
    else ⟨false, passed ++ [last], if faults.cleanup then last.remove tmp else last⟩

/-! ## The temporary name -/

variable {path : Path} {fileName : String} {pid seq : Nat}

theorem entry_of_fileName (h : path.fileName = some fileName) :
    ∃ dir, path.entry = dir ++ [.normal fileName] ∧ (holdingDir path).entry = dir := by
  obtain ⟨init, hinit⟩ : ∃ init, path = init ++ [.normal fileName] := by
    unfold Path.fileName at h
    cases hlast : path.getLast? with
    | none =>
      rw [hlast] at h
      cases h
    | some c =>
      rw [hlast] at h
      cases c with
      | normal name =>
        cases h
        exact List.getLast?_eq_some_iff.1 hlast
      | _ => cases h
  subst hinit
  refine ⟨init.filter (· ≠ .curDir), ?_, ?_⟩
  · simp [Path.entry]
  · have hparent : Path.parent (init ++ [.normal fileName]) = some init := by simp [Path.parent]
    unfold holdingDir
    rw [hparent]
    by_cases hempty : init = []
    · subst hempty
      rfl
    · simp [Option.filter, hempty, Path.entry]

/-- The temporary name is longer than the target's. -/
theorem tmp_ne_target (h : path.fileName = some fileName) : (tmpPath path fileName pid seq).entry ≠ path.entry := by
  obtain ⟨dir, hdir, -⟩ := entry_of_fileName h
  intro heq
  rw [hdir] at heq
  have htmp : (tmpPath path fileName pid seq).entry =
      (holdingDir path).entry ++ [.normal (tmpName fileName pid seq)] := by
    simp [tmpPath, Path.entry]
  rw [htmp] at heq
  have hlast := congrArg List.getLast? heq
  simp only [List.getLast?_append, List.getLast?_singleton, Option.some_or, Option.some.injEq,
    Component.normal.injEq] at hlast
  have hlen := congrArg String.length hlast
  unfold tmpName at hlen
  simp only [String.length_append] at hlen
  have hdot : (".":String).length = 1 := by decide
  omega

/-! ## The volumes on the way -/

/-- Nothing but the temporary file has changed. -/
structure Apart (tmp : Path) (v u : Disk) : Prop where
  live : ∀ k, k ≠ tmp → u.live k = v.live k
  disk : u.disk = v.disk

/-- The new bytes are on disk under the target's name; the directory may be. -/
structure Published (tmp target : Path) (bytes : Bytes) (v u : Disk) : Prop where
  there : u.live target = some ⟨bytes, true⟩
  gone : u.live tmp = none
  live : ∀ k, k ≠ tmp → k ≠ target → u.live k = v.live k
  disk : ∀ k, u.disk k = v.disk k ∨ u.disk k = u.live k

variable {tmp target : Path} {v u : Disk} {bytes : Bytes} {opts : DurableOpts} {faults : Faults}

theorem Apart.put (h : Apart tmp v u) (f : Leftover) : Apart tmp v (u.put tmp f) :=
  ⟨fun k hk => (Volume.live_put_of_ne hk).trans (h.live k hk), h.disk⟩

theorem apart_onTmp (fault : Option Leftover) {f : Disk → Disk} (hf : ∀ u, Apart tmp v u → Apart tmp v (f u))
    (h : Apart tmp v u) : Apart tmp v (Steps.onTmp tmp fault f u).2 := by
  unfold Steps.onTmp
  cases fault with
  | none => exact hf u h
  | some left => exact h.put left

/-- **Before the rename** only the temporary file changes. -/
theorem prepare_apart {step : Volume.Step Path Bytes} (hstep : step ∈ Steps.prepare tmp bytes opts faults)
    (h : Apart tmp v u) : Apart tmp v (step u).2 := by
  simp only [Steps.prepare, List.mem_cons, List.not_mem_nil, or_false] at hstep
  rcases hstep with rfl | rfl | rfl | rfl | rfl
  · unfold Steps.preRemove
    dsimp only
    split
    · exact h.put none
    · exact h
  · unfold Steps.create
    split
    · exact h
    · exact apart_onTmp faults.create (fun u hu => hu.put _) h
  · exact apart_onTmp faults.write (fun u hu => hu.put _) h
  · exact apart_onTmp faults.flush (fun u hu => hu) h
  · exact apart_onTmp faults.sync (fun u hu => hu.put _) h

theorem onTmp_ok {fault : Option Leftover} {f : Disk → Disk} (h : (Steps.onTmp tmp fault f u).1 = true) :
    (Steps.onTmp tmp fault f u).2 = f u := by
  unfold Steps.onTmp at h ⊢
  cases fault with
  | none => rfl
  | some left => cases h

/-- **When all has gone well** the temporary file holds the new bytes, and they are on disk. -/
theorem prepare_ok (h : (v.run (Steps.prepare tmp bytes opts faults)).1 = true) :
    (v.run (Steps.prepare tmp bytes opts faults)).2.2.live tmp = some ⟨bytes, true⟩ := by
  obtain ⟨v₁, -, h, hlast₁⟩ := Volume.run_progress (P := fun _ => True) (fun _ => trivial) h
  obtain ⟨v₂, hcreated, h, hlast₂⟩ := Volume.run_progress (P := fun u => u.live tmp = some ⟨[], false⟩) (by
    intro hok
    unfold Steps.create at hok ⊢
    split at hok
    · cases hok
    · rename_i hnew
      rw [if_neg hnew, onTmp_ok hok]
      exact Volume.live_put_self) h
  obtain ⟨v₃, hwritten, h, hlast₃⟩ := Volume.run_progress (P := fun u => u.live tmp = some ⟨bytes, false⟩) (by
    intro hok
    unfold Steps.writeAll at hok ⊢
    rw [onTmp_ok hok, Volume.live_put_self, hcreated]
    rfl) h
  obtain ⟨v₄, hflushed, h, hlast₄⟩ := Volume.run_progress (P := fun u => u.live tmp = some ⟨bytes, false⟩) (by
    intro hok
    unfold Steps.flush at hok ⊢
    rw [onTmp_ok hok]
    exact hwritten) h
  obtain ⟨v₅, hsynced, -, hlast₅⟩ := Volume.run_progress (P := fun u => u.live tmp = some ⟨bytes, true⟩) (by
    intro hok
    unfold Steps.syncAll at hok ⊢
    rw [onTmp_ok hok]
    unfold Volume.syncFile
    rw [Volume.live_put_self, hflushed]
    rfl) h
  rw [Steps.prepare, hlast₁, hlast₂, hlast₃, hlast₄, hlast₅]
  exact hsynced

theorem Apart.rename (hne : tmp ≠ target) (h : Apart tmp v u) (htmp : u.live tmp = some ⟨bytes, true⟩) :
    Published tmp target bytes v (u.rename tmp target) := by
  obtain ⟨htarget, hgone⟩ := Volume.live_rename (v := u) hne
  refine ⟨htarget.trans htmp, hgone, ?_, fun k => Or.inl (congrFun h.disk k)⟩
  intro k hk hk'
  exact (Volume.live_rename_of_ne hk hk').trans (h.live k hk)

theorem Published.remove (hne : tmp ≠ target) (h : Published tmp target bytes v u) :
    Published tmp target bytes v (u.remove tmp) := by
  refine ⟨(Volume.live_remove_of_ne hne.symm).trans h.there, Volume.live_remove_self, ?_, ?_⟩
  · intro k hk hk'
    exact (Volume.live_remove_of_ne hk).trans (h.live k hk hk')
  · intro k
    by_cases hk : k = tmp
    · subst hk
      refine (h.disk k).imp id (fun hd => hd.trans ?_)
      rw [h.gone, Volume.live_remove_self]
    · exact (h.disk k).imp id (fun hd => hd.trans (Volume.live_remove_of_ne hk).symm)

theorem Published.syncHoldingDir (h : Published tmp target bytes v u) (works : Bool) :
    Published tmp target bytes v (syncHoldingDir path works u) := by
  unfold Durable.syncHoldingDir
  cases works with
  | false => exact h
  | true =>
    refine ⟨h.there, h.gone, h.live, ?_⟩
    intro k
    unfold Volume.syncDir
    dsimp only
    by_cases hk : k.dropLast = (holdingDir path).entry
    · simp [hk]
    · simpa [hk] using h.disk k

/-- **What a call does**, whatever fails: every volume on the way is as before but for the temporary file, or has the new
bytes in place. -/
theorem writeWith_cases (v : Disk) (pid seq : Nat) (bytes : Bytes) (opts : DurableOpts) (faults : Faults)
    (hname : path.fileName = some fileName) :
    let o := writeWith v pid seq path bytes opts faults
    let tmp := (tmpPath path fileName pid seq).entry
    (∀ u ∈ o.volumes, Apart tmp v u ∨ Published tmp path.entry bytes v u) ∧
      (o.ok = true → Published tmp path.entry bytes v o.final ∧
        (faults.syncDir = true → o.final.disk path.entry = o.final.live path.entry)) ∧
      (o.ok = false → faults.cleanup = true → o.final.live tmp = none) := by
  intro o tmp
  have hne : tmp ≠ path.entry := tmp_ne_target hname
  obtain ⟨steps, hsteps⟩ : ∃ steps, steps = Steps.prepare tmp bytes opts faults := ⟨_, rfl⟩
  have hprepared : (∀ u ∈ (v.run steps).2.1, Apart tmp v u) ∧ Apart tmp v (v.run steps).2.2 :=
    Volume.run_invariant (fun step hs u hu => prepare_apart (hsteps ▸ hs) hu) ⟨fun _ _ => rfl, rfl⟩
  obtain ⟨hpassed, hlast⟩ := hprepared
  obtain ⟨w, hw⟩ : ∃ w, w = (v.run steps).2.2 := ⟨_, rfl⟩
  have ho : o = let r := v.run (steps ++ [Steps.rename tmp path.entry faults.rename])
      if r.1 then ⟨true, r.2.1 ++ [r.2.2], syncHoldingDir path faults.syncDir r.2.2⟩
      else ⟨false, r.2.1 ++ [r.2.2], if faults.cleanup then r.2.2.remove tmp else r.2.2⟩ := by
    simp only [o, writeWith, hname, hsteps]
    rfl
  rcases Volume.run_append steps [Steps.rename tmp path.entry faults.rename] v with ⟨hfail, hrun⟩ | ⟨hok, hrun⟩
  · -- a step before the rename has failed
    rw [hrun] at ho
    dsimp only at ho
    rw [hfail, if_neg Bool.false_ne_true] at ho
    rw [ho]
    refine ⟨?_, nofun, ?_⟩
    · intro u hu
      simp only [Outcome.volumes, List.append_assoc, List.mem_append, List.mem_singleton] at hu
      rcases hu with hu | rfl | rfl
      · exact Or.inl (hpassed u hu)
      · exact Or.inl hlast
      · split
        · exact Or.inl (hlast.put none)
        · exact Or.inl hlast
    · intro _ hclean
      rw [hclean]
      exact Volume.live_remove_self
  · have htmp : w.live tmp = some ⟨bytes, true⟩ := by
      rw [hw, hsteps]
      exact prepare_ok (by rw [← hsteps]; exact hok)
    have hpublished : Published tmp path.entry bytes v (w.rename tmp path.entry) := (hw ▸ hlast).rename hne htmp
    rw [hrun, ← hw] at ho
    have hpassed' : ∀ u ∈ (v.run steps).2.1 ++ [w], Apart tmp v u := by
      intro u hu
      rcases List.mem_append.1 hu with hu | hu
      · exact hpassed u hu
      · rw [List.mem_singleton.1 hu, hw]
        exact hlast
    cases hrename : faults.rename with
    | none =>
      have hstep : w.run [Steps.rename tmp path.entry none] = (true, [w], w.rename tmp path.entry) := rfl
      rw [hrename, hstep] at ho
      dsimp only at ho
      rw [if_pos rfl] at ho
      have hfinal := @Published.syncHoldingDir path _ _ _ _ _ hpublished faults.syncDir
      rw [ho]
      refine ⟨?_, fun _ => ⟨hfinal, ?_⟩, nofun⟩
      · intro u hu
        rcases List.mem_append.1 hu with hu | hu
        · rcases List.mem_append.1 hu with hu | hu
          · exact Or.inl (hpassed' u hu)
          · rw [List.mem_singleton.1 hu]
            exact Or.inr hpublished
        · rw [List.mem_singleton.1 hu]
          exact Or.inr hfinal
      · intro hsync
        obtain ⟨dir, hentry, hdir⟩ := entry_of_fileName hname
        dsimp only
        rw [hsync]
        unfold syncHoldingDir Volume.syncDir
        simp [hentry, hdir]
    | some consumed =>
      have hstep : w.run [Steps.rename tmp path.entry (some consumed)] =
          (false, [w], if consumed then w.rename tmp path.entry else w) := rfl
      obtain ⟨x, hx⟩ : ∃ x, x = if consumed then w.rename tmp path.entry else w := ⟨_, rfl⟩
      rw [hrename, hstep, ← hx] at ho
      dsimp only at ho
      rw [if_neg Bool.false_ne_true] at ho
      have hlast' : Apart tmp v x ∨ Published tmp path.entry bytes v x := by
        rw [hx]
        cases consumed with
        | true => exact Or.inr hpublished
        | false => exact Or.inl (hw ▸ hlast)
      have hcleaned : Apart tmp v (x.remove tmp) ∨ Published tmp path.entry bytes v (x.remove tmp) :=
        hlast'.imp (fun h => h.put none) (fun h => h.remove hne)
      rw [ho]
      refine ⟨?_, nofun, ?_⟩
      · intro u hu
        rcases List.mem_append.1 hu with hu | hu
        · rcases List.mem_append.1 hu with hu | hu
          · exact Or.inl (hpassed' u hu)
          · rw [List.mem_singleton.1 hu]
            exact hlast'
        · rw [List.mem_singleton.1 hu]
          dsimp only
          split
          · exact hcleaned
          · exact hlast'
      · intro _ hclean
        dsimp only
        rw [hclean]
        exact Volume.live_remove_self

/-! ## Atomicity -/

/-- What the target may hold. -/
theorem read_cases (hne : tmp ≠ target) (h : Apart tmp v u ∨ Published tmp target bytes v u) :
    u.read target = v.read target ∨ u.read target = some bytes := by
  unfold Volume.read
  rcases h with h | h
  · rw [h.live target hne.symm]
    exact Or.inl rfl
  · rw [h.there]
    exact Or.inr rfl

/-- What a power loss may leave of the target. -/
theorem afterLoss_cases (hne : tmp ≠ target) (hsettled : v.Settled target)
    (h : Apart tmp v u ∨ Published tmp target bytes v u) {left : Leftover} (hleft : u.AfterLoss target left) :
    left.map Volume.File.content = v.read target ∨ left.map Volume.File.content = some bytes := by
  rcases h with h | h
  · have hu : u.Settled target := by
      refine ⟨?_, fun f hf => hsettled.content f ?_⟩
      · rw [h.disk, h.live target hne.symm]
        exact hsettled.entry
      · rw [← h.live target hne.symm]
        exact hf
    rw [hu.afterLoss hleft, h.live target hne.symm]
    exact Or.inl rfl
  · have hnew : Volume.Left (u.live target) left → left.map Volume.File.content = some bytes := by
      intro hl
      rw [hl.eq (fun f hf => by rw [h.there] at hf; cases hf; rfl), h.there]
      rfl
    rcases hleft with hl | hl
    · exact Or.inr (hnew hl)
    · rcases h.disk target with hd | hd
      · rw [hd, hsettled.entry] at hl
        rw [hl.eq hsettled.content]
        exact Or.inl rfl
      · rw [hd] at hl
        exact Or.inr (hnew hl)

/-- A call on a path without a file name does nothing. -/
theorem writeWith_unnamed (h : path.fileName = none) : writeWith v pid seq path bytes opts faults = ⟨false, [], v⟩ := by
  unfold writeWith
  rw [h]

theorem target_old_or_new (v : Disk) (pid seq : Nat) (path : Path) (bytes : Bytes) (opts : DurableOpts) (faults : Faults) :
    let o := writeWith v pid seq path bytes opts faults
    (∀ u ∈ o.volumes, u.read path.entry = v.read path.entry ∨ u.read path.entry = some bytes) ∧
      (o.ok = true → o.final.read path.entry = some bytes) := by
  intro o
  cases hname : path.fileName with
  | none =>
    have ho : o = ⟨false, [], v⟩ := writeWith_unnamed hname
    rw [ho]
    refine ⟨fun u hu => ?_, nofun⟩
    rw [List.mem_singleton.1 hu]
    exact Or.inl rfl
  | some fileName =>
    obtain ⟨hvolumes, hok, -⟩ := writeWith_cases v pid seq bytes opts faults hname
    refine ⟨fun u hu => read_cases (tmp_ne_target hname) (hvolumes u hu), fun h => ?_⟩
    unfold Volume.read
    rw [(hok h).1.there]
    rfl

/-- **A durable write is atomic.** Whatever fails, and wherever the process stops, the target holds what it held or the new
bytes; a call that succeeds leaves the new ones. A power loss changes nothing of that, and once the directory is synced the
new bytes stay. No other file is touched, the temporary one is gone unless its removal fails, and if it stays no later
call, not even one that gets the same temporary name, publishes anything but its own bytes. -/
theorem writeWith_atomic (v : Disk) (pid seq : Nat) (path : Path) (bytes : Bytes) (opts : DurableOpts) (faults : Faults) :
    let o := writeWith v pid seq path bytes opts faults
    ((∀ u ∈ o.volumes, u.read path.entry = v.read path.entry ∨ u.read path.entry = some bytes) ∧
      (o.ok = true → o.final.read path.entry = some bytes)) ∧
    (v.Settled path.entry → ∀ u ∈ o.volumes, ∀ left, u.AfterLoss path.entry left →
      left.map Volume.File.content = v.read path.entry ∨ left.map Volume.File.content = some bytes) ∧
    (o.ok = true → faults.syncDir = true → ∀ left, o.final.AfterLoss path.entry left →
      left.map Volume.File.content = some bytes) ∧
    (∀ u ∈ o.volumes, ∀ k, k ≠ path.entry →
      (∀ fileName ∈ path.fileName, k ≠ (tmpPath path fileName pid seq).entry) → u.live k = v.live k) ∧
    (o.ok = true ∨ faults.cleanup = true → ∀ fileName ∈ path.fileName,
      o.final.live (tmpPath path fileName pid seq).entry = none) ∧
    ∀ u ∈ o.volumes, ∀ pid' seq' path' bytes' opts' faults',
      let o' := writeWith u pid' seq' path' bytes' opts' faults'
      (∀ u' ∈ o'.volumes, u'.read path'.entry = u.read path'.entry ∨ u'.read path'.entry = some bytes') ∧
        (o'.ok = true → o'.final.read path'.entry = some bytes') := by
  intro o
  refine ⟨target_old_or_new v pid seq path bytes opts faults, ?_⟩
  have hlater : ∀ u ∈ o.volumes, ∀ pid' seq' path' bytes' opts' faults',
      let o' := writeWith u pid' seq' path' bytes' opts' faults'
      (∀ u' ∈ o'.volumes, u'.read path'.entry = u.read path'.entry ∨ u'.read path'.entry = some bytes') ∧
        (o'.ok = true → o'.final.read path'.entry = some bytes') :=
    fun u _ pid' seq' path' bytes' opts' faults' => target_old_or_new u pid' seq' path' bytes' opts' faults'
  cases hname : path.fileName with
  | none =>
    have ho : o = ⟨false, [], v⟩ := writeWith_unnamed hname
    have hvolumes : ∀ u ∈ o.volumes, u = v := by
      intro u hu
      rw [ho] at hu
      exact List.mem_singleton.1 hu
    refine ⟨?_, ?_, ?_, nofun, hlater⟩
    · intro hsettled u hu left hleft
      rw [hvolumes u hu] at hleft
      rw [hsettled.afterLoss hleft]
      exact Or.inl rfl
    · intro hok
      rw [ho] at hok
      cases hok
    · intro u hu k _ _
      rw [hvolumes u hu]
  | some fileName =>
    obtain ⟨hvolumes, hok, hfail⟩ := writeWith_cases v pid seq bytes opts faults hname
    have hne : (tmpPath path fileName pid seq).entry ≠ path.entry := tmp_ne_target hname
    refine ⟨?_, ?_, ?_, ?_, hlater⟩
    · intro hsettled u hu left hleft
      exact afterLoss_cases hne hsettled (hvolumes u hu) hleft
    · intro h hsync left hleft
      obtain ⟨hfinal, hdisk⟩ := hok h
      have hsettled : o.final.Settled path.entry := by
        refine ⟨hdisk hsync, fun f hf => ?_⟩
        rw [hfinal.there] at hf
        cases hf
        rfl
      rw [hsettled.afterLoss hleft, hfinal.there]
      rfl
    · intro u hu k hk htmp
      have htmp : k ≠ (tmpPath path fileName pid seq).entry := htmp fileName rfl
      rcases hvolumes u hu with h | h
      · exact h.live k htmp
      · exact h.live k htmp hk
    · intro hor name hn
      cases hn
      cases hres : o.ok with
      | true => exact (hok hres).1.gone
      | false =>
        rcases hor with h | h
        · rw [hres] at h
          cases h
        · exact hfail hres h

end Busbar.Durable
