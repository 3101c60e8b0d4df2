import Mathlib.Data.List.Basic

/-!
# Frames of a stream

A framer looks at the front of a buffer and sees a complete frame, the beginning of one, or something that
cannot begin a frame. What it sees must not change when more input arrives.

* `Framer.drain`: the complete frames of a buffer, and what is left of it.
* `Framer.drain_append`: draining a prefix first makes no difference.
* `Framer.drain_flatten`: the frames and the rest are the input, cut up.
* `Framer.drain_rest_nil_iff`: nothing is left over iff the input is a sequence of frames.
* `Framer.feedAll_eq_feed`: a reader fed chunk by chunk does what it does on the whole input.
-/

namespace Busbar

variable {α : Type*}

/-- What stands at the front of a buffer. -/
inductive Front (α : Type*) where
  | frame (f rest : List α)
  | malformed
  | more

structure Framer (α : Type*) where
  front : List α → Front α
  front_nil : front [] = .more
  split {b f r : List α} : front b = .frame f r → b = f ++ r ∧ f ≠ []
  whole {b f r : List α} : front b = .frame f r → front f = .frame f []
  frame_append {b f r : List α} (c : List α) : front b = .frame f r → front (b ++ c) = .frame f (r ++ c)
  malformed_append {b : List α} (c : List α) : front b = .malformed → front (b ++ c) = .malformed

namespace Framer

variable (F : Framer α)

theorem shorter {F : Framer α} {b f r : List α} (h : F.front b = .frame f r) : r.length < b.length := by
  obtain ⟨rfl, hne⟩ := F.split h
  have := List.length_pos_iff.2 hne
  rw [List.length_append]; omega

/-- The complete frames of a buffer, and the part of a frame left at its end: nothing at all once the input is
malformed. -/
def drain (b : List α) : List (List α) × Option (List α) :=
  match _h : F.front b with
  | .frame f r =>
    let t := drain r
    (f :: t.1, t.2)
  | .malformed => ([], none)
  | .more => ([], some b)
termination_by b.length
decreasing_by exact shorter _h

variable {F}

theorem drain_frame {b f r : List α} (h : F.front b = .frame f r) :
    F.drain b = (f :: (F.drain r).1, (F.drain r).2) := by
  rw [drain]; split <;> simp_all

theorem drain_malformed {b : List α} (h : F.front b = .malformed) : F.drain b = ([], none) := by
  rw [drain]; split <;> simp_all

theorem drain_more {b : List α} (h : F.front b = .more) : F.drain b = ([], some b) := by
  rw [drain]; split <;> simp_all

theorem drain_append (b c : List α) : F.drain (b ++ c) =
    match F.drain b with
    | (fs, none) => (fs, none)
    | (fs, some r) => (fs ++ (F.drain (r ++ c)).1, (F.drain (r ++ c)).2) := by
  induction b using drain.induct F with
  | case1 b f r h ih =>
    rw [drain_frame (F.frame_append c h), drain_frame h, ih]
    cases F.drain r with
    | mk fs o => cases o <;> rfl
  | case2 b h => rw [drain_malformed (F.malformed_append c h), drain_malformed h]
  | case3 b h => rw [drain_more h]; simp

/-- What is left over begins no complete frame. -/
theorem front_rest {b r : List α} (h : (F.drain b).2 = some r) : F.front r = .more := by
  induction b using drain.induct F with
  | case1 b f r' hf ih => rw [drain_frame hf] at h; exact ih h
  | case2 b hf => rw [drain_malformed hf] at h; cases h
  | case3 b hf => rw [drain_more hf] at h; cases h; exact hf

theorem drain_flatten {b r : List α} (h : (F.drain b).2 = some r) : (F.drain b).1.flatten ++ r = b := by
  induction b using drain.induct F with
  | case1 b f r' hf ih =>
    obtain ⟨rfl, -⟩ := F.split hf
    rw [drain_frame hf] at h ⊢
    rw [List.flatten_cons, List.append_assoc, ih h]
  | case2 b hf => rw [drain_malformed hf] at h; cases h
  | case3 b hf => rw [drain_more hf] at h ⊢; cases h; rfl

/-- Behind the drained frames stands the beginning of one, or what cannot begin one. -/
theorem drain_tail (b : List α) : ∃ tail, b = (F.drain b).1.flatten ++ tail ∧
    ((F.drain b).2 = some tail ∧ F.front tail = .more ∨ (F.drain b).2 = none ∧ F.front tail = .malformed) := by
  induction b using drain.induct F with
  | case1 b f r hf ih =>
    obtain ⟨tail, hr, htail⟩ := ih
    obtain ⟨rfl, -⟩ := F.split hf
    rw [drain_frame hf]
    refine ⟨tail, ?_, htail⟩
    rw [List.flatten_cons, List.append_assoc, ← hr]
  | case2 b hf =>
    rw [drain_malformed hf]
    exact ⟨b, rfl, Or.inr ⟨rfl, hf⟩⟩
  | case3 b hf =>
    rw [drain_more hf]
    exact ⟨b, rfl, Or.inl ⟨rfl, hf⟩⟩

theorem drain_rest_length {b r : List α} (h : (F.drain b).2 = some r) : r.length ≤ b.length := by
  rw [← drain_flatten h, List.length_append]; omega

variable (F) in
/-- A sequence of complete frames and nothing else. -/
def Framed (s : List α) : Prop := ∃ fs : List (List α), s = fs.flatten ∧ ∀ f ∈ fs, F.front f = .frame f []

theorem drain_of_frames {fs : List (List α)} (h : ∀ f ∈ fs, F.front f = .frame f []) :
    F.drain fs.flatten = (fs, some []) := by
  induction fs with
  | nil => exact drain_more F.front_nil
  | cons f fs ih =>
    have hf := F.frame_append fs.flatten (h f (List.mem_cons_self ..))
    rw [List.flatten_cons, drain_frame hf, List.nil_append, ih (fun g hg => h g (List.mem_cons_of_mem _ hg))]

theorem front_of_mem_drain {b f : List α} (h : f ∈ (F.drain b).1) : F.front f = .frame f [] := by
  induction b using drain.induct F with
  | case1 b g r hf ih =>
    rw [drain_frame hf, List.mem_cons] at h
    rcases h with rfl | h
    · exact F.whole hf
    · exact ih h
  | case2 b hf => rw [drain_malformed hf] at h; cases h
  | case3 b hf => rw [drain_more hf] at h; cases h

/-- **Nothing is left over iff the input is a sequence of frames.** -/
theorem drain_rest_nil_iff {s : List α} : (F.drain s).2 = some [] ↔ F.Framed s := by
  constructor
  · intro h
    exact ⟨(F.drain s).1, by rw [← List.append_nil (F.drain s).1.flatten, drain_flatten h],
      fun f hf => front_of_mem_drain hf⟩
  · rintro ⟨fs, rfl, h⟩
    rw [drain_of_frames h]

/-! ## A reader of frames -/

variable {σ γ : Type*} (on : σ → List α → σ × List γ)

/-- Handle the frames in turn, collecting what each gives out. -/
def consume (s : σ) : List (List α) → σ × List γ
  | [] => (s, [])
  | f :: fs =>
    let (s, out) := on s f
    let (s, outs) := consume s fs
    (s, out ++ outs)

theorem consume_append (s : σ) (fs gs : List (List α)) : consume on s (fs ++ gs) =
    ((consume on (consume on s fs).1 gs).1, (consume on s fs).2 ++ (consume on (consume on s fs).1 gs).2) := by
  induction fs generalizing s with
  | nil => simp [consume]
  | cons f fs ih => simp [consume, ih]

/-- Two readers of the same frames stay related if every frame keeps them so. -/
theorem consume_related {τ δ : Type*} {on : σ → List α → σ × List γ} {on' : τ → List α → τ × List δ}
    {R : σ → τ → Prop} (h : ∀ s t f, R s t → R (on s f).1 (on' t f).1) {s : σ} {t : τ} (hst : R s t)
    (fs : List (List α)) : R (consume on s fs).1 (consume on' t fs).1 := by
  induction fs generalizing s t with
  | nil => exact hst
  | cons f fs ih =>
    simp only [consume]
    exact ih (h s t f hst)

/-- A reader that gives every frame out as it came in gives out all of them. -/
theorem consume_verbatim {on : σ → List α → σ × List α} {I : σ → Prop}
    (h : ∀ s f, I s → (on s f).2 = f ∧ I (on s f).1) {s : σ} (hs : I s) (fs : List (List α)) :
    (consume on s fs).2 = fs.flatten := by
  induction fs generalizing s with
  | nil => rfl
  | cons f fs ih => simp only [consume, List.flatten_cons, (h s f hs).1, ih (h s f hs).2]

variable (F)

/-- Take in a chunk: append it to what is left over, and handle every complete frame. A reader that has met
malformed input ignores the rest. -/
def feed (st : σ × Option (List α)) (chunk : List α) : (σ × Option (List α)) × List γ :=
  match st with
  | (s, none) => ((s, none), [])
  | (s, some b) =>
    let (fs, o) := F.drain (b ++ chunk)
    let (s, out) := consume on s fs
    ((s, o), out)

theorem feed_some (s : σ) (b chunk : List α) : F.feed on (s, some b) chunk =
    (((consume on s (F.drain (b ++ chunk)).1).1, (F.drain (b ++ chunk)).2),
      (consume on s (F.drain (b ++ chunk)).1).2) := rfl

variable {F on} in
theorem feed_related {τ δ : Type*} {on' : τ → List α → τ × List δ} {R : σ → τ → Prop}
    (h : ∀ s t f, R s t → R (on s f).1 (on' t f).1) (st : σ × Option (List α)) (st' : τ × Option (List α))
    (hst : R st.1 st'.1) (hrest : st.2 = st'.2) (chunk : List α) :
    R (F.feed on st chunk).1.1 (F.feed on' st' chunk).1.1 ∧
      (F.feed on st chunk).1.2 = (F.feed on' st' chunk).1.2 := by
  obtain ⟨s, o⟩ := st
  obtain ⟨t, o'⟩ := st'
  cases hrest
  cases o with
  | none => exact ⟨hst, rfl⟩
  | some b => exact ⟨consume_related h hst _, rfl⟩

def feedAll (st : σ × Option (List α)) : List (List α) → (σ × Option (List α)) × List γ
  | [] => (st, [])
  | c :: cs =>
    let (st, out) := F.feed on st c
    let (st, outs) := feedAll st cs
    (st, out ++ outs)

variable {F on}

theorem feed_rest_length {st : σ × Option (List α)} {chunk rest : List α}
    (h : (F.feed on st chunk).1.2 = some rest) : ∃ b, st.2 = some b ∧ rest.length ≤ b.length + chunk.length := by
  obtain ⟨s, o⟩ := st
  cases o with
  | none => cases h
  | some b =>
    have := drain_rest_length h
    rw [List.length_append] at this
    exact ⟨b, rfl, this⟩

/-- Between chunks a reader holds no complete frame. -/
def Settled (F : Framer α) (st : σ × Option (List α)) : Prop := ∀ b, st.2 = some b → F.front b = .more

theorem feed_settled (st : σ × Option (List α)) (chunk : List α) : Settled F (F.feed on st chunk).1 := by
  obtain ⟨s, o⟩ := st
  cases o with
  | none => intro b h; cases h
  | some b => intro r h; exact front_rest h

theorem feed_append {st : σ × Option (List α)} (c d : List α) :
    F.feed on st (c ++ d) =
      ((F.feed on (F.feed on st c).1 d).1, (F.feed on st c).2 ++ (F.feed on (F.feed on st c).1 d).2) := by
  obtain ⟨s, o⟩ := st
  cases o with
  | none => rfl
  | some b =>
    simp only [feed, ← List.append_assoc, drain_append (b ++ c) d]
    cases F.drain (b ++ c) with
    | mk fs o =>
      cases o with
      | none => simp
      | some r => simp [consume_append]

theorem feed_nil {st : σ × Option (List α)} (h : Settled F st) : F.feed on st [] = (st, []) := by
  obtain ⟨s, o⟩ := st
  cases o with
  | none => rfl
  | some b => simp only [feed, List.append_nil, drain_more (h b rfl), consume]

/-- **Chunks make no difference.** -/
theorem feedAll_eq_feed {st : σ × Option (List α)} (h : Settled F st) (cs : List (List α)) :
    F.feedAll on st cs = F.feed on st cs.flatten := by
  induction cs generalizing st with
  | nil => exact (feed_nil h).symm
  | cons c cs ih => simp only [feedAll, ih (feed_settled st c), List.flatten_cons, feed_append]

end Framer

end Busbar
