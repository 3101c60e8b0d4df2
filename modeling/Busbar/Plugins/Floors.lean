import Busbar.Plugins.Binding

/-!
# Version floors

A verdict is given only above every floor that applies to the manifest, and tightening the policy takes verdicts away
only. The comparison reads a number that does not fit in 64 bits as zero, with all numbers after it: a floor of such a
number is no floor.

* `semver_iff`: the check of a floor accepts the `MAJOR.MINOR.PATCH` texts, with any suffix.
* `evades_iff`: which versions below a floor pass it.
* `verdict_of_tightened`: a verdict under a tighter policy is one under the policy.
* `floors_exact_iff`: the floors are exact if no version evades one.
-/

namespace Busbar.Plugins

/-! ## Exact versions -/

/-- The numbers of a version, of any size. -/
def exactVersion (v : String) : List Nat := components parseNat 3 (versionParts v)

/-- The part is a numeral. -/
def IsNumeral (p : List Char) : Prop := p ≠ [] ∧ ∀ c ∈ p, c.isDigit = true

/-- The text is `MAJOR.MINOR.PATCH`, perhaps with a suffix, and has these numbers. -/
def Semver (v : String) (triple : List Nat) : Prop :=
  ∃ major minor patch suffix : List Char, v.toList = major ++ '.' :: (minor ++ '.' :: patch) ++ suffix ∧
    IsNumeral major ∧ IsNumeral minor ∧ IsNumeral patch ∧ (∀ c ∈ suffix.head?, c = '-' ∨ c = '+') ∧
    triple = [numeral major, numeral minor, numeral patch]

/-- From the first number on that does not fit, all are zero. -/
def clip : List Nat → List Nat
  | [] => []
  | n :: ns => if n < 2 ^ 64 then n :: clip ns else List.replicate (ns.length + 1) 0

/-- The version agrees with the floor up to a number of the floor that does not fit, and is below it from there on. -/
def Evades (have_ floor : List Nat) : Prop :=
  ∃ pre a as b bs, have_ = pre ++ a :: as ∧ floor = pre ++ b :: bs ∧ (∀ n ∈ pre, n < 2 ^ 64) ∧ 2 ^ 64 ≤ b ∧
    lexLe (b :: bs) (a :: as) = false

theorem clip_cons {n : Nat} (hn : n < 2 ^ 64) (ns : List Nat) : clip (n :: ns) = n :: clip ns := by
  conv_lhs => unfold clip
  rw [if_pos hn]

theorem clip_cons_large {n : Nat} (hn : ¬ n < 2 ^ 64) (ns : List Nat) : clip (n :: ns) = List.replicate (ns.length + 1) 0 := by
  unfold clip
  rw [if_neg hn]

theorem clip_zeros (n : Nat) : clip (List.replicate n 0) = List.replicate n 0 := by
  induction n with
  | zero => rfl
  | succ n ih =>
    rw [List.replicate_succ, clip_cons (by decide), ih]

theorem length_clip (l : List Nat) : (clip l).length = l.length := by
  induction l with
  | nil => rfl
  | cons a l ih =>
    by_cases ha : a < 2 ^ 64
    · rw [clip_cons ha]
      exact congrArg (· + 1) ih
    · rw [clip_cons_large ha]
      exact List.length_replicate

/-- The comparison reads versions clipped. -/
theorem components_parseU64 (n : Nat) (ps : List (List Char)) :
    components parseU64 n ps = clip (components parseNat n ps) := by
  induction n generalizing ps with
  | zero => rfl
  | succ n ih =>
    cases ps with
    | nil =>
      have hcons : ∀ parse, components parse (n + 1) [] = 0 :: components parse n [] := fun parse => rfl
      rw [hcons, hcons, ih, clip_cons (by decide)]
    | cons p ps =>
      cases hparse : parseNat p with
      | none =>
        have hsixty : parseU64 p = none := by
          unfold parseU64
          rw [hparse, Option.filter_none]
        unfold components
        rw [hsixty, hparse]
        exact (clip_zeros (n + 1)).symm
      | some k =>
        have hsixty : parseU64 p = if k < 2 ^ 64 then some k else none := by
          unfold parseU64
          rw [hparse, Option.filter_some]
          simp
        unfold components
        rw [hsixty, hparse]
        dsimp only
        by_cases hk : k < 2 ^ 64
        · rw [if_pos hk, clip_cons hk]
          exact congrArg (k :: ·) (ih ps)
        · rw [if_neg hk, clip_cons_large hk, length_components]

theorem versionComponents_eq (v : String) : versionComponents v = clip (exactVersion v) := components_parseU64 3 _

/-- **Below a floor, and let through.** -/
theorem evades_iff {floor have_ : List Nat} (hlen : floor.length = have_.length) :
    lexLe (clip floor) (clip have_) = true ∧ lexLe floor have_ = false ↔ Evades have_ floor := by
  induction floor generalizing have_ with
  | nil =>
    constructor
    · rintro ⟨-, hno⟩
      cases hno
    · rintro ⟨pre, a, as, b, bs, -, hfloor, -⟩
      exact absurd hfloor (List.append_ne_nil_of_right_ne_nil pre (List.cons_ne_nil b bs)).symm
  | cons b bs ih =>
    cases have_ with
    | nil => cases hlen
    | cons a as =>
      have htail : bs.length = as.length := Nat.succ.inj hlen
      by_cases hb : b < 2 ^ 64
      · rw [clip_cons hb]
        -- the first difference is later in the list
        have hlater : a = b ∧ Evades as bs ↔ Evades (a :: as) (b :: bs) := by
          constructor
          · rintro ⟨rfl, pre, x, xs, y, ys, rfl, rfl, hpre, hy, hno⟩
            refine ⟨a :: pre, x, xs, y, ys, rfl, rfl, ?_, hy, hno⟩
            intro n hn
            rcases List.mem_cons.1 hn with rfl | hn
            · exact hb
            · exact hpre n hn
          · rintro ⟨pre, x, xs, y, ys, hhave, hfloor, hpre, hy, hno⟩
            cases pre with
            | nil =>
              obtain ⟨rfl, rfl⟩ := List.cons.inj hfloor
              omega
            | cons n pre =>
              obtain ⟨rfl, rfl⟩ := List.cons.inj hhave
              obtain ⟨rfl, rfl⟩ := List.cons.inj hfloor
              exact ⟨rfl, pre, x, xs, y, ys, rfl, rfl, fun m hm => hpre m (List.mem_cons_of_mem _ hm), hy, hno⟩
        rw [← hlater, ← ih htail, Bool.eq_false_iff, Bool.eq_false_iff, ne_eq, ne_eq, lexLe_cons]
        by_cases ha : a < 2 ^ 64
        · rw [clip_cons ha, lexLe_cons]
          constructor
          · rintro ⟨hle, hno⟩
            rcases hle with hlt | ⟨rfl, hle⟩
            · exact absurd (Or.inl hlt) hno
            · exact ⟨rfl, hle, fun h => hno (Or.inr ⟨rfl, h⟩)⟩
          · rintro ⟨rfl, hle, hno⟩
            refine ⟨Or.inr ⟨rfl, hle⟩, ?_⟩
            rintro (hlt | ⟨-, h⟩)
            · omega
            · exact hno h
        · -- the version has the number that does not fit, so it is above the floor
          constructor
          · rintro ⟨-, hno⟩
            exact absurd (Or.inl (by omega)) hno
          · rintro ⟨rfl, -⟩
            exact absurd hb ha
      · have hclip : clip (b :: bs) = List.replicate (clip (a :: as)).length 0 := by
          rw [clip_cons_large hb, htail, length_clip, List.length_cons]
        rw [hclip]
        constructor
        · rintro ⟨-, hno⟩
          exact ⟨[], a, as, b, bs, rfl, rfl, fun n hn => absurd hn List.not_mem_nil, by omega, hno⟩
        · rintro ⟨pre, x, xs, y, ys, hhave, hfloor, hpre, hy, hno⟩
          refine ⟨zeros_lexLe _, ?_⟩
          cases pre with
          | nil =>
            rw [hhave, hfloor]
            exact hno
          | cons n pre =>
            obtain ⟨rfl, -⟩ := List.cons.inj hfloor
            exact absurd (hpre b List.mem_cons_self) hb

/-! ## The check of a floor -/

/-- Spaces are cut off at the end of a text up to the last character that is none. -/
theorem rdropWhile_append {c : Char} (hc : isWhitespace c = false) (x y : List Char) :
    ((x ++ c :: y).reverse.dropWhile isWhitespace).reverse = x ++ c :: (y.reverse.dropWhile isWhitespace).reverse := by
  rw [List.reverse_append, List.reverse_cons, List.append_assoc, List.dropWhile_append]
  by_cases hy : (y.reverse.dropWhile isWhitespace).isEmpty = true
  · rw [if_pos hy, List.isEmpty_iff.1 hy]
    have hcons : [c] ++ x.reverse = c :: x.reverse := rfl
    rw [hcons, List.dropWhile_cons_of_neg (by rw [hc]; exact Bool.false_ne_true)]
    simp
  · rw [if_neg hy]
    simp

theorem isWhitespace_of_isDigit {c : Char} (h : c.isDigit = true) : isWhitespace c = false := by
  obtain ⟨hlow, hhigh⟩ : 48 ≤ c.toNat ∧ c.toNat ≤ 57 := by
    unfold Char.isDigit at h
    rw [Bool.and_eq_true, decide_eq_true_eq, decide_eq_true_eq] at h
    exact h
  unfold isWhitespace
  dsimp only
  simp only [Bool.or_eq_false_iff, Bool.and_eq_false_iff, decide_eq_false_iff_not]
  omega

/-- The text splits before the first sign. -/
theorem core_append_suffix (v : List Char) : ∃ suffix, v = core v ++ suffix ∧ ∀ c ∈ suffix.head?, c = '-' ∨ c = '+' := by
  refine ⟨v.dropWhile (fun c => c ≠ '-' && c ≠ '+'), List.takeWhile_append_dropWhile.symm, ?_⟩
  intro c hc
  have hhead := List.head?_dropWhile_not (fun c => c ≠ '-' && c ≠ '+') v
  rw [Option.mem_def.1 hc] at hhead
  dsimp only at hhead
  by_contra hno
  rw [not_or] at hno
  simp [hno.1, hno.2] at hhead

theorem core_eq {body suffix : List Char} (hbody : ∀ c ∈ body, c ≠ '-' ∧ c ≠ '+')
    (hsuffix : ∀ c ∈ suffix.head?, c = '-' ∨ c = '+') : core (body ++ suffix) = body := by
  unfold core
  rw [List.takeWhile_append_of_pos (fun c hc => by simp [hbody c hc])]
  cases suffix with
  | nil => exact List.append_nil body
  | cons c suffix =>
    rw [List.takeWhile_cons_of_neg, List.append_nil]
    rcases hsuffix c (Option.mem_def.2 rfl) with rfl | rfl <;> decide

/-- Spaces around a version are not part of its numbers. -/
theorem core_trim {v : String} {body suffix : List Char} (hv : v.toList = body ++ suffix) (hne : body ≠ [])
    (hbody : ∀ c ∈ body, c ≠ '-' ∧ c ≠ '+' ∧ isWhitespace c = false) (hsuffix : ∀ c ∈ suffix.head?, c = '-' ∨ c = '+') :
    core (trim v).toList = body := by
  have hplain : ∀ c ∈ body, c ≠ '-' ∧ c ≠ '+' := fun c hc => ⟨(hbody c hc).1, (hbody c hc).2.1⟩
  unfold trim
  rw [String.toList_ofList, hv]
  -- nothing is cut off in front
  have hfront : (body ++ suffix).dropWhile isWhitespace = body ++ suffix := by
    cases body with
    | nil => exact absurd rfl hne
    | cons c body =>
      have hc := (hbody c List.mem_cons_self).2.2
      exact List.dropWhile_cons_of_neg (by rw [hc]; exact Bool.false_ne_true)
  rw [hfront]
  cases suffix with
  | nil =>
    obtain ⟨x, c, rfl⟩ : ∃ x c, body = x ++ [c] := ⟨_, _, (List.dropLast_append_getLast hne).symm⟩
    have hc := (hbody c (List.mem_append_right x List.mem_cons_self)).2.2
    rw [List.append_nil, rdropWhile_append hc]
    have hcore := core_eq hplain hsuffix
    rw [List.append_nil] at hcore
    exact hcore
  | cons c suffix =>
    have hsign := hsuffix c (Option.mem_def.2 rfl)
    have hc : isWhitespace c = false := by
      rcases hsign with rfl | rfl <;> decide
    rw [rdropWhile_append hc]
    refine core_eq hplain ?_
    intro d hd
    obtain rfl := Option.some.inj hd
    exact hsign

section Triple

variable {major minor patch suffix : List Char} {v : String}

theorem IsNumeral.notMem {p : List Char} (h : IsNumeral p) {c : Char} (hc : c.isDigit = false) : c ∉ p := by
  intro hmem
  rw [h.2 c hmem] at hc
  cases hc

theorem IsNumeral.parse {p : List Char} (h : IsNumeral p) : parseNat p = some (numeral p) := by
  have hhead : p.head? ≠ some '+' := fun hplus => h.notMem (by decide) (List.mem_of_mem_head? hplus)
  unfold parseNat
  rw [if_neg hhead]
  dsimp only
  rw [if_pos ⟨h.1, List.all_eq_true.2 h.2⟩]

theorem segments_triple (hmajor : IsNumeral major) (hminor : IsNumeral minor) (hpatch : IsNumeral patch) :
    Fields.segments '.' (major ++ '.' :: (minor ++ '.' :: patch)) = [major, minor, patch] := by
  rw [Fields.segments_append, Fields.segments_append, Fields.segments_of_notMem (hmajor.notMem (by decide)),
    Fields.segments_of_notMem (hminor.notMem (by decide)), Fields.segments_of_notMem (hpatch.notMem (by decide))]
  rfl

theorem plain_triple (hmajor : IsNumeral major) (hminor : IsNumeral minor) (hpatch : IsNumeral patch) :
    ∀ c ∈ major ++ '.' :: (minor ++ '.' :: patch), c ≠ '-' ∧ c ≠ '+' ∧ isWhitespace c = false := by
  have hdigit : ∀ {p : List Char}, IsNumeral p → ∀ c ∈ p, c ≠ '-' ∧ c ≠ '+' ∧ isWhitespace c = false := by
    intro p hp c hc
    refine ⟨?_, ?_, isWhitespace_of_isDigit (hp.2 c hc)⟩
    · rintro rfl
      exact hp.notMem (by decide) hc
    · rintro rfl
      exact hp.notMem (by decide) hc
  intro c hc
  simp only [List.mem_append, List.mem_cons] at hc
  rcases hc with hc | rfl | hc | rfl | hc
  · exact hdigit hmajor c hc
  · decide
  · exact hdigit hminor c hc
  · decide
  · exact hdigit hpatch c hc

/-- A version of this form is read as its three numbers. -/
theorem exactVersion_triple (hv : v.toList = major ++ '.' :: (minor ++ '.' :: patch) ++ suffix) (hmajor : IsNumeral major)
    (hminor : IsNumeral minor) (hpatch : IsNumeral patch) (hsuffix : ∀ c ∈ suffix.head?, c = '-' ∨ c = '+') :
    exactVersion v = [numeral major, numeral minor, numeral patch] := by
  have hne : major ++ '.' :: (minor ++ '.' :: patch) ≠ [] :=
    List.append_ne_nil_of_right_ne_nil _ (List.cons_ne_nil _ _)
  have hcons : ∀ {p : List Char} (n : Nat) (ps : List (List Char)), IsNumeral p →
      components parseNat (n + 1) (p :: ps) = numeral p :: components parseNat n ps := by
    intro p n ps hp
    conv_lhs => unfold components
    rw [hp.parse]
  unfold exactVersion versionParts
  rw [core_trim hv hne (plain_triple hmajor hminor hpatch) hsuffix, segments_triple hmajor hminor hpatch,
    hcons 2 _ hmajor, hcons 1 _ hminor, hcons 0 _ hpatch]
  rfl

end Triple

/-- **Well-formed floors.** The check accepts them, and their numbers are those of the comparison. -/
theorem semver_iff {v : String} {triple : List Nat} :
    Semver v triple ↔ validSemver v = true ∧ exactVersion v = triple := by
  constructor
  · rintro ⟨major, minor, patch, suffix, hv, hmajor, hminor, hpatch, hsuffix, rfl⟩
    refine ⟨?_, exactVersion_triple hv hmajor hminor hpatch hsuffix⟩
    have hplain := plain_triple hmajor hminor hpatch
    have hcore : core v.toList = major ++ '.' :: (minor ++ '.' :: patch) := by
      rw [hv]
      exact core_eq (fun c hc => ⟨(hplain c hc).1, (hplain c hc).2.1⟩) hsuffix
    have hall : ∀ p ∈ [major, minor, patch], (!p.isEmpty && p.all Char.isDigit) = true := by
      have hpart : ∀ {p : List Char}, IsNumeral p → (!p.isEmpty && p.all Char.isDigit) = true := by
        intro p hp
        rw [List.all_eq_true.2 hp.2, Bool.and_true, Bool.not_eq_true', List.isEmpty_eq_false_iff]
        exact hp.1
      intro p hp
      simp only [List.mem_cons, List.not_mem_nil, or_false] at hp
      rcases hp with rfl | rfl | rfl
      · exact hpart hmajor
      · exact hpart hminor
      · exact hpart hpatch
    unfold validSemver
    rw [hcore, segments_triple hmajor hminor hpatch, Bool.and_eq_true]
    exact ⟨rfl, List.all_eq_true.2 hall⟩
  · rintro ⟨hvalid, rfl⟩
    obtain ⟨suffix, hv, hsuffix⟩ := core_append_suffix v.toList
    unfold validSemver at hvalid
    rw [Bool.and_eq_true, decide_eq_true_eq, List.all_eq_true] at hvalid
    obtain ⟨hlen, hall⟩ := hvalid
    obtain ⟨major, minor, patch, hsegments⟩ := List.length_eq_three.1 hlen
    have hjoin := Fields.join_segments '.' (core v.toList)
    rw [hsegments] at hjoin hall
    have hbody : core v.toList = major ++ '.' :: (minor ++ '.' :: patch) := by
      rw [← hjoin]
      unfold Fields.join
      simp
    have hpart : ∀ p ∈ [major, minor, patch], IsNumeral p := by
      intro p hp
      have h := hall p hp
      rw [Bool.and_eq_true, Bool.not_eq_true', List.isEmpty_eq_false_iff] at h
      exact ⟨h.1, List.all_eq_true.1 h.2⟩
    have hmajor := hpart major (by simp)
    have hminor := hpart minor (by simp)
    have hpatch := hpart patch (by simp)
    rw [hbody] at hv
    exact ⟨major, minor, patch, suffix, hv, hmajor, hminor, hpatch, hsuffix,
      exactVersion_triple hv hmajor hminor hpatch hsuffix⟩

/-- **The comparison.** A floor admits a version if it is one and is not above it, both clipped. -/
theorem versionAtLeast_iff {v floor : String} (hne : floor ≠ "") : versionAtLeast v floor = true ↔
    ∃ triple, Semver floor triple ∧ lexLe (clip triple) (clip (exactVersion v)) = true := by
  unfold versionAtLeast
  rw [versionComponents_eq, versionComponents_eq]
  by_cases hvalid : validSemver floor = true
  · rw [if_neg (fun h => by rw [hvalid] at h; cases h.2)]
    constructor
    · intro hle
      exact ⟨_, semver_iff.2 ⟨hvalid, rfl⟩, hle⟩
    · rintro ⟨triple, hfloor, hle⟩
      obtain ⟨-, rfl⟩ := semver_iff.1 hfloor
      exact hle
  · rw [if_pos ⟨hne, Bool.eq_false_iff.2 hvalid⟩]
    constructor
    · intro hno
      cases hno
    · rintro ⟨triple, hfloor, -⟩
      exact absurd (semver_iff.1 hfloor).1 hvalid

/-! ## Tighter policies -/

variable {lib : PluginLib} {bytes : Bytes} {manifest : Manifest} {policy policy' : TrustPolicy}

/-- The keys are kept, flags are only cleared, and floors are only added. -/
structure Tightened (policy policy' : TrustPolicy) : Prop where
  firstPartyKey : policy'.firstPartyKey = policy.firstPartyKey
  publishers : ∀ publisher, policy'.publishers.lookup publisher = policy.publishers.lookup publisher
  allowUnsigned : policy'.allowUnsigned = true → policy.allowUnsigned = true
  allowThirdParty : policy'.allowThirdParty = true → policy.allowThirdParty = true
  firstPartyFloors : ∀ name floor, policy.firstPartyFloors.lookup name = some floor →
    policy'.firstPartyFloors.lookup name = some floor
  minVersions : ∀ name floor, policy.minVersions.lookup name = some floor → policy'.minVersions.lookup name = some floor

/-- Trust hangs on the keys. -/
theorem Tightened.trust_eq (h : Tightened policy policy') :
    trust lib bytes manifest policy' = trust lib bytes manifest policy := by
  unfold trust
  rw [h.firstPartyKey, h.publishers]

/-- **Tightening refuses more.** A verdict under the tighter policy is given under the policy as well. -/
theorem verdict_of_tightened (h : Tightened policy policy') {v : Verdict}
    (hv : evaluate lib bytes manifest policy' = .ok v) : evaluate lib bytes manifest policy = .ok v := by
  obtain ⟨hfirst, hmin, hresolve⟩ := evaluate_ok.1 hv
  rw [h.trust_eq] at hfirst hmin hresolve
  rw [minVersionCheck_ok] at hmin
  refine evaluate_ok.2 ⟨?_, minVersionCheck_ok.2 fun floor hlookup => hmin floor (h.minVersions _ _ hlookup), ?_⟩
  · cases htrust : trust lib bytes manifest policy with
    | error u => rfl
    | ok firstParty =>
      rw [htrust, firstPartyCheck_ok] at hfirst
      exact firstPartyCheck_ok.2 fun hfp floor hlookup => hfirst hfp floor (h.firstPartyFloors _ _ hlookup)
  · cases htrust : trust lib bytes manifest policy with
    | ok firstParty =>
      rw [htrust] at hresolve
      exact hresolve
    | error u =>
      -- what let the artifact in is a flag that the policy has too
      rw [htrust] at hresolve
      unfold resolve at hresolve ⊢
      cases u with
      | unsigned reason tampered =>
        dsimp only at hresolve ⊢
        by_cases hflag : policy'.allowUnsigned = true
        · rw [if_pos hflag] at hresolve
          rw [if_pos (h.allowUnsigned hflag), hresolve]
        · rw [if_neg hflag] at hresolve
          cases hresolve
      | thirdParty publisher =>
        dsimp only at hresolve ⊢
        by_cases hflag : policy'.allowThirdParty = true
        · rw [if_pos hflag] at hresolve
          rw [if_pos (h.allowThirdParty hflag), hresolve]
        · rw [if_neg hflag] at hresolve
          cases hresolve

/-! ## Exact floors -/

/-- The floor is a version, and this one is not below it. -/
def Meets (v floor : String) : Prop := ∃ triple, Semver floor triple ∧ lexLe triple (exactVersion v) = true

/-- The floors of a policy hold for a plugin, and tightening the policy gives it no verdict. -/
structure FloorsExact (lib : PluginLib) (bytes : Bytes) (manifest : Manifest) (policy : TrustPolicy) : Prop where
  pinned : ∀ v floor, evaluate lib bytes manifest policy = .ok v → policy.minVersions.lookup manifest.name = some floor →
    floor ≠ "" → Meets manifest.version floor ∧ ∃ key, VerifiedBy lib bytes manifest policy key
  firstParty : ∀ v floor key, evaluate lib bytes manifest policy = .ok v → VerifiedBy lib bytes manifest policy key →
    manifest.publisher = firstPartyPublisher → policy.firstPartyFloors.lookup manifest.name = some floor →
    floor ≠ "" → Meets manifest.version floor
  tightened : ∀ policy', Tightened policy policy' → ∀ e, evaluate lib bytes manifest policy = .error e →
    ∃ e', evaluate lib bytes manifest policy' = .error e'

/-- A trusted key has verified the manifest, no floor is above its version as clipped, and the version evades one. -/
def Evaded (lib : PluginLib) (bytes : Bytes) (manifest : Manifest) (policy : TrustPolicy) : Prop :=
  (∃ key, VerifiedBy lib bytes manifest policy key) ∧
  (∀ floor ∈ floorsOn manifest policy,
    ∃ triple, Semver floor triple ∧ lexLe (clip triple) (clip (exactVersion manifest.version)) = true) ∧
  ∃ floor ∈ floorsOn manifest policy, ∃ triple, Semver floor triple ∧ Evades (exactVersion manifest.version) triple

/-- A version that a floor admits meets it or evades it. -/
theorem Semver.meets_or_evades {v floor : String} {triple : List Nat} (hfloor : Semver floor triple)
    (hle : lexLe (clip triple) (clip (exactVersion v)) = true) : Meets v floor ∨ Evades (exactVersion v) triple := by
  by_cases hexact : lexLe triple (exactVersion v) = true
  · exact Or.inl ⟨triple, hfloor, hexact⟩
  · refine Or.inr ((evades_iff ?_).1 ⟨hle, Bool.eq_false_iff.2 hexact⟩)
    rw [← (semver_iff.1 hfloor).2]
    unfold exactVersion
    rw [length_components, length_components]

/-- A version that evades a floor does not meet it. -/
theorem Semver.not_meets {v floor : String} {triple : List Nat} (hfloor : Semver floor triple)
    (hevades : Evades (exactVersion v) triple) : ¬ Meets v floor := by
  rintro ⟨triple', hfloor', hle⟩
  obtain ⟨-, rfl⟩ := semver_iff.1 hfloor
  obtain ⟨-, rfl⟩ := semver_iff.1 hfloor'
  have hlen : (exactVersion floor).length = (exactVersion v).length := by
    unfold exactVersion
    rw [length_components, length_components]
  rw [((evades_iff hlen).2 hevades).2] at hle
  cases hle

/-- If no floor is evaded, what has a verdict meets its floors. -/
theorem meets_of_verdict {key : VerifyingKey} {v : Verdict} (hno : ¬ Evaded lib bytes manifest policy)
    (h : VerifiedBy lib bytes manifest policy key) (hv : evaluate lib bytes manifest policy = .ok v) {floor : String}
    (hfloor : floor ∈ floorsOn manifest policy) : Meets manifest.version floor := by
  obtain ⟨hadmitted, -⟩ := (evaluate_verified h).1 hv
  have hclipped : ∀ floor ∈ floorsOn manifest policy,
      ∃ triple, Semver floor triple ∧ lexLe (clip triple) (clip (exactVersion manifest.version)) = true := by
    intro floor hfloor
    exact (versionAtLeast_iff (mem_floorsOn.1 hfloor).2).1 (hadmitted floor hfloor)
  obtain ⟨triple, hsemver, hle⟩ := hclipped floor hfloor
  rcases hsemver.meets_or_evades hle with hmeets | hevades
  · exact hmeets
  · exact absurd ⟨⟨key, h⟩, hclipped, floor, hfloor, triple, hsemver, hevades⟩ hno

/-- An evaded floor does not keep the verdict back. -/
theorem evaluate_of_evaded (h : Evaded lib bytes manifest policy) : ∃ v floor key,
    evaluate lib bytes manifest policy = .ok v ∧ VerifiedBy lib bytes manifest policy key ∧
      floor ∈ floorsOn manifest policy ∧ ¬ Meets manifest.version floor := by
  obtain ⟨⟨key, hkey⟩, hclipped, floor, hfloor, triple, hsemver, hevades⟩ := h
  have hadmitted : ∀ floor ∈ floorsOn manifest policy, versionAtLeast manifest.version floor = true :=
    fun floor hfloor => (versionAtLeast_iff (mem_floorsOn.1 hfloor).2).2 (hclipped floor hfloor)
  exact ⟨_, floor, key, (evaluate_verified hkey).2 ⟨hadmitted, rfl⟩, hkey, hfloor, hsemver.not_meets hevades⟩

/-- Tightening the policy gives no verdict, whatever the floors are. -/
theorem rejected_of_tightened (h : Tightened policy policy') {e : Rejected}
    (he : evaluate lib bytes manifest policy = .error e) : ∃ e', evaluate lib bytes manifest policy' = .error e' := by
  cases heval : evaluate lib bytes manifest policy' with
  | error e' => exact ⟨e', rfl⟩
  | ok v =>
    rw [verdict_of_tightened h heval] at he
    cases he

/-- A verdict for a plugin with a configured floor is trust. -/
theorem verified_of_floor {v : Verdict} {floor : String} (hv : evaluate lib bytes manifest policy = .ok v)
    (hlookup : policy.minVersions.lookup manifest.name = some floor) : ∃ key, VerifiedBy lib bytes manifest policy key := by
  obtain ⟨-, hmin, -⟩ := evaluate_ok.1 hv
  obtain ⟨⟨firstParty, htrust⟩, -⟩ := minVersionCheck_ok.1 hmin floor hlookup
  exact (trust_ok.1 htrust).1

theorem FloorsExact.not_evaded (h : FloorsExact lib bytes manifest policy) : ¬ Evaded lib bytes manifest policy := by
  intro hevaded
  obtain ⟨v, floor, key, hv, hkey, hfloor, hno⟩ := evaluate_of_evaded hevaded
  obtain ⟨⟨hpub, hlookup⟩ | hlookup, hne⟩ := mem_floorsOn.1 hfloor
  · exact hno (h.firstParty v floor key hv hkey hpub hlookup hne)
  · exact hno (h.pinned v floor hv hlookup hne).1

/-- **When floors are exact.** They are unless the version evades one of them. -/
theorem floors_exact_iff (lib : PluginLib) (bytes : Bytes) (manifest : Manifest) (policy : TrustPolicy) :
    FloorsExact lib bytes manifest policy ↔ ¬ Evaded lib bytes manifest policy := by
  constructor
  · exact FloorsExact.not_evaded
  · intro hno
    refine ⟨?_, ?_, fun policy' htight e he => rejected_of_tightened htight he⟩
    · intro v floor hv hlookup hne
      obtain ⟨key, hkey⟩ := verified_of_floor hv hlookup
      exact ⟨meets_of_verdict hno hkey hv (mem_floorsOn.2 ⟨Or.inr hlookup, hne⟩), key, hkey⟩
    · intro v floor key hv hkey hpub hlookup hne
      exact meets_of_verdict hno hkey hv (mem_floorsOn.2 ⟨Or.inl ⟨hpub, hlookup⟩, hne⟩)

namespace Sample

/-- A floor whose first number is 2⁶⁴. -/
def largeFloor : String := "18446744073709551616.0.0"

def floored : TrustPolicy := allowing (Table.insert "busbar-store-valkey-plugin" largeFloor Registry.empty)

theorem evaded : Evaded verifier library signed floored := by
  have hsemver : Semver largeFloor [2 ^ 64, 0, 0] := semver_iff.2 ⟨by decide +kernel, by decide +kernel⟩
  have hversion : exactVersion signed.version = [1, 0, 0] := by decide +kernel
  have hfloors : floorsOn signed floored = [largeFloor] := by decide +kernel
  refine ⟨⟨publicKey, verifiedBy_signed _⟩, ?_, largeFloor, ?_, _, hsemver, ?_⟩
  · intro floor hfloor
    rw [hfloors, List.mem_singleton] at hfloor
    rw [hfloor, hversion]
    exact ⟨_, hsemver, by decide +kernel⟩
  · rw [hfloors]
    exact List.mem_cons_self
  · rw [hversion]
    exact ⟨[], 1, [0, 0], 2 ^ 64, [0, 0], rfl, rfl, fun n hn => absurd hn List.not_mem_nil, le_rfl, by decide +kernel⟩

end Sample

/-- A floor of 2⁶⁴ admits version 1.0.0. -/
theorem large_floor_evaded : ¬ ∀ (lib : PluginLib) (bytes : Bytes) (manifest : Manifest) (policy : TrustPolicy),
    FloorsExact lib bytes manifest policy :=
  fun hclaim => (hclaim Sample.verifier Sample.library Sample.signed Sample.floored).not_evaded Sample.evaded

end Busbar.Plugins
