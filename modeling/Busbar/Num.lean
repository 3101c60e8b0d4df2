import Busbar.Lib.Text
import Mathlib.Data.Int.Basic

/-!
# Machine arithmetic and the store's hash

The saturating and wrapping operations of the source's fixed-width counters, as functions on `Nat` and
`Int`, and the FNV-1a hash that spreads ids over shards.

* `satAdd_of_le`, `satAddSigned_of_le`: below the bound the saturating operations are exact.
-/

namespace Busbar

/-- Unsigned 64-bit counters saturate at this value. -/
def u64Max : Nat := 2 ^ 64 - 1

def i64Max : Int := 2 ^ 63 - 1

/-- `u64::saturating_add`. -/
def satAdd (a b : Nat) : Nat := min (a + b) u64Max

/-- `u64::saturating_mul`. -/
def satMul (a b : Nat) : Nat := min (a * b) u64Max

/-- `u64::saturating_add_signed`. -/
def satAddSigned (a : Nat) (d : Int) : Nat := min (a + d).toNat u64Max

/-- `AtomicU64::fetch_add(1)`, which wraps. -/
def wrapInc64 (n : Nat) : Nat := (n + 1) % 2 ^ 64

/-- `AtomicU32::fetch_add(1)`, which wraps. -/
def wrapInc32 (n : Nat) : Nat := (n + 1) % 2 ^ 32

def fnv1aOffsetBasis : Nat := 0xcbf29ce484222325

def fnv1aPrime : Nat := 0x00000100000001b3

/-- FNV-1a over a string's bytes. -/
def fnv1aU64 (s : String) : Nat :=
  (utf8 s).foldl (fun hash byte => (hash ^^^ byte.toNat) * fnv1aPrime % 2 ^ 64) fnv1aOffsetBasis

theorem satAdd_of_le {a b : Nat} (h : satAdd a b < u64Max) : satAdd a b = a + b := by
  unfold satAdd at h ⊢
  omega

theorem satAdd_le {a b c : Nat} (h : a + b ≤ c) : satAdd a b ≤ c := by
  unfold satAdd
  omega

theorem satAddSigned_of_le {a : Nat} {d : Int} {n : Nat} (hd : (a : Int) + d = n) (hn : n ≤ u64Max) :
    satAddSigned a d = n := by
  unfold satAddSigned
  omega

end Busbar
