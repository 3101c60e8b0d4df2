import Busbar.Lib.Text

/-!
# JSON values

The document type of the body paths, with the accessors they use, and the seam to the JSON library. The
library itself is outside the repository: `JsonLib` holds its parsers and its serializer.
-/

namespace Busbar

inductive JsonNumber where
  | posInt (n : Nat)
  | negInt (n : Int)
  | float (bits : UInt64)
  deriving DecidableEq, Repr

/-- A JSON document; the members of an object are kept sorted by key. -/
inductive Json where
  | null
  | bool (b : Bool)
  | number (n : JsonNumber)
  | string (s : String)
  | array (elems : List Json)
  | object (members : List (String × Json))

namespace Json

def asStr : Json → Option String
  | string s => some s
  | _ => none

def asU64 : Json → Option Nat
  | number (.posInt n) => some n
  | _ => none

def asI64 : Json → Option Int
  | number (.posInt n) => if n < 2 ^ 63 then some n else none
  | number (.negInt n) => some n
  | _ => none

/-- `Value::as_f64`, as its bits. -/
def asF64 : Json → Option UInt64
  | number (.float bits) => some bits
  | number (.posInt n) => some (Float.ofNat n).toBits
  | number (.negInt n) => some (Float.ofInt n).toBits
  | _ => none

def asBool : Json → Option Bool
  | bool b => some b
  | _ => none

def asArray : Json → Option (List Json)
  | array elems => some elems
  | _ => none

def asObject : Json → Option (List (String × Json))
  | object members => some members
  | _ => none

def isNull : Json → Bool
  | null => true
  | _ => false

def isObject : Json → Bool
  | object _ => true
  | _ => false

def getMember (k : String) (members : List (String × Json)) : Option Json :=
  (members.find? (·.1 == k)).map Prod.snd

/-- Insert or overwrite a member. -/
def insertMember (k : String) (v : Json) : List (String × Json) → List (String × Json)
  | [] => [(k, v)]
  | (k', v') :: rest =>
    if k = k' then (k, v) :: rest
    else if k < k' then (k, v) :: (k', v') :: rest
    else (k', v') :: insertMember k v rest

def removeMember (k : String) (members : List (String × Json)) : List (String × Json) :=
  members.filter (·.1 != k)

/-- `Value::get`: the member of an object. -/
def get (k : String) (j : Json) : Option Json := j.asObject.bind (getMember k)

/-- A string member of an object. -/
def getStr (k : String) (j : Json) : Option String := (j.get k).bind asStr

/-- Change the members of an object; anything else stays as it is. -/
def mapObject (f : List (String × Json) → List (String × Json)) : Json → Json
  | object members => object (f members)
  | j => j

/-- `obj.entry(k).or_insert(v)`. -/
def orInsertMember (k : String) (v : Json) (members : List (String × Json)) : List (String × Json) :=
  if (getMember k members).isSome then members else insertMember k v members

/-- The number a signed integer becomes. -/
def ofInt (i : Int) : Json := number (if 0 ≤ i then .posInt i.toNat else .negInt i)

/-- The number a float becomes, from its bits; what is not finite is no number. -/
def ofF64 (bits : UInt64) : Json :=
  if (bits >>> 52) &&& 0x7FF = 0x7FF then null else number (.float bits)

theorem get_object (k : String) (members : List (String × Json)) : (object members).get k = getMember k members := rfl

theorem getMember_nil (k : String) : getMember k [] = none := rfl

theorem getMember_cons (k k' : String) (v : Json) (members : List (String × Json)) :
    getMember k ((k', v) :: members) = if k' = k then some v else getMember k members := by
  by_cases h : k' = k <;> simp [getMember, h]

theorem getMember_insertMember (k k' : String) (v : Json) (members : List (String × Json)) :
    getMember k (insertMember k' v members) = if k = k' then some v else getMember k members := by
  induction members with
  | nil =>
    by_cases h : k' = k
    · simp [getMember, insertMember, h]
    · simp [getMember, insertMember, h, Ne.symm h]
  | cons member rest ih =>
    obtain ⟨k'', v''⟩ := member
    unfold insertMember
    by_cases he : k' = k''
    · by_cases h : k = k'
      · simp [getMember, he, h]
      · have hne : ¬ k'' = k := fun h' => h (h'.symm.trans he.symm)
        have hne' : ¬ k' = k := Ne.symm h
        simp [getMember, he, hne, Ne.symm hne]
    · by_cases hlt : k' < k''
      · by_cases h : k = k'
        · simp [getMember, he, hlt, h]
        · simp [getMember, he, hlt, h, Ne.symm h]
      · rw [if_neg he, if_neg hlt]
        by_cases h'' : k'' = k
        · have hne : ¬ k = k' := fun h => he (h.symm.trans h''.symm)
          simp [getMember, h'', hne]
        · have hcons : ∀ ms : List (String × Json), getMember k ((k'', v'') :: ms) = getMember k ms := by
            intro ms
            simp [getMember, h'']
          rw [hcons, hcons, ih]

/-- An integer an `i64` holds comes back. -/
theorem asI64_ofInt {i : Int} (h0 : 0 ≤ i) (h : i < 2 ^ 63) : (ofInt i).asI64 = some i := by
  unfold ofInt
  rw [if_pos h0]
  unfold asI64
  have hlt : i.toNat < 2 ^ 63 := by omega
  dsimp only
  rw [if_pos hlt, Int.toNat_of_nonneg h0]

end Json

/-- The JSON library: its parser for text, its parser for bytes and its serializer. -/
structure JsonLib where
  fromStr : String → Option Json
  fromSlice : Bytes → Option Json
  toVec : Json → Bytes

def maxJsonDepth : Nat := 128

/-- Whether brackets outside of string literals nest deeper than `max`. -/
def exceedsMaxDepth (bytes : Bytes) (max : Nat) : Bool :=
  go bytes 0 false false
where
  go : Bytes → Nat → Bool → Bool → Bool
    | [], _, _, _ => false
    | b :: bs, depth, true, escaped =>
      if escaped then go bs depth true false
      else if b = 0x5C then go bs depth true true
      else go bs depth (b != 0x22) false
    | b :: bs, depth, false, escaped =>
      if b = 0x22 then go bs depth true escaped
      else if b = 0x7B ∨ b = 0x5B then
        if depth + 1 > max then true else go bs (depth + 1) false escaped
      else if b = 0x7D ∨ b = 0x5D then go bs (depth - 1) false escaped
      else go bs depth false escaped

/-- `json::parse_str`. -/
def JsonLib.parseStr (lib : JsonLib) (s : String) : Option Json :=
  if exceedsMaxDepth (utf8 s) maxJsonDepth then none else lib.fromStr s

/-- `json::to_string`; what the serializer writes is UTF-8. -/
def JsonLib.toString (lib : JsonLib) (j : Json) : String := (fromUtf8 (lib.toVec j)).getD ""

end Busbar
