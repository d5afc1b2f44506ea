/-
  RuleExpr.Value — the dynamically typed values of properties and contexts.

  A value is a value of one of the result types or a link to an object. Equality is that
  of the carried values: doubles compare as IEEE numbers (a NaN differs from itself, the
  two zeros are equal). For counting distinct values and frequencies each value has a
  `Key` instead, which identifies all NaNs and places them above every number.

  Reading (`readAs`) accepts a value of the type itself; besides, an int reads as a double
  and a link reads as the int of its id. Conversion (`castTo`) is what static casts do:
  doubles truncate toward zero, members of enumerations convert to and from their codes,
  links give their id, and text neither converts nor results. An integer that has 32 bits
  is the same as an int (`int32?_eq_some_iff`), so no conversion wraps.
-/

import RuleExpr.Error

namespace RuleExpr

inductive Value where
  | of (t : Ty) (v : t.Carrier)
  | object (id : ObjectId)

namespace Value

@[match_pattern] abbrev int (n : Int32) : Value := of .int n
@[match_pattern] abbrev double (x : Float) : Value := of .double x
@[match_pattern] abbrev text (s : String) : Value := of .text s
@[match_pattern] abbrev member {e : Enumeration} (m : Member e) : Value := of (.enum e) m

def kind : Value → Kind
  | of t _ => .of t
  | object _ => .object

end Value

namespace Ty

/-- Equality of values of one type; doubles as IEEE numbers. -/
def same : (t : Ty) → t.Carrier → t.Carrier → Bool
  | int, a, b => a == b
  | double, a, b => a == b
  | text, a, b => a == b
  | enum _, a, b => a == b

/-- Canonical text, as string casts write it. -/
def plainText : (t : Ty) → t.Carrier → String
  | int, n => toString n
  | double, x => Layout.plain.write x
  | text, s => s
  | enum _, m => m.keyword

/-- Literal in script syntax. -/
def literal : (t : Ty) → t.Carrier → String
  | int, n => toString n
  | double, x => Layout.script.write x
  | text, s => "\"" ++ s ++ "\""
  | enum _, m => m.keyword

end Ty

namespace Value

def plainText : Value → String
  | of t v => t.plainText v
  | object id => toString id

instance : BEq Value where
  beq
    | of s a, of t b => if h : s = t then t.same (h ▸ a) b else false
    | object a, object b => a == b
    | _, _ => false

end Value

/-- Identity of a value for counting; keys of one type are totally ordered. -/
inductive Key where
  | ordinal (n : Int)
  | text (s : String)
  deriving DecidableEq, Repr

namespace Key

/-- Texts by code points, ordinals before texts. -/
instance : Ord Key where
  compare
    | ordinal a, ordinal b => compare a b
    | ordinal _, text _ => .lt
    | text _, ordinal _ => .gt
    | text a, text b => compare a b

/-- The position of a double among all doubles: zeros at 0, infinities at the ends of the
    numbers, every NaN at one place above them. -/
def ofFloat (x : Float) : Key :=
  let bits : Nat := x.toBits.toNat
  let magnitude : Nat := bits % signBit
  if x.isNaN then ordinal signBit
  else ordinal (if bits / signBit = 1 then -(magnitude : Int) else magnitude)

end Key

def Ty.key : (t : Ty) → t.Carrier → Key
  | int, n => .ordinal n.toInt
  | double, x => .ofFloat x
  | text, s => .text s
  | enum _, m => .ordinal m.rank.val

/-! ## Reading and conversion -/

/-- The exact number as an int, if it is one. -/
def int32? (n : Int) : Option Int32 :=
  if Int32.minValue.toInt ≤ n ∧ n ≤ Int32.maxValue.toInt then some (Int32.ofInt n) else none

theorem int32?_eq_some_iff {n : Int} {i : Int32} : int32? n = some i ↔ i.toInt = n := by
  unfold int32?
  constructor
  · intro h
    split at h
    · next hn =>
      obtain rfl := Option.some.inj h
      exact Int32.toInt_ofInt_of_le hn.1 (Int.lt_of_le_of_lt hn.2 (by decide))
    · cases h
  · rintro rfl
    rw [if_pos ⟨i.minValue_le_toInt, i.toInt_le⟩, Int32.ofInt_toInt]

theorem int32?_eq_none_iff {n : Int} :
    int32? n = none ↔ n < Int32.minValue.toInt ∨ Int32.maxValue.toInt < n := by
  unfold int32?
  split
  · simp only [reduceCtorEq, false_iff]
    omega
  · simp only [true_iff]
    omega

@[simp] theorem int32?_toInt (i : Int32) : int32? i.toInt = some i := int32?_eq_some_iff.mpr rfl

/-- Truncation toward zero. -/
def intOfFloat (x : Float) : Outcome Int32 :=
  match truncate? x with
  | none => .error (.arithmetic (.notFinite x))
  | some n => match int32? n with
    | none => .error (.arithmetic (.notAnInt x))
    | some i => .ok i

def floatOfInt (n : Int32) : Float := Float.ofInt n.toInt

namespace Value

def readAs : (t : Ty) → Value → Outcome t.Carrier
  | .int, int n => .ok n
  | .int, object id => .ok id
  | .double, double x => .ok x
  | .double, int n => .ok (floatOfInt n)
  | .text, text s => .ok s
  | .enum e, of (.enum e') m =>
    if h : e' = e then .ok (h ▸ m) else .error (.typeMismatch (.of (.enum e)) (.of (.enum e')))
  | t, v => .error (.typeMismatch (.of t) v.kind)

/-- The int that a value stands for; `target` is the type that the cast names. -/
def castInt (target : Ty) : Value → Outcome Int32
  | int n => .ok n
  | double x => intOfFloat x
  | text s => .error (.invalidOperation (.castFromText s target))
  | member m => .ok m.code
  | object id => .ok id

def castMember (e : Enumeration) (code : Int32) : Outcome (Member e) :=
  match Member.ofCode? e code with
  | some m => .ok m
  | none => .error (.arithmetic (.noSuchMember code e))

def castTo : (t : Ty) → Value → Outcome t.Carrier
  | .int, v => v.castInt .int
  | .double, double x => .ok x
  | .double, v => (v.castInt .double).map floatOfInt
  | .text, v => .error (.invalidOperation (.castToText v.kind))
  | .enum e, int code => castMember e code
  | .enum e, double x => intOfFloat x >>= castMember e
  | .enum e, of (.enum e') m =>
    if h : e' = e then .ok (h ▸ m) else .error (.typeMismatch (.of (.enum e)) (.of (.enum e')))
  | .enum e, v => .error (.typeMismatch (.of (.enum e)) v.kind)

end Value

end RuleExpr
