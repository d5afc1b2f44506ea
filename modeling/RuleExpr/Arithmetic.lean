/-
  RuleExpr.Arithmetic — checked arithmetic on ints and doubles, and random draws.

  An operation gives `none` where its result is no value of the type. For ints the result
  is the exact integer, if it has 32 bits: nothing wraps. For doubles it is the IEEE
  result, if it is finite: no operation makes a NaN or an infinity.

  A draw depends on the seed and the bit patterns of its two bounds alone. Their bytes,
  lowest first, are folded into a 64-bit hash (FNV-1a), the hash is mixed by one step of
  SplitMix64, and the upper 53 bits of the result are the draw in units of `2 ^ -53`.
-/

import RuleExpr.Value

namespace RuleExpr

class Numeric (t : Ty) where
  zero : t.Carrier
  one : t.Carrier
  isZero : t.Carrier → Bool
  add? : t.Carrier → t.Carrier → Option t.Carrier
  sub? : t.Carrier → t.Carrier → Option t.Carrier
  mul? : t.Carrier → t.Carrier → Option t.Carrier
  /-- The divisor is not zero. -/
  div? : t.Carrier → t.Carrier → Option t.Carrier
  pow? : t.Carrier → t.Carrier → Option t.Carrier
  negate? : t.Carrier → Option t.Carrier
  abs? : t.Carrier → Option t.Carrier
  toFloat : t.Carrier → Float
  ofFloat : Float → Outcome t.Carrier
  ofCount : Nat → Outcome t.Carrier
  /-- A draw from 0 up to below 1, carried over to the range between two bounds in order. -/
  uniform? : t.Carrier → t.Carrier → Float → Option t.Carrier

/-! ## Ints -/

namespace IntArithmetic

/-- The power `base ^ e`, without computing powers that cannot fit. -/
def powNat? (base : Int) (e : Nat) : Option Int32 :=
  if base.natAbs ≤ 1 then int32? (Int.pow base (if e = 0 then 0 else 2 - e % 2))
  else if e ≤ 31 then int32? (Int.pow base e)
  else none

/-- A negative exponent goes through doubles and truncates. -/
def pow? (base exponent : Int32) : Option Int32 :=
  if 0 ≤ exponent.toInt then powNat? base.toInt exponent.toInt.toNat
  else (intOfFloat (Float.pow (floatOfInt base) (floatOfInt exponent))).toOption

/-- The span counts both bounds. -/
def uniform? (lo hi : Int32) (draw : Float) : Option Int32 :=
  let span := hi.toInt - lo.toInt + 1
  match truncate? (draw * Float.ofInt span) with
  | some offset => int32? (min (lo.toInt + offset) hi.toInt)
  | none => none

def ofCount (n : Nat) : Outcome Int32 :=
  match int32? n with
  | some i => .ok i
  | none => .error (.arithmetic (.countOverflow n))

end IntArithmetic

instance : Numeric .int where
  zero := (0 : Int32)
  one := (1 : Int32)
  isZero a := a.toInt == 0
  add? a b := int32? (a.toInt + b.toInt)
  sub? a b := int32? (a.toInt - b.toInt)
  mul? a b := int32? (a.toInt * b.toInt)
  div? a b := int32? (a.toInt.tdiv b.toInt)
  pow? := IntArithmetic.pow?
  negate? a := int32? (-a.toInt)
  abs? a := int32? a.toInt.natAbs
  toFloat := floatOfInt
  ofFloat := intOfFloat
  ofCount := IntArithmetic.ofCount
  uniform? := IntArithmetic.uniform?

/-! ## Doubles -/

namespace DoubleArithmetic

def finite? (x : Float) : Option Float := if x.isFinite then some x else none

def ofFloat (x : Float) : Outcome Float :=
  match finite? x with
  | some x => .ok x
  | none => .error (.arithmetic (.notFinite x))

end DoubleArithmetic

open DoubleArithmetic in
instance : Numeric .double where
  zero := (0.0 : Float)
  one := (1.0 : Float)
  isZero (x : Float) := x == 0.0
  add? (x y : Float) := finite? (x + y)
  sub? (x y : Float) := finite? (x - y)
  mul? (x y : Float) := finite? (x * y)
  div? (x y : Float) := finite? (x / y)
  pow? (x y : Float) := finite? (Float.pow x y)
  negate? (x : Float) := finite? (-x)
  abs? (x : Float) := finite? x.abs
  toFloat x := x
  ofFloat := ofFloat
  ofCount n := .ok (Float.ofNat n)
  -- weighted, because the difference of the bounds alone may overflow
  uniform? (lo hi : Float) draw := finite? (lo * (1.0 - draw) + hi * draw)

/-! ## Draws -/

namespace Draw

def offsetBasis : UInt64 := 0xcbf29ce484222325

def prime : UInt64 := 0x00000100000001b3

def bytes (word : UInt64) : List UInt64 :=
  ([0, 8, 16, 24, 32, 40, 48, 56] : List UInt64).map fun shift => (word >>> shift) &&& 0xff

def absorbByte (hash byte : UInt64) : UInt64 := (hash ^^^ byte) * prime

/-- The hash after the bytes of all `words`. -/
def absorb (hash : UInt64) (words : List UInt64) : UInt64 := (words.flatMap bytes).foldl absorbByte hash

def mix (state : UInt64) : UInt64 :=
  let z := state + 0x9e3779b97f4a7c15
  let z := (z ^^^ (z >>> 30)) * 0xbf58476d1ce4e5b9
  let z := (z ^^^ (z >>> 27)) * 0x94d049bb133111eb
  z ^^^ (z >>> 31)

/-- A number from 0 up to below 1. -/
def unit (seed : UInt64) (lo hi : Float) : Float :=
  (mix (absorb offsetBasis [seed, lo.toBits, hi.toBits]) >>> 11).toFloat * (1.0 / 9007199254740992.0)

end Draw

end RuleExpr
