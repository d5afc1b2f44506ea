/-
  RuleExpr.Operation — what operators do with evaluated operands, and reductions with samples.

  Ints and doubles define every operator. Text defines concatenation and the lexical
  minimum and maximum, enumerations the minimum and maximum in member order. The minimum
  is the second operand only if that is strictly less, and likewise the maximum; so a NaN
  as second operand never wins. Random draws are between the bounds in either order.

  Ints and doubles define every reduction, text the mode, enumerations the mode and the
  two extremes. A reduction of nothing is zero (one for the product), the empty text, or
  the invalid mark. Totals run from left to right and fail where a prefix leaves the type.
  - `mode`: the value that first reaches the highest count.
  - `extreme`: the first value that no later one strictly beats.
-/

import RuleExpr.Arithmetic

namespace RuleExpr.Ty

/-! ## Operators -/

/-- The order of values of one type; no double is less than a NaN or above one. -/
def less : (t : Ty) → t.Carrier → t.Carrier → Bool
  | int, a, b => a < b
  | double, a, b => a < b
  | text, a, b => a < b
  | enum _, a, b => a.rank < b.rank

def minimum (t : Ty) (a b : t.Carrier) : t.Carrier := if t.less b a then b else a

def maximum (t : Ty) (a b : t.Carrier) : t.Carrier := if t.less a b then b else a

def defines : Ty → Op → Bool
  | int, _ | double, _ => true
  | text, .binary .plus | text, .binary .minimum | text, .binary .maximum => true
  | enum _, .binary .minimum | enum _, .binary .maximum => true
  | _, _ => false

section Numeric

variable {t : Ty} [Numeric t]

def checked (op : Op) : Option t.Carrier → Outcome t.Carrier
  | some v => .ok v
  | none => .error (.arithmetic (.operatorOverflow op t))

def numericUnary (op : UnaryOp) (v : t.Carrier) : Outcome t.Carrier :=
  match op with
  | .negate => checked (.unary op) (Numeric.negate? v)
  | .abs => checked (.unary op) (Numeric.abs? v)
  | .logarithm =>
    let x := Numeric.toFloat v
    if t.less v Numeric.zero || Numeric.isZero v then .error (.arithmetic (.logarithmOf x))
    else Numeric.ofFloat x.log
  | .sine => Numeric.ofFloat (Numeric.toFloat v).sin
  | .cosine => Numeric.ofFloat (Numeric.toFloat v).cos

def drawBetween (seed : UInt64) (lo hi : t.Carrier) : Option t.Carrier :=
  Numeric.uniform? lo hi (Draw.unit seed (Numeric.toFloat lo) (Numeric.toFloat hi))

def numericBinary (seed : UInt64) (op : BinaryOp) (a b : t.Carrier) : Outcome t.Carrier :=
  match op with
  | .plus => checked (.binary op) (Numeric.add? a b)
  | .minus => checked (.binary op) (Numeric.sub? a b)
  | .times => checked (.binary op) (Numeric.mul? a b)
  | .divide =>
    if Numeric.isZero b then .error (.arithmetic .divisionByZero)
    else checked (.binary op) (Numeric.div? a b)
  | .exponentiate => checked (.binary op) (Numeric.pow? a b)
  | .minimum => .ok (t.minimum a b)
  | .maximum => .ok (t.maximum a b)
  | .randomUniform =>
    checked (.binary op) (if t.less b a then drawBetween seed b a else drawBetween seed a b)

end Numeric

def undefinedOperator (t : Ty) (op : Op) : Error := .invalidOperation (.undefinedOperator op t)

def applyUnary : (t : Ty) → UnaryOp → t.Carrier → Outcome t.Carrier
  | int, op, v => numericUnary (t := int) op v
  | double, op, v => numericUnary (t := double) op v
  | t, op, _ => .error (t.undefinedOperator (.unary op))

def applyBinary (seed : UInt64) : (t : Ty) → BinaryOp → t.Carrier → t.Carrier → Outcome t.Carrier
  | int, op, a, b => numericBinary (t := int) seed op a b
  | double, op, a, b => numericBinary (t := double) seed op a b
  | text, .plus, a, b => .ok (a ++ b)
  | t, .minimum, a, b => .ok (t.minimum a b)
  | t, .maximum, a, b => .ok (t.maximum a b)
  | t, op, _, _ => .error (t.undefinedOperator (.binary op))

/-- For callers that do not check arity: a superfluous operand is ignored, and a missing one is
    reported only for operators that the type defines. -/
def apply (t : Ty) (seed : UInt64) (op : Op) (a : t.Carrier) (b : Option t.Carrier) : Outcome t.Carrier :=
  match op, b with
  | .unary op, _ => t.applyUnary op a
  | .binary op, some b => t.applyBinary seed op a b
  | op, none =>
    if t.defines op then .error (.invalidOperation (.missingOperand op)) else .error (t.undefinedOperator op)

/-! ## Reductions -/

/-- Each value is counted with those before it; a new best must exceed the count of the old. -/
def modeFrom (t : Ty) (seen : List Key) (best : Option (t.Carrier × Nat)) :
    List t.Carrier → Option (t.Carrier × Nat)
  | [] => best
  | v :: rest =>
    let count := seen.count (t.key v) + 1
    let best := match best with
      | some (b, most) => if most < count then some (v, count) else some (b, most)
      | none => some (v, count)
    modeFrom t (t.key v :: seen) best rest

def mode (t : Ty) (vs : List t.Carrier) : Option t.Carrier := (modeFrom t [] none vs).map Prod.fst

/-- The value that none later beats: `beats v best` where a later `v` takes the place of `best`. -/
def extreme {α : Type} (beats : α → α → Bool) : List α → Option α
  | [] => none
  | v :: rest => some (rest.foldl (fun best v => if beats v best then v else best) v)

def greatest (t : Ty) (vs : List t.Carrier) : Option t.Carrier := extreme (fun v best => t.less best v) vs

def least (t : Ty) (vs : List t.Carrier) : Option t.Carrier := extreme (fun v best => t.less v best) vs

def supports : Ty → Reduction → Bool
  | int, _ | double, _ => true
  | text, .mode => true
  | enum _, .mode | enum _, .max | enum _, .min => true
  | _, _ => false

section Numeric

variable {t : Ty} [Numeric t]

def checkedReduction (r : Reduction) : Option t.Carrier → Outcome t.Carrier
  | some v => .ok v
  | none => .error (.arithmetic (.reductionOverflow r t))

def total? (vs : List t.Carrier) : Option t.Carrier := vs.foldlM Numeric.add? Numeric.zero

def product? (vs : List t.Carrier) : Option t.Carrier := vs.foldlM Numeric.mul? Numeric.one

def floatSum (xs : List Float) : Float := xs.foldl (· + ·) 0.0

def numericReduce (r : Reduction) (vs : List t.Carrier) (n : Nat) : Outcome t.Carrier :=
  let size := Float.ofNat vs.length
  let xs := vs.map Numeric.toFloat
  match r with
  | .count => Numeric.ofCount n
  | .any => .ok (if 0 < n then Numeric.one else Numeric.zero)
  | .uniqueCount => Numeric.ofCount (vs.map t.key).eraseDups.length
  | .sum => checkedReduction r (total? vs)
  | .product => checkedReduction r (product? vs)
  | .mean =>
    if vs.isEmpty then .ok Numeric.zero
    else do
      let size ← Numeric.ofCount vs.length
      let total ← checkedReduction r (total? vs)
      checkedReduction r (Numeric.div? total size)
  | .rms =>
    if vs.isEmpty then .ok Numeric.zero
    else Numeric.ofFloat (floatSum (xs.map fun x => x * x) / size).sqrt
  | .stdev =>
    if vs.length < 2 then .ok Numeric.zero
    else
      let mean := floatSum xs / size
      Numeric.ofFloat (floatSum (xs.map fun x => (x - mean) * (x - mean)) / (size - 1.0)).sqrt
  | .max => .ok ((t.greatest vs).getD Numeric.zero)
  | .min => .ok ((t.least vs).getD Numeric.zero)
  | .spread =>
    match t.greatest vs, t.least vs with
    | some greatest, some least => checkedReduction r (Numeric.sub? greatest least)
    | _, _ => .ok Numeric.zero
  | .mode => .ok ((t.mode vs).getD Numeric.zero)

end Numeric

/-- Reduces the values that the matches have; `n` is the number of matches, which `count` and `any` go by. -/
def reduce : (t : Ty) → Reduction → List t.Carrier → Nat → Outcome t.Carrier
  | int, r, vs, n => numericReduce (t := int) r vs n
  | double, r, vs, n => numericReduce (t := double) r vs n
  | text, .mode, vs, _ => .ok ((mode text vs).getD "")
  | enum e, .mode, vs, _ => .ok ((mode (enum e) vs).getD (Member.invalid e))
  | enum e, .max, vs, _ => .ok ((greatest (enum e) vs).getD (Member.invalid e))
  | enum e, .min, vs, _ => .ok ((least (enum e) vs).getD (Member.invalid e))
  | t, r, _, _ => .error (.invalidOperation (.undefinedReduction r t))

end RuleExpr.Ty
