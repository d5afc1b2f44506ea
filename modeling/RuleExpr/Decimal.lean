/-
  RuleExpr.Decimal — doubles in decimal.

  A finite double is a sign and a magnitude `mantissa * 2 ^ exponent`, read off its bit
  pattern: 52 fraction bits, 11 exponent bits, one sign bit. All exact work on doubles
  (digits, rounding to a grid, truncation) is done on the magnitude's numerator and
  denominator, of which one is a power of two and at most one exceeds the mantissa.

  A decimal reads back as the double `v` when it lies between the midpoints to the
  neighbouring doubles, the midpoints themselves included when the mantissa of `v` is
  even. On the grid of multiples of `10 ^ k` only the two neighbours of `v` need testing:
  if any multiple lies in the interval, one of them does. The grids are tried from one
  digit to seventeen; the first with a hit gives the digits, and of two hits the nearer
  wins. Where both are equally near, a `Tie` decides.

  A `Layout` says how the digits are set out: for which exponents of the leading digit
  positional notation is used, what follows a whole number, what stands before a positive
  exponent where the notation is scientific (`d.ddde-x` or `d.ddde+x`), and where ties of
  the digits go.
  - `plain`: messages and text casts. Always positional, whole numbers bare.
  - `script`: canonical script text. Positional from 0.0001 up to below 1e16, whole
    numbers with `.0`, positive exponents bare.
  - `document`: JSON. Positional from 0.00001 up to below 1e16, whole numbers with `.0`,
    positive exponents with `+`.
  Descriptions have a form of their own, `thousandths`: at most three decimals.
-/

namespace RuleExpr

/-! ## Exact numbers -/

structure Magnitude where
  mantissa : Nat
  exponent : Int
  deriving DecidableEq, Repr

inductive Reading where
  | nan
  | infinite (negative : Bool)
  | finite (negative : Bool) (m : Magnitude)
  deriving DecidableEq, Repr

namespace Magnitude

def num (m : Magnitude) : Nat := m.mantissa <<< m.exponent.toNat

def den (m : Magnitude) : Nat := 1 <<< (-m.exponent).toNat

/-- The whole part. -/
def floor (m : Magnitude) : Nat := m.num / m.den

/-- The nearest whole number of `1 / k`ths, an exact half going to the even one. -/
def nearest (m : Magnitude) (k : Nat) : Nat :=
  let n := m.num * k / m.den
  let twice := 2 * (m.num * k % m.den)
  if twice > m.den ∨ (twice = m.den ∧ n % 2 = 1) then n + 1 else n

end Magnitude

/-- The weight of the sign bit. -/
def signBit : Nat := 1 <<< 63

/-- The weight of the bit above the fraction, which normal numbers have without writing it. -/
def hiddenBit : Nat := 1 <<< 52

namespace Reading

def ofBits (bits : Nat) : Reading :=
  let negative : Bool := bits / signBit = 1
  let biased : Nat := bits / hiddenBit % 2048
  let fraction : Nat := bits % hiddenBit
  if biased = 2047 then
    if fraction = 0 then infinite negative else nan
  else if biased = 0 then finite negative ⟨fraction, -1074⟩
  else finite negative ⟨hiddenBit + fraction, (biased : Int) - 1075⟩

def ofFloat (x : Float) : Reading := ofBits x.toBits.toNat

end Reading

/-- The whole part of a finite double, rounded toward zero. -/
def truncate? (x : Float) : Option Int :=
  match Reading.ofFloat x with
  | .finite negative m => some (if negative then -(m.floor : Int) else m.floor)
  | _ => none

/-! ## Shortest digits -/

/-- The number `coefficient * 10 ^ exponent`. -/
structure Decimal where
  coefficient : Nat
  exponent : Int
  deriving DecidableEq, Repr

/-- Which of two equally near multiples is taken. -/
inductive Tie where
  | up
  | toEven
  deriving DecidableEq, Repr

namespace Decimal

def decimalLength (n : Nat) : Nat := (Nat.toDigits 10 n).length

/-- The coefficient's digits without trailing zeros; zero has the digit `0`. -/
def digits (d : Decimal) : List Char :=
  if d.coefficient = 0 then ['0']
  else ((Nat.toDigits 10 d.coefficient).reverse.dropWhile (· == '0')).reverse

/-- Exponent of the leading digit. -/
def lead (d : Decimal) : Int := d.exponent + (decimalLength d.coefficient : Int) - 1

end Decimal

namespace Magnitude

/-- Exponent of the leading decimal digit of a nonzero magnitude. -/
def lead (m : Magnitude) : Int :=
  if m.den ≤ m.num then (Decimal.decimalLength (m.num / m.den) : Int) - 1
  else -(Decimal.decimalLength ((m.den - 1) / m.num) : Int)

/-- The doubles that read as `m`, in quarters of its unit in the last place, measured on the
    grid `10 ^ k`: `value / unit` is `m / 10 ^ k`, and decimals less than `below` under or
    `above` over `value` read back as `m`. -/
structure Interval where
  value : Nat
  below : Nat
  above : Nat
  unit : Nat
  closed : Bool

def interval (m : Magnitude) (k : Int) : Interval :=
  let quarter := Nat.pow 10 (-k).toNat <<< (m.exponent - 2).toNat
  -- below a power of two the doubles lie twice as dense
  let belowPower := m.mantissa = hiddenBit ∧ m.exponent ≠ -1074
  { value := 4 * m.mantissa * quarter
    below := (if belowPower then 1 else 2) * quarter
    above := 2 * quarter
    unit := Nat.pow 10 k.toNat <<< (2 - m.exponent).toNat
    closed := m.mantissa % 2 = 0 }

namespace Interval

def within (i : Interval) (distance bound : Nat) : Bool :=
  distance < bound || (i.closed && distance == bound)

/-- The multiple of the unit under the value and the one over it, with their distances. -/
def lower (i : Interval) : Nat := i.value / i.unit

def lowerGap (i : Interval) : Nat := i.value % i.unit

def upperGap (i : Interval) : Nat := i.unit - i.lowerGap

def nearer (i : Interval) (tie : Tie) : Nat :=
  if i.lowerGap < i.upperGap then i.lower
  else if i.upperGap < i.lowerGap then i.lower + 1
  else match tie with
    | .up => i.lower + 1
    | .toEven => if i.lower % 2 = 0 then i.lower else i.lower + 1

/-- The neighbour on the grid that reads back, the nearer one if both do. -/
def hit? (i : Interval) (tie : Tie) : Option Nat :=
  match i.within i.lowerGap i.below, i.within i.upperGap i.above with
  | true, true => some (i.nearer tie)
  | true, false => some i.lower
  | false, true => some (i.lower + 1)
  | false, false => none

end Interval

/-- Seventeen digits always read back, so the last grid needs no test. -/
def shortest (m : Magnitude) (tie : Tie) : Decimal :=
  if m.mantissa = 0 then ⟨0, 0⟩
  else
    let grid (n : Nat) : Int := m.lead - n
    match (List.range 16).findSome? fun n => ((m.interval (grid n)).hit? tie).map (Decimal.mk · (grid n)) with
    | some d => d
    | none => ⟨(m.interval (grid 16)).nearer tie, grid 16⟩

end Magnitude

/-! ## Layouts -/

structure Layout where
  positional : Int → Bool
  whole : String
  upward : String
  tie : Tie

namespace Layout

def plain : Layout := ⟨fun _ => true, "", "", .up⟩

def script : Layout := ⟨fun lead => -4 ≤ lead && lead < 16, ".0", "", .up⟩

def document : Layout := ⟨fun lead => -5 ≤ lead && lead < 16, ".0", "+", .toEven⟩

def zeros (n : Nat) : String := String.ofList (List.replicate n '0')

/-- The exponent of scientific notation; its minus sign is always written. -/
def exponent (l : Layout) (lead : Int) : String :=
  "e" ++ (if 0 < lead then l.upward else "") ++ toString lead

def setOut (l : Layout) (digits : List Char) (lead : Int) : String :=
  let text := String.ofList
  if !l.positional lead then
    match digits with
    | [] => ""
    | [d] => text [d] ++ l.exponent lead
    | d :: rest => text [d] ++ "." ++ text rest ++ l.exponent lead
  else if lead < 0 then "0." ++ zeros (-lead - 1).toNat ++ text digits
  else
    let places := lead.toNat + 1
    if digits.length ≤ places then text digits ++ zeros (places - digits.length) ++ l.whole
    else text (digits.take places) ++ "." ++ text (digits.drop places)

def magnitude (l : Layout) (m : Magnitude) : String :=
  let d := m.shortest l.tie
  l.setOut d.digits d.lead

def signed (negative : Bool) (s : String) : String := if negative then "-" ++ s else s

def write (l : Layout) (x : Float) : String :=
  match Reading.ofFloat x with
  | .nan => "NaN"
  | .infinite negative => signed negative "inf"
  | .finite negative m => signed negative (l.magnitude m)

/-- At most three decimals: rounded exactly with halves to even, trailing zeros dropped, and
    no sign on a zero. -/
def thousandths (x : Float) : String :=
  match Reading.ofFloat x with
  | .nan => "NaN"
  | .infinite negative => signed negative "inf"
  | .finite negative m =>
    let n := m.nearest 1000
    let decimals := Nat.toDigits 10 (1000 + n % 1000)
    let kept := (decimals.tail.reverse.dropWhile (· == '0')).reverse
    signed (negative && n != 0)
      (toString (n / 1000) ++ if kept.isEmpty then "" else "." ++ String.ofList kept)

end Layout

end RuleExpr
