/-
  RuleExpr.Json.Reader — JSON trees from text.

  `Token.scan` reads the text character by character in one of five modes: between tokens,
  in a bare word (a number, `true`, `false` or `null`, ended by the first character that
  cannot belong to one), in a string, after a backslash, and among the four digits of
  `\u`. Text that cannot be JSON ends the sequence with the token `bad`.

  An integer literal within 64 bits (signed when negative, unsigned otherwise) is read as
  that integer, except `-0`. Any other number is read as a double in two roundings: its
  digits are gathered into a 64-bit significand, and the significand's double is then
  multiplied or divided by a power of ten. Digits that no longer fit into the significand
  count as zeros before the point and are dropped after it. A product beyond the doubles
  is refused.

  The reader keeps the containers that are open as a stack of frames. `value` reads the
  next value, `deliver` puts a finished one into the innermost container. Every call
  consumes tokens, so both recur on the tokens left. What follows the tree is handed back:
  whether it matters is for the caller to decide.
-/

import RuleExpr.Json.Basic

namespace RuleExpr.Json

/-! ## Numbers -/

structure Numeral where
  negative : Bool
  whole : List Char
  fraction : List Char
  exponent : Int
  /-- Neither a fraction nor an exponent was written. -/
  bare : Bool

namespace Numeral

def digitValue (c : Char) : Nat := c.toNat - '0'.toNat

def number (ds : List Char) : Nat := Nat.ofDigitChars 10 ds 0

/-! ### Grammar -/

def exponent? (cs : List Char) : Option Int :=
  let digits? (ds : List Char) : Option Nat :=
    if !ds.isEmpty && ds.all Char.isDigit then some (number ds) else none
  match cs with
  | '+' :: ds => (digits? ds).map fun n => (n : Int)
  | '-' :: ds => (digits? ds).map fun n => -(n : Int)
  | ds => (digits? ds).map fun n => (n : Int)

/-- What follows the point or the whole part: an optional exponent and the end. -/
def tail? (negative : Bool) (whole fraction : List Char) (bare : Bool) : List Char → Option Numeral
  | [] => some ⟨negative, whole, fraction, 0, bare⟩
  | c :: rest =>
    if c = 'e' ∨ c = 'E' then (exponent? rest).map fun e => ⟨negative, whole, fraction, e, false⟩
    else none

def unsigned? (negative : Bool) (cs : List Char) : Option Numeral :=
  let whole := cs.takeWhile Char.isDigit
  match whole with
  | [] => none
  | '0' :: _ :: _ => none
  | _ =>
    match cs.dropWhile Char.isDigit with
    | '.' :: rest =>
      let fraction := rest.takeWhile Char.isDigit
      if fraction.isEmpty then none
      else tail? negative whole fraction false (rest.dropWhile Char.isDigit)
    | rest => tail? negative whole [] true rest

def ofChars? : List Char → Option Numeral
  | '-' :: cs => unsigned? true cs
  | cs => unsigned? false cs

/-! ### Value -/

/-- Digits taken into the significand while it fits, and the digits left over. -/
def gather (significand : Nat) : List Char → Nat × List Char
  | [] => (significand, [])
  | d :: ds =>
    let next := 10 * significand + digitValue d
    if next < UInt64.size then gather next ds else (significand, d :: ds)

/-- The double `f * 10 ^ e`, by one multiplication or division where a double holds the power. -/
def scale? (f : Float) (e : Int) : Option Float :=
  if e.natAbs ≤ 308 then
    let power := Float.ofNat (Nat.pow 10 e.natAbs)
    if 0 ≤ e then
      let product := f * power
      if product.isInf then none else some product
    else some (f / power)
  else if f == 0.0 then some f
  else if 0 ≤ e then none
  else scale? (f / 1e308) (e + 308)
termination_by e.natAbs

def toFloat? (n : Numeral) : Option Float :=
  let (significand, left) := gather 0 n.whole
  let (significand, dropped) := gather significand n.fraction
  let exponent := (left.length : Int) - (n.fraction.length - dropped.length : Nat) + n.exponent
  (scale? (Float.ofNat significand) exponent).map fun f => if n.negative then -f else f

def toInt? (n : Numeral) : Option Int :=
  let magnitude := number n.whole
  if !n.bare then none
  else if n.negative then
    if 0 < magnitude ∧ Int64.minValue.toInt ≤ -(magnitude : Int) then some (-(magnitude : Int)) else none
  else if magnitude < UInt64.size then some magnitude else none

def toJson (n : Numeral) : Json :=
  match n.toInt? with
  | some i => .int i
  | none => match n.toFloat? with
    | some x => .double x
    | none => .unreadable

end Numeral

/-! ## Tokens -/

inductive Token where
  | openArray
  | closeArray
  | openObject
  | closeObject
  | comma
  | colon
  /-- A quoted string; `none` is one with a lone surrogate. -/
  | text (s : Option String)
  | atom (j : Json)
  | bad

namespace Token

/-- Part of a string: a character, or one half of a pair of surrogates. -/
inductive Piece where
  | char (c : Char)
  | half (unit : Nat)

inductive Mode where
  | between
  | word (reversed : List Char)
  | string (reversed : List Piece)
  | escape (reversed : List Piece)
  | unicode (reversed : List Piece) (digits : List Nat)

/-! ### Strings -/

def isHigh (unit : Nat) : Bool := 0xD800 ≤ unit && unit < 0xDC00

def isLow (unit : Nat) : Bool := 0xDC00 ≤ unit && unit < 0xE000

/-- Adjacent halves join to one character; a half left alone spoils the string. -/
def joinPieces : List Piece → Option (List Char)
  | [] => some []
  | .char c :: rest => (joinPieces rest).map (c :: ·)
  | .half h :: .half l :: rest =>
    if isHigh h && isLow l then
      (joinPieces rest).map (Char.ofNat (0x10000 + (h - 0xD800) * 0x400 + (l - 0xDC00)) :: ·)
    else none
  | .half _ :: _ => none

def ofPieces (reversed : List Piece) : Token := text ((joinPieces reversed.reverse).map String.ofList)

def pieceOfUnit (unit : Nat) : Piece :=
  if isHigh unit || isLow unit then .half unit else .char (Char.ofNat unit)

def hexDigit? (c : Char) : Option Nat :=
  if '0' ≤ c ∧ c ≤ '9' then some (c.toNat - '0'.toNat)
  else if 'a' ≤ c ∧ c ≤ 'f' then some (c.toNat - 'a'.toNat + 10)
  else if 'A' ≤ c ∧ c ≤ 'F' then some (c.toNat - 'A'.toNat + 10)
  else none

/-- The character that a one-letter escape names. -/
def escaped? (c : Char) : Option Char :=
  match c with
  | '"' => some '"'
  | '\\' => some '\\'
  | '/' => some '/'
  | 'b' => some '\x08'
  | 'f' => some '\x0c'
  | 'n' => some '\n'
  | 'r' => some '\r'
  | 't' => some '\t'
  | _ => none

/-! ### Words -/

def ofWord (cs : List Char) : Token :=
  if cs = ['n', 'u', 'l', 'l'] then atom .null
  else if cs = ['t', 'r', 'u', 'e'] then atom (.bool true)
  else if cs = ['f', 'a', 'l', 's', 'e'] then atom (.bool false)
  else match Numeral.ofChars? cs with
    | some n => atom n.toJson
    | none => bad

def isBlank (c : Char) : Bool := c == ' ' || c == '\t' || c == '\n' || c == '\r'

def punctuation? (c : Char) : Option Token :=
  match c with
  | '[' => some openArray
  | ']' => some closeArray
  | '\x7b' => some openObject
  | '\x7d' => some closeObject
  | ',' => some comma
  | ':' => some colon
  | _ => none

def endsWord (c : Char) : Bool := isBlank c || c == '"' || (punctuation? c).isSome

/-- One character between tokens: the token that it is, and the mode that it starts. -/
def start (c : Char) : List Token × Mode :=
  if isBlank c then ([], .between)
  else if c = '"' then ([], .string [])
  else match punctuation? c with
    | some t => ([t], .between)
    | none => ([], .word [c])

def scan : Mode → List Char → List Token
  | .between, [] => []
  | .word reversed, [] => [ofWord reversed.reverse]
  | _, [] => [bad]
  | .between, c :: rest => (start c).1 ++ scan (start c).2 rest
  | .word reversed, c :: rest =>
    if endsWord c then ofWord reversed.reverse :: ((start c).1 ++ scan (start c).2 rest)
    else scan (.word (c :: reversed)) rest
  | .string reversed, c :: rest =>
    if c = '"' then ofPieces reversed :: scan .between rest
    else if c = '\\' then scan (.escape reversed) rest
    else if c.toNat < 0x20 then [bad]
    else scan (.string (.char c :: reversed)) rest
  | .escape reversed, c :: rest =>
    if c = 'u' then scan (.unicode reversed []) rest
    else match escaped? c with
      | some d => scan (.string (.char d :: reversed)) rest
      | none => [bad]
  | .unicode reversed digits, c :: rest =>
    match hexDigit? c with
    | none => [bad]
    | some d =>
      if digits.length < 3 then scan (.unicode reversed (digits ++ [d])) rest
      else
        let unit := (digits ++ [d]).foldl (fun n d => 16 * n + d) 0
        scan (.string (pieceOfUnit unit :: reversed)) rest

end Token

def tokens (s : String) : List Token := Token.scan .between s.toList

/-! ## Trees -/

/-- A container whose end has not been read, its finished items in reverse. -/
inductive Frame where
  | arr (reversed : List Json)
  | obj (reversed : List (Option String × Json)) (key : Option String)

/-- An object with a key that is no text is unreadable as a whole. -/
def ofEntries (entries : List (Option String × Json)) : Json :=
  match entries.mapM fun e => e.1.map fun k => (k, e.2) with
  | some es => .obj es
  | none => .unreadable

mutual

def value (stack : List Frame) : List Token → Option (Json × List Token)
  | .atom j :: ts => deliver j stack ts
  | .text (some s) :: ts => deliver (.str s) stack ts
  | .text none :: ts => deliver .unreadable stack ts
  | .openArray :: .closeArray :: ts => deliver (.arr []) stack ts
  | .openArray :: ts => value (.arr [] :: stack) ts
  | .openObject :: .closeObject :: ts => deliver (.obj []) stack ts
  | .openObject :: .text k :: .colon :: ts => value (.obj [] k :: stack) ts
  | _ => none

def deliver (j : Json) (stack : List Frame) : List Token → Option (Json × List Token) :=
  fun ts => match stack, ts with
  | [], ts => some (j, ts)
  | .arr done :: stack, .comma :: ts => value (.arr (j :: done) :: stack) ts
  | .arr done :: stack, .closeArray :: ts => deliver (.arr (j :: done).reverse) stack ts
  | .obj done k :: stack, .comma :: .text next :: .colon :: ts => value (.obj ((k, j) :: done) next :: stack) ts
  | .obj done k :: stack, .closeObject :: ts => deliver (ofEntries ((k, j) :: done).reverse) stack ts
  | _, _ => none

end

/-- The tree at the head of the text, and the tokens after it. -/
def read? (s : String) : Option (Json × List Token) := value [] (tokens s)

/-- The tree that the whole text is. -/
def parse? (s : String) : Option Json :=
  match read? s with
  | some (j, []) => some j
  | _ => none

end RuleExpr.Json
