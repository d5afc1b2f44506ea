/-
  RuleExpr.Proofs.Script.Grammar — the expressions of ints that a script text can be read as.

  Digits, letters, underscores and dots run together into words; every other character
  stands for itself, and blanks only separate. So a text can be cut at any character that
  belongs to no word (`tokens_append_cons`), and a text of nothing else is one word
  (`tokens_word`).

  `Reads p ts e` is the grammar: outside brackets every operator in `ts` binds at least as
  tight as `p`. The operators `+` and `-` bind loosest, then `*` and `/`, then `^`, all to
  the left; a prefix minus binds tighter than any of them, and with a numeral it is a
  negative constant.

  A machine with a stack of unfinished expressions reads the tokens one by one and decides
  for itself what belongs together. It finds whatever the grammar allows
  (`conclude_of_reads`), so the grammar allows one reading at most (`Reads.unique`).
-/

import RuleExpr.Node.Basic

namespace RuleExpr.Script

/-! ## Tokens -/

inductive Token where
  /-- A numeral, a dotted name, or the name of a function. -/
  | word (s : String)
  | plus
  | minus
  | times
  | divide
  | power
  | openBracket
  | closeBracket
  | comma
  | other (c : Char)
  deriving DecidableEq, Repr

def isWordChar (c : Char) : Bool := c.isAlphanum || c == '_' || c == '.'

namespace Token

/-- A character outside words. -/
def ofMark : Char → List Token
  | ' ' => []
  | '+' => [plus]
  | '-' => [minus]
  | '*' => [times]
  | '/' => [divide]
  | '^' => [power]
  | '(' => [openBracket]
  | ')' => [closeBracket]
  | ',' => [comma]
  | c => [other c]

/-- The characters of a word that has come to its end. -/
def ofWord : List Char → List Token
  | [] => []
  | c :: cs => [word (String.ofList (c :: cs))]

end Token

/-- The tokens of a text that follows the characters `pending` of a word. -/
def scan (pending : List Char) : List Char → List Token
  | [] => Token.ofWord pending
  | c :: cs =>
    if isWordChar c then scan (pending ++ [c]) cs
    else Token.ofWord pending ++ (Token.ofMark c ++ scan [] cs)

def tokens (s : String) : List Token := scan [] s.toList

theorem scan_append_cons (pending l m : List Char) {c : Char} (hc : isWordChar c = false) :
    scan pending (l ++ c :: m) = scan pending l ++ (Token.ofMark c ++ scan [] m) := by
  induction l generalizing pending with
  | nil => simp only [List.nil_append, scan, hc, Bool.false_eq_true, if_false]
  | cons d l ih =>
    simp only [List.cons_append, scan]
    split
    · exact ih _
    · rw [ih, List.append_assoc, List.append_assoc]

theorem scan_word (pending cs : List Char) (h : ∀ c ∈ cs, isWordChar c = true) :
    scan pending cs = Token.ofWord (pending ++ cs) := by
  induction cs generalizing pending with
  | nil => rw [scan, List.append_nil]
  | cons c cs ih =>
    rw [scan, if_pos (h c List.mem_cons_self), ih _ fun d hd => h d (List.mem_cons_of_mem c hd), List.append_assoc]
    rfl

theorem tokens_word {s : String} (hne : s.toList ≠ []) (h : ∀ c ∈ s.toList, isWordChar c = true) :
    tokens s = [.word s] := by
  rw [tokens, scan_word [] _ h, List.nil_append]
  cases hs : s.toList with
  | nil => exact absurd hs hne
  | cons c cs => rw [Token.ofWord, ← hs, String.ofList_toList]

theorem tokens_append_mark (s t m : String) {c : Char} (hm : m.toList = [c]) (hc : isWordChar c = false) :
    tokens (s ++ m ++ t) = tokens s ++ (Token.ofMark c ++ tokens t) := by
  rw [tokens, String.toList_append, String.toList_append, hm, List.append_assoc]
  exact scan_append_cons [] s.toList t.toList hc

variable {H : Type}

/-! ## Words -/

/-- The number that a word of digits is. -/
def digits? (s : String) : Option Nat :=
  if s.toList ≠ [] ∧ s.toList.all Char.isDigit then some (Nat.ofDigitChars 10 s.toList 0) else none

/-- A letter, then letters, digits and underscores. -/
def isIdentifier (s : String) : Bool :=
  match s.toList with
  | [] => false
  | c :: cs => c.isAlpha && cs.all fun d => d.isAlphanum || d == '_'

def name? (s : String) : Option Variable :=
  (Variable.parse s).toOption.filter fun x => x.path.all isIdentifier

def leaf? (s : String) : Option (Node H .int) :=
  match digits? s with
  | some n => (int32? n).map .constant
  | none => (name? s).map .var

/-- The constant that a numeral is with a minus sign before it. -/
def negative? (s : String) : Option Int32 :=
  (digits? s).bind fun n => if n = 0 then none else int32? (-n)

def function? : String → Option Op
  | "abs" => some (.unary .abs)
  | "log" => some (.unary .logarithm)
  | "sin" => some (.unary .sine)
  | "cos" => some (.unary .cosine)
  | "min" => some (.binary .minimum)
  | "max" => some (.binary .maximum)
  | "random" => some (.binary .randomUniform)
  | _ => none

/-- The operator that a token is between two operands, and how tight it binds. -/
def operator? : Token → Option (BinaryOp × Nat)
  | .plus => some (.plus, 1)
  | .minus => some (.minus, 1)
  | .times => some (.times, 2)
  | .divide => some (.divide, 2)
  | .power => some (.exponentiate, 3)
  | _ => none

/-! ## The grammar -/

/-- The tokens are the expression at level 1 (sums), 2 (products), 3 (powers), 4 (with a
    prefix minus) or 5 (leaves, calls and brackets). -/
inductive Reads : Nat → List Token → Node H .int → Prop where
  | between {p : Nat} {t : Token} {op : BinaryOp} {ts us : List Token} {a b : Node H .int}
      (ht : operator? t = some (op, p)) (ha : Reads p ts a) (hb : Reads (p + 1) us b) :
      Reads p (ts ++ t :: us) (.binary op a b)
  | looser {p : Nat} {ts : List Token} {a : Node H .int} (ha : Reads (p + 1) ts a) : Reads p ts a
  | negative {s : String} {n : Int32} (hs : negative? s = some n) : Reads 4 [.minus, .word s] (.constant n)
  | negation {ts : List Token} {a : Node H .int} (hts : ∀ s us, ts = .word s :: us → negative? s = none)
      (ha : Reads 4 ts a) : Reads 4 (.minus :: ts) (.unary .negate a)
  | leaf {s : String} {a : Node H .int} (hs : leaf? s = some a) : Reads 5 [.word s] a
  | brackets {ts : List Token} {a : Node H .int} (ha : Reads 1 ts a) :
      Reads 5 (.openBracket :: (ts ++ [.closeBracket])) a
  | unaryCall {s : String} {op : UnaryOp} {ts : List Token} {a : Node H .int}
      (hs : function? s = some (.unary op)) (ha : Reads 1 ts a) :
      Reads 5 (.word s :: .openBracket :: (ts ++ [.closeBracket])) (.unary op a)
  | binaryCall {s : String} {op : BinaryOp} {ts us : List Token} {a b : Node H .int}
      (hs : function? s = some (.binary op)) (ha : Reads 1 ts a) (hb : Reads 1 us b) :
      Reads 5 (.word s :: .openBracket :: (ts ++ .comma :: (us ++ [.closeBracket]))) (.binary op a b)

theorem Reads.weaken {p q : Nat} {ts : List Token} {a : Node H .int} (h : Reads q ts a) (hpq : p ≤ q) :
    Reads p ts a := by
  induction hpq with
  | refl => exact h
  | step _ ih => exact ih h.looser

/-! ## The machine -/

/-- What surrounds the operand being read. -/
inductive Frame (H : Type) where
  | minus
  | operator (op : BinaryOp) (binding : Nat) (lhs : Node H .int)
  | bracket
  | call (op : UnaryOp)
  | firstOf (op : BinaryOp)
  | secondOf (op : BinaryOp) (lhs : Node H .int)

inductive Reader (H : Type) where
  /-- An operand comes next. -/
  | operand (stack : List (Frame H))
  /-- An operand comes next, with a minus sign before it. -/
  | signed (stack : List (Frame H))
  /-- A word has been read, which may yet be the name of a function. -/
  | named (s : String) (stack : List (Frame H))
  /-- An operand has been read. -/
  | finished (a : Node H .int) (stack : List (Frame H))

/-- The operand with everything before it that binds at least as tight as `p`. -/
def reduce (p : Nat) (a : Node H .int) : List (Frame H) → Node H .int × List (Frame H)
  | .minus :: st => reduce p (.unary .negate a) st
  | .operator op q lhs :: st =>
    if p ≤ q then reduce p (.binary op lhs a) st else (a, .operator op q lhs :: st)
  | st => (a, st)

namespace Reader

def start? (st : List (Frame H)) : Token → Option (Reader H)
  | .word s => some (named s st)
  | .minus => some (signed st)
  | .openBracket => some (operand (.bracket :: st))
  | _ => none

def enter? (s : String) (st : List (Frame H)) : Option (Reader H) :=
  match function? s with
  | some (.unary op) => some (operand (.call op :: st))
  | some (.binary op) => some (operand (.firstOf op :: st))
  | none => none

def follow? (a : Node H .int) (st : List (Frame H)) (t : Token) : Option (Reader H) :=
  match operator? t with
  | some (op, p) => some (operand (.operator op p (reduce p a st).1 :: (reduce p a st).2))
  | none => match t, reduce 0 a st with
    | .closeBracket, (a, .bracket :: st) => some (finished a st)
    | .closeBracket, (a, .call op :: st) => some (finished (.unary op a) st)
    | .closeBracket, (a, .secondOf op lhs :: st) => some (finished (.binary op lhs a) st)
    | .comma, (a, .firstOf op :: st) => some (operand (.secondOf op a :: st))
    | _, _ => none

def step : Reader H → Token → Option (Reader H)
  | operand st, t => start? st t
  | signed st, .word s => match negative? s with
    | some n => some (finished (.constant n) st)
    | none => some (named s (.minus :: st))
  | signed st, t => start? (.minus :: st) t
  | named s st, .openBracket => enter? s st
  | named s st, t => (leaf? s).bind fun a => follow? a st t
  | finished a st, t => follow? a st t

/-- The whole expression, if nothing is left open. -/
def whole? (a : Node H .int) (st : List (Frame H)) : Option (Node H .int) :=
  match reduce 0 a st with
  | (a, []) => some a
  | _ => none

def conclude : Reader H → List Token → Option (Node H .int)
  | named s st, [] => (leaf? s).bind fun a => whole? a st
  | finished a st, [] => whole? a st
  | _, [] => none
  | r, t :: ts => (r.step t).bind fun r => conclude r ts

end Reader

/-- The expression that a text is. -/
def read? (s : String) : Option (Node H .int) := (Reader.operand []).conclude (tokens s)

/-! ## Readings are found -/

/-- The innermost operator leaves an operand at level `p` alone. -/
def Below (p : Nat) : List (Frame H) → Prop
  | .minus :: _ => 4 ≤ p
  | .operator _ q _ :: _ => q < p
  | _ => True

theorem Below.mono {p q : Nat} {st : List (Frame H)} (h : Below p st) (hpq : p ≤ q) : Below q st := by
  match st with
  | .minus :: _ => exact Nat.le_trans h hpq
  | .operator _ _ _ :: _ => exact Nat.lt_of_lt_of_le h hpq
  | [] | .bracket :: _ | .call _ :: _ | .firstOf _ :: _ | .secondOf _ _ :: _ => trivial

theorem reduce_of_below {p : Nat} (hp : p ≤ 3) (a : Node H .int) {st : List (Frame H)} (h : Below p st) :
    reduce p a st = (a, st) := by
  match st with
  | .minus :: _ => exact absurd (Nat.le_trans h hp) (by decide)
  | .operator op q lhs :: _ => exact if_neg (Nat.not_le_of_lt h)
  | [] | .bracket :: _ | .call _ :: _ | .firstOf _ :: _ | .secondOf _ _ :: _ => rfl

/-- An operand at level `p` ends before these tokens. -/
def Ends (p : Nat) : List Token → Prop
  | [] => True
  | t :: _ => t = .closeBracket ∨ t = .comma ∨ ∃ op q, operator? t = some (op, q) ∧ q ≤ p

theorem Ends.mono {p q : Nat} {ts : List Token} (h : Ends p ts) (hpq : p ≤ q) : Ends q ts := by
  match ts, h with
  | [], _ => trivial
  | t :: _, .inl h => exact .inl h
  | t :: _, .inr (.inl h) => exact .inr (.inl h)
  | t :: _, .inr (.inr ⟨op, r, h, hr⟩) => exact .inr (.inr ⟨op, r, h, Nat.le_trans hr hpq⟩)

theorem operator?_le {t : Token} {op : BinaryOp} {p : Nat} (h : operator? t = some (op, p)) : p ≤ 3 := by
  cases t <;> simp [operator?] at h <;> omega

namespace Reader

/-- What comes next depends on the operand and its surroundings only through `reduce`. -/
theorem conclude_congr {p : Nat} {a b : Node H .int} {st st' : List (Frame H)}
    (h : ∀ q, q ≤ p → reduce q a st = reduce q b st') {ts : List Token} (hts : Ends p ts) :
    conclude (finished a st) ts = conclude (finished b st') ts := by
  match ts, hts with
  | [], _ => simp only [conclude, whole?, h 0 (Nat.zero_le p)]
  | t :: ts, .inl ht => simp only [ht, conclude, step, follow?, operator?, h 0 (Nat.zero_le p)]
  | t :: ts, .inr (.inl ht) => simp only [ht, conclude, step, follow?, operator?, h 0 (Nat.zero_le p)]
  | t :: ts, .inr (.inr ⟨op, q, ht, hq⟩) => simp only [conclude, step, follow?, ht, h q hq]

theorem conclude_named {s : String} {a : Node H .int} (hs : leaf? s = some a) (st : List (Frame H)) {p : Nat}
    {ts : List Token} (hts : Ends p ts) : conclude (named s st) ts = conclude (finished a st) ts := by
  match ts, hts with
  | [], _ => simp only [conclude, hs, Option.bind_some]
  | t :: ts, hts =>
    have ht : t ≠ .openBracket := by
      rintro rfl
      simp [Ends, operator?] at hts
    simp only [conclude, step, hs, Option.bind_some]

theorem conclude_signed {ts : List Token} (hts : ∀ s us, ts = .word s :: us → negative? s = none)
    (st : List (Frame H)) : conclude (signed st) ts = conclude (operand (.minus :: st)) ts := by
  match ts with
  | [] => rfl
  | .word s :: us => simp only [conclude, step, hts s us rfl, start?]
  | .plus :: _ | .minus :: _ | .times :: _ | .divide :: _ | .power :: _ | .openBracket :: _ | .closeBracket :: _
  | .comma :: _ | .other _ :: _ => rfl

/-- The machine completes an operand just where the grammar does. -/
theorem conclude_of_reads {p : Nat} {ts : List Token} {a : Node H .int} (h : Reads p ts a) (st : List (Frame H))
    (hst : Below p st) {rest : List Token} (hrest : Ends p rest) :
    conclude (operand st) (ts ++ rest) = conclude (finished a st) rest := by
  induction h generalizing st rest with
  | @between p t op ts us a b ht _ _ iha ihb =>
    have ha : reduce p a st = (a, st) := reduce_of_below (operator?_le ht) a hst
    have hab : ∀ q, q ≤ p → reduce q b (.operator op p a :: st) = reduce q (.binary op a b) st :=
      fun q hq => if_pos hq
    calc conclude (operand st) ((ts ++ t :: us) ++ rest)
        = conclude (operand st) (ts ++ t :: (us ++ rest)) := by rw [List.append_assoc, List.cons_append]
      _ = conclude (finished a st) (t :: (us ++ rest)) := iha st hst (.inr (.inr ⟨op, p, ht, Nat.le_refl p⟩))
      _ = conclude (operand (.operator op p a :: st)) (us ++ rest) := by
          simp only [conclude, step, follow?, ht, ha, Option.bind_some]
      _ = conclude (finished b (.operator op p a :: st)) rest :=
          ihb (.operator op p a :: st) (Nat.lt_succ_self p) (hrest.mono (Nat.le_succ p))
      _ = conclude (finished (.binary op a b) st) rest := conclude_congr hab hrest
  | @looser p ts a _ ih => exact ih st (hst.mono (Nat.le_succ p)) (hrest.mono (Nat.le_succ p))
  | @negative s n hs => simp only [List.cons_append, List.nil_append, conclude, step, start?, hs, Option.bind_some]
  | @negation ts a hts _ ih =>
    have hts' : ∀ s us, ts ++ rest = .word s :: us → negative? s = none := by
      intro s us e
      cases ts with
      | nil =>
        rw [show rest = .word s :: us from e] at hrest
        simp [Ends, operator?] at hrest
      | cons t ts => exact hts s ts (by rw [(List.cons.inj e).1])
    have hm : ∀ q, q ≤ 4 → reduce q a (.minus :: st) = reduce q (.unary .negate a) st := fun _ _ => rfl
    calc conclude (operand st) (.minus :: ts ++ rest)
        = conclude (signed st) (ts ++ rest) := rfl
      _ = conclude (operand (.minus :: st)) (ts ++ rest) := conclude_signed hts' st
      _ = conclude (finished a (.minus :: st)) rest := ih (.minus :: st) (Nat.le_refl 4) hrest
      _ = conclude (finished (.unary .negate a) st) rest := conclude_congr hm hrest
  | @leaf s a hs => exact conclude_named hs st hrest
  | @brackets ts a _ ih =>
    calc conclude (operand st) (.openBracket :: (ts ++ [.closeBracket]) ++ rest)
        = conclude (operand (.bracket :: st)) (ts ++ .closeBracket :: rest) := by
          rw [List.cons_append, List.append_assoc]
          rfl
      _ = conclude (finished a (.bracket :: st)) (.closeBracket :: rest) := ih (.bracket :: st) trivial (.inl rfl)
      _ = conclude (finished a st) rest := rfl
  | @unaryCall s op ts a hs _ ih =>
    have he : enter? s st = some (operand (.call op :: st)) := by simp only [enter?, hs]
    calc conclude (operand st) (.word s :: .openBracket :: (ts ++ [.closeBracket]) ++ rest)
        = conclude (operand (.call op :: st)) (ts ++ .closeBracket :: rest) := by
          simp only [List.cons_append, List.append_assoc, List.nil_append, conclude, step, start?, he, Option.bind_some]
      _ = conclude (finished a (.call op :: st)) (.closeBracket :: rest) := ih (.call op :: st) trivial (.inl rfl)
      _ = conclude (finished (.unary op a) st) rest := rfl
  | @binaryCall s op ts us a b hs _ _ iha ihb =>
    have he : enter? s st = some (operand (.firstOf op :: st)) := by simp only [enter?, hs]
    calc conclude (operand st) (.word s :: .openBracket :: (ts ++ .comma :: (us ++ [.closeBracket])) ++ rest)
        = conclude (operand (.firstOf op :: st)) (ts ++ .comma :: (us ++ .closeBracket :: rest)) := by
          simp only [List.cons_append, List.append_assoc, List.nil_append, conclude, step, start?, he, Option.bind_some]
      _ = conclude (finished a (.firstOf op :: st)) (.comma :: (us ++ .closeBracket :: rest)) :=
          iha (.firstOf op :: st) trivial (.inr (.inl rfl))
      _ = conclude (operand (.secondOf op a :: st)) (us ++ .closeBracket :: rest) := rfl
      _ = conclude (finished b (.secondOf op a :: st)) (.closeBracket :: rest) :=
          ihb (.secondOf op a :: st) trivial (.inl rfl)
      _ = conclude (finished (.binary op a b) st) rest := rfl

end Reader

theorem Reads.read?_eq {s : String} {a : Node H .int} (h : Reads 1 (tokens s) a) : read? s = some a := by
  have e : (Reader.operand []).conclude (tokens s ++ []) = some a := Reader.conclude_of_reads h [] trivial trivial
  rwa [List.append_nil] at e

theorem Reads.unique {s : String} {a b : Node H .int} (ha : Reads 1 (tokens s) a) (hb : Reads 1 (tokens s) b) :
    a = b :=
  Option.some.inj (ha.read?_eq.symm.trans hb.read?_eq)

end RuleExpr.Script
