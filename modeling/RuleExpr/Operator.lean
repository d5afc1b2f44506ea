/-
  RuleExpr.Operator — operators and reductions: names, symbols and precedence.

  Arity is part of the type: an `Op` is a unary or a binary operator. Five binary
  operators are written between their operands, negation before its operand, and all
  others as a call of a named function.

  A `Reduction` is what a statistic can apply to its sample. `count` and `any` are
  computed from the number of matches alone; every other reduction needs the values of
  a property (`needsValues`).
-/

namespace RuleExpr

/-! ## Operators -/

inductive UnaryOp where
  | negate
  | abs
  | logarithm
  | sine
  | cosine
  deriving DecidableEq, Repr

inductive BinaryOp where
  | plus
  | minus
  | times
  | divide
  | exponentiate
  | minimum
  | maximum
  | randomUniform
  deriving DecidableEq, Repr

inductive Op where
  | unary (op : UnaryOp)
  | binary (op : BinaryOp)
  deriving DecidableEq, Repr

namespace UnaryOp

def name : UnaryOp → String
  | negate => "Negate"
  | abs => "Abs"
  | logarithm => "Logarithm"
  | sine => "Sine"
  | cosine => "Cosine"

def function : UnaryOp → String
  | negate => "neg"
  | abs => "abs"
  | logarithm => "log"
  | sine => "sin"
  | cosine => "cos"

def all : List UnaryOp := [negate, abs, logarithm, sine, cosine]

end UnaryOp

namespace BinaryOp

def name : BinaryOp → String
  | plus => "Plus"
  | minus => "Minus"
  | times => "Times"
  | divide => "Divide"
  | exponentiate => "Exponentiate"
  | minimum => "Minimum"
  | maximum => "Maximum"
  | randomUniform => "RandomUniform"

/-- How the operator is written. -/
inductive Form where
  | between (symbol : String) (precedence : Nat)
  | call (function : String)
  deriving DecidableEq, Repr

/-- A higher precedence binds tighter. -/
def form : BinaryOp → Form
  | plus => .between "+" 1
  | minus => .between "-" 1
  | times => .between "*" 2
  | divide => .between "/" 2
  | exponentiate => .between "^" 3
  | minimum => .call "min"
  | maximum => .call "max"
  | randomUniform => .call "random"

def all : List BinaryOp := [plus, minus, times, divide, exponentiate, minimum, maximum, randomUniform]

end BinaryOp

namespace Op

def name : Op → String
  | unary op => op.name
  | binary op => op.name

def isUnary : Op → Bool
  | unary _ => true
  | binary _ => false

/-- The operator's symbol, or the name of its function. -/
def text : Op → String
  | unary op => op.function
  | binary op => match op.form with
    | .between symbol _ => symbol
    | .call function => function

def all : List Op := BinaryOp.all.map binary ++ UnaryOp.all.map unary

def ofName? (s : String) : Option Op := all.find? (·.name == s)

end Op

/-! ## Reductions -/

inductive Reduction where
  | count
  | uniqueCount
  | any
  | sum
  | mean
  | rms
  | mode
  | max
  | min
  | spread
  | stdev
  | product
  deriving DecidableEq, Repr

namespace Reduction

/-- Every reduction, in script order. -/
def all : List Reduction :=
  [count, uniqueCount, any, sum, mean, rms, mode, max, min, spread, stdev, product]

/-- Spelling of the reduction in documents. -/
def name : Reduction → String
  | count => "Count"
  | uniqueCount => "UniqueCount"
  | any => "If"
  | sum => "Sum"
  | mean => "Mean"
  | rms => "Rms"
  | mode => "Mode"
  | max => "Max"
  | min => "Min"
  | spread => "Spread"
  | stdev => "Stdev"
  | product => "Product"

/-- Spelling of the reduction in scripts. -/
def keyword : Reduction → String
  | count => "Count"
  | uniqueCount => "CountUnique"
  | any => "If"
  | sum => "Sum"
  | mean => "Mean"
  | rms => "RMS"
  | mode => "Mode"
  | max => "Max"
  | min => "Min"
  | spread => "Spread"
  | stdev => "StDev"
  | product => "Product"

/-- String-table key of the reduction's localized name. -/
def key : Reduction → String
  | count => "DESC_STAT_COUNT"
  | uniqueCount => "DESC_STAT_COUNTUNIQUE"
  | any => "DESC_STAT_IF"
  | sum => "DESC_STAT_SUM"
  | mean => "DESC_STAT_MEAN"
  | rms => "DESC_STAT_RMS"
  | mode => "DESC_STAT_MODE"
  | max => "DESC_STAT_MAX"
  | min => "DESC_STAT_MIN"
  | spread => "DESC_STAT_SPREAD"
  | stdev => "DESC_STAT_STDEV"
  | product => "DESC_STAT_PRODUCT"

def needsValues : Reduction → Bool
  | count | any => false
  | _ => true

def ofName? (s : String) : Option Reduction := all.find? (·.name == s)

end Reduction

end RuleExpr
