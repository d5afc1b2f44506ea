/-
  RuleExpr.Json.Basic — JSON trees and their compact text.

  Integer literals of 64 bits are kept apart from other numbers, and an object is the list
  of its entries as they stand, repeated keys included. `unreadable` stands where the text
  is well formed but names no value: a string with a lone surrogate, an object with such a
  key, a number beyond the doubles. It does no harm where a reader ignores the tree.

  The text has no blanks; strings escape the quote, the backslash and the control
  characters, by letter where there is one and as `\u00xx` otherwise; doubles have their
  shortest digits and, outside the numbers, are written as null.
-/

import RuleExpr.Decimal

namespace RuleExpr

inductive Json where
  | null
  | bool (b : Bool)
  | int (n : Int)
  | double (x : Float)
  | str (s : String)
  | arr (items : List Json)
  | obj (entries : List (String × Json))
  | unreadable

namespace Json

def escape (c : Char) : List Char :=
  match c with
  | '"' => ['\\', '"']
  | '\\' => ['\\', '\\']
  | '\x08' => ['\\', 'b']
  | '\x0c' => ['\\', 'f']
  | '\n' => ['\\', 'n']
  | '\r' => ['\\', 'r']
  | '\t' => ['\\', 't']
  | c =>
    if c.toNat < 0x20 then ['\\', 'u', '0', '0', Nat.digitChar (c.toNat / 16), Nat.digitChar (c.toNat % 16)]
    else [c]

def quote (s : String) : List Char := '"' :: (s.toList.flatMap escape ++ ['"'])

mutual

def chars : Json → List Char
  | null | unreadable => "null".toList
  | bool b => (if b then "true" else "false").toList
  | int n => (toString n).toList
  | double x => if x.isFinite then (Layout.document.write x).toList else "null".toList
  | str s => quote s
  | arr items => '[' :: itemChars items
  | obj entries => '\x7b' :: entryChars entries

/-- Items, each but the first after a comma, and the closing bracket. -/
def itemChars : List Json → List Char
  | [] => [']']
  | [j] => chars j ++ [']']
  | j :: rest => chars j ++ ',' :: itemChars rest

def entryChars : List (String × Json) → List Char
  | [] => ['\x7d']
  | [(k, j)] => quote k ++ ':' :: chars j ++ ['\x7d']
  | (k, j) :: rest => quote k ++ ':' :: chars j ++ ',' :: entryChars rest

end

theorem itemChars_cons_cons (j next : Json) (rest : List Json) :
    itemChars (j :: next :: rest) = chars j ++ ',' :: itemChars (next :: rest) := by
  rw [itemChars]
  exact List.cons_ne_nil next rest

theorem entryChars_singleton (k : String) (j : Json) : entryChars [(k, j)] = quote k ++ ':' :: (chars j ++ ['\x7d']) := by
  rw [entryChars, List.append_assoc, List.cons_append]

theorem entryChars_cons_cons (k : String) (j : Json) (next : String × Json) (rest : List (String × Json)) :
    entryChars ((k, j) :: next :: rest) = quote k ++ ':' :: (chars j ++ ',' :: entryChars (next :: rest)) := by
  rw [entryChars, List.append_assoc, List.cons_append]
  exact List.cons_ne_nil next rest

def print (j : Json) : String := String.ofList (chars j)

end Json

end RuleExpr
