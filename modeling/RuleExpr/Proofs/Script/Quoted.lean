/-
  RuleExpr.Proofs.Script.Quoted — the script text of an expression of texts, read back.

  A constant is written in quotes, with its characters as they are. So a text does not determine
  its expression where constants hold quotes themselves: the constant `x" + "y` reads like a
  sum of two constants (`text_not_determined`). Without quotes inside constants it does.

  A machine with a stack of unfinished expressions reads the text character by character. It comes
  from the beginning of an operand to its end with just this operand read (`Legible`), since
  the end of a constant is the next quote, and since a sum is bracketed where it is the right
  operand of a sum. So the text of the whole expression is read as this expression, and no other
  one has it.
-/

import RuleExpr.Proofs.Script.Grammar
import RuleExpr.Proofs.Script.NormalForm

namespace RuleExpr

/-- Made of constants that have the property `P`, by the operators that texts have. -/
inductive Node.Composed {H : Type} (P : String → Prop) : Node H .text → Prop where
  | constant {s : String} (hs : P s) : Composed P (.constant s)
  | plus {a b : Node H .text} (ha : Composed P a) (hb : Composed P b) : Composed P (.binary .plus a b)
  | minimum {a b : Node H .text} (ha : Composed P a) (hb : Composed P b) : Composed P (.binary .minimum a b)
  | maximum {a b : Node H .text} (ha : Composed P a) (hb : Composed P b) : Composed P (.binary .maximum a b)

namespace Quoted

open Script (function?)

variable {H : Type}

/-! ## The machine -/

/-- What surrounds the operand being read. -/
inductive Frame (H : Type) where
  | sum (lhs : Node H .text)
  | bracket
  | firstOf (op : BinaryOp)
  | secondOf (op : BinaryOp) (lhs : Node H .text)

inductive Reader (H : Type) where
  /-- An operand comes next. -/
  | operand (stack : List (Frame H))
  /-- Characters of a constant have been read. -/
  | quoted (cs : List Char) (stack : List (Frame H))
  /-- Characters of the name of a function have been read. -/
  | named (cs : List Char) (stack : List (Frame H))
  /-- An operand has been read, with the operands before it in a sum. -/
  | finished (a : Node H .text) (stack : List (Frame H))

namespace Reader

/-- The operand has come to its end. -/
def finish (a : Node H .text) : List (Frame H) → Reader H
  | .sum lhs :: st => finished (.binary .plus lhs a) st
  | st => finished a st

def call? (cs : List Char) (st : List (Frame H)) : Option (Reader H) :=
  match function? (String.ofList cs) with
  | some (.binary op) => some (operand (.firstOf op :: st))
  | _ => none

def close? (a : Node H .text) : List (Frame H) → Char → Option (Reader H)
  | .bracket :: st, ')' => some (finish a st)
  | .firstOf op :: st, ',' => some (operand (.secondOf op a :: st))
  | .secondOf op lhs :: st, ')' => some (finish (.binary op lhs a) st)
  | _, _ => none

def step : Reader H → Char → Option (Reader H)
  | operand st, c =>
    if c = ' ' then some (operand st)
    else if c = '"' then some (quoted [] st)
    else if c = '(' then some (operand (.bracket :: st))
    else some (named [c] st)
  | quoted cs st, c => some (if c = '"' then finish (.constant (String.ofList cs)) st else quoted (cs ++ [c]) st)
  | named cs st, c => if c = '(' then call? cs st else some (named (cs ++ [c]) st)
  | finished a st, c =>
    if c = ' ' then some (finished a st)
    else if c = '+' then some (operand (.sum a :: st))
    else close? a st c

/-- The whole expression, if nothing is left open. -/
def whole? : Reader H → Option (Node H .text)
  | finished a [] => some a
  | _ => none

def run : Reader H → List Char → Option (Node H .text)
  | r, [] => r.whole?
  | r, c :: cs => (r.step c).bind fun r => run r cs

end Reader

/-- The expression that a text is. -/
def read? (s : String) : Option (Node H .text) := (Reader.operand []).run s.toList

/-! ## Constants -/

open Reader

theorem run_quoted {cs : List Char} (hcs : '"' ∉ cs) (before : List Char) (st : List (Frame H)) (rest : List Char) :
    run (quoted before st) (cs ++ '"' :: rest) = run (finish (.constant (String.ofList (before ++ cs))) st) rest := by
  induction cs generalizing before with
  | nil => rw [List.nil_append, List.append_nil, run, step, if_pos rfl, Option.bind_some]
  | cons c cs ih =>
    have hc : c ≠ '"' := fun h => hcs (h ▸ List.mem_cons_self)
    rw [List.cons_append, run, step, if_neg hc, Option.bind_some, ih fun h => hcs (List.mem_cons_of_mem c h),
      List.append_assoc]
    rfl

theorem run_literal {s : String} (hs : '"' ∉ s.toList) (st : List (Frame H)) (rest : List Char) :
    run (operand st) ((Ty.text.literal s).toList ++ rest) = run (finish (.constant s) st) rest := by
  have e : (Ty.text.literal s).toList ++ rest = '"' :: (s.toList ++ '"' :: rest) := by
    simp [Ty.literal]
  calc run (operand st) ((Ty.text.literal s).toList ++ rest)
      = run (quoted [] st) (s.toList ++ '"' :: rest) := by rw [e]; rfl
    _ = run (finish (.constant s) st) rest := by rw [run_quoted hs, List.nil_append, String.ofList_toList]

/-! ## Brackets -/

/-- The text has a first character, and that is no minus sign. -/
def BeginsUnsigned (s : String) : Prop := ∃ c cs, s.toList = c :: cs ∧ c ≠ '-'

namespace BeginsUnsigned

theorem append {s : String} (hs : BeginsUnsigned s) (t : String) : BeginsUnsigned (s ++ t) := by
  obtain ⟨c, cs, e, hc⟩ := hs
  exact ⟨c, cs ++ t.toList, by rw [String.toList_append, e, List.cons_append], hc⟩

theorem enclose {s : String} (hs : BeginsUnsigned s) (wrapped : Op → Bool) (top : Option Op) :
    BeginsUnsigned (enclose wrapped top s) := by
  unfold RuleExpr.enclose
  split
  · have h : BeginsUnsigned "(" := ⟨'(', [], rfl, by decide⟩
    exact (h.append s).append ")"
  · exact hs

theorem startsWithMinus_eq {s : String} (hs : BeginsUnsigned s) : startsWithMinus s = false := by
  obtain ⟨c, cs, e, hc⟩ := hs
  rw [startsWithMinus, e]
  simpa using hc

end BeginsUnsigned

end Quoted

namespace Node.Composed

open Quoted

variable {H : Type} [HostCondition H] {P : String → Prop} {a : Node H .text}

theorem beginsUnsigned (ha : a.Composed P) : BeginsUnsigned a.script := by
  induction ha with
  | @constant s _ =>
    have h : BeginsUnsigned "\"" := ⟨'"', [], rfl, by decide⟩
    exact (h.append s).append "\""
  | plus _ _ iha _ =>
    rw [script_between rfl]
    exact ((((iha.enclose _ _).append _).append _).append _).append _
  | minimum _ _ _ _ =>
    have h : BeginsUnsigned "min" := ⟨'m', ['i', 'n'], rfl, by decide⟩
    exact h.append _
  | maximum _ _ _ _ =>
    have h : BeginsUnsigned "max" := ⟨'m', ['a', 'x'], rfl, by decide⟩
    exact h.append _

theorem enclose_left (ha : a.Composed P) : enclose (Op.wrappedBy .plus .left) a.topOp a.script = a.script := by
  rw [enclose, ha.beginsUnsigned.startsWithMinus_eq]
  cases ha <;> rfl

theorem enclose_right (ha : a.Composed P) :
    enclose (Op.wrappedBy .plus .right) a.topOp a.script
      = if a.topOp = some (.binary .plus) then bracketed a.script else a.script := by
  rw [enclose, ha.beginsUnsigned.startsWithMinus_eq]
  cases ha <;> rfl

end Node.Composed

/-! ## Operands are found -/

namespace Quoted

open Reader Node

/-- The operand being read is not the right one of a sum. -/
def NotInSum : List (Frame H) → Prop
  | .sum _ :: _ => False
  | _ => True

theorem finish_of_notInSum (a : Node H .text) {st : List (Frame H)} (hst : NotInSum st) :
    finish a st = finished a st := by
  match st with
  | .sum _ :: _ => exact hst.elim
  | [] | .bracket :: _ | .firstOf _ :: _ | .secondOf _ _ :: _ => rfl

variable [HostCondition H] {a b : Node H .text}

/-- The machine finds the expression where its text stands as an operand, except that a sum must
    not stand right of a plus. -/
def Legible (a : Node H .text) : Prop :=
  ∀ st rest, (a.topOp = some (.binary .plus) → NotInSum st) →
    run (operand st) (a.script.toList ++ rest) = run (finish a st) rest

theorem Legible.run_of_notInSum (ha : Legible a) (st : List (Frame H)) (hst : NotInSum st) (rest : List Char) :
    run (operand st) (a.script.toList ++ rest) = run (finished a st) rest := by
  rw [ha st rest fun _ => hst, finish_of_notInSum a hst]

theorem Legible.run_bracketed (ha : Legible a) (st : List (Frame H)) (rest : List Char) :
    run (operand st) ((bracketed a.script).toList ++ rest) = run (finish a st) rest := by
  have e : (bracketed a.script).toList ++ rest = '(' :: (a.script.toList ++ ')' :: rest) := by
    simp [bracketed]
  calc run (operand st) ((bracketed a.script).toList ++ rest)
      = run (operand (.bracket :: st)) (a.script.toList ++ ')' :: rest) := by rw [e]; rfl
    _ = run (finished a (.bracket :: st)) (')' :: rest) := ha.run_of_notInSum (.bracket :: st) trivial _
    _ = run (finish a st) rest := rfl

theorem Legible.run_enclose_right {P : String → Prop} (hb : Legible b) (hc : b.Composed P) (st : List (Frame H))
    (rest : List Char) :
    run (operand st) ((enclose (Op.wrappedBy .plus .right) b.topOp b.script).toList ++ rest)
      = run (finish b st) rest := by
  rw [hc.enclose_right]
  split
  · exact hb.run_bracketed st rest
  · next h => exact hb st rest fun h' => absurd h' h

theorem Legible.plus {P : String → Prop} (ha : Legible a) (hb : Legible b) (hca : a.Composed P) (hcb : b.Composed P) :
    Legible (binary .plus a b) := by
  intro st rest hst
  have h : NotInSum st := hst rfl
  have e : (binary .plus a b).script.toList ++ rest
      = a.script.toList ++ ' ' :: '+' :: ' ' ::
        ((enclose (Op.wrappedBy .plus .right) b.topOp b.script).toList ++ rest) := by
    rw [script_between rfl, hca.enclose_left]
    simp
  calc run (operand st) ((binary .plus a b).script.toList ++ rest)
      = run (finished a st) (' ' :: '+' :: ' ' ::
          ((enclose (Op.wrappedBy .plus .right) b.topOp b.script).toList ++ rest)) := by
        rw [e, ha.run_of_notInSum st h]
    _ = run (operand (.sum a :: st)) ((enclose (Op.wrappedBy .plus .right) b.topOp b.script).toList ++ rest) := rfl
    _ = run (finish b (.sum a :: st)) rest := hb.run_enclose_right hcb _ _
    _ = run (finish (.binary .plus a b) st) rest := by rw [finish_of_notInSum _ h]; rfl

theorem Legible.call {op : BinaryOp} {f : String} (hop : op.form = .call f)
    (hf : ∀ (st : List (Frame H)) rest, run (operand st) (f.toList ++ '(' :: rest) = run (operand (.firstOf op :: st)) rest)
    (ha : Legible a) (hb : Legible b) : Legible (binary op a b) := by
  intro st rest _
  have e : (binary op a b).script.toList ++ rest
      = f.toList ++ '(' :: (a.script.toList ++ ',' :: ' ' :: (b.script.toList ++ ')' :: rest)) := by
    rw [script_call hop]
    simp [bracketed]
  calc run (operand st) ((binary op a b).script.toList ++ rest)
      = run (operand (.firstOf op :: st)) (a.script.toList ++ ',' :: ' ' :: (b.script.toList ++ ')' :: rest)) := by
        rw [e, hf]
    _ = run (finished a (.firstOf op :: st)) (',' :: ' ' :: (b.script.toList ++ ')' :: rest)) :=
        ha.run_of_notInSum (.firstOf op :: st) trivial _
    _ = run (operand (.secondOf op a :: st)) (b.script.toList ++ ')' :: rest) := rfl
    _ = run (finished b (.secondOf op a :: st)) (')' :: rest) := hb.run_of_notInSum (.secondOf op a :: st) trivial _
    _ = run (finish (.binary op a b) st) rest := rfl

end Quoted

/-! ## One text, one expression -/

namespace Node

open Quoted

variable {H : Type} [HostCondition H] {a b : Node H .text}

/-- Made of constants without quotes in them. -/
abbrev QuoteFree (a : Node H .text) : Prop := a.Composed fun s => '"' ∉ s.toList

theorem Composed.legible (ha : a.QuoteFree) : Legible a := by
  induction ha with
  | constant hs => exact fun st rest _ => run_literal hs st rest
  | plus ha hb iha ihb => exact iha.plus ihb ha hb
  | minimum _ _ iha ihb => exact iha.call rfl (fun _ _ => rfl) ihb
  | maximum _ _ iha ihb => exact iha.call rfl (fun _ _ => rfl) ihb

theorem Composed.read?_script (ha : a.QuoteFree) : read? a.script = some a := by
  have h := ha.legible.run_of_notInSum [] trivial []
  rw [List.append_nil] at h
  exact h

theorem Composed.exists_eval {P : String → Prop} (ha : a.Composed P) : ∃ s, ∀ c, a.eval c = .ok s := by
  induction ha with
  | @constant s _ => exact ⟨s, fun _ => rfl⟩
  | plus _ _ iha ihb =>
    obtain ⟨s, hs⟩ := iha
    obtain ⟨s', hs'⟩ := ihb
    exact ⟨s ++ s', fun c => by simp only [eval, hs, hs']; rfl⟩
  | minimum _ _ iha ihb =>
    obtain ⟨s, hs⟩ := iha
    obtain ⟨s', hs'⟩ := ihb
    exact ⟨Ty.text.minimum s s', fun c => by simp only [eval, hs, hs']; rfl⟩
  | maximum _ _ iha ihb =>
    obtain ⟨s, hs⟩ := iha
    obtain ⟨s', hs'⟩ := ihb
    exact ⟨Ty.text.maximum s s', fun c => by simp only [eval, hs, hs']; rfl⟩

/-- Where no constant holds a quote, two expressions of texts have one script text only if they are
    the same expression, and then they have one value in all contexts. -/
theorem text_determined (ha : a.QuoteFree) (hb : b.QuoteFree) :
    (a.script = b.script ↔ a = b) ∧ (a.script = b.script → ∃ s, ∀ c, a.eval c = .ok s ∧ b.eval c = .ok s) := by
  have h : a.script = b.script → a = b := by
    intro e
    have hread : read? a.script = some b := e ▸ hb.read?_script
    rw [ha.read?_script] at hread
    exact Option.some.inj hread
  refine ⟨⟨h, fun e => congrArg script e⟩, fun e => ?_⟩
  obtain ⟨s, hs⟩ := ha.exists_eval
  exact ⟨s, fun c => ⟨hs c, h e ▸ hs c⟩⟩

/-- A sum right of a plus, where it is bracketed; constants hold what separates operands elsewhere. -/
def listed : Node Empty .text :=
  .binary .plus (.constant "), ") (.binary .plus (.binary .minimum (.constant "") (.constant "min(")) (.constant " + "))

/-- The sum of the same operands from the left. -/
def relisted : Node Empty .text :=
  .binary .plus (.binary .plus (.constant "), ") (.binary .minimum (.constant "") (.constant "min("))) (.constant " + ")

theorem text_determined_listed :
    listed.QuoteFree ∧ relisted.QuoteFree ∧ listed.script ≠ relisted.script ∧
      ∀ c, listed.eval c = .ok "),  + " := by
  have hmin : (binary .minimum (constant "") (constant "min(") : Node Empty .text).QuoteFree :=
    .minimum (.constant (by decide)) (.constant (by decide))
  have h : listed.QuoteFree := .plus (.constant (by decide)) (.plus hmin (.constant (by decide)))
  have h' : relisted.QuoteFree := .plus (.plus (.constant (by decide)) hmin) (.constant (by decide))
  obtain ⟨s, hs⟩ := (text_determined h h).2 rfl
  have hvalue : listed.eval .empty = .ok "),  + " := rfl
  obtain rfl := Except.ok.inj ((hs .empty).1.symm.trans hvalue)
  refine ⟨h, h', fun e => ?_, fun c => (hs c).1⟩
  cases (text_determined h h').1.mp e

/-- Quotes in a constant can be read as the ends of two. -/
theorem text_not_determined :
    ¬ ∀ a b : Node Empty .text, a.Composed (fun _ => True) → b.Composed (fun _ => True) → a.script = b.script →
        ∀ c, a.eval c = b.eval c := by
  intro h
  let joined : Node Empty .text := .constant "x\" + \"y"
  let sum : Node Empty .text := .binary .plus (.constant "x") (.constant "y")
  have e := h joined sum (.constant trivial) (.plus (.constant trivial) (.constant trivial)) (by decide) .empty
  have hj : joined.eval .empty = .ok "x\" + \"y" := rfl
  have hs : sum.eval .empty = .ok "xy" := rfl
  rw [hj, hs] at e
  exact absurd (Except.ok.inj e) (by decide)

end Node

end RuleExpr
