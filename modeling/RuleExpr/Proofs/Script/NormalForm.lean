/-
  RuleExpr.Proofs.Script.NormalForm — negations of positive constants as negative constants.

  The script text of a negated positive constant is that of the negative constant
  (`script_negated`), so a text cannot tell the two apart. `Node.normal` keeps the second
  only. Neither the text (`script_normal`) nor the value (`eval_normal`) of an expression
  changes: a changed operand is bracketed before and after, first as a negation and then
  for its minus sign (`enclose_normal`).
-/

import RuleExpr.Node.Eval
import RuleExpr.Node.Text
import RuleExpr.Proofs.Decimal

namespace RuleExpr

theorem toInt_neg_of_pos {n : Int32} (h : 0 < n) : (-n).toInt = -n.toInt := by
  have hlo : (0 : Int32).toInt < n.toInt := Int32.lt_iff_toInt_lt.mp h
  have hhi : n.toInt ≤ Int32.maxValue.toInt := n.toInt_le
  have h0 : (0 : Int32).toInt = 0 := rfl
  have hmax : Int32.maxValue.toInt = 2147483647 := rfl
  rw [Int32.toInt_neg, Int.bmod_eq_of_le] <;> omega

namespace Node

variable {H : Type}

/-! ## The normal form -/

/-- The negation, or the negative constant. -/
def negated : {t : Ty} → Node H t → Node H t
  | .int, constant n => if 0 < n then constant (-n) else unary .negate (constant n)
  | _, operand => unary .negate operand

def normal : {t : Ty} → Node H t → Node H t
  | _, unary .negate operand => negated (normal operand)
  | _, unary op operand => unary op (normal operand)
  | _, binary op lhs rhs => binary op (normal lhs) (normal rhs)
  | _, leaf => leaf

theorem normal_unary {t : Ty} {op : UnaryOp} (hop : op ≠ .negate) (a : Node H t) :
    (unary op a).normal = unary op a.normal := by
  cases op with
  | negate => exact absurd rfl hop
  | _ => rfl

/-- Just the positive constants are negated in place. -/
theorem negated_cases (a : Node H .int) :
    (∃ n, 0 < n ∧ a = constant n ∧ negated a = constant (-n)) ∨
      ((∀ n, 0 < n → a ≠ constant n) ∧ negated a = unary .negate a) := by
  cases a with
  | constant n =>
    by_cases hn : 0 < n
    · exact .inl ⟨n, hn, rfl, if_pos hn⟩
    · refine .inr ⟨fun m hm e => ?_, if_neg hn⟩
      cases e
      exact hn hm
  | _ => exact .inr ⟨nofun, rfl⟩

theorem eq_constant_of_normal {a : Node H .int} {n : Int32} (hn : 0 < n) (h : a.normal = constant n) :
    a = constant n := by
  cases a with
  | unary op b =>
    by_cases hop : op = .negate
    · subst hop
      rw [normal] at h
      rcases negated_cases b.normal with ⟨m, hm, _, e⟩ | ⟨_, e⟩
      · -- A negated constant is not positive.
        rw [e] at h
        cases h
        have hlo := Int32.lt_iff_toInt_lt.mp hn
        have hm' := Int32.lt_iff_toInt_lt.mp hm
        have h0 : (0 : Int32).toInt = 0 := rfl
        rw [toInt_neg_of_pos hm] at hlo
        omega
      · rw [e] at h
        cases h
    · rw [normal_unary hop] at h
      cases h
  | binary op b c => cases h
  | _ => exact h

/-! ## Its value -/

theorem eval_negated [HostCondition H] {t : Ty} (a : Node H t) (c : Context) :
    (negated a).eval c = (unary .negate a).eval c := by
  unfold negated
  split
  · next n =>
    split
    · next hn =>
      have e : int32? (-n.toInt) = some (-n) := int32?_eq_some_iff.mpr (toInt_neg_of_pos hn)
      show _ = Ty.checked (t := .int) (.unary .negate) (int32? (-n.toInt))
      rw [e]
      rfl
    · rfl
  · rfl

theorem eval_normal [HostCondition H] {t : Ty} (a : Node H t) (c : Context) : a.normal.eval c = a.eval c := by
  induction a with
  | unary op operand ih =>
    cases op with
    | negate => rw [normal, eval_negated, eval, eval, ih]
    | _ => simp only [normal, eval, ih]
  | binary op lhs rhs ihl ihr => simp only [normal, eval, ihl, ihr]
  | _ => rfl

/-! ## Its text -/

section Script

variable [HostCondition H] {t : Ty}

theorem script_negate (a : Node H t) :
    (unary .negate a).script = "-" ++ enclose Op.wrappedByNegation a.topOp a.script := render_negate _ a

theorem script_unary {op : UnaryOp} (hop : op ≠ .negate) (a : Node H t) :
    (unary op a).script = op.function ++ bracketed a.script := render_unary _ hop a

theorem script_between {op : BinaryOp} {symbol : String} {p : Nat} (hop : op.form = .between symbol p)
    (a b : Node H t) :
    (binary op a b).script = enclose (Op.wrappedBy op .left) a.topOp a.script ++ " " ++ symbol ++ " "
      ++ enclose (Op.wrappedBy op .right) b.topOp b.script := render_between _ hop a b

theorem script_call {op : BinaryOp} {f : String} (hop : op.form = .call f) (a b : Node H t) :
    (binary op a b).script = f ++ bracketed (a.script ++ ", " ++ b.script) := render_call _ hop a b

theorem script_negate_minus (a : Node H t) : startsWithMinus (unary .negate a).script = true := by
  rw [script_negate, startsWithMinus, String.toList_append]
  rfl

theorem script_constant_nonneg {n : Int32} {k : Nat} (h : n.toInt = k) :
    (constant n : Node H .int).script = k.repr := by
  show Int.repr n.toInt = k.repr
  rw [h]
  rfl

theorem script_constant_neg {n : Int32} {k : Nat} (h : n.toInt = -(k + 1 : Nat)) :
    (constant n : Node H .int).script = "-" ++ (k + 1).repr := by
  show Int.repr n.toInt = _
  rw [h]
  rfl

theorem startsWithMinus_repr (k : Nat) : startsWithMinus k.repr = false := by
  unfold startsWithMinus
  rw [beq_eq_false_iff_ne]
  intro h
  exact Decimal.minus_not_mem_repr k (List.mem_of_head? h)

theorem script_negated (a : Node H t) : (negated a).script = (unary .negate a).script := by
  unfold negated
  split
  · next n =>
    split
    · next hn =>
      obtain ⟨k, hk⟩ : ∃ k : Nat, n.toInt = (k + 1 : Nat) := by
        have h0 : (0 : Int32).toInt < n.toInt := Int32.lt_iff_toInt_lt.mp hn
        have h0' : (0 : Int32).toInt = 0 := rfl
        exact ⟨n.toInt.toNat - 1, by omega⟩
      have hneg : (-n).toInt = -(k + 1 : Nat) := by rw [toInt_neg_of_pos hn, hk]
      rw [script_constant_neg hneg, script_negate, script_constant_nonneg hk, enclose, startsWithMinus_repr]
      rfl
    · rfl
  · rfl

/-- A normal form is bracketed wherever the expression is. -/
theorem enclose_normal (wrapped : Op → Bool) (a : Node H t) :
    enclose wrapped a.normal.topOp a.script = enclose wrapped a.topOp a.script := by
  cases a with
  | unary op operand =>
    cases op with
    | negate => simp only [enclose, script_negate_minus, Bool.or_true]
    | _ => rfl
  | _ => rfl

theorem script_normal (a : Node H t) : a.normal.script = a.script := by
  induction a with
  | unary op operand ih =>
    cases op with
    | negate => rw [normal, script_negated, script_negate, script_negate, ih, enclose_normal]
    | _ => exact congrArg (fun s => _ ++ bracketed s) ih
  | binary op lhs rhs ihl ihr =>
    rw [normal]
    cases hop : op.form with
    | between symbol p =>
      rw [script_between hop, script_between hop, ihl, ihr, enclose_normal, enclose_normal]
    | call f => rw [script_call hop, script_call hop, ihl, ihr]
  | _ => rfl

end Script

end Node

end RuleExpr
