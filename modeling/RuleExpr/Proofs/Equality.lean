/-
  RuleExpr.Proofs.Equality — expressions that compare equal.

  Equal expressions over built-in conditions are the same tree but for the signs of constants
  that are zero (`UpToZeros`). Given the signs they are one expression, with one text and one
  outcome in every context. The text always tells the signs apart: where two such trees first
  differ, one has `0.0` for a constant and the other `-0.0`, bracketed or not.
-/

import Mathlib
import RuleExpr.Node.Eval
import RuleExpr.Node.Same
import RuleExpr.Proofs.Script.NormalForm

namespace RuleExpr

theorem Statistic.eq_of_same {a b : Statistic Empty} (h : a.same b = true) : a = b := by
  obtain ⟨reduction, property, condition, _, _⟩ := a
  obtain ⟨reduction', property', condition', _, _⟩ := b
  simp only [same, Bool.and_eq_true, beq_iff_eq, Condition.same_iff] at h
  obtain ⟨⟨rfl, rfl⟩, rfl⟩ := h
  rfl

/-! ## The same tree but for the signs of zeros -/

theorem zero_ne_neg_zero : (0.0 : Float) ≠ -0.0 :=
  fun h => absurd (congrArg Float.toBits h) (by decide)

/-- The value, if it is a zero. -/
def Ty.zeros : (t : Ty) → t.Carrier → List Float
  | double, x => if x == 0.0 then [x] else []
  | _, _ => []

namespace Node

variable {H : Type} {t : Ty}

/-- One tree, but constants at the same place may be zeros of opposite signs. -/
inductive UpToZeros : {t : Ty} → Node H t → Node H t → Prop
  | constant {t : Ty} (v : t.Carrier) : UpToZeros (t := t) (.constant v) (.constant v)
  | positive : UpToZeros (t := .double) (.constant (0.0 : Float)) (.constant (-0.0 : Float))
  | negative : UpToZeros (t := .double) (.constant (-0.0 : Float)) (.constant (0.0 : Float))
  | var {t : Ty} (x : Variable) : UpToZeros (t := t) (.var x) (.var x)
  | statistic {t : Ty} (s : Statistic H) : UpToZeros (t := t) (.statistic s) (.statistic s)
  | staticCast {s t : Ty} {a b : Node H s} (h : UpToZeros a b) : UpToZeros (t := t) (.staticCast a) (.staticCast b)
  | textCast {s : Ty} {a b : Node H s} (h : UpToZeros a b) : UpToZeros (.textCast a) (.textCast b)
  | unary {t : Ty} (op : UnaryOp) {a b : Node H t} (h : UpToZeros a b) : UpToZeros (.unary op a) (.unary op b)
  | binary {t : Ty} (op : BinaryOp) {a b a' b' : Node H t} (h : UpToZeros a b) (h' : UpToZeros a' b') :
    UpToZeros (.binary op a a') (.binary op b b')

/-- The double constants that are zero, from left to right, with their signs. -/
def zeros : {t : Ty} → Node H t → List Float
  | t, constant v => t.zeros v
  | _, staticCast operand => zeros operand
  | _, textCast operand => zeros operand
  | _, unary _ operand => zeros operand
  | _, binary _ lhs rhs => zeros lhs ++ zeros rhs
  | _, _ => []

namespace UpToZeros

theorem of_constant {v w : t.Carrier} (h : t.same v w = true) :
    UpToZeros (H := H) (.constant v) (.constant w) := by
  cases t with
  | double =>
    rcases (Float.beq_iff_ne_nan_and_eq.mp h).2.2 with rfl | ⟨rfl, rfl⟩ | ⟨rfl, rfl⟩
    · exact .constant v
    · exact .positive
    · exact .negative
  | _ =>
    cases (eq_of_beq h : v = w)
    exact .constant v

/-- Equal expressions have one type, and are one tree but for the signs of zeros. -/
theorem of_same {s t : Ty} {a : Node Empty s} {b : Node Empty t} (h : a.same b = true) :
    ∃ e : s = t, UpToZeros (e ▸ a) b := by
  -- Nodes of two kinds are never equal, so the kind of `b` is that of `a`.
  induction a generalizing t with
  | @constant s v =>
    cases b with
    | constant w =>
      change (if e : s = t then t.same (e ▸ v) w else false) = true at h
      split at h
      · next e =>
        subst e
        exact ⟨rfl, of_constant h⟩
      · cases h
    | _ => simp [same] at h
  | var x =>
    cases b with
    | var y =>
      simp only [same, Bool.and_eq_true, beq_iff_eq] at h
      obtain ⟨rfl, rfl⟩ := h
      exact ⟨rfl, .var x⟩
    | _ => simp [same] at h
  | statistic x =>
    cases b with
    | statistic y =>
      simp only [same, Bool.and_eq_true, beq_iff_eq] at h
      obtain ⟨rfl, hxy⟩ := h
      cases Statistic.eq_of_same hxy
      exact ⟨rfl, .statistic x⟩
    | _ => simp [same] at h
  | staticCast operand ih =>
    cases b with
    | staticCast operand' =>
      simp only [same, Bool.and_eq_true, beq_iff_eq] at h
      obtain ⟨rfl, hoperand⟩ := h
      obtain ⟨rfl, hu⟩ := ih hoperand
      exact ⟨rfl, .staticCast hu⟩
    | _ => simp [same] at h
  | textCast operand ih =>
    cases b with
    | textCast operand' =>
      obtain ⟨rfl, hu⟩ := ih h
      exact ⟨rfl, .textCast hu⟩
    | _ => simp [same] at h
  | unary op operand ih =>
    cases b with
    | unary op' operand' =>
      simp only [same, Bool.and_eq_true, beq_iff_eq] at h
      obtain ⟨rfl, hoperand⟩ := h
      obtain ⟨rfl, hu⟩ := ih hoperand
      exact ⟨rfl, .unary op hu⟩
    | _ => simp [same] at h
  | binary op lhs rhs ihl ihr =>
    cases b with
    | binary op' lhs' rhs' =>
      simp only [same, Bool.and_eq_true, beq_iff_eq] at h
      obtain ⟨⟨rfl, hlhs⟩, hrhs⟩ := h
      obtain ⟨rfl, hl⟩ := ihl hlhs
      obtain ⟨_, hr⟩ := ihr hrhs
      exact ⟨rfl, .binary op hl hr⟩
    | _ => simp [same] at h

variable {a b : Node H t}

theorem length_zeros (h : a.UpToZeros b) : a.zeros.length = b.zeros.length := by
  induction h with
  | constant | var | statistic | positive | negative => rfl
  | staticCast _ ih | textCast _ ih | unary _ _ ih => simpa only [zeros] using ih
  | binary op _ _ ih ih' => simp only [zeros, List.length_append, ih, ih']

theorem eq_of_zeros (h : a.UpToZeros b) (hz : a.zeros = b.zeros) : a = b := by
  induction h with
  | constant | var | statistic => rfl
  | positive => exact absurd (List.head_eq_of_cons_eq hz) zero_ne_neg_zero
  | negative => exact absurd (List.head_eq_of_cons_eq hz).symm zero_ne_neg_zero
  | staticCast _ ih | textCast _ ih | unary _ _ ih => rw [ih hz]
  | binary op h _ ih ih' =>
    obtain ⟨hl, hr⟩ := List.append_inj hz h.length_zeros
    rw [ih hl, ih' hr]

theorem topOp_eq (h : a.UpToZeros b) : a.topOp = b.topOp := by
  induction h with
  | staticCast _ ih | textCast _ ih => exact ih
  | _ => rfl

end UpToZeros

/-! ## Texts -/

theorem append_ne_zero_append {s : String} {c : Char} {cs : List Char} (hs : s.toList = c :: cs) (hc : c ≠ '0')
    (t t' : String) : s ++ t ≠ "0.0" ++ t' := by
  intro h
  have hhead : c = '0' := by simpa [hs] using congrArg (fun u => u.toList.head?) h
  exact hc hhead

section Script

variable [HostCondition H] {a b : Node H t}

theorem script_zero : (constant (0.0 : Float) : Node H .double).script = "0.0" := by rfl

theorem script_neg_zero : (constant (-0.0 : Float) : Node H .double).script = "-0.0" := by rfl

namespace UpToZeros

/-- One text begins with a minus sign and the other one does not only where they are zeros. -/
theorem startsWithMinus_eq (h : a.UpToZeros b) :
    startsWithMinus a.script = startsWithMinus b.script ∨
      a.script = "0.0" ∧ b.script = "-0.0" ∨ a.script = "-0.0" ∧ b.script = "0.0" := by
  induction h with
  | constant | var | statistic => exact .inl rfl
  | positive => exact .inr (.inl ⟨script_zero, script_neg_zero⟩)
  | negative => exact .inr (.inr ⟨script_neg_zero, script_zero⟩)
  | staticCast _ ih | textCast _ ih => exact ih
  | unary op _ _ =>
    left
    by_cases hop : op = .negate
    · rw [hop, script_negate_minus, script_negate_minus]
    · rw [script_unary hop, script_unary hop, startsWithMinus_call, startsWithMinus_call]
  | binary op _ _ _ _ =>
    left
    cases hop : op.form with
    | between symbol p =>
      rw [script_between hop, script_between hop, startsWithMinus_between, startsWithMinus_between,
        startsWithMinus_enclose, startsWithMinus_enclose]
    | call f => rw [script_call hop, script_call hop, startsWithMinus_call, startsWithMinus_call]

theorem eq_of_enclose (h : a.UpToZeros b) (ih : ∀ {s s'}, a.script ++ s = b.script ++ s' → a = b)
    {wrapped : Op → Bool} {s s' : String}
    (e : enclose wrapped a.topOp a.script ++ s = enclose wrapped b.topOp b.script ++ s') : a = b := by
  have hbracketed : bracketed a.script ++ s = bracketed b.script ++ s' → a = b := by
    intro e
    simp only [bracketed, String.append_assoc, String.append_right_inj] at e
    exact ih e
  rw [enclose, enclose, h.topOp_eq] at e
  by_cases hw : b.topOp.any wrapped = true
  · rw [hw, Bool.true_or, Bool.true_or, if_pos rfl, if_pos rfl] at e
    exact hbracketed e
  -- The operator asks for no brackets, so they tell a leading minus sign from none.
  rcases h.startsWithMinus_eq with hm | ⟨ha, hb⟩ | ⟨ha, hb⟩
  · rw [hm] at e
    split at e
    · exact hbracketed e
    · exact ih e
  · rw [ha, hb, Bool.eq_false_of_not_eq_true hw] at e
    exact absurd e.symm (append_ne_zero_append (by rfl) (by decide) s' s)
  · rw [ha, hb, Bool.eq_false_of_not_eq_true hw] at e
    exact absurd e (append_ne_zero_append (by rfl) (by decide) s s')

/-- The texts need not end here: those of two left operands end at one place only once they are
    known to be the same. -/
theorem eq_of_script_append (h : a.UpToZeros b) {s s' : String} (e : a.script ++ s = b.script ++ s') : a = b := by
  induction h generalizing s s' with
  | constant | var | statistic => rfl
  | positive =>
    rw [script_zero, script_neg_zero] at e
    exact absurd e.symm (append_ne_zero_append (by rfl) (by decide) s' s)
  | negative =>
    rw [script_zero, script_neg_zero] at e
    exact absurd e (append_ne_zero_append (by rfl) (by decide) s s')
  | staticCast _ ih | textCast _ ih => rw [ih e]
  | unary op h ih =>
    by_cases hop : op = .negate
    · subst hop
      rw [script_negate, script_negate, String.append_assoc, String.append_assoc, String.append_right_inj] at e
      rw [h.eq_of_enclose ih e]
    · rw [script_unary hop, script_unary hop, bracketed, bracketed] at e
      simp only [String.append_assoc, String.append_right_inj] at e
      rw [ih e]
  | binary op hl hr ihl ihr =>
    cases hop : op.form with
    | between symbol p =>
      rw [script_between hop, script_between hop] at e
      simp only [String.append_assoc] at e
      obtain rfl := hl.eq_of_enclose ihl e
      simp only [String.append_right_inj] at e
      rw [hr.eq_of_enclose ihr e]
    | call f =>
      rw [script_call hop, script_call hop, bracketed, bracketed] at e
      simp only [String.append_assoc, String.append_right_inj] at e
      obtain rfl := ihl e
      rw [String.append_right_inj, String.append_right_inj] at e
      rw [ihr e]

end UpToZeros

end Script

/-! ## Equal expressions -/

/-- Equal expressions whose zeros have the same signs have one outcome in every context, with
    one plain text, and one script text; and where the signs differ the script texts do, too. -/
theorem same_congruent {t : Ty} {a b : Node Empty t} (h : a.same b = true) :
    (a.zeros = b.zeros →
      (∀ c, a.eval c = b.eval c ∧ (textCast a).eval c = (textCast b).eval c) ∧ a.script = b.script) ∧
    (a.script = b.script → a.zeros = b.zeros) := by
  obtain ⟨_, hu⟩ := UpToZeros.of_same h
  change a.UpToZeros b at hu
  constructor
  · intro hz
    cases hu.eq_of_zeros hz
    exact ⟨fun _ => ⟨rfl, rfl⟩, rfl⟩
  · intro hs
    rw [hu.eq_of_script_append (congrArg (· ++ "") hs)]

/-- The difference of two doubles, written out. -/
def difference (x y : Float) : Node Empty .text := textCast (s := .double) (binary .minus (constant x) (constant y))

theorem same_congruent_difference :
    (∀ c, (difference (0.0 * -1.0) 0.0).eval c = (difference (-0.0) 0.0).eval c) ∧
      (difference (0.0 * -1.0) 0.0).script ≠ (difference 0.0 (-0.0)).script := by
  have hsame : (difference (0.0 * -1.0) 0.0).same (difference (-0.0) 0.0) = true := by rfl
  have hswapped : (difference (0.0 * -1.0) 0.0).same (difference 0.0 (-0.0)) = true := by rfl
  refine ⟨fun c => ((same_congruent hsame).1 (by rfl)).1 c |>.1, fun hs => ?_⟩
  have hz : [0.0 * -1.0, (0.0 : Float)] = [0.0, -0.0] := (same_congruent hswapped).2 hs
  exact zero_ne_neg_zero (List.head_eq_of_cons_eq hz).symm

/-- The two zeros are equal, but neither their script texts are nor their plain texts. -/
theorem same_zeros_differ :
    (constant (0.0 : Float) : Node Empty .double).same (constant (-0.0 : Float) : Node Empty .double) = true ∧
      (constant (0.0 : Float) : Node Empty .double).script ≠ (constant (-0.0 : Float) : Node Empty .double).script ∧
      ∀ c, (textCast (constant (0.0 : Float) : Node Empty .double)).eval c
        ≠ (textCast (constant (-0.0 : Float) : Node Empty .double)).eval c := by
  refine ⟨by rfl, ?_, fun c h => ?_⟩
  · rw [script_zero, script_neg_zero]
    decide
  have hplain : Ty.double.plainText (0.0 : Float) = Ty.double.plainText (-0.0 : Float) := Except.ok.inj h
  exact absurd hplain (by decide +kernel)

end Node

end RuleExpr
