/-
  RuleExpr.Proofs.Hoisting — operands that can be evaluated ahead of a loop over candidates.

  A `Hole` is an expression with one operand left open, and `Hole.fill` puts an operand
  there. The operand matters by its outcome only (`eval_fill_congr`), and entering levels
  of condition nesting changes no slot but those of the local and the root candidate
  (`agreeOff_nestedIn`). So an operand independent of both can be replaced by the value
  that it has outside the loop.
-/

import RuleExpr.Proofs.Independence

namespace RuleExpr

/-! ## Expressions with a hole -/

/-- An expression of type `t` with a hole of type `r` in place of an operand, at any depth. -/
inductive Hole (H : Type) (r : Ty) : Ty → Type where
  | here : Hole H r r
  | staticCast {s t : Ty} (operand : Hole H r s) : Hole H r t
  | textCast {s : Ty} (operand : Hole H r s) : Hole H r .text
  | unary {t : Ty} (op : UnaryOp) (operand : Hole H r t) : Hole H r t
  | left {t : Ty} (op : BinaryOp) (lhs : Hole H r t) (rhs : Node H t) : Hole H r t
  | right {t : Ty} (op : BinaryOp) (lhs : Node H t) (rhs : Hole H r t) : Hole H r t

namespace Hole

variable {H : Type} {r : Ty}

def fill (n : Node H r) : {t : Ty} → Hole H r t → Node H t
  | _, here => n
  | _, staticCast operand => .staticCast (fill n operand)
  | _, textCast operand => .textCast (fill n operand)
  | _, unary op operand => .unary op (fill n operand)
  | _, left op lhs rhs => .binary op (fill n lhs) rhs
  | _, right op lhs rhs => .binary op lhs (fill n rhs)

theorem eval_fill_congr [HostCondition H] {t : Ty} (k : Hole H r t) {n m : Node H r} {c : Context}
    (h : n.eval c = m.eval c) : (k.fill n).eval c = (k.fill m).eval c := by
  induction k with
  | here => exact h
  | staticCast operand ih => simp only [fill, Node.eval, ih]
  | textCast operand ih => simp only [fill, Node.eval, ih]
  | unary op operand ih => simp only [fill, Node.eval, ih]
  | left op lhs rhs ih => simp only [fill, Node.eval, ih]
  | right op lhs rhs ih => simp only [fill, Node.eval, ih]

end Hole

/-! ## Nesting -/

namespace Context

/-- The context that nesting one candidate after the other leads to. -/
def nestedIn (base : Context) (candidates : List Object) : Context := candidates.foldl nested base

variable {i : Independence}

theorem AgreeOff.refl (i : Independence) (c : Context) : c.AgreeOff i c := ⟨rfl, rfl, rfl, fun _ _ => rfl⟩

theorem AgreeOff.trans {c d e : Context} (hcd : c.AgreeOff i d) (hde : d.AgreeOff i e) : c.AgreeOff i e :=
  ⟨hcd.univ.trans hde.univ, hcd.current.trans hde.current, hcd.seed.trans hde.seed,
    fun s hs => (hcd.slot s hs).trans (hde.slot s hs)⟩

variable (hl : i.localCandidate = true) (hr : i.rootCandidate = true)

include hl hr

theorem agreeOff_nested (c : Context) (o : Object) : (c.nested o).AgreeOff i c := by
  refine ⟨rfl, rfl, rfl, fun s hs => ?_⟩
  cases s with
  | source => rfl
  | effectTarget => rfl
  | localCandidate => exact absurd (hl.symm.trans hs) (by decide)
  | rootCandidate => exact absurd (hr.symm.trans hs) (by decide)

theorem agreeOff_nestedIn (base : Context) (candidates : List Object) : (base.nestedIn candidates).AgreeOff i base := by
  induction candidates generalizing base with
  | nil => exact .refl i base
  | cons o rest ih => exact (ih (base.nested o)).trans (agreeOff_nested hl hr base o)

end Context

/-! ## Hoisting -/

theorem Node.eval_nestedIn {r : Ty} (n : Node Empty r) (hl : n.independence.localCandidate = true)
    (hr : n.independence.rootCandidate = true) (base : Context) (candidates : List Object) :
    n.eval (base.nestedIn candidates) = n.eval base :=
  n.eval_eq_of_agreeOff (fun s _ => s.condition.reliable_builtin) (base.agreeOff_nestedIn hl hr candidates)

/-- An operand that depends on no candidate can be replaced, wherever it stands, by the value
    that it has before the candidates are nested. -/
theorem Hole.eval_fill_hoisted {r t : Ty} (k : Hole Empty r t) (n : Node Empty r)
    (hl : n.independence.localCandidate = true) (hr : n.independence.rootCandidate = true) (base : Context)
    (v : r.Carrier) (hv : n.eval base = .ok v) (candidates : List Object) :
    (k.fill n).eval (base.nestedIn candidates) = (k.fill (.constant v)).eval (base.nestedIn candidates) :=
  k.eval_fill_congr ((n.eval_nestedIn hl hr base candidates).trans hv)

/-- Twice the local candidate's id, with a hole to be added. -/
def scored : Hole Empty .int .int :=
  .right .plus (.binary .times (.var ⟨["LocalCandidate", "ID"], by decide, by decide⟩) (.constant 2)) .here

def greatestId : Node Empty .int := .statistic (.ofIds .max .all)

/-- Two levels of nesting; the second candidate is the local one. -/
theorem eval_fill_hoisted_scored :
    let base : Context := { univ := (Universe.empty.withObject scout).withObject outpost }
    greatestId.independence.localCandidate = true ∧ greatestId.independence.rootCandidate = true ∧
      greatestId.eval base = .ok 7 ∧
      (scored.fill greatestId).eval (base.nestedIn [scout, outpost]) = .ok 13 ∧
      (scored.fill greatestId).eval (base.nestedIn [scout, outpost])
        = (scored.fill (.constant 7)).eval (base.nestedIn [scout, outpost]) := by
  intro base
  exact ⟨rfl, rfl, rfl, rfl, scored.eval_fill_hoisted greatestId rfl rfl base 7 rfl [scout, outpost]⟩

end RuleExpr
