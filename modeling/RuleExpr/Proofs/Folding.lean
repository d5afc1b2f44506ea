/-
  RuleExpr.Proofs.Folding — constant expressions can be evaluated ahead of time.

  A constant expression is made of constants and operators that do not draw. It has every
  flag, and one outcome in all contexts, be that a value or an error (`eval_of_isConstant`).

  A subexpression stands at a position, the list of operand numbers that lead down to it.
  `Node.foldAt` replaces the subexpressions at marked positions by the values they have. The
  result is `Alike`: it has the outcome in every context, the flags, and the constancy of what
  it was made from. Operands are exchanged for alike ones under any node, so this needs a
  reason at the marked positions only.
-/

import RuleExpr.Proofs.Independence

namespace RuleExpr

/-! ## Constant expressions -/

namespace Node

variable {H : Type} {t : Ty}

theorem isConstant_binary {op : BinaryOp} {lhs rhs : Node H t} :
    (binary op lhs rhs).isConstant = true ↔ op ≠ .randomUniform ∧ lhs.isConstant = true ∧ rhs.isConstant = true := by
  simp only [isConstant, Bool.and_eq_true, decide_eq_true_eq, and_assoc]

variable [HostCondition H]

theorem independence_of_isConstant (n : Node H t) (h : n.isConstant = true) : n.independence = .full := by
  induction n with
  | constant v => rfl
  | unary op operand ih => exact ih h
  | binary op lhs rhs ihl ihr =>
    obtain ⟨-, hl, hr⟩ := isConstant_binary.mp h
    rw [independence, ihl hl, ihr hr]
    rfl
  | _ => cases h

theorem eval_of_isConstant (n : Node H t) (h : n.isConstant = true) (c d : Context) : n.eval c = n.eval d := by
  induction n with
  | constant v => rfl
  | unary op operand ih => simp only [eval, ih h]
  | binary op lhs rhs ihl ihr =>
    obtain ⟨hop, hl, hr⟩ := isConstant_binary.mp h
    simp only [eval, ihl hl, ihr hr, Ty.applyBinary_of_ne_randomUniform hop _ _ c.seed d.seed]
  | _ => cases h

/-! ## Alike expressions -/

/-- No caller can tell the two apart by evaluating or analysing them. -/
structure Alike (a b : Node H t) : Prop where
  eval : ∀ c, a.eval c = b.eval c
  independence : a.independence = b.independence
  isConstant : a.isConstant = b.isConstant

namespace Alike

variable {s : Ty} {a a' b b' : Node H t}

theorem refl (a : Node H t) : a.Alike a := ⟨fun _ => rfl, rfl, rfl⟩

theorem staticCast (h : a.Alike b) : (staticCast a : Node H s).Alike (staticCast b) :=
  ⟨fun c => by simp only [Node.eval, h.eval], h.independence, rfl⟩

theorem textCast (h : a.Alike b) : (textCast a).Alike (textCast b) :=
  ⟨fun c => by simp only [Node.eval, h.eval], h.independence, rfl⟩

theorem unary (op : UnaryOp) (h : a.Alike b) : (unary op a).Alike (unary op b) :=
  ⟨fun c => by simp only [Node.eval, h.eval], h.independence, h.isConstant⟩

theorem binary (op : BinaryOp) (h : a.Alike b) (h' : a'.Alike b') : (binary op a a').Alike (binary op b b') :=
  ⟨fun c => by simp only [Node.eval, h.eval, h'.eval],
   by simp only [Node.independence, h.independence, h'.independence],
   by simp only [Node.isConstant, h.isConstant, h'.isConstant]⟩

end Alike

/-! ## Folding -/

/-- The value in place of the expression, if there is one without a context. -/
def folded (n : Node H t) : Node H t :=
  match n.evalAlone with
  | .ok v => constant v
  | .error _ => n

theorem alike_folded (n : Node H t) (h : n.isConstant = true) : n.folded.Alike n := by
  unfold folded
  split
  · next v hv =>
    refine ⟨fun c => ?_, (n.independence_of_isConstant h).symm, h.symm⟩
    exact hv.symm.trans (n.eval_of_isConstant h .empty c)
  · exact .refl n

omit [HostCondition H] in
/-- The operands, from left to right. -/
def operands : {t : Ty} → Node H t → List (Σ s, Node H s)
  | _, staticCast operand => [⟨_, operand⟩]
  | _, textCast operand => [⟨_, operand⟩]
  | _, unary _ operand => [⟨_, operand⟩]
  | _, binary _ lhs rhs => [⟨_, lhs⟩, ⟨_, rhs⟩]
  | _, _ => []

/-- The subexpression at a position. -/
def at? {t : Ty} (n : Node H t) : List Nat → Option (Σ s, Node H s)
  | [] => some ⟨t, n⟩
  | i :: p => n.operands[i]?.bind fun m => m.2.at? p

/-- Folds the subexpressions at marked positions. Below a marked position marks do not count. -/
def foldAt : {t : Ty} → Node H t → (List Nat → Bool) → Node H t
  | _, n, marked =>
    if marked [] then n.folded
    else match n with
      | constant v => constant v
      | var x => var x
      | statistic s => statistic s
      | staticCast operand => staticCast (foldAt operand fun p => marked (0 :: p))
      | textCast operand => textCast (foldAt operand fun p => marked (0 :: p))
      | unary op operand => unary op (foldAt operand fun p => marked (0 :: p))
      | binary op lhs rhs =>
        binary op (foldAt lhs fun p => marked (0 :: p)) (foldAt rhs fun p => marked (1 :: p))

theorem foldAt_of_marked {n : Node H t} {marked : List Nat → Bool} (h : marked [] = true) :
    n.foldAt marked = n.folded := by
  unfold foldAt
  exact if_pos h

theorem operands_foldAt {n : Node H t} {marked : List Nat → Bool} (h : marked [] = false) :
    (n.foldAt marked).operands = n.operands.mapIdx fun i m => ⟨m.1, m.2.foldAt fun p => marked (i :: p)⟩ := by
  cases n <;> simp only [foldAt, h, Bool.false_eq_true, if_false] <;> rfl

/-- Where no mark stands above it, a marked subexpression is folded in place. -/
theorem at?_foldAt {n : Node H t} {marked : List Nat → Bool} {p : List Nat} {s : Ty} {m : Node H s}
    (hp : marked p = true) (habove : ∀ q, marked q = true → q <+: p → q = p) (hm : n.at? p = some ⟨s, m⟩) :
    (n.foldAt marked).at? p = some ⟨s, m.folded⟩ := by
  induction p generalizing t marked with
  | nil =>
    cases hm
    rw [foldAt_of_marked hp]
    rfl
  | cons i p ih =>
    have hroot : marked [] = false := by
      refine Bool.eq_false_iff.mpr fun h => ?_
      exact List.cons_ne_nil i p (habove [] h List.nil_prefix).symm
    have habove' : ∀ q, marked (i :: q) = true → q <+: p → q = p := by
      intro q hq hqp
      exact (List.cons.inj (habove (i :: q) hq (List.prefix_cons_inj i |>.mpr hqp))).2
    obtain ⟨⟨r, o⟩, ho, hom⟩ := Option.bind_eq_some_iff.mp hm
    rw [at?, operands_foldAt hroot, List.getElem?_mapIdx, ho]
    exact ih hp habove' hom

/-- At every marked position of `n` stands a constant expression. -/
def MarksConstants (n : Node H t) (marked : List Nat → Bool) : Prop :=
  ∀ p s m, marked p = true → n.at? p = some ⟨s, m⟩ → m.isConstant = true

theorem alike_foldAt_of_operands {n : Node H t} {marked : List Nat → Bool} (h : n.MarksConstants marked)
    (hoperands : ¬ marked [] = true → (n.foldAt marked).Alike n) : (n.foldAt marked).Alike n := by
  by_cases hm : marked [] = true
  · rw [foldAt_of_marked hm]
    exact alike_folded n (h [] _ _ hm rfl)
  · exact hoperands hm

theorem alike_foldAt (n : Node H t) (marked : List Nat → Bool) (h : n.MarksConstants marked) :
    (n.foldAt marked).Alike n := by
  induction n generalizing marked with
  | constant | var | statistic =>
    refine alike_foldAt_of_operands h fun hm => ?_
    rw [foldAt, if_neg hm]
    exact .refl _
  | staticCast operand ih =>
    refine alike_foldAt_of_operands h fun hm => ?_
    rw [foldAt, if_neg hm]
    exact (ih _ fun p => h (0 :: p)).staticCast
  | textCast operand ih =>
    refine alike_foldAt_of_operands h fun hm => ?_
    rw [foldAt, if_neg hm]
    exact (ih _ fun p => h (0 :: p)).textCast
  | unary op operand ih =>
    refine alike_foldAt_of_operands h fun hm => ?_
    rw [foldAt, if_neg hm]
    exact (ih _ fun p => h (0 :: p)).unary op
  | binary op lhs rhs ihl ihr =>
    refine alike_foldAt_of_operands h fun hm => ?_
    rw [foldAt, if_neg hm]
    exact (ihl _ fun p => h (0 :: p)).binary op (ihr _ fun p => h (1 :: p))

/-- Let constant expressions stand at the marked positions, none of them below another. Each has
    every flag and one outcome in all contexts; if that is a value, the value stands in its place
    afterwards. The whole expression keeps its outcomes, its flags and its constancy. -/
theorem folding_is_sound (n : Node H t) (marked : List Nat → Bool) (hconstant : n.MarksConstants marked)
    (hdisjoint : ∀ p q, marked p = true → marked q = true → p <+: q → p = q) :
    (∀ p s m, marked p = true → n.at? p = some ⟨s, m⟩ →
      m.independence = .full ∧ (∀ c d, m.eval c = m.eval d) ∧
        (n.foldAt marked).at? p = some ⟨s, m.folded⟩) ∧
      (∀ c, (n.foldAt marked).eval c = n.eval c) ∧
      (n.foldAt marked).independence = n.independence ∧ (n.foldAt marked).isConstant = n.isConstant := by
  have hn := n.alike_foldAt marked hconstant
  refine ⟨fun p s m hp hm => ?_, hn.eval, hn.independence, hn.isConstant⟩
  have hc := hconstant p s m hp hm
  have hat := at?_foldAt hp (fun q hq => hdisjoint q p hq hp) hm
  exact ⟨m.independence_of_isConstant hc, m.eval_of_isConstant hc, hat⟩

/-- A draw from the first operand up, and the second operand as a whole number. -/
def drawnAnd (lowest : Node Empty .int) (ratio : Node Empty .double) : Node Empty .int :=
  .binary .plus (.binary .randomUniform lowest (.constant 9)) (.staticCast ratio)

/-- Of two marked operands one has a value, and the other, under a cast, divides by zero. -/
theorem folding_is_sound_drawn :
    let three : Node Empty .int := .binary .plus (.constant 1) (.unary .abs (.constant (-2)))
    let ratio : Node Empty .double := .binary .divide (.constant 1.0) (.constant 0.0)
    let n := drawnAnd three ratio
    let marked : List Nat → Bool := [[0, 0], [1, 0]].contains
    n.MarksConstants marked ∧ (∀ p q, marked p = true → marked q = true → p <+: q → p = q) ∧
      ratio.evalAlone = .error (.arithmetic .divisionByZero) ∧ n.foldAt marked = drawnAnd (.constant 3) ratio ∧
      ∀ c, (n.foldAt marked).eval c = n.eval c := by
  intro three ratio n marked
  have hm : ∀ p, marked p = true → p = [0, 0] ∨ p = [1, 0] := by
    intro p hp
    simpa [marked] using hp
  have hconstant : n.MarksConstants marked := by
    intro p s m hp hat
    rcases hm p hp with rfl | rfl <;> cases hat <;> rfl
  have hdisjoint : ∀ p q, marked p = true → marked q = true → p <+: q → p = q := by
    intro p q hp hq
    rcases hm p hp with rfl | rfl <;> rcases hm q hq with rfl | rfl <;> decide
  exact ⟨hconstant, hdisjoint, rfl, rfl, (folding_is_sound n marked hconstant hdisjoint).2.1⟩

end Node

end RuleExpr
