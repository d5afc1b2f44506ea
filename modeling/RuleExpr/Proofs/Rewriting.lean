/-
  RuleExpr.Proofs.Rewriting — rewriting an expression at many positions at once.

  A position is the list of operand numbers that lead down to a subexpression. `Node.rewriteAt`
  goes up from the leaves and applies to each subexpression the rule for its position. A relation
  that all nodes hand on from their operands (`Congruence`) holds between the rewritten expression
  and the original as soon as no single rule breaks it (`Congruence.rewriteAt`).

  One such rule puts a cast around an expression to the type that it has, which for text is the
  rendering as text. The cast gives back every value that it gets, and no text or analysis of an
  expression shows it. For brackets to come out the same it matters that the outermost operator is
  seen through casts, so `Seamless` keeps track of it: expressions that agree in it and in all else
  that can be asked of them stay so under every node (`congruence_seamless`). Casts can then be put
  anywhere, in any number (`own_casts_invisible`).
-/

import RuleExpr.Node.Eval
import RuleExpr.Node.Independence
import RuleExpr.Node.Text

namespace RuleExpr

theorem Value.castTo_self {t : Ty} (ht : t ≠ .text) (v : t.Carrier) : Value.castTo t (.of t v) = .ok v := by
  cases t with
  | int => rfl
  | double => rfl
  | text => exact absurd rfl ht
  | enum e => exact dif_pos rfl

namespace Node

/-! ## Rewriting -/

variable {H : Type}

/-- A rule for each position. -/
abbrev Rules (H : Type) := List Nat → {t : Ty} → Node H t → Node H t

def rewriteAt : {t : Ty} → Node H t → Rules H → Node H t
  | _, constant v, rules => rules [] (constant v)
  | _, var x, rules => rules [] (var x)
  | _, statistic s, rules => rules [] (statistic s)
  | _, staticCast operand, rules => rules [] (staticCast (rewriteAt operand fun p => rules (0 :: p)))
  | _, textCast operand, rules => rules [] (textCast (rewriteAt operand fun p => rules (0 :: p)))
  | _, unary op operand, rules => rules [] (unary op (rewriteAt operand fun p => rules (0 :: p)))
  | _, binary op lhs rhs, rules =>
    rules [] (binary op (rewriteAt lhs fun p => rules (0 :: p)) (rewriteAt rhs fun p => rules (1 :: p)))

/-- Expressions with related operands are related. -/
structure Congruence (R : {t : Ty} → Node H t → Node H t → Prop) : Prop where
  refl {t : Ty} (n : Node H t) : R n n
  trans {t : Ty} {a b d : Node H t} : R a b → R b d → R a d
  staticCast {s t : Ty} {a b : Node H s} : R a b → R (staticCast a : Node H t) (staticCast b)
  textCast {s : Ty} {a b : Node H s} : R a b → R (textCast a) (textCast b)
  unary {t : Ty} {a b : Node H t} (op : UnaryOp) : R a b → R (unary op a) (unary op b)
  binary {t : Ty} {a a' b b' : Node H t} (op : BinaryOp) : R a b → R a' b' → R (binary op a a') (binary op b b')

theorem Congruence.rewriteAt {R : {t : Ty} → Node H t → Node H t → Prop} (hR : Congruence R) {t : Ty} (n : Node H t)
    (rules : Rules H) (h : ∀ p {s : Ty} (m : Node H s), R (rules p m) m) : R (n.rewriteAt rules) n := by
  induction n generalizing rules with
  | constant v => exact h [] _
  | var x => exact h [] _
  | statistic s => exact h [] _
  | staticCast operand ih => exact hR.trans (h [] _) (hR.staticCast (ih _ fun p => h (0 :: p)))
  | textCast operand ih => exact hR.trans (h [] _) (hR.textCast (ih _ fun p => h (0 :: p)))
  | unary op operand ih => exact hR.trans (h [] _) (hR.unary op (ih _ fun p => h (0 :: p)))
  | binary op lhs rhs ihl ihr =>
    exact hR.trans (h [] _) (hR.binary op (ihl _ fun p => h (0 :: p)) (ihr _ fun p => h (1 :: p)))

/-! ## Casts to the own type -/

/-- The cast to the expression's own type. -/
def ownCast : {t : Ty} → Node H t → Node H t
  | .text, n => textCast n
  | _, n => staticCast n

/-- The expression in `k` such casts. -/
def ownCasts (k : Nat) {t : Ty} (n : Node H t) : Node H t := k.repeat ownCast n

/-- With `casts p` casts around what stands at each position `p`. -/
def castAt {t : Ty} (n : Node H t) (casts : List Nat → Nat) : Node H t := n.rewriteAt fun p => ownCasts (casts p)

variable [HostCondition H] {t : Ty}

/-- Alike by evaluation, by analysis, and in every wording, also as operands. -/
structure Seamless (a b : Node H t) : Prop where
  eval : ∀ c, a.eval c = b.eval c
  independence : a.independence = b.independence
  topOp : a.topOp = b.topOp
  render : ∀ w, a.render w = b.render w

theorem congruence_seamless : Congruence (H := H) Seamless where
  refl n := ⟨fun _ => rfl, rfl, rfl, fun _ => rfl⟩
  trans hab hbd :=
    ⟨fun c => (hab.eval c).trans (hbd.eval c), hab.independence.trans hbd.independence, hab.topOp.trans hbd.topOp,
     fun w => (hab.render w).trans (hbd.render w)⟩
  staticCast h := ⟨fun c => by simp only [Node.eval, h.eval], h.independence, h.topOp, h.render⟩
  textCast h := ⟨fun c => by simp only [Node.eval, h.eval], h.independence, h.topOp, h.render⟩
  unary op h := by
    refine ⟨fun c => by simp only [Node.eval, h.eval], h.independence, rfl, fun w => ?_⟩
    cases op <;> simp only [Node.render, h.topOp, h.render]
  binary op h h' :=
    ⟨fun c => by simp only [Node.eval, h.eval, h'.eval],
     by simp only [Node.independence, h.independence, h'.independence], rfl,
     fun w => by simp only [Node.render, h.topOp, h.render, h'.topOp, h'.render]⟩

theorem eval_staticCast_self (ht : t ≠ .text) (n : Node H t) (c : Context) :
    (staticCast n : Node H t).eval c = n.eval c := by
  have hcast : (fun v => Value.castTo t (.of t v)) = Except.ok := funext (Value.castTo_self ht)
  show (n.eval c >>= fun v => Value.castTo t (.of t v)) = n.eval c
  rw [hcast]
  exact bind_pure _

theorem eval_textCast_self (n : Node H .text) (c : Context) : (textCast n).eval c = n.eval c := bind_pure _

theorem seamless_ownCast (n : Node H t) : n.ownCast.Seamless n := by
  cases t with
  | text => exact ⟨n.eval_textCast_self, rfl, rfl, fun _ => rfl⟩
  | _ => exact ⟨eval_staticCast_self Ty.noConfusion n, rfl, rfl, fun _ => rfl⟩

theorem seamless_ownCasts (k : Nat) (n : Node H t) : (n.ownCasts k).Seamless n := by
  induction k with
  | zero => exact congruence_seamless.refl n
  | succ k ih => exact congruence_seamless.trans (seamless_ownCast _) ih

/-- Whatever number of casts to the type that is there already stands at each position: every
    outcome, both texts and the flags are those of the expression without them. -/
theorem own_casts_invisible (n : Node H t) (casts : List Nat → Nat) :
    (∀ c, (n.castAt casts).eval c = n.eval c) ∧ (n.castAt casts).script = n.script ∧
      (∀ strings, (n.castAt casts).describe strings = n.describe strings) ∧
      (n.castAt casts).independence = n.independence := by
  have h : (n.castAt casts).Seamless n :=
    congruence_seamless.rewriteAt n _ fun p _ m => seamless_ownCasts (casts p) m
  exact ⟨h.eval, h.render _, fun strings => h.render _, h.independence⟩

/-- Two casts around the sum keep the brackets that it has under the product. -/
example :
    let product : Node Empty .int := binary .times (binary .plus (constant 1) (constant 2)) (constant 3)
    let sum : Node Empty .int := binary .plus (constant 1) (constant 2)
    product.castAt (fun p => if p = [0] then 2 else 0)
        = binary .times (staticCast (s := .int) (staticCast (s := .int) sum)) (constant 3) ∧
      (product.castAt fun p => if p = [0] then 2 else 0).script = "(1 + 2) * 3" :=
  ⟨rfl, by decide⟩

end Node

end RuleExpr
