/-
  RuleExpr.Proofs.Equivalence — equality of expressions as an equivalence relation.

  Equal expressions of whatever types are the same tree but for the signs of zeros
  (`Node.UpToZeros.of_same`), and no comparison with a third one tells such trees apart
  (`Node.UpToZeros.same_left`). So equality is transitive, and symmetric. It is reflexive just where no
  constant is a NaN (`Node.same_self_iff`), which differs from itself.
-/

import RuleExpr.Proofs.Equality
import RuleExpr.Proofs.Independence

namespace RuleExpr

/-! ## Constants -/

def Ty.isNaN : (t : Ty) → t.Carrier → Bool
  | double, x => x.isNaN
  | _, _ => false

theorem Ty.same_self_iff {t : Ty} (v : t.Carrier) : t.same v v = true ↔ t.isNaN v = false := by
  cases t with
  | double =>
    change ((v : Float) == v) = true ↔ Float.isNaN v = false
    rw [Float.beq_iff_ne_nan_and_eq, Float.isNaN_eq_decide_eq_nan]
    simp
  | _ => simp [same, isNaN]

theorem neg_zero_beq (x : Float) : ((-0.0 : Float) == x) = ((0.0 : Float) == x) := by
  have hnan : (0.0 : Float) ≠ Float.nan ∧ (-0.0 : Float) ≠ Float.nan := by decide
  rw [Bool.eq_iff_iff, Float.beq_iff_ne_nan_and_eq, Float.beq_iff_ne_nan_and_eq]
  constructor
  · rintro ⟨-, hx, rfl | ⟨h, rfl⟩ | ⟨-, rfl⟩⟩
    · exact ⟨hnan.1, hx, .inr (.inl ⟨rfl, rfl⟩)⟩
    · exact absurd h.symm zero_ne_neg_zero
    · exact ⟨hnan.1, hx, .inl rfl⟩
  · rintro ⟨-, hx, rfl | ⟨-, rfl⟩ | ⟨h, rfl⟩⟩
    · exact ⟨hnan.2, hx, .inr (.inr ⟨rfl, rfl⟩)⟩
    · exact ⟨hnan.2, hx, .inl rfl⟩
    · exact absurd h zero_ne_neg_zero

namespace Node

variable {H : Type}

/-- No constant is a NaN. -/
def nanFree : {t : Ty} → Node H t → Bool
  | t, constant v => !t.isNaN v
  | _, staticCast operand => nanFree operand
  | _, textCast operand => nanFree operand
  | _, unary _ operand => nanFree operand
  | _, binary _ lhs rhs => nanFree lhs && nanFree rhs
  | _, _ => true

/-- What the outermost node is. -/
inductive Variant where
  | constant
  | variable
  | statistic
  | staticCast
  | textCast
  | operation
  deriving DecidableEq, Repr

def variant : {t : Ty} → Node H t → Variant
  | _, constant _ => .constant
  | _, var _ => .variable
  | _, statistic _ => .statistic
  | _, staticCast _ => .staticCast
  | _, textCast _ => .textCast
  | _, unary _ _ => .operation
  | _, binary _ _ _ => .operation

theorem same_self_iff {t : Ty} (n : Node Empty t) : n.same n = true ↔ n.nanFree = true := by
  induction n with
  | @constant t v =>
    have h : (constant v : Node Empty t).same (constant v : Node Empty t) = t.same v v := dif_pos rfl
    rw [h, Ty.same_self_iff, nanFree, Bool.not_eq_true']
  | var x => simp [same, nanFree]
  | statistic s => simp [same, nanFree, Statistic.same, Condition.same_iff]
  | staticCast operand ih => simp [same, nanFree, ih]
  | textCast operand ih => simp [same, nanFree, ih]
  | unary op operand ih => simp [same, nanFree, ih]
  | binary op lhs rhs ihl ihr => simp [same, nanFree, ihl, ihr]

theorem same_zero [HostCondition H] {s : Ty} (n : Node H s) :
    (constant (-0.0 : Float) : Node H .double).same n = (constant (0.0 : Float) : Node H .double).same n := by
  cases n with
  | @constant s v =>
    cases s with
    | double => exact neg_zero_beq v
    | _ => rfl
  | _ => rfl

namespace UpToZeros

variable {t : Ty} {a b : Node H t}

theorem nanFree_eq (h : a.UpToZeros b) : a.nanFree = b.nanFree := by
  induction h with
  | constant | var | statistic => rfl
  | positive | negative => rfl
  | staticCast _ ih | textCast _ ih | unary _ _ ih => exact ih
  | binary op _ _ ih ih' => simp only [nanFree, ih, ih']

theorem variant_eq (h : a.UpToZeros b) : a.variant = b.variant := by
  cases h <;> rfl

/-- The two compare alike with every expression. -/
theorem same_left [HostCondition H] (h : a.UpToZeros b) {s : Ty} (n : Node H s) : a.same n = b.same n := by
  induction h generalizing s with
  | constant | var | statistic => rfl
  | positive => exact (same_zero n).symm
  | negative => exact same_zero n
  | staticCast _ ih =>
    cases n with
    | staticCast operand => simp only [same, ih]
    | _ => rfl
  | textCast _ ih =>
    cases n with
    | textCast operand => simp only [same, ih]
    | _ => rfl
  | unary _ _ ih =>
    cases n with
    | unary op operand => simp only [same, ih]
    | _ => rfl
  | binary _ _ _ ih ih' =>
    cases n with
    | binary op lhs rhs => simp only [same, ih, ih']
    | _ => rfl

end UpToZeros

variable {r s t : Ty} {a : Node Empty r} {b : Node Empty s} {c : Node Empty t}

theorem same_symm (h : a.same b = true) : b.same a = true := by
  obtain ⟨rfl, hab⟩ := UpToZeros.of_same h
  -- what is equal to anything has no NaN, on either side
  have hb : b.same b = true := (hab.same_left b).symm.trans h
  have ha : a.same a = true := by
    rw [same_self_iff] at hb ⊢
    exact hab.nanFree_eq.trans hb
  exact (hab.same_left a).symm.trans ha

theorem same_trans (hab : a.same b = true) (hbc : b.same c = true) : a.same c = true := by
  obtain ⟨rfl, h⟩ := UpToZeros.of_same hab
  exact (h.same_left c).trans hbc

theorem kind_eq_of_same (h : a.same b = true) : r = s ∧ a.variant = b.variant := by
  obtain ⟨rfl, hab⟩ := UpToZeros.of_same h
  exact ⟨rfl, hab.variant_eq⟩

/-- Expressions of all types, compared with each other. Those without a NaN are equal to
    themselves, and no others; equality goes both ways and onwards; and it takes one result type and
    one kind of node. -/
theorem same_is_equivalence :
    (∀ {t : Ty} (n : Node Empty t), n.same n = true ↔ n.nanFree = true) ∧
      (∀ {s t : Ty} (a : Node Empty s) (b : Node Empty t), a.same b = b.same a) ∧
      (∀ {r s t : Ty} (a : Node Empty r) (b : Node Empty s) (c : Node Empty t),
        a.same b = true → b.same c = true → a.same c = true) ∧
      ∀ {s t : Ty} (a : Node Empty s) (b : Node Empty t), a.same b = true → s = t ∧ a.variant = b.variant :=
  ⟨same_self_iff, fun _ _ => Bool.eq_iff_iff.mpr ⟨same_symm, same_symm⟩, fun _ _ _ => same_trans,
    fun _ _ => kind_eq_of_same⟩

/-- A double and the sum of two ids, cast and added, as text. -/
def idsFrom (x : Float) : Node Empty .text :=
  textCast (s := .double)
    (binary .plus (constant x) (staticCast (s := .int) (statistic (.ofIds .sum (.and [.all, .and [.withinIds [7, 3]]])))))

/-- The signs of the zeros alternate. -/
theorem same_is_equivalence_idsFrom :
    (idsFrom (-0.0)).same (idsFrom 0.0) = true ∧ (idsFrom 0.0).same (idsFrom (0.0 * -1.0)) = true ∧
      (idsFrom (-0.0)).same (idsFrom (0.0 * -1.0)) = true ∧ (idsFrom 0.0).same (idsFrom (-0.0)) = true ∧
      (idsFrom (-0.0)).variant = (idsFrom 0.0).variant ∧
      (idsFrom 0.0).nanFree = true ∧ (idsFrom 0.0).same (idsFrom 0.0) = true ∧
      (idsFrom Float.nan).same (idsFrom Float.nan) = false := by
  obtain ⟨hself, hsymm, htrans, hkind⟩ := same_is_equivalence
  have hab : (idsFrom (-0.0)).same (idsFrom 0.0) = true := by rfl
  have hbc : (idsFrom 0.0).same (idsFrom (0.0 * -1.0)) = true := by rfl
  have hfree : (idsFrom 0.0).nanFree = true := by rfl
  have hnan : (idsFrom Float.nan).nanFree = false := by rfl
  refine ⟨hab, hbc, htrans _ _ _ hab hbc, (hsymm _ _).trans hab, (hkind _ _ hab).2, hfree, (hself _).mpr hfree, ?_⟩
  rw [Bool.eq_false_iff, ne_eq, hself, hnan]
  exact Bool.false_ne_true

end Node

end RuleExpr
