/-
  RuleExpr.Proofs.Reduction.Chain — reductions against the operators that they extend.

  A list of values is reduced by one loop; the same values can stand as constants in a tree of
  operators, grouped to the left (`Node.chain`) or to the right (`Node.chainRight`). A chain to the
  left is evaluated as a fold of the operator (`Node.eval_chain`), and if no step is refused and the
  grouping does not matter, so is a chain to the right (`Node.eval_chainRight_of_ok`).

  A total of ints takes one step more than the chain, from zero or one to the first value, which
  changes nothing; and it refuses a prefix just where the chain does, in other words (`Agree`). The
  quotient of a mean and the difference of a spread are those of the operators. The extremes of
  enumerations are the same in either grouping. All of it together is `reduction_is_chain`.
-/

import RuleExpr.Node.Eval
import RuleExpr.Proofs.Reduction.Extreme

namespace RuleExpr

/-- Both have the same value, or both fail in arithmetic, for whatever cause. -/
inductive Outcome.Agree {α : Type} : Outcome α → Outcome α → Prop where
  | ok (v : α) : Agree (.ok v) (.ok v)
  | arithmetic (f g : ArithmeticFault) : Agree (.error (.arithmetic f)) (.error (.arithmetic g))

open Outcome Ty

/-! ## Trees of constants -/

namespace Node

variable {H : Type} {t : Ty}

def chain (op : BinaryOp) (v : t.Carrier) (vs : List t.Carrier) : Node H t :=
  vs.foldl (fun n w => binary op n (constant w)) (constant v)

def chainRight (op : BinaryOp) (v : t.Carrier) : List t.Carrier → Node H t
  | [] => constant v
  | w :: rest => binary op (constant v) (chainRight op w rest)

variable [HostCondition H] {c : Context} {op : BinaryOp}

/-- The chain grows at its root, so the induction is over what is put on top of any tree. -/
theorem eval_foldl_binary (n : Node H t) (vs : List t.Carrier) :
    (vs.foldl (fun n w => binary op n (constant w)) n).eval c
      = n.eval c >>= fun v => vs.foldlM (t.applyBinary c.seed op) v := by
  induction vs generalizing n with
  | nil =>
    show n.eval c = n.eval c >>= pure
    rw [bind_pure]
  | cons w rest ih =>
    have hstep : (binary op n (constant w)).eval c = n.eval c >>= fun v => t.applyBinary c.seed op v w := rfl
    rw [List.foldl_cons, ih, hstep, bind_assoc]
    simp only [List.foldlM_cons]

theorem eval_chain (v : t.Carrier) (vs : List t.Carrier) :
    (chain op v vs : Node H t).eval c = vs.foldlM (t.applyBinary c.seed op) v := eval_foldl_binary (constant v) vs

section Total

variable {f : t.Carrier → t.Carrier → t.Carrier} (hf : ∀ v w, t.applyBinary c.seed op v w = .ok (f v w))

include hf

theorem eval_chain_of_ok (v : t.Carrier) (vs : List t.Carrier) :
    (chain op v vs : Node H t).eval c = .ok (vs.foldl f v) := by
  have hop : t.applyBinary c.seed op = fun v w => pure (f v w) := funext fun v => funext fun w => hf v w
  rw [eval_chain, hop, List.foldlM_pure]
  rfl

theorem eval_chainRight_of_ok (hassoc : Std.Associative f) (v : t.Carrier) (vs : List t.Carrier) :
    (chainRight op v vs : Node H t).eval c = .ok (vs.foldl f v) := by
  induction vs generalizing v with
  | nil => rfl
  | cons w rest ih =>
    show ((chainRight op w rest : Node H t).eval c >>= fun r => t.applyBinary c.seed op v r) = _
    rw [ih w, List.foldl_cons, List.foldl_assoc]
    exact hf v _

end Total

end Node

namespace Ty

/-! ## Operators as steps -/

theorem applyBinary_maximum (t : Ty) (seed : UInt64) (v w : t.Carrier) :
    t.applyBinary seed .maximum v w = .ok (t.maximum v w) := by
  cases t <;> rfl

theorem applyBinary_minimum (t : Ty) (seed : UInt64) (v w : t.Carrier) :
    t.applyBinary seed .minimum v w = .ok (t.minimum v w) := by
  cases t <;> rfl

theorem foldlM_checked {t : Ty} [Numeric t] (op : Op) (g? : t.Carrier → t.Carrier → Option t.Carrier) (v : t.Carrier)
    (vs : List t.Carrier) : vs.foldlM (fun a b => checked op (g? a b)) v = checked op (vs.foldlM g? v) := by
  induction vs generalizing v with
  | nil => rfl
  | cons w rest ih =>
    rw [List.foldlM_cons, List.foldlM_cons]
    cases g? v w with
    | none => rfl
    | some r => exact ih r

theorem agree_checked {t : Ty} [Numeric t] (r : Reduction) (op : Op) (o : Option t.Carrier) :
    Agree (checkedReduction r o) (checked op o) := by
  cases o with
  | none => exact .arithmetic _ _
  | some v => exact .ok v

/-! ## Totals of ints -/

theorem total?_cons (v : Int32) (vs : List Int32) :
    total? (t := .int) (v :: vs) = vs.foldlM (Numeric.add? (t := .int)) v := by
  have hzero : Numeric.add? (t := .int) Numeric.zero v = some v := by
    show int32? (0 + v.toInt) = some v
    rw [Int.zero_add, int32?_toInt]
  unfold total?
  rw [List.foldlM_cons, hzero]
  rfl

theorem product?_cons (v : Int32) (vs : List Int32) :
    product? (t := .int) (v :: vs) = vs.foldlM (Numeric.mul? (t := .int)) v := by
  have hone : Numeric.mul? (t := .int) Numeric.one v = some v := by
    show int32? (1 * v.toInt) = some v
    rw [Int.one_mul, int32?_toInt]
  unfold product?
  rw [List.foldlM_cons, hone]
  rfl

theorem ofCount_int {n : Nat} (hn : n ≤ 2147483647) : Numeric.ofCount (t := .int) n = .ok (Int32.ofNat n) := by
  have hfits : int32? n = some (Int32.ofNat n) := by
    rw [int32?_eq_some_iff]
    exact Int32.toInt_ofNat_of_lt (by omega)
  show IntArithmetic.ofCount n = _
  rw [IntArithmetic.ofCount, hfits]

end Ty

/-! ## Agreement -/

namespace Node

variable {H : Type} [HostCondition H] (c : Context)

theorem eval_plus_chain (v : Int32) (vs : List Int32) :
    (chain .plus v vs : Node H .int).eval c = checked (t := .int) (.binary .plus) (total? (t := .int) (v :: vs)) := by
  rw [eval_chain, total?_cons]
  exact foldlM_checked _ _ _ _

theorem eval_times_chain (v : Int32) (vs : List Int32) :
    (chain .times v vs : Node H .int).eval c
      = checked (t := .int) (.binary .times) (product? (t := .int) (v :: vs)) := by
  rw [eval_chain, product?_cons]
  exact foldlM_checked _ _ _ _

theorem eval_extreme_chains {t : Ty} (v : t.Carrier) (vs : List t.Carrier) :
    (chain .maximum v vs : Node H t).eval c = .ok (vs.foldl t.maximum v) ∧
      (chain .minimum v vs : Node H t).eval c = .ok (vs.foldl t.minimum v) :=
  ⟨eval_chain_of_ok (t.applyBinary_maximum c.seed) v vs, eval_chain_of_ok (t.applyBinary_minimum c.seed) v vs⟩

theorem eval_extreme_chainsRight {t : Ty} (ht : t ≠ .double) (v : t.Carrier) (vs : List t.Carrier) :
    (chainRight .maximum v vs : Node H t).eval c = .ok (vs.foldl t.maximum v) ∧
      (chainRight .minimum v vs : Node H t).eval c = .ok (vs.foldl t.minimum v) :=
  ⟨eval_chainRight_of_ok (t.applyBinary_maximum c.seed) (maximum_assoc ht) v vs,
    eval_chainRight_of_ok (t.applyBinary_minimum c.seed) (minimum_assoc ht) v vs⟩

theorem agree_spread (v : Int32) (vs : List Int32) (count : Nat) :
    Agree (reduce .int .spread (v :: vs) count)
      ((binary .minus (chain .maximum v vs) (chain .minimum v vs) : Node H .int).eval c) := by
  obtain ⟨hmax, hmin⟩ := eval_extreme_chains (H := H) c (t := .int) v vs
  rw [eval, hmax, hmin]
  exact agree_checked _ _ _

/-- Both divide the same total by the same number, which is not zero. -/
theorem agree_mean (v : Int32) (vs : List Int32) (count : Nat) (hlen : (v :: vs).length ≤ 2147483647) :
    Agree (reduce .int .mean (v :: vs) count)
      ((binary .divide (chain .plus v vs) (constant (Int32.ofNat (v :: vs).length)) : Node H .int).eval c) := by
  have hreduce : reduce .int .mean (v :: vs) count = (do
      let size ← Numeric.ofCount (t := .int) (v :: vs).length
      let total ← checkedReduction (t := .int) .mean (total? (t := .int) (v :: vs))
      checkedReduction (t := .int) .mean (Numeric.div? (t := .int) total size)) := rfl
  have hsize : (Int32.ofNat (v :: vs).length).toInt = (v :: vs).length := Int32.toInt_ofNat_of_lt (by omega)
  have hnonzero : Numeric.isZero (t := .int) (Int32.ofNat (v :: vs).length) = false := by
    show ((Int32.ofNat (v :: vs).length).toInt == 0) = false
    rw [hsize, List.length_cons]
    exact beq_false_of_ne (by omega)
  rw [hreduce, ofCount_int hlen, eval, eval_plus_chain]
  cases total? (t := .int) (v :: vs) with
  | none => exact .arithmetic _ _
  | some total =>
    show Agree (checkedReduction _ _) (if _ then _ else _)
    rw [hnonzero]
    exact agree_checked _ _ _

/-- What a reduction makes of some ints is what a tree of operators makes of them as constants, up to
    the wording of overflows. Extremes of enumerations go by the same order in both, and chains of
    them may be grouped either way. -/
theorem reduction_is_chain (count : Nat) :
    (∀ (v : Int32) (vs : List Int32),
      Agree (reduce .int .sum (v :: vs) count) ((chain .plus v vs : Node H .int).eval c) ∧
        Agree (reduce .int .product (v :: vs) count) ((chain .times v vs : Node H .int).eval c) ∧
        Agree (reduce .int .max (v :: vs) count) ((chain .maximum v vs : Node H .int).eval c) ∧
        Agree (reduce .int .min (v :: vs) count) ((chain .minimum v vs : Node H .int).eval c) ∧
        Agree (reduce .int .spread (v :: vs) count)
          ((binary .minus (chain .maximum v vs) (chain .minimum v vs) : Node H .int).eval c) ∧
        ((v :: vs).length ≤ 2147483647 → Agree (reduce .int .mean (v :: vs) count)
          ((binary .divide (chain .plus v vs) (constant (Int32.ofNat (v :: vs).length)) : Node H .int).eval c))) ∧
      ∀ (e : Enumeration) (m : Member e) (ms : List (Member e)),
        (chain .maximum m ms : Node H (.enum e)).eval c = reduce (.enum e) .max (m :: ms) count ∧
          (chainRight .maximum m ms : Node H (.enum e)).eval c = reduce (.enum e) .max (m :: ms) count ∧
          (chain .minimum m ms : Node H (.enum e)).eval c = reduce (.enum e) .min (m :: ms) count ∧
          (chainRight .minimum m ms : Node H (.enum e)).eval c = reduce (.enum e) .min (m :: ms) count := by
  constructor
  · intro v vs
    obtain ⟨hmax, hmin⟩ := eval_extreme_chains (H := H) c (t := .int) v vs
    refine ⟨?_, ?_, ?_, ?_, agree_spread c v vs count, agree_mean c v vs count⟩
    · rw [eval_plus_chain]
      exact agree_checked _ _ _
    · rw [eval_times_chain]
      exact agree_checked _ _ _
    · rw [hmax]
      exact .ok _
    · rw [hmin]
      exact .ok _
  · intro e m ms
    obtain ⟨hmax, hmin⟩ := eval_extreme_chains (H := H) c (t := .enum e) m ms
    obtain ⟨hmaxRight, hminRight⟩ := eval_extreme_chainsRight (H := H) c (t := .enum e) nofun m ms
    exact ⟨hmax, hmaxRight, hmin, hminRight⟩

/-- Ints whose mean is rounded toward zero, and members of which the later one is not the last. -/
theorem reduction_is_chain_rounded :
    let mean : Node Empty .int := binary .divide (chain .plus (-7) [2, 0]) (constant 3)
    let yellow : Member .starType := ⟨⟨3, by decide⟩⟩
    let red : Member .starType := ⟨⟨5, by decide⟩⟩
    [(-7 : Int32), 2, 0].length ≤ 2147483647 ∧ reduce .int .mean [-7, 2, 0] 3 = .ok (-1) ∧
      mean.eval .empty = .ok (-1) ∧
      (chainRight .maximum yellow [red, yellow] : Node Empty (.enum .starType)).eval .empty = .ok red := by
  intro mean yellow red
  obtain ⟨hints, hmembers⟩ := reduction_is_chain (H := Empty) .empty 3
  have hlen : [(-7 : Int32), 2, 0].length ≤ 2147483647 := by decide
  have hreduce : reduce .int .mean [-7, 2, 0] 3 = .ok (-1) := rfl
  have hmean : Agree (reduce .int .mean [-7, 2, 0] 3) (mean.eval .empty) := (hints (-7) [2, 0]).2.2.2.2.2 hlen
  refine ⟨hlen, hreduce, ?_, (hmembers .starType yellow [red, yellow]).2.1⟩
  rw [hreduce] at hmean
  generalize mean.eval .empty = outcome at hmean
  cases hmean
  rfl

end Node

end RuleExpr
