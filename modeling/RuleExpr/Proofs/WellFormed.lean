/-
  RuleExpr.Proofs.WellFormed — invalid operations are found without evaluating.

  Every node has a rule of its own on what its type defines: the operator, the reduction, or the
  cast (`Node.admissible`). An expression is well-formed if all its nodes keep to their rule. What
  can then still fail is a matter of the data: a missing object or property, a value of another
  type, or arithmetic (`Error.OfData`). Each step of an evaluation promises to fail in no other
  way, lookups and conditions always and operators, reductions and casts where they are defined.

  The rule is no stricter than it has to be: a node that breaks it fails as an invalid operation
  as soon as its operands have values, a statistic in every context. Both directions together are
  `validity_is_static`.
-/

import RuleExpr.Node.Eval
import RuleExpr.Proofs.Independence
import RuleExpr.Proofs.Lookup

namespace RuleExpr

open Outcome

theorem Value.failsBy_readAs (t : Ty) (v : Value) : FailsBy Error.OfValues (v.readAs t) := by
  unfold readAs
  split
  case h_6 => split <;> trivial
  all_goals trivial

/-! ## Casts -/

/-- Casts that are operations at all. Between enumerations, and from text to one of them, a cast
    is refused for the value it finds. -/
def Ty.castsTo : Ty → Ty → Bool
  | _, text => false
  | text, int | text, double => false
  | _, _ => true

theorem failsBy_intOfFloat (x : Float) : FailsBy Error.OfValues (intOfFloat x) := by
  unfold intOfFloat
  split
  · trivial
  split <;> trivial

namespace Value

theorem failsBy_castMember (e : Enumeration) (code : Int32) : FailsBy Error.OfValues (castMember e code) := by
  unfold castMember
  split <;> trivial

theorem failsBy_castInt (target : Ty) {s : Ty} (hs : s ≠ .text) (v : s.Carrier) :
    FailsBy Error.OfValues ((Value.of s v).castInt target) := by
  cases s with
  | int => trivial
  | double => exact failsBy_intOfFloat v
  | text => exact absurd rfl hs
  | enum e => trivial

theorem failsBy_castTo {s t : Ty} (h : s.castsTo t = true) (v : s.Carrier) :
    FailsBy Error.OfValues (castTo t (.of s v)) := by
  cases t with
  | text => cases h
  | int =>
    have hs : s ≠ .text := by
      rintro rfl
      cases h
    exact failsBy_castInt .int hs v
  | double =>
    have hint (hs : s ≠ .text) : FailsBy Error.OfValues (((Value.of s v).castInt .double).map floatOfInt) :=
      (failsBy_castInt .double hs v).map fun _ _ => trivial
    cases s with
    | double => trivial
    | text => cases h
    | int => exact hint nofun
    | enum e => exact hint nofun
  | enum e =>
    cases s with
    | int => exact failsBy_castMember e v
    | double => exact (failsBy_intOfFloat v).bind fun code _ => failsBy_castMember e code
    | text => trivial
    | enum e' =>
      unfold castTo
      dsimp only
      split <;> trivial

theorem castTo_invalid {s t : Ty} (h : s.castsTo t = false) (v : s.Carrier) :
    ∃ fault, castTo t (.of s v) = .error (.invalidOperation fault) := by
  cases t with
  | text => exact ⟨_, rfl⟩
  | int =>
    cases s with
    | text => exact ⟨_, rfl⟩
    | _ => cases h
  | double =>
    cases s with
    | text => exact ⟨_, rfl⟩
    | _ => cases h
  | enum e => cases s <;> cases h

end Value

/-! ## Operators and reductions -/

namespace Ty

section Numeric

variable {t : Ty}

theorem failsBy_checked (op : Op) (o : Option t.Carrier) : FailsBy Error.OfValues (checked op o) := by
  cases o with
  | none => trivial
  | some v => trivial

theorem failsBy_checkedReduction (r : Reduction) (o : Option t.Carrier) :
    FailsBy Error.OfValues (checkedReduction r o) := by
  cases o with
  | none => trivial
  | some v => trivial

variable [Numeric t]

theorem failsBy_numericBinary (seed : UInt64) (op : BinaryOp) (v w : t.Carrier) :
    FailsBy Error.OfValues (numericBinary seed op v w) := by
  cases op with
  | divide =>
    unfold numericBinary
    dsimp only
    split
    · trivial
    · exact failsBy_checked _ _
  | minimum => trivial
  | maximum => trivial
  | _ => exact failsBy_checked _ _

variable (hfloat : ∀ x, FailsBy Error.OfValues (Numeric.ofFloat (t := t) x))

include hfloat

theorem failsBy_numericUnary (op : UnaryOp) (v : t.Carrier) : FailsBy Error.OfValues (numericUnary op v) := by
  cases op with
  | negate => exact failsBy_checked _ _
  | abs => exact failsBy_checked _ _
  | logarithm =>
    unfold numericUnary
    dsimp only
    split
    · trivial
    · exact hfloat _
  | sine => exact hfloat _
  | cosine => exact hfloat _

theorem failsBy_numericReduce (hcount : ∀ n, FailsBy Error.OfValues (Numeric.ofCount (t := t) n)) (r : Reduction)
    (vs : List t.Carrier) (n : Nat) : FailsBy Error.OfValues (numericReduce r vs n) := by
  cases r with
  | count => exact hcount n
  | uniqueCount => exact hcount _
  | any => trivial
  | sum => exact failsBy_checkedReduction _ _
  | product => exact failsBy_checkedReduction _ _
  | max => trivial
  | min => trivial
  | mode => trivial
  | mean =>
    unfold numericReduce
    dsimp only
    split
    · trivial
    · refine (hcount vs.length).bind fun size _ => ?_
      refine (failsBy_checkedReduction _ (total? vs)).bind fun total _ => ?_
      exact failsBy_checkedReduction _ _
  | rms =>
    unfold numericReduce
    dsimp only
    split
    · trivial
    · exact hfloat _
  | stdev =>
    unfold numericReduce
    dsimp only
    split
    · trivial
    · exact hfloat _
  | spread =>
    unfold numericReduce
    dsimp only
    split
    · exact failsBy_checkedReduction _ _
    · trivial

end Numeric

theorem failsBy_ofFloat (x : Float) : FailsBy Error.OfValues (DoubleArithmetic.ofFloat x) := by
  unfold DoubleArithmetic.ofFloat
  split <;> trivial

theorem failsBy_ofCount (n : Nat) : FailsBy Error.OfValues (IntArithmetic.ofCount n) := by
  unfold IntArithmetic.ofCount
  split <;> trivial

theorem failsBy_applyUnary {t : Ty} {op : UnaryOp} (h : t.defines (.unary op) = true) (v : t.Carrier) :
    FailsBy Error.OfValues (t.applyUnary op v) := by
  cases t with
  | int => exact failsBy_numericUnary (t := .int) failsBy_intOfFloat op v
  | double => exact failsBy_numericUnary (t := .double) failsBy_ofFloat op v
  | text => cases h
  | enum e => cases h

theorem failsBy_applyBinary (seed : UInt64) {t : Ty} {op : BinaryOp} (h : t.defines (.binary op) = true)
    (v w : t.Carrier) : FailsBy Error.OfValues (t.applyBinary seed op v w) := by
  cases t with
  | int => exact failsBy_numericBinary (t := .int) seed op v w
  | double => exact failsBy_numericBinary (t := .double) seed op v w
  | text =>
    cases op with
    | plus | minimum | maximum => trivial
    | _ => cases h
  | enum e =>
    cases op with
    | minimum | maximum => trivial
    | _ => cases h

theorem failsBy_reduce {t : Ty} {r : Reduction} (h : t.supports r = true) (vs : List t.Carrier) (n : Nat) :
    FailsBy Error.OfValues (t.reduce r vs n) := by
  cases t with
  | int => exact failsBy_numericReduce (t := .int) failsBy_intOfFloat failsBy_ofCount r vs n
  | double => exact failsBy_numericReduce (t := .double) failsBy_ofFloat (fun _ => trivial) r vs n
  | text =>
    cases r with
    | mode => trivial
    | _ => cases h
  | enum e =>
    cases r with
    | mode | max | min => trivial
    | _ => cases h

theorem applyUnary_invalid {t : Ty} {op : UnaryOp} (h : t.defines (.unary op) = false) (v : t.Carrier) :
    t.applyUnary op v = .error (t.undefinedOperator (.unary op)) := by
  cases t with
  | int => cases h
  | double => cases h
  | text => rfl
  | enum e => rfl

theorem applyBinary_invalid (seed : UInt64) {t : Ty} {op : BinaryOp} (h : t.defines (.binary op) = false)
    (v w : t.Carrier) : t.applyBinary seed op v w = .error (t.undefinedOperator (.binary op)) := by
  cases t with
  | int => cases h
  | double => cases h
  | text =>
    cases op with
    | plus | minimum | maximum => cases h
    | _ => rfl
  | enum e =>
    cases op with
    | minimum | maximum => cases h
    | _ => rfl

end Ty

/-! ## Conditions -/

namespace Condition

variable {H : Type} [HostCondition H] {Q : Error → Prop}

mutual

/-- A condition fails only as one of the host's conditions in it does. -/
theorem failsBy_select (k : Condition H) {c : Context}
    (hk : ∀ h ∈ k.hosts, FailsBy Q (HostCondition.select h c)) : FailsBy Q (k.select c) := by
  match k with
  | all => trivial
  | objectType m => trivial
  | withinIds ids => trivial
  | hasProperty name => trivial
  | source => trivial
  | host h => exact hk h (List.mem_singleton_self h)
  | and [] => trivial
  | and (first :: rest) =>
    have hf := failsBy_select first fun h m => hk h (List.mem_append_left _ m)
    simp only [select]
    split
    · exact failsBy_narrow rest (fun h m => hk h (List.mem_append_right _ m)) _
    · next e he => exact hf.error he

theorem failsBy_narrow (ks : List (Condition H)) {c : Context}
    (hk : ∀ h ∈ hostsOfAll ks, FailsBy Q (HostCondition.select h c)) (found : List Object) :
    FailsBy Q (narrow c found ks) := by
  match ks with
  | [] => trivial
  | next :: rest =>
    have hn := failsBy_select next fun h m => hk h (List.mem_append_left _ m)
    simp only [narrow]
    split
    · exact failsBy_narrow rest (fun h m => hk h (List.mem_append_right _ m)) _
    · next e he => exact hn.error he

end

end Condition

/-! ## Expressions -/

/-- A statistic fails as its condition does, by the paths and values that it reads, or for its reduction. -/
theorem Statistic.failsBy_eval {H : Type} [HostCondition H] {t : Ty} {s : Statistic H} {c : Context}
    {Q : Error → Prop} (hpath : ∀ e, e.OfPath → Q e) (hvalues : ∀ e, e.OfValues → Q e)
    (hinvalid : t.supports s.reduction = false → ∀ fault, Q (.invalidOperation fault))
    (hk : FailsBy Q (s.condition.select c)) : FailsBy Q (s.eval t c) := by
  have hread (o : Object) : FailsBy Q (lookup s.property c o >>= Value.readAs t) := by
    refine ((meets_lookup s.property c o).mono hpath).bind fun v _ => ?_
    exact (v.failsBy_readAs t).mono hvalues
  have hv (sampled : List Object) : FailsBy Q (s.values t c sampled) := by
    unfold values
    split
    · exact (meets_mapM fun o _ => hread o).failsBy
    · trivial
  have hsample : FailsBy Q (s.sample c) := hk.map fun _ _ => trivial
  unfold eval
  split
  · next hs =>
    refine hsample.bind fun sampled _ => ?_
    exact (hv sampled).bind fun vs _ => (Ty.failsBy_reduce hs vs _).mono hvalues
  · next hs => exact hinvalid (Bool.eq_false_iff.mpr hs) _

namespace Node

variable {H : Type}

/-- The node's own rule, whatever its operands are. -/
def admissible : {t : Ty} → Node H t → Bool
  | t, statistic s => t.supports s.reduction
  | t, @staticCast _ s _ _ => s.castsTo t
  | t, unary op _ => t.defines (.unary op)
  | t, binary op _ _ => t.defines (.binary op)
  | _, _ => true

/-- Every node keeps to its rule. -/
def wellFormed : {t : Ty} → Node H t → Bool
  | _, constant _ | _, var _ => true
  | t, statistic s => (statistic s : Node H t).admissible
  | t, staticCast operand => (staticCast operand : Node H t).admissible && wellFormed operand
  | _, textCast operand => wellFormed operand
  | _, unary op operand => (unary op operand).admissible && wellFormed operand
  | _, binary op lhs rhs => (binary op lhs rhs).admissible && (wellFormed lhs && wellFormed rhs)

variable [HostCondition H] {c : Context}

/-- Every operand has a value in the context; a statistic has no operands. -/
def OperandsOk (c : Context) : {t : Ty} → Node H t → Prop
  | _, staticCast operand => ∃ v, operand.eval c = .ok v
  | _, textCast operand => ∃ v, operand.eval c = .ok v
  | _, unary _ operand => ∃ v, operand.eval c = .ok v
  | _, binary _ lhs rhs => (∃ v, lhs.eval c = .ok v) ∧ ∃ w, rhs.eval c = .ok w
  | _, _ => True

/-- An expression fails as its leaves do, by the values that it computes with, or for a node that
    breaks its rule. -/
theorem failsBy_eval {t : Ty} (n : Node H t) {Q : Error → Prop} (hpath : ∀ e, e.OfPath → Q e)
    (hvalues : ∀ e, e.OfValues → Q e) (hinvalid : n.wellFormed = false → ∀ fault, Q (.invalidOperation fault))
    (hx : ∀ x ∈ n.vars, FailsBy Q (x.lookup c)) (hk : ∀ s ∈ n.statistics, FailsBy Q (s.condition.select c)) :
    FailsBy Q (n.eval c) := by
  induction n with
  | constant v => trivial
  | var x => exact (hx x (List.mem_singleton_self x)).bind fun v _ => (v.failsBy_readAs _).mono hvalues
  | statistic s => exact Statistic.failsBy_eval hpath hvalues hinvalid (hk s (List.mem_singleton_self s))
  | @staticCast s t operand ih =>
    refine (ih (fun h => hinvalid (by simp [wellFormed, h])) hx hk).bind fun v _ => ?_
    cases hcast : s.castsTo t with
    | true => exact (Value.failsBy_castTo hcast v).mono hvalues
    | false =>
      obtain ⟨fault, hf⟩ := Value.castTo_invalid hcast v
      rw [hf]
      exact hinvalid (by simp [wellFormed, admissible, hcast]) fault
  | textCast operand ih => exact (ih hinvalid hx hk).bind fun _ _ => trivial
  | @unary t op operand ih =>
    refine (ih (fun h => hinvalid (by simp [wellFormed, h])) hx hk).bind fun v _ => ?_
    cases hop : t.defines (.unary op) with
    | true => exact (Ty.failsBy_applyUnary hop v).mono hvalues
    | false =>
      rw [Ty.applyUnary_invalid hop]
      exact hinvalid (by simp [wellFormed, admissible, hop]) _
  | @binary t op lhs rhs ihl ihr =>
    have hl := ihl (fun h => hinvalid (by simp [wellFormed, h])) (fun x h => hx x (List.mem_append_left _ h))
      fun s h => hk s (List.mem_append_left _ h)
    have hr := ihr (fun h => hinvalid (by simp [wellFormed, h])) (fun x h => hx x (List.mem_append_right _ h))
      fun s h => hk s (List.mem_append_right _ h)
    refine hl.bind fun v _ => hr.bind fun w _ => ?_
    cases hop : t.defines (.binary op) with
    | true => exact (Ty.failsBy_applyBinary c.seed hop v w).mono hvalues
    | false =>
      rw [Ty.applyBinary_invalid c.seed hop]
      exact hinvalid (by simp [wellFormed, admissible, hop]) _

theorem invalid_of_inadmissible {t : Ty} (n : Node H t) (hn : n.admissible = false) (ho : n.OperandsOk c) :
    ∃ fault, n.eval c = .error (.invalidOperation fault) := by
  cases n with
  | constant v => cases hn
  | var x => cases hn
  | textCast operand => cases hn
  | statistic s =>
    refine ⟨_, if_neg ?_⟩
    exact Bool.eq_false_iff.mp hn
  | staticCast operand =>
    obtain ⟨v, hv⟩ := ho
    obtain ⟨fault, hf⟩ := Value.castTo_invalid hn v
    exact ⟨fault, by simp only [eval, hv]; exact hf⟩
  | unary op operand =>
    obtain ⟨v, hv⟩ := ho
    exact ⟨_, by simp only [eval, hv]; exact Ty.applyUnary_invalid hn v⟩
  | binary op lhs rhs =>
    obtain ⟨⟨v, hv⟩, w, hw⟩ := ho
    exact ⟨_, by simp only [eval, hv, hw]; exact Ty.applyBinary_invalid c.seed hn v w⟩

/-- What makes an evaluation fail as an invalid operation is seen from the expression alone: a
    well-formed one over built-in conditions never does, and a node that breaks its rule always
    does, unless an operand fails first. -/
theorem validity_is_static :
    (∀ {t : Ty} (n : Node Empty t), n.wellFormed = true → ∀ c e, n.eval c = .error e → e.OfData) ∧
      ∀ {H : Type} [HostCondition H] {t : Ty} (n : Node H t), n.admissible = false → ∀ c, n.OperandsOk c →
        ∃ fault, n.eval c = .error (.invalidOperation fault) := by
  refine ⟨fun n hn c e he => ?_, fun n hn c ho => n.invalid_of_inadmissible hn ho⟩
  have hk (s : Statistic Empty) : FailsBy Error.OfData (s.condition.select c) := s.condition.failsBy_select nofun
  have hvalid : n.wellFormed = false → ∀ fault, Error.OfData (.invalidOperation fault) := by
    intro h
    rw [hn] at h
    cases h
  have hn' : FailsBy Error.OfData (n.eval c) :=
    n.failsBy_eval Error.OfPath.ofData Error.OfValues.ofData hvalid (fun x _ => (x.meets_lookup c).failsBy) fun s _ => hk s
  exact hn'.error he

end Node

/-! ## A tally that finds no population, and a count of texts -/

/-- A condition of a host that always fails. -/
structure Refusal where
  reason : String

instance : HostCondition Refusal where
  select r _ := .error (.other r.reason)
  script r := r.reason
  describe r _ := r.reason
  same r r' := r.reason == r'.reason

/-- The target's population in whole units, added to the greatest id. -/
def tally : Node Empty .int :=
  .binary .plus (.staticCast (.var (t := .double) ⟨["Target", "Population"], by decide, by decide⟩))
    (.statistic (.ofIds .max .all))

def namesCounted : Node Refusal .text := .statistic (.count (.host ⟨"closed"⟩))

/-- The count is refused for its type, before the condition can fail. -/
theorem validity_is_static_tally :
    let c := Context.forTarget .empty none outpost
    let unknown := Error.property (.unknown 3 "Population")
    tally.wellFormed = true ∧ tally.eval c = .error unknown ∧ unknown.OfData ∧
      namesCounted.admissible = false ∧ namesCounted.OperandsOk c ∧
      Condition.select c (.host (Refusal.mk "closed")) = .error (.other "closed") ∧
      ∃ fault, namesCounted.eval c = .error (.invalidOperation fault) := by
  intro c unknown
  have hv : tally.eval c = .error unknown := rfl
  exact ⟨rfl, hv, Node.validity_is_static.1 tally rfl c unknown hv, rfl, trivial, rfl,
    Node.validity_is_static.2 namesCounted rfl c trivial⟩

end RuleExpr
