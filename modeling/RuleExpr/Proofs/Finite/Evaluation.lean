/-
  RuleExpr.Proofs.Finite.Evaluation — expressions over finite data have finite values.

  Data are finite where no double among them is a NaN or an infinity: the properties of the
  universe and of its objects, those of the objects in the slots, and the current value
  (`Context.Finite`). Then what a variable can read is finite (`Context.Finite.of_provides`), and so
  is a statistic over the objects of the universe and the slots (`Statistic.gives_eval`); the number
  of objects that count is bounded because their ids differ. With finite constants this makes
  every double that an expression evaluates to finite (`isFinite_of_eval`).
-/

import RuleExpr.Proofs.Finite.Operation
import RuleExpr.Proofs.Lookup
import RuleExpr.Proofs.Selection

namespace RuleExpr

open Outcome

/-! ## Finite data -/

def Value.Finite : Value → Prop
  | .of t v => t.Finite v
  | .object _ => True

instance : (v : Value) → Decidable v.Finite
  | .of t v => inferInstanceAs (Decidable (t.Finite v))
  | .object _ => isTrue trivial

def Object.Finite (o : Object) : Prop := ∀ p ∈ o.properties.items, p.2.Finite

structure Context.Finite (c : Context) : Prop where
  univ : ∀ p ∈ c.univ.properties.items, p.2.Finite
  objects : ∀ o ∈ c.univ.toList, o.Finite
  slots : ∀ s o, c.slot s = some o → o.Finite
  current : ∀ v, c.current = some v → v.Finite

/-- Of the universe or in one of the slots. -/
def Context.Has (c : Context) (o : Object) : Prop := o ∈ c.univ.toList ∨ ∃ s, c.slot s = some o

theorem Context.Finite.of_has {c : Context} (hc : c.Finite) {o : Object} (ho : c.Has o) : o.Finite := by
  rcases ho with ho | ⟨s, hs⟩
  · exact hc.objects o ho
  · exact hc.slots s o hs

/-! ## Lookups -/

theorem TextMap.finite_get? {m : TextMap Value} (hm : ∀ p ∈ m.items, p.2.Finite) {name : String} {v : Value}
    (h : m.get? name = some v) : v.Finite := by
  obtain ⟨p, hp, rfl⟩ := Option.map_eq_some_iff.mp h
  exact hm p (List.mem_of_find?_eq_some hp)

theorem Object.Finite.property? {o : Object} (ho : o.Finite) {name : String} {v : Value}
    (h : o.property? name = some v) : v.Finite := by
  unfold Object.property? at h
  split at h
  · cases h
    trivial
  split at h
  · cases h
    trivial
  split at h
  · cases h
    trivial
  · exact TextMap.finite_get? ho h

theorem Context.Finite.of_offers {c : Context} (hc : c.Finite) {o : Object} (ho : o.Finite) {v : Value}
    (h : c.univ.Offers o v) : v.Finite := by
  obtain ⟨p, hp, name, hv⟩ := h
  rcases hp with rfl | hp
  · exact ho.property? hv
  · exact (hc.objects p hp).property? hv

theorem Context.Finite.of_provides {c : Context} (hc : c.Finite) {v : Value} (h : c.Provides v) : v.Finite := by
  cases h with
  | current h => exact hc.current v h
  | univ name h => exact TextMap.finite_get? hc.univ h
  | slot s o ho hv => exact hc.of_offers (hc.slots s o ho) hv

theorem Value.Finite.gives_readAs {v : Value} (hv : v.Finite) (t : Ty) : Gives t.Finite (v.readAs t) := by
  by_cases ht : t = .double
  · subst ht
    cases v with
    | object id => trivial
    | of s w =>
      cases s with
      | int => exact Binary64.isFinite_floatOfInt w
      | double => exact hv
      | text => trivial
      | enum e => trivial
  · exact gives_of_forall (Ty.finite_of_ne_double ht) _

theorem Value.Finite.gives_castTo {v : Value} (hv : v.Finite) (t : Ty) : Gives t.Finite (v.castTo t) := by
  by_cases ht : t = .double
  · subst ht
    have hint (w : Value) : Gives (Ty.Finite .double) ((w.castInt .double).map floatOfInt) :=
      (gives_true _).map fun n _ => Binary64.isFinite_floatOfInt n
    cases v with
    | object id => exact hint (.object id)
    | of s w =>
      cases s with
      | double => exact hv
      | int => exact hint (.int w)
      | text => exact hint (.text w)
      | enum e => exact hint (.member w)
  · exact gives_of_forall (Ty.finite_of_ne_double ht) _

/-! ## Conditions -/

namespace Condition

variable {H : Type} [HostCondition H] {c : Context}

/-- Selects objects of the universe and of the slots only. -/
def Closed (c : Context) (k : Condition H) : Prop := ∀ os, k.select c = .ok os → ∀ o ∈ os, c.Has o

theorem closed_of_hosts (k : Condition H) (hk : ∀ h ∈ k.hosts, (host h).Closed c) : k.Closed c := by
  intro os hos
  exact forall_select (fun o ho => .inl ho) (fun o ho => .inr ⟨.source, ho⟩) k hk hos

theorem closed_builtin (k : BuiltinCondition) (c : Context) : k.Closed c := k.closed_of_hosts nofun

end Condition

/-! ## Statistics -/

namespace Statistic

variable {H : Type} {c : Context}

theorem gives_sample [HostCondition H] {s : Statistic H} (hk : s.condition.Closed c) :
    Gives (fun os => os.length ≤ 2 ^ 32 ∧ ∀ o ∈ os, c.Has o) (s.sample c) := by
  unfold sample
  cases h : s.condition.select c with
  | error e => trivial
  | ok os => exact ⟨length_distinct_le os, fun o ho => hk os h o (mem_of_mem_distinct ho)⟩

theorem gives_lookup (property : List String) (hc : c.Finite) {o : Object} (ho : c.Has o) :
    Gives Value.Finite (lookup property c o) := by
  refine (meets_lookup property c o).gives fun v hv => ?_
  rcases hv with hv | hv
  · exact hc.current v hv
  · exact hc.of_offers (hc.of_has ho) hv

theorem gives_values (t : Ty) (s : Statistic H) (hc : c.Finite) {os : List Object} (hos : ∀ o ∈ os, c.Has o) :
    Gives (fun vs => vs.length ≤ os.length ∧ ∀ v ∈ vs, t.Finite v) (s.values t c os) := by
  unfold values
  split
  · refine (meets_mapM (R := t.Finite) fun o ho => ?_).imp fun vs hvs => ⟨Nat.le_of_eq hvs.1, hvs.2⟩
    exact (gives_lookup s.property hc (hos o ho)).bind fun v hv => hv.gives_readAs t
  · exact ⟨Nat.zero_le _, nofun⟩

theorem gives_eval [HostCondition H] (t : Ty) {s : Statistic H} (hc : c.Finite) (hk : s.condition.Closed c) :
    Gives t.Finite (s.eval t c) := by
  by_cases ht : t = .double
  · subst ht
    unfold eval
    split
    · refine (gives_sample hk).bind fun os hos => ?_
      refine (gives_values .double s hc hos.2).bind fun vs hvs => ?_
      exact Ty.gives_reduce s.reduction hvs.2 (Nat.le_trans hvs.1 hos.1) hos.1
    · trivial
  · exact gives_of_forall (Ty.finite_of_ne_double ht) _

end Statistic

/-! ## Expressions -/

namespace Node

variable {H : Type} [HostCondition H]

/-- Every constant is finite, also under casts. -/
def ConstantsFinite : {t : Ty} → Node H t → Prop
  | t, constant v => t.Finite v
  | _, var _ => True
  | _, statistic _ => True
  | _, staticCast operand => ConstantsFinite operand
  | _, textCast operand => ConstantsFinite operand
  | _, unary _ operand => ConstantsFinite operand
  | _, binary _ lhs rhs => ConstantsFinite lhs ∧ ConstantsFinite rhs

theorem gives_eval {c : Context} (hc : c.Finite) {t : Ty} (n : Node H t) (hn : n.ConstantsFinite)
    (hk : ∀ s ∈ n.statistics, s.condition.Closed c) : Gives t.Finite (n.eval c) := by
  induction n with
  | constant v => exact hn
  | var x => exact ((x.meets_lookup c).gives fun _ => hc.of_provides).bind fun v hv => hv.gives_readAs _
  | statistic s => exact Statistic.gives_eval _ hc (hk s (List.mem_singleton_self s))
  | staticCast operand ih => exact (ih hn hk).bind fun v hv => Value.Finite.gives_castTo (v := .of _ v) hv _
  | textCast operand ih => exact gives_of_forall (Ty.finite_of_ne_double (by decide)) _
  | @unary t op operand ih =>
    by_cases ht : t = .double
    · subst ht
      exact (ih hn hk).bind fun x _ => Ty.gives_applyUnary op x
    · exact gives_of_forall (Ty.finite_of_ne_double ht) _
  | @binary t op lhs rhs ihl ihr =>
    by_cases ht : t = .double
    · subst ht
      refine (ihl hn.1 fun s h => hk s (List.mem_append_left _ h)).bind fun x hx => ?_
      refine (ihr hn.2 fun s h => hk s (List.mem_append_right _ h)).bind fun y hy => ?_
      exact Ty.gives_applyBinary c.seed op hx hy
    · exact gives_of_forall (Ty.finite_of_ne_double ht) _

/-- No double that an expression evaluates to over finite data is a NaN or an infinity. -/
theorem isFinite_of_eval (n : Node H .double) {c : Context} (hn : n.ConstantsFinite) (hc : c.Finite)
    (hk : ∀ s ∈ n.statistics, s.condition.Closed c) {x : Float} (hx : n.eval c = .ok x) : x.isFinite = true :=
  (gives_eval hc n hn hk).value hx

end Node

/-! ## A share of the mean -/

def mine : Object := { id := 4, objectType := .invalid _, properties := TextMap.set ∅ "Industry" (.double 2.5) }

def forge : Object := { id := 9, objectType := .invalid _, properties := TextMap.set ∅ "Industry" (.double 7.5) }

/-- The target's industry by the mean of all, three more. -/
def share : Node Empty .double :=
  .binary .plus
    (.binary .divide (.var ⟨["Target", "Industry"], by decide, by decide⟩)
      (.statistic ⟨.mean, ["Industry"], .all, by decide, fun _ => List.cons_ne_nil _ _⟩))
    (.staticCast (.constant (t := .int) 3))

theorem isFinite_of_eval_share :
    let c := Context.forTarget ((Universe.empty.withObject mine).withObject forge) none mine
    share.ConstantsFinite ∧ c.Finite ∧ (∀ s ∈ share.statistics, s.condition.Closed c) ∧
      share.eval c = .ok 3.5 ∧ (3.5 : Float).isFinite = true := by
  intro c
  have hn : share.ConstantsFinite := ⟨⟨trivial, trivial⟩, trivial⟩
  have hc : c.Finite := by
    refine ⟨nofun, ?_, ?_, nofun⟩
    · unfold Object.Finite
      decide +kernel
    · intro s o h
      cases s with
      | effectTarget =>
        obtain rfl := Option.some.inj h
        unfold Object.Finite
        decide +kernel
      | _ => cases h
  have hk : ∀ s ∈ share.statistics, s.condition.Closed c := fun s _ => s.condition.closed_builtin c
  have hv : share.eval c = .ok 3.5 := by
    decide +kernel
  exact ⟨hn, hc, hk, hv, share.isFinite_of_eval hn hc hk hv⟩

end RuleExpr
