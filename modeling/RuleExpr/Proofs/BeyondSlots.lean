/-
  RuleExpr.Proofs.BeyondSlots — the parts of a context that no flag is about.

  Besides objects a context holds a seed, perhaps a current value, and the properties that the
  universe has of its own. The expression tells which of these it reads: the seed where it draws
  (`Node.draws`), the current value where a path is `Value` alone (`Node.ReadsCurrent`), and a
  property of the universe where a variable that refers to no object has its dotted name
  (`Node.ReadsProperty`). Two contexts with the same objects that agree on what is read give the
  same outcome (`Node.eval_eq_of_sameObjects`), so any of the three can be exchanged where it is not
  read (`Node.eval_beyond_slots`). Conditions and statistics read objects and never a property of the
  universe, not even one with the name of the property that they look for.
-/

import RuleExpr.Proofs.Sampling
import RuleExpr.Proofs.Unflagged

namespace RuleExpr

/-! ## What is read -/

namespace Node

variable {H : Type} {t : Ty}

/-- The current value is read, by a variable or as the property of a statistic. -/
def ReadsCurrent (n : Node H t) : Prop :=
  (∃ x ∈ n.vars, x.path = [valueSegment]) ∨ ∃ s ∈ n.statistics, s.ReadsCurrent

/-- A variable reads the property of that name of the universe. -/
def ReadsProperty (n : Node H t) (name : String) : Prop :=
  ∃ x ∈ n.vars, x.reference = .nonObject ∧ x.dotted = name

instance (n : Node H t) : Decidable n.ReadsCurrent := inferInstanceAs (Decidable (_ ∨ _))

instance (n : Node H t) (name : String) : Decidable (n.ReadsProperty name) :=
  inferInstanceAs (Decidable (∃ x ∈ n.vars, x.reference = .nonObject ∧ x.dotted = name))

end Node

/-! ## Contexts with the same objects -/

namespace Context

/-- The same objects in the universe and in the slots; all else may differ. -/
structure SameObjects (c d : Context) : Prop where
  objects : c.univ.objects = d.univ.objects
  slot : ∀ s, c.slot s = d.slot s

/-- The context with another property of its universe. -/
def setProperty (c : Context) (name : String) (v : Value) : Context := { c with univ := c.univ.setProperty name v }

theorem sameObjects_withSeed (c : Context) (seed : UInt64) : (c.withSeed seed).SameObjects c :=
  ⟨rfl, fun s => by cases s <;> rfl⟩

theorem sameObjects_current (c : Context) (v : Option Value) : { c with current := v }.SameObjects c :=
  ⟨rfl, fun s => by cases s <;> rfl⟩

theorem sameObjects_setProperty (c : Context) (name : String) (v : Value) : (c.setProperty name v).SameObjects c :=
  ⟨rfl, fun s => by cases s <;> rfl⟩

end Context

variable {c d : Context}

theorem Variable.lookup_eq_of_sameObjects (x : Variable) (h : c.SameObjects d)
    (hcurrent : x.path = [valueSegment] → c.current = d.current)
    (hproperty : x.reference = .nonObject → c.univ.property? x.dotted = d.univ.property? x.dotted) :
    x.lookup c = x.lookup d :=
  x.toPath.lookupAs_congr h.objects hcurrent hproperty (Context.object?_eq_of_slot fun s _ => h.slot s)

theorem Condition.select_eq_of_sameObjects (k : BuiltinCondition) (h : c.SameObjects d) : k.select c = k.select d :=
  k.select_congr h.objects (h.slot .source) fun _ => nofun

theorem Node.eval_eq_of_sameObjects {t : Ty} (n : Node Empty t) (h : c.SameObjects d)
    (hseed : n.draws = true → c.seed = d.seed) (hcurrent : n.ReadsCurrent → c.current = d.current)
    (hproperty : ∀ name, n.ReadsProperty name → c.univ.property? name = d.univ.property? name) :
    n.eval c = n.eval d := by
  refine n.eval_congr_of_hosts h.objects (h.slot .source) hseed (fun x hx => ?_) (fun s hs hr => ?_) fun _ _ => nofun
  · refine x.lookup_eq_of_sameObjects h (fun hp => hcurrent (.inl ⟨x, hx, hp⟩)) fun hr => ?_
    exact hproperty x.dotted ⟨x, hx, hr, rfl⟩
  · exact hcurrent (.inr ⟨s, hs, hr⟩)

/-- Seed, current value and the properties of the universe make no difference to an expression
    that does not read them, and the last of these never to a condition or a statistic. -/
theorem Node.eval_beyond_slots {t : Ty} (n : Node Empty t) (c : Context) :
    (n.draws = false → ∀ seed, n.eval (c.withSeed seed) = n.eval c) ∧
      (¬ n.ReadsCurrent → ∀ v, n.eval { c with current := v } = n.eval c) ∧
      (∀ name, ¬ n.ReadsProperty name → ∀ v, n.eval (c.setProperty name v) = n.eval c) ∧
      (∀ (k : BuiltinCondition) name v, k.select (c.setProperty name v) = k.select c) ∧
      ∀ (s : Statistic Empty) t name v, s.eval t (c.setProperty name v) = s.eval t c := by
  refine ⟨fun hn seed => ?_, fun hn v => ?_, fun name hn v => ?_, fun k name v => ?_, fun s t name v => ?_⟩
  · have hseed : n.draws = true → (c.withSeed seed).seed = c.seed := fun h => absurd (hn.symm.trans h) (by decide)
    exact n.eval_eq_of_sameObjects (c.sameObjects_withSeed seed) hseed (fun _ => rfl) fun _ _ => rfl
  · exact n.eval_eq_of_sameObjects (c.sameObjects_current v) (fun _ => rfl) (fun h => absurd h hn) fun _ _ => rfl
  · refine n.eval_eq_of_sameObjects (c.sameObjects_setProperty name v) (fun _ => rfl) (fun _ => rfl) ?_
    intro other hother
    have hne : name ≠ other := fun h => hn (h ▸ hother)
    exact (c.univ.property?_setProperty name other v).trans (if_neg hne)
  · exact k.select_eq_of_sameObjects (c.sameObjects_setProperty name v)
  · have h := c.sameObjects_setProperty name v
    exact s.eval_congr h.objects (fun _ => rfl) (s.condition.select_eq_of_sameObjects h) t

/-- The cargo of all objects, less what the universe has on record. -/
def unrecordedCargo : Node Empty .int :=
  .binary .minus (.statistic (totalCargo .all)) (.var ⟨["Recorded"], by decide, by decide⟩)

/-- The universe comes to have a property `Cargo`, too; only the record makes a difference. -/
theorem Node.eval_beyond_slots_cargo :
    let c : Context := { univ := (Universe.empty.withObject laden).setProperty "Recorded" (.int 1) }
    unrecordedCargo.draws = false ∧ ¬ unrecordedCargo.ReadsCurrent ∧ ¬ unrecordedCargo.ReadsProperty "Cargo" ∧
      unrecordedCargo.eval c = .ok 3 ∧ unrecordedCargo.eval (c.withSeed 5) = .ok 3 ∧
      unrecordedCargo.eval { c with current := some (.int 9) } = .ok 3 ∧
      unrecordedCargo.eval (c.setProperty "Cargo" (.int 9)) = .ok 3 ∧
      unrecordedCargo.eval (c.setProperty "Recorded" (.int 9)) = .ok (-5) := by
  intro c
  have hseed : unrecordedCargo.draws = false := rfl
  have hcurrent : ¬ unrecordedCargo.ReadsCurrent := by decide
  have hproperty : ¬ unrecordedCargo.ReadsProperty "Cargo" := by decide
  have h : unrecordedCargo.eval c = .ok 3 := rfl
  obtain ⟨withSeed, withCurrent, withProperty, -, -⟩ := unrecordedCargo.eval_beyond_slots c
  refine ⟨hseed, hcurrent, hproperty, h, ?_, ?_, ?_, rfl⟩
  · exact (withSeed hseed 5).trans h
  · exact (withCurrent hcurrent (some (.int 9))).trans h
  · exact (withProperty "Cargo" hproperty (.int 9)).trans h

end RuleExpr
