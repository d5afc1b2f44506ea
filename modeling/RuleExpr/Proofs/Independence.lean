/-
  RuleExpr.Proofs.Independence — what the independence flags promise.

  A condition is reliable if its own flags are true of it and it ignores the local
  candidate, for which it has no flag. Conditions built from reliable conditions of the
  host are reliable (`reliable_of_hosts`), so all built-in ones are (`reliable_builtin`).
  Over reliable conditions evaluation honours every flag of the whole expression: two
  contexts that differ in independent slots only, in any number of them, give the same
  value or the same error (`eval_eq_of_agreeOff`).
-/

import RuleExpr.Node.Independence
import RuleExpr.Proofs.Footprint

namespace RuleExpr

open Context

/-! ## Flags and agreement -/

/-- The flag of a slot; a condition has none for the local candidate. -/
def ConditionIndependence.of (i : ConditionIndependence) : Slot → Bool
  | .source => i.source
  | .effectTarget => i.effectTarget
  | .localCandidate => false
  | .rootCandidate => i.rootCandidate

/-- Slots that a condition with these flags may be expected to ignore. -/
def ConditionIndependence.Covers (i : ConditionIndependence) (s : Slot) : Prop :=
  i.of s = true ∨ s = .localCandidate

theorem ConditionIndependence.covers_and {i j : ConditionIndependence} {s : Slot} :
    (i.and j).Covers s ↔ i.Covers s ∧ j.Covers s := by
  have e : (i.and j).of s = (i.of s && j.of s) := by cases s <;> rfl
  rw [Covers, Covers, Covers, e, Bool.and_eq_true, and_or_right]

@[simp] theorem Independence.of_full (s : Slot) : Independence.full.of s = true := by
  cases s <;> rfl

@[simp] theorem Independence.of_and (i j : Independence) (s : Slot) : (i.and j).of s = (i.of s && j.of s) := by
  cases s <;> rfl

theorem Independence.of_ofReference (r : Reference) (s : Slot) :
    (Independence.ofReference r).of s = decide (r ≠ .slot s) := by
  cases s <;> rfl

/-- Contexts that differ at most in slots that `i` marks as independent. -/
structure Context.AgreeOff (i : Independence) (c d : Context) : Prop where
  univ : c.univ = d.univ
  current : c.current = d.current
  seed : c.seed = d.seed
  slot : ∀ s, i.of s = false → c.slot s = d.slot s

theorem Context.AgreeOff.mono {i j : Independence} {c d : Context} (h : c.AgreeOff i d)
    (hij : ∀ s, j.of s = false → i.of s = false) : c.AgreeOff j d :=
  ⟨h.univ, h.current, h.seed, fun s hs => h.slot s (hij s hs)⟩

theorem Context.AgreeOff.left {i j : Independence} {c d : Context} (h : c.AgreeOff (i.and j) d) :
    c.AgreeOff i d :=
  h.mono fun s hs => by simp [hs]

theorem Context.AgreeOff.right {i j : Independence} {c d : Context} (h : c.AgreeOff (i.and j) d) :
    c.AgreeOff j d :=
  h.mono fun s hs => by simp [hs]

/-! ## Conditions -/

namespace Condition

variable {H : Type} [HostCondition H]

/-- What the condition's flags say of it is true. -/
def HonoursFlags (k : Condition H) : Prop :=
  ∀ s, k.independence.of s = true → Ignores (fun c => k.select c) s

structure Reliable (k : Condition H) : Prop where
  honoursFlags : k.HonoursFlags
  ignoresLocal : Ignores (fun c => k.select c) .localCandidate

mutual

/-- The conditions of the host that occur in a condition. -/
def hosts : Condition H → List H
  | host h => [h]
  | and operands => hostsOfAll operands
  | _ => []

def hostsOfAll : List (Condition H) → List H
  | [] => []
  | first :: rest => hosts first ++ hostsOfAll rest

end

theorem Reliable.ignores {k : Condition H} (hk : k.Reliable) {s : Slot} (hs : k.independence.Covers s) :
    Ignores (fun c => k.select c) s := by
  rcases hs with hs | rfl
  · exact hk.honoursFlags s hs
  · exact hk.ignoresLocal

mutual

theorem select_setSlot (k : Condition H) (hk : ∀ h ∈ k.hosts, (host h).Reliable) {s : Slot}
    (hs : k.independence.Covers s) (c : Context) (o : Option Object) : k.select (c.setSlot s o) = k.select c := by
  match k with
  | all => simp only [select, univ_setSlot]
  | objectType m => simp only [select, univ_setSlot]
  | withinIds ids => simp only [select, univ_setSlot]
  | hasProperty name => simp only [select, univ_setSlot]
  | source =>
    cases s with
    | source => rcases hs with hs | hs <;> cases hs
    | _ => rfl
  | host h => exact (hk h (List.mem_singleton_self h)).ignores hs c o
  | and [] => rfl
  | and (first :: rest) =>
    obtain ⟨hf, hr⟩ := ConditionIndependence.covers_and.mp hs
    have ef := select_setSlot first (fun h m => hk h (List.mem_append_left _ m)) hf c o
    simp only [select, ef]
    cases select c first with
    | error e => rfl
    | ok found => exact narrow_setSlot rest (fun h m => hk h (List.mem_append_right _ m)) hr c o found

theorem narrow_setSlot (ks : List (Condition H)) (hk : ∀ h ∈ hostsOfAll ks, (host h).Reliable) {s : Slot}
    (hs : (independenceOfAll ks).Covers s) (c : Context) (o : Option Object) (found : List Object) :
    narrow (c.setSlot s o) found ks = narrow c found ks := by
  match ks with
  | [] => rfl
  | next :: rest =>
    obtain ⟨hn, hr⟩ := ConditionIndependence.covers_and.mp hs
    have en := select_setSlot next (fun h m => hk h (List.mem_append_left _ m)) hn c o
    simp only [narrow, en]
    cases select c next with
    | error e => rfl
    | ok others => exact narrow_setSlot rest (fun h m => hk h (List.mem_append_right _ m)) hr c o _

end

theorem reliable_of_hosts (k : Condition H) (hk : ∀ h ∈ k.hosts, (host h).Reliable) : k.Reliable :=
  ⟨fun _ hs c o => select_setSlot k hk (.inl hs) c o, fun c o => select_setSlot k hk (.inr rfl) c o⟩

theorem reliable_builtin (k : BuiltinCondition) : k.Reliable := k.reliable_of_hosts nofun

theorem Reliable.select_eq {k : Condition H} (hk : k.Reliable) {c d : Context} (hu : c.univ = d.univ)
    (hc : c.current = d.current) (hs : c.seed = d.seed)
    (h : ∀ s, ¬ k.independence.Covers s → c.slot s = d.slot s) : k.select c = k.select d := by
  refine eq_of_ignores (f := fun c => k.select c) hu hc hs fun s => ?_
  by_cases hcov : k.independence.Covers s
  · exact .inr (hk.ignores hcov)
  · exact .inl (h s hcov)

end Condition

/-! ## Expressions -/

namespace Node

variable {H : Type} [HostCondition H] {t : Ty}

/-- An expression has a flag only where none of its variables refers to the slot. -/
theorem reference_ne (n : Node H t) {s : Slot} (hs : n.independence.of s = true) :
    ∀ x ∈ n.vars, x.reference ≠ .slot s := by
  induction n with
  | constant v => exact nofun
  | statistic s => exact nofun
  | var x =>
    intro y hy
    obtain rfl := List.mem_singleton.mp hy
    exact of_decide_eq_true ((Independence.of_ofReference y.reference s).symm.trans hs)
  | staticCast operand ih => exact ih hs
  | textCast operand ih => exact ih hs
  | unary op operand ih => exact ih hs
  | binary op lhs rhs ihl ihr =>
    obtain ⟨hl, hr⟩ := Bool.and_eq_true_iff.mp ((Independence.of_and _ _ s).symm.trans hs)
    intro x hx
    rcases List.mem_append.mp hx with hx | hx
    · exact ihl hl x hx
    · exact ihr hr x hx

theorem agreeOff_var {c d : Context} (n : Node H t) (h : c.AgreeOff n.independence d) :
    ∀ x ∈ n.vars, c.AgreeOff (.ofReference x.reference) d := by
  intro x hx
  refine h.mono fun s hs => Bool.eq_false_iff.mpr fun hn => n.reference_ne hn x hx ?_
  simpa [Independence.of_ofReference] using hs

theorem agreeOff_statistic {c d : Context} (n : Node H t) (h : c.AgreeOff n.independence d) :
    ∀ s ∈ n.statistics, c.AgreeOff (statistic (t := t) s).independence d := by
  induction n with
  | constant v => exact nofun
  | var x => exact nofun
  | statistic s =>
    intro s' hs
    obtain rfl := List.mem_singleton.mp hs
    exact h
  | staticCast operand ih => exact ih h
  | textCast operand ih => exact ih h
  | unary op operand ih => exact ih h
  | binary op lhs rhs ihl ihr =>
    intro s hs
    rcases List.mem_append.mp hs with hs | hs
    · exact ihl h.left s hs
    · exact ihr h.right s hs

end Node

theorem Variable.lookup_eq {c d : Context} (x : Variable) (h : c.AgreeOff (.ofReference x.reference) d) :
    x.lookup c = x.lookup d := by
  have hobject : c.object? x.reference = d.object? x.reference :=
    Context.object?_eq_of_slot fun s hr => h.slot s (by simp [hr, Independence.of_ofReference])
  exact x.toPath.lookupAs_congr (congrArg Universe.objects h.univ) (fun _ => h.current) (fun _ => by rw [h.univ]) hobject

theorem Statistic.eval_eq {H : Type} [HostCondition H] {c d : Context} (s : Statistic H) (hk : s.condition.Reliable)
    {t' : Ty} (h : c.AgreeOff (Node.statistic (t := t') s).independence d) (t : Ty) : s.eval t c = s.eval t d := by
  refine s.eval_congr (congrArg Universe.objects h.univ) (fun _ => h.current) ?_ t
  refine hk.select_eq h.univ h.current h.seed fun s' hs => h.slot s' ?_
  cases s' with
  | localCandidate => exact absurd (.inr rfl) hs
  | _ => exact Bool.eq_false_iff.mpr fun e => hs (.inl e)

theorem Node.eval_eq_of_agreeOff {H : Type} [HostCondition H] {t : Ty} (n : Node H t)
    (hk : ∀ s ∈ n.statistics, s.condition.Reliable) {c d : Context} (h : c.AgreeOff n.independence d) :
    n.eval c = n.eval d :=
  n.eval_congr (fun _ => h.seed) (fun x hx => x.lookup_eq (n.agreeOff_var h x hx))
    fun s hs => s.eval_eq (hk s hs) (n.agreeOff_statistic h s hs)

/-- The flags can be relied on, whichever slots are changed and however many at once, and so
    can those of every built-in condition. -/
theorem flags_honoured :
    (∀ k : BuiltinCondition, k.Reliable) ∧
      ∀ {H : Type} [HostCondition H] {t : Ty} (n : Node H t), (∀ s ∈ n.statistics, s.condition.Reliable) →
        ∀ c d : Context, c.AgreeOff n.independence d → n.eval c = n.eval d :=
  ⟨Condition.reliable_builtin, fun n hk _ _ h => n.eval_eq_of_agreeOff hk h⟩

/-! ## An expression that depends on the source only -/

def scout : Object := { id := 7, objectType := .invalid _ }

def outpost : Object := { id := 3, objectType := .invalid _ }

def Statistic.ofIds (r : Reduction) (condition : BuiltinCondition) : Statistic Empty :=
  ⟨r, ["ID"], condition, by decide, fun _ => List.cons_ne_nil _ _⟩

/-- The id of the source, added to the sum of the ids that the condition `Source` selects. -/
def sourceTwice : Node Empty .int :=
  .binary .plus (.var ⟨["Source", "ID"], by decide, by decide⟩)
    (.statistic (.ofIds .sum (.and [.source])))

/-- Target, local and root candidate are absent from one context and present in the other. -/
theorem flags_honoured_sourceTwice :
    let c := Context.forSource .empty scout
    let d := (Context.forTarget .empty (some scout) outpost).nested outpost
    (∀ s ∈ sourceTwice.statistics, s.condition.Reliable) ∧ c.AgreeOff sourceTwice.independence d ∧
      sourceTwice.eval c = .ok 14 ∧ sourceTwice.eval c = sourceTwice.eval d := by
  intro c d
  have hk : ∀ s ∈ sourceTwice.statistics, s.condition.Reliable := fun s _ => s.condition.reliable_builtin
  have h : c.AgreeOff sourceTwice.independence d := by
    refine ⟨rfl, rfl, rfl, fun s hs => ?_⟩
    cases s with
    | source => rfl
    | _ => cases hs
  exact ⟨hk, h, rfl, flags_honoured.2 sourceTwice hk c d h⟩

end RuleExpr
