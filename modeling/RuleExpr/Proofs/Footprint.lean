/-
  RuleExpr.Proofs.Footprint — what evaluation reads of its context.

  An expression reads the context through its leaves and, for random draws, the seed:
  where every variable and every statistic has the same outcome in two contexts, so has
  the whole expression (`Node.eval_congr`). A statistic reads the objects of the universe,
  what its condition reads, and the current value if its values are those of the property
  `Value` (`Statistic.eval_congr`).

  Two contexts over one universe, value and seed differ in their slots only, and a
  function that ignores every slot in which they differ gives the same result on both,
  however many these are (`Context.eq_of_ignores`).
-/

import RuleExpr.Node.Eval

namespace RuleExpr

/-! ## Leaves -/

theorem Ty.applyBinary_of_ne_randomUniform {t : Ty} {op : BinaryOp} (hop : op ≠ .randomUniform) (v w : t.Carrier)
    (seed seed' : UInt64) : t.applyBinary seed op v w = t.applyBinary seed' op v w := by
  cases op with
  | randomUniform => exact absurd rfl hop
  | _ => cases t <;> rfl

namespace Node

variable {H : Type}

/-- The variables outside statistics, from left to right. -/
def vars : {t : Ty} → Node H t → List Variable
  | _, var x => [x]
  | _, staticCast operand => vars operand
  | _, textCast operand => vars operand
  | _, unary _ operand => vars operand
  | _, binary _ lhs rhs => vars lhs ++ vars rhs
  | _, _ => []

/-- The statistics, from left to right. -/
def statistics : {t : Ty} → Node H t → List (Statistic H)
  | _, statistic s => [s]
  | _, staticCast operand => statistics operand
  | _, textCast operand => statistics operand
  | _, unary _ operand => statistics operand
  | _, binary _ lhs rhs => statistics lhs ++ statistics rhs
  | _, _ => []

/-- Some operator is a random draw. -/
def draws : {t : Ty} → Node H t → Bool
  | _, staticCast operand => draws operand
  | _, textCast operand => draws operand
  | _, unary _ operand => draws operand
  | _, binary op lhs rhs => op = .randomUniform || draws lhs || draws rhs
  | _, _ => false

theorem draws_binary {t : Ty} {op : BinaryOp} {lhs rhs : Node H t} :
    (binary op lhs rhs).draws = true ↔ op = .randomUniform ∨ lhs.draws = true ∨ rhs.draws = true := by
  simp only [draws, Bool.or_eq_true, decide_eq_true_eq, or_assoc]

variable [HostCondition H]

theorem eval_congr {c d : Context} {t : Ty} (n : Node H t) (hseed : n.draws = true → c.seed = d.seed)
    (hx : ∀ x ∈ n.vars, x.lookup c = x.lookup d)
    (hs : ∀ s ∈ n.statistics, ∀ t, s.eval t c = s.eval t d) : n.eval c = n.eval d := by
  induction n with
  | constant v => rfl
  | var x => simp only [eval, Variable.eval, hx x (List.mem_singleton_self x)]
  | statistic s => exact hs s (List.mem_singleton_self s) _
  | staticCast operand ih => simp only [eval, ih hseed hx hs]
  | textCast operand ih => simp only [eval, ih hseed hx hs]
  | unary op operand ih => simp only [eval, ih hseed hx hs]
  | @binary t op lhs rhs ihl ihr =>
    have hl := ihl (fun h => hseed (draws_binary.mpr (.inr (.inl h)))) (fun x h => hx x (List.mem_append_left _ h))
      fun s h => hs s (List.mem_append_left _ h)
    have hr := ihr (fun h => hseed (draws_binary.mpr (.inr (.inr h)))) (fun x h => hx x (List.mem_append_right _ h))
      fun s h => hs s (List.mem_append_right _ h)
    have hop : ∀ v w, t.applyBinary c.seed op v w = t.applyBinary d.seed op v w := by
      intro v w
      by_cases h : op = .randomUniform
      · rw [hseed (draws_binary.mpr (.inl h))]
      · exact Ty.applyBinary_of_ne_randomUniform h v w c.seed d.seed
    simp only [eval, hl, hr, hop]

end Node

theorem Context.currentValue_congr {c d : Context} (h : c.current = d.current) :
    c.currentValue = d.currentValue := by
  simp only [Context.currentValue, h]

theorem Context.object?_eq_of_slot {c d : Context} {r : Reference} (h : ∀ s, r = .slot s → c.slot s = d.slot s) :
    c.object? r = d.object? r := by
  cases r with
  | nonObject => rfl
  | slot s => exact h s rfl

namespace Universe

variable {u u' : Universe}

theorem object?_congr (h : u.objects = u'.objects) : u.object? = u'.object? := by
  funext id
  simp only [object?, h]

/-- A path leads from object to object, and never to a property of the universe. -/
theorem resolve_congr (h : u.objects = u'.objects) (o : Object) (path : List String) :
    u.resolve o path = u'.resolve o path := by
  have hf : ∀ o segment, u.follow o segment = u'.follow o segment := by
    intro o segment
    simp only [follow, object?_congr h]
  induction path generalizing o with
  | nil => rfl
  | cons segment rest ih =>
    cases rest with
    | nil => rfl
    | cons next rest => simp only [resolve, hf, ih]

end Universe

/-- A lookup reads the slot referred to and the objects of the universe, or else one property of the
    universe; and the current value if the path is `Value` alone. -/
theorem DottedPath.lookupAs_congr (p : DottedPath) {r : Reference} {c d : Context}
    (hu : c.univ.objects = d.univ.objects) (hcurrent : p.segments = [valueSegment] → c.current = d.current)
    (hproperty : r = .nonObject → c.univ.property? p.dotted = d.univ.property? p.dotted)
    (hobject : c.object? r = d.object? r) : p.lookupAs r c = p.lookupAs r d := by
  unfold lookupAs
  split
  · next hp => exact Context.currentValue_congr (hcurrent hp)
  · cases r with
    | nonObject => simp only [hproperty rfl]
    | slot s =>
      simp only [hobject]
      cases d.object? (.slot s) with
      | none => rfl
      | some o => exact Universe.resolve_congr hu o p.properties

namespace Statistic

variable {H : Type}

/-- The values of the property are needed, and the property is the current value. -/
def ReadsCurrent (s : Statistic H) : Prop := s.reduction.needsValues = true ∧ s.property = [valueSegment]

instance (s : Statistic H) : Decidable s.ReadsCurrent := inferInstanceAs (Decidable (_ ∧ _))

theorem lookup_congr {c d : Context} {property : List String} (hu : c.univ.objects = d.univ.objects)
    (hc : property = [valueSegment] → c.current = d.current) : lookup property c = lookup property d := by
  funext o
  -- Nested for the object, both contexts have it in the local slot.
  exact (DottedPath.relative property).lookupAs_congr hu hc nofun rfl

theorem values_congr {c d : Context} (s : Statistic H) (hu : c.univ.objects = d.univ.objects)
    (hc : s.ReadsCurrent → c.current = d.current) (t : Ty) : s.values t c = s.values t d := by
  funext sampled
  unfold values
  split
  · next hn => rw [lookup_congr hu fun hp => hc ⟨hn, hp⟩]
  · rfl

theorem eval_congr [HostCondition H] {c d : Context} (s : Statistic H) (hu : c.univ.objects = d.univ.objects)
    (hc : s.ReadsCurrent → c.current = d.current) (hk : s.condition.select c = s.condition.select d) (t : Ty) :
    s.eval t c = s.eval t d := by
  simp only [eval, sample, hk, s.values_congr hu hc]

end Statistic

/-! ## Slots -/

namespace Context

/-- The context with another object, or none, in one slot. -/
def setSlot (c : Context) (s : Slot) (o : Option Object) : Context :=
  match s with
  | .source => { c with source := o }
  | .effectTarget => { c with effectTarget := o }
  | .localCandidate => { c with localCandidate := o }
  | .rootCandidate => { c with rootCandidate := o }

@[simp] theorem univ_setSlot (c : Context) (s : Slot) (o : Option Object) : (c.setSlot s o).univ = c.univ := by
  cases s <;> rfl

@[simp] theorem current_setSlot (c : Context) (s : Slot) (o : Option Object) :
    (c.setSlot s o).current = c.current := by
  cases s <;> rfl

@[simp] theorem seed_setSlot (c : Context) (s : Slot) (o : Option Object) : (c.setSlot s o).seed = c.seed := by
  cases s <;> rfl

theorem slot_setSlot (c : Context) (s s' : Slot) (o : Option Object) :
    (c.setSlot s o).slot s' = if s' = s then o else c.slot s' := by
  cases s <;> cases s' <;> rfl

theorem setSlot_slot (c : Context) (s : Slot) : c.setSlot s (c.slot s) = c := by
  cases s <;> rfl

/-- The results of `f` do not change when only the object in slot `s` does. -/
def Ignores {α : Type} (f : Context → α) (s : Slot) : Prop := ∀ c o, f (c.setSlot s o) = f c

def allSlots : List Slot := [.source, .effectTarget, .localCandidate, .rootCandidate]

/-- The context with the objects that `d` has in the slots `ss`. -/
def copySlots (d : Context) (ss : List Slot) (c : Context) : Context :=
  ss.foldl (fun e s => e.setSlot s (d.slot s)) c

theorem copySlots_allSlots {c d : Context} (hu : c.univ = d.univ) (hc : c.current = d.current)
    (hs : c.seed = d.seed) : d.copySlots allSlots c = d := by
  cases c
  cases d
  cases hu
  cases hc
  cases hs
  rfl

theorem apply_setSlot {α : Type} {f : Context → α} {d e : Context} {s : Slot}
    (h : e.slot s = d.slot s ∨ Ignores f s) : f (e.setSlot s (d.slot s)) = f e := by
  rcases h with h | h
  · rw [← h, setSlot_slot]
  · exact h e _

theorem apply_copySlots {α : Type} {f : Context → α} (d : Context) (ss : List Slot) (e : Context)
    (h : ∀ s, e.slot s = d.slot s ∨ Ignores f s) : f (d.copySlots ss e) = f e := by
  induction ss generalizing e with
  | nil => rfl
  | cons s ss ih =>
    have hs : ∀ s', (e.setSlot s (d.slot s)).slot s' = d.slot s' ∨ Ignores f s' := by
      intro s'
      rw [slot_setSlot]
      by_cases e' : s' = s
      · exact .inl (by rw [if_pos e', e'])
      · rw [if_neg e']
        exact h s'
    calc f (d.copySlots (s :: ss) e) = f (e.setSlot s (d.slot s)) := ih _ hs
      _ = f e := apply_setSlot (h s)

/-- Slots in which two contexts differ make no difference together if none does alone. -/
theorem eq_of_ignores {α : Type} {f : Context → α} {c d : Context} (hu : c.univ = d.univ)
    (hc : c.current = d.current) (hs : c.seed = d.seed) (h : ∀ s, c.slot s = d.slot s ∨ Ignores f s) :
    f c = f d := by
  rw [← apply_copySlots d allSlots c h, copySlots_allSlots hu hc hs]

end Context

end RuleExpr
