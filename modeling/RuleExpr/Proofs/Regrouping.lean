/-
  RuleExpr.Proofs.Regrouping — operands of associative operators grouped in another way.

  Concatenation, and minima and maxima of everything but doubles, come to the same however three
  values are grouped (`Ty.exists_combine`). So a tree of one such operator can be rotated at any node
  (`Node.eval_rotate`), and by rotations every tree becomes the one with the same leaves that is
  grouped to the left (`Node.Grouped.exists_leftmost`). The leaves may be any expressions. They are
  evaluated from left to right in every grouping, so it is always the leftmost failing leaf that the
  tree fails with (`Node.Grouped.eval_error`).

  A minimum of doubles does depend on the grouping, because of NaN.
-/

import RuleExpr.Proofs.Outcome
import RuleExpr.Proofs.Reduction.Chain
import RuleExpr.Proofs.Sampling

namespace RuleExpr

/-! ## Associative operators -/

namespace Ty

/-- The type defines the operator, and the grouping of its operands makes no difference. -/
def associates : Ty → BinaryOp → Bool
  | double, _ => false
  | text, .plus => true
  | _, .minimum | _, .maximum => true
  | _, _ => false

theorem exists_combine {t : Ty} {op : BinaryOp} (h : t.associates op = true) :
    ∃ f, Std.Associative f ∧ ∀ seed v w, t.applyBinary seed op v w = .ok (f v w) := by
  have ht : t ≠ .double := by
    rintro rfl
    cases h
  cases op with
  | plus =>
    cases t with
    | text => exact ⟨String.append, ⟨fun _ _ _ => String.append_assoc⟩, fun _ _ _ => rfl⟩
    | _ => cases h
  | minimum => exact ⟨_, minimum_assoc ht, t.applyBinary_minimum⟩
  | maximum => exact ⟨_, maximum_assoc ht, t.applyBinary_maximum⟩
  | _ => cases t <;> cases h

end Ty

namespace Node

variable {H : Type} {t : Ty}

/-- A tree of one operator over the leaves, from left to right. -/
inductive Grouped (op : BinaryOp) : Node H t → List (Node H t) → Prop where
  | leaf (n : Node H t) : Grouped op n [n]
  | node {a b : Node H t} {ms ns : List (Node H t)} (ha : Grouped op a ms) (hb : Grouped op b ns) :
      Grouped op (binary op a b) (ms ++ ns)

section Associative

variable [HostCondition H] {op : BinaryOp} (hop : t.associates op = true) {c : Context}

include hop

/-! ## Rotations -/

theorem eval_rotate (a b d : Node H t) :
    (binary op a (binary op b d)).eval c = (binary op (binary op a b) d).eval c := by
  obtain ⟨f, hassoc, hf⟩ := Ty.exists_combine hop
  simp only [eval, hf, bind_assoc, Outcome.ok_bind, hassoc.assoc]

/-- The second operand is itself grouped to the left, so the rotations begin at its root. -/
theorem eval_binary_foldl (a first : Node H t) (rest : List (Node H t)) :
    (binary op a (rest.foldl (binary op) first)).eval c = (rest.foldl (binary op) (binary op a first)).eval c := by
  induction rest using List.reverseRecOn with
  | nil => rfl
  | append_singleton rest last ih =>
    have hlast : ∀ n : Node H t,
        (binary op n last).eval c = n.eval c >>= fun v => last.eval c >>= t.applyBinary c.seed op v := fun _ => rfl
    rw [List.foldl_append, List.foldl_append, List.foldl_cons, List.foldl_cons, List.foldl_nil, List.foldl_nil,
      eval_rotate hop, hlast, hlast, ih]

namespace Grouped

variable {n : Node H t} {leaves : List (Node H t)}

theorem exists_leftmost (h : Grouped op n leaves) :
    ∃ first rest, leaves = first :: rest ∧ n.eval c = (rest.foldl (binary op) first).eval c := by
  induction h with
  | leaf n => exact ⟨n, [], rfl, rfl⟩
  | node _ _ iha ihb =>
    obtain ⟨first, rest, rfl, ha⟩ := iha
    obtain ⟨first', rest', rfl, hb⟩ := ihb
    refine ⟨first, rest ++ first' :: rest', rfl, ?_⟩
    rw [List.foldl_append, List.foldl_cons, ← eval_binary_foldl hop, eval, eval, ha, hb]

/-! ## Failing leaves -/

theorem exists_value (h : Grouped op n leaves) (hleaves : ∀ m ∈ leaves, ∃ v, m.eval c = .ok v) :
    ∃ v, n.eval c = .ok v := by
  obtain ⟨f, -, hf⟩ := Ty.exists_combine hop
  induction h with
  | leaf n => exact hleaves n List.mem_cons_self
  | node _ _ iha ihb =>
    obtain ⟨v, hv⟩ := iha fun m hm => hleaves m (List.mem_append_left _ hm)
    obtain ⟨w, hw⟩ := ihb fun m hm => hleaves m (List.mem_append_right _ hm)
    refine ⟨f v w, ?_⟩
    rw [eval, hv, hw]
    exact hf c.seed v w

theorem eval_error (h : Grouped op n leaves) {before after : List (Node H t)} {m : Node H t} {e : Error}
    (hleaves : leaves = before ++ m :: after) (hbefore : ∀ k ∈ before, ∃ v, k.eval c = .ok v)
    (hm : m.eval c = .error e) : n.eval c = .error e := by
  induction h generalizing before after with
  | leaf n =>
    obtain ⟨rfl, hsingle⟩ := List.append_eq_singleton_iff.mp hleaves.symm |>.resolve_right nofun
    obtain rfl := (List.cons.inj hsingle).1
    exact hm
  | @node a b ms ns ha _ iha ihb =>
    -- The failing leaf is one of the second operand, after all those of the first, or one of the first.
    have hright : ∀ k, before = ms ++ k → ns = k ++ m :: after → (binary op a b).eval c = .error e := by
      rintro k rfl hns
      obtain ⟨v, hv⟩ := exists_value hop ha fun l hl => hbefore l (List.mem_append_left _ hl)
      rw [eval, hv, ihb hns fun l hl => hbefore l (List.mem_append_right _ hl)]
      rfl
    rcases List.append_eq_append_iff.mp hleaves with ⟨k, hbefore', hns⟩ | ⟨k, hms, hns⟩
    · exact hright k hbefore' hns
    · cases k with
      | nil => exact hright [] (by simpa using hms.symm) hns.symm
      | cons m' k =>
        obtain ⟨rfl, -⟩ := List.cons.inj hns
        rw [eval, iha hms hbefore]
        rfl

end Grouped

/-- Two trees of one associative operator over the same leaves have one outcome: a value if every
    leaf has one, and else the error of the leftmost leaf that has none. -/
theorem regrouping_is_safe {a b : Node H t} {leaves : List (Node H t)} (ha : Grouped op a leaves)
    (hb : Grouped op b leaves) (c : Context) :
    a.eval c = b.eval c ∧
      ((∀ n ∈ leaves, ∃ v, n.eval c = .ok v) ∧ (∃ v, a.eval c = .ok v) ∨
        ∃ before n after e, leaves = before ++ n :: after ∧ (∀ m ∈ before, ∃ v, m.eval c = .ok v) ∧
          n.eval c = .error e ∧ a.eval c = .error e) := by
  constructor
  · obtain ⟨first, rest, hleaves, ha'⟩ := ha.exists_leftmost hop (c := c)
    obtain ⟨first', rest', hleaves', hb'⟩ := hb.exists_leftmost hop (c := c)
    obtain ⟨rfl, rfl⟩ := List.cons.inj (hleaves.symm.trans hleaves')
    rw [ha', hb']
  · rcases Outcome.forall₂_or_first_error leaves fun n => n.eval c with
      ⟨vs, hvs⟩ | ⟨before, n, after, e, hleaves, hbefore, hn⟩
    · have hvalues : ∀ n ∈ leaves, ∃ v, n.eval c = .ok v :=
        ((List.forall₂_and_left leaves vs).mp (hvs.imp fun _ v hv => ⟨⟨v, hv⟩, hv⟩)).1
      exact .inl ⟨hvalues, ha.exists_value hop hvalues⟩
    · exact .inr ⟨before, n, after, e, hleaves, hbefore, hn, ha.eval_error hop hleaves hbefore hn⟩

end Associative

/-- Two of the leaves fail, and in each grouping the same one of them is met first. -/
theorem regrouping_is_safe_greeting :
    let absent (name : String) (h : name ≠ "") : Node Empty .text :=
      var ⟨[name], List.cons_ne_nil _ _, fun _ hs => List.mem_singleton.mp hs ▸ h⟩
    let hail : Node Empty .text := constant "Hail, "
    let empress := absent "Empress" (by decide)
    let planet := absent "Capital" (by decide)
    let a := binary .plus (binary .plus hail empress) (binary .plus (constant " of ") planet)
    let b := binary .plus hail (binary .plus (binary .plus empress (constant " of ")) planet)
    let leaves := [hail, empress, constant " of ", planet]
    Ty.text.associates .plus = true ∧ Grouped .plus a leaves ∧ Grouped .plus b leaves ∧
      a.eval .empty = b.eval .empty ∧ b.eval .empty = .error (.property (.unknownOfUniverse "Empress")) := by
  intro absent hail empress planet a b leaves
  have hop : Ty.text.associates .plus = true := rfl
  have ha : Grouped .plus a leaves := .node (.node (.leaf _) (.leaf _)) (.node (.leaf _) (.leaf _))
  have hb : Grouped .plus b leaves := .node (.leaf _) (.node (.node (.leaf _) (.leaf _)) (.leaf _))
  exact ⟨hop, ha, hb, (regrouping_is_safe hop ha hb .empty).1, rfl⟩

/-- The least of 3, a NaN and 2 is 2 in one grouping and 3 in the other. -/
example :
    let nan : Float := 0.0 / 0.0
    Ty.minimum .double (Ty.minimum .double (3.0 : Float) nan) (2.0 : Float) = (2.0 : Float) ∧
      Ty.minimum .double (3.0 : Float) (Ty.minimum .double nan (2.0 : Float)) = (3.0 : Float) := by
  decide +kernel

end Node

end RuleExpr
