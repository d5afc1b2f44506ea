/-
  RuleExpr.Proofs.Script.Canonical — the script text of an expression of ints determines it.

  For `Plain` expressions, which are made of constants, names and operators, the text reads
  as the normal form at the level of its outermost operator (`Plain.reads`): an operand is
  bracketed at least where its own level is too low for the place (`reads_enclose`). The
  grammar allows one reading only, so expressions of one text have one normal form.
-/

import RuleExpr.Node.Same
import RuleExpr.Proofs.Script.NormalForm
import RuleExpr.Proofs.Script.Spelling

namespace RuleExpr

open Script

variable {H : Type}

/-! ## Levels -/

/-- The level at which a text with this outermost operator reads. -/
def Op.level : Op → Nat
  | unary _ => 4
  | binary op => match op.form with
    | .between _ p => p
    | .call _ => 4

/-- The level of a text; leaves read as high as calls. -/
def Op.levelOf (top : Option Op) : Nat := (top.map level).getD 4

namespace Op

theorem level_between {op : BinaryOp} {symbol : String} {p : Nat} (hop : op.form = .between symbol p) :
    level (.binary op) = p := by
  simp only [level, hop]

theorem level_call {op : BinaryOp} {f : String} (hop : op.form = .call f) : level (.binary op) = 4 := by
  simp only [level, hop]

theorem one_le_levelOf (top : Option Op) : 1 ≤ levelOf top := by
  match top with
  | none | some (.unary _) => exact Nat.succ_pos 3
  | some (.binary op) => cases op <;> decide

theorem level_of_wrappedByNegation {o : Op} (h : o.wrappedByNegation = false) : 4 ≤ o.level := by
  cases o with
  | unary op => exact Nat.le_refl 4
  | binary op => cases op <;> first | exact absurd h (by decide) | decide

/-- An operand without brackets has the level that its side asks for. -/
theorem level_of_wrappedBy {op : BinaryOp} {symbol : String} {p : Nat} (hop : op.form = .between symbol p)
    (hp : p ≤ 3) {side : Side} {o : Op} (h : o.wrappedBy op side = false) :
    p ≤ o.level ∧ (side = .right → p < o.level) := by
  cases o with
  | unary _ => exact ⟨Nat.le_succ_of_le hp, fun _ => Nat.lt_succ_of_le hp⟩
  | binary child =>
    cases hc : child.form with
    | between _ q =>
      simp only [wrappedBy, hop, hc, Bool.or_eq_false_iff, Bool.and_eq_false_iff, decide_eq_false_iff_not] at h
      rw [level_between hc]
      obtain ⟨⟨_, hle⟩, hne | hside⟩ := h
      · omega
      · exact ⟨Nat.not_lt.mp hle, fun hr => absurd hr hside⟩
    | call _ =>
      rw [level_call hc]
      exact ⟨Nat.le_succ_of_le hp, fun _ => Nat.lt_succ_of_le hp⟩

end Op

/-! ## Reading -/

namespace Script

theorem operator?_symbol {op : BinaryOp} {symbol : String} {p : Nat} (hop : op.form = .between symbol p) :
    ∃ t, tokens symbol = [t] ∧ operator? t = some (op, p) := by
  cases op <;> cases hop <;> exact ⟨_, rfl, rfl⟩

theorem reads_enclose {wrapped : Op → Bool} {top : Option Op} {s : String} {a : Node H .int} {p : Nat}
    (h : Reads (Op.levelOf top) (tokens s) a) (hp : p ≤ 4) (hw : ∀ o, wrapped o = false → p ≤ o.level) :
    Reads p (tokens (enclose wrapped top s)) a := by
  unfold enclose
  split
  · have hb := tokens_bracketed "" s
    rw [String.empty_append] at hb
    rw [hb]
    exact (Reads.brackets (h.weaken (Op.one_le_levelOf top))).weaken (Nat.le_succ_of_le hp)
  · next hno =>
    match top with
    | none => exact h.weaken hp
    | some o =>
      rw [Bool.not_eq_true, Bool.or_eq_false_iff] at hno
      exact h.weaken (hw o hno.1)

theorem negative?_of_function? {s : String} {op : Op} (h : function? s = some op) : negative? s = none := by
  unfold function? at h
  split at h
  all_goals first | rfl | cases h

theorem eq_constant_of_leaf? {s : String} {a : Node H .int} (ha : leaf? s = some a) {m : Int32}
    (hm : negative? s = some m) : ∃ n, 0 < n ∧ a = .constant n := by
  unfold leaf? at ha
  unfold negative? at hm
  cases hs : digits? s with
  | none => rw [hs] at hm; cases hm
  | some k =>
    rw [hs] at ha hm
    obtain ⟨n, hn, rfl⟩ := Option.map_eq_some_iff.mp ha
    refine ⟨n, Int32.lt_iff_toInt_lt.mpr ?_, rfl⟩
    have hk : k ≠ 0 := by
      rintro rfl
      cases hm
    have h0 : (0 : Int32).toInt = 0 := rfl
    have hnk : n.toInt = k := int32?_eq_some_iff.mp hn
    omega

/-- At the level of a prefix minus only a positive constant begins with a positive numeral. -/
theorem Reads.eq_constant {p : Nat} {ts us : List Token} {a : Node H .int} (h : Reads p ts a) (hp : 4 ≤ p)
    {s : String} (hts : ts = .word s :: us) {m : Int32} (hm : negative? s = some m) :
    ∃ n, 0 < n ∧ a = .constant n := by
  induction h with
  | between ht _ _ _ _ =>
    have hle := operator?_le ht
    omega
  | looser _ ih => exact ih (Nat.le_succ_of_le hp) hts
  | negative _ => cases hts
  | negation _ _ _ => cases hts
  | leaf hs =>
    cases hts
    exact eq_constant_of_leaf? hs hm
  | brackets _ _ => cases hts
  | unaryCall hf _ _ =>
    cases hts
    rw [negative?_of_function? hf] at hm
    cases hm
  | binaryCall hf _ _ _ _ =>
    cases hts
    rw [negative?_of_function? hf] at hm
    cases hm

end Script

/-! ## Plain expressions -/

namespace Node

/-- Made of constants, names and operators. -/
inductive Plain : Node H .int → Prop where
  | constant (n : Int32) : Plain (.constant n)
  | var {x : Variable} (hx : ∀ s ∈ x.path, isIdentifier s = true) : Plain (.var x)
  | unary (op : UnaryOp) {a : Node H .int} (ha : Plain a) : Plain (.unary op a)
  | binary (op : BinaryOp) {a b : Node H .int} (ha : Plain a) (hb : Plain b) : Plain (.binary op a b)

theorem Plain.normal {a : Node H .int} (ha : a.Plain) : a.normal.Plain := by
  induction ha with
  | constant n => exact .constant n
  | var hx => exact .var hx
  | @unary op a _ ih =>
    by_cases hop : op = .negate
    · subst hop
      rw [Node.normal]
      rcases negated_cases a.normal with ⟨n, _, _, e⟩ | ⟨_, e⟩
      · rw [e]
        exact .constant (-n)
      · rw [e]
        exact .unary .negate ih
    · rw [normal_unary hop]
      exact .unary op ih
  | binary op _ _ iha ihb => exact .binary op iha ihb

variable [HostCondition H]

theorem reads_constant (n : Int32) : Reads 4 (tokens (constant n : Node H .int).script) (constant n : Node H .int) := by
  cases hk : n.toInt with
  | ofNat k =>
    have hk : n.toInt = (k : Int) := hk
    rw [script_constant_nonneg hk, tokens_repr]
    have hleaf : leaf? k.repr = some (constant n : Node H .int) := by
      rw [leaf?, digits?_repr]
      show (int32? k).map (constant (t := .int)) = _
      rw [int32?_eq_some_iff.mpr hk]
      rfl
    exact (Reads.leaf hleaf).looser
  | negSucc k =>
    have hneg : n.toInt = -(k + 1 : Nat) := hk
    rw [script_constant_neg hneg, tokens_minus, tokens_repr]
    refine .negative ?_
    rw [negative?, digits?_repr, Option.bind_some, if_neg (Nat.succ_ne_zero k)]
    exact int32?_eq_some_iff.mpr hneg

theorem reads_negated {a : Node H .int} (h : Reads (Op.levelOf a.topOp) (tokens a.script) a.normal) :
    Reads 4 (tokens (unary .negate a).script) (negated a.normal) := by
  rcases negated_cases a.normal with ⟨n, hn, ha, e⟩ | ⟨hne, e⟩
  · obtain rfl := eq_constant_of_normal hn ha
    have hn' : negated (constant n : Node H .int) = constant (-n) := e
    rw [e, ← script_negated, hn']
    exact reads_constant (-n)
  · rw [e, script_negate, tokens_minus]
    have hr := reads_enclose h (Nat.le_refl 4) fun o ho => Op.level_of_wrappedByNegation ho
    refine .negation (fun s us e => ?_) hr
    cases hs : negative? s with
    | none => rfl
    | some m =>
      obtain ⟨n, hn, hc⟩ := hr.eq_constant (Nat.le_refl 4) e hs
      exact absurd hc (hne n hn)

theorem reads_unary {op : UnaryOp} (hop : op ≠ .negate) {a : Node H .int} (h : Reads 1 (tokens a.script) a.normal) :
    Reads 4 (tokens (unary op a).script) (unary op a.normal) := by
  have hf : function? op.function = some (.unary op) ∧ tokens op.function = [.word op.function] := by
    cases op with
    | negate => exact absurd rfl hop
    | _ => exact ⟨rfl, rfl⟩
  rw [script_unary hop, tokens_bracketed, hf.2]
  exact (Reads.unaryCall hf.1 h).looser

theorem reads_between {op : BinaryOp} {symbol : String} {p : Nat} (hop : op.form = .between symbol p)
    {a b : Node H .int} (ha : Reads (Op.levelOf a.topOp) (tokens a.script) a.normal)
    (hb : Reads (Op.levelOf b.topOp) (tokens b.script) b.normal) :
    Reads p (tokens (binary op a b).script) (binary op a.normal b.normal) := by
  obtain ⟨t, hsymbol, ht⟩ := operator?_symbol hop
  have hp : p ≤ 3 := operator?_le ht
  rw [script_between hop, tokens_between, hsymbol]
  refine .between ht (reads_enclose ha (Nat.le_succ_of_le hp) fun o ho => ?_)
    (reads_enclose hb (Nat.succ_le_succ hp) fun o ho => ?_)
  · exact (Op.level_of_wrappedBy hop hp ho).1
  · exact (Op.level_of_wrappedBy hop hp ho).2 rfl

theorem reads_call {op : BinaryOp} {f : String} (hop : op.form = .call f) {a b : Node H .int}
    (ha : Reads 1 (tokens a.script) a.normal) (hb : Reads 1 (tokens b.script) b.normal) :
    Reads 4 (tokens (binary op a b).script) (binary op a.normal b.normal) := by
  have hf : function? f = some (.binary op) ∧ tokens f = [.word f] := by
    cases op <;> cases hop <;> exact ⟨rfl, rfl⟩
  rw [script_call hop, tokens_bracketed, tokens_arguments, hf.2, List.append_assoc]
  exact (Reads.binaryCall hf.1 ha hb).looser

theorem Plain.reads {a : Node H .int} (ha : a.Plain) : Reads (Op.levelOf a.topOp) (tokens a.script) a.normal := by
  induction ha with
  | constant n => exact reads_constant n
  | @var x hx =>
    show Reads 4 (tokens x.dotted) _
    rw [tokens_dotted hx]
    exact (Reads.leaf (leaf?_dotted hx)).looser
  | @unary op a _ ih =>
    have h1 : Reads 1 (tokens a.script) a.normal := ih.weaken (Op.one_le_levelOf _)
    by_cases hop : op = .negate
    · subst hop
      exact reads_negated ih
    · rw [normal_unary hop]
      exact reads_unary hop h1
  | @binary op a b _ _ iha ihb =>
    cases hop : op.form with
    | between symbol p =>
      show Reads (Op.level (.binary op)) _ _
      rw [Op.level_between hop]
      exact reads_between hop iha ihb
    | call f =>
      show Reads (Op.level (.binary op)) _ _
      rw [Op.level_call hop]
      exact reads_call hop (iha.weaken (Op.one_le_levelOf _)) (ihb.weaken (Op.one_le_levelOf _))

/-! ## One text, one normal form -/

theorem Plain.same_iff {a b : Node H .int} (ha : a.Plain) (hb : b.Plain) : a.same b = true ↔ a = b := by
  induction ha generalizing b with
  | constant n =>
    cases hb with
    | constant m =>
      show (n == m) = true ↔ _
      rw [beq_iff_eq, Node.constant.injEq]
    | _ => exact ⟨nofun, nofun⟩
  | @var x _ =>
    cases hb with
    | @var y _ =>
      show (x == y) = true ↔ _
      rw [beq_iff_eq, Node.var.injEq]
    | _ => exact ⟨nofun, nofun⟩
  | @unary op a _ ih =>
    cases hb with
    | @unary op' b hb =>
      show (op == op' && a.same b) = true ↔ _
      rw [Bool.and_eq_true, beq_iff_eq, ih hb, Node.unary.injEq]
    | _ => exact ⟨nofun, nofun⟩
  | @binary op a a' _ _ iha iha' =>
    cases hb with
    | @binary op' b b' hb hb' =>
      show (op == op' && a.same b && a'.same b') = true ↔ _
      rw [Bool.and_eq_true, Bool.and_eq_true, beq_iff_eq, iha hb, iha' hb', Node.binary.injEq, and_assoc]
    | _ => exact ⟨nofun, nofun⟩

theorem Plain.reads_iff {a : Node H .int} (ha : a.Plain) (m : Node H .int) :
    Reads 1 (tokens a.script) m ↔ m = a.normal := by
  have h : Reads 1 (tokens a.script) a.normal := ha.reads.weaken (Op.one_le_levelOf _)
  constructor
  · exact fun hm => hm.unique h
  · rintro rfl
    exact h

theorem Plain.script_eq_iff {a b : Node H .int} (ha : a.Plain) (hb : b.Plain) :
    a.script = b.script ↔ a.normal = b.normal := by
  constructor
  · intro e
    exact (hb.reads_iff a.normal).mp (e ▸ (ha.reads_iff a.normal).mpr rfl)
  · intro e
    rw [← script_normal a, e, script_normal]

/-- Two expressions have one text just if they have one normal form. That is all that the text
    can be read as, and it has the value of both. -/
theorem Plain.script_determines {a b : Node H .int} (ha : a.Plain) (hb : b.Plain) :
    (a.script = b.script ↔ a.normal.same b.normal = true) ∧
      (∀ m, Reads 1 (tokens a.script) m ↔ m = a.normal) ∧
      (a.script = b.script → ∀ c, a.eval c = b.eval c) := by
  refine ⟨(ha.script_eq_iff hb).trans (ha.normal.same_iff hb.normal).symm, ha.reads_iff, fun e c => ?_⟩
  rw [← eval_normal a, (ha.script_eq_iff hb).mp e, eval_normal]

/-- The current value, to the power of one more than minus three. -/
def risen (minusThree : Node Empty .int) : Node Empty .int :=
  .binary .exponentiate (.var .value) (.binary .plus minusThree (.constant 1))

theorem script_determines_risen :
    let a := risen (.unary .negate (.constant 3))
    let b := risen (.constant (-3))
    a.Plain ∧ b.Plain ∧ a.script = "Value ^ ((-3) + 1)" ∧ a.script = b.script ∧
      a.normal.same b.normal = true ∧ ∀ c, a.eval c = b.eval c := by
  intro a b
  have hx : ∀ s ∈ Variable.value.path, isIdentifier s = true := by decide
  have ha : a.Plain := .binary _ (.var hx) (.binary _ (.unary _ (.constant 3)) (.constant 1))
  have hb : b.Plain := .binary _ (.var hx) (.binary _ (.constant (-3)) (.constant 1))
  have h := ha.script_determines hb
  have e : a.script = b.script := by decide
  exact ⟨ha, hb, by decide, e, h.1.mp e, h.2.2 e⟩

end Node

end RuleExpr
