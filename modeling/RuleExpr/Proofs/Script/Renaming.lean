/-
  RuleExpr.Proofs.Script.Renaming — localized text as script text with other texts for names.

  A script text falls into parts (`parts`): names, and all that is the same in every wording, which
  is marks, blanks, numerals and words before an opening bracket. The parts written one after the
  other are the text (`write_id_parts`), and with another text for each name they are the renamed
  text. For an expression of ints the localized text is that, with each variable described in the
  place of its dotted name (`Node.OfInts.description_is_renaming`).

  Brackets depend on how texts begin, so a renaming keeps track of that (`Renames`): nothing may be
  described with a minus sign in front.
-/

import RuleExpr.Proofs.Footprint
import RuleExpr.Proofs.Script.NormalForm
import RuleExpr.Proofs.Script.Spelling

namespace RuleExpr

namespace Script

/-! ## Parts -/

inductive Part where
  | fixed (s : String)
  | name (s : String)
  deriving DecidableEq, Repr

namespace Part

/-- The characters of a word that has come to its end. -/
def ofWord : List Char → List Part
  | [] => []
  | c :: cs => if c.isDigit then [fixed (String.ofList (c :: cs))] else [name (String.ofList (c :: cs))]

def name? : Part → Option String
  | fixed _ => none
  | name s => some s

def text (f : String → String) : Part → String
  | fixed s => s
  | name s => f s

end Part

/-- The parts of a text that follows the characters `pending` of a word. -/
def cut (pending : List Char) : List Char → List Part
  | [] => Part.ofWord pending
  | c :: cs =>
    if isWordChar c then cut (pending ++ [c]) cs
    -- the word is the name of a function
    else if c = '(' then .fixed (String.ofList pending) :: .fixed "(" :: cut [] cs
    else Part.ofWord pending ++ .fixed (String.singleton c) :: cut [] cs

def parts (s : String) : List Part := cut [] s.toList

def names (ps : List Part) : List String := ps.filterMap Part.name?

/-- The text with `f s` for each name `s`. -/
def write (f : String → String) : List Part → String
  | [] => ""
  | p :: ps => p.text f ++ write f ps

theorem names_append (ps qs : List Part) : names (ps ++ qs) = names ps ++ names qs := List.filterMap_append

theorem write_append (f : String → String) (ps qs : List Part) : write f (ps ++ qs) = write f ps ++ write f qs := by
  induction ps with
  | nil => rw [List.nil_append, write, String.empty_append]
  | cons p ps ih => rw [List.cons_append, write, write, ih, String.append_assoc]

/-! ## Parts of texts put together -/

theorem write_id_ofWord (cs : List Char) : write id (Part.ofWord cs) = String.ofList cs := by
  cases cs with
  | nil => rfl
  | cons c cs =>
    rw [Part.ofWord]
    by_cases hc : c.isDigit = true
    · rw [if_pos hc]
      exact String.append_empty
    · rw [if_neg hc]
      exact String.append_empty

theorem write_id_cut (pending cs : List Char) : write id (cut pending cs) = String.ofList (pending ++ cs) := by
  induction cs generalizing pending with
  | nil => rw [cut, write_id_ofWord, List.append_nil]
  | cons c cs ih =>
    have hcons : String.ofList (pending ++ c :: cs) = String.ofList pending ++ (String.singleton c ++ String.ofList cs) := by
      rw [String.ofList_append, String.ofList_cons]
    unfold cut
    split
    · rw [ih, List.append_assoc, List.singleton_append]
    · split
      · next hc =>
        subst hc
        rw [write, write, ih, List.nil_append, hcons]
        rfl
      · rw [write_append, write_id_ofWord, write, ih, List.nil_append, hcons]
        rfl

theorem write_id_parts (s : String) : write id (parts s) = s := by
  rw [parts, write_id_cut, List.nil_append, String.ofList_toList]

theorem cut_append_cons (pending l m : List Char) {c : Char} (hc : isWordChar c = false) (hcall : c ≠ '(') :
    cut pending (l ++ c :: m) = cut pending l ++ .fixed (String.singleton c) :: cut [] m := by
  induction l generalizing pending with
  | nil => simp only [List.nil_append, cut, hc, hcall, Bool.false_eq_true, if_false]
  | cons d l ih =>
    simp only [List.cons_append, cut]
    split
    · exact ih _
    · split
      · rw [ih, List.cons_append, List.cons_append]
      · rw [ih, List.append_assoc, List.cons_append]

theorem cut_word_append (pending cs m : List Char) (h : ∀ c ∈ cs, isWordChar c = true) :
    cut pending (cs ++ m) = cut (pending ++ cs) m := by
  induction cs generalizing pending with
  | nil => rw [List.nil_append, List.append_nil]
  | cons c cs ih =>
    rw [List.cons_append, cut, if_pos (h c List.mem_cons_self), ih _ fun d hd => h d (List.mem_cons_of_mem c hd),
      List.append_assoc, List.singleton_append]

theorem parts_word {s : String} (h : ∀ c ∈ s.toList, isWordChar c = true) : parts s = Part.ofWord s.toList := by
  have hword := cut_word_append [] s.toList [] h
  rwa [List.append_nil, List.nil_append] at hword

theorem parts_append_mark (s t m : String) {c : Char} (hm : m.toList = [c]) (hc : isWordChar c = false)
    (hcall : c ≠ '(') : parts (s ++ m ++ t) = parts s ++ .fixed m :: parts t := by
  have hsingle : String.singleton c = m := String.toList_injective (by rw [hm, String.toList_singleton])
  rw [parts, String.toList_append, String.toList_append, hm, List.append_assoc, List.singleton_append,
    cut_append_cons _ _ _ hc hcall, hsingle]
  rfl

theorem parts_call {f : String} (hf : ∀ c ∈ f.toList, isWordChar c = true) (s : String) :
    parts (f ++ bracketed s) = .fixed f :: .fixed "(" :: (parts s ++ [.fixed ")"]) := by
  have hclosed : parts (s ++ ")") = parts s ++ [.fixed ")"] := by
    rw [← String.append_empty (s := s ++ ")"), parts_append_mark s "" ")" rfl rfl (by decide)]
    rfl
  have hopen : (f ++ bracketed s).toList = f.toList ++ '(' :: (s ++ ")").toList := by
    rw [bracketed, String.append_assoc, String.toList_append, String.toList_append]
    rfl
  rw [← hclosed, parts, hopen, cut_word_append _ _ _ hf, List.nil_append, cut, String.ofList_toList]
  rfl

theorem parts_minus (s : String) : parts ("-" ++ s) = .fixed "-" :: parts s := by
  rw [← String.empty_append (s := "-"), parts_append_mark "" s "-" rfl rfl (by decide)]
  rfl

theorem parts_between {symbol : String} (hsymbol : parts symbol = [.fixed symbol]) (s t : String) :
    parts (s ++ " " ++ symbol ++ " " ++ t) =
      parts s ++ .fixed " " :: .fixed symbol :: .fixed " " :: parts t := by
  rw [parts_append_mark _ t " " rfl rfl (by decide), parts_append_mark s symbol " " rfl rfl (by decide), hsymbol,
    List.append_assoc]
  rfl

theorem parts_arguments (s t : String) :
    parts (s ++ ", " ++ t) = parts s ++ .fixed "," :: .fixed " " :: parts t := by
  have e : s ++ ", " ++ t = s ++ "," ++ ("" ++ " " ++ t) := by
    rw [show ", " = "," ++ " " from rfl, String.empty_append]
    simp only [String.append_assoc]
  rw [e, parts_append_mark s _ "," rfl rfl (by decide), parts_append_mark "" t " " rfl rfl (by decide)]
  rfl

/-! ## Renaming -/

/-- The second text is the first with `f s` for each name `s` in it. It is no less clear of a minus sign
    in front. -/
structure Renames (f : String → String) (xs : List String) (s s' : String) : Prop where
  names_eq : names (parts s) = xs
  write_eq : write f (parts s) = s'
  startsWithMinus_eq : startsWithMinus s' = startsWithMinus s

namespace Renames

variable {f : String → String} {xs ys : List String} {s s' t t' : String}

theorem call {g : String} (hg : ∀ c ∈ g.toList, isWordChar c = true) (h : Renames f xs s s') :
    Renames f xs (g ++ bracketed s) (g ++ bracketed s') where
  names_eq := by
    rw [parts_call hg]
    show names (parts s ++ [.fixed ")"]) = xs
    rw [names_append, h.names_eq]
    exact List.append_nil xs
  write_eq := by
    rw [parts_call hg, write, write, write_append, h.write_eq]
    rfl
  startsWithMinus_eq := by rw [startsWithMinus_call, startsWithMinus_call]

theorem enclose (h : Renames f xs s s') (wrapped : Op → Bool) (top : Option Op) :
    Renames f xs (RuleExpr.enclose wrapped top s) (RuleExpr.enclose wrapped top s') := by
  have hbracketed := h.call (g := "") nofun
  rw [String.empty_append, String.empty_append] at hbracketed
  unfold RuleExpr.enclose
  -- Nothing else of the text is looked at, so both texts get brackets or neither does.
  rw [h.startsWithMinus_eq]
  split
  · exact hbracketed
  · exact h

theorem minus (h : Renames f xs s s') : Renames f xs ("-" ++ s) ("-" ++ s') where
  names_eq := by
    rw [parts_minus]
    exact h.names_eq
  write_eq := by
    rw [parts_minus, write, h.write_eq]
    rfl
  startsWithMinus_eq := by rw [startsWithMinus_append (by simp), startsWithMinus_append (by simp)]

theorem between {symbol : String} (hsymbol : parts symbol = [.fixed symbol]) (hs : Renames f xs s s')
    (ht : Renames f ys t t') :
    Renames f (xs ++ ys) (s ++ " " ++ symbol ++ " " ++ t) (s' ++ " " ++ symbol ++ " " ++ t') where
  names_eq := by
    rw [parts_between hsymbol, names_append, hs.names_eq]
    exact congrArg (xs ++ ·) ht.names_eq
  write_eq := by
    rw [parts_between hsymbol, write_append, write, write, write, hs.write_eq, ht.write_eq]
    simp only [Part.text, String.append_assoc]
  startsWithMinus_eq := by rw [startsWithMinus_between, startsWithMinus_between, hs.startsWithMinus_eq]

theorem arguments (hs : Renames f xs s s') (ht : Renames f ys t t') :
    Renames f (xs ++ ys) (s ++ ", " ++ t) (s' ++ ", " ++ t') where
  names_eq := by
    rw [parts_arguments, names_append, hs.names_eq]
    exact congrArg (xs ++ ·) ht.names_eq
  write_eq := by
    have hcomma : "," ++ " " ++ t' = "," ++ (" " ++ t') := String.append_assoc
    rw [parts_arguments, write_append, write, write, hs.write_eq, ht.write_eq, String.append_assoc]
    exact congrArg (s' ++ ·) hcomma.symm
  startsWithMinus_eq := by
    have hcomma (u : String) : startsWithMinus (", " ++ u) = false := startsWithMinus_append (by simp) u
    rw [String.append_assoc, String.append_assoc, startsWithMinus_append_right (hcomma _),
      startsWithMinus_append_right (hcomma _), hs.startsWithMinus_eq]

end Renames

/-! ## Leaves -/

theorem not_startsWithMinus_word {s : String} (h : ∀ c ∈ s.toList, isWordChar c = true) : startsWithMinus s = false := by
  unfold startsWithMinus
  rw [beq_eq_false_iff_ne]
  intro hminus
  exact absurd (h _ (List.mem_of_head? hminus)) (by decide)

theorem parts_repr (n : Nat) : parts n.repr = [.fixed n.repr] := by
  obtain ⟨c, cs, e⟩ := List.exists_cons_of_ne_nil (Decimal.repr_ne_nil n)
  have hdigit : c.isDigit = true := Decimal.isDigit_of_mem_repr (e ▸ List.mem_cons_self)
  rw [parts_word fun d hd => isWordChar_of_isDigit (Decimal.isDigit_of_mem_repr hd), e, Part.ofWord, if_pos hdigit,
    ← e, String.ofList_toList]

theorem renames_int (f : String → String) (n : Int) : Renames f [] n.repr n.repr := by
  have hnat (k : Nat) : Renames f [] k.repr k.repr := by
    refine ⟨?_, ?_, rfl⟩
    · rw [parts_repr]
      rfl
    · rw [parts_repr]
      exact String.append_empty
  cases n with
  | ofNat k => exact hnat k
  | negSucc k => exact (hnat (k + 1)).minus

theorem parts_dotted {x : Variable} (hx : ∀ s ∈ x.path, isIdentifier s = true) :
    parts x.dotted = [.name x.dotted] := by
  obtain ⟨c, cs, e, hc⟩ := exists_cons_dotted hx
  rw [parts_word fun d hd => isWordChar_of_mem_dotted hx hd, e, Part.ofWord, not_isDigit_of_isAlpha hc, ← e,
    String.ofList_toList]
  rfl

theorem renames_dotted {f : String → String} {x : Variable} (hx : ∀ s ∈ x.path, isIdentifier s = true)
    (hf : startsWithMinus (f x.dotted) = false) : Renames f [x.dotted] x.dotted (f x.dotted) := by
  refine ⟨?_, ?_, ?_⟩
  · rw [parts_dotted hx]
    rfl
  · rw [parts_dotted hx]
    exact String.append_empty
  · rw [hf, not_startsWithMinus_word fun c hc => isWordChar_of_mem_dotted hx hc]

end Script

/-! ## Expressions -/

/-- Localized text of the variable of a dotted name. -/
def StringTable.describeName (strings : StringTable) (dotted : String) : String :=
  match Variable.parse dotted with
  | .ok x => x.describe strings
  | .error _ => dotted

namespace Node

open Script

variable {H : Type}

/-- Made of constants, names, operators, and casts from int to int. -/
inductive OfInts : Node H .int → Prop where
  | constant (n : Int32) : OfInts (.constant n)
  | var {x : Variable} (hx : ∀ s ∈ x.path, isIdentifier s = true) : OfInts (.var x)
  | staticCast {a : Node H .int} (ha : OfInts a) : OfInts (.staticCast a)
  | unary (op : UnaryOp) {a : Node H .int} (ha : OfInts a) : OfInts (.unary op a)
  | binary (op : BinaryOp) {a b : Node H .int} (ha : OfInts a) (hb : OfInts b) : OfInts (.binary op a b)

theorem OfInts.isIdentifier_of_mem_path {n : Node H .int} (hn : n.OfInts) {x : Variable} (hx : x ∈ n.vars) :
    ∀ s ∈ x.path, isIdentifier s = true := by
  induction hn with
  | constant _ => exact absurd hx List.not_mem_nil
  | var hy => exact List.mem_singleton.mp hx ▸ hy
  | staticCast _ ih | unary _ _ ih => exact ih hx
  | binary _ _ _ iha ihb => exact (List.mem_append.mp hx).elim iha ihb

variable [HostCondition H] {strings : StringTable}

theorem describeName_dotted {x : Variable} (hx : ∀ s ∈ x.path, isIdentifier s = true) :
    strings.describeName x.dotted = x.describe strings := by
  rw [StringTable.describeName, x.parse_dotted fun s hs => dot_not_mem_of_isIdentifier (hx s hs)]

theorem OfInts.renames {n : Node H .int} (hn : n.OfInts)
    (hminus : ∀ x ∈ n.vars, startsWithMinus (x.describe strings) = false) :
    Renames strings.describeName (n.vars.map Variable.dotted) n.script (n.describe strings) := by
  induction hn with
  | constant n => exact renames_int _ n.toInt
  | @var x hx =>
    have hrenames := renames_dotted (f := strings.describeName) hx
    rw [describeName_dotted hx] at hrenames
    exact hrenames (hminus x List.mem_cons_self)
  | staticCast _ ih => exact ih hminus
  | @unary op a _ ih =>
    -- A negation is bracketed like an operand; the other functions bracket whatever they are applied to.
    by_cases hop : op = .negate
    · subst hop
      exact ((ih hminus).enclose _ _).minus
    · have hword : op.function.toList.all isWordChar = true := by cases op <;> rfl
      rw [script_unary hop, describe, render_unary _ hop]
      exact (ih hminus).call (List.all_eq_true.mp hword)
  | @binary op a b _ _ iha ihb =>
    have ha := iha fun x hx => hminus x (List.mem_append_left _ hx)
    have hb := ihb fun x hx => hminus x (List.mem_append_right _ hx)
    rw [vars, List.map_append]
    cases hop : op.form with
    | between symbol p =>
      have hsymbol : parts symbol = [.fixed symbol] := by cases op <;> cases hop <;> rfl
      rw [script_between hop, describe, render_between _ hop]
      exact (ha.enclose _ _).between hsymbol (hb.enclose _ _)
    | call f =>
      have hword : f.toList.all isWordChar = true := by cases op <;> cases hop <;> rfl
      rw [script_call hop, describe, render_call _ hop]
      exact (ha.arguments hb).call (List.all_eq_true.mp hword)

/-- The names in the script text are those of the variables, leaf by leaf. With the description of each
    variable in the place of its name, and all else as it is, the script text is the localized text. -/
theorem OfInts.description_is_renaming {n : Node H .int} (hn : n.OfInts)
    (hminus : ∀ x ∈ n.vars, startsWithMinus (x.describe strings) = false) :
    write id (parts n.script) = n.script ∧ names (parts n.script) = n.vars.map Variable.dotted ∧
      (∀ x ∈ n.vars, strings.describeName x.dotted = x.describe strings) ∧
      n.describe strings = write strings.describeName (parts n.script) :=
  have hrenames := hn.renames hminus
  ⟨write_id_parts n.script, hrenames.names_eq, fun _ hx => describeName_dotted (hn.isIdentifier_of_mem_path hx),
    hrenames.write_eq.symm⟩

/-- The current value, in a cast, to the power of one more than its negation. -/
def risenToNegation : Node Empty .int :=
  .binary .exponentiate (.staticCast (.var .value : Node Empty .int))
    (.binary .plus (.unary .negate (.var .value)) (.constant 1))

def valueInWords (words : String) : StringTable := StringTable.empty.insert "DESC_VAR_VALUE" words

theorem description_is_renaming_risen :
    let n := risenToNegation
    let strings := valueInWords "the current value"
    n.OfInts ∧ n.script = "Value ^ ((-Value) + 1)" ∧
      n.describe strings = "the current value ^ ((-the current value) + 1)" ∧
      names (parts n.script) = ["Value", "Value"] ∧
      n.describe strings = write strings.describeName (parts n.script) := by
  intro n strings
  have hx : ∀ s ∈ Variable.value.path, isIdentifier s = true := by decide
  have hn : n.OfInts := .binary _ (.staticCast (.var hx)) (.binary _ (.unary _ (.var hx)) (.constant 1))
  have hminus : ∀ x ∈ n.vars, startsWithMinus (x.describe strings) = false := by decide
  have hrenaming := hn.description_is_renaming hminus
  exact ⟨hn, by decide, by decide, hrenaming.2.1, hrenaming.2.2.2⟩

/-- A description with a minus sign in front gets brackets where the name has none. -/
example :
    risenToNegation.describe (valueInWords "-v") = "(-v) ^ ((-(-v)) + 1)" := by decide

end Node

end RuleExpr
