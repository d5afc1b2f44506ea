/-
  RuleExpr.Proofs.Script.Spelling — the tokens of rendered texts.

  A text that is put together from texts of operands has the tokens of those with the
  marks between them, because no word runs across a mark. The text of a constant that is
  not negative is a numeral, and that of a variable whose segments are identifiers is a
  single word that names it (`leaf?_dotted`).
-/

import RuleExpr.Node.Text
import RuleExpr.Proofs.Decimal
import RuleExpr.Proofs.Naming
import RuleExpr.Proofs.Script.Grammar

namespace RuleExpr.Script

variable {H : Type}

/-! ## Texts put together -/

theorem tokens_bracketed (f s : String) :
    tokens (f ++ bracketed s) = tokens f ++ .openBracket :: (tokens s ++ [.closeBracket]) := by
  have e : f ++ bracketed s = f ++ "(" ++ (s ++ ")" ++ "") := by
    rw [bracketed, String.append_empty, String.append_assoc, String.append_assoc]
  rw [e, tokens_append_mark f _ "(" rfl rfl, tokens_append_mark s "" ")" rfl rfl]
  rfl

theorem tokens_minus (s : String) : tokens ("-" ++ s) = .minus :: tokens s := by
  rw [← String.empty_append (s := "-"), tokens_append_mark "" s "-" rfl rfl]
  rfl

theorem tokens_between (s symbol t : String) :
    tokens (s ++ " " ++ symbol ++ " " ++ t) = tokens s ++ (tokens symbol ++ tokens t) := by
  rw [tokens_append_mark _ t " " rfl rfl, tokens_append_mark s symbol " " rfl rfl]
  exact List.append_assoc _ _ _

theorem tokens_arguments (s t : String) : tokens (s ++ ", " ++ t) = tokens s ++ .comma :: tokens t := by
  have e : s ++ ", " ++ t = s ++ "," ++ ("" ++ " " ++ t) := by
    rw [show ", " = "," ++ " " from rfl, String.empty_append]
    simp only [String.append_assoc]
  rw [e, tokens_append_mark s _ "," rfl rfl, tokens_append_mark "" t " " rfl rfl]
  rfl

/-! ## Leaves -/

theorem isWordChar_of_isDigit {c : Char} (hc : c.isDigit = true) : isWordChar c = true := by
  simp only [isWordChar, Char.isAlphanum, hc, Bool.or_true, Bool.true_or]

theorem digits?_repr (n : Nat) : digits? n.repr = some n := by
  have hall : n.repr.toList.all Char.isDigit = true :=
    List.all_eq_true.mpr fun c hc => Decimal.isDigit_of_mem_repr hc
  rw [digits?, if_pos ⟨Decimal.repr_ne_nil n, hall⟩, Decimal.ofDigitChars_repr]

theorem tokens_repr (n : Nat) : tokens n.repr = [.word n.repr] := by
  apply tokens_word (Decimal.repr_ne_nil n)
  intro c hc
  exact isWordChar_of_isDigit (Decimal.isDigit_of_mem_repr hc)

theorem eq_cons_of_isIdentifier {s : String} (hs : isIdentifier s = true) :
    ∃ c cs, s.toList = c :: cs ∧ c.isAlpha = true ∧ ∀ d ∈ cs, d.isAlphanum = true ∨ d = '_' := by
  unfold isIdentifier at hs
  split at hs
  · cases hs
  · next c cs e =>
    rw [Bool.and_eq_true, List.all_eq_true] at hs
    exact ⟨c, cs, e, hs.1, fun d hd => by simpa using hs.2 d hd⟩

theorem isAlphanum_or_of_isIdentifier {s : String} (hs : isIdentifier s = true) {c : Char} (hc : c ∈ s.toList) :
    c.isAlphanum = true ∨ c = '_' := by
  obtain ⟨d, ds, e, hd, hds⟩ := eq_cons_of_isIdentifier hs
  rw [e] at hc
  rcases List.mem_cons.mp hc with rfl | hc
  · exact .inl (by rw [Char.isAlphanum, hd, Bool.true_or])
  · exact hds c hc

theorem dot_not_mem_of_isIdentifier {s : String} (hs : isIdentifier s = true) : '.' ∉ s.toList := by
  intro h
  exact absurd (isAlphanum_or_of_isIdentifier hs h) (by decide)

theorem not_isDigit_of_isAlpha {c : Char} (h : c.isAlpha = true) : c.isDigit = false := by
  rw [Bool.eq_false_iff]
  intro hd
  have h9 : c.toNat ≤ '9'.toNat := (Char.isDigit_iff_toNat.mp hd).2
  have hA : 'A'.toNat ≤ c.toNat := by
    have h' : (c.isUpper || c.isLower) = true := h
    rcases Bool.or_eq_true_iff.mp h' with hu | hl
    · exact UInt32.le_iff_toNat_le.mp (of_decide_eq_true hu).1
    · have ha : 'a'.toNat ≤ c.toNat := UInt32.le_iff_toNat_le.mp (of_decide_eq_true (Bool.and_eq_true_iff.mp hl).1)
      exact Nat.le_trans (by decide) ha
  exact absurd (Nat.le_trans hA h9) (by decide)

theorem digits?_of_isIdentifier {s t : String} (hs : isIdentifier s = true) (ht : ∀ c ∈ s.toList, c ∈ t.toList) :
    digits? t = none := by
  obtain ⟨c, cs, e, hc, _⟩ := eq_cons_of_isIdentifier hs
  apply if_neg
  rintro ⟨-, h⟩
  have hd : c.isDigit = true := List.all_eq_true.mp h c (ht c (e ▸ List.mem_cons_self))
  exact absurd ((not_isDigit_of_isAlpha hc).symm.trans hd) (by decide)

theorem leaf?_dotted {x : Variable} (hx : ∀ s ∈ x.path, isIdentifier s = true) :
    leaf? x.dotted = some (.var x : Node H .int) := by
  have hdigits : digits? x.dotted = none :=
    digits?_of_isIdentifier (hx _ (List.head_mem x.path_ne_nil)) fun c hc =>
      Text.mem_join_of_mem (List.head_mem x.path_ne_nil) hc
  have hdot : ∀ s ∈ x.path, '.' ∉ s.toList := fun s hs => dot_not_mem_of_isIdentifier (hx s hs)
  have hname : name? x.dotted = some x := by
    rw [name?, x.parse_dotted hdot]
    exact if_pos (List.all_eq_true.mpr hx)
  rw [leaf?, hdigits, hname]
  rfl

theorem exists_cons_dotted {x : Variable} (hx : ∀ s ∈ x.path, isIdentifier s = true) :
    ∃ c cs, x.dotted.toList = c :: cs ∧ c.isAlpha = true := by
  obtain ⟨s, rest, hpath⟩ := List.exists_cons_of_ne_nil x.path_ne_nil
  obtain ⟨c, cs, hs, hc, -⟩ := eq_cons_of_isIdentifier (hx s (hpath ▸ List.mem_cons_self))
  rw [Variable.dotted, hpath, Text.toList_join, List.map_cons, hs]
  cases rest with
  | nil => exact ⟨c, cs, List.intercalate_singleton, hc⟩
  | cons s' rest =>
    rw [List.map_cons, List.intercalate_cons_cons]
    exact ⟨c, _, rfl, hc⟩

theorem isWordChar_of_mem_dotted {x : Variable} (hx : ∀ s ∈ x.path, isIdentifier s = true) {c : Char}
    (hc : c ∈ x.dotted.toList) : isWordChar c = true := by
  rcases Text.mem_join hc with rfl | ⟨s, hs, hc⟩
  · rfl
  · rcases isAlphanum_or_of_isIdentifier (hx s hs) hc with h | rfl
    · simp only [isWordChar, h, Bool.true_or]
    · rfl

theorem tokens_dotted {x : Variable} (hx : ∀ s ∈ x.path, isIdentifier s = true) :
    tokens x.dotted = [.word x.dotted] := by
  obtain ⟨c, cs, e, -⟩ := exists_cons_dotted hx
  exact tokens_word (e ▸ List.cons_ne_nil c cs) fun d hd => isWordChar_of_mem_dotted hx hd

end RuleExpr.Script
