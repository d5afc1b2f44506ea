/-
  RuleExpr.Proofs.Template — what templates are filled to.

  A text is written into a template with every percent sign doubled, an argument as its number
  between percent signs (`Piece.written`). Whatever comes next to it, each piece is filled on its
  own: a doubled percent sign is read before anything else, and a placeholder that an argument
  matches is taken whole (`fillChars_escaped`, `fillChars_numbered`). So a template of pieces is
  filled with just the texts and the arguments themselves (`fill_written`).

  From left to right a template falls into percent signs written twice, placeholders and single
  characters (`tokens`), and loses nothing by it (`chars_tokens`). Filling does not go by these
  tokens. Where no argument matches a placeholder it keeps the opening percent sign and the digits,
  but the closing percent sign is scanned anew, with what follows: with a second placeholder right
  behind it, it makes one percent sign of two; and with digits behind it and then a second
  placeholder, it makes a number of the digits (`gaps`).

  So of a template of unmatched placeholders and other characters, one percent sign is lost for each
  two placeholders side by side (`fillChars_chars`), as long as what stands between placeholders is
  no argument's number. It comes back unchanged just if no two are side by side (`fill_eq_self_iff`);
  `unmatched_not_kept` shows the two ways in which one does not.
-/

import RuleExpr.Proofs.Decimal
import RuleExpr.StringTable

namespace RuleExpr.Text.Template

/-! ## Templates written for their arguments -/

section Written

/-- A part of a template for `k` arguments. -/
inductive Piece (k : Nat) where
  | text (s : String)
  /-- The argument at position `i`, its number written with leading zeros. -/
  | argument (i : Fin k) (zeros : Nat)
  deriving Repr

def escaped (cs : List Char) : List Char := cs.flatMap fun c => if c = '%' then ['%', '%'] else [c]

/-- The decimal number of position `i`, from 1. -/
def numeral (zeros i : Nat) : List Char := List.replicate zeros '0' ++ (i + 1).repr.toList

namespace Piece

def written {k : Nat} : Piece k → String
  | text s => String.ofList (escaped s.toList)
  | argument i zeros => "%" ++ String.ofList (numeral zeros i) ++ "%"

def shown (args : List String) : Piece args.length → String
  | text s => s
  | argument i _ => args[i]

end Piece

/-! ### One piece -/

variable {args : List String}

theorem fillChars_escaped (cs rest : List Char) :
    fillChars args (escaped cs ++ rest) = cs ++ fillChars args rest := by
  induction cs with
  | nil => rfl
  | cons c cs ih =>
    unfold escaped at ih ⊢
    by_cases hc : c = '%'
    · subst hc
      simp [ih]
    · simp [hc, fillChars_literal hc, ih]

theorem isDigit_of_mem_numeral {zeros i : Nat} : ∀ d ∈ numeral zeros i, d.isDigit := by
  intro d hd
  rcases List.mem_append.mp hd with h | h
  · obtain rfl := List.eq_of_mem_replicate h
    decide
  · exact Decimal.isDigit_of_mem_repr h

theorem ofDigitChars_numeral (zeros i : Nat) : Nat.ofDigitChars 10 (numeral zeros i) 0 = i + 1 := by
  have hzeros : Nat.ofDigitChars 10 (List.replicate zeros '0') 0 = 0 := by
    induction zeros with
    | zero => rfl
    | succ zeros ih => rw [List.replicate_succ, Nat.ofDigitChars_cons]; exact ih
  rw [numeral, Nat.ofDigitChars_append, hzeros, Decimal.ofDigitChars_repr]

theorem fillChars_numbered (i : Fin args.length) (zeros : Nat) (rest : List Char) :
    fillChars args ('%' :: (numeral zeros i ++ '%' :: rest)) = args[i].toList ++ fillChars args rest := by
  have hne : numeral zeros i ≠ [] := List.append_ne_nil_of_right_ne_nil _ (Decimal.repr_ne_nil _)
  refine fillChars_argument hne isDigit_of_mem_numeral ?_ rest
  rw [ofDigitChars_numeral]
  exact List.getElem?_eq_getElem i.isLt

theorem fillChars_piece (p : Piece args.length) (rest : List Char) :
    fillChars args (p.written.toList ++ rest) = (p.shown args).toList ++ fillChars args rest := by
  cases p with
  | text s => simpa [Piece.written, Piece.shown] using fillChars_escaped s.toList rest
  | argument i zeros => simpa [Piece.written, Piece.shown] using fillChars_numbered i zeros rest

/-! ### All pieces -/

/-- Texts and arguments come out as they are, in their order. -/
theorem fill_written (args : List String) (ps : List (Piece args.length)) :
    fill (String.join (ps.map Piece.written)) args = String.join (ps.map (Piece.shown args)) := by
  rw [fill, ← String.toList_inj, String.toList_ofList, String.toList_join, String.toList_join]
  induction ps with
  | nil => exact fillChars_nil
  | cons p rest ih => rw [List.map_cons, List.flatMap_cons, fillChars_piece, ih, List.map_cons, List.flatMap_cons]

example : fill "100%%%02%%1%" ["a%1%", "b"] = "100%ba%1%" := by decide +kernel

end Written

/-! ## Placeholders that no argument matches -/

section Unmatched

/-! ### Tokens -/

inductive Token where
  | literal (c : Char)
  | escape
  | placeholder (digits : List Char)
  deriving DecidableEq, Repr

namespace Token

def chars : Token → List Char
  | literal c => [c]
  | escape => ['%', '%']
  | placeholder ds => '%' :: (ds ++ ['%'])

/-- What percent signs around digits are. -/
def ofDigits (ds : List Char) : Token := if ds = [] then escape else placeholder ds

theorem chars_ofDigits (ds : List Char) : (ofDigits ds).chars = '%' :: (ds ++ ['%']) := by
  unfold ofDigits
  split
  · next h =>
    subst h
    rfl
  · rfl

def Valid : Token → Prop
  | placeholder ds => ds ≠ [] ∧ ∀ d ∈ ds, d.isDigit
  | _ => True

end Token

open Token

def chars (ts : List Token) : List Char := ts.flatMap Token.chars

theorem chars_cons (tk : Token) (ts : List Token) : chars (tk :: ts) = tk.chars ++ chars ts := rfl

theorem chars_placeholder (ds : List Char) (ts : List Token) :
    chars (.placeholder ds :: ts) = '%' :: (ds ++ '%' :: chars ts) := by
  simp [chars_cons, Token.chars]

theorem length_of_dropWhile {p : Char → Bool} {cs after : List Char} {c : Char} (h : cs.dropWhile p = c :: after) :
    after.length < cs.length := by
  have hle := (List.dropWhile_suffix p (l := cs)).length_le
  rwa [h] at hle

/-- The tokens of a template: what stands between percent signs if it is a number or nothing, else
    one character. -/
def tokens : List Char → List Token
  | [] => []
  | '%' :: rest =>
    match h : rest.dropWhile Char.isDigit with
    | '%' :: after =>
      have := length_of_dropWhile h
      .ofDigits (rest.takeWhile Char.isDigit) :: tokens after
    | _ => .literal '%' :: tokens rest
  | c :: rest => .literal c :: tokens rest
termination_by cs => cs.length
decreasing_by all_goals simp_all <;> omega

theorem chars_tokens (cs : List Char) : chars (tokens cs) = cs := by
  fun_induction tokens cs with
  | case1 => rfl
  | case2 rest after h _ ih =>
    have hrest := List.takeWhile_append_dropWhile (p := Char.isDigit) (l := rest)
    rw [h] at hrest
    rw [chars_cons, ih, chars_ofDigits]
    simpa using hrest
  | case3 rest _ ih => exact congrArg ('%' :: ·) ih
  | case4 c rest _ ih => exact congrArg (c :: ·) ih

theorem valid_of_mem_tokens (cs : List Char) : ∀ tk ∈ tokens cs, tk.Valid := by
  fun_induction tokens cs with
  | case1 => exact nofun
  | case2 rest after _ _ ih =>
    refine List.forall_mem_cons.mpr ⟨?_, ih⟩
    unfold ofDigits
    split
    · trivial
    · next hne => exact ⟨hne, fun d hd => List.all_eq_true.mp List.all_takeWhile d hd⟩
  | case3 rest _ ih => exact List.forall_mem_cons.mpr ⟨trivial, ih⟩
  | case4 c rest _ ih => exact List.forall_mem_cons.mpr ⟨trivial, ih⟩

/-! ### What is left unmatched -/

/-- The characters are digits, and the number of an argument. -/
def Numbers (args : List String) (cs : List Char) : Prop :=
  cs.all Char.isDigit ∧ 1 ≤ Nat.ofDigitChars 10 cs 0 ∧ Nat.ofDigitChars 10 cs 0 ≤ args.length

instance (args : List String) (cs : List Char) : Decidable (Numbers args cs) := inferInstanceAs (Decidable (_ ∧ _))

/-- A placeholder that no argument matches, or a character other than a percent sign. -/
def Token.Unmatched (args : List String) : Token → Prop
  | literal c => c ≠ '%'
  | escape => False
  | placeholder ds => ¬ Numbers args ds

instance (args : List String) : (tk : Token) → Decidable (tk.Unmatched args)
  | literal _ => inferInstanceAs (Decidable (_ ≠ _))
  | escape => inferInstanceAs (Decidable False)
  | placeholder _ => inferInstanceAs (Decidable (¬ _))

/-- The characters up to the next placeholder, if there is one. -/
def gap? : List Token → Option (List Char)
  | .literal c :: rest => (gap? rest).map (c :: ·)
  | .placeholder _ :: _ => some []
  | _ => none

/-- What stands between each placeholder and the next. -/
def gaps : List Token → List (List Char)
  | [] => []
  | .placeholder _ :: rest => (gap? rest).toList ++ gaps rest
  | _ :: rest => gaps rest

/-- The text, with one percent sign for the two where a placeholder follows on another. -/
def merged : List Token → List Char
  | [] => []
  | .placeholder ds :: .placeholder es :: rest => '%' :: (ds ++ merged (.placeholder es :: rest))
  | tk :: rest => tk.chars ++ merged rest

variable {args : List String} {ts : List Token}

theorem argument?_eq_none {ds : List Char} (hds : ∀ d ∈ ds, d.isDigit) (h : ¬ Numbers args ds) :
    argument? args (Nat.ofDigitChars 10 ds 0) = none :=
  argument?_eq_none_iff.mpr fun hn => h ⟨List.all_eq_true.mpr hds, hn⟩

theorem length_merged_le (ts : List Token) : (merged ts).length ≤ (chars ts).length := by
  fun_induction merged ts with
  | case1 => exact Nat.le_refl _
  | case2 ds es rest ih =>
    simp only [chars_cons _ (_ :: _), Token.chars, List.length_append, List.length_cons] at ih ⊢
    omega
  | case3 tk rest _ ih =>
    rw [chars_cons, List.length_append, List.length_append]
    omega

theorem gap?_ne_nil (h : ∀ ds rest, ts ≠ .placeholder ds :: rest) : gap? ts ≠ some [] := by
  cases ts with
  | nil => exact nofun
  | cons tk rest =>
    cases tk with
    | literal c => simp [gap?]
    | escape => exact nofun
    | placeholder ds => exact absurd rfl (h ds rest)

theorem merged_eq_chars_iff (ts : List Token) : merged ts = chars ts ↔ [] ∉ gaps ts := by
  fun_induction merged ts with
  | case1 => simp [chars, gaps]
  | case2 ds es rest _ =>
    refine iff_of_false (fun h => ?_) fun h => h List.mem_cons_self
    have hlen := congrArg List.length h
    have hle := length_merged_le (.placeholder es :: rest)
    simp only [chars_cons _ (_ :: _), Token.chars, List.length_append, List.length_cons] at hlen
    omega
  | case3 tk rest hnext ih =>
    rw [chars_cons, List.append_cancel_left_eq, ih]
    cases tk with
    | placeholder ds =>
      have hgap : gap? rest ≠ some [] := gap?_ne_nil fun es rest' => hnext ds es rest' rfl
      simp [gaps, hgap]
    | literal c => rfl
    | escape => rfl

/-! ### Filling -/

/-- Digits that a placeholder would end are the gap before one. -/
theorem gap?_eq_some {ds after : List Char} (hts : ∀ tk ∈ ts, tk.Unmatched args) (hds : ∀ d ∈ ds, d.isDigit)
    (h : chars ts = ds ++ '%' :: after) : gap? ts = some ds := by
  induction ds generalizing ts with
  | nil =>
    cases ts with
    | nil => cases h
    | cons tk rest =>
      have htk := hts tk List.mem_cons_self
      cases tk with
      | literal c => exact absurd (List.head_eq_of_cons_eq h) htk
      | escape => exact htk.elim
      | placeholder es => rfl
  | cons d ds ih =>
    have hd := hds d List.mem_cons_self
    cases ts with
    | nil => cases h
    | cons tk rest =>
      have htk := hts tk List.mem_cons_self
      cases tk with
      | literal c =>
        obtain ⟨rfl, hrest⟩ := List.cons.inj h
        have hgap : gap? rest = some ds :=
          ih (fun tk h => hts tk (List.mem_cons_of_mem _ h)) (fun d h => hds d (List.mem_cons_of_mem _ h)) hrest
        rw [gap?, hgap]
        rfl
      | escape => exact htk.elim
      | placeholder es =>
        obtain rfl := List.head_eq_of_cons_eq h
        exact absurd hd (by decide)

/-- A closing percent sign before anything but a placeholder. -/
theorem fillChars_closing (hts : ∀ tk ∈ ts, tk.Unmatched args) (hnext : gap? ts ≠ some [])
    (hgap : ∀ ds, gap? ts = some ds → ¬ Numbers args ds) :
    fillChars args ('%' :: chars ts) = '%' :: fillChars args (chars ts) := by
  refine fillChars_stray (fun h => ?_) fun n after h => ?_
  · obtain ⟨after, hafter⟩ := List.head?_eq_some_iff.mp h
    have hgap : gap? ts = some [] := gap?_eq_some hts nofun hafter
    exact hnext hgap
  · obtain ⟨ds, -, hds, hchars, rfl⟩ := exists_digits_of_placeholder? h
    exact argument?_eq_none hds (hgap ds (gap?_eq_some hts hds hchars))

theorem fillChars_chars (hvalid : ∀ tk ∈ ts, tk.Valid) (hts : ∀ tk ∈ ts, tk.Unmatched args)
    (hgaps : ∀ ds ∈ gaps ts, ¬ Numbers args ds) :
    fillChars args (chars ts) = merged ts := by
  fun_induction merged ts with
  | case1 => exact fillChars_nil
  | case2 ds es rest ih =>
    obtain ⟨⟨hds, hdigits⟩, hvalid⟩ := List.forall_mem_cons.mp hvalid
    obtain ⟨hnumber, hts⟩ := List.forall_mem_cons.mp hts
    obtain ⟨hes, hesDigits⟩ := hvalid _ List.mem_cons_self
    have hesNumber := argument?_eq_none hesDigits (hts _ List.mem_cons_self)
    have hpercent : '%' ∉ es := fun h => absurd (hesDigits '%' h) (by decide)
    rw [← ih hvalid hts fun gap h => hgaps gap (List.mem_append_right _ h), chars_placeholder, chars_placeholder,
      fillChars_unmatched hds hdigits (argument?_eq_none hdigits hnumber), fillChars_escape,
      fillChars_append hpercent, fillChars_unmatched hes hesDigits hesNumber]
  | case3 tk rest hnext ih =>
    obtain ⟨hvalid, hvalidRest⟩ := List.forall_mem_cons.mp hvalid
    obtain ⟨htk, hrest⟩ := List.forall_mem_cons.mp hts
    cases tk with
    | literal c =>
      show fillChars args (c :: chars rest) = c :: merged rest
      rw [fillChars_literal htk, ih hvalidRest hrest hgaps]
    | escape => exact htk.elim
    | placeholder ds =>
      have hne : gap? rest ≠ some [] := gap?_ne_nil fun es rest' => hnext ds es rest' rfl
      have hgap : ∀ es, gap? rest = some es → ¬ Numbers args es := by
        intro es h
        exact hgaps es (List.mem_append_left _ (Option.mem_toList.mpr h))
      rw [chars_placeholder, fillChars_unmatched hvalid.1 hvalid.2 (argument?_eq_none hvalid.2 htk),
        fillChars_closing hrest hne hgap, ih hvalidRest hrest fun es h => hgaps es (List.mem_append_right _ h)]
      simp [Token.chars]

/-- Of unmatched placeholders and characters other than percent signs, where no argument's number
    stands between two placeholders: filling merges percent signs of placeholders side by side, and
    does no more. So the template comes back unchanged just if no two are side by side. -/
theorem fill_eq_self_iff (template : String) (args : List String)
    (hts : ∀ tk ∈ tokens template.toList, tk.Unmatched args)
    (hgaps : ∀ ds ∈ gaps (tokens template.toList), ¬ Numbers args ds) :
    fill template args = String.ofList (merged (tokens template.toList)) ∧
      (fill template args = template ↔ [] ∉ gaps (tokens template.toList)) := by
  have hfill := fillChars_chars (valid_of_mem_tokens _) hts hgaps
  rw [chars_tokens] at hfill
  refine ⟨congrArg String.ofList hfill, ?_⟩
  rw [← merged_eq_chars_iff, chars_tokens, ← hfill, fill, ← String.toList_inj, String.toList_ofList]

/-- Numbers of no argument, and between two of them digits that are none either. -/
theorem fill_eq_self_iff_apart :
    let template := "%0%12%7% of %003%"
    let args := ["a", "b"]
    (∀ tk ∈ tokens template.toList, tk.Unmatched args) ∧
      (∀ ds ∈ gaps (tokens template.toList), ¬ Numbers args ds) ∧
      gaps (tokens template.toList) = [['1', '2'], [' ', 'o', 'f', ' ']] ∧ fill template args = template := by
  intro template args
  have hts : ∀ tk ∈ tokens template.toList, tk.Unmatched args := by decide +kernel
  have hgaps : ∀ ds ∈ gaps (tokens template.toList), ¬ Numbers args ds := by decide +kernel
  have happart : gaps (tokens template.toList) = [['1', '2'], [' ', 'o', 'f', ' ']] := by decide +kernel
  refine ⟨hts, hgaps, happart, (fill_eq_self_iff template args hts hgaps).2.mpr ?_⟩
  rw [happart]
  decide

/-- Of two unmatched placeholders side by side one percent sign is lost; and between two of them a
    digit is filled in as a number. -/
theorem unmatched_not_kept :
    (∀ tk ∈ tokens "%1%%2%".toList, tk.Unmatched []) ∧ fill "%1%%2%" [] = "%1%2%" ∧
      (∀ tk ∈ tokens "%0%1%0%".toList, tk.Unmatched ["a"]) ∧ fill "%0%1%0%" ["a"] = "%0a0%" := by
  refine ⟨?_, ?_, ?_, ?_⟩
  · decide +kernel
  · decide +kernel
  · decide +kernel
  · decide +kernel

end Unmatched

end RuleExpr.Text.Template
