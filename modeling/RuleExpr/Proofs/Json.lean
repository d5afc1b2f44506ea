/-
  RuleExpr.Proofs.Json — printed JSON is read back as it was.

  The printed text of a tree is scanned into the tokens that the tree consists of, and what
  comes after it is scanned as if it stood alone, provided that no word runs on into it
  (`scan_chars`). Quoted text comes back because each escape stands for one character
  (`scan_escape`), integers because they are printed in decimal notation and those of 64 bits
  are read exactly (`ofWord_repr`).

  Doubles are left out, and with them the trees that stand for unreadable text, which is
  printed as null: a tree that has neither is `Exact`. The tokens of a tree put that tree into
  the innermost open container, and leave what comes after them to be read (`value_toTokens`).
  So the text of an exact tree is read as the tree, and nothing is left over (`read?_print`).
-/

import Mathlib.Data.List.TakeWhile
import RuleExpr.Json.Reader
import RuleExpr.Proofs.Decimal

namespace RuleExpr.Json

/-! ## Trees and tokens -/

def Fits (n : Int) : Prop := Int64.minValue.toInt ≤ n ∧ n < UInt64.size

instance (n : Int) : Decidable (Fits n) := inferInstanceAs (Decidable (_ ∧ _))

/-- Trees of which nothing is lost in print. -/
inductive Exact : Json → Prop where
  | null : Exact null
  | bool (b : Bool) : Exact (bool b)
  | int {n : Int} (h : Fits n) : Exact (int n)
  | str (s : String) : Exact (str s)
  | arr {items : List Json} (h : ∀ j ∈ items, Exact j) : Exact (arr items)
  | obj {entries : List (String × Json)} (h : ∀ e ∈ entries, Exact e.2) : Exact (obj entries)

open Token

mutual

def toTokens : Json → List Token
  | str s => [text (some s)]
  | arr [] => [openArray, closeArray]
  | arr (first :: rest) => openArray :: (toTokens first ++ nextItems rest)
  | obj [] => [openObject, closeObject]
  | obj ((k, first) :: rest) => openObject :: text (some k) :: colon :: (toTokens first ++ nextEntries rest)
  | j => [atom j]

/-- What follows an item. -/
def nextItems : List Json → List Token
  | [] => [closeArray]
  | next :: rest => comma :: (toTokens next ++ nextItems rest)

def nextEntries : List (String × Json) → List Token
  | [] => [closeObject]
  | (k, next) :: rest => comma :: text (some k) :: colon :: (toTokens next ++ nextEntries rest)

end

namespace Token

/-! ## Words -/

/-- No word runs on into the text. -/
def Separate (rest : List Char) : Prop := ∀ c ∈ rest.head?, endsWord c = true

theorem scan_word {w : List Char} (hw : ∀ c ∈ w, endsWord c = false) (reversed : List Char) {rest : List Char}
    (hrest : Separate rest) :
    scan (.word reversed) (w ++ rest) = ofWord (reversed.reverse ++ w) :: scan .between rest := by
  induction w generalizing reversed with
  | nil =>
    rw [List.nil_append, List.append_nil]
    cases rest with
    | nil => rfl
    | cons c rest => exact if_pos (hrest c rfl)
  | cons c w ih =>
    have hc : ¬ endsWord c = true := by simp [hw c List.mem_cons_self]
    rw [List.cons_append, scan, if_neg hc, ih (fun d hd => hw d (List.mem_cons_of_mem c hd)), List.reverse_cons,
      List.append_assoc]
    rfl

theorem start_of_endsWord_eq_false {c : Char} (h : endsWord c = false) : start c = ([], .word [c]) := by
  simp only [endsWord, Bool.or_eq_false_iff, beq_eq_false_iff_ne, Option.isSome_eq_false_iff,
    Option.isNone_iff_eq_none] at h
  obtain ⟨⟨hblank, hquote⟩, hpunctuation⟩ := h
  rw [start, if_neg (by simp [hblank]), if_neg hquote, hpunctuation]

theorem scan_bare {w : List Char} (hne : w ≠ []) (hw : ∀ c ∈ w, endsWord c = false) {rest : List Char}
    (hrest : Separate rest) : scan .between (w ++ rest) = ofWord w :: scan .between rest := by
  obtain ⟨c, w, rfl⟩ := List.exists_cons_of_ne_nil hne
  rw [List.cons_append, scan, start_of_endsWord_eq_false (hw c List.mem_cons_self), List.nil_append,
    scan_word (fun d hd => hw d (List.mem_cons_of_mem c hd)) [c] hrest]
  rfl

theorem scan_literal {w : List Char} (hne : w ≠ []) (hw : w.all (fun c => !endsWord c) = true) {rest : List Char}
    (hrest : Separate rest) : scan .between (w ++ rest) = ofWord w :: scan .between rest := by
  apply scan_bare hne _ hrest
  intro c hc
  simpa using List.all_eq_true.mp hw c hc

/-! ## Integers -/

theorem endsWord_of_isDigit {c : Char} (h : c.isDigit = true) : endsWord c = false := by
  have hne : ∀ d : Char, d.isDigit = false → c ≠ d := by
    rintro d hd rfl
    exact absurd (hd.symm.trans h) (by decide)
  have hpunctuation : punctuation? c = none := by
    unfold punctuation?
    split
    · exact absurd rfl (hne '[' (by decide))
    · exact absurd rfl (hne ']' (by decide))
    · exact absurd rfl (hne '\x7b' (by decide))
    · exact absurd rfl (hne '\x7d' (by decide))
    · exact absurd rfl (hne ',' (by decide))
    · exact absurd rfl (hne ':' (by decide))
    · rfl
  simp [endsWord, isBlank, hpunctuation, hne ' ' (by decide), hne '\t' (by decide), hne '\n' (by decide),
    hne '\r' (by decide), hne '"' (by decide)]

theorem endsWord_of_mem_repr {n : Int} {c : Char} (h : c ∈ n.repr.toList) : endsWord c = false := by
  rcases Decimal.mem_repr h with rfl | h
  · rfl
  · exact endsWord_of_isDigit h

end Token

namespace Numeral

theorem unsigned?_repr (negative : Bool) (n : Nat) :
    unsigned? negative n.repr.toList = some ⟨negative, n.repr.toList, [], 0, true⟩ := by
  have hdigits : ∀ c ∈ n.repr.toList, c.isDigit = true := fun c hc => Decimal.isDigit_of_mem_repr hc
  rw [unsigned?, List.takeWhile_eq_self_iff.mpr hdigits, List.dropWhile_eq_nil_iff.mpr hdigits]
  split
  · next h => exact absurd h (Decimal.repr_ne_nil n)
  · next c cs h => exact absurd h (Decimal.repr_ne_zero_cons n c cs)
  · rfl

theorem number_repr (n : Nat) : number n.repr.toList = n := Decimal.ofDigitChars_repr n

theorem ofChars?_of_ne_minus {cs : List Char} (h : '-' ∉ cs) : ofChars? cs = unsigned? false cs := by
  unfold ofChars?
  split
  · exact absurd List.mem_cons_self h
  · rfl

theorem toJson_repr {n : Int} (h : Fits n) : (ofChars? n.repr.toList).map toJson = some (.int n) := by
  obtain ⟨hmin, hmax⟩ := h
  cases n with
  | ofNat n =>
    have hn : n < UInt64.size := Int.ofNat_lt.mp hmax
    have hint : toInt? ⟨false, n.repr.toList, [], 0, true⟩ = some (n : Int) := by
      simp only [toInt?, number_repr, Bool.not_true, Bool.false_eq_true, if_false, if_pos hn]
    show (ofChars? n.repr.toList).map toJson = _
    rw [ofChars?_of_ne_minus (Decimal.minus_not_mem_repr n), unsigned?_repr, Option.map_some, toJson, hint]
    rfl
  | negSucc n =>
    have hint : toInt? ⟨true, (n + 1).repr.toList, [], 0, true⟩ = some (Int.negSucc n) := by
      have hneg : 0 < n + 1 ∧ Int64.minValue.toInt ≤ -((n + 1 : Nat) : Int) := ⟨Nat.succ_pos n, hmin⟩
      simp only [toInt?, number_repr, Bool.not_true, Bool.false_eq_true, if_false, if_true, if_pos hneg]
      rfl
    rw [Decimal.toList_repr_negSucc, ofChars?, unsigned?_repr, Option.map_some, toJson, hint]

end Numeral

namespace Token

theorem ofWord_repr {n : Int} (h : Fits n) : ofWord n.repr.toList = atom (.int n) := by
  have hne : ∀ c cs, c ≠ '-' → c.isDigit = false → n.repr.toList ≠ c :: cs := by
    intro c cs hminus hdigit e
    rcases Decimal.mem_repr (e ▸ List.mem_cons_self : c ∈ n.repr.toList) with hc | hc
    · exact hminus hc
    · exact absurd (hdigit.symm.trans hc) (by decide)
  obtain ⟨m, hm, hjson⟩ := Option.map_eq_some_iff.mp (Numeral.toJson_repr h)
  rw [ofWord, if_neg (hne 'n' _ (by decide) (by decide)), if_neg (hne 't' _ (by decide) (by decide)),
    if_neg (hne 'f' _ (by decide) (by decide)), hm]
  exact congrArg atom hjson

/-! ## Quoted text -/

theorem hexDigit?_digitChar : ∀ n < 16, hexDigit? (Nat.digitChar n) = some n := by decide

theorem pieceOfUnit_toNat {c : Char} (h : c.toNat < 0x20) : pieceOfUnit c.toNat = .char c := by
  have hhigh : isHigh c.toNat = false := by simp only [isHigh, Bool.and_eq_false_iff, decide_eq_false_iff_not]; omega
  have hlow : isLow c.toNat = false := by simp only [isLow, Bool.and_eq_false_iff, decide_eq_false_iff_not]; omega
  rw [pieceOfUnit, hhigh, hlow, Char.ofNat_toNat]
  rfl

/-- The four digits after `\u`, of which a control character needs two. -/
theorem scan_control {c : Char} (h : c.toNat < 0x20) (reversed : List Piece) (rest : List Char) :
    scan (.unicode reversed []) ('0' :: '0' :: Nat.digitChar (c.toNat / 16) :: Nat.digitChar (c.toNat % 16) :: rest)
      = scan (.string (.char c :: reversed)) rest := by
  have hhigh := hexDigit?_digitChar (c.toNat / 16) (by omega)
  have hlow := hexDigit?_digitChar (c.toNat % 16) (by omega)
  have hzero : hexDigit? '0' = some 0 := rfl
  have hunit : [0, 0, c.toNat / 16, c.toNat % 16].foldl (fun n d => 16 * n + d) 0 = c.toNat := by
    simp only [List.foldl_cons, List.foldl_nil]
    omega
  simp only [scan, hzero, hhigh, hlow, List.nil_append, List.cons_append, List.length_nil, List.length_cons,
    Nat.reduceLT, Nat.reduceAdd, if_true, if_false, hunit, pieceOfUnit_toNat h]

theorem scan_escape (c : Char) (reversed : List Piece) (rest : List Char) :
    scan (.string reversed) (escape c ++ rest) = scan (.string (.char c :: reversed)) rest := by
  unfold escape
  split
  · rfl
  · rfl
  · rfl
  · rfl
  · rfl
  · rfl
  · rfl
  · next hquote hbackslash _ _ _ _ _ =>
    split
    · next h => exact scan_control h reversed rest
    · next h => rw [List.singleton_append, scan, if_neg hquote, if_neg hbackslash, if_neg h]

theorem joinPieces_map_char (cs : List Char) : joinPieces (cs.map .char) = some cs := by
  induction cs with
  | nil => rfl
  | cons c cs ih => rw [List.map_cons, joinPieces, ih, Option.map_some]

theorem scan_string (cs : List Char) (reversed : List Piece) (rest : List Char) :
    scan (.string reversed) (cs.flatMap escape ++ '"' :: rest)
      = ofPieces ((cs.map .char).reverse ++ reversed) :: scan .between rest := by
  induction cs generalizing reversed with
  | nil => rfl
  | cons c cs ih =>
    rw [List.flatMap_cons, List.append_assoc, scan_escape, ih, List.map_cons, List.reverse_cons, List.append_assoc]
    rfl

theorem scan_quote (s : String) (rest : List Char) :
    scan .between (quote s ++ rest) = text (some s) :: scan .between rest := by
  have hbody : scan .between (quote s ++ rest) = scan (.string []) (s.toList.flatMap escape ++ '"' :: rest) := by
    rw [quote, List.cons_append, List.append_assoc]
    rfl
  rw [hbody, scan_string, List.append_nil, ofPieces, List.reverse_reverse, joinPieces_map_char, Option.map_some,
    String.ofList_toList]

/-! ## Trees -/

def Scans (j : Json) : Prop :=
  ∀ rest, Separate rest → scan .between (chars j ++ rest) = toTokens j ++ scan .between rest

theorem separate_cons {c : Char} (h : endsWord c = true) (rest : List Char) : Separate (c :: rest) := by
  intro d hd
  obtain rfl := Option.some.inj hd
  exact h

theorem scan_itemChars {j : Json} {rest : List Json} (h : ∀ k ∈ j :: rest, Scans k) (t : List Char) :
    scan .between (itemChars (j :: rest) ++ t) = toTokens j ++ (nextItems rest ++ scan .between t) := by
  have hj : Scans j := h j List.mem_cons_self
  induction rest generalizing j with
  | nil =>
    rw [itemChars, List.append_assoc, List.singleton_append, hj _ (separate_cons (by decide) t)]
    rfl
  | cons next rest ih =>
    have hrest := ih (fun k hk => h k (List.mem_cons_of_mem j hk)) (h next (List.mem_cons_of_mem j List.mem_cons_self))
    rw [itemChars_cons_cons, List.append_assoc, List.cons_append, hj _ (separate_cons (by decide) _), nextItems,
      List.cons_append, List.append_assoc, ← hrest]
    rfl

theorem scan_entry (k : String) {j : Json} (hj : Scans j) {rest : List Char} (hrest : Separate rest) :
    scan .between (quote k ++ ':' :: (chars j ++ rest))
      = text (some k) :: colon :: (toTokens j ++ scan .between rest) := by
  rw [scan_quote]
  exact congrArg (text (some k) :: colon :: ·) (hj rest hrest)

theorem scan_entryChars {k : String} {j : Json} {rest : List (String × Json)} (h : ∀ e ∈ (k, j) :: rest, Scans e.2)
    (t : List Char) :
    scan .between (entryChars ((k, j) :: rest) ++ t)
      = text (some k) :: colon :: (toTokens j ++ (nextEntries rest ++ scan .between t)) := by
  have hj : Scans j := h (k, j) List.mem_cons_self
  induction rest generalizing k j with
  | nil =>
    rw [entryChars_singleton, List.append_assoc, List.cons_append, List.append_assoc, List.singleton_append,
      scan_entry k hj (separate_cons (by decide) t)]
    rfl
  | cons next rest ih =>
    obtain ⟨k', next⟩ := next
    have hrest := ih (fun e he => h e (List.mem_cons_of_mem (k, j) he))
      (h (k', next) (List.mem_cons_of_mem (k, j) List.mem_cons_self))
    rw [entryChars_cons_cons, List.append_assoc, List.cons_append, List.append_assoc, List.cons_append,
      scan_entry k hj (separate_cons (by decide) _), nextEntries, List.cons_append, List.cons_append, List.cons_append,
      List.append_assoc, ← hrest]
    rfl

end Token

theorem scan_chars {j : Json} (h : j.Exact) : Scans j := by
  induction h with
  | null => exact fun rest => scan_literal (by decide) (by decide)
  | bool b => cases b <;> exact fun rest => scan_literal (by decide) (by decide)
  | @int n h =>
    intro rest hrest
    have hword : ∀ c ∈ n.repr.toList, endsWord c = false := fun c hc => endsWord_of_mem_repr hc
    show scan .between (n.repr.toList ++ rest) = _
    rw [scan_bare (Decimal.int_repr_ne_nil n) hword hrest, ofWord_repr h]
    rfl
  | str s => exact fun rest _ => scan_quote s rest
  | @arr items _ ih =>
    intro rest _
    cases items with
    | nil => rfl
    | cons j items =>
      rw [toTokens, List.cons_append, List.append_assoc, ← scan_itemChars ih rest]
      rfl
  | @obj entries _ ih =>
    intro rest _
    cases entries with
    | nil => rfl
    | cons e entries =>
      obtain ⟨k, j⟩ := e
      rw [toTokens, List.cons_append, List.cons_append, List.cons_append, List.append_assoc, ← scan_entryChars ih rest]
      rfl

theorem tokens_print {j : Json} (h : j.Exact) : tokens j.print = toTokens j := by
  have hscan := scan_chars h [] nofun
  rw [List.append_nil] at hscan
  rw [tokens, print, String.toList_ofList, hscan]
  exact List.append_nil _

/-! ## Trees read back -/

def Reads (j : Json) : Prop := ∀ stack ts, value stack (toTokens j ++ ts) = deliver j stack ts

/-- No tree begins with the end of an array. -/
theorem value_openArray (j : Json) (stack : List Frame) (ts : List Token) :
    value stack (openArray :: (toTokens j ++ ts)) = value (.arr [] :: stack) (toTokens j ++ ts) := by
  cases j with
  | arr items => cases items <;> rfl
  | obj entries => cases entries <;> rfl
  | _ => rfl

theorem deliver_nextItems (j : Json) {rest : List Json} (h : ∀ k ∈ rest, Reads k) (done : List Json)
    (stack : List Frame) (ts : List Token) :
    deliver j (.arr done :: stack) (nextItems rest ++ ts) = deliver (.arr (done.reverse ++ j :: rest)) stack ts := by
  induction rest generalizing j done with
  | nil =>
    rw [← List.reverse_cons]
    rfl
  | cons next rest ih =>
    have hnext : Reads next := h next List.mem_cons_self
    rw [nextItems, List.cons_append, List.append_assoc]
    show value (.arr (j :: done) :: stack) (toTokens next ++ (nextItems rest ++ ts)) = _
    rw [hnext, ih next (fun k hk => h k (List.mem_cons_of_mem next hk)), List.reverse_cons, List.append_assoc,
      List.singleton_append]

/-- An entry with a key that is a text. -/
def keyed (e : String × Json) : Option String × Json := (some e.1, e.2)

theorem ofEntries_keyed (entries : List (String × Json)) : ofEntries (entries.map keyed) = .obj entries := by
  have hkeys : (entries.map keyed).mapM (fun e => e.1.map fun k => (k, e.2)) = some entries := by
    induction entries with
    | nil => rfl
    | cons e entries ih => simp [keyed, ih]
  rw [ofEntries, hkeys]

theorem deliver_nextEntries (k : Option String) (j : Json) {rest : List (String × Json)} (h : ∀ e ∈ rest, Reads e.2)
    (done : List (Option String × Json)) (stack : List Frame) (ts : List Token) :
    deliver j (.obj done k :: stack) (nextEntries rest ++ ts)
      = deliver (ofEntries (done.reverse ++ (k, j) :: rest.map keyed)) stack ts := by
  induction rest generalizing k j done with
  | nil =>
    rw [List.map_nil, ← List.reverse_cons]
    rfl
  | cons next rest ih =>
    have hnext : Reads next.2 := h next List.mem_cons_self
    show deliver j (.obj done k :: stack)
      (comma :: text (some next.1) :: colon :: (toTokens next.2 ++ nextEntries rest) ++ ts) = _
    rw [List.cons_append, List.cons_append, List.cons_append, List.append_assoc]
    show value (.obj ((k, j) :: done) (some next.1) :: stack) (toTokens next.2 ++ (nextEntries rest ++ ts)) = _
    rw [hnext, ih _ _ (fun e he => h e (List.mem_cons_of_mem next he)), List.reverse_cons, List.append_assoc,
      List.singleton_append]
    rfl

theorem value_toTokens {j : Json} (h : j.Exact) : Reads j := by
  induction h with
  | null | bool b | int hn | str s => exact fun stack ts => rfl
  | @arr items _ ih =>
    intro stack ts
    cases items with
    | nil => rfl
    | cons j rest =>
      rw [toTokens, List.cons_append, List.append_assoc, value_openArray, ih j List.mem_cons_self]
      exact deliver_nextItems j (fun k hk => ih k (List.mem_cons_of_mem j hk)) [] stack ts
  | @obj entries _ ih =>
    intro stack ts
    cases entries with
    | nil => rfl
    | cons e rest =>
      rw [toTokens, List.cons_append, List.cons_append, List.cons_append, List.append_assoc]
      show value (.obj [] (some e.1) :: stack) (toTokens e.2 ++ (nextEntries rest ++ ts)) = _
      rw [ih e List.mem_cons_self, deliver_nextEntries _ _ fun e' he => ih e' (List.mem_cons_of_mem e he)]
      exact congrArg (fun j => deliver j stack ts) (ofEntries_keyed (e :: rest))

/-- The text of an exact tree is read as the tree. -/
theorem read?_print {j : Json} (h : j.Exact) : read? j.print = some (j, []) := by
  have hread := value_toTokens h [] []
  rw [List.append_nil] at hread
  rw [read?, tokens_print h, hread]
  rfl

end RuleExpr.Json
