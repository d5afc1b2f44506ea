/-
  RuleExpr.Proofs.Script.Condition — the script text of a condition, read back.

  How the text of a built-in condition opens tells its form, because no two openings begin with
  the same two letters (`Form.eq_of_opening_append`). Where it ends shows as well: ids end at a
  bracket, a name ends at the next quote, and operands end where a blank is followed by a bracket
  and not by a letter. So a text that begins with that of a condition begins with that of no
  other condition (`Condition.eq_of_script_append`). This needs names without quotes.

  The text of a statistic determines all of it that is read (`Statistic.sameReading_of_script`),
  and so its outcomes, but not the statistic itself: it leaves out a property that is not read.
-/

import RuleExpr.Node.Eval
import RuleExpr.Node.Same
import RuleExpr.Proofs.Decimal
import RuleExpr.Proofs.Script.Spelling

namespace RuleExpr

/-! ## Texts with marks -/

namespace Script

variable {α : Type} {a : α}

theorem eq_of_append_cons {l l' s t : List α} (hl : a ∉ l) (hl' : a ∉ l') (h : l ++ a :: s = l' ++ a :: t) :
    l = l' ∧ s = t := by
  rcases List.append_eq_append_iff.mp h with ⟨m, rfl, hm⟩ | ⟨m, rfl, hm⟩
  · cases m with
    | nil => exact ⟨(List.append_nil l).symm, List.tail_eq_of_cons_eq hm⟩
    | cons b m =>
      obtain rfl : a = b := List.head_eq_of_cons_eq hm
      simp at hl'
  · cases m with
    | nil => exact ⟨List.append_nil l', (List.tail_eq_of_cons_eq hm).symm⟩
    | cons b m =>
      obtain rfl : a = b := List.head_eq_of_cons_eq hm
      simp at hl

/-- Words that do not hold the mark between them. -/
def Words (a : α) (ls : List (List α)) : Prop := ∀ l ∈ ls, l ≠ [] ∧ a ∉ l

theorem eq_of_intercalate [BEq α] [LawfulBEq α] {ls ms : List (List α)} (hls : Words a ls) (hms : Words a ms)
    (h : [a].intercalate ls = [a].intercalate ms) : ls = ms := by
  have hsplit : ∀ {ls : List (List α)}, Words a ls → ls ≠ [] → ([a].intercalate ls).splitOn a = ls :=
    fun hls hne => List.splitOn_intercalate a (fun l hl => (hls l hl).2) hne
  -- No word is empty, so only the empty list has no text.
  have hempty : ∀ {ls : List (List α)}, Words a ls → [a].intercalate ls = [] → ls = [] := by
    intro ls hls h
    apply Classical.byContradiction
    intro hne
    have e : [[]] = ls := by rw [← hsplit hls hne, h, List.splitOn_nil]
    exact (hls [] (e ▸ List.mem_singleton_self [])).1 rfl
  by_cases hl : ls = []
  · subst hl
    exact (hempty hms h.symm).symm
  by_cases hm : ms = []
  · subst hm
    exact hempty hls h
  · rw [← hsplit hls hl, h, hsplit hms hm]

end Script

open Script

namespace Condition

/-! ## Forms -/

inductive Form where
  | all
  | objectType (m : Member .objectType)
  | withinIds
  | hasProperty
  | source
  | and
  deriving DecidableEq

namespace Form

/-- What the text begins with. -/
def opening : Form → List Char
  | all => "All".toList
  | objectType m => m.keyword.toList
  | withinIds => "Object id = [".toList
  | hasProperty => "HasProperty name = \"".toList
  | source => "Source".toList
  | and => "And [ ".toList

def every : List Form := [all, withinIds, hasProperty, source, and] ++ (Member.every .objectType).map objectType

def ofInitials? (cs : List Char) : Option Form := every.find? fun f => f.opening.take 2 == cs

theorem ofInitials?_opening (f : Form) : ofInitials? (f.opening.take 2) = some f := by
  cases f with
  | objectType m => obtain ⟨r⟩ := m; revert r; decide
  | _ => decide

theorem two_le_length_opening (f : Form) : 2 ≤ f.opening.length := by
  cases f with
  | objectType m => obtain ⟨r⟩ := m; revert r; decide
  | _ => decide

theorem isAlpha_opening (f : Form) : f.opening.head?.any Char.isAlpha = true := by
  cases f with
  | objectType m => obtain ⟨r⟩ := m; revert r; decide
  | _ => decide

theorem eq_of_opening_append {f g : Form} {s t : List Char} (h : f.opening ++ s = g.opening ++ t) : f = g ∧ s = t := by
  have htake : ∀ (f : Form) (s : List Char), (f.opening ++ s).take 2 = f.opening.take 2 :=
    fun f s => List.take_append_of_le_length f.two_le_length_opening
  have hinitials : f.opening.take 2 = g.opening.take 2 := by rw [← htake f s, h, htake g t]
  have hsome : some f = some g := by rw [← ofInitials?_opening, hinitials, ofInitials?_opening]
  obtain rfl := Option.some.inj hsome
  exact ⟨rfl, List.append_cancel_left h⟩

end Form

def form : BuiltinCondition → Form
  | all => .all
  | objectType m => .objectType m
  | withinIds _ => .withinIds
  | hasProperty _ => .hasProperty
  | source => .source
  | and _ => .and

/-! ## What follows the opening -/

/-- The operands after the first one, each after a blank, and the closing bracket. -/
def following : List BuiltinCondition → List Char
  | [] => [' ', ']']
  | next :: rest => ' ' :: (next.script.toList ++ following rest)

def listed : List BuiltinCondition → List Char
  | [] => following []
  | first :: rest => first.script.toList ++ following rest

def remainder : BuiltinCondition → List Char
  | withinIds ids => (idList ids).toList ++ [']']
  | hasProperty name => name.toList ++ ['"']
  | and operands => listed operands
  | _ => []

theorem toList_listed (ks : List BuiltinCondition) : (" ".intercalate (scripts ks) ++ " ]").toList = listed ks := by
  have hblank : " ".toList = [' '] := rfl
  have hend : " ]".toList = [' ', ']'] := rfl
  rw [String.toList_append, String.toList_intercalate, hblank, hend]
  cases ks with
  | nil => rfl
  | cons first rest =>
    simp only [scripts, List.map_cons, listed]
    induction rest generalizing first with
    | nil => simp [scripts, following]
    | cons next rest ih =>
      rw [scripts, List.map_cons, List.intercalate_cons_cons, List.append_assoc, List.append_assoc, ih next]
      rfl

theorem toList_script (k : BuiltinCondition) : k.script.toList = k.form.opening ++ k.remainder := by
  cases k with
  | all => exact (List.append_nil _).symm
  | source => exact (List.append_nil _).symm
  | objectType m => exact (List.append_nil _).symm
  | withinIds ids => rw [script_withinIds, String.append_assoc, String.toList_append, String.toList_append]; rfl
  | hasProperty name => rw [script_hasProperty, String.append_assoc, String.toList_append, String.toList_append]; rfl
  | and ks => rw [script_and, String.append_assoc, String.toList_append, toList_listed]; rfl
  | host g => exact g.elim

theorem exists_letter (k : BuiltinCondition) : ∃ c cs, k.script.toList = c :: cs ∧ c.isAlpha = true := by
  obtain ⟨c, hc, hletter⟩ := (Option.any_eq_true _ _).mp k.form.isAlpha_opening
  obtain ⟨cs, hcs⟩ := List.head?_eq_some_iff.mp hc
  exact ⟨c, cs ++ k.remainder, by rw [toList_script, hcs, List.cons_append], hletter⟩

theorem toList_idList (ids : List ObjectId) :
    (idList ids).toList = [' '].intercalate (ids.map fun id => id.toInt.repr.toList) := by
  rw [idList, String.toList_intercalate, List.map_map]
  rfl

theorem words_ids (ids : List ObjectId) : Words ' ' (ids.map fun id => id.toInt.repr.toList) := by
  intro l hl
  obtain ⟨id, _, rfl⟩ := List.mem_map.mp hl
  refine ⟨Decimal.int_repr_ne_nil id.toInt, fun hc => ?_⟩
  exact absurd (Decimal.mem_repr hc) (by decide)

theorem eq_of_idList {ids js : List ObjectId} (h : (idList ids).toList = (idList js).toList) : ids = js := by
  rw [toList_idList, toList_idList] at h
  refine (List.map_inj_right fun a b hab => ?_).mp (eq_of_intercalate (words_ids ids) (words_ids js) h)
  exact Int32.toInt_inj.mp (Decimal.eq_of_repr hab)

theorem not_mem_idList (ids : List ObjectId) : ']' ∉ (idList ids).toList := by
  rw [toList_idList]
  intro h
  rcases Text.mem_intercalate h with h | ⟨l, hl, h⟩
  · exact absurd h (by decide)
  · obtain ⟨id, _, rfl⟩ := List.mem_map.mp hl
    exact absurd (Decimal.mem_repr h) (by decide)

/-! ## Conditions -/

mutual

/-- The names of properties that occur in a condition. -/
def names {H : Type} : Condition H → List String
  | hasProperty name => [name]
  | and operands => namesOfAll operands
  | _ => []

def namesOfAll {H : Type} : List (Condition H) → List String
  | [] => []
  | first :: rest => names first ++ namesOfAll rest

end

def Unquoted (ns : List String) : Prop := ∀ n ∈ ns, '"' ∉ n.toList

instance (ns : List String) : Decidable (Unquoted ns) := inferInstanceAs (Decidable (∀ n ∈ ns, '"' ∉ n.toList))

theorem Unquoted.left {ns ms : List String} (h : Unquoted (ns ++ ms)) : Unquoted ns :=
  fun n hn => h n (List.mem_append_left ms hn)

theorem Unquoted.right {ns ms : List String} (h : Unquoted (ns ++ ms)) : Unquoted ms :=
  fun n hn => h n (List.mem_append_right ns hn)

theorem following_ne_nil (k : BuiltinCondition) (ks : List BuiltinCondition) (s t : List Char) :
    following [] ++ s ≠ following (k :: ks) ++ t := by
  obtain ⟨c, cs, hcs, hc⟩ := k.exists_letter
  intro h
  simp only [following, hcs, List.cons_append, List.cons.injEq] at h
  obtain ⟨-, rfl, -⟩ := h
  exact absurd hc (by decide)

theorem listed_ne_nil (k : BuiltinCondition) (ks : List BuiltinCondition) (s t : List Char) :
    listed [] ++ s ≠ listed (k :: ks) ++ t := by
  obtain ⟨c, cs, hcs, hc⟩ := k.exists_letter
  intro h
  simp only [listed, following, hcs, List.cons_append, List.cons.injEq] at h
  obtain ⟨rfl, -⟩ := h
  exact absurd hc (by decide)

mutual

/-- Neither text is a beginning of the other: each can be followed by anything. -/
theorem eq_of_script_append (x y : BuiltinCondition) (hx : Unquoted x.names) (hy : Unquoted y.names) {s t : List Char}
    (h : x.script.toList ++ s = y.script.toList ++ t) : x = y ∧ s = t := by
  rw [toList_script, toList_script, List.append_assoc, List.append_assoc] at h
  obtain ⟨hform, hrest⟩ := Form.eq_of_opening_append h
  match x with
  | all =>
    cases y with
    | all => exact ⟨rfl, hrest⟩
    | host g => exact g.elim
    | _ => cases hform
  | source =>
    cases y with
    | source => exact ⟨rfl, hrest⟩
    | host g => exact g.elim
    | _ => cases hform
  | objectType m =>
    cases y with
    | objectType m' =>
      obtain rfl := Form.objectType.inj hform
      exact ⟨rfl, hrest⟩
    | host g => exact g.elim
    | _ => cases hform
  | withinIds ids =>
    cases y with
    | withinIds js =>
      rw [remainder, remainder, List.append_assoc, List.append_assoc] at hrest
      obtain ⟨hids, hst⟩ := eq_of_append_cons (not_mem_idList ids) (not_mem_idList js) hrest
      exact ⟨congrArg withinIds (eq_of_idList hids), hst⟩
    | host g => exact g.elim
    | _ => cases hform
  | hasProperty name =>
    cases y with
    | hasProperty name' =>
      rw [remainder, remainder, List.append_assoc, List.append_assoc] at hrest
      have hname : '"' ∉ name.toList := hx name (List.mem_singleton_self name)
      have hname' : '"' ∉ name'.toList := hy name' (List.mem_singleton_self name')
      obtain ⟨hnames, hst⟩ := eq_of_append_cons hname hname' hrest
      exact ⟨congrArg hasProperty (String.toList_injective hnames), hst⟩
    | host g => exact g.elim
    | _ => cases hform
  | and xs =>
    cases y with
    | and ys =>
      obtain ⟨rfl, hst⟩ := eq_of_listed_append xs ys hx hy hrest
      exact ⟨rfl, hst⟩
    | host g => exact g.elim
    | _ => cases hform
  | host g => exact g.elim

theorem eq_of_listed_append (xs ys : List BuiltinCondition) (hx : Unquoted (namesOfAll xs))
    (hy : Unquoted (namesOfAll ys)) {s t : List Char} (h : listed xs ++ s = listed ys ++ t) : xs = ys ∧ s = t := by
  match xs, ys with
  | [], [] => exact ⟨rfl, List.append_cancel_left h⟩
  | [], y :: ys => exact absurd h (listed_ne_nil y ys s t)
  | x :: xs, [] => exact absurd h.symm (listed_ne_nil x xs t s)
  | x :: xs, y :: ys =>
    rw [listed, listed, List.append_assoc, List.append_assoc] at h
    obtain ⟨rfl, hrest⟩ := eq_of_script_append x y hx.left hy.left h
    obtain ⟨rfl, hst⟩ := eq_of_following_append xs ys hx.right hy.right hrest
    exact ⟨rfl, hst⟩

theorem eq_of_following_append (xs ys : List BuiltinCondition) (hx : Unquoted (namesOfAll xs))
    (hy : Unquoted (namesOfAll ys)) {s t : List Char} (h : following xs ++ s = following ys ++ t) : xs = ys ∧ s = t := by
  match xs, ys with
  | [], [] => exact ⟨rfl, List.append_cancel_left h⟩
  | [], y :: ys => exact absurd h (following_ne_nil y ys s t)
  | x :: xs, [] => exact absurd h.symm (following_ne_nil x xs t s)
  | x :: xs, y :: ys =>
    simp only [following, List.cons_append, List.append_assoc, List.cons.injEq, true_and] at h
    obtain ⟨rfl, hrest⟩ := eq_of_script_append x y hx.left hy.left h
    obtain ⟨rfl, hst⟩ := eq_of_following_append xs ys hx.right hy.right hrest
    exact ⟨rfl, hst⟩

end

theorem script_eq_iff {x y : BuiltinCondition} (hx : Unquoted x.names) (hy : Unquoted y.names) :
    x.script = y.script ↔ x = y := by
  constructor
  · intro h
    have htext : x.script.toList ++ [] = y.script.toList ++ [] := by rw [h]
    exact (eq_of_script_append x y hx hy htext).1
  · intro h
    rw [h]

end Condition

/-! ## Statistics -/

theorem Reduction.eq_of_keyword {r r' : Reduction} (h : r.keyword = r'.keyword) : r = r' := by
  have hfind : ∀ r : Reduction, Reduction.all.find? (·.keyword == r.keyword) = some r := by
    intro r
    cases r <;> rfl
  apply Option.some.inj
  rw [← hfind r, h, hfind r']

theorem Reduction.not_mem_keyword (r : Reduction) : ' ' ∉ r.keyword.toList := by
  cases r <;> decide

namespace Script

theorem toList_append_eq_cons {w v : String} {c : Char} (h : w.toList = c :: v.toList) (t : List Char) :
    w.toList ++ t = c :: (v.toList ++ t) := by
  rw [h, List.cons_append]

variable {property property' : List String}

theorem not_mem_join {c : Char} (hc : c.isAlphanum = false ∧ c ≠ '_' ∧ c ≠ '.')
    (hp : ∀ s ∈ property, isIdentifier s = true) : c ∉ (Text.join property).toList := by
  intro h
  rcases Text.mem_join h with rfl | ⟨s, hs, h⟩
  · exact hc.2.2 rfl
  · rcases isAlphanum_or_of_isIdentifier (hp s hs) h with h | rfl
    · exact absurd (hc.1.symm.trans h) (by decide)
    · exact hc.2.1 rfl

theorem eq_of_join (hne : property ≠ []) (hne' : property' ≠ []) (hp : ∀ s ∈ property, isIdentifier s = true)
    (hp' : ∀ s ∈ property', isIdentifier s = true) (h : Text.join property = Text.join property') :
    property = property' := by
  rw [← Text.split_join hne fun s hs => dot_not_mem_of_isIdentifier (hp s hs), h,
    Text.split_join hne' fun s hs => dot_not_mem_of_isIdentifier (hp' s hs)]

end Script

namespace Statistic

def conditionClause (s : Statistic Empty) : List Char := "condition = ".toList ++ s.condition.script.toList

/-- What follows the reduction and a blank. -/
def clauses (s : Statistic Empty) : List Char :=
  if s.reduction.needsValues then "value = ".toList ++ ((Text.join s.property).toList ++ ' ' :: s.conditionClause)
  else s.conditionClause

theorem toList_script (s : Statistic Empty) :
    s.script.toList = "Statistic ".toList ++ (s.reduction.keyword.toList ++ ' ' :: s.clauses) := by
  have hvalue : ∀ t, " value = ".toList ++ t = ' ' :: ("value = ".toList ++ t) := toList_append_eq_cons (by decide)
  have hcondition : ∀ t, " condition = ".toList ++ t = ' ' :: ("condition = ".toList ++ t) :=
    toList_append_eq_cons (by decide)
  unfold script clauses conditionClause
  by_cases hn : s.reduction.needsValues = true
  · rw [if_pos hn, if_pos hn, String.append_assoc, String.append_assoc, String.append_assoc, String.append_assoc]
    simp only [String.toList_append]
    rw [hvalue, hcondition]
  · rw [if_neg hn, if_neg hn, String.append_empty, String.append_assoc, String.append_assoc]
    simp only [String.toList_append]
    rw [hcondition]

/-- Equal but for a property that is not read. -/
def SameReading (a b : Statistic Empty) : Prop :=
  a.reduction = b.reduction ∧ (a.reduction.needsValues = true → a.property = b.property) ∧ a.condition = b.condition

theorem SameReading.eval_eq {a b : Statistic Empty} (h : a.SameReading b) (t : Ty) (c : Context) :
    a.eval t c = b.eval t c := by
  obtain ⟨hr, hp, hk⟩ := h
  have hvalues : a.values t c = b.values t c := by
    funext sampled
    unfold values
    rw [← hr]
    split
    · next hn => rw [hp hn]
    · rfl
  simp only [eval, sample, hvalues, hk, hr]

theorem sameReading_of_script {a b : Statistic Empty} (ha : Condition.Unquoted a.condition.names)
    (hb : Condition.Unquoted b.condition.names) (hpa : ∀ s ∈ a.property, isIdentifier s = true)
    (hpb : ∀ s ∈ b.property, isIdentifier s = true) (h : a.script = b.script) : a.SameReading b := by
  have htext := congrArg String.toList h
  rw [toList_script, toList_script] at htext
  obtain ⟨hkeyword, hclauses⟩ :=
    eq_of_append_cons a.reduction.not_mem_keyword b.reduction.not_mem_keyword (List.append_cancel_left htext)
  have hr : a.reduction = b.reduction := Reduction.eq_of_keyword (String.toList_injective hkeyword)
  have hk : a.conditionClause = b.conditionClause → a.condition = b.condition := by
    intro hclause
    apply (Condition.script_eq_iff ha hb).mp
    exact String.toList_injective (List.append_cancel_left hclause)
  by_cases hn : a.reduction.needsValues = true
  · have hn' : b.reduction.needsValues = true := hr ▸ hn
    rw [clauses, clauses, if_pos hn, if_pos hn'] at hclauses
    obtain ⟨hjoin, hclause⟩ :=
      eq_of_append_cons (not_mem_join (by decide) hpa) (not_mem_join (by decide) hpb)
        (List.append_cancel_left hclauses)
    refine ⟨hr, fun _ => ?_, hk hclause⟩
    exact eq_of_join (a.property_ne_nil hn) (b.property_ne_nil hn') hpa hpb (String.toList_injective hjoin)
  · have hn' : ¬ b.reduction.needsValues = true := hr ▸ hn
    rw [clauses, clauses, if_neg hn, if_neg hn'] at hclauses
    exact ⟨hr, fun h => absurd h hn, hk hclauses⟩

end Statistic

/-- The text of a condition tells it apart from all others, and that of a statistic its outcomes. -/
theorem Condition.text_canonical :
    (∀ x y : BuiltinCondition, Unquoted x.names → Unquoted y.names → (x.script = y.script ↔ x.same y = true)) ∧
      ∀ a b : Statistic Empty, Unquoted a.condition.names → Unquoted b.condition.names →
        (∀ s ∈ a.property, isIdentifier s = true) → (∀ s ∈ b.property, isIdentifier s = true) →
          a.script = b.script → ∀ t c, a.eval t c = b.eval t c := by
  constructor
  · intro x y hx hy
    rw [same_iff, script_eq_iff hx hy]
  · intro a b ha hb hpa hpb h t c
    exact (Statistic.sameReading_of_script ha hb hpa hpb h).eval_eq t c

/-- Brackets and blanks in a name do not end it, and an empty operand list is not no operand. -/
theorem Condition.text_canonical_brackets :
    let named : BuiltinCondition := .and [.hasProperty "a ] b", .withinIds [-3, 12], .and []]
    let flat : BuiltinCondition := .and [.hasProperty "a", .withinIds [-3, 12]]
    let speedy : Statistic Empty := ⟨.count, ["Speed"], named, by decide, nofun⟩
    named.script = "And [ HasProperty name = \"a ] b\" Object id = [-3 12] And [  ] ]" ∧ named.script ≠ flat.script ∧
      ∀ t c, (Statistic.count named).eval t c = speedy.eval t c := by
  intro named flat speedy
  have hnamed : Unquoted named.names := by decide
  have hflat : Unquoted flat.names := by decide
  refine ⟨rfl, fun h => ?_, ?_⟩
  · exact absurd ((text_canonical.1 named flat hnamed hflat).mp h) (by decide)
  · exact text_canonical.2 _ _ hnamed hnamed nofun (by decide) rfl

end RuleExpr
