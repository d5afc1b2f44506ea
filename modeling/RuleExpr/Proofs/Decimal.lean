/-
  RuleExpr.Proofs.Decimal — integers in decimal notation.

  A text of digits, after a minus sign where the integer is negative, and of nothing else
  (`Decimal.mem_repr`), in which no zero leads (`Decimal.repr_ne_zero_cons`). Reading the
  digits gives the number back, so different integers have different texts
  (`Decimal.eq_of_repr`).
-/

namespace RuleExpr.Decimal

theorem toList_repr_negSucc (n : Nat) : (Int.negSucc n).repr.toList = '-' :: (n + 1).repr.toList := by
  rw [Int.repr, String.toList_append]
  rfl

theorem isDigit_of_mem_repr {n : Nat} {c : Char} (h : c ∈ n.repr.toList) : c.isDigit = true := by
  rw [Nat.toList_repr] at h
  exact Nat.isDigit_of_mem_toDigits (by decide) (by decide) h

theorem repr_ne_nil (n : Nat) : n.repr.toList ≠ [] := by
  rw [Nat.toList_repr]
  exact Nat.toDigits_ne_nil

theorem mem_repr {n : Int} {c : Char} (h : c ∈ n.repr.toList) : c = '-' ∨ c.isDigit = true := by
  cases n with
  | ofNat n => exact .inr (isDigit_of_mem_repr (n := n) h)
  | negSucc n =>
    rw [toList_repr_negSucc] at h
    exact (List.mem_cons.mp h).imp_right isDigit_of_mem_repr

theorem int_repr_ne_nil (n : Int) : n.repr.toList ≠ [] := by
  cases n with
  | ofNat n => exact repr_ne_nil n
  | negSucc n =>
    rw [toList_repr_negSucc]
    exact List.cons_ne_nil _ _

theorem ofDigitChars_repr (n : Nat) : Nat.ofDigitChars 10 n.repr.toList 0 = n := by
  rw [Nat.toList_repr, Nat.ofDigitChars_ten_toDigits]

theorem nat_eq_of_repr {m n : Nat} (h : m.repr.toList = n.repr.toList) : m = n := by
  rw [← ofDigitChars_repr m, h, ofDigitChars_repr]

theorem minus_not_mem_repr (n : Nat) : '-' ∉ n.repr.toList :=
  fun h => absurd (isDigit_of_mem_repr h) (by decide)

theorem eq_zero_of_leading_zero {n : Nat} (h : (Nat.toDigits 10 n).head? = some '0') : n = 0 := by
  induction n using Nat.strongRecOn with
  | _ n ih =>
    by_cases hn : n < 10
    · rw [Nat.toDigits_of_lt_base hn] at h
      have hzero : ∀ d < 10, Nat.digitChar d = '0' → d = 0 := by decide
      exact hzero n hn (Option.some.inj h)
    · have hq : n / 10 = 0 := by
        apply ih (n / 10) (by omega)
        obtain ⟨c, cs, hcs⟩ := List.exists_cons_of_ne_nil (Nat.toDigits_ne_nil : Nat.toDigits 10 (n / 10) ≠ [])
        rw [Nat.toDigits_of_base_le (by decide) (Nat.le_of_not_lt hn), hcs] at h
        rw [hcs]
        exact h
      omega

/-- A zero is the whole text or does not come first. -/
theorem repr_ne_zero_cons (n : Nat) (c : Char) (cs : List Char) : n.repr.toList ≠ '0' :: c :: cs := by
  intro h
  have hdigits : Nat.toDigits 10 n = '0' :: c :: cs := by rw [← Nat.toList_repr, h]
  obtain rfl := eq_zero_of_leading_zero (by rw [hdigits]; rfl : (Nat.toDigits 10 n).head? = some '0')
  exact absurd (List.tail_eq_of_cons_eq hdigits) (List.cons_ne_nil c cs).symm

theorem eq_of_repr {m n : Int} (h : m.repr.toList = n.repr.toList) : m = n := by
  cases m with
  | ofNat m =>
    cases n with
    | ofNat n => exact congrArg Int.ofNat (nat_eq_of_repr h)
    | negSucc n =>
      rw [toList_repr_negSucc] at h
      exact absurd (h ▸ List.mem_cons_self) (minus_not_mem_repr m)
  | negSucc m =>
    cases n with
    | ofNat n =>
      rw [toList_repr_negSucc] at h
      exact absurd (h.symm ▸ List.mem_cons_self) (minus_not_mem_repr n)
    | negSucc n =>
      rw [toList_repr_negSucc, toList_repr_negSucc] at h
      exact congrArg Int.negSucc (Nat.succ.inj (nat_eq_of_repr (List.tail_eq_of_cons_eq h)))

end RuleExpr.Decimal
