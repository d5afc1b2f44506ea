/-
  RuleExpr.Proofs.Mixing — the steps behind random draws lose nothing.

  A word is mixed by steps each of which can be undone. An added number is subtracted again, and
  multiplication with an odd number is undone by multiplication with its inverse modulo `2 ^ 64`.
  What is left is the join of a word with itself shifted to the right (`shiftXor`). The shift
  distributes over joins, and by 22 places or more it leaves nothing of a word when made three times;
  so a word joined with its first two shifts is what undoes that step. The steps in sequence are one
  permutation of words (`coe_mixing`). Absorbing a byte into a hash is a permutation of hashes, and
  so is absorbing any number of words (`bijective_absorbBytes`).
-/

import Mathlib.Algebra.Group.Units.Equiv
import Mathlib.Data.UInt
import RuleExpr.Arithmetic

namespace RuleExpr.Draw

open Equiv (Perm)

/-! ## Steps -/

theorem xor_cancel (a b : UInt64) : a ^^^ (a ^^^ b) = b := by
  rw [← UInt64.xor_assoc, UInt64.xor_self, UInt64.zero_xor]

/-- Made three times, the shift leaves nothing of a word. -/
abbrev Clears (shift : UInt64) : Prop := 64 ≤ 3 * (shift.toNat % 64)

theorem Clears.shiftRight {shift : UInt64} (h : Clears shift) (z : UInt64) : z >>> shift >>> shift >>> shift = 0 := by
  refine UInt64.toNat_inj.mp ?_
  rw [UInt64.toNat_shiftRight, UInt64.toNat_shiftRight, UInt64.toNat_shiftRight, ← Nat.shiftRight_add,
    ← Nat.shiftRight_add, Nat.shiftRight_eq_div_pow]
  refine Nat.div_eq_of_lt (z.toNat_lt.trans_le (Nat.pow_le_pow_right (by decide) ?_))
  omega

/-- A word joined with what the shift leaves of it. -/
def shiftXor (shift : UInt64) (h : Clears shift) : Perm UInt64 where
  toFun z := z ^^^ (z >>> shift)
  invFun z := z ^^^ (z >>> shift ^^^ (z >>> shift >>> shift))
  left_inv z := by
    simp only [UInt64.shiftRight_xor, h.shiftRight, UInt64.xor_zero, UInt64.xor_assoc, UInt64.xor_self]
  right_inv z := by
    simp only [UInt64.shiftRight_xor, h.shiftRight, UInt64.xor_zero, UInt64.xor_assoc]
    rw [UInt64.xor_comm (z >>> shift) (z >>> shift >>> shift), xor_cancel, UInt64.xor_self, UInt64.xor_zero]

/-- An odd number with its inverse. -/
def firstFactor : UInt64ˣ := ⟨0xbf58476d1ce4e5b9, 0x96de1b173f119089, by decide, by decide⟩

def secondFactor : UInt64ˣ := ⟨0x94d049bb133111eb, 0x319642b2d24d8ec3, by decide, by decide⟩

def primeFactor : UInt64ˣ := ⟨prime, 0xce965057aff6957b, by decide, by decide⟩

/-! ## Mixing -/

def mixing : Perm UInt64 :=
  (Equiv.addRight 0x9e3779b97f4a7c15).trans <| (shiftXor 30 (by decide)).trans <| firstFactor.mulRight.trans <|
    (shiftXor 27 (by decide)).trans <| secondFactor.mulRight.trans <| shiftXor 31 (by decide)

theorem coe_mixing : ⇑mixing = mix := rfl

/-! ## Absorbing -/

theorem involutive_xor (byte : UInt64) : Function.Involutive fun hash : UInt64 => hash ^^^ byte := by
  intro hash
  show hash ^^^ byte ^^^ byte = hash
  rw [UInt64.xor_assoc, UInt64.xor_self, UInt64.xor_zero]

def absorbing (byte : UInt64) : Perm UInt64 := (involutive_xor byte).toPerm.trans primeFactor.mulRight

theorem coe_absorbing (byte : UInt64) : ⇑(absorbing byte) = (absorbByte · byte) := rfl

theorem bijective_absorbBytes (bytes : List UInt64) : Function.Bijective fun hash => bytes.foldl absorbByte hash := by
  induction bytes with
  | nil => exact Function.bijective_id
  | cons byte rest ih =>
    have hbyte : Function.Bijective (absorbByte · byte) := coe_absorbing byte ▸ (absorbing byte).bijective
    exact ih.comp hbyte

/-- The state can be had back from the mixed word, so different states are mixed into different
    words. Whatever is absorbed, every hash comes of exactly one hash before it. -/
theorem mixing_is_lossless :
    (Function.LeftInverse mixing.symm mix ∧ Function.RightInverse mixing.symm mix) ∧
      (∀ state state', state ≠ state' → mix state ≠ mix state') ∧
      ∀ words, Function.Bijective fun hash => absorb hash words := by
  rw [← coe_mixing]
  refine ⟨⟨mixing.symm_apply_apply, mixing.apply_symm_apply⟩, fun state state' hne => ?_, fun words => ?_⟩
  · exact mixing.injective.ne hne
  · exact bijective_absorbBytes (words.flatMap bytes)

theorem mixing_is_lossless_zero :
    (0 : UInt64) ≠ 1 ∧ mix 0 = 0xe220a8397b1dcdaf ∧ mixing.symm 0xe220a8397b1dcdaf = 0 ∧
      mix 1 ≠ 0xe220a8397b1dcdaf := by
  have hmix : mix 0 = 0xe220a8397b1dcdaf := by decide
  have hne : (0 : UInt64) ≠ 1 := by decide
  obtain ⟨⟨hleft, -⟩, hmixed, -⟩ := mixing_is_lossless
  refine ⟨hne, hmix, ?_, ?_⟩
  · rw [← hmix]
    exact hleft 0
  · rw [← hmix]
    exact (hmixed 0 1 hne).symm

end RuleExpr.Draw
