/-
  RuleExpr.Proofs.Binary64.Packing — what packing keeps of a rounded number.

  A canonical number comes back from its bit pattern as it was, if its exponent fits
  (`unpack_pack`); else it has become infinite (`unpack_pack_overflow`).
-/

import RuleExpr.Proofs.Binary64.Value

namespace RuleExpr.Binary64

open Float.Model Float.Model.UnpackedFloat

theorem unpackSign_packComponents (s : Sign) (e : BitVec 11) (m : BitVec 52) :
    @unpackSign .binary64 (packComponents .binary64 s e m) = s.toBitVec := by
  have hsign : signBit = 2 ^ 63 := rfl
  have he := e.isLt
  have hm := m.isLt
  rw [← BitVec.toNat_inj, toNat_unpackSign, packComponents, BitVec.toNat_append, ← Nat.shiftLeft_add_eq_or_of_lt hm,
    BitVec.toNat_append, ← Nat.shiftLeft_add_eq_or_of_lt he, Nat.shiftLeft_eq, Nat.shiftLeft_eq, hsign]
  omega

theorem ofBitVec_toBitVec (s : Sign) : Sign.ofBitVec s.toBitVec = s := by
  cases s <;> rfl

theorem pack_overflow (s : Sign) {m : ℕ} {e : ℤ} (hm : 0 < m) (he : 971 < e) :
    UnpackedFloat.pack .binary64 (.finite s m e hm) = packedInfinity .binary64 s := by
  have hbias : Format.binary64.exponentBias = 1023 := rfl
  delta UnpackedFloat.pack
  dsimp only
  rw [if_pos]
  omega

theorem pack_full (s : Sign) {m : ℕ} {e : ℤ} (hm : 0 < m) (hfull : 2 ^ 52 ≤ m) (hbits : m < 2 ^ 53)
    (he : e ≤ 971) : UnpackedFloat.pack .binary64 (.finite s m e hm) =
      packComponents .binary64 s (.ofNat 11 (e + 1075).toNat) (.ofNat 52 m) := by
  have hbias : Format.binary64.exponentBias = 1023 := rfl
  have hlog : m.log2 = 52 := (Nat.log2_eq_iff (by omega)).mpr ⟨hfull, hbits⟩
  have hsum : e + (1023 : ℕ) + (52 : ℕ) = e + 1075 := by omega
  delta UnpackedFloat.pack
  dsimp only
  rw [if_neg, if_pos, hbias, hsum]
  · rw [hlog]
    rfl
  · omega

theorem pack_subnormal (s : Sign) {m : ℕ} (hm : 0 < m) (hbits : m < 2 ^ 52) :
    UnpackedFloat.pack .binary64 (.finite s m (-1074) hm) = packComponents .binary64 s 0#11 (.ofNat 52 m) := by
  have hbias : Format.binary64.exponentBias = 1023 := rfl
  have hformat : Format.binary64.mantissaBits = 53 := rfl
  have hlog : m.log2 < 52 := (Nat.log2_lt (by omega)).mpr hbits
  delta UnpackedFloat.pack
  dsimp only
  rw [if_neg, if_neg]
  · omega
  · omega

theorem finite_congr {s t : Sign} {m n : ℕ} {e f : ℤ} {hm : 0 < m} {hn : 0 < n} (hs : s = t) (h : m = n) (he : e = f) :
    UnpackedFloat.finite s m e hm = .finite t n f hn := by
  subst hs h he
  rfl

theorem unpack_full (s : Sign) {e m : ℕ} (he : 0 < e) (he' : e < 2047) (hm : m < 2 ^ 52) :
    UnpackedFloat.unpack .binary64 (packComponents .binary64 s (.ofNat 11 e) (.ofNat 52 m)) =
      .finite s (2 ^ 52 + m) (e - 1075) (by omega) := by
  have hbias : Format.binary64.exponentBias = 1023 := rfl
  have hexponent : (BitVec.ofNat 11 e).toNat = e := by
    rw [BitVec.toNat_ofNat, Nat.mod_eq_of_lt (by omega)]
  have hmantissa : (BitVec.ofNat 52 m).toNat = m := by
    rw [BitVec.toNat_ofNat, Nat.mod_eq_of_lt hm]
  have hones : BitVec.ofNat 11 e ≠ -1#_ := by
    rw [ne_eq, ← BitVec.toNat_inj, hexponent]
    exact he'.ne
  have hleast : BitVec.ofNat 11 e ≠ 0#_ := by
    rw [ne_eq, ← BitVec.toNat_inj, hexponent]
    exact he.ne'
  unfold UnpackedFloat.unpack
  dsimp only
  rw [unpackExponent_packComponents, if_neg hones, if_neg hleast]
  refine finite_congr ?_ ?_ ?_
  · rw [unpackSign_packComponents, ofBitVec_toBitVec]
  · rw [unpackMantissa_packComponents, toNat_hidden_append, hmantissa]
    rfl
  · rw [hexponent, hbias]
    rfl

theorem unpack_subnormal (s : Sign) {m : ℕ} (hpos : 0 < m) (hm : m < 2 ^ 52) :
    UnpackedFloat.unpack .binary64 (packComponents .binary64 s 0#11 (.ofNat 52 m)) = .finite s m (-1074) hpos := by
  have hmantissa : (BitVec.ofNat 52 m).toNat = m := by
    rw [BitVec.toNat_ofNat, Nat.mod_eq_of_lt hm]
  have hones : 0#11 ≠ -1#_ := by decide
  have hzero : BitVec.ofNat 52 m ≠ 0#_ := by
    rw [ne_eq, ← BitVec.toNat_inj, hmantissa]
    exact hpos.ne'
  unfold UnpackedFloat.unpack
  dsimp only
  rw [unpackExponent_packComponents, if_neg hones, if_pos rfl, dif_neg (by rwa [unpackMantissa_packComponents])]
  refine finite_congr ?_ ?_ rfl
  · rw [unpackSign_packComponents, ofBitVec_toBitVec]
  · rw [unpackMantissa_packComponents, hmantissa]

theorem unpack_packedZero (s : Sign) : UnpackedFloat.unpack .binary64 (packedZero .binary64 s) = .zero s := by
  have hones : (0 : BitVec 11) ≠ -1#_ := by decide
  have hleast : (0 : BitVec 11) = 0#_ := rfl
  have hzero : @unpackMantissa .binary64 (packComponents .binary64 s 0 0) = 0#_ := unpackMantissa_packComponents
  unfold UnpackedFloat.unpack packedZero
  dsimp only
  rw [unpackExponent_packComponents, if_neg hones, if_pos hleast, dif_pos hzero, unpackSign_packComponents,
    ofBitVec_toBitVec]

theorem unpack_packedInfinity (s : Sign) :
    UnpackedFloat.unpack .binary64 (packedInfinity .binary64 s) = .infinity s := by
  have hzero : @unpackMantissa .binary64 (packComponents .binary64 s (-1#_) 0) = 0#_ := unpackMantissa_packComponents
  unfold UnpackedFloat.unpack packedInfinity
  dsimp only
  rw [unpackExponent_packComponents, if_pos rfl, if_pos hzero, unpackSign_packComponents, ofBitVec_toBitVec]

theorem unpack_pack {u : UnpackedFloat} (hu : Canonical u) (h : ExponentLe 971 u) : (Float.Model.pack u).unpack = u := by
  show UnpackedFloat.unpack .binary64 (UnpackedFloat.pack .binary64 u) = u
  cases u with
  | infinity s => exact h.elim
  | notANumber => exact h.elim
  | zero s => exact unpack_packedZero s
  | finite s m e hm =>
    obtain ⟨hbits, hleast, hfull⟩ : Normalized m e := hu
    have he : e ≤ 971 := h
    by_cases hm52 : 2 ^ 52 ≤ m
    · have hmod : BitVec.ofNat 52 m = BitVec.ofNat 52 (m - 2 ^ 52) := by
        rw [← BitVec.toNat_inj, BitVec.toNat_ofNat, BitVec.toNat_ofNat, Nat.mod_eq_sub_mod hm52]
      rw [pack_full s hm hm52 hbits he, hmod, unpack_full s (by omega) (by omega) (by omega)]
      exact finite_congr rfl (by omega) (by omega)
    · obtain rfl := hfull.resolve_left hm52
      rw [pack_subnormal s hm (by omega), unpack_subnormal s hm (by omega)]

theorem unpack_pack_overflow (s : Sign) {m : ℕ} {e : ℤ} (hm : 0 < m) (he : 971 < e) :
    (Float.Model.pack (.finite s m e hm)).unpack = .infinity s := by
  show UnpackedFloat.unpack .binary64 (UnpackedFloat.pack .binary64 _) = _
  rw [pack_overflow s hm he, unpack_packedInfinity]

end RuleExpr.Binary64
