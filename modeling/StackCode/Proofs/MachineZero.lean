import StackCode.Proofs.AffineFolding

/-!
# Negating machine numbers

Negation unpacks a machine number, turns its sign around and packs the result again. Packing does
not look at what it stores: a significand that is too long loses its leading bits, and an exponent
that is too small is left out. A number that was unpacked is neither, so it is packed again without
loss, and only a zero is negated to a zero.
-/

namespace StackCode

namespace Binary64

open Float.Model

/-- A significand and an exponent that can be stored without loss. -/
structure Packable (m : Nat) (e : Int) : Prop where
  significand : m.log2 < 53
  exponent : -1074 ≤ e

/-- A significand with its leading bit set is not zero. -/
theorem leading_bit_pos (mantissa : BitVec 52) : 0 < (1#1 ++ mantissa).toNat := by
  rw [BitVec.toNat_append]
  exact Nat.lt_of_lt_of_le (by decide) Nat.left_le_or

/-- A stored number is not a number, infinite, a zero without exponent and mantissa, or can be
stored again without loss. -/
theorem unpack_cases (b : BitVec Format.binary64.numBits) :
    UnpackedFloat.unpack .binary64 b = .notANumber ∨
    (∃ sign, UnpackedFloat.unpack .binary64 b = .infinity sign) ∨
    (UnpackedFloat.unpackExponent b = 0#11 ∧ UnpackedFloat.unpackMantissa b = 0#52 ∧
      ∃ sign, UnpackedFloat.unpack .binary64 b = .zero sign) ∨
    ∃ sign m e hm, UnpackedFloat.unpack .binary64 b = .finite sign m e hm ∧ Packable m e := by
  have hbias : Format.binary64.exponentBias = 1023 := rfl
  unfold UnpackedFloat.unpack
  dsimp only
  by_cases hones : UnpackedFloat.unpackExponent b = -1#11
  · rw [if_pos hones]
    by_cases hmantissa : UnpackedFloat.unpackMantissa b = 0#52
    · exact Or.inr (Or.inl ⟨_, if_pos hmantissa⟩)
    · exact Or.inl (if_neg hmantissa)
  · rw [if_neg hones]
    by_cases hexponent : UnpackedFloat.unpackExponent b = 0#11
    · rw [if_pos hexponent]
      by_cases hmantissa : UnpackedFloat.unpackMantissa b = 0#52
      · exact Or.inr (Or.inr (Or.inl ⟨hexponent, hmantissa, _, dif_pos hmantissa⟩))
      · have hlt : (UnpackedFloat.unpackMantissa b).toNat < 2 ^ 52 := BitVec.isLt _
        have hpos : 0 < (UnpackedFloat.unpackMantissa b).toNat :=
          Nat.pos_of_ne_zero fun h => hmantissa (BitVec.eq_of_toNat_eq h)
        refine Or.inr (Or.inr (Or.inr ⟨_, _, _, hpos, dif_neg hmantissa, ⟨?_, ?_⟩⟩))
        · exact (Nat.log2_lt hpos.ne').mpr (by omega)
        · omega
    · rw [if_neg hexponent]
      have hlt : (1#1 ++ UnpackedFloat.unpackMantissa b).toNat < 2 ^ 53 := BitVec.isLt _
      have hfield : (UnpackedFloat.unpackExponent b).toNat ≠ 0 := fun h =>
        hexponent (BitVec.eq_of_toNat_eq h)
      refine Or.inr (Or.inr (Or.inr ⟨_, _, _, leading_bit_pos _, rfl, ⟨?_, ?_⟩⟩))
      · exact (Nat.log2_lt (leading_bit_pos _).ne').mpr hlt
      · omega

/-- A number that can be stored is stored with an exponent or a mantissa. -/
theorem fields_pack_finite {m : Nat} {e : Int} (h : Packable m e) (hm : 0 < m)
    (sign : UnpackedFloat.Sign) :
    UnpackedFloat.unpackExponent (UnpackedFloat.pack .binary64 (.finite sign m e hm)) ≠ 0#11 ∨
      UnpackedFloat.unpackMantissa (UnpackedFloat.pack .binary64 (.finite sign m e hm)) ≠ 0#52 := by
  obtain ⟨hlog, hexponent⟩ := h
  have hbias : Format.binary64.exponentBias = 1023 := rfl
  unfold UnpackedFloat.pack
  dsimp only
  by_cases hlarge : 2 ^ 11 ≤ (e + Format.binary64.exponentBias + (52 : Nat)).toNat + 1
  · rw [if_pos hlarge, UnpackedFloat.packedInfinity, UnpackedFloat.unpackExponent_packComponents]
    exact Or.inl (by decide)
  · rw [if_neg hlarge]
    by_cases hnormal : m.log2 + 1 = Format.binary64.mantissaBits
    · rw [if_pos hnormal, UnpackedFloat.unpackExponent_packComponents]
      left
      intro hzero
      have hfield := congrArg BitVec.toNat hzero
      change (e + Format.binary64.exponentBias + (52 : Nat)).toNat % 2 ^ 11 = 0 at hfield
      omega
    · rw [if_neg hnormal, UnpackedFloat.unpackMantissa_packComponents]
      right
      intro hzero
      have hfield := congrArg BitVec.toNat hzero
      change m % 2 ^ 52 = 0 at hfield
      change ¬m.log2 + 1 = 53 at hnormal
      have hlt : m < 2 ^ 52 := (Nat.log2_lt hm.ne').mp (by omega)
      omega

/-- A number that can be stored is not stored as a zero. -/
theorem unpack_pack_finite_ne_zero {m : Nat} {e : Int} (h : Packable m e) (hm : 0 < m)
    (s t : UnpackedFloat.Sign) : (pack (.finite s m e hm)).unpack ≠ .zero t := by
  intro hzero
  change UnpackedFloat.unpack .binary64
    (UnpackedFloat.pack .binary64 (.finite s m e hm)) = _ at hzero
  obtain hcase | ⟨_, hcase⟩ | ⟨hexponent, hmantissa, -⟩ | ⟨_, _, _, _, hcase, -⟩ :=
    unpack_cases (UnpackedFloat.pack .binary64 (.finite s m e hm))
  · exact absurd (hcase.symm.trans hzero) nofun
  · exact absurd (hcase.symm.trans hzero) nofun
  · exact (fields_pack_finite h hm s).elim (absurd hexponent) (absurd hmantissa)
  · exact absurd (hcase.symm.trans hzero) nofun

/-- Only a zero is negated to a zero. -/
theorem isZero_of_isZero_neg {x : Float} (h : Arithmetic.isZero (Arithmetic.neg x) = true) :
    Arithmetic.isZero x = true := by
  obtain ⟨sign, hsign⟩ := isZero_iff.mp h
  change (pack x.toModel.unpack.neg).unpack = .zero sign at hsign
  apply isZero_iff.mpr
  obtain hcase | ⟨s, hcase⟩ | ⟨-, -, hcase⟩ | ⟨s, m, e, hm, hcase, hpackable⟩ :=
    unpack_cases x.toModel.toBits.toBitVec
  · change x.toModel.unpack = _ at hcase
    rw [hcase] at hsign
    exact absurd hsign nofun
  · change x.toModel.unpack = _ at hcase
    rw [hcase] at hsign
    cases s <;> exact absurd hsign nofun
  · exact hcase
  · change x.toModel.unpack = _ at hcase
    rw [hcase] at hsign
    exact absurd hsign (unpack_pack_finite_ne_zero hpackable hm (-s) sign)

end Binary64

end StackCode
