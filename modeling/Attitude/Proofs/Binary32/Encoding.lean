import Attitude.Proofs.Binary32.Rounding

/-!
# Binary32 numbers as unpacked numbers

A number of `Float32` is packed into a word. `unpack` reads it, `encode` writes an unpacked number,
and a canonical number whose exponent fits comes back unchanged; with a larger exponent it becomes an
infinity. `toReal` is the real number that a finite one stands for.
-/

namespace Attitude.Binary32
open Float.Model Float.Model.UnpackedFloat

/-- Sign, mantissa and exponent of a number. -/
def unpack (x : Float32) : UnpackedFloat := x.toModel.unpack

/-- The number with given sign, mantissa and exponent. -/
def encode (u : UnpackedFloat) : Float32 := .ofModel (.pack u)

/-- The real number that a finite number stands for. -/
noncomputable def toReal (x : Float32) : ℝ := value (unpack x)

/-! ## Fields -/

/-- A number by its sign and the numbers in its exponent field and its mantissa field: the special
values, zero and the subnormal numbers, and the normal numbers. -/
def ofFields (s : Sign) (e m : ℕ) : UnpackedFloat :=
  if e = 255 then if m = 0 then .infinity s else .notANumber
  else if e = 0 then if h : m = 0 then .zero s else .finite s m (-149) (Nat.pos_of_ne_zero h)
  else .finite s (2 ^ 23 + m) (e - 150) (by positivity)

/-- The implicit bit of a normal number. -/
theorem toNat_implicit (m : BitVec 23) : (1#1 ++ m).toNat = 2 ^ 23 + m.toNat := by
  rw [BitVec.toNat_append, ← Nat.shiftLeft_add_eq_or_of_lt m.isLt, Nat.shiftLeft_eq]
  rfl

theorem unpack_eq_ofFields (b : BitVec 32) : UnpackedFloat.unpack Format.binary32 b =
    ofFields (Sign.ofBitVec (@unpackSign Format.binary32 b))
      (@unpackExponent Format.binary32 b).toNat
      (@unpackMantissa Format.binary32 b).toNat := by
  simp only [UnpackedFloat.unpack]
  obtain ⟨e, he⟩ : ∃ e : BitVec 8, @unpackExponent Format.binary32 b = e := ⟨_, rfl⟩
  have hbias : ((Format.binary32.exponentBias : ℤ) + Format.binary32.mantissaBitsWithoutImplicit)
      = 150 := rfl
  have hspecial : e = -1#8 ↔ e.toNat = 255 := BitVec.toNat_inj.symm
  have hzero : e = 0#8 ↔ e.toNat = 0 := BitVec.toNat_inj.symm
  have hmantissa : @unpackMantissa Format.binary32 b = 0#23 ↔
      (@unpackMantissa Format.binary32 b).toNat = 0 := BitVec.toNat_inj.symm
  rw [ofFields]
  rw [hbias, he]
  by_cases h₁ : e.toNat = 255
  · rw [if_pos (hspecial.mpr h₁), if_pos h₁]
    by_cases h₂ : (@unpackMantissa Format.binary32 b).toNat = 0
    · rw [if_pos (hmantissa.mpr h₂), if_pos h₂]
    · rw [if_neg (mt hmantissa.mp h₂), if_neg h₂]
  · rw [if_neg (mt hspecial.mp h₁), if_neg h₁]
    by_cases h₂ : e.toNat = 0
    · rw [if_pos (hzero.mpr h₂), if_pos h₂]
      by_cases h₃ : (@unpackMantissa Format.binary32 b).toNat = 0
      · rw [dif_pos (hmantissa.mpr h₃), dif_pos h₃]
      · rw [dif_neg (mt hmantissa.mp h₃), dif_neg h₃]
        congr 1
        rw [h₂]
        rfl
    · rw [if_neg (mt hzero.mp h₂), if_neg h₂]
      congr 1
      exact toNat_implicit _

theorem sign_packComponents (s : Sign) (e : BitVec 8) (m : BitVec 23) :
    Sign.ofBitVec (unpackSign (packComponents Format.binary32 s e m)) = s := by
  have hbits : unpackSign (packComponents Format.binary32 s e m) = s.toBitVec := by
    ext i hi
    obtain rfl : i = 0 := by omega
    rw [unpackSign, packComponents]
    simp only [BitVec.getElem_cast, BitVec.extractLsb, BitVec.getElem_extractLsb']
    change BitVec.getLsbD ((s.toBitVec ++ e : BitVec 9) ++ m : BitVec 32) 31 = s.toBitVec.getLsbD 0
    rw [BitVec.getLsbD_append, BitVec.getLsbD_append]
    rfl
  rw [hbits]
  cases s <;> rfl

/-- What is read from a word that was put together from its fields. -/
theorem unpack_packComponents (s : Sign) {e m : ℕ} (he : e < 256) :
    UnpackedFloat.unpack Format.binary32 (packComponents Format.binary32 s (BitVec.ofNat 8 e)
      (BitVec.ofNat 23 m)) = ofFields s e (m % 2 ^ 23) := by
  rw [unpack_eq_ofFields, sign_packComponents, unpackExponent_packComponents,
    unpackMantissa_packComponents, BitVec.toNat_ofNat, BitVec.toNat_ofNat]
  exact congrArg (ofFields s · (m % 2 ^ 23)) (Nat.mod_eq_of_lt he)

/-- The fields of a word hold a canonical number whose exponent fits. -/
theorem canonical_ofFields (s : Sign) {e m : ℕ} (he : e < 256) (hm : m < 2 ^ 23) :
    Canonical (ofFields s e m) ∧ ∀ s' m' e' h', ofFields s e m = .finite s' m' e' h' → e' ≤ 104 := by
  rw [ofFields]
  split
  · split
    · exact ⟨trivial, by rintro _ _ _ _ ⟨⟩⟩
    · exact ⟨trivial, by rintro _ _ _ _ ⟨⟩⟩
  · split
    · split
      · exact ⟨trivial, by rintro _ _ _ _ ⟨⟩⟩
      · refine ⟨⟨by omega, le_rfl, .inr rfl⟩, ?_⟩
        rintro _ _ _ _ ⟨⟩
        norm_num
    · refine ⟨⟨by omega, by omega, .inl (by omega)⟩, ?_⟩
      rintro _ _ _ _ ⟨⟩
      omega

/-! ## Reading -/

theorem canonical_unpack (x : Float32) : Canonical (unpack x) := by
  rw [unpack, Float32.Model.unpack]
  rw [unpack_eq_ofFields]
  exact (canonical_ofFields _ (BitVec.isLt _) (BitVec.isLt _)).1

theorem exponent_le_of_unpack {x : Float32} {s : Sign} {m : ℕ} {e : ℤ} {hm : 0 < m}
    (h : unpack x = .finite s m e hm) : e ≤ 104 := by
  rw [unpack, Float32.Model.unpack] at h
  rw [unpack_eq_ofFields] at h
  exact (canonical_ofFields _ (BitVec.isLt _) (BitVec.isLt _)).2 _ _ _ _ h

/-! ## Writing -/

theorem unpack_encode_eq (u : UnpackedFloat) : unpack (encode u) =
    UnpackedFloat.unpack Format.binary32 (UnpackedFloat.pack Format.binary32 u) := rfl

theorem unpack_encode_infinity (s : Sign) : unpack (encode (.infinity s)) = .infinity s := by
  cases s <;> rfl

theorem unpack_encode_notANumber : unpack (encode .notANumber) = .notANumber := rfl

theorem unpack_encode_zero (s : Sign) : unpack (encode (.zero s)) = .zero s := by
  cases s <;> rfl

/-- Writing a finite number, by its biased exponent. -/
theorem pack_finite (s : Sign) (m : ℕ) (e : ℤ) (hm : 0 < m) :
    UnpackedFloat.pack Format.binary32 (.finite s m e hm) =
      if 256 ≤ (e + 150).toNat + 1 then packedInfinity Format.binary32 s
      else if m.log2 + 1 = 24 then
        packComponents Format.binary32 s (BitVec.ofNat 8 (e + 150).toNat) (BitVec.ofNat 23 m)
      else packComponents Format.binary32 s (BitVec.ofNat 8 0) (BitVec.ofNat 23 m) := by
  have hbias : e + Format.binary32.exponentBias + Format.binary32.mantissaBitsWithoutImplicit
      = e + 150 := add_assoc e 127 23
  simp only [UnpackedFloat.pack]
  rw [hbias]
  rfl

/-- A canonical number whose exponent fits is read as it was written. -/
theorem unpack_encode_finite {s : Sign} {m : ℕ} {e : ℤ} {hm : 0 < m}
    (h : Canonical (.finite s m e hm)) (he : e ≤ 104) :
    unpack (encode (.finite s m e hm)) = .finite s m e hm := by
  obtain ⟨hlt, hleast, hfull⟩ := h
  rw [unpack_encode_eq, pack_finite, if_neg (by omega)]
  by_cases hnormal : m.log2 + 1 = 24
  · have hge : 2 ^ 23 ≤ m := (Nat.le_log2 hm.ne').mp (by omega)
    rw [if_pos hnormal, unpack_packComponents s (by omega)]
    rw [ofFields]
    rw [if_neg (by omega), if_neg (by omega)]
    congr 1
    · omega
    · omega
  · have hsub : m < 2 ^ 23 := by
      have hlog : m.log2 < 24 := (Nat.log2_lt hm.ne').mpr hlt
      exact (Nat.log2_lt hm.ne').mp (by omega)
    rw [if_neg hnormal, unpack_packComponents s (by norm_num), Nat.mod_eq_of_lt hsub]
    rw [ofFields]
    rw [if_neg (by norm_num), if_pos rfl, dif_neg hm.ne']
    congr 1
    exact (hfull.resolve_left (by omega)).symm

/-- A larger exponent overflows. -/
theorem unpack_encode_overflow {s : Sign} {m : ℕ} {e : ℤ} {hm : 0 < m} (he : 105 ≤ e) :
    unpack (encode (.finite s m e hm)) = .infinity s := by
  rw [unpack_encode_eq, pack_finite, if_pos (by omega)]
  exact unpack_encode_infinity s

end Attitude.Binary32
