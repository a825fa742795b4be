import Mathlib.Data.Nat.Bitwise
import OpenPLC.OneWire.Ds18x20

/-! The temperature of a scratchpad.  A thermometer stores a two's complement number of sixteenths
of a degree, or of half degrees together with the rest of a count; `DS18X20_meas_to_cel` splits its
magnitude into degrees and sixteenths, without the bits that are not defined at the resolution. -/

namespace OpenPLC

namespace OneWire

/-- The first two bytes of a scratchpad. -/
def word (sp : List UInt8) : UInt16 := (sp.getD 0 0).toUInt16 ||| (sp.getD 1 0).toUInt16 <<< 8

/-- The two's complement number in them. -/
def raw (sp : List UInt8) : Int := (word sp).toInt16.toInt

/-- The temperature of a scratchpad in sixteenths of a degree: a DS18S20 counts half degrees, and
the rest of its count tells how far the temperature is from the degree below it less a quarter; a
DS18B20 counts in units of its resolution. -/
def temperature (fc : UInt8) (sp : List UInt8) : Int :=
  if fc = ds18s20Id then 16 * (raw sp / 2) + 12 - (sp.getD 6 0).toNat
  else if fc = ds18b20Id then
    let unit : Int := (undefinedBits (sp.getD 4 0)).toNat + 1
    unit * (raw sp).tdiv unit
  else raw sp

/-- The temperature of a measurement in sixteenths of a degree. -/
def Meas.sixteenths (m : Meas) : Int :=
  (if m.subzero then -1 else 1) * (16 * m.cel.toNat + m.celFracBits.toNat)

/-! ### Words -/

theorem toNat_and_not (x : UInt16) {u : UInt16} {k : Nat} (hu : u.toNat + 1 = 2 ^ k) :
    (x &&& ~~~u).toNat = x.toNat / 2 ^ k * 2 ^ k := by
  have hdisjoint : (x &&& u).toBitVec &&& (x &&& ~~~u).toBitVec = 0#16 := by
    ext i
    simp only [UInt16.toBitVec_and, UInt16.toBitVec_not, BitVec.getElem_and, BitVec.getElem_not,
      BitVec.getElem_zero]
    cases x.toBitVec[i] <;> simp
  have hunion : (x &&& u).toBitVec + (x &&& ~~~u).toBitVec = x.toBitVec := by
    rw [BitVec.add_eq_or_of_and_eq_zero _ _ hdisjoint]
    ext i
    simp only [UInt16.toBitVec_and, UInt16.toBitVec_not, BitVec.getElem_or, BitVec.getElem_and,
      BitVec.getElem_not]
    cases x.toBitVec[i] <;> simp
  have hsum : (x &&& u).toNat + (x &&& ~~~u).toNat = x.toNat := by
    have hnat := BitVec.toNat_add_of_and_eq_zero hdisjoint
    rw [hunion] at hnat
    exact hnat.symm
  have hlow : (x &&& u).toNat = x.toNat % 2 ^ k := by
    rw [UInt16.toNat_and, show u.toNat = 2 ^ k - 1 by omega, Nat.and_two_pow_sub_one_eq_mod]
  have hdiv := Nat.div_add_mod' x.toNat (2 ^ k)
  omega

theorem toInt_toInt16 (x : UInt16) :
    x.toInt16.toInt = if x.toNat < 32768 then (x.toNat : Int) else x.toNat - 65536 := by
  have hcond := BitVec.toInt_eq_toNat_cond x.toBitVec
  rw [show x.toInt16.toInt = x.toBitVec.toInt from rfl, hcond]
  have hlt : 2 * x.toBitVec.toNat < 2 ^ 16 ↔ x.toNat < 32768 := by
    rw [UInt16.toNat_toBitVec]
    omega
  simp only [hlt]
  rfl

theorem and_sign_eq_zero (x : UInt16) : x &&& 0x8000 = 0 ↔ x.toNat < 32768 := by
  have hlt := x.toNat_lt
  rw [← UInt16.toNat_inj, UInt16.toNat_and, show (0x8000 : UInt16).toNat = 2 ^ 15 from rfl,
    Nat.and_two_pow, Nat.testBit_eq_decide_div_mod_eq]
  by_cases hx : x.toNat < 32768
  · simp [hx, Nat.div_eq_of_lt hx]
  · have hdiv : x.toNat / 2 ^ 15 = 1 := by omega
    rw [hdiv]
    exact iff_of_false (by decide) hx

/-- The sign is cleared as `DS18X20_meas_to_cel` does it. -/
theorem toNat_magnitude (x : UInt16) :
    (if x &&& 0x8000 ≠ 0 then (x ^^^ 0xffff) + 1 else x).toNat = x.toInt16.toInt.natAbs := by
  have hneg : (x ^^^ 0xffff) + 1 = -x := by
    apply UInt16.eq_of_toBitVec_eq
    rw [UInt16.toBitVec_add, UInt16.toBitVec_xor, UInt16.toBitVec_neg, BitVec.neg_eq_not_add,
      ← BitVec.xor_allOnes]
    rfl
  have hlt := x.toNat_lt
  rw [toInt_toInt16, hneg]
  by_cases hx : x.toNat < 32768
  · rw [if_neg (not_not.mpr ((and_sign_eq_zero x).mpr hx)), if_pos hx]
    rfl
  · rw [if_pos (mt (and_sign_eq_zero x).mp hx), if_neg hx, UInt16.toNat_neg]
    simp only [UInt16.size]
    omega

/-! ### The measurement -/

theorem undefinedBits_add_one (conf : UInt8) : ∃ k ≤ 3, (undefinedBits conf).toNat + 1 = 2 ^ k := by
  unfold undefinedBits
  split_ifs
  · exact ⟨0, by omega, rfl⟩
  · exact ⟨1, by omega, rfl⟩
  · exact ⟨2, by omega, rfl⟩
  · exact ⟨3, by omega, rfl⟩

/-- The number of a DS18S20 after the correction, when it fits. -/
theorem toInt_extended {x : UInt16} {rest : UInt8} {t : Int}
    (ht : t = 16 * (x.toInt16.toInt / 2) + 12 - rest.toNat) (hfits : t.natAbs < 4096) :
    ((x &&& 0xfffe) <<< 3 + (16 - rest.toUInt16 - 4)).toInt16.toInt = t := by
  have heven : (x &&& 0xfffe).toNat = x.toNat / 2 * 2 := toNat_and_not x (u := 1) (k := 1) rfl
  have hx := x.toNat_lt
  have hrest := rest.toNat_lt
  have hmod : (((x &&& 0xfffe) <<< 3 + (16 - rest.toUInt16 - 4)).toNat : Int) =
      (8 * (x.toNat / 2 * 2) + 12 - rest.toNat : Int) % 65536 := by
    rw [UInt16.toNat_add, UInt16.toNat_shiftLeft, heven, UInt16.toNat_sub, UInt16.toNat_sub,
      UInt8.toNat_toUInt16]
    simp only [UInt16.reduceToNat, Nat.reduceMod, Nat.shiftLeft_eq]
    omega
  rw [toInt_toInt16] at ht ⊢
  split at ht <;> split <;> omega

/-- The number that `DS18X20_meas_to_cel` splits. -/
def extended (fc : UInt8) (sp : List UInt8) : UInt16 :=
  if fc = ds18s20Id then (word sp &&& 0xfffe) <<< 3 + (16 - (sp.getD 6 0).toUInt16 - 4) else word sp

theorem decide_sign (x : UInt16) : decide (x &&& 0x8000 ≠ 0) = decide (x.toInt16.toInt < 0) := by
  have hlt := x.toNat_lt
  refine decide_eq_decide.mpr ((not_congr (and_sign_eq_zero x)).trans ?_)
  rw [toInt_toInt16]
  split <;> omega

theorem subzero_measToCel (fc : UInt8) (sp : List UInt8) :
    (measToCel fc sp).subzero = decide ((extended fc sp).toInt16.toInt < 0) :=
  decide_sign (extended fc sp)

theorem maalt_measToCel {fc : UInt8} {sp : List UInt8} {k : Nat}
    (hk : (if fc = ds18b20Id then undefinedBits (sp.getD 4 0) else 0).toNat + 1 = 2 ^ k) :
    (measToCel fc sp).maalt.toNat = (extended fc sp).toInt16.toInt.natAbs / 2 ^ k * 2 ^ k := by
  rw [← toNat_magnitude, ← toNat_and_not _ hk]
  by_cases hb20 : fc = ds18b20Id
  · simp only [measToCel, hb20, ↓reduceIte]
    rfl
  · simp only [measToCel, hb20, ↓reduceIte]
    rw [show ~~~(0 : UInt16) = -1 from rfl, UInt16.and_neg_one]
    rfl

/-- The bits that are left at the resolution of a DS18B20, and the number that they are of. -/
theorem exists_temperature {fc : UInt8} {sp : List UInt8}
    (hfits : (temperature fc sp).natAbs < 4096) :
    ∃ k, (if fc = ds18b20Id then undefinedBits (sp.getD 4 0) else 0).toNat + 1 = 2 ^ k ∧
      temperature fc sp = 2 ^ k * (extended fc sp).toInt16.toInt.tdiv (2 ^ k) := by
  by_cases hs20 : fc = ds18s20Id
  · subst hs20
    have ht : temperature ds18s20Id sp = 16 * (raw sp / 2) + 12 - (sp.getD 6 0).toNat := rfl
    refine ⟨0, rfl, ?_⟩
    rw [pow_zero, Int.tdiv_one, one_mul]
    exact (toInt_extended ht hfits).symm
  · have hext : extended fc sp = word sp := if_neg hs20
    by_cases hb20 : fc = ds18b20Id
    · subst hb20
      obtain ⟨k, -, hk⟩ := undefinedBits_add_one (sp.getD 4 0)
      refine ⟨k, hk, ?_⟩
      have hcast : ((undefinedBits (sp.getD 4 0)).toNat : Int) + 1 = 2 ^ k := by exact_mod_cast hk
      rw [hext, ← hcast]
      rfl
    · refine ⟨0, by simp [hb20], ?_⟩
      rw [pow_zero, Int.tdiv_one, one_mul, hext, temperature, if_neg hs20, if_neg hb20, raw]

theorem temperature_of_maalt {fc : UInt8} {sp : List UInt8}
    (hfits : (temperature fc sp).natAbs < 4096) :
    temperature fc sp = if (measToCel fc sp).subzero then -((measToCel fc sp).maalt.toNat : Int)
      else (measToCel fc sp).maalt.toNat := by
  obtain ⟨k, hk, ht⟩ := exists_temperature hfits
  simp only [ht, maalt_measToCel hk, subzero_measToCel, decide_eq_true_eq]
  generalize (extended fc sp).toInt16.toInt = v
  have htdiv (n : Nat) : (n : Int).tdiv (2 ^ k) = (n / 2 ^ k : Nat) := by
    rw [Int.natCast_tdiv_eq_ediv]
    push_cast
    rfl
  obtain ⟨n, rfl | rfl⟩ := v.eq_nat_or_neg
  · rw [if_neg (by omega), Int.natAbs_natCast, htdiv, Nat.mul_comm]
    push_cast
    rfl
  · rw [Int.natAbs_neg, Int.natAbs_natCast, Int.neg_tdiv, htdiv]
    by_cases hzero : n = 0
    · simp [hzero]
    · rw [if_pos (by omega), mul_neg, Nat.mul_comm]
      push_cast
      rfl

theorem cel_measToCel (fc : UInt8) (sp : List UInt8) :
    (measToCel fc sp).cel.toNat = (measToCel fc sp).maalt.toNat / 16 % 256 := by
  rw [show (measToCel fc sp).cel = ((measToCel fc sp).maalt >>> 4).toUInt8 from rfl,
    UInt16.toNat_toUInt8, UInt16.toNat_shiftRight, Nat.shiftRight_eq_div_pow]
  rfl

theorem celFracBits_measToCel (fc : UInt8) (sp : List UInt8) :
    (measToCel fc sp).celFracBits.toNat = (measToCel fc sp).maalt.toNat % 16 := by
  rw [show (measToCel fc sp).celFracBits = ((measToCel fc sp).maalt &&& 0x000f).toUInt8 from rfl,
    UInt16.toNat_toUInt8, UInt16.toNat_and, show (0x000f : UInt16).toNat = 2 ^ 4 - 1 from rfl,
    Nat.and_two_pow_sub_one_eq_mod]
  omega

/-- `DS18X20_meas_to_cel` finds the temperature, as long as its degrees fit a byte. -/
theorem measToCel_temperature {fc : UInt8} {sp : List UInt8}
    (hfits : (temperature fc sp).natAbs < 4096) :
    (measToCel fc sp).sixteenths = temperature fc sp := by
  have ht := temperature_of_maalt hfits
  have hcel := cel_measToCel fc sp
  have hfrac := celFracBits_measToCel fc sp
  rw [Meas.sixteenths, ht]
  split <;> split at ht <;> omega

theorem toNat_tempToDecicel (subzero : Bool) (cel : UInt8) {celFracBits : UInt8}
    (hfrac : celFracBits.toNat < 16) :
    (tempToDecicel subzero cel celFracBits).toNat = 10 * cel.toNat +
      (10 * celFracBits.toNat + if subzero then 0 else 8) / 16 := by
  have htable : ∀ f < 16, f * 625 / 1000 = 10 * f / 16 ∧
      (f * 625 / 1000 +
        if [1, 3, 4, 6, 9, 11, 12, 14].contains (UInt8.ofNat f) then 1 else 0) =
        (10 * f + 8) / 16 := by
    decide
  obtain ⟨htrunc, hround⟩ := htable celFracBits.toNat hfrac
  rw [UInt8.ofNat_toNat] at hround
  have hcel := cel.toNat_lt
  have hh : (UInt16.ofNat (celFracBits.toNat * 625 / 1000) + cel.toUInt16 * 10).toNat =
      celFracBits.toNat * 625 / 1000 + cel.toNat * 10 := by
    rw [UInt16.toNat_add, UInt16.toNat_mul, UInt16.toNat_ofNat', UInt8.toNat_toUInt16,
      show (10 : UInt16).toNat = 10 from rfl]
    omega
  cases subzero
  · by_cases hmem : [1, 3, 4, 6, 9, 11, 12, 14].contains celFracBits
    · rw [if_pos hmem] at hround
      rw [tempToDecicel, if_pos (by rw [hmem]; rfl), UInt16.toNat_add, hh,
        show (1 : UInt16).toNat = 1 from rfl, if_neg (by decide)]
      omega
    · rw [if_neg hmem] at hround
      rw [tempToDecicel, if_neg (by simpa using hmem), hh, if_neg (by decide)]
      omega
  · rw [tempToDecicel, if_neg (by simp), hh, if_pos rfl]
    omega

theorem tempToDecicel_measToCel {fc : UInt8} {sp : List UInt8}
    (hfits : (temperature fc sp).natAbs < 4096) :
    let m := measToCel fc sp
    ((tempToDecicel m.subzero m.cel m.celFracBits).toNat : Int) =
      if 0 ≤ temperature fc sp then (10 * temperature fc sp + 8) / 16
      else 10 * -temperature fc sp / 16 := by
  intro m
  have ht : m.sixteenths = temperature fc sp := measToCel_temperature hfits
  have hfrac : m.celFracBits.toNat < 16 := by
    rw [celFracBits_measToCel]
    omega
  rw [toNat_tempToDecicel _ _ hfrac, ← ht, Meas.sixteenths]
  generalize m.cel.toNat = cel, m.celFracBits.toNat = frac at hfrac
  cases m.subzero
  · simp only [Bool.false_eq_true, ↓reduceIte]
    rw [if_pos (by omega)]
    omega
  · simp only [↓reduceIte]
    split
    · have hzero : cel = 0 ∧ frac = 0 := by omega
      simp [hzero]
    · omega

/-- The measurement of a scratchpad is its temperature; its tenths of a degree are those of the
temperature, rounded above zero and cut off below. -/
theorem measToCel_correct {fc : UInt8} {sp : List UInt8}
    (hfits : (temperature fc sp).natAbs < 4096) :
    let m := measToCel fc sp
    m.sixteenths = temperature fc sp ∧
      ((tempToDecicel m.subzero m.cel m.celFracBits).toNat : Int) =
        if 0 ≤ temperature fc sp then (10 * temperature fc sp + 8) / 16
        else 10 * -temperature fc sp / 16 :=
  ⟨measToCel_temperature hfits, tempToDecicel_measToCel hfits⟩

/-- Half a degree below zero. -/
theorem measToCel_correct_subzero :
    let m := measToCel ds18b20Id [0xf8, 0xff, 0x4b, 0x46, 0x7f, 0xff, 0x0f, 0x10, 0x96]
    m.sixteenths = -8 ∧ (tempToDecicel m.subzero m.cel m.celFracBits).toNat = (5 : Int) :=
  @measToCel_correct ds18b20Id [0xf8, 0xff, 0x4b, 0x46, 0x7f, 0xff, 0x0f, 0x10, 0x96] (by decide)

end OneWire

end OpenPLC
