import Mathlib.Tactic.IntervalCases
import Mathlib.Tactic.Linarith
import Mathlib.Tactic.Ring

/-!
# Powers of two in fixed-point arithmetic (`FixedPointPowerOfTwo`)

The exponent is split into an integral part and a fraction, and a polynomial approximates the power of the fraction.
Its roundings make the result smaller at some steps, but only by one part in 2963.
-/

namespace Catapult.Chain

/-- The highest coefficients of the polynomial. -/
def slope (f : Int) : Int := (0x00000E20 * f + 0x3E1CC333).tdiv 131072

def factor (f : Int) : Int := (slope f * f + 0x58BD46A6).tdiv 65536

def polynomial (f : Int) : Int := factor f * f + 0x7FFDE4A3

/-- The exponent and the result have 16 binary places. Without the low bits of the exponent, the rest is `i`. -/
def fixedPointPowerOfTwo (value : Int) : Nat :=
  let i := value + 0x8000 - (value + 0x8000) % 0x10000
  let f := value - i
  let s := (15 * 2 ^ 16 - i).tdiv 65536
  (polynomial f % 2 ^ 32).toNat / 2 ^ s.toNat

/-- The fractions are rounded to the nearest integer, upwards from one half. -/
def IsFraction (f : Int) : Prop := -32768 ≤ f ∧ f < 32768

section Polynomial
variable {f g : Int}

theorem slope_spec (hf : IsFraction f) :
    131072 * slope f ≤ 3616 * f + 1042072371 ∧ 3616 * f + 1042072371 < 131072 * (slope f + 1) := by
  obtain ⟨hlow, hhigh⟩ := hf
  rw [slope, Int.tdiv_eq_ediv_of_nonneg (by omega)]
  omega

theorem slope_bounds (hf : IsFraction f) : 7046 ≤ slope f ∧ slope f ≤ 8854 := by
  obtain ⟨hle, hlt⟩ := slope_spec hf
  obtain ⟨hlow, hhigh⟩ := hf
  omega

theorem slope_mono (hf : IsFraction f) (hg : IsFraction g) (h : f ≤ g) : slope f ≤ slope g := by
  have hfspec := slope_spec hf
  have hgspec := slope_spec hg
  omega

theorem slope_mul_bounds (hf : IsFraction f) : -290127872 ≤ slope f * f ∧ slope f * f ≤ 290127872 := by
  obtain ⟨hle, hge⟩ := slope_bounds hf
  obtain ⟨hlow, hhigh⟩ := hf
  constructor <;> nlinarith

theorem factor_spec (hf : IsFraction f) :
    65536 * factor f ≤ slope f * f + 1488799398 ∧ slope f * f + 1488799398 < 65536 * (factor f + 1) := by
  obtain ⟨hlow, hhigh⟩ := slope_mul_bounds hf
  rw [factor, Int.tdiv_eq_ediv_of_nonneg (by omega)]
  omega

theorem factor_bounds (hf : IsFraction f) : 18290 ≤ factor f ∧ factor f ≤ 27144 := by
  obtain ⟨hle, hlt⟩ := factor_spec hf
  obtain ⟨hlow, hhigh⟩ := slope_mul_bounds hf
  omega

theorem polynomial_mono (hf : IsFraction f) (hg : IsFraction g) (hzero : 0 ≤ f) (h : f ≤ g) :
    polynomial f ≤ polynomial g := by
  have hslope : slope f * f ≤ slope g * g :=
    mul_le_mul (slope_mono hf hg h) h hzero (by have hbounds := slope_bounds hg; omega)
  have hfactor : factor f ≤ factor g := by
    have hfspec := factor_spec hf
    have hgspec := factor_spec hg
    omega
  have hproduct : factor f * f ≤ factor g * g :=
    mul_le_mul hfactor h hzero (by have hbounds := factor_bounds hg; omega)
  rw [polynomial, polynomial]
  omega

theorem factor_sub_le (hf : IsFraction f) (hg : IsFraction g) (hzero : g ≤ 0) (h : f ≤ g) :
    65536 * (factor g - factor f) ≤ 7951 * (g - f) + 65535 := by
  have hslope : slope g * g - slope f * f ≤ slope f * (g - f) := by
    have hproduct : slope g * g ≤ slope f * g := mul_le_mul_of_nonpos_right (slope_mono hf hg h) hzero
    calc slope g * g - slope f * f ≤ slope f * g - slope f * f := by omega
      _ = slope f * (g - f) := by ring
  have hsteep : slope f * (g - f) ≤ 7951 * (g - f) := by
    refine mul_le_mul_of_nonneg_right ?_ (by omega)
    have hspec := slope_spec hf
    omega
  have hfspec := factor_spec hf
  have hgspec := factor_spec hg
  omega

theorem polynomial_almost_mono (hf : IsFraction f) (hg : IsFraction g) (h : f ≤ g) :
    polynomial f ≤ polynomial g + 18454 := by
  rcases le_or_gt 0 f with hpos | hneg
  · have hmono := polynomial_mono hf hg hpos h
    omega
  have hfbounds := factor_bounds hf
  have hgbounds := factor_bounds hg
  rcases le_or_gt 0 g with hgpos | hgneg
  · have hlow : factor f * f ≤ 0 := mul_nonpos_of_nonneg_of_nonpos (by omega) hneg.le
    have hhigh : 0 ≤ factor g * g := mul_nonneg (by omega) hgpos
    rw [polynomial, polynomial]
    omega
  · have hstep := factor_sub_le hf hg hgneg.le h
    rcases h.eq_or_lt with rfl | hlt
    · omega
    have hdistance : 18290 * (g - f) ≤ factor f * (g - f) := mul_le_mul_of_nonneg_right hfbounds.1 (by omega)
    have hloss : (factor g - factor f) * -g * 2 ≤ 7951 * (g - f) + 65535 := by
      rcases le_or_gt (factor g - factor f) 0 with hnone | hsome
      · have hnonpos : (factor g - factor f) * -g ≤ 0 := mul_nonpos_of_nonpos_of_nonneg hnone (by omega)
        omega
      · have hmul : (factor g - factor f) * -g ≤ (factor g - factor f) * 32768 :=
          mul_le_mul_of_nonneg_left (by have hlow := hg.1; omega) hsome.le
        omega
    have hsplit : polynomial g - polynomial f = factor f * (g - f) - (factor g - factor f) * -g := by
      rw [polynomial, polynomial]
      ring
    omega

theorem polynomial_bounds (hf : IsFraction f) : 1518378125 ≤ polynomial f ∧ polynomial f ≤ 3036773019 := by
  have hfirst : polynomial (-32768) = 1518396579 := by decide
  have hlast : polynomial 32767 = 3036773019 := by decide
  have hmin := polynomial_almost_mono (f := -32768) ⟨by omega, by omega⟩ hf hf.1
  refine ⟨by omega, ?_⟩
  rcases le_or_gt 0 f with hpos | hneg
  · have hmax := polynomial_mono (g := 32767) hf ⟨by omega, by omega⟩ hpos (by have hhigh := hf.2; omega)
    omega
  · have hnonpos : factor f * f ≤ 0 :=
      mul_nonpos_of_nonneg_of_nonpos (by have hbounds := factor_bounds hf; omega) hneg.le
    rw [polynomial]
    omega

end Polynomial

def IsExponent (value : Int) : Prop := -327680 ≤ value ∧ value ≤ 435411

def place (value : Int) : Nat := ((value + 32768) / 65536 + 5).toNat

def fraction (value : Int) : Int := value - (value + 32768) / 65536 * 65536

def scaled (value : Int) : Nat := (polynomial (fraction value)).toNat * 2 ^ place value

section Power
variable {v w : Int}

theorem fraction_isFraction (v : Int) : IsFraction (fraction v) := by
  rw [IsFraction, fraction]
  omega

theorem place_le (hv : IsExponent v) : place v ≤ 12 := by
  obtain ⟨hlow, hhigh⟩ := hv
  rw [place]
  omega

theorem fixedPointPowerOfTwo_eq (hv : IsExponent v) : fixedPointPowerOfTwo v = scaled v / 2 ^ 20 := by
  have hbounds := polynomial_bounds (fraction_isFraction v)
  have hplace := place_le hv
  have hrest : v + 0x8000 - (v + 0x8000) % 0x10000 = (v + 32768) / 65536 * 65536 := by omega
  have hshift : ((15 * 2 ^ 16 - (v + 32768) / 65536 * 65536 : Int).tdiv 65536).toNat = 20 - place v := by
    obtain ⟨hlow, hhigh⟩ := hv
    rw [Int.tdiv_eq_ediv_of_nonneg (by omega), place]
    omega
  rw [fixedPointPowerOfTwo, scaled]
  rw [hrest, hshift, ← fraction, Int.emod_eq_of_lt (by omega) (by omega)]
  have hpow : (2 : Nat) ^ 20 = 2 ^ (20 - place v) * 2 ^ place v := by
    rw [← Nat.pow_add, Nat.sub_add_cancel (hplace.trans (by decide))]
  rw [hpow, Nat.mul_div_mul_right _ _ (Nat.two_pow_pos _)]

theorem place_mono (h : v ≤ w) : place v ≤ place w := by
  rw [place, place]
  omega

theorem fraction_le (hv : IsExponent v) (hw : IsExponent w) (h : v ≤ w) (hplace : place v = place w) :
    fraction v ≤ fraction w := by
  obtain ⟨hvlow, hvhigh⟩ := hv
  obtain ⟨hwlow, hwhigh⟩ := hw
  rw [place, place] at hplace
  rw [fraction, fraction]
  omega

theorem scaled_almost_mono (hv : IsExponent v) (hw : IsExponent w) (h : v ≤ w) :
    80000 * scaled v ≤ 80001 * scaled w := by
  have hvbounds := polynomial_bounds (fraction_isFraction v)
  have hwbounds := polynomial_bounds (fraction_isFraction w)
  rw [scaled, scaled, ← Nat.mul_assoc, ← Nat.mul_assoc]
  rcases (place_mono h).eq_or_lt with heq | hlt
  · have hle := polynomial_almost_mono (fraction_isFraction v) (fraction_isFraction w) (fraction_le hv hw h heq)
    rw [heq]
    exact Nat.mul_le_mul_right _ (by omega)
  · calc 80000 * (polynomial (fraction v)).toNat * 2 ^ place v
        ≤ 80001 * (polynomial (fraction w)).toNat * 2 * 2 ^ place v := Nat.mul_le_mul_right _ (by omega)
      _ = 80001 * (polynomial (fraction w)).toNat * 2 ^ (place v + 1) := by rw [Nat.pow_succ]; ring
      _ ≤ 80001 * (polynomial (fraction w)).toNat * 2 ^ place w :=
        Nat.mul_le_mul_left _ (Nat.pow_le_pow_right (by decide) hlt)

theorem fixedPointPowerOfTwo_mono_of_lowest (hv : IsExponent v) (h : v ≤ w) (hw : w ≤ -294913) :
    fixedPointPowerOfTwo v ≤ fixedPointPowerOfTwo w := by
  obtain ⟨hlow, hhigh⟩ := hv
  have hplace : ∀ u : Int, -327680 ≤ u → u ≤ -294913 → place u = 0 ∧ fraction u = u + 327680 := by
    intro u hfirst hlast
    rw [place, fraction]
    omega
  have hvplace := hplace v hlow (h.trans hw)
  have hwplace := hplace w (hlow.trans h) hw
  have hmono := polynomial_mono (fraction_isFraction v) (fraction_isFraction w) (by omega) (by omega)
  rw [fixedPointPowerOfTwo_eq ⟨hlow, hhigh⟩, fixedPointPowerOfTwo_eq ⟨hlow.trans h, by omega⟩, scaled, scaled,
    hvplace.1, hwplace.1]
  exact Nat.div_le_div_right (Nat.mul_le_mul_right _ (by omega))

def lowPower (k : Nat) : Nat :=
  let slope := (923583283 + 3616 * k) / 131072
  let factor := (1488799398 - slope * (32768 - k)) / 65536
  (2147345571 - factor * (32768 - k)) / 2 ^ 19

theorem fixedPointPowerOfTwo_lowPower {k : Nat} (hk : k < 32768) :
    fixedPointPowerOfTwo (-294912 + k) = lowPower k := by
  have hf : IsFraction (-32768 + k : Int) := ⟨by omega, by omega⟩
  have hfraction : fraction (-294912 + k) = -32768 + k := by
    rw [fraction]
    omega
  have hplace : place (-294912 + k) = 1 := by
    rw [place]
    omega
  obtain ⟨g, hg⟩ : ∃ g : Nat, 32768 - k = g := ⟨_, rfl⟩
  have hneg : (-32768 + k : Int) = -g := by omega
  have hslope : slope (-32768 + k) = ((923583283 + 3616 * k) / 131072 : Nat) := by
    have hspec := slope_spec hf
    omega
  have hfactor : factor (-32768 + k) = ((1488799398 - (923583283 + 3616 * k) / 131072 * g) / 65536 : Nat) := by
    have hspec := factor_spec hf
    have hproduct : slope (-32768 + k) * (-32768 + k) = -((923583283 + 3616 * k) / 131072 * g : Nat) := by
      rw [hslope, hneg]
      push_cast
      ring
    have hbounds := slope_mul_bounds hf
    omega
  have hpolynomial : polynomial (-32768 + k) =
      2147345571 - ((1488799398 - (923583283 + 3616 * k) / 131072 * g) / 65536 * g : Nat) := by
    rw [polynomial, hfactor, hneg]
    push_cast
    ring
  have hpos := (polynomial_bounds hf).1
  rw [fixedPointPowerOfTwo_eq ⟨by omega, by omega⟩, scaled, hfraction, hplace, lowPower, hg]
  omega

theorem lowPower_steps : (List.range 2151).all (fun k => Nat.ble (lowPower k) (lowPower (k + 1))) = true := by
  decide +kernel

theorem lowPower_mono {j k : Nat} (h : j ≤ k) (hk : k ≤ 2151) : lowPower j ≤ lowPower k := by
  induction k, h using Nat.le_induction with
  | base => exact le_rfl
  | succ k _ ih =>
    have hstep := List.all_eq_true.1 lowPower_steps k (List.mem_range.2 (by omega))
    exact (ih (by omega)).trans (Nat.le_of_ble_eq_true hstep)

theorem fixedPointPowerOfTwo_mono_of_low (hv : IsExponent v) (h : v ≤ w) (hw : w ≤ -292761) :
    fixedPointPowerOfTwo v ≤ fixedPointPowerOfTwo w := by
  rcases le_or_gt w (-294913) with hlowest | hnext
  · exact fixedPointPowerOfTwo_mono_of_lowest hv h hlowest
  · have hpower : ∀ u : Int, -294913 < u → u ≤ w → fixedPointPowerOfTwo u = lowPower (u + 294912).toNat := by
      intro u hfirst hlast
      have hu : -294912 + ((u + 294912).toNat : Int) = u := by omega
      rw [← fixedPointPowerOfTwo_lowPower (k := (u + 294912).toNat) (by omega), hu]
    rw [hpower w hnext le_rfl]
    rcases le_or_gt v (-294913) with hvlow | hvhigh
    · have hlast : fixedPointPowerOfTwo (-294913) = lowPower 0 := by decide
      refine (fixedPointPowerOfTwo_mono_of_lowest hv hvlow le_rfl).trans ?_
      rw [hlast]
      exact lowPower_mono (Nat.zero_le _) (by omega)
    · rw [hpower v hvhigh h]
      exact lowPower_mono (by omega) (by omega)

theorem fixedPointPowerOfTwo_high (hw : IsExponent w) (h : -292760 ≤ w) : 2962 ≤ fixedPointPowerOfTwo w := by
  have hfirst : scaled (-292760) = 3106912806 := by decide
  have hmono := scaled_almost_mono (v := -292760) ⟨by omega, by omega⟩ hw h
  rw [hfirst] at hmono
  rw [fixedPointPowerOfTwo_eq hw]
  omega

theorem fixedPointPowerOfTwo_almost_mono (hv : IsExponent v) (hw : IsExponent w) (h : v ≤ w) :
    2962 * fixedPointPowerOfTwo v ≤ 2963 * fixedPointPowerOfTwo w := by
  rcases le_or_gt w (-292761) with hlow | hhigh
  · have hmono := fixedPointPowerOfTwo_mono_of_low hv h hlow
    omega
  · have hpower := fixedPointPowerOfTwo_high hw (by omega)
    have hmono := scaled_almost_mono hv hw h
    rw [fixedPointPowerOfTwo_eq hw] at hpower ⊢
    rw [fixedPointPowerOfTwo_eq hv]
    -- the roundings are at most one unit, unless the powers are large
    rcases Nat.lt_or_ge (scaled w / 2 ^ 20) 79999 with hsmall | hlarge
    · have hunit : scaled v / 2 ^ 20 ≤ scaled w / 2 ^ 20 + 1 := by omega
      omega
    · omega

theorem fixedPointPowerOfTwo_le (hv : IsExponent v) : fixedPointPowerOfTwo v ≤ 6554149 := by
  have hlast : scaled 435411 = 6872438194176 := by decide
  have hmono := scaled_almost_mono hv ⟨by omega, le_rfl⟩ hv.2
  rw [hlast] at hmono
  rw [fixedPointPowerOfTwo_eq hv]
  omega

end Power

end Catapult.Chain
