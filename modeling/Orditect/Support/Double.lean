import Mathlib.Data.Int.Log
import Mathlib.Data.Rat.Floor
import Mathlib.Tactic.Linarith
import Mathlib.Tactic.Positivity
/-!
# Rounding to doubles

Binary floating point as rounding on the rationals: 53 bits, ties to even, gradual underflow
and no largest number.  Whole numbers within 53 bits are exact, and so is the floor of a
quotient of whole numbers that has one bit to spare.
-/

namespace Orditect.Support.Double

/-- The nearest integer, and of two the even one. -/
def roundEven (y : ℚ) : Int :=
  if y - ⌊y⌋ < 1 / 2 ∨ y - ⌊y⌋ = 1 / 2 ∧ ⌊y⌋ % 2 = 0 then ⌊y⌋ else ⌊y⌋ + 1

/-- The exponent of the last bit. -/
def exponent (x : ℚ) : Int := max (Int.log 2 |x| - 52) (-1074)

def double (x : ℚ) : ℚ := roundEven (x / 2 ^ exponent x) * 2 ^ exponent x

variable {x y : ℚ}

theorem floor_le_roundEven (y : ℚ) : ⌊y⌋ ≤ roundEven y := by
  unfold roundEven
  split
  · exact le_rfl
  · exact (lt_add_one _).le

theorem roundEven_le (y : ℚ) : (roundEven y : ℚ) ≤ y + 1 / 2 := by
  unfold roundEven
  split
  · linarith [Int.floor_le y]
  · rename_i hup
    have hhalf : 1 / 2 ≤ y - ⌊y⌋ := not_lt.mp (not_or.mp hup).1
    push_cast
    linarith

theorem roundEven_intCast (n : Int) : roundEven n = n := by
  simp [roundEven]

theorem exponent_nonpos (hx : |x| < 2 ^ 53) : exponent x ≤ 0 := by
  refine max_le ?_ (by norm_num)
  rcases (abs_nonneg x).eq_or_lt with hzero | hpos
  · rw [← hzero, Int.log_zero_right]
    norm_num
  · have hlog : Int.log 2 |x| < 53 :=
      (Int.lt_zpow_iff_log_lt (by norm_num) hpos).mp (by exact_mod_cast hx)
    omega

theorem shift_intCast {e : Int} (he : e ≤ 0) (n : Int) :
    ∃ m : Int, (n : ℚ) / 2 ^ e = m := by
  obtain ⟨k, rfl⟩ := Int.exists_eq_neg_ofNat he
  refine ⟨n * 2 ^ k, ?_⟩
  rw [zpow_neg, div_inv_eq_mul, zpow_natCast]
  push_cast
  rfl

theorem ulp_pos (x : ℚ) : (0 : ℚ) < 2 ^ exponent x := zpow_pos (by norm_num) _

theorem double_intCast {n : Int} (hn : |n| < 2 ^ 53) : double n = n := by
  obtain ⟨m, hm⟩ := shift_intCast (exponent_nonpos (x := n) (by exact_mod_cast hn)) n
  rw [double, hm, roundEven_intCast, ← hm, div_mul_cancel₀ _ (ulp_pos _).ne']

theorem ulp_le (x : ℚ) : (2 : ℚ) ^ exponent x * 2 ^ 52 ≤ max |x| 1 := by
  have hshift : ∀ e : Int, (2 : ℚ) ^ e * 2 ^ 52 = 2 ^ (e + 52) := fun e => by
    rw [zpow_add₀ (by norm_num)]
    norm_cast
  rw [hshift]
  rcases max_choice (Int.log 2 |x| - 52) (-1074) with he | he
  · rw [exponent, he, Int.sub_add_cancel]
    rcases (abs_nonneg x).eq_or_lt with hzero | hpos
    · rw [← hzero, Int.log_zero_right]
      simp
    · exact le_max_of_le_left (by exact_mod_cast Int.zpow_log_le_self (by norm_num) hpos)
  · rw [exponent, he]
    exact le_max_of_le_right (zpow_le_one_of_nonpos₀ (by norm_num) (by norm_num))

theorem le_double {n : Int} (hn : 0 ≤ n) (hsize : n ≤ 2 ^ 53) (h : (n : ℚ) ≤ x) :
    (n : ℚ) ≤ double x := by
  suffices hround : (n : ℚ) / 2 ^ exponent x ≤ roundEven (x / 2 ^ exponent x) from
    (div_le_iff₀ (ulp_pos x)).mp hround
  have hfloor {m : Int} (hm : (m : ℚ) ≤ x / 2 ^ exponent x) :
      (m : ℚ) ≤ roundEven (x / 2 ^ exponent x) := by
    exact_mod_cast (Int.le_floor.mpr hm).trans (floor_le_roundEven _)
  rcases le_or_gt (exponent x) 0 with he | he
  · obtain ⟨m, hm⟩ := shift_intCast he n
    rw [hm]
    exact hfloor (hm ▸ (div_le_div_iff_of_pos_right (ulp_pos x)).mpr h)
  · -- the last bit is at least 2, so `x` has 53 bits before it
    have hx : 0 ≤ x := le_trans (by exact_mod_cast hn) h
    have hulp : (2 : ℚ) ≤ 2 ^ exponent x := by
      simpa using zpow_le_zpow_right₀ (one_le_two (α := ℚ)) he
    have hlow : ((2 ^ 52 : Int) : ℚ) ≤ x / 2 ^ exponent x := by
      rw [le_div_iff₀ (ulp_pos x), mul_comm]
      have hlog : Int.log 2 |x| - 52 = exponent x := by
        unfold exponent at he ⊢
        omega
      have hpos : 0 < |x| := by
        by_contra hzero
        rw [le_antisymm (not_lt.mp hzero) (abs_nonneg x), Int.log_zero_right] at hlog
        omega
      have hle := Int.zpow_log_le_self (b := 2) (by norm_num) hpos
      rw [abs_of_nonneg hx] at hle hlog
      rw [← Int.sub_add_cancel (Int.log 2 x) 52, hlog, zpow_add₀ (by norm_num)] at hle
      exact_mod_cast hle
    refine le_trans ?_ (hfloor hlow)
    rw [div_le_iff₀ (ulp_pos x)]
    have hn' : (n : ℚ) ≤ 2 ^ 53 := by exact_mod_cast hsize
    push_cast
    nlinarith

theorem double_le (x : ℚ) : double x ≤ x + 2 ^ exponent x / 2 := by
  have hround := mul_le_mul_of_nonneg_right (roundEven_le (x / 2 ^ exponent x)) (ulp_pos x).le
  rw [add_mul, div_mul_cancel₀ _ (ulp_pos x).ne'] at hround
  unfold double
  linarith

theorem double_nonpos (hx : x ≤ 0) : double x ≤ 0 := by
  refine mul_nonpos_of_nonpos_of_nonneg ?_ (ulp_pos x).le
  have hneg : x / 2 ^ exponent x ≤ 0 := div_nonpos_of_nonpos_of_nonneg hx (ulp_pos x).le
  have hlt : (roundEven (x / 2 ^ exponent x) : ℚ) < (0 + 1 : Int) := by
    push_cast
    linarith [roundEven_le (x / 2 ^ exponent x)]
  exact_mod_cast Int.lt_add_one_iff.mp (Int.cast_lt.mp hlt)

theorem floor_double_div {a b : Int} (ha : 0 ≤ a) (hb : 0 < b) (hasize : a ≤ 2 ^ 52)
    (hbsize : b ≤ 2 ^ 52) : ⌊double (a / b)⌋ = a / b := by
  have hb' : (0 : ℚ) < b := by exact_mod_cast hb
  have hquot : ((a / b : Int) : ℚ) ≤ a / b := by
    rw [le_div_iff₀ hb']
    exact_mod_cast Int.ediv_mul_le a hb.ne'
  have hnext : (a : ℚ) / b + 1 / b ≤ (a / b : Int) + 1 := by
    rw [← add_div, div_le_iff₀ hb']
    exact_mod_cast Int.lt_ediv_add_one_mul_self a hb
  have hulp : (2 : ℚ) ^ exponent (a / b) ≤ 1 / b := by
    have hmax : max |(a : ℚ) / b| 1 * b ≤ 2 ^ 52 := by
      rw [max_mul_of_nonneg _ _ hb'.le, abs_of_nonneg (by positivity), div_mul_cancel₀ _ hb'.ne',
        one_mul]
      exact max_le (by exact_mod_cast hasize) (by exact_mod_cast hbsize)
    rw [le_div_iff₀ hb']
    have := mul_le_mul_of_nonneg_right (ulp_le (a / b)) hb'.le
    linarith
  rw [Int.floor_eq_iff]
  constructor
  · refine le_double (Int.ediv_nonneg ha hb.le) ?_ hquot
    exact ((Int.ediv_le_self b ha).trans hasize).trans (by norm_num)
  · have := double_le ((a : ℚ) / b)
    have := ulp_pos ((a : ℚ) / b)
    linarith

end Orditect.Support.Double
