import Mathlib.Data.Int.Log
import Mathlib.Data.Nat.Cast.Order.Field
import Mathlib.Data.Rat.Floor
import Mathlib.Tactic.FieldSimp
import Mathlib.Tactic.Linarith

/-!
# Rounding to nearest

Numbers with `p` significant bits and unbounded exponents: `round p x` is the one nearest to
`x`, in a tie the one with an even significand.

* `round_mul_lt`: the rounded product of a number below 1 that has `p` bits and a whole number
  of at most `p` bits is below the whole number.
* `round_natCast`, `round_fraction`: whole numbers and fractions of at most `p` bits are not
  rounded. `floor_round_div`: nor does rounding change the whole part of a quotient.
-/

namespace Murlan.Rounding

/-- The nearest whole number, in a tie the even one. -/
def nearest (x : ℚ) : ℤ :=
  if x - ⌊x⌋ < 1 / 2 then ⌊x⌋
  else if 1 / 2 < x - ⌊x⌋ then ⌊x⌋ + 1
  else if ⌊x⌋ % 2 = 0 then ⌊x⌋ else ⌊x⌋ + 1

/-- The distance of the numbers with `p` bits next to a positive `x`. -/
def ulp (p : ℕ) (x : ℚ) : ℚ := (2 : ℚ) ^ (Int.log 2 x + 1 - p)

/-- The number with `p` bits nearest to `x`, for `x` that is not negative. -/
def round (p : ℕ) (x : ℚ) : ℚ := if x ≤ 0 then 0 else nearest (x / ulp p x) * ulp p x

/-- The number with `p` bits nearest to `x`. -/
def signed (p : ℕ) (x : ℚ) : ℚ := if x < 0 then -round p (-x) else round p x

variable {p n : ℕ} {x : ℚ}

/-- The nearest integer is the floor, or the next when at least a half is over. -/
theorem nearest_cases (x : ℚ) : nearest x = ⌊x⌋ ∨ (nearest x = ⌊x⌋ + 1 ∧ 1 / 2 ≤ x - ⌊x⌋) := by
  unfold nearest
  split
  · exact Or.inl rfl
  · rename_i h
    split
    · exact Or.inr ⟨rfl, by linarith⟩
    · split
      · exact Or.inl rfl
      · exact Or.inr ⟨rfl, by linarith⟩

/-- Well below an integer, the nearest one is smaller. -/
theorem nearest_lt {m : ℤ} (h : x < m - 1 / 2) : nearest x < m := by
  have hfl := Int.floor_le x
  rcases nearest_cases x with he | ⟨he, hge⟩
  · rw [he]
    have : (⌊x⌋ : ℚ) < m := by linarith
    exact_mod_cast this
  · rw [he]
    have : ((⌊x⌋ + 1 : ℤ) : ℚ) < m := by
      push_cast
      linarith
    exact_mod_cast this

/-- Below an integer, the nearest one is no greater. -/
theorem nearest_le {m : ℤ} (h : x ≤ m) : nearest x ≤ m := by
  have hfl := Int.floor_le x
  rcases nearest_cases x with he | ⟨he, hge⟩
  · rw [he]
    have : (⌊x⌋ : ℚ) ≤ m := by linarith
    exact_mod_cast this
  · rw [he]
    have : (⌊x⌋ : ℚ) < m := by linarith
    have : ⌊x⌋ < m := by exact_mod_cast this
    omega

theorem nearest_nonneg (h : 0 ≤ x) : 0 ≤ nearest x := by
  have hfl := Int.floor_nonneg.2 h
  rcases nearest_cases x with he | ⟨he, -⟩
  · rw [he]
    exact hfl
  · rw [he]
    omega

theorem ulp_pos (p : ℕ) (x : ℚ) : 0 < ulp p x := by
  unfold ulp
  exact zpow_pos (by norm_num) _

/-- Rounding gives nothing negative. -/
theorem round_nonneg (p : ℕ) (x : ℚ) : 0 ≤ round p x := by
  unfold round
  split
  · exact le_rfl
  · rename_i h
    have hpos := ulp_pos p x
    have hx : 0 ≤ x / ulp p x := div_nonneg (by linarith) hpos.le
    have : (0 : ℚ) ≤ nearest (x / ulp p x) := by exact_mod_cast nearest_nonneg hx
    exact mul_nonneg this hpos.le

/-- A positive number lies between two powers of two, each `2 ^ (p - 1)` and `2 ^ p` of its
units. -/
theorem ulp_bounds (p : ℕ) (hx : 0 < x) : 2 ^ p * ulp p x ≤ 2 * x ∧ x < 2 ^ p * ulp p x := by
  have hlow := Int.zpow_log_le_self (b := 2) (r := x) (by decide) hx
  have hhigh := Int.lt_zpow_succ_log_self (b := 2) (by decide) x
  have he : (2 : ℚ) ^ p * ulp p x = 2 ^ (Int.log 2 x + 1) := by
    unfold ulp
    rw [← zpow_natCast, ← zpow_add₀ (by norm_num)]
    congr 1
    omega
  rw [he]
  push_cast at hlow hhigh
  refine ⟨?_, hhigh⟩
  rw [zpow_add₀ (by norm_num), zpow_one]
  linarith

/-- A number below 1 with `p` bits keeps a distance from 1. -/
theorem le_of_round_eq (hx : 0 ≤ x) (h1 : x < 1) (hr : round p x = x) : x ≤ 1 - 1 / 2 ^ p := by
  have hp : (0 : ℚ) < 2 ^ p := by positivity
  rcases hx.eq_or_lt with rfl | hpos
  · have : (1 : ℚ) / 2 ^ p ≤ 1 := by
      rw [div_le_one hp]
      exact one_le_pow₀ (by norm_num)
    linarith
  · rw [round, if_neg (by linarith)] at hr
    have hu := ulp_pos p x
    -- the exponent of the unit is at most `-p`, so the unit divides 1 evenly
    have hlog : Int.log 2 x < 0 := by
      rw [← Int.lt_zpow_iff_log_lt (by decide) hpos]
      simpa using h1
    obtain ⟨k, hk⟩ : ∃ k : ℕ, Int.log 2 x + 1 = -(k : ℤ) := ⟨(-(Int.log 2 x + 1)).toNat, by omega⟩
    have hone : ulp p x * 2 ^ (p + k) = 1 := by
      unfold ulp
      rw [hk, ← zpow_natCast, ← zpow_add₀ (by norm_num)]
      have : -(k : ℤ) - p + ((p + k : ℕ) : ℤ) = 0 := by
        push_cast
        omega
      rw [this, zpow_zero]
    set m := nearest (x / ulp p x) with hm
    have hlt : (m : ℚ) < 2 ^ (p + k) := by
      have : (m : ℚ) * ulp p x < 2 ^ (p + k) * ulp p x := by
        rw [hr, mul_comm ((2 : ℚ) ^ (p + k)), hone]
        exact h1
      exact lt_of_mul_lt_mul_right this hu.le
    have hle : (m : ℚ) ≤ 2 ^ (p + k) - 1 := by
      have hz : m < 2 ^ (p + k) := by exact_mod_cast hlt
      have : m ≤ 2 ^ (p + k) - 1 := by omega
      exact_mod_cast this
    have hx' : x ≤ 1 - ulp p x := by
      have := mul_le_mul_of_nonneg_right hle hu.le
      rw [hr, sub_mul, mul_comm ((2 : ℚ) ^ (p + k)), hone, one_mul] at this
      exact this
    by_cases hk0 : k = 0
    · have : ulp p x = 1 / 2 ^ p := by
        rw [hk0, Nat.add_zero] at hone
        field_simp
        exact hone
      rw [this] at hx'
      exact hx'
    · -- below one half
      have hhigh := (ulp_bounds p hpos).2
      have hhalf : 2 ^ p * ulp p x ≤ 1 / 2 := by
        have h2 : (2 : ℚ) ≤ 2 ^ k := by
          calc (2 : ℚ) = 2 ^ 1 := by norm_num
            _ ≤ 2 ^ k := pow_le_pow_right₀ (by norm_num) (by omega)
        have : 2 ^ p * ulp p x * 2 ^ k = 1 := by
          rw [← hone, pow_add]
          ring
        have hpu : 0 < 2 ^ p * ulp p x := by positivity
        nlinarith
      by_cases hp0 : p = 0
      · subst hp0
        -- no bits at all: only zero and powers of two round to themselves
        exfalso
        simp only [pow_zero, one_mul] at hhigh
        have hm0 : m < 1 := by
          have : (m : ℚ) * ulp 0 x < 1 * ulp 0 x := by rw [hr, one_mul]; exact hhigh
          have := lt_of_mul_lt_mul_right this hu.le
          exact_mod_cast this
        have hm1 : (m : ℚ) ≤ 0 := by
          have : m ≤ 0 := by omega
          exact_mod_cast this
        nlinarith
      · have : (1 : ℚ) / 2 ^ p ≤ 1 / 2 := by
          rw [div_le_div_iff₀ hp (by norm_num)]
          calc (1 : ℚ) * 2 = 2 ^ 1 := by norm_num
            _ ≤ 2 ^ p := pow_le_pow_right₀ (by norm_num) (by omega)
            _ = 1 * 2 ^ p := by ring
        linarith

/-- **A share of a whole number**, rounded, stays below it. -/
theorem round_mul_lt (hn : 0 < n) (hnp : n ≤ 2 ^ p) (hx : 0 ≤ x) (h1 : x < 1) (hr : round p x = x) :
    round p (x * n) < n := by
  have hp : (0 : ℚ) < 2 ^ p := by positivity
  have hnq : (0 : ℚ) < n := by exact_mod_cast hn
  have hle := le_of_round_eq hx h1 hr
  unfold round
  split
  · exact hnq
  rename_i hpos
  rw [not_le] at hpos
  set y := x * n with hy
  have hyn : y * 2 ^ p ≤ n * 2 ^ p - n := by
    have : x * 2 ^ p ≤ 2 ^ p - 1 := by
      have := mul_le_mul_of_nonneg_right hle hp.le
      rw [sub_mul, one_mul, one_div, inv_mul_cancel₀ hp.ne'] at this
      exact this
    calc y * 2 ^ p = (x * 2 ^ p) * n := by rw [hy]; ring
      _ ≤ (2 ^ p - 1) * n := mul_le_mul_of_nonneg_right this hnq.le
      _ = n * 2 ^ p - n := by ring
  obtain ⟨hlow, hhigh⟩ := ulp_bounds p hpos
  have hu := ulp_pos p y
  have hylt : y < n := by
    rw [hy]
    nlinarith
  have hquot : y / ulp p y * ulp p y = y := div_mul_cancel₀ _ hu.ne'
  rcases lt_trichotomy (n : ℚ) (2 ^ p * ulp p y) with hlt | heq | hgt
  · -- the whole number is a multiple of the unit, more than half a unit away
    have hlog : Int.log 2 y + 1 - p ≤ 0 := by
      have hyp : y < ((2 : ℕ) : ℚ) ^ (p : ℤ) := by
        rw [zpow_natCast, Nat.cast_ofNat]
        refine lt_of_lt_of_le hylt ?_
        exact_mod_cast hnp
      have := (Int.lt_zpow_iff_log_lt (by decide) hpos).1 hyp
      omega
    obtain ⟨k, hk⟩ : ∃ k : ℕ, Int.log 2 y + 1 - p = -(k : ℤ) := ⟨(-(Int.log 2 y + 1 - p)).toNat, by omega⟩
    have hone : ulp p y * 2 ^ k = 1 := by
      unfold ulp
      rw [hk, ← zpow_natCast, ← zpow_add₀ (by norm_num)]
      simp
    have hnu : (n : ℚ) = (n * 2 ^ k) * ulp p y := by
      rw [mul_assoc, mul_comm ((2 : ℚ) ^ k), hone, mul_one]
    have hclose : y / ulp p y < ((n * 2 ^ k : ℤ) : ℚ) - 1 / 2 := by
      rw [div_lt_iff₀ hu]
      push_cast
      rw [sub_mul, ← hnu]
      -- a unit is less than `2 * n / 2 ^ p`
      have : 2 ^ p * ulp p y < 2 * n := lt_of_le_of_lt hlow (by linarith)
      nlinarith
    have hnear : ((nearest (y / ulp p y) : ℤ) : ℚ) < n * 2 ^ k := by
      exact_mod_cast nearest_lt hclose
    calc ((nearest (y / ulp p y) : ℤ) : ℚ) * ulp p y < (n * 2 ^ k) * ulp p y := mul_lt_mul_of_pos_right hnear hu
      _ = n := hnu.symm
  · -- the whole number is the next power of two, a unit away
    have hclose : y / ulp p y ≤ ((2 ^ p - 1 : ℤ) : ℚ) := by
      rw [div_le_iff₀ hu]
      push_cast
      have : y * 2 ^ p ≤ (n - ulp p y) * 2 ^ p := by
        rw [sub_mul, mul_comm (ulp p y), ← heq]
        exact hyn
      have := le_of_mul_le_mul_right this hp
      rw [sub_mul, one_mul, ← heq]
      exact this
    have hnear : ((nearest (y / ulp p y) : ℤ) : ℚ) ≤ 2 ^ p - 1 := by
      exact_mod_cast nearest_le hclose
    calc ((nearest (y / ulp p y) : ℤ) : ℚ) * ulp p y ≤ (2 ^ p - 1) * ulp p y := mul_le_mul_of_nonneg_right hnear hu.le
      _ = n - ulp p y := by rw [sub_mul, one_mul, heq]
      _ < n := by linarith
  · have hclose : y / ulp p y ≤ ((2 ^ p : ℤ) : ℚ) := by
      rw [div_le_iff₀ hu]
      push_cast
      exact hhigh.le
    have hnear : ((nearest (y / ulp p y) : ℤ) : ℚ) ≤ 2 ^ p := by exact_mod_cast nearest_le hclose
    calc ((nearest (y / ulp p y) : ℤ) : ℚ) * ulp p y ≤ 2 ^ p * ulp p y := mul_le_mul_of_nonneg_right hnear hu.le
      _ < n := hgt

/-! ## Whole numbers -/

theorem nearest_intCast (m : ℤ) : nearest (m : ℚ) = m := by
  unfold nearest
  simp

theorem le_nearest {m : ℤ} (h : (m : ℚ) ≤ x) : m ≤ nearest x := by
  have hfl : m ≤ ⌊x⌋ := Int.le_floor.mpr h
  rcases nearest_cases x with he | ⟨he, -⟩
  · rw [he]
    exact hfl
  · rw [he]
    omega

/-- A multiple of its unit is not rounded. -/
theorem round_of_unit {m : ℤ} (hx : 0 < x) (h : x = m * ulp p x) : round p x = x := by
  have hu := ulp_pos p x
  have hquot : x / ulp p x = m := by
    rw [div_eq_iff hu.ne']
    exact h
  rw [round, if_neg (by linarith), hquot, nearest_intCast, ← h]

/-- The unit of a number below `2 ^ p` divides 1. -/
theorem exists_unit (hx : 0 < x) (hxp : x < 2 ^ p) : ∃ k : ℕ, 2 ^ k * ulp p x = 1 := by
  have hlog : Int.log 2 x < p := by
    have hz : x < ((2 : ℕ) : ℚ) ^ (p : ℤ) := by
      rw [zpow_natCast, Nat.cast_ofNat]
      exact hxp
    exact (Int.lt_zpow_iff_log_lt (by decide) hx).1 hz
  obtain ⟨k, hk⟩ : ∃ k : ℕ, Int.log 2 x + 1 - p = -(k : ℤ) := ⟨(-(Int.log 2 x + 1 - p)).toNat, by omega⟩
  refine ⟨k, ?_⟩
  unfold ulp
  rw [hk, ← zpow_natCast, ← zpow_add₀ (by norm_num), add_neg_cancel, zpow_zero]

/-- Small integers are exact. -/
theorem round_natCast (hp : 0 < p) (hn : n ≤ 2 ^ p) : round p (n : ℚ) = n := by
  rcases Nat.eq_zero_or_pos n with rfl | hpos
  · simp [round]
  have hx : (0 : ℚ) < n := by exact_mod_cast hpos
  rcases hn.eq_or_lt with rfl | hlt
  · -- the unit of `2 ^ p` is 2
    have hlog : Int.log 2 ((2 ^ p : ℕ) : ℚ) = p := by
      rw [Int.log_natCast, Nat.log_pow (by decide)]
    refine round_of_unit (m := 2 ^ (p - 1)) hx ?_
    unfold ulp
    rw [hlog, show (p : ℤ) + 1 - p = 1 by omega, zpow_one]
    push_cast
    rw [← pow_succ, Nat.sub_add_cancel hp]
  · obtain ⟨k, hk⟩ := exists_unit (p := p) hx (by exact_mod_cast hlt)
    refine round_of_unit (m := n * 2 ^ k) hx ?_
    push_cast
    rw [mul_assoc, hk, mul_one]

theorem signed_natCast (hp : 0 < p) (hn : n ≤ 2 ^ p) : signed p (n : ℚ) = n := by
  rw [signed, if_neg (not_lt.mpr (Nat.cast_nonneg n)), round_natCast hp hn]

/-- Rounding adds at most half a unit, which is less than `x / 2 ^ p` but where it adds nothing. -/
theorem round_lt (hp : 0 < p) (hx : 0 < x) : round p x = x ∨ round p x < x + x / 2 ^ p := by
  have hu := ulp_pos p x
  have hpow : (0 : ℚ) < 2 ^ p := by positivity
  rcases (ulp_bounds p hx).1.lt_or_eq with hlt | heq
  · right
    have hquot : x / ulp p x * ulp p x = x := div_mul_cancel₀ _ hu.ne'
    have hhalf : ulp p x / 2 < x / 2 ^ p := by
      rw [div_lt_div_iff₀ (by norm_num) hpow]
      linarith
    have hnear : (nearest (x / ulp p x) : ℚ) ≤ x / ulp p x + 1 / 2 := by
      have hfl := Int.floor_le (x / ulp p x)
      rcases nearest_cases (x / ulp p x) with he | ⟨he, hge⟩
      · rw [he]
        linarith
      · rw [he]
        push_cast
        linarith
    have hmul := mul_le_mul_of_nonneg_right hnear hu.le
    rw [add_mul, hquot] at hmul
    rw [round, if_neg (by linarith)]
    linarith
  · -- a power of two is a multiple of its unit
    left
    refine round_of_unit (m := 2 ^ (p - 1)) hx ?_
    have htwo : (2 : ℚ) * (2 ^ (p - 1) * ulp p x) = 2 * x := by
      rw [← mul_assoc, ← pow_succ', Nat.sub_add_cancel hp, heq]
    push_cast
    linarith

/-- Rounding does not go below an integer that is below. -/
theorem natCast_le_round (hx : 0 < x) (hxp : x < 2 ^ p) (h : (n : ℚ) ≤ x) : (n : ℚ) ≤ round p x := by
  obtain ⟨k, hk⟩ := exists_unit hx hxp
  have hu := ulp_pos p x
  -- the whole number is a multiple of the unit
  have hwhole : (((n * 2 ^ k : ℕ) : ℤ) : ℚ) * ulp p x = n := by
    rw [Int.cast_natCast, Nat.cast_mul, Nat.cast_pow, Nat.cast_ofNat, mul_assoc, hk, mul_one]
  have hnear : ((n * 2 ^ k : ℕ) : ℤ) ≤ nearest (x / ulp p x) := by
    refine le_nearest ?_
    rw [le_div_iff₀ hu, hwhole]
    exact h
  rw [round, if_neg (by linarith), ← hwhole]
  exact mul_le_mul_of_nonneg_right (by exact_mod_cast hnear) hu.le

/-- The whole part of a number that does not come too close to the next whole number. -/
theorem floor_round (hp : 0 < p) (hx : 0 < x) (hxp : x < 2 ^ p) (hlow : (n : ℚ) ≤ x) (hhigh : x + x / 2 ^ p ≤ n + 1) :
    ⌊round p x⌋ = n := by
  rw [Int.floor_eq_iff, Int.cast_natCast]
  refine ⟨natCast_le_round hx hxp hlow, ?_⟩
  have hshare : 0 < x / 2 ^ p := by positivity
  rcases round_lt hp hx with hsame | hlt
  · linarith
  · linarith

/-- **Whole parts of quotients** are not changed by rounding. -/
theorem floor_round_div (hp : 0 < p) {a b : ℕ} (hb : 0 < b) (ha : a ≤ 2 ^ p) :
    ⌊round p ((a : ℚ) / b)⌋ = (a / b : ℕ) := by
  have hbq : (0 : ℚ) < b := by exact_mod_cast hb
  have hdiv : b * (a / b) + a % b = a := Nat.div_add_mod a b
  have hmod : a % b < b := Nat.mod_lt a hb
  by_cases hdvd : a % b = 0
  · -- nothing is rounded
    have hq : (a : ℚ) / b = (a / b : ℕ) := by
      rw [div_eq_iff hbq.ne']
      have hmul : a / b * b = a := Nat.div_mul_cancel (Nat.dvd_of_mod_eq_zero hdvd)
      exact_mod_cast hmul.symm
    have hle : a / b ≤ 2 ^ p := (Nat.div_le_self a b).trans ha
    rw [hq, round_natCast hp hle]
    exact Int.floor_natCast _
  have hapos : 0 < a := by
    rcases Nat.eq_zero_or_pos a with rfl | hpos
    · exact absurd (Nat.zero_mod b) hdvd
    · exact hpos
  have hx : (0 : ℚ) < (a : ℚ) / b := div_pos (by exact_mod_cast hapos) hbq
  refine floor_round hp hx ?_ Nat.cast_div_le ?_
  · have htwo : 2 ≤ b := by
      rcases Nat.lt_or_ge b 2 with hlt | hge
      · obtain rfl : b = 1 := by omega
        exact absurd (Nat.mod_one a) hdvd
      · exact hge
    rw [div_lt_iff₀ hbq]
    have hlt : a < 2 ^ p * b := by
      have hpow : 0 < 2 ^ p := Nat.two_pow_pos p
      nlinarith
    exact_mod_cast hlt
  · -- the next whole number is at least `1 / b` away
    have hnext : (a : ℚ) / b + 1 / b ≤ ((a / b : ℕ) : ℚ) + 1 := by
      rw [← add_div, div_le_iff₀ hbq]
      have hstep : a + 1 ≤ (a / b + 1) * b := by
        have hcomm : (a / b + 1) * b = b * (a / b) + b := by ring
        omega
      exact_mod_cast hstep
    have hshare : (a : ℚ) / b / 2 ^ p ≤ 1 / b := by
      rw [div_div, mul_comm, ← div_div]
      refine div_le_div_of_nonneg_right ?_ hbq.le
      rw [div_le_one (by positivity)]
      exact_mod_cast ha
    linarith

/-- A fraction of fewer than `p` bits is not rounded. -/
theorem round_fraction {t k : ℕ} (ht : t < 2 ^ p) : round p ((t : ℚ) / 2 ^ k) = t / 2 ^ k := by
  rcases Nat.eq_zero_or_pos t with rfl | hpos
  · simp [round]
  have hpow : (0 : ℚ) < 2 ^ k := by positivity
  have hx : (0 : ℚ) < (t : ℚ) / 2 ^ k := div_pos (by exact_mod_cast hpos) hpow
  -- the unit is a power of two, and at most `1 / 2 ^ k`
  obtain ⟨i, hi⟩ : ∃ i : ℕ, 2 ^ (k + i) * ulp p ((t : ℚ) / 2 ^ k) = 1 := by
    have hlog : Int.log 2 ((t : ℚ) / 2 ^ k) < p - k := by
      have hlt : (t : ℚ) / 2 ^ k < ((2 : ℕ) : ℚ) ^ ((p : ℤ) - k) := by
        rw [zpow_sub₀ (by norm_num), zpow_natCast, zpow_natCast, Nat.cast_ofNat]
        exact div_lt_div_of_pos_right (by exact_mod_cast ht) hpow
      exact (Int.lt_zpow_iff_log_lt (by decide) hx).1 hlt
    obtain ⟨i, hi⟩ : ∃ i : ℕ, Int.log 2 ((t : ℚ) / 2 ^ k) + 1 - p = -((k + i : ℕ) : ℤ) :=
      ⟨(p - k - 1 - Int.log 2 ((t : ℚ) / 2 ^ k)).toNat, by omega⟩
    refine ⟨i, ?_⟩
    unfold ulp
    rw [hi, ← zpow_natCast, ← zpow_add₀ (by norm_num), add_neg_cancel, zpow_zero]
  refine round_of_unit (m := t * 2 ^ i) hx ?_
  have hsplit : (2 : ℚ) ^ i * ulp p ((t : ℚ) / 2 ^ k) = 1 / 2 ^ k := by
    rw [eq_div_iff hpow.ne', ← hi, pow_add]
    ring
  push_cast
  rw [mul_assoc, hsplit, mul_one_div]

end Murlan.Rounding
