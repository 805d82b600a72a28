import Mathlib.Algebra.Order.Floor.Ring
import Mathlib.Data.Int.Log
import Mathlib.Data.Rat.Floor
import Mathlib.Tactic.Linarith
import Mathlib.Tactic.NormNum
import Mathlib.Tactic.Positivity

/-!
# Rounding to nearest

Rationals rounded to nearest with ties to even: to an integer (`roundHalfEven`), and to a number of
significant binary digits (`roundBits`). The exponent of the latter is unbounded, so `binary64` is
what a double keeps of a number that it holds without underflow or overflow.

Rounding stays between the powers of two around a number (`zpow_le_roundBits`,
`roundBits_le_zpow`). The numbers of a binade that are rounded below a bound between two mantissas
are those up to the midpoint of the two, if the lower mantissa is even (`roundBits_lt_iff`).
-/

namespace Rounding

/-- Nearest integer, ties to even. -/
def roundHalfEven (x : ℚ) : ℤ :=
  if Int.fract x < 1 / 2 then ⌊x⌋
  else if Int.fract x = 1 / 2 ∧ ⌊x⌋ % 2 = 0 then ⌊x⌋
  else ⌊x⌋ + 1

theorem floor_le_roundHalfEven (x : ℚ) : ⌊x⌋ ≤ roundHalfEven x := by
  unfold roundHalfEven
  split
  · exact le_rfl
  · split <;> omega

theorem roundHalfEven_le_floor_add_one (x : ℚ) : roundHalfEven x ≤ ⌊x⌋ + 1 := by
  unfold roundHalfEven
  split
  · omega
  · split <;> omega

@[simp] theorem roundHalfEven_intCast (n : ℤ) : roundHalfEven n = n := by
  simp [roundHalfEven]

/-- What is rounded to at most `n`: the numbers below the midpoint, and the midpoint too if `n` is
even. -/
theorem roundHalfEven_le_iff {x : ℚ} {n : ℤ} :
    roundHalfEven x ≤ n ↔ x < n + 1 / 2 ∨ x = n + 1 / 2 ∧ n % 2 = 0 := by
  have hfract : Int.fract x = x - ⌊x⌋ := rfl
  have hlo := Int.floor_le x
  have hhi := Int.lt_floor_add_one x
  rcases lt_trichotomy ⌊x⌋ n with hlt | rfl | hgt
  · have hround := roundHalfEven_le_floor_add_one x
    have hcast : (⌊x⌋ : ℚ) + 1 ≤ n := by exact_mod_cast hlt
    exact ⟨fun _ => .inl (by linarith), fun _ => by omega⟩
  · unfold roundHalfEven
    rw [hfract]
    split
    · next h => exact ⟨fun _ => .inl (by linarith), fun _ => le_rfl⟩
    · next h =>
      split
      · next htie => exact ⟨fun _ => .inr ⟨by linarith [htie.1], htie.2⟩, fun _ => le_rfl⟩
      · next htie =>
        constructor
        · intro hle
          omega
        · rintro (hbelow | ⟨heq, heven⟩)
          · exact absurd (by linarith) h
          · exact absurd ⟨by linarith, heven⟩ htie
  · have hround := floor_le_roundHalfEven x
    have hcast : (n : ℚ) + 1 ≤ ⌊x⌋ := by exact_mod_cast hgt
    constructor
    · intro hle
      omega
    · rintro (hbelow | ⟨heq, -⟩) <;> linarith

theorem roundHalfEven_mono {x y : ℚ} (h : x ≤ y) : roundHalfEven x ≤ roundHalfEven y := by
  rw [roundHalfEven_le_iff]
  rcases roundHalfEven_le_iff.1 (le_refl (roundHalfEven y)) with hbelow | ⟨htie, heven⟩
  · exact .inl (h.trans_lt hbelow)
  · rcases h.lt_or_eq with hlt | heq
    · exact .inl (htie ▸ hlt)
    · exact .inr ⟨heq.trans htie, heven⟩

/-! ## Binary digits -/

/-- The unit in the last place of a number with `p` significant binary digits. -/
def ulp (p : ℕ) (x : ℚ) : ℚ := 2 ^ (Int.log 2 |x| + 1 - p)

/-- `x` to `p` significant binary digits, ties to even. -/
def roundBits (p : ℕ) (x : ℚ) : ℚ := roundHalfEven (x / ulp p x) * ulp p x

/-- To a double, between underflow and overflow. -/
def binary64 (x : ℚ) : ℚ := roundBits 53 x

theorem ulp_pos (p : ℕ) (x : ℚ) : 0 < ulp p x := zpow_pos (by norm_num) _

theorem roundBits_nonpos {p : ℕ} {x : ℚ} (h : x ≤ 0) : roundBits p x ≤ 0 := by
  have hdiv : x / ulp p x ≤ (0 : ℤ) := by
    rw [Int.cast_zero]
    exact div_nonpos_of_nonpos_of_nonneg h (ulp_pos p x).le
  have hround := roundHalfEven_mono hdiv
  rw [roundHalfEven_intCast] at hround
  exact mul_nonpos_of_nonpos_of_nonneg (by exact_mod_cast hround) (ulp_pos p x).le

/-- A power of two is a whole number of units in the last place of a number in its binade. -/
theorem zpow_div_ulp {p : ℕ} {x : ℚ} {k : ℤ} (h : Int.log 2 |x| + 1 ≤ k + p) :
    ∃ n : ℤ, (2 : ℚ) ^ k / ulp p x = n := by
  refine ⟨2 ^ (k - (Int.log 2 |x| + 1 - p)).toNat, ?_⟩
  rw [ulp, ← zpow_sub₀ (by norm_num)]
  push_cast
  rw [← zpow_natCast, Int.toNat_of_nonneg (by omega)]

theorem zpow_le_roundBits {p : ℕ} (hp : 0 < p) {x : ℚ} {k : ℤ} (h : 2 ^ k ≤ x) :
    2 ^ k ≤ roundBits p x := by
  have hx : 0 < x := lt_of_lt_of_le (zpow_pos (by norm_num) k) h
  -- the greatest power of two below `x` is on the grid of `x`
  have hle : (2 : ℚ) ^ k ≤ 2 ^ Int.log 2 x :=
    zpow_le_zpow_right₀ (by norm_num) ((Int.zpow_le_iff_le_log (by norm_num) hx).1 h)
  have hlog : (2 : ℚ) ^ Int.log 2 x ≤ x := Int.zpow_log_le_self (by norm_num) hx
  obtain ⟨n, hn⟩ := zpow_div_ulp (p := p) (x := x) (k := Int.log 2 x) (by
    rw [abs_of_pos hx]
    omega)
  refine hle.trans ?_
  have hround : n ≤ roundHalfEven (x / ulp p x) := by
    rw [← roundHalfEven_intCast n, ← hn]
    exact roundHalfEven_mono (div_le_div_of_nonneg_right hlog (ulp_pos p x).le)
  rw [roundBits, ← div_le_iff₀ (ulp_pos p x), hn]
  exact_mod_cast hround

theorem roundBits_le_zpow {p : ℕ} {x : ℚ} {k : ℤ} (h : x < 2 ^ k) :
    roundBits p x ≤ 2 ^ k := by
  rcases le_or_gt x 0 with hx | hx
  · exact (roundBits_nonpos hx).trans (zpow_pos (by norm_num) k).le
  · have hlog : Int.log 2 x + 1 ≤ k := (Int.lt_zpow_iff_log_lt (by norm_num) hx).1 h
    obtain ⟨n, hn⟩ := zpow_div_ulp (p := p) (x := x) (k := k) (by
      rw [abs_of_pos hx]
      omega)
    have hround : roundHalfEven (x / ulp p x) ≤ n := by
      rw [← roundHalfEven_intCast n, ← hn]
      exact roundHalfEven_mono (div_le_div_of_nonneg_right h.le (ulp_pos p x).le)
    rw [roundBits, ← le_div_iff₀ (ulp_pos p x), hn]
    exact_mod_cast hround

theorem log_eq_of_mem_binade {x : ℚ} {k : ℤ} (hlo : 2 ^ k ≤ x) (hhi : x < 2 ^ (k + 1)) :
    Int.log 2 |x| = k := by
  have hx : 0 < x := lt_of_lt_of_le (zpow_pos (by norm_num) k) hlo
  have hge := (Int.zpow_le_iff_le_log (b := 2) (by norm_num) hx).1 hlo
  have hlt := (Int.lt_zpow_iff_log_lt (b := 2) (by norm_num) hx).1 hhi
  rw [abs_of_pos hx]
  omega

/-- In the binade from `2 ^ k` on, let `c` lie above `n` units and not above `n + 1`. The numbers
that are rounded below `c` are, for an even `n`, those up to the midpoint between the two. -/
theorem roundBits_lt_iff {p : ℕ} {x c : ℚ} {k n : ℤ} (hlo : 2 ^ k ≤ x) (hhi : x < 2 ^ (k + 1))
    (hn : n % 2 = 0) (hc : n * 2 ^ (k + 1 - p) < c) (hc' : c ≤ (n + 1) * 2 ^ (k + 1 - p)) :
    roundBits p x < c ↔ x ≤ (n + 1 / 2) * 2 ^ (k + 1 - p) := by
  have hulp : ulp p x = 2 ^ (k + 1 - p) := by rw [ulp, log_eq_of_mem_binade hlo hhi]
  have hpos : (0 : ℚ) < 2 ^ (k + 1 - p) := zpow_pos (by norm_num) _
  have hmid : roundHalfEven (x / ulp p x) ≤ n ↔ x ≤ (n + 1 / 2) * 2 ^ (k + 1 - p) := by
    rw [roundHalfEven_le_iff, and_iff_left hn, ← le_iff_lt_or_eq, hulp, div_le_iff₀ hpos]
  rw [← hmid, roundBits, hulp]
  constructor
  · intro h
    by_contra hgt
    have hnext : (n : ℚ) + 1 ≤ roundHalfEven (x / 2 ^ (k + 1 - p)) := by
      exact_mod_cast not_le.1 hgt
    exact absurd (h.trans_le hc') (not_lt.2 (mul_le_mul_of_nonneg_right hnext hpos.le))
  · intro h
    have hcast : (roundHalfEven (x / 2 ^ (k + 1 - p)) : ℚ) ≤ n := by exact_mod_cast h
    exact (mul_le_mul_of_nonneg_right hcast hpos.le).trans_lt hc

end Rounding
