import SocketTuner.Lib.Rounding

/-!
# The reward

The arithmetic of `SocketTunerEnvironment.step`: the reduction of the duration against the
baseline, the reward clamped and rounded to two decimals, and the early stop.

Python computes in doubles, where one of these operations is inexact: the division, of integers of
at most 64 bits. How its quotient is rounded is a parameter of `score`: with `binary64` it is what
the code computes, with `id` it is exact. Doubling loses nothing, and `round(x, 2)` is the nearest
of the decimals to the exact value of `x`. A reward stands for the decimal that it prints as, as the
bounds 0.01 and 0.99 do: their doubles are rounded to themselves.

`score_min_iff`: when a step earns the minimum and goes on, in doubles. `reward_law`: bounds,
monotonicity, thresholds and scale, in exact arithmetic.
-/

namespace SocketTuner.Env

open Rounding

/-- `round(x, 2)`. -/
def round2 (x : ℚ) : ℚ := roundHalfEven (x * 100) / 100

/-- What `step` computes from the two durations. -/
structure Score where
  reward : ℚ
  doneEarly : Bool
  reduction : ℚ
  deriving DecidableEq, Repr

/-- Reward, early stop and reduction of a step that took `duration` against `baseline`, where
`round` is what is kept of the quotient. -/
def score (round : ℚ → ℚ) (baseline duration : Nat) : Score :=
  if 0 < baseline ∧ 0 < duration then
    let reduction : ℚ := round ((baseline - duration) / baseline)
    let reward := if 0 < reduction then reduction * 2 else 1 / 100
    { reward := round2 (max (1 / 100) (min (99 / 100) reward))
      doneEarly := decide (1 / 2 ≤ reduction)
      reduction }
  else { reward := 1 / 100, doneEarly := false, reduction := 0 }

theorem roundHalfEven_eq_one_iff {x : ℚ} (hx : 1 ≤ x) : roundHalfEven x = 1 ↔ x < 3 / 2 := by
  have hge : 1 ≤ roundHalfEven x := by
    rw [← roundHalfEven_intCast 1]
    exact roundHalfEven_mono (by exact_mod_cast hx)
  have hle := roundHalfEven_le_iff (x := x) (n := 1)
  norm_num at hle
  rw [← hle]
  omega

/-- The clamped reward rounds to its minimum exactly below one and a half hundredths. -/
theorem round2_clamp_eq_min_iff (x : ℚ) :
    round2 (max (1 / 100) (min (99 / 100) x)) = 1 / 100 ↔ x < 3 / 200 := by
  have hge : 1 ≤ max (1 / 100) (min (99 / 100) x) * 100 := by
    have := le_max_left (1 / 100) (min (99 / 100) x)
    linarith
  have hround : round2 (max (1 / 100) (min (99 / 100) x)) = 1 / 100 ↔
      roundHalfEven (max (1 / 100) (min (99 / 100) x) * 100) = 1 := by
    unfold round2
    rw [div_left_inj' (by norm_num)]
    exact_mod_cast Iff.rfl
  rw [hround, roundHalfEven_eq_one_iff hge]
  constructor
  · intro h
    by_contra hx
    have : 3 / 200 ≤ min (99 / 100) x := le_min (by norm_num) (not_lt.1 hx)
    have := le_max_right (1 / 100) (min (99 / 100) x)
    linarith
  · intro h
    have : max (1 / 100) (min (99 / 100) x) < 3 / 200 :=
      max_lt (by norm_num) (lt_of_le_of_lt (min_le_right _ _) h)
    linarith

theorem score_of_not_pos {round : ℚ → ℚ} {baseline duration : Nat}
    (h : ¬(0 < baseline ∧ 0 < duration)) :
    score round baseline duration = { reward := 1 / 100, doneEarly := false, reduction := 0 } := by
  simp only [score, h, ↓reduceIte]

/-- A step with both durations earns the minimum and goes on exactly when the reduction, as it is
rounded, is below three quarters of a percent. -/
theorem score_min_iff_of_pos {round : ℚ → ℚ} {baseline duration : Nat}
    (h : 0 < baseline ∧ 0 < duration) :
    ((score round baseline duration).reward = 1 / 100 ∧
        (score round baseline duration).doneEarly = false) ↔
      round (((baseline : ℚ) - duration) / baseline) < 3 / 400 := by
  simp only [score, h, and_self, ↓reduceIte, round2_clamp_eq_min_iff, decide_eq_false_iff_not,
    not_le]
  set r : ℚ := round ((baseline - duration) / baseline)
  by_cases hr : 0 < r
  · rw [if_pos hr]
    constructor
    · rintro ⟨h, -⟩
      linarith
    · intro h
      constructor <;> linarith
  · rw [if_neg hr]
    constructor
    · intro _
      linarith
    · intro _
      constructor
      · norm_num
      · linarith

/-- Three quarters of a percent is no double. It lies above `8646911284551352` units of its binade
and below one more, so what is rounded below it ends at the midpoint of the two. -/
theorem binary64_lt_iff (x : ℚ) : binary64 x < 3 / 400 ↔ 2 ^ 61 * x ≤ 17293822569102705 := by
  rcases lt_or_ge x (2 ^ (-8 : ℤ)) with hlt | hlo
  · have hround : binary64 x ≤ 2 ^ (-8 : ℤ) := roundBits_le_zpow hlt
    norm_num at hlt hround
    constructor <;> intro _ <;> linarith
  · rcases lt_or_ge x (2 ^ (-8 + 1 : ℤ)) with hhi | hge
    · have hiff := roundBits_lt_iff (p := 53) (n := 8646911284551352) (c := 3 / 400) hlo hhi
        (by decide) (by norm_num) (by norm_num)
      refine hiff.trans ?_
      norm_num
      constructor <;> intro _ <;> linarith
    · have hround : 2 ^ (-8 + 1 : ℤ) ≤ binary64 x := zpow_le_roundBits (by decide) hge
      norm_num at hge hround
      constructor <;> intro _ <;> linarith

/-- A step earns the minimum and goes on exactly when a duration is missing or the reduction is at
most `17293822569102705 / 2 ^ 61`, which is just above three quarters of a percent. -/
theorem score_min_iff (baseline duration : Nat) :
    ((score binary64 baseline duration).reward = 1 / 100 ∧
        (score binary64 baseline duration).doneEarly = false) ↔
      baseline = 0 ∨ duration = 0 ∨
        2 ^ 61 * baseline ≤ 17293822569102705 * baseline + 2 ^ 61 * duration := by
  by_cases h : 0 < baseline ∧ 0 < duration
  · have hb : (0 : ℚ) < baseline := by exact_mod_cast h.1
    rw [score_min_iff_of_pos h, binary64_lt_iff, mul_div_assoc', div_le_iff₀ hb,
      ← Nat.cast_le (α := ℚ)]
    simp only [h.1.ne', h.2.ne', false_or]
    push_cast
    constructor <;> intro h <;> linarith
  · rw [score_of_not_pos h]
    rw [not_and_or, Nat.not_lt, Nat.not_lt, Nat.le_zero, Nat.le_zero] at h
    simp only [true_and]
    tauto

/-- Doubles at a boundary: the minimum for exactly three quarters of a percent, a hundredth less
than the exact reward, and a stop just short of a half. -/
example : (score binary64 400 397).reward = 1 / 100 ∧ (score binary64 80 41).reward = 97 / 100 ∧
    (score binary64 (2 ^ 55) (2 ^ 54 + 1)).doneEarly = true ∧
    (score id (2 ^ 55) (2 ^ 54 + 1)).doneEarly = false := by
  decide +kernel

/-! ## The reward law -/

theorem round2_mono : Monotone round2 := fun x y h => by
  have hround : (roundHalfEven (x * 100) : ℚ) ≤ roundHalfEven (y * 100) := by
    exact_mod_cast roundHalfEven_mono (by linarith)
  unfold round2
  linarith

theorem round2_of_eq {x : ℚ} {n : ℤ} (h : x * 100 = n) : round2 x = x := by
  rw [round2, h, roundHalfEven_intCast, ← h]
  linarith

/-- The reward of a reduction: doubled, clamped and rounded. -/
def clampedReward (reduction : ℚ) : ℚ := round2 (max (1 / 100) (min (99 / 100) (reduction * 2)))

/-- Without a reduction the reward is the minimum, as doubling and clamping gives too. -/
theorem score_reward {round : ℚ → ℚ} {baseline duration : Nat} (h : 0 < baseline ∧ 0 < duration) :
    (score round baseline duration).reward =
      clampedReward (round (((baseline : ℚ) - duration) / baseline)) := by
  simp only [score, h, and_self, ↓reduceIte, clampedReward]
  set r : ℚ := round ((baseline - duration) / baseline)
  by_cases hr : 0 < r
  · rw [if_pos hr]
  · have hneg : min (99 / 100) (r * 2) ≤ 1 / 100 := (min_le_right _ _).trans (by linarith)
    rw [if_neg hr, max_eq_left hneg]
    norm_num

theorem clampedReward_mono : Monotone clampedReward := fun r r' h =>
  round2_mono (max_le_max_left _ (min_le_min_left _ (by linarith)))

theorem clampedReward_of_le {r : ℚ} (h : r ≤ 1 / 200) : clampedReward r = 1 / 100 := by
  have hmin : min (99 / 100) (r * 2) ≤ 1 / 100 := (min_le_right _ _).trans (by linarith)
  rw [clampedReward, max_eq_left hmin]
  exact round2_of_eq (n := 1) (by norm_num)

theorem clampedReward_of_ge {r : ℚ} (h : 99 / 200 ≤ r) : clampedReward r = 99 / 100 := by
  rw [clampedReward, min_eq_left (by linarith), max_eq_right (by norm_num)]
  exact round2_of_eq (n := 99) (by norm_num)

theorem clampedReward_quarter : clampedReward (1 / 4) = 1 / 2 := by
  rw [clampedReward, min_eq_right (by norm_num), max_eq_right (by norm_num)]
  rw [round2_of_eq (n := 50) (by norm_num)]
  norm_num

theorem clampedReward_mem (r : ℚ) : 1 / 100 ≤ clampedReward r ∧ clampedReward r ≤ 99 / 100 := by
  constructor
  · rcases le_total r (1 / 200) with h | h
    · exact (clampedReward_of_le h).ge
    · exact (clampedReward_of_le le_rfl).ge.trans (clampedReward_mono h)
  · rcases le_total r (99 / 200) with h | h
    · exact (clampedReward_mono h).trans (clampedReward_of_ge le_rfl).le
    · exact (clampedReward_of_ge h).le

section Rounded

variable (round : ℚ → ℚ) (baseline duration : Nat)

theorem reward_mem :
    1 / 100 ≤ (score round baseline duration).reward ∧
      (score round baseline duration).reward ≤ 99 / 100 := by
  by_cases h : 0 < baseline ∧ 0 < duration
  · rw [score_reward h]
    exact clampedReward_mem _
  · rw [score_of_not_pos h]
    norm_num

theorem exists_hundredths : ∃ n : ℤ, 100 * (score round baseline duration).reward = n := by
  by_cases h : 0 < baseline ∧ 0 < duration
  · rw [score_reward h]
    exact ⟨_, by rw [clampedReward, round2, mul_div_cancel₀ _ (by norm_num)]⟩
  · exact ⟨1, by rw [score_of_not_pos h]; norm_num⟩

variable {baseline duration}

theorem reward_of_doneEarly (h : (score round baseline duration).doneEarly = true) :
    (score round baseline duration).reward = 99 / 100 := by
  by_cases hpos : 0 < baseline ∧ 0 < duration
  · rw [score_reward hpos]
    simp only [score, hpos, and_self, ↓reduceIte, decide_eq_true_eq] at h
    exact clampedReward_of_ge (by linarith)
  · rw [score_of_not_pos hpos] at h
    cases h

variable (baseline duration)

theorem score_mul {k : Nat} (hk : 0 < k) :
    score round (k * baseline) (k * duration) = score round baseline duration := by
  by_cases h : 0 < baseline ∧ 0 < duration
  · have hk' : (k : ℚ) ≠ 0 := by exact_mod_cast hk.ne'
    have hred : (((k * baseline : Nat) : ℚ) - (k * duration : Nat)) / (k * baseline : Nat) =
        ((baseline : ℚ) - duration) / baseline := by
      push_cast
      rw [← mul_sub, mul_div_mul_left _ _ hk']
    have hpos : 0 < k * baseline ∧ 0 < k * duration :=
      ⟨Nat.mul_pos hk h.1, Nat.mul_pos hk h.2⟩
    simp only [score, h, hpos, and_self, ↓reduceIte, hred]
  · have hneg : ¬(0 < k * baseline ∧ 0 < k * duration) := fun hpos =>
      h ⟨Nat.pos_of_mul_pos_left hpos.1, Nat.pos_of_mul_pos_left hpos.2⟩
    rw [score_of_not_pos h, score_of_not_pos hneg]

end Rounded

theorem reward_antitone {round : ℚ → ℚ} (hround : Monotone round) (baseline : Nat) {d₁ d₂ : Nat}
    (hpos : 0 < d₁) (h : d₁ ≤ d₂) :
    (score round baseline d₂).reward ≤ (score round baseline d₁).reward := by
  by_cases hb : 0 < baseline
  · rw [score_reward ⟨hb, hpos⟩, score_reward ⟨hb, hpos.trans_le h⟩]
    refine clampedReward_mono (hround (div_le_div_of_nonneg_right ?_ (Nat.cast_nonneg _)))
    have hle : (d₁ : ℚ) ≤ d₂ := by exact_mod_cast h
    linarith
  · rw [score_of_not_pos fun h => hb h.1, score_of_not_pos fun h => hb h.1]

theorem half_le_reward {baseline duration : Nat} (h : 0 < baseline ∧ 0 < duration)
    (hr : 1 / 4 ≤ ((baseline : ℚ) - duration) / baseline) :
    1 / 2 ≤ (score id baseline duration).reward := by
  rw [score_reward h, ← clampedReward_quarter]
  exact clampedReward_mono hr

theorem doneEarly_iff (baseline duration : Nat) :
    (score id baseline duration).doneEarly = true ↔
      0 < baseline ∧ 0 < duration ∧ 2 * duration ≤ baseline := by
  by_cases h : 0 < baseline ∧ 0 < duration
  · have hb : (0 : ℚ) < baseline := by exact_mod_cast h.1
    have hred : (1 : ℚ) / 2 ≤ ((baseline : ℚ) - duration) / baseline ↔
        2 * duration ≤ baseline := by
      rw [le_div_iff₀ hb, ← Nat.cast_le (α := ℚ)]
      push_cast
      constructor <;> intro h <;> linarith
    simp only [score, h, and_self, ↓reduceIte, decide_eq_true_eq, id_eq, hred, true_and]
  · rw [score_of_not_pos h]
    simp only [Bool.false_eq_true, false_iff]
    tauto

/-- **The reward law**: the reward is a whole number of hundredths between its bounds, never lower
for a shorter step, at least a half from a reduction of 25% on, and maximal at the early stop, which
is at half the baseline; it depends on the ratio of the durations alone. -/
theorem reward_law (baseline duration : Nat) :
    (1 / 100 ≤ (score id baseline duration).reward ∧
      (score id baseline duration).reward ≤ 99 / 100 ∧
      ∃ n : ℤ, 100 * (score id baseline duration).reward = n) ∧
    (∀ d₁ d₂, 0 < d₁ → d₁ ≤ d₂ →
      (score id baseline d₂).reward ≤ (score id baseline d₁).reward) ∧
    (0 < baseline → 0 < duration → 1 / 4 ≤ ((baseline : ℚ) - duration) / baseline →
      1 / 2 ≤ (score id baseline duration).reward) ∧
    ((score id baseline duration).doneEarly = true ↔
      0 < baseline ∧ 0 < duration ∧ 2 * duration ≤ baseline) ∧
    ((score id baseline duration).doneEarly = true →
      (score id baseline duration).reward = 99 / 100) ∧
    ∀ k, 0 < k →
      (score id (k * baseline) (k * duration)).reward = (score id baseline duration).reward :=
  ⟨⟨(reward_mem _ _ _).1, (reward_mem _ _ _).2, exists_hundredths _ _ _⟩,
    fun _ _ => reward_antitone monotone_id baseline, fun hb hd => half_le_reward ⟨hb, hd⟩,
    doneEarly_iff _ _, reward_of_doneEarly _, fun _ hk => by rw [score_mul _ _ _ hk]⟩

end SocketTuner.Env
