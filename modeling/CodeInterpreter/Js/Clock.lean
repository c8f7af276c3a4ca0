import CodeInterpreter.Python.Double

/-!
# Clock readings of JavaScript

`Date.now` returns a time value of ECMAScript: an integer of milliseconds, at most `8.64e15`. All
integers of that size are doubles, and there is room above them for sums. The seconds of a reading
are `Math.floor(t / 1000)`, where the quotient is one of doubles. For a time value its rounding does
not reach the next second.

## Main definitions

* `TimeValue`, `floorSeconds`.

## Main results

* `floorSeconds_timeValue`: the seconds of a time value are its milliseconds divided by 1000.
* `isDouble_intCast`: the integers up to `2 ^ 53` are doubles.
-/

namespace CodeInterpreter

/-- The last time value. -/
def maxTime : ℕ := 8640000000000000

/-- A time value at or after the epoch: a reading of `Date.now`. -/
structure TimeValue where
  ms : ℕ
  le_max : ms ≤ maxTime

/-- `Math.floor(t / 1000)`. -/
def floorSeconds (t : ℕ) : ℕ :=
  match PyFloat.ofRat ((t : ℚ) / 1000) with
  | .finite q => q.floor.toNat
  | _ => 0 -- the quotient of a finite double is finite

theorem isDouble_intCast {n : ℤ} (hn : |n| ≤ 2 ^ 53) : IsDouble n := by
  refine ⟨n, 0, by simp, hn, by omega, ?_⟩
  have hcast : |(n : ℚ)| ≤ 2 ^ 53 := by exact_mod_cast hn
  exact hcast.trans_lt (pow_lt_pow_right₀ one_lt_two (by decide))

/-! ### Seconds -/

/-- Rounding to an integer adds at most one half. -/
theorem roundHalfEven_le_add_half (q : ℚ) : (roundHalfEven q : ℚ) ≤ q + 1 / 2 := by
  have hfloor : (q.floor : ℚ) ≤ q := Rat.floor_le q
  unfold roundHalfEven
  dsimp only
  split_ifs <;> push_cast <;> linarith

section

variable {a : ℚ} (ha : 0 < a)
include ha

/-- The last bit of a number below `2 ^ 43` is worth less than a millisecond. -/
theorem lastBit_le (hlt : a < 2 ^ 43) : lastBit a ≤ -10 := by
  have hexponent : (2 : ℚ) ^ binaryExponent a < (2 : ℚ) ^ (43 : ℤ) :=
    (binaryExponent_le ha).trans_lt (by exact_mod_cast hlt)
  have := (zpow_lt_zpow_iff_right₀ one_lt_two).mp hexponent
  unfold lastBit
  omega

/-- Rounding adds at most half of the last bit. -/
theorem rounded_le (hlt : a < 2 ^ 43) : rounded a ≤ a + 1 / 2048 := by
  have hbit : (2 : ℚ) ^ lastBit a ≤ (2 : ℚ) ^ (-10 : ℤ) :=
    zpow_le_zpow_right₀ one_le_two (lastBit_le ha hlt)
  have hlast : (2 : ℚ) ^ (-10 : ℤ) = 1 / 1024 := by norm_num
  have hpos : (0 : ℚ) < 2 ^ lastBit a := zpow_pos two_pos _
  rw [hlast] at hbit
  calc rounded a ≤ (a / 2 ^ lastBit a + 1 / 2) * 2 ^ lastBit a :=
        mul_le_mul_of_nonneg_right (roundHalfEven_le_add_half _) hpos.le
    _ = a + 1 / 2 * 2 ^ lastBit a := by rw [add_mul, div_mul_cancel₀ _ hpos.ne']
    _ ≤ a + 1 / 2048 := by linarith

/-- Rounding does not go below an integer. -/
theorem le_rounded (hlt : a < 2 ^ 43) {k : ℕ} (hk : (k : ℚ) ≤ a) : (k : ℚ) ≤ rounded a := by
  have hpos : (0 : ℚ) < 2 ^ lastBit a := zpow_pos two_pos _
  obtain ⟨e, he⟩ : ∃ e : ℕ, lastBit a = -(e : ℤ) :=
    ⟨(lastBit a).natAbs, by have := lastBit_le ha hlt; omega⟩
  -- an integer is a multiple of the last bit
  have hmultiple : (k : ℚ) = ((k * 2 ^ e : ℕ) : ℤ) * 2 ^ lastBit a := by
    rw [he, zpow_neg, zpow_natCast]
    push_cast
    field_simp
  have hfloor : ((k * 2 ^ e : ℕ) : ℤ) ≤ roundHalfEven (a / 2 ^ lastBit a) := by
    refine le_trans (Rat.le_floor_iff.mpr ?_) (le_roundHalfEven _)
    rw [le_div_iff₀ hpos, ← hmultiple]
    exact hk
  rw [hmultiple, rounded]
  exact mul_le_mul_of_nonneg_right (by exact_mod_cast hfloor) hpos.le

end

/-- The seconds of a time value are its milliseconds divided by 1000. -/
theorem floorSeconds_timeValue (t : TimeValue) : floorSeconds t.ms = t.ms / 1000 := by
  rcases Nat.eq_zero_or_pos t.ms with hzero | hms
  · rw [hzero]
    decide +kernel
  have hpos : (0 : ℚ) < t.ms / 1000 := by positivity
  have hmax : (t.ms : ℚ) ≤ 8640000000000000 := by exact_mod_cast t.le_max
  have hlt : (t.ms : ℚ) / 1000 < 2 ^ 43 := by
    rw [div_lt_iff₀ (by norm_num)]
    exact hmax.trans_lt (by norm_num)
  have hdiv : t.ms ≤ 1000 * (t.ms / 1000) + 999 := by omega
  have hmul : t.ms / 1000 * 1000 ≤ t.ms := Nat.div_mul_le_self _ _
  rw [floorSeconds, ofRat_pos hpos]
  generalize t.ms / 1000 = k at hdiv hmul ⊢
  have hlow : (k : ℚ) ≤ t.ms / 1000 := by
    rw [le_div_iff₀ (by norm_num)]
    exact_mod_cast hmul
  have hhigh : (t.ms : ℚ) / 1000 ≤ k + 999 / 1000 := by
    have hcast : (t.ms : ℚ) ≤ 1000 * k + 999 := by exact_mod_cast hdiv
    linarith
  have hrounded : rounded ((t.ms : ℚ) / 1000) < k + 1 := by
    have := rounded_le hpos hlt
    linarith
  have hfinite : rounded ((t.ms : ℚ) / 1000) < (2 : ℚ) ^ (1024 : ℤ) := by
    have hbig : (2 : ℚ) ^ (44 : ℤ) ≤ 2 ^ (1024 : ℤ) := zpow_le_zpow_right₀ one_le_two (by decide)
    refine lt_of_lt_of_le ?_ hbig
    norm_num at hlt ⊢
    linarith
  have hfloor : (rounded ((t.ms : ℚ) / 1000)).floor = k := by
    refine le_antisymm ?_ (Rat.le_floor_iff.mpr (by exact_mod_cast le_rounded hpos hlt hlow))
    by_contra hgt
    have hnext : ((k + 1 : ℕ) : ℤ) ≤ (rounded ((t.ms : ℚ) / 1000)).floor := by omega
    have hreach := Rat.le_floor_iff.mp hnext
    push_cast at hreach
    linarith
  simp only [if_neg hfinite.not_ge, hfloor, Int.toNat_natCast]

/-- A double holds the seconds of a time value. -/
theorem isDouble_floorSeconds (t : TimeValue) : IsDouble (floorSeconds t.ms : ℕ) := by
  rw [floorSeconds_timeValue]
  refine isDouble_natCast ((Nat.div_le_self _ _).trans (t.le_max.trans ?_))
  decide

/-- Beyond the time values the quotient can be rounded to the next second. -/
example : floorSeconds 144115188075856992 = 144115188075856992 / 1000 + 1 := by decide +kernel

end CodeInterpreter
