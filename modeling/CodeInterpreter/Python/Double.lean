import CodeInterpreter.Python.Value
import Mathlib.Algebra.Order.Field.Power
import Mathlib.Algebra.Order.Floor.Ring
import Mathlib.Data.Rat.Floor
import Mathlib.Tactic.FieldSimp
import Mathlib.Tactic.Linarith

/-!
# Doubles

The finite doubles are the products of an integer of at most 53 bits and a power of two within the
range of the exponent. `PyFloat.ofRat`, which rounds a rational, returns such numbers and leaves
them alone.

## Main definitions

* `IsDouble`: the rationals that a double holds.

## Main results

* `binaryExponent_le`, `lt_binaryExponent`: the power of two below a number.
* `ofRat_of_isDouble`, `isDouble_of_ofRat`: rounding returns doubles and leaves them alone.
* `isDouble_natCast`: the natural numbers up to `2 ^ 53`.
-/

namespace CodeInterpreter

/-- A rational that a double holds. -/
def IsDouble (q : ℚ) : Prop :=
  ∃ (m : ℤ) (u : ℤ), q = m * 2 ^ u ∧ |m| ≤ 2 ^ 53 ∧ -1074 ≤ u ∧ |q| < 2 ^ 1024

theorem IsDouble.neg {q : ℚ} (h : IsDouble q) : IsDouble (-q) := by
  obtain ⟨m, u, rfl, hm, hu, hq⟩ := h
  exact ⟨-m, u, by push_cast; ring, by rwa [abs_neg], hu, by rwa [abs_neg]⟩

/-! ### The exponent -/

/-- A positive rational lies between the powers of two next to the quotient of the leading bits. -/
theorem log2_bounds {q : ℚ} (hq : 0 < q) :
    (2 : ℚ) ^ ((Nat.log2 q.num.natAbs : ℤ) - Nat.log2 q.den - 1) < q ∧
      q < (2 : ℚ) ^ ((Nat.log2 q.num.natAbs : ℤ) - Nat.log2 q.den + 1) := by
  have hnum : q.num.natAbs ≠ 0 := by
    have := Rat.num_pos.mpr hq
    omega
  have hq' : q = (q.num.natAbs : ℚ) / q.den := by
    have habs : ((q.num.natAbs : ℤ) : ℚ) = q.num := by
      rw [Int.natAbs_of_nonneg (Rat.num_pos.mpr hq).le]
    rw [← Int.cast_natCast, habs, Rat.num_div_den]
  have hden : (0 : ℚ) < q.den := by exact_mod_cast q.den_pos
  have hlow : (2 : ℚ) ^ Nat.log2 q.num.natAbs ≤ q.num.natAbs := by
    exact_mod_cast Nat.log2_self_le hnum
  have hhigh : (q.num.natAbs : ℚ) < 2 ^ (Nat.log2 q.num.natAbs + 1) := by
    exact_mod_cast Nat.lt_log2_self
  have hlow' : (2 : ℚ) ^ Nat.log2 q.den ≤ q.den := by exact_mod_cast Nat.log2_self_le q.den_nz
  have hhigh' : (q.den : ℚ) < 2 ^ (Nat.log2 q.den + 1) := by exact_mod_cast Nat.lt_log2_self
  generalize Nat.log2 q.num.natAbs = a at *
  generalize Nat.log2 q.den = b at *
  have hpowa : (0 : ℚ) < 2 ^ a := by positivity
  have hpowb : (0 : ℚ) < 2 ^ b := by positivity
  have hlower : (2 : ℚ) ^ ((a : ℤ) - b - 1) = 2 ^ a / 2 ^ (b + 1) := by
    rw [← zpow_natCast, ← zpow_natCast, ← zpow_sub₀ two_ne_zero]
    congr 1
    push_cast
    ring
  have hupper : (2 : ℚ) ^ ((a : ℤ) - b + 1) = 2 ^ (a + 1) / 2 ^ b := by
    rw [← zpow_natCast, ← zpow_natCast, ← zpow_sub₀ two_ne_zero]
    congr 1
    push_cast
    ring
  rw [hlower, hupper]
  constructor
  · calc (2 : ℚ) ^ a / 2 ^ (b + 1) < 2 ^ a / q.den := by gcongr
      _ ≤ q.num.natAbs / q.den := by gcongr
      _ = q := hq'.symm
  · calc q = q.num.natAbs / q.den := hq'
      _ < 2 ^ (a + 1) / q.den := by gcongr
      _ ≤ 2 ^ (a + 1) / 2 ^ b := by gcongr

theorem binaryExponent_le {q : ℚ} (hq : 0 < q) : (2 : ℚ) ^ binaryExponent q ≤ q := by
  unfold binaryExponent
  dsimp only
  split
  · next h => exact h
  · exact (log2_bounds hq).1.le

theorem lt_binaryExponent {q : ℚ} (hq : 0 < q) : q < (2 : ℚ) ^ (binaryExponent q + 1) := by
  unfold binaryExponent
  dsimp only
  split
  · exact (log2_bounds hq).2
  · next h =>
    rw [sub_add_cancel]
    exact lt_of_not_ge h

/-! ### Rounding -/

theorem roundHalfEven_intCast (n : ℤ) : roundHalfEven n = n := by
  unfold roundHalfEven
  simp [Rat.floor_intCast]

theorem le_roundHalfEven (q : ℚ) : q.floor ≤ roundHalfEven q := by
  unfold roundHalfEven
  dsimp only
  split_ifs <;> omega

/-- Rounding does not go past an integer. -/
theorem roundHalfEven_le {q : ℚ} {n : ℤ} (hq : q ≤ n) : roundHalfEven q ≤ n := by
  have hfloor : q.floor ≤ n := by
    have := Rat.floor_le q
    exact_mod_cast this.trans hq
  rcases hfloor.lt_or_eq with hlt | heq
  · unfold roundHalfEven
    dsimp only
    split_ifs <;> omega
  · -- the fraction is then zero
    have hint : q = (n : ℚ) := le_antisymm hq (heq ▸ Rat.floor_le q)
    rw [hint, roundHalfEven_intCast]

/-- The exponent of the last bit of the double next to a positive number. -/
def lastBit (a : ℚ) : ℤ := max (binaryExponent a - 52) (-1074)

/-- A positive number, rounded to that bit. -/
def rounded (a : ℚ) : ℚ := roundHalfEven (a / 2 ^ lastBit a) * 2 ^ lastBit a

theorem ofRat_pos {a : ℚ} (ha : 0 < a) :
    PyFloat.ofRat a =
      if (2 : ℚ) ^ (1024 : ℤ) ≤ rounded a then .infinity false else .finite (rounded a) := by
  simp only [PyFloat.ofRat, if_neg ha.ne', ha.not_gt, if_false, rounded, lastBit, decide_false]
  congr

theorem ofRat_neg {a : ℚ} (ha : 0 < a) :
    PyFloat.ofRat (-a) =
      if (2 : ℚ) ^ (1024 : ℤ) ≤ rounded a then .infinity true else .finite (-rounded a) := by
  have hneg : -a < 0 := by linarith
  simp only [PyFloat.ofRat, if_neg hneg.ne, hneg, if_true, rounded, lastBit, neg_neg, decide_true]
  congr

/-- A double is a multiple of its last bit. -/
theorem rounded_of_isDouble {a : ℚ} (ha : 0 < a) (h : IsDouble a) : rounded a = a := by
  obtain ⟨m, u, hmu, hm, hu, -⟩ := h
  have htwo : (2 : ℚ) ≠ 0 := two_ne_zero
  have hpow : (0 : ℚ) < 2 ^ u := zpow_pos two_pos u
  -- it is enough that the quotient is an integer
  suffices h : ∃ k : ℤ, a / 2 ^ lastBit a = k by
    obtain ⟨k, hk⟩ := h
    rw [rounded, hk, roundHalfEven_intCast, ← hk, div_mul_cancel₀ _ (zpow_ne_zero _ htwo)]
  rcases le_or_gt (lastBit a) u with hle | hlt
  · refine ⟨m * 2 ^ (u - lastBit a).toNat, ?_⟩
    have hexp : ((u - lastBit a).toNat : ℤ) = u - lastBit a := Int.toNat_of_nonneg (by omega)
    push_cast
    rw [← zpow_natCast, hexp, zpow_sub₀ htwo, ← mul_div_assoc, ← hmu]
  · -- the number is then the power of two above the integers of 53 bits
    have hbit : lastBit a = binaryExponent a - 52 := by
      unfold lastBit at hlt ⊢
      omega
    have hlow : (2 : ℚ) ^ (u + 53) ≤ a := by
      refine le_trans (zpow_le_zpow_right₀ one_le_two ?_) (binaryExponent_le ha)
      omega
    have hhigh : a ≤ 2 ^ (u + 53) := by
      have hcast : (m : ℚ) ≤ 2 ^ 53 := by exact_mod_cast (le_abs_self m).trans hm
      calc a = m * 2 ^ u := hmu
        _ ≤ 2 ^ 53 * 2 ^ u := by gcongr
        _ = 2 ^ (u + 53) := by
          rw [zpow_add₀ htwo, mul_comm]
          norm_num
    have heq : a = (2 : ℚ) ^ (u + 53) := le_antisymm hhigh hlow
    have hexp : binaryExponent a ≤ u + 53 :=
      (zpow_le_zpow_iff_right₀ one_lt_two).mp ((binaryExponent_le ha).trans hhigh)
    refine ⟨2 ^ 52, ?_⟩
    have hu53 : lastBit a = u + 1 := by omega
    rw [hu53, heq, ← zpow_sub₀ htwo]
    have : u + 53 - (u + 1) = (52 : ℕ) := by omega
    rw [this, zpow_natCast]
    norm_num

/-- Rounding returns a double. -/
theorem isDouble_rounded {a : ℚ} (ha : 0 < a) (hlt : rounded a < 2 ^ (1024 : ℤ)) :
    0 ≤ rounded a ∧ IsDouble (rounded a) := by
  have hpow : (0 : ℚ) < 2 ^ lastBit a := zpow_pos two_pos _
  have hnonneg : 0 ≤ roundHalfEven (a / 2 ^ lastBit a) := by
    refine le_trans ?_ (le_roundHalfEven _)
    exact Rat.le_floor_iff.mpr (by simpa using (div_pos ha hpow).le)
  have hbound : a / 2 ^ lastBit a ≤ ((2 ^ 53 : ℤ) : ℚ) := by
    rw [div_le_iff₀ hpow]
    calc a ≤ 2 ^ (binaryExponent a + 1) := (lt_binaryExponent ha).le
      _ ≤ 2 ^ (lastBit a + 53) := zpow_le_zpow_right₀ one_le_two (by unfold lastBit; omega)
      _ = ((2 ^ 53 : ℤ) : ℚ) * 2 ^ lastBit a := by
        rw [zpow_add₀ two_ne_zero, mul_comm]
        norm_num
  have hrounded : 0 ≤ rounded a := mul_nonneg (by exact_mod_cast hnonneg) hpow.le
  refine ⟨hrounded, _, _, rfl, ?_, le_max_right _ _, ?_⟩
  · rw [abs_of_nonneg hnonneg]
    exact roundHalfEven_le hbound
  · rw [abs_of_nonneg hrounded]
    exact_mod_cast hlt

/-- A double is left alone. -/
theorem ofRat_of_isDouble {q : ℚ} (h : IsDouble q) : PyFloat.ofRat q = .finite q := by
  have habs : |q| < 2 ^ (1024 : ℤ) := by
    obtain ⟨_, _, -, -, -, hq⟩ := h
    exact_mod_cast hq
  rcases lt_trichotomy q 0 with hneg | rfl | hpos
  · have hround := rounded_of_isDouble (neg_pos.mpr hneg) h.neg
    rw [abs_of_neg hneg] at habs
    have heq := ofRat_neg (neg_pos.mpr hneg)
    rwa [hround, if_neg habs.not_ge, neg_neg] at heq
  · rfl
  · rw [abs_of_pos hpos] at habs
    rw [ofRat_pos hpos, rounded_of_isDouble hpos h, if_neg habs.not_ge]

/-- What rounding returns is a double. -/
theorem isDouble_of_ofRat {r q : ℚ} (h : PyFloat.ofRat r = .finite q) : IsDouble q := by
  rcases lt_trichotomy r 0 with hneg | rfl | hpos
  · have heq := ofRat_neg (neg_pos.mpr hneg)
    rw [neg_neg, h] at heq
    split at heq
    · cases heq
    · next hlt =>
      cases heq
      exact (isDouble_rounded (neg_pos.mpr hneg) (lt_of_not_ge hlt)).2.neg
  · cases h
    exact ⟨0, 0, by simp, by simp, by omega, by simp⟩
  · rw [ofRat_pos hpos] at h
    split at h
    · cases h
    · next hlt =>
      cases h
      exact (isDouble_rounded hpos (lt_of_not_ge hlt)).2

theorem isDouble_natCast {n : ℕ} (hn : n ≤ 2 ^ 53) : IsDouble n := by
  refine ⟨n, 0, by simp, ?_, by omega, ?_⟩
  · rw [abs_of_nonneg (by omega)]
    exact_mod_cast hn
  · rw [abs_of_nonneg (by positivity)]
    have hcast : (n : ℚ) ≤ 2 ^ 53 := by exact_mod_cast hn
    exact hcast.trans_lt (pow_lt_pow_right₀ one_lt_two (by decide))

end CodeInterpreter
