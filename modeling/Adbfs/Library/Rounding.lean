import Mathlib.Data.Int.Log
import Mathlib.Tactic

/-! Rounding to the nearest integer, ties to even, and to the nearest number of a binary format. -/

namespace Adbfs.Library

variable {R : Type*} [Field R] [LinearOrder R] [IsStrictOrderedRing R] [FloorRing R]

def roundEven (x : R) : ℤ :=
  if 2 * Int.fract x < 1 then ⌊x⌋
  else if 1 < 2 * Int.fract x then ⌊x⌋ + 1
  else if Even ⌊x⌋ then ⌊x⌋ else ⌊x⌋ + 1

omit [IsStrictOrderedRing R] in
lemma roundEven_cases (x : R) :
    (roundEven x = ⌊x⌋ ∧ 2 * Int.fract x ≤ 1) ∨ (roundEven x = ⌊x⌋ + 1 ∧ 1 ≤ 2 * Int.fract x) := by
  rw [roundEven]
  split_ifs with hlow hhigh heven
  · exact Or.inl ⟨rfl, hlow.le⟩
  · exact Or.inr ⟨rfl, hhigh.le⟩
  · exact Or.inl ⟨rfl, not_lt.mp hhigh⟩
  · exact Or.inr ⟨rfl, not_lt.mp hlow⟩

lemma two_mul_abs_roundEven_sub_le (x : R) : 2 * |(roundEven x : R) - x| ≤ 1 := by
  have hfract : x = ⌊x⌋ + Int.fract x := (Int.floor_add_fract x).symm
  have hnonneg := Int.fract_nonneg x
  have hlt := Int.fract_lt_one x
  rcases roundEven_cases x with ⟨h, hle⟩ | ⟨h, hle⟩
  · have hsub : (roundEven x : R) - x = -Int.fract x := by rw [h]; linarith
    rw [hsub, abs_neg, abs_of_nonneg hnonneg]
    exact hle
  · have hsub : (roundEven x : R) - x = 1 - Int.fract x := by rw [h]; push_cast; linarith
    rw [hsub, abs_of_pos (by linarith)]
    linarith

omit [FloorRing R] in
lemma eq_of_abs_sub_lt_one {m n : ℤ} (h : |(m : R) - n| < 1) : m = n := by
  rw [← Int.cast_sub, ← Int.cast_abs, ← Int.cast_one, Int.cast_lt, Int.abs_lt_one_iff] at h
  exact sub_eq_zero.mp h

lemma roundEven_intCast (n : ℤ) : roundEven (n : R) = n := by
  have hround := two_mul_abs_roundEven_sub_le (n : R)
  exact eq_of_abs_sub_lt_one (R := R) (by linarith)

omit [IsStrictOrderedRing R] in
lemma roundEven_nonneg {x : R} (hx : 0 ≤ x) : 0 ≤ roundEven x := by
  have hfloor : 0 ≤ ⌊x⌋ := Int.floor_nonneg.mpr hx
  rcases roundEven_cases x with ⟨h, -⟩ | ⟨h, -⟩ <;> omega

/-- A significand of so many bits, the exponent of the last place of the smallest numbers, and the
power of two at which numbers overflow. -/
structure BinaryFormat where
  precision : ℕ
  lowest : ℤ
  limit : ℤ

namespace BinaryFormat

variable (F : BinaryFormat) {x : R}

def place (x : R) : ℤ := max (Int.log 2 x + 1 - F.precision) F.lowest

def nearest (x : R) : R := roundEven (x / 2 ^ F.place x) * 2 ^ F.place x

def round (x : R) : Option R := if F.nearest x < 2 ^ F.limit then some (F.nearest x) else none

lemma two_mul_abs_nearest_sub_le (x : R) : 2 * |F.nearest x - x| ≤ 2 ^ F.place x := by
  have hpos : (0 : R) < 2 ^ F.place x := zpow_pos two_pos _
  have hscale : F.nearest x - x =
      ((roundEven (x / 2 ^ F.place x) : R) - x / 2 ^ F.place x) * 2 ^ F.place x := by
    rw [nearest, sub_mul, div_mul_cancel₀ _ hpos.ne']
  rw [hscale, abs_mul, abs_of_pos hpos, ← mul_assoc]
  exact mul_le_of_le_one_left hpos.le (two_mul_abs_roundEven_sub_le _)

lemma nearest_nonneg (hx : 0 ≤ x) : 0 ≤ F.nearest x := by
  have hpos : (0 : R) < 2 ^ F.place x := zpow_pos two_pos _
  have hround := roundEven_nonneg (div_nonneg hx hpos.le)
  exact mul_nonneg (Int.cast_nonneg hround) hpos.le

@[simp] lemma nearest_zero : F.nearest (0 : R) = 0 := by
  have hround := roundEven_intCast (R := R) 0
  rw [Int.cast_zero] at hround
  rw [nearest, zero_div, hround, Int.cast_zero, zero_mul]

lemma place_le {k : ℤ} (hx : 0 < x) (hk : x < 2 ^ k) (hlowest : F.lowest ≤ k - F.precision) :
    F.place x ≤ k - F.precision := by
  have hlog : Int.log 2 x < k := (Int.lt_zpow_iff_log_lt one_lt_two hx).mp (by exact_mod_cast hk)
  rw [place]
  omega

lemma two_mul_abs_nearest_sub_le_of_lt {k : ℤ} (hx : 0 ≤ x) (hk : x < 2 ^ k)
    (hlowest : F.lowest ≤ k - F.precision) :
    2 * |F.nearest x - x| ≤ 2 ^ (k - F.precision) := by
  rcases hx.eq_or_lt with rfl | hpos
  · simp only [nearest_zero, sub_zero, abs_zero, mul_zero]
    exact (zpow_pos two_pos _).le
  · calc 2 * |F.nearest x - x| ≤ 2 ^ F.place x := F.two_mul_abs_nearest_sub_le x
      _ ≤ 2 ^ (k - F.precision) := zpow_le_zpow_right₀ one_le_two (F.place_le hpos hk hlowest)

/-- Rounding to the format and then to a multiple of `1 / d`. -/
lemma two_mul_abs_roundEven_nearest_mul_sub_le {k : ℤ} {d : R} (hd : 0 < d) (hx : 0 ≤ x)
    (hk : x < 2 ^ k) (hlowest : F.lowest ≤ k - F.precision) :
    2 * |(roundEven (F.nearest x * d) : R) - x * d| ≤ 1 + 2 ^ (k - F.precision) * d := by
  have hround := two_mul_abs_roundEven_sub_le (F.nearest x * d)
  have hnear : 2 * |F.nearest x * d - x * d| ≤ 2 ^ (k - F.precision) * d := by
    rw [← sub_mul, abs_mul, abs_of_pos hd, ← mul_assoc]
    gcongr
    exact F.two_mul_abs_nearest_sub_le_of_lt hx hk hlowest
  have htriangle := abs_sub_le (roundEven (F.nearest x * d) : R) (F.nearest x * d) (x * d)
  linarith

lemma nearest_lt {k : ℤ} (hx : 0 ≤ x) (hk : x < 2 ^ k) (hlowest : F.lowest ≤ k - F.precision) :
    F.nearest x < 2 ^ (k + 1) := by
  have herror := F.two_mul_abs_nearest_sub_le_of_lt hx hk hlowest
  have hplace : (2 : R) ^ (k - F.precision) ≤ 2 ^ k := zpow_le_zpow_right₀ one_le_two (by omega)
  have hnear := le_abs_self (F.nearest x - x)
  rw [zpow_add_one₀ two_ne_zero]
  linarith [zpow_pos (two_pos : (0 : R) < 2) k]

lemma round_eq_some {k : ℤ} (hx : 0 ≤ x) (hk : x < 2 ^ k) (hlowest : F.lowest ≤ k - F.precision)
    (hlimit : k < F.limit) : F.round x = some (F.nearest x) := by
  have hlt := F.nearest_lt hx hk hlowest
  rw [round, if_pos (hlt.trans_le (zpow_le_zpow_right₀ one_le_two (by omega)))]

end BinaryFormat

end Adbfs.Library
