import Mathlib.Algebra.Order.Round
import Mathlib.Data.Rat.Floor
import Mathlib.Tactic.Linarith
/-!
# Rounding to integers

Toward zero (`truncate`), and to the nearest integer of an interval with ties to the
even one: what that means (`NearestEven`), that it means one integer
(`NearestEven.unique`), and that clamping first and rounding then gives it
(`nearestEven_clamp`).
-/

namespace LuauFusion.Lib

variable {K : Type*} [Field K] [LinearOrder K] [IsStrictOrderedRing K] [FloorRing K]

/-! ## Toward zero -/

def truncate (x : K) : ℤ := if x < 0 then ⌈x⌉ else ⌊x⌋

/-- `k` is the integer from `lo` to `hi` that is nearest to `x`, the even one of two. -/
structure NearestEven (lo hi : ℤ) (x : K) (k : ℤ) : Prop where
  lower : lo ≤ k
  upper : k ≤ hi
  nearest : ∀ j, lo ≤ j → j ≤ hi → |x - k| ≤ |x - j|
  even : ∀ j, lo ≤ j → j ≤ hi → j ≠ k → |x - j| = |x - k| → Even k

/-- Two even integers as near would leave a nearer one between them. -/
theorem NearestEven.unique {lo hi k l : ℤ} {x : K} (h : NearestEven lo hi x k) (h' : NearestEven lo hi x l) : k = l := by
  by_contra hne
  have heq : |x - k| = |x - l| := le_antisymm (h.nearest l h'.lower h'.upper) (h'.nearest k h.lower h.upper)
  obtain ⟨a, rfl⟩ := h.even l h'.lower h'.upper (Ne.symm hne) heq.symm
  obtain ⟨b, rfl⟩ := h'.even _ h.lower h.upper hne heq
  have hmid : x = ((a + b : ℤ) : K) := by
    rcases abs_eq_abs.1 heq with hsame | hopposite
    · exfalso
      apply hne
      have : ((a + a : ℤ) : K) = ((b + b : ℤ) : K) := by linarith
      exact_mod_cast this
    · push_cast at hopposite ⊢
      linarith
  have hlower := h.lower
  have hupper := h.upper
  have hlower' := h'.lower
  have hupper' := h'.upper
  have hle := h.nearest (a + b) (by omega) (by omega)
  rw [hmid, sub_self, abs_zero, ← Int.cast_sub, ← Int.cast_abs] at hle
  have hzero : |a + b - (a + a)| ≤ 0 := by exact_mod_cast hle
  have := abs_nonpos_iff.1 hzero
  omega

/-! ## To the nearest -/

/-- The nearest integer, the even one of two. -/
def roundEven (x : K) : ℤ := if x = ⌊x⌋ + 1 / 2 ∧ Even ⌊x⌋ then ⌊x⌋ else round x

theorem roundEven_intCast (k : ℤ) : roundEven (k : K) = k := by
  rw [roundEven, if_neg, round_intCast]
  rintro ⟨h, -⟩
  rw [Int.floor_intCast] at h
  linarith

theorem half_beside {n j : ℤ} {x : K} (h : x = n + 1 / 2) (hj : j = n ∨ j = n + 1) : |x - j| = 1 / 2 := by
  rcases hj with rfl | rfl
  · rw [h, add_sub_cancel_left, abs_of_pos (by norm_num)]
  · rw [h, abs_of_neg (by push_cast; linarith)]
    push_cast
    linarith

theorem half_le {n : ℤ} {x : K} (h : x = n + 1 / 2) (j : ℤ) : 1 / 2 ≤ |x - j| := by
  rcases le_or_gt j n with hle | hgt
  · have : (j : K) ≤ n := by exact_mod_cast hle
    rw [abs_of_nonneg (by linarith)]
    linarith
  · have : (n : K) + 1 ≤ j := by exact_mod_cast hgt
    rw [abs_of_neg (by linarith)]
    linarith

/-- Elsewhere, no other integer is as near as the nearest: `x` would lie halfway
between the two. -/
theorem round_off_half {x : K} (h : x ≠ ⌊x⌋ + 1 / 2) {j : ℤ} (hj : j ≠ round x) : |x - j| ≠ |x - round x| := by
  intro heq
  rcases abs_eq_abs.1 heq with hsame | hopposite
  · exact hj (by exact_mod_cast (sub_right_inj.1 hsame))
  · have hsum : 2 * x = ((j + round x : ℤ) : K) := by
      push_cast
      linarith
    obtain ⟨m, hm⟩ | ⟨m, hm⟩ := Int.even_or_odd (j + round x)
    · rw [hm] at hsum
      have hx : x = (m : K) := by
        push_cast at hsum
        linarith
      rw [hx, round_intCast] at hm hj
      omega
    · rw [hm] at hsum
      have hx : x = m + 1 / 2 := by
        push_cast at hsum
        linarith
      apply h
      have hfloor : ⌊x⌋ = m := by
        rw [Int.floor_eq_iff, hx]
        constructor <;> linarith
      rw [hfloor, hx]

/-- It is the nearest integer of every interval that has it. -/
theorem nearestEven_roundEven {lo hi : ℤ} {x : K} (hlo : lo ≤ roundEven x) (hhi : roundEven x ≤ hi) :
    NearestEven lo hi x (roundEven x) := by
  by_cases hhalf : x = ⌊x⌋ + 1 / 2
  · have hround : round x = ⌊x⌋ + 1 := by
      rw [round_eq, Int.floor_eq_iff]
      push_cast
      constructor <;> linarith
    have hone : roundEven x = ⌊x⌋ ∧ Even ⌊x⌋ ∨ roundEven x = ⌊x⌋ + 1 ∧ Even (⌊x⌋ + 1) := by
      by_cases heven : Even ⌊x⌋
      · exact .inl ⟨if_pos ⟨hhalf, heven⟩, heven⟩
      · refine .inr ⟨?_, by rwa [Int.even_add_one]⟩
        rw [roundEven, if_neg fun h => heven h.2, hround]
    have hself : |x - roundEven x| = 1 / 2 := half_beside hhalf (hone.imp And.left And.left)
    refine ⟨hlo, hhi, fun j _ _ => ?_, fun j _ _ _ _ => ?_⟩
    · rw [hself]
      exact half_le hhalf j
    · rcases hone with ⟨hr, he⟩ | ⟨hr, he⟩ <;> rwa [hr]
  · have hround : roundEven x = round x := if_neg fun h => hhalf h.1
    rw [hround] at hlo hhi ⊢
    exact ⟨hlo, hhi, fun j _ _ => round_le x j, fun j _ _ hj heq => absurd heq (round_off_half hhalf hj)⟩

theorem roundEven_mem {lo hi : ℤ} {x : K} (hlo : (lo : K) ≤ x) (hhi : x ≤ hi) : lo ≤ roundEven x ∧ roundEven x ≤ hi := by
  have hfloor : lo ≤ ⌊x⌋ := Int.le_floor.2 hlo
  have hle : ⌊x⌋ ≤ hi := by exact_mod_cast (Int.floor_le x).trans hhi
  unfold roundEven
  split
  · exact ⟨hfloor, hle⟩
  · rw [round_eq]
    constructor
    · exact hfloor.trans (Int.floor_le_floor (by linarith))
    · rw [← Int.lt_add_one_iff, Int.floor_lt]
      push_cast
      linarith

/-- Beyond its end, the end of an interval is the nearest integer, and alone. -/
theorem nearestEven_end {lo hi e : ℤ} {x : K} (hlo : lo ≤ e) (hhi : e ≤ hi)
    (hend : e = lo ∧ x ≤ e ∨ e = hi ∧ (e : K) ≤ x) : NearestEven lo hi x e := by
  have habs : ∀ j, lo ≤ j → j ≤ hi → |x - j| = |x - e| + |(j : K) - e| := by
    intro j hj hj'
    rcases hend with ⟨rfl, hx⟩ | ⟨rfl, hx⟩
    · have : (e : K) ≤ j := by exact_mod_cast hj
      rw [abs_of_nonpos (by linarith), abs_of_nonpos (by linarith), abs_of_nonneg (by linarith)]
      ring
    · have : (j : K) ≤ e := by exact_mod_cast hj'
      rw [abs_of_nonneg (by linarith), abs_of_nonneg (by linarith), abs_of_nonpos (by linarith)]
      ring
  refine ⟨hlo, hhi, fun j hj hj' => ?_, fun j hj hj' hne heq => ?_⟩
  · rw [habs j hj hj']
    exact le_add_of_nonneg_right (abs_nonneg _)
  · rw [habs j hj hj', add_eq_left, abs_eq_zero, sub_eq_zero] at heq
    exact absurd (by exact_mod_cast heq) hne

/-- Clamping, then rounding. -/
theorem nearestEven_clamp {lo hi : ℤ} (hle : lo ≤ hi) (x : K) : NearestEven lo hi x (roundEven (min (max x lo) hi)) := by
  have hle' : (lo : K) ≤ hi := by exact_mod_cast hle
  rcases le_or_gt x lo with hlo | hlo
  · rw [max_eq_right hlo, min_eq_left hle', roundEven_intCast]
    exact nearestEven_end le_rfl hle (.inl ⟨rfl, hlo⟩)
  · rcases le_or_gt x hi with hhi | hhi
    · rw [max_eq_left hlo.le, min_eq_left hhi]
      obtain ⟨h, h'⟩ := roundEven_mem hlo.le hhi
      exact nearestEven_roundEven h h'
    · rw [max_eq_left hlo.le, min_eq_right hhi.le, roundEven_intCast]
      exact nearestEven_end hle le_rfl (.inr ⟨rfl, hhi.le⟩)

end LuauFusion.Lib
