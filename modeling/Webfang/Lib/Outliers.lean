import Mathlib.Algebra.BigOperators.Group.List.Basic
import Mathlib.Algebra.Order.BigOperators.Group.List
import Mathlib.Algebra.Order.Field.Basic
import Mathlib.Data.Finset.Max

/-!
# Values near their mean

A value is near when its deviation from a center, in units of a spread, is within a limit.  The
limit cuts on both sides: the values that are near are closed downwards just when none is too far
below the center.
-/

namespace Outliers

variable {K : Type*} [Field K] [LinearOrder K] [IsStrictOrderedRing K]

def mean (values : List K) : K := values.sum / values.length

def Near (center spread limit x : K) : Prop := |x - center| / spread ≤ limit

variable {center spread limit : K} {values : List K}

theorem near_iff (positive : 0 < spread) {x : K} :
    Near center spread limit x ↔ center - x ≤ limit * spread ∧ x - center ≤ limit * spread := by
  rw [Near, div_le_iff₀ positive, abs_le, neg_le, neg_sub]

omit [IsStrictOrderedRing K] in
theorem Near.mono {limit' x : K} (near : Near center spread limit x) (wider : limit ≤ limit') :
    Near center spread limit' x :=
  le_trans near wider

/-- A lower bound of the values is one of their mean. -/
theorem le_mean (nonempty : values ≠ []) {y : K} (least : ∀ x ∈ values, y ≤ x) : y ≤ mean values := by
  have count : (0 : K) < values.length := Nat.cast_pos.mpr (List.length_pos_iff.mpr nonempty)
  rw [mean, le_div_iff₀ count, mul_comm, ← nsmul_eq_mul]
  exact List.card_nsmul_le_sum values y least

omit [Field K] [IsStrictOrderedRing K] in
theorem exists_least (nonempty : values ≠ []) : ∃ x ∈ values, ∀ y ∈ values, x ≤ y := by
  obtain ⟨x, member, least⟩ := values.toFinset.exists_min_image id
    (List.toFinset_nonempty_iff values |>.mpr nonempty)
  exact ⟨x, List.mem_toFinset.mp member, fun y inside => least y (List.mem_toFinset.mpr inside)⟩

/-- What is below a near value is near, and the least value is, just when no value is too far below
the mean. -/
theorem downward_iff (positive : 0 < spread) (nonempty : values ≠ []) :
    ((∀ x ∈ values, ∀ y ∈ values, Near (mean values) spread limit x → y ≤ x →
        Near (mean values) spread limit y) ∧
      ∀ x ∈ values, (∀ y ∈ values, x ≤ y) → Near (mean values) spread limit x) ↔
    ∀ x ∈ values, mean values - x ≤ limit * spread := by
  constructor
  · rintro ⟨-, least⟩ x member
    obtain ⟨low, inside, lowest⟩ := exists_least nonempty
    have near := (near_iff positive).mp (least low inside lowest)
    exact (sub_le_sub_left (lowest x member) _).trans near.1
  · intro above
    refine ⟨fun x _ y inside near below => ?_, fun x member lowest => ?_⟩
    · have nearX := (near_iff positive).mp near
      exact (near_iff positive).mpr ⟨above y inside, (sub_le_sub_right below _).trans nearX.2⟩
    · have belowMean := sub_nonneg.mpr (le_mean nonempty lowest)
      have room : 0 ≤ limit * spread := belowMean.trans (above x member)
      refine (near_iff positive).mpr ⟨above x member, le_trans ?_ room⟩
      exact sub_nonpos.mpr (le_mean nonempty lowest)

end Outliers
