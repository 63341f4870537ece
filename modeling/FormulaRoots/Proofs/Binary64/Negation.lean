import FormulaRoots.Proofs.Binary64.Order

/-! The negation of a double. It turns the steps above zero into steps below zero and keeps the absolute
value. -/
namespace FormulaRoots.Binary64
open Float.Model Float.Model.UnpackedFloat

private theorem unpack_neg (v : Float) : (-v).toModel.unpack = v.toModel.unpack.neg := by
  have hneg : (-v).toModel.unpack =
      UnpackedFloat.unpack .binary64 (UnpackedFloat.pack .binary64 v.toModel.unpack.neg) := rfl
  have hv : v.toModel.unpack = UnpackedFloat.unpack .binary64 v.toModel.toBits.toBitVec := rfl
  rw [hneg]
  have hcases := unpack_cases v.toModel.toBits.toBitVec
  rw [← hv] at hcases
  generalize Sign.ofBitVec _ = s at hcases
  rcases hcases with ⟨n, hn, hlt, hu⟩ | hu | hu
  · rw [hu, neg_ofSteps, unpack_pack_ofSteps (-s) hn, if_pos hlt]
  · rw [hu]
    cases s <;> rfl
  · rw [hu]
    rfl

@[simp] theorem abs_neg (v : Float) : (-v).abs = v.abs := by
  have hneg : (-v).abs = .ofModel (.pack (-v).toModel.unpack.abs) := rfl
  have hv : v.abs = .ofModel (.pack v.toModel.unpack.abs) := rfl
  rw [hneg, hv, unpack_neg]
  cases v.toModel.unpack <;> rfl

@[simp] private theorem steps_neg (v : Float) : steps (-v) = -steps v := by
  have happly (s : Sign) (n : Int) : (-s).apply n = -s.apply n := by
    cases s with
    | positive => rfl
    | negative => exact (Int.neg_neg n).symm
  rw [steps, steps, unpack_neg]
  cases v.toModel.unpack with
  | notANumber => rfl
  | infinity s => exact happly s _
  | zero s => rfl
  | finite s m e hm => exact happly s _

theorem isNaN_of_steps_ne_zero {v : Float} (h : steps v ≠ 0) : v.isNaN = false := by
  have hv : v.isNaN = v.toModel.unpack.isNaN := rfl
  rw [steps] at h
  rw [hv]
  cases hu : v.toModel.unpack with
  | notANumber =>
    rw [hu] at h
    exact absurd rfl h
  | _ => rfl

private theorem lt_zero_iff_steps_neg (v : Float) : v < 0.0 ↔ steps v < 0 :=
  ⟨fun h => (lt_zero_iff (isNaN_of_lt h).1).mp h,
    fun h => (lt_zero_iff (isNaN_of_steps_ne_zero (Int.ne_of_lt h))).mpr h⟩

private theorem zero_lt_iff_steps_pos (v : Float) : 0.0 < v ↔ 0 < steps v :=
  ⟨fun h => (zero_lt_iff (isNaN_of_lt h).2).mp h,
    fun h => (zero_lt_iff (isNaN_of_steps_ne_zero (Int.ne_of_gt h))).mpr h⟩

/-- Negation reverses the comparison with zero. -/
theorem neg_lt_zero_iff (v : Float) : -v < 0.0 ↔ 0.0 < v := by
  rw [lt_zero_iff_steps_neg, zero_lt_iff_steps_pos, steps_neg, Int.neg_lt_zero_iff]

theorem zero_lt_neg_iff (v : Float) : 0.0 < -v ↔ v < 0.0 := by
  rw [lt_zero_iff_steps_neg, zero_lt_iff_steps_pos, steps_neg, Int.neg_pos]

end FormulaRoots.Binary64
