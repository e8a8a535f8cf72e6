import AttributeIndex.Bytes
import Mathlib.Data.List.Basic

namespace AttributeIndex.Bytes

theorem digits_lt {high low base first second : Nat} (digit : low < high) (small : first < base) :
    low * base + first < high * base + second := by
  have step : (low + 1) * base ≤ high * base := Nat.mul_le_mul_right base digit
  rw [Nat.add_mul, Nat.one_mul] at step
  omega

theorem compare_toNat {left right : Bytes} (same : left.length = right.length) :
    compare left right = compare (toNat left) (toNat right) := by
  induction left generalizing right with
  | nil =>
    obtain rfl := List.eq_nil_of_length_eq_zero same.symm
    rfl
  | cons x xs ih =>
    cases right with
    | nil => cases same
    | cons y ys =>
      have lengths : xs.length = ys.length := Nat.succ.inj same
      have below := toNat_lt xs
      have above := toNat_lt ys
      rw [← lengths] at above
      rw [List.compare_cons_cons, toNat, toNat, ← lengths, ih lengths]
      cases order : compare x y with
      | eq =>
        obtain rfl := Std.LawfulEqOrd.eq_of_compare order
        rw [Ordering.eq_then]
        simp only [Nat.compare_eq_ite_lt, Nat.add_lt_add_iff_left]
      | lt =>
        have smaller : x.toNat < y.toNat := UInt8.lt_iff_toNat_lt.1 (Std.compare_eq_lt.1 order)
        exact (Nat.compare_eq_lt.2 (digits_lt smaller below)).symm
      | gt =>
        have greater : y.toNat < x.toNat := UInt8.lt_iff_toNat_lt.1 (Std.compare_eq_gt.1 order)
        exact (Nat.compare_eq_gt.2 (digits_lt greater above)).symm

theorem compare_ofUInt64 (left right : UInt64) :
    compare (ofUInt64 left) (ofUInt64 right) = compare left.toNat right.toNat := by
  have spelled : ∀ value : UInt64, toNat (ofUInt64 value) = value.toNat := by
    intro value
    rw [ofUInt64, toNat_ofNat]
    exact Nat.mod_eq_of_lt value.toNat_lt
  rw [compare_toNat (by simp), spelled, spelled]

end AttributeIndex.Bytes
