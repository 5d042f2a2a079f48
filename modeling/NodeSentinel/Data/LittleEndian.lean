import Mathlib

/-!
# Little-endian numbers

A number as so many bytes, the lowest first, and the number that some bytes are.
-/

/-- The number in so many bytes. -/
def toBytes : ℕ → ℕ → List UInt8
  | 0, _ => []
  | w + 1, k => UInt8.ofNat k :: toBytes w (k / 256)

/-- The number that some bytes are. -/
def ofBytes : List UInt8 → ℕ
  | [] => 0
  | b :: bytes => b.toNat + 256 * ofBytes bytes

@[simp] theorem length_toBytes (w k : ℕ) : (toBytes w k).length = w := by
  induction w generalizing k with
  | zero => rfl
  | succ w ih => rw [toBytes, List.length_cons, ih]

/-- What is read is what was written, as far as it fits. -/
theorem ofBytes_toBytes {w k : ℕ} (h : k < 256 ^ w) : ofBytes (toBytes w k) = k := by
  induction w generalizing k with
  | zero =>
      rw [pow_zero, Nat.lt_one_iff] at h
      rw [h]
      rfl
  | succ w ih =>
      have hdiv : k / 256 < 256 ^ w := by
        rw [pow_succ] at h
        exact Nat.div_lt_of_lt_mul (by rwa [mul_comm] at h)
      have hbyte : (UInt8.ofNat k).toNat = k % 256 := UInt8.toNat_ofNat'
      rw [toBytes, ofBytes, ih hdiv, hbyte]
      exact Nat.mod_add_div k 256
