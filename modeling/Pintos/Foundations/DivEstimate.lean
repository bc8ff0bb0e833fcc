import Mathlib.Tactic.Linarith
import Mathlib.Tactic.Ring

/-! # The quotient estimate of normalized division

A divisor `v` too wide for the hardware's divide is shifted so that its leading bits `w`, those
of `v / (2 * k)`, fill a word with its top bit set; `u / 2` is divided by `w` and the quotient
scaled back down by `k`.  For `v` normalized in this sense (`2 * H * k ≤ v < 4 * H * k`, the word
holding `w` being `2 * H` wide) and `u < 4 * H * H`, the estimate is the quotient `u / v` or one
more (Hacker's Delight): `div_le_estimate` and `estimate_le_div_add_one`.
-/

namespace DivEstimate
set_option autoImplicit false

/-- `u / 2` divided by `w * k`, where `w = v / (2 * k)` are the leading bits of `v`. -/
def estimate (u v k : Nat) : Nat := u / 2 / (v / (2 * k) * k)

theorem div_le_estimate {u v k : Nat} (hD : 0 < v / (2 * k) * k) : u / v ≤ estimate u v k := by
  unfold estimate
  apply (Nat.le_div_iff_mul_le hD).mpr
  apply (Nat.le_div_iff_mul_le two_pos).mpr
  have hw : v / (2 * k) * (2 * k) ≤ v := Nat.div_mul_le_self v (2 * k)
  have hq : u / v * v ≤ u := Nat.div_mul_le_self u v
  calc u / v * (v / (2 * k) * k) * 2 = u / v * (v / (2 * k) * (2 * k)) := by ring
    _ ≤ u / v * v := Nat.mul_le_mul_left _ hw
    _ ≤ u := hq

theorem estimate_le_div_add_one {u v k H : Nat} (hk : 0 < k) (hv : 2 * H * k ≤ v)
    (hv' : v < 4 * H * k) (hu : u < 4 * H * H) : estimate u v k ≤ u / v + 1 := by
  unfold estimate
  set w := v / (2 * k) with hw_def
  set t := u / v with ht_def
  have hH : 0 < H := by
    rcases Nat.eq_zero_or_pos H with rfl | hH
    · simp at hv'
    · exact hH
  have hvpos : 0 < v := Nat.lt_of_lt_of_le (Nat.mul_pos (Nat.mul_pos two_pos hH) hk) hv
  have hw : H ≤ w := (Nat.le_div_iff_mul_le (by omega)).mpr (le_of_eq_of_le (by ring) hv)
  have hvw : v < 2 * k * (w + 1) := Nat.lt_mul_div_succ v (by omega)
  have hut : u < v * (t + 1) := Nat.lt_mul_div_succ u hvpos
  have htv : t * v ≤ u := Nat.div_mul_le_self u v
  have hq : u / 2 / (w * k) * (w * k) ≤ u / 2 := Nat.div_mul_le_self _ _
  have hu2 : u / 2 * 2 ≤ u := Nat.div_mul_le_self _ _
  have htk : t * k < 2 * H := by
    by_contra hge
    push Not at hge
    have h4 : 4 * H * H ≤ u :=
      calc 4 * H * H = 2 * H * (2 * H) := by ring
        _ ≤ 2 * H * (t * k) := Nat.mul_le_mul_left _ hge
        _ = t * (2 * H * k) := by ring
        _ ≤ t * v := Nat.mul_le_mul_left t hv
        _ ≤ u := htv
    omega
  by_contra hgt
  push Not at hgt
  -- an estimate of `t + 2` or more would put `(t + 2) * w * k` in `u / 2`
  have hq2 : (t + 2) * (w * k) * 2 ≤ u := by
    calc (t + 2) * (w * k) * 2 ≤ u / 2 / (w * k) * (w * k) * 2 := by
          apply Nat.mul_le_mul_right; apply Nat.mul_le_mul_right; omega
      _ ≤ u := by omega
  -- while `u < (t + 1) * v` and `v < 2 * k * (w + 1)`: so `2 k w + t + 1 < 2 k (t + 1)`, which
  -- `w ≥ H` rules out, with `t < 2 * H` when `k = 1` and `t < H` when `k ≥ 2`
  have hvle : v + 1 ≤ 2 * k * (w + 1) := hvw
  have hkey : 2 * k * w + (t + 1) < 2 * k * (t + 1) := by
    have h1 : (t + 2) * (w * k) * 2 < (t + 1) * v := by
      rw [Nat.mul_comm (t + 1)]
      exact Nat.lt_of_le_of_lt hq2 hut
    have h2 : (t + 1) * (v + 1) ≤ (t + 1) * (2 * k * (w + 1)) := Nat.mul_le_mul_left _ hvle
    ring_nf at h1 h2 ⊢
    omega
  rcases Nat.lt_or_ge k 2 with hk1 | hk2
  · have hk1' : k = 1 := by omega
    subst hk1'
    omega
  · have ht : t + 1 ≤ H := by
      have := Nat.mul_le_mul_left t hk2
      omega
    have h3 : 2 * k * (t + 1) ≤ 2 * k * w := Nat.mul_le_mul_left _ (by omega)
    linarith

end DivEstimate
