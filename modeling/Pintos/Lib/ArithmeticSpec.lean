import Mathlib.Algebra.Order.Group.Unbundled.Int
import Mathlib.Data.Int.Init
import Pintos.Foundations.DivEstimate
import Pintos.Lib.Arithmetic

/-! # What the 64-bit division routines compute

`udiv64` never makes `DIVL` trap and returns the exact quotient: directly by two 32-bit divisions
for a divisor below `2 ^ 32`, and by the normalized estimate of `DivEstimate` and one correction
above (`udiv64_eq`).  `sdiv64` reduces to it on the magnitudes.  But `umod64` and `smod64` return
32-bit types: the remainder reaches the caller cut to its low 32 bits (`gcc_division_routines`).
-/

namespace Pintos
set_option autoImplicit false
set_option linter.style.nameCheck false

theorem divl_eq {n d : Nat} (hn : n < 2 ^ 64) (hd : 0 < d) (hq : n / d < 2 ^ 32) :
    divl n d = some (n / d) := by
  have hsplit : n / 2 ^ 32 % 2 ^ 32 * 2 ^ 32 + n % 2 ^ 32 = n := by omega
  unfold divl
  dsimp only
  rw [hsplit, if_neg (by omega)]

/-! ## `nlz` -/

/-- A test of `nlz` with limit `2 ^ m - 1` and shift `k`, on an `x` shifted so far and at least
`2 ^ (m - k)`, leaves it shifted further and at least `2 ^ m`. -/
theorem nlz_step_spec {x limit m k : Nat} {p : Nat × Nat} (hlimit : limit = 2 ^ m - 1) (hkm : k ≤ m)
    (hmk : m + k = 32) (hval : p.2 = x * 2 ^ p.1) (hlt : p.2 < 2 ^ 32) (hlo : 2 ^ (m - k) ≤ p.2) :
    (nlz_step limit k p).2 = x * 2 ^ (nlz_step limit k p).1 ∧
      (nlz_step limit k p).2 < 2 ^ 32 ∧ 2 ^ m ≤ (nlz_step limit k p).2 := by
  have hpow : 2 ^ m * 2 ^ k = 2 ^ 32 := by rw [← Nat.pow_add, hmk]
  have hpow' : 2 ^ (m - k) * 2 ^ k = 2 ^ m := by rw [← Nat.pow_add, Nat.sub_add_cancel hkm]
  have hm : 0 < 2 ^ m := Nat.two_pow_pos m
  unfold nlz_step
  split_ifs with hle
  · have hfit : p.2 * 2 ^ k < 2 ^ 32 := by
      rw [← hpow]
      exact Nat.mul_lt_mul_of_pos_right (by omega) (Nat.two_pow_pos k)
    rw [Nat.mod_eq_of_lt hfit]
    refine ⟨by rw [hval, Nat.pow_add, Nat.mul_assoc], hfit, ?_⟩
    rw [← hpow']
    exact Nat.mul_le_mul_right _ hlo
  · exact ⟨hval, hlt, by omega⟩

theorem nlz_eq (x : Nat) :
    nlz x = (nlz_step 0x7FFFFFFF 1 (nlz_step 0x3FFFFFFF 2 (nlz_step 0x0FFFFFFF 4 (nlz_step 0x00FFFFFF 8
      (nlz_step 0x0000FFFF 16 (0, x)))))).1 := by
  unfold nlz
  dsimp only
  generalize nlz_step 0x3FFFFFFF 2 (nlz_step 0x0FFFFFFF 4 (nlz_step 0x00FFFFFF 8 (nlz_step 0x0000FFFF 16 (0, x)))) = nx
  unfold nlz_step
  split_ifs <;> rfl

theorem nlz_spec {x : Nat} (hx0 : 0 < x) (hx : x < 2 ^ 32) :
    nlz x ≤ 31 ∧ 2 ^ 31 ≤ x * 2 ^ nlz x ∧ x * 2 ^ nlz x < 2 ^ 32 := by
  obtain ⟨h1v, h1lt, h1lo⟩ := nlz_step_spec (x := x) (p := (0, x)) (m := 16) (k := 16)
    (by norm_num : (0x0000FFFF : Nat) = 2 ^ 16 - 1) le_rfl
    rfl (by simp) hx (by simp; omega)
  obtain ⟨h2v, h2lt, h2lo⟩ := nlz_step_spec (m := 24) (k := 8)
    (by norm_num : (0x00FFFFFF : Nat) = 2 ^ 24 - 1) (by norm_num) rfl h1v h1lt h1lo
  obtain ⟨h3v, h3lt, h3lo⟩ := nlz_step_spec (m := 28) (k := 4)
    (by norm_num : (0x0FFFFFFF : Nat) = 2 ^ 28 - 1) (by norm_num) rfl h2v h2lt h2lo
  obtain ⟨h4v, h4lt, h4lo⟩ := nlz_step_spec (m := 30) (k := 2)
    (by norm_num : (0x3FFFFFFF : Nat) = 2 ^ 30 - 1) (by norm_num) rfl h3v h3lt h3lo
  obtain ⟨h5v, h5lt, h5lo⟩ := nlz_step_spec (m := 31) (k := 1)
    (by norm_num : (0x7FFFFFFF : Nat) = 2 ^ 31 - 1) (by norm_num) rfl h4v h4lt h4lo
  rw [nlz_eq, ← h5v]
  refine ⟨?_, h5lo, h5lt⟩
  rw [h5v] at h5lt
  have hle := lt_of_le_of_lt (Nat.le_mul_of_pos_left _ hx0) h5lt
  have := (Nat.pow_lt_pow_iff_right (by decide : 1 < 2)).mp hle
  omega

/-! ## `udiv64` -/

/-- A divisor below `2 ^ 32`: the quotient of the high word, and that of its remainder joined
with the low word, which `DIVL` computes without trapping. -/
theorem udiv64_small {n d : Nat} (hn : n < 2 ^ 64) (hd0 : 0 < d) (hd : d < 2 ^ 32) :
    udiv64 n d = some (n / d) := by
  rw [udiv64, if_pos (Nat.div_eq_of_lt hd)]
  dsimp only
  have hn1 : n / 2 ^ 32 % 2 ^ 32 = n / 2 ^ 32 := Nat.mod_eq_of_lt (by omega)
  rw [hn1, Nat.mod_eq_of_lt hd]
  set n1 := n / 2 ^ 32
  set n0 := n % 2 ^ 32
  have hr : n1 % d < d := Nat.mod_lt _ hd0
  -- the dividend of `DIVL` is below `2 ^ 32 * d`
  have harg : 2 ^ 32 * (n1 % d) + n0 < 2 ^ 32 * d := by
    have : 2 ^ 32 * (n1 % d + 1) ≤ 2 ^ 32 * d := Nat.mul_le_mul_left _ hr
    omega
  have hq : (2 ^ 32 * (n1 % d) + n0) / d < 2 ^ 32 := (Nat.div_lt_iff_lt_mul hd0).mpr harg
  have harg64 : 2 ^ 32 * (n1 % d) + n0 < 2 ^ 64 := by
    have : 2 ^ 32 * d ≤ 2 ^ 32 * 2 ^ 32 := Nat.mul_le_mul_left _ hd.le
    omega
  rw [Nat.mod_eq_of_lt harg64, divl_eq harg64 hd0 hq, Option.map_some]
  have hsplit : n = 2 ^ 32 * (n1 % d) + n0 + d * (2 ^ 32 * (n1 / d)) := by
    have h1 := Nat.div_add_mod n (2 ^ 32)
    have h2 := Nat.div_add_mod n1 d
    calc n = 2 ^ 32 * (d * (n1 / d) + n1 % d) + n0 := by rw [h2]; exact h1.symm
      _ = 2 ^ 32 * (n1 % d) + n0 + d * (2 ^ 32 * (n1 / d)) := by ring
  have hdiv : n / d = (2 ^ 32 * (n1 % d) + n0) / d + 2 ^ 32 * (n1 / d) := by
    rw [← Nat.add_mul_div_left _ _ hd0, ← hsplit]
  rw [← hdiv, Nat.mod_eq_of_lt (lt_of_le_of_lt (Nat.div_le_self n d) hn)]

/-- The shifted divisor `DIVL` gets for a divisor from `2 ^ 32` on: `d / (2 * k)` with
`k = 2 ^ (31 - s)`, its top bit set. -/
theorem shifted_divisor {d s : Nat} (hs : s ≤ 31) (hlo : 2 ^ 31 ≤ d / 2 ^ 32 * 2 ^ s)
    (hhi : d / 2 ^ 32 * 2 ^ s < 2 ^ 32) :
    d * 2 ^ s % 2 ^ 64 / 2 ^ 32 % 2 ^ 32 = d / (2 * 2 ^ (31 - s)) ∧
      2 * 2 ^ 31 * 2 ^ (31 - s) ≤ d ∧ d < 4 * 2 ^ 31 * 2 ^ (31 - s) := by
  have h2k : 2 * 2 ^ (31 - s) = 2 ^ (32 - s) := by
    rw [← Nat.pow_succ']
    congr 1
    omega
  have h32 : 2 ^ (32 - s) * 2 ^ s = 2 ^ 32 := by rw [← Nat.pow_add]; congr 1; omega
  have hspos := Nat.two_pow_pos s
  -- `d1 = d / 2 ^ 32` is below `2 ^ (32 - s)`, so `(d1 + 1) * 2 ^ s ≤ 2 ^ 32`
  have hd1 : d / 2 ^ 32 + 1 ≤ 2 ^ (32 - s) := Nat.lt_of_mul_lt_mul_right (lt_of_lt_of_eq hhi h32.symm)
  have hd1' : (d / 2 ^ 32 + 1) * 2 ^ s ≤ 2 ^ 32 :=
    calc (d / 2 ^ 32 + 1) * 2 ^ s ≤ 2 ^ (32 - s) * 2 ^ s := Nat.mul_le_mul_right _ hd1
      _ = 2 ^ 32 := h32
  have hdlt : d < (d / 2 ^ 32 + 1) * 2 ^ 32 := by
    have := Nat.lt_mul_div_succ d (Nat.two_pow_pos 32)
    rw [Nat.mul_comm] at this
    exact this
  have hdge : d / 2 ^ 32 * 2 ^ 32 ≤ d := Nat.div_mul_le_self d _
  have hfit : d * 2 ^ s < 2 ^ 64 := by
    calc d * 2 ^ s < (d / 2 ^ 32 + 1) * 2 ^ 32 * 2 ^ s := Nat.mul_lt_mul_of_pos_right hdlt hspos
      _ = (d / 2 ^ 32 + 1) * 2 ^ s * 2 ^ 32 := by ring
      _ ≤ 2 ^ 32 * 2 ^ 32 := Nat.mul_le_mul_right _ hd1'
      _ = 2 ^ 64 := by norm_num
  have hv : d * 2 ^ s / 2 ^ 32 = d / (2 * 2 ^ (31 - s)) := by
    rw [h2k, ← h32, Nat.mul_div_mul_right _ _ hspos]
  have hvlt : d / (2 * 2 ^ (31 - s)) < 2 ^ 32 := by
    rw [← hv, Nat.div_lt_iff_lt_mul (Nat.two_pow_pos 32)]
    calc d * 2 ^ s < 2 ^ 64 := hfit
      _ = 2 ^ 32 * 2 ^ 32 := by norm_num
  refine ⟨by rw [Nat.mod_eq_of_lt hfit, hv, Nat.mod_eq_of_lt hvlt], ?_, ?_⟩
  · have h63 : 2 * 2 ^ 31 * 2 ^ (31 - s) * 2 ^ s = 2 ^ 31 * 2 ^ 32 := by
      have : 2 * 2 ^ 31 * 2 ^ (31 - s) * 2 ^ s = 2 ^ 31 * (2 * 2 ^ (31 - s) * 2 ^ s) := by ring
      rw [this, h2k, h32]
    apply Nat.le_of_mul_le_mul_right _ hspos
    rw [h63]
    calc 2 ^ 31 * 2 ^ 32 ≤ d / 2 ^ 32 * 2 ^ s * 2 ^ 32 := Nat.mul_le_mul_right _ hlo
      _ = d / 2 ^ 32 * 2 ^ 32 * 2 ^ s := by ring
      _ ≤ d * 2 ^ s := Nat.mul_le_mul_right _ hdge
  · have h64 : 4 * 2 ^ 31 * 2 ^ (31 - s) * 2 ^ s = 2 ^ 64 := by
      have : 4 * 2 ^ 31 * 2 ^ (31 - s) * 2 ^ s = 2 ^ 32 * (2 * 2 ^ (31 - s) * 2 ^ s) := by ring
      rw [this, h2k, h32]
      norm_num
    apply Nat.lt_of_mul_lt_mul_right (a := 2 ^ s)
    rw [h64]
    exact hfit

/-- A divisor from `2 ^ 32` on: the normalized estimate is the quotient or one more, and the
correction takes one off when it is one more. -/
theorem udiv64_big {n d : Nat} (hn : n < 2 ^ 64) (hd : 2 ^ 32 ≤ d) (hd' : d < 2 ^ 64) :
    udiv64 n d = some (n / d) := by
  rw [udiv64, if_neg (by omega)]
  by_cases hlt : n < d
  · rw [if_pos hlt, Nat.div_eq_of_lt hlt]
  rw [if_neg hlt]
  dsimp only
  rw [Nat.mod_eq_of_lt (by omega : d / 2 ^ 32 < 2 ^ 32)]
  obtain ⟨hs, hlo, hhi⟩ := nlz_spec (x := d / 2 ^ 32) (by omega) (by omega)
  obtain ⟨hv, hvlo, hvhi⟩ := shifted_divisor hs hlo hhi
  rw [hv]
  set k := 2 ^ (31 - nlz (d / 2 ^ 32)) with hk_def
  have hk : 0 < k := Nat.two_pow_pos _
  -- `w = d / (2 * k)` has its top bit set, so `DIVL` of `n / 2` by it fits in 32 bits
  have hw : 2 ^ 31 ≤ d / (2 * k) :=
    (Nat.le_div_iff_mul_le (by omega)).mpr (by rw [← Nat.mul_assoc, Nat.mul_comm (2 ^ 31) 2]; exact hvlo)
  have hq1 : n / 2 / (d / (2 * k)) < 2 ^ 32 := by
    apply (Nat.div_lt_iff_lt_mul (by omega)).mpr
    have : 2 ^ 32 * 2 ^ 31 ≤ 2 ^ 32 * (d / (2 * k)) := Nat.mul_le_mul_left _ hw
    omega
  rw [divl_eq (by omega) (by omega) hq1, Option.map_some, Nat.div_div_eq_div_mul]
  congr 1
  have hD : 0 < d / (2 * k) * k := Nat.mul_pos (by omega) hk
  have hge : n / d ≤ DivEstimate.estimate n d k := DivEstimate.div_le_estimate hD
  have hle : DivEstimate.estimate n d k ≤ n / d + 1 :=
    DivEstimate.estimate_le_div_add_one hk hvlo hvhi (by omega)
  rw [← DivEstimate.estimate]
  generalize DivEstimate.estimate n d k = q at hge hle ⊢
  -- the correction `n - (q - 1) * d < d ? q - 1 : q`
  have ht1 : 0 < n / d := Nat.div_pos (Nat.le_of_not_lt hlt) (by omega)
  have htn : n / d ≤ n := Nat.div_le_self n d
  have hnd := Nat.div_add_mod n d
  have hr := Nat.mod_lt n (by omega : 0 < d)
  rw [(by omega : (q + 2 ^ 64 - 1) % 2 ^ 64 = q - 1)]
  rcases (by omega : q = n / d ∨ q = n / d + 1) with rfl | rfl
  · -- the estimate was the quotient: `n - (q - 1) * d = n % d + d` is not below `d`
    have hmul : (n / d - 1) * d = d * (n / d) - d := by rw [Nat.sub_one_mul, Nat.mul_comm]
    have hdt : d ≤ d * (n / d) := Nat.le_mul_of_pos_right d ht1
    rw [hmul, Nat.mod_eq_of_lt (by omega : d * (n / d) - d < 2 ^ 64), if_neg (by omega)]
  · -- one more: `n - (q - 1) * d = n % d` is below `d`
    rw [Nat.add_sub_cancel, Nat.mul_comm (n / d) d, Nat.mod_eq_of_lt (by omega : d * (n / d) < 2 ^ 64),
      if_pos (by omega)]

theorem udiv64_eq {n d : Nat} (hn : n < 2 ^ 64) (hd0 : 0 < d) (hd : d < 2 ^ 64) :
    udiv64 n d = some (n / d) := by
  by_cases hsmall : d < 2 ^ 32
  · exact udiv64_small hn hd0 hsmall
  · exact udiv64_big hn (by omega) hd

theorem umod64_eq {n d : Nat} (hn : n < 2 ^ 64) (hd0 : 0 < d) (hd : d < 2 ^ 64) :
    umod64 n d = some (n % d % 2 ^ 32) := by
  rw [umod64, udiv64_eq hn hd0 hd, Option.map_some]
  have hmul : d * (n / d) ≤ n := Nat.mul_div_le n d
  rw [Nat.mod_eq_of_lt (by omega : d * (n / d) < 2 ^ 64), Nat.mod_eq_sub_mul_div (x := n)]
  congr 2
  omega

/-! ## `sdiv64` and `smod64` -/

/-- `(uint64_t) x` for `x ≥ 0` and `-(uint64_t) x` for `x < 0` is the magnitude of an `x` in the
range of `int64_t`. -/
theorem magnitude_u64 {x : Int} (hlo : -2 ^ 63 ≤ x) (hhi : x < 2 ^ 63) :
    (if x ≥ 0 then (x % 2 ^ 64).toNat else (-x % 2 ^ 64).toNat) = x.natAbs := by
  split_ifs with hx
  · rw [Int.emod_eq_of_lt hx (by omega)]
    omega
  · rw [Int.emod_eq_of_lt (by omega) (by omega)]
    omega

/-- Truncating division on magnitudes: the quotient of the magnitudes, negated for operands of
different signs. -/
theorem tdiv_eq_natAbs (n d : Int) :
    n.tdiv d = if (n < 0) = (d < 0) then ((n.natAbs / d.natAbs : Nat) : Int)
      else -((n.natAbs / d.natAbs : Nat) : Int) := by
  by_cases hn : 0 ≤ n <;> by_cases hd : 0 ≤ d
  · obtain ⟨a, rfl⟩ := Int.eq_ofNat_of_zero_le hn
    obtain ⟨b, rfl⟩ := Int.eq_ofNat_of_zero_le hd
    rw [if_pos (by simp only [eq_iff_iff]; omega)]
    simp [Int.natAbs_natCast]
  · obtain ⟨a, rfl⟩ := Int.eq_ofNat_of_zero_le hn
    obtain ⟨b, rfl⟩ : ∃ b : Nat, d = -b := ⟨d.natAbs, by omega⟩
    rw [if_neg (by simp only [eq_iff_iff]; omega)]
    simp [Int.natAbs_natCast, Int.tdiv_neg]
  · obtain ⟨a, rfl⟩ : ∃ a : Nat, n = -a := ⟨n.natAbs, by omega⟩
    obtain ⟨b, rfl⟩ := Int.eq_ofNat_of_zero_le hd
    rw [if_neg (by simp only [eq_iff_iff]; omega)]
    simp [Int.natAbs_natCast, Int.neg_tdiv]
  · obtain ⟨a, rfl⟩ : ∃ a : Nat, n = -a := ⟨n.natAbs, by omega⟩
    obtain ⟨b, rfl⟩ : ∃ b : Nat, d = -b := ⟨d.natAbs, by omega⟩
    rw [if_pos (by simp only [eq_iff_iff]; omega)]
    simp [Int.natAbs_natCast, Int.neg_tdiv, Int.tdiv_neg]

theorem sdiv64_eq {n d : Int} (hn : -2 ^ 63 ≤ n ∧ n < 2 ^ 63) (hd : -2 ^ 63 ≤ d ∧ d < 2 ^ 63) (hd0 : d ≠ 0)
    (hov : ¬(n = -2 ^ 63 ∧ d = -1)) : sdiv64 n d = some (n.tdiv d) := by
  unfold sdiv64
  dsimp only
  rw [magnitude_u64 hn.1 hn.2, magnitude_u64 hd.1 hd.2, udiv64_eq (by omega) (by omega) (by omega),
    Option.map_some, tdiv_eq_natAbs]
  refine congrArg some ?_
  have hq : n.natAbs / d.natAbs ≤ n.natAbs := Nat.div_le_self _ _
  split_ifs with hsign
  · -- operands of one sign: the quotient is below `2 ^ 63` unless it is `-2 ^ 63 / -1`
    have hsmall : n.natAbs / d.natAbs < 2 ^ 63 := by
      by_cases hmin : n.natAbs < 2 ^ 63
      · omega
      · apply Nat.div_lt_of_lt_mul
        -- then `n = -2 ^ 63`, so `d < 0` and `d ≠ -1`
        have hdneg : d < 0 := (eq_iff_iff.mp hsign).mp (by omega)
        have hd2 : 2 ≤ d.natAbs := by omega
        have : 2 * 2 ^ 63 ≤ d.natAbs * 2 ^ 63 := Nat.mul_le_mul_right _ hd2
        omega
    generalize n.natAbs / d.natAbs = q at hsmall ⊢
    exact Int.bmod_eq_of_le (by omega) (by omega)
  · rw [Int.bmod_neg_bmod]
    have hmag : n.natAbs ≤ 2 ^ 63 := by omega
    generalize n.natAbs / d.natAbs = q at hq ⊢
    exact Int.bmod_eq_of_le (by omega) (by omega)

/-- `smod64` is the remainder of truncating division, cut to the 32 bits of its `int32_t`
result. -/
theorem smod64_eq {n d : Int} (hn : -2 ^ 63 ≤ n ∧ n < 2 ^ 63) (hd : -2 ^ 63 ≤ d ∧ d < 2 ^ 63) (hd0 : d ≠ 0)
    (hov : ¬(n = -2 ^ 63 ∧ d = -1)) : smod64 n d = some (Int.bmod (n.tmod d) (2 ^ 32)) := by
  rw [smod64, sdiv64_eq hn hd hd0 hov, Option.map_some, Int.sub_bmod_bmod,
    Int.bmod_bmod_of_dvd (by norm_num : 2 ^ 32 ∣ 2 ^ 64), Int.tmod_def]

/-! ## The routines GCC calls -/

theorem gcc_division_routines :
    (∀ n d : Nat, n < 2 ^ 64 → 0 < d → d < 2 ^ 64 →
      __udivdi3 n d = some (n / d) ∧ __umoddi3 n d = some (n % d % 2 ^ 32)) ∧
    (∀ n d : Int, -2 ^ 63 ≤ n → n < 2 ^ 63 → -2 ^ 63 ≤ d → d < 2 ^ 63 → d ≠ 0 → ¬(n = -2 ^ 63 ∧ d = -1) →
      __divdi3 n d = some (n.tdiv d) ∧ __moddi3 n d = some (Int.bmod (n.tmod d) (2 ^ 32))) :=
  ⟨fun _ _ hn hd0 hd => ⟨udiv64_eq hn hd0 hd, umod64_eq hn hd0 hd⟩,
    fun _ _ hn hn' hd hd' hd0 hov => ⟨sdiv64_eq ⟨hn, hn'⟩ ⟨hd, hd'⟩ hd0 hov, smod64_eq ⟨hn, hn'⟩ ⟨hd, hd'⟩ hd0 hov⟩⟩

/-- `__umoddi3 (2 ^ 33 + 1, 2 ^ 32 + 1)` returns 0 for the remainder `2 ^ 32`, and
`__moddi3 (2 ^ 31, 2 ^ 31 + 1)` returns `-2 ^ 31` for the remainder `2 ^ 31`. -/
theorem gcc_division_routines_high_remainder :
    (2 ^ 33 + 1) % (2 ^ 32 + 1) = 2 ^ 32 ∧ __umoddi3 (2 ^ 33 + 1) (2 ^ 32 + 1) = some 0 ∧
      (2 ^ 31 : Int).tmod (2 ^ 31 + 1) = 2 ^ 31 ∧ __moddi3 (2 ^ 31) (2 ^ 31 + 1) = some (-2 ^ 31) := by
  obtain ⟨hu, hs⟩ := gcc_division_routines
  refine ⟨by norm_num, ?_, by decide, ?_⟩
  · rw [(hu _ _ (by norm_num) (by norm_num) (by norm_num)).2]
    norm_num
  · rw [(hs _ _ (by norm_num) (by norm_num) (by norm_num) (by norm_num) (by norm_num) (by norm_num)).2]
    decide

end Pintos
