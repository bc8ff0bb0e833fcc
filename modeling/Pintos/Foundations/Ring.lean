import Mathlib.Logic.Function.Basic
import Mathlib.Tactic.SplitIfs

/-! # A circular buffer as a bounded queue

A buffer of `n` slots holds a queue from `tail` up to `head`, going round: the queue has
`count n head tail` elements, `(tail + i) % n` is the slot of the `i`-th, and a push writes slot
`head` and moves `head` on while a pop reads slot `tail` and moves `tail` on.  With `head`
never allowed to catch up with `tail` from behind, the queue holds at most `n - 1` elements.
-/

namespace Ring
set_option autoImplicit false

variable {α : Type} (n : Nat)

/-- The number of elements from `tail` up to `head`. -/
def count (head tail : Nat) : Nat := (head + n - tail) % n

/-- The first `k` elements from `tail` on. -/
def contents (buf : Nat → α) (tail : Nat) : Nat → List α
  | 0 => []
  | k + 1 => contents buf tail k ++ [buf ((tail + k) % n)]

@[simp] theorem length_contents (buf : Nat → α) (tail k : Nat) : (contents n buf tail k).length = k := by
  induction k with
  | zero => rfl
  | succ k ih => simp [contents, ih]

theorem mod_of_lt_two {a : Nat} (ha : a < 2 * n) : a % n = if a < n then a else a - n := by
  split
  · next h => exact Nat.mod_eq_of_lt h
  · next h =>
    rw [Nat.mod_eq_sub_mod (by omega)]
    exact Nat.mod_eq_of_lt (by omega)

theorem count_lt {head tail : Nat} (hn : 0 < n) : count n head tail < n := Nat.mod_lt _ hn

theorem succ_mod {a : Nat} (ha : a < n) : (a + 1) % n = if a + 1 < n then a + 1 else 0 := by
  rw [mod_of_lt_two n (by omega)]
  split <;> omega

section Counts

variable {n} {head tail : Nat} (hh : head < n) (ht : tail < n)
include hh ht

theorem count_eq : count n head tail = if tail ≤ head then head - tail else head + n - tail := by
  rw [count, mod_of_lt_two n (by omega)]
  split <;> split <;> omega

theorem slot_count : (tail + count n head tail) % n = head := by
  rw [count_eq hh ht, mod_of_lt_two n (by split <;> omega)]
  split <;> split <;> omega

theorem count_eq_zero_iff : count n head tail = 0 ↔ head = tail := by
  rw [count_eq hh ht]
  split <;> omega

theorem count_eq_pred_iff : count n head tail = n - 1 ↔ (head + 1) % n = tail := by
  rw [count_eq hh ht, mod_of_lt_two n (by omega)]
  split <;> split <;> omega

theorem count_push (hfull : (head + 1) % n ≠ tail) : count n ((head + 1) % n) tail = count n head tail + 1 := by
  have hh' : (head + 1) % n < n := Nat.mod_lt _ (by omega)
  rw [count_eq hh' ht, count_eq hh ht, succ_mod n hh]
  rw [succ_mod n hh] at hfull
  split_ifs at hfull ⊢ <;> omega

theorem count_pop (hne : head ≠ tail) : count n head ((tail + 1) % n) + 1 = count n head tail := by
  have ht' : (tail + 1) % n < n := Nat.mod_lt _ (by omega)
  rw [count_eq hh ht', count_eq hh ht, succ_mod n ht]
  split_ifs <;> omega

end Counts

section Contents

variable {n}

theorem contents_update_outside (buf : Nat → α) (tail k j : Nat) (x : α)
    (hj : ∀ i < k, (tail + i) % n ≠ j) : contents n (Function.update buf j x) tail k = contents n buf tail k := by
  induction k with
  | zero => rfl
  | succ k ih =>
    rw [contents, contents, ih (fun i hi => hj i (by omega)), Function.update_of_ne (hj k (by omega))]

theorem slot_ne {tail i j : Nat} (ht : tail < n) (hi : i < j) (hj : j < n) : (tail + i) % n ≠ (tail + j) % n := by
  rw [mod_of_lt_two n (by omega), mod_of_lt_two n (by omega)]
  split <;> split <;> omega

theorem contents_push (buf : Nat → α) {tail k : Nat} (ht : tail < n) (hk : k < n) (x : α) :
    contents n (Function.update buf ((tail + k) % n) x) tail (k + 1) = contents n buf tail k ++ [x] := by
  rw [contents, contents_update_outside buf tail k _ x (fun i hi => slot_ne ht hi hk), Function.update_self]

theorem contents_pop (buf : Nat → α) {tail : Nat} (ht : tail < n) (k : Nat) (hk : k < n) :
    contents n buf tail (k + 1) = buf tail :: contents n buf ((tail + 1) % n) k := by
  induction k with
  | zero => simp [contents, Nat.mod_eq_of_lt ht]
  | succ k ih =>
    rw [contents, ih (by omega), contents, List.cons_append]
    have hslot : ((tail + 1) % n + k) % n = (tail + (k + 1)) % n := by
      rw [Nat.add_mod, Nat.mod_mod, ← Nat.add_mod, Nat.add_assoc, Nat.add_comm 1 k]
    rw [hslot]

end Contents

end Ring
