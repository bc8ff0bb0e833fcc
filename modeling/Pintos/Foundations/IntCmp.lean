import Mathlib.Order.Compare
import Mathlib.Data.Int.Order.Basic

/-! # Three-way comparisons that return an integer

A `strcmp`-style comparison returns a negative number, zero or a positive number.  Read through
`ord` as an `Ordering`, such a comparison is a total preorder exactly when `ord c` is a
`Std.TransCmp`; the lemmas below restate what that gives in terms of the integer.
-/

namespace IntCmp
set_option autoImplicit false

variable {α : Type} (c : α → α → Int)

/-- The ordering a `strcmp`-style result stands for: below, at or above zero. -/
def ord (x y : α) : Ordering := compare (c x y) 0

theorem transCmp_of_key (key : α → Int) : Std.TransCmp (ord fun x y => key x - key y) := by
  have hord : ∀ x y, ord (fun x y => key x - key y) x y = compare (key x) (key y) := by
    intro x y
    show compare (key x - key y) 0 = compare (key x) (key y)
    rcases lt_trichotomy (key x) (key y) with h | h | h
    · rw [compare_lt_iff_lt.mpr (by omega : key x - key y < 0), compare_lt_iff_lt.mpr h]
    · rw [compare_eq_iff_eq.mpr (by omega : key x - key y = 0), compare_eq_iff_eq.mpr h]
    · rw [compare_gt_iff_gt.mpr (by omega : 0 < key x - key y), compare_gt_iff_gt.mpr h]
  refine @Std.TransCmp.mk _ _ ⟨fun {a b} => ?_⟩ fun {a b c} => ?_
  · rw [hord, hord]
    exact Std.OrientedCmp.eq_swap
  · rw [hord, hord, hord]
    exact Std.TransCmp.isLE_trans

section Preorder

variable {c} [Std.TransCmp (ord c)] {x y z : α}

omit [Std.TransCmp (ord c)] in
theorem ord_lt_iff : ord c x y = .lt ↔ c x y < 0 := by
  unfold ord
  exact compare_lt_iff_lt

omit [Std.TransCmp (ord c)] in
theorem ord_gt_iff : ord c x y = .gt ↔ 0 < c x y := by
  unfold ord
  exact compare_gt_iff_gt

omit [Std.TransCmp (ord c)] in
theorem ord_isLE_iff : (ord c x y).isLE = true ↔ c x y ≤ 0 := by
  rw [Ordering.isLE_iff_ne_gt, ord_gt_iff, not_lt]

theorem cmp_self (x : α) : c x x = 0 := by
  have h : ord c x x = .eq := Std.ReflCmp.compare_self
  unfold ord at h
  exact compare_eq_iff_eq.mp h

theorem neg_of_pos (h : 0 < c x y) : c y x < 0 := by
  rw [← ord_gt_iff, Std.OrientedCmp.gt_iff_lt] at h
  exact ord_lt_iff.mp h

theorem pos_of_neg (h : c x y < 0) : 0 < c y x := by
  rw [← ord_lt_iff, ← Std.OrientedCmp.gt_iff_lt] at h
  exact ord_gt_iff.mp h

theorem le_trans (hxy : c x y ≤ 0) (hyz : c y z ≤ 0) : c x z ≤ 0 :=
  ord_isLE_iff.mp (Std.TransCmp.isLE_trans (ord_isLE_iff.mpr hxy) (ord_isLE_iff.mpr hyz))

theorem lt_of_lt_of_le (hxy : c x y < 0) (hyz : c y z ≤ 0) : c x z < 0 :=
  ord_lt_iff.mp (Std.TransCmp.lt_of_lt_of_isLE (ord_lt_iff.mpr hxy) (ord_isLE_iff.mpr hyz))

theorem lt_of_le_of_lt (hxy : c x y ≤ 0) (hyz : c y z < 0) : c x z < 0 :=
  ord_lt_iff.mp (Std.TransCmp.lt_of_isLE_of_lt (ord_isLE_iff.mpr hxy) (ord_lt_iff.mpr hyz))

theorem le_of_pos (h : 0 < c x y) : c y x ≤ 0 := (neg_of_pos h).le

end Preorder

end IntCmp
