import Mathlib.Tactic.IntervalCases
import Pintos.Lib.Stdlib

/-! # `sort` sorts and `binary_search` finds

`do_swap` and `do_compare` act on the array's elements as `HeapSort.swap_at` and
`HeapSort.cmp_at` act on an array given as a function of the index (`elements_do_swap`,
`do_compare_eq`), so `sort` runs heap sort on the elements and `HeapSort.sort_spec` applies to it.
`binary_search` keeps the match, if any, between `first` and `last`: the elements before `first`
are below the key and those from `last` on above it.
-/

namespace Pintos
set_option autoImplicit false

/-- The element at 1-based index `k`, as `do_swap` and `do_compare` address it; index `0` names
none. -/
def elements (array : Nat → UInt8) (size : Nat) : Nat → List UInt8
  | 0 => []
  | k + 1 => element array size (k * size)

theorem elements_of_pos (array : Nat → UInt8) (size : Nat) {k : Nat} (hk : 1 ≤ k) :
    elements array size k = element array size ((k - 1) * size) := by
  obtain ⟨k, rfl⟩ : ∃ k', k = k' + 1 := ⟨k - 1, by omega⟩
  rfl

theorem element_congr {a b : Nat → UInt8} {size p p' : Nat} (h : ∀ t < size, a (p + t) = b (p' + t)) :
    element a size p = element b size p' := by
  unfold element
  exact List.map_congr_left fun t ht => h t (List.mem_range.mp ht)

theorem byte_of_element_eq {a b : Nat → UInt8} {size p t : Nat} (h : element a size p = element b size p)
    (ht : t < size) : a (p + t) = b (p + t) := by
  have := congrArg (fun l => l[t]?) h
  simpa [element, ht] using this

theorem blocks_apart (size : Nat) {a b : Nat} (h : a ≠ b) :
    a * size + size ≤ b * size ∨ b * size + size ≤ a * size := by
  rcases Nat.lt_or_gt_of_ne h with hab | hab
  · left
    have := Nat.mul_le_mul_right size (Nat.succ_le_of_lt hab)
    rwa [Nat.succ_mul] at this
  · right
    have := Nat.mul_le_mul_right size (Nat.succ_le_of_lt hab)
    rwa [Nat.succ_mul] at this

/-! ## `do_swap` and `do_compare` -/

/-- The loop of `do_swap` after `n` bytes: the first `n` bytes of the two blocks exchanged, when
the blocks are the same or apart. -/
theorem do_swap_loop (array : Nat → UInt8) {p q size : Nat} (hpq : p = q ∨ p + size ≤ q ∨ q + size ≤ p)
    (n : Nat) (hn : n ≤ size) (o : Nat) :
    (List.range n).foldl (fun array i =>
      let t := array (p + i)
      Function.update (Function.update array (p + i) (array (q + i))) (q + i) t) array o =
      if p ≤ o ∧ o < p + n then array (o - p + q)
      else if q ≤ o ∧ o < q + n then array (o - q + p) else array o := by
  induction n generalizing o with
  | zero =>
    rw [List.range_zero, List.foldl_nil]
    split_ifs <;> first | rfl | omega
  | succ n ih =>
    rw [List.range_succ, List.foldl_append, List.foldl_cons, List.foldl_nil]
    dsimp only
    have hp : (List.range n).foldl (fun array i =>
        let t := array (p + i)
        Function.update (Function.update array (p + i) (array (q + i))) (q + i) t) array (p + n) =
        array (p + n) := by
      rw [ih (by omega)]
      split_ifs <;> first | rfl | omega
    have hq : (List.range n).foldl (fun array i =>
        let t := array (p + i)
        Function.update (Function.update array (p + i) (array (q + i))) (q + i) t) array (q + n) =
        array (q + n) := by
      rw [ih (by omega)]
      split_ifs <;> first | rfl | omega
    rw [Function.update_apply, Function.update_apply, hp, hq, ih (by omega)]
    split_ifs <;> first | rfl | omega | (congr 1; omega)

theorem do_swap_apply (array : Nat → UInt8) (a_idx b_idx size : Nat)
    (hpq : (a_idx - 1) * size = (b_idx - 1) * size ∨ (a_idx - 1) * size + size ≤ (b_idx - 1) * size ∨
      (b_idx - 1) * size + size ≤ (a_idx - 1) * size) (o : Nat) :
    do_swap array a_idx b_idx size o =
      if (a_idx - 1) * size ≤ o ∧ o < (a_idx - 1) * size + size then array (o - (a_idx - 1) * size + (b_idx - 1) * size)
      else if (b_idx - 1) * size ≤ o ∧ o < (b_idx - 1) * size + size then
        array (o - (b_idx - 1) * size + (a_idx - 1) * size)
      else array o :=
  do_swap_loop array hpq size (Nat.le_refl _) o

theorem elements_do_swap (array : Nat → UInt8) (size : Nat) {i j : Nat} (hi : 1 ≤ i) (hj : 1 ≤ j) :
    elements (do_swap array i j size) size = HeapSort.swap_at (elements array size) i j := by
  have hpq : (i - 1) * size = (j - 1) * size ∨ (i - 1) * size + size ≤ (j - 1) * size ∨
      (j - 1) * size + size ≤ (i - 1) * size := by
    by_cases hij : i = j
    · exact .inl (by rw [hij])
    · exact .inr (blocks_apart size (by omega))
  funext k
  cases k with
  | zero =>
    simp [elements, HeapSort.swap_at, Equiv.swap_apply_of_ne_of_ne (by omega : 0 ≠ i) (by omega : 0 ≠ j)]
  | succ k =>
    simp only [HeapSort.swap_at, Function.comp_apply]
    by_cases hki : k + 1 = i
    · subst hki
      rw [Equiv.swap_apply_left, elements, elements_of_pos array size hj]
      apply element_congr
      intro t ht
      rw [do_swap_apply array _ j size hpq]
      simp only [Nat.add_sub_cancel] at hpq ⊢
      rw [if_pos (by omega)]
      congr 1
      omega
    · by_cases hkj : k + 1 = j
      · subst hkj
        rw [Equiv.swap_apply_right, elements, elements_of_pos array size hi]
        apply element_congr
        intro t ht
        have hapi := blocks_apart size (by omega : k ≠ i - 1)
        rw [do_swap_apply array i _ size hpq]
        simp only [Nat.add_sub_cancel] at hpq ⊢
        rw [if_neg (by omega), if_pos (by omega)]
        congr 1
        omega
      · rw [Equiv.swap_apply_of_ne_of_ne hki hkj, elements, elements]
        apply element_congr
        intro t ht
        have hapi := blocks_apart size (by omega : k ≠ i - 1)
        have hapj := blocks_apart size (by omega : k ≠ j - 1)
        rw [do_swap_apply array i j size hpq, if_neg (by omega), if_neg (by omega)]

theorem do_compare_eq {β : Type} (array : Nat → UInt8) {i j : Nat} (size : Nat)
    (compare : List UInt8 → List UInt8 → β → Int) (aux : β) (hi : 1 ≤ i) (hj : 1 ≤ j) :
    do_compare array i j size compare aux =
      HeapSort.cmp_at (fun x y => compare x y aux) (elements array size) i j := by
  rw [do_compare, HeapSort.cmp_at, elements_of_pos array size hi, elements_of_pos array size hj]

/-! ## `sort` -/

/-- `out` holds the `cnt` elements of `array` in some order, nondecreasing under `cmp`, and every
byte past them as before. -/
structure SortedPermutation (cmp : List UInt8 → List UInt8 → Int) (array out : Nat → UInt8) (cnt size : Nat) :
    Prop where
  perm : ((List.range cnt).map fun k => element out size (k * size)).Perm
    ((List.range cnt).map fun k => element array size (k * size))
  sorted : ∀ j k, j < k → k < cnt → cmp (element out size (j * size)) (element out size (k * size)) ≤ 0
  frame : ∀ o, cnt * size ≤ o → out o = array o

theorem map_elements (array : Nat → UInt8) (cnt size : Nat) :
    (List.range' 1 (cnt + 1 - 1)).map (elements array size) = (List.range cnt).map fun k => element array size (k * size) := by
  rw [Nat.add_sub_cancel, List.range'_eq_map_range, List.map_map]
  congr 1
  funext k
  rw [Function.comp_apply, Nat.add_comm]
  rfl

theorem sort_sorted_permutation {β : Type} (array : Nat → UInt8) (cnt size : Nat)
    (compare : List UInt8 → List UInt8 → β → Int) (aux : β) (hs : 0 < size)
    (hcmp : Std.TransCmp (IntCmp.ord fun x y => compare x y aux)) :
    ∃ out, sort array cnt size compare aux = some out ∧
      SortedPermutation (fun x y => compare x y aux) array out cnt size := by
  refine ⟨_, if_pos hs, ?_⟩
  have hE := HeapSort.sort_map (elements · size)
    (fun s i j hi hj => elements_do_swap s size hi hj)
    (fun s i j hi hj => do_compare_eq s size compare aux hi hj) array cnt
  obtain ⟨hsorted, hperm⟩ := HeapSort.sort_spec (c := fun x y => compare x y aux) (elements array size) cnt
  rw [← hE] at hsorted hperm
  refine ⟨?_, fun j k hjk hk => hsorted (j + 1) (k + 1) (by omega) (by omega) (by omega), fun o ho => ?_⟩
  · have := hperm.list_perm
    rwa [map_elements, map_elements] at this
  · have hcnt : cnt ≤ o / size := (Nat.le_div_iff_mul_le hs).mpr ho
    have hel := hperm.frame (k := o / size + 1) (by omega)
    have hbyte := byte_of_element_eq hel (Nat.mod_lt o hs)
    rwa [Nat.div_add_mod'] at hbyte

theorem sort_permutes_in_order {β : Type} (array : Nat → UInt8) (cnt size : Nat)
    (compare : List UInt8 → List UInt8 → β → Int) (aux : β) (hs : 0 < size)
    (hcmp : Std.TransCmp (IntCmp.ord fun x y => compare x y aux)) :
    (∃ out, sort array cnt size compare aux = some out ∧
      SortedPermutation (fun x y => compare x y aux) array out cnt size) ∧
    ∀ cmp : List UInt8 → List UInt8 → Int, Std.TransCmp (IntCmp.ord cmp) →
      ∃ out, qsort array cnt size cmp = some out ∧ SortedPermutation cmp array out cnt size :=
  ⟨sort_sorted_permutation array cnt size compare aux hs hcmp,
    fun cmp hq => sort_sorted_permutation array cnt size compare_thunk cmp hs hq⟩

/-- Three one-byte elements compared by their byte. -/
theorem sort_permutes_in_order_bytes :
    ∃ out, sort (fun o => o.toUInt8) 3 1 (fun x y (_ : Unit) => ((x.headD 0).toNat : Int) - (y.headD 0).toNat) () =
      some out ∧ SortedPermutation (fun x y => ((x.headD 0).toNat : Int) - (y.headD 0).toNat) (fun o => o.toUInt8) out 3 1 :=
  (sort_permutes_in_order (fun o => o.toUInt8) 3 1 (fun x y (_ : Unit) => ((x.headD 0).toNat : Int) - (y.headD 0).toNat) ()
    (by decide) (IntCmp.transCmp_of_key fun l : List UInt8 => ((l.headD 0).toNat : Int))).1

/-! ## `binary_search` -/

section Search

variable {β : Type} (key : List UInt8) (array : Nat → UInt8) (cnt size : Nat)
  (compare : List UInt8 → List UInt8 → β → Int) (aux : β)

/-- What `binary_search` must return: the offset of an element equal to `key`, or `NULL` when no
element is. -/
def SearchResult (cmp : List UInt8 → List UInt8 → Int) : Option Nat → Prop
  | some p => ∃ k < cnt, p = k * size ∧ cmp key (element array size (k * size)) = 0
  | none => ∀ k < cnt, cmp key (element array size (k * size)) ≠ 0

/-- The loop from the elements `lo … hi`, all before them below `key` and all from `hi` on above
it. -/
theorem binary_search_loop_spec (hs : 0 < size) [Std.TransCmp (IntCmp.ord fun x y => compare x y aux)]
    (hsorted : ∀ j k, j < k → k < cnt →
      compare (element array size (j * size)) (element array size (k * size)) aux ≤ 0) (n : Nat) :
    ∀ lo hi, hi - lo = n → lo ≤ hi → hi ≤ cnt →
      (∀ j < lo, 0 < compare key (element array size (j * size)) aux) →
      (∀ j, hi ≤ j → j < cnt → compare key (element array size (j * size)) aux < 0) →
      ∃ r, binary_search_loop key array size compare aux (lo * size) (hi * size) = some r ∧
        SearchResult key array cnt size (fun x y => compare x y aux) r := by
  induction n using Nat.strong_induction_on with
  | _ n ih =>
    intro lo hi hn hlohi hhi hbelow habove
    rw [binary_search_loop.eq_1]
    by_cases hlt : lo < hi
    · rw [dif_pos (Nat.mul_lt_mul_of_pos_right hlt hs), dif_neg (by omega)]
      have hmid : middle_of (lo * size) (hi * size) size = (lo + (hi - lo) / 2) * size := by
        rw [middle_of, ← Nat.sub_mul, Nat.mul_div_cancel _ hs, Nat.add_mul]
      dsimp only
      rw [hmid]
      set m := lo + (hi - lo) / 2 with hm
      by_cases hneg : compare key (element array size (m * size)) aux < 0
      · rw [if_pos hneg]
        refine ih (m - lo) (by omega) lo m rfl (by omega) (by omega) hbelow fun j hj hjc => ?_
        by_cases hjm : j = m
        · rwa [hjm]
        · exact IntCmp.lt_of_lt_of_le (c := fun x y => compare x y aux) hneg (hsorted m j (by omega) hjc)
      · rw [if_neg hneg]
        by_cases hpos : compare key (element array size (m * size)) aux > 0
        · rw [if_pos hpos, ← Nat.succ_mul]
          refine ih (hi - (m + 1)) (by omega) (m + 1) hi rfl (by omega) hhi (fun j hj => ?_) habove
          by_cases hjm : j = m
          · rwa [hjm]
          · have hmk := IntCmp.neg_of_pos (c := fun x y => compare x y aux) hpos
            exact IntCmp.pos_of_neg (c := fun x y => compare x y aux)
              (IntCmp.lt_of_le_of_lt (c := fun x y => compare x y aux) (hsorted j m (by omega) (by omega)) hmk)
        · rw [if_neg hpos]
          exact ⟨_, rfl, m, by omega, rfl, show compare key (element array size (m * size)) aux = 0 by omega⟩
    · have hlo : lo = hi := by omega
      subst hlo
      rw [dif_neg (lt_irrefl _)]
      refine ⟨none, rfl, fun k hk => ?_⟩
      by_cases hkl : k < lo
      · exact (hbelow k hkl).ne'
      · exact (habove k (by omega) hk).ne

theorem binary_search_spec (hs : 0 < size) (hcmp : Std.TransCmp (IntCmp.ord fun x y => compare x y aux))
    (hsorted : ∀ j k, j < k → k < cnt →
      compare (element array size (j * size)) (element array size (k * size)) aux ≤ 0) :
    ∃ r, binary_search key array cnt size compare aux = some r ∧
      SearchResult key array cnt size (fun x y => compare x y aux) r := by
  have h := binary_search_loop_spec key array cnt size compare aux hs hsorted cnt 0 cnt (by omega)
    (Nat.zero_le _) (Nat.le_refl _) (fun j hj => absurd hj (Nat.not_lt_zero j)) (fun j hj hjc => by omega)
  rwa [Nat.zero_mul, Nat.mul_comm] at h

theorem binary_search_finds_equal (hs : 0 < size) (hcmp : Std.TransCmp (IntCmp.ord fun x y => compare x y aux))
    (hsorted : ∀ j k, j < k → k < cnt →
      compare (element array size (j * size)) (element array size (k * size)) aux ≤ 0) :
    (∃ r, binary_search key array cnt size compare aux = some r ∧
      SearchResult key array cnt size (fun x y => compare x y aux) r) ∧
    ∃ r, bsearch key array cnt size (fun x y => compare x y aux) = some r ∧
      SearchResult key array cnt size (fun x y => compare x y aux) r :=
  ⟨binary_search_spec key array cnt size compare aux hs hcmp hsorted,
    binary_search_spec key array cnt size compare_thunk (fun x y => compare x y aux) hs hcmp hsorted⟩

end Search

/-- Searching the bytes `0, 1, 2` for `1` finds it at offset `1`. -/
theorem binary_search_finds_equal_bytes :
    (∃ r, binary_search [1] (fun o => o.toUInt8) 3 1 (fun x y (_ : Unit) => ((x.headD 0).toNat : Int) - (y.headD 0).toNat) () =
      some r ∧ SearchResult [1] (fun o => o.toUInt8) 3 1 (fun x y => ((x.headD 0).toNat : Int) - (y.headD 0).toNat) r) ∧
    ∃ r, bsearch [1] (fun o => o.toUInt8) 3 1 (fun x y => ((x.headD 0).toNat : Int) - (y.headD 0).toNat) = some r ∧
      SearchResult [1] (fun o => o.toUInt8) 3 1 (fun x y => ((x.headD 0).toNat : Int) - (y.headD 0).toNat) r :=
  binary_search_finds_equal [1] (fun o => o.toUInt8) 3 1 (fun x y (_ : Unit) => ((x.headD 0).toNat : Int) - (y.headD 0).toNat) ()
    (by decide) (IntCmp.transCmp_of_key fun l : List UInt8 => ((l.headD 0).toNat : Int))
    (by
      intro j k hjk hk
      interval_cases k <;> interval_cases j <;> decide)

end Pintos
