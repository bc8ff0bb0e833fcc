import Mathlib.Logic.Function.Basic
import Pintos.Foundations.HeapSort

/-! # Sorting and searching (`lib/stdlib.c`)

An array of `cnt` elements of `size` bytes each is the byte store `array : Nat → UInt8` read from
the array's first byte, so that a pointer into the array is an offset.  A comparison function
receives two pointers to elements and reads the `size` bytes there, so it is modelled as a function
of those bytes; `aux` is passed through.  `sort` and `heapify` address elements by 1-based index,
element `k` being the bytes from `(k - 1) * size`.

`heapify` and the two loops of `sort` are the loops of `HeapSort`, run with `do_swap` and
`do_compare` as the swap and the comparison of two indices.
-/

namespace Pintos
set_option autoImplicit false

/-- The `size` bytes from offset `p`: what a comparison function reads through a pointer to an
element. -/
def element (array : Nat → UInt8) (size p : Nat) : List UInt8 :=
  (List.range size).map fun i => array (p + i)

/-- `compare_thunk (a, b, aux)`: `aux` points to the two-argument comparison. -/
def compare_thunk (a b : List UInt8) (aux : List UInt8 → List UInt8 → Int) : Int := aux a b

def do_swap (array : Nat → UInt8) (a_idx b_idx size : Nat) : Nat → UInt8 :=
  (List.range size).foldl (fun array i =>
    let a := (a_idx - 1) * size
    let b := (b_idx - 1) * size
    let t := array (a + i)
    Function.update (Function.update array (a + i) (array (b + i))) (b + i) t) array

def do_compare {β : Type} (array : Nat → UInt8) (a_idx b_idx size : Nat)
    (compare : List UInt8 → List UInt8 → β → Int) (aux : β) : Int :=
  compare (element array size ((a_idx - 1) * size)) (element array size ((b_idx - 1) * size)) aux

def heapify {β : Type} (array : Nat → UInt8) (i cnt size : Nat) (compare : List UInt8 → List UInt8 → β → Int)
    (aux : β) : Nat → UInt8 :=
  HeapSort.heapify (fun a x y => do_swap a x y size) (fun a x y => do_compare a x y size compare aux) array i cnt

/-- `sort (array, cnt, size, compare, aux)`: `none` when `ASSERT (size > 0)` fails. -/
def sort {β : Type} (array : Nat → UInt8) (cnt size : Nat) (compare : List UInt8 → List UInt8 → β → Int)
    (aux : β) : Option (Nat → UInt8) :=
  if size > 0 then
    some (HeapSort.sort (fun a x y => do_swap a x y size) (fun a x y => do_compare a x y size compare aux) array cnt)
  else none

def qsort (array : Nat → UInt8) (cnt size : Nat) (compare : List UInt8 → List UInt8 → Int) :
    Option (Nat → UInt8) :=
  sort array cnt size compare_thunk compare

/-- The middle of `first … last` in whole elements, as `binary_search` takes it. -/
def middle_of (first last size : Nat) : Nat := first + (last - first) / size / 2 * size

theorem middle_of_lt {first last size : Nat} (hs : 0 < size) (h : first < last) :
    middle_of first last size < last := by
  unfold middle_of
  have hle : (last - first) / size * size ≤ last - first := Nat.div_mul_le_self _ _
  -- half the elements, in bytes, are fewer than all the bytes
  have hhalf : (last - first) / size / 2 * size < last - first ∨ (last - first) / size = 0 := by
    by_cases h0 : (last - first) / size = 0
    · exact .inr h0
    · left
      have := Nat.mul_lt_mul_of_pos_right (Nat.div_lt_self (Nat.pos_of_ne_zero h0) Nat.one_lt_two) hs
      omega
  rcases hhalf with h₁ | h₁
  · omega
  · rw [h₁]
    omega

/-- The loop of `binary_search` over the offsets `first … last`: `none` when the division by
`size` traps, else the offset of the match it returns or `NULL`. -/
def binary_search_loop {β : Type} (key : List UInt8) (array : Nat → UInt8) (size : Nat)
    (compare : List UInt8 → List UInt8 → β → Int) (aux : β) (first last : Nat) : Option (Option Nat) :=
  if _h : first < last then
    if _hs : size = 0 then none
    else
      let middle := middle_of first last size
      let cmp := compare key (element array size middle) aux
      if cmp < 0 then binary_search_loop key array size compare aux first middle
      else if cmp > 0 then binary_search_loop key array size compare aux (middle + size) last
      else some (some middle)
  else some none
termination_by last - first
decreasing_by
  · have := middle_of_lt (Nat.pos_of_ne_zero _hs) _h
    omega
  · have : first ≤ middle_of first last size := Nat.le_add_right _ _
    omega

def binary_search {β : Type} (key : List UInt8) (array : Nat → UInt8) (cnt size : Nat)
    (compare : List UInt8 → List UInt8 → β → Int) (aux : β) : Option (Option Nat) :=
  binary_search_loop key array size compare aux 0 (size * cnt)

def bsearch (key : List UInt8) (array : Nat → UInt8) (cnt size : Nat) (compare : List UInt8 → List UInt8 → Int) :
    Option (Option Nat) :=
  binary_search key array cnt size compare_thunk compare

end Pintos
