import Mathlib.Logic.Function.Basic

/-! # Kernel memory as the modelled code sees it

* A buffer is a byte string `Nat → UInt8` (offset to byte); `memcpy` and `memset`
  (`lib/string.c`) act on it.
* `Heap` is the environment's `malloc`: whether the `n`-th call since boot returns a block.
  A block that is returned is fresh; it is named by its call number, so two live blocks never
  share a name.  The fresh block's bytes are not initialised; a model function that reads them
  takes them as an argument.
-/

namespace Pintos
set_option autoImplicit false
set_option maxHeartbeats 250000
set_option maxRecDepth 120000

/-- A byte buffer in kernel memory. -/
abbrev Buffer := Nat → UInt8

/-- `memcpy (dst + dofs, src + sofs, n)`. -/
def memcpy (dst : Buffer) (dofs : Nat) (src : Buffer) (sofs n : Nat) : Buffer :=
  fun i => if dofs ≤ i ∧ i < dofs + n then src (sofs + (i - dofs)) else dst i

/-- `memset (dst + dofs, value, n)`. -/
def memset (dst : Buffer) (dofs : Nat) (value : UInt8) (n : Nat) : Buffer :=
  fun i => if dofs ≤ i ∧ i < dofs + n then value else dst i

theorem memcpy_inside (dst src : Buffer) (dofs sofs n i : Nat) (h1 : dofs ≤ i) (h2 : i < dofs + n) :
    memcpy dst dofs src sofs n i = src (sofs + (i - dofs)) := by
  simp [memcpy, h1, h2]

theorem memcpy_outside (dst src : Buffer) (dofs sofs n i : Nat) (h : i < dofs ∨ dofs + n ≤ i) :
    memcpy dst dofs src sofs n i = dst i := by
  have : ¬(dofs ≤ i ∧ i < dofs + n) := by omega
  simp [memcpy, this]

/-! ## Strings in buffers -/

/-- The C string a byte array holds: of its first `n` bytes, those before the first NUL. -/
def cstr (b : Nat → UInt8) : Nat → List UInt8
  | 0 => []
  | n + 1 => if b 0 = 0 then [] else b 0 :: cstr (fun k => b (k + 1)) n

/-- The bytes `bytes` stored from `dst + ofs` on. -/
def store_bytes (dst : Buffer) (ofs : Nat) (bytes : List UInt8) : Buffer :=
  fun i => if ofs ≤ i ∧ i < ofs + bytes.length then bytes.getD (i - ofs) 0 else dst i

/-- `strlcpy (dst + ofs, src, size)` for the string `src`: at most `size - 1` of its bytes and a
null byte, nothing when `size` is 0. -/
def strlcpy (dst : Buffer) (ofs : Nat) (src : List UInt8) (size : Nat) : Buffer :=
  if size > 0 then store_bytes dst ofs (src.take (size - 1) ++ [0]) else dst

/-- `memcmp (a, b, size)`: the sign of the first byte that differs, 0 when none does. -/
def memcmp (a b : Buffer) : Nat → Int
  | 0 => 0
  | size + 1 => if a 0 ≠ b 0 then (if a 0 > b 0 then 1 else -1) else memcmp (fun i => a (i + 1)) (fun i => b (i + 1)) size

theorem store_bytes_inside (dst : Buffer) (ofs : Nat) (bytes : List UInt8) {i : Nat} (h1 : ofs ≤ i)
    (h2 : i < ofs + bytes.length) : store_bytes dst ofs bytes i = bytes.getD (i - ofs) 0 := by
  simp [store_bytes, h1, h2]

theorem store_bytes_outside (dst : Buffer) (ofs : Nat) (bytes : List UInt8) {i : Nat}
    (h : i < ofs ∨ ofs + bytes.length ≤ i) : store_bytes dst ofs bytes i = dst i := by
  have : ¬(ofs ≤ i ∧ i < ofs + bytes.length) := by omega
  simp [store_bytes, this]

theorem strlcpy_outside (dst : Buffer) (ofs : Nat) (src : List UInt8) (size : Nat) {i : Nat}
    (h : i < ofs ∨ ofs + size ≤ i) : strlcpy dst ofs src size i = dst i := by
  unfold strlcpy
  by_cases hs : size > 0
  · rw [if_pos hs]
    exact store_bytes_outside _ _ _ (by simp; omega)
  · rw [if_neg hs]

theorem store_bytes_getD (dst : Buffer) (ofs : Nat) (bytes : List UInt8) {i : Nat} (h1 : ofs ≤ i)
    (hz : ofs + bytes.length ≤ i → dst i = 0) : store_bytes dst ofs bytes i = bytes.getD (i - ofs) 0 := by
  by_cases h2 : i < ofs + bytes.length
  · exact store_bytes_inside dst ofs bytes h1 h2
  · rw [store_bytes_outside dst ofs bytes (Or.inr (by omega)), hz (by omega), List.getD_eq_getElem?_getD,
      List.getElem?_eq_none (by omega), Option.getD_none]

theorem strlcpy_getD (dst : Buffer) (ofs : Nat) (src : List UInt8) (size : Nat) {i : Nat}
    (hlen : src.length < size) (h1 : ofs ≤ i) (hz : ofs + src.length < i → dst i = 0) :
    strlcpy dst ofs src size i = src.getD (i - ofs) 0 := by
  rw [strlcpy, if_pos (by omega), List.take_of_length_le (by omega),
    store_bytes_getD _ _ _ h1 (fun h => hz (by rw [List.length_append] at h; simp at h; omega))]
  -- past the string both sides read a zero: the copied null byte or the default
  by_cases hk : i - ofs < src.length
  · rw [List.getD_eq_getElem?_getD, List.getD_eq_getElem?_getD, List.getElem?_append_left hk]
  · rw [List.getD_eq_getElem?_getD, List.getD_eq_getElem?_getD, List.getElem?_append_right (by omega),
      List.getElem?_eq_none (by omega : src.length ≤ i - ofs)]
    cases h : i - ofs - src.length with
    | zero => rfl
    | succ k => simp

theorem memset_inside (dst : Buffer) (dofs : Nat) (value : UInt8) (n : Nat) {i : Nat} (h1 : dofs ≤ i)
    (h2 : i < dofs + n) : memset dst dofs value n i = value := by
  simp [memset, h1, h2]

theorem memset_outside (dst : Buffer) (dofs : Nat) (value : UInt8) (n : Nat) {i : Nat}
    (h : i < dofs ∨ dofs + n ≤ i) : memset dst dofs value n i = dst i := by
  have : ¬(dofs ≤ i ∧ i < dofs + n) := by omega
  simp [memset, this]

theorem memcmp_eq_zero_iff (a b : Buffer) (size : Nat) : memcmp a b size = 0 ↔ ∀ i < size, a i = b i := by
  induction size generalizing a b with
  | zero => simp [memcmp]
  | succ size ih =>
    rw [memcmp]
    by_cases h0 : a 0 = b 0
    · rw [if_neg (not_not.mpr h0), ih]
      constructor
      · intro h i hi
        cases i with
        | zero => exact h0
        | succ i => exact h i (by omega)
      · intro h i hi
        exact h (i + 1) (by omega)
    · rw [if_pos h0]
      constructor
      · intro h
        by_cases hg : a 0 > b 0
        · rw [if_pos hg] at h
          omega
        · rw [if_neg hg] at h
          omega
      · intro h
        exact absurd (h 0 (Nat.succ_pos _)) h0

theorem memcmp_congr {a a' b : Buffer} (size : Nat) (h : ∀ i < size, a i = a' i) :
    memcmp a b size = memcmp a' b size := by
  induction size generalizing a a' b with
  | zero => rfl
  | succ size ih =>
    rw [memcmp, memcmp, h 0 (Nat.succ_pos size), ih (fun i hi => h (i + 1) (by omega))]

theorem cstr_congr {b c : Nat → UInt8} (n : Nat) (h : ∀ k < n, b k = c k) : cstr b n = cstr c n := by
  induction n generalizing b c with
  | zero => rfl
  | succ n ih =>
    simp only [cstr, h 0 (Nat.succ_pos n)]
    rw [ih (fun k hk => h (k + 1) (by omega))]

theorem cstr_of_bytes (name : List UInt8) (hnul : ∀ c ∈ name, c ≠ 0) :
    ∀ (b : Nat → UInt8) (n : Nat), name.length < n → (∀ k (hk : k < name.length), b k = name[k]) →
      b name.length = 0 → cstr b n = name := by
  induction name with
  | nil =>
    intro b n hn _ h0
    cases n with
    | zero => simp at hn
    | succ n => simp [cstr, show b 0 = 0 from h0]
  | cons c name ih =>
    intro b n hn hbytes h0
    cases n with
    | zero => simp at hn
    | succ n =>
      have hc : b 0 = c := hbytes 0 (by simp)
      have hc0 : c ≠ 0 := hnul c List.mem_cons_self
      rw [cstr, hc, if_neg hc0,
        ih (fun x hx => hnul x (List.mem_cons_of_mem c hx)) (fun k => b (k + 1)) n (by simp at hn; omega)
          (fun k hk => hbytes (k + 1) (by simp; omega)) (by simpa using h0)]

/-! ## The `malloc` oracle -/

/-- The outcome of every kernel allocation: call number `calls` succeeds iff `ok calls`. -/
structure Heap where
  ok : Nat → Bool
  calls : Nat

/-- One `malloc`/`calloc`: the fresh block's name, or `none` for a null pointer. -/
def Heap.malloc (h : Heap) : Option Nat × Heap :=
  (if h.ok h.calls then some h.calls else none, { h with calls := h.calls + 1 })

@[simp] theorem Heap.malloc_ok (h : Heap) : h.malloc.2.ok = h.ok := rfl

@[simp] theorem Heap.malloc_calls (h : Heap) : h.malloc.2.calls = h.calls + 1 := rfl

theorem Heap.malloc_fst (h : Heap) : h.malloc.1 = if h.ok h.calls then some h.calls else none :=
  rfl

theorem Heap.malloc_of_ok (h : Heap) (hok : h.ok h.calls = true) :
    h.malloc = (some h.calls, { h with calls := h.calls + 1 }) := by
  simp [Heap.malloc, hok]

end Pintos
