import Pintos.Foundations.WordBits
import Pintos.Lib.Memory
import Mathlib.Data.List.Range
import Mathlib.Data.Nat.Find

/-! # Bitmaps (`lib/kernel/bitmap.c`)

`struct bitmap` is a bit count and an array of `elem_type` words (`unsigned long`, 32 bits on
i386), bit `i` being bit `i % 32` of word `i / 32`.  The words past `elem_cnt bit_cnt` are
not part of the bitmap; the bits of the last word past `bit_cnt` (its tail) are whatever
`malloc` left there until something writes them.

The functions of `bitmap.c` check their `ASSERT`s first and return `none`, the kernel panic,
when one fails.  What they do once the checks pass is the bit view (`Bitmap.bit`,
`Bitmap.set_multiple`, `Bitmap.count`, `Bitmap.contains`, `Bitmap.scan`): inside it every
`ASSERT` of a callee holds, and the file system and the page allocator reason about it.  The
`size_t` sum `start + cnt` of the checks is not wrapped: where it would wrap past `2^32` the
code's check passes, but its loop then reaches bit `bit_cnt`, whose `bitmap_test` or
`bitmap_set` fails its own `ASSERT`, so the call panics all the same.
-/

namespace Pintos
set_option autoImplicit false
set_option maxHeartbeats 250000
set_option maxRecDepth 120000

open WordBits

/-- `elem_type` words are 32 bits wide. -/
def ELEM_BITS : Nat := 32

/-- `SIZE_MAX`, returned by the scans when nothing is found. -/
def BITMAP_ERROR : Nat := 4294967295

/-- `struct bitmap` -/
structure Bitmap where
  bit_cnt : Nat
  bits : Nat → BitVec 32

def elem_idx (bit_idx : Nat) : Nat := bit_idx / ELEM_BITS

def bit_mask (bit_idx : Nat) : BitVec 32 := 1#32 <<< (bit_idx % ELEM_BITS)

/-- `DIV_ROUND_UP (bit_cnt, ELEM_BITS)` -/
def elem_cnt (bit_cnt : Nat) : Nat := (bit_cnt + ELEM_BITS - 1) / ELEM_BITS

def byte_cnt (bit_cnt : Nat) : Nat := 4 * elem_cnt bit_cnt

/-- The bits of the last word that belong to the bitmap. -/
def last_mask (b : Bitmap) : BitVec 32 :=
  let last_bits := b.bit_cnt % ELEM_BITS
  if last_bits ≠ 0 then (1#32 <<< last_bits) - 1 else BitVec.allOnes 32

def bitmap_size (b : Bitmap) : Nat := b.bit_cnt

def bitmap_mark (b : Bitmap) (bit_idx : Nat) : Bitmap :=
  let idx := elem_idx bit_idx
  let mask := bit_mask bit_idx
  { b with bits := Function.update b.bits idx (b.bits idx ||| mask) }

def bitmap_reset (b : Bitmap) (bit_idx : Nat) : Bitmap :=
  let idx := elem_idx bit_idx
  let mask := bit_mask bit_idx
  { b with bits := Function.update b.bits idx (b.bits idx &&& ~~~mask) }

/-! ## Past the checks -/

def Bitmap.set (b : Bitmap) (idx : Nat) (value : Bool) : Bitmap :=
  if value then bitmap_mark b idx else bitmap_reset b idx

def Bitmap.bit (b : Bitmap) (idx : Nat) : Bool :=
  (b.bits (elem_idx idx) &&& bit_mask idx) != 0

/-- The loop `for (i = 0; i < cnt; i++) bitmap_set (b, start + i, value)`. -/
def Bitmap.set_multiple (b : Bitmap) (start cnt : Nat) (value : Bool) : Bitmap :=
  (List.range cnt).foldl (fun b i => Bitmap.set b (start + i) value) b

def Bitmap.count (b : Bitmap) (start cnt : Nat) (value : Bool) : Nat :=
  (List.range cnt).foldl (fun value_cnt i =>
    if Bitmap.bit b (start + i) == value then value_cnt + 1 else value_cnt) 0

def Bitmap.contains (b : Bitmap) (start cnt : Nat) (value : Bool) : Bool :=
  (List.range cnt).any (fun i => Bitmap.bit b (start + i) == value)

def Bitmap.all (b : Bitmap) (start cnt : Nat) : Bool := !Bitmap.contains b start cnt false

/-- The first `i` in `start … bit_cnt - cnt` whose `cnt` bits hold no `!value`. -/
def Bitmap.scan (b : Bitmap) (start cnt : Nat) (value : Bool) : Nat :=
  if cnt ≤ b.bit_cnt then
    let last := b.bit_cnt - cnt
    ((List.range' start (last + 1 - start)).find? (fun i => !Bitmap.contains b i cnt (!value))).getD
      BITMAP_ERROR
  else BITMAP_ERROR

def Bitmap.scan_and_flip (b : Bitmap) (start cnt : Nat) (value : Bool) : Bitmap × Nat :=
  let idx := Bitmap.scan b start cnt value
  (if idx ≠ BITMAP_ERROR then Bitmap.set_multiple b idx cnt (!value) else b, idx)

/-! ## The functions of `bitmap.c` -/

def bitmap_set (b : Bitmap) (idx : Nat) (value : Bool) : Option Bitmap :=
  if idx < b.bit_cnt then some (b.set idx value) else none

def bitmap_test (b : Bitmap) (idx : Nat) : Option Bool :=
  if idx < b.bit_cnt then some (b.bit idx) else none

def bitmap_set_multiple (b : Bitmap) (start cnt : Nat) (value : Bool) : Option Bitmap :=
  if start ≤ b.bit_cnt ∧ start + cnt ≤ b.bit_cnt then some (b.set_multiple start cnt value) else none

def bitmap_set_all (b : Bitmap) (value : Bool) : Option Bitmap :=
  bitmap_set_multiple b 0 (bitmap_size b) value

def bitmap_count (b : Bitmap) (start cnt : Nat) (value : Bool) : Option Nat :=
  if start ≤ b.bit_cnt ∧ start + cnt ≤ b.bit_cnt then some (b.count start cnt value) else none

def bitmap_contains (b : Bitmap) (start cnt : Nat) (value : Bool) : Option Bool :=
  if start ≤ b.bit_cnt ∧ start + cnt ≤ b.bit_cnt then some (b.contains start cnt value) else none

def bitmap_all (b : Bitmap) (start cnt : Nat) : Option Bool :=
  (bitmap_contains b start cnt false).map not

def bitmap_scan (b : Bitmap) (start cnt : Nat) (value : Bool) : Option Nat :=
  if start ≤ b.bit_cnt then some (b.scan start cnt value) else none

def bitmap_scan_and_flip (b : Bitmap) (start cnt : Nat) (value : Bool) : Option (Bitmap × Nat) := do
  let idx ← bitmap_scan b start cnt value
  if idx ≠ BITMAP_ERROR then
    let b ← bitmap_set_multiple b idx cnt (!value)
    pure (b, idx)
  else pure (b, idx)

/-- `bitmap_create (bit_cnt)`: the new map, or `none` inside for the null pointer; `fresh` is
what the second `malloc` left in the new word array. -/
def bitmap_create (h : Heap) (fresh : Nat → BitVec 32) (bit_cnt : Nat) : Option (Option Bitmap × Heap) :=
  let (b, h) := h.malloc
  match b with
  | none => some (none, h)
  | some _ =>
    let (bits, h) := h.malloc
    if bits.isSome || bit_cnt == 0 then
      (bitmap_set_all { bit_cnt := bit_cnt, bits := fresh } false).map fun b => (some b, h)
    else some (none, h)

def bitmap_file_size (b : Bitmap) : Nat := byte_cnt b.bit_cnt

/-! ## The bit view -/

theorem Bitmap.bit_eq (b : Bitmap) (i : Nat) : Bitmap.bit b i = wordBit b.bits i := by
  unfold Bitmap.bit wordBit elem_idx bit_mask ELEM_BITS
  exact and_mask_ne_zero _ _ (Nat.mod_lt _ (by omega))

@[simp] theorem bitmap_mark_bit_cnt (b : Bitmap) (i : Nat) : (bitmap_mark b i).bit_cnt = b.bit_cnt :=
  rfl

@[simp] theorem bitmap_reset_bit_cnt (b : Bitmap) (i : Nat) :
    (bitmap_reset b i).bit_cnt = b.bit_cnt := rfl

@[simp] theorem Bitmap.set_bit_cnt (b : Bitmap) (i : Nat) (v : Bool) :
    (Bitmap.set b i v).bit_cnt = b.bit_cnt := by
  cases v <;> rfl

theorem Bitmap.bit_mark (b : Bitmap) (i j : Nat) :
    Bitmap.bit (bitmap_mark b i) j = (Bitmap.bit b j || decide (j = i)) := by
  rw [Bitmap.bit_eq, Bitmap.bit_eq]
  exact wordBit_update_or b.bits i j

theorem Bitmap.bit_reset (b : Bitmap) (i j : Nat) :
    Bitmap.bit (bitmap_reset b i) j = (Bitmap.bit b j && !decide (j = i)) := by
  rw [Bitmap.bit_eq, Bitmap.bit_eq]
  exact wordBit_update_and_not b.bits i j

theorem Bitmap.bit_set (b : Bitmap) (i j : Nat) (v : Bool) :
    Bitmap.bit (Bitmap.set b i v) j = if j = i then v else Bitmap.bit b j := by
  by_cases hj : j = i
  · cases v <;> simp [Bitmap.set, Bitmap.bit_mark, Bitmap.bit_reset, hj]
  · cases v <;> simp [Bitmap.set, Bitmap.bit_mark, Bitmap.bit_reset, hj]

@[simp] theorem Bitmap.set_multiple_bit_cnt (b : Bitmap) (start cnt : Nat) (v : Bool) :
    (Bitmap.set_multiple b start cnt v).bit_cnt = b.bit_cnt := by
  unfold Bitmap.set_multiple
  induction cnt generalizing b with
  | zero => rfl
  | succ n ih =>
    rw [List.range_succ, List.foldl_append, List.foldl_cons, List.foldl_nil, Bitmap.set_bit_cnt]
    exact ih b

theorem Bitmap.bit_set_multiple (b : Bitmap) (start cnt j : Nat) (v : Bool) :
    Bitmap.bit (Bitmap.set_multiple b start cnt v) j =
      if start ≤ j ∧ j < start + cnt then v else Bitmap.bit b j := by
  unfold Bitmap.set_multiple
  induction cnt with
  | zero => simp
  | succ n ih =>
    rw [List.range_succ, List.foldl_append, List.foldl_cons, List.foldl_nil, Bitmap.bit_set, ih]
    by_cases hj : j = start + n
    · simp [hj]
    · by_cases hin : start ≤ j ∧ j < start + n
      · have hin' : start ≤ j ∧ j < start + (n + 1) := by omega
        rw [if_neg hj, if_pos hin, if_pos hin']
      · have hout : ¬(start ≤ j ∧ j < start + (n + 1)) := by omega
        rw [if_neg hj, if_neg hin, if_neg hout]

theorem Bitmap.contains_iff (b : Bitmap) (start cnt : Nat) (v : Bool) :
    Bitmap.contains b start cnt v = true ↔ ∃ i, i < cnt ∧ Bitmap.bit b (start + i) = v := by
  simp [Bitmap.contains]

theorem Bitmap.all_iff (b : Bitmap) (start cnt : Nat) :
    Bitmap.all b start cnt = true ↔ ∀ i, i < cnt → Bitmap.bit b (start + i) = true := by
  rw [Bitmap.all, Bool.not_eq_true', ← Bool.not_eq_true, Bitmap.contains_iff]
  simp

theorem Bitmap.count_eq (b : Bitmap) (start cnt : Nat) (v : Bool) :
    Bitmap.count b start cnt v = ((List.range cnt).filter (fun i => Bitmap.bit b (start + i) == v)).length := by
  unfold Bitmap.count
  induction cnt with
  | zero => rfl
  | succ n ih =>
    rw [List.range_succ, List.foldl_append, List.foldl_cons, List.foldl_nil, ih, List.filter_append]
    by_cases h : (Bitmap.bit b (start + n) == v) = true
    · simp [h]
    · simp [h]

theorem Bitmap.count_succ (b : Bitmap) (start n : Nat) (v : Bool) :
    Bitmap.count b start (n + 1) v =
      Bitmap.count b start n v + if Bitmap.bit b (start + n) = v then 1 else 0 := by
  unfold Bitmap.count
  rw [List.range_succ, List.foldl_append, List.foldl_cons, List.foldl_nil]
  by_cases h : Bitmap.bit b (start + n) = v <;> simp [h]

theorem Bitmap.count_congr (b b' : Bitmap) (start cnt : Nat) (v : Bool)
    (h : ∀ j, j < cnt → Bitmap.bit b (start + j) = Bitmap.bit b' (start + j)) :
    Bitmap.count b start cnt v = Bitmap.count b' start cnt v := by
  induction cnt with
  | zero => rfl
  | succ n ih =>
    rw [Bitmap.count_succ, Bitmap.count_succ, ih (fun j hj => h j (by omega)), h n (by omega)]

theorem Bitmap.count_pos (b : Bitmap) (start cnt : Nat) (v : Bool) (h : 0 < Bitmap.count b start cnt v) :
    ∃ j, j < cnt ∧ Bitmap.bit b (start + j) = v := by
  induction cnt with
  | zero => simp [Bitmap.count] at h
  | succ n ih =>
    rw [Bitmap.count_succ] at h
    by_cases hn : Bitmap.bit b (start + n) = v
    · exact ⟨n, by omega, hn⟩
    · rw [if_neg hn] at h
      obtain ⟨j, hj, hv⟩ := ih (by omega)
      exact ⟨j, by omega, hv⟩

theorem Bitmap.count_flip (b : Bitmap) (start cnt j : Nat) (v : Bool) (hj : j < cnt)
    (hv : Bitmap.bit b (start + j) = v) :
    Bitmap.count (Bitmap.set_multiple b (start + j) 1 (!v)) start cnt v + 1 = Bitmap.count b start cnt v := by
  induction cnt with
  | zero => omega
  | succ n ih =>
    rw [Bitmap.count_succ, Bitmap.count_succ, Bitmap.bit_set_multiple]
    by_cases hjn : j = n
    · subst hjn
      have hsame := Bitmap.count_congr (Bitmap.set_multiple b (start + j) 1 (!v)) b start j v (fun i hi => by
        rw [Bitmap.bit_set_multiple, if_neg (by omega)])
      have hin : start + j ≤ start + j ∧ start + j < start + j + 1 := by omega
      have hne : ¬((!v) = v) := by cases v <;> simp
      rw [hsame, if_pos hin, if_neg hne, if_pos hv]
    · have hout : ¬(start + j ≤ start + n ∧ start + n < start + j + 1) := by omega
      have := ih (by omega)
      rw [if_neg hout]
      omega

/-! ## Scanning -/

theorem Bitmap.scan_and_flip_keeps (b : Bitmap) (start cnt x : Nat) (h : Bitmap.bit b x = true) :
    Bitmap.bit (Bitmap.scan_and_flip b start cnt false).1 x = true := by
  simp only [Bitmap.scan_and_flip]
  split
  · rw [Bitmap.bit_set_multiple]
    split <;> simp [h]
  · exact h

@[simp] theorem Bitmap.scan_and_flip_snd (b : Bitmap) (start cnt : Nat) (v : Bool) :
    (Bitmap.scan_and_flip b start cnt v).2 = Bitmap.scan b start cnt v := rfl

@[simp] theorem Bitmap.scan_and_flip_bit_cnt (b : Bitmap) (start cnt : Nat) (v : Bool) :
    (Bitmap.scan_and_flip b start cnt v).1.bit_cnt = b.bit_cnt := by
  simp only [Bitmap.scan_and_flip]
  split <;> simp

theorem Bitmap.scan_of_le (b : Bitmap) (start cnt : Nat) (v : Bool) (hcnt : cnt ≤ b.bit_cnt) :
    Bitmap.scan b start cnt v =
      ((List.range' start (b.bit_cnt - cnt + 1 - start)).find?
        (fun i => !Bitmap.contains b i cnt (!v))).getD BITMAP_ERROR := by
  simp [Bitmap.scan, hcnt]

theorem not_contains_iff (b : Bitmap) (i cnt : Nat) (v : Bool) :
    (!Bitmap.contains b i cnt (!v)) = true ↔ ∀ j, j < cnt → Bitmap.bit b (i + j) = v := by
  rw [Bool.not_eq_true', Bool.eq_false_iff, ne_eq, Bitmap.contains_iff]
  constructor
  · intro h j hj
    by_contra hne
    exact h ⟨j, hj, by cases v <;> simp_all⟩
  · rintro h ⟨j, hj, hb⟩
    rw [h j hj] at hb
    cases v <;> simp at hb

/-- A scan that does not fail returns the least index from `start` whose `cnt` bits, all
inside the map, hold `value`. -/
theorem Bitmap.scan_found (b : Bitmap) (start cnt : Nat) (v : Bool)
    (h : Bitmap.scan b start cnt v ≠ BITMAP_ERROR) :
    start ≤ Bitmap.scan b start cnt v ∧ Bitmap.scan b start cnt v + cnt ≤ b.bit_cnt ∧
      (∀ j, j < cnt → Bitmap.bit b (Bitmap.scan b start cnt v + j) = v) ∧
      ∀ i, start ≤ i → i < Bitmap.scan b start cnt v → ∃ j, j < cnt ∧ Bitmap.bit b (i + j) = !v := by
  by_cases hcnt : cnt ≤ b.bit_cnt
  · rw [Bitmap.scan_of_le b start cnt v hcnt] at h ⊢
    cases hfind : (List.range' start (b.bit_cnt - cnt + 1 - start)).find?
        (fun i => !Bitmap.contains b i cnt (!v)) with
    | none => simp [hfind] at h
    | some i =>
      rw [List.find?_range'_eq_some, List.mem_range'_1] at hfind
      obtain ⟨hall, hmem, hleast⟩ := hfind
      simp only [Option.getD_some]
      refine ⟨hmem.1, by omega, (not_contains_iff b i cnt v).mp hall, fun i' hi' hlt => ?_⟩
      have := hleast i' hi' hlt
      rw [Bool.not_not, Bitmap.contains_iff] at this
      exact this
  · simp [Bitmap.scan, hcnt] at h

theorem Bitmap.scan_ne_error (b : Bitmap) (start cnt i : Nat) (v : Bool) (hcnt : 0 < cnt)
    (hlim : b.bit_cnt ≤ BITMAP_ERROR) (hs : start ≤ i) (hi : i + cnt ≤ b.bit_cnt)
    (hall : ∀ j, j < cnt → Bitmap.bit b (i + j) = v) : Bitmap.scan b start cnt v ≠ BITMAP_ERROR := by
  rw [Bitmap.scan_of_le b start cnt v (by omega)]
  cases hfind : (List.range' start (b.bit_cnt - cnt + 1 - start)).find?
      (fun i => !Bitmap.contains b i cnt (!v)) with
  | none =>
    rw [List.find?_range'_eq_none] at hfind
    have := hfind i hs (by omega)
    rw [(not_contains_iff b i cnt v).mpr hall] at this
    contradiction
  | some k =>
    rw [List.find?_range'_eq_some, List.mem_range'_1] at hfind
    simp only [Option.getD_some]
    omega

/-! ## What the scans find -/

/-- `cnt` bits from `i` on, all inside the map, hold `value`. -/
def Bitmap.run_at (b : Bitmap) (cnt : Nat) (value : Bool) (i : Nat) : Prop :=
  i + cnt ≤ b.bit_cnt ∧ ∀ j < cnt, Bitmap.bit b (i + j) = value

instance (b : Bitmap) (cnt : Nat) (value : Bool) : DecidablePred (b.run_at cnt value) :=
  fun _ => inferInstanceAs (Decidable (_ ∧ _))

/-- The least index from `start` on where `cnt` bits of the map hold `value`, if there is one. -/
noncomputable def Bitmap.first_run (b : Bitmap) (start cnt : Nat) (value : Bool) : Option Nat :=
  open Classical in
  if h : ∃ i, start ≤ i ∧ b.run_at cnt value i then some (Nat.find h) else none

theorem scan_test_iff (b : Bitmap) (cnt : Nat) (v : Bool) {i : Nat} (hi : i + cnt ≤ b.bit_cnt) :
    (!Bitmap.contains b i cnt (!v)) = true ↔ b.run_at cnt v i := by
  rw [not_contains_iff, Bitmap.run_at]
  exact ⟨fun h => ⟨hi, h⟩, fun h => h.2⟩

theorem scan_test_of_not_run (b : Bitmap) (cnt : Nat) (v : Bool) {i : Nat} (hi : i + cnt ≤ b.bit_cnt)
    (h : ¬ b.run_at cnt v i) : (!!Bitmap.contains b i cnt (!v)) = true := by
  by_contra hc
  exact h ((scan_test_iff b cnt v hi).mp (by simpa using hc))

/-- `bitmap_scan` returns the least index from `start` on whose `cnt` bits, inside the map, all
hold `value`, and `BITMAP_ERROR` when there is none. -/
theorem Bitmap.scan_eq_first_run (b : Bitmap) (start cnt : Nat) (v : Bool) :
    Bitmap.scan b start cnt v = (b.first_run start cnt v).getD BITMAP_ERROR := by
  unfold Bitmap.first_run
  split
  · next hex =>
    obtain ⟨hs, hrun⟩ := Nat.find_spec hex
    have hcnt : cnt ≤ b.bit_cnt := by
      have := hrun.1
      omega
    have hfind : (List.range' start (b.bit_cnt - cnt + 1 - start)).find?
        (fun i => !Bitmap.contains b i cnt (!v)) = some (Nat.find hex) := by
      rw [List.find?_range'_eq_some, List.mem_range'_1]
      refine ⟨(scan_test_iff b cnt v hrun.1).mpr hrun, by have := hrun.1; omega, fun j hj hlt => ?_⟩
      have hle : j + cnt ≤ b.bit_cnt := by
        have := hrun.1
        omega
      exact scan_test_of_not_run b cnt v hle fun h => Nat.find_min hex hlt ⟨hj, h⟩
    rw [Bitmap.scan_of_le b start cnt v hcnt, hfind, Option.getD_some]
  · next hnone =>
    rw [Option.getD_none]
    by_cases hcnt : cnt ≤ b.bit_cnt
    · have hfind : (List.range' start (b.bit_cnt - cnt + 1 - start)).find?
          (fun i => !Bitmap.contains b i cnt (!v)) = none := by
        rw [List.find?_range'_eq_none]
        intro i hi hlt
        exact scan_test_of_not_run b cnt v (by omega) fun h => hnone ⟨i, hi, h⟩
      rw [Bitmap.scan_of_le b start cnt v hcnt, hfind, Option.getD_none]
    · simp [Bitmap.scan, hcnt]

/-- `bitmap_scan_and_flip` sets the `cnt` bits from the index it returns to `!value`, unless it
returns `BITMAP_ERROR`, and leaves every other bit. -/
theorem Bitmap.bit_scan_and_flip (b : Bitmap) (start cnt : Nat) (v : Bool) (j : Nat) :
    Bitmap.bit (Bitmap.scan_and_flip b start cnt v).1 j =
      if Bitmap.scan b start cnt v ≠ BITMAP_ERROR ∧ Bitmap.scan b start cnt v ≤ j ∧
          j < Bitmap.scan b start cnt v + cnt then !v
      else Bitmap.bit b j := by
  by_cases herr : Bitmap.scan b start cnt v = BITMAP_ERROR
  · simp [Bitmap.scan_and_flip, herr]
  · simp [Bitmap.scan_and_flip, herr, Bitmap.bit_set_multiple]

theorem Bitmap.scan_and_flip_error (b : Bitmap) (start cnt : Nat) (v : Bool)
    (herr : Bitmap.scan b start cnt v = BITMAP_ERROR) : (Bitmap.scan_and_flip b start cnt v).1 = b := by
  simp [Bitmap.scan_and_flip, herr]

theorem Bitmap.count_eq_length (b : Bitmap) (start cnt : Nat) (v : Bool) :
    Bitmap.count b start cnt v = ((List.range' start cnt).filter (fun i => Bitmap.bit b i = v)).length := by
  rw [Bitmap.count_eq, List.range'_eq_map_range, List.filter_map, List.length_map]
  simp [Function.comp_def, Bool.beq_eq_decide_eq]

/-! ## The checks

Each function of `bitmap.c` is its bit-view operation when its `ASSERT`s hold, and a panic
otherwise. -/

theorem bitmap_test_of_lt {b : Bitmap} {idx : Nat} (h : idx < b.bit_cnt) :
    bitmap_test b idx = some (b.bit idx) := if_pos h

theorem bitmap_test_eq_some_iff (b : Bitmap) (idx : Nat) (v : Bool) :
    bitmap_test b idx = some v ↔ idx < b.bit_cnt ∧ b.bit idx = v := by
  unfold bitmap_test
  split <;> simp_all

theorem bitmap_set_multiple_of_le {b : Bitmap} {start cnt : Nat} (v : Bool) (h : start + cnt ≤ b.bit_cnt) :
    bitmap_set_multiple b start cnt v = some (b.set_multiple start cnt v) :=
  if_pos ⟨by omega, h⟩

theorem bitmap_set_all_eq (b : Bitmap) (v : Bool) :
    bitmap_set_all b v = some (b.set_multiple 0 b.bit_cnt v) :=
  bitmap_set_multiple_of_le v (by rw [Nat.zero_add]; rfl)

theorem bitmap_count_of_le {b : Bitmap} {start cnt : Nat} (v : Bool) (h : start + cnt ≤ b.bit_cnt) :
    bitmap_count b start cnt v = some (b.count start cnt v) :=
  if_pos ⟨by omega, h⟩

theorem bitmap_count_of_lt {b : Bitmap} {start cnt : Nat} (v : Bool) (h : b.bit_cnt < start + cnt) :
    bitmap_count b start cnt v = none :=
  if_neg (by omega)

theorem bitmap_contains_of_le {b : Bitmap} {start cnt : Nat} (v : Bool) (h : start + cnt ≤ b.bit_cnt) :
    bitmap_contains b start cnt v = some (b.contains start cnt v) :=
  if_pos ⟨by omega, h⟩

theorem bitmap_all_of_le {b : Bitmap} {start cnt : Nat} (h : start + cnt ≤ b.bit_cnt) :
    bitmap_all b start cnt = some (b.all start cnt) := by
  rw [bitmap_all, bitmap_contains_of_le false h]
  rfl

theorem bitmap_all_eq_some_true {b : Bitmap} {start cnt : Nat} (h : bitmap_all b start cnt = some true) :
    start + cnt ≤ b.bit_cnt ∧ b.all start cnt = true := by
  by_cases hle : start + cnt ≤ b.bit_cnt
  · rw [bitmap_all_of_le hle] at h
    exact ⟨hle, Option.some.inj h⟩
  · simp [bitmap_all, bitmap_contains, hle] at h

theorem bitmap_scan_of_start_le {b : Bitmap} {start : Nat} (cnt : Nat) (v : Bool) (h : start ≤ b.bit_cnt) :
    bitmap_scan b start cnt v = some (b.scan start cnt v) :=
  if_pos h

theorem bitmap_scan_and_flip_of_le {b : Bitmap} {start : Nat} (cnt : Nat) (v : Bool) (h : start ≤ b.bit_cnt) :
    bitmap_scan_and_flip b start cnt v = some (b.scan_and_flip start cnt v) := by
  by_cases herr : b.scan start cnt v = BITMAP_ERROR
  · simp [bitmap_scan_and_flip, bitmap_scan_of_start_le cnt v h, herr, Bitmap.scan_and_flip]
  · have hfit := (Bitmap.scan_found b start cnt v herr).2.1
    simp [bitmap_scan_and_flip, bitmap_scan_of_start_le cnt v h, herr, bitmap_set_multiple_of_le _ hfit,
      Bitmap.scan_and_flip]

theorem bitmap_set_multiple_eq_some_iff (b b' : Bitmap) (start cnt : Nat) (v : Bool) :
    bitmap_set_multiple b start cnt v = some b' ↔
      start + cnt ≤ b.bit_cnt ∧ b' = b.set_multiple start cnt v := by
  unfold bitmap_set_multiple
  split <;> simp_all [eq_comm]
  omega

theorem bitmap_set_multiple_bit_cnt {b b' : Bitmap} {start cnt : Nat} {v : Bool}
    (h : bitmap_set_multiple b start cnt v = some b') : b'.bit_cnt = b.bit_cnt := by
  rw [((bitmap_set_multiple_eq_some_iff b b' start cnt v).mp h).2, Bitmap.set_multiple_bit_cnt]

theorem bitmap_scan_and_flip_eq_some_iff (b : Bitmap) (start cnt : Nat) (v : Bool) (r : Bitmap × Nat) :
    bitmap_scan_and_flip b start cnt v = some r ↔ start ≤ b.bit_cnt ∧ r = b.scan_and_flip start cnt v := by
  by_cases hs : start ≤ b.bit_cnt
  · rw [bitmap_scan_and_flip_of_le cnt v hs, Option.some.injEq, eq_comm]
    exact ⟨fun h => ⟨hs, h⟩, fun h => h.2⟩
  · simp [bitmap_scan_and_flip, bitmap_scan, hs]

theorem bitmap_scan_and_flip_bit_cnt {b b' : Bitmap} {start cnt idx : Nat} {v : Bool}
    (h : bitmap_scan_and_flip b start cnt v = some (b', idx)) : b'.bit_cnt = b.bit_cnt := by
  have hr := ((bitmap_scan_and_flip_eq_some_iff b start cnt v _).mp h).2
  rw [show b' = (b.scan_and_flip start cnt v).1 from congrArg Prod.fst hr, Bitmap.scan_and_flip_bit_cnt]

/-! ## Successive single-bit allocations

`free_map_allocate (1, &sector)` claims the first clear bit.  `alloc_map b t` is the map after
`t` such claims in a row and `alloc_pos b t` the bit the next one claims: while clear bits
remain, the claimed bits are distinct bits that were clear in `b`. -/

def alloc_map (b : Bitmap) : Nat → Bitmap
  | 0 => b
  | t + 1 => (Bitmap.scan_and_flip (alloc_map b t) 0 1 false).1

def alloc_pos (b : Bitmap) (t : Nat) : Nat := Bitmap.scan (alloc_map b t) 0 1 false

/-- The number of clear bits of the map. -/
def free_cnt (b : Bitmap) : Nat := Bitmap.count b 0 b.bit_cnt false

section Alloc

variable (b : Bitmap) (hlim : b.bit_cnt ≤ BITMAP_ERROR)

@[simp] theorem alloc_map_bit_cnt (t : Nat) : (alloc_map b t).bit_cnt = b.bit_cnt := by
  induction t with
  | zero => rfl
  | succ t ih => simp [alloc_map, ih]

include hlim in
theorem alloc_pos_clear (t : Nat) (hpos : 0 < Bitmap.count (alloc_map b t) 0 b.bit_cnt false) :
    alloc_pos b t ≠ BITMAP_ERROR ∧ alloc_pos b t < b.bit_cnt ∧
      Bitmap.bit (alloc_map b t) (alloc_pos b t) = false := by
  obtain ⟨j, hj, hv⟩ := Bitmap.count_pos _ 0 _ false hpos
  rw [Nat.zero_add] at hv
  have hne : alloc_pos b t ≠ BITMAP_ERROR :=
    Bitmap.scan_ne_error _ 0 1 j false (by omega) (by simpa using hlim) (Nat.zero_le j)
      (by simp; omega) (fun k hk => by rw [show k = 0 by omega, Nat.add_zero]; exact hv)
  obtain ⟨-, hlt, hall, -⟩ := Bitmap.scan_found _ 0 1 false hne
  refine ⟨hne, by simp [alloc_pos] at hlt ⊢; omega, ?_⟩
  simpa [alloc_pos] using hall 0 (by omega)

include hlim in
/-- After `t ≤ free_cnt b` claims, the map holds `b`'s set bits and the claimed ones, and `t`
fewer clear bits. -/
theorem alloc_map_spec (t : Nat) (ht : t ≤ free_cnt b) :
    Bitmap.count (alloc_map b t) 0 b.bit_cnt false + t = free_cnt b ∧
      ∀ x, Bitmap.bit (alloc_map b t) x = true ↔
        Bitmap.bit b x = true ∨ ∃ t', t' < t ∧ alloc_pos b t' = x := by
  induction t with
  | zero => simp [alloc_map, free_cnt]
  | succ t ih =>
    obtain ⟨hcnt, hset⟩ := ih (by omega)
    obtain ⟨hne, hlt, hclear⟩ := alloc_pos_clear b hlim t (by omega)
    have hstep : alloc_map b (t + 1) = Bitmap.set_multiple (alloc_map b t) (alloc_pos b t) 1 true := by
      simp only [alloc_map, Bitmap.scan_and_flip, alloc_pos] at hne ⊢
      rw [if_pos hne]
      rfl
    refine ⟨?_, fun x => ?_⟩
    · have hflip := Bitmap.count_flip (alloc_map b t) 0 b.bit_cnt (alloc_pos b t) false
        (by simpa using hlt) (by simpa using hclear)
      rw [Nat.zero_add] at hflip
      rw [hstep]
      simp only [Bool.not_false] at hflip
      omega
    · rw [hstep, Bitmap.bit_set_multiple]
      by_cases hx : x = alloc_pos b t
      · subst hx
        simp only [le_refl, Nat.lt_add_one, and_self, if_true, true_iff]
        exact Or.inr ⟨t, by omega, rfl⟩
      · rw [if_neg (by omega), hset x]
        constructor
        · rintro (h | ⟨t', ht', hx'⟩)
          · exact Or.inl h
          · exact Or.inr ⟨t', by omega, hx'⟩
        · rintro (h | ⟨t', ht', hx'⟩)
          · exact Or.inl h
          · have : t' ≠ t := fun h => hx (h ▸ hx'.symm)
            exact Or.inr ⟨t', by omega, hx'⟩

include hlim in
/-- The `t`-th claim, while `t < free_cnt b`, finds a bit of the map that was clear in `b`
and is none of the bits claimed before it. -/
theorem alloc_pos_fresh (t : Nat) (ht : t < free_cnt b) :
    alloc_pos b t < b.bit_cnt ∧ Bitmap.bit b (alloc_pos b t) = false ∧
      ∀ t', t' < t → alloc_pos b t' ≠ alloc_pos b t := by
  obtain ⟨hcnt, hset⟩ := alloc_map_spec b hlim t (by omega)
  obtain ⟨-, hlt, hclear⟩ := alloc_pos_clear b hlim t (by omega)
  have hnot := (hset (alloc_pos b t)).not.mp (by simp [hclear])
  rw [not_or] at hnot
  refine ⟨hlt, by simpa using hnot.1, fun t' ht' he => hnot.2 ⟨t', ht', he⟩⟩

include hlim in
theorem alloc_pos_injective (t₁ t₂ t : Nat) (h₁ : t₁ < t) (h₂ : t₂ < t) (ht : t ≤ free_cnt b)
    (he : alloc_pos b t₁ = alloc_pos b t₂) : t₁ = t₂ := by
  by_contra hne
  rcases Nat.lt_or_gt_of_ne hne with hlt | hlt
  · exact (alloc_pos_fresh b hlim t₂ (by omega)).2.2 t₁ hlt he
  · exact (alloc_pos_fresh b hlim t₁ (by omega)).2.2 t₂ hlt he.symm

end Alloc

end Pintos
