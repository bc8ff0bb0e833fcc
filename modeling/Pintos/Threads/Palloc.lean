import Pintos.Kernel.Bitmap
import Pintos.Threads.Vaddr

/-! # The page allocator (`threads/palloc.c`)

A pool is a run of pages with a bitmap of the used ones; `palloc_get_multiple` claims the
first run of `page_cnt` free pages with `bitmap_scan_and_flip` and returns its address, and
`palloc_free_multiple` clears the run's bits again after asserting they were set.  Only the
kernel pool is modelled, which is the one `malloc` and the thread system draw from; its pages
are page-aligned and lie inside the 32-bit address space above page 0.
-/

namespace Pintos
set_option autoImplicit false
set_option maxHeartbeats 250000
set_option maxRecDepth 120000

/-- `struct pool` -/
structure Pool where
  used_map : Bitmap
  base : Nat
  base_aligned : base % PGSIZE = 0
  base_ne_zero : PGSIZE ≤ base
  fits : base + PGSIZE * used_map.bit_cnt ≤ 2 ^ 32

/-- The pool with a new map of the same size. -/
def Pool.with_map (p : Pool) (used_map : Bitmap) (h : used_map.bit_cnt = p.used_map.bit_cnt) : Pool :=
  { p with used_map, fits := h ▸ p.fits }

def palloc_get_multiple (p : Pool) (page_cnt : Nat) : Option (Pool × Option Nat) :=
  if page_cnt = 0 then some (p, none)
  else
    match h : bitmap_scan_and_flip p.used_map 0 page_cnt false with
    | none => none
    | some (used_map, page_idx) =>
      let p := p.with_map used_map (bitmap_scan_and_flip_bit_cnt h)
      if page_idx ≠ BITMAP_ERROR then some (p, some (p.base + PGSIZE * page_idx)) else some (p, none)

def palloc_get_page (p : Pool) : Option (Pool × Option Nat) := palloc_get_multiple p 1

def page_from_pool (p : Pool) (page : Nat) : Bool :=
  let page_no := pg_no page
  let start_page := pg_no p.base
  let end_page := start_page + bitmap_size p.used_map
  page_no ≥ start_page && page_no < end_page

/-- `palloc_free_multiple (pages, page_cnt)`; `none` for a failed `ASSERT` or a page of no
modelled pool (`NOT_REACHED`). -/
def palloc_free_multiple (p : Pool) (pages page_cnt : Nat) : Option Pool :=
  if pg_ofs pages ≠ 0 then none
  else if pages = 0 ∨ page_cnt = 0 then some p
  else if !page_from_pool p pages then none
  else
    let page_idx := pg_no pages - pg_no p.base
    if bitmap_all p.used_map page_idx page_cnt ≠ some true then none
    else
      match h : bitmap_set_multiple p.used_map page_idx page_cnt false with
      | none => none
      | some used_map => some (p.with_map used_map (bitmap_set_multiple_bit_cnt h))

def palloc_free_page (p : Pool) (page : Nat) : Option Pool := palloc_free_multiple p page 1

@[simp] theorem Pool.with_map_used_map (p : Pool) (m : Bitmap) (h : m.bit_cnt = p.used_map.bit_cnt) :
    (p.with_map m h).used_map = m := rfl

@[simp] theorem Pool.with_map_base (p : Pool) (m : Bitmap) (h : m.bit_cnt = p.used_map.bit_cnt) :
    (p.with_map m h).base = p.base := rfl

/-- The pool after the scan and flip of `palloc_get_multiple (0, page_cnt)`. -/
def Pool.claim (p : Pool) (page_cnt : Nat) : Pool :=
  p.with_map (p.used_map.scan_and_flip 0 page_cnt false).1 (Bitmap.scan_and_flip_bit_cnt _ _ _ _)

theorem palloc_get_multiple_eq (p : Pool) {page_cnt : Nat} (h0 : page_cnt ≠ 0) :
    palloc_get_multiple p page_cnt =
      some (if p.used_map.scan 0 page_cnt false ≠ BITMAP_ERROR then
          (p.claim page_cnt, some (p.base + PGSIZE * p.used_map.scan 0 page_cnt false))
        else (p.claim page_cnt, none)) := by
  have hsf := bitmap_scan_and_flip_of_le (b := p.used_map) page_cnt false (Nat.zero_le _)
  unfold palloc_get_multiple
  rw [if_neg h0]
  split
  · next hnone => rw [hsf] at hnone; cases hnone
  · next used_map page_idx hsome =>
    rw [hsf, Option.some.injEq] at hsome
    have h1 : used_map = (p.used_map.scan_and_flip 0 page_cnt false).1 := by rw [hsome]
    have h2 : page_idx = p.used_map.scan 0 page_cnt false := by rw [← Bitmap.scan_and_flip_snd, hsome]
    subst h1 h2
    split_ifs <;> rfl

/-- A run `palloc_get_multiple` hands out: page-aligned, above page 0, inside the pool and the
address space, and made of pages that were free and are now used. -/
theorem palloc_get_multiple_some {p p' : Pool} {page_cnt a : Nat}
    (h : palloc_get_multiple p page_cnt = some (p', some a)) :
    0 < page_cnt ∧ a % PGSIZE = 0 ∧ PGSIZE ≤ a ∧ a + PGSIZE * page_cnt ≤ 2 ^ 32 ∧ p'.base = p.base ∧
      ∃ idx, a = p.base + PGSIZE * idx ∧ idx + page_cnt ≤ p.used_map.bit_cnt ∧
        (∀ j < page_cnt, p.used_map.bit (idx + j) = false) ∧
        p'.used_map = p.used_map.set_multiple idx page_cnt true := by
  have h0 : page_cnt ≠ 0 := by
    rintro rfl
    simp [palloc_get_multiple] at h
  rw [palloc_get_multiple_eq p h0] at h
  split_ifs at h with herr
  · simp only [Prod.mk.injEq, Option.some.injEq] at h
    obtain ⟨rfl, rfl⟩ := h
    have hfound := Bitmap.scan_found p.used_map 0 page_cnt false herr
    set idx := Bitmap.scan p.used_map 0 page_cnt false
    have hal := p.base_aligned
    have hfits := p.fits
    have hbase := p.base_ne_zero
    refine ⟨by omega, ?_, by omega, ?_, rfl, idx, rfl, hfound.2.1, hfound.2.2.1, ?_⟩
    · rw [Nat.add_mul_mod_self_left]
      exact hal
    · have hle : PGSIZE * (idx + page_cnt) ≤ PGSIZE * p.used_map.bit_cnt := Nat.mul_le_mul_left _ hfound.2.1
      rw [Nat.mul_add] at hle
      omega
    · simp only [Pool.claim, Pool.with_map_used_map, Bitmap.scan_and_flip, Bool.not_false]
      exact if_pos herr
  · simp at h

theorem palloc_get_multiple_of_run (p : Pool) {page_cnt idx : Nat} (hcnt : 0 < page_cnt)
    (hrun : idx + page_cnt ≤ p.used_map.bit_cnt)
    (hfree : ∀ j < page_cnt, p.used_map.bit (idx + j) = false) :
    ∃ p' a, palloc_get_multiple p page_cnt = some (p', some a) := by
  -- the pool ends inside the address space, so its map is shorter than `BITMAP_ERROR`
  have hlim : p.used_map.bit_cnt ≤ BITMAP_ERROR := by
    have hfits := p.fits
    have hpg : PGSIZE = 4096 := rfl
    rw [hpg] at hfits
    unfold BITMAP_ERROR
    omega
  have hscan := Bitmap.scan_ne_error p.used_map 0 page_cnt idx false hcnt hlim (Nat.zero_le _) hrun hfree
  rw [palloc_get_multiple_eq p (by omega), if_pos hscan]
  exact ⟨_, _, rfl⟩

end Pintos
