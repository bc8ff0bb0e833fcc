import Pintos.Threads.Malloc

/-! # What `malloc` and `calloc` hand out

A request above 1 kB matches no descriptor and gets a big block, whose size `block_size` reads
back from the arena header.  When `size + sizeof (struct arena)` rounded up to pages does not
wrap, the block holds the request (`malloc_big_block_size`).  `calloc` multiplies in `size_t`:
a product that wraps and still exceeds both factors passes its test and gets a block smaller than
the product (`calloc_under_allocates`).  A product within 11 bytes of `2 ^ 32` does not wrap,
but its size with the arena header does: the block is one page, and the `memset` runs off it
into page 0 and faults (`calloc_memset_faults`).
-/

namespace Pintos
set_option autoImplicit false

theorem MallocState.descs_eq (s : MallocState) : s.descs = init_descs :=
  Option.some.inj (s.descs_init.symm.trans malloc_init_eq)

theorem find_desc_big (s : MallocState) {size : Nat} (hsize : 1024 < size) :
    s.descs.findIdx? (fun d => d.block_size ≥ size) = none := by
  rw [s.descs_eq, List.findIdx?_eq_none_iff]
  intro d hd
  simp only [init_descs, List.mem_cons, List.mem_nil_iff, or_false] at hd
  rcases hd with rfl | rfl | rfl | rfl | rfl | rfl | rfl <;>
    simp only [decide_eq_false_iff_not, not_le] <;> omega

/-- The state after a big block of `page_cnt` pages at `a` is taken from the pool, leaving
`pool`. -/
def MallocState.with_big (s : MallocState) (pool : Pool) (a page_cnt : Nat) : MallocState :=
  { s with pool, arena := Function.update s.arena a (some ⟨ARENA_MAGIC, none, page_cnt⟩) }

@[simp] theorem MallocState.with_big_arena (s : MallocState) (pool : Pool) (a page_cnt : Nat) :
    (s.with_big pool a page_cnt).arena a = some ⟨ARENA_MAGIC, none, page_cnt⟩ := by
  simp [MallocState.with_big]

theorem malloc_big_some (s : MallocState) {size : Nat} (hsize : 1024 < size) {pool : Pool} {a : Nat}
    (hp : palloc_get_multiple s.pool (big_page_cnt size) = some (pool, some a)) :
    malloc s size = some (s.with_big pool a (big_page_cnt size), some (a + ARENA_SIZE)) := by
  rw [malloc, if_neg (by omega), find_desc_big s hsize]
  simp only [hp]
  rfl

theorem malloc_big_none (s : MallocState) {size : Nat} (hsize : 1024 < size) {pool : Pool}
    (hp : palloc_get_multiple s.pool (big_page_cnt size) = some (pool, none)) :
    malloc s size = some ({ s with pool }, none) := by
  rw [malloc, if_neg (by omega), find_desc_big s hsize]
  simp only [hp]

theorem block_size_big (s : MallocState) {a n : Nat} (ha : a % PGSIZE = 0) (ha0 : PGSIZE ≤ a)
    (harena : s.arena a = some ⟨ARENA_MAGIC, none, n⟩) :
    block_size s (a + ARENA_SIZE) = some ((PGSIZE * n % 2 ^ 32 + 2 ^ 32 - ARENA_SIZE) % 2 ^ 32) := by
  have hpg : PGSIZE = 4096 := rfl
  have hdown : pg_round_down (a + ARENA_SIZE) = a := by
    unfold pg_round_down ARENA_SIZE
    rw [hpg] at ha ⊢
    omega
  have hofs : pg_ofs (a + ARENA_SIZE) = ARENA_SIZE := by
    unfold pg_ofs ARENA_SIZE
    rw [hpg] at ha ⊢
    omega
  have hne : a ≠ 0 := by omega
  simp [block_size, block_to_arena, hdown, harena, block_aligned, hofs, hne, hpg]

/-- A big block whose page count does not wrap holds the request. -/
theorem malloc_big_block_size {s s' : MallocState} {size p : Nat} (hsize : 1024 < size)
    (hfit : size + ARENA_SIZE + PGSIZE - 1 < 2 ^ 32) (h : malloc s size = some (s', some p)) :
    ∃ n, block_size s' p = some n ∧ size ≤ n := by
  have hpg : PGSIZE = 4096 := rfl
  rcases hp : palloc_get_multiple s.pool (big_page_cnt size) with _ | ⟨pool, r⟩
  · rw [malloc, if_neg (by omega), find_desc_big s hsize] at h
    simp only [hp] at h
    cases h
  · cases r with
    | none =>
      rw [malloc_big_none s hsize hp] at h
      simp at h
    | some a =>
      rw [malloc_big_some s hsize hp] at h
      simp only [Option.some.injEq, Prod.mk.injEq] at h
      obtain ⟨rfl, rfl⟩ := h
      obtain ⟨-, hal, hlo, hhi, -⟩ := palloc_get_multiple_some hp
      refine ⟨_, block_size_big (n := big_page_cnt size) _ hal hlo (by simp), ?_⟩
      -- `page_cnt` pages hold the header and the request, and end inside the address space
      have hcnt : big_page_cnt size = (size + ARENA_SIZE + PGSIZE - 1) / PGSIZE := by
        unfold big_page_cnt
        rw [Nat.mod_eq_of_lt (by omega : size + ARENA_SIZE < 2 ^ 32),
          Nat.mod_eq_of_lt (by omega : size + ARENA_SIZE + PGSIZE - 1 < 2 ^ 32)]
      rw [hcnt] at hhi ⊢
      rw [hpg] at hhi ⊢
      unfold ARENA_SIZE at hhi hfit ⊢
      omega

/-- A kernel pool of 40 free pages from 4 kB on. -/
def sample_pool : Pool where
  used_map := ⟨40, fun _ => 0⟩
  base := 4096
  base_aligned := by decide
  base_ne_zero := by decide
  fits := by decide

/-- Kernel memory that maps the pool's pages and not page 0. -/
def sample_kernel_mem : AddrSpace where
  present := fun pg => decide (1 ≤ pg ∧ pg ≤ 40)
  mem := fun _ => 0

/-- `malloc (2000)` takes a big block of one page from the sample pool, and the block holds the
request. -/
theorem malloc_big_block_size_2000 :
    ∃ s' p n, malloc (malloc_start sample_pool sample_kernel_mem) 2000 = some (s', some p) ∧
      block_size s' p = some n ∧ 2000 ≤ n := by
  obtain ⟨s', p, hm⟩ : ∃ s' p, malloc (malloc_start sample_pool sample_kernel_mem) 2000 = some (s', some p) :=
    ⟨_, _, rfl⟩
  obtain ⟨n, hn, hle⟩ := malloc_big_block_size (by decide) (by decide) hm
  exact ⟨s', p, n, hm, hn, hle⟩

/-- A wrapped product that passes `calloc`'s test is above 1 kB: it is at least its larger
factor, which is at least `2 ^ 16`. -/
theorem calloc_size_big {a b : Nat} (hprod : 2 ^ 32 ≤ a * b)
    (htest : a ≤ a * b % 2 ^ 32 ∧ b ≤ a * b % 2 ^ 32) : 1024 < a * b % 2 ^ 32 := by
  have hfactor : 2 ^ 16 ≤ a ∨ 2 ^ 16 ≤ b := by
    by_contra hsmall
    rw [not_or, Nat.not_le, Nat.not_le] at hsmall
    have := Nat.mul_lt_mul'' hsmall.1 hsmall.2
    omega
  omega

theorem big_block_present (s : MallocState) {a idx page_cnt size : Nat} (ha : a = s.pool.base + PGSIZE * idx)
    (hrun : idx + page_cnt ≤ s.pool.used_map.bit_cnt) (hend : a + PGSIZE * page_cnt ≤ 2 ^ 32)
    (hsize : size + ARENA_SIZE ≤ PGSIZE * page_cnt)
    (hmapped : ∀ i < s.pool.used_map.bit_cnt, s.mem.present (pg_no s.pool.base + i) = true) :
    ∀ k < size, s.mem.present (pg_no ((a + ARENA_SIZE + k) % 2 ^ 32)) = true := by
  intro k hk
  have hpg : PGSIZE = 4096 := rfl
  have hal := s.pool.base_aligned
  have hpage : pg_no ((a + ARENA_SIZE + k) % 2 ^ 32) = pg_no s.pool.base + (idx + (ARENA_SIZE + k) / PGSIZE) := by
    unfold pg_no ARENA_SIZE at *
    rw [hpg] at ha hend hsize hal ⊢
    rw [Nat.mod_eq_of_lt (by omega)]
    omega
  have hin : (ARENA_SIZE + k) / PGSIZE < page_cnt := by
    rw [Nat.div_lt_iff_lt_mul (by decide), Nat.mul_comm]
    omega
  rw [hpage]
  exact hmapped _ (by omega)

theorem calloc_under_allocates (s : MallocState) (a b : Nat) (hprod : 2 ^ 32 ≤ a * b)
    (htest : a ≤ a * b % 2 ^ 32 ∧ b ≤ a * b % 2 ^ 32)
    (hfit : a * b % 2 ^ 32 + ARENA_SIZE + PGSIZE - 1 < 2 ^ 32)
    (hpool : ∃ idx, idx + big_page_cnt (a * b % 2 ^ 32) ≤ s.pool.used_map.bit_cnt ∧
      ∀ j < big_page_cnt (a * b % 2 ^ 32), s.pool.used_map.bit (idx + j) = false)
    (hmapped : ∀ i < s.pool.used_map.bit_cnt, s.mem.present (pg_no s.pool.base + i) = true) :
    ∃ s' p n, calloc s a b = some (s', some p) ∧ block_size s' p = some n ∧ a * b % 2 ^ 32 ≤ n ∧ n < a * b := by
  have hpg : PGSIZE = 4096 := rfl
  have hbig := calloc_size_big hprod htest
  set size := a * b % 2 ^ 32 with hsize_def
  -- the page count does not wrap: it is the pages that hold the header and the request
  have hcnt : big_page_cnt size = (size + ARENA_SIZE + PGSIZE - 1) / PGSIZE := by
    unfold big_page_cnt
    rw [Nat.mod_eq_of_lt (by omega : size + ARENA_SIZE < 2 ^ 32),
      Nat.mod_eq_of_lt (by omega : size + ARENA_SIZE + PGSIZE - 1 < 2 ^ 32)]
  have hholds : size + ARENA_SIZE ≤ PGSIZE * big_page_cnt size := by
    rw [hcnt, hpg]
    unfold ARENA_SIZE
    omega
  obtain ⟨idx, hrun, hfree⟩ := hpool
  obtain ⟨pool, p, hp⟩ := palloc_get_multiple_of_run s.pool (by rw [hcnt, hpg]; omega) hrun hfree
  obtain ⟨-, hal, hlo, hhi, -, idx', hidx', hrun', -, -⟩ := palloc_get_multiple_some hp
  have hmem : ∀ k < size, (s.with_big pool p (big_page_cnt size)).mem.present
      (pg_no ((p + ARENA_SIZE + k) % 2 ^ 32)) = true :=
    big_block_present s hidx' hrun' hhi hholds hmapped
  obtain ⟨mem, hset⟩ := AddrSpace.memset_of_present _ (p + ARENA_SIZE) 0 size (by omega) hmem
  have hcalloc : calloc s a b = some ({ s.with_big pool p (big_page_cnt size) with mem },
      some (p + ARENA_SIZE)) := by
    unfold calloc
    dsimp only
    rw [← hsize_def, if_neg (by omega), malloc_big_some s hbig hp]
    simp only [hset, Option.map_some]
  refine ⟨_, p + ARENA_SIZE, _, hcalloc,
    block_size_big (n := big_page_cnt size) _ hal hlo (by simp [MallocState.with_big]), ?_, ?_⟩
  · rw [hpg] at hhi hholds ⊢
    unfold ARENA_SIZE at hholds ⊢
    omega
  · rw [hpg] at hhi ⊢
    unfold ARENA_SIZE
    omega

/-- `calloc (65537, 65537)`: the product wraps to 131073, which exceeds both factors, and the
33 pages of the big block hold 135156 bytes. -/
theorem calloc_under_allocates_65537 :
    ∃ s' p n, calloc (malloc_start sample_pool sample_kernel_mem) 65537 65537 = some (s', some p) ∧
      block_size s' p = some n ∧ 65537 * 65537 % 2 ^ 32 ≤ n ∧ n < 65537 * 65537 :=
  calloc_under_allocates _ 65537 65537 (by decide) (by decide) (by decide) ⟨0, by decide, by decide⟩
    (by decide)

/-- A product within 11 bytes of `2 ^ 32` passes the test unwrapped, but `malloc`'s page count
wraps to one page; the `memset` of the product then runs past the end of the address space into
page 0, which the kernel does not map. -/
theorem calloc_memset_faults (s : MallocState) (a b : Nat) (hprod : 2 ^ 32 - 11 ≤ a * b)
    (hlt : a * b < 2 ^ 32) (hpool : ∃ idx, idx < s.pool.used_map.bit_cnt ∧ s.pool.used_map.bit idx = false)
    (hnull : s.mem.present 0 = false) : calloc s a b = none := by
  have hpg : PGSIZE = 4096 := rfl
  have hsize : a * b % 2 ^ 32 = a * b := Nat.mod_eq_of_lt hlt
  have ha0 : 0 < a := Nat.pos_of_ne_zero fun h => by simp [h] at hprod
  have hb0 : 0 < b := Nat.pos_of_ne_zero fun h => by simp [h] at hprod
  have hla : a ≤ a * b := Nat.le_mul_of_pos_right a hb0
  have hlb : b ≤ a * b := Nat.le_mul_of_pos_left b ha0
  have hcnt : big_page_cnt (a * b) = 1 := by
    unfold big_page_cnt ARENA_SIZE
    rw [hpg]
    omega
  obtain ⟨idx, hidx, hfree⟩ := hpool
  obtain ⟨pool, p, hp⟩ := @palloc_get_multiple_of_run s.pool 1 idx Nat.one_pos (by omega)
    (fun j hj => by rw [show j = 0 by omega, Nat.add_zero]; exact hfree)
  obtain ⟨-, -, hlo, hhi, -⟩ := palloc_get_multiple_some hp
  rw [← hcnt] at hp
  -- the byte at `2 ^ 32` past the block's start is the first byte of page 0
  have hwrap : (p + ARENA_SIZE + (2 ^ 32 - (p + ARENA_SIZE))) % 2 ^ 32 = 0 := by
    unfold ARENA_SIZE
    rw [hpg] at hhi
    omega
  have hfault : (s.with_big pool p (big_page_cnt (a * b))).mem.memset (p + ARENA_SIZE) 0 (a * b) = none :=
    AddrSpace.memset_eq_none _ _ _ _ (2 ^ 32 - (p + ARENA_SIZE)) (by unfold ARENA_SIZE; omega)
      (by rw [hwrap]; exact hnull)
  unfold calloc
  dsimp only
  rw [hsize, if_neg (by omega), malloc_big_some s (by omega) hp]
  simp only [hfault, Option.map_none]

/-- `calloc (1, 2 ^ 32 - 1)` faults in its `memset`. -/
theorem calloc_memset_faults_sample : calloc (malloc_start sample_pool sample_kernel_mem) 1 (2 ^ 32 - 1) = none :=
  calloc_memset_faults _ 1 (2 ^ 32 - 1) (by decide) (by decide) ⟨0, by decide, by decide⟩ (by decide)

end Pintos
