import Pintos.Threads.Palloc
import Pintos.Userprog.UserMemory

/-! # The kernel allocator (`threads/malloc.c`)

A request of at most 1 kB gets a block from the free list of the smallest descriptor whose blocks
hold it; a page from `palloc_get_page` becomes a new arena of such blocks when the list is empty.
A larger request gets a big block: a run of pages whose first bytes are the arena header.

`size_t` is 32 bits: every `size_t` expression the code computes is reduced modulo `2 ^ 32`
where it can exceed that.  The arena headers are kept apart from the bytes of the blocks, by the
page that holds them: a page that `malloc` has not made an arena holds no `ARENA_MAGIC`.  The
bytes are the kernel's address space, where a store to a page it does not map faults.  The
descriptor locks are not modelled: a call runs alone.  An `ASSERT` that fails, or a fault, gives
`none`.
-/

namespace Pintos
set_option autoImplicit false

/-- Magic number for detecting arena corruption. -/
def ARENA_MAGIC : Nat := 0x9a548eed

/-- `sizeof (struct arena)`: a magic number, a descriptor pointer and a count, 4 bytes each. -/
def ARENA_SIZE : Nat := 12

/-- `struct desc` without its free list and lock: what `malloc_init` sets and nothing changes. -/
structure Desc where
  block_size : Nat
  blocks_per_arena : Nat
  deriving DecidableEq, Repr

/-- The loop of `malloc_init` from `block_size`, with `cap` entries of `descs` left: `none` when
`ASSERT (desc_cnt <= sizeof descs / sizeof *descs)` fails. -/
def malloc_init_loop : Nat → Nat → Option (List Desc)
  | 0, block_size => if block_size < PGSIZE / 2 then none else some []
  | cap + 1, block_size =>
    if block_size < PGSIZE / 2 then
      (malloc_init_loop cap (block_size * 2)).map
        fun ds => ⟨block_size, (PGSIZE - ARENA_SIZE) / block_size⟩ :: ds
    else some []

/-- `malloc_init ()`: the descriptors, in `descs[0 .. desc_cnt)`. -/
def malloc_init : Option (List Desc) := malloc_init_loop 10 16

/-- Seven descriptors, for blocks of 16 bytes to 1 kB. -/
def init_descs : List Desc :=
  [⟨16, 255⟩, ⟨32, 127⟩, ⟨64, 63⟩, ⟨128, 31⟩, ⟨256, 15⟩, ⟨512, 7⟩, ⟨1024, 3⟩]

theorem malloc_init_eq : malloc_init = some init_descs := by decide

/-- `struct arena`: `desc` is the index of the owning descriptor, `none` for a big block. -/
structure Arena where
  magic : Nat
  desc : Option Nat
  free_cnt : Nat
  deriving DecidableEq, Repr

/-- The allocator's state: the kernel pool, the descriptors `malloc_init` set with the free list of
each, the arena header of each page that holds one, and memory. -/
structure MallocState where
  pool : Pool
  descs : List Desc
  descs_init : malloc_init = some descs
  free_list : Nat → List Nat
  arena : Nat → Option Arena
  mem : AddrSpace

/-- The allocator after `malloc_init`, with no arena yet. -/
def malloc_start (pool : Pool) (mem : AddrSpace) : MallocState where
  pool := pool
  descs := init_descs
  descs_init := malloc_init_eq
  free_list := fun _ => []
  arena := fun _ => none
  mem := mem

/-- The alignment `ASSERT`s of `block_to_arena`: a small block lies on a block boundary of its
arena, a big block right after the header. -/
def block_aligned (s : MallocState) (h : Arena) (b : Nat) : Bool :=
  match h.desc with
  | none => pg_ofs b == ARENA_SIZE
  | some i =>
    match s.descs[i]? with
    | some d => (pg_ofs b + 2 ^ 32 - ARENA_SIZE) % 2 ^ 32 % d.block_size == 0
    | none => false

/-- `block_to_arena (b)`: the arena's address and header; `none` when an `ASSERT` fails. -/
def block_to_arena (s : MallocState) (b : Nat) : Option (Nat × Arena) :=
  let a := pg_round_down b
  match s.arena a with
  | none => none
  | some h => if a ≠ 0 ∧ h.magic = ARENA_MAGIC ∧ block_aligned s h b = true then some (a, h) else none

/-- `arena_to_block (a, idx)`: `none` when an `ASSERT` fails. -/
def arena_to_block (s : MallocState) (a idx : Nat) : Option Nat :=
  match s.arena a with
  | none => none
  | some h =>
    match h.desc.bind fun i => s.descs[i]? with
    | none => none
    | some d =>
      if a ≠ 0 ∧ h.magic = ARENA_MAGIC ∧ idx < d.blocks_per_arena then
        some (a + ARENA_SIZE + idx * d.block_size)
      else none

/-- `DIV_ROUND_UP (size + sizeof *a, PGSIZE)` in `size_t`: the pages of a big block. -/
def big_page_cnt (size : Nat) : Nat := ((size + ARENA_SIZE) % 2 ^ 32 + PGSIZE - 1) % 2 ^ 32 / PGSIZE

/-- Get a block from the free list of `descs[i]` and return it. -/
def pop_block (s : MallocState) (i : Nat) : Option (MallocState × Option Nat) :=
  match s.free_list i with
  -- `list_pop_front` asserts the list is not empty
  | [] => none
  | b :: rest =>
    let s := { s with free_list := Function.update s.free_list i rest }
    (block_to_arena s b).map fun (a, h) =>
      ({ s with arena := Function.update s.arena a (some { h with free_cnt := (h.free_cnt + 2 ^ 32 - 1) % 2 ^ 32 }) },
        some b)

/-- `malloc` from its `lock_acquire` on, for the descriptor `descs[i] = d`: a new arena when the
free list is empty, then a block from the list. -/
def malloc_desc (s : MallocState) (i : Nat) (d : Desc) : Option (MallocState × Option Nat) :=
  if s.free_list i = [] then
    match palloc_get_page s.pool with
    | none => none
    | some (pool, none) => some ({ s with pool }, none)
    | some (pool, some a) =>
      let s := { s with pool, arena := Function.update s.arena a (some ⟨ARENA_MAGIC, some i, d.blocks_per_arena⟩) }
      match (List.range d.blocks_per_arena).mapM (arena_to_block s a) with
      | none => none
      | some bs => pop_block { s with free_list := Function.update s.free_list i (s.free_list i ++ bs) } i
  else pop_block s i

/-- `malloc (size)`: the block, or `NULL`. -/
def malloc (s : MallocState) (size : Nat) : Option (MallocState × Option Nat) :=
  if size = 0 then some (s, none)
  else
    match s.descs.findIdx? fun d => d.block_size ≥ size with
    | none =>
      -- too big for any descriptor: a big block of `page_cnt` pages
      let page_cnt := big_page_cnt size
      match palloc_get_multiple s.pool page_cnt with
      | none => none
      | some (pool, none) => some ({ s with pool }, none)
      | some (pool, some a) =>
        some ({ s with pool, arena := Function.update s.arena a (some ⟨ARENA_MAGIC, none, page_cnt⟩) },
          some (a + ARENA_SIZE))
    | some i =>
      match s.descs[i]? with
      | some d => malloc_desc s i d
      | none => none

def calloc (s : MallocState) (a b : Nat) : Option (MallocState × Option Nat) :=
  let size := a * b % 2 ^ 32
  if size < a ∨ size < b then some (s, none)
  else
    match malloc s size with
    | none => none
    | some (s, none) => some (s, none)
    | some (s, some p) => (s.mem.memset p 0 size).map fun mem => ({ s with mem }, some p)

/-- `block_size (block)`: `none` when an `ASSERT` of `block_to_arena` fails. -/
def block_size (s : MallocState) (block : Nat) : Option Nat :=
  (block_to_arena s block).bind fun (_, h) =>
    match h.desc with
    | some i => s.descs[i]?.map Desc.block_size
    | none => some ((PGSIZE * h.free_cnt % 2 ^ 32 + 2 ^ 32 - pg_ofs block) % 2 ^ 32)

end Pintos
