import Pintos.Filesys.InodeDisk

/-! # Reading and writing an inode's bytes (`filesys/inode.c`, lines 44-95 and 278-426)

`struct inode` in memory: its `malloc`ed block (its identity), sector, open count, removed
flag, deny-write count and cached `inode_disk`.

`byte_to_sector` maps a byte offset to the sector holding it.  Past the 124 direct blocks it
`block_read`s the first-level block into `first_ib`, a pointer it never initialised, and the
kernel faults: `byte_to_sector` is `none` there, and a read or a write faults exactly when its
bytes reach offset `DIRECT_BLOCK * BLOCK_SECTOR_SIZE` (`read_loop_eq_none_iff`,
`write_loop_eq_none_iff`).  `index_sector` is the lookup through the on-disk index that the
code sets out to make; a file's layout and its bytes (`file_byte`) are stated over it, and in
the direct blocks `byte_to_sector` returns it.

`inode_read_at` and `inode_write_at` split the byte range into per-sector chunks
(`chunk_of`: the least of the bytes left in the request, in the sector and in the file), and
move a whole sector directly or go through a bounce buffer that is `malloc`ed at the first
partial chunk; a failed `malloc` ends the loop early.  The bounce buffer is always filled by
`block_read` or `memset` before it is read, so its first contents do not matter; the model
starts it at zero.
-/

namespace Pintos
set_option autoImplicit false
set_option maxHeartbeats 250000
set_option maxRecDepth 120000

/-- `struct inode`, named by `addr`, the block `malloc` returned for it. -/
structure Inode where
  addr : Nat
  sector : Nat
  open_cnt : Nat
  removed : Bool
  deny_write_cnt : Nat
  data : InodeDisk

def inode_length (inode : Inode) : Int := inode.data.length

/-- `byte_to_sector (inode, pos)`: `-1` (as `block_sector_t`) past the end of the file, and a
fault past the direct blocks. -/
def byte_to_sector (inode : Inode) (pos : Nat) : Option Nat :=
  if (pos : Int) < inode.data.length then
    let index := pos / BLOCK_SECTOR_SIZE
    if h : index < DIRECT_BLOCK then some (inode.data.sectors ⟨index, h⟩)
    -- `block_read (fs_device, inode->data.ib, first_ib)` stores through an uninitialised pointer
    else none
  else some 4294967295

/-- The sector the on-disk index assigns to byte `pos`: `sectors[index]` for a direct block,
otherwise entry `(index - 124) % 128` of the second-level block found at entry
`(index - 124) / 128` of the first-level block `ib`. -/
def index_sector (d : Disk) (inode : Inode) (pos : Nat) : Nat :=
  if (pos : Int) < inode.data.length then
    let index := pos / BLOCK_SECTOR_SIZE
    if h : index < DIRECT_BLOCK then inode.data.sectors ⟨index, h⟩
    else
      let first_ib_index := (index - DIRECT_BLOCK) / 128
      let second_ib_index := (index - DIRECT_BLOCK) % 128
      let first_ib := indirect_of (d inode.data.ib)
      let second_ib := indirect_of (d (first_ib first_ib_index))
      second_ib second_ib_index
  else 4294967295

/-- Bytes to move in the next chunk: the least of the bytes left in the request, in the
sector and in the file. -/
def chunk_of (inode : Inode) (size : Int) (offset : Nat) : Int :=
  let sector_ofs := offset % BLOCK_SECTOR_SIZE
  let inode_left := inode_length inode - offset
  let sector_left : Int := BLOCK_SECTOR_SIZE - sector_ofs
  let min_left := if inode_left < sector_left then inode_left else sector_left
  if size < min_left then size else min_left

/-- `if (bounce == NULL) bounce = malloc (BLOCK_SECTOR_SIZE)`: `none` when `malloc` fails. -/
def bounce_alloc (h : Heap) (bounce : Option Buffer) : Option Buffer × Heap :=
  match bounce with
  | some b => (some b, h)
  | none =>
    match h.malloc with
    | (some _, h) => (some (fun _ => 0), h)
    | (none, h) => (none, h)

/-- The loop of `inode_read_at`, from its state `(size, offset, bytes_read)`. -/
def read_loop (d : Disk) (inode : Inode) (h : Heap) (bounce : Option Buffer) (buffer : Buffer)
    (size : Int) (offset bytes_read : Nat) : Option (Heap × Buffer × Nat) :=
  if size > 0 then
    match byte_to_sector inode offset with
    | none => none
    | some sector_idx =>
      let sector_ofs := offset % BLOCK_SECTOR_SIZE
      let chunk_size := chunk_of inode size offset
      if chunk_size ≤ 0 then some (h, buffer, bytes_read)
      else if sector_ofs = 0 ∧ chunk_size = BLOCK_SECTOR_SIZE then
        -- Read full sector directly into caller's buffer.
        read_loop d inode h bounce (block_read d sector_idx buffer bytes_read) (size - chunk_size)
          (offset + chunk_size.toNat) (bytes_read + chunk_size.toNat)
      else
        match bounce_alloc h bounce with
        | (none, h) => some (h, buffer, bytes_read)
        | (some b, h) =>
          let b := block_read d sector_idx b 0
          read_loop d inode h (some b) (memcpy buffer bytes_read b sector_ofs chunk_size.toNat)
            (size - chunk_size) (offset + chunk_size.toNat) (bytes_read + chunk_size.toNat)
  else some (h, buffer, bytes_read)
termination_by size.toNat
decreasing_by all_goals omega

/-- `inode_read_at (inode, buffer, size, offset)`: the heap, the caller's buffer and the
number of bytes read. -/
def inode_read_at (h : Heap) (d : Disk) (inode : Inode) (buffer : Buffer) (size : Int)
    (offset : Nat) : Option (Heap × Buffer × Int) :=
  (read_loop d inode h none buffer size offset 0).map fun (h, buffer, bytes_read) => (h, buffer, bytes_read)

/-- The loop of `inode_write_at`, from its state `(size, offset, bytes_written)`. -/
def write_loop (inode : Inode) (h : Heap) (d : Disk) (bounce : Option Buffer) (buffer : Buffer)
    (size : Int) (offset bytes_written : Nat) : Option (Heap × Disk × Nat) :=
  if size > 0 then
    match byte_to_sector inode offset with
    | none => none
    | some sector_idx =>
      let sector_ofs := offset % BLOCK_SECTOR_SIZE
      let sector_left : Int := BLOCK_SECTOR_SIZE - sector_ofs
      let chunk_size := chunk_of inode size offset
      if chunk_size ≤ 0 then some (h, d, bytes_written)
      else if sector_ofs = 0 ∧ chunk_size = BLOCK_SECTOR_SIZE then
        -- Write full sector directly to disk.
        write_loop inode h (block_write d sector_idx buffer bytes_written) bounce buffer
          (size - chunk_size) (offset + chunk_size.toNat) (bytes_written + chunk_size.toNat)
      else
        match bounce_alloc h bounce with
        | (none, h) => some (h, d, bytes_written)
        | (some b, h) =>
          let b := if sector_ofs > 0 ∨ chunk_size < sector_left then block_read d sector_idx b 0
            else memset b 0 0 BLOCK_SECTOR_SIZE
          let b := memcpy b sector_ofs buffer bytes_written chunk_size.toNat
          write_loop inode h (block_write d sector_idx b 0) (some b) buffer (size - chunk_size)
            (offset + chunk_size.toNat) (bytes_written + chunk_size.toNat)
  else some (h, d, bytes_written)
termination_by size.toNat
decreasing_by all_goals omega

/-- `inode_write_at (inode, buffer, size, offset)`: the heap, the disk and the number of
bytes written. -/
def inode_write_at (h : Heap) (d : Disk) (inode : Inode) (buffer : Buffer) (size : Int)
    (offset : Nat) : Option (Heap × Disk × Int) :=
  if inode.deny_write_cnt ≠ 0 then some (h, d, 0)
  else (write_loop inode h d none buffer size offset 0).map fun (h, d, bytes_written) => (h, d, bytes_written)

/-! ## Reading -/

def file_byte (d : Disk) (inode : Inode) (pos : Nat) : UInt8 :=
  d (index_sector d inode pos) (pos % BLOCK_SECTOR_SIZE)

def access_count (inode : Inode) (size : Int) (offset : Nat) : Nat :=
  (max 0 (min size (inode_length inode - offset))).toNat

def read_ref (d : Disk) (inode : Inode) (buffer : Buffer) (offset bytes_read n : Nat) : Buffer :=
  fun i => if bytes_read ≤ i ∧ i < bytes_read + n then file_byte d inode (offset + (i - bytes_read))
    else buffer i

theorem index_sector_same_block (d : Disk) (inode : Inode) (p q : Nat)
    (hp : (p : Int) < inode.data.length) (hq : (q : Int) < inode.data.length)
    (hpq : p / BLOCK_SECTOR_SIZE = q / BLOCK_SECTOR_SIZE) :
    index_sector d inode p = index_sector d inode q := by
  simp only [index_sector, if_pos hp, if_pos hq, hpq]

theorem chunk_of_pos (inode : Inode) (size : Int) (offset : Nat) (hc : 0 < chunk_of inode size offset) :
    chunk_of inode size offset ≤ size ∧ offset + (chunk_of inode size offset).toNat ≤ inode_length inode ∧
      offset % BLOCK_SECTOR_SIZE + (chunk_of inode size offset).toNat ≤ BLOCK_SECTOR_SIZE := by
  unfold chunk_of at *
  simp only [BLOCK_SECTOR_SIZE] at *
  have := Nat.mod_lt offset (show 512 > 0 by omega)
  split_ifs at * <;> omega

theorem access_count_step (inode : Inode) (size : Int) (offset : Nat) (hc : 0 < chunk_of inode size offset) :
    access_count inode size offset = (chunk_of inode size offset).toNat +
      access_count inode (size - chunk_of inode size offset) (offset + (chunk_of inode size offset).toNat) := by
  have hb := chunk_of_pos inode size offset hc
  unfold access_count
  unfold chunk_of at *
  simp only [BLOCK_SECTOR_SIZE] at *
  split_ifs at * <;> omega

theorem access_count_of_chunk_nonpos (inode : Inode) (size : Int) (offset : Nat)
    (hc : chunk_of inode size offset ≤ 0) : access_count inode size offset = 0 := by
  unfold access_count
  unfold chunk_of at hc
  simp only [BLOCK_SECTOR_SIZE] at *
  have := Nat.mod_lt offset (show 512 > 0 by omega)
  split_ifs at hc <;> omega

theorem access_count_of_size_nonpos (inode : Inode) (size : Int) (offset : Nat)
    (hs : ¬ size > 0) : access_count inode size offset = 0 := by
  unfold access_count
  omega
theorem file_byte_in_chunk (d : Disk) (inode : Inode) (size : Int) (offset k : Nat)
    (hc : 0 < chunk_of inode size offset) (hk : k < (chunk_of inode size offset).toNat) :
    file_byte d inode (offset + k) =
      d (index_sector d inode offset) (offset % BLOCK_SECTOR_SIZE + k) := by
  obtain ⟨_, hlen, hsec⟩ := chunk_of_pos inode size offset hc
  unfold inode_length at hlen
  simp only [BLOCK_SECTOR_SIZE] at *
  have hdiv : (offset + k) / 512 = offset / 512 := by omega
  have hmod : (offset + k) % 512 = offset % 512 + k := by omega
  rw [file_byte, index_sector_same_block d inode (offset + k) offset (by omega) (by omega)
    (by simp only [BLOCK_SECTOR_SIZE]; omega)]
  simp only [BLOCK_SECTOR_SIZE, hmod]

theorem read_ref_chunk (d : Disk) (inode : Inode) (buffer : Buffer) (size : Int) (offset bytes_read n : Nat)
    (hc : 0 < chunk_of inode size offset) :
    read_ref d inode (memcpy buffer bytes_read (d (index_sector d inode offset))
        (offset % BLOCK_SECTOR_SIZE) (chunk_of inode size offset).toNat)
      (offset + (chunk_of inode size offset).toNat) (bytes_read + (chunk_of inode size offset).toNat) n =
    read_ref d inode buffer offset bytes_read ((chunk_of inode size offset).toNat + n) := by
  funext i
  simp only [read_ref]
  by_cases h1 : bytes_read ≤ i ∧ i < bytes_read + (chunk_of inode size offset).toNat
  · have hout : ¬(bytes_read + (chunk_of inode size offset).toNat ≤ i ∧
        i < bytes_read + (chunk_of inode size offset).toNat + n) := by omega
    have hin : bytes_read ≤ i ∧ i < bytes_read + ((chunk_of inode size offset).toNat + n) := by omega
    rw [if_neg hout, if_pos hin, memcpy_inside _ _ _ _ _ _ h1.1 h1.2,
      file_byte_in_chunk d inode size offset (i - bytes_read) hc (by omega)]
  · by_cases h2 : bytes_read + (chunk_of inode size offset).toNat ≤ i ∧
        i < bytes_read + (chunk_of inode size offset).toNat + n
    · have hin : bytes_read ≤ i ∧ i < bytes_read + ((chunk_of inode size offset).toNat + n) := by omega
      have he : offset + (chunk_of inode size offset).toNat +
          (i - (bytes_read + (chunk_of inode size offset).toNat)) = offset + (i - bytes_read) := by omega
      rw [if_pos h2, if_pos hin, he]
    · have hout : ¬(bytes_read ≤ i ∧ i < bytes_read + ((chunk_of inode size offset).toNat + n)) := by
        omega
      rw [if_neg h2, if_neg hout, memcpy_outside _ _ _ _ _ _ (by omega)]

theorem read_ref_zero (d : Disk) (inode : Inode) (buffer : Buffer) (offset bytes_read : Nat) :
    read_ref d inode buffer offset bytes_read 0 = buffer := by
  funext i
  simp only [read_ref]
  rw [if_neg (by omega)]

theorem bounce_alloc_none (h h' : Heap) (bounce : Option Buffer)
    (hb : bounce_alloc h bounce = (none, h')) : bounce = none ∧ h.ok h.calls = false := by
  unfold bounce_alloc at hb
  cases bounce with
  | some b => simp at hb
  | none =>
    cases hok : h.ok h.calls with
    | false => exact ⟨rfl, rfl⟩
    | true => simp [Heap.malloc, hok] at hb

theorem memcpy_block_read (d : Disk) (buffer b : Buffer) (sector bytes_read ofs c : Nat)
    (hc : ofs + c ≤ BLOCK_SECTOR_SIZE) :
    memcpy buffer bytes_read (block_read d sector b 0) ofs c = memcpy buffer bytes_read (d sector) ofs c := by
  funext i
  by_cases hi : bytes_read ≤ i ∧ i < bytes_read + c
  · rw [memcpy_inside _ _ _ _ _ _ hi.1 hi.2, memcpy_inside _ _ _ _ _ _ hi.1 hi.2, block_read,
      memcpy_inside _ _ _ _ _ _ (Nat.zero_le _) (by omega), Nat.zero_add, Nat.sub_zero]
  · rw [memcpy_outside _ _ _ _ _ _ (by omega), memcpy_outside _ _ _ _ _ _ (by omega)]

/-! ## Where `byte_to_sector` faults -/

/-- Every byte a call moves, `[offset, offset + access_count)`, lies in the direct blocks. -/
def in_direct_blocks (inode : Inode) (size : Int) (offset : Nat) : Prop :=
  0 < access_count inode size offset →
    offset + access_count inode size offset ≤ DIRECT_BLOCK * BLOCK_SECTOR_SIZE

theorem byte_to_sector_eq_index {inode : Inode} {pos s : Nat} (h : byte_to_sector inode pos = some s)
    (d : Disk) : s = index_sector d inode pos := by
  by_cases hp : (pos : Int) < inode.data.length
  · by_cases hdir : pos / BLOCK_SECTOR_SIZE < DIRECT_BLOCK
    · simp only [byte_to_sector, index_sector, if_pos hp, dif_pos hdir, Option.some.injEq] at h ⊢
      exact h.symm
    · simp only [byte_to_sector, if_pos hp, dif_neg hdir, reduceCtorEq] at h
  · simp only [byte_to_sector, index_sector, if_neg hp, Option.some.injEq] at h ⊢
    exact h.symm

theorem byte_to_sector_eq_none_iff (inode : Inode) (pos : Nat) :
    byte_to_sector inode pos = none ↔
      (pos : Int) < inode.data.length ∧ DIRECT_BLOCK ≤ pos / BLOCK_SECTOR_SIZE := by
  by_cases hp : (pos : Int) < inode.data.length
  · by_cases hdir : pos / BLOCK_SECTOR_SIZE < DIRECT_BLOCK
    · simp only [byte_to_sector, if_pos hp, dif_pos hdir, reduceCtorEq, false_iff]
      omega
    · simp only [byte_to_sector, if_pos hp, dif_neg hdir, true_iff]
      omega
  · simp only [byte_to_sector, if_neg hp, reduceCtorEq, false_iff]
    omega

theorem byte_to_sector_of_direct (d : Disk) (inode : Inode) (pos : Nat)
    (h : (pos : Int) < inode.data.length → pos / BLOCK_SECTOR_SIZE < DIRECT_BLOCK) :
    byte_to_sector inode pos = some (index_sector d inode pos) := by
  cases hb : byte_to_sector inode pos with
  | none =>
    obtain ⟨hp, hdir⟩ := (byte_to_sector_eq_none_iff inode pos).mp hb
    have := h hp
    omega
  | some s => rw [byte_to_sector_eq_index hb d]

theorem byte_to_sector_of_in_direct (d : Disk) {inode : Inode} {size : Int} {offset : Nat}
    (hdirect : in_direct_blocks inode size offset) (hs : size > 0) :
    byte_to_sector inode offset = some (index_sector d inode offset) := by
  apply byte_to_sector_of_direct
  intro hp
  have hpos : 0 < access_count inode size offset := by
    unfold access_count inode_length
    omega
  have := hdirect hpos
  simp only [DIRECT_BLOCK, BLOCK_SECTOR_SIZE] at this ⊢
  omega

theorem in_direct_blocks_step {inode : Inode} {size : Int} {offset : Nat} (hc : 0 < chunk_of inode size offset)
    (hdirect : in_direct_blocks inode size offset) :
    in_direct_blocks inode (size - chunk_of inode size offset) (offset + (chunk_of inode size offset).toNat) := by
  intro hpos
  have hstep := access_count_step inode size offset hc
  have := hdirect (by omega)
  omega

/-- A range that reaches past the direct blocks, and whose first chunk `byte_to_sector` found,
still reaches past them after that chunk: a chunk stays inside one sector. -/
theorem not_in_direct_blocks_step {inode : Inode} {size : Int} {offset s : Nat}
    (hc : 0 < chunk_of inode size offset) (hb : byte_to_sector inode offset = some s)
    (hfault : ¬ in_direct_blocks inode size offset) :
    ¬ in_direct_blocks inode (size - chunk_of inode size offset) (offset + (chunk_of inode size offset).toNat) := by
  intro hnext
  apply hfault
  intro hpos
  have hstep := access_count_step inode size offset hc
  obtain ⟨-, hlen, hsec⟩ := chunk_of_pos inode size offset hc
  have hdir : offset / BLOCK_SECTOR_SIZE < DIRECT_BLOCK := by
    by_contra hge
    have hnone := (byte_to_sector_eq_none_iff inode offset).mpr ⟨by unfold inode_length at hlen; omega, by omega⟩
    rw [hb] at hnone
    cases hnone
  by_cases hrest : 0 < access_count inode (size - chunk_of inode size offset) (offset + (chunk_of inode size offset).toNat)
  · have := hnext hrest
    omega
  · simp only [DIRECT_BLOCK, BLOCK_SECTOR_SIZE] at *
    omega

theorem in_direct_blocks_of_access_zero {inode : Inode} {size : Int} {offset : Nat}
    (h : access_count inode size offset = 0) : in_direct_blocks inode size offset := by
  intro hpos
  omega

/-! ## The read loop -/

/-- Inside the direct blocks, with a bounce buffer or a `malloc` that succeeds, the loop reads
every byte of the range. -/
theorem read_loop_spec (d : Disk) (inode : Inode) (h : Heap) (bounce : Option Buffer) (buffer : Buffer)
    (size : Int) (offset bytes_read : Nat) (hm : bounce.isSome ∨ h.ok h.calls = true)
    (hdirect : in_direct_blocks inode size offset) :
    ∃ h', read_loop d inode h bounce buffer size offset bytes_read =
      some (h', read_ref d inode buffer offset bytes_read (access_count inode size offset),
        bytes_read + access_count inode size offset) := by
  fun_induction read_loop d inode h bounce buffer size offset bytes_read with
  | case1 h bounce buffer size offset bytes_read hs hb =>
    rw [byte_to_sector_of_in_direct d hdirect hs] at hb
    cases hb
  | case2 h bounce buffer size offset bytes_read hs _ _ _ hc =>
    rw [access_count_of_chunk_nonpos inode size offset hc, read_ref_zero]
    exact ⟨h, rfl⟩
  | case3 h bounce buffer size offset bytes_read hs sidx hb _ _ hc hfull ih =>
    have hpos : 0 < chunk_of inode size offset := by omega
    obtain rfl := byte_to_sector_eq_index hb d
    obtain ⟨h', hrec⟩ := ih hm (in_direct_blocks_step hpos hdirect)
    have hsrc : block_read d (index_sector d inode offset) buffer bytes_read =
        memcpy buffer bytes_read (d (index_sector d inode offset)) (offset % BLOCK_SECTOR_SIZE)
          (chunk_of inode size offset).toNat := by
      have hofs : offset % BLOCK_SECTOR_SIZE = 0 := hfull.1
      have hsize : chunk_of inode size offset = BLOCK_SECTOR_SIZE := hfull.2
      rw [block_read, hofs, hsize, Int.toNat_natCast]
    refine ⟨h', ?_⟩
    rw [hrec, hsrc, read_ref_chunk d inode buffer size offset bytes_read _ hpos,
      ← access_count_step inode size offset hpos, Nat.add_assoc,
      ← access_count_step inode size offset hpos]
  | case4 h bounce buffer size offset bytes_read hs _ _ _ _ hc hpart h' halloc =>
    obtain ⟨rfl, hfail⟩ := bounce_alloc_none h h' bounce halloc
    simp [hfail] at hm
  | case5 h bounce buffer size offset bytes_read hs sidx hb _ _ hc hpart b h' halloc _ ih =>
    have hpos : 0 < chunk_of inode size offset := by omega
    have hsec := (chunk_of_pos inode size offset hpos).2.2
    obtain rfl := byte_to_sector_eq_index hb d
    obtain ⟨h'', hrec⟩ := ih (Or.inl rfl) (in_direct_blocks_step hpos hdirect)
    refine ⟨h'', ?_⟩
    rw [hrec, memcpy_block_read d buffer b _ bytes_read _ _ hsec,
      read_ref_chunk d inode buffer size offset bytes_read _ hpos,
      ← access_count_step inode size offset hpos, Nat.add_assoc,
      ← access_count_step inode size offset hpos]
  | case6 h bounce buffer size offset bytes_read hs =>
    rw [access_count_of_size_nonpos inode size offset hs, read_ref_zero]
    exact ⟨h, rfl⟩

/-- With a bounce buffer or a `malloc` that succeeds, a read whose range reaches past the direct
blocks faults. -/
theorem read_loop_faults (d : Disk) (inode : Inode) (h : Heap) (bounce : Option Buffer) (buffer : Buffer)
    (size : Int) (offset bytes_read : Nat) (hm : bounce.isSome ∨ h.ok h.calls = true)
    (hfault : ¬ in_direct_blocks inode size offset) :
    read_loop d inode h bounce buffer size offset bytes_read = none := by
  fun_induction read_loop d inode h bounce buffer size offset bytes_read with
  | case1 => rfl
  | case2 h bounce buffer size offset bytes_read hs _ _ _ hc =>
    exact absurd (in_direct_blocks_of_access_zero (access_count_of_chunk_nonpos inode size offset hc)) hfault
  | case3 h bounce buffer size offset bytes_read hs sidx hb _ _ hc hfull ih =>
    exact ih hm (not_in_direct_blocks_step (by omega) hb hfault)
  | case4 h bounce buffer size offset bytes_read hs _ _ _ _ hc hpart h' halloc =>
    obtain ⟨rfl, hfail⟩ := bounce_alloc_none h h' bounce halloc
    simp [hfail] at hm
  | case5 h bounce buffer size offset bytes_read hs sidx hb _ _ hc hpart b h' halloc _ ih =>
    exact ih (Or.inl rfl) (not_in_direct_blocks_step (by omega) hb hfault)
  | case6 h bounce buffer size offset bytes_read hs =>
    exact absurd (in_direct_blocks_of_access_zero (access_count_of_size_nonpos inode size offset hs)) hfault

theorem read_loop_ne_none (d : Disk) (inode : Inode) (h : Heap) (bounce : Option Buffer) (buffer : Buffer)
    (size : Int) (offset bytes_read : Nat) (hdirect : in_direct_blocks inode size offset) :
    read_loop d inode h bounce buffer size offset bytes_read ≠ none := by
  fun_induction read_loop d inode h bounce buffer size offset bytes_read with
  | case1 h bounce buffer size offset bytes_read hs hb =>
    rw [byte_to_sector_of_in_direct d hdirect hs] at hb
    cases hb
  | case2 => nofun
  | case3 h bounce buffer size offset bytes_read hs sidx hb _ _ hc hfull ih =>
    exact ih (in_direct_blocks_step (by omega) hdirect)
  | case4 => nofun
  | case5 h bounce buffer size offset bytes_read hs sidx hb _ _ hc hpart b h' halloc _ ih =>
    exact ih (in_direct_blocks_step (by omega) hdirect)
  | case6 => nofun

theorem read_loop_eq_none_iff (d : Disk) (inode : Inode) (h : Heap) (bounce : Option Buffer) (buffer : Buffer)
    (size : Int) (offset bytes_read : Nat) (hm : bounce.isSome ∨ h.ok h.calls = true) :
    read_loop d inode h bounce buffer size offset bytes_read = none ↔ ¬ in_direct_blocks inode size offset :=
  ⟨fun hnone hdirect => read_loop_ne_none d inode h bounce buffer size offset bytes_read hdirect hnone,
    read_loop_faults d inode h bounce buffer size offset bytes_read hm⟩

theorem inode_read_at_spec (h : Heap) (d : Disk) (inode : Inode) (buffer : Buffer) (size : Int)
    (offset : Nat) (hm : h.ok h.calls = true) (hdirect : in_direct_blocks inode size offset) :
    ∃ h', inode_read_at h d inode buffer size offset =
      some (h', read_ref d inode buffer offset 0 (access_count inode size offset),
        (access_count inode size offset : Int)) := by
  obtain ⟨h', hspec⟩ := read_loop_spec d inode h none buffer size offset 0 (Or.inr hm) hdirect
  rw [Nat.zero_add] at hspec
  exact ⟨h', by simp only [inode_read_at, hspec, Option.map_some]⟩

theorem read_loop_le (d : Disk) (inode : Inode) (h : Heap) (bounce : Option Buffer) (buffer : Buffer)
    (size : Int) (offset bytes_read : Nat) :
    ∀ r ∈ read_loop d inode h bounce buffer size offset bytes_read,
      r.2.2 ≤ bytes_read + access_count inode size offset := by
  fun_induction read_loop d inode h bounce buffer size offset bytes_read with
  | case1 => nofun
  | case2 =>
    rintro r ⟨⟩
    exact Nat.le_add_right _ _
  | case3 h bounce buffer size offset bytes_read hs sidx hb sofs csize hc hfull ih =>
    intro r hr
    have := ih r hr
    simp only [csize] at this hc ⊢
    rw [access_count_step inode size offset (by omega)]
    omega
  | case4 =>
    rintro r ⟨⟩
    exact Nat.le_add_right _ _
  | case5 h bounce buffer size offset bytes_read hs sidx hb sofs csize hc hpart b h' halloc _ ih =>
    intro r hr
    have := ih r hr
    simp only [csize] at this hc ⊢
    rw [access_count_step inode size offset (by omega)]
    omega
  | case6 =>
    rintro r ⟨⟩
    exact Nat.le_add_right _ _

theorem inode_read_at_le {h : Heap} {d : Disk} {inode : Inode} {buffer : Buffer} {size : Int} {offset : Nat}
    {r : Heap × Buffer × Int} (hr : inode_read_at h d inode buffer size offset = some r) :
    r.2.2 ≤ access_count inode size offset := by
  unfold inode_read_at at hr
  rcases hl : read_loop d inode h none buffer size offset 0 with _ | ⟨h', b', n⟩
  · rw [hl] at hr
    cases hr
  · rw [hl, Option.map_some, Option.some.injEq] at hr
    subst hr
    have := read_loop_le d inode h none buffer size offset 0 _ hl
    simp only at this ⊢
    omega

theorem bounce_alloc_ok (h : Heap) (bounce : Option Buffer) : (bounce_alloc h bounce).2.ok = h.ok := by
  unfold bounce_alloc
  cases bounce with
  | some b => rfl
  | none => cases hok : h.ok h.calls <;> simp [Heap.malloc, hok]

theorem bounce_alloc_calls (h : Heap) (bounce : Option Buffer) : h.calls ≤ (bounce_alloc h bounce).2.calls := by
  unfold bounce_alloc
  cases bounce with
  | some b => exact Nat.le_refl _
  | none => cases hok : h.ok h.calls <;> simp [Heap.malloc, hok]

theorem read_loop_heap (d : Disk) (inode : Inode) (h : Heap) (bounce : Option Buffer) (buffer : Buffer)
    (size : Int) (offset bytes_read : Nat) :
    ∀ r ∈ read_loop d inode h bounce buffer size offset bytes_read, r.1.ok = h.ok ∧ h.calls ≤ r.1.calls := by
  fun_induction read_loop d inode h bounce buffer size offset bytes_read with
  | case1 => nofun
  | case2 =>
    rintro r ⟨⟩
    exact ⟨rfl, Nat.le_refl _⟩
  | case3 _ _ _ _ _ _ _ _ _ _ _ _ _ ih => exact ih
  | case4 h bounce _ _ _ _ _ _ _ _ _ _ _ h' halloc =>
    rintro r ⟨⟩
    have hok := bounce_alloc_ok h bounce
    have hcalls := bounce_alloc_calls h bounce
    rw [halloc] at hok hcalls
    exact ⟨hok, hcalls⟩
  | case5 h bounce _ _ _ _ _ _ _ _ _ _ _ b h' halloc _ ih =>
    intro r hr
    have hok := bounce_alloc_ok h bounce
    have hcalls := bounce_alloc_calls h bounce
    rw [halloc] at hok hcalls
    obtain ⟨hok', hcalls'⟩ := ih r hr
    exact ⟨hok'.trans hok, Nat.le_trans hcalls hcalls'⟩
  | case6 =>
    rintro r ⟨⟩
    exact ⟨rfl, Nat.le_refl _⟩

theorem inode_read_at_heap {h : Heap} {d : Disk} {inode : Inode} {buffer : Buffer} {size : Int} {offset : Nat}
    {r : Heap × Buffer × Int} (hr : inode_read_at h d inode buffer size offset = some r) :
    r.1.ok = h.ok ∧ h.calls ≤ r.1.calls := by
  unfold inode_read_at at hr
  rcases hl : read_loop d inode h none buffer size offset 0 with _ | r'
  · rw [hl] at hr
    cases hr
  · rw [hl, Option.map_some, Option.some.injEq] at hr
    subst hr
    exact read_loop_heap d inode h none buffer size offset 0 r' hl

/-! ## The index lives on the disk

`index_sector` reads the first-level block and one second-level block.  A write that leaves
those sectors alone leaves the index alone; a layout is well formed when no two data blocks
share a sector and no data sector is one of the index sectors. -/

/-- `s` is a sector `index_sector` reads to find byte `pos`. -/
def index_reads (d : Disk) (inode : Inode) (pos s : Nat) : Prop :=
  DIRECT_BLOCK ≤ pos / BLOCK_SECTOR_SIZE ∧
    (s = inode.data.ib ∨
      s = indirect_of (d inode.data.ib) ((pos / BLOCK_SECTOR_SIZE - DIRECT_BLOCK) / 128))

/-- A well-formed layout: distinct data blocks have distinct sectors, and no data sector is an
index sector. -/
structure LayoutOk (d : Disk) (inode : Inode) : Prop where
  distinct : ∀ p q : Nat, (p : Int) < inode.data.length → (q : Int) < inode.data.length →
    index_sector d inode p = index_sector d inode q → p / BLOCK_SECTOR_SIZE = q / BLOCK_SECTOR_SIZE
  not_index : ∀ p q s : Nat, (p : Int) < inode.data.length → (q : Int) < inode.data.length →
    index_reads d inode q s → index_sector d inode p ≠ s

theorem index_sector_frame (d d' : Disk) (inode : Inode) (p : Nat)
    (hp : (p : Int) < inode.data.length) (hsame : ∀ s, index_reads d inode p s → d' s = d s) :
    index_sector d' inode p = index_sector d inode p := by
  unfold index_sector
  rw [if_pos hp, if_pos hp]
  by_cases hdir : p / BLOCK_SECTOR_SIZE < DIRECT_BLOCK
  · simp only [dif_pos hdir]
  · simp only [dif_neg hdir]
    have hib : d' inode.data.ib = d inode.data.ib := hsame _ ⟨by omega, Or.inl rfl⟩
    rw [hib, hsame _ ⟨by omega, Or.inr rfl⟩]

theorem index_reads_frame (d d' : Disk) (inode : Inode) (q s : Nat)
    (hsame : ∀ t, index_reads d inode q t → d' t = d t) :
    index_reads d' inode q s ↔ index_reads d inode q s := by
  unfold index_reads
  constructor
  · rintro ⟨hq, hs⟩
    rw [hsame _ ⟨hq, Or.inl rfl⟩] at hs
    exact ⟨hq, hs⟩
  · rintro ⟨hq, hs⟩
    rw [← hsame _ ⟨hq, Or.inl rfl⟩] at hs
    exact ⟨hq, hs⟩

theorem LayoutOk.frame {d d' : Disk} {inode : Inode} (hl : LayoutOk d inode)
    (hsame : ∀ q t : Nat, (q : Int) < inode.data.length → index_reads d inode q t → d' t = d t) :
    LayoutOk d' inode where
  distinct := fun p q hp hq he => by
    rw [index_sector_frame d d' inode p hp (hsame p · hp),
      index_sector_frame d d' inode q hq (hsame q · hq)] at he
    exact hl.distinct p q hp hq he
  not_index := fun p q t hp hq ht => by
    rw [index_reads_frame d d' inode q t (hsame q · hq)] at ht
    rw [index_sector_frame d d' inode p hp (hsame p · hp)]
    exact hl.not_index p q t hp hq ht

/-- `x` is one of the sectors the file occupies: a data sector or an index sector. -/
def layout_sector (d : Disk) (inode : Inode) (x : Nat) : Prop :=
  ∃ p : Nat, (p : Int) < inode.data.length ∧ (index_sector d inode p = x ∨ index_reads d inode p x)

theorem layout_sector_frame (d d' : Disk) (inode : Inode) (x : Nat)
    (hsame : ∀ q t : Nat, (q : Int) < inode.data.length → index_reads d inode q t → d' t = d t) :
    layout_sector d' inode x ↔ layout_sector d inode x := by
  unfold layout_sector
  constructor
  · rintro ⟨p, hp, h⟩
    refine ⟨p, hp, ?_⟩
    rwa [index_sector_frame d d' inode p hp (hsame p · hp),
      index_reads_frame d d' inode p x (hsame p · hp)] at h
  · rintro ⟨p, hp, h⟩
    refine ⟨p, hp, ?_⟩
    rwa [index_sector_frame d d' inode p hp (hsame p · hp),
      index_reads_frame d d' inode p x (hsame p · hp)]

/-! ## Writing -/

/-- What a write of `n` bytes of `buffer + bytes_written` at `offset` does to the disk: the
layout and the index stay, exactly those `n` file bytes change, and every sector that is not
one of the file's data sectors keeps its contents. -/
structure WriteEffect (d d' : Disk) (inode : Inode) (buffer : Buffer) (offset bytes_written n : Nat) :
    Prop where
  layout : LayoutOk d' inode
  index : ∀ p : Nat, (p : Int) < inode.data.length → index_sector d' inode p = index_sector d inode p
  bytes : ∀ p : Nat, (p : Int) < inode.data.length → file_byte d' inode p =
    if offset ≤ p ∧ p < offset + n then buffer (bytes_written + (p - offset)) else file_byte d inode p
  frame : ∀ s, (∀ p : Nat, (p : Int) < inode.data.length → index_sector d inode p ≠ s) → d' s = d s

theorem WriteEffect.zero (d : Disk) (inode : Inode) (buffer : Buffer) (offset bytes_written : Nat)
    (hl : LayoutOk d inode) : WriteEffect d d inode buffer offset bytes_written 0 where
  layout := hl
  index := fun _ _ => rfl
  bytes := fun p _ => by rw [if_neg (by omega)]
  frame := fun _ _ => rfl

theorem WriteEffect.trans {d d₁ d₂ : Disk} {inode : Inode} {buffer : Buffer} {offset bytes_written c n : Nat}
    (h₁ : WriteEffect d d₁ inode buffer offset bytes_written c)
    (h₂ : WriteEffect d₁ d₂ inode buffer (offset + c) (bytes_written + c) n) :
    WriteEffect d d₂ inode buffer offset bytes_written (c + n) where
  layout := h₂.layout
  index := fun p hp => (h₂.index p hp).trans (h₁.index p hp)
  bytes := fun p hp => by
    rw [h₂.bytes p hp, h₁.bytes p hp]
    by_cases hc : offset ≤ p ∧ p < offset + c
    · have hn : ¬(offset + c ≤ p ∧ p < offset + c + n) := by omega
      have hcn : offset ≤ p ∧ p < offset + (c + n) := by omega
      rw [if_neg hn, if_pos hc, if_pos hcn]
    · by_cases hn : offset + c ≤ p ∧ p < offset + c + n
      · have hcn : offset ≤ p ∧ p < offset + (c + n) := by omega
        have he : bytes_written + c + (p - (offset + c)) = bytes_written + (p - offset) := by omega
        rw [if_pos hn, if_pos hcn, he]
      · have hcn : ¬(offset ≤ p ∧ p < offset + (c + n)) := by omega
        rw [if_neg hn, if_neg hc, if_neg hcn]
  frame := fun s hs => by
    have hs₁ : ∀ p : Nat, (p : Int) < inode.data.length → index_sector d₁ inode p ≠ s := by
      intro p hp
      rw [h₁.index p hp]
      exact hs p hp
    rw [h₂.frame s hs₁, h₁.frame s hs]

theorem WriteEffect.index_sectors {d d' : Disk} {inode : Inode} {buffer : Buffer} {offset bytes_written n : Nat}
    (he : WriteEffect d d' inode buffer offset bytes_written n) (hl : LayoutOk d inode) :
    ∀ q t : Nat, (q : Int) < inode.data.length → index_reads d inode q t → d' t = d t :=
  fun q t hq ht => he.frame t (fun p hp => hl.not_index p q t hp hq ht)

theorem WriteEffect.frame_layout {d d' : Disk} {inode : Inode} {buffer : Buffer} {offset bytes_written n : Nat}
    (he : WriteEffect d d' inode buffer offset bytes_written n) (y : Nat) (hy : ¬ layout_sector d inode y) :
    d' y = d y :=
  he.frame y (fun p hp hpy => hy ⟨p, hp, Or.inl hpy⟩)

theorem mem_block_of_chunk (inode : Inode) (size : Int) (offset p : Nat)
    (hc : 0 < chunk_of inode size offset) (hp : offset ≤ p ∧ p < offset + (chunk_of inode size offset).toNat) :
    (p : Int) < inode.data.length ∧ p / BLOCK_SECTOR_SIZE = offset / BLOCK_SECTOR_SIZE ∧
      p % BLOCK_SECTOR_SIZE = offset % BLOCK_SECTOR_SIZE + (p - offset) := by
  obtain ⟨_, hlen, hsec⟩ := chunk_of_pos inode size offset hc
  unfold inode_length at hlen
  simp only [BLOCK_SECTOR_SIZE] at *
  refine ⟨by omega, by omega, by omega⟩

/-- Storing into the sector that holds `offset` one chunk of the buffer, the rest of the
sector unchanged, is a write of that chunk. -/
theorem write_chunk_effect (d : Disk) (inode : Inode) (buffer : Buffer) (size : Int)
    (offset bytes_written : Nat) (hl : LayoutOk d inode) (hc : 0 < chunk_of inode size offset)
    (sec : Sector)
    (hsec : ∀ i, i < BLOCK_SECTOR_SIZE → sec i =
      if offset % BLOCK_SECTOR_SIZE ≤ i ∧ i < offset % BLOCK_SECTOR_SIZE + (chunk_of inode size offset).toNat
      then buffer (bytes_written + (i - offset % BLOCK_SECTOR_SIZE))
      else d (index_sector d inode offset) i) :
    WriteEffect d (Function.update d (index_sector d inode offset) sec) inode buffer offset
      bytes_written (chunk_of inode size offset).toNat := by
  have hoff : (offset : Int) < inode.data.length := by
    have := (chunk_of_pos inode size offset hc).2.1
    unfold inode_length at this
    omega
  -- The index sectors of the file are not `S`, so the index reads the same on both disks.
  have hsame : ∀ (q t : Nat), (q : Int) < inode.data.length → index_reads d inode q t →
      Function.update d (index_sector d inode offset) sec t = d t := by
    intro q t hq ht
    exact Function.update_of_ne (Ne.symm (hl.not_index offset q t hoff hq ht)) sec d
  have hidx : ∀ q : Nat, (q : Int) < inode.data.length →
      index_sector (Function.update d (index_sector d inode offset) sec) inode q =
        index_sector d inode q :=
    fun q hq => index_sector_frame d _ inode q hq (hsame q · hq)
  refine ⟨hl.frame hsame, hidx, ?_, ?_⟩
  · intro p hp
    unfold file_byte
    rw [hidx p hp]
    by_cases hpS : index_sector d inode p = index_sector d inode offset
    · have hblock : p / BLOCK_SECTOR_SIZE = offset / BLOCK_SECTOR_SIZE := hl.distinct p offset hp hoff hpS
      have hmodlt : p % BLOCK_SECTOR_SIZE < BLOCK_SECTOR_SIZE := Nat.mod_lt _ (by decide)
      rw [hpS, Function.update_self, hsec _ hmodlt]
      have hiff : (offset % BLOCK_SECTOR_SIZE ≤ p % BLOCK_SECTOR_SIZE ∧
          p % BLOCK_SECTOR_SIZE < offset % BLOCK_SECTOR_SIZE + (chunk_of inode size offset).toNat) ↔
          (offset ≤ p ∧ p < offset + (chunk_of inode size offset).toNat) := by
        simp only [BLOCK_SECTOR_SIZE] at *
        omega
      by_cases hin : offset ≤ p ∧ p < offset + (chunk_of inode size offset).toNat
      · have he : p % BLOCK_SECTOR_SIZE - offset % BLOCK_SECTOR_SIZE = p - offset := by
          simp only [BLOCK_SECTOR_SIZE] at *
          omega
        rw [if_pos (hiff.mpr hin), if_pos hin, he]
      · rw [if_neg (fun h => hin (hiff.mp h)), if_neg hin, ← hpS]
    · have hout : ¬(offset ≤ p ∧ p < offset + (chunk_of inode size offset).toNat) := by
        intro hin
        obtain ⟨_, hblock, _⟩ := mem_block_of_chunk inode size offset p hc hin
        exact hpS (index_sector_same_block d inode p offset hp hoff hblock)
      rw [Function.update_of_ne hpS, if_neg hout]
  · intro t ht
    exact Function.update_of_ne (fun he => ht offset hoff he.symm) sec d

/-! ## The write loop -/

/-- Inside the direct blocks, with a bounce buffer or a `malloc` that succeeds, the loop writes
every byte of the range. -/
theorem write_loop_spec (inode : Inode) (h : Heap) (d : Disk) (bounce : Option Buffer) (buffer : Buffer)
    (size : Int) (offset bytes_written : Nat) (hl : LayoutOk d inode)
    (hm : bounce.isSome ∨ h.ok h.calls = true) (hdirect : in_direct_blocks inode size offset) :
    ∃ h' d', write_loop inode h d bounce buffer size offset bytes_written =
        some (h', d', bytes_written + access_count inode size offset) ∧
      WriteEffect d d' inode buffer offset bytes_written (access_count inode size offset) := by
  fun_induction write_loop inode h d bounce buffer size offset bytes_written with
  | case1 h d bounce size offset bytes_written hs hb =>
    rw [byte_to_sector_of_in_direct d hdirect hs] at hb
    cases hb
  | case2 h d bounce size offset bytes_written hs _ _ _ hc =>
    rw [access_count_of_chunk_nonpos inode size offset hc]
    exact ⟨h, d, rfl, WriteEffect.zero d inode buffer offset bytes_written hl⟩
  | case3 h d bounce size offset bytes_written hs sidx hb _ _ hc hfull ih =>
    have hpos : 0 < chunk_of inode size offset := by omega
    obtain rfl := byte_to_sector_eq_index hb d
    have hofs : offset % BLOCK_SECTOR_SIZE = 0 := hfull.1
    have hsize : chunk_of inode size offset = BLOCK_SECTOR_SIZE := hfull.2
    have h₁ := write_chunk_effect d inode buffer size offset bytes_written hl hpos
      (sectorOf buffer bytes_written) (fun i hi => by
        rw [sectorOf_apply buffer bytes_written i hi, hofs, hsize, Int.toNat_natCast,
          if_pos ⟨Nat.zero_le i, by omega⟩, Nat.sub_zero])
    obtain ⟨h', d', hrec, h₂⟩ := ih h₁.layout hm (in_direct_blocks_step hpos hdirect)
    refine ⟨h', d', ?_, ?_⟩
    · rw [hrec, Nat.add_assoc, ← access_count_step inode size offset hpos]
    · rw [access_count_step inode size offset hpos]
      exact h₁.trans h₂
  | case4 h d bounce size offset bytes_written hs _ _ _ _ hc hpart h' halloc =>
    obtain ⟨rfl, hfail⟩ := bounce_alloc_none h h' bounce halloc
    simp [hfail] at hm
  | case5 h d bounce size offset bytes_written hs sidx hb ofs left chunk hc hpart b h' halloc b₁ b₂ ih =>
    have hpos : 0 < chunk_of inode size offset := by omega
    have hsec := (chunk_of_pos inode size offset hpos).2.2
    obtain rfl := byte_to_sector_eq_index hb d
    -- In the bounce path the chunk never covers the whole sector, so the sector is read first.
    have hread : offset % BLOCK_SECTOR_SIZE > 0 ∨
        chunk_of inode size offset < (BLOCK_SECTOR_SIZE : Int) - (offset % BLOCK_SECTOR_SIZE : Nat) := by
      have hpart' : ¬(offset % 512 = 0 ∧ chunk_of inode size offset = 512) := hpart
      simp only [BLOCK_SECTOR_SIZE] at *
      omega
    have hb₂ : b₂ = memcpy (block_read d (index_sector d inode offset) b 0) (offset % BLOCK_SECTOR_SIZE)
        buffer bytes_written (chunk_of inode size offset).toNat := by
      simp only [b₂, b₁, ofs, left, chunk, dif_pos hread]
    have h₁ := write_chunk_effect d inode buffer size offset bytes_written hl hpos (sectorOf b₂ 0)
      (fun i hi => by
        rw [sectorOf_apply _ 0 i hi, Nat.zero_add, hb₂]
        by_cases hin : offset % BLOCK_SECTOR_SIZE ≤ i ∧
            i < offset % BLOCK_SECTOR_SIZE + (chunk_of inode size offset).toNat
        · rw [memcpy_inside _ _ _ _ _ _ hin.1 hin.2, if_pos hin]
        · rw [memcpy_outside _ _ _ _ _ _ (by omega), if_neg hin, block_read,
            memcpy_inside _ _ _ _ _ _ (Nat.zero_le i) (by omega), Nat.zero_add, Nat.sub_zero])
    obtain ⟨h'', d', hrec, h₂⟩ := ih h₁.layout (Or.inl rfl) (in_direct_blocks_step hpos hdirect)
    refine ⟨h'', d', ?_, ?_⟩
    · rw [hrec, Nat.add_assoc, ← access_count_step inode size offset hpos]
    · rw [access_count_step inode size offset hpos]
      exact h₁.trans h₂
  | case6 h d bounce size offset bytes_written hs =>
    rw [access_count_of_size_nonpos inode size offset hs]
    exact ⟨h, d, rfl, WriteEffect.zero d inode buffer offset bytes_written hl⟩

/-- With a bounce buffer or a `malloc` that succeeds, a write whose range reaches past the direct
blocks faults. -/
theorem write_loop_faults (inode : Inode) (h : Heap) (d : Disk) (bounce : Option Buffer) (buffer : Buffer)
    (size : Int) (offset bytes_written : Nat) (hm : bounce.isSome ∨ h.ok h.calls = true)
    (hfault : ¬ in_direct_blocks inode size offset) :
    write_loop inode h d bounce buffer size offset bytes_written = none := by
  fun_induction write_loop inode h d bounce buffer size offset bytes_written with
  | case1 => rfl
  | case2 h d bounce size offset bytes_written hs _ _ _ hc =>
    exact absurd (in_direct_blocks_of_access_zero (access_count_of_chunk_nonpos inode size offset hc)) hfault
  | case3 h d bounce size offset bytes_written hs sidx hb _ _ hc hfull ih =>
    exact ih hm (not_in_direct_blocks_step (by omega) hb hfault)
  | case4 h d bounce size offset bytes_written hs _ _ _ _ hc hpart h' halloc =>
    obtain ⟨rfl, hfail⟩ := bounce_alloc_none h h' bounce halloc
    simp [hfail] at hm
  | case5 h d bounce size offset bytes_written hs sidx hb _ _ _ hc hpart b h' halloc _ _ ih =>
    exact ih (Or.inl rfl) (not_in_direct_blocks_step (by omega) hb hfault)
  | case6 h d bounce size offset bytes_written hs =>
    exact absurd (in_direct_blocks_of_access_zero (access_count_of_size_nonpos inode size offset hs)) hfault

theorem write_loop_ne_none (inode : Inode) (h : Heap) (d : Disk) (bounce : Option Buffer) (buffer : Buffer)
    (size : Int) (offset bytes_written : Nat) (hdirect : in_direct_blocks inode size offset) :
    write_loop inode h d bounce buffer size offset bytes_written ≠ none := by
  fun_induction write_loop inode h d bounce buffer size offset bytes_written with
  | case1 h d bounce size offset bytes_written hs hb =>
    rw [byte_to_sector_of_in_direct d hdirect hs] at hb
    cases hb
  | case2 => nofun
  | case3 h d bounce size offset bytes_written hs sidx hb _ _ hc hfull ih =>
    exact ih (in_direct_blocks_step (by omega) hdirect)
  | case4 => nofun
  | case5 h d bounce size offset bytes_written hs sidx hb _ _ _ hc hpart b h' halloc _ _ ih =>
    exact ih (in_direct_blocks_step (by omega) hdirect)
  | case6 => nofun

theorem write_loop_eq_none_iff (inode : Inode) (h : Heap) (d : Disk) (bounce : Option Buffer) (buffer : Buffer)
    (size : Int) (offset bytes_written : Nat) (hm : bounce.isSome ∨ h.ok h.calls = true) :
    write_loop inode h d bounce buffer size offset bytes_written = none ↔ ¬ in_direct_blocks inode size offset :=
  ⟨fun hnone hdirect => write_loop_ne_none inode h d bounce buffer size offset bytes_written hdirect hnone,
    write_loop_faults inode h d bounce buffer size offset bytes_written hm⟩

theorem inode_write_at_spec (h : Heap) (d : Disk) (inode : Inode) (buffer : Buffer) (size : Int)
    (offset : Nat) (hl : LayoutOk d inode) (hdeny : inode.deny_write_cnt = 0) (hm : h.ok h.calls = true)
    (hdirect : in_direct_blocks inode size offset) :
    ∃ h' d', inode_write_at h d inode buffer size offset = some (h', d', (access_count inode size offset : Int)) ∧
      WriteEffect d d' inode buffer offset 0 (access_count inode size offset) := by
  obtain ⟨h', d', hw, heff⟩ := write_loop_spec inode h d none buffer size offset 0 hl (Or.inr hm) hdirect
  rw [Nat.zero_add] at hw
  refine ⟨h', d', ?_, heff⟩
  simp only [inode_write_at, hdeny, ne_eq, not_true_eq_false, if_false, hw, Option.map_some]

theorem inode_write_at_denied (h : Heap) (d : Disk) (inode : Inode) (buffer : Buffer) (size : Int)
    (offset : Nat) (hdeny : inode.deny_write_cnt ≠ 0) :
    inode_write_at h d inode buffer size offset = some (h, d, 0) := by
  simp [inode_write_at, hdeny]

/-- A write that returns, with `malloc` succeeding, stayed in the direct blocks and had the
effect of the reference. -/
theorem inode_write_at_effect {h : Heap} {d : Disk} {inode : Inode} {buffer : Buffer} {size : Int}
    {offset : Nat} {r : Heap × Disk × Int} (hl : LayoutOk d inode) (hdeny : inode.deny_write_cnt = 0)
    (hm : h.ok h.calls = true) (hw : inode_write_at h d inode buffer size offset = some r) :
    WriteEffect d r.2.1 inode buffer offset 0 (access_count inode size offset) := by
  have hdirect : in_direct_blocks inode size offset := by
    by_contra hnot
    have hnone := (write_loop_eq_none_iff inode h d none buffer size offset 0 (Or.inr hm)).mpr hnot
    simp [inode_write_at, hdeny, hnone] at hw
  obtain ⟨h', d', hw', heff⟩ := inode_write_at_spec h d inode buffer size offset hl hdeny hm hdirect
  rw [hw'] at hw
  cases hw
  exact heff

theorem inode_write_at_ne_none (h : Heap) (d : Disk) (inode : Inode) (buffer : Buffer) (size : Int)
    (offset : Nat) (hdirect : in_direct_blocks inode size offset) : inode_write_at h d inode buffer size offset ≠ none := by
  unfold inode_write_at
  split
  · exact Option.some_ne_none _
  · rw [ne_eq, Option.map_eq_none_iff]
    exact write_loop_ne_none inode h d none buffer size offset 0 hdirect

theorem access_count_le_size (inode : Inode) (size : Int) (offset : Nat) : access_count inode size offset ≤ size.toNat := by
  unfold access_count
  omega

theorem access_count_cast (inode : Inode) (size : Int) (offset : Nat) :
    (access_count inode size offset : Int) = max 0 (min size (inode_length inode - offset)) := by
  unfold access_count
  omega

theorem write_loop_heap (inode : Inode) (h : Heap) (d : Disk) (bounce : Option Buffer) (buffer : Buffer)
    (size : Int) (offset bytes_written : Nat) :
    ∀ r ∈ write_loop inode h d bounce buffer size offset bytes_written, r.1.ok = h.ok ∧ h.calls ≤ r.1.calls := by
  fun_induction write_loop inode h d bounce buffer size offset bytes_written with
  | case1 => nofun
  | case2 =>
    rintro r ⟨⟩
    exact ⟨rfl, Nat.le_refl _⟩
  | case3 _ _ _ _ _ _ _ _ _ _ _ _ _ ih => exact ih
  | case4 h _ bounce _ _ _ _ _ _ _ _ _ _ h' halloc =>
    rintro r ⟨⟩
    have hok := bounce_alloc_ok h bounce
    have hcalls := bounce_alloc_calls h bounce
    rw [halloc] at hok hcalls
    exact ⟨hok, hcalls⟩
  | case5 h _ bounce _ _ _ _ _ _ _ _ _ _ _ _ h' halloc _ _ ih =>
    intro r hr
    have hok := bounce_alloc_ok h bounce
    have hcalls := bounce_alloc_calls h bounce
    rw [halloc] at hok hcalls
    obtain ⟨hok', hcalls'⟩ := ih r hr
    exact ⟨hok'.trans hok, Nat.le_trans hcalls hcalls'⟩
  | case6 =>
    rintro r ⟨⟩
    exact ⟨rfl, Nat.le_refl _⟩

theorem inode_write_at_heap {h : Heap} {d : Disk} {inode : Inode} {buffer : Buffer} {size : Int} {offset : Nat}
    {r : Heap × Disk × Int} (hw : inode_write_at h d inode buffer size offset = some r) :
    r.1.ok = h.ok ∧ h.calls ≤ r.1.calls := by
  unfold inode_write_at at hw
  split at hw
  · cases hw
    exact ⟨rfl, Nat.le_refl _⟩
  · rcases hl : write_loop inode h d none buffer size offset 0 with _ | r'
    · rw [hl] at hw
      cases hw
    · rw [hl, Option.map_some, Option.some.injEq] at hw
      subst hw
      exact write_loop_heap inode h d none buffer size offset 0 r' hl

theorem LayoutOk.of_direct (d : Disk) (inode : Inode)
    (hlen : inode.data.length ≤ DIRECT_BLOCK * BLOCK_SECTOR_SIZE)
    (hinj : ∀ j k : Fin DIRECT_BLOCK, inode.data.sectors j = inode.data.sectors k → j = k) :
    LayoutOk d inode where
  distinct := fun p q hp hq he => by
    have hpd : p / BLOCK_SECTOR_SIZE < DIRECT_BLOCK := by
      simp only [DIRECT_BLOCK, BLOCK_SECTOR_SIZE] at *
      omega
    have hqd : q / BLOCK_SECTOR_SIZE < DIRECT_BLOCK := by
      simp only [DIRECT_BLOCK, BLOCK_SECTOR_SIZE] at *
      omega
    simp only [index_sector, if_pos hp, if_pos hq, dif_pos hpd, dif_pos hqd] at he
    exact congrArg Fin.val (hinj _ _ he)
  not_index := fun p q s hp hq hs => by
    have := hs.1
    simp only [DIRECT_BLOCK, BLOCK_SECTOR_SIZE] at *
    omega

theorem in_direct_blocks_of_length {inode : Inode} (hlen : inode.data.length ≤ DIRECT_BLOCK * BLOCK_SECTOR_SIZE)
    (size : Int) (offset : Nat) : in_direct_blocks inode size offset := by
  intro hpos
  unfold access_count inode_length at *
  simp only [DIRECT_BLOCK, BLOCK_SECTOR_SIZE] at hlen ⊢
  omega

/-- Past the direct blocks `byte_to_sector` faults: with `malloc` succeeding, a read or a write
faults exactly when its bytes reach offset `DIRECT_BLOCK * BLOCK_SECTOR_SIZE`, whatever the
layout. -/
theorem inode_io_faults_past_direct_blocks (h : Heap) (d : Disk) (inode : Inode) (buf : Buffer)
    (size : Int) (off : Nat) (hmalloc : ∀ k, h.ok k = true) (hdeny : inode.deny_write_cnt = 0) :
    (inode_write_at h d inode buf size off = none ↔ ¬ in_direct_blocks inode size off) ∧
      (inode_read_at h d inode buf size off = none ↔ ¬ in_direct_blocks inode size off) := by
  have hw := write_loop_eq_none_iff inode h d none buf size off 0 (Or.inr (hmalloc _))
  have hr := read_loop_eq_none_iff d inode h none buf size off 0 (Or.inr (hmalloc _))
  simp only [inode_write_at, inode_read_at, hdeny, ne_eq, not_true_eq_false, if_false, Option.map_eq_none_iff]
  exact ⟨hw, hr⟩

/-- A 64000-byte file, whose last 512 bytes lie in block 124, past the direct blocks. -/
def long_inode : Inode where
  addr := 0
  sector := 2
  open_cnt := 1
  removed := false
  deny_write_cnt := 0
  data := { sectors := fun k => 5 + k.val, ib := 129, is_directory := false, length := 64000,
            magic := INODE_MAGIC }

theorem inode_io_faults_past_direct_blocks_sample :
    inode_write_at { ok := fun _ => true, calls := 0 } (fun _ _ => 0) long_inode (fun _ => 7) 1 63488 = none ∧
      inode_read_at { ok := fun _ => true, calls := 0 } (fun _ _ => 0) long_inode (fun _ => 7) 1 63488 = none := by
  have hlen : inode_length long_inode = 64000 := rfl
  have hfault : ¬ in_direct_blocks long_inode 1 63488 := by
    unfold in_direct_blocks access_count
    rw [hlen]
    simp only [DIRECT_BLOCK, BLOCK_SECTOR_SIZE]
    omega
  have h := inode_io_faults_past_direct_blocks { ok := fun _ => true, calls := 0 } (fun _ _ => 0) long_inode
    (fun _ => 7) 1 63488 (fun _ => rfl) rfl
  exact ⟨h.1.mpr hfault, h.2.mpr hfault⟩

/-- A 1000-byte file in sectors 5 and 6. -/
def sample_inode : Inode where
  addr := 0
  sector := 2
  open_cnt := 1
  removed := false
  deny_write_cnt := 0
  data := { sectors := fun k => 5 + k.val, ib := 0, is_directory := false, length := 1000,
            magic := INODE_MAGIC }

theorem sample_inode_layout (d : Disk) : LayoutOk d sample_inode :=
  LayoutOk.of_direct d sample_inode (by decide) (fun j k he => Fin.ext (by simpa [sample_inode] using he))

end Pintos
