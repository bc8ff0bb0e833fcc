import Pintos.Filesys.InodeCreate
import Pintos.Lib.KeyedList
import Mathlib.Data.List.Nodup

/-! # Open inodes (`filesys/inode.c`, lines 97-276 and 401-426)

`open_inodes` holds one `struct inode` per open sector: `inode_open` returns the one already
there, with its count of openers raised, or `malloc`s a new one, pushes it on the front of the
list and reads its `inode_disk` from the sector.  An inode is named by its block, so callers
holding it see each other's `open_cnt`, `removed` and `deny_write_cnt`.

`inode_close` drops one opener.  The last one takes the inode off the list and, if it was
removed, gives its sectors back: `length / 512` data sectors and the inode's own sector.  A
last data block that is only partly used is not counted (`inode_close_releases`), and past the
direct blocks the close reads the first-level block into an uninitialised pointer and faults.

`ASSERT`s are modelled: an operation whose `ASSERT` fails returns `none`.  `open_cnt` and
`deny_write_cnt` are counts; `--inode->open_cnt == 0` is the test `open_cnt = 1`.
-/

namespace Pintos
set_option autoImplicit false
set_option maxHeartbeats 250000
set_option maxRecDepth 120000

/-- The state with the open inode at `addr` changed by `f`. -/
def FsState.map_inode (s : FsState) (addr : Nat) (f : Inode → Inode) : FsState :=
  { s with open_inodes := s.open_inodes.map (fun inode => if inode.addr = addr then f inode else inode) }

def inode_reopen (s : FsState) (inode : Option Nat) : FsState × Option Nat :=
  match inode with
  | some addr => (s.map_inode addr (fun i => { i with open_cnt := i.open_cnt + 1 }), some addr)
  | none => (s, none)

/-- `inode_open (sector)`: the inode's block, or `none` when `malloc` fails. -/
def inode_open (s : FsState) (sector : Nat) : FsState × Option Nat :=
  match s.open_inodes.find? (fun inode => inode.sector == sector) with
  | some inode => inode_reopen s (some inode.addr)
  | none =>
    match s.heap.malloc with
    | (none, heap) => ({ s with heap }, none)
    | (some addr, heap) =>
      let inode : Inode :=
        { addr, sector, open_cnt := 1, removed := false, deny_write_cnt := 0,
          data := InodeDisk.decode (s.disk sector) }
      ({ s with heap, open_inodes := inode :: s.open_inodes }, some addr)

def inode_remove (s : FsState) (addr : Nat) : FsState :=
  s.map_inode addr (fun i => { i with removed := true })

/-- `inode_deny_write (inode)`: `none` when `ASSERT (deny_write_cnt <= open_cnt)` fails. -/
def inode_deny_write (s : FsState) (addr : Nat) : Option FsState :=
  match s.inode_at addr with
  | some inode =>
    if inode.deny_write_cnt + 1 ≤ inode.open_cnt then
      some (s.map_inode addr (fun i => { i with deny_write_cnt := i.deny_write_cnt + 1 }))
    else none
  | none => none

/-- `inode_allow_write (inode)`: `none` when one of its two `ASSERT`s fails. -/
def inode_allow_write (s : FsState) (addr : Nat) : Option FsState :=
  match s.inode_at addr with
  | some inode =>
    if 0 < inode.deny_write_cnt ∧ inode.deny_write_cnt ≤ inode.open_cnt then
      some (s.map_inode addr (fun i => { i with deny_write_cnt := i.deny_write_cnt - 1 }))
    else none
  | none => none

/-! ## Releasing a removed inode's sectors -/

/-- `for (i = 0; i < DIRECT_BLOCK && i < index; i++) free_map_release (sectors[i], 1)` -/
def release_direct (data : InodeDisk) (index : Nat) (s : FsState) (i : Nat) : Option (FsState × Nat) :=
  if h : i < DIRECT_BLOCK ∧ i < index then
    match free_map_release s (data.sectors ⟨i, h.1⟩) 1 with
    | some s => release_direct data index s (i + 1)
    | none => none
  else some (s, i)
termination_by DIRECT_BLOCK - i

/-- `inode_close (inode)`; `none` when a `free_map_release` `ASSERT` fails or the close
faults. -/
def inode_close (s : FsState) (inode : Option Nat) : Option FsState :=
  match inode with
  | none => some s
  | some addr =>
    match s.inode_at addr with
    | none => some s
    | some ino =>
      if ino.open_cnt = 1 then
        let s := { s with open_inodes := s.open_inodes.filter (fun i => i.addr != addr) }
        if ino.removed then
          let index := toSizeT (Int.tdiv ino.data.length BLOCK_SECTOR_SIZE)
          let released :=
            match release_direct ino.data index s 0 with
            | some (s, i) =>
              -- `block_read (fs_device, ib, first_ib)` stores through an uninitialised pointer
              if i < index then none
              else some s
            | none => none
          match released with
          | some s => free_map_release s ino.sector 1
          | none => none
        else some s
      else some (s.map_inode addr (fun i => { i with open_cnt := i.open_cnt - 1 }))

/-! ## The table of open inodes

One equation per outcome of each call, for callers that never unfold it. -/

theorem FsState.map_inode_open_inodes (s : FsState) (addr : Nat) (f : Inode → Inode) :
    (s.map_inode addr f).open_inodes = KeyedList.update Inode.addr addr f s.open_inodes := rfl

theorem FsState.inode_at_eq_some_iff {s : FsState} (hnd : (s.open_inodes.map Inode.addr).Nodup)
    {addr : Nat} {inode : Inode} : s.inode_at addr = some inode ↔ inode ∈ s.open_inodes ∧ inode.addr = addr :=
  KeyedList.find?_eq_some_iff hnd

theorem inode_open_found {s : FsState} {sector : Nat} {inode : Inode}
    (h : s.open_inodes.find? (fun inode => inode.sector == sector) = some inode) :
    inode_open s sector =
      (s.map_inode inode.addr (fun i => { i with open_cnt := i.open_cnt + 1 }), some inode.addr) := by
  simp only [inode_open, h, inode_reopen]

theorem inode_open_new {s : FsState} {sector : Nat}
    (h : s.open_inodes.find? (fun inode => inode.sector == sector) = none) (hok : s.heap.ok s.heap.calls = true) :
    inode_open s sector =
      ({ s with
          heap := { s.heap with calls := s.heap.calls + 1 }
          open_inodes :=
            { addr := s.heap.calls, sector, open_cnt := 1, removed := false, deny_write_cnt := 0,
              data := InodeDisk.decode (s.disk sector) } :: s.open_inodes },
        some s.heap.calls) := by
  simp only [inode_open, h, Heap.malloc_of_ok _ hok]

theorem inode_open_fail {s : FsState} {sector : Nat}
    (h : s.open_inodes.find? (fun inode => inode.sector == sector) = none) (hok : s.heap.ok s.heap.calls = false) :
    inode_open s sector = ({ s with heap := { s.heap with calls := s.heap.calls + 1 } }, none) := by
  simp only [inode_open, h, Heap.malloc, hok]
  rfl

theorem inode_open_ok {s : FsState} (hok : s.heap.ok s.heap.calls = true) (sector : Nat) :
    ∃ addr, (inode_open s sector).2 = some addr := by
  cases hf : s.open_inodes.find? (fun inode => inode.sector == sector) with
  | some inode => exact ⟨inode.addr, by rw [inode_open_found hf]⟩
  | none => exact ⟨s.heap.calls, by rw [inode_open_new hf hok]⟩

theorem inode_open_fields (s : FsState) (sector : Nat) :
    (inode_open s sector).1.disk = s.disk ∧ (inode_open s sector).1.free_map_file = s.free_map_file ∧
      (inode_open s sector).1.heap.ok = s.heap.ok ∧ s.heap.calls ≤ (inode_open s sector).1.heap.calls := by
  cases hf : s.open_inodes.find? (fun inode => inode.sector == sector) with
  | some inode =>
    rw [inode_open_found hf]
    exact ⟨rfl, rfl, rfl, Nat.le_refl _⟩
  | none =>
    cases hok : s.heap.ok s.heap.calls with
    | false =>
      rw [inode_open_fail hf hok]
      exact ⟨rfl, rfl, rfl, Nat.le_succ _⟩
    | true =>
      rw [inode_open_new hf hok]
      exact ⟨rfl, rfl, rfl, Nat.le_succ _⟩

/-- An open keeps every other open inode, up to its count of openers, when the block it may
allocate is not that inode's. -/
theorem inode_open_inode_at {s : FsState} (hok : s.heap.ok s.heap.calls = true) (sector : Nat) {b : Nat}
    (hb : b ≠ s.heap.calls) {i : Inode} (hi : s.inode_at b = some i) :
    ∃ i', (inode_open s sector).1.inode_at b = some i' ∧ i'.data = i.data ∧ i'.deny_write_cnt = i.deny_write_cnt ∧
      i'.removed = i.removed ∧ i.open_cnt ≤ i'.open_cnt := by
  cases hf : s.open_inodes.find? (fun inode => inode.sector == sector) with
  | some inode =>
    rw [inode_open_found hf]
    simp only [FsState.inode_at, FsState.map_inode, List.find?_map]
    have hcomp : ((fun j : Inode => j.addr == b) ∘
        fun j : Inode => if j.addr = inode.addr then { j with open_cnt := j.open_cnt + 1 } else j) =
        (fun j : Inode => j.addr == b) := by
      funext j
      by_cases hj : j.addr = inode.addr <;> simp [hj]
    rw [hcomp]
    unfold FsState.inode_at at hi
    rw [hi]
    by_cases hia : i.addr = inode.addr
    · exact ⟨_, rfl, by simp [hia], by simp [hia], by simp [hia], by simp [hia]⟩
    · exact ⟨i, by simp [hia], rfl, rfl, rfl, Nat.le_refl _⟩
  | none =>
    rw [inode_open_new hf hok]
    refine ⟨i, ?_, rfl, rfl, rfl, Nat.le_refl _⟩
    simp only [FsState.inode_at]
    rw [List.find?_cons_of_neg (by simpa using Ne.symm hb)]
    exact hi

/-- With no two open inodes on one sector, after an open every open inode on the sector is the
one returned. -/
theorem inode_open_sector_addr {s s₁ : FsState} {sector a : Nat} (hsect : (s.open_inodes.map Inode.sector).Nodup)
    (ho : inode_open s sector = (s₁, some a)) : ∀ z ∈ s₁.open_inodes, z.sector = sector → z.addr = a := by
  cases hf : s.open_inodes.find? (fun inode => inode.sector == sector) with
  | some inode =>
    rw [inode_open_found hf] at ho
    cases ho
    obtain ⟨hmem, hsec⟩ := (KeyedList.find?_eq_some_iff hsect).mp hf
    intro z hz hzs
    rw [FsState.map_inode_open_inodes] at hz
    obtain ⟨w, hw, rfl⟩ := KeyedList.mem_update.mp hz
    have hwsec : w.sector = sector := by
      split at hzs <;> exact hzs
    have hwi : w = inode := List.inj_on_of_nodup_map hsect hw hmem (hwsec.trans hsec.symm)
    subst hwi
    split <;> rfl
  | none =>
    cases hok : s.heap.ok s.heap.calls with
    | false =>
      rw [inode_open_fail hf hok] at ho
      cases ho
    | true =>
      rw [inode_open_new hf hok] at ho
      cases ho
      intro z hz hzs
      rcases List.mem_cons.mp hz with rfl | hz
      · rfl
      · exact absurd hzs ((KeyedList.find?_eq_none_iff.mp hf) z hz)

theorem inode_close_shared {s : FsState} {addr : Nat} {inode : Inode} (hfound : s.inode_at addr = some inode)
    (hcnt : inode.open_cnt ≠ 1) :
    inode_close s (some addr) = some (s.map_inode addr (fun i => { i with open_cnt := i.open_cnt - 1 })) := by
  simp only [inode_close, hfound, if_neg hcnt]

theorem inode_close_last {s : FsState} {addr : Nat} {inode : Inode} (hfound : s.inode_at addr = some inode)
    (hcnt : inode.open_cnt = 1) (hrem : inode.removed = false) :
    inode_close s (some addr) = some { s with open_inodes := s.open_inodes.filter (fun i => i.addr != addr) } := by
  simp only [inode_close, hfound, if_pos hcnt, hrem, Bool.false_eq_true, if_false]

theorem inode_close_kept {s : FsState} {addr : Nat} {inode : Inode} (hfound : s.inode_at addr = some inode)
    (hrem : inode.removed = false) : ∃ s', inode_close s (some addr) = some s' ∧ s'.free_map = s.free_map := by
  by_cases hcnt : inode.open_cnt = 1
  · exact ⟨_, inode_close_last hfound hcnt hrem, rfl⟩
  · exact ⟨_, inode_close_shared hfound hcnt, rfl⟩

theorem inode_open_free_map (s : FsState) (sector : Nat) : (inode_open s sector).1.free_map = s.free_map := by
  unfold inode_open inode_reopen
  split
  · rfl
  · split <;> rfl

theorem inode_deny_write_some {s : FsState} {addr : Nat} {inode : Inode} (hfound : s.inode_at addr = some inode)
    (hle : inode.deny_write_cnt + 1 ≤ inode.open_cnt) :
    inode_deny_write s addr =
      some (s.map_inode addr (fun i => { i with deny_write_cnt := i.deny_write_cnt + 1 })) := by
  simp only [inode_deny_write, hfound, if_pos hle]

theorem inode_allow_write_some {s : FsState} {addr : Nat} {inode : Inode} (hfound : s.inode_at addr = some inode)
    (hpos : 0 < inode.deny_write_cnt) (hle : inode.deny_write_cnt ≤ inode.open_cnt) :
    inode_allow_write s addr =
      some (s.map_inode addr (fun i => { i with deny_write_cnt := i.deny_write_cnt - 1 })) := by
  simp only [inode_allow_write, hfound, if_pos (And.intro hpos hle)]

/-! ## What a release does to the map -/

/-- Releasing a used sector with the free-map file open clears its bit and nothing else; the
write of the map that follows may fail, and the call does not look. -/
theorem free_map_release_used (s : FsState) (x : Nat) (file : File) (hfile : s.free_map_file = some file)
    (hdirect : byte_cnt s.free_map.bit_cnt ≤ DIRECT_BLOCK * BLOCK_SECTOR_SIZE)
    (hx : bitmap_test s.free_map x = some true) :
    ∃ heap disk, free_map_release s x 1 =
      some { s with free_map := Bitmap.set_multiple s.free_map x 1 false, heap, disk } := by
  obtain ⟨hlt, hbit⟩ := (bitmap_test_eq_some_iff _ _ _).mp hx
  have hall : bitmap_all s.free_map x 1 = some true := by
    rw [bitmap_all_of_le (by omega), Option.some_inj, Bitmap.all_iff]
    intro i hi
    rw [show i = 0 by omega, Nat.add_zero]
    exact hbit
  have hset : bitmap_set_multiple s.free_map x 1 false = some (Bitmap.set_multiple s.free_map x 1 false) :=
    bitmap_set_multiple_of_le false (by omega)
  obtain ⟨⟨s', ok⟩, hw⟩ := Option.ne_none_iff_exists'.mp (bitmap_write_ne_none
    { s with free_map := Bitmap.set_multiple s.free_map x 1 false } (Bitmap.set_multiple s.free_map x 1 false) file
    (by rw [Bitmap.set_multiple_bit_cnt]; exact hdirect))
  obtain ⟨heap, disk, rfl, -⟩ := bitmap_write_state hw
  simp only [hfile] at hw
  refine ⟨heap, disk, ?_⟩
  simp only [free_map_release, if_pos hall, hset, hfile, hw, Option.map_some]

/-- The direct loop clears exactly the bits of the direct sectors it passes, each of which must
be set and distinct from the others. -/
theorem release_direct_spec (data : InodeDisk) (index : Nat) (file : File) (s : FsState) (i : Nat)
    (hfile : s.free_map_file = some file)
    (hdirect : byte_cnt s.free_map.bit_cnt ≤ DIRECT_BLOCK * BLOCK_SECTOR_SIZE) :
    (∀ j (hj : j < DIRECT_BLOCK), i ≤ j → j < index → bitmap_test s.free_map (data.sectors ⟨j, hj⟩) = some true) →
    (∀ j k (hj : j < DIRECT_BLOCK) (hk : k < DIRECT_BLOCK), i ≤ j → j < index → i ≤ k → k < index →
      data.sectors ⟨j, hj⟩ = data.sectors ⟨k, hk⟩ → j = k) →
    ∃ s', release_direct data index s i = some (s', max i (min DIRECT_BLOCK index)) ∧
      s'.free_map_file = s.free_map_file ∧ s'.open_inodes = s.open_inodes ∧
      s'.free_map.bit_cnt = s.free_map.bit_cnt ∧
      (∀ j (hj : j < DIRECT_BLOCK), i ≤ j → j < index → Bitmap.bit s'.free_map (data.sectors ⟨j, hj⟩) = false) ∧
      ∀ x, (∀ j (hj : j < DIRECT_BLOCK), i ≤ j → j < index → data.sectors ⟨j, hj⟩ ≠ x) →
        Bitmap.bit s'.free_map x = Bitmap.bit s.free_map x := by
  fun_induction release_direct data index s i with
  | case1 s i hc s₁ hrel ih =>
    intro hset hdist
    obtain ⟨heap, disk, hres⟩ := free_map_release_used s _ file hfile hdirect (hset i hc.1 (le_refl i) hc.2)
    rw [hrel] at hres
    cases hres
    have hkeep : ∀ x, x ≠ data.sectors ⟨i, hc.1⟩ →
        Bitmap.bit (Bitmap.set_multiple s.free_map (data.sectors ⟨i, hc.1⟩) 1 false) x =
          Bitmap.bit s.free_map x := fun x hx => by
      rw [Bitmap.bit_set_multiple, if_neg (by omega)]
    obtain ⟨s', hrun, hfile', hinodes', hcnt', hcleared, hframe⟩ := ih hfile
      (by rw [Bitmap.set_multiple_bit_cnt]; exact hdirect)
      (fun j hj hij hji => by
        obtain ⟨hlt, hb⟩ := (bitmap_test_eq_some_iff _ _ _).mp (hset j hj (by omega) hji)
        refine (bitmap_test_eq_some_iff _ _ _).mpr ⟨by rw [Bitmap.set_multiple_bit_cnt]; exact hlt, ?_⟩
        rw [hkeep _ (fun he => by have := hdist j i hj hc.1 (by omega) hji (le_refl i) hc.2 he; omega)]
        exact hb)
      (fun j k hj hk hij hji hik hki he => hdist j k hj hk (by omega) hji (by omega) hki he)
    refine ⟨s', by rw [hrun]; congr 2; omega, hfile', hinodes', by rw [hcnt']; simp, fun j hj hij hji => ?_,
      fun x hx => ?_⟩
    · by_cases hji' : j = i
      · subst hji'
        rw [hframe _ (fun k hk hik hki he => by
          have := hdist k j hk hj (by omega) hki (le_refl j) hji he; omega)]
        rw [Bitmap.bit_set_multiple, if_pos ⟨le_refl _, by omega⟩]
      · exact hcleared j hj (by omega) hji
    · rw [hframe x (fun j hj hij hji => hx j hj (by omega) hji), hkeep x (hx i hc.1 (le_refl i) hc.2).symm]
  | case2 s i hc hrel =>
    intro hset _
    obtain ⟨_, _, hres⟩ := free_map_release_used s _ file hfile hdirect (hset i hc.1 (le_refl i) hc.2)
    rw [hrel] at hres
    cases hres
  | case3 s i hc =>
    intro _ _
    refine ⟨s, by congr 2; omega, rfl, rfl, rfl, fun j hj hij hji => ?_, fun _ _ => rfl⟩
    omega

/-! ## Closing a removed file whose blocks are all direct -/

/-- A file whose blocks are all direct, laid out as `inode_create` leaves one: its
`bytes_to_sectors length` data sectors and its own sector are marked used, and all of them
are distinct. -/
structure DirectLayout (s : FsState) (ino : Inode) : Prop where
  length_nonneg : 0 ≤ ino.data.length
  length_direct : ino.data.length ≤ DIRECT_BLOCK * BLOCK_SECTOR_SIZE
  data_used : ∀ j (hj : j < DIRECT_BLOCK), j < bytes_to_sectors ino.data.length →
    bitmap_test s.free_map (ino.data.sectors ⟨j, hj⟩) = some true
  data_distinct : ∀ j k (hj : j < DIRECT_BLOCK) (hk : k < DIRECT_BLOCK),
    j < bytes_to_sectors ino.data.length → k < bytes_to_sectors ino.data.length →
    ino.data.sectors ⟨j, hj⟩ = ino.data.sectors ⟨k, hk⟩ → j = k
  data_not_inode : ∀ j (hj : j < DIRECT_BLOCK), j < bytes_to_sectors ino.data.length →
    ino.data.sectors ⟨j, hj⟩ ≠ ino.sector
  inode_used : bitmap_test s.free_map ino.sector = some true

theorem DirectLayout.sectors_eq {s : FsState} {ino : Inode} (h : DirectLayout s ino) :
    bytes_to_sectors ino.data.length = (ino.data.length.toNat + 511) / 512 := by
  have := h.length_direct
  simp only [DIRECT_BLOCK, BLOCK_SECTOR_SIZE] at this
  exact bytes_to_sectors_eq _ h.length_nonneg (by omega)

theorem DirectLayout.close_index {s : FsState} {ino : Inode} (h : DirectLayout s ino) :
    toSizeT (Int.tdiv ino.data.length BLOCK_SECTOR_SIZE) = ino.data.length.toNat / 512 := by
  have := h.length_direct
  simp only [DIRECT_BLOCK, BLOCK_SECTOR_SIZE] at this
  exact toSizeT_tdiv _ h.length_nonneg (by omega)

theorem index_sector_direct (d : Disk) (ino : Inode) (p : Nat) (hp : (p : Int) < ino.data.length)
    (hj : p / BLOCK_SECTOR_SIZE < DIRECT_BLOCK) :
    index_sector d ino p = ino.data.sectors ⟨p / BLOCK_SECTOR_SIZE, hj⟩ := by
  simp only [index_sector, if_pos hp, dif_pos hj]

/-- The last close of a removed file whose blocks are all direct takes it off the open list,
clears the bits of its first `length / 512` data sectors and of its own sector, and keeps every
other bit. -/
theorem inode_close_releases (s : FsState) (addr : Nat) (ino : Inode) (file : File)
    (hfound : s.inode_at addr = some ino) (hlast : ino.open_cnt = 1) (hrem : ino.removed = true)
    (hfile : s.free_map_file = some file) (hmap : byte_cnt s.free_map.bit_cnt ≤ DIRECT_BLOCK * BLOCK_SECTOR_SIZE)
    (hl : DirectLayout s ino) :
    ∃ s', inode_close s (some addr) = some s' ∧ s'.inode_at addr = none ∧
      (∀ j (hj : j < DIRECT_BLOCK), j < ino.data.length.toNat / 512 →
        Bitmap.bit s'.free_map (ino.data.sectors ⟨j, hj⟩) = false) ∧
      Bitmap.bit s'.free_map ino.sector = false ∧
      ∀ x, x ≠ ino.sector → (∀ j (hj : j < DIRECT_BLOCK), j < ino.data.length.toNat / 512 →
        ino.data.sectors ⟨j, hj⟩ ≠ x) → Bitmap.bit s'.free_map x = Bitmap.bit s.free_map x := by
  have hsec := hl.sectors_eq
  have hdirect := hl.length_direct
  simp only [DIRECT_BLOCK, BLOCK_SECTOR_SIZE] at hdirect
  have hblocks : ∀ j, j < ino.data.length.toNat / 512 → j < bytes_to_sectors ino.data.length := by
    intro j hj
    rw [hsec]
    omega
  have hindex : ino.data.length.toNat / 512 ≤ DIRECT_BLOCK := by
    simp only [DIRECT_BLOCK]
    omega
  let s₁ : FsState := { s with open_inodes := s.open_inodes.filter (fun i => i.addr != addr) }
  obtain ⟨s₂, hrd, hfile₂, hinodes₂, hcnt₂, hcleared, hframe⟩ :=
    release_direct_spec ino.data (ino.data.length.toNat / 512) file s₁ 0 hfile hmap
      (fun j hj _ hji => hl.data_used j hj (hblocks j hji))
      (fun j k hj hk _ hji _ hki he => hl.data_distinct j k hj hk (hblocks j hji) (hblocks k hki) he)
  have hend : max 0 (min DIRECT_BLOCK (ino.data.length.toNat / 512)) = ino.data.length.toNat / 512 := by
    omega
  rw [hend] at hrd
  have hown : bitmap_test s₂.free_map ino.sector = some true := by
    obtain ⟨hlt, hb⟩ := (bitmap_test_eq_some_iff _ _ _).mp hl.inode_used
    refine (bitmap_test_eq_some_iff _ _ _).mpr ⟨by rw [hcnt₂]; exact hlt, ?_⟩
    rw [hframe _ (fun j hj _ hji => hl.data_not_inode j hj (hblocks j hji))]
    exact hb
  obtain ⟨heap, disk, hres⟩ := free_map_release_used s₂ ino.sector file (hfile₂.trans hfile)
    (by rw [hcnt₂]; exact hmap) hown
  refine ⟨{ s₂ with free_map := Bitmap.set_multiple s₂.free_map ino.sector 1 false, heap, disk }, ?_, ?_,
    fun j hj hji => ?_, ?_, fun x hx hxd => ?_⟩
  · simp only [inode_close, hfound, if_pos hlast, hrem, if_true, hl.close_index]
    rw [hrd]
    simp only [Nat.lt_irrefl, if_false]
    exact hres
  · simp only [FsState.inode_at, hinodes₂, s₁, List.find?_filter, List.find?_eq_none]
    intro i _
    by_cases hi : i.addr = addr <;> simp [hi]
  · dsimp only
    rw [Bitmap.bit_set_multiple, if_neg (fun hin => hl.data_not_inode j hj (hblocks j hji) (by omega))]
    exact hcleared j hj (Nat.zero_le j) hji
  · dsimp only
    rw [Bitmap.bit_set_multiple, if_pos ⟨le_refl _, by omega⟩]
  · dsimp only
    rw [Bitmap.bit_set_multiple, if_neg (by omega), hframe x (fun j hj _ hji => hxd j hj hji)]

/-- The last close of a removed file whose length is not a multiple of 512 and whose blocks are
all direct leaves the sector of its last byte marked used: `length / 512` rounds the partly
filled last block away. -/
theorem inode_close_keeps_last_block (s : FsState) (addr : Nat) (ino : Inode) (file : File)
    (hfound : s.inode_at addr = some ino) (hlast : ino.open_cnt = 1) (hrem : ino.removed = true)
    (hfile : s.free_map_file = some file) (hmap : byte_cnt s.free_map.bit_cnt ≤ DIRECT_BLOCK * BLOCK_SECTOR_SIZE)
    (hl : DirectLayout s ino) (hpart : ino.data.length % BLOCK_SECTOR_SIZE ≠ 0) :
    ∃ s', inode_close s (some addr) = some s' ∧ s'.inode_at addr = none ∧
      Bitmap.bit s'.free_map (index_sector s.disk ino (ino.data.length - 1).toNat) = true := by
  obtain ⟨s', hclose, hgone, -, -, hframe⟩ := inode_close_releases s addr ino file hfound hlast hrem hfile hmap hl
  have hsec := hl.sectors_eq
  have hdirect := hl.length_direct
  have hnn := hl.length_nonneg
  simp only [DIRECT_BLOCK, BLOCK_SECTOR_SIZE] at hdirect hpart
  -- the last byte lies in block `length / 512`, a direct block the close does not release
  have hlastblock : (ino.data.length - 1).toNat / BLOCK_SECTOR_SIZE = ino.data.length.toNat / 512 := by
    simp only [BLOCK_SECTOR_SIZE]
    omega
  have hj : (ino.data.length - 1).toNat / BLOCK_SECTOR_SIZE < DIRECT_BLOCK := by
    rw [hlastblock]
    simp only [DIRECT_BLOCK]
    omega
  have hfile_block : (ino.data.length - 1).toNat / BLOCK_SECTOR_SIZE < bytes_to_sectors ino.data.length := by
    rw [hlastblock, hsec]
    omega
  refine ⟨s', hclose, hgone, ?_⟩
  rw [index_sector_direct s.disk ino _ (by omega) hj]
  rw [hframe _ (hl.data_not_inode _ hj hfile_block) (fun k hk hki he => by
    have := hl.data_distinct k _ hk hj (by omega) hfile_block he
    omega)]
  exact ((bitmap_test_eq_some_iff _ _ _).mp (hl.data_used _ hj hfile_block)).2

/-- A 100-byte file at sector 4 with its data in sector 5, removed and open once, on a
200-sector device whose sectors 0 to 5 are used; the free map is open on sector 0, its data
in sector 2. -/
def removed_file : Inode where
  addr := 8
  sector := 4
  open_cnt := 1
  removed := true
  deny_write_cnt := 0
  data :=
    { InodeDisk.zero with
      sectors := fun k => if k.val = 0 then 5 else 0
      length := 100
      magic := INODE_MAGIC }

def close_sample : FsState where
  disk := fun _ _ => 0
  heap := { ok := fun _ => true, calls := 0 }
  fs_device_size := 200
  free_map := { bit_cnt := 200, bits := fun w => if w = 0 then 63#32 else 0#32 }
  free_map_file := some { inode := 7, pos := 0, deny_write := false }
  open_inodes :=
    [removed_file,
     { addr := 7, sector := 0, open_cnt := 1, removed := false, deny_write_cnt := 0,
       data :=
        { InodeDisk.zero with
          sectors := fun k => if k.val = 0 then 2 else 0
          length := 25
          magic := INODE_MAGIC } }]

theorem inode_close_keeps_last_block_sample :
    byte_cnt close_sample.free_map.bit_cnt ≤ DIRECT_BLOCK * BLOCK_SECTOR_SIZE ∧
      DirectLayout close_sample removed_file ∧
      ∃ s', inode_close close_sample (some 8) = some s' ∧ s'.inode_at 8 = none ∧
        Bitmap.bit s'.free_map (index_sector close_sample.disk removed_file (removed_file.data.length - 1).toNat) = true := by
  have hone : bytes_to_sectors removed_file.data.length = 1 := by decide
  have hmap : byte_cnt close_sample.free_map.bit_cnt ≤ DIRECT_BLOCK * BLOCK_SECTOR_SIZE := by decide
  have hl : DirectLayout close_sample removed_file :=
    { length_nonneg := by decide
      length_direct := by decide
      data_used := fun j _ hj => by
        obtain rfl : j = 0 := by omega
        exact (by decide : bitmap_test close_sample.free_map 5 = some true)
      data_distinct := fun j k _ _ hj hk _ => by omega
      data_not_inode := fun j _ hj => by
        obtain rfl : j = 0 := by omega
        exact (by decide : (5 : Nat) ≠ 4)
      inode_used := by decide }
  exact ⟨hmap, hl, inode_close_keeps_last_block close_sample 8 removed_file _ rfl rfl rfl rfl hmap hl (by decide)⟩

end Pintos
