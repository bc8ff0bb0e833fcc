import Pintos.Filesys.InodeIO
import Pintos.Kernel.Bitmap
import Pintos.Threads.Palloc

/-! # The free map (`filesys/free-map.c`) and the file-system state

`FsState` gathers what the file-system code reads and writes: the device, the `malloc`
oracle, the two static variables of `free-map.c` (`free_map`, `free_map_file`) and the list
`open_inodes` of `inode.c`.  A `struct file` names its inode by the inode's block, so that all
files open on one inode see the same counters.

`bitmap_write` stores the words of a bitmap little-endian at offset 0 of a file;
`free_map_allocate` claims clear bits and writes the map back, undoing the claim when the
write fails.  While the free-map file is open and well placed (`MapFileOk`), that write goes
through and changes only sectors of the free-map file, all of which the map marks used: an
allocation changes no free sector (`MapFrame`).
-/

namespace Pintos
set_option autoImplicit false
set_option maxHeartbeats 250000
set_option maxRecDepth 120000

open WordBits

def FREE_MAP_SECTOR : Nat := 0

def ROOT_DIR_SECTOR : Nat := 1

/-- `struct file`: its inode (by the inode's block), position and deny-write flag. -/
structure File where
  inode : Nat
  pos : Int
  deny_write : Bool

/-- The file-system part of the kernel state. -/
structure FsState where
  disk : Disk
  heap : Heap
  fs_device_size : Nat
  free_map : Bitmap
  free_map_file : Option File
  open_inodes : List Inode

/-- The open inode whose block is `addr`. -/
def FsState.inode_at (s : FsState) (addr : Nat) : Option Inode :=
  s.open_inodes.find? (fun inode => inode.addr == addr)

/-- `file_read_at (file, buffer, size, file_ofs)`.  A file whose inode is not open would be
a dangling pointer; no state the file system reaches has one, and the model then moves no
byte. -/
def file_read_at (s : FsState) (file : File) (buffer : Buffer) (size : Int) (file_ofs : Nat) :
    Option (FsState × Buffer × Int) :=
  match s.inode_at file.inode with
  | some inode =>
    (inode_read_at s.heap s.disk inode buffer size file_ofs).map fun (heap, buffer, bytes_read) =>
      ({ s with heap }, buffer, bytes_read)
  | none => some (s, buffer, 0)

def file_write_at (s : FsState) (file : File) (buffer : Buffer) (size : Int) (file_ofs : Nat) :
    Option (FsState × Int) :=
  match s.inode_at file.inode with
  | some inode =>
    (inode_write_at s.heap s.disk inode buffer size file_ofs).map fun (heap, disk, bytes_written) =>
      ({ s with heap, disk }, bytes_written)
  | none => some (s, 0)

/-- `bitmap_write (b, file)`: the words of `b` as they lie in memory, written at offset 0. -/
def bitmap_write (s : FsState) (b : Bitmap) (file : File) : Option (FsState × Bool) :=
  let size : Int := byte_cnt b.bit_cnt
  (file_write_at s file (bytesOfWords b.bits) size 0).map fun (s, bytes_written) => (s, bytes_written == size)

/-- `bitmap_read (b, file)`: the words read back, the last one cut to the map's bits. -/
def bitmap_read (s : FsState) (b : Bitmap) (file : File) : Option (FsState × Bitmap × Bool) :=
  if b.bit_cnt > 0 then
    let size : Int := byte_cnt b.bit_cnt
    (file_read_at s file (bytesOfWords b.bits) size 0).map fun (s, buffer, bytes_read) =>
      let bits := wordsOfBytes buffer
      let last := elem_cnt b.bit_cnt - 1
      (s, { b with bits := Function.update bits last (bits last &&& last_mask b) }, bytes_read == size)
  else some (s, b, true)

/-- `free_map_allocate (cnt, &sector)`: the first sector, or `none` inside for `false`. -/
def free_map_allocate (s : FsState) (cnt : Nat) : Option (FsState × Option Nat) :=
  match bitmap_scan_and_flip s.free_map 0 cnt false with
  | none => none
  | some (free_map, sector) =>
    let s := { s with free_map }
    if sector ≠ BITMAP_ERROR then
      match s.free_map_file with
      | some file =>
        match bitmap_write s s.free_map file with
        | none => none
        | some (s, true) => some (s, some sector)
        -- the write failed: give the sectors back
        | some (s, false) =>
          (bitmap_set_multiple s.free_map sector cnt false).map fun free_map => ({ s with free_map }, none)
      | none => some (s, some sector)
    else some (s, none)

/-- `free_map_release (sector, cnt)`; `none` when its `ASSERT` fails or, with no free-map file
open, when `bitmap_write` goes through the null pointer. -/
def free_map_release (s : FsState) (sector cnt : Nat) : Option FsState :=
  if bitmap_all s.free_map sector cnt = some true then
    match bitmap_set_multiple s.free_map sector cnt false with
    | none => none
    | some free_map =>
      let s := { s with free_map }
      match s.free_map_file with
      | some file => (bitmap_write s s.free_map file).map Prod.fst
      | none => none
  else none

def free_map_unused (s : FsState) : Option Nat := bitmap_count s.free_map 0 s.fs_device_size false

theorem free_map_unused_eq (s : FsState) (hdev : s.fs_device_size = s.free_map.bit_cnt) :
    free_map_unused s = some (free_cnt s.free_map) := by
  rw [free_map_unused, hdev, bitmap_count_of_le false (by rw [Nat.zero_add])]
  rfl

/-! ## The free-map file

The free map is written through the file system it describes.  `MapFileOk s file inode`: the
free-map file is open on `inode`, which is well laid out, writable and long enough for the
whole map; the map's bytes lie in the direct blocks (past them the write faults); and every
sector of its layout is marked used. -/

structure MapFileOk (s : FsState) (file : File) (inode : Inode) : Prop where
  found : s.inode_at file.inode = some inode
  layout : LayoutOk s.disk inode
  writable : inode.deny_write_cnt = 0
  fits : (byte_cnt s.free_map.bit_cnt : Int) ≤ inode_length inode
  direct : byte_cnt s.free_map.bit_cnt ≤ DIRECT_BLOCK * BLOCK_SECTOR_SIZE
  used : ∀ x, layout_sector s.disk inode x → Bitmap.bit s.free_map x = true

def FreeMapFileOk (s : FsState) : Prop :=
  ∀ file, s.free_map_file = some file → ∃ inode, MapFileOk s file inode

/-- `x` is a sector of the open free-map file. -/
def map_file_sector (s : FsState) (x : Nat) : Prop :=
  ∃ file inode, s.free_map_file = some file ∧ s.inode_at file.inode = some inode ∧
    layout_sector s.disk inode x

theorem inode_at_congr {s s' : FsState} (h : s'.open_inodes = s.open_inodes) (addr : Nat) :
    s'.inode_at addr = s.inode_at addr := by
  simp only [FsState.inode_at, h]

/-- A state that keeps the open inodes, the index sectors of the free-map file and every used
bit keeps the free-map file well placed. -/
theorem MapFileOk.transfer {s s' : FsState} {file : File} {inode : Inode} (h : MapFileOk s file inode)
    (hinodes : s'.open_inodes = s.open_inodes)
    (hidx : ∀ q t : Nat, (q : Int) < inode.data.length → index_reads s.disk inode q t → s'.disk t = s.disk t)
    (hcnt : s'.free_map.bit_cnt = s.free_map.bit_cnt)
    (hkeep : ∀ x, Bitmap.bit s.free_map x = true → Bitmap.bit s'.free_map x = true) :
    MapFileOk s' file inode where
  found := by rw [inode_at_congr hinodes]; exact h.found
  layout := h.layout.frame hidx
  writable := h.writable
  fits := by rw [hcnt]; exact h.fits
  direct := by rw [hcnt]; exact h.direct
  used := fun x hx => hkeep x (h.used x ((layout_sector_frame _ _ inode x hidx).mp hx))

theorem map_file_sector_transfer {s s' : FsState} (hinodes : s'.open_inodes = s.open_inodes)
    (hfile : s'.free_map_file = s.free_map_file) (inode : Inode)
    (hinode : ∀ file, s.free_map_file = some file → s.inode_at file.inode = some inode)
    (hidx : ∀ q t : Nat, (q : Int) < inode.data.length → index_reads s.disk inode q t → s'.disk t = s.disk t)
    (x : Nat) : map_file_sector s' x ↔ map_file_sector s x := by
  unfold map_file_sector
  simp only [inode_at_congr hinodes, hfile]
  constructor
  · rintro ⟨file, i, hf, hi, hx⟩
    have hii : i = inode := Option.some.inj (hi.symm.trans (hinode file hf))
    subst hii
    exact ⟨file, i, hf, hi, (layout_sector_frame _ _ i x hidx).mp hx⟩
  · rintro ⟨file, i, hf, hi, hx⟩
    have hii : i = inode := Option.some.inj (hi.symm.trans (hinode file hf))
    subst hii
    exact ⟨file, i, hf, hi, (layout_sector_frame _ _ i x hidx).mpr hx⟩

/-- What an allocation may do to the rest of the state: the heap's count of calls moves, the
free-map file's data changes, the file stays well placed. -/
structure MapFrame (s s' : FsState) : Prop where
  inodes : s'.open_inodes = s.open_inodes
  file : s'.free_map_file = s.free_map_file
  device : s'.fs_device_size = s.fs_device_size
  heap_ok : s'.heap.ok = s.heap.ok
  outside : ∀ x, ¬ map_file_sector s x → s'.disk x = s.disk x
  sectors : ∀ x, map_file_sector s' x ↔ map_file_sector s x
  file_ok : FreeMapFileOk s'

theorem bitmap_write_ne_none (s : FsState) (b : Bitmap) (file : File)
    (hdirect : byte_cnt b.bit_cnt ≤ DIRECT_BLOCK * BLOCK_SECTOR_SIZE) : bitmap_write s b file ≠ none := by
  simp only [bitmap_write, file_write_at, ne_eq]
  split
  · next inode _ =>
    have hin : in_direct_blocks inode (byte_cnt b.bit_cnt) 0 := by
      intro _
      have := access_count_le_size inode (byte_cnt b.bit_cnt) 0
      omega
    simp only [Option.map_eq_none_iff]
    exact inode_write_at_ne_none s.heap s.disk inode _ _ 0 hin
  · simp

theorem bitmap_write_ok {s : FsState} {file : File} {inode : Inode} (h : MapFileOk s file inode)
    (hm : s.heap.ok s.heap.calls = true) :
    ∃ heap disk, bitmap_write s s.free_map file = some ({ s with heap, disk }, true) ∧ heap.ok = s.heap.ok ∧
      WriteEffect s.disk disk inode (bytesOfWords s.free_map.bits) 0 0 (byte_cnt s.free_map.bit_cnt) := by
  have hfull : access_count inode (byte_cnt s.free_map.bit_cnt) 0 = byte_cnt s.free_map.bit_cnt := by
    have := h.fits
    unfold access_count
    omega
  have hdirect : in_direct_blocks inode (byte_cnt s.free_map.bit_cnt) 0 := by
    intro _
    rw [hfull, Nat.zero_add]
    exact h.direct
  obtain ⟨heap, disk, hw, heff⟩ := inode_write_at_spec s.heap s.disk inode (bytesOfWords s.free_map.bits)
    (byte_cnt s.free_map.bit_cnt) 0 h.layout h.writable hm hdirect
  rw [hfull] at hw heff
  refine ⟨heap, disk, ?_, (inode_write_at_heap hw).1, heff⟩
  simp [bitmap_write, file_write_at, h.found, hw]

theorem MapFrame.of_write {s : FsState} {file : File} {inode : Inode} (h : MapFileOk s file inode)
    (hfile : s.free_map_file = some file) (heap : Heap) (disk : Disk) (hheap : heap.ok = s.heap.ok)
    {buffer : Buffer} {n : Nat} (heff : WriteEffect s.disk disk inode buffer 0 0 n) :
    MapFrame s { s with heap, disk } := by
  have hidx := heff.index_sectors h.layout
  have hinode : ∀ f, s.free_map_file = some f → s.inode_at f.inode = some inode := by
    intro f hf
    rw [hfile] at hf
    cases hf
    exact h.found
  refine ⟨rfl, rfl, rfl, hheap, fun x hx => heff.frame x (fun p hp he => hx ?_),
    map_file_sector_transfer rfl rfl inode hinode hidx, ?_⟩
  · exact ⟨file, inode, hfile, h.found, p, hp, Or.inl he⟩
  · intro f hf
    rw [hfile] at hf
    cases hf
    exact ⟨inode, h.transfer rfl hidx rfl (fun _ hx => hx)⟩

/-- An allocation that finds its sectors claims them and, the free-map file being well placed
and `malloc` succeeding, keeps them. -/
theorem free_map_allocate_found {s : FsState} (hf : FreeMapFileOk s) (hok : ∀ k, s.heap.ok k = true)
    (cnt : Nat) (hne : Bitmap.scan s.free_map 0 cnt false ≠ BITMAP_ERROR) :
    ∃ s', free_map_allocate s cnt = some (s', some (Bitmap.scan s.free_map 0 cnt false)) ∧
      s'.free_map = (Bitmap.scan_and_flip s.free_map 0 cnt false).1 ∧ MapFrame s s' := by
  have hsf : bitmap_scan_and_flip s.free_map 0 cnt false =
      some ((Bitmap.scan_and_flip s.free_map 0 cnt false).1, Bitmap.scan s.free_map 0 cnt false) :=
    bitmap_scan_and_flip_of_le cnt false (Nat.zero_le _)
  obtain ⟨disk, heap, dev, free_map, free_map_file, open_inodes⟩ := s
  cases free_map_file with
  | none =>
    have hnone : ∀ (s : FsState), s.free_map_file = none → ∀ x, ¬ map_file_sector s x :=
      fun s hs x ⟨f, _, hf', _⟩ => by simp [hs] at hf'
    refine ⟨⟨disk, heap, dev, (Bitmap.scan_and_flip free_map 0 cnt false).1, none, open_inodes⟩, ?_, rfl,
      rfl, rfl, rfl, rfl, fun _ _ => rfl, fun x => ?_, fun f hf' => by simp at hf'⟩
    · simp only [free_map_allocate, hsf, ne_eq, if_pos hne]
    · exact ⟨fun h => absurd h (hnone _ rfl x), fun h => absurd h (hnone _ rfl x)⟩
  | some file =>
    obtain ⟨inode, hmf⟩ := hf file rfl
    let s₁ : FsState := ⟨disk, heap, dev, (Bitmap.scan_and_flip free_map 0 cnt false).1, some file, open_inodes⟩
    have hmf₁ : MapFileOk s₁ file inode :=
      hmf.transfer rfl (fun _ _ _ _ => rfl) (by simp [s₁])
        (fun x hx => Bitmap.scan_and_flip_keeps _ _ _ x hx)
    obtain ⟨heap', disk', hw, hheap, heff⟩ := bitmap_write_ok hmf₁ (hok _)
    have hframe := MapFrame.of_write hmf₁ rfl heap' disk' hheap heff
    have hw' : bitmap_write s₁ (Bitmap.scan_and_flip free_map 0 cnt false).1 file =
        some ({ s₁ with heap := heap', disk := disk' }, true) := hw
    refine ⟨{ s₁ with heap := heap', disk := disk' }, ?_, rfl, ?_⟩
    · simp only [free_map_allocate, hsf, ne_eq, if_pos hne]
      rw [hw']
    have hsec : ∀ x, map_file_sector s₁ x ↔
        map_file_sector ⟨disk, heap, dev, free_map, some file, open_inodes⟩ x := fun x => Iff.rfl
    exact ⟨hframe.inodes, hframe.file, hframe.device, hframe.heap_ok,
      fun x hx => hframe.outside x (fun h => hx ((hsec x).mp h)),
      fun x => (hframe.sectors x).trans (hsec x), hframe.file_ok⟩

/-- A write of a map changes the heap and the disk only, and what `malloc` will return not
at all. -/
theorem bitmap_write_state {s s' : FsState} {b : Bitmap} {file : File} {ok : Bool}
    (h : bitmap_write s b file = some (s', ok)) : ∃ heap disk, s' = { s with heap, disk } ∧ heap.ok = s.heap.ok := by
  simp only [bitmap_write, file_write_at] at h
  split at h
  · obtain ⟨⟨heap, disk, n⟩, hw, hr⟩ := Option.map_eq_some_iff.mp (Option.map_map _ _ _ ▸ h)
    cases hr
    exact ⟨heap, disk, rfl, (inode_write_at_heap hw).1⟩
  · cases h
    exact ⟨s.heap, s.disk, rfl, rfl⟩

/-- What a successful allocation can leave: a new heap, disk and map of the same size, and as
its result only the run the scan found. -/
theorem free_map_allocate_cases {s s' : FsState} {cnt : Nat} {r : Option Nat}
    (h : free_map_allocate s cnt = some (s', r)) :
    ∃ heap disk free_map, s' = { s with heap, disk, free_map } ∧ heap.ok = s.heap.ok ∧
      free_map.bit_cnt = s.free_map.bit_cnt ∧
      ∀ x, r = some x → x = Bitmap.scan s.free_map 0 cnt false ∧ x ≠ BITMAP_ERROR := by
  simp only [free_map_allocate] at h
  split at h
  · cases h
  · next free_map sector hsf =>
    have hcnt := bitmap_scan_and_flip_bit_cnt hsf
    have hsec : sector = Bitmap.scan s.free_map 0 cnt false :=
      congrArg Prod.snd ((bitmap_scan_and_flip_eq_some_iff _ _ _ _ _).mp hsf).2
    split at h
    · next hne =>
      split at h
      · split at h
        · cases h
        · next s₁ hw =>
          cases h
          obtain ⟨heap, disk, rfl, hheap⟩ := bitmap_write_state hw
          exact ⟨heap, disk, free_map, rfl, hheap, hcnt, fun x hx => by cases hx; exact ⟨hsec, hne⟩⟩
        · next s₁ hw =>
          obtain ⟨heap, disk, rfl, hheap⟩ := bitmap_write_state hw
          obtain ⟨free_map', hset, hr⟩ := Option.map_eq_some_iff.mp h
          cases hr
          exact ⟨heap, disk, free_map', rfl, hheap, (bitmap_set_multiple_bit_cnt hset).trans hcnt,
            fun x hx => by cases hx⟩
      · cases h
        exact ⟨s.heap, s.disk, free_map, rfl, rfl, hcnt, fun x hx => by cases hx; exact ⟨hsec, hne⟩⟩
    · cases h
      exact ⟨s.heap, s.disk, free_map, rfl, rfl, hcnt, fun x hx => by cases hx⟩

theorem free_map_allocate_some {s s' : FsState} {cnt x : Nat} (h : free_map_allocate s cnt = some (s', some x)) :
    x = Bitmap.scan s.free_map 0 cnt false ∧ x ≠ BITMAP_ERROR := by
  obtain ⟨-, -, -, -, -, -, hx⟩ := free_map_allocate_cases h
  exact hx x rfl

/-- A map whose bytes lie in the direct blocks is allocated from without a fault: the scan
starts inside the map, the write goes through, and a claim undone lies inside the map. -/
theorem free_map_allocate_ne_none (s : FsState) (cnt : Nat)
    (hdirect : byte_cnt s.free_map.bit_cnt ≤ DIRECT_BLOCK * BLOCK_SECTOR_SIZE) :
    free_map_allocate s cnt ≠ none := by
  have hsf : bitmap_scan_and_flip s.free_map 0 cnt false =
      some ((Bitmap.scan_and_flip s.free_map 0 cnt false).1, Bitmap.scan s.free_map 0 cnt false) :=
    bitmap_scan_and_flip_of_le cnt false (Nat.zero_le _)
  have hcnt := Bitmap.scan_and_flip_bit_cnt s.free_map 0 cnt false
  intro hnone
  simp only [free_map_allocate, hsf] at hnone
  split at hnone
  · next hne =>
    split at hnone
    · split at hnone
      · next hw => exact bitmap_write_ne_none _ _ _ (by rw [hcnt]; exact hdirect) hw
      · cases hnone
      · next s₁ hw =>
        obtain ⟨heap, disk, rfl, -⟩ := bitmap_write_state hw
        have hfit := (Bitmap.scan_found _ _ _ _ hne).2.1
        rw [Option.map_eq_none_iff, bitmap_set_multiple_of_le _ (by rw [hcnt]; exact hfit)] at hnone
        cases hnone
    · cases hnone
  · cases hnone

theorem bitmap_scan_and_claim (b : Bitmap) (start cnt : Nat) (v : Bool) (hstart : start ≤ b.bit_cnt) :
    bitmap_scan b start cnt v = some ((b.first_run start cnt v).getD BITMAP_ERROR) ∧
      (∃ b' idx, bitmap_scan_and_flip b start cnt v = some (b', idx) ∧
        idx = (b.first_run start cnt v).getD BITMAP_ERROR ∧
        (∀ j, Bitmap.bit b' j = if idx ≠ BITMAP_ERROR ∧ idx ≤ j ∧ j < idx + cnt then !v else Bitmap.bit b j) ∧
        (idx = BITMAP_ERROR → b' = b)) ∧
      (start + cnt ≤ b.bit_cnt →
        bitmap_count b start cnt v = some ((List.range' start cnt).filter (fun i => Bitmap.bit b i = v)).length) ∧
      (∀ (s s' : FsState) (sector : Nat), free_map_allocate s 1 = some (s', some sector) →
        Bitmap.bit s.free_map sector = false) ∧
      ∀ (p p' : Pool) (page_cnt pages : Nat), palloc_get_multiple p page_cnt = some (p', some pages) →
        ∃ page_idx, pages = p.base + PGSIZE * page_idx ∧ ∀ j < page_cnt, Bitmap.bit p.used_map (page_idx + j) = false := by
  have hscan := Bitmap.scan_eq_first_run b start cnt v
  refine ⟨by rw [bitmap_scan_of_start_le cnt v hstart, hscan], ?_, fun hle => ?_, ?_, ?_⟩
  · refine ⟨(b.scan_and_flip start cnt v).1, b.scan start cnt v, bitmap_scan_and_flip_of_le cnt v hstart, hscan,
      Bitmap.bit_scan_and_flip b start cnt v, Bitmap.scan_and_flip_error b start cnt v⟩
  · rw [bitmap_count_of_le v hle, Bitmap.count_eq_length]
  · intro s s' sector h
    obtain ⟨rfl, hne⟩ := free_map_allocate_some h
    exact (Bitmap.scan_found s.free_map 0 1 false hne).2.2.1 0 Nat.one_pos
  · intro p p' page_cnt pages h
    obtain ⟨-, -, -, -, -, page_idx, hpages, -, hfree, -⟩ := palloc_get_multiple_some h
    exact ⟨page_idx, hpages, hfree⟩

/-- A count that runs past the end of the map fails its `ASSERT`: four bits from bit 5 of an
8-bit map. -/
theorem bitmap_scan_and_claim_sample :
    bitmap_count { bit_cnt := 8, bits := fun _ => 0#32 } 2 6 false = some 6 := by
  rw [(bitmap_scan_and_claim { bit_cnt := 8, bits := fun _ => 0#32 } 2 6 false (by decide)).2.2.1 (by decide)]
  decide

theorem bitmap_count_past_end : bitmap_count { bit_cnt := 8, bits := fun _ => 0#32 } 5 4 false = none :=
  bitmap_count_of_lt false (by decide)

end Pintos
