import Pintos.Filesys.Directory

/-! # Named files in the root directory (`filesys/filesys.c`)

Each call opens the root directory, works on it and closes it again.  `filesys_create` claims a
sector for the inode, creates the inode and adds the entry, and gives the sector back when a
later step fails; `filesys_open` hands the inode the entry names to `file_open`, which takes
over the reference (or closes it when its `calloc` fails); `filesys_remove` erases the entry
and marks the inode removed, so that its last close frees its sectors.

`none` is a kernel panic on the way (an `ASSERT` of `inode_create` or `inode_close`, or a
fault past the direct blocks).
-/

namespace Pintos
set_option autoImplicit false
set_option maxHeartbeats 250000
set_option maxRecDepth 120000

def filesys_create (s : FsState) (name : List UInt8) (initial_size : Int) : Option (FsState × Bool) :=
  match dir_open_root s with
  | some (s, dir) =>
    -- `dir != NULL && free_map_allocate (...) && inode_create (...) && dir_add (...)`, with
    -- the sector `inode_sector` holds when the conjunction stops
    let attempt : Option (FsState × Nat × Bool) :=
      match dir with
      | some d =>
        match free_map_allocate s 1 with
        | some (s, some inode_sector) =>
          match inode_create s inode_sector initial_size with
          | some (s, true) => (dir_add s d name inode_sector).map fun (s, added) => (s, inode_sector, added)
          | some (s, false) => some (s, inode_sector, false)
          | none => none
        | some (s, none) => some (s, 0, false)
        | none => none
      | none => some (s, 0, false)
    match attempt with
    | some (s, inode_sector, success) =>
      let released := if !success && inode_sector != 0 then free_map_release s inode_sector 1 else some s
      match released with
      | some s => (dir_close s dir).map (fun s => (s, success))
      | none => none
    | none => none
  | none => none

def filesys_open (s : FsState) (name : List UInt8) : Option (FsState × Option File) :=
  match dir_open_root s with
  | some (s, dir) =>
    let looked : Option (FsState × Option Nat) :=
      match dir with
      | some d => dir_lookup s d name
      | none => some (s, none)
    match looked with
    | some (s, inode) =>
      match dir_close s dir with
      | some s => file_open s inode
      | none => none
    | none => none
  | none => none

def filesys_remove (s : FsState) (name : List UInt8) : Option (FsState × Bool) :=
  match dir_open_root s with
  | some (s, dir) =>
    let removed :=
      match dir with
      | some d => dir_remove s d name
      | none => some (s, false)
    match removed with
    | some (s, success) => (dir_close s dir).map (fun s => (s, success))
    | none => none
  | none => none

/-- `ASSERT (length >= 0)` of `inode_create`: a negative size panics once the root directory
is open and a sector is claimed for the inode. -/
theorem filesys_create_negative (s : FsState) (name : List UInt8) (initial_size : Int)
    (hneg : initial_size < 0) {s₁ s₂ : FsState} {d : Dir} {sector : Nat}
    (hroot : dir_open_root s = some (s₁, some d)) (halloc : free_map_allocate s₁ 1 = some (s₂, some sector)) :
    filesys_create s name initial_size = none := by
  simp only [filesys_create, hroot, halloc, inode_create, if_pos hneg]

/-- The claim of the inode's sector keeps `inode_create`'s premises, with one free sector
fewer. -/
theorem free_map_allocate_first {s : FsState} (hf : FreeMapFileOk s) (hok : ∀ k, s.heap.ok k = true)
    (hdev : s.fs_device_size = s.free_map.bit_cnt) (hlim : s.free_map.bit_cnt ≤ BITMAP_ERROR)
    {T : Nat} (hroom : T + 2 ≤ free_cnt s.free_map) :
    ∃ s₂, free_map_allocate s 1 = some (s₂, some (alloc_pos s.free_map 0)) ∧
      s₂.free_map = alloc_map s.free_map 1 ∧ MapFrame s s₂ ∧
      s₂.fs_device_size = s₂.free_map.bit_cnt ∧ s₂.free_map.bit_cnt ≤ BITMAP_ERROR ∧
      (∀ k, s₂.heap.ok k = true) ∧ T + 1 ≤ free_cnt s₂.free_map := by
  obtain ⟨hne, -, -⟩ := alloc_pos_clear s.free_map hlim 0 (by
    have := (alloc_map_spec s.free_map hlim 0 (Nat.zero_le _)).1
    simp only [alloc_map] at this ⊢
    omega)
  obtain ⟨s₂, halloc, hmap₂, hframe⟩ := free_map_allocate_found hf hok 1 hne
  have hmap₂' : s₂.free_map = alloc_map s.free_map 1 := hmap₂
  refine ⟨s₂, halloc, hmap₂', hframe, ?_, ?_, fun k => ?_, ?_⟩
  · rw [hframe.device, hdev, hmap₂', alloc_map_bit_cnt]
  · rw [hmap₂', alloc_map_bit_cnt]
    exact hlim
  · rw [hframe.heap_ok]
    exact hok k
  · have := (alloc_map_spec s.free_map hlim 1 (by omega)).1
    simp only [free_cnt, hmap₂', alloc_map_bit_cnt]
    omega

/-- A name `dir_add` refuses, given after `inode_create` has claimed the file's sectors: the
call returns `false` and gives back only the inode's sector, so the sector claimed for the
first data block (the call's second claim) stays marked used. -/
theorem filesys_create_leaks_data_sector (s : FsState) (name : List UInt8) (initial_size : Int)
    {s₁ : FsState} {d : Dir} {root : Inode} {file : File}
    (hroot : dir_open_root s = some (s₁, some d)) (hroot_inode : s₁.inode_at d.inode = some root)
    (hroot_kept : root.removed = false) (hmap0 : Bitmap.bit s.free_map FREE_MAP_SECTOR = true)
    (hf : FreeMapFileOk s₁) (hfile : s₁.free_map_file = some file) (hok : ∀ k, s₁.heap.ok k = true)
    (hdev : s₁.fs_device_size = s₁.free_map.bit_cnt) (hlim : s₁.free_map.bit_cnt ≤ BITMAP_ERROR)
    (hlong : NAME_MAX < name.length) (hpos : 0 < initial_size) (hlen' : initial_size + 511 < 2 ^ 31)
    (hmax : compute_total_sectors (bytes_to_sectors initial_size) ≤ MAX_BLOCK_NUMBER)
    (hroom : compute_total_sectors (bytes_to_sectors initial_size) + 2 ≤ free_cnt s₁.free_map) :
    ∃ s', filesys_create s name initial_size = some (s', false) ∧
      Bitmap.bit s.free_map (alloc_pos s.free_map 1) = false ∧
      Bitmap.bit s'.free_map (alloc_pos s.free_map 1) = true := by
  obtain ⟨T, hT⟩ : ∃ T, compute_total_sectors (bytes_to_sectors initial_size) = T := ⟨_, rfl⟩
  rw [hT] at hmax hroom
  have hb : s₁.free_map = s.free_map := dir_open_root_free_map hroot
  rw [← hb] at hmap0 ⊢
  set b := s₁.free_map with hb_def
  have hcnt : T + 2 ≤ free_cnt b := hroom
  have hT1 : 0 < T := by
    have hn := bytes_to_sectors_eq initial_size (by omega) hlen'
    have hle := le_compute_total_sectors (bytes_to_sectors initial_size) (by omega)
    omega
  obtain ⟨s₂, halloc, hmap₂', hframe, hdev₂, hlim₂, hok₂, hfree₂⟩ := free_map_allocate_first hf hok hdev hlim hcnt
  rw [← hb_def] at halloc hmap₂'
  obtain ⟨-, hset₁⟩ := alloc_map_spec b hlim 1 (by omega)
  have hsector : Bitmap.bit s₂.free_map (alloc_pos b 0) = true := by
    rw [hmap₂', hset₁]
    exact Or.inr ⟨0, Nat.one_pos, rfl⟩
  obtain ⟨-, hclear₀, -⟩ := alloc_pos_fresh b hlim 0 (by omega)
  obtain ⟨-, hclear₁, hdiff⟩ := alloc_pos_fresh b hlim 1 (by omega)
  have hsec0 : alloc_pos b 0 ≠ 0 := fun he => by
    rw [he] at hclear₀
    rw [FREE_MAP_SECTOR, hclear₀] at hmap0
    contradiction
  obtain ⟨s₃, hc, -⟩ := inode_create_spec s₂ (Bitmap.scan b 0 1 false) initial_size T hT (by omega)
    hframe.file_ok hok₂ hdev₂ hlim₂ hsector hmax hfree₂
  obtain ⟨s_w, hs₃, hmap_w, hfile_w, hinodes_w, -⟩ := inode_create_outcome s₂ (Bitmap.scan b 0 1 false)
    initial_size T hT (by omega) hframe.file_ok hok₂ hdev₂ hlim₂ hmax hfree₂ hc
  have hmap₃ : s₃.free_map = alloc_map s₂.free_map T := by rw [hs₃]; exact hmap_w
  have hfile₃ : s₃.free_map_file = some file := by rw [hs₃, ← hfile]; exact hfile_w.trans hframe.file
  have hinodes₃ : s₃.open_inodes = s₁.open_inodes := by rw [hs₃]; exact hinodes_w.trans hframe.inodes
  have hadd := dir_add_invalid_name s₃ d name (Bitmap.scan b 0 1 false) (Or.inr hlong)
  have hT_cnt : T ≤ free_cnt s₂.free_map := by omega
  have htest₃ : bitmap_test s₃.free_map (alloc_pos b 0) = some true := by
    have hlt := (alloc_pos_fresh b hlim 0 (by omega)).1
    refine (bitmap_test_eq_some_iff _ _ _).mpr ⟨by rw [hmap₃, alloc_map_bit_cnt, hmap₂', alloc_map_bit_cnt]; exact hlt, ?_⟩
    rw [hmap₃]
    exact ((alloc_map_spec s₂.free_map hlim₂ T hT_cnt).2 _).mpr (Or.inl hsector)
  -- the free map lies in the direct blocks of its file, so its write does not fault
  have hdirect₃ : byte_cnt s₃.free_map.bit_cnt ≤ DIRECT_BLOCK * BLOCK_SECTOR_SIZE := by
    obtain ⟨_, hmf⟩ := hf file hfile
    rw [hmap₃, alloc_map_bit_cnt, hmap₂', alloc_map_bit_cnt]
    exact hmf.direct
  obtain ⟨heap, disk, hrel⟩ := free_map_release_used s₃ (alloc_pos b 0) file hfile₃ hdirect₃ htest₃
  have hroot₄ : ({ s₃ with free_map := Bitmap.set_multiple s₃.free_map (alloc_pos b 0) 1 false, heap, disk } :
      FsState).inode_at d.inode = some root :=
    (inode_at_congr hinodes₃ d.inode).trans hroot_inode
  obtain ⟨s₅, hclose, hmap₅⟩ := inode_close_kept hroot₄ hroot_kept
  refine ⟨s₅, ?_, hclear₁, ?_⟩
  · -- the run of the call: the claim, `inode_create`, the refused name, one release, the close
    have hpos0 : Bitmap.scan b 0 1 false = alloc_pos b 0 := rfl
    rw [hpos0] at hc hadd
    simp only [filesys_create, hroot, halloc, hc, hadd, Option.map_some]
    simp only [Bool.not_false, Bool.true_and, bne_iff_ne, ne_eq, hsec0, not_false_eq_true, if_true, hrel]
    simp only [dir_close, hclose, Option.map_some]
  · -- the data sector, the call's second claim, is the first claim of `inode_create`
    have hx : alloc_pos b 1 = alloc_pos s₂.free_map 0 := by
      simp only [alloc_pos, alloc_map, hmap₂']
    rw [hmap₅]
    dsimp only
    rw [Bitmap.bit_set_multiple, if_neg (by have := hdiff 0 Nat.one_pos; omega), hmap₃, hx]
    exact ((alloc_map_spec s₂.free_map hlim₂ T hT_cnt).2 _).mpr (Or.inr ⟨0, hT1, rfl⟩)

/-- The free-map file's inode: block `7`, at sector `0`, its 28 bytes of map in sector `2`. -/
def map_inode_sample : Inode where
  addr := 7
  sector := 0
  open_cnt := 1
  removed := false
  deny_write_cnt := 0
  data := { InodeDisk.zero with sectors := fun k => 2 + k.val, length := 28, magic := INODE_MAGIC }

/-- The root directory's inode: block `9`, at sector `1`. -/
def root_inode_sample : Inode where
  addr := 9
  sector := 1
  open_cnt := 1
  removed := false
  deny_write_cnt := 0
  data := { InodeDisk.zero with length := 320, magic := INODE_MAGIC }

/-- A 200-sector device after formatting: sectors `0` to `2` used, the free-map file and the
root directory open. -/
def create_sample : FsState where
  disk := fun _ _ => 0
  heap := { ok := fun _ => true, calls := 10 }
  fs_device_size := 200
  free_map := { bit_cnt := 200, bits := fun w => if w = 0 then 7#32 else 0#32 }
  free_map_file := some { inode := 7, pos := 0, deny_write := false }
  open_inodes := [map_inode_sample, root_inode_sample]

/-- `create_sample` once `dir_open_root` has opened the root directory again. -/
def create_sample_root_open : FsState :=
  { create_sample with
    heap := { ok := fun _ => true, calls := 11 }
    open_inodes := [map_inode_sample, { root_inode_sample with open_cnt := 2 }] }

theorem filesys_create_leaks_data_sector_sample :
    ∃ s', filesys_create create_sample (List.replicate 15 97) 1 = some (s', false) ∧
      Bitmap.bit create_sample.free_map 4 = false ∧ Bitmap.bit s'.free_map 4 = true := by
  have hmap : FreeMapFileOk create_sample_root_open := fun file hfile => by
    cases hfile
    refine ⟨map_inode_sample, rfl, LayoutOk.of_direct _ _ (by decide)
      (fun j k he => Fin.ext (by simpa [map_inode_sample] using he)), rfl, by decide, by decide, ?_⟩
    rintro x ⟨p, hp, hx | hx⟩
    · have hp' : (p : Int) < 28 := hp
      have hblock : p / BLOCK_SECTOR_SIZE = 0 := by
        simp only [BLOCK_SECTOR_SIZE]
        omega
      rw [index_sector_direct _ _ p hp (by rw [hblock]; decide)] at hx
      simp only [map_inode_sample, InodeDisk.zero, hblock] at hx
      rw [← hx]
      decide
    · have hp' : (p : Int) < 28 := hp
      have := hx.1
      simp only [DIRECT_BLOCK, BLOCK_SECTOR_SIZE] at this
      omega
  have h4 : alloc_pos create_sample.free_map 1 = 4 := by decide
  rw [← h4]
  exact filesys_create_leaks_data_sector create_sample (List.replicate 15 97) 1
    (show dir_open_root create_sample = some (create_sample_root_open, some ⟨9, 0⟩) from rfl) rfl rfl
    (by decide) hmap rfl (fun _ => rfl) rfl (by decide) (by decide) (by decide) (by decide) (by decide)
    (by decide)

end Pintos
