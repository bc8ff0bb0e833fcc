import Pintos.Filesys.File

/-! # Directories (`filesys/directory.c`)

A directory is a file of 20-byte `struct dir_entry` records: the sector of the entry's inode
(little-endian), its name in `NAME_MAX + 1` bytes ending in a NUL, and an in-use byte.  A scan
reads one entry at a time with `inode_read_at` into the caller's 20-byte record and stops at the
first short read; since `inode_read_at` may stop on a failed `malloc` of its bounce buffer, so
may a scan.  A name is the byte string before its NUL.

`dir_add` writes the new entry over the first free slot, or at the end of the file, where
`inode_write_at` writes nothing (files do not grow), so a full directory refuses the entry.
-/

namespace Pintos
set_option autoImplicit false
set_option maxHeartbeats 250000
set_option maxRecDepth 120000

open LittleEndian

def NAME_MAX : Nat := 14

/-- `sizeof (struct dir_entry)` -/
def DIR_ENTRY_SIZE : Nat := 20

def entry_inode_sector (e : Buffer) : Nat := getU32 e 0

def entry_name (e : Buffer) : List UInt8 := cstr (fun k => e (4 + k)) (NAME_MAX + 1)

def entry_in_use (e : Buffer) : Bool := e 19 != 0

/-- `e.in_use = in_use` -/
def set_in_use (e : Buffer) (in_use : Bool) : Buffer := Function.update e 19 (if in_use then 1 else 0)

/-- `strlcpy (e.name, name, sizeof e.name)`: at most `NAME_MAX` bytes and a NUL; the bytes
after the NUL keep what the record held. -/
def set_name (e : Buffer) (name : List UInt8) : Buffer := fun i =>
  if 4 ≤ i ∧ i < 4 + min name.length NAME_MAX then name.getD (i - 4) 0
  else if i = 4 + min name.length NAME_MAX then 0 else e i

/-- `e.inode_sector = inode_sector` -/
def set_inode_sector (e : Buffer) (inode_sector : Nat) : Buffer := fun i =>
  if i < 4 then byteOf inode_sector i else e i

/-! ## Scans -/

/-- A full entry read at `ofs` lay inside the file, so a scan's measure goes down. -/
theorem entry_read_decreases {h h' : Heap} {d : Disk} {inode : Inode} {e e' : Buffer} {ofs : Nat}
    (hr : inode_read_at h d inode e DIR_ENTRY_SIZE ofs = some (h', e', (DIR_ENTRY_SIZE : Int))) :
    (inode_length inode - ↑(ofs + DIR_ENTRY_SIZE)).toNat < (inode_length inode - ↑ofs).toNat := by
  have hle := inode_read_at_le hr
  dsimp only at hle
  unfold access_count at hle
  simp only [DIR_ENTRY_SIZE] at hle ⊢
  omega

/-- The loop of `lookup`: from offset `ofs`, the first entry in use named `name`, with its
offset. -/
def lookup_loop (d : Disk) (inode : Inode) (name : List UInt8) (h : Heap) (e : Buffer) (ofs : Nat) :
    Option (Heap × Option (Buffer × Nat)) :=
  match _hr : inode_read_at h d inode e DIR_ENTRY_SIZE ofs with
  | none => none
  | some (h, e, bytes_read) =>
    if _hb : bytes_read = DIR_ENTRY_SIZE then
      if entry_in_use e && entry_name e == name then some (h, some (e, ofs))
      else lookup_loop d inode name h e (ofs + DIR_ENTRY_SIZE)
    else some (h, none)
termination_by (inode_length inode - ofs).toNat
decreasing_by
  rw [_hb] at _hr
  exact entry_read_decreases _hr

/-- `lookup (dir, name, &e, &ofs)`; the record starts out as zeros. -/
def lookup (h : Heap) (d : Disk) (inode : Inode) (name : List UInt8) : Option (Heap × Option (Buffer × Nat)) :=
  lookup_loop d inode name h (fun _ => 0) 0

/-- The loop of `dir_add` looking for a free slot: the record last read and the offset the
loop stops at. -/
def free_slot_loop (d : Disk) (inode : Inode) (h : Heap) (e : Buffer) (ofs : Nat) : Option (Heap × Buffer × Nat) :=
  match _hr : inode_read_at h d inode e DIR_ENTRY_SIZE ofs with
  | none => none
  | some (h, e, bytes_read) =>
    if _hb : bytes_read = DIR_ENTRY_SIZE then
      if !entry_in_use e then some (h, e, ofs)
      else free_slot_loop d inode h e (ofs + DIR_ENTRY_SIZE)
    else some (h, e, ofs)
termination_by (inode_length inode - ofs).toNat
decreasing_by
  rw [_hb] at _hr
  exact entry_read_decreases _hr

/-- The loop of `dir_readdir`: from `pos`, the first entry in use, its name as `strlcpy` copies
it into the caller's `NAME_MAX + 1` bytes, and the position past that entry. -/
def readdir_loop (d : Disk) (inode : Inode) (h : Heap) (e : Buffer) (pos : Nat) :
    Option (Heap × Nat × Option (List UInt8)) :=
  match _hr : inode_read_at h d inode e DIR_ENTRY_SIZE pos with
  | none => none
  | some (h, e, bytes_read) =>
    if _hb : bytes_read = DIR_ENTRY_SIZE then
      if entry_in_use e then some (h, pos + DIR_ENTRY_SIZE, some ((entry_name e).take NAME_MAX))
      else readdir_loop d inode h e (pos + DIR_ENTRY_SIZE)
    else some (h, pos, none)
termination_by (inode_length inode - pos).toNat
decreasing_by
  rw [_hb] at _hr
  exact entry_read_decreases _hr

/-! ## The operations -/

/-- `dir_lookup (dir, name, &inode)`: the inode of the entry, opened. -/
def dir_lookup (s : FsState) (dir : Dir) (name : List UInt8) : Option (FsState × Option Nat) :=
  match s.inode_at dir.inode with
  | some inode =>
    match lookup s.heap s.disk inode name with
    | none => none
    | some (heap, some (e, _)) => some (inode_open { s with heap } (entry_inode_sector e))
    | some (heap, none) => some ({ s with heap }, none)
  | none => some (s, none)

def dir_add (s : FsState) (dir : Dir) (name : List UInt8) (inode_sector : Nat) : Option (FsState × Bool) :=
  if name = [] ∨ name.length > NAME_MAX then some (s, false)
  else
    match s.inode_at dir.inode with
    | some inode =>
      match lookup s.heap s.disk inode name with
      | none => none
      | some (heap, some _) => some ({ s with heap }, false)
      | some (heap, none) =>
        match free_slot_loop s.disk inode heap (fun _ => 0) 0 with
        | none => none
        | some (heap, e, ofs) =>
          let e := set_inode_sector (set_name (set_in_use e true) name) inode_sector
          (inode_write_at heap s.disk inode e DIR_ENTRY_SIZE ofs).map fun (heap, disk, bytes_written) =>
            ({ s with heap, disk }, bytes_written == DIR_ENTRY_SIZE)
    | none => some (s, false)

/-- `dir_remove (dir, name)`; `none` when the final `inode_close` fails an `ASSERT` or a call
faults. -/
def dir_remove (s : FsState) (dir : Dir) (name : List UInt8) : Option (FsState × Bool) :=
  match s.inode_at dir.inode with
  | some dinode =>
    match lookup s.heap s.disk dinode name with
    | none => none
    | some (heap, some (e, ofs)) =>
      match inode_open { s with heap } (entry_inode_sector e) with
      | (s, some inode) =>
        -- erase the entry through the directory's inode as it is now
        match file_write_at s ⟨dir.inode, 0, false⟩ (set_in_use e false) DIR_ENTRY_SIZE ofs with
        | none => none
        | some (s, bytes_written) =>
          if bytes_written ≠ DIR_ENTRY_SIZE then (inode_close s (some inode)).map (fun s => (s, false))
          else (inode_close (inode_remove s inode) (some inode)).map (fun s => (s, true))
      | (s, none) => some (s, false)
    | some (heap, none) => some ({ s with heap }, false)
  | none => some (s, false)

/-- `dir_readdir (dir, name)`: the name, `none` for `false`, and the directory with its
position moved. -/
def dir_readdir (s : FsState) (dir : Dir) : Option (FsState × Dir × Option (List UInt8)) :=
  match s.inode_at dir.inode with
  | some inode =>
    (readdir_loop s.disk inode s.heap (fun _ => 0) dir.pos.toNat).map fun (heap, pos, name) =>
      ({ s with heap }, { dir with pos := pos }, name)
  | none => some (s, dir, none)

/-- The loop of `fsutil_ls`: `dir_readdir` until it returns false, with the names it prints.
`fuel` bounds the number of calls. -/
def fsutil_ls_loop (s : FsState) (dir : Dir) : Nat → Option (List (List UInt8))
  | 0 => some []
  | fuel + 1 =>
    match dir_readdir s dir with
    | none => none
    | some (s, dir, some name) => (fsutil_ls_loop s dir fuel).map (name :: ·)
    | some (_, _, none) => some []

/-- `dir_create (sector, entry_cnt)`: `entry_cnt * sizeof (struct dir_entry)` as `off_t`. -/
def dir_create (s : FsState) (sector entry_cnt : Nat) : Option (FsState × Bool) :=
  inode_create s sector (wrapInt32 (entry_cnt * DIR_ENTRY_SIZE))

def dir_open_root (s : FsState) : Option (FsState × Option Dir) :=
  let (s, inode) := inode_open s ROOT_DIR_SECTOR
  dir_open s inode

theorem dir_add_invalid_name (s : FsState) (dir : Dir) (name : List UInt8) (inode_sector : Nat)
    (h : name = [] ∨ name.length > NAME_MAX) : dir_add s dir name inode_sector = some (s, false) := by
  unfold dir_add
  rw [if_pos h]

theorem dir_add_found {s : FsState} {dir : Dir} {inode : Inode} {name : List UInt8} {heap : Heap}
    {r : Buffer × Nat} (sector : Nat) (hv : ¬(name = [] ∨ name.length > NAME_MAX))
    (hdir : s.inode_at dir.inode = some inode) (hlk : lookup s.heap s.disk inode name = some (heap, some r)) :
    dir_add s dir name sector = some ({ s with heap }, false) := by
  simp only [dir_add, if_neg hv, hdir, hlk]

theorem dir_add_written {s : FsState} {dir : Dir} {inode : Inode} {name : List UInt8} {heap heap₂ heap₃ : Heap}
    {e : Buffer} {ofs : Nat} {disk : Disk} {bytes_written : Int} {sector : Nat}
    (hv : ¬(name = [] ∨ name.length > NAME_MAX)) (hdir : s.inode_at dir.inode = some inode)
    (hlk : lookup s.heap s.disk inode name = some (heap, none))
    (hfl : free_slot_loop s.disk inode heap (fun _ => 0) 0 = some (heap₂, e, ofs))
    (hw : inode_write_at heap₂ s.disk inode (set_inode_sector (set_name (set_in_use e true) name) sector)
      DIR_ENTRY_SIZE ofs = some (heap₃, disk, bytes_written)) :
    dir_add s dir name sector = some ({ s with heap := heap₃, disk }, bytes_written == DIR_ENTRY_SIZE) := by
  simp only [dir_add, if_neg hv, hdir, hlk, hfl, hw, Option.map_some]

theorem dir_remove_absent {s : FsState} {dir : Dir} {inode : Inode} {name : List UInt8} {heap : Heap}
    (hdir : s.inode_at dir.inode = some inode) (hlk : lookup s.heap s.disk inode name = some (heap, none)) :
    dir_remove s dir name = some ({ s with heap }, false) := by
  simp only [dir_remove, hdir, hlk]

/-- A name the directory holds: its entry is erased through the directory's inode, then the
inode it names is marked removed and closed. -/
theorem dir_remove_erased {s s₁ s₂ : FsState} {dir : Dir} {inode : Inode} {name : List UInt8} {heap : Heap}
    {e : Buffer} {ofs a : Nat} (hdir : s.inode_at dir.inode = some inode)
    (hlk : lookup s.heap s.disk inode name = some (heap, some (e, ofs)))
    (ho : inode_open { s with heap } (entry_inode_sector e) = (s₁, some a))
    (hw : file_write_at s₁ ⟨dir.inode, 0, false⟩ (set_in_use e false) DIR_ENTRY_SIZE ofs =
      some (s₂, (DIR_ENTRY_SIZE : Int))) :
    dir_remove s dir name = (inode_close (inode_remove s₂ a) (some a)).map (fun s => (s, true)) := by
  simp only [dir_remove, hdir, hlk, ho, hw, ne_eq, not_true_eq_false, if_false]

theorem dir_open_root_free_map {s s₁ : FsState} {d : Dir} (h : dir_open_root s = some (s₁, some d)) :
    s₁.free_map = s.free_map := by
  unfold dir_open_root at h
  rcases ho : inode_open s ROOT_DIR_SECTOR with ⟨s₀, inode⟩
  have h₀ := inode_open_free_map s ROOT_DIR_SECTOR
  rw [ho] at h h₀
  rw [open_handle_free_map _ _ _ h, ← h₀]

theorem dir_readdir_of_loop {s : FsState} {dir : Dir} {inode : Inode} {heap : Heap} {pos : Nat}
    {name : Option (List UInt8)} (hdir : s.inode_at dir.inode = some inode)
    (hr : readdir_loop s.disk inode s.heap (fun _ => 0) dir.pos.toNat = some (heap, pos, name)) :
    dir_readdir s dir = some ({ s with heap }, { dir with pos := pos }, name) := by
  simp only [dir_readdir, hdir, hr, Option.map_some]

end Pintos
