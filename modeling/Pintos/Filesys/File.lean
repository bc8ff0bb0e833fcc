import Pintos.Filesys.InodeOpen

/-! # Open files (`filesys/file.c`) and open directories (`filesys/directory.c`, lines 33-84)

A `struct file` or `struct dir` is a `calloc`ed block holding one reference to an open inode.
`file_open` and `dir_open` take over the reference they are given; when the block cannot be
allocated they close it, so a failed open leaves the open-inode table as it was before the
reference was taken.  The two are one function, `open_handle`, applied to the record each
builds; `file_reopen` and `dir_reopen` are `inode_reopen` followed by it.

The handle records are values here: the caller holds the record, and a call that changes it
(`file_deny_write`, `file_read`, ...) returns the new one.  The inode they share is named by
its block and lives in `FsState.open_inodes`.
-/

namespace Pintos
set_option autoImplicit false
set_option maxHeartbeats 250000
set_option maxRecDepth 120000

/-- `struct dir`: its inode (by the inode's block) and position. -/
structure Dir where
  inode : Nat
  pos : Int

/-- `calloc` a block for a handle on `inode`, or close `inode` and return a null pointer.
`none`: an `ASSERT` of `inode_close` failed. -/
def open_handle {H : Type} (mk : Nat → H) (s : FsState) (inode : Option Nat) :
    Option (FsState × Option H) :=
  let (block, heap) := s.heap.malloc
  let s := { s with heap }
  match inode, block with
  | some inode, some _ => some (s, some (mk inode))
  | _, _ => (inode_close s inode).map (fun s => (s, none))

def file_open (s : FsState) (inode : Option Nat) : Option (FsState × Option File) :=
  open_handle (fun inode => { inode, pos := 0, deny_write := false }) s inode

def dir_open (s : FsState) (inode : Option Nat) : Option (FsState × Option Dir) :=
  open_handle (fun inode => { inode, pos := 0 }) s inode

def file_reopen (s : FsState) (file : File) : Option (FsState × Option File) :=
  let (s, inode) := inode_reopen s (some file.inode)
  file_open s inode

def dir_reopen (s : FsState) (dir : Dir) : Option (FsState × Option Dir) :=
  let (s, inode) := inode_reopen s (some dir.inode)
  dir_open s inode

def file_deny_write (s : FsState) (file : File) : Option (FsState × File) :=
  if !file.deny_write then
    (inode_deny_write s file.inode).map (fun s => (s, { file with deny_write := true }))
  else some (s, file)

def file_allow_write (s : FsState) (file : File) : Option (FsState × File) :=
  if file.deny_write then
    (inode_allow_write s file.inode).map (fun s => (s, { file with deny_write := false }))
  else some (s, file)

def file_close (s : FsState) (file : Option File) : Option FsState :=
  match file with
  | some file =>
    match file_allow_write s file with
    | some (s, file) => inode_close s (some file.inode)
    | none => none
  | none => some s

def dir_close (s : FsState) (dir : Option Dir) : Option FsState :=
  match dir with
  | some dir => inode_close s (some dir.inode)
  | none => some s

theorem open_handle_free_map {H : Type} (mk : Nat → H) (s : FsState) (inode : Option Nat) {s' : FsState} {h : H}
    (hs : open_handle mk s inode = some (s', some h)) : s'.free_map = s.free_map := by
  unfold open_handle at hs
  rcases hm : s.heap.malloc with ⟨block, heap⟩
  rw [hm] at hs
  cases inode with
  | none => simp at hs
  | some inode =>
    cases block with
    | none => simp at hs
    | some _ =>
      simp only [Option.some.injEq, Prod.mk.injEq] at hs
      rw [← hs.1]

theorem open_handle_ok {H : Type} (mk : Nat → H) (s : FsState) (inode : Nat) (hok : s.heap.ok s.heap.calls = true) :
    open_handle mk s (some inode) = some ({ s with heap := { s.heap with calls := s.heap.calls + 1 } }, some (mk inode)) := by
  simp only [open_handle, Heap.malloc_of_ok _ hok]

theorem open_handle_fail {H : Type} (mk : Nat → H) (s : FsState) (inode : Nat) (hok : s.heap.ok s.heap.calls = false) :
    open_handle mk s (some inode) =
      (inode_close { s with heap := { s.heap with calls := s.heap.calls + 1 } } (some inode)).map (fun s => (s, none)) := by
  simp only [open_handle, Heap.malloc, hok]
  rfl

/-! ## Reading, writing and moving -/

/-- `file_read (file, buffer, size)`.  `file_seek` keeps the position non-negative. -/
def file_read (s : FsState) (file : File) (buffer : Buffer) (size : Int) :
    Option (FsState × File × Buffer × Int) :=
  (file_read_at s file buffer size file.pos.toNat).map fun (s, buffer, bytes_read) =>
    (s, { file with pos := file.pos + bytes_read }, buffer, bytes_read)

def file_write (s : FsState) (file : File) (buffer : Buffer) (size : Int) : Option (FsState × File × Int) :=
  (file_write_at s file buffer size file.pos.toNat).map fun (s, bytes_written) =>
    (s, { file with pos := file.pos + bytes_written }, bytes_written)

theorem file_read_inode {s : FsState} {file : File} {buffer : Buffer} {size : Int}
    {r : FsState × File × Buffer × Int} (h : file_read s file buffer size = some r) : r.2.1.inode = file.inode := by
  obtain ⟨_, -, rfl⟩ := Option.map_eq_some_iff.mp h
  rfl

theorem file_write_inode {s : FsState} {file : File} {buffer : Buffer} {size : Int}
    {r : FsState × File × Int} (h : file_write s file buffer size = some r) : r.2.1.inode = file.inode := by
  obtain ⟨_, -, rfl⟩ := Option.map_eq_some_iff.mp h
  rfl

/-- `file_seek (file, new_pos)`; `none` when `ASSERT (new_pos >= 0)` fails. -/
def file_seek (file : File) (new_pos : Int) : Option File :=
  if new_pos ≥ 0 then some { file with pos := new_pos } else none

def file_tell (file : File) : Int := file.pos

/-- `file_length (file)`; `none` for a file whose inode is not open. -/
def file_length (s : FsState) (file : File) : Option Int :=
  (s.inode_at file.inode).map inode_length

end Pintos
