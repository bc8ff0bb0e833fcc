import Pintos.Filesys.Filesys
import Pintos.Userprog.UserMemory
import Pintos.Lib.KeyedList
import Mathlib.Data.List.Nodup

/-! # The file system calls of `syscall_handler` (`userprog/syscall.c`, lines 86-270)

A process keeps its open files in `file_list`, one `struct file_node` per descriptor, and hands
out descriptors from the counter `fd_index`, which starts at 2 and grows by one at each
successful `SYS_OPEN`.  Every handler takes an fd in `2 <= fd < fd_index` for an open one and
looks its node up with `get_file_node`; `SYS_CLOSE` drops the node but leaves `fd_index` as it
is, so a closed fd still passes the range test, `get_file_node` returns a null pointer, and
`get_file_node (fd)->file` is a page fault in the kernel.

`fs_call` is one of these cases with its arguments fetched from the user stack: the new state
and the value stored in `f->eax` (`none` where the case stores nothing).  Pointer arguments
are user addresses; the bytes behind them are read and written through `AddrSpace`.
-/

namespace Pintos
set_option autoImplicit false
set_option maxHeartbeats 250000
set_option maxRecDepth 120000

def INT_MAX : Int := 2 ^ 31 - 1

/-- `struct file_node` -/
structure FileNode where
  fd : Int
  file : File

/-- The fields of the current `struct thread` that the system calls use. -/
structure Process where
  fd_index : Int
  file_list : List FileNode
  return_status : Int

/-- What `init_thread` sets: no open file, the next fd 2, exit status -1. -/
def Process.init : Process := { fd_index := 2, file_list := [], return_status := -1 }

/-- `get_file_node (fd)`: the first node of `file_list` with `fd`. -/
def get_file_node (t : Process) (fd : Int) : Option FileNode :=
  t.file_list.find? (fun n => n.fd == fd)

/-- The node `get_file_node (fd)` finds, after its `struct file` changed in place. -/
def set_file (t : Process) (fd : Int) (file : File) : Process :=
  { t with file_list := t.file_list.replaceF (fun n => if n.fd = fd then some { n with file } else none) }

/-- `list_remove (&f_node->file_elem)` for the node `get_file_node (fd)` finds. -/
def remove_file_node (t : Process) (fd : Int) : Process :=
  { t with file_list := t.file_list.eraseP (fun n => n.fd == fd) }

/-- A successful `SYS_OPEN`: the node gets `fd_index`, which grows by one as an `int`. -/
def push_file_node (t : Process) (file : File) : Process :=
  { t with fd_index := wrapInt32 (t.fd_index + 1), file_list := ⟨t.fd_index, file⟩ :: t.file_list }

/-- The kernel state one system call of the current process sees. -/
structure Machine where
  fs : FsState
  cur : Process
  as : AddrSpace
  console : List UInt8

/-- A file system call with its arguments.  A word the case reads with `get_arg` only on some
of its paths is the outcome of that read, `none` for a fault; the case uses it where the
source calls `get_arg`. -/
inductive FsCall where
  | create (name : Nat) (initial_size : Int)
  | remove (name : Nat)
  | open_ (name : Nat)
  | filesize (fd : Int)
  | read (fd : Int) (buffer : Nat) (size : Option Int)
  | write (fd : Int) (buffer : Nat) (size : Option Int)
  | seek (fd : Int) (position : Option Int)
  | tell (fd : Int)
  | close (fd : Int)

/-- The cases `SYS_CREATE` .. `SYS_CLOSE` of `syscall_handler` after their argument checks:
the new state and the value stored in `f->eax`; `none` is a kernel panic. -/
def fs_call (m : Machine) : FsCall → Option (Machine × Option Int)
  | .create name initial_size => do
    let name ← m.as.load_cstr name
    let (fs, success) ← filesys_create m.fs name initial_size
    pure ({ m with fs }, some (if success then 1 else 0))
  | .remove name => do
    let name ← m.as.load_cstr name
    let (fs, success) ← filesys_remove m.fs name
    pure ({ m with fs }, some (if success then 1 else 0))
  | .open_ name =>
    -- `f_node = calloc (1, sizeof (struct file_node)); ASSERT (f_node != NULL)`
    match m.fs.heap.malloc with
    | (none, _) => none
    | (some _, heap) => do
      let name ← m.as.load_cstr name
      match ← filesys_open { m.fs with heap } name with
      | (fs, none) => pure ({ m with fs }, some (-1))
      | (fs, some file) => pure ({ m with fs, cur := push_file_node m.cur file }, some m.cur.fd_index)
  | .filesize fd => do
    -- `ASSERT (f_node != NULL)`
    let node ← get_file_node m.cur fd
    let length ← file_length m.fs node.file
    pure (m, some length)
  | .read fd buffer size =>
    if fd = 0 then some (m, none)
    else if 2 ≤ fd ∧ fd < m.cur.fd_index then do
      let node ← get_file_node m.cur fd
      let size ← size
      let (fs, file, data, bytes_read) ← file_read m.fs node.file (m.as.view buffer) size
      -- `file_read` copies the bytes it read into the user's buffer
      let as ← m.as.store_range buffer data bytes_read.toNat
      pure ({ m with fs, as, cur := set_file m.cur fd file }, some bytes_read)
    else some (m, some (-1))
  | .write fd buffer size =>
    if fd = 1 then do
      let size ← size
      -- `putbuf (buffer, size)` takes `size` as a `size_t`
      let bytes ← m.as.load_range buffer (toSizeT size)
      pure ({ m with console := m.console ++ bytes }, none)
    else if 2 ≤ fd ∧ fd < m.cur.fd_index then do
      let node ← get_file_node m.cur fd
      let size ← size
      let (fs, file, bytes_written) ← file_write m.fs node.file (m.as.view buffer) size
      -- `file_write` reads from the user's buffer the bytes it wrote
      let _ ← m.as.load_range buffer bytes_written.toNat
      pure ({ m with fs, cur := set_file m.cur fd file }, some bytes_written)
    else some (m, some 0)
  | .seek fd position =>
    if 2 ≤ fd ∧ fd < m.cur.fd_index then do
      let node ← get_file_node m.cur fd
      let position ← position
      let file ← file_seek node.file position
      pure ({ m with cur := set_file m.cur fd file }, none)
    else some (m, none)
  | .tell fd =>
    if 2 ≤ fd ∧ fd < m.cur.fd_index then do
      let node ← get_file_node m.cur fd
      pure (m, some (file_tell node.file))
    else some (m, some (-1))
  | .close fd =>
    if 2 ≤ fd ∧ fd < m.cur.fd_index then
      match get_file_node m.cur fd with
      | some node => do
        let fs ← file_close m.fs (some node.file)
        pure ({ m with fs, cur := remove_file_node m.cur fd }, none)
      | none => some (m, some (-1))
    else some (m, some (-1))

/-- A sequence of calls of the process, with what each stored in `eax`. -/
def fs_run (m : Machine) : List FsCall → Option (Machine × List (Option Int))
  | [] => some (m, [])
  | c :: cs => do
    let (m, r) ← fs_call m c
    let (m, rs) ← fs_run m cs
    pure (m, r :: rs)

/-! ## The descriptor table -/

/-- The descriptors of the open files, in the order of `file_list`. -/
def Process.fds (t : Process) : List Int := t.file_list.map FileNode.fd

/-- The inode of the file descriptor `fd` names. -/
def Process.fd_inode (t : Process) (fd : Int) : Option Nat := (get_file_node t fd).map (·.file.inode)

theorem get_file_node_eq_none_iff (t : Process) (fd : Int) : get_file_node t fd = none ↔ fd ∉ t.fds := by
  rw [get_file_node, KeyedList.find?_eq_none_iff]
  simp [Process.fds]

theorem get_file_node_eq_some_iff {t : Process} {fd : Int} {n : FileNode} (hnd : t.fds.Nodup) :
    get_file_node t fd = some n ↔ n ∈ t.file_list ∧ n.fd = fd :=
  KeyedList.find?_eq_some_iff hnd

@[simp] theorem set_file_fd_index (t : Process) (fd : Int) (file : File) :
    (set_file t fd file).fd_index = t.fd_index := rfl

@[simp] theorem remove_file_node_fd_index (t : Process) (fd : Int) :
    (remove_file_node t fd).fd_index = t.fd_index := rfl

@[simp] theorem push_file_node_fd_index (t : Process) (file : File) :
    (push_file_node t file).fd_index = wrapInt32 (t.fd_index + 1) := rfl

@[simp] theorem push_file_node_fds (t : Process) (file : File) :
    (push_file_node t file).fds = t.fd_index :: t.fds := rfl

@[simp] theorem set_file_fds (t : Process) (fd : Int) (file : File) : (set_file t fd file).fds = t.fds := by
  refine KeyedList.map_replaceF FileNode.fd (fun x _ y h => ?_)
  split at h
  · cases h
    rfl
  · cases h

@[simp] theorem remove_file_node_fds (t : Process) (fd : Int) :
    (remove_file_node t fd).fds = t.fds.erase fd := by
  simp only [Process.fds, remove_file_node, List.erase_eq_eraseP', List.eraseP_map]
  rfl

/-- The found node is the only one with its descriptor; a change that keeps its inode keeps
what every descriptor names. -/
theorem set_file_fd_inode {t : Process} {fd : Int} {n : FileNode} {file : File} (hnd : t.fds.Nodup)
    (hn : get_file_node t fd = some n) (hino : file.inode = n.file.inode) (fd' : Int) :
    (set_file t fd file).fd_inode fd' = t.fd_inode fd' := by
  have hcol : (set_file t fd file).file_list.map (fun n => (n.fd, n.file.inode)) =
      t.file_list.map (fun n => (n.fd, n.file.inode)) := by
    refine KeyedList.map_replaceF _ (fun x hx y h => ?_)
    split at h
    · rename_i hxfd
      cases h
      have hxn : x = n := by
        have ⟨hnm, hnfd⟩ := (get_file_node_eq_some_iff hnd).mp hn
        exact List.inj_on_of_nodup_map hnd hx hnm (hxfd.trans hnfd.symm)
      subst hxn
      simp only [hino]
    · cases h
  have hlook : ∀ u : Process, u.fd_inode fd' =
      ((u.file_list.map (fun n => (n.fd, n.file.inode))).find? (fun q => q.1 == fd')).map Prod.snd := by
    intro u
    simp only [Process.fd_inode, get_file_node, List.find?_map, Option.map_map]
    rfl
  rw [hlook, hlook, hcol]

theorem remove_file_node_fd_inode {t : Process} {fd fd' : Int} (hne : fd' ≠ fd) :
    (remove_file_node t fd).fd_inode fd' = t.fd_inode fd' := by
  simp only [Process.fd_inode, get_file_node, remove_file_node]
  congr 1
  induction t.file_list with
  | nil => rfl
  | cons x l ih =>
    by_cases hx : x.fd = fd
    · rw [List.eraseP_cons_of_pos (by simpa using hx), List.find?_cons_of_neg (by simpa [hx] using hne.symm)]
    · rw [List.eraseP_cons_of_neg (by simpa using hx)]
      by_cases hx' : x.fd = fd'
      · rw [List.find?_cons_of_pos (by simpa using hx'), List.find?_cons_of_pos (by simpa using hx')]
      · rw [List.find?_cons_of_neg (by simpa using hx'), List.find?_cons_of_neg (by simpa using hx'), ih]

theorem push_file_node_fd_inode {t : Process} {file : File} {fd' : Int} (hne : fd' ≠ t.fd_index) :
    (push_file_node t file).fd_inode fd' = t.fd_inode fd' := by
  simp only [Process.fd_inode, get_file_node, push_file_node]
  rw [List.find?_cons_of_neg (by simpa using Ne.symm hne)]

/-! ## What one call does to the process -/

theorem fs_call_open_cases {m m' : Machine} {name : Nat} {r : Option Int}
    (h : fs_call m (.open_ name) = some (m', r)) :
    (m'.cur = m.cur ∧ r = some (-1)) ∨ ∃ file, m'.cur = push_file_node m.cur file ∧ r = some m.cur.fd_index := by
  simp only [fs_call] at h
  split at h
  · cases h
  · simp only [Option.bind_eq_bind, Option.bind_eq_some_iff] at h
    obtain ⟨name, -, h⟩ := h
    obtain ⟨⟨fs, file⟩, -, h⟩ := h
    cases file with
    | none =>
      cases h
      exact .inl ⟨rfl, rfl⟩
    | some file =>
      cases h
      exact .inr ⟨file, rfl, rfl⟩

/-- Everything one call can do to the process: nothing, change the file of a node in place
(keeping its inode), drop the node `SYS_CLOSE` found, or add the node of a successful
`SYS_OPEN` under `fd_index`. -/
theorem fs_call_cur {m m' : Machine} {c : FsCall} {r : Option Int} (h : fs_call m c = some (m', r)) :
    m'.cur = m.cur ∨
      (∃ fd n file, get_file_node m.cur fd = some n ∧ file.inode = n.file.inode ∧
        m'.cur = set_file m.cur fd file) ∨
      (∃ fd n, c = .close fd ∧ get_file_node m.cur fd = some n ∧ m'.cur = remove_file_node m.cur fd) ∨
      (∃ name file, c = .open_ name ∧ m'.cur = push_file_node m.cur file ∧ r = some m.cur.fd_index) := by
  cases c with
  | create name initial_size =>
    simp only [fs_call, Option.bind_eq_bind, Option.bind_eq_some_iff] at h
    obtain ⟨_, -, ⟨fs, b⟩, -, h⟩ := h
    cases h
    exact .inl rfl
  | remove name =>
    simp only [fs_call, Option.bind_eq_bind, Option.bind_eq_some_iff] at h
    obtain ⟨_, -, ⟨fs, b⟩, -, h⟩ := h
    cases h
    exact .inl rfl
  | open_ name =>
    rcases fs_call_open_cases h with ⟨hcur, -⟩ | ⟨file, hcur, hr⟩
    · exact .inl hcur
    · exact .inr (.inr (.inr ⟨name, file, rfl, hcur, hr⟩))
  | filesize fd =>
    simp only [fs_call, Option.bind_eq_bind, Option.bind_eq_some_iff] at h
    obtain ⟨_, -, _, -, h⟩ := h
    cases h
    exact .inl rfl
  | read fd buffer size =>
    simp only [fs_call] at h
    split_ifs at h with h0 hr
    · cases h
      exact .inl rfl
    · simp only [Option.bind_eq_bind, Option.bind_eq_some_iff] at h
      obtain ⟨n, hn, _, -, ⟨fs, file, data, bytes_read⟩, hrd, _, -, h⟩ := h
      cases h
      exact .inr (.inl ⟨fd, n, _, hn, file_read_inode hrd, rfl⟩)
    · cases h
      exact .inl rfl
  | write fd buffer size =>
    simp only [fs_call] at h
    split_ifs at h with h1 hr
    · simp only [Option.bind_eq_bind, Option.bind_eq_some_iff] at h
      obtain ⟨_, -, _, -, h⟩ := h
      cases h
      exact .inl rfl
    · simp only [Option.bind_eq_bind, Option.bind_eq_some_iff] at h
      obtain ⟨n, hn, _, -, ⟨fs, file, bytes_written⟩, hwr, _, -, h⟩ := h
      cases h
      exact .inr (.inl ⟨fd, n, _, hn, file_write_inode hwr, rfl⟩)
    · cases h
      exact .inl rfl
  | seek fd position =>
    simp only [fs_call] at h
    split_ifs at h with hr
    · simp only [Option.bind_eq_bind, Option.bind_eq_some_iff] at h
      obtain ⟨n, hn, _, -, file, hfile, h⟩ := h
      cases h
      have hino : file.inode = n.file.inode := by
        simp only [file_seek] at hfile
        split_ifs at hfile
        cases hfile
        rfl
      exact .inr (.inl ⟨fd, n, file, hn, hino, rfl⟩)
    · cases h
      exact .inl rfl
  | tell fd =>
    simp only [fs_call] at h
    split_ifs at h with hr
    · simp only [Option.bind_eq_bind, Option.bind_eq_some_iff] at h
      obtain ⟨_, -, h⟩ := h
      cases h
      exact .inl rfl
    · cases h
      exact .inl rfl
  | close fd =>
    simp only [fs_call] at h
    split_ifs at h with hr
    · split at h
      · rename_i n hn
        simp only [Option.bind_eq_bind, Option.bind_eq_some_iff] at h
        obtain ⟨_, -, h⟩ := h
        cases h
        exact .inr (.inr (.inl ⟨fd, n, rfl, hn, rfl⟩))
      · cases h
        exact .inl rfl
    · cases h
      exact .inl rfl

theorem fs_run_nil {m m' : Machine} {outs : List (Option Int)} (hr : fs_run m [] = some (m', outs)) :
    m' = m ∧ outs = [] := by
  simp only [fs_run, Option.some.injEq, Prod.mk.injEq] at hr
  exact ⟨hr.1.symm, hr.2.symm⟩

theorem fs_run_cons {m m' : Machine} {c : FsCall} {cs : List FsCall} {outs : List (Option Int)}
    (hr : fs_run m (c :: cs) = some (m', outs)) :
    ∃ m₁ r rs, fs_call m c = some (m₁, r) ∧ fs_run m₁ cs = some (m', rs) ∧ outs = r :: rs := by
  simp only [fs_run, Option.bind_eq_bind, Option.bind_eq_some_iff] at hr
  obtain ⟨⟨m₁, r⟩, hc, ⟨m₂, rs⟩, hrs, hout⟩ := hr
  simp only [Option.pure_def, Option.some.injEq, Prod.mk.injEq] at hout
  obtain ⟨rfl, rfl⟩ := hout
  exact ⟨m₁, r, rs, hc, hrs, rfl⟩

/-! ## Descriptors over a run

`FdInv` holds from `init_thread` on as long as `fd_index` does not wrap, which takes `INT_MAX`
successful opens; the run lemmas carry that bound as `fd_index + calls.length ≤ INT_MAX`. -/

/-- Every open descriptor is in `2 <= fd < fd_index` and names one node. -/
structure FdInv (t : Process) : Prop where
  index_ge : 2 ≤ t.fd_index
  index_le : t.fd_index ≤ INT_MAX
  fd_range : ∀ fd ∈ t.fds, 2 ≤ fd ∧ fd < t.fd_index
  fds_nodup : t.fds.Nodup

theorem FdInv.init : FdInv Process.init where
  index_ge := by decide
  index_le := by decide
  fd_range := by simp [Process.init, Process.fds]
  fds_nodup := List.nodup_nil

theorem FdInv.set_file {t : Process} (h : FdInv t) (fd : Int) (file : File) : FdInv (set_file t fd file) where
  index_ge := h.index_ge
  index_le := h.index_le
  fd_range := by
    rw [set_file_fds, set_file_fd_index]
    exact h.fd_range
  fds_nodup := by
    rw [set_file_fds]
    exact h.fds_nodup

theorem FdInv.remove_file_node {t : Process} (h : FdInv t) (fd : Int) : FdInv (remove_file_node t fd) where
  index_ge := h.index_ge
  index_le := h.index_le
  fd_range := fun fd' hfd' => by
    rw [remove_file_node_fds] at hfd'
    exact h.fd_range fd' (List.mem_of_mem_erase hfd')
  fds_nodup := by
    rw [remove_file_node_fds]
    exact h.fds_nodup.erase fd

theorem FdInv.push_fd_index {t : Process} (h : FdInv t) (hroom : t.fd_index < INT_MAX) (file : File) :
    (push_file_node t file).fd_index = t.fd_index + 1 := by
  have := h.index_ge
  unfold INT_MAX at hroom
  rw [push_file_node_fd_index, wrapInt32_eq_self _ (by omega) (by omega)]

theorem FdInv.push_file_node {t : Process} (h : FdInv t) (hroom : t.fd_index < INT_MAX) (file : File) :
    FdInv (push_file_node t file) := by
  have hidx := h.push_fd_index hroom file
  have hge := h.index_ge
  refine ⟨by omega, by rw [hidx]; unfold INT_MAX at hroom ⊢; omega, ?_, ?_⟩
  · intro fd hfd
    rw [push_file_node_fds, List.mem_cons] at hfd
    rw [hidx]
    rcases hfd with rfl | hfd
    · exact ⟨hge, by omega⟩
    · have := h.fd_range fd hfd
      omega
  · rw [push_file_node_fds, List.nodup_cons]
    exact ⟨fun hmem => by have := h.fd_range _ hmem; omega, h.fds_nodup⟩

theorem fs_call_fd_inv {m m' : Machine} {c : FsCall} {r : Option Int} (h : FdInv m.cur)
    (hroom : m.cur.fd_index < INT_MAX) (hc : fs_call m c = some (m', r)) : FdInv m'.cur := by
  rcases fs_call_cur hc with hcur | ⟨fd, -, file, -, -, hcur⟩ | ⟨fd, -, -, -, hcur⟩ | ⟨-, file, -, hcur, -⟩
  · rw [hcur]
    exact h
  · rw [hcur]
    exact h.set_file fd file
  · rw [hcur]
    exact h.remove_file_node fd
  · rw [hcur]
    exact h.push_file_node hroom file

theorem fs_call_fd_index {m m' : Machine} {c : FsCall} {r : Option Int} (h : FdInv m.cur)
    (hroom : m.cur.fd_index < INT_MAX) (hc : fs_call m c = some (m', r)) :
    m.cur.fd_index ≤ m'.cur.fd_index ∧ m'.cur.fd_index ≤ m.cur.fd_index + 1 := by
  rcases fs_call_cur hc with hcur | ⟨fd, -, file, -, -, hcur⟩ | ⟨fd, -, -, -, hcur⟩ | ⟨-, file, -, hcur, -⟩
  all_goals rw [hcur]
  · omega
  · rw [set_file_fd_index]
    omega
  · rw [remove_file_node_fd_index]
    omega
  · rw [h.push_fd_index hroom file]
    omega

theorem fs_run_fd_inv {m m' : Machine} {calls : List FsCall} {outs : List (Option Int)} (h : FdInv m.cur)
    (hroom : m.cur.fd_index + calls.length ≤ INT_MAX) (hr : fs_run m calls = some (m', outs)) :
    FdInv m'.cur ∧ m.cur.fd_index ≤ m'.cur.fd_index ∧ m'.cur.fd_index ≤ m.cur.fd_index + calls.length := by
  induction calls generalizing m outs with
  | nil =>
    obtain ⟨rfl, -⟩ := fs_run_nil hr
    exact ⟨h, Int.le_refl _, by simp⟩
  | cons c cs ih =>
    obtain ⟨m₁, r, rs, hc, hrs, rfl⟩ := fs_run_cons hr
    rw [List.length_cons] at hroom ⊢
    have hroom₁ : m.cur.fd_index < INT_MAX := by omega
    have ⟨hle₁, hge₁⟩ := fs_call_fd_index h hroom₁ hc
    have ⟨h₂, hle₂, hge₂⟩ := ih (fs_call_fd_inv h hroom₁ hc) (by omega) hrs
    exact ⟨h₂, by omega, by omega⟩

/-- A process with one file open at fd 2, on the root directory's inode. -/
def open_file_machine : Machine where
  fs := { sample_fs with
          heap := { sample_fs.heap with calls := 2 }
          open_inodes :=
            [{ addr := 0, sector := ROOT_DIR_SECTOR, open_cnt := 1, removed := false, deny_write_cnt := 0,
               data := InodeDisk.decode (sample_fs.disk ROOT_DIR_SECTOR) }] }
  cur := { fd_index := 3, file_list := [⟨2, { inode := 0, pos := 0, deny_write := false }⟩], return_status := -1 }
  as := { present := fun _ => true, mem := fun _ => 0 }
  console := []

/-- The same process after `SYS_CLOSE (2)`. -/
def closed_file_machine : Machine :=
  { open_file_machine with
    fs := { open_file_machine.fs with open_inodes := [] }
    cur := { open_file_machine.cur with file_list := [] } }

theorem open_file_machine_inv : FdInv open_file_machine.cur := ⟨by decide, by decide, by decide, by decide⟩

/-- The descriptor a call handed out, if it was a successful `SYS_OPEN`. -/
def opened_fd : FsCall → Option Int → Option Int
  | .open_ _, some fd => if fd = -1 then none else some fd
  | _, _ => none

/-- A successful `SYS_OPEN` returns `fd_index`, a descriptor no open file has, and from then on
the descriptor names the file `filesys_open` returned. -/
theorem fs_call_opened {m m' : Machine} {c : FsCall} {r : Option Int} {fd : Int} (h : FdInv m.cur)
    (hc : fs_call m c = some (m', r)) (ho : opened_fd c r = some fd) :
    fd = m.cur.fd_index ∧ fd ∉ m.cur.fds ∧ ∃ file, m'.cur = push_file_node m.cur file ∧
      m'.cur.fd_inode fd = some file.inode := by
  cases c with
  | open_ name =>
    rcases fs_call_open_cases hc with ⟨-, rfl⟩ | ⟨file, hcur, rfl⟩
    · simp [opened_fd] at ho
    · have hfd : fd = m.cur.fd_index := by
        simp only [opened_fd] at ho
        split_ifs at ho
        cases ho
        rfl
      subst hfd
      refine ⟨rfl, fun hmem => by have := h.fd_range _ hmem; omega, file, hcur, ?_⟩
      simp [hcur, Process.fd_inode, get_file_node, push_file_node]
  | _ => simp [opened_fd] at ho

/-- The descriptors the successful `SYS_OPEN`s of a run handed out, in order. -/
def opened_fds (calls : List FsCall) (outs : List (Option Int)) : List Int :=
  (calls.zip outs).filterMap (fun p => opened_fd p.1 p.2)

theorem fs_call_fd_inode {m m' : Machine} {c : FsCall} {r : Option Int} {fd : Int} (h : FdInv m.cur)
    (hopen : fd ∈ m.cur.fds) (hnc : c ≠ .close fd) (hc : fs_call m c = some (m', r)) :
    fd ∈ m'.cur.fds ∧ m'.cur.fd_inode fd = m.cur.fd_inode fd := by
  rcases fs_call_cur hc with hcur | ⟨fd', n, file, hn, hino, hcur⟩ | ⟨fd', -, rfl, -, hcur⟩ | ⟨-, file, -, hcur, -⟩
  all_goals rw [hcur]
  · exact ⟨hopen, rfl⟩
  · exact ⟨by rw [set_file_fds]; exact hopen, set_file_fd_inode h.fds_nodup hn hino fd⟩
  · have hne : fd ≠ fd' := fun he => hnc (he ▸ rfl)
    rw [remove_file_node_fds, h.fds_nodup.mem_erase_iff]
    exact ⟨⟨hne, hopen⟩, remove_file_node_fd_inode hne⟩
  · have hlt := (h.fd_range fd hopen).2
    rw [push_file_node_fds]
    exact ⟨List.mem_cons_of_mem _ hopen, push_file_node_fd_inode (by omega)⟩

/-- Until it is closed, a descriptor keeps naming the inode it named. -/
theorem fs_run_fd_inode {m m' : Machine} {calls : List FsCall} {outs : List (Option Int)} {fd : Int}
    (h : FdInv m.cur) (hroom : m.cur.fd_index + calls.length ≤ INT_MAX) (hopen : fd ∈ m.cur.fds)
    (hnc : ∀ c ∈ calls, c ≠ .close fd) (hr : fs_run m calls = some (m', outs)) :
    fd ∈ m'.cur.fds ∧ m'.cur.fd_inode fd = m.cur.fd_inode fd := by
  induction calls generalizing m outs with
  | nil =>
    obtain ⟨rfl, -⟩ := fs_run_nil hr
    exact ⟨hopen, rfl⟩
  | cons c cs ih =>
    obtain ⟨m₁, r, rs, hc, hrs, rfl⟩ := fs_run_cons hr
    rw [List.length_cons] at hroom
    have hroom₁ : m.cur.fd_index < INT_MAX := by omega
    obtain ⟨hle₁, hge₁⟩ := fs_call_fd_index h hroom₁ hc
    have ⟨hopen₁, hino₁⟩ := fs_call_fd_inode h hopen (hnc c List.mem_cons_self) hc
    have ⟨hopen₂, hino₂⟩ := ih (fs_call_fd_inv h hroom₁ hc) (by omega) hopen₁
      (fun c' hc' => hnc c' (List.mem_cons_of_mem c hc')) hrs
    exact ⟨hopen₂, hino₂.trans hino₁⟩

theorem fs_run_fd_inode_sample :
    ∃ m' outs, fs_run open_file_machine [.tell 2, .seek 2 (some 0)] = some (m', outs) ∧
      2 ∈ m'.cur.fds ∧ m'.cur.fd_inode 2 = some 0 := by
  obtain ⟨m', outs, hr⟩ : ∃ m' outs, fs_run open_file_machine [.tell 2, .seek 2 (some 0)] = some (m', outs) :=
    ⟨_, _, rfl⟩
  obtain ⟨hopen, hino⟩ := @fs_run_fd_inode open_file_machine m' _ outs 2 open_file_machine_inv (by decide) (by decide)
    (by simp) hr
  exact ⟨m', outs, hr, hopen, hino.trans rfl⟩

/-! ## Closed descriptors -/

/-- A descriptor that passes the handlers' range test but names no node. -/
def Process.stale (t : Process) (fd : Int) : Prop := 2 ≤ fd ∧ fd < t.fd_index ∧ fd ∉ t.fds

/-- Every handler that looks a stale descriptor up dereferences the null node it gets, and
`SYS_FILESIZE` fails its `ASSERT`. -/
theorem fs_call_stale {m : Machine} {fd : Int} (hs : m.cur.stale fd) (buffer : Nat) (size position : Option Int) :
    fs_call m (.read fd buffer size) = none ∧ fs_call m (.write fd buffer size) = none ∧
      fs_call m (.seek fd position) = none ∧ fs_call m (.tell fd) = none ∧
      fs_call m (.filesize fd) = none := by
  obtain ⟨hge, hlt, hout⟩ := hs
  have hnone : get_file_node m.cur fd = none := (get_file_node_eq_none_iff _ _).mpr hout
  have h0 : fd ≠ 0 := by omega
  have h1 : fd ≠ 1 := by omega
  refine ⟨?_, ?_, ?_, ?_, ?_⟩ <;> simp [fs_call, hnone, hge, hlt, h0, h1]

theorem fs_call_close_stale {m m' : Machine} {fd : Int} {r : Option Int} (h : FdInv m.cur)
    (hopen : fd ∈ m.cur.fds) (hc : fs_call m (.close fd) = some (m', r)) :
    m'.cur = remove_file_node m.cur fd ∧ m'.cur.stale fd := by
  have ⟨hge, hlt⟩ := h.fd_range fd hopen
  obtain ⟨n, hn⟩ := Option.ne_none_iff_exists'.mp (mt (get_file_node_eq_none_iff _ _).mp (not_not.mpr hopen))
  simp only [fs_call, hge, hlt, and_self, if_true, hn, Option.bind_eq_bind, Option.bind_eq_some_iff] at hc
  obtain ⟨_, -, hc⟩ := hc
  cases hc
  refine ⟨rfl, hge, hlt, ?_⟩
  rw [remove_file_node_fds, h.fds_nodup.mem_erase_iff]
  exact fun h' => h'.1 rfl

theorem fs_call_keeps_stale {m m' : Machine} {c : FsCall} {r : Option Int} {fd : Int} (h : FdInv m.cur)
    (hroom : m.cur.fd_index < INT_MAX) (hs : m.cur.stale fd) (hc : fs_call m c = some (m', r)) :
    m'.cur.stale fd := by
  obtain ⟨hge, hlt, hout⟩ := hs
  rcases fs_call_cur hc with hcur | ⟨fd', -, file, -, -, hcur⟩ | ⟨fd', -, -, -, hcur⟩ | ⟨-, file, -, hcur, -⟩
  all_goals rw [hcur]
  · exact ⟨hge, hlt, hout⟩
  · exact ⟨hge, by simpa using hlt, by simpa using hout⟩
  · exact ⟨hge, by simpa using hlt, by rw [remove_file_node_fds]; exact fun hm => hout (List.mem_of_mem_erase hm)⟩
  · rw [Process.stale, push_file_node_fds, h.push_fd_index hroom file, List.mem_cons]
    exact ⟨hge, by omega, by rintro (he | hm) <;> [omega; exact hout hm]⟩

theorem fs_run_keeps_stale {m m' : Machine} {calls : List FsCall} {outs : List (Option Int)} {fd : Int}
    (h : FdInv m.cur) (hroom : m.cur.fd_index + calls.length ≤ INT_MAX) (hs : m.cur.stale fd)
    (hr : fs_run m calls = some (m', outs)) : m'.cur.stale fd := by
  induction calls generalizing m outs with
  | nil =>
    obtain ⟨rfl, -⟩ := fs_run_nil hr
    exact hs
  | cons c cs ih =>
    obtain ⟨m₁, r, rs, hc, hrs, rfl⟩ := fs_run_cons hr
    rw [List.length_cons] at hroom
    have hroom₁ : m.cur.fd_index < INT_MAX := by omega
    obtain ⟨hle₁, hge₁⟩ := fs_call_fd_index h hroom₁ hc
    exact ih (fs_call_fd_inv h hroom₁ hc) (by omega) (fs_call_keeps_stale h hroom₁ hs hc) hrs

theorem closed_fd_syscalls_panic (m m₁ m' : Machine) (fd : Int) (r : Option Int) (calls : List FsCall)
    (outs : List (Option Int)) (hinv : FdInv m.cur) (hroom : m.cur.fd_index + calls.length ≤ INT_MAX)
    (hopen : fd ∈ m.cur.fds) (hclose : fs_call m (.close fd) = some (m₁, r))
    (hrun : fs_run m₁ calls = some (m', outs)) (buffer : Nat) (size position : Option Int) :
    fs_call m' (.read fd buffer size) = none ∧ fs_call m' (.write fd buffer size) = none ∧
      fs_call m' (.seek fd position) = none ∧ fs_call m' (.tell fd) = none ∧
      fs_call m' (.filesize fd) = none := by
  have ⟨hcur₁, hs₁⟩ := fs_call_close_stale hinv hopen hclose
  have hinv₁ : FdInv m₁.cur := hcur₁ ▸ hinv.remove_file_node fd
  have hroom₁ : m₁.cur.fd_index + calls.length ≤ INT_MAX := by rw [hcur₁, remove_file_node_fd_index]; exact hroom
  exact fs_call_stale (fs_run_keeps_stale hinv₁ hroom₁ hs₁ hrun) buffer size position

theorem closed_fd_syscalls_panic_sample :
    FdInv open_file_machine.cur ∧ open_file_machine.cur.fd_index + ([] : List FsCall).length ≤ INT_MAX ∧
      2 ∈ open_file_machine.cur.fds ∧ fs_call open_file_machine (.close 2) = some (closed_file_machine, none) ∧
      fs_run closed_file_machine [] = some (closed_file_machine, []) ∧
      fs_call closed_file_machine (.read 2 0 (some 1)) = none ∧
      fs_call closed_file_machine (.write 2 0 (some 1)) = none ∧ fs_call closed_file_machine (.seek 2 (some 0)) = none ∧ fs_call closed_file_machine (.tell 2) = none ∧
      fs_call closed_file_machine (.filesize 2) = none :=
  have hinv : FdInv open_file_machine.cur := open_file_machine_inv
  have hroom : open_file_machine.cur.fd_index + ([] : List FsCall).length ≤ INT_MAX := by decide
  have hopen : 2 ∈ open_file_machine.cur.fds := by decide
  have hclose : fs_call open_file_machine (.close 2) = some (closed_file_machine, none) := rfl
  ⟨hinv, hroom, hopen, hclose, rfl,
    closed_fd_syscalls_panic open_file_machine closed_file_machine closed_file_machine 2 none [] [] hinv hroom
      hopen hclose rfl 0 (some 1) (some 0)⟩

end Pintos
