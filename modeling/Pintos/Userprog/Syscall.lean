import Pintos.Userprog.FileSyscalls

/-! # The system call handler (`userprog/syscall.c`)

`syscall_handler` reads the call number and the argument words from the user stack at `esp`.
Before it reads a word it checks it with `valid_arg`, and before it passes a pointer on it
checks it with `valid_ptr`; both look at one address, the first byte of what they guard.  A word
whose later bytes lie on an absent page, or a buffer or string that runs into one, is then read
by the kernel itself: a page fault in kernel code, which `kill` turns into a panic.  `SYS_REMOVE`
passes its name pointer on unchecked.

The handler returns the new state, the frame (with `eax`), and how the process goes on:
back to user mode, `thread_exit`, `shutdown_power_off`, or into `process_execute` or
`process_wait`, whose result the caller stores in `eax`.
-/

namespace Pintos
set_option autoImplicit false
set_option maxHeartbeats 250000
set_option maxRecDepth 120000

open LittleEndian

/-- The system call numbers of `lib/syscall-nr.h`. -/
inductive SyscallNr where
  | SYS_HALT | SYS_EXIT | SYS_EXEC | SYS_WAIT | SYS_CREATE | SYS_REMOVE | SYS_OPEN
  | SYS_FILESIZE | SYS_READ | SYS_WRITE | SYS_SEEK | SYS_TELL | SYS_CLOSE | SYS_MMAP
  | SYS_MUNMAP | SYS_CHDIR | SYS_MKDIR | SYS_READDIR | SYS_ISDIR | SYS_INUMBER
  deriving DecidableEq, Repr

open SyscallNr in
/-- The enumeration in order, so that the `n`-th is the call numbered `n`. -/
def syscall_nrs : List SyscallNr :=
  [SYS_HALT, SYS_EXIT, SYS_EXEC, SYS_WAIT, SYS_CREATE, SYS_REMOVE, SYS_OPEN, SYS_FILESIZE, SYS_READ,
    SYS_WRITE, SYS_SEEK, SYS_TELL, SYS_CLOSE, SYS_MMAP, SYS_MUNMAP, SYS_CHDIR, SYS_MKDIR, SYS_READDIR,
    SYS_ISDIR, SYS_INUMBER]

def SyscallNr.ofInt (n : Int) : Option SyscallNr := if 0 ≤ n then syscall_nrs[n.toNat]? else none

/-- The parts of `struct intr_frame` the handler reads and writes. -/
structure IntrFrame where
  esp : Nat
  frame_pointer : Nat
  eax : Int

/-- How the process goes on after the handler. -/
inductive Outcome where
  | resume
  | exit
  | power_off
  | exec (cmd_line : List UInt8)
  | wait (tid : Int)

def valid_ptr (as : AddrSpace) (ptr : Nat) : Bool :=
  ptr != 0 && is_user_vaddr ptr && as.present (pg_no ptr)

/-- `(int *) f->esp + index` -/
def arg_addr (f : IntrFrame) (index : Nat) : Nat := (f.esp + 4 * index) % 2 ^ 32

def valid_arg (as : AddrSpace) (f : IntrFrame) (index : Nat) : Bool := valid_ptr as (arg_addr f index)

def get_arg (as : AddrSpace) (f : IntrFrame) (index : Nat) : Option Int := as.load_int (arg_addr f index)

/-- `f->eax = -1; thread_exit ()`, for an argument that fails its check. -/
def exit_bad_arg (m : Machine) (f : IntrFrame) : Option (Machine × IntrFrame × Outcome) :=
  some (m, { f with eax := -1 }, .exit)

/-- A file system case once its checks passed: the call, and its result in `eax`. -/
def finish_fs_call (m : Machine) (f : IntrFrame) (c : FsCall) : Option (Machine × IntrFrame × Outcome) :=
  (fs_call m c).map (fun (m, r) => (m, { f with eax := r.getD f.eax }, .resume))

/-- The `switch` of `syscall_handler` on the call number. -/
def syscall_case (m : Machine) (f : IntrFrame) : Option SyscallNr → Option (Machine × IntrFrame × Outcome)
  | some .SYS_HALT => some (m, f, .power_off)
  | some .SYS_EXIT =>
    if !valid_arg m.as f 1 then some ({ m with cur := { m.cur with return_status := -1 } }, { f with eax := -1 }, .exit)
    else do
      let status ← get_arg m.as f 1
      some ({ m with cur := { m.cur with return_status := status } }, { f with eax := status }, .exit)
  | some .SYS_EXEC =>
    if !valid_arg m.as f 1 then exit_bad_arg m f
    else do
      let file_name ← get_arg m.as f 1
      if !valid_ptr m.as (toSizeT file_name) then exit_bad_arg m f
      else do
        -- `process_execute` starts with `strlcpy`, which reads the whole string
        let cmd_line ← m.as.load_cstr (toSizeT file_name)
        some (m, f, .exec cmd_line)
  | some .SYS_WAIT =>
    if !valid_arg m.as f 1 then exit_bad_arg m f
    else do
      let tid ← get_arg m.as f 1
      some (m, f, .wait tid)
  | some .SYS_CREATE =>
    if !(valid_arg m.as f 1 && valid_arg m.as f 2) then exit_bad_arg m f
    else do
      let name ← get_arg m.as f 1
      if !valid_ptr m.as (toSizeT name) then exit_bad_arg m f
      else do
        let initial_size ← get_arg m.as f 2
        finish_fs_call m f (.create (toSizeT name) initial_size)
  | some .SYS_REMOVE =>
    -- no `valid_ptr` on the name
    if !valid_arg m.as f 1 then exit_bad_arg m f
    else do
      let name ← get_arg m.as f 1
      finish_fs_call m f (.remove (toSizeT name))
  | some .SYS_OPEN =>
    if !valid_arg m.as f 1 then exit_bad_arg m f
    else do
      let name ← get_arg m.as f 1
      if !valid_ptr m.as (toSizeT name) then exit_bad_arg m f
      else finish_fs_call m f (.open_ (toSizeT name))
  | some .SYS_FILESIZE =>
    if !valid_arg m.as f 1 then exit_bad_arg m f
    else do
      let fd ← get_arg m.as f 1
      finish_fs_call m f (.filesize fd)
  | some .SYS_READ =>
    if !(valid_arg m.as f 1 && valid_arg m.as f 2 && valid_arg m.as f 3) then exit_bad_arg m f
    else do
      let buffer ← get_arg m.as f 2
      if !valid_ptr m.as (toSizeT buffer) then exit_bad_arg m f
      else do
        let fd ← get_arg m.as f 1
        finish_fs_call m f (.read fd (toSizeT buffer) (get_arg m.as f 3))
  | some .SYS_WRITE =>
    if !(valid_arg m.as f 1 && valid_arg m.as f 2 && valid_arg m.as f 3) then exit_bad_arg m f
    else do
      let buffer ← get_arg m.as f 2
      if !valid_ptr m.as (toSizeT buffer) then exit_bad_arg m f
      else do
        let fd ← get_arg m.as f 1
        finish_fs_call m f (.write fd (toSizeT buffer) (get_arg m.as f 3))
  | some .SYS_SEEK =>
    if !(valid_arg m.as f 1 && valid_arg m.as f 2) then exit_bad_arg m f
    else do
      let fd ← get_arg m.as f 1
      finish_fs_call m f (.seek fd (get_arg m.as f 2))
  | some .SYS_TELL =>
    if !valid_arg m.as f 1 then exit_bad_arg m f
    else do
      let fd ← get_arg m.as f 1
      finish_fs_call m f (.tell fd)
  | some .SYS_CLOSE =>
    if !valid_arg m.as f 1 then exit_bad_arg m f
    else do
      let fd ← get_arg m.as f 1
      finish_fs_call m f (.close fd)
  -- `SYS_MMAP`, `SYS_MUNMAP` and unknown numbers reach `default`; `SYS_CHDIR` .. `SYS_INUMBER` break
  | _ => some (m, f, .resume)

def syscall_handler (m : Machine) (f : IntrFrame) : Option (Machine × IntrFrame × Outcome) :=
  if f.frame_pointer != 0 && is_user_vaddr f.frame_pointer && valid_arg m.as f 0 then do
    -- `memcpy (&syscall_num, f->esp, sizeof (int))`
    let syscall_num ← m.as.load_int f.esp
    syscall_case m f (SyscallNr.ofInt syscall_num)
  else some (m, f, .exit)

/-! ## What the handler reads before it dispatches -/

theorem arg_addr_zero (f : IntrFrame) (h : f.esp < PHYS_BASE) : arg_addr f 0 = f.esp := by
  unfold arg_addr PHYS_BASE at *
  omega

theorem valid_arg_zero (as : AddrSpace) (f : IntrFrame) (hesp : f.esp ≠ 0) (huser : f.esp < PHYS_BASE)
    (hpage : as.present (pg_no f.esp) = true) : valid_arg as f 0 = true := by
  simp [valid_arg, arg_addr_zero f huser, valid_ptr, is_user_vaddr, hesp, huser, hpage]

/-- Once the saved frame pointer and `esp` pass their checks, the handler switches on the
word at `esp`, all four of whose bytes it reads. -/
theorem syscall_handler_checked (m : Machine) (f : IntrFrame) (hfp : f.frame_pointer ≠ 0)
    (hfp_user : f.frame_pointer < PHYS_BASE) (hesp : f.esp ≠ 0) (huser : f.esp < PHYS_BASE)
    (hpage : m.as.present (pg_no f.esp) = true) :
    syscall_handler m f = (m.as.load_int f.esp).bind (fun n => syscall_case m f (SyscallNr.ofInt n)) := by
  have hcheck : (f.frame_pointer != 0 && is_user_vaddr f.frame_pointer && valid_arg m.as f 0) = true := by
    simp [is_user_vaddr, hfp, hfp_user, valid_arg_zero m.as f hesp huser hpage]
  rw [syscall_handler, if_pos hcheck]
  rfl

theorem syscall_number_fault_panics (m : Machine) (f : IntrFrame) (hfp : f.frame_pointer ≠ 0)
    (hfp_user : f.frame_pointer < PHYS_BASE) (hesp : f.esp ≠ 0) (huser : f.esp < PHYS_BASE)
    (hpage : m.as.present (pg_no f.esp) = true) (k : Nat) (hk : k < 4)
    (habs : m.as.present (pg_no (f.esp + k)) = false) : syscall_handler m f = none := by
  rw [syscall_handler_checked m f hfp hfp_user hesp huser hpage]
  -- the word lies below `2^32`, so its bytes need no wrapping
  have hmod : (f.esp + k) % 2 ^ 32 = f.esp + k := Nat.mod_eq_of_lt (by unfold PHYS_BASE at huser; omega)
  rw [AddrSpace.load_int_eq_none m.as f.esp k hk (by rw [hmod]; exact habs)]
  rfl

/-- One mapped user page at `0x8048000`, nothing else. -/
def stack_page_machine : Machine where
  fs := sample_fs
  cur := Process.init
  as := { present := fun p => p == 0x8048, mem := fun _ => 0 }
  console := []

/-- `esp` two bytes below the end of the page: the call number runs onto the next page. -/
def straddling_frame : IntrFrame where
  esp := 0x8048ffe
  frame_pointer := 0x8048ffe
  eax := 0

theorem syscall_number_fault_panics_sample :
    straddling_frame.frame_pointer ≠ 0 ∧ straddling_frame.frame_pointer < PHYS_BASE ∧ straddling_frame.esp ≠ 0 ∧
      straddling_frame.esp < PHYS_BASE ∧ stack_page_machine.as.present (pg_no straddling_frame.esp) = true ∧
      stack_page_machine.as.present (pg_no (straddling_frame.esp + 2)) = false ∧
      syscall_handler stack_page_machine straddling_frame = none :=
  ⟨by decide, by decide, by decide, by decide, by decide, by decide,
    syscall_number_fault_panics stack_page_machine straddling_frame (by decide) (by decide) (by decide) (by decide)
      (by decide) 2 (by decide) (by decide)⟩

/-- The last user page and the kernel's first page mapped, a frame two bytes below `PHYS_BASE`. -/
def top_page_machine : Machine where
  fs := sample_fs
  cur := Process.init
  as := { present := fun p => p == 0xbffff || p == 0xc0000, mem := fun a => if a = PHYS_BASE then 1 else 0 }
  console := []

def top_frame : IntrFrame where
  esp := PHYS_BASE - 2
  frame_pointer := PHYS_BASE - 2
  eax := 0

/-- One user page at `0x8048000` whose first word is `SYS_REMOVE` and whose second is a null
name. -/
def remove_null_machine : Machine where
  fs := sample_fs
  cur := Process.init
  as := { present := fun p => p == 0x8048, mem := fun a => if a = 0x8048000 then 5 else 0 }
  console := []

def remove_null_frame : IntrFrame where
  esp := 0x8048000
  frame_pointer := 0x8048000
  eax := 0

end Pintos
