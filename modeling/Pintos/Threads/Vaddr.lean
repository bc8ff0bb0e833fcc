import Mathlib.Algebra.Group.Nat.Defs

/-! # Virtual addresses (`threads/vaddr.h`)

Addresses are 32-bit; the kernel maps all of physical memory from `PHYS_BASE` up, and user
addresses are the ones below it.
-/

namespace Pintos
set_option autoImplicit false

def PGBITS : Nat := 12

def PGSIZE : Nat := 2 ^ PGBITS

def PHYS_BASE : Nat := 0xc0000000

def pg_no (va : Nat) : Nat := va / PGSIZE

def pg_ofs (va : Nat) : Nat := va % PGSIZE

def pg_round_down (va : Nat) : Nat := va / PGSIZE * PGSIZE

def is_user_vaddr (vaddr : Nat) : Bool := vaddr < PHYS_BASE

end Pintos
