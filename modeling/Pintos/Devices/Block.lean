import Pintos.Lib.Memory

/-! # Block devices (`devices/block.h`, `devices/block.c`)

A sector is read through its bytes `0 … 511`; the disk maps a sector number to its contents.
`block_read` copies the 512 bytes of a sector into a buffer, `block_write` stores 512 bytes
of a buffer as the sector (bytes past 511 of a written sector read as zero, so that two
writes of the same 512 bytes give equal sectors).

The past-the-end `PANIC` of `check_sector` is not modelled: every sector the modelled file
system touches is a bit of the free map, which covers the device.
-/

namespace Pintos
set_option autoImplicit false
set_option maxHeartbeats 250000
set_option maxRecDepth 120000

/-- `BLOCK_SECTOR_SIZE` -/
def BLOCK_SECTOR_SIZE : Nat := 512

/-- The bytes of one sector. -/
abbrev Sector := Nat → UInt8

/-- The contents of the file-system device, sector by sector. -/
abbrev Disk := Nat → Sector

def block_read (d : Disk) (sector : Nat) (buffer : Buffer) (ofs : Nat) : Buffer :=
  memcpy buffer ofs (d sector) 0 BLOCK_SECTOR_SIZE

/-- The sector stored by writing the 512 bytes at `buffer + ofs`. -/
def sectorOf (buffer : Buffer) (ofs : Nat) : Sector :=
  fun i => if i < BLOCK_SECTOR_SIZE then buffer (ofs + i) else 0

def block_write (d : Disk) (sector : Nat) (buffer : Buffer) (ofs : Nat) : Disk :=
  Function.update d sector (sectorOf buffer ofs)

@[simp] theorem block_write_self (d : Disk) (sector : Nat) (buffer : Buffer) (ofs : Nat) :
    block_write d sector buffer ofs sector = sectorOf buffer ofs := by
  simp [block_write]

theorem block_write_ne (d : Disk) (sector s : Nat) (buffer : Buffer) (ofs : Nat) (h : s ≠ sector) :
    block_write d sector buffer ofs s = d s := by
  simp [block_write, Function.update_of_ne h]

theorem sectorOf_apply (buffer : Buffer) (ofs i : Nat) (h : i < BLOCK_SECTOR_SIZE) :
    sectorOf buffer ofs i = buffer (ofs + i) := by
  simp [sectorOf, h]

end Pintos
