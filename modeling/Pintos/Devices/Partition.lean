import Pintos.Devices.Block
import Pintos.Foundations.LittleEndian

/-! # Partition tables (`devices/partition.c`)

`partition_scan` reads the partition table of a device and registers each primary or logical
partition it finds, following extended partitions by recursion.  The recursion is run with fuel,
one unit for each call of `read_partition_table`; a run that needs more ends `out_of_fuel`.
`malloc` is the environment's (`Heap`), and a `NULL` from it `PANIC`s.  Sector numbers are
`block_sector_t`, 32 bits wide.  The console messages are not modelled.
-/

namespace Pintos
set_option autoImplicit false

open LittleEndian

/-- `enum block_type`, the roles a device can be registered with. -/
inductive BlockType
  | kernel
  | filesys
  | scratch
  | swap
  | raw
  | foreign
  deriving DecidableEq, Repr

/-- A partition passed to `block_register`: its number, which names it, its role, its type
byte, its first sector on the device and its size. -/
structure Registered where
  part_nr : Nat
  type : BlockType
  part_type : UInt8
  start : Nat
  size : Nat
  deriving DecidableEq, Repr

/-- The scan's state: the heap, `*part_nr`, and the partitions registered so far. -/
structure ScanState where
  heap : Heap
  part_nr : Nat
  registered : List Registered

/-- How a run of the scan ends: it returns, it `PANIC`s with a message, or it needs more than
its fuel. -/
inductive ScanResult
  | ok (st : ScanState)
  | panic (msg : String)
  | out_of_fuel

/-- Go on from a run that returned. -/
def ScanResult.bind (r : ScanResult) (f : ScanState → ScanResult) : ScanResult :=
  match r with
  | .ok st => f st
  | .panic msg => .panic msg
  | .out_of_fuel => .out_of_fuel

/-- The role `found_partition` gives a partition type. -/
def block_type_of (part_type : UInt8) : BlockType :=
  if part_type = 0x20 then .kernel
  else if part_type = 0x21 then .filesys
  else if part_type = 0x22 then .scratch
  else if part_type = 0x23 then .swap
  else .foreign

/-- `found_partition (block, part_type, start, size, part_nr)` on a device of `block_size`
sectors. -/
def found_partition (block_size : Nat) (st : ScanState) (part_type : UInt8) (start size part_nr : Nat) :
    ScanResult :=
  if start ≥ block_size then .ok st
  else if (start + size) % 2 ^ 32 < start ∨ (start + size) % 2 ^ 32 > block_size then .ok st
  else
    match st.heap.malloc with
    | (none, _) => .panic "Failed to allocate memory for partition descriptor"
    | (some _, heap) =>
      .ok { st with heap, registered := st.registered ++ [⟨part_nr, block_type_of part_type, part_type, start, size⟩] }

/-- The signature of a partition table sector, `uint16_t` at byte 510. -/
def table_signature (pt : Sector) : Nat := (pt 510).toNat + 256 * (pt 511).toNat

/-- The `type` of entry `i`, which starts at byte `446 + 16 * i`. -/
def entry_type (pt : Sector) (i : Nat) : UInt8 := pt (446 + 16 * i + 4)

/-- The `offset` of entry `i`. -/
def entry_offset (pt : Sector) (i : Nat) : Nat := getU32 pt (446 + 16 * i + 8)

/-- The `size` of entry `i`. -/
def entry_size (pt : Sector) (i : Nat) : Nat := getU32 pt (446 + 16 * i + 12)

/-- The four types of extended partition. -/
def is_extended (type : UInt8) : Bool := type == 0x05 || type == 0x0f || type == 0x85 || type == 0xc5

/-- The loop over the entries `is` of the table `pt`, read for `sector`; `recurse` is
`read_partition_table` one level down. -/
def parse_partitions (block_size : Nat) (recurse : Nat → Nat → ScanState → ScanResult) (pt : Sector)
    (sector primary_extended_sector : Nat) : List Nat → ScanState → ScanResult
  | [], st => .ok st
  | i :: is, st =>
    if entry_size pt i = 0 ∨ entry_type pt i = 0 then
      parse_partitions block_size recurse pt sector primary_extended_sector is st
    else if is_extended (entry_type pt i) then
      -- an offset in the MBR is absolute, one deeper is relative to the primary extended partition
      (if sector = 0 then recurse (entry_offset pt i) (entry_offset pt i) st
       else recurse ((entry_offset pt i + primary_extended_sector) % 2 ^ 32) primary_extended_sector st).bind
        (parse_partitions block_size recurse pt sector primary_extended_sector is)
    else
      (found_partition block_size { st with part_nr := st.part_nr + 1 } (entry_type pt i)
        ((entry_offset pt i + sector) % 2 ^ 32) (entry_size pt i) (st.part_nr + 1)).bind
        (parse_partitions block_size recurse pt sector primary_extended_sector is)

/-- `read_partition_table (block, sector, primary_extended_sector, part_nr)` on the device `d` of
`block_size` sectors, with `fuel` levels of recursion. -/
def read_partition_table (d : Disk) (block_size : Nat) : Nat → Nat → Nat → ScanState → ScanResult
  | 0, _, _, _ => .out_of_fuel
  | fuel + 1, sector, primary_extended_sector, st =>
    if sector ≥ block_size then .ok st
    else
      match st.heap.malloc with
      | (none, _) => .panic "Failed to allocate memory for partition table."
      | (some _, heap) =>
        -- `block_read (block, 0, pt)`: sector 0 is read, whatever `sector` is
        let pt := d 0
        if table_signature pt ≠ 0xaa55 then .ok { st with heap }
        else
          parse_partitions block_size (read_partition_table d block_size fuel) pt sector primary_extended_sector
            (List.range 4) { st with heap }

/-- `partition_scan (block)` with `fuel` levels of recursion. -/
def partition_scan (d : Disk) (block_size : Nat) (heap : Heap) (fuel : Nat) : ScanResult :=
  read_partition_table d block_size fuel 0 0 ⟨heap, 0, []⟩

end Pintos
