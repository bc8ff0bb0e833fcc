import Pintos.Devices.Block
import Pintos.Lib.Ustar

/-! # Archives on the scratch device (`filesys/fsutil.c`)

`fsutil_append` writes a file to the scratch device as a ustar header sector, its data sectors
and an end-of-archive marker; `fsutil_extract` reads such an archive back into the file system.
Each keeps its position on the device in a `static` variable, which the model takes and returns.
A `PANIC` is the `error` of an `Except`, carrying the format string the source passes to it.

The file system is given by its effect on the archive: the file `fsutil_append` copies is its
bytes, and `fsutil_extract` returns the files it creates, with the bytes it writes to each.
-/

namespace Pintos
set_option autoImplicit false
set_option maxHeartbeats 250000
set_option maxRecDepth 120000

/-- The scratch block device: its number of sectors and its contents. -/
structure Scratch where
  size : Nat
  disk : Disk

/-- The `PANIC` of `check_sector`. -/
def past_end_of_device : String := "Access past end of device %s (sector=%u, size=%u)\n"

/-- `block_write (dev, sector, buffer + ofs)` -/
def scratch_write (dev : Scratch) (sector : Nat) (buffer : Buffer) (ofs : Nat) : Except String Scratch :=
  if sector ≥ dev.size then .error past_end_of_device
  else .ok ⟨dev.size, block_write dev.disk sector buffer ofs⟩

/-- `block_read (dev, sector, buffer)` -/
def scratch_read (dev : Scratch) (sector : Nat) (buffer : Buffer) : Except String Buffer :=
  if sector ≥ dev.size then .error past_end_of_device
  else .ok (block_read dev.disk sector buffer 0)

theorem scratch_read_lt {dev : Scratch} {sector : Nat} {buffer b : Buffer}
    (h : scratch_read dev sector buffer = .ok b) : sector < dev.size := by
  unfold scratch_read at h
  split at h
  · cases h
  · omega

/-! ## `fsutil_append` -/

theorem sub_chunk_lt {size : Nat} (hs : size > 0) :
    size - (if size > BLOCK_SECTOR_SIZE then BLOCK_SECTOR_SIZE else size) < size := by
  split <;> simp only [BLOCK_SECTOR_SIZE] at * <;> omega

/-- The copy loop of `fsutil_append`: `size` bytes of the file are left, from offset `pos`, and go
to the sectors from `sector` on. -/
def append_loop (dev : Scratch) (data : List UInt8) (buffer : Buffer) (sector pos size : Nat) :
    Except String (Scratch × Buffer × Nat) :=
  if size > 0 then
    let chunk_size := if size > BLOCK_SECTOR_SIZE then BLOCK_SECTOR_SIZE else size
    if sector ≥ dev.size then .error "%s: out of space on scratch device"
    else
      -- `file_read (src, buffer, chunk_size)` reads from the file position on
      let bytes := (data.drop pos).take chunk_size
      if bytes.length ≠ chunk_size then .error "%s: read failed with %d bytes unread"
      else
        let buffer := memset (store_bytes buffer 0 bytes) chunk_size 0 (BLOCK_SECTOR_SIZE - chunk_size)
        match scratch_write dev sector buffer 0 with
        | .error e => .error e
        | .ok dev => append_loop dev data buffer (sector + 1) (pos + chunk_size) (size - chunk_size)
  else .ok (dev, buffer, sector)
termination_by size
decreasing_by exact sub_chunk_lt ‹_›

/-- `fsutil_append (argv)` for the file `file_name`: `buffer` is what `malloc` returned (its bytes
from 512 on are the memory after the block), `src` the bytes of the file `filesys_open` opened
and `dst` the scratch device; the device and the new position. -/
def fsutil_append (file_name : List UInt8) (buffer : Option Buffer) (src : Option (List UInt8))
    (dst : Option Scratch) (sector : Nat) : Except String (Scratch × Nat) :=
  match buffer with
  | none => .error "couldn't allocate buffer"
  | some buffer =>
    match src with
    | none => .error "%s: open failed"
    | some data =>
      match dst with
      | none => .error "couldn't open scratch device"
      | some dev =>
        match ustar_make_header file_name .USTAR_REGULAR data.length buffer with
        | some (true, buffer) =>
          match scratch_write dev sector buffer 0 with
          | .error e => .error e
          | .ok dev =>
            match append_loop dev data buffer (sector + 1) 0 data.length with
            | .error e => .error e
            | .ok (dev, buffer, sector) =>
              -- the end-of-archive marker: both writes go to `sector`, the second from `buffer + 1`
              let buffer := memset buffer 0 0 BLOCK_SECTOR_SIZE
              match scratch_write dev sector buffer 0 with
              | .error e => .error e
              | .ok dev =>
                match scratch_write dev sector buffer 1 with
                | .error e => .error e
                | .ok dev => .ok (dev, sector)
        -- `none` is the `ASSERT` on the type, which holds for `USTAR_REGULAR`
        | _ => .error "%s: name too long for ustar format"

/-- `run_actions` on a command line of `append` actions: each file name with the buffer its call
allocates and the file's bytes, run in order from the position `sector`. -/
def run_appends : List (List UInt8 × Buffer × List UInt8) → Scratch → Nat → Except String (Scratch × Nat)
  | [], dev, sector => .ok (dev, sector)
  | (file_name, buffer, data) :: files, dev, sector =>
    match fsutil_append file_name (some buffer) (some data) (some dev) sector with
    | .error e => .error e
    | .ok (dev, sector) => run_appends files dev sector

/-! ## `fsutil_extract` -/

/-- The copy loop of `fsutil_extract`: the bytes it writes to the new file, the data buffer, and
the sector after the file's data. -/
def extract_copy (dev : Scratch) (data : Buffer) (sector size : Nat) : Except String (List UInt8 × Buffer × Nat) :=
  if size > 0 then
    let chunk_size := if size > BLOCK_SECTOR_SIZE then BLOCK_SECTOR_SIZE else size
    match scratch_read dev sector data with
    | .error e => .error e
    | .ok data =>
      -- `file_write (dst, data, chunk_size)`
      match extract_copy dev data (sector + 1) (size - chunk_size) with
      | .error e => .error e
      | .ok (bytes, data', sector) => .ok ((List.range chunk_size).map data ++ bytes, data', sector)
  else .ok ([], data, sector)
termination_by size
decreasing_by exact sub_chunk_lt ‹_›

theorem extract_copy_sector_ge {dev : Scratch} {data data' : Buffer} {sector size sector' : Nat}
    {bytes : List UInt8} (h : extract_copy dev data sector size = .ok (bytes, data', sector')) :
    sector ≤ sector' := by
  induction size using Nat.strongRecOn generalizing data sector bytes with
  | ind size ih =>
    unfold extract_copy at h
    by_cases hs : size > 0
    · rw [if_pos hs] at h
      cases hr : scratch_read dev sector data with
      | error e =>
        rw [hr] at h
        cases h
      | ok d =>
        rw [hr] at h
        dsimp only at h
        split at h
        · cases h
        · next bytes' d' s' hc =>
          cases h
          have := ih _ (sub_chunk_lt hs) hc
          omega
    · rw [if_neg hs] at h
      cases h
      exact Nat.le_refl _

/-- The loop of `fsutil_extract` from the header at `sector`: the files it creates, each with the
bytes written to it, then the header buffer and the position after the end-of-archive marker. -/
def extract_loop (dev : Scratch) (header data : Buffer) (sector : Nat) (files : List (List UInt8 × List UInt8)) :
    Except String (List (List UInt8 × List UInt8) × Buffer × Nat) :=
  match _hr : scratch_read dev sector header with
  | .error e => .error e
  | .ok header =>
    match ustar_parse_header header with
    | .error _ => .error "bad ustar header in sector %u (%s)"
    | .ok (file_name, type, size) =>
      match type with
      | .USTAR_EOF => .ok (files, header, sector + 1)
      -- `printf ("ignoring directory %s\n", file_name)`
      | .USTAR_DIRECTORY => extract_loop dev header data (sector + 1) files
      | .USTAR_REGULAR =>
        match _hc : extract_copy dev data (sector + 1) size.toNat with
        | .error e => .error e
        | .ok (bytes, data, sector') => extract_loop dev header data sector' (files ++ [(file_name.getD [], bytes)])
termination_by dev.size - sector
decreasing_by
  · have := scratch_read_lt _hr
    omega
  · have := scratch_read_lt _hr
    have := extract_copy_sector_ge _hc
    omega

/-- `fsutil_extract (argv)`: `header` and `data` are what the two `malloc`s returned and `src` the
scratch device; the files created, the device and the new position. -/
def fsutil_extract (header data : Option Buffer) (src : Option Scratch) (sector : Nat) :
    Except String (List (List UInt8 × List UInt8) × Scratch × Nat) :=
  match header, data with
  | some header, some data =>
    match src with
    | none => .error "couldn't open scratch device"
    | some dev =>
      match extract_loop dev header data sector [] with
      | .error e => .error e
      | .ok (files, header, sector) =>
        -- erase the first two sectors, so that extracting again finds an empty archive
        let header := memset header 0 0 BLOCK_SECTOR_SIZE
        match scratch_write dev 0 header 0 with
        | .error e => .error e
        | .ok dev =>
          match scratch_write dev 1 header 0 with
          | .error e => .error e
          | .ok dev => .ok (files, dev, sector)
  | _, _ => .error "couldn't allocate buffers"

end Pintos
