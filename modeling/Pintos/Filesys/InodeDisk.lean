import Pintos.Devices.Block
import Pintos.Foundations.LittleEndian

/-! # The on-disk inode and its index (`filesys/inode.c`, lines 1-95 and 428-446)

`struct inode_disk` is one sector: 124 direct sector numbers, the first-level indirect block
`ib`, a directory flag, three bytes of padding, the length (`off_t`) and the magic number.
`struct indirect_block` is one sector of 128 sector numbers.  Both are stored and read back
through the little-endian codec, so that `inode_open` (a `block_read` into `inode->data`) sees
exactly what `inode_create` wrote, and the index that `write_sectors_to_disk` lays down can be
read back entry by entry.

Arithmetic follows the code's types: `off_t` is `int32_t`, `size_t` and `block_sector_t` are
`uint32_t`, and signed overflow wraps as on i386.
-/

namespace Pintos
set_option autoImplicit false
set_option maxHeartbeats 250000
set_option maxRecDepth 120000

open LittleEndian

def DIRECT_BLOCK : Nat := 124

/-- `1 + 124 + 2 ** 7 + 2 ** 14` -/
def MAX_BLOCK_NUMBER : Nat := 16637

def INODE_MAGIC : Nat := 0x494e4f44

/-- `struct inode_disk` -/
structure InodeDisk where
  sectors : Fin DIRECT_BLOCK → Nat
  ib : Nat
  is_directory : Bool
  length : Int
  magic : Nat

/-- The zeroed `inode_disk` that `calloc` returns. -/
def InodeDisk.zero : InodeDisk :=
  { sectors := fun _ => 0, ib := 0, is_directory := false, length := 0, magic := 0 }

/-- The sector image of an `inode_disk`. -/
def InodeDisk.encode (di : InodeDisk) : Sector := fun i =>
  if h : i < 496 then byteOf (di.sectors ⟨i / 4, by unfold DIRECT_BLOCK; omega⟩) (i % 4)
  else if i < 500 then byteOf di.ib (i - 496)
  else if i = 500 then (if di.is_directory then 1 else 0)
  else if i < 504 then 0
  else if i < 508 then byteOf (encodeSigned32 di.length) (i - 504)
  else if i < 512 then byteOf di.magic (i - 508)
  else 0

/-- `block_read (fs_device, sector, &inode->data)`: the `inode_disk` a sector holds. -/
def InodeDisk.decode (s : Sector) : InodeDisk where
  sectors := fun k => getU32 s (4 * k.val)
  ib := getU32 s 496
  is_directory := s 500 != 0
  length := decodeSigned32 (getU32 s 504)
  magic := getU32 s 508

/-- `struct indirect_block` as read from a sector: entry `k` is bytes `4k … 4k+3`. -/
def indirect_of (s : Sector) : Nat → Nat := fun k => getU32 s (4 * k)

/-- The sector image of an indirect block whose entries are `sectors`. -/
def indirect_encode (sectors : Nat → Nat) : Sector := encodeU32s sectors

theorem indirect_of_encode (sectors : Nat → Nat) (k : Nat) :
    indirect_of (indirect_encode sectors) k = sectors k % 2 ^ 32 :=
  getU32_encodeU32s sectors k

theorem decode_encode_sectors (di : InodeDisk) (k : Fin DIRECT_BLOCK) :
    (InodeDisk.decode di.encode).sectors k = di.sectors k % 2 ^ 32 := by
  have hk := k.isLt
  unfold DIRECT_BLOCK at hk
  apply getU32_of_bytes
  intro j hj
  have hlt : 4 * k.val + j < 496 := by omega
  have hdiv : (4 * k.val + j) / 4 = k.val := by omega
  have hmod : (4 * k.val + j) % 4 = j := by omega
  simp [InodeDisk.encode, hlt, hdiv, hmod]

theorem decode_encode_ib (di : InodeDisk) : (InodeDisk.decode di.encode).ib = di.ib % 2 ^ 32 := by
  apply getU32_of_bytes
  intro j hj
  have h1 : ¬(496 + j < 496) := by omega
  have h2 : 496 + j < 500 := by omega
  simp [InodeDisk.encode, h1, h2]

theorem decode_encode_length (di : InodeDisk) (hlo : -2 ^ 31 ≤ di.length) (hhi : di.length < 2 ^ 31) :
    (InodeDisk.decode di.encode).length = di.length := by
  have hget : getU32 di.encode 504 = encodeSigned32 di.length % 2 ^ 32 := by
    apply getU32_of_bytes
    intro j hj
    have h1 : ¬(504 + j < 496) := by omega
    have h2 : ¬(504 + j < 500) := by omega
    have h3 : ¬(504 + j = 500) := by omega
    have h4 : ¬(504 + j < 504) := by omega
    have h5 : 504 + j < 508 := by omega
    simp [InodeDisk.encode, h1, h2, h3, h4, h5]
  simp only [InodeDisk.decode]
  rw [hget]
  exact decodeSigned32_encodeSigned32 di.length hlo hhi

theorem getU32_sectorOf (b : Buffer) (ofs : Nat) (h : ofs + 4 ≤ BLOCK_SECTOR_SIZE) :
    getU32 (sectorOf b 0) ofs = getU32 b ofs :=
  getU32_congr _ _ ofs (fun j hj => by rw [sectorOf_apply b 0 _ (by omega), Nat.zero_add])

theorem decode_sectorOf (b : Buffer) : InodeDisk.decode (sectorOf b 0) = InodeDisk.decode b := by
  have h500 : sectorOf b 0 500 = b 500 := by rw [sectorOf_apply b 0 500 (by decide), Nat.zero_add]
  unfold InodeDisk.decode
  rw [getU32_sectorOf b 496 (by decide), getU32_sectorOf b 504 (by decide),
    getU32_sectorOf b 508 (by decide), h500]
  congr 1
  funext k
  have hk := k.isLt
  unfold DIRECT_BLOCK at hk
  exact getU32_sectorOf b _ (by unfold BLOCK_SECTOR_SIZE; omega)

theorem indirect_of_sectorOf (b : Buffer) (k : Nat) (hk : k < 128) :
    indirect_of (sectorOf b 0) k = indirect_of b k :=
  getU32_sectorOf b (4 * k) (by unfold BLOCK_SECTOR_SIZE; omega)

/-! ## Sizes -/

/-- A 32-bit two's-complement result as `int`. -/
def wrapInt32 (x : Int) : Int := decodeSigned32 (encodeSigned32 x % 2 ^ 32)

/-- An `int` converted to `size_t` (`uint32_t`). -/
def toSizeT (x : Int) : Nat := encodeSigned32 x % 2 ^ 32

theorem wrapInt32_eq_self (x : Int) (hlo : -2 ^ 31 ≤ x) (hhi : x < 2 ^ 31) : wrapInt32 x = x :=
  decodeSigned32_encodeSigned32 x hlo hhi

/-- `bytes_to_sectors (size)`: `DIV_ROUND_UP (size, BLOCK_SECTOR_SIZE)` in `int`, returned
as `size_t`. -/
def bytes_to_sectors (size : Int) : Nat :=
  toSizeT (Int.tdiv (wrapInt32 (size + (BLOCK_SECTOR_SIZE - 1))) BLOCK_SECTOR_SIZE)

/-- `compute_total_sectors (sectors)`: data sectors plus the first-level block plus
`(sectors - 124) / 128` second-level blocks, as the code counts them. -/
def compute_total_sectors (sectors : Nat) : Nat :=
  if sectors ≤ DIRECT_BLOCK then sectors
  else
    let second_level := (sectors - DIRECT_BLOCK) / 128
    let indirect_sectors := sectors - DIRECT_BLOCK
    (indirect_sectors + second_level + 1 + DIRECT_BLOCK) % 2 ^ 32

theorem compute_total_sectors_of_le (n : Nat) (hn : n ≤ DIRECT_BLOCK) : compute_total_sectors n = n := by
  simp [compute_total_sectors, hn]

/-- Past the direct blocks, and without wrap-around: the data sectors, `ib`, and one
second-level block per full 128 of the indirect data sectors. -/
theorem compute_total_sectors_of_gt (n : Nat) (hn : DIRECT_BLOCK < n) (hsmall : n < 2 ^ 31) :
    compute_total_sectors n = n - DIRECT_BLOCK + (n - DIRECT_BLOCK) / 128 + 1 + DIRECT_BLOCK := by
  unfold compute_total_sectors
  rw [if_neg (by omega)]
  simp only [DIRECT_BLOCK] at *
  omega

theorem le_compute_total_sectors (n : Nat) (hn : n < 2 ^ 31) : n ≤ compute_total_sectors n := by
  by_cases h : n ≤ DIRECT_BLOCK
  · rw [compute_total_sectors_of_le n h]
  · rw [compute_total_sectors_of_gt n (by omega) hn]
    omega

theorem bytes_to_sectors_eq (size : Int) (h0 : 0 ≤ size) (h1 : size + 511 < 2 ^ 31) :
    bytes_to_sectors size = (size.toNat + 511) / 512 := by
  have hw : wrapInt32 (size + (BLOCK_SECTOR_SIZE - 1)) = size + 511 := by
    unfold wrapInt32 BLOCK_SECTOR_SIZE decodeSigned32 encodeSigned32
    split <;> omega
  unfold bytes_to_sectors toSizeT encodeSigned32
  rw [hw, BLOCK_SECTOR_SIZE, Int.tdiv_eq_ediv_of_nonneg (by omega)]
  omega

/-- Within 511 of `2^31` the rounding addition wraps to a negative `int`; its quotient, truncated
toward zero, comes back as `size_t` just below `2^32`. -/
theorem bytes_to_sectors_of_wrap (size : Int) (h0 : 2 ^ 31 - 511 ≤ size) (h1 : size < 2 ^ 31) :
    bytes_to_sectors size = 2 ^ 32 - ((2 ^ 32 - (size + 511)) / 512).toNat := by
  have hw : wrapInt32 (size + (BLOCK_SECTOR_SIZE - 1)) = -(2 ^ 32 - (size + 511)) := by
    unfold wrapInt32 BLOCK_SECTOR_SIZE decodeSigned32 encodeSigned32
    split <;> omega
  unfold bytes_to_sectors toSizeT encodeSigned32
  rw [hw, Int.neg_tdiv, BLOCK_SECTOR_SIZE, Int.tdiv_eq_ediv_of_nonneg (by omega)]
  omega

theorem toSizeT_tdiv (x : Int) (h0 : 0 ≤ x) (h1 : x < 2 ^ 31) :
    toSizeT (Int.tdiv x BLOCK_SECTOR_SIZE) = x.toNat / 512 := by
  unfold toSizeT encodeSigned32
  rw [BLOCK_SECTOR_SIZE, Int.tdiv_eq_ediv_of_nonneg h0]
  omega

end Pintos
