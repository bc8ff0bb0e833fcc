import Mathlib.Algebra.Group.Int.Defs
import Mathlib.Algebra.Group.Nat.Defs
import Mathlib.Data.Int.Basic

/-! # Little-endian 32-bit words in byte strings

A byte string is a function `Nat → UInt8` (offset to byte).  A 32-bit word occupies four
consecutive bytes, least significant first, as on i386.  `getU32` reads a word back as a
natural number below `2 ^ 32`; `getU32_of_bytes` is the one fact every codec built on top
of this module uses: four bytes laid down by `byteOf` read back as the word modulo `2 ^ 32`.

Signed words (`int32_t`) are read and written in two's complement by `decodeSigned32` and
`encodeSigned32`.
-/

namespace LittleEndian
set_option autoImplicit false
set_option maxHeartbeats 250000
set_option maxRecDepth 120000

/-- Byte `k` (counting from the least significant) of the word `w`. -/
def byteOf (w k : Nat) : UInt8 := UInt8.ofNat (w / 256 ^ k)

/-- The word stored little-endian at offset `ofs`. -/
def getU32 (b : Nat → UInt8) (ofs : Nat) : Nat :=
  (b ofs).toNat + 256 * (b (ofs + 1)).toNat + 65536 * (b (ofs + 2)).toNat +
    16777216 * (b (ofs + 3)).toNat

/-- The words `ws 0, ws 1, …` laid out one after another, four bytes each. -/
def encodeU32s (ws : Nat → Nat) : Nat → UInt8 := fun i => byteOf (ws (i / 4)) (i % 4)

theorem byteOf_toNat (w k : Nat) : (byteOf w k).toNat = w / 256 ^ k % 256 := by
  simp [byteOf]

theorem getU32_lt (b : Nat → UInt8) (ofs : Nat) : getU32 b ofs < 2 ^ 32 := by
  have h0 := UInt8.toNat_lt (b ofs)
  have h1 := UInt8.toNat_lt (b (ofs + 1))
  have h2 := UInt8.toNat_lt (b (ofs + 2))
  have h3 := UInt8.toNat_lt (b (ofs + 3))
  simp only [getU32]
  omega

theorem getU32_of_bytes (b : Nat → UInt8) (ofs w : Nat)
    (hb : ∀ j, j < 4 → b (ofs + j) = byteOf w j) : getU32 b ofs = w % 2 ^ 32 := by
  have h0 : b ofs = byteOf w 0 := hb 0 (by omega)
  rw [getU32, h0, hb 1 (by omega), hb 2 (by omega), hb 3 (by omega)]
  simp only [byteOf_toNat, Nat.reducePow, Nat.pow_zero, Nat.div_one]
  omega

theorem getU32_encodeU32s (ws : Nat → Nat) (k : Nat) :
    getU32 (encodeU32s ws) (4 * k) = ws k % 2 ^ 32 := by
  apply getU32_of_bytes
  intro j hj
  have hdiv : (4 * k + j) / 4 = k := by omega
  have hmod : (4 * k + j) % 4 = j := by omega
  simp only [encodeU32s, hdiv, hmod]

theorem getU32_congr (b c : Nat → UInt8) (ofs : Nat) (h : ∀ j, j < 4 → b (ofs + j) = c (ofs + j)) :
    getU32 b ofs = getU32 c ofs := by
  have h0 : b ofs = c ofs := h 0 (by omega)
  rw [getU32, getU32, h0, h 1 (by omega), h 2 (by omega), h 3 (by omega)]

/-! ## Signed words -/

/-- An `int32_t` read from its 32-bit pattern. -/
def decodeSigned32 (n : Nat) : Int := if n < 2 ^ 31 then n else (n : Int) - 2 ^ 32

/-- The 32-bit pattern of an `int32_t`. -/
def encodeSigned32 (x : Int) : Nat := (x % 2 ^ 32).toNat

theorem decodeSigned32_encodeSigned32 (x : Int) (hlo : -2 ^ 31 ≤ x) (hhi : x < 2 ^ 31) :
    decodeSigned32 (encodeSigned32 x % 2 ^ 32) = x := by
  unfold decodeSigned32 encodeSigned32
  split <;> omega

end LittleEndian
