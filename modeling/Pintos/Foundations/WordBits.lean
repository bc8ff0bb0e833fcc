import Pintos.Foundations.LittleEndian
import Mathlib.Logic.Function.Basic

/-! # Bit arrays stored in 32-bit words

An array of bits kept in machine words: bit `i` is bit `i % 32` of word `i / 32`.  A word
array is a function `Nat → BitVec 32`; `wordBit` is its bit view.  The three word operations
a bit array needs (test with a one-bit mask, set with `|||`, clear with `&&& ~~~`) are read
back bit by bit, so that a client proves facts about its bit view without looking at words.

`bytesOfWords`/`wordsOfBytes` store a word array in a byte string little-endian (the memory
image of the array on i386) and read it back.
-/

namespace WordBits
set_option autoImplicit false
set_option maxHeartbeats 250000
set_option maxRecDepth 120000

/-- The one-bit mask `1 << k` of a 32-bit word. -/
def mask (k : Nat) : BitVec 32 := 1#32 <<< k

theorem getLsbD_mask (k j : Nat) (hk : k < 32) : (mask k).getLsbD j = decide (j = k) := by
  simp only [mask, BitVec.getLsbD_shiftLeft, BitVec.getLsbD_one]
  by_cases hj : j = k
  · subst hj
    simp [hk]
  · by_cases hkj : k ≤ j
    · have hne : j - k ≠ 0 := by omega
      simp [hne, hj]
    · simp [hkj, hj]

theorem getLsbD_and_mask (w : BitVec 32) (k j : Nat) (hk : k < 32) :
    (w &&& mask k).getLsbD j = (w.getLsbD k && decide (j = k)) := by
  rw [BitVec.getLsbD_and, getLsbD_mask k j hk]
  by_cases hj : j = k
  · subst hj
    simp
  · simp [hj]

theorem and_mask_ne_zero (w : BitVec 32) (k : Nat) (hk : k < 32) :
    ((w &&& mask k) != 0) = w.getLsbD k := by
  cases h : w.getLsbD k
  · have hz : (w &&& mask k) = 0 := by
      apply BitVec.eq_of_getLsbD_eq
      intro j _
      rw [getLsbD_and_mask w k j hk, h]
      simp
    simp [hz]
  · have hnz : (w &&& mask k) ≠ 0 := by
      intro h0
      have hbit := getLsbD_and_mask w k k hk
      rw [h0, h] at hbit
      simp at hbit
    simpa using hnz

theorem getLsbD_or_mask (w : BitVec 32) (k j : Nat) (hk : k < 32) :
    (w ||| mask k).getLsbD j = (w.getLsbD j || decide (j = k)) := by
  rw [BitVec.getLsbD_or, getLsbD_mask k j hk]

theorem getLsbD_and_not_mask (w : BitVec 32) (k j : Nat) (hj : j < 32) :
    (w &&& ~~~mask k).getLsbD j = (w.getLsbD j && !decide (j = k)) := by
  by_cases hk : k < 32
  · rw [BitVec.getLsbD_and, BitVec.getLsbD_not, getLsbD_mask k j hk]
    simp [hj]
  · have hjk : j ≠ k := by omega
    simp only [BitVec.getLsbD_and, BitVec.getLsbD_not, mask, BitVec.getLsbD_shiftLeft,
      BitVec.getLsbD_one]
    simp [hj, hjk]
    omega

/-! ## The bit view of a word array -/

/-- Bit `i` of the word array `ws`. -/
def wordBit (ws : Nat → BitVec 32) (i : Nat) : Bool := (ws (i / 32)).getLsbD (i % 32)

theorem wordBit_update_or (ws : Nat → BitVec 32) (i j : Nat) :
    wordBit (Function.update ws (i / 32) (ws (i / 32) ||| mask (i % 32))) j =
      (wordBit ws j || decide (j = i)) := by
  unfold wordBit
  by_cases hw : j / 32 = i / 32
  · rw [hw, Function.update_self, getLsbD_or_mask _ _ _ (Nat.mod_lt _ (by omega))]
    have hiff : (j % 32 = i % 32) ↔ (j = i) := by omega
    simp [hiff]
  · have hji : j ≠ i := fun h => hw (by rw [h])
    rw [Function.update_of_ne hw]
    simp [hji]

theorem wordBit_update_and_not (ws : Nat → BitVec 32) (i j : Nat) :
    wordBit (Function.update ws (i / 32) (ws (i / 32) &&& ~~~mask (i % 32))) j =
      (wordBit ws j && !decide (j = i)) := by
  unfold wordBit
  by_cases hw : j / 32 = i / 32
  · rw [hw, Function.update_self, getLsbD_and_not_mask _ _ _ (Nat.mod_lt _ (by omega))]
    have hiff : (j % 32 = i % 32) ↔ (j = i) := by omega
    simp [hiff]
  · have hji : j ≠ i := fun h => hw (by rw [h])
    rw [Function.update_of_ne hw]
    simp [hji]

/-! ## Words in memory -/

/-- The memory image of a word array: word `k` at bytes `4k … 4k+3`, little-endian. -/
def bytesOfWords (ws : Nat → BitVec 32) : Nat → UInt8 :=
  LittleEndian.encodeU32s (fun k => (ws k).toNat)

/-- The word array whose memory image is the byte string `b`. -/
def wordsOfBytes (b : Nat → UInt8) : Nat → BitVec 32 :=
  fun k => BitVec.ofNat 32 (LittleEndian.getU32 b (4 * k))

theorem wordsOfBytes_bytesOfWords (ws : Nat → BitVec 32) : wordsOfBytes (bytesOfWords ws) = ws := by
  funext k
  rw [wordsOfBytes, bytesOfWords, LittleEndian.getU32_encodeU32s,
    Nat.mod_eq_of_lt (ws k).isLt]
  simp

end WordBits
