import Mathlib.Algebra.Group.Int.Defs
import Mathlib.Algebra.Group.Nat.Defs
import Mathlib.Data.Int.Init

/-! # 64-bit division (`lib/arithmetic.c`)

The routines GCC calls for 64-bit division on i386.  A `uint64_t` or `uint32_t` is a natural
number below `2 ^ 64` or `2 ^ 32`, and an `int64_t` or `int32_t` an integer in the signed range;
each expression is reduced to its type as C computes it: `% 2 ^ w` for an unsigned result,
`Int.bmod _ (2 ^ w)` for a signed one.  The `DIVL` instruction raises a divide error (#DE) when
its quotient does not fit in 32 bits or its divisor is 0: `none`.
-/

namespace Pintos
set_option autoImplicit false
set_option linter.style.nameCheck false

/-- `divl (n, d)`: `DIVL` of `edx:eax = n` by `d`. -/
def divl (n d : Nat) : Option Nat :=
  let n1 := n / 2 ^ 32 % 2 ^ 32
  let n0 := n % 2 ^ 32
  if d = 0 ∨ 2 ^ 32 ≤ (n1 * 2 ^ 32 + n0) / d then none
  else some ((n1 * 2 ^ 32 + n0) / d)

/-- One test of `nlz`: `if (x <= limit) { n += k; x <<= k; }` on the count `n` and the
`uint32_t` `x`. -/
def nlz_step (limit k : Nat) (nx : Nat × Nat) : Nat × Nat :=
  if nx.2 ≤ limit then (nx.1 + k, nx.2 * 2 ^ k % 2 ^ 32) else nx

/-- `nlz (x)`: the number of leading zero bits of the nonzero `x`. -/
def nlz (x : Nat) : Nat :=
  let nx := nlz_step 0x3FFFFFFF 2 (nlz_step 0x0FFFFFFF 4 (nlz_step 0x00FFFFFF 8 (nlz_step 0x0000FFFF 16 (0, x))))
  if nx.2 ≤ 0x7FFFFFFF then nx.1 + 1 else nx.1

def udiv64 (n d : Nat) : Option Nat :=
  if d / 2 ^ 32 = 0 then
    let b := 2 ^ 32
    let n1 := n / 2 ^ 32 % 2 ^ 32
    let n0 := n % 2 ^ 32
    let d0 := d % 2 ^ 32
    (divl ((b * (n1 % d0) + n0) % 2 ^ 64) d0).map fun q => (q + b * (n1 / d0)) % 2 ^ 64
  else if n < d then some 0
  else
    let d1 := d / 2 ^ 32 % 2 ^ 32
    let s := nlz d1
    (divl (n / 2) (d * 2 ^ s % 2 ^ 64 / 2 ^ 32 % 2 ^ 32)).map fun q =>
      -- the `uint32_t` quotient shifted back, then `n - (q - 1) * d < d ? q - 1 : q`
      let q := q / 2 ^ (31 - s)
      let q' := (q + 2 ^ 64 - 1) % 2 ^ 64
      if (n + 2 ^ 64 - q' * d % 2 ^ 64) % 2 ^ 64 < d then q' else q

/-- `umod64 (n, d)`, whose result is a `uint32_t`. -/
def umod64 (n d : Nat) : Option Nat :=
  (udiv64 n d).map fun q => (n + 2 ^ 64 - d * q % 2 ^ 64) % 2 ^ 64 % 2 ^ 32

def sdiv64 (n d : Int) : Option Int :=
  -- `(uint64_t) x` and `-(uint64_t) x`
  let n_abs := if n ≥ 0 then (n % 2 ^ 64).toNat else (-n % 2 ^ 64).toNat
  let d_abs := if d ≥ 0 then (d % 2 ^ 64).toNat else (-d % 2 ^ 64).toNat
  (udiv64 n_abs d_abs).map fun (q_abs : Nat) =>
    if (n < 0) = (d < 0) then Int.bmod q_abs (2 ^ 64)
    else Int.bmod (-Int.bmod q_abs (2 ^ 64)) (2 ^ 64)

/-- `smod64 (n, d)`, whose result is an `int32_t`. -/
def smod64 (n d : Int) : Option Int :=
  (sdiv64 n d).map fun q => Int.bmod (Int.bmod (n - Int.bmod (d * q) (2 ^ 64)) (2 ^ 64)) (2 ^ 32)

/-- `__divdi3 (n, d)`: signed 64-bit division. -/
def __divdi3 (n d : Int) : Option Int := sdiv64 n d

/-- `__moddi3 (n, d)`: signed 64-bit remainder. -/
def __moddi3 (n d : Int) : Option Int := smod64 n d

/-- `__udivdi3 (n, d)`: unsigned 64-bit division. -/
def __udivdi3 (n d : Nat) : Option Nat := udiv64 n d

/-- `__umoddi3 (n, d)`: unsigned 64-bit remainder. -/
def __umoddi3 (n d : Nat) : Option Nat := umod64 n d

end Pintos
