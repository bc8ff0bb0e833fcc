import Pintos.Foundations.LittleEndian
import Pintos.Lib.Memory
import Pintos.Threads.Vaddr

/-! # Memory as the kernel sees it while it runs for a process

Virtual addresses are 32-bit.  The process's page directory maps its user pages below
`PHYS_BASE` and, above it, the kernel's mapping of physical memory; a kernel access to a
page it does not map is a page fault in kernel code, which `kill` turns into a kernel panic.
So a kernel load or store is `none` exactly when it touches an absent page, and it succeeds on
every present page, the kernel's own included.
-/

namespace Pintos
set_option autoImplicit false
set_option maxHeartbeats 250000
set_option maxRecDepth 120000

open LittleEndian

/-- The pages present in the current page directory, by page number, and the byte at every
virtual address. -/
structure AddrSpace where
  present : Nat → Bool
  mem : Nat → UInt8

namespace AddrSpace

/-- A kernel read of the byte at `a` (taken modulo `2^32`). -/
def load (as : AddrSpace) (a : Nat) : Option UInt8 :=
  let a := a % 2 ^ 32
  if as.present (pg_no a) then some (as.mem a) else none

/-- A kernel write of `v` at `a`. -/
def store (as : AddrSpace) (a : Nat) (v : UInt8) : Option AddrSpace :=
  let a := a % 2 ^ 32
  if as.present (pg_no a) then some { as with mem := Function.update as.mem a v } else none

/-- The `n` bytes from `a` on, read in ascending order. -/
def load_range (as : AddrSpace) (a : Nat) : Nat → Option (List UInt8)
  | 0 => some []
  | n + 1 => do
    let b ← as.load a
    let bs ← as.load_range (a + 1) n
    pure (b :: bs)

/-- The first `n` bytes of `src` written from `a` on, in ascending order. -/
def store_range (as : AddrSpace) (a : Nat) (src : Buffer) : Nat → Option AddrSpace
  | 0 => some as
  | n + 1 => do
    let as ← as.store_range a src n
    as.store (a + n) (src n)

/-- `memset (dst, value, size)`: `ASSERT (dst != NULL || size == 0)`, then the stores in
ascending order. -/
def memset (as : AddrSpace) (dst : Nat) (value : UInt8) (size : Nat) : Option AddrSpace :=
  if dst = 0 ∧ size ≠ 0 then none else as.store_range dst (fun _ => value) size

/-- The bytes of the C string at `a`, read up to its NUL; `fuel` bounds the scan. -/
def load_cstr_from (as : AddrSpace) (a : Nat) : Nat → Option (List UInt8)
  | 0 => none
  | fuel + 1 =>
    match as.load a with
    | none => none
    | some 0 => some []
    | some c => (as.load_cstr_from (a + 1) fuel).map (c :: ·)

/-- The C string at `a`: a string with no NUL in the whole address space is never left. -/
def load_cstr (as : AddrSpace) (a : Nat) : Option (List UInt8) := as.load_cstr_from a (2 ^ 32)

/-- The bytes from `a` on as a kernel buffer (what a pointer into user memory hands to
`file_read` and `file_write`). -/
def view (as : AddrSpace) (a : Nat) : Buffer := fun k => as.mem ((a + k) % 2 ^ 32)

/-- The little-endian `int` at `a`. -/
def load_int (as : AddrSpace) (a : Nat) : Option Int :=
  (as.load_range a 4).map (fun bs => decodeSigned32 (getU32 (fun k => bs.getD k 0) 0))

/-! ## Loads and stores fault exactly on absent pages -/

theorem load_eq_none_iff (as : AddrSpace) (a : Nat) :
    as.load a = none ↔ as.present (pg_no (a % 2 ^ 32)) = false := by
  simp [load]

theorem load_of_present (as : AddrSpace) (a : Nat) (h : as.present (pg_no (a % 2 ^ 32)) = true) :
    as.load a = some (as.mem (a % 2 ^ 32)) := by
  simp only [load, h, if_true]

theorem load_range_eq_some_iff (as : AddrSpace) (a n : Nat) :
    (∃ bs, as.load_range a n = some bs) ↔ ∀ k < n, as.present (pg_no ((a + k) % 2 ^ 32)) = true := by
  induction n generalizing a with
  | zero => simp [load_range]
  | succ n ih =>
    constructor
    · rintro ⟨bs, h⟩ k hk
      simp only [load_range, Option.bind_eq_bind, Option.bind_eq_some_iff, Option.pure_def,
        Option.some.injEq] at h
      obtain ⟨b, hb, bs', hbs, -⟩ := h
      cases k with
      | zero =>
        by_contra hne
        rw [Bool.not_eq_true, Nat.add_zero, ← load_eq_none_iff] at hne
        rw [hne] at hb
        cases hb
      | succ k =>
        have := (ih (a + 1)).mp ⟨bs', hbs⟩ k (by omega)
        rwa [Nat.add_assoc, Nat.add_comm 1 k] at this
    · intro h
      have h0 := h 0 (Nat.succ_pos n)
      rw [Nat.add_zero] at h0
      obtain ⟨bs, hbs⟩ := (ih (a + 1)).mpr (fun k hk => by
        have := h (k + 1) (by omega)
        rwa [← Nat.add_assoc, Nat.add_right_comm] at this)
      exact ⟨as.mem (a % 2 ^ 32) :: bs, by simp only [load_range, load_of_present as a h0, hbs]; rfl⟩

theorem load_range_eq_none (as : AddrSpace) (a n k : Nat) (hk : k < n)
    (habs : as.present (pg_no ((a + k) % 2 ^ 32)) = false) : as.load_range a n = none := by
  rcases h : as.load_range a n with _ | bs
  · rfl
  · have := (load_range_eq_some_iff as a n).mp ⟨bs, h⟩ k hk
    rw [habs] at this
    cases this

theorem load_range_of_present (as : AddrSpace) (a n : Nat)
    (h : ∀ k < n, as.present (pg_no ((a + k) % 2 ^ 32)) = true) :
    as.load_range a n = some ((List.range n).map (as.view a)) := by
  induction n generalizing a with
  | zero => rfl
  | succ n ih =>
    have h0 := h 0 (Nat.succ_pos n)
    rw [Nat.add_zero] at h0
    have hrest := ih (a + 1) (fun k hk => by
      have := h (k + 1) (by omega)
      rwa [← Nat.add_assoc, Nat.add_right_comm] at this)
    have hshift : (List.range n).map (as.view (a + 1)) = (List.range n).map (fun k => as.view a (k + 1)) := by
      apply List.map_congr_left
      intro k _
      simp only [view, Nat.add_assoc, Nat.add_comm 1 k]
    simp only [load_range, load_of_present as a h0, hrest, hshift, List.range_succ_eq_map, List.map_cons,
      List.map_map]
    rfl

theorem load_int_of_present (as : AddrSpace) (a : Nat) (h : ∀ k < 4, as.present (pg_no ((a + k) % 2 ^ 32)) = true) :
    as.load_int a = some (decodeSigned32 (getU32 (as.view a) 0)) := by
  rw [load_int, load_range_of_present as a 4 h]
  rfl

theorem load_int_eq_none (as : AddrSpace) (a k : Nat) (hk : k < 4)
    (habs : as.present (pg_no ((a + k) % 2 ^ 32)) = false) : as.load_int a = none := by
  rw [load_int, load_range_eq_none as a 4 k hk habs]
  rfl

theorem store_eq_some_iff (as as' : AddrSpace) (a : Nat) (v : UInt8) :
    as.store a v = some as' ↔
      as.present (pg_no (a % 2 ^ 32)) = true ∧ as' = { as with mem := Function.update as.mem (a % 2 ^ 32) v } := by
  unfold store
  dsimp only
  by_cases hp : as.present (pg_no (a % 2 ^ 32)) = true
  · rw [if_pos hp, Option.some.injEq]
    exact ⟨fun h => ⟨hp, h.symm⟩, fun h => h.2.symm⟩
  · rw [if_neg hp]
    constructor
    · intro h
      cases h
    · intro h
      exact absurd h.1 hp

theorem store_present {as as' : AddrSpace} {a : Nat} {v : UInt8} (h : as.store a v = some as') :
    as'.present = as.present := by
  rw [((store_eq_some_iff as as' a v).mp h).2]

theorem store_range_present {as as' : AddrSpace} {a : Nat} {src : Buffer} {n : Nat}
    (h : as.store_range a src n = some as') : as'.present = as.present := by
  induction n generalizing as' with
  | zero =>
    cases h
    rfl
  | succ n ih =>
    simp only [store_range, Option.bind_eq_bind, Option.bind_eq_some_iff] at h
    obtain ⟨as₁, h₁, h₂⟩ := h
    rw [store_present h₂, ih h₁]

theorem store_range_eq_some_iff (as : AddrSpace) (a : Nat) (src : Buffer) (n : Nat) :
    (∃ as', as.store_range a src n = some as') ↔ ∀ k < n, as.present (pg_no ((a + k) % 2 ^ 32)) = true := by
  induction n with
  | zero => simp [store_range]
  | succ n ih =>
    simp only [store_range, Option.bind_eq_bind, Option.bind_eq_some_iff]
    constructor
    · rintro ⟨as', as₁, h₁, h₂⟩ k hk
      have hpres := store_range_present h₁
      rcases Nat.lt_succ_iff_lt_or_eq.mp hk with hk | rfl
      · exact (ih.mp ⟨as₁, h₁⟩) k hk
      · rw [← hpres]
        exact ((store_eq_some_iff _ _ _ _).mp h₂).1
    · intro h
      obtain ⟨as₁, h₁⟩ := ih.mpr (fun k hk => h k (by omega))
      have hp : as₁.present (pg_no ((a + n) % 2 ^ 32)) = true := by
        rw [store_range_present h₁]
        exact h n (by omega)
      exact ⟨_, as₁, h₁, (store_eq_some_iff _ _ _ _).mpr ⟨hp, rfl⟩⟩

theorem memset_eq_none (as : AddrSpace) (dst : Nat) (value : UInt8) (size k : Nat) (hk : k < size)
    (habs : as.present (pg_no ((dst + k) % 2 ^ 32)) = false) : as.memset dst value size = none := by
  unfold memset
  split
  · rfl
  · rcases h : as.store_range dst (fun _ => value) size with _ | as'
    · rfl
    · have := (store_range_eq_some_iff as dst _ size).mp ⟨as', h⟩ k hk
      rw [habs] at this
      cases this

theorem memset_of_present (as : AddrSpace) (dst : Nat) (value : UInt8) (size : Nat) (hdst : dst ≠ 0)
    (h : ∀ k < size, as.present (pg_no ((dst + k) % 2 ^ 32)) = true) : ∃ as', as.memset dst value size = some as' := by
  unfold memset
  rw [if_neg (by omega)]
  exact (store_range_eq_some_iff as dst _ size).mpr h

theorem load_cstr_eq_none (as : AddrSpace) (a : Nat) (h : as.load a = none) : as.load_cstr a = none := by
  rw [load_cstr, show (2 : Nat) ^ 32 = 2 ^ 32 - 1 + 1 from rfl, load_cstr_from, h]

end AddrSpace

end Pintos
