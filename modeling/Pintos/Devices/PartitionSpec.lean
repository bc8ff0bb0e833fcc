import Pintos.Devices.Partition

/-! # What `partition_scan` does

Every partition `found_partition` registers lies inside the device (`partition_scan_in_bounds`),
whatever the tables hold.  But every level of `read_partition_table` reads sector 0: an MBR whose
first entry is an extended partition at `X` sends the scan to `X`, where it reads the MBR again
and goes on to `X + X`, and from there to `X + X` again, for ever
(`partition_scan_never_returns`).
-/

namespace Pintos
set_option autoImplicit false

/-- The run returned, rather than `PANIC`king or running out of fuel. -/
def ScanResult.returned : ScanResult → Bool
  | .ok _ => true
  | _ => false

@[simp] theorem ScanResult.bind_ok (st : ScanState) (f : ScanState → ScanResult) :
    (ScanResult.ok st).bind f = f st := rfl

@[simp] theorem ScanResult.bind_out_of_fuel (f : ScanState → ScanResult) :
    ScanResult.out_of_fuel.bind f = .out_of_fuel := rfl

theorem ScanResult.bind_not_returned {r : ScanResult} (f : ScanState → ScanResult) (h : r.returned = false) :
    (r.bind f).returned = false := by
  cases r with
  | ok st => simp [ScanResult.returned] at h
  | panic msg => rfl
  | out_of_fuel => rfl

theorem ScanResult.bind_eq_ok {r : ScanResult} {f : ScanState → ScanResult} {st' : ScanState}
    (h : r.bind f = .ok st') : ∃ st, r = .ok st ∧ f st = .ok st' := by
  cases r with
  | ok st => exact ⟨st, rfl, h⟩
  | panic msg => cases h
  | out_of_fuel => cases h

/-! ## Registered partitions lie inside the device -/

/-- Every partition registered so far lies inside a device of `block_size` sectors. -/
def InBounds (block_size : Nat) (st : ScanState) : Prop :=
  ∀ p ∈ st.registered, p.start < block_size ∧ p.start + p.size ≤ block_size

theorem found_partition_in_bounds {block_size : Nat} {st st' : ScanState} {part_type : UInt8}
    {start size part_nr : Nat} (hstart : start < 2 ^ 32) (hsize : size < 2 ^ 32) (hst : InBounds block_size st)
    (h : found_partition block_size st part_type start size part_nr = .ok st') : InBounds block_size st' := by
  unfold found_partition at h
  split_ifs at h with hpast hend
  · cases h
    exact hst
  · cases h
    exact hst
  · split at h
    · cases h
    · cases h
      intro p hp
      rcases List.mem_append.mp hp with hp | hp
      · exact hst p hp
      · rw [List.mem_singleton] at hp
        subst hp
        dsimp only
        omega

section Parse

variable {block_size : Nat} {recurse : Nat → Nat → ScanState → ScanResult} {pt : Sector}
  {sector primary_extended_sector : Nat}

theorem parse_partitions_in_bounds
    (hrec : ∀ s p st st', InBounds block_size st → recurse s p st = .ok st' → InBounds block_size st') :
    ∀ (is : List Nat) (st st' : ScanState), InBounds block_size st →
      parse_partitions block_size recurse pt sector primary_extended_sector is st = .ok st' →
      InBounds block_size st'
  | [], st, st', hst, h => by
    cases h
    exact hst
  | i :: is, st, st', hst, h => by
    unfold parse_partitions at h
    split_ifs at h with hempty hext hsec
    · exact parse_partitions_in_bounds hrec is st st' hst h
    · -- an extended partition named by the MBR
      obtain ⟨st₁, h₁, h₂⟩ := ScanResult.bind_eq_ok h
      exact parse_partitions_in_bounds hrec is st₁ st' (hrec _ _ _ _ hst h₁) h₂
    · -- an extended partition named by a deeper table
      obtain ⟨st₁, h₁, h₂⟩ := ScanResult.bind_eq_ok h
      exact parse_partitions_in_bounds hrec is st₁ st' (hrec _ _ _ _ hst h₁) h₂
    · obtain ⟨st₁, h₁, h₂⟩ := ScanResult.bind_eq_ok h
      refine parse_partitions_in_bounds hrec is st₁ st' ?_ h₂
      refine found_partition_in_bounds (Nat.mod_lt _ (by decide)) (LittleEndian.getU32_lt _ _) ?_ h₁
      exact hst

end Parse

theorem read_partition_table_in_bounds (d : Disk) (block_size : Nat) :
    ∀ (fuel sector primary_extended_sector : Nat) (st st' : ScanState), InBounds block_size st →
      read_partition_table d block_size fuel sector primary_extended_sector st = .ok st' →
      InBounds block_size st'
  | 0, _, _, _, _, _, h => by cases h
  | fuel + 1, sector, primary_extended_sector, st, st', hst, h => by
    unfold read_partition_table at h
    split_ifs at h with hpast
    · cases h
      exact hst
    · split at h
      · cases h
      · dsimp only at h
        split_ifs at h with hsig
        · cases h
          exact hst
        · refine parse_partitions_in_bounds (read_partition_table_in_bounds d block_size fuel) _ _ st' ?_ h
          exact hst

/-- Whatever the device holds, a scan that returns has registered only partitions inside it. -/
theorem partition_scan_in_bounds (d : Disk) (block_size : Nat) (heap : Heap) (fuel : Nat) {st : ScanState}
    (h : partition_scan d block_size heap fuel = .ok st) :
    ∀ p ∈ st.registered, p.start < block_size ∧ p.start + p.size ≤ block_size :=
  read_partition_table_in_bounds d block_size fuel 0 0 _ st (fun _ hp => absurd hp List.not_mem_nil) h

/-- A device of four sectors whose MBR holds one file-system partition, of two sectors at
sector 1. -/
def primary_mbr : Disk := fun s i =>
  if s = 0 then
    if i = 450 then 0x21 else if i = 454 then 1 else if i = 458 then 2
    else if i = 510 then 0x55 else if i = 511 then 0xaa else 0
  else 0

theorem partition_scan_in_bounds_primary_mbr :
    ∃ st, partition_scan primary_mbr 4 ⟨fun _ => true, 0⟩ 1 = .ok st ∧ st.registered.length = 1 ∧
      ∀ p ∈ st.registered, p.start < 4 ∧ p.start + p.size ≤ 4 := by
  obtain ⟨st, hst, hlen⟩ : ∃ st, partition_scan primary_mbr 4 ⟨fun _ => true, 0⟩ 1 = .ok st ∧
      st.registered.length = 1 := ⟨_, rfl, rfl⟩
  exact ⟨st, hst, hlen, partition_scan_in_bounds _ _ _ _ hst⟩

/-! ## An extended partition first in the MBR -/

/-- Sector 0 holds a valid partition table whose first entry is an extended partition at
sector `X`. -/
structure ExtendedFirst (d : Disk) (X : Nat) : Prop where
  signature : table_signature (d 0) = 0xaa55
  size_ne : entry_size (d 0) 0 ≠ 0
  extended : is_extended (entry_type (d 0) 0) = true
  offset : entry_offset (d 0) 0 = X

section Extended

variable {d : Disk} {X : Nat} (hd : ExtendedFirst d X) {block_size : Nat}
include hd

theorem ExtendedFirst.type_ne : entry_type (d 0) 0 ≠ 0 := by
  intro h0
  have := hd.extended
  rw [h0] at this
  exact absurd this (by decide)

/-- One level at a sector inside the device: after the table's `malloc`, the first entry sends
the scan on, to `X` from the MBR and to `X + primary_extended_sector` from any other level. -/
theorem read_extended_first (fuel : Nat) {sector primary_extended_sector : Nat} (st : ScanState)
    (hsec : sector < block_size) :
    read_partition_table d block_size (fuel + 1) sector primary_extended_sector st =
      match st.heap.malloc with
      | (none, _) => .panic "Failed to allocate memory for partition table."
      | (some _, heap) =>
        (read_partition_table d block_size fuel
          (if sector = 0 then X else (X + primary_extended_sector) % 2 ^ 32)
          (if sector = 0 then X else primary_extended_sector) { st with heap }).bind
          (parse_partitions block_size (read_partition_table d block_size fuel) (d 0) sector
            primary_extended_sector [1, 2, 3]) := by
  rw [read_partition_table, if_neg (by omega)]
  rcases st.heap.malloc with ⟨_ | _, heap⟩
  · rfl
  · dsimp only
    rw [if_neg (by rw [hd.signature]; decide), List.range_succ_eq_map, parse_partitions,
      if_neg (by rw [not_or]; exact ⟨hd.size_ne, hd.type_ne⟩), if_pos hd.extended, hd.offset]
    split_ifs <;> rfl

omit hd in
/-- From `sector`, with `fuel` levels, the scan never returns, and it runs out of fuel when no
`malloc` fails. -/
def Diverges (d : Disk) (block_size fuel sector primary_extended_sector : Nat) : Prop :=
  ∀ st : ScanState, (read_partition_table d block_size fuel sector primary_extended_sector st).returned = false ∧
    ((∀ k, st.heap.ok k = true) →
      read_partition_table d block_size fuel sector primary_extended_sector st = .out_of_fuel)

omit hd in
theorem diverges_zero (sector primary_extended_sector : Nat) :
    Diverges d block_size 0 sector primary_extended_sector :=
  fun _ => ⟨rfl, fun _ => rfl⟩

theorem diverges_succ {fuel sector primary_extended_sector : Nat} (hsec : sector < block_size)
    (hnext : Diverges d block_size fuel (if sector = 0 then X else (X + primary_extended_sector) % 2 ^ 32)
      (if sector = 0 then X else primary_extended_sector)) :
    Diverges d block_size (fuel + 1) sector primary_extended_sector := by
  intro st
  rw [read_extended_first hd fuel st hsec]
  rcases hm : st.heap.malloc with ⟨_ | a, heap⟩
  · refine ⟨rfl, fun hok => ?_⟩
    rw [Heap.malloc_of_ok _ (hok _)] at hm
    cases hm
  · have hheap : heap.ok = st.heap.ok := by
      have := congrArg (fun r => r.2.ok) hm
      simpa using this.symm
    obtain ⟨hret, hfuel⟩ := hnext { st with heap }
    refine ⟨ScanResult.bind_not_returned _ hret, fun hok => ?_⟩
    dsimp only
    rw [hfuel (by simpa [hheap] using hok)]
    rfl

theorem read_self_loop (hloop : 0 < (X + X) % 2 ^ 32) (hlt : (X + X) % 2 ^ 32 < block_size) :
    ∀ fuel, Diverges d block_size fuel ((X + X) % 2 ^ 32) X
  | 0 => diverges_zero _ _
  | fuel + 1 => diverges_succ hd hlt (by rw [if_neg (by omega), if_neg (by omega)]; exact read_self_loop hloop hlt fuel)

end Extended

theorem partition_scan_never_returns (d : Disk) (block_size X : Nat) (hd : ExtendedFirst d X) (hX : 0 < X)
    (h2X : X + X < block_size) (hbs : block_size ≤ 2 ^ 32) (heap : Heap) (fuel : Nat) :
    (partition_scan d block_size heap fuel).returned = false ∧
      ((∀ k, heap.ok k = true) → partition_scan d block_size heap fuel = .out_of_fuel) := by
  have hmod : (X + X) % 2 ^ 32 = X + X := Nat.mod_eq_of_lt (by omega)
  have hloop : ∀ fuel, Diverges d block_size fuel ((X + X) % 2 ^ 32) X := read_self_loop hd (by omega) (by omega)
  -- the MBR sends the scan to `X`, whose first entry sends it to `X + X`
  have hlevel : ∀ fuel, Diverges d block_size fuel X X
    | 0 => diverges_zero _ _
    | fuel + 1 => diverges_succ hd (by omega) (by rw [if_neg (by omega), if_neg (by omega)]; exact hloop fuel)
  have hmbr : Diverges d block_size fuel 0 0 := by
    cases fuel with
    | zero => exact diverges_zero _ _
    | succ fuel => exact diverges_succ hd (by omega) (by rw [if_pos rfl, if_pos rfl]; exact hlevel fuel)
  exact hmbr ⟨heap, 0, []⟩

/-- A device of three sectors whose MBR holds one extended partition, of one sector at sector 1. -/
def looping_mbr : Disk := fun s i =>
  if s = 0 then
    if i = 450 then 0x05 else if i = 454 then 1 else if i = 458 then 1
    else if i = 510 then 0x55 else if i = 511 then 0xaa else 0
  else 0

theorem looping_mbr_extended_first : ExtendedFirst looping_mbr 1 :=
  ⟨by decide, by decide, by decide, by decide⟩

/-- The scan of `looping_mbr` goes from sector 0 to 1 and then to 2 for ever: it never returns,
and with every `malloc` succeeding no fuel is enough. -/
theorem partition_scan_never_returns_looping_mbr :
    (∀ heap fuel, (partition_scan looping_mbr 3 heap fuel).returned = false) ∧
      ∀ fuel, partition_scan looping_mbr 3 ⟨fun _ => true, 0⟩ fuel = .out_of_fuel :=
  ⟨fun heap fuel => (partition_scan_never_returns looping_mbr 3 1 looping_mbr_extended_first (by decide) (by decide)
      (by decide) heap fuel).1,
    fun fuel => (partition_scan_never_returns looping_mbr 3 1 looping_mbr_extended_first (by decide) (by decide)
      (by decide) _ fuel).2 fun _ => rfl⟩

end Pintos
