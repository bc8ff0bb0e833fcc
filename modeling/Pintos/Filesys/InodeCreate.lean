import Pintos.Filesys.FreeMap

/-! # Creating an inode (`filesys/inode.c`, lines 108-155 and 428-501)

`inode_create (sector, length)` counts the sectors the file needs with
`compute_total_sectors`, checks that the free map has that many and one more, and has
`write_sectors_to_disk` allocate them one at a time: the direct data blocks, then the
first-level block `ib`, then rounds of one second-level block followed by up to 128 of its data
blocks.  Each second-level block is written to its sector when its round ends, `ib` after the
last round, and the new `inode_disk` last of all.

Every allocation claims the first clear bit, so the `t`-th one claims `alloc_pos b₀ t` of the
map `b₀` the call started from (`AllocState`).  The layout built is therefore a function of
`b₀` and of the number of allocations (`layout_ref`, `first_level_ref`, `second_level_ref`),
and the index reads that layout back (`inode_create_reads`).  An allocation faults only when
the free map's own write runs past the direct blocks of its file (`AllocOk`).
-/

namespace Pintos
set_option autoImplicit false
set_option maxHeartbeats 250000
set_option maxRecDepth 120000

open LittleEndian

/-- `free_map_allocate (1, &position)`: the sector found, or `position` unchanged when the
allocation fails. -/
def allocate_into (s : FsState) (position : Nat) : Option (FsState × Nat) :=
  (free_map_allocate s 1).map fun (s, sector) => (s, sector.getD position)

/-- `for (i = 0; i < total_sectors && i < DIRECT_BLOCK; i++)`: the direct data blocks. -/
def direct_loop (total_sectors : Nat) (s : FsState) (position : Nat) (disk_inode : InodeDisk)
    (i : Nat) : Option (FsState × Nat × InodeDisk × Nat) :=
  if h : i < total_sectors ∧ i < DIRECT_BLOCK then
    match allocate_into s position with
    | none => none
    | some (s, position) =>
      direct_loop total_sectors s position
        { disk_inode with sectors := Function.update disk_inode.sectors ⟨i, h.2⟩ position } (i + 1)
  else some (s, position, disk_inode, i)
termination_by DIRECT_BLOCK - i

/-- `for (k = 0; (k < 128) && (i + k < total_sectors); k++)`: the data blocks of one
second-level block. -/
def second_level_loop (total_sectors i : Nat) (s : FsState) (position : Nat)
    (second_level : Nat → Nat) (k : Nat) : Option (FsState × Nat × (Nat → Nat) × Nat) :=
  if k < 128 ∧ i + k < total_sectors then
    match allocate_into s position with
    | none => none
    | some (s, position) =>
      second_level_loop total_sectors i s position (Function.update second_level k position) (k + 1)
  else some (s, position, second_level, k)
termination_by 128 - k

/-- `while (i < total_sectors)`: one round per second-level block.  `none` when the
`ASSERT (ib_index < 128)` fails, when `calloc` returns the null pointer the code then
writes through, or when an allocation faults. -/
def ib_loop (total_sectors : Nat) (s : FsState) (position : Nat) (first_level : Nat → Nat)
    (i ib_index : Nat) : Option (FsState × Nat × (Nat → Nat)) :=
  if i < total_sectors then
    if ib_index < 128 then
      match s.heap.malloc with
      | (none, _) => none
      | (some _, heap) =>
        match allocate_into { s with heap } position with
        | none => none
        | some (s, position) =>
          let first_level := Function.update first_level ib_index position
          match second_level_loop total_sectors (i + 1) s position (fun _ => 0) 0 with
          | none => none
          | some (s, position, second_level, k) =>
            ib_loop total_sectors
              { s with disk := block_write s.disk (first_level ib_index) (encodeU32s second_level) 0 }
              position first_level (i + 1 + k) (ib_index + 1)
    else none
  else some (s, position, first_level)
termination_by total_sectors - i

/-- `write_sectors_to_disk (total_sectors, disk_inode)`.  `position` is uninitialised in the
code and read only when the first allocation fails; the model starts it at `0`. -/
def write_sectors_to_disk (s : FsState) (total_sectors : Nat) (disk_inode : InodeDisk) :
    Option (FsState × InodeDisk) :=
  match direct_loop total_sectors s 0 disk_inode 0 with
  | none => none
  | some (s, position, disk_inode, i) =>
    if i < total_sectors then
      -- `calloc` of the first-level block, not checked
      match s.heap.malloc with
      | (none, _) => none
      | (some _, heap) =>
        match allocate_into { s with heap } position with
        | none => none
        | some (s, position) =>
          let disk_inode := { disk_inode with ib := position }
          match ib_loop total_sectors s position (fun _ => 0) (i + 1) 0 with
          | none => none
          | some (s, _, first_level) =>
            some ({ s with disk := block_write s.disk disk_inode.ib (encodeU32s first_level) 0 }, disk_inode)
    else some (s, disk_inode)

/-- `inode_create (sector, length)`; `none` when `ASSERT (length >= 0)` fails or the kernel
writes through a null pointer. -/
def inode_create (s : FsState) (sector : Nat) (length : Int) : Option (FsState × Bool) :=
  if length < 0 then none
  else
    match s.heap.malloc with
    | (none, heap) => some ({ s with heap }, false)
    | (some _, heap) =>
      let s := { s with heap }
      let total_sectors := compute_total_sectors (bytes_to_sectors length)
      if total_sectors > MAX_BLOCK_NUMBER then some (s, false)
      else
        let disk_inode : InodeDisk := { InodeDisk.zero with length, magic := INODE_MAGIC }
        match free_map_unused s with
        | none => none
        | some unused =>
          if unused ≥ total_sectors + 1 then
            match write_sectors_to_disk s total_sectors disk_inode with
            | none => none
            | some (s, disk_inode) =>
              some ({ s with disk := block_write s.disk sector disk_inode.encode 0 }, true)
          else some (s, false)

/-! ## The layout `write_sectors_to_disk` builds

Allocation `t` of the call: data block `t` for `t < 124`; `ib` for `t = 124`; from `125` on,
rounds of `129`, the first of each round a second-level block and the others its entries. -/

def first_level_ref (b : Bitmap) (total_sectors j : Nat) : Nat :=
  if 125 + 129 * j < total_sectors then alloc_pos b (125 + 129 * j) else 0

def second_level_ref (b : Bitmap) (total_sectors j k : Nat) : Nat :=
  if k < 128 ∧ 126 + 129 * j + k < total_sectors then alloc_pos b (126 + 129 * j + k) else 0

def layout_ref (b : Bitmap) (total_sectors : Nat) (disk_inode : InodeDisk) : InodeDisk :=
  { disk_inode with
    sectors := fun k => if k.val < total_sectors then alloc_pos b k.val else disk_inode.sectors k
    ib := if DIRECT_BLOCK < total_sectors then alloc_pos b DIRECT_BLOCK else disk_inode.ib }

/-- `s` is `s₀` after `i` single-sector allocations from the map `b₀`, and after writes to
sectors that were clear in `b₀`; the free-map file stays well placed. -/
structure AllocState (b₀ : Bitmap) (s₀ s : FsState) (i : Nat) : Prop where
  map : s.free_map = alloc_map b₀ i
  file_ok : FreeMapFileOk s
  heap_ok : ∀ k, s.heap.ok k = true
  inodes : s.open_inodes = s₀.open_inodes
  file : s.free_map_file = s₀.free_map_file
  device : s.fs_device_size = s₀.fs_device_size
  file_sectors : ∀ x, map_file_sector s x → Bitmap.bit b₀ x = true

section Alloc

variable {b₀ : Bitmap} {s₀ : FsState}

theorem AllocState.start {s : FsState} (hf : FreeMapFileOk s) (hok : ∀ k, s.heap.ok k = true) :
    AllocState s.free_map s s 0 where
  map := rfl
  file_ok := hf
  heap_ok := hok
  inodes := rfl
  file := rfl
  device := rfl
  file_sectors := fun x ⟨file, inode, hfile, hinode, hx⟩ => by
    obtain ⟨inode', hmf⟩ := hf file hfile
    have he : inode' = inode := Option.some.inj (hmf.found.symm.trans hinode)
    subst he
    exact hmf.used x hx

theorem AllocState.malloc {s : FsState} {i : Nat} (h : AllocState b₀ s₀ s i) (heap : Heap)
    (hheap : heap.ok = s.heap.ok) : AllocState b₀ s₀ { s with heap } i where
  map := h.map
  file_ok := fun file hfile => by
    obtain ⟨inode, hmf⟩ := h.file_ok file hfile
    exact ⟨inode, @MapFileOk.transfer s { s with heap } file inode hmf rfl (fun _ _ _ _ => rfl) rfl
      (fun _ hx => hx)⟩
  heap_ok := fun k => by rw [hheap]; exact h.heap_ok k
  inodes := h.inodes
  file := h.file
  device := h.device
  file_sectors := h.file_sectors

/-- Writing a sector that was clear in `b₀` keeps the state: the sector is not one of the
free-map file's. -/
theorem AllocState.write {s : FsState} {i : Nat} (h : AllocState b₀ s₀ s i) (x : Nat)
    (hx : Bitmap.bit b₀ x = false) (v : Sector) :
    AllocState b₀ s₀ { s with disk := Function.update s.disk x v } i := by
  have hout : ¬ map_file_sector s x := fun hm => by rw [h.file_sectors x hm] at hx; contradiction
  have hidx : ∀ (file : File) (inode : Inode), s.free_map_file = some file →
      s.inode_at file.inode = some inode → ∀ q t : Nat, (q : Int) < inode.data.length →
      index_reads s.disk inode q t → Function.update s.disk x v t = s.disk t :=
    fun file inode hfile hinode q t hq ht => Function.update_of_ne
      (fun he => hout ⟨file, inode, hfile, hinode, q, hq, Or.inr (by rw [← he]; exact ht)⟩) v s.disk
  refine ⟨h.map, fun file hfile => ?_, h.heap_ok, h.inodes, h.file, h.device, fun y hy => ?_⟩
  · obtain ⟨inode, hmf⟩ := h.file_ok file hfile
    exact ⟨inode, hmf.transfer rfl (hidx file inode hfile hmf.found) rfl (fun _ hy => hy)⟩
  · cases hfile : s.free_map_file with
    | none =>
      obtain ⟨f, _, hf, _⟩ := hy
      simp [hfile] at hf
    | some file =>
      obtain ⟨inode, hmf⟩ := h.file_ok file hfile
      have hinode : ∀ f, s.free_map_file = some f → s.inode_at f.inode = some inode := by
        intro f hf
        rw [hfile] at hf
        cases hf
        exact hmf.found
      exact h.file_sectors y ((@map_file_sector_transfer s { s with disk := Function.update s.disk x v }
        rfl rfl inode hinode (hidx file inode hfile hmf.found) y).mp hy)

variable (hlim : b₀.bit_cnt ≤ BITMAP_ERROR)

include hlim in
/-- The `i`-th allocation of the call claims `alloc_pos b₀ i` and changes no sector that was
clear in `b₀`. -/
theorem allocate_into_spec {s : FsState} {i : Nat} (h : AllocState b₀ s₀ s i) (hi : i < free_cnt b₀)
    (position : Nat) :
    ∃ s', allocate_into s position = some (s', alloc_pos b₀ i) ∧ AllocState b₀ s₀ s' (i + 1) ∧
      ∀ x, Bitmap.bit b₀ x = false → s'.disk x = s.disk x := by
  obtain ⟨hcnt, -⟩ := alloc_map_spec b₀ hlim i (by omega)
  obtain ⟨hne, -, -⟩ := alloc_pos_clear b₀ hlim i (by omega)
  have hne' : Bitmap.scan s.free_map 0 1 false ≠ BITMAP_ERROR := by rw [h.map]; exact hne
  obtain ⟨s', hfa, hmap, hframe⟩ := free_map_allocate_found h.file_ok h.heap_ok 1 hne'
  refine ⟨s', ?_, ⟨?_, hframe.file_ok, ?_, ?_, ?_, ?_, ?_⟩, ?_⟩
  · simp only [allocate_into, hfa, Option.map_some, Option.getD_some, h.map]
    rfl
  · rw [hmap, h.map]
    rfl
  · intro k
    rw [hframe.heap_ok]
    exact h.heap_ok k
  · rw [hframe.inodes, h.inodes]
  · rw [hframe.file, h.file]
  · rw [hframe.device, h.device]
  · exact fun x hx => h.file_sectors x ((hframe.sectors x).mp hx)
  · intro x hx
    exact hframe.outside x (fun hm => by rw [h.file_sectors x hm] at hx; contradiction)

include hlim in
theorem direct_loop_spec (T : Nat) (hT : T ≤ free_cnt b₀) (s : FsState) (position : Nat)
    (disk_inode : InodeDisk) (i : Nat) (h : AllocState b₀ s₀ s i) (hi : i ≤ min T DIRECT_BLOCK) :
    ∃ r, direct_loop T s position disk_inode i = some r ∧ AllocState b₀ s₀ r.1 (min T DIRECT_BLOCK) ∧
      r.2.2.2 = min T DIRECT_BLOCK ∧
      r.2.2.1 = { disk_inode with sectors := fun k =>
          if i ≤ k.val ∧ k.val < T then alloc_pos b₀ k.val else disk_inode.sectors k } ∧
      ∀ x, Bitmap.bit b₀ x = false → r.1.disk x = s.disk x := by
  fun_induction direct_loop T s position disk_inode i with
  | case1 s position disk_inode i hc hr =>
    obtain ⟨s', hr', -⟩ := allocate_into_spec hlim h (by omega) position
    rw [hr] at hr'
    cases hr'
  | case2 s position disk_inode i hc s₁ p₁ hr ih =>
    obtain ⟨s', hr', h', hframe⟩ := allocate_into_spec hlim h (by omega) position
    rw [hr] at hr'
    cases hr'
    obtain ⟨r, hrun, hs, hi', hdi, hdisk⟩ := ih h' (by omega)
    refine ⟨r, hrun, hs, hi', ?_, fun x hx => (hdisk x hx).trans (hframe x hx)⟩
    rw [hdi]
    congr 1
    funext k
    dsimp only
    by_cases hk : k.val = i
    · have hkeq : k = ⟨i, hc.2⟩ := Fin.ext hk
      rw [if_neg (by omega), if_pos ⟨by omega, by omega⟩, hkeq, Function.update_self]
    · rw [Function.update_of_ne (fun he => hk (congrArg Fin.val he))]
      by_cases hin : i + 1 ≤ k.val ∧ k.val < T
      · rw [if_pos hin, if_pos ⟨by omega, hin.2⟩]
      · rw [if_neg hin, if_neg (by omega)]
  | case3 s position disk_inode i hc =>
    have hend : i = min T DIRECT_BLOCK := by
      simp only [DIRECT_BLOCK] at *
      omega
    have hsec : (fun k : Fin DIRECT_BLOCK =>
        if i ≤ k.val ∧ k.val < T then alloc_pos b₀ k.val else disk_inode.sectors k) = disk_inode.sectors := by
      funext k
      have hk := k.isLt
      rw [if_neg (by omega)]
    exact ⟨_, rfl, hend ▸ h, hend, by rw [hsec], fun _ _ => rfl⟩

include hlim in
theorem second_level_loop_spec (T i : Nat) (hT : T ≤ free_cnt b₀) (s : FsState) (position : Nat)
    (second_level : Nat → Nat) (k : Nat) (h : AllocState b₀ s₀ s (i + k)) (hk : k ≤ min 128 (T - i)) :
    ∃ r, second_level_loop T i s position second_level k = some r ∧
      AllocState b₀ s₀ r.1 (i + min 128 (T - i)) ∧ r.2.2.2 = min 128 (T - i) ∧
      (∀ k', r.2.2.1 k' = if k ≤ k' ∧ k' < min 128 (T - i) then alloc_pos b₀ (i + k') else second_level k') ∧
      ∀ x, Bitmap.bit b₀ x = false → r.1.disk x = s.disk x := by
  fun_induction second_level_loop T i s position second_level k with
  | case1 s position second_level k hc hr =>
    obtain ⟨s', hr', -⟩ := allocate_into_spec hlim h (by omega) position
    rw [hr] at hr'
    cases hr'
  | case2 s position second_level k hc s₁ p₁ hr ih =>
    obtain ⟨s', hr', h', hframe⟩ := allocate_into_spec hlim h (by omega) position
    rw [hr] at hr'
    cases hr'
    obtain ⟨r, hrun, hs, hk', hsl, hdisk⟩ := ih (by rw [← Nat.add_assoc]; exact h') (by omega)
    refine ⟨r, hrun, hs, hk', fun k' => ?_, fun x hx => (hdisk x hx).trans (hframe x hx)⟩
    rw [hsl k']
    by_cases hkk : k' = k
    · subst hkk
      rw [if_neg (by omega), if_pos ⟨le_refl _, by omega⟩, Function.update_self]
    · rw [Function.update_of_ne hkk]
      by_cases hin : k + 1 ≤ k' ∧ k' < min 128 (T - i)
      · rw [if_pos hin, if_pos ⟨by omega, hin.2⟩]
      · rw [if_neg hin, if_neg (by omega)]
  | case3 s position second_level k hc =>
    have hend : k = min 128 (T - i) := by omega
    exact ⟨_, rfl, hend ▸ h, hend, fun k' => by dsimp only; rw [if_neg (by omega)], fun _ _ => rfl⟩

include hlim in
theorem ib_loop_spec (T : Nat) (hT : T ≤ free_cnt b₀) (hmax : T ≤ MAX_BLOCK_NUMBER) (s : FsState)
    (position : Nat) (first_level : Nat → Nat) (i ib_index : Nat) (h : AllocState b₀ s₀ s i)
    (hi : i = min T (125 + 129 * ib_index)) :
    ∃ s' position', ib_loop T s position first_level i ib_index =
        some (s', position', fun j =>
          if ib_index ≤ j ∧ 125 + 129 * j < T then alloc_pos b₀ (125 + 129 * j) else first_level j) ∧
      AllocState b₀ s₀ s' T ∧
      (∀ j, ib_index ≤ j → 125 + 129 * j < T →
        s'.disk (alloc_pos b₀ (125 + 129 * j)) = sectorOf (encodeU32s (second_level_ref b₀ T j)) 0) ∧
      ∀ x, Bitmap.bit b₀ x = false →
        (∀ j, ib_index ≤ j → 125 + 129 * j < T → x ≠ alloc_pos b₀ (125 + 129 * j)) →
        s'.disk x = s.disk x := by
  fun_induction ib_loop T s position first_level i ib_index with
  | case1 s position first_level i ib_index hlt _ heap hmal =>
    rw [Heap.malloc_of_ok _ (h.heap_ok _)] at hmal
    cases hmal
  | case2 s position first_level i ib_index hlt _ _ heap hmal hr =>
    rw [Heap.malloc_of_ok _ (h.heap_ok _)] at hmal
    cases hmal
    obtain ⟨s', hr', -⟩ := allocate_into_spec hlim (h.malloc { s.heap with calls := s.heap.calls + 1 } rfl)
      (by omega) position
    rw [hr] at hr'
    cases hr'
  | case3 s position first_level₁ i ib_index hlt _ _ heap hmal s₁ p₁ hr hl =>
    rw [Heap.malloc_of_ok _ (h.heap_ok _)] at hmal
    cases hmal
    obtain ⟨s', hr', h₁, -⟩ := allocate_into_spec hlim (h.malloc { s.heap with calls := s.heap.calls + 1 } rfl)
      (by omega) position
    rw [hr] at hr'
    cases hr'
    obtain ⟨r, hl', -⟩ := second_level_loop_spec hlim T (i + 1) hT s₁ _ (fun _ => 0) 0 h₁ (Nat.zero_le _)
    rw [hl] at hl'
    cases hl'
  | case4 s position first_level₁ i ib_index hlt _ _ heap hmal s₁ p₁ hr first_level s₂ p₂ sl k hl ih =>
    have hheap : heap.ok = s.heap.ok := by
      rw [Heap.malloc_of_ok _ (h.heap_ok _)] at hmal
      cases hmal
      rfl
    have hiT : i = 125 + 129 * ib_index := by omega
    obtain ⟨s', hr', h₁, hfr₁⟩ := allocate_into_spec hlim (h.malloc heap hheap) (by omega) position
    rw [hr] at hr'
    cases hr'
    obtain ⟨r, hl', h₂, hk, hsl, hfr₂⟩ := second_level_loop_spec hlim T (i + 1) hT s₁ _ (fun _ => 0) 0 h₁
      (Nat.zero_le _)
    rw [hl] at hl'
    cases hl'
    dsimp only at h₂ hk hsl hfr₂
    have hclear := (alloc_pos_fresh b₀ hlim i (by omega)).2.1
    have hfirst : first_level ib_index = alloc_pos b₀ i := by
      simp only [first_level, Function.update_self]
    have h₃ := h₂.write (alloc_pos b₀ i) hclear (sectorOf (encodeU32s sl) 0)
    have hblock : block_write s₂.disk (first_level ib_index) (encodeU32s sl) 0 =
        Function.update s₂.disk (alloc_pos b₀ i) (sectorOf (encodeU32s sl) 0) := by
      rw [hfirst]
      rfl
    obtain ⟨s', position', hrun, hs', hdisk, hframe⟩ := ih (by rw [hblock, hk]; exact h₃) (by rw [hk]; omega)
    have hsl_ref : sl = second_level_ref b₀ T ib_index := by
      funext k'
      rw [hsl k']
      unfold second_level_ref
      by_cases hin : k' < 128 ∧ 126 + 129 * ib_index + k' < T
      · rw [if_pos ⟨Nat.zero_le _, by omega⟩, if_pos hin, show i + 1 + k' = 126 + 129 * ib_index + k' by omega]
      · rw [if_neg (by omega), if_neg hin]
    have hdistinct : ∀ j, ib_index + 1 ≤ j → 125 + 129 * j < T →
        alloc_pos b₀ i ≠ alloc_pos b₀ (125 + 129 * j) := fun j hj hjT he =>
      absurd (alloc_pos_injective b₀ hlim _ _ T (by omega) hjT hT he) (by omega)
    have hfl : (fun j => if ib_index + 1 ≤ j ∧ 125 + 129 * j < T then alloc_pos b₀ (125 + 129 * j)
        else first_level j) =
        fun j => if ib_index ≤ j ∧ 125 + 129 * j < T then alloc_pos b₀ (125 + 129 * j)
          else first_level₁ j := by
      funext j
      by_cases hj : j = ib_index
      · subst hj
        rw [if_neg (by omega), hfirst, if_pos ⟨le_refl _, by omega⟩, hiT]
      · simp only [first_level, Function.update_of_ne hj]
        by_cases hin : ib_index + 1 ≤ j ∧ 125 + 129 * j < T
        · rw [if_pos hin, if_pos ⟨by omega, hin.2⟩]
        · rw [if_neg hin, if_neg (by omega)]
    refine ⟨s', position', by rw [hrun, hfl], hs', fun j hj hjT => ?_, fun x hx hxs => ?_⟩
    · by_cases hjeq : j = ib_index
      · subst hjeq
        rw [← hiT, hframe _ hclear hdistinct]
        show block_write s₂.disk (first_level j) (encodeU32s sl) 0 (alloc_pos b₀ i) = _
        rw [hblock, Function.update_self, hsl_ref]
      · exact hdisk j (by omega) hjT
    · have hxi : x ≠ alloc_pos b₀ i := by rw [hiT]; exact hxs ib_index (le_refl _) (by omega)
      rw [hframe x hx (fun j hj hjT => hxs j (by omega) hjT)]
      simp only [hblock, Function.update_of_ne hxi]
      rw [hfr₂ x hx, hfr₁ x hx]
  | case5 s position first_level i ib_index hlt hib =>
    simp only [MAX_BLOCK_NUMBER] at hmax
    omega
  | case6 s position first_level i ib_index hlt =>
    have hend : T ≤ 125 + 129 * ib_index := by omega
    have hfl : (fun j => if ib_index ≤ j ∧ 125 + 129 * j < T then alloc_pos b₀ (125 + 129 * j)
        else first_level j) = first_level := by
      funext j
      rw [if_neg (by omega)]
    refine ⟨s, position, by rw [hfl], by rw [← show i = T by omega]; exact h, fun j hj hjT => by omega,
      fun _ _ _ => rfl⟩

include hlim in
/-- With enough clear bits and `malloc` succeeding, `write_sectors_to_disk` returns the
reference layout, writes the reference first-level and second-level blocks to the sectors it
claimed for them, and changes no other sector that was clear in `b₀`. -/
theorem write_sectors_to_disk_spec (T : Nat) (hT : T ≤ free_cnt b₀) (hmax : T ≤ MAX_BLOCK_NUMBER)
    (s : FsState) (h : AllocState b₀ s₀ s 0) (disk_inode : InodeDisk) :
    ∃ s', write_sectors_to_disk s T disk_inode = some (s', layout_ref b₀ T disk_inode) ∧
      AllocState b₀ s₀ s' T ∧
      (DIRECT_BLOCK < T →
        s'.disk (alloc_pos b₀ DIRECT_BLOCK) = sectorOf (encodeU32s (first_level_ref b₀ T)) 0) ∧
      (∀ j, 125 + 129 * j < T →
        s'.disk (alloc_pos b₀ (125 + 129 * j)) = sectorOf (encodeU32s (second_level_ref b₀ T j)) 0) ∧
      ∀ x, Bitmap.bit b₀ x = false → (DIRECT_BLOCK < T → x ≠ alloc_pos b₀ DIRECT_BLOCK) →
        (∀ j, 125 + 129 * j < T → x ≠ alloc_pos b₀ (125 + 129 * j)) → s'.disk x = s.disk x := by
  obtain ⟨⟨s₁, p₁, di₁, i₁⟩, hdl, hd, hi, hdi, hfd⟩ := direct_loop_spec hlim T hT s 0 disk_inode 0 h (Nat.zero_le _)
  dsimp only at hd hi hdi hfd
  have hsec : (fun k : Fin DIRECT_BLOCK =>
      if 0 ≤ k.val ∧ k.val < T then alloc_pos b₀ k.val else disk_inode.sectors k) =
      fun k => if k.val < T then alloc_pos b₀ k.val else disk_inode.sectors k := by
    funext k
    simp only [Nat.zero_le, true_and]
  rw [hsec] at hdi
  subst hdi hi
  by_cases hbig : DIRECT_BLOCK < T
  · have hmin : min T DIRECT_BLOCK = DIRECT_BLOCK := by omega
    rw [hmin] at hd hdl
    obtain ⟨s₂, hr, h₁, hfr₁⟩ := allocate_into_spec hlim
      (hd.malloc { s₁.heap with calls := s₁.heap.calls + 1 } rfl) (by omega) p₁
    obtain ⟨s'', position'', hrun, hs'', hdisk, hframe⟩ :=
      ib_loop_spec hlim T hT hmax _ _ (fun _ => 0) (DIRECT_BLOCK + 1) 0 h₁
        (by simp only [DIRECT_BLOCK] at hbig ⊢; omega)
    have hfl : (fun j => if 0 ≤ j ∧ 125 + 129 * j < T then alloc_pos b₀ (125 + 129 * j) else 0) =
        first_level_ref b₀ T := by
      funext j
      simp only [first_level_ref, Nat.zero_le, true_and]
    rw [hfl] at hrun
    have hclear := (alloc_pos_fresh b₀ hlim DIRECT_BLOCK (by omega)).2.1
    have hib : ∀ j, 125 + 129 * j < T → alloc_pos b₀ DIRECT_BLOCK ≠ alloc_pos b₀ (125 + 129 * j) :=
      fun j hj he => absurd (alloc_pos_injective b₀ hlim _ _ T hbig hj hT he)
        (by simp only [DIRECT_BLOCK]; omega)
    have hw := hs''.write (alloc_pos b₀ DIRECT_BLOCK) hclear (sectorOf (encodeU32s (first_level_ref b₀ T)) 0)
    refine ⟨_, ?_, hw, fun _ => ?_, fun j hj => ?_, fun x hx hxib hxs => ?_⟩
    · simp only [write_sectors_to_disk, hdl, if_pos hbig, Heap.malloc_of_ok _ (hd.heap_ok _), hr]
      rw [hrun]
      simp only [layout_ref, if_pos hbig, block_write]
    · simp only [Function.update_self]
    · dsimp only
      rw [Function.update_of_ne (hib j hj).symm]
      exact hdisk j (Nat.zero_le j) hj
    · dsimp only
      rw [Function.update_of_ne (hxib hbig), hframe x hx (fun j _ hj => hxs j hj), hfr₁ x hx]
      exact hfd x hx
  · have hmin : min T DIRECT_BLOCK = T := by omega
    rw [hmin] at hd hdl
    refine ⟨s₁, ?_, hd, fun h => absurd h hbig,
      fun j hj => by simp only [DIRECT_BLOCK] at hbig; omega, fun x hx _ _ => hfd x hx⟩
    simp only [write_sectors_to_disk, hdl, lt_irrefl, if_false, layout_ref, if_neg hbig]

end Alloc

/-! ## The loop bound

The counters of the loops do not depend on what the allocations find, and a failed allocation
only leaves `position` as it was.  So with `malloc` succeeding and the free map's bytes in the
direct blocks of its file (`AllocOk`), every `none` would be the `ASSERT (ib_index < 128)`,
which an admitted size never reaches. -/

structure AllocOk (s : FsState) : Prop where
  heap_ok : ∀ k, s.heap.ok k = true
  direct : byte_cnt s.free_map.bit_cnt ≤ DIRECT_BLOCK * BLOCK_SECTOR_SIZE

theorem AllocOk.malloc {s : FsState} (h : AllocOk s) (heap : Heap) (hheap : heap.ok = s.heap.ok) :
    AllocOk { s with heap } :=
  ⟨fun k => by rw [hheap]; exact h.heap_ok k, h.direct⟩

theorem allocate_into_ok {s : FsState} (h : AllocOk s) (position : Nat) :
    ∃ s' position', allocate_into s position = some (s', position') ∧ AllocOk s' := by
  obtain ⟨⟨s', r⟩, hfa⟩ := Option.ne_none_iff_exists'.mp (free_map_allocate_ne_none s 1 h.direct)
  obtain ⟨heap, disk, free_map, rfl, hheap, hcnt, -⟩ := free_map_allocate_cases hfa
  refine ⟨{ s with heap, disk, free_map }, r.getD position, by simp only [allocate_into, hfa, Option.map_some],
    fun k => ?_, ?_⟩
  · show heap.ok k = true
    rw [hheap]
    exact h.heap_ok k
  · show byte_cnt free_map.bit_cnt ≤ _
    rw [hcnt]
    exact h.direct

theorem direct_loop_ok (T : Nat) (s : FsState) (position : Nat) (disk_inode : InodeDisk) (i : Nat)
    (h : AllocOk s) (hi : i ≤ min T DIRECT_BLOCK) :
    ∃ r, direct_loop T s position disk_inode i = some r ∧ AllocOk r.1 ∧ r.2.2.2 = min T DIRECT_BLOCK := by
  fun_induction direct_loop T s position disk_inode i with
  | case1 s position disk_inode i hc hr =>
    obtain ⟨s', p', hr', -⟩ := allocate_into_ok h position
    rw [hr] at hr'
    cases hr'
  | case2 s position disk_inode i hc s₁ p₁ hr ih =>
    obtain ⟨s', p', hr', h'⟩ := allocate_into_ok h position
    rw [hr] at hr'
    cases hr'
    exact ih h' (by omega)
  | case3 s position disk_inode i hc =>
    exact ⟨_, rfl, h, by simp only [DIRECT_BLOCK] at *; omega⟩

theorem second_level_loop_ok (T i : Nat) (s : FsState) (position : Nat) (second_level : Nat → Nat)
    (k : Nat) (h : AllocOk s) (hk : k ≤ min 128 (T - i)) :
    ∃ r, second_level_loop T i s position second_level k = some r ∧ AllocOk r.1 ∧
      r.2.2.2 = min 128 (T - i) := by
  fun_induction second_level_loop T i s position second_level k with
  | case1 s position second_level k hc hr =>
    obtain ⟨s', p', hr', -⟩ := allocate_into_ok h position
    rw [hr] at hr'
    cases hr'
  | case2 s position second_level k hc s₁ p₁ hr ih =>
    obtain ⟨s', p', hr', h'⟩ := allocate_into_ok h position
    rw [hr] at hr'
    cases hr'
    exact ih h' (by omega)
  | case3 s position second_level k hc =>
    exact ⟨_, rfl, h, by dsimp only; omega⟩

/-- Round `ib_index` starts at `125 + 129 * ib_index`; below `MAX_BLOCK_NUMBER = 125 + 129 * 128`
the loop ends before round `128`. -/
theorem ib_loop_some (T : Nat) (hmax : T ≤ MAX_BLOCK_NUMBER) (s : FsState) (position : Nat)
    (first_level : Nat → Nat) (i ib_index : Nat) (h : AllocOk s)
    (hi : i = min T (125 + 129 * ib_index)) :
    ∃ r, ib_loop T s position first_level i ib_index = some r := by
  fun_induction ib_loop T s position first_level i ib_index with
  | case1 s position first_level i ib_index hlt _ heap hmal =>
    rw [Heap.malloc_of_ok _ (h.heap_ok _)] at hmal
    cases hmal
  | case2 s position first_level i ib_index hlt _ _ heap hmal hr =>
    rw [Heap.malloc_of_ok _ (h.heap_ok _)] at hmal
    cases hmal
    obtain ⟨s', p', hr', -⟩ := allocate_into_ok (h.malloc { s.heap with calls := s.heap.calls + 1 } rfl) position
    rw [hr] at hr'
    cases hr'
  | case3 s position first_level₁ i ib_index hlt _ _ heap hmal s₁ p₁ hr hl =>
    rw [Heap.malloc_of_ok _ (h.heap_ok _)] at hmal
    cases hmal
    obtain ⟨s', p', hr', h₁⟩ := allocate_into_ok (h.malloc { s.heap with calls := s.heap.calls + 1 } rfl) position
    rw [hr] at hr'
    cases hr'
    obtain ⟨r, hl', -⟩ := second_level_loop_ok T (i + 1) s₁ p₁ (fun _ => 0) 0 h₁ (Nat.zero_le _)
    rw [hl] at hl'
    cases hl'
  | case4 s position first_level₁ i ib_index hlt _ _ heap hmal s₁ p₁ hr first_level s₂ p₂ sl k hl ih =>
    rw [Heap.malloc_of_ok _ (h.heap_ok _)] at hmal
    cases hmal
    obtain ⟨s', p', hr', h₁⟩ := allocate_into_ok (h.malloc { s.heap with calls := s.heap.calls + 1 } rfl) position
    rw [hr] at hr'
    cases hr'
    obtain ⟨r, hl', h₂, hk⟩ := second_level_loop_ok T (i + 1) s₁ p₁ (fun _ => 0) 0 h₁ (Nat.zero_le _)
    rw [hl] at hl'
    cases hl'
    exact ih ⟨h₂.heap_ok, h₂.direct⟩ (by dsimp only at hk; rw [hk]; omega)
  | case5 s position first_level i ib_index hlt hib =>
    -- the failed `ASSERT`: round `128` would start at `MAX_BLOCK_NUMBER`
    simp only [MAX_BLOCK_NUMBER] at hmax
    omega
  | case6 s position first_level i ib_index hlt =>
    exact ⟨_, rfl⟩

theorem write_sectors_to_disk_some (s : FsState) (T : Nat) (disk_inode : InodeDisk)
    (hmax : T ≤ MAX_BLOCK_NUMBER) (h : AllocOk s) :
    ∃ r, write_sectors_to_disk s T disk_inode = some r := by
  obtain ⟨⟨s₁, p₁, di₁, i₁⟩, hdl, h₁, hidx⟩ := direct_loop_ok T s 0 disk_inode 0 h (Nat.zero_le _)
  dsimp only at h₁ hidx
  by_cases hbig : i₁ < T
  · -- the first-level block is claimed, then the rounds start at `125`
    obtain ⟨s₂, p₂, hr, h₂⟩ := allocate_into_ok (h₁.malloc { s₁.heap with calls := s₁.heap.calls + 1 } rfl) p₁
    obtain ⟨⟨s₃, p₃, first_level⟩, hib⟩ := ib_loop_some T hmax s₂ p₂ (fun _ => 0) (i₁ + 1) 0 h₂
      (by simp only [DIRECT_BLOCK] at hidx hbig ⊢; omega)
    refine ⟨({ s₃ with disk := block_write s₃.disk p₂ (encodeU32s first_level) 0 }, { di₁ with ib := p₂ }), ?_⟩
    simp only [write_sectors_to_disk, hdl, if_pos hbig, Heap.malloc_of_ok _ (h₁.heap_ok _), hr, hib]
  · exact ⟨(s₁, di₁), by simp only [write_sectors_to_disk, hdl, if_neg hbig]⟩

/-- `inode_create`'s size test is exact in the code's 32-bit arithmetic: it rejects a length
exactly when the file needs more data sectors than the 124 direct entries and the `128 * 128`
of the doubly indirect block hold, also where `length + 511` wraps; and for an admitted length
the rounds of `write_sectors_to_disk` stay within the first-level block, so with `calloc`
succeeding and the free map in the direct blocks of its file it returns. -/
theorem inode_create_size_admission (length : Int) (h0 : 0 ≤ length) (h1 : length < 2 ^ 31) :
    (MAX_BLOCK_NUMBER < compute_total_sectors (bytes_to_sectors length) ↔
        DIRECT_BLOCK + 128 * 128 < (length.toNat + 511) / 512) ∧
      (compute_total_sectors (bytes_to_sectors length) ≤ MAX_BLOCK_NUMBER →
        ∀ (s : FsState) (disk_inode : InodeDisk), (∀ k, s.heap.ok k = true) →
          byte_cnt s.free_map.bit_cnt ≤ DIRECT_BLOCK * BLOCK_SECTOR_SIZE →
          ∃ r, write_sectors_to_disk s (compute_total_sectors (bytes_to_sectors length)) disk_inode = some r) := by
  refine ⟨?_, fun hmax s disk_inode hok hdirect => write_sectors_to_disk_some s _ disk_inode hmax ⟨hok, hdirect⟩⟩
  by_cases hwrap : length + 511 < 2 ^ 31
  · -- no wrap-around: the count of data sectors is the exact ceiling
    rw [bytes_to_sectors_eq length h0 hwrap]
    by_cases hsmall : (length.toNat + 511) / 512 ≤ DIRECT_BLOCK
    · rw [compute_total_sectors_of_le _ hsmall]
      simp only [DIRECT_BLOCK, MAX_BLOCK_NUMBER] at *
      omega
    · rw [compute_total_sectors_of_gt _ (by omega) (by omega)]
      simp only [DIRECT_BLOCK, MAX_BLOCK_NUMBER] at *
      omega
  · -- `length + 511` wraps to a negative `int`, whose quotient as `size_t` is near `2^32`
    rw [bytes_to_sectors_of_wrap length (by omega) h1]
    unfold compute_total_sectors
    rw [if_neg (by simp only [DIRECT_BLOCK]; omega)]
    simp only [DIRECT_BLOCK, MAX_BLOCK_NUMBER]
    omega

/-- The largest length admitted, `16508` full sectors, and the largest `off_t`, whose rounding
wraps. -/
theorem inode_create_size_admission_bounds :
    compute_total_sectors (bytes_to_sectors 8452096) ≤ MAX_BLOCK_NUMBER ∧
      MAX_BLOCK_NUMBER < compute_total_sectors (bytes_to_sectors (2 ^ 31 - 1)) :=
  ⟨Nat.not_lt.mp fun h => absurd ((inode_create_size_admission 8452096 (by decide) (by decide)).1.mp h) (by decide),
    (inode_create_size_admission (2 ^ 31 - 1) (by decide) (by decide)).1.mpr (by decide)⟩

/-! ## A created file read back -/

/-- The sector the index finds for data block `j` of the reference layout. -/
def data_block_ref (b : Bitmap) (total_sectors j : Nat) : Nat :=
  if j < DIRECT_BLOCK then alloc_pos b j
  else second_level_ref b total_sectors ((j - DIRECT_BLOCK) / 128) ((j - DIRECT_BLOCK) % 128)

theorem layout_ref_length (b : Bitmap) (T : Nat) (length : Int) (hlo : 0 ≤ length) (hhi : length < 2 ^ 31) :
    (InodeDisk.decode (layout_ref b T { InodeDisk.zero with length, magic := INODE_MAGIC }).encode).length =
      length := by
  rw [decode_encode_length _ (by simp only [layout_ref]; omega) (by simp only [layout_ref]; omega)]
  rfl

section Create

variable (s : FsState) (sector : Nat) (length : Int) (T : Nat)
  (hT : compute_total_sectors (bytes_to_sectors length) = T)
  (hlen : 0 ≤ length) (hf : FreeMapFileOk s) (hok : ∀ k, s.heap.ok k = true)
  (hdev : s.fs_device_size = s.free_map.bit_cnt) (hlim : s.free_map.bit_cnt ≤ BITMAP_ERROR)
  (hsector : Bitmap.bit s.free_map sector = true) (hmax : T ≤ MAX_BLOCK_NUMBER)
  (hfree : T + 1 ≤ free_cnt s.free_map)

include hT hlen hok hdev hmax hfree in
/-- The path `inode_create` takes when `malloc` succeeds and the file fits: what is left is
`write_sectors_to_disk` and the write of the `inode_disk`. -/
theorem inode_create_of_write {s_w : FsState} {di : InodeDisk}
    (hw : write_sectors_to_disk { s with heap := { s.heap with calls := s.heap.calls + 1 } } T
      { InodeDisk.zero with length, magic := INODE_MAGIC } = some (s_w, di)) :
    inode_create s sector length = some ({ s_w with disk := block_write s_w.disk sector di.encode 0 }, true) := by
  have hunused : free_map_unused { s with heap := { s.heap with calls := s.heap.calls + 1 } } =
      some (free_cnt s.free_map) := free_map_unused_eq _ hdev
  have hfree' : free_cnt s.free_map ≥ T + 1 := hfree
  simp only [inode_create, if_neg (Int.not_lt.mpr hlen), Heap.malloc_of_ok _ (hok _), hT,
    if_neg (Nat.not_lt.mpr hmax), hunused, if_pos hfree']
  rw [hw]

include hT hlen hf hok hdev hlim hsector hmax hfree in
/-- `inode_create` on a sector the map marks used, with room for the file and `malloc`
succeeding: it returns `true` with the reference layout on the disk and its `inode_disk` in
`sector`. -/
theorem inode_create_spec :
    ∃ s', inode_create s sector length = some (s', true) ∧
      s'.disk sector =
        sectorOf (layout_ref s.free_map T { InodeDisk.zero with length, magic := INODE_MAGIC }).encode 0 ∧
      (DIRECT_BLOCK < T →
        s'.disk (alloc_pos s.free_map DIRECT_BLOCK) = sectorOf (encodeU32s (first_level_ref s.free_map T)) 0) ∧
      ∀ j, 125 + 129 * j < T → s'.disk (alloc_pos s.free_map (125 + 129 * j)) =
        sectorOf (encodeU32s (second_level_ref s.free_map T j)) 0 := by
  have hstart := (AllocState.start hf hok).malloc { s.heap with calls := s.heap.calls + 1 } rfl
  obtain ⟨s_w, hw, -, hib, hS, -⟩ := write_sectors_to_disk_spec hlim T (by omega) hmax _ hstart
    { InodeDisk.zero with length, magic := INODE_MAGIC }
  have hne : ∀ t, t < T → alloc_pos s.free_map t ≠ sector := fun t ht he => by
    have := (alloc_pos_fresh s.free_map hlim t (by omega)).2.1
    rw [he, hsector] at this
    contradiction
  obtain ⟨di, hdi⟩ : ∃ di, di = layout_ref s.free_map T { InodeDisk.zero with length, magic := INODE_MAGIC } :=
    ⟨_, rfl⟩
  rw [← hdi] at hw ⊢
  refine ⟨{ s_w with disk := block_write s_w.disk sector di.encode 0 }, ?_, ?_, fun hb => ?_, fun j hj => ?_⟩
  · exact inode_create_of_write s sector length T hT hlen hok hdev hmax hfree hw
  · exact block_write_self _ _ _ _
  · dsimp only
    rw [block_write_ne _ _ _ _ _ (hne _ hb)]
    exact hib hb
  · dsimp only
    rw [block_write_ne _ _ _ _ _ (hne _ hj)]
    exact hS j hj

include hT hlen hf hok hdev hlim hsector hmax hfree in
/-- Reading the created file's layout back: the index of the inode read from `sector` maps data
block `j` to the sector the reference layout gives it. -/
theorem inode_create_reads (hlen' : length + 511 < 2 ^ 31) :
    ∃ s', inode_create s sector length = some (s', true) ∧
      ∀ inode : Inode, inode.data = InodeDisk.decode (s'.disk sector) →
        ∀ j, j < bytes_to_sectors length →
          index_sector s'.disk inode (BLOCK_SECTOR_SIZE * j) = data_block_ref s.free_map T j := by
  obtain ⟨s', hc, hsec, hib, hS⟩ := inode_create_spec s sector length T hT hlen hf hok hdev hlim hsector hmax hfree
  refine ⟨s', hc, fun inode hdata j hj => ?_⟩
  have hn := bytes_to_sectors_eq length hlen hlen'
  have hlenNat := Int.toNat_of_nonneg hlen
  have hval : ∀ t, t < T → alloc_pos s.free_map t % 2 ^ 32 = alloc_pos s.free_map t := fun t ht => by
    have := (alloc_pos_fresh s.free_map hlim t (by omega)).1
    simp only [BITMAP_ERROR] at hlim
    omega
  have hdecode : inode.data =
      InodeDisk.decode (layout_ref s.free_map T { InodeDisk.zero with length, magic := INODE_MAGIC }).encode := by
    rw [hdata, hsec, decode_sectorOf]
  have hlength : inode.data.length = length := by
    rw [hdecode, layout_ref_length _ _ _ hlen (by omega)]
  have hpos : ((BLOCK_SECTOR_SIZE * j : Nat) : Int) < inode.data.length := by
    rw [hlength]
    simp only [BLOCK_SECTOR_SIZE] at *
    omega
  have hidx : BLOCK_SECTOR_SIZE * j / BLOCK_SECTOR_SIZE = j := by
    simp only [BLOCK_SECTOR_SIZE]
    omega
  unfold index_sector data_block_ref
  rw [if_pos hpos]
  simp only [hidx]
  by_cases hdir : j < DIRECT_BLOCK
  · -- a direct block: the entry of the `inode_disk`
    have hjT : j < T := by
      by_cases hsmall : bytes_to_sectors length ≤ DIRECT_BLOCK
      · rw [compute_total_sectors_of_le _ hsmall] at hT
        omega
      · rw [compute_total_sectors_of_gt _ (by omega) (by omega)] at hT
        omega
    rw [dif_pos hdir, if_pos hdir, hdecode, decode_encode_sectors]
    simp only [layout_ref, if_pos hjT]
    exact hval j hjT
  · -- an indirect block: through `ib` and the second-level block of its round
    have hbig : DIRECT_BLOCK < bytes_to_sectors length := by omega
    rw [compute_total_sectors_of_gt _ hbig (by omega)] at hT
    -- the arithmetic of rounds: `j` lies in round `(j - 124) / 128`, which is below the count
    have hT124 : DIRECT_BLOCK < T := by omega
    have hround : 125 + 129 * ((j - DIRECT_BLOCK) / 128) < T := by
      simp only [DIRECT_BLOCK] at hdir hT ⊢
      omega
    have hq : (j - DIRECT_BLOCK) / 128 < 128 := by
      simp only [DIRECT_BLOCK, MAX_BLOCK_NUMBER] at hdir hT hmax ⊢
      omega
    have hib' : inode.data.ib = alloc_pos s.free_map DIRECT_BLOCK := by
      rw [hdecode, decode_encode_ib]
      simp only [layout_ref, if_pos hT124]
      exact hval _ hT124
    rw [dif_neg hdir, if_neg hdir, hib', hib hT124, indirect_of_sectorOf _ _ hq]
    unfold indirect_of
    rw [getU32_encodeU32s]
    simp only [first_level_ref, if_pos hround]
    rw [hval _ hround, hS _ hround, getU32_sectorOf _ _ (by simp only [BLOCK_SECTOR_SIZE]; omega),
      getU32_encodeU32s]
    unfold second_level_ref
    split
    · exact hval _ (by omega)
    · rfl

include hT hlen hf hok hdev hlim hsector hmax hfree in
theorem inode_create_last_block_unmapped (hlen' : length + 511 < 2 ^ 31)
    (hbig : DIRECT_BLOCK < bytes_to_sectors length)
    (hpart : (bytes_to_sectors length - DIRECT_BLOCK) % 128 ≠ 0) :
    ∃ s', inode_create s sector length = some (s', true) ∧
      ∀ inode : Inode, inode.data = InodeDisk.decode (s'.disk sector) →
        index_sector s'.disk inode (BLOCK_SECTOR_SIZE * (bytes_to_sectors length - 1)) = FREE_MAP_SECTOR := by
  obtain ⟨s', hc, hread⟩ := inode_create_reads s sector length T hT hlen hf hok hdev hlim hsector hmax hfree hlen'
  refine ⟨s', hc, fun inode hdata => ?_⟩
  rw [hread inode hdata _ (by omega)]
  -- the last block's entry would be allocation number `T`, one past the last
  have hsmall : bytes_to_sectors length < 2 ^ 31 := by
    rw [bytes_to_sectors_eq length hlen hlen']
    omega
  rw [compute_total_sectors_of_gt _ hbig hsmall] at hT
  have hlast : ¬(bytes_to_sectors length - 1 < DIRECT_BLOCK) := by
    simp only [DIRECT_BLOCK] at hbig ⊢
    omega
  unfold data_block_ref second_level_ref
  rw [if_neg hlast, if_neg (by simp only [DIRECT_BLOCK] at hbig hpart hT ⊢; omega)]
  rfl

/-- A 200-sector device whose free map marks sectors 0, 1 and 2 used, before the free-map
file is open (as while formatting). -/
def sample_fs : FsState where
  disk := fun _ _ => 0
  heap := { ok := fun _ => true, calls := 0 }
  fs_device_size := 200
  free_map := { bit_cnt := 200, bits := fun w => if w = 0 then 7#32 else 0#32 }
  free_map_file := none
  open_inodes := []

theorem inode_create_last_block_unmapped_sample :
    compute_total_sectors (bytes_to_sectors 64000) + 1 ≤ free_cnt sample_fs.free_map ∧
      DIRECT_BLOCK < bytes_to_sectors 64000 ∧ (bytes_to_sectors 64000 - DIRECT_BLOCK) % 128 ≠ 0 ∧
      ∃ s', inode_create sample_fs 2 64000 = some (s', true) ∧
        ∀ inode : Inode, inode.data = InodeDisk.decode (s'.disk 2) →
          index_sector s'.disk inode (BLOCK_SECTOR_SIZE * (bytes_to_sectors 64000 - 1)) = FREE_MAP_SECTOR :=
  ⟨by decide, by decide, by decide,
    inode_create_last_block_unmapped sample_fs 2 64000 126 (by decide) (by decide)
      (fun _ h => by simp [sample_fs] at h) (fun _ => rfl) rfl (by decide) (by decide) (by decide)
      (by decide) (by decide) (by decide) (by decide)⟩

include hT hlen hf hok hdev hlim hmax hfree in
/-- What a successful `inode_create` leaves: the state `write_sectors_to_disk` reaches, whose
map holds the call's `T` claims and whose disk differs only in the index blocks, with the
`inode_disk` written over `sector`. -/
theorem inode_create_outcome {s' : FsState} (hc : inode_create s sector length = some (s', true)) :
    ∃ s_w : FsState, s' = { s_w with disk := (block_write s_w.disk sector
        (layout_ref s.free_map T { InodeDisk.zero with length, magic := INODE_MAGIC }).encode 0) } ∧
      s_w.free_map = alloc_map s.free_map T ∧ s_w.free_map_file = s.free_map_file ∧
      s_w.open_inodes = s.open_inodes ∧
      ∀ x, Bitmap.bit s.free_map x = false → (DIRECT_BLOCK < T → x ≠ alloc_pos s.free_map DIRECT_BLOCK) →
        (∀ j, 125 + 129 * j < T → x ≠ alloc_pos s.free_map (125 + 129 * j)) → s_w.disk x = s.disk x := by
  have hstart := (AllocState.start hf hok).malloc { s.heap with calls := s.heap.calls + 1 } rfl
  obtain ⟨s_w, hw, hs, -, -, hframe⟩ := write_sectors_to_disk_spec hlim T (by omega) hmax _ hstart
    { InodeDisk.zero with length, magic := INODE_MAGIC }
  rw [inode_create_of_write s sector length T hT hlen hok hdev hmax hfree hw] at hc
  cases hc
  exact ⟨s_w, rfl, hs.map, hs.file, hs.inodes, hframe⟩

include hT hlen hf hok hdev hlim hsector hmax hfree in
/-- `write_sectors_to_disk` writes only the index blocks: every sector the call claims for data
keeps what was on the disk before. -/
theorem inode_create_keeps_data {s' : FsState} (hc : inode_create s sector length = some (s', true))
    (t : Nat) (ht : t < T) (hib : t ≠ DIRECT_BLOCK) (hS : ∀ j, t ≠ 125 + 129 * j) :
    s'.disk (alloc_pos s.free_map t) = s.disk (alloc_pos s.free_map t) := by
  obtain ⟨s_w, rfl, -, -, -, hframe⟩ :=
    inode_create_outcome s sector length T hT hlen hf hok hdev hlim hmax hfree hc
  have hcnt : T ≤ free_cnt s.free_map := by omega
  have hclear := (alloc_pos_fresh s.free_map hlim t (by omega)).2.1
  have hne : alloc_pos s.free_map t ≠ sector := fun he => by
    rw [he, hsector] at hclear
    contradiction
  have hne_ib : DIRECT_BLOCK < T → alloc_pos s.free_map t ≠ alloc_pos s.free_map DIRECT_BLOCK :=
    fun hb he => hib (alloc_pos_injective s.free_map hlim _ _ T ht hb hcnt he)
  have hne_sl : ∀ j, 125 + 129 * j < T → alloc_pos s.free_map t ≠ alloc_pos s.free_map (125 + 129 * j) :=
    fun j hj he => hS j (alloc_pos_injective s.free_map hlim _ _ T ht hj hcnt he)
  dsimp only
  rw [block_write_ne _ _ _ _ _ hne]
  exact hframe _ hclear hne_ib hne_sl

include hT hlen hf hok hdev hlim hsector hmax hfree in
/-- A created file that fits in the direct blocks reads back what its data sectors held before
the call: nothing in `inode_create` writes zeros to them, so the bytes of a file removed
earlier show through. -/
theorem inode_create_reads_old_contents (hdirect : length ≤ DIRECT_BLOCK * BLOCK_SECTOR_SIZE) :
    ∃ s', inode_create s sector length = some (s', true) ∧
      ∀ inode : Inode, inode.data = InodeDisk.decode (s'.disk sector) →
        ∀ (h : Heap) (buffer : Buffer), h.ok h.calls = true →
          ∃ h' out, inode_read_at h s'.disk inode buffer length 0 = some (h', out, length) ∧
            ∀ p : Nat, (p : Int) < length →
              out p = s.disk (alloc_pos s.free_map (p / BLOCK_SECTOR_SIZE)) (p % BLOCK_SECTOR_SIZE) := by
  have hlen' : length + 511 < 2 ^ 31 := by
    simp only [DIRECT_BLOCK, BLOCK_SECTOR_SIZE] at hdirect
    omega
  obtain ⟨s', hc, hsec, -⟩ := inode_create_spec s sector length T hT hlen hf hok hdev hlim hsector hmax hfree
  obtain ⟨s'', hc', hread⟩ := inode_create_reads s sector length T hT hlen hf hok hdev hlim hsector hmax hfree hlen'
  rw [hc] at hc'
  cases hc'
  refine ⟨s', hc, fun inode hdata h buffer hm => ?_⟩
  have hlength : inode.data.length = length := by
    rw [hdata, hsec, decode_sectorOf, layout_ref_length _ _ _ hlen (by omega)]
  have hacc : access_count inode length 0 = length.toNat := by
    simp only [access_count, inode_length, hlength]
    omega
  obtain ⟨h', hrd⟩ := inode_read_at_spec h s'.disk inode buffer length 0 hm
    (in_direct_blocks_of_length (by rw [hlength]; exact hdirect) length 0)
  rw [hacc, Int.toNat_of_nonneg hlen] at hrd
  refine ⟨h', _, hrd, fun p hp => ?_⟩
  simp only [read_ref]
  rw [if_pos ⟨Nat.zero_le p, by omega⟩, Nat.sub_zero, Nat.zero_add]
  have hn := bytes_to_sectors_eq length hlen hlen'
  have hblock : p / BLOCK_SECTOR_SIZE < bytes_to_sectors length := by
    rw [hn]
    simp only [BLOCK_SECTOR_SIZE]
    omega
  have hdir : p / BLOCK_SECTOR_SIZE < DIRECT_BLOCK := by
    simp only [DIRECT_BLOCK, BLOCK_SECTOR_SIZE] at hdirect ⊢
    omega
  have hsmall : bytes_to_sectors length ≤ DIRECT_BLOCK := by
    rw [hn]
    simp only [DIRECT_BLOCK, BLOCK_SECTOR_SIZE] at hdirect ⊢
    omega
  have hTn : T = bytes_to_sectors length := by rw [← hT, compute_total_sectors_of_le _ hsmall]
  have hstart : ((BLOCK_SECTOR_SIZE * (p / BLOCK_SECTOR_SIZE) : Nat) : Int) < inode.data.length := by
    rw [hlength]
    simp only [BLOCK_SECTOR_SIZE] at *
    omega
  have hsame : p / BLOCK_SECTOR_SIZE = BLOCK_SECTOR_SIZE * (p / BLOCK_SECTOR_SIZE) / BLOCK_SECTOR_SIZE := by
    simp only [BLOCK_SECTOR_SIZE]
    omega
  unfold file_byte
  rw [index_sector_same_block _ inode _ _ (by rw [hlength]; exact hp) hstart hsame,
    hread inode hdata _ hblock]
  unfold data_block_ref
  rw [if_pos hdir]
  exact congrFun (inode_create_keeps_data s sector length T hT hlen hf hok hdev hlim hsector hmax hfree hc _
    (by omega) (by simp only [DIRECT_BLOCK] at hdir ⊢; omega) (fun j => by simp only [DIRECT_BLOCK] at hdir; omega)) _

/-- `sample_fs` with the first clear sector, sector 3, holding a byte an earlier file left. -/
def stale_fs : FsState := { sample_fs with disk := fun x i => if x = 3 ∧ i = 0 then 0x55 else 0 }

theorem inode_create_reads_old_contents_sample :
    ∃ s', inode_create stale_fs 2 1 = some (s', true) ∧
      ∀ inode : Inode, inode.data = InodeDisk.decode (s'.disk 2) →
        ∀ (h : Heap) (buffer : Buffer), h.ok h.calls = true →
          ∃ h' out, inode_read_at h s'.disk inode buffer 1 0 = some (h', out, 1) ∧ out 0 = 0x55 := by
  obtain ⟨s', hc, hread⟩ := inode_create_reads_old_contents stale_fs 2 1 1 (by decide) (by decide)
    (fun _ h => by simp [stale_fs, sample_fs] at h) (fun _ => rfl) rfl (by decide) (by decide) (by decide)
    (by decide) (by decide)
  refine ⟨s', hc, fun inode hdata h buffer hm => ?_⟩
  obtain ⟨h', out, hrd, hout⟩ := hread inode hdata h buffer hm
  refine ⟨h', out, hrd, ?_⟩
  rw [hout 0 (by decide)]
  decide

end Create

end Pintos
