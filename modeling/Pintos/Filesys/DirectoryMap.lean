import Pintos.Filesys.Directory
import Pintos.Filesys.InodeClose
import Pintos.Foundations.SlotMap

/-! # A directory is a finite map from names to sectors

The directory file holds `entry_cnt` whole entries; an entry in use binds its name to the
sector of its inode, and `dir_table` lists these bindings in file order, to be read as a
`SlotMap`.  With `malloc` never failing, the scans of `directory.c` read this table one entry
at a time: `lookup` stops at the first entry in use with the name, the loop of `dir_add` at
the first free entry, `dir_readdir` at the next entry in use.
-/

namespace Pintos
set_option autoImplicit false
set_option maxHeartbeats 250000
set_option maxRecDepth 120000

open LittleEndian

/-- An entry as a binding: an entry in use binds its name to its inode's sector. -/
def entry_view (e : Buffer) : Option (List UInt8 × Nat) :=
  if entry_in_use e then some (entry_name e, entry_inode_sector e) else none

/-- The number of whole entries in the directory file. -/
def entry_cnt (inode : Inode) : Nat := (inode_length inode).toNat / DIR_ENTRY_SIZE

def entry_bytes (d : Disk) (inode : Inode) (k : Nat) : Buffer :=
  fun i => file_byte d inode (DIR_ENTRY_SIZE * k + i)

def dir_table (d : Disk) (inode : Inode) : List (Option (List UInt8 × Nat)) :=
  (List.range (entry_cnt inode)).map (fun k => entry_view (entry_bytes d inode k))

/-! ## Entries -/

theorem entry_view_congr {e e' : Buffer} (h : ∀ i < DIR_ENTRY_SIZE, e i = e' i) :
    entry_view e = entry_view e' := by
  have hin : entry_in_use e = entry_in_use e' := by
    rw [entry_in_use, entry_in_use, h 19 (by decide)]
  have hname : entry_name e = entry_name e' :=
    cstr_congr _ (fun k hk => h (4 + k) (by simp only [NAME_MAX, DIR_ENTRY_SIZE] at hk ⊢; omega))
  have hsec : entry_inode_sector e = entry_inode_sector e' :=
    getU32_congr e e' 0 (fun j hj => h _ (by simp only [DIR_ENTRY_SIZE]; omega))
  rw [entry_view, entry_view, hin, hname, hsec]

theorem holds_entry_view (name : List UInt8) (e : Buffer) :
    SlotMap.holds name (entry_view e) = (entry_in_use e && entry_name e == name) := by
  unfold entry_view
  by_cases hn : entry_name e = name <;> cases entry_in_use e <;> simp [SlotMap.holds, hn]

theorem entry_view_added (e : Buffer) (name : List UInt8) (sector : Nat) (hlen : name.length ≤ NAME_MAX)
    (hnul : ∀ c ∈ name, c ≠ 0) (hsec : sector < 2 ^ 32) :
    entry_view (set_inode_sector (set_name (set_in_use e true) name) sector) = some (name, sector) := by
  have hmin : min name.length NAME_MAX = name.length := Nat.min_eq_left hlen
  have hlen' : name.length ≤ 14 := hlen
  have hin : entry_in_use (set_inode_sector (set_name (set_in_use e true) name) sector) = true := by
    simp only [entry_in_use, set_inode_sector, set_name, set_in_use, hmin]
    rw [if_neg (by omega), if_neg (by omega), if_neg (by omega), Function.update_self]
    decide
  have hname : entry_name (set_inode_sector (set_name (set_in_use e true) name) sector) = name := by
    apply cstr_of_bytes name hnul _ _ (by simp only [NAME_MAX]; omega)
    · intro k hk
      simp only [set_inode_sector, set_name, hmin]
      rw [if_neg (by omega), if_pos ⟨by omega, by omega⟩, Nat.add_sub_cancel_left,
        List.getD_eq_getElem?_getD, List.getElem?_eq_getElem hk, Option.getD_some]
    · simp only [set_inode_sector, set_name, hmin]
      rw [if_neg (by omega), if_neg (by omega), if_pos trivial]
  have hsector : entry_inode_sector (set_inode_sector (set_name (set_in_use e true) name) sector) = sector := by
    unfold entry_inode_sector
    rw [getU32_of_bytes _ 0 sector (fun j hj => by simp only [set_inode_sector, Nat.zero_add, if_pos hj]),
      Nat.mod_eq_of_lt hsec]
  rw [entry_view, hin, if_pos rfl, hname, hsector]

theorem entry_view_erased (e : Buffer) : entry_view (set_in_use e false) = none := by
  simp [entry_view, entry_in_use, set_in_use]

theorem isNone_entry_view (e : Buffer) : (entry_view e).isNone = !entry_in_use e := by
  unfold entry_view
  cases entry_in_use e <;> rfl

theorem isSome_entry_view (e : Buffer) : (entry_view e).isSome = entry_in_use e := by
  unfold entry_view
  cases entry_in_use e <;> rfl

@[simp] theorem length_dir_table (d : Disk) (inode : Inode) : (dir_table d inode).length = entry_cnt inode := by
  simp [dir_table]

theorem dir_table_getElem? (d : Disk) (inode : Inode) {k : Nat} (hk : k < entry_cnt inode) :
    (dir_table d inode)[k]? = some (entry_view (entry_bytes d inode k)) := by
  simp [dir_table, hk]

theorem dir_table_drop (d : Disk) (inode : Inode) {k : Nat} (hk : k < entry_cnt inode) :
    (dir_table d inode).drop k = entry_view (entry_bytes d inode k) :: (dir_table d inode).drop (k + 1) := by
  rw [List.drop_eq_getElem_cons (by simpa using hk)]
  simp [dir_table]

theorem dir_table_drop_of_le (d : Disk) (inode : Inode) {k : Nat} (hk : entry_cnt inode ≤ k) :
    (dir_table d inode).drop k = [] :=
  List.drop_eq_nil_of_le (by simpa using hk)

theorem access_count_entry (inode : Inode) (k : Nat) :
    access_count inode DIR_ENTRY_SIZE (DIR_ENTRY_SIZE * k) = DIR_ENTRY_SIZE ↔ k < entry_cnt inode := by
  unfold access_count entry_cnt
  simp only [DIR_ENTRY_SIZE]
  omega

/-- Reading entry `k` of a directory in the direct blocks, with `malloc` succeeding: the read
returns, whole exactly for the entries of the table, and then holds the entry's bytes. -/
theorem read_entry (h : Heap) (d : Disk) (inode : Inode) (e : Buffer) (k : Nat) (hm : h.ok h.calls = true)
    (hdirect : inode.data.length ≤ DIRECT_BLOCK * BLOCK_SECTOR_SIZE) :
    ∃ h' e' n, inode_read_at h d inode e DIR_ENTRY_SIZE (DIR_ENTRY_SIZE * k) = some (h', e', n) ∧
      h'.ok = h.ok ∧ h.calls ≤ h'.calls ∧ (n = DIR_ENTRY_SIZE ↔ k < entry_cnt inode) ∧
      (k < entry_cnt inode → ∀ i < DIR_ENTRY_SIZE, e' i = entry_bytes d inode k i) := by
  obtain ⟨h', hr⟩ := inode_read_at_spec h d inode e DIR_ENTRY_SIZE (DIR_ENTRY_SIZE * k) hm
    (in_direct_blocks_of_length hdirect _ _)
  obtain ⟨hok, hcalls⟩ := inode_read_at_heap hr
  have hcnt := access_count_entry inode k
  refine ⟨h', _, _, hr, hok, hcalls, by rw [← hcnt]; omega, fun hk i hi => ?_⟩
  rw [hcnt.mpr hk]
  simp only [read_ref, Nat.zero_le, Nat.zero_add, true_and, if_pos hi, Nat.sub_zero, entry_bytes]

/-! ## The scans -/

section Scans

variable (d : Disk) (inode : Inode) (hdirect : inode.data.length ≤ DIRECT_BLOCK * BLOCK_SECTOR_SIZE)
include hdirect

/-- A read of entry `j` that returned: the heap's answers kept, its calls counted, a whole entry
exactly for the entries of the table, and then the entry's bytes. -/
theorem read_entry_eq {h h₁ : Heap} {e e₁ : Buffer} {j : Nat} {n : Int} (hm : h.ok h.calls = true)
    (hr : inode_read_at h d inode e DIR_ENTRY_SIZE (DIR_ENTRY_SIZE * j) = some (h₁, e₁, n)) :
    h₁.ok = h.ok ∧ h.calls ≤ h₁.calls ∧ (n = DIR_ENTRY_SIZE ↔ j < entry_cnt inode) ∧
      (j < entry_cnt inode → ∀ i < DIR_ENTRY_SIZE, e₁ i = entry_bytes d inode j i) := by
  obtain ⟨_, _, _, hr', hrest⟩ := read_entry h d inode e j hm hdirect
  rw [hr] at hr'
  cases hr'
  exact hrest

theorem read_entry_ne_none {h : Heap} {e : Buffer} {j : Nat} (hm : h.ok h.calls = true) :
    inode_read_at h d inode e DIR_ENTRY_SIZE (DIR_ENTRY_SIZE * j) ≠ none := by
  obtain ⟨_, _, _, hr', -⟩ := read_entry h d inode e j hm hdirect
  rw [hr']
  exact Option.some_ne_none _

/-- The loop of `lookup` from entry `j` stops at the first entry in use with the name, handing
back its bytes and offset, or finds none. -/
theorem lookup_loop_spec (name : List UInt8) (h : Heap) (e : Buffer) (ofs j : Nat)
    (hok : ∀ k, h.ok k = true) (hj : ofs = DIR_ENTRY_SIZE * j) :
    ∃ h' res, lookup_loop d inode name h e ofs = some (h', res) ∧ h'.ok = h.ok ∧ h.calls ≤ h'.calls ∧
      (SlotMap.find ((dir_table d inode).drop j) name = none → res = none) ∧
      (∀ i, SlotMap.find ((dir_table d inode).drop j) name = some i →
        ∃ e', res = some (e', DIR_ENTRY_SIZE * (j + i)) ∧
          ∀ b < DIR_ENTRY_SIZE, e' b = entry_bytes d inode (j + i) b) := by
  fun_induction lookup_loop d inode name h e ofs generalizing j with
  | case1 h e ofs hr =>
    subst hj
    exact absurd hr (read_entry_ne_none d inode hdirect (hok _))
  | case2 h e ofs h₁ e₁ hmatch hr =>
    subst hj
    obtain ⟨hok₁, hcalls, hiff, hbytes⟩ := read_entry_eq d inode hdirect (hok _) hr
    have hjn : j < entry_cnt inode := hiff.mp rfl
    have hview := entry_view_congr (hbytes hjn)
    have hfind : SlotMap.find ((dir_table d inode).drop j) name = some 0 := by
      rw [dir_table_drop d inode hjn, SlotMap.find_cons, ← hview, holds_entry_view, hmatch, if_pos rfl]
    refine ⟨h₁, _, rfl, hok₁, hcalls, fun hnone => ?_, fun i hi => ?_⟩
    · rw [hfind] at hnone
      cases hnone
    · rw [hfind] at hi
      cases hi
      exact ⟨e₁, by rw [Nat.add_zero], hbytes hjn⟩
  | case3 h e ofs h₁ e₁ hmatch hr ih =>
    subst hj
    obtain ⟨hok₁, hcalls, hiff, hbytes⟩ := read_entry_eq d inode hdirect (hok _) hr
    have hjn : j < entry_cnt inode := hiff.mp rfl
    have hview := entry_view_congr (hbytes hjn)
    obtain ⟨h', res, hrun, hh, hcalls', hnone, hsome⟩ :=
      ih (j + 1) (fun k => by rw [hok₁]; exact hok k) (by simp only [DIR_ENTRY_SIZE]; omega)
    have hfind : SlotMap.find ((dir_table d inode).drop j) name =
        (SlotMap.find ((dir_table d inode).drop (j + 1)) name).map (· + 1) := by
      rw [dir_table_drop d inode hjn, SlotMap.find_cons, ← hview, holds_entry_view]
      rw [if_neg hmatch]
    refine ⟨h', res, hrun, hh.trans hok₁, Nat.le_trans hcalls hcalls', fun hn => hnone ?_, fun i hi => ?_⟩
    · rw [hfind] at hn
      exact Option.map_eq_none_iff.mp hn
    · rw [hfind] at hi
      obtain ⟨i', hi', rfl⟩ := Option.map_eq_some_iff.mp hi
      obtain ⟨e', he', hb⟩ := hsome i' hi'
      have hidx : j + 1 + i' = j + (i' + 1) := by omega
      exact ⟨e', by rw [he', hidx], fun b hb' => by rw [hb b hb', hidx]⟩
  | case4 h e ofs h₁ e₁ n hr hn =>
    subst hj
    obtain ⟨hok₁, hcalls, hiff, -⟩ := read_entry_eq d inode hdirect (hok _) hr
    have hjn : entry_cnt inode ≤ j := by
      by_contra hlt
      exact hn (hiff.mpr (by omega))
    have hfind : SlotMap.find ((dir_table d inode).drop j) name = none := by
      rw [dir_table_drop_of_le d inode hjn]
      rfl
    refine ⟨h₁, none, rfl, hok₁, hcalls, fun _ => rfl, fun i hi => ?_⟩
    rw [hfind] at hi
    cases hi

/-- The loop of `dir_add` from entry `j` stops at the first free entry, with its bytes, or at
the end of the table. -/
theorem free_slot_loop_spec (h : Heap) (e : Buffer) (ofs j : Nat) (hok : ∀ k, h.ok k = true)
    (hj : ofs = DIR_ENTRY_SIZE * j) (hjn : j ≤ entry_cnt inode) :
    ∃ h' e' ofs', free_slot_loop d inode h e ofs = some (h', e', ofs') ∧ h'.ok = h.ok ∧
      (SlotMap.free ((dir_table d inode).drop j) = none → ofs' = DIR_ENTRY_SIZE * entry_cnt inode) ∧
      (∀ i, SlotMap.free ((dir_table d inode).drop j) = some i →
        ofs' = DIR_ENTRY_SIZE * (j + i) ∧ ∀ b < DIR_ENTRY_SIZE, e' b = entry_bytes d inode (j + i) b) := by
  fun_induction free_slot_loop d inode h e ofs generalizing j with
  | case1 h e ofs hr =>
    subst hj
    exact absurd hr (read_entry_ne_none d inode hdirect (hok _))
  | case2 h e ofs h₁ e₁ hfree hr =>
    subst hj
    obtain ⟨hok₁, -, hiff, hbytes⟩ := read_entry_eq d inode hdirect (hok _) hr
    have hjn : j < entry_cnt inode := hiff.mp rfl
    have hview := entry_view_congr (hbytes hjn)
    have hfind : SlotMap.free ((dir_table d inode).drop j) = some 0 := by
      rw [dir_table_drop d inode hjn, SlotMap.free_cons, ← hview, isNone_entry_view, hfree, if_pos rfl]
    refine ⟨h₁, e₁, _, rfl, hok₁, fun hnone => ?_, fun i hi => ?_⟩
    · rw [hfind] at hnone
      cases hnone
    · rw [hfind] at hi
      cases hi
      exact ⟨by rw [Nat.add_zero], hbytes hjn⟩
  | case3 h e ofs h₁ e₁ hfree hr ih =>
    subst hj
    obtain ⟨hok₁, -, hiff, hbytes⟩ := read_entry_eq d inode hdirect (hok _) hr
    have hjn : j < entry_cnt inode := hiff.mp rfl
    have hview := entry_view_congr (hbytes hjn)
    obtain ⟨h', e', ofs', hrun, hh, hnone, hsome⟩ :=
      ih (j + 1) (fun k => by rw [hok₁]; exact hok k) (by simp only [DIR_ENTRY_SIZE]; omega) hjn
    have hfind : SlotMap.free ((dir_table d inode).drop j) =
        (SlotMap.free ((dir_table d inode).drop (j + 1))).map (· + 1) := by
      rw [dir_table_drop d inode hjn, SlotMap.free_cons, ← hview, isNone_entry_view, if_neg hfree]
    refine ⟨h', e', ofs', hrun, hh.trans hok₁, fun hn => hnone ?_, fun i hi => ?_⟩
    · rw [hfind] at hn
      exact Option.map_eq_none_iff.mp hn
    · rw [hfind] at hi
      obtain ⟨i', hi', rfl⟩ := Option.map_eq_some_iff.mp hi
      obtain ⟨hofs, hb⟩ := hsome i' hi'
      have hidx : j + 1 + i' = j + (i' + 1) := by omega
      exact ⟨by rw [hofs, hidx], fun b hb' => by rw [hb b hb', hidx]⟩
  | case4 h e ofs h₁ e₁ n hr hn =>
    subst hj
    obtain ⟨hok₁, -, hiff, -⟩ := read_entry_eq d inode hdirect (hok _) hr
    have hjn' : entry_cnt inode ≤ j := by
      by_contra hlt
      exact hn (hiff.mpr (by omega))
    have hfind : SlotMap.free ((dir_table d inode).drop j) = none := by
      rw [dir_table_drop_of_le d inode hjn']
      rfl
    refine ⟨h₁, e₁, _, rfl, hok₁, fun _ => by rw [Nat.le_antisymm hjn hjn'], fun i hi => ?_⟩
    rw [hfind] at hi
    cases hi

/-- The loop of `dir_readdir` from entry `j` stops past the next entry in use, with its name,
or at the end of the table. -/
theorem readdir_loop_spec (h : Heap) (e : Buffer) (pos j : Nat) (hok : ∀ k, h.ok k = true)
    (hj : pos = DIR_ENTRY_SIZE * j) (hjn : j ≤ entry_cnt inode) :
    ∃ h' pos' name', readdir_loop d inode h e pos = some (h', pos', name') ∧ h'.ok = h.ok ∧
      (SlotMap.next ((dir_table d inode).drop j) = none → (pos', name') = (DIR_ENTRY_SIZE * entry_cnt inode, none)) ∧
      (∀ i, SlotMap.next ((dir_table d inode).drop j) = some i →
        ∃ name sector, ((dir_table d inode).drop j)[i]? = some (some (name, sector)) ∧
          (pos', name') = (DIR_ENTRY_SIZE * (j + i + 1), some (name.take NAME_MAX))) := by
  fun_induction readdir_loop d inode h e pos generalizing j with
  | case1 h e pos hr =>
    subst hj
    exact absurd hr (read_entry_ne_none d inode hdirect (hok _))
  | case2 h e pos h₁ e₁ huse hr =>
    subst hj
    obtain ⟨hok₁, -, hiff, hbytes⟩ := read_entry_eq d inode hdirect (hok _) hr
    have hjn : j < entry_cnt inode := hiff.mp rfl
    have hview := entry_view_congr (hbytes hjn)
    have hnext : SlotMap.next ((dir_table d inode).drop j) = some 0 := by
      rw [dir_table_drop d inode hjn, SlotMap.next_cons, ← hview, isSome_entry_view, huse, if_pos rfl]
    refine ⟨h₁, _, _, rfl, hok₁, fun hnone => ?_, fun i hi => ?_⟩
    · rw [hnext] at hnone
      cases hnone
    · rw [hnext] at hi
      cases hi
      refine ⟨entry_name e₁, entry_inode_sector e₁, ?_, ?_⟩
      · rw [dir_table_drop d inode hjn, ← hview]
        simp only [entry_view, List.getElem?_cons_zero, Option.some.injEq]
        exact if_pos huse
      · simp only [DIR_ENTRY_SIZE]
        congr 1
  | case3 h e pos h₁ e₁ huse hr ih =>
    subst hj
    obtain ⟨hok₁, -, hiff, hbytes⟩ := read_entry_eq d inode hdirect (hok _) hr
    have hjn : j < entry_cnt inode := hiff.mp rfl
    have hview := entry_view_congr (hbytes hjn)
    obtain ⟨h', pos', name', hrun, hh, hnone, hsome⟩ :=
      ih (j + 1) (fun k => by rw [hok₁]; exact hok k) (by simp only [DIR_ENTRY_SIZE]; omega) hjn
    have hnext : SlotMap.next ((dir_table d inode).drop j) =
        (SlotMap.next ((dir_table d inode).drop (j + 1))).map (· + 1) := by
      rw [dir_table_drop d inode hjn, SlotMap.next_cons, ← hview, isSome_entry_view, if_neg huse]
    refine ⟨h', pos', name', hrun, hh.trans hok₁, fun hn => hnone ?_, fun i hi => ?_⟩
    · rw [hnext] at hn
      exact Option.map_eq_none_iff.mp hn
    · rw [hnext] at hi
      obtain ⟨i', hi', rfl⟩ := Option.map_eq_some_iff.mp hi
      obtain ⟨name, sector, hslot, hres⟩ := hsome i' hi'
      have hidx : j + 1 + i' + 1 = j + (i' + 1) + 1 := by omega
      refine ⟨name, sector, ?_, by rw [hres, hidx]⟩
      rw [dir_table_drop d inode hjn, List.getElem?_cons_succ]
      exact hslot
  | case4 h e pos h₁ e₁ n hr hn =>
    subst hj
    obtain ⟨hok₁, -, hiff, -⟩ := read_entry_eq d inode hdirect (hok _) hr
    have hjn' : entry_cnt inode ≤ j := by
      by_contra hlt
      exact hn (hiff.mpr (by omega))
    have hnext : SlotMap.next ((dir_table d inode).drop j) = none := by
      rw [dir_table_drop_of_le d inode hjn']
      rfl
    refine ⟨h₁, _, _, rfl, hok₁, fun _ => by rw [Nat.le_antisymm hjn hjn'], fun i hi => ?_⟩
    rw [hnext] at hi
    cases hi

end Scans

section Tables

variable (d : Disk) (inode : Inode)

theorem entry_bytes_of_write {d' : Disk} {buf : Buffer} {off c k : Nat} (he : WriteEffect d d' inode buf off 0 c)
    (hk : k < entry_cnt inode) {b : Nat} (hb : b < DIR_ENTRY_SIZE) :
    entry_bytes d' inode k b = if off ≤ DIR_ENTRY_SIZE * k + b ∧ DIR_ENTRY_SIZE * k + b < off + c
      then buf (DIR_ENTRY_SIZE * k + b - off) else entry_bytes d inode k b := by
  have hp : ((DIR_ENTRY_SIZE * k + b : Nat) : Int) < inode.data.length := by
    unfold entry_cnt inode_length at hk
    simp only [DIR_ENTRY_SIZE] at hk hb ⊢
    omega
  rw [entry_bytes, he.bytes _ hp, Nat.zero_add]
  rfl

theorem dir_table_of_write {d' : Disk} {buf : Buffer} {i : Nat}
    (he : WriteEffect d d' inode buf (DIR_ENTRY_SIZE * i) 0 DIR_ENTRY_SIZE) :
    dir_table d' inode = (dir_table d inode).set i (entry_view buf) := by
  apply List.ext_getElem (by simp)
  intro k hk _
  rw [length_dir_table] at hk
  rw [List.getElem_set]
  simp only [dir_table, List.getElem_map, List.getElem_range]
  by_cases hki : i = k
  · subst hki
    rw [if_pos rfl]
    apply entry_view_congr
    intro b hb
    rw [entry_bytes_of_write d inode he hk hb, if_pos (by omega)]
    congr 1
    omega
  · rw [if_neg hki]
    apply entry_view_congr
    intro b hb
    rw [entry_bytes_of_write d inode he hk hb, if_neg (by simp only [DIR_ENTRY_SIZE] at hb ⊢; omega)]

theorem dir_table_of_write_past {d' : Disk} {buf : Buffer} {c : Nat}
    (he : WriteEffect d d' inode buf (DIR_ENTRY_SIZE * entry_cnt inode) 0 c) :
    dir_table d' inode = dir_table d inode := by
  apply List.ext_getElem (by simp)
  intro k hk _
  rw [length_dir_table] at hk
  simp only [dir_table, List.getElem_map, List.getElem_range]
  apply entry_view_congr
  intro b hb
  rw [entry_bytes_of_write d inode he hk hb, if_neg (by simp only [DIR_ENTRY_SIZE] at hb ⊢; omega)]

theorem dir_table_of_data {i i' : Inode} (h : i'.data = i.data) : dir_table d i' = dir_table d i := by
  obtain ⟨⟩ := i
  obtain ⟨⟩ := i'
  subst h
  rfl

theorem dir_table_frame {d' : Disk} (h : ∀ y, layout_sector d inode y → d' y = d y) :
    dir_table d' inode = dir_table d inode := by
  apply List.ext_getElem (by simp)
  intro k hk _
  rw [length_dir_table] at hk
  simp only [dir_table, List.getElem_map, List.getElem_range]
  apply entry_view_congr
  intro b hb
  have hp : ((DIR_ENTRY_SIZE * k + b : Nat) : Int) < inode.data.length := by
    unfold entry_cnt inode_length at hk
    simp only [DIR_ENTRY_SIZE] at hk hb ⊢
    omega
  have hidx := index_sector_frame d d' inode _ hp (fun t ht => h t ⟨_, hp, Or.inr ht⟩)
  simp only [entry_bytes, file_byte, hidx]
  exact congrFun (h _ ⟨_, hp, Or.inl rfl⟩) _

end Tables

/-! ## The operations -/

/-- The names of the entries in use are distinct and end within their field. -/
structure DirWf (table : List (Option (List UInt8 × Nat))) : Prop where
  nodup : (SlotMap.keys table).Nodup
  short : ∀ name ∈ SlotMap.keys table, name.length ≤ NAME_MAX

section Wf

variable {table : List (Option (List UInt8 × Nat))} (hw : DirWf table)
include hw

theorem DirWf.insert {name : List UInt8} (hk : name ∉ SlotMap.keys table) (hlen : name.length ≤ NAME_MAX)
    (sector : Nat) : DirWf (SlotMap.insert table name sector) :=
  ⟨SlotMap.nodup_keys_insert sector hk hw.nodup,
    SlotMap.forall_keys_insert sector (fun n : List UInt8 => n.length ≤ NAME_MAX) hlen hw.short⟩

theorem DirWf.erase (name : List UInt8) : DirWf (SlotMap.erase table name) :=
  ⟨hw.nodup.sublist (SlotMap.keys_erase_sublist name),
    fun n hn => hw.short n ((SlotMap.keys_erase_sublist name).subset hn)⟩

theorem DirWf.take_keys : (SlotMap.keys table).map (List.take NAME_MAX) = SlotMap.keys table := by
  calc (SlotMap.keys table).map (List.take NAME_MAX)
      = (SlotMap.keys table).map id := List.map_congr_left (fun n hn => List.take_of_length_le (hw.short n hn))
    _ = SlotMap.keys table := List.map_id _

end Wf

theorem lookup_spec (h : Heap) (d : Disk) (inode : Inode) (name : List UInt8) (hok : ∀ k, h.ok k = true)
    (hdirect : inode.data.length ≤ DIRECT_BLOCK * BLOCK_SECTOR_SIZE) :
    ∃ h' res, lookup h d inode name = some (h', res) ∧ h'.ok = h.ok ∧ h.calls ≤ h'.calls ∧
      (SlotMap.find (dir_table d inode) name = none → res = none) ∧
      (∀ i, SlotMap.find (dir_table d inode) name = some i →
        ∃ e', res = some (e', DIR_ENTRY_SIZE * i) ∧ ∀ b < DIR_ENTRY_SIZE, e' b = entry_bytes d inode i b) := by
  have h₀ := lookup_loop_spec d inode hdirect name h (fun _ => 0) 0 0 hok rfl
  simp only [List.drop_zero, Nat.zero_add] at h₀
  exact h₀

theorem entry_inode_sector_of_view {e : Buffer} {name : List UInt8} {sector : Nat}
    (h : entry_view e = some (name, sector)) : entry_inode_sector e = sector := by
  unfold entry_view at h
  split at h
  · cases h
    rfl
  · cases h

section Operations

variable {s : FsState} {dir : Dir} {dinode : Inode} (hdir : s.inode_at dir.inode = some dinode)
  (hok : ∀ k, s.heap.ok k = true) (hdirect : dinode.data.length ≤ DIRECT_BLOCK * BLOCK_SECTOR_SIZE)

include hdir hok hdirect

/-- `dir_lookup` opens the sector the directory binds to the name, and fails exactly for a name
it does not bind. -/
theorem dir_lookup_spec (name : List UInt8) :
    ∃ r, dir_lookup s dir name = some r ∧
      (r.2.isSome ↔ (SlotMap.lookup (dir_table s.disk dinode) name).isSome) ∧
      ∀ sector, SlotMap.lookup (dir_table s.disk dinode) name = some sector →
        ∃ heap, heap.ok = s.heap.ok ∧ r = inode_open { s with heap } sector := by
  obtain ⟨heap, res, hl, hh, -, hnone, hsome⟩ := lookup_spec s.heap s.disk dinode name hok hdirect
  cases hf : SlotMap.find (dir_table s.disk dinode) name with
  | none =>
    rw [hnone hf] at hl
    rw [SlotMap.find_eq_none hf]
    exact ⟨({ s with heap }, none), by simp only [dir_lookup, hdir, hl], by simp, fun _ h => by cases h⟩
  | some i =>
    obtain ⟨v, hv, hlk⟩ := SlotMap.find_spec hf
    obtain ⟨e', he', hb⟩ := hsome i hf
    have hi : i < entry_cnt dinode := by
      have := (List.getElem?_eq_some_iff.mp hv).1
      rwa [length_dir_table] at this
    have hview : entry_view e' = some (name, v) := by
      rw [entry_view_congr hb, ← Option.some_inj, ← dir_table_getElem? s.disk dinode hi, hv]
    rw [he'] at hl
    have hdl : dir_lookup s dir name = some (inode_open { s with heap } v) := by
      simp only [dir_lookup, hdir, hl]
      rw [entry_inode_sector_of_view hview]
    obtain ⟨addr, ha⟩ := inode_open_ok (s := { s with heap }) (by rw [← hh] at hok; exact hok _) v
    refine ⟨_, hdl, by rw [hlk]; simp [ha], fun sector hs => ?_⟩
    rw [hlk] at hs
    cases hs
    exact ⟨heap, hh, rfl⟩

end Operations

section Add

variable {s : FsState} {dir : Dir} {dinode : Inode} (hdir : s.inode_at dir.inode = some dinode)
  (hok : ∀ k, s.heap.ok k = true) (hdirect : dinode.data.length ≤ DIRECT_BLOCK * BLOCK_SECTOR_SIZE)
  (hl : LayoutOk s.disk dinode) (hdeny : dinode.deny_write_cnt = 0)

include hdir hok hdirect hl hdeny

/-- `dir_add` refuses an empty or long name, a name the directory binds and a full directory;
otherwise it binds the name to the sector in the first free entry.  The write goes through the
directory's inode and leaves every other sector. -/
theorem dir_add_spec (name : List UInt8) (hnul : ∀ c ∈ name, c ≠ 0) (sector : Nat) (hsec : sector < 2 ^ 32) :
    ∃ s' b, dir_add s dir name sector = some (s', b) ∧
      (b = true ↔ name ≠ [] ∧ name.length ≤ NAME_MAX ∧ name ∉ SlotMap.keys (dir_table s.disk dinode) ∧
        (SlotMap.free (dir_table s.disk dinode)).isSome) ∧
      dir_table s'.disk dinode =
        (if b then SlotMap.insert (dir_table s.disk dinode) name sector else dir_table s.disk dinode) ∧
      ∃ heap disk, s' = { s with heap, disk } ∧ heap.ok = s.heap.ok ∧
        LayoutOk disk dinode ∧ ∀ y, ¬ layout_sector s.disk dinode y → disk y = s.disk y := by
  by_cases hv : name = [] ∨ name.length > NAME_MAX
  · refine ⟨s, false, dir_add_invalid_name s dir name sector hv, ?_, by simp, s.heap, s.disk, rfl, rfl, hl,
      fun _ _ => rfl⟩
    simp only [Bool.false_eq_true, false_iff]
    rintro ⟨h0, hlen, -⟩
    rcases hv with h | h
    · exact h0 h
    · omega
  have hvalid : name ≠ [] ∧ name.length ≤ NAME_MAX := by
    simp only [not_or, gt_iff_lt, Nat.not_lt] at hv
    exact hv
  obtain ⟨heap, res, hlk, hh, -, hnone, hsome⟩ := lookup_spec s.heap s.disk dinode name hok hdirect
  cases hf : SlotMap.find (dir_table s.disk dinode) name with
  | some i =>
    obtain ⟨v, hv', -⟩ := SlotMap.find_spec hf
    obtain ⟨e', he', -⟩ := hsome i hf
    rw [he'] at hlk
    refine ⟨_, false, dir_add_found sector hv hdir hlk, ?_, by simp, heap, s.disk, rfl, hh, hl, fun _ _ => rfl⟩
    simp only [Bool.false_eq_true, false_iff]
    exact fun ⟨_, _, hk, _⟩ => hk (SlotMap.mem_keys_of_getElem? hv')
  | none =>
    rw [hnone hf] at hlk
    have hk : name ∉ SlotMap.keys (dir_table s.disk dinode) :=
      (SlotMap.lookup_eq_none_iff _ _).mp (SlotMap.find_eq_none hf)
    have hok₁ : ∀ k, heap.ok k = true := by
      rw [hh]
      exact hok
    obtain ⟨heap₂, e, ofs, hfl, hh₂, hfnone, hfsome⟩ :=
      free_slot_loop_spec s.disk dinode hdirect heap (fun _ => 0) 0 0 hok₁ rfl (Nat.zero_le _)
    simp only [List.drop_zero, Nat.zero_add] at hfnone hfsome
    obtain ⟨heap₃, disk₃, hw, heff⟩ := inode_write_at_spec heap₂ s.disk dinode
      (set_inode_sector (set_name (set_in_use e true) name) sector) DIR_ENTRY_SIZE ofs hl hdeny
      (by rw [hh₂]; exact hok₁ _) (in_direct_blocks_of_length hdirect _ _)
    have hwok := (inode_write_at_heap hw).1
    have hframe : ∃ heap disk, { s with heap := heap₃, disk := disk₃ } = { s with heap, disk } ∧
        heap.ok = s.heap.ok ∧ LayoutOk disk dinode ∧ ∀ y, ¬ layout_sector s.disk dinode y → disk y = s.disk y :=
      ⟨heap₃, disk₃, rfl, by rw [hwok, hh₂, hh], heff.layout, heff.frame_layout⟩
    rw [dir_add_written hv hdir hlk hfl hw]
    refine ⟨_, _, rfl, ?_⟩
    cases hfr : SlotMap.free (dir_table s.disk dinode) with
    | some i =>
      have hi : i < entry_cnt dinode := by
        have := (List.getElem?_eq_some_iff.mp (SlotMap.free_spec hfr)).1
        rwa [length_dir_table] at this
      have hofs : ofs = DIR_ENTRY_SIZE * i := (hfsome i hfr).1
      rw [hofs, (access_count_entry dinode i).mpr hi] at heff ⊢
      rw [beq_self_eq_true, if_pos rfl, SlotMap.insert_of_free sector hfr, dir_table_of_write s.disk dinode heff,
        entry_view_added e name sector hvalid.2 hnul hsec]
      exact ⟨by simp [hvalid.1, hvalid.2, hk], rfl, hframe⟩
    | none =>
      have hofs : ofs = DIR_ENTRY_SIZE * entry_cnt dinode := hfnone hfr
      rw [hofs] at heff ⊢
      have hshort : access_count dinode DIR_ENTRY_SIZE (DIR_ENTRY_SIZE * entry_cnt dinode) ≠ DIR_ENTRY_SIZE :=
        fun h => absurd ((access_count_entry dinode _).mp h) (Nat.lt_irrefl _)
      have hbw : ((access_count dinode DIR_ENTRY_SIZE (DIR_ENTRY_SIZE * entry_cnt dinode) : Int) ==
          (DIR_ENTRY_SIZE : Int)) = false := by
        simp only [beq_eq_false_iff_ne, ne_eq]
        exact fun h => hshort (by exact_mod_cast h)
      rw [hbw, dir_table_of_write_past s.disk dinode heff]
      exact ⟨by simp, by simp, hframe⟩

end Add

section Remove

variable {s : FsState} {dir : Dir} {dinode : Inode} (hdir : s.inode_at dir.inode = some dinode)
  (hok : ∀ k, s.heap.ok k = true) (hdirect : dinode.data.length ≤ DIRECT_BLOCK * BLOCK_SECTOR_SIZE)
  (hl : LayoutOk s.disk dinode) (hdeny : dinode.deny_write_cnt = 0)
  (hfresh : ∀ i ∈ s.open_inodes, i.addr < s.heap.calls)
  (hmap : ∀ file, s.free_map_file = some file → file.inode < s.heap.calls)
  (hsect : (s.open_inodes.map Inode.sector).Nodup) (hapart : MapApart s (layout_sector s.disk dinode))

include hdir hok hdirect hl hdeny hfresh hmap hsect hapart

/-- `dir_remove` refuses a name the directory does not bind, changing only the heap; otherwise
it frees the name's entry and leaves every open inode of the entry's sector marked removed.
The close that may release that inode keeps the directory's sectors. -/
theorem dir_remove_spec (name : List UInt8) :
    (name ∉ SlotMap.keys (dir_table s.disk dinode) →
      ∃ heap, dir_remove s dir name = some ({ s with heap }, false)) ∧
    ∀ s' b, dir_remove s dir name = some (s', b) →
      (b = true ↔ name ∈ SlotMap.keys (dir_table s.disk dinode)) ∧
      dir_table s'.disk dinode =
        (if b then SlotMap.erase (dir_table s.disk dinode) name else dir_table s.disk dinode) ∧
      ∀ sector, SlotMap.lookup (dir_table s.disk dinode) name = some sector →
        ∀ ino ∈ s'.open_inodes, ino.sector = sector → ino.removed = true := by
  obtain ⟨heap, res, hlk, hh, hcalls, hnone, hsome⟩ := lookup_spec s.heap s.disk dinode name hok hdirect
  have hok₁ : ∀ k, heap.ok k = true := by
    rw [hh]
    exact hok
  cases hf : SlotMap.find (dir_table s.disk dinode) name with
  | none =>
    rw [hnone hf] at hlk
    have hk : name ∉ SlotMap.keys (dir_table s.disk dinode) :=
      (SlotMap.lookup_eq_none_iff _ _).mp (SlotMap.find_eq_none hf)
    have hr := dir_remove_absent hdir hlk
    refine ⟨fun _ => ⟨heap, hr⟩, fun s' b h => ?_⟩
    rw [hr] at h
    obtain ⟨rfl, rfl⟩ := Prod.mk.inj (Option.some.inj h)
    refine ⟨by simp [hk], by simp, fun sector hs => ?_⟩
    rw [SlotMap.find_eq_none hf] at hs
    cases hs
  | some i =>
    obtain ⟨v, hv, hlkv⟩ := SlotMap.find_spec hf
    obtain ⟨e', he', hb⟩ := hsome i hf
    have hi : i < entry_cnt dinode := by
      have := (List.getElem?_eq_some_iff.mp hv).1
      rwa [length_dir_table] at this
    have hview : entry_view e' = some (name, v) := by
      rw [entry_view_congr hb, ← Option.some_inj, ← dir_table_getElem? s.disk dinode hi, hv]
    have hk : name ∈ SlotMap.keys (dir_table s.disk dinode) := SlotMap.mem_keys_of_getElem? hv
    rw [he'] at hlk
    obtain ⟨a, ha⟩ := inode_open_ok (s := { s with heap }) (hok₁ _) v
    rcases ho : inode_open { s with heap } v with ⟨s₁, r⟩
    rw [ho] at ha
    dsimp only at ha
    subst ha
    obtain ⟨hd₁, -, hok₂, -⟩ := inode_open_fields { s with heap } v
    rw [ho] at hd₁ hok₂
    dsimp only at hd₁ hok₂
    have hne : dir.inode ≠ heap.calls := by
      have hfind : s.open_inodes.find? (fun inode => inode.addr == dir.inode) = some dinode := hdir
      have haddr : dinode.addr = dir.inode := by simpa using List.find?_some hfind
      have := hfresh dinode (List.mem_of_find?_eq_some hfind)
      omega
    obtain ⟨dinode₁, hdir₁, hdata, hdeny₁, -, -⟩ := inode_open_inode_at (s := { s with heap }) (hok₁ _) v hne hdir
    rw [ho] at hdir₁
    dsimp only at hdir₁
    have hl₁ : LayoutOk s₁.disk dinode₁ := by
      rw [hd₁]
      exact LayoutOk.of_data hdata s.disk hl
    have hcnt₁ : entry_cnt dinode₁ = entry_cnt dinode := by
      unfold entry_cnt inode_length
      rw [hdata]
    obtain ⟨heap₂, d₂, hw, heff⟩ := inode_write_at_spec s₁.heap s₁.disk dinode₁ (set_in_use e' false) DIR_ENTRY_SIZE
      (DIR_ENTRY_SIZE * i) hl₁ (hdeny₁.trans hdeny) (by rw [hok₂]; exact hok₁ _)
      (in_direct_blocks_of_length (by rw [hdata]; exact hdirect) _ _)
    have hwok := (inode_write_at_heap hw).1
    rw [(access_count_entry dinode₁ i).mpr (hcnt₁ ▸ hi)] at hw heff
    have hfw : file_write_at s₁ ⟨dir.inode, 0, false⟩ (set_in_use e' false) DIR_ENTRY_SIZE (DIR_ENTRY_SIZE * i) =
        some ({ s₁ with heap := heap₂, disk := d₂ }, (DIR_ENTRY_SIZE : Int)) := by
      simp only [file_write_at, hdir₁, hw, Option.map_some]
    rw [dir_remove_erased hdir hlk (by rw [entry_inode_sector_of_view hview]; exact ho) hfw]
    refine ⟨fun hk' => absurd hk hk', fun s' b h => ?_⟩
    obtain ⟨s'', hclose, hpair⟩ := Option.map_eq_some_iff.mp h
    obtain ⟨rfl, rfl⟩ := Prod.mk.inj hpair
    have hP₁ : ∀ y, layout_sector s₁.disk dinode₁ y → layout_sector s.disk dinode y := fun y hy => by
      rw [hd₁] at hy
      exact (layout_sector_of_data hdata s.disk y).mp hy
    have hap₁ : MapApart s₁ (layout_sector s.disk dinode) := by
      have := MapApart.inode_open (s := { s with heap }) hapart (hok₁ _)
        (fun file hfile => show file.inode ≠ heap.calls by have := hmap file hfile; omega) v
      rwa [ho] at this
    have hap₃ : MapApart (inode_remove { s₁ with heap := heap₂, disk := d₂ } a) (layout_sector s.disk dinode) :=
      (hap₁.write hP₁ heff).map_inode a _ (fun _ => rfl) (fun _ => rfl)
    have hok₃ : ∀ k, (inode_remove { s₁ with heap := heap₂, disk := d₂ } a).heap.ok k = true := by
      intro k
      show heap₂.ok k = true
      rw [hwok, hok₂]
      exact hok₁ k
    obtain ⟨hframe, -, -, -, hshape⟩ := inode_close_frame hok₃ hap₃ hclose
    have hsame : ∀ y, layout_sector d₂ dinode₁ y → s''.disk y = d₂ y := fun y hy =>
      hframe y (hP₁ y ((layout_sector_frame s₁.disk d₂ dinode₁ y (heff.index_sectors hl₁)).mp hy))
    have htable : dir_table s''.disk dinode = SlotMap.erase (dir_table s.disk dinode) name := by
      calc dir_table s''.disk dinode
          = dir_table s''.disk dinode₁ := (dir_table_of_data s''.disk hdata).symm
        _ = dir_table d₂ dinode₁ := dir_table_frame d₂ dinode₁ hsame
        _ = (dir_table s₁.disk dinode₁).set i (entry_view (set_in_use e' false)) :=
          dir_table_of_write s₁.disk dinode₁ heff
        _ = (dir_table s.disk dinode).set i none := by
          rw [hd₁, dir_table_of_data s.disk hdata, entry_view_erased]
        _ = SlotMap.erase (dir_table s.disk dinode) name := (SlotMap.erase_of_find name hf).symm
    -- the entry's sector is open only at `a`, which `inode_remove` marks
    have hsa := inode_open_sector_addr (s := { s with heap }) hsect ho
    have hmarks := inode_remove_marks (s := { s₁ with heap := heap₂, disk := d₂ }) hsa
    refine ⟨by simp [hk], by rw [if_pos rfl]; exact htable, fun sector hs => ?_⟩
    rw [hlkv] at hs
    cases hs
    exact marks_of_close hmarks hshape

end Remove

/-- Successive `dir_readdir` calls from entry `j` print the names of the entries in use from
there, in entry order and cut to `NAME_MAX` bytes, given one call more than there are names. -/
theorem fsutil_ls_loop_spec (fuel : Nat) {s : FsState} {dir : Dir} {dinode : Inode}
    (hdir : s.inode_at dir.inode = some dinode) (hok : ∀ k, s.heap.ok k = true)
    (hdirect : dinode.data.length ≤ DIRECT_BLOCK * BLOCK_SECTOR_SIZE) (j : Nat)
    (hj : dir.pos = ((DIR_ENTRY_SIZE * j : Nat) : Int)) (hjn : j ≤ entry_cnt dinode)
    (hfuel : (SlotMap.keys ((dir_table s.disk dinode).drop j)).length < fuel) :
    fsutil_ls_loop s dir fuel =
      some ((SlotMap.keys ((dir_table s.disk dinode).drop j)).map (List.take NAME_MAX)) := by
  -- one call per name; the fuel and the entry reached go down and up together
  induction fuel generalizing s dir j with
  | zero => exact absurd hfuel (Nat.not_lt_zero _)
  | succ fuel ih =>
    have hpos : dir.pos.toNat = DIR_ENTRY_SIZE * j := by
      rw [hj]
      rfl
    obtain ⟨heap, pos, name, hr, hh, hnone, hsome⟩ :=
      readdir_loop_spec s.disk dinode hdirect s.heap (fun _ => 0) dir.pos.toNat j hok hpos hjn
    have hrd := dir_readdir_of_loop hdir hr
    cases hn : SlotMap.next ((dir_table s.disk dinode).drop j) with
    | none =>
      obtain ⟨-, rfl⟩ := Prod.mk.inj (hnone hn)
      rw [SlotMap.keys_of_next_none hn, fsutil_ls_loop, hrd]
      rfl
    | some i =>
      obtain ⟨name', sector, hslot, hres⟩ := hsome i hn
      obtain ⟨rfl, rfl⟩ := Prod.mk.inj hres
      obtain ⟨k, v, hkv, hkeys⟩ := SlotMap.keys_of_next hn
      rw [hslot] at hkv
      obtain ⟨rfl, rfl⟩ := Prod.mk.inj (Option.some.inj (Option.some.inj hkv))
      have hi : j + i < entry_cnt dinode := by
        have := (List.getElem?_eq_some_iff.mp hslot).1
        simp only [List.length_drop, length_dir_table] at this
        omega
      have hdrop : ((dir_table s.disk dinode).drop j).drop (i + 1) = (dir_table s.disk dinode).drop (j + i + 1) := by
        rw [List.drop_drop, Nat.add_assoc]
      rw [hkeys, hdrop] at hfuel ⊢
      rw [fsutil_ls_loop, hrd, List.map_cons]
      dsimp only
      have hdir' : ({ s with heap } : FsState).inode_at
          ({ dir with pos := ((DIR_ENTRY_SIZE * (j + i + 1) : Nat) : Int) } : Dir).inode = some dinode := hdir
      have hok' : ∀ k, heap.ok k = true := by
        rw [hh]
        exact hok
      rw [ih hdir' hok' (j + i + 1) rfl (by omega) (Nat.lt_of_succ_lt_succ hfuel)]
      rfl

/-- What the directory operations rely on: the directory's inode is open, within the direct
blocks, with a sound layout and writes allowed; `malloc` never fails; the blocks handed out so far lie below the heap's
counter; a sector has one inode in memory; the free-map file keeps off the directory's sectors;
and the directory's names are distinct and short. -/
structure DirOk (s : FsState) (dir : Dir) (dinode : Inode) : Prop where
  found : s.inode_at dir.inode = some dinode
  heap_ok : ∀ k, s.heap.ok k = true
  length_direct : dinode.data.length ≤ DIRECT_BLOCK * BLOCK_SECTOR_SIZE
  layout : LayoutOk s.disk dinode
  writable : dinode.deny_write_cnt = 0
  fresh : ∀ i ∈ s.open_inodes, i.addr < s.heap.calls
  map_fresh : ∀ file, s.free_map_file = some file → file.inode < s.heap.calls
  sectors : (s.open_inodes.map Inode.sector).Nodup
  apart : MapApart s (layout_sector s.disk dinode)
  wf : DirWf (dir_table s.disk dinode)

/-- A directory of two entries in sectors `3` and `4`, block `9`, at sector `1`. -/
def dir_inode_sample : Inode where
  addr := 9
  sector := 1
  open_cnt := 1
  removed := false
  deny_write_cnt := 0
  data := { InodeDisk.zero with sectors := fun k => 3 + k.val, length := 40, magic := INODE_MAGIC }

/-- A zeroed disk with the directory the one open inode and no free-map file yet. -/
def dir_sample : FsState where
  disk := fun _ _ => 0
  heap := { ok := fun _ => true, calls := 10 }
  fs_device_size := 200
  free_map := { bit_cnt := 200, bits := fun _ => 0#32 }
  free_map_file := none
  open_inodes := [dir_inode_sample]

theorem dir_sample_table : dir_table dir_sample.disk dir_inode_sample = [none, none] := by
  decide

end Pintos
