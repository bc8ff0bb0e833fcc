import Pintos.Filesys.Fsutil
import Pintos.Lib.UstarSpec

/-! # What `fsutil_append` writes and `fsutil_extract` reads

A file takes a header sector, then its bytes 512 to a sector with the last one padded with zeros
(`write_data`).  `fsutil_append` ends the archive with one sector only, written twice; the second
write starts one byte into the buffer, so the sector's last byte is the byte after the buffer
(`marker_sector`).  `Archive` says which entries a device holds from a sector on; `run_appends`
builds one, and `extract_loop` reads it back, up to the end marker, which it takes for the end of
the archive only when that stray byte is zero.
-/

namespace Pintos
set_option autoImplicit false
set_option maxHeartbeats 250000
set_option maxRecDepth 120000

/-- The number of sectors `n` bytes take. -/
def sector_count (n : Nat) : Nat := (n + BLOCK_SECTOR_SIZE - 1) / BLOCK_SECTOR_SIZE

/-- Sector `k` of a file's data: its bytes from `512 * k` on, then zeros. -/
def data_sector (data : List UInt8) (k : Nat) : Sector :=
  fun i => if i < BLOCK_SECTOR_SIZE then data.getD (BLOCK_SECTOR_SIZE * k + i) 0 else 0

/-- The device `d` with the data sectors of `data` from `sector` on. -/
def write_data (d : Disk) (sector : Nat) (data : List UInt8) : Disk :=
  fun s => if sector ≤ s ∧ s < sector + sector_count data.length then data_sector data (s - sector) else d s

/-- The end-of-archive sector `fsutil_append` writes: zeros, and `stray` as its last byte. -/
def marker_sector (stray : UInt8) : Sector := fun i => if i = BLOCK_SECTOR_SIZE - 1 then stray else 0

/-! ## Data sectors -/

theorem block_sector_size_eq : BLOCK_SECTOR_SIZE = 512 := rfl

theorem chunk_eq (size : Nat) :
    (if size > BLOCK_SECTOR_SIZE then BLOCK_SECTOR_SIZE else size) = min size BLOCK_SECTOR_SIZE := by
  split <;> simp only [BLOCK_SECTOR_SIZE] at * <;> omega

theorem sector_count_zero : sector_count 0 = 0 := rfl

theorem sector_count_of_pos {n : Nat} (hn : 0 < n) : sector_count n = sector_count (n - BLOCK_SECTOR_SIZE) + 1 := by
  simp only [sector_count, BLOCK_SECTOR_SIZE]
  omega

theorem data_sector_drop (data : List UInt8) (k : Nat) :
    data_sector (data.drop BLOCK_SECTOR_SIZE) k = data_sector data (k + 1) := by
  funext i
  simp only [data_sector, List.getD_eq_getElem?_getD, List.getElem?_drop]
  congr 3
  simp only [BLOCK_SECTOR_SIZE]
  omega

theorem write_data_nil (d : Disk) (sector : Nat) : write_data d sector [] = d := by
  funext s
  simp [write_data, sector_count_zero]

theorem write_data_step (d : Disk) (sector : Nat) {data : List UInt8} (hne : data ≠ []) :
    write_data (Function.update d sector (data_sector data 0)) (sector + 1) (data.drop BLOCK_SECTOR_SIZE) =
      write_data d sector data := by
  have hc := sector_count_of_pos (List.length_pos_iff.mpr hne)
  funext s
  simp only [write_data, List.length_drop, hc]
  by_cases hs : s = sector
  · subst hs
    simp
  · rw [Function.update_of_ne hs]
    by_cases hin : sector + 1 ≤ s ∧ s < sector + 1 + sector_count (data.length - BLOCK_SECTOR_SIZE)
    · rw [if_pos hin, if_pos (by omega), data_sector_drop, show s - (sector + 1) + 1 = s - sector by omega]
    · rw [if_neg hin, if_neg (by omega)]

theorem sectorOf_chunk (buffer : Buffer) (data : List UInt8) :
    sectorOf (memset (store_bytes buffer 0 (data.take (min data.length BLOCK_SECTOR_SIZE)))
      (min data.length BLOCK_SECTOR_SIZE) 0 (BLOCK_SECTOR_SIZE - min data.length BLOCK_SECTOR_SIZE)) 0 =
      data_sector data 0 := by
  funext i
  simp only [sectorOf, data_sector, Nat.zero_add, Nat.mul_zero]
  split
  · by_cases hi : i < min data.length BLOCK_SECTOR_SIZE
    · rw [memset_outside _ _ _ _ (Or.inl hi), store_bytes_inside _ _ _ (Nat.zero_le i) (by simp; omega),
        Nat.sub_zero, List.getD_eq_getElem?_getD, List.getD_eq_getElem?_getD, List.getElem?_take_of_lt hi]
    · rw [memset_inside _ _ _ _ (by omega) (by omega), List.getD_eq_getElem?_getD,
        List.getElem?_eq_none (by simp only [BLOCK_SECTOR_SIZE] at *; omega), Option.getD_none]
  · rfl

theorem drop_chunk {data : List UInt8} {pos m : Nat} (hm : data.length - pos = m) :
    data.drop (pos + min m BLOCK_SECTOR_SIZE) = (data.drop pos).drop BLOCK_SECTOR_SIZE := by
  rw [← List.drop_drop]
  by_cases hm512 : m ≤ BLOCK_SECTOR_SIZE
  · rw [List.drop_eq_nil_of_le (by rw [List.length_drop]; omega),
      List.drop_eq_nil_of_le (by rw [List.length_drop]; omega)]
  · rw [show min m BLOCK_SECTOR_SIZE = BLOCK_SECTOR_SIZE by omega]

theorem map_range_data_sector (data : List UInt8) {c : Nat} (hc : c ≤ data.length) (h512 : c ≤ BLOCK_SECTOR_SIZE) :
    (List.range c).map (data_sector data 0) = data.take c := by
  refine List.ext_getElem (by simp; omega) fun i h1 h2 => ?_
  simp only [List.getElem_map, List.getElem_range, List.getElem_take, data_sector, Nat.mul_zero, Nat.zero_add]
  rw [List.length_map, List.length_range] at h1
  rw [if_pos (by omega), List.getD_eq_getElem?_getD, List.getElem?_eq_getElem (by omega), Option.getD_some]

/-! ## `fsutil_append` -/

theorem scratch_write_of_lt {dev : Scratch} {sector : Nat} (h : sector < dev.size) (buffer : Buffer) (ofs : Nat) :
    scratch_write dev sector buffer ofs = .ok ⟨dev.size, block_write dev.disk sector buffer ofs⟩ := by
  rw [scratch_write, if_neg (by omega)]

/-- The copy loop writes the file's bytes from `pos` on as data sectors, and leaves the memory
after the buffer as it was. -/
theorem append_loop_spec (data : List UInt8) (buffer : Buffer) (dev : Scratch) (sector pos : Nat)
    (hroom : sector + sector_count (data.length - pos) ≤ dev.size) :
    ∃ buffer', append_loop dev data buffer sector pos (data.length - pos) =
        .ok (⟨dev.size, write_data dev.disk sector (data.drop pos)⟩, buffer',
          sector + sector_count (data.length - pos)) ∧
      ∀ i, BLOCK_SECTOR_SIZE ≤ i → buffer' i = buffer i := by
  obtain ⟨m, hm⟩ : ∃ m, data.length - pos = m := ⟨_, rfl⟩
  induction m using Nat.strongRecOn generalizing dev buffer sector pos with
  | ind m ih =>
    rw [hm] at hroom ⊢
    by_cases h0 : m = 0
    · subst h0
      have hnil : data.drop pos = [] := List.drop_eq_nil_of_le (by omega)
      refine ⟨buffer, ?_, fun _ _ => rfl⟩
      rw [append_loop, if_neg (by omega), hnil, write_data_nil, sector_count_zero, Nat.add_zero]
    · have hlen : (data.drop pos).length = m := by rw [List.length_drop]; omega
      have hne : data.drop pos ≠ [] := by rw [← List.length_pos_iff]; omega
      have hc := sector_count_of_pos (n := m) (by omega)
      set chunk := min m BLOCK_SECTOR_SIZE with hchunk
      set buf1 := memset (store_bytes buffer 0 ((data.drop pos).take chunk)) chunk 0 (BLOCK_SECTOR_SIZE - chunk)
      have hsector : sectorOf buf1 0 = data_sector (data.drop pos) 0 := by
        rw [← sectorOf_chunk buffer (data.drop pos), hlen]
      have hrest : data.length - (pos + chunk) = m - BLOCK_SECTOR_SIZE := by
        simp only [chunk, BLOCK_SECTOR_SIZE]
        omega
      obtain ⟨buffer', hrun, hbeyond⟩ := ih (m - BLOCK_SECTOR_SIZE) (by simp only [BLOCK_SECTOR_SIZE]; omega)
        buf1 ⟨dev.size, block_write dev.disk sector buf1 0⟩ (sector + 1) (pos + chunk) (by rw [hrest]; dsimp only; omega)
        hrest
      refine ⟨buffer', ?_, fun i hi => ?_⟩
      · rw [append_loop, if_pos (by omega)]
        dsimp only
        rw [chunk_eq, ← hchunk, if_neg (by omega), if_neg (by simp only [List.length_take, hlen]; omega),
          scratch_write_of_lt (by omega)]
        dsimp only
        have hdrop := drop_chunk hm
        rw [show m - chunk = data.length - (pos + chunk) by omega, hrun, hrest, hdrop]
        dsimp only
        rw [block_write, hsector, write_data_step _ _ hne,
          show sector + 1 + sector_count (m - BLOCK_SECTOR_SIZE) = sector + sector_count m by omega]
      · rw [hbeyond i hi]
        simp only [buf1]
        rw [memset_outside _ _ _ _ (Or.inr (by omega)),
          store_bytes_outside _ _ _ (Or.inr (by simp only [List.length_take]; omega))]

theorem sectorOf_marker (buffer : Buffer) :
    sectorOf (memset buffer 0 0 BLOCK_SECTOR_SIZE) 1 = marker_sector (buffer BLOCK_SECTOR_SIZE) := by
  have h512 := block_sector_size_eq
  funext i
  simp only [sectorOf, marker_sector]
  by_cases hi : i < BLOCK_SECTOR_SIZE
  · rw [if_pos hi]
    by_cases h511 : i = BLOCK_SECTOR_SIZE - 1
    · rw [if_pos h511, memset_outside _ _ _ _ (Or.inr (by omega)), show 1 + i = BLOCK_SECTOR_SIZE by omega]
    · rw [if_neg h511, memset_inside _ _ _ _ (by omega) (by omega)]
  · rw [if_neg hi, if_neg (by omega)]

/-- The device after `fsutil_append` puts `data` at `sector` under the header `hdr`: the header
sector, the data sectors, and the end marker with `stray` as its last byte. -/
def appended (d : Disk) (sector : Nat) (hdr : Buffer) (data : List UInt8) (stray : UInt8) : Disk :=
  Function.update (write_data (Function.update d sector (sectorOf hdr 0)) (sector + 1) data)
    (sector + 1 + sector_count data.length) (marker_sector stray)

theorem fsutil_append_spec (file_name data : List UInt8) (buffer : Buffer) (dev : Scratch) (sector : Nat)
    (hlen : (strip_antisocial_prefixes file_name).length ≤ 99)
    (hroom : sector + 1 + sector_count data.length < dev.size) :
    ∃ hdr, ustar_make_header file_name .USTAR_REGULAR data.length buffer = some (true, hdr) ∧
      fsutil_append file_name (some buffer) (some data) (some dev) sector =
        .ok (⟨dev.size, appended dev.disk sector hdr data (buffer BLOCK_SECTOR_SIZE)⟩,
          sector + 1 + sector_count data.length) := by
  obtain ⟨hdr, hmake⟩ : ∃ hdr, ustar_make_header file_name .USTAR_REGULAR data.length buffer = some (true, hdr) :=
    ⟨_, ustar_make_header_eq file_name .USTAR_REGULAR data.length buffer (by decide) hlen⟩
  refine ⟨hdr, hmake, ?_⟩
  obtain ⟨buffer', hloop, hbeyond⟩ :=
    append_loop_spec data hdr ⟨dev.size, block_write dev.disk sector hdr 0⟩ (sector + 1) 0 (by dsimp only; rw [Nat.sub_zero]; omega)
  simp only [Nat.sub_zero, List.drop_zero] at hloop
  have hstray : buffer' BLOCK_SECTOR_SIZE = buffer BLOCK_SECTOR_SIZE := by
    rw [hbeyond _ le_rfl, made_header_beyond hmake (show USTAR_HEADER_SIZE ≤ BLOCK_SECTOR_SIZE from le_rfl)]
  unfold fsutil_append
  dsimp only
  rw [hmake]
  dsimp only
  rw [scratch_write_of_lt (by omega)]
  dsimp only
  rw [hloop]
  dsimp only
  rw [scratch_write_of_lt (by omega)]
  dsimp only
  rw [scratch_write_of_lt (by omega)]
  dsimp only
  rw [block_write, block_write, Function.update_idem, sectorOf_marker, hstray]
  rfl

section appended

variable (d : Disk) (sector : Nat) (hdr : Buffer) (data : List UInt8) (stray : UInt8)

theorem appended_header : appended d sector hdr data stray sector = sectorOf hdr 0 := by
  rw [appended, Function.update_of_ne (by omega), write_data, if_neg (by omega), Function.update_self]

theorem appended_data {k : Nat} (hk : k < sector_count data.length) :
    appended d sector hdr data stray (sector + 1 + k) = data_sector data k := by
  rw [appended, Function.update_of_ne (by omega), write_data, if_pos (by omega), Nat.add_sub_cancel_left]

theorem appended_marker :
    appended d sector hdr data stray (sector + 1 + sector_count data.length) = marker_sector stray := by
  rw [appended, Function.update_self]

theorem appended_outside {s : Nat} (hs : s < sector ∨ sector + 1 + sector_count data.length < s) :
    appended d sector hdr data stray s = d s := by
  rw [appended, Function.update_of_ne (by omega), write_data, if_neg (by omega), Function.update_of_ne (by omega)]

end appended

/-! ## What one `fsutil_append` leaves on the device -/

theorem parse_header_sector {file_name : List UInt8} {data : List UInt8} {buffer hdr : Buffer}
    (hmake : ustar_make_header file_name .USTAR_REGULAR data.length buffer = some (true, hdr))
    (hnul : 0 ∉ file_name) (hsize : data.length < 2 ^ 31) :
    ustar_parse_header (sectorOf hdr 0) =
      .ok (some (strip_antisocial_prefixes file_name), .USTAR_REGULAR, data.length) := by
  rw [ustar_parse_header_congr (b := hdr) fun i hi => by rw [sectorOf_apply hdr 0 i hi, Nat.zero_add],
    made_header_parse hmake hnul ⟨by omega, by omega⟩, if_pos rfl]


theorem fsutil_append_writes_entry (file_name data : List UInt8) (buffer : Buffer) (dev : Scratch) (sector : Nat)
    (hnul : 0 ∉ file_name) (hlen : (strip_antisocial_prefixes file_name).length ≤ 99) (hsize : data.length < 2 ^ 31)
    (hroom : sector + 1 + sector_count data.length < dev.size) :
    ∃ d, fsutil_append file_name (some buffer) (some data) (some dev) sector =
        .ok (⟨dev.size, d⟩, sector + 1 + sector_count data.length) ∧
      ustar_parse_header (d sector) = .ok (some (strip_antisocial_prefixes file_name), .USTAR_REGULAR, data.length) ∧
      (∀ k < sector_count data.length, d (sector + 1 + k) = data_sector data k) ∧
      ∀ s, s < sector ∨ sector + 1 + sector_count data.length < s → d s = dev.disk s := by
  obtain ⟨hdr, hmake, happ⟩ := fsutil_append_spec file_name data buffer dev sector hlen hroom
  refine ⟨_, happ, ?_, fun k hk => appended_data _ _ _ _ _ hk, fun s hs => appended_outside _ _ _ _ _ hs⟩
  rw [appended_header, parse_header_sector hmake hnul hsize]

theorem fsutil_append_writes_entry_sample :
    (0 ∉ "ab".toList.map Char.toUInt8 ∧ (strip_antisocial_prefixes ("ab".toList.map Char.toUInt8)).length ≤ 99 ∧
      ([1, 2, 3] : List UInt8).length < 2 ^ 31 ∧
      0 + 1 + sector_count ([1, 2, 3] : List UInt8).length < (⟨4, fun _ _ => 7⟩ : Scratch).size) ∧
    ∃ d, fsutil_append ("ab".toList.map Char.toUInt8) (some fun _ => 0) (some [1, 2, 3]) (some ⟨4, fun _ _ => 7⟩) 0 =
        .ok (⟨4, d⟩, 0 + 1 + sector_count ([1, 2, 3] : List UInt8).length) ∧
      ustar_parse_header (d 0) =
        .ok (some (strip_antisocial_prefixes ("ab".toList.map Char.toUInt8)), .USTAR_REGULAR, 3) ∧
      (∀ k < sector_count ([1, 2, 3] : List UInt8).length, d (0 + 1 + k) = data_sector [1, 2, 3] k) ∧
      ∀ s, s < 0 ∨ 0 + 1 + sector_count ([1, 2, 3] : List UInt8).length < s → d s = fun _ => 7 := by
  have hlen : (strip_antisocial_prefixes ("ab".toList.map Char.toUInt8)).length ≤ 99 :=
    le_trans (length_strip_antisocial_prefixes_le _) (by decide)
  exact ⟨⟨by decide, hlen, by decide, by decide⟩,
    fsutil_append_writes_entry ("ab".toList.map Char.toUInt8) [1, 2, 3] (fun _ => 0) ⟨4, fun _ _ => 7⟩ 0
      (by decide) hlen (by decide) (by decide)⟩

/-- The end-of-archive marker is one sector, not two: both writes go to the same sector, the
sector after it keeps what it held, and the marker's last byte is the byte after the buffer. -/
theorem fsutil_append_end_marker (file_name data : List UInt8) (buffer : Buffer) (dev : Scratch) (sector : Nat)
    (hlen : (strip_antisocial_prefixes file_name).length ≤ 99)
    (hroom : sector + 1 + sector_count data.length < dev.size) :
    ∃ dev' sector', fsutil_append file_name (some buffer) (some data) (some dev) sector = .ok (dev', sector') ∧
      (∀ i < BLOCK_SECTOR_SIZE - 1, dev'.disk sector' i = 0) ∧
      dev'.disk sector' (BLOCK_SECTOR_SIZE - 1) = buffer BLOCK_SECTOR_SIZE ∧
      dev'.disk (sector' + 1) = dev.disk (sector' + 1) := by
  obtain ⟨hdr, -, happ⟩ := fsutil_append_spec file_name data buffer dev sector hlen hroom
  refine ⟨_, _, happ, fun i hi => ?_, ?_, appended_outside _ _ _ _ _ (by omega)⟩
  · dsimp only
    rw [appended_marker, marker_sector, if_neg (by omega)]
  · dsimp only
    rw [appended_marker, marker_sector, if_pos rfl]

theorem fsutil_append_end_marker_sample :
    ((strip_antisocial_prefixes ("ab".toList.map Char.toUInt8)).length ≤ 99 ∧
      0 + 1 + sector_count ([1, 2, 3] : List UInt8).length < (⟨4, fun _ _ => 7⟩ : Scratch).size) ∧
    ∃ dev' sector', fsutil_append ("ab".toList.map Char.toUInt8) (some fun i => if i = 512 then 9 else 0)
        (some [1, 2, 3]) (some ⟨4, fun _ _ => 7⟩) 0 = .ok (dev', sector') ∧
      (∀ i < BLOCK_SECTOR_SIZE - 1, dev'.disk sector' i = 0) ∧
      dev'.disk sector' (BLOCK_SECTOR_SIZE - 1) = (fun i => if i = 512 then 9 else 0 : Buffer) BLOCK_SECTOR_SIZE ∧
      dev'.disk (sector' + 1) = (⟨4, fun _ _ => 7⟩ : Scratch).disk (sector' + 1) := by
  have hlen : (strip_antisocial_prefixes ("ab".toList.map Char.toUInt8)).length ≤ 99 :=
    le_trans (length_strip_antisocial_prefixes_le _) (by decide)
  exact ⟨⟨hlen, by decide⟩,
    fsutil_append_end_marker ("ab".toList.map Char.toUInt8) [1, 2, 3] (fun i => if i = 512 then 9 else 0)
      ⟨4, fun _ _ => 7⟩ 0 hlen (by decide)⟩

/-- A file whose data end at the device's last sector is written, header and data, and then
`fsutil_append` stops in `check_sector` on the end marker, past the end of the device. -/
theorem fsutil_append_fills_device (file_name data : List UInt8) (buffer : Buffer) (dev : Scratch) (sector : Nat)
    (hlen : (strip_antisocial_prefixes file_name).length ≤ 99)
    (hfull : sector + 1 + sector_count data.length = dev.size) :
    fsutil_append file_name (some buffer) (some data) (some dev) sector = .error past_end_of_device := by
  obtain ⟨hdr, hmake⟩ : ∃ hdr, ustar_make_header file_name .USTAR_REGULAR data.length buffer = some (true, hdr) :=
    ⟨_, ustar_make_header_eq file_name .USTAR_REGULAR data.length buffer (by decide) hlen⟩
  obtain ⟨buffer', hloop, -⟩ :=
    append_loop_spec data hdr ⟨dev.size, block_write dev.disk sector hdr 0⟩ (sector + 1) 0 (by dsimp only; rw [Nat.sub_zero]; omega)
  simp only [Nat.sub_zero, List.drop_zero] at hloop
  unfold fsutil_append
  dsimp only
  rw [hmake]
  dsimp only
  rw [scratch_write_of_lt (by omega)]
  dsimp only
  rw [hloop]
  dsimp only
  rw [scratch_write, if_pos (by dsimp only; omega)]

theorem fsutil_append_fills_device_sample :
    ((strip_antisocial_prefixes ("ab".toList.map Char.toUInt8)).length ≤ 99 ∧
      0 + 1 + sector_count ([1, 2, 3] : List UInt8).length = (⟨2, fun _ _ => 7⟩ : Scratch).size) ∧
    fsutil_append ("ab".toList.map Char.toUInt8) (some fun _ => 0) (some [1, 2, 3]) (some ⟨2, fun _ _ => 7⟩) 0 =
      .error past_end_of_device := by
  have hlen : (strip_antisocial_prefixes ("ab".toList.map Char.toUInt8)).length ≤ 99 :=
    le_trans (length_strip_antisocial_prefixes_le _) (by decide)
  exact ⟨⟨hlen, by decide⟩,
    fsutil_append_fills_device ("ab".toList.map Char.toUInt8) [1, 2, 3] (fun _ => 0) ⟨2, fun _ _ => 7⟩ 0
      hlen (by decide)⟩

/-! ## `fsutil_extract` -/

theorem scratch_read_of_lt {dev : Scratch} {sector : Nat} (h : sector < dev.size) (buffer : Buffer) :
    scratch_read dev sector buffer = .ok (block_read dev.disk sector buffer 0) := by
  rw [scratch_read, if_neg (by omega)]

theorem block_read_apply (d : Disk) (sector : Nat) (buffer : Buffer) {i : Nat} (hi : i < BLOCK_SECTOR_SIZE) :
    block_read d sector buffer 0 i = d sector i := by
  rw [block_read, memcpy_inside _ _ _ _ _ _ (Nat.zero_le i) (by omega), Nat.zero_add, Nat.sub_zero]

theorem extract_copy_spec (dev : Scratch) (data : List UInt8) (buffer : Buffer) (sector pos : Nat)
    (hsectors : ∀ k < sector_count (data.length - pos), dev.disk (sector + k) = data_sector (data.drop pos) k)
    (hroom : sector + sector_count (data.length - pos) ≤ dev.size) :
    ∃ buffer', extract_copy dev buffer sector (data.length - pos) =
      .ok (data.drop pos, buffer', sector + sector_count (data.length - pos)) := by
  obtain ⟨m, hm⟩ : ∃ m, data.length - pos = m := ⟨_, rfl⟩
  induction m using Nat.strongRecOn generalizing buffer sector pos with
  | ind m ih =>
    have h512 := block_sector_size_eq
    rw [hm] at hroom hsectors ⊢
    by_cases h0 : m = 0
    · subst h0
      refine ⟨buffer, ?_⟩
      rw [extract_copy, if_neg (by omega), List.drop_eq_nil_of_le (by omega), sector_count_zero, Nat.add_zero]
    · have hc := sector_count_of_pos (n := m) (by omega)
      have hrest : data.length - (pos + min m BLOCK_SECTOR_SIZE) = m - BLOCK_SECTOR_SIZE := by omega
      set buf1 := block_read dev.disk sector buffer 0
      obtain ⟨buffer', hrun⟩ := ih (m - BLOCK_SECTOR_SIZE) (by omega) buf1 (sector + 1)
        (pos + min m BLOCK_SECTOR_SIZE) (fun k hk => by
          rw [hrest] at hk
          rw [drop_chunk hm, data_sector_drop, ← hsectors (k + 1) (by omega),
            show sector + (k + 1) = sector + 1 + k by omega])
        (by rw [hrest]; omega) hrest
      refine ⟨buffer', ?_⟩
      rw [extract_copy, if_pos (by omega)]
      dsimp only
      rw [chunk_eq, scratch_read_of_lt (by omega)]
      dsimp only
      rw [show m - min m BLOCK_SECTOR_SIZE = data.length - (pos + min m BLOCK_SECTOR_SIZE) by omega, hrun]
      dsimp only
      have hbytes : (List.range (min m BLOCK_SECTOR_SIZE)).map buf1 = (data.drop pos).take (min m BLOCK_SECTOR_SIZE) := by
        rw [← map_range_data_sector _ (by rw [List.length_drop]; omega) (by omega)]
        refine List.map_congr_left fun i hi => ?_
        rw [List.mem_range] at hi
        rw [← hsectors 0 (by omega), Nat.add_zero]
        exact block_read_apply _ _ _ (by omega)
      rw [hbytes, ← List.drop_drop, List.take_append_drop, hrest, hc, Nat.add_right_comm, Nat.add_assoc]

/-! ## Archives -/

/-- The device `d` holds, from `sector` on, the entries `files` (a name and the file's bytes): for
each a header sector the parser reads as a regular file of that name and size, then its data
sectors; and after them the sector `marker`. -/
def Archive (d : Disk) : Nat → List (List UInt8 × List UInt8) → Sector → Prop
  | sector, [], marker => d sector = marker
  | sector, (name, data) :: files, marker =>
    ustar_parse_header (d sector) = .ok (some name, .USTAR_REGULAR, data.length) ∧
      (∀ k < sector_count data.length, d (sector + 1 + k) = data_sector data k) ∧
      Archive d (sector + 1 + sector_count data.length) files marker

/-- The sector of an archive's end marker. -/
def archive_end (sector : Nat) : List (List UInt8 × List UInt8) → Nat
  | [] => sector
  | (_, data) :: files => archive_end (sector + 1 + sector_count data.length) files

theorem le_archive_end (sector : Nat) (files : List (List UInt8 × List UInt8)) : sector ≤ archive_end sector files := by
  induction files generalizing sector with
  | nil => exact Nat.le_refl _
  | cons f files ih =>
    have := ih (sector + 1 + sector_count f.2.length)
    simp only [archive_end]
    omega

theorem Archive.frame {d d' : Disk} {sector : Nat} {files : List (List UInt8 × List UInt8)} {marker : Sector}
    (h : Archive d sector files marker) (hsame : ∀ s, sector ≤ s → s ≤ archive_end sector files → d' s = d s) :
    Archive d' sector files marker := by
  induction files generalizing sector with
  | nil => exact (hsame sector le_rfl le_rfl).trans h
  | cons f files ih =>
    obtain ⟨name, data⟩ := f
    obtain ⟨hparse, hdata, hrest⟩ := h
    have hend := le_archive_end (sector + 1 + sector_count data.length) files
    refine ⟨?_, fun k hk => ?_, ih hrest fun s h1 h2 => hsame s (by omega) h2⟩
    · rw [hsame sector le_rfl (by simp only [archive_end]; omega)]
      exact hparse
    · rw [hsame _ (by omega) (by simp only [archive_end]; omega)]
      exact hdata k hk

theorem Archive.marker {d : Disk} {sector : Nat} {files : List (List UInt8 × List UInt8)} {marker : Sector}
    (h : Archive d sector files marker) : d (archive_end sector files) = marker := by
  induction files generalizing sector with
  | nil => exact h
  | cons f files ih => exact ih h.2.2

theorem parse_read_sector (dev : Scratch) (sector : Nat) (buffer : Buffer) :
    ustar_parse_header (block_read dev.disk sector buffer 0) = ustar_parse_header (dev.disk sector) :=
  ustar_parse_header_congr fun _ hi => block_read_apply _ _ _ hi

/-- `fsutil_extract` reads an entry: it creates the file with the entry's bytes and goes on at the
next header. -/
theorem extract_loop_entry {dev : Scratch} {sector : Nat} {name data : List UInt8}
    (hparse : ustar_parse_header (dev.disk sector) = .ok (some name, .USTAR_REGULAR, data.length))
    (hdata : ∀ k < sector_count data.length, dev.disk (sector + 1 + k) = data_sector data k)
    (hroom : sector + 1 + sector_count data.length ≤ dev.size) (header buffer : Buffer)
    (files : List (List UInt8 × List UInt8)) :
    ∃ header' buffer', extract_loop dev header buffer sector files =
      extract_loop dev header' buffer' (sector + 1 + sector_count data.length) (files ++ [(name, data)]) := by
  obtain ⟨buffer', hcopy⟩ := extract_copy_spec dev data buffer (sector + 1) 0
    (by simpa only [Nat.sub_zero, List.drop_zero] using hdata) (by simpa only [Nat.sub_zero] using hroom)
  simp only [Nat.sub_zero, List.drop_zero] at hcopy
  refine ⟨block_read dev.disk sector header 0, buffer', ?_⟩
  rw [extract_loop]
  split
  · next e hr =>
    rw [scratch_read_of_lt (by omega)] at hr
    cases hr
  · next h hr =>
    rw [scratch_read_of_lt (by omega)] at hr
    cases hr
    rw [parse_read_sector, hparse]
    dsimp only
    simp only [Int.toNat_natCast]
    split
    · next e hc =>
      rw [hcopy] at hc
      cases hc
    · next bytes b s hc =>
      rw [hcopy] at hc
      cases hc
      rfl

theorem extract_loop_archive {dev : Scratch} {sector : Nat} {entries : List (List UInt8 × List UInt8)}
    {marker : Sector} (h : Archive dev.disk sector entries marker) (hroom : archive_end sector entries < dev.size)
    (header buffer : Buffer) (files : List (List UInt8 × List UInt8)) :
    ∃ header' buffer', extract_loop dev header buffer sector files =
      extract_loop dev header' buffer' (archive_end sector entries) (files ++ entries) := by
  induction entries generalizing sector header buffer files with
  | nil => exact ⟨header, buffer, by rw [List.append_nil]; rfl⟩
  | cons e entries ih =>
    obtain ⟨name, data⟩ := e
    obtain ⟨hparse, hdata, hrest⟩ := h
    have hend := le_archive_end (sector + 1 + sector_count data.length) entries
    simp only [archive_end] at hroom ⊢
    obtain ⟨h1, b1, hstep⟩ := extract_loop_entry hparse hdata (by omega) header buffer files
    obtain ⟨h2, b2, hrun⟩ := ih hrest hroom h1 b1 (files ++ [(name, data)])
    exact ⟨h2, b2, by rw [hstep, hrun, List.append_assoc, List.singleton_append]⟩

theorem extract_loop_zeros {dev : Scratch} {sector : Nat} (hs : sector < dev.size)
    (hz : ∀ i < BLOCK_SECTOR_SIZE, dev.disk sector i = 0) (header buffer : Buffer)
    (files : List (List UInt8 × List UInt8)) :
    ∃ header', extract_loop dev header buffer sector files = .ok (files, header', sector + 1) := by
  refine ⟨block_read dev.disk sector header 0, ?_⟩
  rw [extract_loop]
  split
  · next e hr =>
    rw [scratch_read_of_lt hs] at hr
    cases hr
  · next h hr =>
    rw [scratch_read_of_lt hs] at hr
    cases hr
    rw [parse_read_sector, ustar_parse_header_zeros hz]

theorem extract_loop_bad {dev : Scratch} {sector : Nat} (hs : sector < dev.size) {e : String}
    (hbad : ustar_parse_header (dev.disk sector) = .error e) (header buffer : Buffer)
    (files : List (List UInt8 × List UInt8)) :
    extract_loop dev header buffer sector files = .error "bad ustar header in sector %u (%s)" := by
  rw [extract_loop]
  split
  · next e hr =>
    rw [scratch_read_of_lt hs] at hr
    cases hr
  · next h hr =>
    rw [scratch_read_of_lt hs] at hr
    cases hr
    rw [parse_read_sector, hbad]

theorem parse_marker_sector {stray : UInt8} (h : stray ≠ 0) :
    ustar_parse_header (marker_sector stray) = .error "not a ustar archive" :=
  ustar_parse_header_no_magic (j := BLOCK_SECTOR_SIZE - 1) (by decide) (by simpa [marker_sector] using h)
    (by simp [marker_sector, magic_field, BLOCK_SECTOR_SIZE])

/-! ## Appending files one after another -/

/-- The entries an archive of the appended files holds: each name as `ustar_make_header` strips it,
with the file's bytes. -/
def archive_entries (files : List (List UInt8 × Buffer × List UInt8)) : List (List UInt8 × List UInt8) :=
  files.map fun f => (strip_antisocial_prefixes f.1, f.2.2)

/-- The byte after the buffer of the last `fsutil_append`: the last byte of the end marker. -/
def last_stray : List (List UInt8 × Buffer × List UInt8) → UInt8
  | [] => 0
  | [(_, buffer, _)] => buffer BLOCK_SECTOR_SIZE
  | _ :: files => last_stray files

theorem archive_entries_cons (f : List UInt8 × Buffer × List UInt8) (files : List (List UInt8 × Buffer × List UInt8)) :
    archive_entries (f :: files) = (strip_antisocial_prefixes f.1, f.2.2) :: archive_entries files := rfl

theorem archive_end_cons (sector : Nat) (name data : List UInt8) (files : List (List UInt8 × List UInt8)) :
    archive_end sector ((name, data) :: files) = archive_end (sector + 1 + sector_count data.length) files := rfl

/-- A run of `append` actions writes an archive of the files from the starting sector on, and
changes no sector before it or after its end marker. -/
theorem run_appends_archive (files : List (List UInt8 × Buffer × List UInt8)) (dev : Scratch) (sector : Nat)
    (hne : files ≠ []) (hnames : ∀ f ∈ files, 0 ∉ f.1 ∧ (strip_antisocial_prefixes f.1).length ≤ 99)
    (hsizes : ∀ f ∈ files, f.2.2.length < 2 ^ 31)
    (hroom : archive_end sector (archive_entries files) < dev.size) :
    ∃ d, run_appends files dev sector = .ok (⟨dev.size, d⟩, archive_end sector (archive_entries files)) ∧
      Archive d sector (archive_entries files) (marker_sector (last_stray files)) ∧
      ∀ s, s < sector ∨ archive_end sector (archive_entries files) < s → d s = dev.disk s := by
  induction files generalizing dev sector with
  | nil => exact absurd rfl hne
  | cons f rest ih =>
    obtain ⟨name, buffer, data⟩ := f
    obtain ⟨hnul, hlen⟩ := hnames _ List.mem_cons_self
    have hsize := hsizes _ List.mem_cons_self
    simp only [archive_entries_cons, archive_end_cons] at hroom ⊢
    have hend := le_archive_end (sector + 1 + sector_count data.length) (archive_entries rest)
    obtain ⟨hdr, hmake, happ⟩ := fsutil_append_spec name data buffer dev sector hlen (by omega)
    have hentry := parse_header_sector hmake hnul hsize
    have hhead : ustar_parse_header (appended dev.disk sector hdr data (buffer BLOCK_SECTOR_SIZE) sector) =
        .ok (some (strip_antisocial_prefixes name), .USTAR_REGULAR, data.length) := by
      rw [appended_header, hentry]
    have hstep : run_appends ((name, buffer, data) :: rest) dev sector =
        run_appends rest ⟨dev.size, appended dev.disk sector hdr data (buffer BLOCK_SECTOR_SIZE)⟩
          (sector + 1 + sector_count data.length) := by
      rw [run_appends, happ]
    cases rest with
    | nil =>
      refine ⟨_, hstep, ⟨hhead, fun k hk => appended_data _ _ _ _ _ hk, appended_marker _ _ _ _ _⟩,
        fun s hs => appended_outside _ _ _ _ _ (by simp only [archive_entries, List.map_nil, archive_end] at hs; omega)⟩
    | cons g rest =>
      obtain ⟨d', hrun, harch, hframe⟩ := ih ⟨dev.size, appended dev.disk sector hdr data (buffer BLOCK_SECTOR_SIZE)⟩
        (sector + 1 + sector_count data.length) (List.cons_ne_nil _ _)
        (fun f hf => hnames f (List.mem_cons_of_mem _ hf)) (fun f hf => hsizes f (List.mem_cons_of_mem _ hf)) hroom
      refine ⟨d', hstep.trans hrun, ⟨?_, fun k hk => ?_, harch⟩, fun s hs => ?_⟩
      · rw [hframe sector (Or.inl (by omega))]
        exact hhead
      · rw [hframe _ (Or.inl (by omega))]
        exact appended_data _ _ _ _ _ hk
      · rw [hframe s (by omega)]
        exact appended_outside _ _ _ _ _ (by omega)

/-! ## Extracting what was appended -/

theorem fsutil_extract_run_appends (files : List (List UInt8 × Buffer × List UInt8)) (dev : Scratch)
    (header data : Buffer) (hne : files ≠ [])
    (hnames : ∀ f ∈ files, 0 ∉ f.1 ∧ (strip_antisocial_prefixes f.1).length ≤ 99)
    (hsizes : ∀ f ∈ files, f.2.2.length < 2 ^ 31) (hroom : archive_end 0 (archive_entries files) < dev.size) :
    ∃ dev', run_appends files dev 0 = .ok (dev', archive_end 0 (archive_entries files)) ∧
      (last_stray files = 0 → ∃ dev'', fsutil_extract (some header) (some data) (some dev') 0 =
        .ok (archive_entries files, dev'', archive_end 0 (archive_entries files) + 1)) ∧
      (last_stray files ≠ 0 →
        fsutil_extract (some header) (some data) (some dev') 0 = .error "bad ustar header in sector %u (%s)") := by
  obtain ⟨d, hrun, harch, -⟩ := run_appends_archive files dev 0 hne hnames hsizes hroom
  have hmarker := harch.marker
  obtain ⟨h1, b1, hloop⟩ := @extract_loop_archive ⟨dev.size, d⟩ _ _ _ harch hroom header data []
  rw [List.nil_append] at hloop
  have hpos : 1 ≤ archive_end 0 (archive_entries files) := by
    obtain ⟨f, rest, rfl⟩ := List.exists_cons_of_ne_nil hne
    have := le_archive_end (0 + 1 + sector_count f.2.2.length) (archive_entries rest)
    rw [archive_entries_cons, archive_end_cons]
    omega
  refine ⟨_, hrun, fun hz => ?_, fun hnz => ?_⟩
  · obtain ⟨h2, hend⟩ := @extract_loop_zeros ⟨dev.size, d⟩ _ hroom
      (fun i _ => by dsimp only; rw [hmarker, hz, marker_sector]; split <;> rfl) h1 b1 (archive_entries files)
    refine ⟨⟨dev.size, block_write (block_write d 0 (memset h2 0 0 BLOCK_SECTOR_SIZE) 0) 1
      (memset h2 0 0 BLOCK_SECTOR_SIZE) 0⟩, ?_⟩
    unfold fsutil_extract
    dsimp only
    rw [hloop, hend]
    dsimp only
    rw [scratch_write_of_lt (by dsimp only; omega)]
    dsimp only
    rw [scratch_write_of_lt (by dsimp only; omega)]
  · have hbad := @extract_loop_bad ⟨dev.size, d⟩ _ hroom _ (by dsimp only; rw [hmarker]; exact parse_marker_sector hnz) h1 b1
      (archive_entries files)
    unfold fsutil_extract
    dsimp only
    rw [hloop, hbad]

theorem fsutil_extract_run_appends_sample :
    ([("ab".toList.map Char.toUInt8, (fun _ => 0 : Buffer), [1, 2, 3])] ≠ [] ∧
      (∀ f ∈ [("ab".toList.map Char.toUInt8, (fun _ => 0 : Buffer), ([1, 2, 3] : List UInt8))],
        0 ∉ f.1 ∧ (strip_antisocial_prefixes f.1).length ≤ 99) ∧
      (∀ f ∈ [("ab".toList.map Char.toUInt8, (fun _ => 0 : Buffer), ([1, 2, 3] : List UInt8))],
        f.2.2.length < 2 ^ 31) ∧
      archive_end 0 (archive_entries [("ab".toList.map Char.toUInt8, fun _ => 0, [1, 2, 3])]) <
        (⟨4, fun _ _ => 7⟩ : Scratch).size) ∧
    ∃ dev', run_appends [("ab".toList.map Char.toUInt8, fun _ => 0, [1, 2, 3])] ⟨4, fun _ _ => 7⟩ 0 =
        .ok (dev', archive_end 0 (archive_entries [("ab".toList.map Char.toUInt8, fun _ => 0, [1, 2, 3])])) ∧
      (last_stray [("ab".toList.map Char.toUInt8, fun _ => 0, [1, 2, 3])] = 0 →
        ∃ dev'', fsutil_extract (some fun _ => 0) (some fun _ => 0) (some dev') 0 =
          .ok (archive_entries [("ab".toList.map Char.toUInt8, fun _ => 0, [1, 2, 3])], dev'',
            archive_end 0 (archive_entries [("ab".toList.map Char.toUInt8, fun _ => 0, [1, 2, 3])]) + 1)) ∧
      (last_stray [("ab".toList.map Char.toUInt8, fun _ => 0, [1, 2, 3])] ≠ 0 →
        fsutil_extract (some fun _ => 0) (some fun _ => 0) (some dev') 0 =
          .error "bad ustar header in sector %u (%s)") := by
  have hnames : ∀ f ∈ [("ab".toList.map Char.toUInt8, (fun _ => 0 : Buffer), ([1, 2, 3] : List UInt8))],
      0 ∉ f.1 ∧ (strip_antisocial_prefixes f.1).length ≤ 99 := by
    intro f hf
    rw [List.mem_singleton] at hf
    subst hf
    exact ⟨by decide, le_trans (length_strip_antisocial_prefixes_le _) (by decide)⟩
  have hsizes : ∀ f ∈ [("ab".toList.map Char.toUInt8, (fun _ => 0 : Buffer), ([1, 2, 3] : List UInt8))],
      f.2.2.length < 2 ^ 31 := by
    intro f hf
    rw [List.mem_singleton] at hf
    subst hf
    decide
  have hroom : archive_end 0 (archive_entries [("ab".toList.map Char.toUInt8, fun _ => 0, [1, 2, 3])]) <
      (⟨4, fun _ _ => 7⟩ : Scratch).size := by decide
  exact ⟨⟨List.cons_ne_nil _ _, hnames, hsizes, hroom⟩,
    fsutil_extract_run_appends _ ⟨4, fun _ _ => 7⟩ (fun _ => 0) (fun _ => 0) (List.cons_ne_nil _ _) hnames hsizes
      hroom⟩

end Pintos
