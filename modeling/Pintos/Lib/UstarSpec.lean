import Pintos.Lib.Ustar
import Pintos.Lib.StdioSpec

/-! # ustar headers read back what was written

`strip_antisocial_prefixes` goes past the first `/` of the name while the name starts with `/`,
`./` or `../` (`Antisocial`); what is left is a suffix of the name that starts with none of them,
and a second strip keeps it.  `ustar_make_header` fills a header whose octal fields are
zero-padded digit strings (`render_digits`) and `ustar_parse_header` reads each of them back.
-/

namespace Pintos
set_option autoImplicit false
set_option maxHeartbeats 250000
set_option maxRecDepth 120000

/-! ## Stripping a name -/

/-- A name `strip_antisocial_prefixes` shortens: it starts with `/`, `./` or `../`. -/
def Antisocial (file_name : List UInt8) : Prop :=
  file_name.head? = some '/'.toUInt8 ∨ ['.'.toUInt8, '/'.toUInt8] <+: file_name ∨
    ['.'.toUInt8, '.'.toUInt8, '/'.toUInt8] <+: file_name

theorem memcmp_literal_eq_zero_iff (file_name lit : List UInt8) (hlit : 0 ∉ lit) :
    memcmp (fun i => byte_at file_name i) (fun i => lit.getD i 0) lit.length = 0 ↔ lit <+: file_name := by
  rw [memcmp_eq_zero_iff]
  induction lit generalizing file_name with
  | nil => simp
  | cons c lit ih =>
    have hc : c ≠ 0 := fun h => hlit (h ▸ List.mem_cons_self)
    cases file_name with
    | nil =>
      constructor
      · intro h
        have h0 : (0 : UInt8) = c := by simpa [byte_at] using h 0 (by simp)
        exact absurd h0.symm hc
      · intro h
        simp [List.prefix_nil] at h
    | cons d file_name =>
      rw [List.cons_prefix_cons, ← ih file_name (fun h => hlit (List.mem_cons_of_mem c h))]
      constructor
      · intro h
        have h0 : d = c := by simpa [byte_at] using h 0 (by simp)
        refine ⟨h0.symm, fun i hi => ?_⟩
        simpa [byte_at] using h (i + 1) (by simp; omega)
      · rintro ⟨rfl, h⟩ i hi
        cases i with
        | zero => simp [byte_at]
        | succ i => simpa [byte_at] using h i (by simp at hi; omega)

theorem strip_test_iff (file_name : List UInt8) :
    (file_name.head? = some '/'.toUInt8 ∨
      memcmp (fun i => byte_at file_name i) (literal "./") 2 = 0 ∨
      memcmp (fun i => byte_at file_name i) (literal "../") 3 = 0) ↔ Antisocial file_name := by
  have h2 := memcmp_literal_eq_zero_iff file_name ['.'.toUInt8, '/'.toUInt8] (by decide)
  have h3 := memcmp_literal_eq_zero_iff file_name ['.'.toUInt8, '.'.toUInt8, '/'.toUInt8] (by decide)
  rw [Antisocial, ← h2, ← h3]
  rfl

theorem strchr_slash_of_antisocial {file_name : List UInt8} (h : Antisocial file_name) :
    ∃ p, strchr file_name '/'.toUInt8 = some p := by
  rcases h with h | ⟨t, rfl⟩ | ⟨t, rfl⟩
  · cases file_name with
    | nil => simp at h
    | cons d t =>
      simp only [List.head?_cons, Option.some.injEq] at h
      exact ⟨0, by simp [strchr, h]⟩
  · exact ⟨1, by simp [strchr]; decide⟩
  · exact ⟨2, by simp [strchr]; decide⟩

theorem strip_loop_of_not {file_name : List UInt8} (h : ¬Antisocial file_name) :
    strip_loop file_name = file_name := by
  rw [strip_loop, dif_neg (by rwa [strip_test_iff])]

theorem strip_loop_of_antisocial {file_name : List UInt8} {p : Nat} (h : Antisocial file_name)
    (hp : strchr file_name '/'.toUInt8 = some p) :
    strip_loop file_name = strip_loop (file_name.drop (p + 1)) := by
  rw [strip_loop, dif_pos ((strip_test_iff file_name).mpr h)]
  split
  · rename_i q hq
    rw [hp] at hq
    cases hq
    rfl
  · rename_i hn
    rw [hp] at hn
    cases hn

theorem strip_loop_spec (file_name : List UInt8) :
    ¬Antisocial (strip_loop file_name) ∧ strip_loop file_name <:+ file_name := by
  obtain ⟨n, hn⟩ : ∃ n, file_name.length = n := ⟨_, rfl⟩
  induction n using Nat.strong_induction_on generalizing file_name with
  | _ n ih =>
    by_cases h : Antisocial file_name
    · obtain ⟨p, hp⟩ := strchr_slash_of_antisocial h
      have hne : file_name ≠ [] := by
        rintro rfl
        simp only [strchr] at hp
        split_ifs at hp with h0
        · exact absurd h0 (by decide)
      have hlen : (file_name.drop (p + 1)).length < n := by
        have := List.length_pos_iff.mpr hne
        simp only [List.length_drop]
        omega
      obtain ⟨hnot, hsuf⟩ := ih _ hlen _ rfl
      rw [strip_loop_of_antisocial h hp]
      exact ⟨hnot, hsuf.trans (List.drop_suffix _ _)⟩
    · rw [strip_loop_of_not h]
      exact ⟨h, List.suffix_refl _⟩

/-- What `strip_antisocial_prefixes` returns: a name that starts with none of `/`, `./`, `../`,
is neither empty nor `..`, and is a suffix of its argument or the literal `.`. -/
theorem strip_antisocial_prefixes_spec (file_name : List UInt8) :
    let s := strip_antisocial_prefixes file_name
    ¬Antisocial s ∧ s ≠ [] ∧ s ≠ ['.'.toUInt8, '.'.toUInt8] ∧ (s <:+ file_name ∨ s = ['.'.toUInt8]) := by
  obtain ⟨hnot, hsuf⟩ := strip_loop_spec file_name
  unfold strip_antisocial_prefixes
  dsimp only
  split_ifs with h
  · refine ⟨?_, by simp, by decide, Or.inr rfl⟩
    rintro (h' | ⟨t, ht⟩ | ⟨t, ht⟩)
    · revert h'
      decide
    · have := congrArg List.length ht
      simp at this
    · have := congrArg List.length ht
      simp at this
  · rw [not_or] at h
    exact ⟨hnot, h.1, h.2, Or.inl hsuf⟩

theorem length_strip_antisocial_prefixes_le (file_name : List UInt8) :
    (strip_antisocial_prefixes file_name).length ≤ max file_name.length 1 := by
  rcases (strip_antisocial_prefixes_spec file_name).2.2.2 with hsuf | hdot
  · exact le_max_of_le_left hsuf.length_le
  · rw [hdot]
    exact le_max_right _ _

theorem strip_antisocial_prefixes_of_not {file_name : List UInt8} (hnot : ¬Antisocial file_name)
    (hne : file_name ≠ []) (hdd : file_name ≠ ['.'.toUInt8, '.'.toUInt8]) :
    strip_antisocial_prefixes file_name = file_name := by
  unfold strip_antisocial_prefixes
  dsimp only
  rw [strip_loop_of_not hnot, if_neg (by rintro (h | h) <;> contradiction)]

theorem strip_antisocial_prefixes_of_antisocial {file_name : List UInt8} {p : Nat} (h : Antisocial file_name)
    (hp : strchr file_name '/'.toUInt8 = some p) :
    strip_antisocial_prefixes file_name = strip_antisocial_prefixes (file_name.drop (p + 1)) := by
  unfold strip_antisocial_prefixes
  rw [strip_loop_of_antisocial h hp]

theorem strip_antisocial_prefixes_idem (file_name : List UInt8) :
    strip_antisocial_prefixes (strip_antisocial_prefixes file_name) = strip_antisocial_prefixes file_name := by
  obtain ⟨hnot, hne, hdd, -⟩ := strip_antisocial_prefixes_spec file_name
  exact strip_antisocial_prefixes_of_not hnot hne hdd

theorem not_mem_strip_antisocial_prefixes {file_name : List UInt8} {c : UInt8} (hc : c ∉ file_name)
    (hdot : c ≠ '.'.toUInt8) : c ∉ strip_antisocial_prefixes file_name := by
  rcases (strip_antisocial_prefixes_spec file_name).2.2.2 with hsuf | hdot'
  · exact fun h => hc (hsuf.subset h)
  · rw [hdot']
    simpa using hdot

theorem strip_antisocial_prefixes_sanitizes (file_name : List UInt8) :
    ¬Antisocial (strip_antisocial_prefixes file_name) ∧ strip_antisocial_prefixes file_name ≠ [] ∧
      strip_antisocial_prefixes file_name ≠ ['.'.toUInt8, '.'.toUInt8] ∧
      (strip_antisocial_prefixes file_name <:+ file_name ∨ strip_antisocial_prefixes file_name = ['.'.toUInt8]) ∧
      strip_antisocial_prefixes (strip_antisocial_prefixes file_name) = strip_antisocial_prefixes file_name := by
  obtain ⟨hnot, hne, hdd, hsuf⟩ := strip_antisocial_prefixes_spec file_name
  exact ⟨hnot, hne, hdd, hsuf, strip_antisocial_prefixes_idem file_name⟩

/-! ## The checksum -/

/-- The byte `calculate_chksum` adds for offset `i`. -/
def chksum_byte (h : Buffer) (i : Nat) : Nat :=
  if chksum_field.ofs ≤ i ∧ i < chksum_field.ofs + chksum_field.size then ' '.toUInt8.toNat else (h i).toNat

theorem chksum_byte_lt (h : Buffer) (i : Nat) : chksum_byte h i < 256 := by
  unfold chksum_byte
  split_ifs
  · decide
  · exact (h i).toNat_lt

theorem foldl_add_mod (f : Nat → Nat) (M B : Nat) (hf : ∀ i, f i ≤ B) (l : List Nat) (c : Nat)
    (hc : c + B * l.length < M) : l.foldl (fun acc i => (acc + f i) % M) c = c + (l.map f).sum := by
  induction l generalizing c with
  | nil => simp
  | cons i l ih =>
    have hi := hf i
    simp only [List.length_cons, Nat.mul_succ] at hc
    rw [List.foldl_cons, Nat.mod_eq_of_lt (by omega), ih _ (by omega), List.map_cons, List.sum_cons]
    omega

theorem calculate_chksum_eq (h : Buffer) :
    calculate_chksum h = ((List.range USTAR_HEADER_SIZE).map (chksum_byte h)).sum := by
  have e := foldl_add_mod (chksum_byte h) (2 ^ 32) 255 (fun i => by have := chksum_byte_lt h i; omega)
    (List.range USTAR_HEADER_SIZE) 0 (by simp [USTAR_HEADER_SIZE])
  rw [Nat.zero_add] at e
  exact e

theorem calculate_chksum_lt (h : Buffer) : calculate_chksum h < 8 ^ 7 := by
  rw [calculate_chksum_eq]
  have hb : ∀ l : List Nat, (l.map (chksum_byte h)).sum ≤ 255 * l.length := by
    intro l
    induction l with
    | nil => simp
    | cons i l ih =>
      have := chksum_byte_lt h i
      simp only [List.map_cons, List.sum_cons, List.length_cons]
      omega
  have := hb (List.range USTAR_HEADER_SIZE)
  simp only [List.length_range, USTAR_HEADER_SIZE] at this ⊢
  omega

theorem calculate_chksum_congr {a b : Buffer}
    (h : ∀ i < USTAR_HEADER_SIZE, ¬(chksum_field.ofs ≤ i ∧ i < chksum_field.ofs + chksum_field.size) → a i = b i) :
    calculate_chksum a = calculate_chksum b := by
  rw [calculate_chksum_eq, calculate_chksum_eq]
  congr 1
  refine List.map_congr_left fun i hi => ?_
  unfold chksum_byte
  split_ifs with hf
  · rfl
  · rw [h i (List.mem_range.mp hi) hf]

theorem sum_range_update (f : Nat → Nat) {n j : Nat} (hj : j < n) (x : Nat) :
    ((List.range n).map (Function.update f j x)).sum + f j = ((List.range n).map f).sum + x := by
  induction n with
  | zero => omega
  | succ n ih =>
    rw [List.range_succ, List.map_append, List.map_append, List.sum_append, List.sum_append]
    by_cases hjn : j < n
    · have hn : Function.update f j x n = f n := Function.update_of_ne (by omega) _ _
      have := ih hjn
      simp only [List.map_singleton, List.sum_singleton, hn]
      omega
    · obtain rfl : j = n := by omega
      have hsame : (List.range j).map (Function.update f j x) = (List.range j).map f :=
        List.map_congr_left fun i hi => Function.update_of_ne (by simp at hi; omega) _ _
      simp only [hsame, List.map_singleton, List.sum_singleton, Function.update_self]
      omega

theorem calculate_chksum_update (h : Buffer) {j : Nat} (hj : j < USTAR_HEADER_SIZE)
    (hfield : j < chksum_field.ofs ∨ chksum_field.ofs + chksum_field.size ≤ j) (v : UInt8) :
    calculate_chksum (Function.update h j v) + (h j).toNat = calculate_chksum h + v.toNat := by
  have hbyte : chksum_byte (Function.update h j v) = Function.update (chksum_byte h) j v.toNat := by
    funext i
    by_cases hi : i = j
    · subst hi
      rw [Function.update_self, chksum_byte, if_neg (by omega), Function.update_self]
    · rw [Function.update_of_ne hi, chksum_byte, chksum_byte, Function.update_of_ne hi]
  have hj' : chksum_byte h j = (h j).toNat := by rw [chksum_byte, if_neg (by omega)]
  rw [calculate_chksum_eq, calculate_chksum_eq, hbyte, ← hj']
  exact sum_range_update _ hj _

/-! ## Octal fields -/

theorem foldl_digits (b v : Nat) (ds : List Nat) :
    ds.foldl (fun v d => d + v * b) v = v * b ^ ds.length + Nat.ofDigits b ds.reverse := by
  induction ds generalizing v with
  | nil => simp
  | cons d ds ih =>
    rw [List.foldl_cons, ih, List.reverse_cons, Nat.ofDigits_append, Nat.ofDigits_singleton,
      List.length_cons, List.length_reverse, Nat.pow_succ]
    ring

theorem toNat_digit_byte {d : Nat} (hd : d < 8) : (d + 48).toUInt8.toNat = d + 48 := by
  rw [Nat.toUInt8, UInt8.toNat_ofNat']
  omega

theorem digit_char_base_o {d : Nat} (hd : d < 8) : digit_char base_o d = (d + 48).toUInt8 := by
  revert hd
  generalize d = d
  revert d
  decide

theorem parse_octal_loop_digits (s : Buffer) (size : Nat) (ds : List Nat) (value ofs : Nat)
    (hd : ∀ i (hi : i < ds.length), s (ofs + i) = digit_char base_o ds[i]) (hlt : ∀ d ∈ ds, d < 8)
    (hend : s (ofs + ds.length) = 0) (hsize : ofs + ds.length < size) (hpos : 0 < ofs + ds.length)
    (hbound : ∀ k < ds.length, (ds.take k).foldl (fun v d => d + v * 8) value ≤ ULONG_MAX / 8) :
    parse_octal_loop s size value ofs = some (ds.foldl (fun v d => d + v * 8) value) := by
  have h0 : '0'.toUInt8.toNat = 48 := by decide
  have h7 : '7'.toUInt8.toNat = 55 := by decide
  induction ds generalizing value ofs with
  | nil =>
    simp only [List.length_nil, Nat.add_zero] at hend hpos hsize
    rw [parse_octal_loop, if_pos hsize]
    simp only
    rw [hend, if_neg (by decide), if_pos (Or.inr rfl), if_pos hpos]
    rfl
  | cons d ds ih =>
    have hd8 : d < 8 := hlt d List.mem_cons_self
    have hc := hd 0 (by simp)
    simp only [List.getElem_cons_zero, Nat.add_zero] at hc
    have hv : value ≤ ULONG_MAX / 8 := by simpa using hbound 0 (by simp)
    have hbyte := toNat_digit_byte hd8
    rw [parse_octal_loop, if_pos (by simp at hsize; omega)]
    simp only
    rw [hc, digit_char_base_o hd8, if_pos (by
      constructor <;> rw [UInt8.le_iff_toNat_le] <;> omega), if_neg (by omega)]
    have hval : (d + 48).toUInt8.toNat - '0'.toUInt8.toNat + value * 8 = d + value * 8 := by
      omega
    rw [hval, List.foldl_cons]
    refine ih (d + value * 8) (ofs + 1) (fun i hi => ?_) (fun x hx => hlt x (List.mem_cons_of_mem d hx))
      (by simpa [Nat.add_assoc, Nat.add_comm 1] using hend) (by simp at hsize; omega) (by omega)
      (fun k hk => by simpa using hbound (k + 1) (by simp; omega))
    have hi' := hd (i + 1) (by simp; omega)
    rw [List.getElem_cons_succ] at hi'
    rw [show ofs + 1 + i = ofs + (i + 1) by omega]
    exact hi'

/-- The digit values of `render_digits base_o w n`, most significant first. -/
def octal_digits (w n : Nat) : List Nat :=
  List.replicate (w - (Nat.digits 8 n).length) 0 ++ (Nat.digits 8 n).reverse

theorem render_digits_base_o (w n : Nat) :
    render_digits base_o w n = (octal_digits w n).map (digit_char base_o) := by
  have hz : digit_char base_o 0 = '0'.toUInt8 := digit_char_zero base_o
  simp only [render_digits, octal_digits, digits_le, List.map_append, List.map_replicate, hz,
    List.map_reverse, List.length_map]
  rfl

theorem octal_digits_lt {w n d : Nat} (h : d ∈ octal_digits w n) : d < 8 := by
  rw [octal_digits, List.mem_append, List.mem_reverse] at h
  rcases h with h | h
  · rw [List.eq_of_mem_replicate h]
    decide
  · exact Nat.digits_lt_base (by decide) h

theorem foldl_octal_digits (w n : Nat) : (octal_digits w n).foldl (fun v d => d + v * 8) 0 = n := by
  rw [foldl_digits, octal_digits, List.reverse_append, List.reverse_reverse, List.reverse_replicate,
    Nat.ofDigits_append_replicate_zero, Nat.ofDigits_digits]
  simp

/-- Before each digit the value read so far is at most `ULONG_MAX / 8`, so the loop's overflow
test never fires on a value of 32 bits. -/
theorem octal_digits_prefix_le (w n : Nat) (hn : n ≤ ULONG_MAX) :
    ∀ k < (octal_digits w n).length,
      ((octal_digits w n).take k).foldl (fun v d => d + v * 8) 0 ≤ ULONG_MAX / 8 := by
  intro k hk
  set ds := octal_digits w n
  set P := (ds.take k).foldl (fun v d => d + v * 8) 0
  have hsplit : n = P * 8 ^ (ds.drop k).length + Nat.ofDigits 8 (ds.drop k).reverse := by
    rw [← foldl_digits, ← List.foldl_append, List.take_append_drop, foldl_octal_digits]
  have hlen : 1 ≤ (ds.drop k).length := by
    simp only [List.length_drop]
    omega
  have hpow : 8 ≤ 8 ^ (ds.drop k).length := by
    calc 8 = 8 ^ 1 := by norm_num
      _ ≤ 8 ^ (ds.drop k).length := Nat.pow_le_pow_right (by decide) hlen
  rw [Nat.le_div_iff_mul_le (by decide)]
  calc P * 8 ≤ P * 8 ^ (ds.drop k).length := Nat.mul_le_mul_left P hpow
    _ ≤ n := by omega
    _ ≤ ULONG_MAX := hn

theorem length_octal_digits {w n : Nat} (hlen : (Nat.digits 8 n).length ≤ w) : (octal_digits w n).length = w := by
  simp only [octal_digits, List.length_append, List.length_replicate, List.length_reverse]
  omega

theorem parse_octal_loop_congr {s t : Buffer} {size : Nat} (h : ∀ i < size, s i = t i) (value ofs : Nat) :
    parse_octal_loop s size value ofs = parse_octal_loop t size value ofs := by
  obtain ⟨k, hk⟩ : ∃ k, size - ofs = k := ⟨_, rfl⟩
  induction k generalizing value ofs with
  | zero =>
    rw [parse_octal_loop.eq_1 s, parse_octal_loop.eq_1 t, if_neg (by omega), if_neg (by omega)]
  | succ k ih =>
    have hlt : ofs < size := by omega
    rw [parse_octal_loop.eq_1 s, parse_octal_loop.eq_1 t, if_pos hlt, if_pos hlt, h ofs hlt]
    simp only [ih _ (ofs + 1) (by omega)]

theorem parse_octal_field_render (s : Buffer) (size w n : Nat) (hw : 0 < w)
    (hlen : (Nat.digits 8 n).length ≤ w) (hsize : w < size) (hn : n ≤ ULONG_MAX)
    (hs : ∀ i ≤ w, s i = (render_digits base_o w n ++ [0]).getD i 0) :
    parse_octal_field s size = some n := by
  have hl := length_octal_digits hlen
  rw [render_digits_base_o] at hs
  have hend : s (0 + (octal_digits w n).length) = 0 := by
    rw [Nat.zero_add, hl, hs w le_rfl, List.getD_eq_getElem?_getD,
      List.getElem?_append_right (by simp [hl]), List.length_map, hl, Nat.sub_self]
    rfl
  rw [parse_octal_field, ← foldl_octal_digits w n]
  refine parse_octal_loop_digits s size (octal_digits w n) 0 0 (fun i hi => ?_) (fun d hd => octal_digits_lt hd)
    hend (by omega) (by omega) (octal_digits_prefix_le w n hn)
  rw [Nat.zero_add, hs i (by omega), List.getD_eq_getElem?_getD,
    List.getElem?_append_left (by simpa using hi), List.getElem?_map, List.getElem?_eq_getElem hi]
  rfl

/-! ## The octal fields `ustar_make_header` writes -/

theorem snprintf_field_chksum (C : Nat) (hC : C < 8 ^ 7) :
    snprintf_field chksum_field.size "%07o" C = render_digits base_o 7 C ++ [0] := by
  have hmod : ((C : Int) % 2 ^ 32).toNat = C := by omega
  have hparse : parse_conversion ['0'.toUInt8, '7'.toUInt8, 'o'.toUInt8] [.int C] =
      (⟨⟨false, false, false, false, true, false⟩, (7 : Nat), -1, .INT⟩, ['o'.toUInt8], [.int C]) := rfl
  have h := snprintf_zero_octal (by decide) (by rw [hmod]; exact (Nat.digits_length_le_iff (by decide) C).mpr hC)
    hparse
  rwa [hmod] at h

theorem snprintf_field_size (size : Int) :
    snprintf_field size_field.size "%011o" size = render_digits base_o 11 (size % 2 ^ 32).toNat ++ [0] := by
  have hparse : parse_conversion ['0'.toUInt8, '1'.toUInt8, '1'.toUInt8, 'o'.toUInt8] [.int size] =
      (⟨⟨false, false, false, false, true, false⟩, (11 : Nat), -1, .INT⟩, ['o'.toUInt8], [.int size]) := rfl
  exact snprintf_zero_octal (by decide) ((Nat.digits_length_le_iff (by decide) _).mpr (by omega)) hparse

theorem length_snprintf_field (size : Nat) (format : String) (value : Int) :
    (snprintf_field size format value).length ≤ size := by
  simp only [snprintf_field, snprintf, vsnprintf]
  split
  · simp only [List.length_append, List.length_take, List.length_singleton]
    omega
  · simp

theorem length_render_octal {w n : Nat} (hlen : (Nat.digits 8 n).length ≤ w) :
    (render_digits base_o w n).length = w := by
  rw [length_render_digits, length_digits_le]
  exact max_eq_left hlen

/-! ## Reading back what `fill_header` writes -/

section fill_header

variable (file_name : List UInt8) (type : ustar_type) (size : Int) (header : Buffer)

theorem fill_header_lengths :
    (snprintf_field 8 "%07o" (if type = .USTAR_REGULAR then 0o644 else 0o755)).length ≤ 8 ∧
      (snprintf_field 12 "%011o" size).length ≤ 12 ∧ (snprintf_field 12 "%011o" 1136102400).length ≤ 12 :=
  ⟨length_snprintf_field _ _ _, length_snprintf_field _ _ _, length_snprintf_field _ _ _⟩

theorem fill_header_name (hlen : file_name.length ≤ 99) {i : Nat} (hi : i < 100) :
    fill_header file_name type size header i = file_name.getD i 0 := by
  simp (disch := omega) only [fill_header, strlcpy_outside, store_bytes_outside, Function.update_of_ne,
    uname_field, gname_field, version_field, magic_field, typeflag_field, mtime_field, size_field, gid_field,
    uid_field, mode_field, name_field, USTAR_HEADER_SIZE]
  exact strlcpy_getD _ _ _ _ (by omega) (Nat.zero_le i) (fun _ => memset_inside _ _ _ _ (Nat.zero_le i) (by omega))

theorem fill_header_size {i : Nat} (hi : i < 12) :
    fill_header file_name type size header (124 + i) =
      (render_digits base_o 11 (size % 2 ^ 32).toNat ++ [0]).getD i 0 := by
  obtain ⟨hm, -, -⟩ := fill_header_lengths type size
  have hfield := snprintf_field_size size
  have hl : (render_digits base_o 11 (size % 2 ^ 32).toNat ++ [0]).length = 12 := by
    rw [List.length_append, length_render_octal ((Nat.digits_length_le_iff (by decide) _).mpr (by omega))]
    rfl
  simp only [size_field] at hfield
  simp (disch := omega) only [fill_header, strlcpy_outside, store_bytes_outside, Function.update_of_ne,
    uname_field, gname_field, version_field, magic_field, typeflag_field, mtime_field, size_field, hfield]
  rw [store_bytes_inside _ _ _ (Nat.le_add_right 124 i), Nat.add_sub_cancel_left]
  rw [hl]
  omega

theorem fill_header_typeflag : fill_header file_name type size header 156 = type.byte := by
  simp (disch := omega) only [fill_header, strlcpy_outside, Function.update_of_ne, Function.update_self,
    uname_field, gname_field, version_field, magic_field, typeflag_field]

theorem fill_header_magic {i : Nat} (hi : i < 6) :
    fill_header file_name type size header (257 + i) = literal "ustar" i := by
  simp (disch := omega) only [fill_header, strlcpy_outside, Function.update_of_ne, uname_field, gname_field,
    version_field, magic_field]
  rw [strlcpy_getD _ _ _ _ (by decide) (by omega) (fun h => absurd h (by simp; omega)),
    Nat.add_sub_cancel_left]
  rfl

theorem fill_header_version :
    fill_header file_name type size header 263 = '0'.toUInt8 ∧
      fill_header file_name type size header 264 = '0'.toUInt8 := by
  constructor <;>
    simp (disch := omega) only [fill_header, strlcpy_outside, Function.update_of_ne, Function.update_self,
      uname_field, gname_field, version_field]

theorem fill_header_prefix_field : fill_header file_name type size header 345 = 0 := by
  obtain ⟨hm, hs, ht⟩ := fill_header_lengths type size
  simp (disch := omega) only [fill_header, strlcpy_outside, store_bytes_outside, Function.update_of_ne,
    memset_inside, uname_field, gname_field, version_field, magic_field, typeflag_field, mtime_field, size_field,
    gid_field, uid_field, mode_field, name_field, USTAR_HEADER_SIZE]

theorem fill_header_beyond {i : Nat} (hi : USTAR_HEADER_SIZE ≤ i) :
    fill_header file_name type size header i = header i := by
  obtain ⟨hm, hs, ht⟩ := fill_header_lengths type size
  simp only [USTAR_HEADER_SIZE] at hi
  simp (disch := omega) only [fill_header, strlcpy_outside, store_bytes_outside, Function.update_of_ne,
    memset_outside, uname_field, gname_field, version_field, magic_field, typeflag_field, mtime_field, size_field,
    gid_field, uid_field, mode_field, name_field, USTAR_HEADER_SIZE]

end fill_header

/-! ## The checksum `ustar_make_header` stores -/

theorem store_chksum_outside (H : Buffer) {j : Nat} (hj : j < 148 ∨ 156 ≤ j) :
    store_bytes H 148 (render_digits base_o 7 (calculate_chksum H) ++ [0]) j = H j := by
  have hl := length_render_octal ((Nat.digits_length_le_iff (by decide) _).mpr (calculate_chksum_lt H))
  exact store_bytes_outside _ _ _ (by rw [List.length_append, hl]; simp; omega)

/-- Storing a header's checksum over its checksum field leaves the checksum unchanged, and the
field then reads back as it. -/
theorem parse_stored_chksum (H : Buffer) :
    parse_octal_field (field_bytes (store_bytes H 148 (render_digits base_o 7 (calculate_chksum H) ++ [0]))
      chksum_field) chksum_field.size =
      some (calculate_chksum (store_bytes H 148 (render_digits base_o 7 (calculate_chksum H) ++ [0]))) := by
  have hl := length_render_octal ((Nat.digits_length_le_iff (by decide) _).mpr (calculate_chksum_lt H))
  have hsame : calculate_chksum (store_bytes H 148 (render_digits base_o 7 (calculate_chksum H) ++ [0])) =
      calculate_chksum H :=
    calculate_chksum_congr fun j _ hj => store_chksum_outside H (by simp only [chksum_field] at hj; omega)
  rw [hsame]
  refine parse_octal_field_render _ _ 7 _ (by decide) ((Nat.digits_length_le_iff (by decide) _).mpr
    (calculate_chksum_lt H)) (by decide) (by have := calculate_chksum_lt H; simp only [ULONG_MAX]; omega)
    (fun i hi => ?_)
  simp only [field_bytes, chksum_field]
  rw [store_bytes_inside _ _ _ (Nat.le_add_right 148 i) (by rw [List.length_append, hl]; simp; omega),
    Nat.add_sub_cancel_left]

section make_header

variable (file_name : List UInt8) (type : ustar_type) (size : Int) (header : Buffer)

theorem ustar_make_header_eq (htype : type ≠ .USTAR_EOF) (hlen : (strip_antisocial_prefixes file_name).length ≤ 99) :
    ustar_make_header file_name type size header =
      some (true, store_bytes (fill_header (strip_antisocial_prefixes file_name) type size header) 148
        (render_digits base_o 7 (calculate_chksum (fill_header (strip_antisocial_prefixes file_name) type size header))
          ++ [0])) := by
  rw [ustar_make_header, if_neg htype, if_neg (by omega)]
  dsimp only
  rw [snprintf_field_chksum _ (calculate_chksum_lt _)]
  rfl

theorem ustar_make_header_too_long (htype : type ≠ .USTAR_EOF)
    (hlen : 99 < (strip_antisocial_prefixes file_name).length) :
    ustar_make_header file_name type size header = some (false, header) := by
  rw [ustar_make_header, if_neg htype, if_pos hlen]

end make_header

theorem ustar_make_header_true {file_name : List UInt8} {type : ustar_type} {size : Int} {header h : Buffer}
    (hmake : ustar_make_header file_name type size header = some (true, h)) :
    type ≠ .USTAR_EOF ∧ (strip_antisocial_prefixes file_name).length ≤ 99 ∧
      h = store_bytes (fill_header (strip_antisocial_prefixes file_name) type size header) 148
        (render_digits base_o 7 (calculate_chksum (fill_header (strip_antisocial_prefixes file_name) type size header))
          ++ [0]) := by
  have htype : type ≠ .USTAR_EOF := by
    rintro rfl
    simp [ustar_make_header] at hmake
  by_cases hlen : 99 < (strip_antisocial_prefixes file_name).length
  · rw [ustar_make_header_too_long file_name type size header htype hlen] at hmake
    simp at hmake
  · rw [ustar_make_header_eq file_name type size header htype (by omega)] at hmake
    exact ⟨htype, by omega, (Prod.mk.inj (Option.some.inj hmake)).2.symm⟩

/-! ## The parser on a header that passes its checks -/

/-- The tests `ustar_parse_header` makes before it reads the size field, passed by a header of
type `type`. -/
structure HeaderChecks (h : Buffer) (type : ustar_type) : Prop where
  not_zeros : is_all_zeros h USTAR_HEADER_SIZE = false
  magic : ∀ i < 6, h (257 + i) = literal "ustar" i
  version : h 263 = '0'.toUInt8 ∧ h 264 = '0'.toUInt8
  chksum : parse_octal_field (field_bytes h chksum_field) chksum_field.size = some (calculate_chksum h)
  name_ends : h 99 = 0
  prefix_empty : h 345 = 0
  typeflag : h 156 = type.byte
  not_eof : type ≠ .USTAR_EOF

theorem HeaderChecks.memcmp_magic {h : Buffer} {type : ustar_type} (hc : HeaderChecks h type) :
    memcmp (field_bytes h magic_field) (literal "ustar") 6 = 0 :=
  (memcmp_eq_zero_iff _ _ _).mpr hc.magic

theorem ustar_parse_header_of_checks {h : Buffer} {type : ustar_type} (hc : HeaderChecks h type) {size : Nat}
    (hsize : type = .USTAR_REGULAR →
      parse_octal_field (field_bytes h size_field) size_field.size = some size ∧ size ≤ 2 ^ 31 - 1) :
    ustar_parse_header h = .ok (some (strip_antisocial_prefixes (cstr (field_bytes h name_field) 100)), type,
      if type = .USTAR_REGULAR then (size : Int) else 0) := by
  unfold ustar_parse_header
  simp only [hc.not_zeros, hc.memcmp_magic, version_field, hc.chksum, hc.version, name_field, prefix_field,
    hc.name_ends, hc.prefix_empty, typeflag_field, hc.typeflag, Bool.false_eq_true, if_false, ne_eq,
    not_true_eq_false, or_self]
  cases type with
  | USTAR_REGULAR =>
    obtain ⟨hs, hle⟩ := hsize rfl
    simp [hs, show ¬2147483647 < size by omega]
  | USTAR_DIRECTORY => simp [ustar_type.byte, show '5'.toUInt8 ≠ '0'.toUInt8 by decide]
  | USTAR_EOF => exact absurd rfl hc.not_eof

theorem ustar_parse_header_too_large {h : Buffer} (hc : HeaderChecks h .USTAR_REGULAR) {size : Nat}
    (hs : parse_octal_field (field_bytes h size_field) size_field.size = some size) (hgt : 2 ^ 31 - 1 < size) :
    ustar_parse_header h = .error "file too large" := by
  unfold ustar_parse_header
  simp only [hc.not_zeros, hc.memcmp_magic, version_field, hc.chksum, hc.version, name_field, prefix_field,
    hc.name_ends, hc.prefix_empty, typeflag_field, hc.typeflag, Bool.false_eq_true, if_false, ne_eq,
    not_true_eq_false, or_self]
  simp [hs, show 2147483647 < size by omega]

/-! ## Headers `ustar_make_header` returns -/

section made_header

variable {file_name : List UInt8} {type : ustar_type} {size : Int} {header h : Buffer}

theorem made_header_checks (hmake : ustar_make_header file_name type size header = some (true, h)) :
    HeaderChecks h type := by
  obtain ⟨htype, hlen, rfl⟩ := ustar_make_header_true hmake
  set H := fill_header (strip_antisocial_prefixes file_name) type size header with hH
  have hmagic : ∀ i < 6, store_bytes H 148 (render_digits base_o 7 (calculate_chksum H) ++ [0]) (257 + i) =
      literal "ustar" i := fun i hi => by
    rw [store_chksum_outside H (by omega), hH, fill_header_magic _ type size header hi]
  refine ⟨?_, hmagic, ⟨?_, ?_⟩, parse_stored_chksum H, ?_, ?_, ?_, htype⟩
  · have hu : literal "ustar" 0 ≠ 0 := by decide
    rw [is_all_zeros, List.all_eq_false]
    exact ⟨257, List.mem_range.mpr (by decide), by simpa using hmagic 0 (by decide) ▸ hu⟩
  · rw [store_chksum_outside H (by omega), hH]
    exact (fill_header_version _ type size header).1
  · rw [store_chksum_outside H (by omega), hH]
    exact (fill_header_version _ type size header).2
  · rw [store_chksum_outside H (by omega), hH, fill_header_name _ type size header hlen (by omega),
      List.getD_eq_getElem?_getD, List.getElem?_eq_none (by omega), Option.getD_none]
  · rw [store_chksum_outside H (by omega), hH, fill_header_prefix_field]
  · rw [store_chksum_outside H (by omega), hH, fill_header_typeflag]

theorem made_header_beyond (hmake : ustar_make_header file_name type size header = some (true, h)) {i : Nat}
    (hi : USTAR_HEADER_SIZE ≤ i) : h i = header i := by
  obtain ⟨-, -, rfl⟩ := ustar_make_header_true hmake
  simp only [USTAR_HEADER_SIZE] at hi
  rw [store_chksum_outside _ (by omega), fill_header_beyond _ type size header (by simp only [USTAR_HEADER_SIZE]; omega)]

theorem made_header_name (hmake : ustar_make_header file_name type size header = some (true, h))
    (hnul : 0 ∉ file_name) : cstr (field_bytes h name_field) 100 = strip_antisocial_prefixes file_name := by
  obtain ⟨-, hlen, rfl⟩ := ustar_make_header_true hmake
  set n := strip_antisocial_prefixes file_name
  set H := fill_header n type size header with hH
  have hnul' : ∀ c ∈ n, c ≠ 0 := fun c hc h0 => not_mem_strip_antisocial_prefixes hnul (by decide) (h0 ▸ hc)
  have hread : ∀ k < 100, field_bytes (store_bytes H 148 (render_digits base_o 7 (calculate_chksum H) ++ [0]))
      name_field k = n.getD k 0 := fun k hk => by
    simp only [field_bytes, name_field, Nat.zero_add]
    rw [store_chksum_outside H (by omega), hH, fill_header_name n type size header hlen hk]
  refine cstr_of_bytes n hnul' _ 100 (by omega) (fun k hk => ?_) ?_
  · rw [hread k (by omega), List.getD_eq_getElem?_getD, List.getElem?_eq_getElem hk, Option.getD_some]
  · rw [hread _ (by omega), List.getD_eq_getElem?_getD, List.getElem?_eq_none le_rfl, Option.getD_none]

theorem made_header_size (hmake : ustar_make_header file_name type size header = some (true, h)) :
    parse_octal_field (field_bytes h size_field) size_field.size = some (size % 2 ^ 32).toNat := by
  obtain ⟨-, -, rfl⟩ := ustar_make_header_true hmake
  set H := fill_header (strip_antisocial_prefixes file_name) type size header with hH
  refine parse_octal_field_render _ _ 11 _ (by decide) ((Nat.digits_length_le_iff (by decide) _).mpr (by omega))
    (by decide) (by simp only [ULONG_MAX]; omega) (fun i hi => ?_)
  simp only [field_bytes, size_field]
  rw [store_chksum_outside H (by omega), hH, fill_header_size _ type size header (by omega)]

end made_header

/-! ## Round trip -/

theorem made_header_parse {file_name : List UInt8} {type : ustar_type} {size : Int} {header h : Buffer}
    (hmake : ustar_make_header file_name type size header = some (true, h)) (hnul : 0 ∉ file_name)
    (hsize : 0 ≤ size ∧ size < 2 ^ 31) :
    ustar_parse_header h =
      .ok (some (strip_antisocial_prefixes file_name), type, if type = .USTAR_REGULAR then size else 0) := by
  have hsize_field := made_header_size hmake
  have hs : ((size % 2 ^ 32).toNat : Int) = size := by omega
  rw [ustar_parse_header_of_checks (made_header_checks hmake) (fun _ => ⟨hsize_field, by omega⟩),
    made_header_name hmake hnul, strip_antisocial_prefixes_idem, hs]

theorem ustar_parse_make_header (file_name : List UInt8) (type : ustar_type) (size : Int) (header : Buffer)
    (hnul : 0 ∉ file_name) (htype : type ≠ .USTAR_EOF) (hsize : 0 ≤ size ∧ size < 2 ^ 31)
    (hlen : (strip_antisocial_prefixes file_name).length ≤ 99) :
    ∃ h, ustar_make_header file_name type size header = some (true, h) ∧
      ustar_parse_header h =
        .ok (some (strip_antisocial_prefixes file_name), type, if type = .USTAR_REGULAR then size else 0) := by
  have hmake := ustar_make_header_eq file_name type size header htype hlen
  exact ⟨_, hmake, made_header_parse hmake hnul hsize⟩

theorem ustar_parse_make_header_sample :
    (0 ∉ "./ab".toList.map Char.toUInt8 ∧ ustar_type.USTAR_REGULAR ≠ .USTAR_EOF ∧
      ((0 : Int) ≤ 1000 ∧ (1000 : Int) < 2 ^ 31) ∧
      (strip_antisocial_prefixes ("./ab".toList.map Char.toUInt8)).length ≤ 99) ∧
    ∃ h, ustar_make_header ("./ab".toList.map Char.toUInt8) .USTAR_REGULAR 1000 (fun _ => 0) = some (true, h) ∧
      ustar_parse_header h = .ok (some ("ab".toList.map Char.toUInt8), .USTAR_REGULAR, 1000) := by
  have hdrop : ("./ab".toList.map Char.toUInt8).drop (1 + 1) = "ab".toList.map Char.toUInt8 := by decide
  have hstrip : strip_antisocial_prefixes ("./ab".toList.map Char.toUInt8) = "ab".toList.map Char.toUInt8 := by
    rw [strip_antisocial_prefixes_of_antisocial (p := 1) (by unfold Antisocial; decide) (by decide), hdrop]
    exact strip_antisocial_prefixes_of_not (by unfold Antisocial; decide) (by decide) (by decide)
  refine ⟨⟨by decide, by decide, by decide, by rw [hstrip]; decide⟩, ?_⟩
  have h := ustar_parse_make_header ("./ab".toList.map Char.toUInt8) .USTAR_REGULAR 1000 (fun _ => 0)
    (by decide) (by decide) (by decide) (by rw [hstrip]; decide)
  rwa [hstrip, if_pos rfl] at h

/-- A negative size is written as a large `unsigned int`, which the parser then refuses. -/
theorem ustar_parse_make_header_negative_size (file_name : List UInt8) (size : Int) (header : Buffer)
    (hsize : -2 ^ 31 ≤ size ∧ size < 0) (hlen : (strip_antisocial_prefixes file_name).length ≤ 99) :
    ∃ h, ustar_make_header file_name .USTAR_REGULAR size header = some (true, h) ∧
      ustar_parse_header h = .error "file too large" := by
  have hmake := ustar_make_header_eq file_name .USTAR_REGULAR size header (by decide) hlen
  refine ⟨_, hmake, ?_⟩
  exact ustar_parse_header_too_large (made_header_checks hmake) (made_header_size hmake)
    (by omega)

theorem ustar_parse_make_header_negative_size_sample :
    ((-2 ^ 31 : Int) ≤ -1 ∧ (-1 : Int) < 0) ∧
      (strip_antisocial_prefixes ("ab".toList.map Char.toUInt8)).length ≤ 99 ∧
    ∃ h, ustar_make_header ("ab".toList.map Char.toUInt8) .USTAR_REGULAR (-1) (fun _ => 0) = some (true, h) ∧
      ustar_parse_header h = .error "file too large" :=
  have hlen : (strip_antisocial_prefixes ("ab".toList.map Char.toUInt8)).length ≤ 99 := by
    rw [strip_antisocial_prefixes_of_not (by unfold Antisocial; decide) (by decide) (by decide)]
    decide
  ⟨by decide, hlen,
    ustar_parse_make_header_negative_size ("ab".toList.map Char.toUInt8) (-1) (fun _ => 0) (by decide) hlen⟩

/-! ## The parser reads only the header -/

theorem is_all_zeros_congr {a b : Buffer} {cnt : Nat} (h : ∀ i < cnt, a i = b i) :
    is_all_zeros a cnt = is_all_zeros b cnt := by
  unfold is_all_zeros
  apply Bool.eq_iff_iff.mpr
  simp only [List.all_eq_true, List.mem_range, decide_eq_true_eq]
  exact ⟨fun H i hi => h i hi ▸ H i hi, fun H i hi => (h i hi).symm ▸ H i hi⟩

theorem ustar_parse_header_congr {a b : Buffer} (h : ∀ i < USTAR_HEADER_SIZE, a i = b i) :
    ustar_parse_header a = ustar_parse_header b := by
  have hz : is_all_zeros a USTAR_HEADER_SIZE = is_all_zeros b USTAR_HEADER_SIZE := is_all_zeros_congr h
  simp only [USTAR_HEADER_SIZE] at h
  have hm : memcmp (field_bytes a magic_field) (literal "ustar") 6 =
      memcmp (field_bytes b magic_field) (literal "ustar") 6 :=
    memcmp_congr 6 fun i hi => h _ (by simp only [magic_field]; omega)
  have hc : parse_octal_field (field_bytes a chksum_field) chksum_field.size =
      parse_octal_field (field_bytes b chksum_field) chksum_field.size :=
    parse_octal_loop_congr (fun i hi => h _ (by simp only [chksum_field] at hi ⊢; omega)) 0 0
  have hs : parse_octal_field (field_bytes a size_field) size_field.size =
      parse_octal_field (field_bytes b size_field) size_field.size :=
    parse_octal_loop_congr (fun i hi => h _ (by simp only [size_field] at hi ⊢; omega)) 0 0
  have hsum : calculate_chksum a = calculate_chksum b := calculate_chksum_congr fun i hi _ => h i hi
  have hn : cstr (field_bytes a name_field) name_field.size = cstr (field_bytes b name_field) name_field.size :=
    cstr_congr _ fun k hk => h _ (by simp only [name_field] at hk ⊢; omega)
  unfold ustar_parse_header
  rw [hz, hm, hc, hs, hsum, hn, h version_field.ofs (by decide), h (version_field.ofs + 1) (by decide),
    h (name_field.ofs + name_field.size - 1) (by decide), h prefix_field.ofs (by decide),
    h typeflag_field.ofs (by decide)]

theorem ustar_parse_header_zeros {h : Buffer} (hz : ∀ i < USTAR_HEADER_SIZE, h i = 0) :
    ustar_parse_header h = .ok (none, .USTAR_EOF, 0) := by
  have hall : is_all_zeros h USTAR_HEADER_SIZE = true := by
    simp only [is_all_zeros, List.all_eq_true, List.mem_range, decide_eq_true_eq]
    exact hz
  rw [ustar_parse_header, if_pos hall]

theorem ustar_parse_header_no_magic {h : Buffer} {j : Nat} (hj : j < USTAR_HEADER_SIZE) (hne : h j ≠ 0)
    (hmagic : h magic_field.ofs = 0) : ustar_parse_header h = .error "not a ustar archive" := by
  have hall : is_all_zeros h USTAR_HEADER_SIZE = false := by
    rw [is_all_zeros, List.all_eq_false]
    exact ⟨j, List.mem_range.mpr hj, by simpa using hne⟩
  have hm : memcmp (field_bytes h magic_field) (literal "ustar") 6 ≠ 0 := by
    rw [memcmp]
    have hu : literal "ustar" 0 ≠ 0 := by decide
    simp only [field_bytes, Nat.add_zero, hmagic]
    rw [if_pos (Ne.symm hu)]
    split <;> decide
  rw [ustar_parse_header, if_neg (by rw [hall]; decide), if_pos hm]

/-! ## A changed byte is caught -/

/-- A header that is not all zeros and whose checksum field holds another value than its checksum
is rejected by the magic, the version or the checksum test. -/
theorem ustar_parse_header_of_chksum_ne (h : Buffer) (hz : is_all_zeros h USTAR_HEADER_SIZE = false) {c : Nat}
    (hc : parse_octal_field (field_bytes h chksum_field) chksum_field.size = some c)
    (hne : c ≠ calculate_chksum h) :
    ∃ e, ustar_parse_header h = .error e ∧
      (e = "not a ustar archive" ∨ e = "invalid ustar version" ∨ e = "checksum mismatch") := by
  unfold ustar_parse_header
  rw [if_neg (by rw [hz]; decide)]
  by_cases hm : memcmp (field_bytes h magic_field) (literal "ustar") 6 ≠ 0
  · exact ⟨_, if_pos hm, Or.inl rfl⟩
  rw [if_neg hm]
  by_cases hv : h version_field.ofs ≠ '0'.toUInt8 ∨ h (version_field.ofs + 1) ≠ '0'.toUInt8
  · exact ⟨_, if_pos hv, Or.inr (Or.inl rfl)⟩
  rw [if_neg hv]
  simp only [hc, if_pos hne]
  exact ⟨_, rfl, Or.inr (Or.inr rfl)⟩

theorem ustar_parse_header_detects_byte_change {file_name : List UInt8} {type : ustar_type} {size : Int}
    {header h : Buffer} (hmake : ustar_make_header file_name type size header = some (true, h)) {j : Nat}
    (hj : j < USTAR_HEADER_SIZE) (hfield : j < chksum_field.ofs ∨ chksum_field.ofs + chksum_field.size ≤ j)
    {v : UInt8} (hv : v ≠ h j) :
    ∃ e, ustar_parse_header (Function.update h j v) = .error e ∧
      (e = "not a ustar archive" ∨ e = "invalid ustar version" ∨ e = "checksum mismatch") := by
  have hc := made_header_checks hmake
  simp only [chksum_field, USTAR_HEADER_SIZE] at hfield hj
  -- the magic's first two bytes are not zero, and the change leaves one of them
  have hmagic : ∀ i < 2, h (257 + i) ≠ 0 := fun i hi => by
    rw [hc.magic i (by omega)]
    interval_cases i <;> decide
  have hz : is_all_zeros (Function.update h j v) USTAR_HEADER_SIZE = false := by
    rw [is_all_zeros, List.all_eq_false]
    obtain ⟨i, hi, hij⟩ : ∃ i < 2, 257 + i ≠ j := by
      by_cases h0 : 257 = j
      · exact ⟨1, by decide, by omega⟩
      · exact ⟨0, by decide, h0⟩
    refine ⟨257 + i, List.mem_range.mpr (by simp only [USTAR_HEADER_SIZE]; omega), ?_⟩
    simpa [Function.update_of_ne hij] using hmagic i hi
  have hparse : parse_octal_field (field_bytes (Function.update h j v) chksum_field) chksum_field.size =
      some (calculate_chksum h) := by
    rw [← hc.chksum]
    exact parse_octal_loop_congr (fun i hi => Function.update_of_ne (by simp only [chksum_field] at hi ⊢; omega) _ _) 0 0
  have hsum := calculate_chksum_update h (j := j) (by simp only [USTAR_HEADER_SIZE]; omega)
    (by simp only [chksum_field]; omega) v
  have hne : v.toNat ≠ (h j).toNat := fun e => hv (UInt8.toNat_inj.mp e)
  exact ustar_parse_header_of_chksum_ne _ hz hparse (by omega)

theorem ustar_parse_header_detects_byte_change_sample :
    ∃ h, ustar_make_header ("ab".toList.map Char.toUInt8) .USTAR_REGULAR 1000 (fun _ => 0) = some (true, h) ∧
      ((0 : Nat) < USTAR_HEADER_SIZE ∧ (0 < chksum_field.ofs ∨ chksum_field.ofs + chksum_field.size ≤ 0) ∧
        'b'.toUInt8 ≠ h 0) ∧
      ∃ e, ustar_parse_header (Function.update h 0 'b'.toUInt8) = .error e ∧
        (e = "not a ustar archive" ∨ e = "invalid ustar version" ∨ e = "checksum mismatch") := by
  have hstrip : strip_antisocial_prefixes ("ab".toList.map Char.toUInt8) = "ab".toList.map Char.toUInt8 :=
    strip_antisocial_prefixes_of_not (by unfold Antisocial; decide) (by decide) (by decide)
  have hlen : (strip_antisocial_prefixes ("ab".toList.map Char.toUInt8)).length ≤ 99 := by
    rw [hstrip]
    decide
  have hmake := ustar_make_header_eq ("ab".toList.map Char.toUInt8) .USTAR_REGULAR 1000 (fun _ => 0) (by decide) hlen
  have hb : 'b'.toUInt8 ≠ store_bytes (fill_header (strip_antisocial_prefixes ("ab".toList.map Char.toUInt8))
      .USTAR_REGULAR 1000 (fun _ => 0)) 148 (render_digits base_o 7 (calculate_chksum (fill_header
        (strip_antisocial_prefixes ("ab".toList.map Char.toUInt8)) .USTAR_REGULAR 1000 (fun _ => 0))) ++ [0]) 0 := by
    rw [store_chksum_outside _ (by decide), fill_header_name _ _ _ _ hlen (by decide), hstrip]
    decide
  exact ⟨_, hmake, ⟨by decide, by decide, hb⟩,
    ustar_parse_header_detects_byte_change hmake (by decide) (by decide) hb⟩

end Pintos
