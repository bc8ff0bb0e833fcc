import Pintos.Lib.Stdio
import Mathlib.Data.Nat.Digits.Lemmas

/-! # What `printf` integer conversions output

The digit loop of `format_integer` computes the digits of a value in its base (`digits_le`, from
`Nat.digits`) with a comma between groups; the precision loop puts zeros after them, which come
first once the buffer is output backwards (`render_digits`).  `format_integer_eq` lays its
output out as padding, sign and `0x`, padding zeros, digits and padding, and
`format_integer_length` counts it: the field width, or the content if it is longer, except
when both `-` and `0` survive `parse_conversion`, which happens for a `0` flag with a negative
`*` width, and then the padding is output twice.
-/

namespace Pintos
set_option autoImplicit false
set_option linter.style.nameCheck false
set_option maxHeartbeats 250000
set_option maxRecDepth 120000

/-! ## Digit strings -/

/-- The character of digit `i` in base `b`. -/
def digit_char (b : integer_base) (i : Nat) : UInt8 := b.digits.getD i 0

/-- The digits of `n` in base `b`, least significant first; none for 0. -/
def digits_le (b : integer_base) (n : Nat) : List UInt8 := (Nat.digits b.base n).map (digit_char b)

/-- The value of the digit characters `s`, most significant first, in base `b`. -/
def read_digits (b : integer_base) (s : List UInt8) : Nat :=
  Nat.ofDigits b.base (s.reverse.map b.digits.idxOf)

/-- `n` in base `b`, most significant digit first, with zeros before it up to `p` digits. -/
def render_digits (b : integer_base) (p n : Nat) : List UInt8 :=
  List.replicate (p - (digits_le b n).length) '0'.toUInt8 ++ (digits_le b n).reverse

theorem idxOf_digit_char (b : integer_base) {i : Nat} (h : i < b.base) :
    b.digits.idxOf (digit_char b i) = i := by
  have hi : i < b.digits.length := b.digits_length ▸ h
  rw [digit_char, List.getD_eq_getElem?_getD, List.getElem?_eq_getElem hi, Option.getD_some]
  exact b.digits_nodup.idxOf_getElem i hi

theorem idxOf_zero_char (b : integer_base) : b.digits.idxOf '0'.toUInt8 = 0 := by
  have hz := b.zero_first
  cases h : b.digits with
  | nil => simp [h] at hz
  | cons d ds =>
    have hd : d = '0'.toUInt8 := by simpa [h] using hz
    simp [hd]

theorem digit_char_zero (b : integer_base) : digit_char b 0 = '0'.toUInt8 := by
  have h := b.zero_first
  rw [List.head?_eq_getElem?] at h
  rw [digit_char, List.getD_eq_getElem?_getD, h, Option.getD_some]

theorem length_digits_le (b : integer_base) (n : Nat) :
    (digits_le b n).length = (Nat.digits b.base n).length := List.length_map _

theorem map_idxOf_digits_le (b : integer_base) (n : Nat) :
    (digits_le b n).map b.digits.idxOf = Nat.digits b.base n := by
  rw [digits_le, List.map_map]
  conv_rhs => rw [← List.map_id (Nat.digits b.base n)]
  refine List.map_congr_left fun d hd => ?_
  exact idxOf_digit_char b (Nat.digits_lt_base (by have := b.base_ge; omega) hd)

theorem read_render_digits (b : integer_base) (p n : Nat) : read_digits b (render_digits b p n) = n := by
  rw [read_digits, render_digits, List.reverse_append, List.reverse_reverse, List.reverse_replicate,
    List.map_append, map_idxOf_digits_le, List.map_replicate, idxOf_zero_char,
    Nat.ofDigits_append_replicate_zero, Nat.ofDigits_digits]

theorem length_render_digits (b : integer_base) (p n : Nat) :
    (render_digits b p n).length = max p (digits_le b n).length := by
  simp only [render_digits, List.length_append, List.length_replicate, List.length_reverse]
  omega

theorem render_digits_eq_nil_iff (b : integer_base) (p n : Nat) :
    render_digits b p n = [] ↔ p = 0 ∧ n = 0 := by
  rw [← List.length_eq_zero_iff, length_render_digits, length_digits_le]
  simp only [Nat.max_eq_zero_iff, List.length_eq_zero_iff, Nat.digits_eq_nil_iff_eq_zero]

theorem digit_char_eq_zero_iff (b : integer_base) {d : Nat} (h : d < b.base) :
    digit_char b d = '0'.toUInt8 ↔ d = 0 := by
  constructor
  · intro e
    have hd := idxOf_digit_char b h
    rwa [e, idxOf_zero_char, eq_comm] at hd
  · rintro rfl
    exact digit_char_zero b

theorem getLast?_digits_le (b : integer_base) {n : Nat} (hn : n ≠ 0) :
    ∃ d, (digits_le b n).getLast? = some d ∧ d ≠ '0'.toUInt8 := by
  have hne : Nat.digits b.base n ≠ [] := Nat.digits_ne_nil_iff_ne_zero.mpr hn
  have hlt : (Nat.digits b.base n).getLast hne < b.base :=
    Nat.digits_lt_base (by have := b.base_ge; omega) (List.getLast_mem hne)
  refine ⟨digit_char b ((Nat.digits b.base n).getLast hne), ?_, ?_⟩
  · rw [digits_le, List.getLast?_map, List.getLast?_eq_some_getLast hne, Option.map_some]
  · rw [Ne, digit_char_eq_zero_iff b hlt]
    exact Nat.getLast_digit_ne_zero b.base hn

/-! ## The digit buffer -/

/-- The commas of the digit loop: one before each digit of `ds` when `group` is set and the
number of digits already out, `k` for the first, is a nonzero multiple of `g`. -/
def group_digits (group : Bool) (g : Nat) : Nat → List UInt8 → List UInt8
  | _, [] => []
  | k, d :: ds =>
    (if group && k > 0 && k % g == 0 then [','.toUInt8] else []) ++ d :: group_digits group g (k + 1) ds

@[simp]
theorem group_digits_false (g k : Nat) (ds : List UInt8) : group_digits false g k ds = ds := by
  induction ds generalizing k with
  | nil => rfl
  | cons d ds ih => simp [group_digits, ih]

theorem digits_loop_eq (b : integer_base) (group : Bool) (value digit_cnt : Nat) (buf : List UInt8) :
    digits_loop b group value digit_cnt buf =
      buf ++ group_digits group b.group digit_cnt (digits_le b value) := by
  have hb : 1 < b.base := by have := b.base_ge; omega
  induction value using Nat.strong_induction_on generalizing digit_cnt buf with
  | _ value ih =>
    rw [digits_loop]
    by_cases hv : value > 0
    · have hd : digits_le b value = digit_char b (value % b.base) :: digits_le b (value / b.base) := by
        rw [digits_le, Nat.digits_def' hb hv, List.map_cons, ← digits_le]
      rw [if_pos hv, ih (value / b.base) (Nat.div_lt_self hv hb), hd, group_digits]
      by_cases hc : (group && decide (digit_cnt > 0) && digit_cnt % b.group == 0) = true
      · simp [hc, digit_char]
      · simp [hc, digit_char]
    · rw [if_neg hv, show value = 0 by omega, digits_le, Nat.digits_zero, List.map_nil, group_digits,
        List.append_nil]

theorem zero_fill_eq (precision : Int) (fuel : Nat) (buf : List UInt8) (h : 63 ≤ fuel + buf.length) :
    zero_fill precision fuel buf =
      buf ++ List.replicate (min precision.toNat 63 - buf.length) '0'.toUInt8 := by
  induction fuel generalizing buf with
  | zero =>
    rw [zero_fill, show min precision.toNat 63 - buf.length = 0 by omega, List.replicate_zero,
      List.append_nil]
  | succ fuel ih =>
    rw [zero_fill]
    by_cases hc : (buf.length : Int) < precision ∧ buf.length < 63
    · rw [if_pos hc, ih _ (by simp only [List.length_append, List.length_singleton]; omega),
        List.append_assoc, List.singleton_append, ← List.replicate_succ]
      simp only [List.length_append, List.length_singleton]
      congr 2
      omega
    · rw [if_neg hc, show min precision.toNat 63 - buf.length = 0 by omega, List.replicate_zero,
        List.append_nil]

/-- The `#` octal test of `format_integer` on the digits and the precision zeros: it asks for a
leading zero exactly when the precision added none. -/
theorem octal_test_iff (b : integer_base) (value k : Nat) :
    ((digits_le b value ++ List.replicate k '0'.toUInt8).isEmpty ||
        (digits_le b value ++ List.replicate k '0'.toUInt8).getLastD 0 != '0'.toUInt8) = true ↔
      k = 0 := by
  cases k with
  | succ k =>
    simp [List.getLastD_eq_getLast?, List.getLast?_append, List.getLast?_replicate]
  | zero =>
    by_cases hv : value = 0
    · simp [hv, digits_le]
    · obtain ⟨d, hd, hd0⟩ := getLast?_digits_le b hv
      simp [List.getLastD_eq_getLast?, hd, hd0]

/-! ## Groups -/

/-- The digits `ds`, least significant first, with a comma after each `b.group` of them that more
digits follow: output backwards, groups of `b.group` counted from the right, one comma between
consecutive groups. -/
def comma_groups (b : integer_base) (ds : List UInt8) : List UInt8 :=
  if ds.length ≤ b.group then ds else ds.take b.group ++ ','.toUInt8 :: comma_groups b (ds.drop b.group)
termination_by ds.length
decreasing_by simp only [List.length_drop]; have := b.group_pos; omega

theorem group_digits_append (group : Bool) (g k : Nat) (xs ys : List UInt8) :
    group_digits group g k (xs ++ ys) = group_digits group g k xs ++ group_digits group g (k + xs.length) ys := by
  induction xs generalizing k with
  | nil => simp [group_digits]
  | cons x xs ih =>
    simp only [List.cons_append, group_digits, ih, List.length_cons, List.append_assoc]
    rw [Nat.add_assoc, Nat.add_comm 1 xs.length]

theorem group_digits_no_comma (group : Bool) (g k : Nat) (xs : List UInt8)
    (h : ∀ i < xs.length, (k + i) % g ≠ 0) : group_digits group g k xs = xs := by
  induction xs generalizing k with
  | nil => rfl
  | cons x xs ih =>
    have h0 : k % g ≠ 0 := by simpa using h 0 (by simp)
    rw [group_digits, ih (k + 1) fun i hi => by
      rw [Nat.add_assoc, Nat.add_comm 1 i]; exact h (i + 1) (by simp; omega)]
    simp [h0]

/-- The loop's commas from a multiple `m * g` of digits already out: a comma first unless none are
out, then the groups. -/
theorem group_digits_mul (b : integer_base) (m : Nat) (ds : List UInt8) :
    group_digits true b.group (m * b.group) ds =
      (if 0 < m ∧ ds ≠ [] then [','.toUInt8] else []) ++ comma_groups b ds := by
  have hg := b.group_pos
  obtain ⟨n, hn⟩ : ∃ n, ds.length = n := ⟨_, rfl⟩
  induction n using Nat.strong_induction_on generalizing ds m with
  | _ n ih =>
    cases ds with
    | nil => simp [group_digits, comma_groups]
    | cons d ds =>
      -- the digits after `d` in its group are out at counts strictly between two multiples
      have hrest : ∀ xs : List UInt8, xs.length < b.group →
          group_digits true b.group (m * b.group + 1) xs = xs := fun xs hxs =>
        group_digits_no_comma _ _ _ _ fun i hi => by
          rw [Nat.add_assoc, Nat.add_comm, Nat.mul_comm, Nat.add_mul_mod_self_left,
            Nat.mod_eq_of_lt (by omega)]
          omega
      have hfirst : group_digits true b.group (m * b.group) [d] =
          (if 0 < m then [','.toUInt8] else []) ++ [d] := by
        by_cases hm : 0 < m
        · simp [group_digits, hm, Nat.mul_mod_left, Nat.mul_pos hm hg]
        · simp [group_digits, show m = 0 by omega]
      rw [comma_groups]
      by_cases hl : (d :: ds).length ≤ b.group
      · rw [if_pos hl, show d :: ds = [d] ++ ds from rfl, group_digits_append, hfirst,
          List.length_singleton, hrest ds (by simp at hl; omega)]
        simp
      · have htake : (d :: ds).take b.group = [d] ++ ds.take (b.group - 1) := by
          rw [show b.group = (b.group - 1) + 1 by omega, List.take_succ_cons]
          simp
        have hsplit : d :: ds = [d] ++ ds.take (b.group - 1) ++ (d :: ds).drop b.group := by
          rw [← htake, List.take_append_drop]
        have hlen : (ds.take (b.group - 1)).length = b.group - 1 := by
          simp at hl; simp; omega
        rw [if_neg hl]
        conv_lhs => rw [hsplit]
        rw [group_digits_append, group_digits_append, hfirst, List.length_singleton,
          hrest _ (by omega), List.length_append, List.length_singleton, hlen,
          show m * b.group + (1 + (b.group - 1)) = (m + 1) * b.group by rw [Nat.succ_mul]; omega,
          ih _ (by simp at hn ⊢; omega) (m + 1) _ rfl, htake]
        have hne : (d :: ds).drop b.group ≠ [] := by
          simp at hl ⊢; omega
        simp [hne]

theorem group_digits_eq_comma_groups (b : integer_base) (ds : List UInt8) :
    group_digits true b.group 0 ds = comma_groups b ds := by
  simpa using group_digits_mul b 0 ds

theorem comma_groups_eq_nil_iff (b : integer_base) (ds : List UInt8) : comma_groups b ds = [] ↔ ds = [] := by
  rw [comma_groups]
  split_ifs with hl
  · exact Iff.rfl
  · constructor
    · intro h
      simp at h
    · rintro rfl
      simp at hl

theorem filter_comma_groups (b : integer_base) (ds : List UInt8) (h : ','.toUInt8 ∉ ds) :
    (comma_groups b ds).filter (· != ','.toUInt8) = ds := by
  obtain ⟨n, hn⟩ : ∃ n, ds.length = n := ⟨_, rfl⟩
  induction n using Nat.strong_induction_on generalizing ds with
  | _ n ih =>
    have hkeep : ∀ xs : List UInt8, ','.toUInt8 ∉ xs → xs.filter (· != ','.toUInt8) = xs := fun xs hxs =>
      List.filter_eq_self.mpr fun a ha => by
        rw [bne_iff_ne]
        rintro rfl
        exact hxs ha
    rw [comma_groups]
    split_ifs with hl
    · exact hkeep ds h
    · have hdrop : ','.toUInt8 ∉ ds.drop b.group := fun hm => h (List.mem_of_mem_drop hm)
      have hg := b.group_pos
      rw [List.filter_append, List.filter_cons, hkeep _ (fun hm => h (List.mem_of_mem_take hm)),
        ih _ (by simp only [List.length_drop]; omega) _ hdrop rfl]
      simp

theorem getLast?_comma_groups (b : integer_base) (ds : List UInt8) :
    (comma_groups b ds).getLast? = ds.getLast? := by
  obtain ⟨n, hn⟩ : ∃ n, ds.length = n := ⟨_, rfl⟩
  induction n using Nat.strong_induction_on generalizing ds with
  | _ n ih =>
    rw [comma_groups]
    split_ifs with hl
    · rfl
    · have hg := b.group_pos
      have hne : ds.drop b.group ≠ [] := by
        simp only [ne_eq, List.drop_eq_nil_iff]
        omega
      rw [List.getLast?_append, List.getLast?_cons, ih _ (by simp only [List.length_drop]; omega) _ rfl]
      conv_rhs => rw [← List.take_append_drop b.group ds]
      rw [List.getLast?_append, List.getLast?_eq_some_getLast hne]
      rfl

theorem digit_char_mem (b : integer_base) {i : Nat} (h : i < b.base) : digit_char b i ∈ b.digits := by
  rw [digit_char, List.getD_eq_getElem?_getD, List.getElem?_eq_getElem (b.digits_length ▸ h),
    Option.getD_some]
  exact List.getElem_mem _

theorem zero_char_mem (b : integer_base) : '0'.toUInt8 ∈ b.digits :=
  digit_char_zero b ▸ digit_char_mem b (by have := b.base_ge; omega)

theorem mem_render_digits (b : integer_base) (p n : Nat) {ch : UInt8} (h : ch ∈ render_digits b p n) :
    ch ∈ b.digits := by
  rw [render_digits, List.mem_append, List.mem_reverse, digits_le, List.mem_map] at h
  rcases h with h | ⟨d, hd, rfl⟩
  · rw [List.eq_of_mem_replicate h]
    exact zero_char_mem b
  · exact digit_char_mem b (Nat.digits_lt_base (by have := b.base_ge; omega) hd)

theorem comma_not_mem_render_digits (b : integer_base) (p n : Nat) : ','.toUInt8 ∉ render_digits b p n :=
  fun h => b.comma_not_mem (mem_render_digits b p n h)

/-- The precision `format_integer` renders: 1 when none is given. -/
def rendered_precision (c : printf_conversion) : Nat :=
  if c.precision < 0 then 1 else c.precision.toNat

/-- Without the `'` flag, `buf` output backwards is the value with enough leading zeros for the
precision, at most 63, and for `#` octal one more than the digits unless the precision already
gives a leading zero. -/
theorem integer_buffer_reverse (value : Nat) (b : integer_base) (c : printf_conversion)
    (hg : c.flags.GROUP = false) :
    (integer_buffer value b c).reverse =
      render_digits b (if c.flags.POUND && b.base == 8 then
          max (min (rendered_precision c) 63) ((digits_le b value).length + 1)
        else min (rendered_precision c) 63) value := by
  have hp : (if c.precision < 0 then (1 : Int) else c.precision).toNat = rendered_precision c := by
    rw [rendered_precision]; split <;> omega
  simp only [integer_buffer, hg, digits_loop_eq, group_digits_false, List.nil_append]
  rw [zero_fill_eq _ _ _ (by omega), hp]
  set k := min (rendered_precision c) 63 - (digits_le b value).length with hk
  by_cases hpb : (c.flags.POUND && b.base == 8) = true
  · rw [if_pos hpb]
    by_cases hk0 : k = 0
    · rw [if_pos (by rw [hpb, (octal_test_iff b value k).mpr hk0, Bool.true_and]), hk0,
        List.replicate_zero, List.append_nil, List.reverse_append, render_digits,
        show max (min (rendered_precision c) 63) ((digits_le b value).length + 1) -
          (digits_le b value).length = 1 by omega]
      rfl
    · rw [if_neg (by rw [hpb, Bool.true_and]; exact fun h => hk0 ((octal_test_iff b value k).mp h)),
        List.reverse_append, List.reverse_replicate, render_digits,
        show max (min (rendered_precision c) 63) ((digits_le b value).length + 1) = min (rendered_precision c) 63 by omega]
  · rw [if_neg hpb, if_neg (by simp only [hpb, Bool.false_and]; decide), List.reverse_append,
      List.reverse_replicate, render_digits]

/-- With the `'` flag and no precision, `buf` output backwards is the value in groups of
`b.group` digits counted from the right, one comma between consecutive groups, and `0` for 0. -/
theorem integer_buffer_grouped (value : Nat) (b : integer_base) (c : printf_conversion)
    (hg : c.flags.GROUP = true) (hp : c.precision < 0) (hpound : (c.flags.POUND && b.base == 8) = false) :
    (integer_buffer value b c).reverse = (comma_groups b (render_digits b 1 value).reverse).reverse := by
  have hprec : (if c.precision < 0 then (1 : Int) else c.precision).toNat = 1 := by
    rw [if_pos hp]
    rfl
  simp only [integer_buffer, hg, digits_loop_eq, group_digits_eq_comma_groups, List.nil_append, hpound,
    Bool.false_and, Bool.false_eq_true, if_false]
  rw [zero_fill_eq _ _ _ (by omega), hprec]
  by_cases hv : value = 0
  · subst hv
    have hnil : comma_groups b [] = [] := (comma_groups_eq_nil_iff b []).mpr rfl
    have hzero : comma_groups b ['0'.toUInt8] = ['0'.toUInt8] := by
      rw [comma_groups, if_pos (by simp; exact b.group_pos)]
    simp [hnil, render_digits, digits_le, hzero]
  · have hne : digits_le b value ≠ [] := by
      rw [Ne, digits_le, List.map_eq_nil_iff, Nat.digits_eq_nil_iff_eq_zero]
      exact hv
    have hlen : 1 ≤ (comma_groups b (digits_le b value)).length :=
      List.length_pos_iff.mpr fun h => hne ((comma_groups_eq_nil_iff b _).mp h)
    have hdl : 1 ≤ (digits_le b value).length := List.length_pos_iff.mpr hne
    rw [show min 1 63 - (comma_groups b (digits_le b value)).length = 0 by omega, List.replicate_zero,
      List.append_nil, render_digits, show 1 - (digits_le b value).length = 0 by omega, List.replicate_zero,
      List.nil_append, List.reverse_reverse]

/-- The grouped digits read back to the value once the commas are dropped. -/
theorem read_integer_buffer_grouped (value : Nat) (b : integer_base) (c : printf_conversion)
    (hg : c.flags.GROUP = true) (hp : c.precision < 0) (hpound : (c.flags.POUND && b.base == 8) = false) :
    read_digits b ((integer_buffer value b c).reverse.filter (· != ','.toUInt8)) = value := by
  rw [integer_buffer_grouped value b c hg hp hpound, List.filter_reverse,
    filter_comma_groups _ _ (by rw [List.mem_reverse]; exact comma_not_mem_render_digits b 1 value),
    List.reverse_reverse, read_render_digits]

/-- With `#` in octal, the leading `0` comes outside the groups: it is put after the grouped
digits with no comma, even when they end with a full group. -/
theorem integer_buffer_grouped_pound_octal (value : Nat) (c : printf_conversion)
    (hg : c.flags.GROUP = true) (hp : c.precision < 0) (hpound : c.flags.POUND = true) (hv : value ≠ 0) :
    (integer_buffer value base_o c).reverse =
      '0'.toUInt8 :: (comma_groups base_o (digits_le base_o value)).reverse := by
  have hprec : (if c.precision < 0 then (1 : Int) else c.precision).toNat = 1 := by
    rw [if_pos hp]
    rfl
  have hne : digits_le base_o value ≠ [] := by
    rw [Ne, digits_le, List.map_eq_nil_iff, Nat.digits_eq_nil_iff_eq_zero]
    exact hv
  have hlen : 1 ≤ (comma_groups base_o (digits_le base_o value)).length :=
    List.length_pos_iff.mpr fun h => hne ((comma_groups_eq_nil_iff base_o _).mp h)
  obtain ⟨d, hd, hd0⟩ := getLast?_digits_le base_o hv
  have htest : ((comma_groups base_o (digits_le base_o value)).isEmpty ||
      (comma_groups base_o (digits_le base_o value)).getLastD 0 != '0'.toUInt8) = true := by
    simp [List.getLastD_eq_getLast?, getLast?_comma_groups, hd, hd0]
  simp only [integer_buffer, hg, digits_loop_eq, group_digits_eq_comma_groups, List.nil_append]
  rw [zero_fill_eq _ _ _ (by omega), hprec,
    show min 1 63 - (comma_groups base_o (digits_le base_o value)).length = 0 by omega,
    List.replicate_zero, List.append_nil, if_pos (by rw [hpound, htest]; rfl), List.reverse_append]
  rfl

/-- `%'d`: grouped, with no precision. -/
def grouped_conversion : printf_conversion := ⟨{ printf_flags.none with GROUP := true }, 0, -1, .INT⟩

/-- `%#'o`: grouped, with `#`, and no precision. -/
def pound_grouped_conversion : printf_conversion :=
  ⟨{ printf_flags.none with GROUP := true, POUND := true }, 0, -1, .INT⟩

theorem read_integer_buffer_grouped_sample :
    read_digits base_d ((integer_buffer 1234567 base_d grouped_conversion).reverse.filter (· != ','.toUInt8)) =
      1234567 :=
  read_integer_buffer_grouped 1234567 base_d grouped_conversion rfl (by decide) rfl

/-- `%#'o` of 511 outputs `0777`. -/
theorem integer_buffer_grouped_pound_octal_511 :
    (integer_buffer 511 base_o pound_grouped_conversion).reverse = "0777".toList.map Char.toUInt8 := by
  rw [integer_buffer_grouped_pound_octal 511 _ rfl (by decide) rfl (by decide)]
  have hd : digits_le base_o 511 = "777".toList.map Char.toUInt8 := by
    simp [digits_le, digit_char, base_o]
  rw [hd, comma_groups, if_pos (by decide)]
  decide

/-! ## The field -/

/-- The sign and `0x` that `format_integer` outputs before the zeros of the field. -/
def sign_and_x (sign x : UInt8) : List UInt8 :=
  (if sign != 0 then [sign] else []) ++ (if x != 0 then ['0'.toUInt8, x] else [])

theorem toNat_clamp (p : Int) : (if p < 0 then 0 else p).toNat = p.toNat := by
  split <;> omega

/-- `format_integer` lays its field out as left spaces, sign and `0x`, zeros, digits and right
spaces, with one padding count for all three. -/
theorem format_integer_eq (value : Nat) (is_signed negative : Bool) (b : integer_base) (c : printf_conversion) :
    let pre := sign_and_x (integer_sign is_signed negative c.flags)
      (if c.flags.POUND && value != 0 then b.x else 0)
    let body := (integer_buffer value b c).reverse
    let pad := (c.width - (pre.length + body.length)).toNat
    format_integer value is_signed negative b c =
      (if !c.flags.MINUS && !c.flags.ZERO then List.replicate pad ' '.toUInt8 else []) ++ pre ++
        (if c.flags.ZERO then List.replicate pad '0'.toUInt8 else []) ++ body ++
        (if c.flags.MINUS then List.replicate pad ' '.toUInt8 else []) := by
  intro pre body pad
  have hpad : (c.width - (integer_buffer value b c).length -
      (if ((if c.flags.POUND && value != 0 then b.x else 0) != 0) = true then 2 else 0) -
      (if (integer_sign is_signed negative c.flags != 0) = true then 1 else 0)).toNat = pad := by
    simp only [pad, pre, body, sign_and_x, List.length_append, List.length_reverse]
    by_cases hs : integer_sign is_signed negative c.flags = 0 <;>
      by_cases hx : (if c.flags.POUND && value != 0 then b.x else 0) = 0 <;>
      simp only [hs, hx, bne_self_eq_false, bne_iff_ne, ne_eq, not_false_eq_true, Bool.false_eq_true,
        if_true, if_false, List.length_nil, List.length_cons] <;> omega
  simp only [format_integer, output_dup, toNat_clamp, hpad, pre, body, sign_and_x, List.append_assoc]

/-- The field's length: the content, or the width if it is wider; but when both `-` and `0` are
set the padding comes twice, as zeros and as trailing spaces. -/
theorem format_integer_length (value : Nat) (is_signed negative : Bool) (b : integer_base)
    (c : printf_conversion) :
    let content := (sign_and_x (integer_sign is_signed negative c.flags)
      (if c.flags.POUND && value != 0 then b.x else 0)).length + (integer_buffer value b c).length
    ((format_integer value is_signed negative b c).length : Int) =
      max c.width content + if c.flags.MINUS && c.flags.ZERO then (c.width - content).toNat else 0 := by
  intro content
  have h := format_integer_eq value is_signed negative b c
  dsimp only at h
  rw [h]
  simp only [List.length_append, List.length_reverse]
  cases hm : c.flags.MINUS <;> cases hz : c.flags.ZERO <;>
    simp only [Bool.not_false, Bool.not_true, Bool.and_self, Bool.and_false, Bool.false_and,
      Bool.false_eq_true, if_true, if_false, List.length_nil, List.length_replicate] <;> omega

theorem format_integer_length_of_not_both (value : Nat) (is_signed negative : Bool) (b : integer_base)
    (c : printf_conversion) (h : ¬(c.flags.MINUS = true ∧ c.flags.ZERO = true)) :
    ((format_integer value is_signed negative b c).length : Int) =
      max c.width ((sign_and_x (integer_sign is_signed negative c.flags)
        (if c.flags.POUND && value != 0 then b.x else 0)).length + (integer_buffer value b c).length) := by
  have hl := format_integer_length value is_signed negative b c
  have hmz : (c.flags.MINUS && c.flags.ZERO) = false := by
    cases hm : c.flags.MINUS <;> cases hz : c.flags.ZERO <;> simp_all
  dsimp only at hl
  rw [hl, hmz, if_neg Bool.false_ne_true, Int.natCast_zero, Int.add_zero]
  push_cast
  rfl

/-- `%-6d`: left-justified in a field of 6. -/
def left_conversion : printf_conversion := ⟨{ printf_flags.none with MINUS := true }, 6, -1, .INT⟩

theorem format_integer_length_of_not_both_sample :
    ((format_integer 42 true false base_d left_conversion).length : Int) =
      max 6 (((sign_and_x (integer_sign true false left_conversion.flags) 0).length : Int) +
        (integer_buffer 42 base_d left_conversion).length) :=
  format_integer_length_of_not_both 42 true false base_d left_conversion (by decide)

/-! ## Argument values -/

theorem bmod_bounds (x : Int) {w : Nat} (hw : w ≤ 64) :
    -2 ^ 63 ≤ x.bmod (2 ^ w) ∧ x.bmod (2 ^ w) < 2 ^ 63 := by
  have h1 := Int.le_bmod (x := x) (m := 2 ^ w) (Nat.two_pow_pos w)
  have h2 := Int.bmod_lt (x := x) (m := 2 ^ w) (Nat.two_pow_pos w)
  have h3 : 2 ^ w ≤ 2 ^ 64 := Nat.pow_le_pow_right (by decide) hw
  generalize 2 ^ w = M at h1 h2 h3 ⊢
  omega

theorem signed_value_bounds (type : printf_type) (args : List printf_arg) :
    -2 ^ 63 ≤ (signed_value type args).1 ∧ (signed_value type args).1 < 2 ^ 63 := by
  cases args with
  | nil => cases type <;> simp [signed_value, va_arg_signed, va_arg_unsigned, SIZE_MAX]
  | cons a args =>
    cases type <;> simp only [signed_value, va_arg_signed, va_arg_unsigned, SIZE_MAX] <;>
      first
      | exact bmod_bounds _ (by decide)
      | omega

/-- The magnitude `value < 0 ? -value : value` that the signed conversions pass on: the absolute
value, also for `INTMAX_MIN`, whose negation wraps to itself and converts to `2^63`. -/
theorem magnitude_eq_natAbs {v : Int} (h : -2 ^ 63 ≤ v ∧ v < 2 ^ 63) :
    ((if v < 0 then -v else v) % 2 ^ 64).toNat = v.natAbs := by
  omega

theorem conversion_output_signed (c : printf_conversion) (conv : UInt8) (args : List printf_arg)
    (hconv : conv = 'd'.toUInt8 ∨ conv = 'i'.toUInt8) :
    conversion_output c conv args =
      (format_integer (signed_value c.type args).1.natAbs true (decide ((signed_value c.type args).1 < 0))
        base_d c, (signed_value c.type args).2) := by
  have hb := signed_value_bounds c.type args
  rcases hs : signed_value c.type args with ⟨v, rest⟩
  rw [hs] at hb
  simp only [conversion_output, if_pos hconv, hs, magnitude_eq_natAbs hb]

theorem conversion_output_unsigned (c : printf_conversion) (conv : UInt8) (args : List printf_arg)
    (hconv : conv = 'o'.toUInt8 ∨ conv = 'u'.toUInt8 ∨ conv = 'x'.toUInt8 ∨ conv = 'X'.toUInt8) :
    conversion_output c conv args =
      (format_integer (unsigned_value c.type args).1 false false (unsigned_base conv) c,
        (unsigned_value c.type args).2) := by
  have hnd : ¬(conv = 'd'.toUInt8 ∨ conv = 'i'.toUInt8) := by
    rcases hconv with rfl | rfl | rfl | rfl <;> decide
  rcases hs : unsigned_value c.type args with ⟨v, rest⟩
  simp only [conversion_output, if_neg hnd, if_pos hconv, hs]

/-! ## Parsing a conversion -/

theorem parse_flags_suffix (flags : printf_flags) (format : List UInt8) :
    (parse_flags flags format).2 <:+ format := by
  induction format generalizing flags with
  | nil => exact List.suffix_refl _
  | cons ch format ih =>
    rw [parse_flags]
    split_ifs <;> first
      | exact (ih _).trans (List.suffix_cons _ _)
      | exact List.suffix_refl _

theorem parse_digits_suffix (n : Int) (format : List UInt8) : (parse_digits n format).2 <:+ format := by
  induction format generalizing n with
  | nil => exact List.suffix_refl _
  | cons ch format ih =>
    rw [parse_digits]
    split_ifs
    · exact (ih _).trans (List.suffix_cons _ _)
    · exact List.suffix_refl _

theorem parse_digits_nonneg {n : Int} (hn : 0 ≤ n) (format : List UInt8) : 0 ≤ (parse_digits n format).1 := by
  induction format generalizing n with
  | nil => exact hn
  | cons ch format ih =>
    rw [parse_digits]
    split_ifs with hd
    · have h0 : '0'.toUInt8.toNat ≤ ch.toNat := by
        simp only [isdigit, Bool.and_eq_true, decide_eq_true_eq] at hd
        exact UInt8.le_iff_toNat_le.mp hd.1
      exact ih (by omega)
    · exact hn

theorem parse_field_suffix (format : List UInt8) (args : List printf_arg) :
    (parse_field format args).2.1 <:+ format := by
  cases format with
  | nil => exact List.suffix_refl _
  | cons ch rest =>
    rw [parse_field]
    split_ifs
    · exact List.suffix_cons _ _
    · exact parse_digits_suffix _ _

theorem parse_field_nonneg {format : List UInt8} (h : '*'.toUInt8 ∉ format) (args : List printf_arg) :
    0 ≤ (parse_field format args).1 := by
  cases format with
  | nil => exact le_refl _
  | cons ch rest =>
    rw [parse_field, if_neg (fun e => h (by rw [← e]; exact List.mem_cons_self))]
    exact parse_digits_nonneg (le_refl _) _

theorem parse_precision_suffix (format : List UInt8) (args : List printf_arg) :
    (parse_precision format args).2.1 <:+ format := by
  cases format with
  | nil => exact List.suffix_refl _
  | cons ch rest =>
    by_cases hd : ch = '.'.toUInt8
    · have hs := parse_field_suffix rest args
      rcases hf : parse_field rest args with ⟨p, f, a⟩
      rw [hf] at hs
      simp only [parse_precision, if_pos hd, hf]
      exact hs.trans (List.suffix_cons _ _)
    · simp only [parse_precision, if_neg hd]
      exact List.suffix_refl _

theorem parse_precision_ge (format : List UInt8) (args : List printf_arg) :
    -1 ≤ (parse_precision format args).1 := by
  cases format with
  | nil => exact le_refl _
  | cons ch rest =>
    by_cases hd : ch = '.'.toUInt8
    · rcases hf : parse_field rest args with ⟨p, f, a⟩
      simp only [parse_precision, if_pos hd, hf]
      split_ifs <;> omega
    · simp only [parse_precision, if_neg hd]
      exact le_refl _

theorem parse_type_suffix (format : List UInt8) : (parse_type format).2 <:+ format := by
  cases format with
  | nil => exact List.suffix_refl _
  | cons ch rest =>
    simp only [parse_type]
    split_ifs
    · cases rest with
      | nil => exact List.suffix_cons _ _
      | cons ch' rest' =>
        dsimp only
        split_ifs
        · exact (List.suffix_cons _ _).trans (List.suffix_cons _ _)
        · exact List.suffix_cons _ _
    · exact List.suffix_cons _ _
    · cases rest with
      | nil => exact List.suffix_cons _ _
      | cons ch' rest' =>
        dsimp only
        split_ifs
        · exact (List.suffix_cons _ _).trans (List.suffix_cons _ _)
        · exact List.suffix_cons _ _
    · exact List.suffix_cons _ _
    · exact List.suffix_cons _ _
    · exact List.suffix_refl _

theorem parse_conversion_suffix (format : List UInt8) (args : List printf_arg) :
    (parse_conversion format args).2.1 <:+ format := by
  have h1 := parse_flags_suffix printf_flags.none format
  rcases hf : parse_flags printf_flags.none format with ⟨flags, f1⟩
  rw [hf] at h1
  have h2 := parse_field_suffix f1 args
  rcases hw : parse_field f1 args with ⟨w, f2, a2⟩
  rw [hw] at h2
  have h3 := parse_precision_suffix f2 a2
  rcases hp : parse_precision f2 a2 with ⟨p, f3, a3⟩
  rw [hp] at h3
  have h4 := parse_type_suffix f3
  rcases ht : parse_type f3 with ⟨t, f4⟩
  rw [ht] at h4
  simp only [parse_conversion, hf, hw, hp, ht]
  exact h4.trans (h3.trans (h2.trans h1))

/-- What `parse_conversion` guarantees of a conversion: `+` overrides space, the precision is a
number or `-1`, a precision turns `0` off, and `-` with `0` only comes from a negative `*` width
with no precision. -/
theorem parse_conversion_flags (format : List UInt8) (args : List printf_arg) :
    let c := (parse_conversion format args).1
    (c.flags.PLUS = true → c.flags.SPACE = false) ∧ -1 ≤ c.precision ∧
      (0 ≤ c.precision → c.flags.ZERO = false) ∧
      (c.flags.MINUS = true → c.flags.ZERO = true → c.precision = -1 ∧ '*'.toUInt8 ∈ format) := by
  have h1 := parse_flags_suffix printf_flags.none format
  rcases hf : parse_flags printf_flags.none format with ⟨flags, f1⟩
  rw [hf] at h1
  have hstar : '*'.toUInt8 ∉ format → 0 ≤ (parse_field f1 args).1 := fun h =>
    parse_field_nonneg (fun hm => h (h1.subset hm)) args
  rcases hw : parse_field f1 args with ⟨w, f2, a2⟩
  rw [hw] at hstar
  have hneg : w < 0 → '*'.toUInt8 ∈ format := fun hw =>
    Classical.byContradiction fun h => absurd (hstar h) (by omega)
  clear hstar
  have hp := parse_precision_ge f2 a2
  rcases hpr : parse_precision f2 a2 with ⟨p, f3, a3⟩
  rw [hpr] at hp
  rcases ht : parse_type f3 with ⟨t, f4⟩
  simp only [parse_conversion, hf, hw, hpr, ht]
  refine ⟨?_, hp, ?_, ?_⟩ <;> split_ifs <;> simp_all <;> omega

theorem vprintf_step_suffix {ch : UInt8} {format rest out : List UInt8} {args args' : List printf_arg}
    (h : vprintf_step ch format args = some (out, rest, args')) : rest <:+ format := by
  unfold vprintf_step at h
  split_ifs at h with h0 hp
  · cases h
    exact List.suffix_refl _
  · cases format with
    | nil =>
      simp only at h
      cases h
      exact List.suffix_refl _
    | cons ch' format' =>
      simp only at h
      split_ifs at h
      · cases h
        exact List.suffix_cons _ _
      · have hs := parse_conversion_suffix (ch' :: format') args
        rcases hpc : parse_conversion (ch' :: format') args with ⟨c, f, a⟩
        rw [hpc] at h hs
        simp only [Option.some.injEq, Prod.mk.injEq] at h
        rw [← h.2.1]
        exact (List.tail_suffix f).trans hs

theorem vprintf_loop_congr (fuel fuel' : Nat) (format : List UInt8) (args : List printf_arg)
    (h : format.length < fuel) (h' : format.length < fuel') :
    vprintf_loop fuel format args = vprintf_loop fuel' format args := by
  induction fuel generalizing fuel' format args with
  | zero => omega
  | succ fuel ih =>
    obtain ⟨fuel', rfl⟩ : ∃ k, fuel' = k + 1 := ⟨fuel' - 1, by omega⟩
    cases format with
    | nil => rfl
    | cons ch format =>
      simp only [List.length_cons] at h h'
      simp only [vprintf_loop]
      rcases hs : vprintf_step ch format args with _ | ⟨out, rest, args'⟩
      · rfl
      · have hl := (vprintf_step_suffix hs).length_le
        simp only
        rw [ih fuel' rest args' (by omega) (by omega)]

theorem __vprintf_nil (args : List printf_arg) : __vprintf [] args = [] := rfl

theorem __vprintf_step {ch : UInt8} {format rest out : List UInt8} {args args' : List printf_arg}
    (h : vprintf_step ch format args = some (out, rest, args')) :
    __vprintf (ch :: format) args = out ++ __vprintf rest args' := by
  have hl := (vprintf_step_suffix h).length_le
  rw [__vprintf, List.length_cons, vprintf_loop, h]
  simp only
  rw [vprintf_loop_congr _ (rest.length + 1) rest args' (by omega) (by omega), __vprintf]

theorem vprintf_step_literal {ch : UInt8} (h0 : ch ≠ 0) (hp : ch ≠ '%'.toUInt8) (format : List UInt8)
    (args : List printf_arg) : vprintf_step ch format args = some ([ch], format, args) := by
  unfold vprintf_step
  rw [if_neg h0, if_pos hp]

theorem vprintf_step_percent (format : List UInt8) (args : List printf_arg) :
    vprintf_step '%'.toUInt8 ('%'.toUInt8 :: format) args = some (['%'.toUInt8], format, args) := by
  unfold vprintf_step
  rw [if_neg (by decide), if_neg (by decide)]
  simp only [if_true]

theorem vprintf_step_conversion {ch conv : UInt8} {format rest : List UInt8} {args args' : List printf_arg}
    {c : printf_conversion} (hch : ch ≠ '%'.toUInt8)
    (hparse : parse_conversion (ch :: format) args = (c, conv :: rest, args')) :
    vprintf_step '%'.toUInt8 (ch :: format) args =
      some ((conversion_output c conv args').1, rest, (conversion_output c conv args').2) := by
  unfold vprintf_step
  rw [if_neg (by decide), if_neg (by decide)]
  simp only [if_neg hch, hparse, List.headD_cons, List.tail_cons]

/-! ## A `0` flag with a negative `*` width -/

theorem parse_conversion_zero_star (w : Int) (args : List printf_arg) (hw : -2 ^ 31 < w) (hneg : w < 0) :
    parse_conversion ['0'.toUInt8, '*'.toUInt8, 'd'.toUInt8] (.int w :: args) =
      (⟨⟨true, false, false, false, true, false⟩, -w, -1, .INT⟩, ['d'.toUInt8], args) := by
  have hb : w.bmod (2 ^ 32) = w := Int.bmod_eq_of_le (by omega) (by omega)
  have hb' : (-w).bmod (2 ^ 32) = -w := Int.bmod_eq_of_le (by omega) (by omega)
  have hflags : parse_flags printf_flags.none ['0'.toUInt8, '*'.toUInt8, 'd'.toUInt8] =
      (⟨false, false, false, false, true, false⟩, ['*'.toUInt8, 'd'.toUInt8]) := by decide
  have hfield : parse_field ['*'.toUInt8, 'd'.toUInt8] (.int w :: args) =
      (w.bmod (2 ^ 32), ['d'.toUInt8], args) := rfl
  have hprec : parse_precision ['d'.toUInt8] args = (-1, ['d'.toUInt8], args) := rfl
  have htype : parse_type ['d'.toUInt8] = (.INT, ['d'.toUInt8]) := by decide
  simp only [parse_conversion, hflags, hfield, hprec, htype, hb, hb', if_pos hneg]
  simp

/-- The sign `%d` outputs before a value when neither `+` nor space is given. -/
def minus_sign (v : Int) : List UInt8 := if v < 0 then ['-'.toUInt8] else []

/-- What `%d` outputs for `v` with no flag, width or precision: its sign and decimal digits. -/
def signed_decimal (v : Int) : List UInt8 := minus_sign v ++ render_digits base_d 1 v.natAbs

/-- The padding that fills a field of `width` around `content`. -/
def field_pad (width : Int) (content : List UInt8) : Nat := (width - content.length).toNat

theorem printf_zero_flag_negative_width_pads_twice (w v : Int) (hw : -2 ^ 31 < w ∧ w < 0)
    (hv : -2 ^ 31 ≤ v ∧ v < 2 ^ 31) :
    __vprintf ['%'.toUInt8, '0'.toUInt8, '*'.toUInt8, 'd'.toUInt8] [.int w, .int v] =
        minus_sign v ++ List.replicate (field_pad (-w) (signed_decimal v)) '0'.toUInt8 ++
          render_digits base_d 1 v.natAbs ++ List.replicate (field_pad (-w) (signed_decimal v)) ' '.toUInt8 ∧
      ((__vprintf ['%'.toUInt8, '0'.toUInt8, '*'.toUInt8, 'd'.toUInt8] [.int w, .int v]).length : Int) =
        max (-w) (signed_decimal v).length + field_pad (-w) (signed_decimal v) := by
  set c : printf_conversion := ⟨⟨true, false, false, false, true, false⟩, -w, -1, .INT⟩ with hc
  have hbv : v.bmod (2 ^ 32) = v := Int.bmod_eq_of_le (by omega) (by omega)
  have hstep := vprintf_step_conversion (c := c) (by decide)
    (parse_conversion_zero_star w [.int v] hw.1 hw.2)
  have hout : conversion_output c 'd'.toUInt8 [.int v] =
      (format_integer v.natAbs true (decide (v < 0)) base_d c, []) := by
    rw [conversion_output_signed c _ _ (Or.inl rfl)]
    simp only [hc, signed_value, va_arg_signed, printf_arg.value, hbv]
  have hbody : (integer_buffer v.natAbs base_d c).reverse = render_digits base_d 1 v.natAbs := by
    rw [integer_buffer_reverse _ _ _ rfl]
    rfl
  have hfield : format_integer v.natAbs true (decide (v < 0)) base_d c =
      minus_sign v ++ List.replicate (field_pad (-w) (signed_decimal v)) '0'.toUInt8 ++
        render_digits base_d 1 v.natAbs ++ List.replicate (field_pad (-w) (signed_decimal v)) ' '.toUInt8 := by
    have h := format_integer_eq v.natAbs true (decide (v < 0)) base_d c
    dsimp only at h
    rw [h, hbody]
    have hm : '-'.toUInt8 ≠ 0 := by decide
    by_cases hn : v < 0
    · simp [hn, hm, integer_sign, sign_and_x, minus_sign, signed_decimal, field_pad, c]
      rw [Int.add_comm 1]
    · simp [hn, integer_sign, sign_and_x, minus_sign, signed_decimal, field_pad, c]
  have hvp : __vprintf ['%'.toUInt8, '0'.toUInt8, '*'.toUInt8, 'd'.toUInt8] [.int w, .int v] =
      minus_sign v ++ List.replicate (field_pad (-w) (signed_decimal v)) '0'.toUInt8 ++
        render_digits base_d 1 v.natAbs ++ List.replicate (field_pad (-w) (signed_decimal v)) ' '.toUInt8 := by
    rw [__vprintf_step hstep, hout, __vprintf_nil, List.append_nil, hfield]
  refine ⟨hvp, ?_⟩
  rw [hvp]
  simp only [List.length_append, List.length_replicate, field_pad, signed_decimal]
  omega

theorem printf_zero_flag_negative_width_pads_twice_sample :
    ((-2 ^ 31 : Int) < -5 ∧ (-5 : Int) < 0) ∧ ((-2 ^ 31 : Int) ≤ 1 ∧ (1 : Int) < 2 ^ 31) ∧
      __vprintf ['%'.toUInt8, '0'.toUInt8, '*'.toUInt8, 'd'.toUInt8] [.int (-5), .int 1] =
        "00001    ".toList.map Char.toUInt8 := by
  refine ⟨by decide, by decide, ?_⟩
  rw [(printf_zero_flag_negative_width_pads_twice (-5) 1 (by decide) (by decide)).1]
  decide +kernel


/-! ## Zero-padded octal fields -/

theorem replicate_zero_render_digits (b : integer_base) (w p n : Nat) :
    List.replicate (w - (render_digits b p n).length) '0'.toUInt8 ++ render_digits b p n =
      render_digits b (max w p) n := by
  rw [length_render_digits, render_digits, render_digits, ← List.append_assoc, List.replicate_append_replicate]
  congr 2
  omega

/-- A conversion with only the `0` flag and no precision outputs the value with zeros before it
up to the width. -/
theorem format_integer_zero_pad (value : Nat) (b : integer_base) (c : printf_conversion)
    (hf : c.flags = ⟨false, false, false, false, true, false⟩) (hp : c.precision < 0) :
    format_integer value false false b c = render_digits b (max c.width.toNat 1) value := by
  have hbody : (integer_buffer value b c).reverse = render_digits b 1 value := by
    rw [integer_buffer_reverse _ _ _ (by rw [hf]), hf, rendered_precision, if_pos hp]
    rfl
  have h := format_integer_eq value false false b c
  dsimp only at h
  have hpre : sign_and_x (integer_sign false false c.flags) (if c.flags.POUND && value != 0 then b.x else 0) = [] := by
    simp [hf, integer_sign, sign_and_x]
  rw [h, hbody, hpre, ← replicate_zero_render_digits]
  simp only [hf, List.length_nil, Nat.cast_zero, Int.zero_add, Bool.not_false, Bool.not_true,
    Bool.and_false, Bool.false_eq_true, if_true, if_false, List.append_nil, List.nil_append]
  rw [show (c.width - ((render_digits b 1 value).length : Int)).toNat =
    c.width.toNat - (render_digits b 1 value).length by omega]

/-- `snprintf (buf, w + 1, "%0<w>o", v)` stores `v` as an `unsigned int` in `w` octal digits and a
null byte, when the format's flags and width parse to `0` and `w` and the value has at most `w`
digits. -/
theorem snprintf_zero_octal {rest : List UInt8} {w : Nat} {v : Int} (hw : 0 < w)
    (hlen : (Nat.digits 8 (v % 2 ^ 32).toNat).length ≤ w)
    (hparse : parse_conversion ('0'.toUInt8 :: rest) [.int v] =
      (⟨⟨false, false, false, false, true, false⟩, w, -1, .INT⟩, ['o'.toUInt8], [.int v])) :
    (snprintf (w + 1) ('%'.toUInt8 :: '0'.toUInt8 :: rest) [.int v]).1 =
      render_digits base_o w (v % 2 ^ 32).toNat ++ [0] := by
  set c : printf_conversion := ⟨⟨false, false, false, false, true, false⟩, w, -1, .INT⟩
  have hstep := vprintf_step_conversion (c := c) (by decide) hparse
  have hout : conversion_output c 'o'.toUInt8 [.int v] = (render_digits base_o w (v % 2 ^ 32).toNat, []) := by
    rw [conversion_output_unsigned c _ _ (Or.inl rfl), format_integer_zero_pad _ _ _ rfl (by simp [c])]
    simp only [c, Int.toNat_natCast]
    rw [show max w 1 = w by omega]
    rfl
  have hrender : (render_digits base_o w (v % 2 ^ 32).toNat).length = w := by
    rw [length_render_digits, length_digits_le]
    exact max_eq_left hlen
  simp only [snprintf, vsnprintf, __vprintf_step hstep, hout, __vprintf_nil, List.append_nil]
  rw [if_pos (Nat.succ_pos w), Nat.add_sub_cancel, List.take_of_length_le (by rw [hrender])]

end Pintos
