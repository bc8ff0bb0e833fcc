import Pintos.Foundations.Words
import Mathlib.Data.List.GetD

/-! # Strings (`lib/string.c`)

A string is the bytes of a kernel buffer up to its first null byte.  The buffer is modelled as
the list of bytes written into it; every position past the list reads as a null byte.  The
`delimiters` of `strchr` and `strtok_r` are a string given the same way, from its first byte on.
`strtok_r` works in place: it returns the position where a token starts, writes a null byte over
the delimiter that ends the token, and keeps the position after it in `*save_ptr`.

On a buffer with no null byte, the token a call returns is the first maximal run with no
delimiter, the first of the `spans` of the rest of the string, and the next call goes on with the
runs after it (`strtok_r_none`, `strtok_r_some`).
-/

namespace Pintos
set_option autoImplicit false
set_option maxHeartbeats 250000
set_option maxRecDepth 120000

open Words

/-- The byte at position `p` of the buffer. -/
def byte_at (b : List UInt8) (p : Nat) : UInt8 := b.getD p 0

/-- `strchr (string, c)`: the offset of the first `c` in `string`, which is that of its null
byte when `c` is null; `none` for `NULL`. -/
def strchr : List UInt8 → UInt8 → Option Nat
  | [], c => if c = 0 then some 0 else none
  | d :: ds, c => if d = c then some 0 else if d = 0 then none else (strchr ds c).map (· + 1)

/-- `strchr (delimiters, c) != NULL`: one of the delimiters, or the null byte every string
contains. -/
def is_delimiter (delimiters : List UInt8) (c : UInt8) : Bool := (strchr delimiters c).isSome

theorem byte_at_of_le (b : List UInt8) (p : Nat) (h : b.length ≤ p) : byte_at b p = 0 := by
  simp [byte_at, List.getD_eq_getElem?_getD, List.getElem?_eq_none h]

theorem lt_length_of_byte_at_ne (b : List UInt8) (p : Nat) (h : byte_at b p ≠ 0) : p < b.length := by
  by_contra hle
  exact h (byte_at_of_le b p (by omega))

@[simp] theorem is_delimiter_zero (delimiters : List UInt8) : is_delimiter delimiters 0 = true := by
  induction delimiters with
  | nil => rfl
  | cons d ds ih =>
    unfold is_delimiter at ih ⊢
    by_cases hd : d = 0
    · simp [strchr, hd]
    · simp [strchr, hd, ih]

theorem ne_zero_of_not_delimiter {delimiters : List UInt8} {c : UInt8} (h : (!is_delimiter delimiters c) = true) :
    c ≠ 0 := by
  rintro rfl
  simp at h

theorem is_delimiter_iff {delimiters : List UInt8} (hd : 0 ∉ delimiters) {c : UInt8} (hc : c ≠ 0) :
    is_delimiter delimiters c = true ↔ c ∈ delimiters := by
  induction delimiters with
  | nil => simp [is_delimiter, strchr, hc]
  | cons d ds ih =>
    have hd0 : d ≠ 0 := fun h => hd (h ▸ List.mem_cons_self)
    rw [List.mem_cons, ← ih (fun h => hd (List.mem_cons_of_mem d h))]
    by_cases hdc : d = c
    · simp [is_delimiter, strchr, hdc]
    · simp [is_delimiter, strchr, hdc, hd0, Ne.symm hdc]

/-- The first loop of `strtok_r`: skip the delimiters from `s`.  Where it stops, and whether
that is the null byte, where it returns `NULL`. -/
def skip_delimiters (b : List UInt8) (s : Nat) (delimiters : List UInt8) : Nat × Bool :=
  if is_delimiter delimiters (byte_at b s) then
    if byte_at b s = 0 then (s, true) else skip_delimiters b (s + 1) delimiters
  else (s, false)
termination_by b.length - s
decreasing_by
  have := lt_length_of_byte_at_ne b s ‹_›
  omega

/-- The second loop of `strtok_r`: the first delimiter from `s`. -/
def skip_token (b : List UInt8) (s : Nat) (delimiters : List UInt8) : Nat :=
  if !is_delimiter delimiters (byte_at b s) then skip_token b (s + 1) delimiters else s
termination_by b.length - s
decreasing_by
  have := lt_length_of_byte_at_ne b s (ne_zero_of_not_delimiter ‹_›)
  omega

/-- `strtok_r (s, delimiters, &save_ptr)`, the scan starting at `s` (the argument, or
`*save_ptr` when the argument is null): the buffer, the new `*save_ptr`, and the token (`none`
for `NULL`). -/
def strtok_r (b : List UInt8) (s : Nat) (delimiters : List UInt8) : List UInt8 × Nat × Option Nat :=
  match skip_delimiters b s delimiters with
  | (s, true) => (b, s, none)
  | (s, false) =>
    let token := s
    let s := skip_token b token delimiters
    if byte_at b s ≠ 0 then (b.set s 0, s + 1, some token) else (b, s, some token)

/-- `strtok_r (s, delimiters, &save_ptr)` and then `strtok_r (NULL, delimiters, &save_ptr)`,
`n` calls in all: what each returns, and the buffer after the last. -/
def strtok_r_calls (delimiters : List UInt8) : Nat → List UInt8 → Nat → List (Option Nat) × List UInt8
  | 0, b, _ => ([], b)
  | n + 1, b, s =>
    let r := strtok_r b s delimiters
    let rest := strtok_r_calls delimiters n r.1 r.2.1
    (r.2.2 :: rest.1, rest.2)

def strlen (b : List UInt8) (s : Nat) : Nat :=
  if byte_at b s = 0 then 0 else strlen b (s + 1) + 1
termination_by b.length - s
decreasing_by
  have := lt_length_of_byte_at_ne b s ‹_›
  omega

/-! ## Reading the buffer -/

/-- No null byte inside the list from `s` on: the string there runs to the end of the list. -/
def NoNull (b : List UInt8) (s : Nat) : Prop := ∀ j, s ≤ j → j < b.length → byte_at b j ≠ 0

/-- The string at `t` is `w`: its bytes, then the null byte. -/
def TokenAt (b : List UInt8) (t : Nat) (w : List UInt8) : Prop :=
  ∀ j, j ≤ w.length → byte_at b (t + j) = (w ++ [0]).getD j 0

theorem drop_eq_byte_at_cons (b : List UInt8) (s : Nat) (h : s < b.length) :
    b.drop s = byte_at b s :: b.drop (s + 1) := by
  rw [List.drop_eq_getElem_cons h, byte_at, List.getD_eq_getElem?_getD, List.getElem?_eq_getElem h,
    Option.getD_some]

theorem NoNull.mono {b : List UInt8} {s s' : Nat} (h : NoNull b s) (hs : s ≤ s') : NoNull b s' :=
  fun j hj hjl => h j (by omega) hjl

theorem noNull_of_forall {b : List UInt8} (h : ∀ c ∈ b, c ≠ 0) (s : Nat) : NoNull b s := by
  intro j _ hj
  rw [byte_at, List.getD_eq_getElem?_getD, List.getElem?_eq_getElem hj, Option.getD_some]
  exact h _ (List.getElem_mem hj)

theorem byte_at_set_ne (b : List UInt8) (e j : Nat) (v : UInt8) (h : j ≠ e) :
    byte_at (b.set e v) j = byte_at b j := by
  simp only [byte_at, List.getD_eq_getElem?_getD, List.getElem?_set_ne (Ne.symm h)]

theorem byte_at_take_drop (b : List UInt8) (t n j : Nat) (hj : j < n) :
    ((b.drop t).take n).getD j 0 = byte_at b (t + j) := by
  simp only [byte_at, List.getD_eq_getElem?_getD, List.getElem?_take, if_pos hj, List.getElem?_drop]

theorem mem_take_drop {b : List UInt8} {t n : Nat} {c : UInt8} (h : c ∈ (b.drop t).take n) :
    ∃ j, t ≤ j ∧ j < t + n ∧ byte_at b j = c := by
  obtain ⟨i, hi, rfl⟩ := List.mem_iff_getElem.mp h
  have hin : i < n := Nat.lt_of_lt_of_le hi (List.length_take_le _ _)
  refine ⟨t + i, by omega, by omega, ?_⟩
  rw [← byte_at_take_drop b t n i hin, List.getD_eq_getElem?_getD, List.getElem?_eq_getElem hi, Option.getD_some]

theorem ne_zero_of_mem_drop {b : List UInt8} {s : Nat} (hn : NoNull b s) {c : UInt8} (hc : c ∈ b.drop s) :
    c ≠ 0 := by
  rw [← List.take_length (l := b.drop s)] at hc
  obtain ⟨j, hsj, hj, rfl⟩ := mem_take_drop hc
  exact hn j hsj (by simp at hj; omega)

/-! ## The two loops -/

theorem skip_delimiters_fst_ge (b : List UInt8) (s : Nat) (delimiters : List UInt8) :
    s ≤ (skip_delimiters b s delimiters).1 := by
  fun_induction skip_delimiters b s delimiters with
  | case1 s => exact Nat.le_refl s
  | case2 s _ _ ih => omega
  | case3 s => exact Nat.le_refl s

theorem skip_delimiters_fst_le (b : List UInt8) (s : Nat) (delimiters : List UInt8) (hs : s ≤ b.length) :
    (skip_delimiters b s delimiters).1 ≤ b.length := by
  fun_induction skip_delimiters b s delimiters with
  | case1 s => exact hs
  | case2 s _ h0 ih => exact ih (lt_length_of_byte_at_ne b s h0)
  | case3 s => exact hs

theorem skip_delimiters_token (b : List UInt8) (s : Nat) (delimiters : List UInt8)
    (h : (skip_delimiters b s delimiters).2 = false) :
    (!is_delimiter delimiters (byte_at b (skip_delimiters b s delimiters).1)) = true := by
  fun_induction skip_delimiters b s delimiters with
  | case1 s => simp at h
  | case2 s _ _ ih => exact ih h
  | case3 s hd => simpa using hd

theorem skip_token_ge (b : List UInt8) (q : Nat) (delimiters : List UInt8) : q ≤ skip_token b q delimiters := by
  fun_induction skip_token b q delimiters with
  | case1 q _ ih => omega
  | case2 q => exact Nat.le_refl q

theorem skip_token_le (b : List UInt8) (q : Nat) (delimiters : List UInt8) (hq : q ≤ b.length) :
    skip_token b q delimiters ≤ b.length := by
  fun_induction skip_token b q delimiters with
  | case1 q hd ih => exact ih (lt_length_of_byte_at_ne b q (ne_zero_of_not_delimiter hd))
  | case2 q => exact hq

theorem skip_token_gt (b : List UInt8) (q : Nat) (delimiters : List UInt8)
    (h : (!is_delimiter delimiters (byte_at b q)) = true) : q < skip_token b q delimiters := by
  rw [skip_token, if_pos h]
  have := skip_token_ge b (q + 1) delimiters
  omega

theorem skip_token_stop (b : List UInt8) (q : Nat) (delimiters : List UInt8) :
    is_delimiter delimiters (byte_at b (skip_token b q delimiters)) = true := by
  fun_induction skip_token b q delimiters with
  | case1 q _ ih => exact ih
  | case2 q hd => simpa using hd

theorem skip_token_not_delimiter (b : List UInt8) (q : Nat) (delimiters : List UInt8) :
    ∀ j, q ≤ j → j < skip_token b q delimiters → is_delimiter delimiters (byte_at b j) = false := by
  fun_induction skip_token b q delimiters with
  | case1 q hd ih =>
    intro j hj hje
    rcases Nat.eq_or_lt_of_le hj with rfl | hj'
    · simpa using hd
    · exact ih j hj' hje
  | case2 q => intro j hj hje; omega

/-! ## One call -/

theorem strtok_r_of_end {b : List UInt8} {s : Nat} {delimiters : List UInt8}
    (h : (skip_delimiters b s delimiters).2 = true) :
    strtok_r b s delimiters = (b, (skip_delimiters b s delimiters).1, none) := by
  unfold strtok_r
  rcases hr : skip_delimiters b s delimiters with ⟨p, flag⟩
  rw [hr] at h
  dsimp only at h
  subst h
  rfl

/-- A call whose first loop stops at the token's first byte `p`: the token ends at the first
delimiter `e` from there, which becomes the null byte unless it is one already. -/
theorem strtok_r_of_token {b : List UInt8} {s : Nat} {delimiters : List UInt8}
    (h : (skip_delimiters b s delimiters).2 = false) :
    strtok_r b s delimiters =
      if byte_at b (skip_token b (skip_delimiters b s delimiters).1 delimiters) ≠ 0 then
        (b.set (skip_token b (skip_delimiters b s delimiters).1 delimiters) 0,
          skip_token b (skip_delimiters b s delimiters).1 delimiters + 1, some (skip_delimiters b s delimiters).1)
      else (b, skip_token b (skip_delimiters b s delimiters).1 delimiters, some (skip_delimiters b s delimiters).1) := by
  unfold strtok_r
  rcases hr : skip_delimiters b s delimiters with ⟨p, flag⟩
  rw [hr] at h
  dsimp only at h
  subst h
  rfl

theorem strtok_r_advance (b : List UInt8) (s : Nat) (delimiters : List UInt8) (t : Nat)
    (h : (strtok_r b s delimiters).2.2 = some t) :
    s < (strtok_r b s delimiters).2.1 ∧ (strtok_r b s delimiters).2.1 ≤ b.length ∧
      (strtok_r b s delimiters).1.length = b.length := by
  cases hflag : (skip_delimiters b s delimiters).2 with
  | true => rw [strtok_r_of_end hflag] at h; cases h
  | false =>
    have htok := skip_delimiters_token b s delimiters hflag
    have hge := skip_delimiters_fst_ge b s delimiters
    have hplt := lt_length_of_byte_at_ne b _ (ne_zero_of_not_delimiter htok)
    have hgt := skip_token_gt b _ delimiters htok
    have hle := skip_token_le b _ delimiters (Nat.le_of_lt hplt)
    rw [strtok_r_of_token hflag]
    by_cases hend : byte_at b (skip_token b (skip_delimiters b s delimiters).1 delimiters) ≠ 0
    · rw [if_pos hend]
      dsimp only
      exact ⟨by omega, lt_length_of_byte_at_ne b _ hend, List.length_set⟩
    · rw [if_neg hend]
      dsimp only
      exact ⟨by omega, hle, rfl⟩

/-- A call keeps the length of the buffer and leaves `*save_ptr` between where it started and
the end of the buffer. -/
theorem strtok_r_bounds (b : List UInt8) (s : Nat) (delimiters : List UInt8) (hs : s ≤ b.length) :
    s ≤ (strtok_r b s delimiters).2.1 ∧ (strtok_r b s delimiters).2.1 ≤ b.length ∧
      (strtok_r b s delimiters).1.length = b.length := by
  cases ht : (strtok_r b s delimiters).2.2 with
  | some t =>
    obtain ⟨h1, h2, h3⟩ := strtok_r_advance b s delimiters t ht
    exact ⟨Nat.le_of_lt h1, h2, h3⟩
  | none =>
    -- only the first loop's stop at the null byte returns `NULL`
    cases hflag : (skip_delimiters b s delimiters).2 with
    | true =>
      rw [strtok_r_of_end hflag]
      exact ⟨skip_delimiters_fst_ge b s delimiters, skip_delimiters_fst_le b s delimiters hs, rfl⟩
    | false =>
      rw [strtok_r_of_token hflag] at ht
      by_cases hend : byte_at b (skip_token b (skip_delimiters b s delimiters).1 delimiters) ≠ 0
      · rw [if_pos hend] at ht
        simp at ht
      · rw [if_neg hend] at ht
        simp at ht

/-- A call writes only over a delimiter that is not the null byte, from where it started and
before the new `*save_ptr`. -/
theorem strtok_r_writes (b : List UInt8) (s : Nat) (delimiters : List UInt8) {j : Nat}
    (h : byte_at (strtok_r b s delimiters).1 j ≠ byte_at b j) :
    s ≤ j ∧ j < (strtok_r b s delimiters).2.1 ∧ byte_at b j ≠ 0 ∧ is_delimiter delimiters (byte_at b j) = true := by
  cases hflag : (skip_delimiters b s delimiters).2 with
  | true =>
    rw [strtok_r_of_end hflag] at h
    exact absurd rfl h
  | false =>
    have hge := skip_delimiters_fst_ge b s delimiters
    have htg := skip_token_ge b (skip_delimiters b s delimiters).1 delimiters
    rw [strtok_r_of_token hflag] at h ⊢
    by_cases hend : byte_at b (skip_token b (skip_delimiters b s delimiters).1 delimiters) ≠ 0
    · rw [if_pos hend] at h ⊢
      have hj : j = skip_token b (skip_delimiters b s delimiters).1 delimiters := by
        by_contra hne
        exact h (byte_at_set_ne b _ j 0 hne)
      subst hj
      exact ⟨by omega, Nat.lt_succ_self _, hend, skip_token_stop b _ delimiters⟩
    · rw [if_neg hend] at h
      exact absurd rfl h

/-! ## The runs of the string -/

section Spans

variable (b : List UInt8) (delimiters : List UInt8)

/-- The first loop skips delimiters only: the runs from where it starts are those from where
it stops. -/
theorem skip_delimiters_spans (s : Nat) (hs : s ≤ b.length) (hn : NoNull b s) :
    ((skip_delimiters b s delimiters).2 = true ↔ (skip_delimiters b s delimiters).1 = b.length) ∧
      spans (is_delimiter delimiters) (b.drop s) =
        (spans (is_delimiter delimiters) (b.drop (skip_delimiters b s delimiters).1)).map
          (shift ((skip_delimiters b s delimiters).1 - s)) := by
  fun_induction skip_delimiters b s delimiters with
  | case1 s hd h0 =>
    have hend : s = b.length := by
      by_contra hne
      exact hn s (Nat.le_refl s) (by omega) h0
    simp [hend]
  | case2 s hd h0 ih =>
    have hlt := lt_length_of_byte_at_ne b s h0
    obtain ⟨h1, h2⟩ := ih (by omega) (hn.mono (Nat.le_succ s))
    have hge := skip_delimiters_fst_ge b (s + 1) delimiters
    refine ⟨h1, ?_⟩
    rw [drop_eq_byte_at_cons b s hlt, spans_cons_of_sep _ hd, h2, map_shift_shift]
    congr 2
    omega
  | case3 s hd =>
    have hne : s ≠ b.length := fun he => by
      rw [he, byte_at_of_le b _ (Nat.le_refl _)] at hd
      simp at hd
    simp [hne]

theorem spans_drop_of_token (t : Nat) (ht : t ≤ b.length)
    (hnd : (!is_delimiter delimiters (byte_at b t)) = true) :
    t < skip_token b t delimiters ∧
      spans (is_delimiter delimiters) (b.drop t) =
        (0, (b.drop t).take (skip_token b t delimiters - t)) ::
          (spans (is_delimiter delimiters) (b.drop (skip_token b t delimiters + 1))).map
            (shift (skip_token b t delimiters + 1 - t)) := by
  have hgt := skip_token_gt b t delimiters hnd
  have hle := skip_token_le b t delimiters ht
  refine ⟨hgt, ?_⟩
  generalize he : skip_token b t delimiters = e at *
  have hlen : ((b.drop t).take (e - t)).length = e - t := by
    simp only [List.length_take, List.length_drop]
    omega
  have hne : (b.drop t).take (e - t) ≠ [] := List.ne_nil_of_length_pos (by omega)
  have hrun : ∀ c ∈ (b.drop t).take (e - t), is_delimiter delimiters c = false := by
    intro c hc
    obtain ⟨j, htj, hje, rfl⟩ := mem_take_drop hc
    exact skip_token_not_delimiter b t delimiters j htj (by rw [he]; omega)
  have hsplit : b.drop t = (b.drop t).take (e - t) ++ b.drop e := by
    have h := List.take_append_drop (e - t) (b.drop t)
    rw [List.drop_drop, Nat.add_sub_cancel' (Nat.le_of_lt hgt)] at h
    exact h.symm
  generalize (b.drop t).take (e - t) = x at *
  rcases Nat.lt_or_ge e b.length with helt | hege
  · -- the token ends at a delimiter of the list
    have hstop : is_delimiter delimiters (byte_at b e) = true := he ▸ skip_token_stop b t delimiters
    rw [hsplit, drop_eq_byte_at_cons b e helt, spans_run_cons _ hne hrun hstop, hlen,
      show e - t + 1 = e + 1 - t by omega]
  · -- the token runs to the end of the list
    rw [hsplit, List.drop_eq_nil_of_le hege, List.append_nil, spans_run _ hne hrun,
      List.drop_eq_nil_of_le (by omega), spans_nil, List.map_nil]

/-- The token `strtok_r` returns, null-terminated in place: the bytes from `p` up to the first
delimiter `e` are as they were, and `e` holds the null byte. -/
theorem tokenAt_of_end {b' : List UInt8} {p e : Nat} (hpe : p ≤ e) (he : e ≤ b.length)
    (hsame : ∀ j, j < e → byte_at b' j = byte_at b j) (h0 : byte_at b' e = 0) :
    TokenAt b' p ((b.drop p).take (e - p)) := by
  have hlen : ((b.drop p).take (e - p)).length = e - p := by
    simp only [List.length_take, List.length_drop]
    omega
  intro j hj
  rw [hlen] at hj
  rcases Nat.eq_or_lt_of_le hj with rfl | hj'
  · rw [List.getD_append_right _ _ _ _ (Nat.le_of_eq hlen), hlen, Nat.sub_self, Nat.add_sub_cancel' hpe, h0]
    rfl
  · rw [List.getD_append _ _ _ _ (by rw [hlen]; exact hj'), byte_at_take_drop b p _ j hj', hsame _ (by omega)]

end Spans

section Strtok

variable (b : List UInt8) (s : Nat) (delimiters : List UInt8) (hs : s ≤ b.length) (hn : NoNull b s)

include hs hn in
theorem strtok_r_none (hw : spans (is_delimiter delimiters) (b.drop s) = []) :
    strtok_r b s delimiters = (b, b.length, none) := by
  obtain ⟨hnull, hspans⟩ := skip_delimiters_spans b delimiters s hs hn
  have hflag : (skip_delimiters b s delimiters).2 = true := by
    by_contra hf
    rw [Bool.not_eq_true] at hf
    have hp := skip_delimiters_fst_le b s delimiters hs
    have := (spans_drop_of_token b delimiters _ hp (skip_delimiters_token b s delimiters hf)).2
    rw [this, List.map_cons] at hspans
    rw [hspans] at hw
    cases hw
  rw [strtok_r_of_end hflag, hnull.mp hflag]

include hs hn in
/-- The next run `w`, at `t` from `s`: `strtok_r` returns where it starts, ends it with a null
byte (over the delimiter after it, if any) and leaves `*save_ptr` after it, at the runs after it. -/
theorem strtok_r_some {t : Nat} {w : List UInt8} {tws : List (Nat × List UInt8)}
    (hw : spans (is_delimiter delimiters) (b.drop s) = (t, w) :: tws) :
    ∃ s' b', strtok_r b s delimiters = (b', s', some (s + t)) ∧ s + t + w.length ≤ s' ∧
      (s + t + w.length < s' ∨ s' = b.length) ∧ s' ≤ b.length ∧
      b'.length = b.length ∧ (∀ j, j ≠ s + t + w.length → byte_at b' j = byte_at b j) ∧
      TokenAt b' (s + t) w ∧ (∀ j < w.length, byte_at b' (s + t + j) ≠ 0) ∧ NoNull b' s' ∧
      tws = (spans (is_delimiter delimiters) (b'.drop s')).map (shift (s' - s)) := by
  obtain ⟨hnull, hspans⟩ := skip_delimiters_spans b delimiters s hs hn
  have hge := skip_delimiters_fst_ge b s delimiters
  have hp := skip_delimiters_fst_le b s delimiters hs
  have hflag : (skip_delimiters b s delimiters).2 = false := by
    by_contra hf
    rw [Bool.not_eq_false, hnull] at hf
    rw [hf, List.drop_length, spans_nil, List.map_nil] at hspans
    rw [hspans] at hw
    cases hw
  obtain ⟨hlt, htok⟩ := spans_drop_of_token b delimiters _ hp (skip_delimiters_token b s delimiters hflag)
  rw [strtok_r_of_token hflag]
  generalize hp_def : (skip_delimiters b s delimiters).1 = p at *
  have hle := skip_token_le b p delimiters hp
  generalize he_def : skip_token b p delimiters = e at *
  rw [htok, List.map_cons, map_shift_shift, hw, List.cons.injEq] at hspans
  obtain ⟨h1, rfl⟩ := hspans
  obtain ⟨ht, rfl⟩ := Prod.mk.inj (h1 : (t, w) = (0 + (p - s), (b.drop p).take (e - p)))
  dsimp only at ht ⊢
  have hpt : s + t = p := by omega
  rw [hpt]
  have hwlen : ((b.drop p).take (e - p)).length = e - p := by
    simp only [List.length_take, List.length_drop]
    omega
  rw [hwlen, Nat.add_sub_cancel' (Nat.le_of_lt hlt)]
  have hbytes : ∀ j < e - p, byte_at b (p + j) ≠ 0 := fun j hj => hn (p + j) (by omega) (by omega)
  by_cases hend : byte_at b e ≠ 0
  · -- a delimiter ends the token: it becomes the null byte, and the scan resumes after it
    have helt := lt_length_of_byte_at_ne b e hend
    have hsame : ∀ j, j ≠ e → byte_at (b.set e 0) j = byte_at b j := fun j hj => byte_at_set_ne b e j 0 hj
    refine ⟨e + 1, b.set e 0, by rw [if_pos hend], by omega, by omega, by omega, List.length_set, hsame,
      tokenAt_of_end b (Nat.le_of_lt hlt) (Nat.le_of_lt helt) (fun j hj => hsame j (by omega)) ?_, fun j hj => ?_,
      fun j hj hjl => ?_, ?_⟩
    · simp [byte_at, List.getD_eq_getElem?_getD, List.getElem?_set_self helt]
    · rw [hsame _ (by omega)]
      exact hbytes j hj
    · rw [hsame _ (by omega)]
      exact hn j (by omega) (by rw [List.length_set] at hjl; exact hjl)
    · rw [List.drop_set_of_lt (Nat.lt_succ_self e), show e + 1 - p + (p - s) = e + 1 - s by omega]
  · -- the token runs to the end of the list
    rw [not_not] at hend
    have he : e = b.length := by
      by_contra hne
      exact hn e (by omega) (by omega) hend
    refine ⟨e, b, by rw [if_neg (not_not.mpr hend)], by omega, by omega, by omega, rfl,
      fun _ _ => rfl, tokenAt_of_end b (Nat.le_of_lt hlt) (by omega) (fun _ _ => rfl) hend, hbytes,
      fun j hj hjl => by omega, ?_⟩
    rw [he, List.drop_length, List.drop_eq_nil_of_le (Nat.le_succ b.length), spans_nil, List.map_nil, List.map_nil]

end Strtok

theorem strlen_eq (b : List UInt8) (t n : Nat) (hnz : ∀ j < n, byte_at b (t + j) ≠ 0)
    (h0 : byte_at b (t + n) = 0) : strlen b t = n := by
  induction n generalizing t with
  | zero =>
    rw [Nat.add_zero] at h0
    rw [strlen, if_pos h0]
  | succ n ih =>
    have hnz0 := hnz 0 (Nat.succ_pos n)
    rw [Nat.add_zero] at hnz0
    rw [strlen, if_neg hnz0, ih (t + 1) (fun j hj => by rw [Nat.add_assoc, Nat.add_comm 1 j]; exact hnz (j + 1) (by omega))
      (by rw [Nat.add_assoc, Nat.add_comm 1 n]; exact h0)]

theorem strlen_of_token (b : List UInt8) (t : Nat) (w : List UInt8) (h : TokenAt b t w)
    (hnz : ∀ j < w.length, byte_at b (t + j) ≠ 0) : strlen b t = w.length := by
  apply strlen_eq b t w.length hnz
  rw [h w.length (Nat.le_refl _), List.getD_append_right _ _ _ _ (Nat.le_refl _), Nat.sub_self]
  rfl

end Pintos
