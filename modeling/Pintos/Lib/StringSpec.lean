import Pintos.Lib.String

/-! # `strtok_r` call after call

`strtok_r (s, delimiters, &save_ptr)` and then `strtok_r (NULL, delimiters, &save_ptr)` again and
again (`strtok_r_calls`) return the positions where the maximal runs of the string with no
delimiter begin, in order, and then `NULL` on every later call; by then each run is
null-terminated in place (`strtok_r_calls_spec`).  The calls write only over delimiters
(`strtok_r_calls_writes`), and they read nothing past the string's null byte: on `s ++ 0 :: rest`
they do what they do on `s` alone and carry `rest` along (`strtok_r_calls_append_null`).
Together this is the tokenization law of `strtok_r_tokenization_law`.
-/

namespace Pintos
set_option autoImplicit false
set_option maxHeartbeats 250000
set_option maxRecDepth 120000

open Words

/-! ## Nothing past the null byte -/

theorem byte_at_append_null (b rest : List UInt8) {j : Nat} (hj : j ≤ b.length) :
    byte_at (b ++ 0 :: rest) j = byte_at b j := by
  rcases Nat.lt_or_ge j b.length with hlt | hge
  · simp only [byte_at, List.getD_eq_getElem?_getD, List.getElem?_append_left hlt]
  · have he : j = b.length := by omega
    subst he
    simp [byte_at, List.getD_eq_getElem?_getD]

theorem byte_at_append_null_of_lt (b rest : List UInt8) {j : Nat} (hj : b.length < j) :
    byte_at (b ++ 0 :: rest) j = byte_at rest (j - b.length - 1) := by
  obtain ⟨k, rfl⟩ : ∃ k, j = b.length + (k + 1) := ⟨j - b.length - 1, by omega⟩
  rw [show b.length + (k + 1) - b.length - 1 = k by omega]
  simp only [byte_at, List.getD_eq_getElem?_getD, List.getElem?_append_right (Nat.le_add_right _ _),
    Nat.add_sub_cancel_left, List.getElem?_cons_succ]

theorem TokenAt.append_null {b : List UInt8} {t : Nat} {w : List UInt8} (h : TokenAt b t w)
    (hend : t + w.length ≤ b.length) (rest : List UInt8) : TokenAt (b ++ 0 :: rest) t w := fun j hj => by
  rw [byte_at_append_null b rest (by omega)]
  exact h j hj

section AppendNull

variable (rest delimiters : List UInt8)

theorem skip_delimiters_append_null (b : List UInt8) (s : Nat) (hs : s ≤ b.length) :
    skip_delimiters (b ++ 0 :: rest) s delimiters = skip_delimiters b s delimiters := by
  fun_induction skip_delimiters b s delimiters with
  | case1 s hd h0 =>
    rw [skip_delimiters.eq_1 (b ++ 0 :: rest), byte_at_append_null b rest hs, if_pos hd, if_pos h0]
  | case2 s hd h0 ih =>
    rw [skip_delimiters.eq_1 (b ++ 0 :: rest), byte_at_append_null b rest hs, if_pos hd, if_neg h0,
      ih (lt_length_of_byte_at_ne b s h0)]
  | case3 s hd =>
    rw [skip_delimiters.eq_1 (b ++ 0 :: rest), byte_at_append_null b rest hs, if_neg hd]

theorem skip_token_append_null (b : List UInt8) (s : Nat) (hs : s ≤ b.length) :
    skip_token (b ++ 0 :: rest) s delimiters = skip_token b s delimiters := by
  fun_induction skip_token b s delimiters with
  | case1 s hd ih =>
    rw [skip_token.eq_1 (b ++ 0 :: rest), byte_at_append_null b rest hs, if_pos hd,
      ih (lt_length_of_byte_at_ne b s (ne_zero_of_not_delimiter hd))]
  | case2 s hd =>
    rw [skip_token.eq_1 (b ++ 0 :: rest), byte_at_append_null b rest hs, if_neg hd]

theorem strtok_r_append_null (b : List UInt8) (s : Nat) (hs : s ≤ b.length) :
    strtok_r (b ++ 0 :: rest) s delimiters =
      ((strtok_r b s delimiters).1 ++ 0 :: rest, (strtok_r b s delimiters).2.1, (strtok_r b s delimiters).2.2) := by
  have hskip := skip_delimiters_append_null rest delimiters b s hs
  cases hflag : (skip_delimiters b s delimiters).2 with
  | true =>
    rw [strtok_r_of_end hflag, strtok_r_of_end (hskip ▸ hflag), hskip]
  | false =>
    have hp := skip_delimiters_fst_le b s delimiters hs
    have he := skip_token_le b _ delimiters hp
    rw [strtok_r_of_token hflag, strtok_r_of_token (hskip ▸ hflag), hskip,
      skip_token_append_null rest delimiters b _ hp, byte_at_append_null b rest he]
    by_cases hend : byte_at b (skip_token b (skip_delimiters b s delimiters).1 delimiters) ≠ 0
    · rw [if_pos hend, if_pos hend, List.set_append_left _ _ (lt_length_of_byte_at_ne b _ hend)]
    · rw [if_neg hend, if_neg hend]

end AppendNull

theorem strtok_r_calls_length (delimiters : List UInt8) :
    ∀ (n : Nat) (b : List UInt8) (s : Nat), s ≤ b.length → (strtok_r_calls delimiters n b s).2.length = b.length
  | 0, _, _, _ => rfl
  | n + 1, b, s, hs => by
    obtain ⟨-, hs', hlen⟩ := strtok_r_bounds b s delimiters hs
    simp only [strtok_r_calls]
    rw [strtok_r_calls_length delimiters n _ _ (hlen ▸ hs'), hlen]

/-- Calls from a position inside a string and the bytes after its null byte: the calls on the
string alone, with those bytes carried along untouched. -/
theorem strtok_r_calls_append_null (rest delimiters : List UInt8) :
    ∀ (n : Nat) (b : List UInt8) (s : Nat), s ≤ b.length →
      strtok_r_calls delimiters n (b ++ 0 :: rest) s =
        ((strtok_r_calls delimiters n b s).1, (strtok_r_calls delimiters n b s).2 ++ 0 :: rest)
  | 0, _, _, _ => rfl
  | n + 1, b, s, hs => by
    obtain ⟨-, hs', hlen⟩ := strtok_r_bounds b s delimiters hs
    simp only [strtok_r_calls, strtok_r_append_null rest delimiters b s hs]
    rw [strtok_r_calls_append_null rest delimiters n _ _ (hlen ▸ hs')]

/-! ## What the calls write -/

/-- Every byte the calls change was a delimiter other than the null byte, at or after where they
started. -/
theorem strtok_r_calls_writes (delimiters : List UInt8) :
    ∀ (n : Nat) (b : List UInt8) (s j : Nat), s ≤ b.length →
      byte_at (strtok_r_calls delimiters n b s).2 j ≠ byte_at b j →
      s ≤ j ∧ j < b.length ∧ byte_at b j ≠ 0 ∧ is_delimiter delimiters (byte_at b j) = true
  | 0, _, _, _, _, h => absurd rfl h
  | n + 1, b, s, j, hs, h => by
    obtain ⟨hs1, hs2, hlen⟩ := strtok_r_bounds b s delimiters hs
    simp only [strtok_r_calls] at h
    by_cases h1 : byte_at (strtok_r b s delimiters).1 j = byte_at b j
    · -- the first call left `j` alone: a later call wrote it, from the first one's `*save_ptr` on
      rw [← h1] at h ⊢
      obtain ⟨h2, h3, h4, h5⟩ := strtok_r_calls_writes delimiters n _ _ j (hlen ▸ hs2) h
      exact ⟨by omega, hlen ▸ h3, h4, h5⟩
    · obtain ⟨h2, h3, h4, h5⟩ := strtok_r_writes b s delimiters h1
      exact ⟨h2, by omega, h4, h5⟩

theorem strtok_r_calls_keeps (delimiters : List UInt8) (n : Nat) (b : List UInt8) (s : Nat) (hs : s ≤ b.length)
    {j : Nat} (hj : j < s ∨ b.length ≤ j) : byte_at (strtok_r_calls delimiters n b s).2 j = byte_at b j := by
  by_contra h
  obtain ⟨h1, h2, -⟩ := strtok_r_calls_writes delimiters n b s j hs h
  omega

/-! ## What the calls return -/

/-- From `*save_ptr = s` on a buffer with no null byte, the calls return where each run left
begins and then `NULL`; each run they return lies inside the buffer, null-terminated in place. -/
theorem strtok_r_calls_spec (delimiters : List UInt8) :
    ∀ (n : Nat) (b : List UInt8) (s : Nat), s ≤ b.length → NoNull b s →
      (strtok_r_calls delimiters n b s).1 =
          (List.range n).map (fun k => ((spans (is_delimiter delimiters) (b.drop s))[k]?).map (fun tw => s + tw.1)) ∧
        ∀ tw ∈ (spans (is_delimiter delimiters) (b.drop s)).take n,
          s + tw.1 + tw.2.length ≤ b.length ∧ TokenAt (strtok_r_calls delimiters n b s).2 (s + tw.1) tw.2
  | 0, _, _, _, _ => ⟨rfl, fun tw htw => by simp at htw⟩
  | n + 1, b, s, hs, hn => by
    cases hsp : spans (is_delimiter delimiters) (b.drop s) with
    | nil =>
      obtain ⟨ih, -⟩ := strtok_r_calls_spec delimiters n b b.length (Nat.le_refl _) (hn.mono hs)
      simp only [strtok_r_calls, strtok_r_none b s delimiters hs hn hsp]
      rw [ih, List.drop_length, spans_nil, List.range_succ_eq_map, List.map_cons, List.map_map]
      exact ⟨congrArg _ (List.map_congr_left fun k _ => rfl), fun tw htw => by simp at htw⟩
    | cons tw tws =>
      obtain ⟨t, w⟩ := tw
      obtain ⟨s', b', hcall, hts, hend, hs'le, hlen, -, htok, -, hn', htws⟩ := strtok_r_some b s delimiters hs hn hsp
      obtain ⟨ih₁, ih₂⟩ := strtok_r_calls_spec delimiters n b' s' (hlen ▸ hs'le) hn'
      simp only [strtok_r_calls, hcall]
      refine ⟨?_, fun tw htw => ?_⟩
      · -- this call returns the first run; the later ones the runs after it, now counted from `s'`
        rw [ih₁, List.range_succ_eq_map, List.map_cons, List.map_map, htws]
        congr 1
        apply List.map_congr_left
        intro k _
        simp only [Function.comp_apply, List.getElem?_cons_succ, List.getElem?_map, Option.map_map]
        congr 1
        funext tw
        simp only [Function.comp_apply, shift_fst]
        omega
      · rw [List.take_succ_cons, List.mem_cons] at htw
        rcases htw with rfl | htw
        · -- the run this call returned: the later calls write only from `s'` on
          dsimp only
          refine ⟨by omega, fun j hj => ?_⟩
          rw [strtok_r_calls_keeps delimiters n b' s' (hlen ▸ hs'le) (by omega)]
          exact htok j hj
        · rw [htws, ← List.map_take, List.mem_map] at htw
          obtain ⟨tw', htw', rfl⟩ := htw
          obtain ⟨hin, htok'⟩ := ih₂ tw' htw'
          simp only [shift_fst, shift_snd]
          rw [show s + (tw'.1 + (s' - s)) = s' + tw'.1 by omega]
          exact ⟨by omega, htok'⟩

/-! ## The tokenization law -/

/-- In a string with no null byte, with the bytes of such a string as the delimiters, `strtok_r`
takes a byte for a delimiter exactly when it is one of them. -/
theorem spans_is_delimiter {delimiters l : List UInt8} (hd : 0 ∉ delimiters) (hl : 0 ∉ l) :
    spans (is_delimiter delimiters) l = spans (fun c => c ∈ delimiters) l := by
  apply spans_congr
  intro c hc
  rw [Bool.eq_iff_iff, is_delimiter_iff hd (fun h => hl (h ▸ hc)), decide_eq_true_iff]

/-- For a string `s` and delimiters with no null byte inside, whatever follows the string's null
byte: the `n` calls on it return, in order, where the maximal runs of `s` with no delimiter begin
and then `NULL`; each run returned is the string at its position, its delimiter overwritten by a
null byte; only delimiters of `s` are changed; and the calls do on `s ++ 0 :: rest` what they do on
`s` alone, carrying `rest` along. -/
theorem strtok_r_tokenization_law (s delimiters : List UInt8) (hs : 0 ∉ s) (hd : 0 ∉ delimiters)
    (rest : List UInt8) (n : Nat) :
    strtok_r_calls delimiters n (s ++ 0 :: rest) 0 =
        ((strtok_r_calls delimiters n s 0).1, (strtok_r_calls delimiters n s 0).2 ++ 0 :: rest) ∧
      (strtok_r_calls delimiters n (s ++ 0 :: rest) 0).1 =
        (List.range n).map (fun k => ((spans (fun c => c ∈ delimiters) s)[k]?).map Prod.fst) ∧
      (∀ tw ∈ (spans (fun c => c ∈ delimiters) s).take n,
        TokenAt (strtok_r_calls delimiters n (s ++ 0 :: rest) 0).2 tw.1 tw.2) ∧
      ∀ j, byte_at (strtok_r_calls delimiters n (s ++ 0 :: rest) 0).2 j ≠ byte_at (s ++ 0 :: rest) j →
        j < s.length ∧ byte_at (s ++ 0 :: rest) j ∈ delimiters := by
  have hframe := strtok_r_calls_append_null rest delimiters n s 0 (Nat.zero_le _)
  have hlen := strtok_r_calls_length delimiters n s 0 (Nat.zero_le _)
  have hn : NoNull s 0 := noNull_of_forall (fun c hc h => hs (h ▸ hc)) 0
  obtain ⟨hres, htok⟩ := strtok_r_calls_spec delimiters n s 0 (Nat.zero_le _) hn
  rw [List.drop_zero, spans_is_delimiter hd hs] at hres htok
  refine ⟨hframe, ?_, fun tw htw => ?_, fun j hj => ?_⟩
  · rw [hframe, hres]
    simp only [Nat.zero_add]
  · obtain ⟨hin, h⟩ := htok tw htw
    rw [Nat.zero_add] at hin h
    rw [hframe]
    exact h.append_null (by omega) rest
  · rw [hframe] at hj
    have hj' : j ≤ s.length := by
      by_contra hgt
      rw [byte_at_append_null_of_lt _ _ (by omega), byte_at_append_null_of_lt _ _ (by omega), hlen] at hj
      exact hj rfl
    rw [byte_at_append_null _ _ (by omega), byte_at_append_null _ _ hj'] at hj
    obtain ⟨-, hjs, h0, hdel⟩ := strtok_r_calls_writes delimiters n s 0 j (Nat.zero_le _) hj
    rw [byte_at_append_null _ _ hj']
    exact ⟨hjs, (is_delimiter_iff hd h0).mp hdel⟩

/-- `"  to,be  ,"` with the delimiters `" ,"` and three bytes past its null byte. -/
theorem strtok_r_tokenization_law_sample :
    let s : List UInt8 := [0x20, 0x20, 0x74, 0x6f, 0x2c, 0x62, 0x65, 0x20, 0x20, 0x2c]
    let delimiters : List UInt8 := [0x20, 0x2c]
    let rest : List UInt8 := [0x61, 0x62, 0x63]
    0 ∉ s ∧ 0 ∉ delimiters ∧
      strtok_r_calls delimiters 4 (s ++ 0 :: rest) 0 =
          ((strtok_r_calls delimiters 4 s 0).1, (strtok_r_calls delimiters 4 s 0).2 ++ 0 :: rest) ∧
        (strtok_r_calls delimiters 4 (s ++ 0 :: rest) 0).1 =
          (List.range 4).map (fun k => ((spans (fun c => c ∈ delimiters) s)[k]?).map Prod.fst) ∧
        (∀ tw ∈ (spans (fun c => c ∈ delimiters) s).take 4,
          TokenAt (strtok_r_calls delimiters 4 (s ++ 0 :: rest) 0).2 tw.1 tw.2) ∧
        ∀ j, byte_at (strtok_r_calls delimiters 4 (s ++ 0 :: rest) 0).2 j ≠ byte_at (s ++ 0 :: rest) j →
          j < s.length ∧ byte_at (s ++ 0 :: rest) j ∈ delimiters :=
  ⟨by decide, by decide, strtok_r_tokenization_law _ _ (by decide) (by decide) _ 4⟩

end Pintos
