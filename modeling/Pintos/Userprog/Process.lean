import Pintos.Lib.String
import Pintos.Userprog.UserMemory

/-! # The command line of a new process (`userprog/process.c`)

`load` cuts the command line that `process_execute` copied into a page (at most `PGSIZE - 1`
bytes and the null byte) into tokens with `strtok_r`, keeping their addresses in the local array
`char *args[128]`: `args[0]` from the first call, then `args[i]` for `i = 1, 2, ...` until a
call returns `NULL`, which is stored too.  `setup_stack` maps the stack page below `PHYS_BASE`
and pushes the strings (last first), a word alignment, the pointers `argv[argc] = 0`,
`argv[argc - 1]`, ..., `argv[0]`, then `argv`, `argc` and a return address `0`, keeping the
strings' addresses in `char *local[128]`.

A store to a local array past its 128 elements is `none`.  Neither function bounds the number of
tokens: a command line of `k` words stores `args[k]`, so one of 128 words or more (255 bytes are
enough) stores past the end of `args` (`load_overruns_args`).
-/

namespace Pintos
set_option autoImplicit false
set_option maxHeartbeats 250000
set_option maxRecDepth 120000

open Words LittleEndian

/-! ## Local arrays of 128 elements -/

/-- `a[i] = v`; `none` past the end of the array. -/
def array_store {α : Type} (a : Nat → α) (i : Nat) (v : α) : Option (Nat → α) :=
  if i < 128 then some (Function.update a i v) else none

/-- `a[i]`; `none` past the end of the array. -/
def array_load {α : Type} (a : Nat → α) (i : Nat) : Option α :=
  if i < 128 then some (a i) else none

theorem array_store_of_lt {α : Type} (a : Nat → α) (i : Nat) (v : α) (h : i < 128) :
    array_store a i v = some (Function.update a i v) := if_pos h

theorem array_store_of_le {α : Type} (a : Nat → α) (i : Nat) (v : α) (h : 128 ≤ i) :
    array_store a i v = none := if_neg (by omega)

/-! ## Tokenizing the command line -/

/-- `char *delim = " "`: the delimiters `load` passes to `strtok_r`. -/
def delim : List UInt8 := [0x20]

/-- The `while` loop of `load`: `args[i] = strtok_r (NULL, delim, &savestr)` while the value
stored is a token; the buffer, `args` and `argc = i`. -/
def args_loop (b : List UInt8) (savestr : Nat) (args : Nat → Option Nat) (i : Nat) :
    Option (List UInt8 × (Nat → Option Nat) × Nat) :=
  match h : strtok_r b savestr delim with
  | (b', savestr', tok) =>
    match array_store args i tok with
    | none => none
    | some args =>
      match tok with
      | some _ => args_loop b' savestr' args (i + 1)
      | none => some (b', args, i)
termination_by b.length + 1 - savestr
decreasing_by
  -- a call that returns a token moves `savestr` forward
  obtain ⟨hlt, hle, hlen⟩ := strtok_r_advance b savestr delim _ (by rw [h])
  rw [h] at hlt hle hlen
  dsimp only at hlt hle hlen
  omega

theorem args_loop_of_some {b b' : List UInt8} {s s' t : Nat} (args : Nat → Option Nat) (i : Nat)
    (h : strtok_r b s delim = (b', s', some t)) :
    args_loop b s args i = (array_store args i (some t)).bind (fun args => args_loop b' s' args (i + 1)) := by
  rw [args_loop]
  split
  next b₁ s₁ tok heq =>
    rw [h] at heq
    cases heq
    cases array_store args i (some t) <;> rfl

theorem args_loop_of_none {b b' : List UInt8} {s s' : Nat} (args : Nat → Option Nat) (i : Nat)
    (h : strtok_r b s delim = (b', s', none)) :
    args_loop b s args i = (array_store args i none).map (fun args => (b', args, i)) := by
  rw [args_loop]
  split
  next b₁ s₁ tok heq =>
    rw [h] at heq
    cases heq
    cases array_store args i none <;> rfl

/-- The tokenizing part of `load (file_name, ...)`: `args[0] = strtok_r (file_name, delim,
&savestr)` and the loop from `i = 1`. -/
def load_args (file_name : List UInt8) : Option (List UInt8 × (Nat → Option Nat) × Nat) :=
  let r := strtok_r file_name 0 delim
  match array_store (fun _ => none) 0 r.2.2 with
  | some args => args_loop r.1 r.2.1 args 1
  | none => none

/-! ## The initial stack -/

/-- The stack page: `palloc_get_page (PAL_USER | PAL_ZERO)` and `install_page` map a zeroed frame
at `PHYS_BASE - PGSIZE`. -/
def install_stack (as : AddrSpace) : AddrSpace where
  present := Function.update as.present (pg_no (PHYS_BASE - PGSIZE)) true
  mem := fun a => if pg_no a = pg_no (PHYS_BASE - PGSIZE) then 0 else as.mem a

/-- `memcpy (ptr, &v, 4)` of a 32-bit value. -/
def AddrSpace.store_word (as : AddrSpace) (a v : Nat) : Option AddrSpace :=
  as.store_range a (encodeU32s (fun _ => v)) 4

/-- `for (i = argc - 1; i >= 0; i--)`: the string `args[i]` copied to `ptr -= strlen + 1`, its
address kept in `local[i]`; `n` is the number of rounds left, `i = n - 1`. -/
def push_strings (b : List UInt8) (args : Nat → Option Nat) :
    Nat → AddrSpace → (Nat → Nat) → Nat → Option (AddrSpace × (Nat → Nat) × Nat)
  | 0, as, locals, ptr => some (as, locals, ptr)
  | i + 1, as, locals, ptr => do
    let arg ← array_load args i
    -- `strlen (NULL)` faults
    let a ← arg
    let len := strlen b a
    let ptr := ptr - (len + 1)
    let locals ← array_store locals i ptr
    let as ← as.store_range ptr (fun k => byte_at b (a + k)) (len + 1)
    push_strings b args i as locals ptr

/-- `for (i = argc - 1; i >= 0; i--)`: the pointer `local[i]` pushed as `argv[i]`. -/
def push_pointers (locals : Nat → Nat) : Nat → AddrSpace → Nat → Option (AddrSpace × Nat)
  | 0, as, ptr => some (as, ptr)
  | i + 1, as, ptr => do
    let ptr := ptr - 4
    let v ← array_load locals i
    let as ← as.store_word ptr v
    push_pointers locals i as ptr

/-- `setup_stack (esp, args, argc)`: `installed` is whether the page was allocated and mapped.
The address space after it and `*esp`, or `none` for `false`; the outer `none` is a fault or a
store past the end of `local`. -/
def setup_stack (as : AddrSpace) (installed : Bool) (b : List UInt8) (args : Nat → Option Nat)
    (argc : Nat) : Option (AddrSpace × Option Nat) :=
  if !installed then some (as, none)
  else do
    let (as, locals, ptr) ← push_strings b args argc (install_stack as) (fun _ => 0) PHYS_BASE
    -- word-align: `ROUND_DOWN (ptr, 4)`
    let ptr := ptr / 4 * 4
    -- `argv[argc]`, a null pointer
    let ptr := ptr - 4
    let as ← as.store_word ptr 0
    let (as, ptr) ← push_pointers locals argc as ptr
    let argv_ptr := ptr
    let ptr := ptr - 4
    let as ← as.store_word ptr argv_ptr
    let ptr := ptr - 4
    let as ← as.store_word ptr argc
    -- the return address
    let ptr := ptr - 4
    let as ← as.store_word ptr 0
    pure (as, some ptr)

/-! ## The tokens `load` stores -/

theorem words_eq_spans_delim (b : List UInt8) (s : Nat) (hn : NoNull b s) :
    words 0x20 (b.drop s) = (spans (is_delimiter delim) (b.drop s)).map Prod.snd := by
  have hsame : ∀ c ∈ b.drop s, (c == 0x20) = is_delimiter delim c := by
    intro c hc
    rw [Bool.eq_iff_iff, beq_iff_eq, is_delimiter_iff (by decide) (ne_zero_of_mem_drop hn hc), delim,
      List.mem_singleton]
  rw [words_eq_map_spans, spans_congr hsame]

theorem spans_delim_nil {b : List UInt8} {s : Nat} (hn : NoNull b s) (hw : words 0x20 (b.drop s) = []) :
    spans (is_delimiter delim) (b.drop s) = [] := by
  rwa [words_eq_spans_delim b s hn, List.map_eq_nil_iff] at hw

theorem spans_delim_cons {b : List UInt8} {s : Nat} (hn : NoNull b s) {w : List UInt8} {ws : List (List UInt8)}
    (hw : words 0x20 (b.drop s) = w :: ws) :
    ∃ t tws, spans (is_delimiter delim) (b.drop s) = (t, w) :: tws ∧ tws.map Prod.snd = ws := by
  rw [words_eq_spans_delim b s hn, List.map_eq_cons_iff] at hw
  obtain ⟨⟨t, w'⟩, tws, heq, rfl, rfl⟩ := hw
  exact ⟨t, tws, heq, rfl⟩

/-- The loop from the state where the words `ws` are left: it stores the address of each of
them and then the `NULL`, one element of `args` each, and overruns `args` exactly when that runs
past element 127; the buffer keeps every byte before `savestr`. -/
theorem args_loop_spec (ws : List (List UInt8)) :
    ∀ (b : List UInt8) (savestr : Nat) (args : Nat → Option Nat) (i : Nat),
      savestr ≤ b.length → NoNull b savestr → words 0x20 (b.drop savestr) = ws →
      (args_loop b savestr args i = none ↔ 128 ≤ i + ws.length) ∧
      (i + ws.length < 128 → ∃ b' args', args_loop b savestr args i = some (b', args', i + ws.length) ∧
        b'.length = b.length ∧ (∀ j, (j < savestr ∨ b.length ≤ j) → byte_at b' j = byte_at b j) ∧
        (∀ k, k < i → args' k = args k) ∧
        (∀ k (hk : k < ws.length), ∃ t, args' (i + k) = some t ∧ TokenAt b' t ws[k] ∧
          ∀ j < ws[k].length, byte_at b' (t + j) ≠ 0) ∧
        args' (i + ws.length) = none) := by
  induction ws with
  | nil =>
    intro b savestr args i hs hn hw
    have hnone := strtok_r_none b savestr delim hs hn (spans_delim_nil hn hw)
    by_cases hi : i < 128
    · -- the call returns `NULL`, which is stored as `args[i]`
      have heq : args_loop b savestr args i = some (b, Function.update args i none, i) := by
        rw [args_loop_of_none args i hnone, array_store_of_lt _ _ _ hi]
        rfl
      rw [heq]
      simp only [List.length_nil, Nat.add_zero]
      refine ⟨by simp only [reduceCtorEq, false_iff]; omega,
        fun _ => ⟨b, _, rfl, rfl, fun _ _ => rfl, fun k hk => ?_, fun k hk => by simp at hk, ?_⟩⟩
      · rw [Function.update_of_ne (by omega)]
      · simp
    · have heq : args_loop b savestr args i = none := by
        rw [args_loop_of_none args i hnone, array_store_of_le _ _ _ (by omega)]
        rfl
      rw [heq]
      simp only [List.length_nil, Nat.add_zero]
      exact ⟨by simp only [true_iff]; omega, fun h => by omega⟩
  | cons w ws ih =>
    intro b savestr args i hs hn hw
    obtain ⟨t₀, tws, hspans, htws⟩ := spans_delim_cons hn hw
    obtain ⟨s', b₁, hcall, hts, hend, hs'le, hlen, hframe, htok, hnz, hn', htws'⟩ :=
      strtok_r_some b savestr delim hs hn hspans
    have hw' : words 0x20 (b₁.drop s') = ws := by
      rw [words_eq_spans_delim b₁ s' hn', ← htws, htws', map_snd_map_shift]
    have hst : savestr ≤ savestr + t₀ := Nat.le_add_right savestr t₀
    generalize savestr + t₀ = t at hcall hst hts hend hframe htok hnz
    have hlen_eq : i + (w :: ws).length = i + 1 + ws.length := by
      rw [List.length_cons]
      omega
    rw [hlen_eq]
    by_cases hi : i < 128
    · -- `args[i]` is the token; the loop goes on with the words after it
      have heq : args_loop b savestr args i = args_loop b₁ s' (Function.update args i (some t)) (i + 1) := by
        rw [args_loop_of_some args i hcall, array_store_of_lt _ _ _ hi]
        rfl
      obtain ⟨hnone, hsome⟩ := ih b₁ s' (Function.update args i (some t)) (i + 1) (by omega) hn' hw'
      rw [heq]
      refine ⟨hnone, fun hroom => ?_⟩
      obtain ⟨b', args', hrun, hlen', hframe', hkeep, htoks, hlast⟩ := hsome hroom
      have hkeep₁ : ∀ j, (j < s' ∨ b₁.length ≤ j) → byte_at b' j = byte_at b₁ j := hframe'
      have hfirst : ∀ j, j ≤ w.length → t + j < s' ∨ b₁.length ≤ t + j := fun j hj => by
        rcases hend with hlt | heq'
        · exact Or.inl (by omega)
        · rcases Nat.lt_or_ge (t + j) s' with h | h
          · exact Or.inl h
          · exact Or.inr (by omega)
      refine ⟨b', args', hrun, by rw [hlen', hlen], fun j hj => ?_, fun k hk => ?_, fun k hk => ?_, hlast⟩
      · rw [hkeep₁ j (by omega)]
        by_cases hjt : j = t + w.length
        · rw [byte_at_of_le b₁ j (by omega), byte_at_of_le b j (by omega)]
        · exact hframe j hjt
      · rw [hkeep k (by omega), Function.update_of_ne (by omega)]
      · cases k with
        | zero =>
          refine ⟨t, by rw [Nat.add_zero, hkeep i (by omega), Function.update_self], fun j hj => ?_, fun j hj => ?_⟩
          · rw [List.getElem_cons_zero, hkeep₁ _ (hfirst j hj)]
            exact htok j hj
          · rw [List.getElem_cons_zero] at hj
            rw [hkeep₁ _ (hfirst j (by omega))]
            exact hnz j hj
        | succ k =>
          obtain ⟨t', hk', htok', hnz'⟩ := htoks k (by simp at hk; omega)
          refine ⟨t', by rw [← hk']; congr 1; omega, ?_, ?_⟩
          · rw [List.getElem_cons_succ]
            exact htok'
          · rw [List.getElem_cons_succ]
            exact hnz'
    · -- the token's address falls past the end of `args`
      have heq : args_loop b savestr args i = none := by
        rw [args_loop_of_some args i hcall, array_store_of_le _ _ _ (by omega)]
        rfl
      rw [heq]
      exact ⟨by simp only [true_iff]; omega, fun h => by omega⟩

/-- `load` calls `strtok_r` on the whole command line first and stores its result, token or
`NULL`, as `args[0]`; the loop goes on from `i = 1`. -/
theorem load_args_eq (cmd : List UInt8) :
    load_args cmd = args_loop (strtok_r cmd 0 delim).1 (strtok_r cmd 0 delim).2.1
      (Function.update (fun _ => none) 0 (strtok_r cmd 0 delim).2.2) 1 := by
  unfold load_args
  dsimp only
  rw [array_store_of_lt _ _ _ (by decide)]

/-- A command line of no words: `args[0] = NULL`, and the loop stores one more `NULL` and
leaves `argc = 1`. -/
theorem load_args_of_no_words (cmd : List UInt8) (hnul : ∀ c ∈ cmd, c ≠ 0) (hws : words 0x20 cmd = []) :
    ∃ args, load_args cmd = some (cmd, args, 1) := by
  have hn := noNull_of_forall hnul 0
  have hw : words 0x20 (cmd.drop 0) = [] := by rw [List.drop_zero, hws]
  rw [load_args_eq, strtok_r_none cmd 0 delim (Nat.zero_le _) hn (spans_delim_nil hn hw)]
  obtain ⟨-, hsome⟩ := args_loop_spec [] cmd cmd.length (Function.update (fun _ => none) 0 none) 1
    (Nat.le_refl _) (fun j hj hj' => absurd hj' (by omega)) (by rw [List.drop_length]; rfl)
  obtain ⟨b', args', hrun, hlen', hframe', -⟩ := hsome (by decide)
  have hb : b' = cmd := List.ext_getElem hlen' fun j h₁ h₂ => by
    have h := hframe' j (Or.inl (by omega))
    rwa [byte_at, byte_at, List.getD_eq_getElem?_getD, List.getD_eq_getElem?_getD,
      List.getElem?_eq_getElem h₁, List.getElem?_eq_getElem h₂, Option.getD_some, Option.getD_some] at h
  exact ⟨args', by rw [hrun, hb, List.length_nil]⟩

theorem load_args_of_token {cmd b₁ : List UInt8} {s' t : Nat} (hcall : strtok_r cmd 0 delim = (b₁, s', some t)) :
    load_args cmd = args_loop cmd 0 (fun _ => none) 0 := by
  rw [load_args_eq, args_loop_of_some _ 0 hcall, array_store_of_lt _ _ _ (by decide), hcall]
  rfl

/-- `load` stores past the end of `args` exactly when the command line has 128 words or more. -/
theorem load_overruns_args (cmd : List UInt8) (hnul : ∀ c ∈ cmd, c ≠ 0) :
    load_args cmd = none ↔ 128 ≤ (words 0x20 cmd).length := by
  have hn := noNull_of_forall hnul 0
  cases hws : words 0x20 cmd with
  | nil =>
    obtain ⟨args, h⟩ := load_args_of_no_words cmd hnul hws
    rw [h]
    simp
  | cons w ws =>
    have hw : words 0x20 (cmd.drop 0) = w :: ws := by rw [List.drop_zero, hws]
    obtain ⟨t, tws, hspans, -⟩ := spans_delim_cons hn hw
    obtain ⟨s', b₁, hcall, -⟩ := strtok_r_some cmd 0 delim (Nat.zero_le _) hn hspans
    rw [load_args_of_token hcall, (args_loop_spec (w :: ws) cmd 0 (fun _ => none) 0 (Nat.zero_le _) hn hw).1,
      Nat.zero_add]

/-- 128 one-letter words, 255 bytes: `args[128] = NULL` is stored past the end of `args`. -/
theorem load_overruns_args_sample :
    let cmd : List UInt8 := (List.replicate 127 [97, 0x20]).flatten ++ [97]
    cmd.length < PGSIZE ∧ (words 0x20 cmd).length = 128 ∧ load_args cmd = none :=
  have hnul : ∀ c ∈ (List.replicate 127 [(97 : UInt8), 0x20]).flatten ++ [97], c ≠ 0 := by decide
  ⟨by decide, by decide, (load_overruns_args _ hnul).2 (by decide)⟩

/-- The tokens of a command line with no null byte and `k` words, `0 < k < 128`: `args[i]` is
the address of the `i`-th word, copied in place and null-terminated, for `i < k`,
`args[k] = NULL`, and `argc = k`. -/
theorem load_args_tokens (cmd : List UInt8) (hnul : ∀ c ∈ cmd, c ≠ 0) (hpos : 0 < (words 0x20 cmd).length)
    (hroom : (words 0x20 cmd).length < 128) :
    ∃ b' args', load_args cmd = some (b', args', (words 0x20 cmd).length) ∧ b'.length = cmd.length ∧
      (∀ k (hk : k < (words 0x20 cmd).length), ∃ t, args' k = some t ∧ TokenAt b' t (words 0x20 cmd)[k] ∧
        ∀ j < (words 0x20 cmd)[k].length, byte_at b' (t + j) ≠ 0) ∧
      args' (words 0x20 cmd).length = none := by
  have hn := noNull_of_forall hnul 0
  have hw : words 0x20 (cmd.drop 0) = words 0x20 cmd := by rw [List.drop_zero]
  obtain ⟨w, ws, hws⟩ := List.exists_cons_of_length_pos hpos
  obtain ⟨t, tws, hspans, -⟩ := spans_delim_cons hn (hw.trans hws)
  obtain ⟨s', b₁, hcall, -⟩ := strtok_r_some cmd 0 delim (Nat.zero_le _) hn hspans
  obtain ⟨-, hsome⟩ := args_loop_spec _ cmd 0 (fun _ => none) 0 (Nat.zero_le _) hn hw
  obtain ⟨b', args', hrun, hlen', -, -, htoks, hlast⟩ := hsome (by omega)
  rw [Nat.zero_add] at hrun hlast
  refine ⟨b', args', by rw [load_args_of_token hcall, hrun], hlen', fun k hk => ?_, hlast⟩
  simpa only [Nat.zero_add] using htoks k hk

theorem load_args_tokens_sample :
    ∃ b' args', load_args [97, 98, 0x20, 99] = some (b', args', 2) ∧ args' 2 = none := by
  obtain ⟨b', args', hl, -, -, hlast⟩ := load_args_tokens [97, 98, 0x20, 99] (by decide) (by decide) (by decide)
  have h2 : (words 0x20 [97, 98, 0x20, 99]).length = 2 := by decide
  exact ⟨b', args', h2 ▸ hl, h2 ▸ hlast⟩

end Pintos
