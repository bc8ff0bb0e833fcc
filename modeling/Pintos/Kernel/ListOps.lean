import Pintos.Kernel.ListSpec

/-! # Ends, popping, counting and reversing

`list_front` and `list_back` read the first and the last element of a nonempty list, and
`list_pop_front` and `list_pop_back` remove it; on an empty list their `ASSERT` fails.
`list_size` counts the elements.

`list_reverse` reverses a list in place.  Its loop exchanges the two links of each element it
passes (`reverse_loop_spec`, with `swap_links` the memory it leaves) and goes on through the new
`prev`, which is the old `next`.  Its last two `swap`s give the head and the tail the other ends
of the list and those ends the head and the tail (`list_reverse_eq`), and
`Links.Linked.reverse_inner` gives the reversed list (`list_reverse_spec`).
-/

namespace Pintos
set_option autoImplicit false
set_option maxHeartbeats 250000
set_option maxRecDepth 120000

open Links

/-! ## Ends and popping -/

section Ends

variable {m : ListMem} {l : list}

theorem list_front_spec {a : Ptr} {rest : List Ptr} (h : Holds m l (a :: rest)) :
    list_front m l = some a := by
  rw [list_front, h.list_empty_eq]
  simpa [list_begin] using h.list_begin_eq

theorem list_back_spec {init : List Ptr} {a : Ptr} (h : Holds m l (init ++ [a])) :
    list_back m l = some a := by
  have h' : Holds m l ((init ++ [a]) ++ []) := by rwa [List.append_nil]
  rw [list_back, h.list_empty_eq]
  simpa using h'.junction.2

theorem list_front_empty (h : Holds m l []) : list_front m l = none := by
  rw [list_front, h.list_empty_eq]
  rfl

theorem list_back_empty (h : Holds m l []) : list_back m l = none := by
  rw [list_back, h.list_empty_eq]
  rfl

/-- `list_pop_front` removes and returns the first element; only the head and the element after
the removed one are written. -/
theorem list_pop_front_spec {a : Ptr} {rest : List Ptr} (h : Holds m l (a :: rest)) :
    ∃ m', list_pop_front m l = some (m', a) ∧ Holds m' l rest ∧
      ∀ q, q ≠ l.head → q ≠ cursor l rest → m' q = m q := by
  have h' : Holds m l ([] ++ a :: rest) := h
  obtain ⟨m', hrem, hm', hfr⟩ := list_remove_spec h'
  refine ⟨m', ?_, by simpa using hm', hfr⟩
  rw [list_pop_front, list_front_spec h]
  dsimp only
  rw [hrem]

/-- `list_pop_back` removes and returns the last element; only the element before it and the
tail are written. -/
theorem list_pop_back_spec {init : List Ptr} {a : Ptr} (h : Holds m l (init ++ [a])) :
    ∃ m', list_pop_back m l = some (m', a) ∧ Holds m' l init ∧
      ∀ q, q ≠ behind l init → q ≠ l.tail → m' q = m q := by
  have h' : Holds m l (init ++ a :: []) := h
  obtain ⟨m', hrem, hm', hfr⟩ := list_remove_spec h'
  refine ⟨m', ?_, by simpa using hm', hfr⟩
  rw [list_pop_back, list_back_spec h]
  dsimp only
  rw [hrem]

theorem list_pop_front_empty (h : Holds m l []) : list_pop_front m l = none := by
  rw [list_pop_front, list_front_empty h]

theorem list_pop_back_empty (h : Holds m l []) : list_pop_back m l = none := by
  rw [list_pop_back, list_back_empty h]

end Ends

/-! ## Counting -/

section Size

variable {m : ListMem} {l : list}

theorem list_size_loop_spec : ∀ (rest pre : List Ptr) (fuel cnt : Nat), Holds m l (pre ++ rest) →
    rest.length < fuel → list_size_loop m l fuel (cursor l rest) cnt = some (cnt + rest.length) := by
  intro rest
  induction rest with
  | nil =>
    intro pre fuel cnt _ hf
    obtain ⟨fuel, rfl⟩ : ∃ k, fuel = k + 1 := ⟨fuel - 1, by simp at hf; omega⟩
    rw [list_size_loop, if_pos (show cursor l [] = list_end l from rfl)]
    rfl
  | cons a rest ih =>
    intro pre fuel cnt h hf
    obtain ⟨fuel, rfl⟩ : ∃ k, fuel = k + 1 := ⟨fuel - 1, by simp at hf; omega⟩
    have ha : cursor l (a :: rest) ≠ list_end l := h.ne_list_end
    have h' : Holds m l ((pre ++ [a]) ++ rest) := by simpa using h
    rw [list_size_loop, if_neg ha, cursor_cons, h.list_next_cons]
    dsimp only
    rw [ih (pre ++ [a]) fuel (cnt + 1) h' (by simp at hf; omega), List.length_cons]
    congr 1
    omega

theorem list_size_spec {xs : List Ptr} (fuel : Nat) (h : Holds m l xs) (hf : xs.length < fuel) :
    list_size fuel m l = some xs.length := by
  have h' : Holds m l ([] ++ xs) := h
  rw [list_size, h.list_begin_eq, list_size_loop_spec xs [] fuel 0 h' hf, Nat.zero_add]

end Size

/-! ## Reversing -/

/-- `m` with the two links of each element of `xs` exchanged. -/
def swap_links (xs : List Ptr) (m : ListMem) : ListMem :=
  fun p => if p ∈ xs then ⟨(m p).next, (m p).prev⟩ else m p

@[simp] theorem swap_links_nil (m : ListMem) : swap_links [] m = m := by
  funext p
  simp [swap_links]

theorem swap_links_of_not_mem {xs : List Ptr} (m : ListMem) {p : Ptr} (hp : p ∉ xs) :
    swap_links xs m p = m p := by
  simp [swap_links, hp]

theorem nxt_swap_links (xs : List Ptr) (m : ListMem) :
    nxt (swap_links xs m) = fun p => if p ∈ xs then prv m p else nxt m p := by
  funext p
  by_cases hp : p ∈ xs <;> simp [swap_links, nxt, prv, hp]

theorem prv_swap_links (xs : List Ptr) (m : ListMem) :
    prv (swap_links xs m) = fun p => if p ∈ xs then nxt m p else prv m p := by
  funext p
  by_cases hp : p ∈ xs <;> simp [swap_links, nxt, prv, hp]

theorem swap_prev_next (m : ListMem) (a : Ptr) :
    swap m (.prev a) (.next a) = Function.update m a ⟨(m a).next, (m a).prev⟩ := by
  funext p
  by_cases hp : p = a
  · subst hp
    simp [swap, LinkAddr.read, LinkAddr.write]
  · simp only [swap, LinkAddr.read, LinkAddr.write]
    rw [set_next_of_ne _ _ hp, set_prev_of_ne _ _ hp, Function.update_of_ne hp]

theorem swap_links_concat {pre : List Ptr} {a : Ptr} (m : ListMem) (ha : a ∉ pre) :
    swap_links (pre ++ [a]) m = Function.update (swap_links pre m) a ⟨(m a).next, (m a).prev⟩ := by
  funext p
  by_cases hp : p = a
  · subst hp
    simp [swap_links]
  · simp [swap_links, hp]

section Reverse

variable {m : ListMem} {l : list}

/-- The loop of `list_reverse`, with `pre` passed and `rest` still ahead, exchanges the links of
the elements of `rest` too. -/
theorem reverse_loop_spec : ∀ (rest pre : List Ptr) (fuel : Nat), Holds m l (pre ++ rest) →
    rest.length < fuel →
    reverse_loop l fuel (swap_links pre m) (cursor l rest) = some (swap_links (pre ++ rest) m) := by
  intro rest
  induction rest with
  | nil =>
    intro pre fuel _ hf
    obtain ⟨fuel, rfl⟩ : ∃ k, fuel = k + 1 := ⟨fuel - 1, by simp at hf; omega⟩
    rw [reverse_loop, if_pos (show cursor l [] = list_end l from rfl), List.append_nil]
  | cons a rest ih =>
    intro pre fuel h hf
    obtain ⟨fuel, rfl⟩ : ∃ k, fuel = k + 1 := ⟨fuel - 1, by simp at hf; omega⟩
    have ha : cursor l (a :: rest) ≠ list_end l := h.ne_list_end
    have hpre : a ∉ pre := by
      have h' : Holds m l (pre ++ [a] ++ rest) := by simpa using h
      exact fun hm => Holds.not_mem_of_mid h'.nodup (List.mem_singleton_self a)
        (mem_chain_of_mem (List.mem_append_left _ hm))
    have hswap : swap (swap_links pre m) (.prev a) (.next a) = swap_links (pre ++ [a]) m := by
      rw [swap_prev_next, swap_links_concat m hpre, swap_links_of_not_mem m hpre]
    have h' : Holds m l ((pre ++ [a]) ++ rest) := by simpa using h
    have hnext : (swap_links (pre ++ [a]) m a).prev = cursor l rest := by
      have hj := h'.junction.1
      rw [behind_concat] at hj
      simpa [swap_links] using hj
    rw [reverse_loop, if_neg ha, cursor_cons]
    dsimp only
    rw [hswap, hnext, ih (pre ++ [a]) fuel h' (by simp at hf; omega)]
    simp

/-- On a nonempty list with first element `f` and last `k`, `list_reverse` exchanges the links of
every element, then sets the head's `next` to `k` and the tail's `prev` to `f`, and last `k`'s
`prev` to the head and `f`'s `next` to the tail. -/
theorem list_reverse_eq {xs : List Ptr} (fuel : Nat) (h : Holds m l xs) (hne : xs ≠ [])
    (hf : xs.length < fuel) :
    list_reverse fuel m l =
      some (set_next (set_prev (set_prev (set_next (swap_links xs m) l.head (xs.getLast hne))
        l.tail (xs.head hne)) (xs.getLast hne) l.head) (xs.head hne) l.tail) := by
  have h₀ : Holds m l ([] ++ xs) := h
  have hloop := reverse_loop_spec xs [] fuel h₀ hf
  rw [swap_links_nil, List.nil_append] at hloop
  have hempty : list_empty m l = false := by
    rw [h.list_empty_eq]
    simpa using hne
  have hfm : xs.head hne ∈ xs := List.head_mem hne
  have hkm : xs.getLast hne ∈ xs := List.getLast_mem hne
  have hfirst : (m l.head).next = xs.head hne := by
    rw [← cursor_append l hne []]
    simpa using h₀.junction.1
  have hlast : (m l.tail).prev = xs.getLast hne := by
    have h₁ : Holds m l (xs ++ []) := by rwa [List.append_nil]
    rw [← behind_append l [] hne]
    simpa using h₁.junction.2
  have hfprev : (m (xs.head hne)).prev = l.head := by
    rw [← cursor_append l hne []]
    simpa using h₀.junction.2
  have hknext : (m (xs.getLast hne)).next = l.tail := by
    have h₁ : Holds m l (xs ++ []) := by rwa [List.append_nil]
    rw [← behind_append l [] hne]
    simpa using h₁.junction.1
  have hfh : xs.head hne ≠ l.head := fun e => h.head_not_mem (e ▸ hfm)
  have hkt : xs.getLast hne ≠ l.tail := fun e => h.tail_not_mem (e ▸ hkm)
  have hsw₁ : swap (swap_links xs m) (.next l.head) (.prev l.tail) =
      set_prev (set_next (swap_links xs m) l.head (xs.getLast hne)) l.tail (xs.head hne) := by
    simp only [swap, LinkAddr.read, LinkAddr.write, swap_links_of_not_mem m h.head_not_mem,
      swap_links_of_not_mem m h.tail_not_mem, hfirst, hlast]
  have hr₁ : (set_prev (set_next (swap_links xs m) l.head (xs.getLast hne)) l.tail (xs.head hne)
      l.head).next = xs.getLast hne := by
    rw [next_set_prev, set_next_self]
  have hr₂ : (set_prev (set_next (swap_links xs m) l.head (xs.getLast hne)) l.tail (xs.head hne)
      l.tail).prev = xs.head hne := by
    rw [set_prev_self]
  have hr₃ : (set_prev (set_next (swap_links xs m) l.head (xs.getLast hne)) l.tail (xs.head hne)
      (xs.head hne)).next = l.head := by
    rw [next_set_prev, set_next_of_ne _ _ hfh]
    simp [swap_links, hfm, hfprev]
  have hr₄ : (set_prev (set_next (swap_links xs m) l.head (xs.getLast hne)) l.tail (xs.head hne)
      (xs.getLast hne)).prev = l.tail := by
    rw [set_prev_of_ne _ _ hkt, prev_set_next]
    simp [swap_links, hkm, hknext]
  rw [list_reverse, hempty, h.list_begin_eq, if_pos (show (!false) = true from rfl), hloop]
  dsimp only
  rw [hsw₁]
  simp only [swap, LinkAddr.read, LinkAddr.write, hr₁, hr₂, hr₃, hr₄]

theorem list_reverse_spec {xs : List Ptr} (fuel : Nat) (h : Holds m l xs) (hf : xs.length < fuel) :
    ∃ m', list_reverse fuel m l = some m' ∧ Holds m' l xs.reverse ∧ ∀ q ∉ chain l xs, m' q = m q := by
  rcases eq_or_ne xs [] with rfl | hne
  · refine ⟨m, ?_, h, fun _ _ => rfl⟩
    rw [list_reverse, h.list_empty_eq]
    rfl
  have hfm : xs.head hne ∈ xs := List.head_mem hne
  have hkm : xs.getLast hne ∈ xs := List.getLast_mem hne
  have hht : l.head ≠ l.tail := h.head_ne_tail
  have hhf : l.head ≠ xs.head hne := fun e => h.head_not_mem (e ▸ hfm)
  have hhk : l.head ≠ xs.getLast hne := fun e => h.head_not_mem (e ▸ hkm)
  have htf : l.tail ≠ xs.head hne := fun e => h.tail_not_mem (e ▸ hfm)
  have htk : l.tail ≠ xs.getLast hne := fun e => h.tail_not_mem (e ▸ hkm)
  refine ⟨_, list_reverse_eq fuel h hne hf, ?_, ?_⟩
  · generalize hm' : set_next (set_prev (set_prev (set_next (swap_links xs m) l.head (xs.getLast hne))
      l.tail (xs.head hne)) (xs.getLast hne) l.head) (xs.head hne) l.tail = m'
    have hnx : nxt m' = Function.update (Function.update (nxt (swap_links xs m)) l.head (xs.getLast hne))
        (xs.head hne) l.tail := by
      rw [← hm']
      simp
    have hpv : prv m' = Function.update (Function.update (prv (swap_links xs m)) l.tail (xs.head hne))
        (xs.getLast hne) l.head := by
      rw [← hm']
      simp
    have hperm : (chain l xs.reverse).Perm (chain l xs) :=
      List.Perm.cons _ ((List.reverse_perm xs).append_right _)
    refine ⟨?_, ?_, ?_, hperm.nodup_iff.mpr h.nodup, fun hn => h.not_null (hperm.subset hn)⟩
    · show prv m' l.head = NULL
      rw [hpv, Function.update_of_ne hhk, Function.update_of_ne hht, prv_swap_links]
      simpa [h.head_not_mem, prv] using h.head_prev
    · show nxt m' l.tail = NULL
      rw [hnx, Function.update_of_ne htf, Function.update_of_ne hht.symm, nxt_swap_links]
      simpa [h.tail_not_mem, nxt] using h.tail_next
    · have hnd : xs.Nodup := (List.nodup_cons.mp h.nodup).2.of_append_left
      refine h.linked.reverse_inner hne hnd ?_ ?_ ?_ ?_ ?_ ?_
      · intro p hp hpf
        rw [hnx, Function.update_of_ne hpf, Function.update_of_ne (ne_of_mem_of_not_mem hp h.head_not_mem),
          nxt_swap_links]
        simp [hp]
      · intro p hp hpk
        rw [hpv, Function.update_of_ne hpk, Function.update_of_ne (ne_of_mem_of_not_mem hp h.tail_not_mem),
          prv_swap_links]
        simp [hp]
      · rw [hnx, Function.update_of_ne hhf, Function.update_self]
      · rw [hpv, Function.update_self]
      · rw [hnx, Function.update_self]
      · rw [hpv, Function.update_of_ne htk, Function.update_self]
  · intro q hq
    have hqx : q ∉ xs := fun hm => hq (mem_chain_of_mem hm)
    have hqh : q ≠ l.head := fun e => hq (e ▸ mem_chain_head l xs)
    have hqt : q ≠ l.tail := fun e => hq (e ▸ mem_chain_tail l xs)
    rw [set_next_of_ne _ _ (ne_of_mem_of_not_mem hfm hqx).symm,
      set_prev_of_ne _ _ (ne_of_mem_of_not_mem hkm hqx).symm, set_prev_of_ne _ _ hqt,
      set_next_of_ne _ _ hqh, swap_links_of_not_mem m hqx]

end Reverse

end Pintos
