import Pintos.Foundations.NaturalMerge
import Pintos.Kernel.ListSpec

/-! # `list_sort` is a stable natural merge sort

On a well-formed list, each loop of `list_sort` is a list operation of `NaturalMerge`:
`find_end_of_run` finds where `runFrom` ends the run (`find_end_of_run_spec`), `inplace_merge`
replaces two adjacent runs by their `List.merge` (`inplace_merge_spec`), one pass of the outer
loop is `mergePass` and counts `(runs + 1) / 2` output runs (`sort_pass_loop_spec`), and the
whole sort is `sortLoop` (`list_sort_loop_spec`).  The `ASSERT (is_sorted …)`s hold on the way.

`inplace_merge` keeps the merge in place: `a0` walks the first run and `a1b0` the second, and
an element of the second run that is less than the one at `a0` is spliced in before it.  Its
loop invariant is the list `pre ++ as ++ bs ++ post`, where `pre` holds the merged prefix and
`as`, `bs` what is left of the runs, with `merge A B = merged ++ merge as bs`.
-/

namespace Pintos
set_option autoImplicit false
set_option maxHeartbeats 250000
set_option maxRecDepth 120000

open Links NaturalMerge

theorem mem_chain_perm {l : list} {xs ys : List Ptr} (hp : xs.Perm ys) {q : Ptr} :
    q ∈ chain l xs ↔ q ∈ chain l ys := by
  simp only [chain, List.mem_cons, List.mem_append, hp.mem_iff]

section Sorting

variable (less : Ptr → Ptr → Bool) {m : ListMem} {l : list}

/-- `is_sorted` from the first of a part of a list to the element after it finds it sorted when
no element is less than the one before it. -/
theorem is_sorted_loop_spec {rest seg : List Ptr} :
    ∀ (fuel : Nat) (pre : List Ptr) (a : Ptr), Holds m l (pre ++ a :: (seg ++ rest)) →
      (a :: seg).IsChain (fun x y => notLess less x y = true) → seg.length < fuel →
      is_sorted_loop less m (cursor l rest) fuel a = some true := by
  induction seg with
  | nil =>
    intro fuel pre a h _ hf
    obtain ⟨fuel, rfl⟩ : ∃ k, fuel = k + 1 := ⟨fuel - 1, by simp at hf; omega⟩
    rw [is_sorted_loop, h.list_next_cons]
    simp
  | cons c seg ih =>
    intro fuel pre a h hc hf
    obtain ⟨fuel, rfl⟩ : ∃ k, fuel = k + 1 := ⟨fuel - 1, by simp at hf; omega⟩
    have h' : Holds m l ((pre ++ [a]) ++ (c :: seg) ++ rest) := by simpa using h
    have hne : c ≠ cursor l rest := fun e => List.cons_ne_nil c seg (h'.cursor_append_eq_iff.mp e)
    have hnext : list_next m a = some c := h.list_next_cons
    have hprev : list_prev m c = some a := by
      have h'' : Holds m l (pre ++ a :: (c :: (seg ++ rest))) := h
      exact h''.list_prev_cons
    have hless : less c a = false := by
      have := (List.isChain_cons_cons.mp hc).1
      simpa [notLess] using this
    have hrest : Holds m l ((pre ++ [a]) ++ c :: (seg ++ rest)) := by simpa using h
    rw [is_sorted_loop, hnext]
    dsimp only
    rw [if_neg hne, hprev]
    dsimp only
    rw [hless]
    exact ih fuel (pre ++ [a]) c hrest (List.isChain_cons_cons.mp hc).2 (by simp at hf; omega)

theorem is_sorted_spec {pre A rest : List Ptr} (fuel : Nat) (h : Holds m l (pre ++ A ++ rest))
    (hA : A.IsChain (fun x y => notLess less x y = true)) (hf : A.length ≤ fuel) :
    is_sorted less fuel m (cursor l (A ++ rest)) (cursor l rest) = some true := by
  cases A with
  | nil => simp [is_sorted]
  | cons a seg =>
    have hne : cursor l (a :: seg ++ rest) ≠ cursor l rest :=
      fun e => List.cons_ne_nil a seg (h.cursor_append_eq_iff.mp e)
    rw [is_sorted, if_pos (by simpa using hne)]
    exact is_sorted_loop_spec less fuel pre a (by simpa using h) hA (by simp at hf; omega)

/-- The `do … while` of `find_end_of_run` stops at the first element that is less than the one
before it, or at the tail: where `runFrom` ends the run. -/
theorem find_end_of_run_loop_spec {rest : List Ptr} :
    ∀ (fuel : Nat) (pre : List Ptr) (a : Ptr), Holds m l (pre ++ a :: rest) → rest.length < fuel →
      find_end_of_run_loop less m l.tail fuel a = some (cursor l (runFrom (notLess less) a rest).2) := by
  induction rest with
  | nil =>
    intro fuel pre a h hf
    obtain ⟨fuel, rfl⟩ : ∃ k, fuel = k + 1 := ⟨fuel - 1, by omega⟩
    rw [find_end_of_run_loop, h.list_next_cons]
    simp [runFrom]
  | cons c rest ih =>
    intro fuel pre a h hf
    obtain ⟨fuel, rfl⟩ : ∃ k, fuel = k + 1 := ⟨fuel - 1, by omega⟩
    have hne : c ≠ l.tail := fun e => h.tail_not_mem (by simp [← e])
    have hnext : list_next m a = some c := h.list_next_cons
    have hprev : list_prev m c = some a := by
      have h' : Holds m l (pre ++ a :: (c :: rest)) := h
      exact h'.list_prev_cons
    rw [find_end_of_run_loop, hnext]
    dsimp only
    rw [if_neg hne, hprev]
    dsimp only
    by_cases hca : less c a
    · -- `c` is less than `a`: the run ends before `c`
      rw [if_pos hca]
      simp [runFrom, notLess, hca]
    · rw [if_neg hca]
      have hrun : runFrom (notLess less) a (c :: rest) =
          (c :: (runFrom (notLess less) c rest).1, (runFrom (notLess less) c rest).2) := by
        rw [runFrom, if_pos (by simpa [notLess] using hca)]
      rw [hrun]
      exact ih fuel (pre ++ [a]) c (by simpa using h) (by simp at hf; omega)

theorem find_end_of_run_spec {pre rest : List Ptr} {a : Ptr} (fuel : Nat)
    (h : Holds m l (pre ++ a :: rest)) (hf : rest.length < fuel) :
    find_end_of_run less fuel m a (list_end l) = some (cursor l (runFrom (notLess less) a rest).2) := by
  have ha : a ≠ NULL := h.ne_null (mem_chain_of_mem (by simp))
  have ht : l.tail ≠ NULL := h.ne_null (mem_chain_tail l _)
  have hat : a ≠ l.tail := h.ne_list_end
  rw [find_end_of_run, list_end, if_pos (by simp [ha, ht, hat])]
  exact find_end_of_run_loop_spec less fuel pre a h hf

/-- The loop of `inplace_merge`: with `as` and `bs` left of the two runs, it leaves their merge
in their place.  Nothing outside the list is written. -/
theorem inplace_merge_loop_spec {post : List Ptr} :
    ∀ (fuel : Nat) (as bs pre : List Ptr) (m : ListMem), Holds m l (pre ++ as ++ bs ++ post) →
      as.length + bs.length < fuel →
      ∃ m', inplace_merge_loop less (cursor l post) fuel m (cursor l (as ++ bs ++ post))
          (cursor l (bs ++ post)) = some m' ∧
        Holds m' l (pre ++ as.merge bs (notLess less) ++ post) ∧
        ∀ q ∉ chain l (pre ++ as ++ bs ++ post), m' q = m q := by
  intro fuel
  induction fuel with
  | zero => intro as bs pre m _ hf; omega
  | succ fuel ih =>
    intro as bs pre m h hf
    rcases as with _ | ⟨a, as⟩
    · -- the first run is used up: `a0` has reached `a1b0`
      refine ⟨m, ?_, by simpa using h, fun _ _ => rfl⟩
      rw [inplace_merge_loop]
      simp
    rcases bs with _ | ⟨b, bs⟩
    · -- the second run is used up: `a1b0` has reached `b1`
      refine ⟨m, ?_, by simpa using h, fun _ _ => rfl⟩
      rw [inplace_merge_loop]
      simp
    have h₁ : Holds m l (pre ++ (a :: as) ++ (b :: bs ++ post)) := by simpa using h
    have hab : a ≠ b := by
      intro e
      have := h₁.cursor_append_eq_iff.mp (by simpa using e)
      exact List.cons_ne_nil a as this
    have hbpost : b ≠ cursor l post := by
      have h₂ : Holds m l ((pre ++ a :: as) ++ (b :: bs) ++ post) := by simpa using h
      intro e
      exact List.cons_ne_nil b bs (h₂.cursor_append_eq_iff.mp (by simpa using e))
    have hcond : (a != b && b != cursor l post) = true := by simp [hab, hbpost]
    rw [show cursor l (a :: as ++ b :: bs ++ post) = a from rfl,
      show cursor l (b :: bs ++ post) = b from rfl, inplace_merge_loop, if_pos hcond]
    by_cases hba : less b a
    · -- `b` goes first: it is spliced in before `a`
      rw [if_neg (by simp [hba])]
      have hnext : list_next m b = some (cursor l (bs ++ post)) := by
        have h₂ : Holds m l ((pre ++ a :: as) ++ b :: (bs ++ post)) := by simpa using h
        exact h₂.list_next_cons
      have hprev : list_prev m (cursor l (bs ++ post)) = some b := by
        have h₂ : Holds m l ((pre ++ a :: as) ++ b :: (bs ++ post)) := by simpa using h
        exact h₂.list_prev_cons
      have h₃ : Holds m l (pre ++ (a :: as) ++ [b] ++ (bs ++ post)) := by simpa using h
      obtain ⟨m₁, hsp, hm₁, hfr₁⟩ :=
        list_splice_backward h₃ (List.cons_ne_nil a as) (List.cons_ne_nil b [])
      have hm₁' : Holds m₁ l ((pre ++ [b]) ++ (a :: as) ++ bs ++ post) := by simpa using hm₁
      obtain ⟨m', hloop, hm', hfr'⟩ := ih (a :: as) bs (pre ++ [b]) m₁ hm₁' (by simp at hf ⊢; omega)
      refine ⟨m', ?_, ?_, ?_⟩
      · rw [hnext]
        dsimp only
        rw [hprev]
        dsimp only
        rw [show (a :: as).head (List.cons_ne_nil a as) = a from rfl,
          show [b].head (List.cons_ne_nil b []) = b from rfl] at hsp
        rw [hsp]
        simpa using hloop
      · rw [List.cons_merge_cons_neg _ _ _ (by simpa [notLess] using hba)]
        simpa using hm'
      · intro q hq
        have hq₁ : q ∉ chain l ((pre ++ [b]) ++ (a :: as) ++ bs ++ post) := by
          have hperm : (pre ++ b :: ((a :: as) ++ (bs ++ post))).Perm
              (pre ++ ((a :: as) ++ b :: (bs ++ post))) :=
            List.Perm.append_left pre List.perm_middle.symm
          have hq' := (mem_chain_perm (l := l) hperm).not.mpr (by simpa using hq)
          simpa using hq'
        rw [hfr' q hq₁, hfr₁ q (by simpa using hq)]
    · -- `a` goes first: `a0` moves on
      rw [if_pos (by simp [hba])]
      have hnext : list_next m a = some (cursor l (as ++ b :: bs ++ post)) := by
        have h₂ : Holds m l (pre ++ a :: (as ++ b :: bs ++ post)) := by simpa using h
        exact h₂.list_next_cons
      have h₂ : Holds m l ((pre ++ [a]) ++ as ++ (b :: bs) ++ post) := by simpa using h
      obtain ⟨m', hloop, hm', hfr'⟩ := ih as (b :: bs) (pre ++ [a]) m h₂ (by simp at hf ⊢; omega)
      refine ⟨m', ?_, ?_, ?_⟩
      · rw [hnext]
        dsimp only
        simpa using hloop
      · rw [List.cons_merge_cons_pos _ _ _ (by simpa [notLess] using hba)]
        simpa using hm'
      · intro q hq
        exact hfr' q (by simpa using hq)

/-- `inplace_merge (a0, a1b0, b1)` on two adjacent sorted runs `A` and `B`: its `ASSERT`s hold and
it leaves `merge A B` in their place. -/
theorem inplace_merge_spec {pre A B post : List Ptr} (fuel : Nat) (h : Holds m l (pre ++ A ++ B ++ post))
    (hA : A.IsChain (fun x y => notLess less x y = true))
    (hB : B.IsChain (fun x y => notLess less x y = true)) (hf : A.length + B.length < fuel) :
    ∃ m', inplace_merge less fuel m (cursor l (A ++ B ++ post)) (cursor l (B ++ post)) (cursor l post) =
        some m' ∧
      Holds m' l (pre ++ A.merge B (notLess less) ++ post) ∧
      ∀ q ∉ chain l (pre ++ A ++ B ++ post), m' q = m q := by
  have hs₁ : is_sorted less fuel m (cursor l (A ++ (B ++ post))) (cursor l (B ++ post)) = some true :=
    is_sorted_spec less fuel (by simpa using h) hA (by omega)
  have h' : Holds m l ((pre ++ A) ++ B ++ post) := h
  have hs₂ : is_sorted less fuel m (cursor l (B ++ post)) (cursor l post) = some true :=
    is_sorted_spec less fuel h' hB (by omega)
  have hn₀ : cursor l (A ++ (B ++ post)) ≠ NULL :=
    h.ne_null (by simpa using cursor_mem_chain l pre (A ++ B ++ post))
  have hn₁ : cursor l (B ++ post) ≠ NULL :=
    h.ne_null (by simpa using cursor_mem_chain l (pre ++ A) (B ++ post))
  have hn₂ : cursor l post ≠ NULL := h.ne_null (cursor_mem_chain l _ post)
  rw [inplace_merge, if_pos (by simp [hn₀, hn₁, hn₂, List.append_assoc, hs₁, hs₂])]
  exact inplace_merge_loop_spec less fuel A B pre m h hf

/-- One pass of the outer loop of `list_sort` over the part `rest` of a list: it merges the runs
of `rest` two by two and counts `(runs + 1) / 2` output runs. -/
theorem sort_pass_loop_spec (fuel : Nat) :
    ∀ (k : Nat) (rest pre : List Ptr) (m : ListMem) (cnt : Nat), Holds m l (pre ++ rest) →
      (pre ++ rest).length < fuel → rest.length < k →
      ∃ m', sort_pass_loop less l fuel k m (cursor l rest) cnt =
          some (m', cnt + (runs (notLess less) rest + 1) / 2) ∧
        Holds m' l (pre ++ mergePass (notLess less) rest) ∧ ∀ q ∉ chain l (pre ++ rest), m' q = m q := by
  intro k
  induction k with
  | zero => intro rest pre m cnt _ _ hk; omega
  | succ k ih =>
    intro rest pre m cnt h hf hk
    rcases rest with _ | ⟨a, r⟩
    · refine ⟨m, ?_, by simpa [mergePass, mergePairs] using h, fun _ _ => rfl⟩
      rw [sort_pass_loop, if_pos (show cursor l [] = list_end l from rfl)]
      simp
    have hat : cursor l (a :: r) ≠ list_end l := h.ne_list_end
    have happ : (runFrom (notLess less) a r).1 ++ (runFrom (notLess less) a r).2 = r := runFrom_append a r
    have hch : (a :: (runFrom (notLess less) a r).1).IsChain (fun x y => notLess less x y = true) :=
      isChain_runFrom a r
    have hsp : (a :: r).splitBy (notLess less) =
        (a :: (runFrom (notLess less) a r).1) :: (runFrom (notLess less) a r).2.splitBy (notLess less) :=
      splitBy_cons a r
    have hfind : find_end_of_run less fuel m a (list_end l) =
        some (cursor l (runFrom (notLess less) a r).2) := find_end_of_run_spec less fuel h (by simp at hf; omega)
    generalize (runFrom (notLess less) a r).1 = run₁ at happ hch hsp hfind
    generalize (runFrom (notLess less) a r).2 = t₁ at happ hch hsp hfind
    subst happ
    rw [sort_pass_loop, if_neg hat, cursor_cons, hfind]
    dsimp only
    rcases t₁ with _ | ⟨c, r'⟩
    · -- one run left: the pass ends with it as the last output run
      refine ⟨m, ?_, ?_, fun _ _ => rfl⟩
      · rw [if_pos (show cursor l [] = list_end l from rfl), runs, hsp]
        simp
      · rw [mergePass, hsp]
        simpa [mergePairs] using h
    have h₂ : Holds m l ((pre ++ a :: run₁) ++ c :: r') := by simpa using h
    have hct : cursor l (c :: r') ≠ list_end l := h₂.ne_list_end
    have happ₂ : (runFrom (notLess less) c r').1 ++ (runFrom (notLess less) c r').2 = r' :=
      runFrom_append c r'
    have hch₂ : (c :: (runFrom (notLess less) c r').1).IsChain (fun x y => notLess less x y = true) :=
      isChain_runFrom c r'
    have hsp₂ : (c :: r').splitBy (notLess less) =
        (c :: (runFrom (notLess less) c r').1) :: (runFrom (notLess less) c r').2.splitBy (notLess less) :=
      splitBy_cons c r'
    have hfind₂ : find_end_of_run less fuel m c (list_end l) =
        some (cursor l (runFrom (notLess less) c r').2) := find_end_of_run_spec less fuel h₂ (by simp at hf; omega)
    generalize (runFrom (notLess less) c r').1 = run₂ at happ₂ hch₂ hsp₂ hfind₂
    generalize (runFrom (notLess less) c r').2 = t₂ at happ₂ hch₂ hsp₂ hfind₂
    subst happ₂
    have h₃ : Holds m l (pre ++ (a :: run₁) ++ (c :: run₂) ++ t₂) := by simpa using h
    obtain ⟨m₁, hmerge, hm₁, hfr₁⟩ := inplace_merge_spec less fuel h₃ hch hch₂ (by simp at hf ⊢; omega)
    have hm₁' : Holds m₁ l ((pre ++ (a :: run₁).merge (c :: run₂) (notLess less)) ++ t₂) := by
      simpa using hm₁
    obtain ⟨m', hloop, hm', hfr'⟩ := ih t₂ _ m₁ (cnt + 1) hm₁' (by simp at hf ⊢; omega)
      (by simp at hk; omega)
    refine ⟨m', ?_, ?_, ?_⟩
    · rw [if_neg hct, cursor_cons, hfind₂]
      dsimp only
      have hmerge' : inplace_merge less fuel m a c (cursor l t₂) = some m₁ := hmerge
      rw [hmerge']
      dsimp only
      rw [hloop, runs, runs, hsp, hsp₂]
      simp only [List.length_cons]
      congr 2
      omega
    · rw [mergePass, hsp, hsp₂, mergePairs]
      simpa [mergePass] using hm'
    · intro q hq
      have hperm : ((pre ++ (a :: run₁).merge (c :: run₂) (notLess less)) ++ t₂).Perm
          (pre ++ (a :: run₁ ++ c :: (run₂ ++ t₂))) := by
        have hmp : ((a :: run₁).merge (c :: run₂) (notLess less)).Perm (a :: run₁ ++ c :: run₂) :=
          List.merge_perm_append (notLess less)
        simpa using (hmp.append_right t₂).append_left pre
      rw [hfr' q ((mem_chain_perm hperm).not.mpr hq), hfr₁ q (by simpa using hq)]

theorem list_sort_loop_spec (fuel : Nat) :
    ∀ (k : Nat) (xs ys : List Ptr) (m : ListMem), Holds m l xs → xs.length < fuel →
      sortLoop (notLess less) k xs = some ys →
      ∃ m', list_sort_loop less l fuel k m = some m' ∧ Holds m' l ys ∧ ∀ q ∉ chain l xs, m' q = m q := by
  intro k
  induction k with
  | zero => intro xs ys m _ _ hs; simp [sortLoop] at hs
  | succ k ih =>
    intro xs ys m h hf hs
    have h₀ : Holds m l ([] ++ xs) := h
    obtain ⟨m₁, hpass, hm₁, hfr₁⟩ := sort_pass_loop_spec less fuel fuel xs [] m 0 h₀ hf hf
    have hlen : (mergePass (notLess less) xs).length = xs.length := (mergePass_perm xs).length_eq
    rw [list_sort_loop, h.list_begin_eq, hpass]
    dsimp only
    rw [sortLoop] at hs
    by_cases hmore : 1 < (runs (notLess less) xs + 1) / 2
    · rw [if_pos hmore] at hs
      obtain ⟨m', hloop, hm', hfr'⟩ := ih _ ys m₁ (by simpa using hm₁) (by omega) hs
      refine ⟨m', by rw [if_pos (by omega)]; exact hloop, hm', fun q hq => ?_⟩
      rw [hfr' q ((mem_chain_perm (mergePass_perm xs)).not.mpr hq), hfr₁ q (by simpa using hq)]
    · rw [if_neg hmore, Option.some_inj] at hs
      subst hs
      exact ⟨m₁, by rw [if_neg (by omega)], by simpa using hm₁, fun q hq => hfr₁ q (by simpa using hq)⟩

/-- `list_sort` on a well-formed list, with `less` a strict weak order and fuel for as many
iterations as the list has elements: its `ASSERT`s hold, and it leaves the list well formed with
a sorted permutation of its elements that keeps equivalent elements in their order.  Nothing
outside the list is written. -/
theorem list_sort_spec [IsStrictWeakOrder Ptr (fun a b => less a b = true)] {xs : List Ptr}
    (fuel : Nat) (h : Holds m l xs) (hf : xs.length < fuel) :
    ∃ m' ys, list_sort less fuel m l = some m' ∧ Holds m' l ys ∧ ys.Perm xs ∧
      ys.IsChain (fun a b => less b a = false) ∧
      (∀ x, ys.filter (equiv less x) = xs.filter (equiv less x)) ∧
      ∀ q ∉ chain l xs, m' q = m q := by
  obtain ⟨ys, hsort, hperm, hsorted, hstable⟩ :=
    sortLoop_spec less fuel xs (Nat.lt_of_le_of_lt (runs_le_length xs) hf)
  obtain ⟨m', hloop, hm', hfr⟩ := list_sort_loop_spec less fuel fuel xs ys m h hf hsort
  have hchain : ys.IsChain (fun x y => notLess less x y = true) := (isChain_notLess_iff less).mpr hsorted
  have hm'' : Holds m' l ([] ++ ys ++ []) := by simpa using hm'
  have hassert : is_sorted less fuel m' (list_begin m' l) (list_end l) = some true := by
    rw [hm'.list_begin_eq]
    simpa [list_end] using is_sorted_spec less fuel hm'' hchain (by rw [hperm.length_eq]; omega)
  refine ⟨m', ys, ?_, hm', hperm, hsorted, hstable, hfr⟩
  rw [list_sort, hloop]
  dsimp only
  rw [if_pos hassert]

theorem sort_pass_fewer_runs [IsStrictWeakOrder Ptr (fun a b => less a b = true)] {xs : List Ptr}
    (fuel : Nat) (h : Holds m l xs) (hf : xs.length < fuel) (hr : 2 ≤ runs (notLess less) xs) :
    ∃ m' cnt ys, sort_pass_loop less l fuel fuel m (list_begin m l) 0 = some (m', cnt) ∧
      Holds m' l ys ∧ runs (notLess less) ys < runs (notLess less) xs := by
  have h₀ : Holds m l ([] ++ xs) := h
  obtain ⟨m', hpass, hm', -⟩ := sort_pass_loop_spec less fuel fuel xs [] m 0 h₀ hf hf
  exact ⟨m', _, _, by rw [h.list_begin_eq]; exact hpass, by simpa using hm', runs_mergePass_lt less hr⟩

/-- `list_sort` is a terminating stable sort.  On a well-formed list, with `less` a strict weak
order and fuel for as many iterations as the list has elements, it returns a well-formed list of
at most one run that holds a permutation of the elements, in which no element is less than the
one before it and equivalent elements keep their order; and every pass of its outer loop, over
the list in any state with two runs or more, leaves fewer runs. -/
theorem list_sort_stable_sort [IsStrictWeakOrder Ptr (fun a b => less a b = true)] {xs : List Ptr}
    (fuel : Nat) (h : Holds m l xs) (hf : xs.length < fuel) :
    (∃ m' ys, list_sort less fuel m l = some m' ∧ Holds m' l ys ∧ ys.Perm xs ∧
      ys.IsChain (fun a b => less b a = false) ∧ runs (notLess less) ys ≤ 1 ∧
      ∀ x, ys.filter (equiv less x) = xs.filter (equiv less x)) ∧
    ∀ (m₀ : ListMem) (zs : List Ptr), Holds m₀ l zs → zs.length = xs.length →
      2 ≤ runs (notLess less) zs →
      ∃ m₁ cnt ys, sort_pass_loop less l fuel fuel m₀ (list_begin m₀ l) 0 = some (m₁, cnt) ∧
        Holds m₁ l ys ∧ runs (notLess less) ys < runs (notLess less) zs := by
  obtain ⟨m', ys, hsort, hm', hperm, hsorted, hstable, -⟩ := list_sort_spec less fuel h hf
  have hone : runs (notLess less) ys ≤ 1 := runs_le_one_of_isChain ((isChain_notLess_iff less).mpr hsorted)
  refine ⟨⟨m', ys, hsort, hm', hperm, hsorted, hone, hstable⟩, ?_⟩
  intro m₀ zs h₀ hlen hr
  exact sort_pass_fewer_runs less fuel h₀ (by omega) hr

end Sorting

theorem isStrictWeakOrder_decide_lt : IsStrictWeakOrder ℕ (fun a b => decide (a < b) = true) where
  irrefl a := by simp
  trans a b c hab hbc := by simp only [decide_eq_true_eq] at hab hbc ⊢; omega
  incomp_trans a b c hab hbc := by simp only [decide_eq_true_eq] at hab hbc ⊢; omega

/-- The list `1 ⇄ 5 ⇄ 4 ⇄ 3 ⇄ 2` with head `1` and tail `2`. -/
def sample_sort_mem : ListMem
  | 1 => ⟨0, 5⟩
  | 5 => ⟨1, 4⟩
  | 4 => ⟨5, 3⟩
  | 3 => ⟨4, 2⟩
  | 2 => ⟨3, 0⟩
  | _ => ⟨0, 0⟩

theorem sample_sort_holds : Holds sample_sort_mem ⟨1, 2⟩ [5, 4, 3] where
  head_prev := rfl
  tail_next := rfl
  linked := by simp [Linked, chain, nxt, prv, sample_sort_mem]
  nodup := by decide
  not_null := by decide

theorem list_sort_stable_sort_sample :
    Holds sample_sort_mem ⟨1, 2⟩ [5, 4, 3] ∧
    ∃ m' ys, list_sort (fun a b => decide (a < b)) 4 sample_sort_mem ⟨1, 2⟩ = some m' ∧
      Holds m' ⟨1, 2⟩ ys ∧ ys.Perm [5, 4, 3] ∧ ys.IsChain (fun a b => decide (b < a) = false) := by
  have := isStrictWeakOrder_decide_lt
  obtain ⟨⟨m', ys, hsort, hm', hperm, hsorted, -⟩, -⟩ :=
    list_sort_stable_sort (fun a b => decide (a < b)) 4 sample_sort_holds (by decide)
  exact ⟨sample_sort_holds, m', ys, hsort, hm', hperm, hsorted⟩

end Pintos
