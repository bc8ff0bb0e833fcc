import Mathlib.Data.List.SplitBy
import Mathlib.Data.List.Chain
import Mathlib.Data.List.Perm.Basic
import Mathlib.Order.Defs.Unbundled

/-! # Natural merge sort

A natural merge sort cuts a list into its maximal nondecreasing runs, merges the first run with
the second, the third with the fourth and so on, and repeats such passes until a pass outputs one
run.  The runs under `le` are `List.splitBy le`; `runFrom` finds where one run ends the way a scan
does, element by element, and `splitBy_cons` says that the runs of `a :: l` are the run `runFrom`
finds and then the runs of what follows it.

For a comparison `less` that is a strict weak order, `notLess less` is a total preorder, and a
pass (`mergePass`) keeps the elements (`mergePass_perm`), keeps the order among equivalent
elements (`filter_mergePass`) and leaves at most half the runs, rounded up
(`runs_mergePass_le`).  So the passes stop, with a sorted and stable permutation
(`sortLoop_spec`).
-/

namespace NaturalMerge
set_option autoImplicit false

variable {α : Type}

/-! ## Runs -/

section Runs

variable (le : α → α → Bool)

/-- The rest of the run that `a` begins in `a :: l`, and what follows that run. -/
def runFrom (a : α) : List α → List α × List α
  | [] => ([], [])
  | b :: l => if le a b then (b :: (runFrom b l).1, (runFrom b l).2) else ([], b :: l)

/-- The number of maximal nondecreasing runs of `l`. -/
def runs (l : List α) : Nat := (l.splitBy le).length

/-- Merge the first run with the second, the third with the fourth, and so on. -/
def mergePairs : List (List α) → List α
  | r₁ :: r₂ :: rs => r₁.merge r₂ le ++ mergePairs rs
  | [r] => r
  | [] => []

/-- One pass: merge the runs of `l` two by two. -/
def mergePass (l : List α) : List α := mergePairs le (l.splitBy le)

/-- Passes over `l` for as long as a pass outputs more than one run, and at most `fuel` of them.
A pass over `r` runs outputs `(r + 1) / 2` runs. -/
def sortLoop : Nat → List α → Option (List α)
  | 0, _ => none
  | fuel + 1, l =>
    if 1 < (runs le l + 1) / 2 then sortLoop fuel (mergePass le l) else some (mergePass le l)

variable {le}

theorem runFrom_append (a : α) (l : List α) : (runFrom le a l).1 ++ (runFrom le a l).2 = l := by
  induction l generalizing a with
  | nil => rfl
  | cons b l ih =>
    unfold runFrom
    by_cases h : le a b
    · rw [if_pos h, List.cons_append, ih b]
    · rw [if_neg h]
      rfl

theorem isChain_runFrom (a : α) (l : List α) :
    (a :: (runFrom le a l).1).IsChain (fun x y => le x y = true) := by
  induction l generalizing a with
  | nil => exact List.isChain_singleton a
  | cons b l ih =>
    unfold runFrom
    by_cases h : le a b
    · rw [if_pos h]
      exact List.IsChain.cons_cons h (ih b)
    · rw [if_neg h]
      exact List.isChain_singleton a

theorem runFrom_break (a : α) (l : List α) :
    ∀ y ∈ (runFrom le a l).2.head?,
      le ((a :: (runFrom le a l).1).getLast (List.cons_ne_nil _ _)) y = false := by
  induction l generalizing a with
  | nil => intro y hy; simp [runFrom] at hy
  | cons b l ih =>
    intro y hy
    unfold runFrom at hy ⊢
    by_cases h : le a b
    · simp only [if_pos h] at hy ⊢
      rw [List.getLast_cons (List.cons_ne_nil _ _)]
      exact ih b y hy
    · simp only [if_neg h, List.head?_cons, Option.mem_some_iff] at hy ⊢
      subst hy
      simpa using h

theorem length_runFrom_snd (a : α) (l : List α) : (runFrom le a l).2.length ≤ l.length := by
  have h : ((runFrom le a l).1 ++ (runFrom le a l).2).length = l.length :=
    congrArg List.length (runFrom_append a l)
  rw [List.length_append] at h
  omega

theorem splitBy_run_append {d t : List α} (hd : d ≠ [])
    (hc : d.IsChain (fun x y => le x y = true))
    (hb : ∀ y ∈ t.head?, le (d.getLast hd) y = false) :
    (d ++ t).splitBy le = d :: t.splitBy le := by
  have hjoin : ∀ x ∈ d.getLast?, ∀ y ∈ t.head?, le x y = false := by
    intro x hx y hy
    rw [List.getLast?_eq_some_getLast hd, Option.mem_some_iff] at hx
    subst hx
    exact hb y hy
  rw [List.splitBy_append hjoin, List.splitBy_of_isChain hd hc]
  rfl

theorem splitBy_cons (a : α) (l : List α) :
    (a :: l).splitBy le = (a :: (runFrom le a l).1) :: (runFrom le a l).2.splitBy le := by
  have h : ((a :: (runFrom le a l).1) ++ (runFrom le a l).2).splitBy le = _ :=
    splitBy_run_append (List.cons_ne_nil _ _) (isChain_runFrom a l) (runFrom_break a l)
  rwa [List.cons_append, runFrom_append] at h

@[simp] theorem runs_nil : runs le ([] : List α) = 0 := rfl

theorem runs_cons (a : α) (l : List α) : runs le (a :: l) = runs le (runFrom le a l).2 + 1 := by
  rw [runs, splitBy_cons, List.length_cons, runs]

theorem runs_le_length : ∀ l : List α, runs le l ≤ l.length
  | [] => Nat.le_refl 0
  | a :: l => by
    have ih := runs_le_length (runFrom le a l).2
    have hlen : (runFrom le a l).2.length ≤ l.length := length_runFrom_snd a l
    rw [runs_cons, List.length_cons]
    omega
termination_by l => l.length
decreasing_by
  have hlen : (runFrom le a l).2.length ≤ l.length := length_runFrom_snd a l
  rw [List.length_cons]
  omega

theorem isChain_of_runs_le_one {l : List α} (h : runs le l ≤ 1) :
    l.IsChain (fun x y => le x y = true) := by
  rcases hs : l.splitBy le with _ | ⟨r, _ | ⟨_, _⟩⟩
  · rw [List.splitBy_eq_nil.mp hs]
    exact List.IsChain.nil
  · have hl := List.flatten_splitBy le l
    rw [hs, List.flatten_singleton] at hl
    subst hl
    exact List.isChain_of_mem_splitBy (hs ▸ List.mem_singleton_self r)
  · rw [runs, hs] at h
    simp at h

theorem runs_le_one_of_isChain {l : List α} (h : l.IsChain (fun x y => le x y = true)) :
    runs le l ≤ 1 := by
  cases l with
  | nil => simp
  | cons a l => rw [runs, List.splitBy_of_isChain (List.cons_ne_nil a l) h, List.length_singleton]

theorem mergePairs_perm : ∀ rs : List (List α), (mergePairs le rs).Perm rs.flatten
  | [] => List.Perm.refl _
  | [r] => by rw [mergePairs, List.flatten_singleton]
  | r₁ :: r₂ :: rs => by
    rw [mergePairs, List.flatten_cons, List.flatten_cons, ← List.append_assoc]
    exact (List.merge_perm_append le).append (mergePairs_perm rs)

theorem mergePass_perm (l : List α) : (mergePass le l).Perm l := by
  have h : (mergePairs le (l.splitBy le)).Perm (l.splitBy le).flatten := mergePairs_perm _
  rwa [List.flatten_splitBy] at h

end Runs

/-! ## Under a total preorder -/

section TotalPreorder

variable {le : α → α → Bool}
  (trans : ∀ a b c, le a b = true → le b c = true → le a c = true)
  (total : ∀ a b, (le a b || le b a) = true)

include trans in
theorem pairwise_of_isChain {l : List α} (h : l.IsChain (fun x y => le x y = true)) :
    l.Pairwise (fun x y => le x y = true) := by
  have : Trans (fun x y => le x y = true) (fun x y => le x y = true) (fun x y => le x y = true) :=
    ⟨fun hab hbc => trans _ _ _ hab hbc⟩
  exact List.isChain_iff_pairwise.mp h

include trans total in
/-- A merge keeps, within a set of elements that are all `le` one another, the elements of the
sorted left list before those of the right one. -/
theorem filter_merge (p : α → Bool) (hp : ∀ u v, p u = true → p v = true → le u v = true) :
    ∀ xs ys : List α, xs.Pairwise (fun x y => le x y = true) →
      (xs.merge ys le).filter p = xs.filter p ++ ys.filter p
  | [], ys, _ => by rw [List.nil_merge, List.filter_nil, List.nil_append]
  | x :: xs, [], _ => by rw [List.merge_right, List.filter_nil, List.append_nil]
  | x :: xs, y :: ys, hs => by
    by_cases h : le x y
    · rw [List.cons_merge_cons_pos _ _ _ h, List.filter_cons, List.filter_cons (x := x),
        filter_merge p hp xs (y :: ys) hs.of_cons]
      split <;> rfl
    · rw [List.cons_merge_cons_neg _ _ _ h, List.filter_cons (x := y),
        filter_merge p hp (x :: xs) ys hs, List.filter_cons (x := y)]
      by_cases hy : p y
      · -- everything of the left list is above `y`, so none of it is equivalent to `y`
        have hnone : (x :: xs).filter p = [] := by
          rw [List.filter_eq_nil_iff]
          intro z hz hpz
          have hxz : le x z = true := by
            rcases List.mem_cons.mp hz with rfl | hz
            · simpa using total z z
            · exact List.rel_of_pairwise_cons hs hz
          exact h (trans x z y hxz (hp z y hpz hy))
        rw [if_pos hy, if_pos hy, hnone, List.nil_append, List.nil_append]
      · rw [if_neg hy, if_neg hy]

include trans total in
theorem filter_mergePairs (p : α → Bool) (hp : ∀ u v, p u = true → p v = true → le u v = true) :
    ∀ rs : List (List α), (∀ r ∈ rs, r.Pairwise (fun x y => le x y = true)) →
      (mergePairs le rs).filter p = rs.flatten.filter p
  | [], _ => rfl
  | [r], _ => by rw [mergePairs, List.flatten_singleton]
  | r₁ :: r₂ :: rs, hs => by
    rw [mergePairs, List.flatten_cons, List.flatten_cons, List.filter_append, List.filter_append,
      List.filter_append, filter_merge trans total p hp r₁ r₂ (hs r₁ List.mem_cons_self),
      filter_mergePairs p hp rs (fun r hr => hs r (List.mem_cons_of_mem _ (List.mem_cons_of_mem _ hr))),
      List.append_assoc]

include trans total in
theorem filter_mergePass (p : α → Bool) (hp : ∀ u v, p u = true → p v = true → le u v = true)
    (l : List α) : (mergePass le l).filter p = l.filter p := by
  rw [mergePass, filter_mergePairs trans total p hp _
    (fun r hr => pairwise_of_isChain trans (List.isChain_of_mem_splitBy hr)), List.flatten_splitBy]

theorem runs_chain_append {d : List α} (hc : d.IsChain (fun x y => le x y = true)) (m : List α) :
    runs le (d ++ m) ≤ runs le m + 1 := by
  rcases d.eq_nil_or_concat' with rfl | ⟨d', x, rfl⟩
  · rw [List.nil_append]
    omega
  cases m with
  | nil =>
    rw [List.append_nil, runs, List.splitBy_of_isChain (List.concat_ne_nil _ _) hc]
    simp
  | cons b m =>
    have hd : d' ++ [x] ≠ [] := List.concat_ne_nil _ _
    by_cases hj : le x b
    · have hchain : (d' ++ [x] ++ b :: (runFrom le b m).1).IsChain (fun x y => le x y = true) := by
        rw [List.isChain_append]
        refine ⟨hc, isChain_runFrom b m, ?_⟩
        intro u hu v hv
        rw [List.getLast?_concat, Option.mem_some_iff] at hu
        rw [List.head?_cons, Option.mem_some_iff] at hv
        subst hu hv
        exact hj
      have hbreak := @runFrom_break _ le b m
      have h := splitBy_run_append (List.append_ne_nil_of_left_ne_nil hd _) hchain
        (by rwa [List.getLast_append_of_ne_nil _ (List.cons_ne_nil _ _)])
      rw [List.append_assoc, List.cons_append, runFrom_append] at h
      rw [runs, h, runs_cons, List.length_cons, runs]
      omega
    · have h := splitBy_run_append hd hc (t := b :: m)
        (by simpa [List.getLast_concat] using hj)
      rw [runs, h, List.length_cons, runs]

include trans total in
theorem runs_mergePairs_le :
    ∀ rs : List (List α), (∀ r ∈ rs, r.Pairwise (fun x y => le x y = true)) →
      runs le (mergePairs le rs) ≤ (rs.length + 1) / 2
  | [], _ => by simp [mergePairs]
  | [r], hs => by
    have h := runs_chain_append (hs r List.mem_cons_self).isChain []
    rw [List.append_nil, runs_nil] at h
    simpa [mergePairs] using h
  | r₁ :: r₂ :: rs, hs => by
    have hm := List.pairwise_merge trans total r₁ r₂ (hs r₁ List.mem_cons_self)
      (hs r₂ (List.mem_cons_of_mem _ List.mem_cons_self))
    have ih := runs_mergePairs_le rs
      (fun r hr => hs r (List.mem_cons_of_mem _ (List.mem_cons_of_mem _ hr)))
    have h := runs_chain_append hm.isChain (mergePairs le rs)
    rw [mergePairs, List.length_cons, List.length_cons]
    omega

include trans total in
theorem runs_mergePass_le (l : List α) : runs le (mergePass le l) ≤ (runs le l + 1) / 2 :=
  runs_mergePairs_le trans total _
    (fun _ hr => pairwise_of_isChain trans (List.isChain_of_mem_splitBy hr))

end TotalPreorder

/-! ## Strict weak orders -/

section StrictWeak

variable (less : α → α → Bool)

/-- `a` may stand before `b`: `b` is not less than `a`. -/
def notLess (a b : α) : Bool := !less b a

/-- Neither of `a` and `b` is less than the other. -/
def equiv (a b : α) : Bool := !less a b && !less b a

theorem isChain_notLess_iff {l : List α} :
    l.IsChain (fun a b => notLess less a b = true) ↔ l.IsChain (fun a b => less b a = false) := by
  simp only [notLess, Bool.not_eq_true']

variable [IsStrictWeakOrder α (fun a b => less a b = true)]

theorem notLess_trans (a b c : α) (hab : notLess less a b = true) (hbc : notLess less b c = true) :
    notLess less a c = true := by
  simp only [notLess, Bool.not_eq_true'] at hab hbc ⊢
  by_contra hca
  rw [Bool.not_eq_false] at hca
  -- `c < a` with `b` incomparable to both would make `c` and `a` incomparable
  have hcb : less b c = false := by
    by_contra h
    rw [Bool.not_eq_false] at h
    exact absurd (IsTrans.trans (r := fun a b => less a b = true) _ _ _ h hca) (by simp [hab])
  have hab' : less a b = false := by
    by_contra h
    rw [Bool.not_eq_false] at h
    exact absurd (IsTrans.trans (r := fun a b => less a b = true) _ _ _ hca h) (by simp [hbc])
  have h := @IsStrictWeakOrder.incomp_trans _ (fun a b => less a b = true) _ c b a
    ⟨by simp [hbc], by simp [hcb]⟩ ⟨by simp [hab], by simp [hab']⟩
  exact h.1 hca

theorem notLess_total (a b : α) : (notLess less a b || notLess less b a) = true := by
  simp only [notLess, Bool.or_eq_true, Bool.not_eq_true']
  by_contra h
  simp only [not_or, Bool.not_eq_false] at h
  exact Std.Irrefl.irrefl (r := fun a b => less a b = true) a
    (IsTrans.trans (r := fun a b => less a b = true) _ _ _ h.2 h.1)

theorem notLess_of_equiv (x u v : α) (hu : equiv less x u = true) (hv : equiv less x v = true) :
    notLess less u v = true := by
  simp only [equiv, Bool.and_eq_true, Bool.not_eq_true'] at hu hv
  have h := @IsStrictWeakOrder.incomp_trans _ (fun a b => less a b = true) _ u x v
    ⟨by simp [hu.2], by simp [hu.1]⟩ ⟨by simp [hv.1], by simp [hv.2]⟩
  simpa [notLess] using h.2

theorem runs_mergePass_lt {l : List α} (h : 2 ≤ runs (notLess less) l) :
    runs (notLess less) (mergePass (notLess less) l) < runs (notLess less) l := by
  have := runs_mergePass_le (notLess_trans less) (notLess_total less) l
  omega

/-- The passes stop within one more than the number of runs, with a permutation of the list
that is sorted and keeps equivalent elements in their order. -/
theorem sortLoop_spec (fuel : Nat) :
    ∀ l : List α, runs (notLess less) l < fuel →
      ∃ ys, sortLoop (notLess less) fuel l = some ys ∧ ys.Perm l ∧
        ys.IsChain (fun a b => less b a = false) ∧
        ∀ x, ys.filter (equiv less x) = l.filter (equiv less x) := by
  induction fuel with
  | zero => intro l h; omega
  | succ fuel ih =>
    intro l hl
    have htrans := notLess_trans less
    have htotal := notLess_total less
    have hstable : ∀ x, (mergePass (notLess less) l).filter (equiv less x) = l.filter (equiv less x) :=
      fun x => filter_mergePass htrans htotal _ (notLess_of_equiv less x) l
    have hfewer := runs_mergePass_le htrans htotal l
    rw [sortLoop]
    by_cases hmore : 1 < (runs (notLess less) l + 1) / 2
    · rw [if_pos hmore]
      have hlt : runs (notLess less) (mergePass (notLess less) l) < fuel := by omega
      obtain ⟨ys, hys, hperm, hsorted, hst⟩ := ih _ hlt
      exact ⟨ys, hys, hperm.trans (mergePass_perm l), hsorted,
        fun x => (hst x).trans (hstable x)⟩
    · rw [if_neg hmore]
      have hone : runs (notLess less) (mergePass (notLess less) l) ≤ 1 := by omega
      have hchain := isChain_of_runs_le_one hone
      exact ⟨_, rfl, mergePass_perm l, (isChain_notLess_iff less).mp hchain, hstable⟩

end StrictWeak

end NaturalMerge
