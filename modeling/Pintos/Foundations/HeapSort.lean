import Mathlib.Logic.Equiv.Basic
import Mathlib.Tactic.SplitIfs
import Mathlib.Tactic.Set
import Mathlib.Data.Nat.Init
import Mathlib.Data.List.Nodup
import Mathlib.Data.List.Perm.Subperm
import Pintos.Foundations.IntCmp

/-! # Heap sort on a 1-based array

The heap of positions `1 … cnt` has the children of `k` at `2k` and `2k + 1`.  `heapify` floats
the element at `i` down it, `build` makes a heap by floating down every inner node from the last,
and `sort_down` moves the root past the heap and floats the new root down until one element is
left.  The array is anything with a swap of two positions and a three-way comparison of two
positions, so that a byte array of fixed-size elements and an array given as a function of the
positions run the same algorithm; `heapify_map` and `sort_map` carry a run from one to the other.

For an array given as a function, `sort_spec` proves the result sorted under any total preorder
and a permutation of the positions `1 … cnt`: the sift-down keeps the heap order away from the
node being floated (`SiftInv`, the classic "heap except at `j`"), and the second loop keeps a heap
below a sorted suffix whose every element is at least every element of the heap (`SortInv`).
-/

namespace HeapSort
set_option autoImplicit false

section Algorithm

variable {σ : Type} (swap : σ → Nat → Nat → σ) (cmp : σ → Nat → Nat → Int)

/-- The position of the largest of `i` and its children inside `cnt`: a child replaces the
choice so far only when it compares above it. -/
def heap_max (s : σ) (i cnt : Nat) : Nat :=
  let max := if 2 * i ≤ cnt ∧ cmp s (2 * i) i > 0 then 2 * i else i
  if 2 * i + 1 ≤ cnt ∧ cmp s (2 * i + 1) max > 0 then 2 * i + 1 else max

theorem heap_max_cases (s : σ) (i cnt : Nat) :
    heap_max cmp s i cnt = i ∨ i < heap_max cmp s i cnt ∧ heap_max cmp s i cnt ≤ cnt := by
  unfold heap_max
  dsimp only
  split_ifs <;> omega

/-- Float the element at `i` down the heap of `1 … cnt`. -/
def heapify (s : σ) (i cnt : Nat) : σ :=
  if _h : heap_max cmp s i cnt = i then s
  else heapify (swap s i (heap_max cmp s i cnt)) (heap_max cmp s i cnt) cnt
termination_by cnt + 1 - i
decreasing_by
  have := (heap_max_cases cmp s i cnt).resolve_left _h
  omega

/-- The first loop of the sort: `heapify` at `i`, `i - 1`, …, `1`. -/
def build (s : σ) (cnt : Nat) : Nat → σ
  | 0 => s
  | i + 1 => build (heapify swap cmp s (i + 1) cnt) cnt i

/-- The second loop of the sort, from `i` down to `2`: swap the root with position `i`, the end
of the heap, and float the new root down the heap of `1 … i - 1`. -/
def sort_down (s : σ) : Nat → σ
  | i + 2 => sort_down (heapify swap cmp (swap s 1 (i + 2)) 1 (i + 1)) (i + 1)
  | _ => s

def sort (s : σ) (cnt : Nat) : σ := sort_down swap cmp (build swap cmp s cnt (cnt / 2)) cnt

end Algorithm

/-! ## Two arrays that run the same sort -/

section Simulation

variable {σ τ : Type} {swap : σ → Nat → Nat → σ} {cmp : σ → Nat → Nat → Int}
  {swap' : τ → Nat → Nat → τ} {cmp' : τ → Nat → Nat → Int} (E : σ → τ)
  (hswap : ∀ s i j, 1 ≤ i → 1 ≤ j → E (swap s i j) = swap' (E s) i j)
  (hcmp : ∀ s i j, 1 ≤ i → 1 ≤ j → cmp s i j = cmp' (E s) i j)

include hcmp in
theorem heap_max_map (s : σ) {i : Nat} (hi : 1 ≤ i) (cnt : Nat) :
    heap_max cmp s i cnt = heap_max cmp' (E s) i cnt := by
  unfold heap_max
  dsimp only
  rw [hcmp s (2 * i) i (by omega) hi]
  by_cases hleft : 2 * i ≤ cnt ∧ cmp' (E s) (2 * i) i > 0
  · rw [if_pos hleft, hcmp s (2 * i + 1) (2 * i) (by omega) (by omega)]
  · rw [if_neg hleft, hcmp s (2 * i + 1) i (by omega) hi]

include hswap hcmp

/-- The sift-down runs the same on both arrays: each step compares and swaps the same
positions. -/
theorem heapify_map (s : σ) {i : Nat} (hi : 1 ≤ i) (cnt : Nat) :
    E (heapify swap cmp s i cnt) = heapify swap' cmp' (E s) i cnt := by
  induction hn : cnt + 1 - i using Nat.strong_induction_on generalizing s i with
  | _ n ih =>
    rw [heapify.eq_1 swap cmp s i cnt, heapify.eq_1 swap' cmp' (E s) i cnt,
      ← heap_max_map E hcmp s hi cnt]
    split
    · rfl
    · next hne =>
      have hm := (heap_max_cases cmp s i cnt).resolve_left hne
      rw [← hswap s i _ hi (by omega)]
      exact ih _ (by omega) _ (by omega) rfl

theorem build_map (cnt : Nat) : ∀ (i : Nat) (s : σ), E (build swap cmp s cnt i) = build swap' cmp' (E s) cnt i
  | 0, _ => rfl
  | i + 1, s => by
    rw [build, build, ← heapify_map E hswap hcmp s (by omega) cnt]
    exact build_map cnt i _

theorem sort_down_map : ∀ (i : Nat) (s : σ), E (sort_down swap cmp s i) = sort_down swap' cmp' (E s) i
  | 0, _ => rfl
  | 1, _ => rfl
  | i + 2, s => by
    rw [sort_down, sort_down, ← hswap s 1 (i + 2) (Nat.le_refl 1) (by omega),
      ← heapify_map E hswap hcmp _ (Nat.le_refl 1) (i + 1)]
    exact sort_down_map (i + 1) _

theorem sort_map (s : σ) (cnt : Nat) : E (sort swap cmp s cnt) = sort swap' cmp' (E s) cnt := by
  rw [sort, sort, sort_down_map E hswap hcmp, build_map E hswap hcmp]

end Simulation

/-! ## Permutations of a range of positions -/

section Perm

variable {α : Type}

/-- `g` is `f` with the positions `lo … hi` permuted. -/
def PermOn (f g : Nat → α) (lo hi : Nat) : Prop :=
  ∃ π : Equiv.Perm Nat, (∀ k, k < lo ∨ hi < k → π k = k) ∧ g = f ∘ π

theorem PermOn.refl (f : Nat → α) (lo hi : Nat) : PermOn f f lo hi :=
  ⟨Equiv.refl Nat, fun _ _ => rfl, rfl⟩

theorem PermOn.trans {f g h : Nat → α} {lo hi : Nat} (hfg : PermOn f g lo hi) (hgh : PermOn g h lo hi) :
    PermOn f h lo hi := by
  obtain ⟨π₁, hπ₁, rfl⟩ := hfg
  obtain ⟨π₂, hπ₂, rfl⟩ := hgh
  refine ⟨π₂.trans π₁, fun k hk => ?_, rfl⟩
  rw [Equiv.trans_apply, hπ₂ k hk, hπ₁ k hk]

theorem PermOn.mono {f g : Nat → α} {lo hi lo' hi' : Nat} (h : PermOn f g lo hi) (hlo : lo' ≤ lo)
    (hhi : hi ≤ hi') : PermOn f g lo' hi' := by
  obtain ⟨π, hπ, rfl⟩ := h
  exact ⟨π, fun k hk => hπ k (by omega), rfl⟩

theorem PermOn.swap (f : Nat → α) {lo hi i j : Nat} (hi₁ : lo ≤ i) (hi₂ : i ≤ hi) (hj₁ : lo ≤ j)
    (hj₂ : j ≤ hi) : PermOn f (f ∘ Equiv.swap i j) lo hi :=
  ⟨Equiv.swap i j, fun k hk => Equiv.swap_apply_of_ne_of_ne (by omega) (by omega), rfl⟩

theorem PermOn.frame {f g : Nat → α} {lo hi : Nat} (h : PermOn f g lo hi) {k : Nat} (hk : k < lo ∨ hi < k) :
    g k = f k := by
  obtain ⟨π, hπ, rfl⟩ := h
  simp [hπ k hk]

theorem mem_range_of_fixes {π : Equiv.Perm Nat} {lo hi : Nat} (hπ : ∀ k, k < lo ∨ hi < k → π k = k)
    {k : Nat} (hk₁ : lo ≤ k) (hk₂ : k ≤ hi) : lo ≤ π k ∧ π k ≤ hi := by
  by_contra hout
  have hfix := hπ (π k) (by omega)
  have := π.injective hfix
  omega

theorem PermOn.mem {f g : Nat → α} {lo hi : Nat} (h : PermOn f g lo hi) {k : Nat} (hk₁ : lo ≤ k)
    (hk₂ : k ≤ hi) : ∃ k', lo ≤ k' ∧ k' ≤ hi ∧ g k = f k' := by
  obtain ⟨π, hπ, rfl⟩ := h
  obtain ⟨h₁, h₂⟩ := mem_range_of_fixes hπ hk₁ hk₂
  exact ⟨π k, h₁, h₂, rfl⟩

theorem PermOn.list_perm {f g : Nat → α} {lo hi : Nat} (h : PermOn f g lo hi) :
    ((List.range' lo (hi + 1 - lo)).map g).Perm ((List.range' lo (hi + 1 - lo)).map f) := by
  obtain ⟨π, hπ, rfl⟩ := h
  have hnodup : ((List.range' lo (hi + 1 - lo)).map π).Nodup := List.Nodup.map π.injective List.nodup_range'
  have hsub : (List.range' lo (hi + 1 - lo)).map π ⊆ List.range' lo (hi + 1 - lo) := by
    intro x hx
    obtain ⟨k, hk, rfl⟩ := List.mem_map.mp hx
    rw [List.mem_range'_1] at hk ⊢
    have := mem_range_of_fixes hπ (k := k) (by omega) (by omega)
    omega
  rw [← List.map_map]
  exact ((hnodup.subperm hsub).perm_of_length_le (by simp)).map f

end Perm

/-! ## Sorting an array given as a function -/

section Functions

variable {α : Type} (c : α → α → Int)

/-- The swap of two positions of an array given as a function. -/
def swap_at (f : Nat → α) (i j : Nat) : Nat → α := f ∘ Equiv.swap i j

/-- The comparison of two positions of an array given as a function. -/
def cmp_at (f : Nat → α) (i j : Nat) : Int := c (f i) (f j)

/-- Node `k` is at least each of its children inside `cnt`. -/
def NodeOk (f : Nat → α) (cnt k : Nat) : Prop :=
  ∀ ch, (ch = 2 * k ∨ ch = 2 * k + 1) → ch ≤ cnt → c (f ch) (f k) ≤ 0

/-- The heap order at every node from `lo` on. -/
def IsHeap (f : Nat → α) (lo cnt : Nat) : Prop := ∀ k, lo ≤ k → NodeOk c f cnt k

/-- The heap order at every node from `lo` on but `j`, whose parent is at least `j`'s
children: what holds while `j` floats down. -/
structure SiftInv (f : Nat → α) (lo cnt j : Nat) : Prop where
  nodes : ∀ k, lo ≤ k → k ≠ j → NodeOk c f cnt k
  parent : ∀ k, lo ≤ k → (j = 2 * k ∨ j = 2 * k + 1) →
    ∀ ch, (ch = 2 * j ∨ ch = 2 * j + 1) → ch ≤ cnt → c (f ch) (f k) ≤ 0

/-- Positions `1 … cnt` in nondecreasing order. -/
def Sorted (f : Nat → α) (cnt : Nat) : Prop :=
  ∀ j k, 1 ≤ j → j < k → k ≤ cnt → c (f j) (f k) ≤ 0

/-- What the second loop keeps at `i`: a heap of `1 … i` below a sorted suffix. -/
structure SortInv (f : Nat → α) (i cnt : Nat) : Prop where
  heap : IsHeap c f 1 i
  sorted : ∀ j k, i < j → j < k → k ≤ cnt → c (f j) (f k) ≤ 0
  below : ∀ j k, 1 ≤ j → j ≤ i → i < k → k ≤ cnt → c (f j) (f k) ≤ 0

variable {c} [Std.TransCmp (IntCmp.ord c)]

omit [Std.TransCmp (IntCmp.ord c)] in
theorem heap_max_child {f : Nat → α} {j cnt : Nat} (h : heap_max (cmp_at c) f j cnt ≠ j) :
    heap_max (cmp_at c) f j cnt = 2 * j ∨ heap_max (cmp_at c) f j cnt = 2 * j + 1 := by
  revert h
  unfold heap_max
  dsimp only
  split_ifs <;> omega

theorem heap_max_ge (f : Nat → α) (j cnt : Nat) :
    c (f j) (f (heap_max (cmp_at c) f j cnt)) ≤ 0 ∧
      ∀ ch, (ch = 2 * j ∨ ch = 2 * j + 1) → ch ≤ cnt → c (f ch) (f (heap_max (cmp_at c) f j cnt)) ≤ 0 := by
  have hleft : c (f j) (f (if 2 * j ≤ cnt ∧ cmp_at c f (2 * j) j > 0 then 2 * j else j)) ≤ 0 ∧
      (2 * j ≤ cnt → c (f (2 * j)) (f (if 2 * j ≤ cnt ∧ cmp_at c f (2 * j) j > 0 then 2 * j else j)) ≤ 0) := by
    split_ifs with h
    · have hpos : 0 < c (f (2 * j)) (f j) := h.2
      exact ⟨IntCmp.le_of_pos hpos, fun _ => (IntCmp.cmp_self _).le⟩
    · refine ⟨(IntCmp.cmp_self _).le, fun hl => ?_⟩
      simp only [cmp_at, not_and, not_lt] at h
      exact h hl
  unfold heap_max
  dsimp only
  generalize (if 2 * j ≤ cnt ∧ cmp_at c f (2 * j) j > 0 then 2 * j else j) = max at hleft ⊢
  by_cases hright : 2 * j + 1 ≤ cnt ∧ cmp_at c f (2 * j + 1) max > 0
  · -- the right child beats `max`, hence `j` and the left child too
    rw [if_pos hright]
    have hlt : c (f max) (f (2 * j + 1)) ≤ 0 := IntCmp.le_of_pos hright.2
    refine ⟨IntCmp.le_trans hleft.1 hlt, fun ch hch hle => ?_⟩
    rcases hch with rfl | rfl
    · exact IntCmp.le_trans (hleft.2 hle) hlt
    · exact (IntCmp.cmp_self _).le
  · rw [if_neg hright]
    refine ⟨hleft.1, fun ch hch hle => ?_⟩
    rcases hch with rfl | rfl
    · exact hleft.2 hle
    · simp only [cmp_at, not_and, not_lt] at hright
      exact hright hle

variable {f : Nat → α} {lo cnt j : Nat}

theorem SiftInv.heap (hs : SiftInv c f lo cnt j) (hm : heap_max (cmp_at c) f j cnt = j) : IsHeap c f lo cnt := by
  intro k hk
  by_cases hkj : k = j
  · subst hkj
    intro ch hch hle
    have := (heap_max_ge (c := c) f k cnt).2 ch hch hle
    rwa [hm] at this
  · exact hs.nodes k hk hkj

/-- One step of the sift-down: `j` swaps with its larger child `m`, and `m` is the node left to
float. -/
theorem SiftInv.step (hs : SiftInv c f lo cnt j) (hlo : 1 ≤ lo) (hj : lo ≤ j)
    (hm : heap_max (cmp_at c) f j cnt ≠ j) :
    SiftInv c (swap_at f j (heap_max (cmp_at c) f j cnt)) lo cnt (heap_max (cmp_at c) f j cnt) := by
  set m := heap_max (cmp_at c) f j cnt with hm_def
  have hmc : m = 2 * j ∨ m = 2 * j + 1 := heap_max_child hm
  have hmle : m ≤ cnt := ((heap_max_cases (cmp_at c) f j cnt).resolve_left hm).2
  obtain ⟨hjm, hch⟩ := heap_max_ge (c := c) f j cnt
  rw [← hm_def] at hjm hch
  have hj_at : swap_at f j m j = f m := by simp [swap_at]
  have hm_at : swap_at f j m m = f j := by simp [swap_at]
  have hother : ∀ k, k ≠ j → k ≠ m → swap_at f j m k = f k := fun k h₁ h₂ => by
    simp [swap_at, Equiv.swap_apply_of_ne_of_ne h₁ h₂]
  constructor
  · intro k hk hkm ch hchk hle
    by_cases hkj : k = j
    · subst hkj
      rw [hj_at]
      by_cases hchm : ch = m
      · rw [hchm, hm_at]
        exact hjm
      · rw [hother ch (by omega) hchm]
        exact hch ch hchk hle
    · rw [hother k hkj hkm]
      by_cases hchj : ch = j
      · rw [hchj, hj_at]
        exact hs.parent k hk (by omega) m hmc hmle
      · rw [hother ch hchj (by omega)]
        exact hs.nodes k hk hkj ch hchk hle
  · intro k hk hkpar ch hchm hle
    have hkj : k = j := by omega
    subst hkj
    rw [hj_at, hother ch (by omega) (by omega)]
    exact hs.nodes m (by omega) hm ch hchm hle

theorem heapify_spec (hs : SiftInv c f lo cnt j) (hlo : 1 ≤ lo) (hj : lo ≤ j) :
    IsHeap c (heapify swap_at (cmp_at c) f j cnt) lo cnt ∧
      PermOn f (heapify swap_at (cmp_at c) f j cnt) lo cnt := by
  induction hn : cnt + 1 - j using Nat.strong_induction_on generalizing f j with
  | _ n ih =>
    rw [heapify.eq_1]
    split
    · next hm => exact ⟨hs.heap hm, PermOn.refl f lo cnt⟩
    · next hm =>
      have hcases := (heap_max_cases (cmp_at c) f j cnt).resolve_left hm
      obtain ⟨hheap, hperm⟩ := ih _ (by omega) (hs.step hlo hj hm) (by omega) rfl
      exact ⟨hheap, (PermOn.swap f hj (by omega) (by omega) hcases.2).trans hperm⟩

/-- The first loop makes a heap of `1 … cnt`, `heapify` at `i + 1` extending the heap from
`i + 2` on to a heap from `i + 1` on. -/
theorem build_spec (cnt : Nat) : ∀ (i : Nat) (f : Nat → α), IsHeap c f (i + 1) cnt →
    IsHeap c (build swap_at (cmp_at c) f cnt i) 1 cnt ∧ PermOn f (build swap_at (cmp_at c) f cnt i) 1 cnt
  | 0, f, h => ⟨h, PermOn.refl f 1 cnt⟩
  | i + 1, f, h => by
    have hs : SiftInv c f (i + 1) cnt (i + 1) :=
      ⟨fun k hk hne => h k (by omega), fun k hk hpar => by omega⟩
    obtain ⟨hheap, hperm⟩ := heapify_spec hs (by omega) (Nat.le_refl _)
    obtain ⟨hheap', hperm'⟩ := build_spec cnt i _ hheap
    exact ⟨hheap', (hperm.mono (by omega) (Nat.le_refl _)).trans hperm'⟩

theorem IsHeap.root_max {n : Nat} (h : IsHeap c f 1 n) : ∀ k, 1 ≤ k → k ≤ n → c (f k) (f 1) ≤ 0 := by
  intro k
  induction k using Nat.strong_induction_on with
  | _ k ih =>
    intro hk hkn
    by_cases h1 : k = 1
    · subst h1
      exact (IntCmp.cmp_self _).le
    · -- `k` is below its parent `k / 2`, which is below the root
      have hp := h (k / 2) (by omega) k (by omega) hkn
      exact IntCmp.le_trans hp (ih (k / 2) (by omega) (by omega) (by omega))

theorem SortInv.step {i : Nat} (hs : SortInv c f (i + 2) cnt) (hi : i + 2 ≤ cnt) :
    SortInv c (heapify swap_at (cmp_at c) (swap_at f 1 (i + 2)) 1 (i + 1)) (i + 1) cnt ∧
      PermOn f (heapify swap_at (cmp_at c) (swap_at f 1 (i + 2)) 1 (i + 1)) 1 cnt := by
  set f₁ := swap_at f 1 (i + 2) with hf₁
  have hf₁_perm : PermOn f f₁ 1 (i + 2) := PermOn.swap f (Nat.le_refl _) (by omega) (by omega) (Nat.le_refl _)
  -- the new root floats down a heap of `1 … i + 1` whose other nodes are in order
  have hsift : SiftInv c f₁ 1 (i + 1) 1 := by
    refine ⟨fun k hk hk1 ch hch hle => ?_, fun k hk hpar => by omega⟩
    have hk' : f₁ k = f k := by
      simp [hf₁, swap_at, Equiv.swap_apply_of_ne_of_ne (a := 1) (b := i + 2) hk1 (by omega : k ≠ i + 2)]
    have hch' : f₁ ch = f ch := by
      simp [hf₁, swap_at, Equiv.swap_apply_of_ne_of_ne (a := 1) (b := i + 2) (by omega : ch ≠ 1) (by omega : ch ≠ i + 2)]
    rw [hk', hch']
    exact hs.heap k hk ch hch (by omega)
  obtain ⟨hheap, hperm⟩ := heapify_spec hsift (Nat.le_refl _) (Nat.le_refl _)
  set g := heapify swap_at (cmp_at c) f₁ 1 (i + 1)
  have hg_perm : PermOn f g 1 (i + 2) := hf₁_perm.trans (hperm.mono (Nat.le_refl _) (by omega))
  have hroot : g (i + 2) = f 1 := by
    rw [hperm.frame (by omega)]
    simp [hf₁, swap_at]
  have htail : ∀ k, i + 2 < k → g k = f k := fun k hk => hg_perm.frame (by omega)
  refine ⟨⟨hheap, fun j k hj hjk hk => ?_, fun j k hj hji hk hkc => ?_⟩, hg_perm.mono (Nat.le_refl _) hi⟩
  · rw [htail k (by omega)]
    by_cases hj2 : j = i + 2
    · rw [hj2, hroot]
      exact hs.below 1 k (Nat.le_refl _) (by omega) (by omega) hk
    · rw [htail j (by omega)]
      exact hs.sorted j k (by omega) hjk hk
  · -- what the heap holds now came from the old heap, which is below the old root
    obtain ⟨x, hx₁, hx₂, hgx⟩ := hg_perm.mem hj (by omega)
    rw [hgx]
    by_cases hk2 : k = i + 2
    · rw [hk2, hroot]
      exact hs.heap.root_max x hx₁ hx₂
    · rw [htail k (by omega)]
      exact hs.below x k hx₁ hx₂ (by omega) hkc

theorem sort_down_spec (cnt : Nat) : ∀ (n : Nat) (f : Nat → α), SortInv c f n cnt → n ≤ cnt →
    Sorted c (sort_down swap_at (cmp_at c) f n) cnt ∧ PermOn f (sort_down swap_at (cmp_at c) f n) 1 cnt
  | 0, f, hs, _ => ⟨fun j k hj hjk hk => hs.sorted j k (by omega) hjk hk, PermOn.refl f 1 cnt⟩
  | 1, f, hs, _ => by
    refine ⟨fun j k hj hjk hk => ?_, PermOn.refl f 1 cnt⟩
    by_cases hj1 : j = 1
    · exact hs.below j k hj (by omega) (by omega) hk
    · exact hs.sorted j k (by omega) hjk hk
  | i + 2, f, hs, hn => by
    obtain ⟨hs', hperm⟩ := hs.step hn
    obtain ⟨hsorted, hperm'⟩ := sort_down_spec cnt (i + 1) _ hs' (by omega)
    exact ⟨hsorted, hperm.trans hperm'⟩

theorem sort_spec (f : Nat → α) (cnt : Nat) :
    Sorted c (sort swap_at (cmp_at c) f cnt) cnt ∧ PermOn f (sort swap_at (cmp_at c) f cnt) 1 cnt := by
  have hleaves : IsHeap c f (cnt / 2 + 1) cnt := fun k hk ch hch hle => by omega
  obtain ⟨hheap, hperm⟩ := build_spec cnt (cnt / 2) f hleaves
  have hinv : SortInv c (build swap_at (cmp_at c) f cnt (cnt / 2)) cnt cnt :=
    ⟨hheap, fun j k hj hjk hk => by omega, fun j k _ _ hk hkc => by omega⟩
  obtain ⟨hsorted, hperm'⟩ := sort_down_spec cnt cnt _ hinv (Nat.le_refl _)
  exact ⟨hsorted, hperm.trans hperm'⟩

end Functions

end HeapSort
