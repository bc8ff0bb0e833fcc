import Pintos.Foundations.Scans
import Pintos.Kernel.ListOps

/-! # Ordered insertion, removing duplicates, maximum and minimum

Each of these walks a well-formed list once, and its loop is one of the scans of
`Pintos.Foundations.Scans` run over the list's elements:

* the loop of `list_insert_ordered` stops at the first element that the new one is less than
  (`insert_ordered_loop_spec`), so the new element goes in by `insertOrdered`;
* the loop of `list_unique` is `uniqueFrom (equiv less)`: it removes each element equivalent to
  the one kept last and pushes it onto `duplicates` (`unique_loop_spec`);
* the loop shared by `list_max` and `list_min` is `bestOf` (`extreme_loop_spec`), which ends with
  the first maximum or minimum.
-/

namespace Pintos
set_option autoImplicit false
set_option maxHeartbeats 250000
set_option maxRecDepth 120000

open Links NaturalMerge Scans

/-! ## Ordered insertion -/

section InsertOrdered

variable (less : Ptr → Ptr → Bool) {m : ListMem} {l : list}

/-- The loop of `list_insert_ordered`, with `rest` still ahead, stops at the first element of
`rest` that `elem` is less than, or at the tail. -/
theorem insert_ordered_loop_spec (elem : Ptr) : ∀ (rest pre : List Ptr) (fuel : Nat),
    Holds m l (pre ++ rest) → rest.length < fuel →
    insert_ordered_loop less m l elem fuel (cursor l rest) =
      some (cursor l (rest.dropWhile (fun e => !less elem e))) := by
  intro rest
  induction rest with
  | nil =>
    intro pre fuel _ hf
    obtain ⟨fuel, rfl⟩ : ∃ k, fuel = k + 1 := ⟨fuel - 1, by simp at hf; omega⟩
    rw [insert_ordered_loop, if_pos (show cursor l [] = list_end l from rfl), List.dropWhile_nil]
  | cons a rest ih =>
    intro pre fuel h hf
    obtain ⟨fuel, rfl⟩ : ∃ k, fuel = k + 1 := ⟨fuel - 1, by simp at hf; omega⟩
    have ha : cursor l (a :: rest) ≠ list_end l := h.ne_list_end
    rw [insert_ordered_loop, if_neg ha, cursor_cons]
    by_cases hlt : less elem a
    · -- `a` is the first element greater than `elem`
      rw [if_pos hlt, List.dropWhile_cons_of_neg (by simp [hlt]), cursor_cons]
    · have h' : Holds m l ((pre ++ [a]) ++ rest) := by simpa using h
      rw [if_neg hlt, h.list_next_cons, List.dropWhile_cons_of_pos (by simpa using hlt)]
      exact ih (pre ++ [a]) fuel h' (by simp at hf; omega)

/-- `list_insert_ordered` puts `elem` before the first element it is less than, or at the end;
only `elem` and its two new neighbours are written. -/
theorem list_insert_ordered_spec {xs : List Ptr} {elem : Ptr} (fuel : Nat) (h : Holds m l xs)
    (he : elem ∉ chain l xs) (hn : elem ≠ NULL) (hf : xs.length < fuel) :
    ∃ m', list_insert_ordered less fuel m l elem = some m' ∧
      Holds m' l (insertOrdered less elem xs) ∧ ∀ q ∉ chain l xs, q ≠ elem → m' q = m q := by
  have hsplit : xs.takeWhile (fun e => !less elem e) ++ xs.dropWhile (fun e => !less elem e) = xs :=
    List.takeWhile_append_dropWhile
  have h' : Holds m l (xs.takeWhile (fun e => !less elem e) ++ xs.dropWhile (fun e => !less elem e)) := by
    rwa [hsplit]
  have h₀ : Holds m l ([] ++ xs) := h
  obtain ⟨m', hins, hm', hfr⟩ := list_insert_spec h' (by rwa [hsplit]) hn
  refine ⟨m', ?_, hm', fun q hq => hfr q (by rwa [hsplit])⟩
  rw [list_insert_ordered, if_neg hn, h.list_begin_eq, insert_ordered_loop_spec less elem xs [] fuel h₀ hf]
  exact hins

end InsertOrdered

/-! ## Maximum and minimum -/

section Extreme

variable (better : Ptr → Ptr → Bool) {m : ListMem} {l : list}

theorem extreme_loop_spec : ∀ (rest pre : List Ptr) (best : Ptr) (fuel : Nat),
    Holds m l (pre ++ rest) → rest.length < fuel →
    extreme_loop better m l fuel best (cursor l rest) = some (bestOf better best rest) := by
  intro rest
  induction rest with
  | nil =>
    intro pre best fuel _ hf
    obtain ⟨fuel, rfl⟩ : ∃ k, fuel = k + 1 := ⟨fuel - 1, by simp at hf; omega⟩
    rw [extreme_loop, if_pos (show cursor l [] = list_end l from rfl)]
    rfl
  | cons a rest ih =>
    intro pre best fuel h hf
    obtain ⟨fuel, rfl⟩ : ∃ k, fuel = k + 1 := ⟨fuel - 1, by simp at hf; omega⟩
    have ha : cursor l (a :: rest) ≠ list_end l := h.ne_list_end
    have h' : Holds m l ((pre ++ [a]) ++ rest) := by simpa using h
    rw [extreme_loop, if_neg ha, cursor_cons, h.list_next_cons]
    exact ih (pre ++ [a]) _ fuel h' (by simp at hf; omega)

theorem list_extreme_nil (fuel : Nat) (h : Holds m l []) : list_extreme better fuel m l = some l.tail := by
  rw [list_extreme, h.list_begin_eq, if_neg (by simp [list_end])]
  rfl

theorem list_extreme_cons {a : Ptr} {rest : List Ptr} (fuel : Nat) (h : Holds m l (a :: rest))
    (hf : rest.length < fuel) : list_extreme better fuel m l = some (bestOf better a rest) := by
  have h₀ : Holds m l ([] ++ a :: rest) := h
  have ha : a ≠ list_end l := h₀.ne_list_end
  have h₁ : Holds m l ([a] ++ rest) := h
  rw [list_extreme, h.list_begin_eq, cursor_cons, if_pos (by simpa using ha), h₀.list_next_cons]
  exact extreme_loop_spec better rest [a] a fuel h₁ hf

/-- Under a strict weak order, `list_extreme` gives the first element that no element is better
than, or the tail of an empty list. -/
theorem list_extreme_first_best [IsStrictWeakOrder Ptr (fun a b => better a b = true)] {xs : List Ptr}
    (fuel : Nat) (h : Holds m l xs) (hf : xs.length < fuel) :
    list_extreme better fuel m l = some ((xs.find? (IsBest better xs)).getD l.tail) := by
  cases xs with
  | nil => rw [list_extreme_nil better fuel h]; rfl
  | cons a rest =>
    rw [list_extreme_cons better fuel h (by simp at hf; omega), find?_isBest_eq_bestOf]
    rfl

theorem list_min_spec (less : Ptr → Ptr → Bool) [IsStrictWeakOrder Ptr (fun a b => less a b = true)]
    {xs : List Ptr} (fuel : Nat) (h : Holds m l xs) (hf : xs.length < fuel) :
    list_min less fuel m l = some ((xs.find? (fun x => xs.all fun y => !less y x)).getD l.tail) :=
  list_extreme_first_best (fun e min => less e min) fuel h hf

theorem list_max_spec (less : Ptr → Ptr → Bool) [IsStrictWeakOrder Ptr (fun a b => less a b = true)]
    {xs : List Ptr} (fuel : Nat) (h : Holds m l xs) (hf : xs.length < fuel) :
    list_max less fuel m l = some ((xs.find? (fun x => xs.all fun y => !less x y)).getD l.tail) := by
  have := swo_swap (r := less)
  exact list_extreme_first_best (fun e max => less max e) fuel h hf

end Extreme

/-! ## Removing duplicates -/

/-- The chain of the `duplicates` list, or nothing when it is null. -/
def dup_chain : Option list → List Ptr → List Ptr
  | none, _ => []
  | some d, ds => chain d ds

/-- The `duplicates` list, when it is not null, is well formed with elements `ds`. -/
def DupHolds (m : ListMem) : Option list → List Ptr → Prop
  | none, _ => True
  | some d, ds => Holds m d ds

theorem DupHolds.frame {m m' : ListMem} {dup : Option list} {ds : List Ptr} (h : DupHolds m dup ds)
    (hm : ∀ q ∈ dup_chain dup ds, m' q = m q) : DupHolds m' dup ds := by
  cases dup with
  | none => trivial
  | some d => exact Holds.frame h hm

theorem mem_chain_concat {d : list} {ds : List Ptr} {b p : Ptr} :
    p ∈ chain d (ds ++ [b]) ↔ p ∈ chain d ds ∨ p = b := by
  simp only [chain, List.mem_cons, List.mem_append]
  tauto

section Unique

variable (less : Ptr → Ptr → Bool) {l : list}

/-- The loop of `list_unique`, with `elem` the element kept last and `rest` still ahead, is
`uniqueFrom (equiv less)`: the elements it keeps stay in the list and those it drops go onto the
back of `duplicates`.  Nothing outside the two lists is written. -/
theorem unique_loop_spec (dup : Option list) : ∀ (rest pre : List Ptr) (elem : Ptr) (ds : List Ptr)
    (m : ListMem) (fuel : Nat), Holds m l (pre ++ elem :: rest) → DupHolds m dup ds →
    (∀ p ∈ chain l (pre ++ elem :: rest), p ∉ dup_chain dup ds) → rest.length < fuel →
    ∃ m', unique_loop less l dup fuel m elem = some m' ∧
      Holds m' l (pre ++ elem :: (uniqueFrom (equiv less) elem rest).1) ∧
      DupHolds m' dup (ds ++ (uniqueFrom (equiv less) elem rest).2) ∧
      ∀ q ∉ chain l (pre ++ elem :: rest), q ∉ dup_chain dup ds → m' q = m q := by
  intro rest
  induction rest with
  | nil =>
    intro pre elem ds m fuel h hd _ hf
    obtain ⟨fuel, rfl⟩ : ∃ k, fuel = k + 1 := ⟨fuel - 1, by simp at hf; omega⟩
    refine ⟨m, ?_, h, by simpa [uniqueFrom] using hd, fun _ _ _ => rfl⟩
    rw [unique_loop, h.list_next_cons]
    dsimp only
    rw [if_pos (show cursor l [] = list_end l from rfl)]
  | cons b rest ih =>
    intro pre elem ds m fuel h hd hdis hf
    obtain ⟨fuel, rfl⟩ : ∃ k, fuel = k + 1 := ⟨fuel - 1, by simp at hf; omega⟩
    have h₁ : Holds m l ((pre ++ [elem]) ++ b :: rest) := by simpa using h
    have hb : b ≠ list_end l := h₁.ne_list_end
    have hlen : rest.length < fuel := by simp at hf; omega
    rw [unique_loop, h.list_next_cons, cursor_cons]
    dsimp only
    rw [if_neg hb]
    by_cases heq : equiv less elem b
    · -- `b` is equivalent to `elem`: it comes out of the list, and onto `duplicates`
      have heq' : (!less elem b && !less b elem) = true := heq
      rw [if_pos heq']
      have h₂ : Holds m l ((pre ++ [elem]) ++ [b] ++ rest) := by simpa using h
      obtain ⟨m₁, hrem, hl₁, hfr₁⟩ := list_remove_spec h₁
      rw [hrem]
      dsimp only
      have hsub : ∀ p ∈ chain l (pre ++ elem :: rest), p ∈ chain l (pre ++ elem :: b :: rest) := by
        intro p hp
        simpa using Holds.mem_chain_mid (X := pre ++ [elem]) (S := [b]) (Y := rest) (by simpa using hp)
      have hbnot : b ∉ chain l (pre ++ elem :: rest) := by
        simpa using Holds.not_mem_of_mid h₂.nodup (List.mem_singleton_self b)
      have hbmem : b ∈ chain l (pre ++ elem :: b :: rest) := mem_chain_of_mem (by simp)
      have hemem : elem ∈ chain l (pre ++ elem :: b :: rest) := mem_chain_of_mem (by simp)
      have hcmem : cursor l rest ∈ chain l (pre ++ elem :: b :: rest) := by
        simpa using cursor_mem_chain l (pre ++ [elem, b]) rest
      have hl₁' : Holds m₁ l (pre ++ elem :: rest) := by simpa using hl₁
      have hfr₁' : ∀ q ∉ chain l (pre ++ elem :: b :: rest), m₁ q = m q := fun q hq =>
        hfr₁ q (by simpa using ne_of_mem_of_not_mem hemem hq |>.symm)
          (ne_of_mem_of_not_mem hcmem hq).symm
      have hd₁ : DupHolds m₁ dup ds := hd.frame fun q hq => hfr₁' q fun hm => hdis q hm hq
      cases dup with
      | none =>
        obtain ⟨m', hloop, hl', hd', hfr'⟩ :=
          ih pre elem ds m₁ fuel hl₁' trivial (fun _ _ => List.not_mem_nil) hlen
        refine ⟨m', hloop, ?_, trivial, fun q hq _ => ?_⟩
        · rw [uniqueFrom, if_pos heq]
          exact hl'
        · rw [hfr' q (fun hm => hq (hsub q hm)) List.not_mem_nil, hfr₁' q hq]
      | some d =>
        have hbd : b ∉ chain d ds := hdis b hbmem
        obtain ⟨m₂, hpush, hd₂, hfr₂⟩ := list_push_back_spec hd₁ hbd (h.ne_null hbmem)
        dsimp only
        rw [hpush]
        dsimp only
        have hl₂ : Holds m₂ l (pre ++ elem :: rest) := hl₁'.frame fun q hq =>
          hfr₂ q (hdis q (hsub q hq)) (ne_of_mem_of_not_mem hq hbnot)
        have hdis₂ : ∀ p ∈ chain l (pre ++ elem :: rest), p ∉ dup_chain (some d) (ds ++ [b]) := by
          intro p hp hpd
          rcases mem_chain_concat.mp hpd with hpd | hpd
          · exact hdis p (hsub p hp) hpd
          · exact hbnot (hpd ▸ hp)
        obtain ⟨m', hloop, hl', hd', hfr'⟩ := ih pre elem (ds ++ [b]) m₂ fuel hl₂ hd₂ hdis₂ hlen
        refine ⟨m', hloop, ?_, ?_, fun q hq hqd => ?_⟩
        · rw [uniqueFrom, if_pos heq]
          exact hl'
        · rw [uniqueFrom, if_pos heq]
          simpa using hd'
        · have hqb : q ≠ b := fun e => hq (e ▸ hbmem)
          have hqd' : q ∉ dup_chain (some d) (ds ++ [b]) := fun hm =>
            (mem_chain_concat.mp hm).elim hqd hqb
          rw [hfr' q (fun hm => hq (hsub q hm)) hqd', hfr₂ q hqd hqb, hfr₁' q hq]
    · -- `b` is kept and becomes the element kept last
      have heq' : ¬ (!less elem b && !less b elem) = true := heq
      rw [if_neg heq']
      obtain ⟨m', hloop, hl', hd', hfr'⟩ :=
        ih (pre ++ [elem]) b ds m fuel h₁ hd (by simpa using hdis) hlen
      refine ⟨m', hloop, ?_, ?_, fun q hq hqd => hfr' q (by simpa using hq) hqd⟩
      · rw [uniqueFrom, if_neg heq]
        simpa using hl'
      · rw [uniqueFrom, if_neg heq]
        exact hd'

/-- `list_unique` runs `uniqueScan (equiv less)` over the list: what the scan keeps stays in the
list and what it drops is appended to `duplicates` when that is not null. -/
theorem list_unique_scan {m : ListMem} {xs ds : List Ptr} (dup : Option list) (fuel : Nat)
    (h : Holds m l xs) (hd : DupHolds m dup ds) (hdis : ∀ p ∈ chain l xs, p ∉ dup_chain dup ds)
    (hf : xs.length < fuel) :
    ∃ m', list_unique less fuel m l dup = some m' ∧ Holds m' l (uniqueScan (equiv less) xs).1 ∧
      DupHolds m' dup (ds ++ (uniqueScan (equiv less) xs).2) ∧
      ∀ q ∉ chain l xs, q ∉ dup_chain dup ds → m' q = m q := by
  cases xs with
  | nil =>
    refine ⟨m, ?_, h, by simpa [uniqueScan] using hd, fun _ _ _ => rfl⟩
    rw [list_unique, h.list_empty_eq]
    rfl
  | cons a rest =>
    have h₀ : Holds m l ([] ++ a :: rest) := h
    have hempty : list_empty m l = false := by rw [h.list_empty_eq]; rfl
    obtain ⟨m', hloop, hl', hd', hfr'⟩ :=
      unique_loop_spec less dup rest [] a ds m fuel h₀ hd hdis (by simp at hf; omega)
    refine ⟨m', ?_, hl', hd', hfr'⟩
    rw [list_unique, hempty, h.list_begin_eq, cursor_cons]
    exact hloop

/-- Under a strict weak order, `list_unique` keeps the first of each run of adjacent equivalent
elements and appends the others, in order, to `duplicates` when that is not null. -/
theorem list_unique_spec [IsStrictWeakOrder Ptr (fun a b => less a b = true)] {m : ListMem}
    {xs ds : List Ptr} (dup : Option list) (fuel : Nat) (h : Holds m l xs) (hd : DupHolds m dup ds)
    (hdis : ∀ p ∈ chain l xs, p ∉ dup_chain dup ds) (hf : xs.length < fuel) :
    ∃ m', list_unique less fuel m l dup = some m' ∧
      Holds m' l ((xs.splitBy (equiv less)).flatMap (List.take 1)) ∧
      DupHolds m' dup (ds ++ (xs.splitBy (equiv less)).flatMap (List.drop 1)) ∧
      ∀ q ∉ chain l xs, q ∉ dup_chain dup ds → m' q = m q := by
  have hscan : uniqueScan (equiv less) xs = ((xs.splitBy (equiv less)).flatMap (List.take 1),
      (xs.splitBy (equiv less)).flatMap (List.drop 1)) :=
    @uniqueScan_eq_splitBy Ptr (equiv less) (fun _ _ h => equiv_symm h)
      (fun _ _ _ hab hbc => equiv_trans hab hbc) xs
  have hkept : (uniqueScan (equiv less) xs).1 = (xs.splitBy (equiv less)).flatMap (List.take 1) := by
    rw [hscan]
  have hdropped : (uniqueScan (equiv less) xs).2 = (xs.splitBy (equiv less)).flatMap (List.drop 1) := by
    rw [hscan]
  rw [← hkept, ← hdropped]
  exact list_unique_scan less dup fuel h hd hdis hf

end Unique

/-! ## The operations on sequences -/

/-- On well-formed lists, the operations of `list.c` are operations on the sequences of their
elements: insertion before a position, moving a part of a list within it or to another list,
prepending, appending, removal, removing the first or the last element, reversal, insertion
before the first greater element, keeping the first of each run of equivalent elements, and the
first minimum and maximum.  Every list involved stays well formed, and nothing outside the lists
is written. -/
theorem list_operations_refine_sequences :
    (∀ (m : ListMem) (l : list) (X Y : List Ptr) (elem : Ptr), Holds m l (X ++ Y) →
      elem ∉ chain l (X ++ Y) → elem ≠ NULL →
      ∃ m', list_insert m (cursor l Y) elem = some m' ∧ Holds m' l (X ++ elem :: Y) ∧
        ∀ q ∉ chain l (X ++ Y), q ≠ elem → m' q = m q) ∧
    (∀ (m : ListMem) (l : list) (X S B Y : List Ptr) (hS : S ≠ []), Holds m l (X ++ S ++ B ++ Y) →
      ∃ m', list_splice m (cursor l Y) (S.head hS) (cursor l (B ++ Y)) = some m' ∧
        Holds m' l (X ++ B ++ S ++ Y) ∧ ∀ q ∉ chain l (X ++ S ++ B ++ Y), m' q = m q) ∧
    (∀ (m : ListMem) (l : list) (X B S Y : List Ptr) (hB : B ≠ []) (hS : S ≠ []),
      Holds m l (X ++ B ++ S ++ Y) →
      ∃ m', list_splice m (B.head hB) (S.head hS) (cursor l Y) = some m' ∧
        Holds m' l (X ++ S ++ B ++ Y) ∧ ∀ q ∉ chain l (X ++ B ++ S ++ Y), m' q = m q) ∧
    (∀ (m : ListMem) (l l₂ : list) (X S Y X₂ Y₂ : List Ptr) (hS : S ≠ []), Holds m l (X ++ S ++ Y) →
      Holds m l₂ (X₂ ++ Y₂) → (∀ p ∈ chain l (X ++ S ++ Y), p ∉ chain l₂ (X₂ ++ Y₂)) →
      ∃ m', list_splice m (cursor l₂ Y₂) (S.head hS) (cursor l Y) = some m' ∧
        Holds m' l (X ++ Y) ∧ Holds m' l₂ (X₂ ++ S ++ Y₂) ∧
        ∀ q ∉ chain l (X ++ S ++ Y), q ∉ chain l₂ (X₂ ++ Y₂) → m' q = m q) ∧
    (∀ (m : ListMem) (l : list) (xs : List Ptr) (elem : Ptr), Holds m l xs → elem ∉ chain l xs →
      elem ≠ NULL → ∃ m', list_push_front m l elem = some m' ∧ Holds m' l (elem :: xs) ∧
        ∀ q ∉ chain l xs, q ≠ elem → m' q = m q) ∧
    (∀ (m : ListMem) (l : list) (xs : List Ptr) (elem : Ptr), Holds m l xs → elem ∉ chain l xs →
      elem ≠ NULL → ∃ m', list_push_back m l elem = some m' ∧ Holds m' l (xs ++ [elem]) ∧
        ∀ q ∉ chain l xs, q ≠ elem → m' q = m q) ∧
    (∀ (m : ListMem) (l : list) (X Y : List Ptr) (elem : Ptr), Holds m l (X ++ elem :: Y) →
      ∃ m', list_remove m elem = some (m', cursor l Y) ∧ Holds m' l (X ++ Y) ∧
        ∀ q, q ≠ behind l X → q ≠ cursor l Y → m' q = m q) ∧
    (∀ (m : ListMem) (l : list) (a : Ptr) (rest : List Ptr), Holds m l (a :: rest) →
      ∃ m', list_pop_front m l = some (m', a) ∧ Holds m' l rest ∧
        ∀ q, q ≠ l.head → q ≠ cursor l rest → m' q = m q) ∧
    (∀ (m : ListMem) (l : list) (init : List Ptr) (a : Ptr), Holds m l (init ++ [a]) →
      ∃ m', list_pop_back m l = some (m', a) ∧ Holds m' l init ∧
        ∀ q, q ≠ behind l init → q ≠ l.tail → m' q = m q) ∧
    (∀ (m : ListMem) (l : list) (xs : List Ptr) (fuel : Nat), Holds m l xs → xs.length < fuel →
      ∃ m', list_reverse fuel m l = some m' ∧ Holds m' l xs.reverse ∧ ∀ q ∉ chain l xs, m' q = m q) ∧
    (∀ (less : Ptr → Ptr → Bool) (m : ListMem) (l : list) (xs : List Ptr) (elem : Ptr) (fuel : Nat),
      Holds m l xs → elem ∉ chain l xs → elem ≠ NULL → xs.length < fuel →
      ∃ m', list_insert_ordered less fuel m l elem = some m' ∧
        Holds m' l (xs.takeWhile (fun e => !less elem e) ++ elem :: xs.dropWhile (fun e => !less elem e)) ∧
        (IsStrictWeakOrder Ptr (fun a b => less a b = true) → xs.IsChain (fun a b => less b a = false) →
          ∀ x ∈ xs.dropWhile (fun e => !less elem e), less elem x = true) ∧
        ∀ q ∉ chain l xs, q ≠ elem → m' q = m q) ∧
    (∀ (less : Ptr → Ptr → Bool), IsStrictWeakOrder Ptr (fun a b => less a b = true) →
      ∀ (m : ListMem) (l : list) (xs : List Ptr) (dup : Option list) (ds : List Ptr) (fuel : Nat),
      Holds m l xs → DupHolds m dup ds → (∀ p ∈ chain l xs, p ∉ dup_chain dup ds) → xs.length < fuel →
      ∃ m', list_unique less fuel m l dup = some m' ∧
        Holds m' l ((xs.splitBy (equiv less)).flatMap (List.take 1)) ∧
        DupHolds m' dup (ds ++ (xs.splitBy (equiv less)).flatMap (List.drop 1)) ∧
        ∀ q ∉ chain l xs, q ∉ dup_chain dup ds → m' q = m q) ∧
    (∀ (less : Ptr → Ptr → Bool), IsStrictWeakOrder Ptr (fun a b => less a b = true) →
      ∀ (m : ListMem) (l : list) (xs : List Ptr) (fuel : Nat), Holds m l xs → xs.length < fuel →
      list_min less fuel m l = some ((xs.find? (fun x => xs.all fun y => !less y x)).getD l.tail) ∧
      list_max less fuel m l = some ((xs.find? (fun x => xs.all fun y => !less x y)).getD l.tail)) := by
  refine ⟨fun m l X Y elem h he hn => list_insert_spec h he hn,
    fun m l X S B Y hS h => list_splice_forward h hS,
    fun m l X B S Y hB hS h => list_splice_backward h hB hS,
    fun m l l₂ X S Y X₂ Y₂ hS h h₂ hd => list_splice_between h h₂ hd hS,
    fun m l xs elem h he hn => list_push_front_spec h he hn,
    fun m l xs elem h he hn => list_push_back_spec h he hn,
    fun m l X Y elem h => list_remove_spec h,
    fun m l a rest h => list_pop_front_spec h,
    fun m l init a h => list_pop_back_spec h,
    fun m l xs fuel h hf => list_reverse_spec fuel h hf, ?_,
    fun less _ m l xs dup ds fuel h hd hdis hf => list_unique_spec less dup fuel h hd hdis hf,
    fun less _ m l xs fuel h hf => ⟨list_min_spec less fuel h hf, list_max_spec less fuel h hf⟩⟩
  intro less m l xs elem fuel h he hn hf
  obtain ⟨m', hins, hm', hfr⟩ := list_insert_ordered_spec less fuel h he hn hf
  refine ⟨m', hins, hm', fun _ hsorted x hx => ?_, hfr⟩
  exact lt_of_mem_dropWhile ((isChain_notLess_iff less).mpr hsorted) hx

/-- The list `1 ⇄ 3 ⇄ 2` with head `1`, tail `2` and one element, `3`. -/
def sample_list_mem : ListMem
  | 1 => ⟨0, 3⟩
  | 3 => ⟨1, 2⟩
  | 2 => ⟨3, 0⟩
  | _ => ⟨0, 0⟩

theorem sample_list_holds : Holds sample_list_mem ⟨1, 2⟩ [3] where
  head_prev := rfl
  tail_next := rfl
  linked := by simp [Linked, chain, nxt, prv, sample_list_mem]
  nodup := by decide
  not_null := by decide

theorem list_operations_refine_sequences_sample :
    Holds sample_list_mem ⟨1, 2⟩ [3] ∧
      ∃ m', list_push_back sample_list_mem ⟨1, 2⟩ 4 = some m' ∧ Holds m' ⟨1, 2⟩ [3, 4] := by
  obtain ⟨m', hpush, hm', -⟩ :=
    list_operations_refine_sequences.2.2.2.2.2.1 sample_list_mem ⟨1, 2⟩ [3] 4 sample_list_holds (by decide)
      (by decide)
  exact ⟨sample_list_holds, m', hpush, hm'⟩

end Pintos
