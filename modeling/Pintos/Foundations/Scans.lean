import Mathlib.Logic.Function.Basic
import Mathlib.Data.List.TakeWhile
import Pintos.Foundations.NaturalMerge

/-! # Single passes over a list under a strict weak order

Three loops that walk a list once, each with the statement of what it computes:

* `bestOf` keeps the best element seen so far and gives way only to a strictly better one.  It
  ends with the first element of the list that no element is better than
  (`find?_isBest_eq_bestOf`).
* `uniqueScan` keeps an element unless it is equivalent to the element kept last, and collects
  the ones it drops.  For an equivalence this keeps the first of each run of adjacent
  equivalent elements and drops the rest of the run (`uniqueScan_eq_splitBy`).
* `insertOrdered` puts an element before the first element it is less than.  In a sorted list
  every element from there on is greater than it (`lt_of_mem_dropWhile`).
-/

namespace Scans

open NaturalMerge

variable {α : Type}

/-! ## Strict weak orders -/

section StrictWeak

variable {r : α → α → Bool}

theorem equiv_symm {a b : α} (h : equiv r a b = true) : equiv r b a = true := by
  simp only [equiv, Bool.and_eq_true] at h ⊢
  exact ⟨h.2, h.1⟩

variable [IsStrictWeakOrder α (fun a b => r a b = true)]

theorem swo_irrefl (a : α) : r a a = false := by
  simpa using Std.Irrefl.irrefl (r := fun a b => r a b = true) a

theorem swo_trans {a b c : α} (hab : r a b = true) (hbc : r b c = true) : r a c = true :=
  IsTrans.trans (r := fun a b => r a b = true) _ _ _ hab hbc

theorem swo_of_not_lt {a b c : α} (hac : r a c = true) (hbc : r b c = false) : r a b = true := by
  by_contra hab
  rw [Bool.not_eq_true] at hab
  -- otherwise `a`, `b` and `c` would be pairwise incomparable, but `a` is below `c`
  have hba : r b a = false := by
    by_contra h
    rw [Bool.not_eq_false] at h
    rw [swo_trans h hac] at hbc
    exact Bool.noConfusion hbc
  have hcb : r c b = false := by
    by_contra h
    rw [Bool.not_eq_false] at h
    rw [swo_trans hac h] at hab
    exact Bool.noConfusion hab
  have h := @IsStrictWeakOrder.incomp_trans _ (fun a b => r a b = true) _ a b c
    ⟨by simp [hab], by simp [hba]⟩ ⟨by simp [hbc], by simp [hcb]⟩
  exact h.1 hac

theorem equiv_trans {a b c : α} (hab : equiv r a b = true) (hbc : equiv r b c = true) :
    equiv r a c = true := by
  simp only [equiv, Bool.and_eq_true, Bool.not_eq_true'] at hab hbc ⊢
  have h := @IsStrictWeakOrder.incomp_trans _ (fun a b => r a b = true) _ a b c
    ⟨by simp [hab.1], by simp [hab.2]⟩ ⟨by simp [hbc.1], by simp [hbc.2]⟩
  simpa using h

theorem swo_swap : IsStrictWeakOrder α (fun a b => r b a = true) :=
  inferInstanceAs (IsStrictWeakOrder α (Function.swap fun a b => r a b = true))

end StrictWeak

/-! ## The first best element -/

section Best

variable (better : α → α → Bool)

/-- The scan: `best` gives way to each later element that is better than it. -/
def bestOf (best : α) : List α → α
  | [] => best
  | e :: l => bestOf (if better e best then e else best) l

/-- No element of `l` is better than `x`. -/
def IsBest (l : List α) (x : α) : Bool := l.all fun y => !better y x

variable {better} [IsStrictWeakOrder α (fun a b => better a b = true)]

/-- The invariant of the scan, over the part `u ++ b :: v` of the list it has passed: no element
of it is better than `b`, and `b` is better than every element before it. -/
theorem bestOf_inv (l : List α) :
    ∀ (b : α) (u v : List α), (∀ y ∈ u ++ b :: v, better y b = false) → (∀ y ∈ u, better b y = true) →
      ∃ u' v', u ++ b :: v ++ l = u' ++ bestOf better b l :: v' ∧
        (∀ y ∈ u' ++ bestOf better b l :: v', better y (bestOf better b l) = false) ∧
        ∀ y ∈ u', better (bestOf better b l) y = true := by
  induction l with
  | nil => intro b u v hb hu; exact ⟨u, v, by simp [bestOf], hb, hu⟩
  | cons e l ih =>
    intro b u v hb hu
    by_cases he : better e b
    · -- `e` takes over: nothing passed is better than it, and it is better than all of it
      have hb' : ∀ y ∈ (u ++ b :: v) ++ [e], better y e = false := by
        intro y hy
        rcases List.mem_append.mp hy with hy | hy
        · by_contra h
          rw [Bool.not_eq_false] at h
          have hyb : better y b = true := swo_trans h he
          rw [hb y hy] at hyb
          exact Bool.noConfusion hyb
        · rw [List.mem_singleton.mp hy]
          exact swo_irrefl e
      have hu' : ∀ y ∈ u ++ b :: v, better e y = true := fun y hy => swo_of_not_lt he (hb y hy)
      obtain ⟨u', v', heq, h₁, h₂⟩ := ih e (u ++ b :: v) [] hb' hu'
      refine ⟨u', v', ?_, ?_, ?_⟩ <;> simp only [bestOf, if_pos he] at * <;> simp_all
    · rw [Bool.not_eq_true] at he
      have hb' : ∀ y ∈ u ++ b :: (v ++ [e]), better y b = false := by
        intro y hy
        simp only [List.mem_append, List.mem_cons] at hy
        rcases hy with hy | hy | hy | hy
        · exact hb y (by simp [hy])
        · rw [hy]; exact swo_irrefl b
        · exact hb y (by simp [hy])
        · simp only [List.not_mem_nil, or_false] at hy
          rw [hy]
          exact he
      obtain ⟨u', v', heq, h₁, h₂⟩ := ih b u (v ++ [e]) hb' hu
      refine ⟨u', v', ?_, ?_, ?_⟩ <;> simp only [bestOf, he] at * <;> simp_all

theorem find?_isBest_eq_bestOf (a : α) (l : List α) :
    (a :: l).find? (IsBest better (a :: l)) = some (bestOf better a l) := by
  obtain ⟨u, v, heq, hbest, hbefore⟩ :=
    bestOf_inv l a [] [] (by simpa using swo_irrefl (r := better) a) (by simp)
  simp only [List.nil_append, List.cons_append] at heq
  rw [List.find?_eq_some_iff_append]
  refine ⟨?_, u, v, heq, ?_⟩
  · rw [heq, IsBest, List.all_eq_true]
    intro y hy
    simpa using hbest y hy
  · intro y hy
    rw [Bool.not_eq_true', IsBest, List.all_eq_false]
    exact ⟨bestOf better a l, by rw [heq]; simp, by simp [hbefore y hy]⟩

end Best

/-! ## Keeping the first of each run of equivalent elements -/

section Unique

variable (eqv : α → α → Bool)

/-- The scan: `a` is the element kept last, and each next element is dropped when it is
equivalent to `a` and kept otherwise.  The elements kept after `a`, and those dropped. -/
def uniqueFrom (a : α) : List α → List α × List α
  | [] => ([], [])
  | b :: l =>
    if eqv a b then ((uniqueFrom a l).1, b :: (uniqueFrom a l).2)
    else (b :: (uniqueFrom b l).1, (uniqueFrom b l).2)

/-- What the scan keeps of a whole list, and what it drops. -/
def uniqueScan : List α → List α × List α
  | [] => ([], [])
  | a :: l => (a :: (uniqueFrom eqv a l).1, (uniqueFrom eqv a l).2)

variable {eqv}

theorem runFrom_congr {a b : α} (h : ∀ c, eqv a c = eqv b c) (l : List α) :
    runFrom eqv a l = runFrom eqv b l := by
  cases l with
  | nil => rfl
  | cons c l => simp only [runFrom, h c]

variable (symm : ∀ a b, eqv a b = true → eqv b a = true)
  (trans : ∀ a b c, eqv a b = true → eqv b c = true → eqv a c = true)

include symm trans in
/-- After the element kept last, the scan drops the run of elements equivalent to it and goes
on from the first element that is not. -/
theorem uniqueFrom_eq (l : List α) :
    ∀ a, uniqueFrom eqv a l =
      ((uniqueScan eqv (runFrom eqv a l).2).1, (runFrom eqv a l).1 ++ (uniqueScan eqv (runFrom eqv a l).2).2) := by
  induction l with
  | nil => intro a; rfl
  | cons b l ih =>
    intro a
    by_cases hab : eqv a b
    · -- `a` and `b` are equivalent to the same elements, so the run goes on as from `a`
      have hc : ∀ c, eqv a c = eqv b c := by
        intro c
        cases hac : eqv a c <;> cases hbc : eqv b c
        · rfl
        · rw [trans a b c hab hbc] at hac
          exact hac.symm
        · rw [trans b a c (symm a b hab) hac] at hbc
          exact hbc
        · rfl
      rw [uniqueFrom, if_pos hab, runFrom, if_pos hab, ih a, runFrom_congr hc]
      rfl
    · rw [Bool.not_eq_true] at hab
      rw [uniqueFrom, if_neg (by simp [hab]), runFrom, if_neg (by simp [hab])]
      rfl

include symm trans in
/-- The scan keeps the first of each run of adjacent equivalent elements and drops the rest of
each run, in order. -/
theorem uniqueScan_eq_splitBy : ∀ l : List α,
    uniqueScan eqv l = ((l.splitBy eqv).flatMap (List.take 1), (l.splitBy eqv).flatMap (List.drop 1))
  | [] => by simp [uniqueScan]
  | a :: l => by
    have ih := uniqueScan_eq_splitBy (runFrom eqv a l).2
    rw [uniqueScan, uniqueFrom_eq symm trans, splitBy_cons, ih]
    simp
termination_by l => l.length
decreasing_by
  have hlen : (runFrom eqv a l).2.length ≤ l.length := length_runFrom_snd a l
  rw [List.length_cons]
  omega

end Unique

/-! ## Insertion before the first greater element -/

section Insert

variable (less : α → α → Bool)

/-- `elem` put before the first element that it is less than, or at the end. -/
def insertOrdered (elem : α) (l : List α) : List α :=
  l.takeWhile (fun e => !less elem e) ++ elem :: l.dropWhile (fun e => !less elem e)

variable {less}

variable [IsStrictWeakOrder α (fun a b => less a b = true)]

theorem lt_of_mem_dropWhile {elem x : α} {l : List α}
    (hl : l.IsChain (fun a b => notLess less a b = true)) (hx : x ∈ l.dropWhile (fun e => !less elem e)) :
    less elem x = true := by
  have hne : l.dropWhile (fun e => !less elem e) ≠ [] := List.ne_nil_of_mem hx
  have hhead : less elem ((l.dropWhile (fun e => !less elem e)).head hne) = true := by
    simpa using List.head_dropWhile_not (fun e => !less elem e) hne
  have hsuf : (l.dropWhile (fun e => !less elem e)).IsChain (fun a b => notLess less a b = true) :=
    hl.suffix (List.dropWhile_suffix _)
  have hpw := pairwise_of_isChain (notLess_trans less) hsuf
  rw [← List.cons_head_tail hne] at hpw hx
  rcases List.mem_cons.mp hx with hx | hx
  · rw [hx]
    exact hhead
  · have h := List.rel_of_pairwise_cons hpw hx
    simp only [notLess, Bool.not_eq_true'] at h
    exact swo_of_not_lt hhead h

end Insert

end Scans
