import Mathlib.Data.List.Basic

/-! # Tables kept as lists

A table whose entries are told apart by a key, kept as a list: an entry is found with
`find?` on its key, the entry with a key is changed by `update` and dropped by `filter`.  With
the keys distinct, `find?` returns exactly the member with the key, and a property of every
entry survives an update that keeps it for the changed entry.

The callers of such a table hold references to its entries in a second list; dropping the
`i`-th reference lowers every count over that list by what the reference contributed
(`countP_eraseIdx`).
-/

namespace KeyedList
set_option autoImplicit false

variable {α β κ : Type*} [DecidableEq κ] (key : α → κ)

/-- The table with `f` applied to the entries whose key is `k`. -/
def update (k : κ) (f : α → α) (l : List α) : List α :=
  l.map (fun x => if key x = k then f x else x)

variable {key}

theorem mem_update {k : κ} {f : α → α} {l : List α} {x : α} :
    x ∈ update key k f l ↔ ∃ y ∈ l, (if key y = k then f y else y) = x := by
  simp only [update, List.mem_map]

theorem mem_update_of_mem {k : κ} {f : α → α} {l : List α} {y : α} (hy : y ∈ l) :
    (if key y = k then f y else y) ∈ update key k f l :=
  List.mem_map_of_mem hy

theorem forall_mem_update {k : κ} {f : α → α} {l : List α} (P : α → Prop)
    (hk : ∀ y ∈ l, key y = k → P (f y)) (ho : ∀ y ∈ l, key y ≠ k → P y) :
    ∀ x ∈ update key k f l, P x := by
  intro x hx
  obtain ⟨y, hy, rfl⟩ := mem_update.mp hx
  by_cases hyk : key y = k
  · rw [if_pos hyk]
    exact hk y hy hyk
  · rw [if_neg hyk]
    exact ho y hy hyk

theorem map_update {k : κ} {f : α → α} {l : List α} (g : α → β) (hg : ∀ y, key y = k → g (f y) = g y) :
    (update key k f l).map g = l.map g := by
  simp only [update, List.map_map]
  apply List.map_congr_left
  intro y _
  by_cases hyk : key y = k
  · simp only [Function.comp_apply, if_pos hyk, hg y hyk]
  · simp only [Function.comp_apply, if_neg hyk]

section Find

variable {κ' : Type*} [BEq κ'] [LawfulBEq κ'] {key' : α → κ'}

theorem find?_eq_some_iff {k : κ'} {l : List α} {x : α} (hnd : (l.map key').Nodup) :
    l.find? (fun y => key' y == k) = some x ↔ x ∈ l ∧ key' x = k := by
  induction l with
  | nil => simp
  | cons y l ih =>
    rw [List.map_cons, List.nodup_cons] at hnd
    by_cases hy : key' y = k
    · rw [List.find?_cons_of_pos (by simpa using hy)]
      constructor
      · rintro ⟨⟩
        exact ⟨List.mem_cons_self, hy⟩
      · rintro ⟨hx, hxk⟩
        rcases List.mem_cons.mp hx with rfl | hx
        · rfl
        · have hmem : key' x ∈ l.map key' := List.mem_map_of_mem hx
          exact absurd hmem (by rw [hxk, ← hy]; exact hnd.1)
    · rw [List.find?_cons_of_neg (by simpa using hy), ih hnd.2]
      constructor
      · rintro ⟨hx, hxk⟩
        exact ⟨List.mem_cons_of_mem y hx, hxk⟩
      · rintro ⟨hx, hxk⟩
        rcases List.mem_cons.mp hx with rfl | hx
        · exact absurd hxk hy
        · exact ⟨hx, hxk⟩

theorem find?_eq_none_iff {k : κ'} {l : List α} :
    l.find? (fun y => key' y == k) = none ↔ ∀ x ∈ l, key' x ≠ k := by
  simp [List.find?_eq_none]

omit [BEq κ'] [LawfulBEq κ'] in
theorem nodup_filter_map {p : α → Bool} {l : List α} (hnd : (l.map key').Nodup) :
    ((l.filter p).map key').Nodup :=
  List.Nodup.sublist (List.Sublist.map key' List.filter_sublist) hnd

end Find

theorem map_replaceF {p : α → Option α} {l : List α} (g : α → β)
    (hp : ∀ x ∈ l, ∀ y, p x = some y → g y = g x) : (l.replaceF p).map g = l.map g := by
  induction l with
  | nil => rfl
  | cons x l ih =>
    rw [List.replaceF_cons]
    rcases hx : p x with _ | y
    · simp only [List.map_cons, ih (fun z hz => hp z (List.mem_cons_of_mem x hz))]
    · simp only [List.map_cons, hp x List.mem_cons_self y hx]

theorem countP_eraseIdx (p : α → Bool) {l : List α} {i : Nat} {x : α} (h : l[i]? = some x) :
    (l.eraseIdx i).countP p + (if p x then 1 else 0) = l.countP p := by
  induction l generalizing i with
  | nil => simp at h
  | cons y l ih =>
    cases i with
    | zero =>
      simp only [List.getElem?_cons_zero, Option.some.injEq] at h
      subst h
      simp only [List.eraseIdx_cons_zero, List.countP_cons]
    | succ i =>
      simp only [List.getElem?_cons_succ] at h
      simp only [List.eraseIdx_cons_succ, List.countP_cons]
      have := ih h
      omega

theorem countP_set (p : α → Bool) {l : List α} {i : Nat} {x : α} (h : l[i]? = some x) (y : α) :
    (l.set i y).countP p + (if p x then 1 else 0) = l.countP p + (if p y then 1 else 0) := by
  have hi : i < l.length := by
    rw [List.getElem?_eq_some_iff] at h
    exact h.1
  have hx : l[i] = x := by
    rw [List.getElem?_eq_some_iff] at h
    exact h.2
  have hle : (if p l[i] then 1 else 0) ≤ l.countP p := List.boole_getElem_le_countP hi
  rw [List.countP_set hi, hx] at *
  omega

/-- A count of a weaker property exceeds a count of a stronger one by every element that has
only the weaker one. -/
theorem countP_add_one_le {p q : α → Bool} {l : List α} (hpq : ∀ x ∈ l, p x = true → q x = true) {x : α}
    (hx : x ∈ l) (hq : q x = true) (hp : p x = false) : l.countP p + 1 ≤ l.countP q := by
  induction l with
  | nil => simp at hx
  | cons y l ih =>
    have hpq' : ∀ z ∈ l, p z = true → q z = true := fun z hz => hpq z (List.mem_cons_of_mem y hz)
    have hle := List.countP_mono_left hpq'
    simp only [List.countP_cons]
    rcases List.mem_cons.mp hx with rfl | hx
    · simp only [hq, hp, if_true, Bool.false_eq_true, if_false]
      omega
    · have := ih hpq' hx
      by_cases hpy : p y = true
      · simp only [hpy, hpq y List.mem_cons_self hpy, if_true]
        omega
      · simp only [hpy, Bool.false_eq_true, if_false]
        split <;> omega

end KeyedList
