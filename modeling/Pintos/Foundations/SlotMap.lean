import Mathlib.Data.List.Nodup

/-! # Tables of slots

A table of slots, each free (`none`) or holding a key and a value, read as a finite map: the
value of a key is that of the first slot holding it.  With distinct keys, filling a free slot
adds one binding and leaves the others, freeing a slot drops its binding and leaves the
others, and both keep the keys distinct.  The keys in slot order are what a scan of the table
meets.
-/

namespace SlotMap
set_option autoImplicit false

variable {K V : Type}

def keys (l : List (Option (K × V))) : List K := l.filterMap (Option.map Prod.fst)

/-- The first free slot. -/
def free (l : List (Option (K × V))) : Option Nat := l.findIdx? Option.isNone

@[simp] theorem keys_nil : keys ([] : List (Option (K × V))) = [] := rfl

@[simp] theorem keys_cons_none (l : List (Option (K × V))) : keys (none :: l) = keys l := rfl

@[simp] theorem keys_cons_some (k : K) (v : V) (l : List (Option (K × V))) :
    keys (some (k, v) :: l) = k :: keys l := rfl

theorem free_cons (o : Option (K × V)) (l : List (Option (K × V))) :
    free (o :: l) = if o.isNone then some 0 else (free l).map (· + 1) := by
  simp [free, List.findIdx?_cons]

theorem free_spec {l : List (Option (K × V))} {i : Nat} (h : free l = some i) : l[i]? = some none := by
  induction l generalizing i with
  | nil => simp [free] at h
  | cons o l ih =>
    rw [free_cons] at h
    rcases o with _ | ⟨k', v⟩
    · simp only [Option.isNone_none, if_true, Option.some.injEq] at h
      subst h
      rfl
    · simp only [Option.isNone_some, Bool.false_eq_true, if_false] at h
      obtain ⟨j, hj, rfl⟩ := Option.map_eq_some_iff.mp h
      simpa using ih hj

/-- The first slot in use. -/
def next (l : List (Option (K × V))) : Option Nat := l.findIdx? Option.isSome

theorem next_cons (o : Option (K × V)) (l : List (Option (K × V))) :
    next (o :: l) = if o.isSome then some 0 else (next l).map (· + 1) := by
  simp [next, List.findIdx?_cons]

theorem keys_of_next {l : List (Option (K × V))} {i : Nat} (h : next l = some i) :
    ∃ k v, l[i]? = some (some (k, v)) ∧ keys l = k :: keys (l.drop (i + 1)) := by
  induction l generalizing i with
  | nil => simp [next] at h
  | cons o l ih =>
    rw [next_cons] at h
    rcases o with _ | ⟨k, v⟩
    · simp only [Option.isSome_none, Bool.false_eq_true, if_false] at h
      obtain ⟨j, hj, rfl⟩ := Option.map_eq_some_iff.mp h
      simpa using ih hj
    · simp only [Option.isSome_some, if_true, Option.some.injEq] at h
      subst h
      exact ⟨k, v, rfl, rfl⟩

theorem keys_of_next_none {l : List (Option (K × V))} (h : next l = none) : keys l = [] := by
  induction l with
  | nil => rfl
  | cons o l ih =>
    rw [next_cons] at h
    rcases o with _ | ⟨k, v⟩
    · simp only [Option.isSome_none, Bool.false_eq_true, if_false, Option.map_eq_none_iff] at h
      rw [keys_cons_none, ih h]
    · simp at h

theorem mem_keys_of_getElem? {l : List (Option (K × V))} {i : Nat} {k : K} {v : V}
    (hi : l[i]? = some (some (k, v))) : k ∈ keys l := by
  unfold keys
  rw [List.mem_filterMap]
  exact ⟨some (k, v), List.mem_of_getElem? hi, rfl⟩

theorem keys_set_fill_perm {l : List (Option (K × V))} {i : Nat} (hi : l[i]? = some none) (k : K) (v : V) :
    (keys (l.set i (some (k, v)))).Perm (k :: keys l) := by
  induction l generalizing i with
  | nil => simp at hi
  | cons o l ih =>
    cases i with
    | zero =>
      cases hi
      rw [List.set_cons_zero, keys_cons_some, keys_cons_none]
    | succ i =>
      rw [List.getElem?_cons_succ] at hi
      rw [List.set_cons_succ]
      rcases o with _ | ⟨k₁, w⟩
      · simpa using ih hi
      · rw [keys_cons_some, keys_cons_some]
        exact ((ih hi).cons k₁).trans (List.Perm.swap k k₁ (keys l))

theorem keys_set_free_sublist {l : List (Option (K × V))} {i : Nat} (o : Option (K × V)) (hi : l[i]? = some o) :
    (keys (l.set i none)).Sublist (keys l) := by
  induction l generalizing i with
  | nil => simp at hi
  | cons o' l ih =>
    cases i with
    | zero =>
      cases hi
      rw [List.set_cons_zero, keys_cons_none]
      rcases o with _ | ⟨k₁, w⟩
      · exact List.Sublist.refl _
      · exact List.sublist_cons_self _ _
    | succ i =>
      rw [List.getElem?_cons_succ] at hi
      rw [List.set_cons_succ]
      rcases o' with _ | ⟨k₁, w⟩
      · simpa using ih hi
      · rw [keys_cons_some, keys_cons_some]
        exact (ih hi).cons_cons k₁

theorem nodup_keys_set_fill {l : List (Option (K × V))} {i : Nat} (hi : l[i]? = some none) {k : K} (v : V)
    (hk : k ∉ keys l) (hnd : (keys l).Nodup) : (keys (l.set i (some (k, v)))).Nodup :=
  (keys_set_fill_perm hi k v).nodup_iff.mpr (List.nodup_cons.mpr ⟨hk, hnd⟩)

variable [DecidableEq K]

/-- The slot holds `k`. -/
def holds (k : K) : Option (K × V) → Bool
  | some (k', _) => decide (k' = k)
  | none => false

/-- The value the slot holds for `k`. -/
def valueAt (k : K) : Option (K × V) → Option V
  | some (k', v) => if k' = k then some v else none
  | none => none

def lookup (l : List (Option (K × V))) (k : K) : Option V := l.findSome? (valueAt k)

/-- The first slot holding `k`. -/
def find (l : List (Option (K × V))) (k : K) : Option Nat := l.findIdx? (holds k)

section Equations

variable (k k' : K) (v : V) (l : List (Option (K × V)))

@[simp] theorem lookup_nil : lookup ([] : List (Option (K × V))) k = none := rfl

@[simp] theorem lookup_cons_none : lookup (none :: l) k = lookup l k := rfl

theorem lookup_cons_some : lookup (some (k', v) :: l) k = if k' = k then some v else lookup l k := by
  by_cases h : k' = k <;> simp [lookup, valueAt, h]

theorem find_cons (o : Option (K × V)) :
    find (o :: l) k = if holds k o then some 0 else (find l k).map (· + 1) := by
  simp [find, List.findIdx?_cons]

end Equations

theorem lookup_eq_none_iff (l : List (Option (K × V))) (k : K) : lookup l k = none ↔ k ∉ keys l := by
  induction l with
  | nil => simp
  | cons o l ih =>
    rcases o with _ | ⟨k', v⟩
    · simpa using ih
    · rw [lookup_cons_some, keys_cons_some, List.mem_cons]
      by_cases h : k' = k
      · simp [h]
      · simp [h, Ne.symm h, ih]

theorem find_spec {l : List (Option (K × V))} {k : K} {i : Nat} (h : find l k = some i) :
    ∃ v, l[i]? = some (some (k, v)) ∧ lookup l k = some v := by
  induction l generalizing i with
  | nil => simp [find] at h
  | cons o l ih =>
    rw [find_cons] at h
    rcases o with _ | ⟨k', v⟩
    · obtain ⟨j, hj, rfl⟩ := Option.map_eq_some_iff.mp (by simpa [holds] using h)
      simpa using ih hj
    · by_cases hk : k' = k
      · subst hk
        simp only [holds, decide_true, if_true, Option.some.injEq] at h
        subst h
        exact ⟨v, rfl, by rw [lookup_cons_some, if_pos rfl]⟩
      · simp only [holds, hk, decide_false, Bool.false_eq_true, if_false] at h
        obtain ⟨j, hj, rfl⟩ := Option.map_eq_some_iff.mp h
        obtain ⟨w, hw, hl⟩ := ih hj
        exact ⟨w, hw, by rw [lookup_cons_some, if_neg hk, hl]⟩

theorem find_eq_none {l : List (Option (K × V))} {k : K} (h : find l k = none) : lookup l k = none := by
  induction l with
  | nil => rfl
  | cons o l ih =>
    rw [find_cons] at h
    rcases o with _ | ⟨k', v⟩
    · simpa [holds] using ih (by simpa [holds] using h)
    · by_cases hk : k' = k
      · simp [holds, hk] at h
      · simp only [holds, hk, decide_false, Bool.false_eq_true, if_false, Option.map_eq_none_iff] at h
        rw [lookup_cons_some, if_neg hk, ih h]

/-! ## Filling and freeing a slot -/

theorem lookup_set_fill {l : List (Option (K × V))} {i : Nat} (hi : l[i]? = some none) {k : K} (v : V)
    (hk : k ∉ keys l) (k' : K) :
    lookup (l.set i (some (k, v))) k' = if k = k' then some v else lookup l k' := by
  induction l generalizing i with
  | nil => simp at hi
  | cons o l ih =>
    cases i with
    | zero =>
      cases hi
      rw [List.set_cons_zero, lookup_cons_some, lookup_cons_none]
    | succ i =>
      rw [List.getElem?_cons_succ] at hi
      rw [List.set_cons_succ]
      rcases o with _ | ⟨k₁, w⟩
      · rw [lookup_cons_none, lookup_cons_none]
        exact ih hi (by simpa using hk)
      · rw [keys_cons_some, List.mem_cons, not_or] at hk
        rw [lookup_cons_some, lookup_cons_some, ih hi hk.2]
        by_cases h₁ : k₁ = k'
        · subst h₁
          rw [if_pos rfl, if_pos rfl, if_neg hk.1]
        · rw [if_neg h₁, if_neg h₁]

theorem lookup_set_free {l : List (Option (K × V))} {i : Nat} {k : K} {v : V}
    (hi : l[i]? = some (some (k, v))) (hnd : (keys l).Nodup) (k' : K) :
    lookup (l.set i none) k' = if k = k' then none else lookup l k' := by
  induction l generalizing i with
  | nil => simp at hi
  | cons o l ih =>
    cases i with
    | zero =>
      cases hi
      rw [keys_cons_some, List.nodup_cons] at hnd
      rw [List.set_cons_zero, lookup_cons_none, lookup_cons_some]
      by_cases h : k = k'
      · subst h
        rw [if_pos rfl, (lookup_eq_none_iff l k).mpr hnd.1]
      · rw [if_neg h, if_neg h]
    | succ i =>
      rw [List.getElem?_cons_succ] at hi
      rw [List.set_cons_succ]
      rcases o with _ | ⟨k₁, w⟩
      · rw [lookup_cons_none, lookup_cons_none]
        exact ih hi (by simpa using hnd)
      · rw [keys_cons_some, List.nodup_cons] at hnd
        rw [lookup_cons_some, lookup_cons_some, ih hi hnd.2]
        have hne : k₁ ≠ k := fun h => hnd.1 (h ▸ mem_keys_of_getElem? hi)
        by_cases h₁ : k₁ = k'
        · subst h₁
          rw [if_pos rfl, if_pos rfl, if_neg (Ne.symm hne)]
        · rw [if_neg h₁, if_neg h₁]

/-! ## Adding and removing a binding -/

/-- The table with `(k, v)` in its first free slot, if it has one. -/
def insert (l : List (Option (K × V))) (k : K) (v : V) : List (Option (K × V)) :=
  match free l with
  | some i => l.set i (some (k, v))
  | none => l

/-- The table with the first slot holding `k` freed, if there is one. -/
def erase (l : List (Option (K × V))) (k : K) : List (Option (K × V)) :=
  match find l k with
  | some i => l.set i none
  | none => l

section Insert

variable {l : List (Option (K × V))} {k : K} (v : V)

omit [DecidableEq K] in
theorem insert_of_free {i : Nat} (h : free l = some i) : insert l k v = l.set i (some (k, v)) := by
  simp only [insert, h]

theorem lookup_insert (hk : k ∉ keys l) (hfree : (free l).isSome) (k' : K) :
    lookup (insert l k v) k' = if k = k' then some v else lookup l k' := by
  obtain ⟨i, hi⟩ := Option.isSome_iff_exists.mp hfree
  rw [insert_of_free v hi, lookup_set_fill (free_spec hi) v hk]

omit [DecidableEq K] in
omit [DecidableEq K] in
theorem nodup_keys_insert (hk : k ∉ keys l) (hnd : (keys l).Nodup) : (keys (insert l k v)).Nodup := by
  unfold insert
  split
  · next i hi => exact nodup_keys_set_fill (free_spec hi) v hk hnd
  · exact hnd

omit [DecidableEq K] in
theorem forall_keys_insert (P : K → Prop) (hk : P k) (hl : ∀ x ∈ keys l, P x) : ∀ x ∈ keys (insert l k v), P x := by
  unfold insert
  split
  · next i hi =>
    intro x hx
    rcases List.mem_cons.mp ((keys_set_fill_perm (free_spec hi) k v).subset hx) with rfl | hx
    · exact hk
    · exact hl x hx
  · exact hl

end Insert

section Erase

variable {l : List (Option (K × V))} (k : K)

theorem erase_of_find {i : Nat} (h : find l k = some i) : erase l k = l.set i none := by
  simp only [erase, h]

theorem lookup_erase (hnd : (keys l).Nodup) (k' : K) :
    lookup (erase l k) k' = if k = k' then none else lookup l k' := by
  unfold erase
  split
  · next i hi =>
    obtain ⟨v, hv, -⟩ := find_spec hi
    exact lookup_set_free hv hnd k'
  · next hi =>
    by_cases h : k = k'
    · subst h
      rw [if_pos rfl, find_eq_none hi]
    · rw [if_neg h]

theorem keys_erase_sublist : (keys (erase l k)).Sublist (keys l) := by
  unfold erase
  split
  · next i hi =>
    obtain ⟨v, hv, -⟩ := find_spec hi
    exact keys_set_free_sublist _ hv
  · exact List.Sublist.refl _

end Erase

end SlotMap
