import Mathlib.Data.List.Nodup
import Mathlib.Data.List.Infix
import Pintos.Foundations.Links
import Pintos.Kernel.List

/-! # Lists refine sequences

`Holds m l xs`: in memory `m`, the list `l` is well formed and its interior elements are `xs`,
in order.  Its head's `prev` and its tail's `next` are null, and head, `xs` and tail are linked
in this order, distinct and not null.  Every operation of `list.c` is then a sequence operation
on `xs`: insertion before a position, removal, moving a segment within a list or to another one,
and so on.

A loop that walks a list stands at `cursor l rest` with `rest` still ahead of it and the part
`pre` behind; the element behind it is `behind l pre`.  `Holds.junction` gives the two links
between them, from which every `list_next` and `list_prev` of a loop is read.  The writes that
`list_remove` and `list_splice` make to take a segment out are `unlink_writes`, and those that
`list_insert` and `list_splice` make to put one in are `link_writes`; `Holds.unlink` and
`Holds.link` say what they do, and each operation's spec cites them.
-/

namespace Pintos
set_option autoImplicit false
set_option maxHeartbeats 250000
set_option maxRecDepth 120000

open Links

/-- The `next` links of memory `m`. -/
def nxt (m : ListMem) : Ptr → Ptr := fun p => (m p).next

/-- The `prev` links of memory `m`. -/
def prv (m : ListMem) : Ptr → Ptr := fun p => (m p).prev

@[simp] theorem nxt_set_prev (m : ListMem) (e v : Ptr) : nxt (set_prev m e v) = nxt m :=
  funext (next_set_prev m e v)

@[simp] theorem prv_set_next (m : ListMem) (e v : Ptr) : prv (set_next m e v) = prv m :=
  funext (prev_set_next m e v)

@[simp] theorem prv_set_prev (m : ListMem) (e v : Ptr) :
    prv (set_prev m e v) = Function.update (prv m) e v :=
  funext (prev_set_prev m e v)

@[simp] theorem nxt_set_next (m : ListMem) (e v : Ptr) :
    nxt (set_next m e v) = Function.update (nxt m) e v :=
  funext (next_set_next m e v)

/-- The pointers of `l` from head to tail when its interior elements are `xs`. -/
def chain (l : list) (xs : List Ptr) : List Ptr := l.head :: (xs ++ [l.tail])

/-- In memory `m`, the list `l` is well formed with interior elements `xs`. -/
structure Holds (m : ListMem) (l : list) (xs : List Ptr) : Prop where
  head_prev : (m l.head).prev = NULL
  tail_next : (m l.tail).next = NULL
  linked : Linked (nxt m) (prv m) (chain l xs)
  nodup : (chain l xs).Nodup
  not_null : NULL ∉ chain l xs

/-- Where a walk over `l` stands with `rest` still ahead: the first of `rest`, or the tail. -/
def cursor (l : list) (rest : List Ptr) : Ptr := rest.headD l.tail

/-- The element behind a walk over `l` that has passed `pre`: the last of `pre`, or the head. -/
def behind (l : list) (pre : List Ptr) : Ptr := (l.head :: pre).getLast (List.cons_ne_nil _ _)

@[simp] theorem cursor_nil (l : list) : cursor l [] = l.tail := rfl

@[simp] theorem cursor_cons (l : list) (a : Ptr) (rest : List Ptr) : cursor l (a :: rest) = a := rfl

@[simp] theorem behind_nil (l : list) : behind l [] = l.head := rfl

@[simp] theorem behind_concat (l : list) (pre : List Ptr) (a : Ptr) : behind l (pre ++ [a]) = a := by
  have h : (l.head :: pre ++ [a]).getLast (List.concat_ne_nil _ _) = a := List.getLast_concat
  exact h

theorem mem_chain_head (l : list) (xs : List Ptr) : l.head ∈ chain l xs := List.mem_cons_self

theorem mem_chain_tail (l : list) (xs : List Ptr) : l.tail ∈ chain l xs := by simp [chain]

theorem mem_chain_of_mem {l : list} {xs : List Ptr} {a : Ptr} (h : a ∈ xs) : a ∈ chain l xs := by
  simp [chain, h]

theorem cursor_mem_chain (l : list) (pre rest : List Ptr) : cursor l rest ∈ chain l (pre ++ rest) := by
  rcases rest with _ | ⟨a, rest⟩ <;> simp [chain, cursor]

theorem behind_mem_chain (l : list) (pre rest : List Ptr) : behind l pre ∈ chain l (pre ++ rest) := by
  rcases pre.eq_nil_or_concat' with rfl | ⟨pre, a, rfl⟩
  · exact mem_chain_head l _
  · rw [behind_concat]
    simp [chain]

/-- The chain of `l` cut around a part `mid`: what is behind it ends with `behind l pre`, and
what follows it begins with `cursor l rest`. -/
theorem chain_split_mid (l : list) (pre mid rest : List Ptr) :
    chain l (pre ++ mid ++ rest) =
      (l.head :: pre).dropLast ++ behind l pre :: (mid ++ cursor l rest :: (rest ++ [l.tail]).tail) := by
  have h₁ : (l.head :: pre).dropLast ++ [behind l pre] = l.head :: pre :=
    List.dropLast_append_getLast _
  have h₂ : rest ++ [l.tail] = cursor l rest :: (rest ++ [l.tail]).tail := by
    rcases rest with _ | ⟨a, rest⟩ <;> rfl
  calc chain l (pre ++ mid ++ rest) = (l.head :: pre) ++ mid ++ (rest ++ [l.tail]) := by simp [chain]
    _ = ((l.head :: pre).dropLast ++ [behind l pre]) ++ mid ++
        (cursor l rest :: (rest ++ [l.tail]).tail) := by
      rw [h₁, ← h₂]
    _ = _ := by simp

theorem chain_split (l : list) (pre rest : List Ptr) :
    chain l (pre ++ rest) =
      (l.head :: pre).dropLast ++ behind l pre :: cursor l rest :: (rest ++ [l.tail]).tail := by
  simpa using chain_split_mid l pre [] rest

theorem chain_perm (l : list) (pre mid rest : List Ptr) :
    (chain l (pre ++ mid ++ rest)).Perm (mid ++ chain l (pre ++ rest)) := by
  have h := List.perm_append_comm_assoc (l.head :: pre) mid (rest ++ [l.tail])
  simpa [chain] using h

namespace Holds

variable {m : ListMem} {l : list} {xs : List Ptr}

theorem ne_null (h : Holds m l xs) {a : Ptr} (ha : a ∈ chain l xs) : a ≠ NULL :=
  fun e => h.not_null (e ▸ ha)

theorem head_ne_tail (h : Holds m l xs) : l.head ≠ l.tail := by
  have hnd := h.nodup
  rw [chain, List.nodup_cons] at hnd
  exact fun e => hnd.1 (by simp [e])

theorem tail_not_mem (h : Holds m l xs) : l.tail ∉ xs := by
  have hnd := (List.nodup_cons.mp h.nodup).2
  rw [List.nodup_append] at hnd
  exact fun hm => hnd.2.2 l.tail hm l.tail (List.mem_singleton_self _) rfl

theorem head_not_mem (h : Holds m l xs) : l.head ∉ xs := by
  have hnd := (List.nodup_cons.mp h.nodup).1
  exact fun hm => hnd (List.mem_append_left _ hm)

theorem ne_list_end {pre rest : List Ptr} {a : Ptr} (h : Holds m l (pre ++ a :: rest)) :
    a ≠ list_end l := by
  intro e
  rw [list_end] at e
  exact h.tail_not_mem (by simp [← e])

theorem frame {m' : ListMem} (h : Holds m l xs) (hm : ∀ q ∈ chain l xs, m' q = m q) :
    Holds m' l xs where
  head_prev := by rw [hm _ (mem_chain_head l xs)]; exact h.head_prev
  tail_next := by rw [hm _ (mem_chain_tail l xs)]; exact h.tail_next
  linked := h.linked.frame (fun p hp => by simp [nxt, hm p (List.dropLast_subset _ hp)])
    (fun q hq => by simp [prv, hm q (List.mem_of_mem_tail hq)])
  nodup := h.nodup
  not_null := h.not_null

theorem junction {pre rest : List Ptr} (h : Holds m l (pre ++ rest)) :
    (m (behind l pre)).next = cursor l rest ∧ (m (cursor l rest)).prev = behind l pre := by
  have hl := h.linked
  rw [chain_split] at hl
  exact hl.step_of_append

theorem list_next_behind {pre rest : List Ptr} (h : Holds m l (pre ++ rest)) :
    list_next m (behind l pre) = some (cursor l rest) := by
  rw [list_next_eq (h.ne_null (behind_mem_chain l pre rest)), h.junction.1]
  rw [h.junction.1]
  exact h.ne_null (cursor_mem_chain l pre rest)

theorem list_prev_cursor {pre rest : List Ptr} (h : Holds m l (pre ++ rest)) :
    list_prev m (cursor l rest) = some (behind l pre) := by
  rw [list_prev_eq (h.ne_null (cursor_mem_chain l pre rest)), h.junction.2]
  rw [h.junction.2]
  exact h.ne_null (behind_mem_chain l pre rest)

theorem list_next_cons {pre rest : List Ptr} {a : Ptr} (h : Holds m l (pre ++ a :: rest)) :
    list_next m a = some (cursor l rest) := by
  have h' : Holds m l ((pre ++ [a]) ++ rest) := by rwa [List.append_assoc, List.singleton_append]
  simpa using h'.list_next_behind

theorem list_prev_cons {pre rest : List Ptr} {a : Ptr} (h : Holds m l (pre ++ a :: rest)) :
    list_prev m (cursor l rest) = some a := by
  have h' : Holds m l ((pre ++ [a]) ++ rest) := by rwa [List.append_assoc, List.singleton_append]
  simpa using h'.list_prev_cursor

theorem list_begin_eq (h : Holds m l xs) : list_begin m l = cursor l xs := by
  have h' : Holds m l ([] ++ xs) := h
  exact h'.junction.1

theorem cursor_eq_tail_iff {pre rest : List Ptr} (h : Holds m l (pre ++ rest)) :
    cursor l rest = l.tail ↔ rest = [] := by
  rcases rest with _ | ⟨a, rest⟩
  · simp
  · simp only [cursor_cons, reduceCtorEq, iff_false]
    exact fun e => h.tail_not_mem (by simp [← e])

theorem cursor_append_eq_iff {pre mid rest : List Ptr} (h : Holds m l (pre ++ mid ++ rest)) :
    cursor l (mid ++ rest) = cursor l rest ↔ mid = [] := by
  rcases mid with _ | ⟨a, mid⟩
  · simp
  · simp only [List.cons_append, cursor_cons, reduceCtorEq, iff_false]
    intro e
    have hnd : (pre ++ a :: (mid ++ rest ++ [l.tail])).Nodup := by
      simpa [chain] using (List.nodup_cons.mp h.nodup).2
    have hc : cursor l rest ∈ rest ++ [l.tail] := by
      rcases rest with _ | ⟨b, rest⟩ <;> simp
    apply (List.nodup_cons.mp (List.nodup_middle.mp hnd)).1
    rw [e]
    simp only [List.mem_append] at hc ⊢
    tauto

theorem nodup_of_mid {pre mid rest : List Ptr} (h : (chain l (pre ++ mid ++ rest)).Nodup) :
    (chain l (pre ++ rest)).Nodup :=
  ((chain_perm l pre mid rest).nodup_iff.mp h).of_append_right

theorem not_mem_of_mid {pre mid rest : List Ptr} (h : (chain l (pre ++ mid ++ rest)).Nodup)
    {x : Ptr} (hx : x ∈ mid) : x ∉ chain l (pre ++ rest) := by
  have h' := (chain_perm l pre mid rest).nodup_iff.mp h
  rw [List.nodup_append] at h'
  exact fun hm => h'.2.2 x hx x hm rfl

theorem nodup_mid {pre mid rest : List Ptr} (h : (chain l (pre ++ rest)).Nodup) (hmid : mid.Nodup)
    (hd : ∀ x ∈ mid, x ∉ chain l (pre ++ rest)) : (chain l (pre ++ mid ++ rest)).Nodup := by
  rw [(chain_perm l pre mid rest).nodup_iff, List.nodup_append]
  exact ⟨hmid, h, fun x hx y hy e => hd x hx (e ▸ hy)⟩

end Holds

/-! ## Taking a segment out and putting one in -/

/-- The writes with which `list_remove` and `list_splice` take `first … last` out of its list:
`first->prev->next = last->next; last->next->prev = first->prev;`. -/
def unlink_writes (m : ListMem) (first last : Ptr) : ListMem :=
  let m := set_next m (m first).prev (m last).next
  set_prev m (m last).next (m first).prev

/-- The writes with which `list_insert` and `list_splice` put `first … last` in before `before`:
`first->prev = before->prev; last->next = before; before->prev->next = first;
before->prev = last;`. -/
def link_writes (m : ListMem) (before first last : Ptr) : ListMem :=
  let m := set_prev m first (m before).prev
  let m := set_next m last before
  let m := set_next m (m before).prev first
  set_prev m before last

theorem list_remove_eq (m : ListMem) (elem : Ptr) :
    list_remove m elem =
      if is_interior m elem then some (unlink_writes m elem elem, (unlink_writes m elem elem elem).next)
      else none := rfl

theorem list_insert_eq (m : ListMem) (before elem : Ptr) :
    list_insert m before elem =
      if (is_interior m before || is_tail m before) && elem != NULL then
        some (link_writes m before elem elem)
      else none := rfl

theorem list_splice_eq (m : ListMem) (before first last : Ptr) :
    list_splice m before first last =
      if !(is_interior m before || is_tail m before) then none
      else if first = last then some m
      else
        match list_prev m last with
        | none => none
        | some last =>
          if !(is_interior m first && is_interior m last) then none
          else some (link_writes (unlink_writes m first last) before first last) := rfl

theorem cursor_append (l : list) {mid : List Ptr} (hne : mid ≠ []) (rest : List Ptr) :
    cursor l (mid ++ rest) = mid.head hne := by
  rcases mid with _ | ⟨a, mid⟩
  · exact absurd rfl hne
  · rfl

theorem behind_append (l : list) (pre : List Ptr) {mid : List Ptr} (hne : mid ≠ []) :
    behind l (pre ++ mid) = mid.getLast hne := by
  simp only [behind, ← List.cons_append]
  exact List.getLast_append_of_ne_nil _ hne

namespace Holds

variable {m : ListMem} {l : list}

/-- Taking the nonempty part `S` out from between `X` and `Y`: the list is `X ++ Y` after, the
part keeps its own links, and only the two neighbours of the part are written. -/
theorem unlink {X S Y : List Ptr} (h : Holds m l (X ++ S ++ Y)) (hS : S ≠ []) :
    Holds (unlink_writes m (S.head hS) (S.getLast hS)) l (X ++ Y) ∧
      Linked (nxt (unlink_writes m (S.head hS) (S.getLast hS)))
        (prv (unlink_writes m (S.head hS) (S.getLast hS))) S ∧
      ∀ q, q ≠ behind l X → q ≠ cursor l Y → unlink_writes m (S.head hS) (S.getLast hS) q = m q := by
  have hf : (m (S.head hS)).prev = behind l X := by
    have h' : Holds m l (X ++ (S ++ Y)) := by rwa [← List.append_assoc]
    rw [← cursor_append l hS Y]
    exact h'.junction.2
  have hs : (m (S.getLast hS)).next = cursor l Y := by
    rw [← behind_append l X hS]
    exact h.junction.1
  have hw : unlink_writes m (S.head hS) (S.getLast hS) =
      set_prev (set_next m (behind l X) (cursor l Y)) (cursor l Y) (behind l X) := by
    have hs' : (set_next m (behind l X) (cursor l Y) (S.getLast hS)).next = cursor l Y := by
      rw [next_set_next]
      by_cases he : S.getLast hS = behind l X
      · rw [he, Function.update_self]
      · rw [Function.update_of_ne he]
        exact hs
    simp only [unlink_writes, hf, hs, prev_set_next, hs']
  have hsplit := chain_split_mid l X S Y
  have hl := h.linked
  have hnd := h.nodup
  rw [hsplit] at hl hnd
  obtain ⟨hlink, hSlink⟩ := hl.unlink hnd
  rw [← chain_split] at hlink
  have hnd' := nodup_of_mid h.nodup
  have hbh : behind l X ∈ chain l (X ++ Y) := behind_mem_chain l X Y
  have hcu : cursor l Y ∈ chain l (X ++ Y) := cursor_mem_chain l X Y
  have hhead : l.head ≠ cursor l Y := by
    intro e
    rcases Y with _ | ⟨y, Y⟩
    · exact h.head_ne_tail e
    · exact h.head_not_mem (by simp [e])
  have htail : l.tail ≠ behind l X := by
    intro e
    rcases X.eq_nil_or_concat' with rfl | ⟨X, x, rfl⟩
    · exact h.head_ne_tail e.symm
    · rw [behind_concat] at e
      exact h.tail_not_mem (by simp [e])
  rw [hw]
  refine ⟨⟨?_, ?_, ?_, hnd', ?_⟩, ?_, ?_⟩
  · rw [prev_set_prev, Function.update_of_ne hhead, prev_set_next]
    exact h.head_prev
  · rw [next_set_prev, next_set_next, Function.update_of_ne htail]
    exact h.tail_next
  · simpa using hlink
  · exact fun hm => h.not_null ((chain_perm l X S Y).symm.subset (List.mem_append_right _ hm))
  · simpa using hSlink
  · intro q hqa hqb
    rw [set_prev_of_ne _ _ hqb, set_next_of_ne _ _ hqa]

/-- Putting the nonempty part `S`, linked on its own, in between `X` and `Y`: the list is
`X ++ S ++ Y` after, and only the ends of `S` and its two new neighbours are written. -/
theorem link {X S Y : List Ptr} (h : Holds m l (X ++ Y)) (hS : Linked (nxt m) (prv m) S)
    (hne : S ≠ []) (hnd : (chain l (X ++ S ++ Y)).Nodup) (hnull : NULL ∉ S) :
    Holds (link_writes m (cursor l Y) (S.head hne) (S.getLast hne)) l (X ++ S ++ Y) ∧
      ∀ q, q ≠ S.head hne → q ≠ S.getLast hne → q ≠ behind l X → q ≠ cursor l Y →
        link_writes m (cursor l Y) (S.head hne) (S.getLast hne) q = m q := by
  have hb : (m (cursor l Y)).prev = behind l X := h.junction.2
  have hfb : (set_next (set_prev m (S.head hne) (behind l X)) (S.getLast hne) (cursor l Y)
      (cursor l Y)).prev = behind l X := by
    rw [prev_set_next, prev_set_prev]
    by_cases he : cursor l Y = S.head hne
    · rw [he, Function.update_self]
    · rw [Function.update_of_ne he]
      exact hb
  have hw : link_writes m (cursor l Y) (S.head hne) (S.getLast hne) =
      set_prev (set_next (set_next (set_prev m (S.head hne) (behind l X)) (S.getLast hne) (cursor l Y))
        (behind l X) (S.head hne)) (cursor l Y) (S.getLast hne) := by
    simp only [link_writes, hb, hfb]
  have hl := h.linked
  rw [chain_split] at hl
  have hnd' := hnd
  rw [chain_split_mid] at hnd'
  have hlink := hl.link hS (List.head?_eq_some_head hne) (List.getLast?_eq_some_getLast hne) hnd'
  rw [← chain_split_mid] at hlink
  have hfS : S.head hne ∈ S := List.head_mem hne
  have hlS : S.getLast hne ∈ S := List.getLast_mem hne
  have hhead : l.head ∉ S := fun hm => not_mem_of_mid hnd hm (mem_chain_head l _)
  have htail : l.tail ∉ S := fun hm => not_mem_of_mid hnd hm (mem_chain_tail l _)
  have hhc : l.head ≠ cursor l Y := by
    intro e
    rcases Y with _ | ⟨y, Y⟩
    · exact h.head_ne_tail e
    · exact h.head_not_mem (by simp [e])
  have htb : l.tail ≠ behind l X := by
    intro e
    rcases X.eq_nil_or_concat' with rfl | ⟨X, x, rfl⟩
    · exact h.head_ne_tail e.symm
    · rw [behind_concat] at e
      exact h.tail_not_mem (by simp [e])
  rw [hw]
  refine ⟨⟨?_, ?_, ?_, hnd, ?_⟩, ?_⟩
  · rw [prev_set_prev, Function.update_of_ne hhc, prev_set_next, prev_set_next, prev_set_prev,
      Function.update_of_ne (ne_of_mem_of_not_mem hfS hhead).symm]
    exact h.head_prev
  · rw [next_set_prev, next_set_next, Function.update_of_ne htb, next_set_next,
      Function.update_of_ne (ne_of_mem_of_not_mem hlS htail).symm, next_set_prev]
    exact h.tail_next
  · simpa using hlink
  · intro hm
    rcases List.mem_append.mp ((chain_perm l X S Y).subset hm) with hm | hm
    · exact hnull hm
    · exact h.not_null hm
  · intro q hqf hql hqa hqb
    rw [set_prev_of_ne _ _ hqb, set_next_of_ne _ _ hqa, set_next_of_ne _ _ hql, set_prev_of_ne _ _ hqf]

/-- The element a walk stands at, if any, or the tail: the `before` that `list_insert` and
`list_splice` accept. -/
theorem interior_or_tail_cursor {pre rest : List Ptr} (h : Holds m l (pre ++ rest)) :
    (is_interior m (cursor l rest) || is_tail m (cursor l rest)) = true := by
  refine is_interior_or_tail (h.ne_null (cursor_mem_chain l pre rest)) ?_
  rw [h.junction.2]
  exact h.ne_null (behind_mem_chain l pre rest)

theorem is_interior_of_mem {pre rest : List Ptr} {a : Ptr} (h : Holds m l (pre ++ a :: rest)) :
    is_interior m a = true := by
  have h' : Holds m l ((pre ++ [a]) ++ rest) := by rwa [List.append_assoc, List.singleton_append]
  have hp : (m a).prev = behind l pre := h.junction.2
  have hn : (m a).next = cursor l rest := by simpa using h'.junction.1
  refine is_interior_eq (h.ne_null (mem_chain_of_mem (by simp))) ?_ ?_
  · rw [hp]
    exact h.ne_null (behind_mem_chain l pre _)
  · rw [hn]
    exact h'.ne_null (cursor_mem_chain l _ rest)

theorem ne_of_mem_mid {X S Y : List Ptr} (h : Holds m l (X ++ S ++ Y)) {x : Ptr} (hx : x ∈ S) :
    x ≠ behind l X ∧ x ≠ cursor l Y := by
  have hnd := h.nodup
  rw [chain_split_mid] at hnd
  have hb := (List.nodup_cons.mp (List.nodup_middle.mp hnd)).1
  have hc := (List.nodup_cons.mp (List.nodup_middle.mp
    (List.nodup_cons.mp (hnd.sublist (List.sublist_append_right _ _))).2)).1
  refine ⟨fun e => hb ?_, fun e => hc ?_⟩
  · rw [← e]
    simp [hx]
  · rw [← e]
    simp [hx]

theorem nodup_move {X S Y X' Y' : List Ptr} (h : (chain l (X ++ S ++ Y)).Nodup)
    (he : X' ++ Y' = X ++ Y) : (chain l (X' ++ S ++ Y')).Nodup := by
  rw [(chain_perm l X' S Y').nodup_iff, he, ← (chain_perm l X S Y).nodup_iff]
  exact h

theorem mem_chain_mid {X S Y : List Ptr} {p : Ptr} (hp : p ∈ chain l (X ++ Y)) :
    p ∈ chain l (X ++ S ++ Y) :=
  (chain_perm l X S Y).symm.subset (List.mem_append_right _ hp)

theorem not_null_mid {X S Y : List Ptr} (h : Holds m l (X ++ S ++ Y)) : NULL ∉ S :=
  fun hm => h.not_null ((chain_perm l X S Y).symm.subset (List.mem_append_left _ hm))

theorem list_empty_eq {xs : List Ptr} (h : Holds m l xs) : list_empty m l = xs.isEmpty := by
  have h' : Holds m l ([] ++ xs) := h
  rw [list_empty, h.list_begin_eq, list_end]
  cases xs with
  | nil => simp
  | cons a xs => simpa using (h'.cursor_eq_tail_iff).not.mpr (List.cons_ne_nil a xs)

end Holds

/-! ## The operations -/

section Operations

variable {m : ListMem} {l : list}

theorem list_init_spec (m : ListMem) (l : list) (hht : l.head ≠ l.tail) (hh : l.head ≠ NULL)
    (ht : l.tail ≠ NULL) :
    Holds (list_init m l) l [] ∧ ∀ q, q ≠ l.head → q ≠ l.tail → list_init m l q = m q := by
  refine ⟨⟨?_, ?_, ?_, ?_, ?_⟩, ?_⟩
  · simp [list_init, prev_set_prev, Function.update_of_ne hht]
  · simp [list_init, next_set_next]
  · simp [chain, list_init, linked_cons_cons, Function.update_of_ne hht]
  · simp [chain, hht]
  · simp [chain, hh.symm, ht.symm]
  · intro q hqh hqt
    simp only [list_init]
    rw [set_next_of_ne _ _ hqt, set_prev_of_ne _ _ hqt, set_next_of_ne _ _ hqh, set_prev_of_ne _ _ hqh]

/-- `list_insert (before, elem)` with `before` the element after `X`, or the tail: `elem` goes in
between `X` and `Y`; only `elem` and its two new neighbours are written. -/
theorem list_insert_spec {X Y : List Ptr} {elem : Ptr} (h : Holds m l (X ++ Y))
    (he : elem ∉ chain l (X ++ Y)) (hn : elem ≠ NULL) :
    ∃ m', list_insert m (cursor l Y) elem = some m' ∧ Holds m' l (X ++ elem :: Y) ∧
      ∀ q ∉ chain l (X ++ Y), q ≠ elem → m' q = m q := by
  have hnd : (chain l (X ++ [elem] ++ Y)).Nodup :=
    Holds.nodup_mid h.nodup (List.nodup_singleton elem) (by simpa using he)
  obtain ⟨hH, hfr⟩ := h.link (linked_singleton elem) (List.cons_ne_nil _ _) hnd
    (by simpa using hn.symm)
  refine ⟨link_writes m (cursor l Y) elem elem, ?_, by simpa using hH, ?_⟩
  · rw [list_insert_eq, if_pos]
    simp [h.interior_or_tail_cursor, hn]
  · intro q hq hqe
    exact hfr q hqe hqe (fun e => hq (e ▸ behind_mem_chain l X Y))
      (fun e => hq (e ▸ cursor_mem_chain l X Y))

theorem list_push_front_spec {xs : List Ptr} {elem : Ptr} (h : Holds m l xs)
    (he : elem ∉ chain l xs) (hn : elem ≠ NULL) :
    ∃ m', list_push_front m l elem = some m' ∧ Holds m' l (elem :: xs) ∧
      ∀ q ∉ chain l xs, q ≠ elem → m' q = m q := by
  rw [list_push_front, h.list_begin_eq]
  exact list_insert_spec (X := []) h he hn

theorem list_push_back_spec {xs : List Ptr} {elem : Ptr} (h : Holds m l xs)
    (he : elem ∉ chain l xs) (hn : elem ≠ NULL) :
    ∃ m', list_push_back m l elem = some m' ∧ Holds m' l (xs ++ [elem]) ∧
      ∀ q ∉ chain l xs, q ≠ elem → m' q = m q := by
  have h' : Holds m l (xs ++ []) := by rwa [List.append_nil]
  have he' : elem ∉ chain l (xs ++ []) := by rwa [List.append_nil]
  rw [list_push_back, list_end]
  simpa using list_insert_spec h' he' hn

/-- `list_remove (elem)`: `elem` comes out from between `X` and `Y`, the element after it is
returned, and only its two neighbours are written. -/
theorem list_remove_spec {X Y : List Ptr} {elem : Ptr} (h : Holds m l (X ++ elem :: Y)) :
    ∃ m', list_remove m elem = some (m', cursor l Y) ∧ Holds m' l (X ++ Y) ∧
      ∀ q, q ≠ behind l X → q ≠ cursor l Y → m' q = m q := by
  have h' : Holds m l (X ++ [elem] ++ Y) := by simpa using h
  obtain ⟨hH, -, hfr⟩ := h'.unlink (List.cons_ne_nil _ _)
  obtain ⟨hea, hec⟩ := h'.ne_of_mem_mid (List.mem_singleton_self elem)
  refine ⟨unlink_writes m elem elem, ?_, hH, hfr⟩
  have hn : (m elem).next = cursor l Y := by
    have h'' : Holds m l ((X ++ [elem]) ++ Y) := h'
    simpa using h''.junction.1
  have he : unlink_writes m elem elem elem = m elem := hfr elem hea hec
  rw [list_remove_eq, if_pos h.is_interior_of_mem, he, hn]

/-- `list_splice (before, first, last)` on a nonempty part `S` of a list, with `last` the element
after it: the part is unlinked and linked in again before `before`. -/
theorem list_splice_of_part {X S Y : List Ptr} (h : Holds m l (X ++ S ++ Y)) (hS : S ≠ [])
    {before : Ptr} (hb : (is_interior m before || is_tail m before) = true) :
    list_splice m before (S.head hS) (cursor l Y) =
      some (link_writes (unlink_writes m (S.head hS) (S.getLast hS)) before (S.head hS)
        (S.getLast hS)) := by
  have hfirst : S.head hS ≠ cursor l Y := (h.ne_of_mem_mid (List.head_mem hS)).2
  have hprev : list_prev m (cursor l Y) = some (S.getLast hS) := by
    rw [← behind_append l X hS]
    exact h.list_prev_cursor
  have hif : is_interior m (S.head hS) = true := by
    obtain ⟨S', hS'⟩ : ∃ S', S = S.head hS :: S' := ⟨S.tail, (List.cons_head_tail hS).symm⟩
    have h' : Holds m l (X ++ S.head hS :: (S' ++ Y)) := by
      rw [List.append_assoc, hS'] at h
      simpa using h
    exact h'.is_interior_of_mem
  have hil : is_interior m (S.getLast hS) = true := by
    have h' : Holds m l (X ++ S.dropLast ++ S.getLast hS :: Y) := by
      have e := List.dropLast_append_getLast hS
      rw [← e] at h
      simpa using h
    exact h'.is_interior_of_mem
  rw [list_splice_eq, if_neg (by simp [hb]), if_neg hfirst, hprev]
  simp [hif, hil]

/-- `list_splice` moving the part `S` of a list forward, past `B`, to before the element after
`B` (or the tail).  Nothing outside the list is written. -/
theorem list_splice_forward {X S B Y : List Ptr} (h : Holds m l (X ++ S ++ B ++ Y)) (hS : S ≠ []) :
    ∃ m', list_splice m (cursor l Y) (S.head hS) (cursor l (B ++ Y)) = some m' ∧
      Holds m' l (X ++ B ++ S ++ Y) ∧ ∀ q ∉ chain l (X ++ S ++ B ++ Y), m' q = m q := by
  have h₁ : Holds m l (X ++ S ++ (B ++ Y)) := by simpa using h
  have hb : (is_interior m (cursor l Y) || is_tail m (cursor l Y)) = true := by
    have h' : Holds m l ((X ++ S ++ B) ++ Y) := h
    exact h'.interior_or_tail_cursor
  obtain ⟨hout, hSl, hfr₁⟩ := h₁.unlink hS
  have hout' : Holds (unlink_writes m (S.head hS) (S.getLast hS)) l ((X ++ B) ++ Y) := by
    simpa using hout
  have hnd : (chain l ((X ++ B) ++ S ++ Y)).Nodup := Holds.nodup_move h₁.nodup (by simp)
  obtain ⟨hin, hfr₂⟩ := hout'.link hSl hS hnd (h₁.not_null_mid)
  refine ⟨_, list_splice_of_part h₁ hS hb, hin, fun q hq => ?_⟩
  have hc : ∀ p ∈ chain l (X ++ S ++ (B ++ Y)), q ≠ p := fun p hp e => hq (by simpa [e] using hp)
  have hSc : ∀ p ∈ S, p ∈ chain l (X ++ S ++ (B ++ Y)) := fun p hp =>
    (chain_perm l X S (B ++ Y)).symm.subset (List.mem_append_left _ hp)
  rw [hfr₂ q (hc _ (hSc _ (List.head_mem hS))) (hc _ (hSc _ (List.getLast_mem hS)))
      (hc _ (Holds.mem_chain_mid (by simpa using behind_mem_chain l (X ++ B) Y)))
      (hc _ (by simpa using cursor_mem_chain l (X ++ S ++ B) Y)),
    hfr₁ q (hc _ (by simpa using behind_mem_chain l X (S ++ B ++ Y)))
      (hc _ (by simpa using cursor_mem_chain l (X ++ S) (B ++ Y)))]

/-- `list_splice` moving the part `S` of a list back, to before the first of `B`.  Nothing
outside the list is written. -/
theorem list_splice_backward {X B S Y : List Ptr} (h : Holds m l (X ++ B ++ S ++ Y)) (hB : B ≠ [])
    (hS : S ≠ []) :
    ∃ m', list_splice m (B.head hB) (S.head hS) (cursor l Y) = some m' ∧
      Holds m' l (X ++ S ++ B ++ Y) ∧ ∀ q ∉ chain l (X ++ B ++ S ++ Y), m' q = m q := by
  have h₁ : Holds m l ((X ++ B) ++ S ++ Y) := h
  have hcur : cursor l (B ++ Y) = B.head hB := cursor_append l hB Y
  have hb : (is_interior m (B.head hB) || is_tail m (B.head hB)) = true := by
    have h' : Holds m l (X ++ (B ++ S ++ Y)) := by simpa using h
    rw [← cursor_append l hB (S ++ Y)]
    simpa using h'.interior_or_tail_cursor
  obtain ⟨hout, hSl, hfr₁⟩ := h₁.unlink hS
  have hout' : Holds (unlink_writes m (S.head hS) (S.getLast hS)) l (X ++ (B ++ Y)) := by
    simpa using hout
  have hnd : (chain l (X ++ S ++ (B ++ Y))).Nodup := Holds.nodup_move h₁.nodup (by simp)
  obtain ⟨hin, hfr₂⟩ := hout'.link hSl hS hnd (h₁.not_null_mid)
  rw [hcur] at hin hfr₂
  refine ⟨_, list_splice_of_part h₁ hS hb, by simpa using hin, fun q hq => ?_⟩
  have hc : ∀ p ∈ chain l ((X ++ B) ++ S ++ Y), q ≠ p := fun p hp e => hq (by simpa [e] using hp)
  have hSc : ∀ p ∈ S, p ∈ chain l ((X ++ B) ++ S ++ Y) := fun p hp =>
    (chain_perm l (X ++ B) S Y).symm.subset (List.mem_append_left _ hp)
  rw [hfr₂ q (hc _ (hSc _ (List.head_mem hS))) (hc _ (hSc _ (List.getLast_mem hS)))
      (hc _ (by simpa using behind_mem_chain l X (B ++ S ++ Y)))
      (hc _ (by rw [← cursor_append l hB (S ++ Y)]; simpa using cursor_mem_chain l X (B ++ S ++ Y))),
    hfr₁ q (hc _ (by simpa using behind_mem_chain l (X ++ B) (S ++ Y)))
      (hc _ (by simpa using cursor_mem_chain l (X ++ B ++ S) Y))]

/-- `list_splice` moving the part `S` of one list to before an element of another list (or its
tail).  Both lists stay well formed, and nothing outside the two is written. -/
theorem list_splice_between {l₂ : list} {X S Y X₂ Y₂ : List Ptr} (h : Holds m l (X ++ S ++ Y))
    (h₂ : Holds m l₂ (X₂ ++ Y₂)) (hd : ∀ p ∈ chain l (X ++ S ++ Y), p ∉ chain l₂ (X₂ ++ Y₂))
    (hS : S ≠ []) :
    ∃ m', list_splice m (cursor l₂ Y₂) (S.head hS) (cursor l Y) = some m' ∧
      Holds m' l (X ++ Y) ∧ Holds m' l₂ (X₂ ++ S ++ Y₂) ∧
      ∀ q ∉ chain l (X ++ S ++ Y), q ∉ chain l₂ (X₂ ++ Y₂) → m' q = m q := by
  obtain ⟨hout, hSl, hfr₁⟩ := h.unlink hS
  have hsub : ∀ p ∈ chain l (X ++ Y), p ∈ chain l (X ++ S ++ Y) := fun p hp =>
    (chain_perm l X S Y).symm.subset (List.mem_append_right _ hp)
  have hSsub : ∀ p ∈ S, p ∈ chain l (X ++ S ++ Y) := fun p hp =>
    (chain_perm l X S Y).symm.subset (List.mem_append_left _ hp)
  have h₂' : Holds (unlink_writes m (S.head hS) (S.getLast hS)) l₂ (X₂ ++ Y₂) := by
    refine h₂.frame (fun q hq => hfr₁ q ?_ ?_)
    · exact fun e => hd _ (hsub _ (behind_mem_chain l X Y)) (e ▸ hq)
    · exact fun e => hd _ (hsub _ (cursor_mem_chain l X Y)) (e ▸ hq)
  have hSnd : S.Nodup := by
    have hn := (chain_perm l X S Y).nodup_iff.mp h.nodup
    exact hn.of_append_left
  have hnd : (chain l₂ (X₂ ++ S ++ Y₂)).Nodup :=
    Holds.nodup_mid h₂.nodup hSnd (fun x hx => hd x (hSsub x hx))
  obtain ⟨hin, hfr₂⟩ := h₂'.link hSl hS hnd h.not_null_mid
  have hS₁ : ∀ x ∈ S, x ∉ chain l (X ++ Y) := fun x hx => Holds.not_mem_of_mid h.nodup hx
  refine ⟨_, list_splice_of_part h hS h₂.interior_or_tail_cursor, ?_, hin, ?_⟩
  · refine hout.frame (fun q hq => hfr₂ q ?_ ?_ ?_ ?_)
    · exact fun e => hS₁ _ (List.head_mem hS) (e ▸ hq)
    · exact fun e => hS₁ _ (List.getLast_mem hS) (e ▸ hq)
    · exact fun e => hd _ (hsub q hq) (e ▸ behind_mem_chain l₂ X₂ Y₂)
    · exact fun e => hd _ (hsub q hq) (e ▸ cursor_mem_chain l₂ X₂ Y₂)
  · intro q hq₁ hq₂
    rw [hfr₂ q (fun e => hq₁ (e ▸ hSsub _ (List.head_mem hS)))
        (fun e => hq₁ (e ▸ hSsub _ (List.getLast_mem hS)))
        (fun e => hq₂ (e ▸ behind_mem_chain l₂ X₂ Y₂)) (fun e => hq₂ (e ▸ cursor_mem_chain l₂ X₂ Y₂)),
      hfr₁ q (fun e => hq₁ (e ▸ hsub _ (behind_mem_chain l X Y)))
        (fun e => hq₁ (e ▸ hsub _ (cursor_mem_chain l X Y)))]

end Operations

end Pintos
