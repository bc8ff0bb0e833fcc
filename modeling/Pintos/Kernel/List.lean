import Mathlib.Logic.Function.Basic

/-! # Doubly linked lists (`lib/kernel/list.c`)

A `struct list_elem` is two pointers, `prev` and `next`, and a `struct list` embeds two of them,
its head and its tail; a list is named here by the addresses of these two members.  Memory maps
each address to the `struct list_elem` stored there.  Every function follows the source statement
by statement: each write is made to the memory that the statements before it left, and each read
is of that memory, so that aliasing among the arguments behaves as in C.

An `ASSERT` that fails gives `none`; `ASSERT (list != NULL)` and `ASSERT (less != NULL)` are not
modelled, since a list here is a pair of addresses and `less` a function.  A loop takes a `fuel`
bound on its iterations and gives `none` when the bound runs out.  The comparison `less` of the
source is called with the two element pointers; its `aux` argument is fixed and left out.
-/

namespace Pintos
set_option autoImplicit false
set_option maxHeartbeats 250000
set_option maxRecDepth 120000

/-- Addresses; `NULL` is 0. -/
abbrev Ptr := Nat

def NULL : Ptr := 0

/-- `struct list_elem` -/
structure list_elem where
  prev : Ptr
  next : Ptr
deriving DecidableEq, Repr

/-- `struct list`, by the addresses of its `head` and `tail` members. -/
structure list where
  head : Ptr
  tail : Ptr
deriving DecidableEq, Repr

/-- The `struct list_elem` at each address. -/
abbrev ListMem := Ptr → list_elem

/-- `e->prev = v` -/
def set_prev (m : ListMem) (e v : Ptr) : ListMem := Function.update m e { m e with prev := v }

/-- `e->next = v` -/
def set_next (m : ListMem) (e v : Ptr) : ListMem := Function.update m e { m e with next := v }

/-- A `struct list_elem **`: the address of a link field. -/
inductive LinkAddr
  | prev (e : Ptr)
  | next (e : Ptr)
deriving DecidableEq, Repr

def LinkAddr.read (m : ListMem) : LinkAddr → Ptr
  | .prev e => (m e).prev
  | .next e => (m e).next

def LinkAddr.write (m : ListMem) : LinkAddr → Ptr → ListMem
  | .prev e, v => set_prev m e v
  | .next e, v => set_next m e v

/-! ## Sentinels and iteration -/

def is_head (m : ListMem) (elem : Ptr) : Bool :=
  elem != NULL && (m elem).prev == NULL && (m elem).next != NULL

def is_interior (m : ListMem) (elem : Ptr) : Bool :=
  elem != NULL && (m elem).prev != NULL && (m elem).next != NULL

def is_tail (m : ListMem) (elem : Ptr) : Bool :=
  elem != NULL && (m elem).prev != NULL && (m elem).next == NULL

def list_init (m : ListMem) (l : list) : ListMem :=
  let m := set_prev m l.head NULL
  let m := set_next m l.head l.tail
  let m := set_prev m l.tail l.head
  set_next m l.tail NULL

def list_begin (m : ListMem) (l : list) : Ptr := (m l.head).next

def list_next (m : ListMem) (elem : Ptr) : Option Ptr :=
  if is_head m elem || is_interior m elem then some (m elem).next else none

def list_end (l : list) : Ptr := l.tail

def list_rbegin (m : ListMem) (l : list) : Ptr := (m l.tail).prev

def list_prev (m : ListMem) (elem : Ptr) : Option Ptr :=
  if is_interior m elem || is_tail m elem then some (m elem).prev else none

def list_rend (l : list) : Ptr := l.head

def list_head (l : list) : Ptr := l.head

def list_tail (l : list) : Ptr := l.tail

/-! ## Insertion and removal -/

def list_insert (m : ListMem) (before elem : Ptr) : Option ListMem :=
  if (is_interior m before || is_tail m before) && elem != NULL then
    let m := set_prev m elem (m before).prev
    let m := set_next m elem before
    let m := set_next m (m before).prev elem
    some (set_prev m before elem)
  else none

/-- `list_splice (before, first, last)`: moves `first` up to `last` (exclusive) before `before`. -/
def list_splice (m : ListMem) (before first last : Ptr) : Option ListMem :=
  if !(is_interior m before || is_tail m before) then none
  else if first = last then some m
  else
    match list_prev m last with
    | none => none
    | some last =>
      if !(is_interior m first && is_interior m last) then none
      else
        -- remove `first … last` from its list
        let m := set_next m (m first).prev (m last).next
        let m := set_prev m (m last).next (m first).prev
        -- and put it in before `before`
        let m := set_prev m first (m before).prev
        let m := set_next m last before
        let m := set_next m (m before).prev first
        some (set_prev m before last)

def list_push_front (m : ListMem) (l : list) (elem : Ptr) : Option ListMem :=
  list_insert m (list_begin m l) elem

def list_push_back (m : ListMem) (l : list) (elem : Ptr) : Option ListMem :=
  list_insert m (list_end l) elem

/-- `list_remove (elem)`: the memory after, and the element that followed `elem`. -/
def list_remove (m : ListMem) (elem : Ptr) : Option (ListMem × Ptr) :=
  if is_interior m elem then
    let m := set_next m (m elem).prev (m elem).next
    let m := set_prev m (m elem).next (m elem).prev
    some (m, (m elem).next)
  else none

def list_empty (m : ListMem) (l : list) : Bool := list_begin m l == list_end l

def list_front (m : ListMem) (l : list) : Option Ptr :=
  if !list_empty m l then some (m l.head).next else none

def list_back (m : ListMem) (l : list) : Option Ptr :=
  if !list_empty m l then some (m l.tail).prev else none

/-- `list_pop_front (list)`: the memory after, and the element removed. -/
def list_pop_front (m : ListMem) (l : list) : Option (ListMem × Ptr) :=
  match list_front m l with
  | none => none
  | some front =>
    match list_remove m front with
    | none => none
    | some (m, _) => some (m, front)

def list_pop_back (m : ListMem) (l : list) : Option (ListMem × Ptr) :=
  match list_back m l with
  | none => none
  | some back =>
    match list_remove m back with
    | none => none
    | some (m, _) => some (m, back)

/-- The loop of `list_size`: `cnt` elements counted, `e` the next one. -/
def list_size_loop (m : ListMem) (l : list) : Nat → Ptr → Nat → Option Nat
  | 0, _, _ => none
  | fuel + 1, e, cnt =>
    if e = list_end l then some cnt
    else
      match list_next m e with
      | none => none
      | some e => list_size_loop m l fuel e (cnt + 1)

def list_size (fuel : Nat) (m : ListMem) (l : list) : Option Nat :=
  list_size_loop m l fuel (list_begin m l) 0

/-! ## Reversal -/

/-- `swap (a, b)` on two link fields. -/
def swap (m : ListMem) (a b : LinkAddr) : ListMem :=
  let t := a.read m
  let m := a.write m (b.read m)
  b.write m t

/-- The loop of `list_reverse`: swap the links of `e`, then go on to its new `prev`. -/
def reverse_loop (l : list) : Nat → ListMem → Ptr → Option ListMem
  | 0, _, _ => none
  | fuel + 1, m, e =>
    if e = list_end l then some m
    else
      let m := swap m (.prev e) (.next e)
      reverse_loop l fuel m (m e).prev

def list_reverse (fuel : Nat) (m : ListMem) (l : list) : Option ListMem :=
  if !list_empty m l then
    match reverse_loop l fuel m (list_begin m l) with
    | none => none
    | some m =>
      let m := swap m (.next l.head) (.prev l.tail)
      some (swap m (.prev (m l.head).next) (.next (m l.tail).prev))
  else some m

/-! ## Sorting -/

section Ordered

variable (less : Ptr → Ptr → Bool)

/-- The loop of `is_sorted (a, b)`. -/
def is_sorted_loop (m : ListMem) (b : Ptr) : Nat → Ptr → Option Bool
  | 0, _ => none
  | fuel + 1, a =>
    match list_next m a with
    | none => none
    | some a =>
      if a = b then some true
      else
        match list_prev m a with
        | none => none
        | some p => if less a p then some false else is_sorted_loop m b fuel a

def is_sorted (fuel : Nat) (m : ListMem) (a b : Ptr) : Option Bool :=
  if a != b then is_sorted_loop less m b fuel a else some true

/-- The `do … while` of `find_end_of_run (a, b)`. -/
def find_end_of_run_loop (m : ListMem) (b : Ptr) : Nat → Ptr → Option Ptr
  | 0, _ => none
  | fuel + 1, a =>
    match list_next m a with
    | none => none
    | some a =>
      if a = b then some a
      else
        match list_prev m a with
        | none => none
        | some p => if less a p then some a else find_end_of_run_loop m b fuel a

def find_end_of_run (fuel : Nat) (m : ListMem) (a b : Ptr) : Option Ptr :=
  if a != NULL && b != NULL && a != b then find_end_of_run_loop less m b fuel a else none

/-- The loop of `inplace_merge (a0, a1b0, b1)`. -/
def inplace_merge_loop (b1 : Ptr) : Nat → ListMem → Ptr → Ptr → Option ListMem
  | 0, _, _, _ => none
  | fuel + 1, m, a0, a1b0 =>
    if a0 != a1b0 && a1b0 != b1 then
      if !less a1b0 a0 then
        match list_next m a0 with
        | none => none
        | some a0 => inplace_merge_loop b1 fuel m a0 a1b0
      else
        match list_next m a1b0 with
        | none => none
        | some a1b0 =>
          match list_prev m a1b0 with
          | none => none
          | some p =>
            match list_splice m a0 p a1b0 with
            | none => none
            | some m => inplace_merge_loop b1 fuel m a0 a1b0
    else some m

def inplace_merge (fuel : Nat) (m : ListMem) (a0 a1b0 b1 : Ptr) : Option ListMem :=
  if a0 != NULL && a1b0 != NULL && b1 != NULL &&
      is_sorted less fuel m a0 a1b0 == some true && is_sorted less fuel m a1b0 b1 == some true then
    inplace_merge_loop less b1 fuel m a0 a1b0
  else none

/-- The `for` loop of one pass of `list_sort`: each iteration outputs one run. -/
def sort_pass_loop (l : list) (fuel : Nat) : Nat → ListMem → Ptr → Nat → Option (ListMem × Nat)
  | 0, _, _, _ => none
  | k + 1, m, a0, output_run_cnt =>
    if a0 = list_end l then some (m, output_run_cnt)
    else
      let output_run_cnt := output_run_cnt + 1
      match find_end_of_run less fuel m a0 (list_end l) with
      | none => none
      | some a1b0 =>
        if a1b0 = list_end l then some (m, output_run_cnt)
        else
          match find_end_of_run less fuel m a1b0 (list_end l) with
          | none => none
          | some b1 =>
            match inplace_merge less fuel m a0 a1b0 b1 with
            | none => none
            | some m => sort_pass_loop l fuel k m b1 output_run_cnt

/-- The `do … while (output_run_cnt > 1)` of `list_sort`. -/
def list_sort_loop (l : list) (fuel : Nat) : Nat → ListMem → Option ListMem
  | 0, _ => none
  | k + 1, m =>
    match sort_pass_loop less l fuel fuel m (list_begin m l) 0 with
    | none => none
    | some (m, output_run_cnt) => if output_run_cnt > 1 then list_sort_loop l fuel k m else some m

def list_sort (fuel : Nat) (m : ListMem) (l : list) : Option ListMem :=
  match list_sort_loop less l fuel fuel m with
  | none => none
  | some m => if is_sorted less fuel m (list_begin m l) (list_end l) = some true then some m else none

/-- The loop of `list_insert_ordered`: the first element that `elem` is less than, or the tail. -/
def insert_ordered_loop (m : ListMem) (l : list) (elem : Ptr) : Nat → Ptr → Option Ptr
  | 0, _ => none
  | fuel + 1, e =>
    if e = list_end l then some e
    else if less elem e then some e
    else
      match list_next m e with
      | none => none
      | some e => insert_ordered_loop m l elem fuel e

def list_insert_ordered (fuel : Nat) (m : ListMem) (l : list) (elem : Ptr) : Option ListMem :=
  if elem = NULL then none
  else
    match insert_ordered_loop less m l elem fuel (list_begin m l) with
    | none => none
    | some e => list_insert m e elem

/-- The loop of `list_unique`: `elem` is the element kept last. -/
def unique_loop (l : list) (duplicates : Option list) : Nat → ListMem → Ptr → Option ListMem
  | 0, _, _ => none
  | fuel + 1, m, elem =>
    match list_next m elem with
    | none => none
    | some next =>
      if next = list_end l then some m
      else if !less elem next && !less next elem then
        match list_remove m next with
        | none => none
        | some (m, _) =>
          match duplicates with
          | none => unique_loop l duplicates fuel m elem
          | some d =>
            match list_push_back m d next with
            | none => none
            | some m => unique_loop l duplicates fuel m elem
      else unique_loop l duplicates fuel m next

/-- `list_unique (list, duplicates, less, aux)`, with `duplicates` null as `none`. -/
def list_unique (fuel : Nat) (m : ListMem) (l : list) (duplicates : Option list) : Option ListMem :=
  if list_empty m l then some m else unique_loop less l duplicates fuel m (list_begin m l)

end Ordered

/-! ## Maximum and minimum -/

/-- The loop shared by `list_max` and `list_min`: `best` is replaced by `e` when
`better e best`. -/
def extreme_loop (better : Ptr → Ptr → Bool) (m : ListMem) (l : list) : Nat → Ptr → Ptr → Option Ptr
  | 0, _, _ => none
  | fuel + 1, best, e =>
    if e = list_end l then some best
    else
      let best := if better e best then e else best
      match list_next m e with
      | none => none
      | some e => extreme_loop better m l fuel best e

/-- The body shared by `list_max` and `list_min`. -/
def list_extreme (better : Ptr → Ptr → Bool) (fuel : Nat) (m : ListMem) (l : list) : Option Ptr :=
  let best := list_begin m l
  if best != list_end l then
    match list_next m best with
    | none => none
    | some e => extreme_loop better m l fuel best e
  else some best

/-- `list_max`: `max` is replaced by `e` when `less (max, e)`. -/
def list_max (less : Ptr → Ptr → Bool) (fuel : Nat) (m : ListMem) (l : list) : Option Ptr :=
  list_extreme (fun e max => less max e) fuel m l

/-- `list_min`: `min` is replaced by `e` when `less (e, min)`. -/
def list_min (less : Ptr → Ptr → Bool) (fuel : Nat) (m : ListMem) (l : list) : Option Ptr :=
  list_extreme (fun e min => less e min) fuel m l

/-! ## Reading links back -/

@[simp] theorem set_prev_self (m : ListMem) (e v : Ptr) : (set_prev m e v e) = { m e with prev := v } :=
  Function.update_self _ _ _

@[simp] theorem set_next_self (m : ListMem) (e v : Ptr) : (set_next m e v e) = { m e with next := v } :=
  Function.update_self _ _ _

theorem set_prev_of_ne (m : ListMem) {e q : Ptr} (v : Ptr) (h : q ≠ e) : set_prev m e v q = m q :=
  Function.update_of_ne h _ _

theorem set_next_of_ne (m : ListMem) {e q : Ptr} (v : Ptr) (h : q ≠ e) : set_next m e v q = m q :=
  Function.update_of_ne h _ _

@[simp] theorem next_set_prev (m : ListMem) (e v q : Ptr) : (set_prev m e v q).next = (m q).next := by
  unfold set_prev
  by_cases h : q = e
  · subst h
    rw [Function.update_self]
  · rw [Function.update_of_ne h]

@[simp] theorem prev_set_next (m : ListMem) (e v q : Ptr) : (set_next m e v q).prev = (m q).prev := by
  unfold set_next
  by_cases h : q = e
  · subst h
    rw [Function.update_self]
  · rw [Function.update_of_ne h]

theorem prev_set_prev (m : ListMem) (e v q : Ptr) :
    (set_prev m e v q).prev = Function.update (fun p => (m p).prev) e v q := by
  unfold set_prev
  by_cases h : q = e
  · subst h
    rw [Function.update_self, Function.update_self]
  · rw [Function.update_of_ne h, Function.update_of_ne h]

theorem next_set_next (m : ListMem) (e v q : Ptr) :
    (set_next m e v q).next = Function.update (fun p => (m p).next) e v q := by
  unfold set_next
  by_cases h : q = e
  · subst h
    rw [Function.update_self, Function.update_self]
  · rw [Function.update_of_ne h, Function.update_of_ne h]

/-- A non-null element whose `next` is not null is a head or an interior element, as its `prev`
is null or not. -/
theorem is_head_or_interior {m : ListMem} {e : Ptr} (he : e ≠ NULL) (hn : (m e).next ≠ NULL) :
    (is_head m e || is_interior m e) = true := by
  unfold is_head is_interior
  by_cases hp : (m e).prev = NULL <;> simp [he, hn, hp]

theorem is_interior_or_tail {m : ListMem} {e : Ptr} (he : e ≠ NULL) (hp : (m e).prev ≠ NULL) :
    (is_interior m e || is_tail m e) = true := by
  unfold is_interior is_tail
  by_cases hn : (m e).next = NULL <;> simp [he, hn, hp]

theorem list_next_eq {m : ListMem} {e : Ptr} (he : e ≠ NULL) (hn : (m e).next ≠ NULL) :
    list_next m e = some (m e).next := by
  rw [list_next, if_pos (is_head_or_interior he hn)]

theorem list_prev_eq {m : ListMem} {e : Ptr} (he : e ≠ NULL) (hp : (m e).prev ≠ NULL) :
    list_prev m e = some (m e).prev := by
  rw [list_prev, if_pos (is_interior_or_tail he hp)]

theorem is_interior_eq {m : ListMem} {e : Ptr} (he : e ≠ NULL) (hp : (m e).prev ≠ NULL)
    (hn : (m e).next ≠ NULL) : is_interior m e = true := by
  simp [is_interior, he, hp, hn]

end Pintos
