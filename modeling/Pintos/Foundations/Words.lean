import Mathlib.Logic.Function.Basic

/-! # Words of a list

`words sep l` are the maximal non-empty runs of `l` that contain no `sep`, in order: the pieces
of `l.splitOn sep` that are not empty.  A tokenizer that reads a run of separators as one and
never returns an empty token returns exactly these.

`spans p l` are the same runs for the separators that satisfy `p`, each with the position in `l`
where it begins.  A scan that skips separators and then a run is matched against them by three
equations: a separator in front (`spans_cons_of_sep`), a run and the separator that ends it
(`spans_run_cons`), and a run that is the whole list (`spans_run`).
-/

namespace Words
set_option autoImplicit false

variable {α : Type}

def words [BEq α] (sep : α) (l : List α) : List (List α) := (l.splitOn sep).filter (fun w => !w.isEmpty)

/-- Where the pieces `xs` of a split begin when the first begins at `i`: a piece and the
separator after it take its length and one more. -/
def pieceStarts : List (List α) → Nat → List Nat
  | [], _ => []
  | x :: xs, i => i :: pieceStarts xs (i + x.length + 1)

/-- The maximal non-empty runs of `l` with no element that satisfies `p`, in order, each with the
position in `l` where it begins. -/
def spans (p : α → Bool) (l : List α) : List (Nat × List α) :=
  ((pieceStarts (l.splitOnP p) 0).zip (l.splitOnP p)).filter (fun tw => !tw.2.isEmpty)

/-- A run `k` positions further on. -/
def shift (k : Nat) (tw : Nat × List α) : Nat × List α := (tw.1 + k, tw.2)

@[simp] theorem shift_fst (k : Nat) (tw : Nat × List α) : (shift k tw).1 = tw.1 + k := rfl

@[simp] theorem shift_snd (k : Nat) (tw : Nat × List α) : (shift k tw).2 = tw.2 := rfl

@[simp] theorem map_shift_zero (l : List (Nat × List α)) : l.map (shift 0) = l := by
  have h : (shift 0 : Nat × List α → Nat × List α) = id := funext fun _ => rfl
  rw [h, List.map_id]

theorem map_shift_shift (l : List (Nat × List α)) (j k : Nat) :
    (l.map (shift j)).map (shift k) = l.map (shift (j + k)) := by
  simp [shift, Function.comp_def, Nat.add_assoc]

@[simp] theorem map_snd_map_shift (l : List (Nat × List α)) (k : Nat) :
    (l.map (shift k)).map Prod.snd = l.map Prod.snd := by
  simp [Function.comp_def]

/-! ## Where the pieces begin -/

theorem pieceStarts_length (xs : List (List α)) (i : Nat) : (pieceStarts xs i).length = xs.length := by
  induction xs generalizing i with
  | nil => rfl
  | cons x xs ih => simp [pieceStarts, ih]

theorem pieceStarts_add (xs : List (List α)) (i k : Nat) :
    pieceStarts xs (i + k) = (pieceStarts xs i).map (· + k) := by
  induction xs generalizing i with
  | nil => rfl
  | cons x xs ih =>
    rw [pieceStarts, pieceStarts, List.map_cons, show i + k + x.length + 1 = i + x.length + 1 + k by omega, ih]

/-- The runs among pieces that begin at `k` are those among the same pieces begun at `0`,
`k` positions on. -/
theorem filter_zip_pieceStarts (ps : List (List α)) (k : Nat) :
    ((pieceStarts ps k).zip ps).filter (fun tw => !tw.2.isEmpty) =
      (((pieceStarts ps 0).zip ps).filter (fun tw => !tw.2.isEmpty)).map (shift k) := by
  have h := pieceStarts_add ps 0 k
  rw [Nat.zero_add] at h
  rw [h, List.zip_map_left, List.filter_map]
  rfl

/-! ## The three equations -/

@[simp] theorem spans_nil (p : α → Bool) : spans p [] = [] := rfl

theorem spans_cons_of_sep (p : α → Bool) {c : α} (hc : p c = true) (l : List α) :
    spans p (c :: l) = (spans p l).map (shift 1) := by
  unfold spans
  rw [List.splitOnP_cons_eq_if_modifyHead, if_pos hc, pieceStarts, List.zip_cons_cons,
    List.filter_cons_of_neg (by simp), List.length_nil]
  exact filter_zip_pieceStarts _ 1

theorem spans_run_cons (p : α → Bool) {x : List α} (hx : x ≠ []) (hxp : ∀ a ∈ x, p a = false) {c : α}
    (hc : p c = true) (l : List α) :
    spans p (x ++ c :: l) = (0, x) :: (spans p l).map (shift (x.length + 1)) := by
  unfold spans
  rw [List.splitOnP_append_cons_of_forall_mem hxp c hc, pieceStarts, List.zip_cons_cons,
    List.filter_cons_of_pos (by simpa using hx), Nat.zero_add, filter_zip_pieceStarts]

theorem spans_run (p : α → Bool) {x : List α} (hx : x ≠ []) (hxp : ∀ a ∈ x, p a = false) :
    spans p x = [(0, x)] := by
  unfold spans
  rw [List.splitOnP_eq_singleton hxp]
  simp [pieceStarts, hx]

/-! ## The separators that matter -/

theorem splitOnPPrepend_congr {p q : α → Bool} :
    ∀ {l : List α} (acc : List α), (∀ a ∈ l, p a = q a) → l.splitOnPPrepend p acc = l.splitOnPPrepend q acc
  | [], _, _ => rfl
  | a :: l, acc, h => by
    have ih : ∀ acc', l.splitOnPPrepend p acc' = l.splitOnPPrepend q acc' :=
      fun acc' => splitOnPPrepend_congr acc' fun b hb => h b (List.mem_cons_of_mem a hb)
    simp only [List.splitOnPPrepend, h a List.mem_cons_self, ih]

theorem spans_congr {p q : α → Bool} {l : List α} (h : ∀ a ∈ l, p a = q a) : spans p l = spans q l := by
  unfold spans List.splitOnP
  rw [splitOnPPrepend_congr [] h]

theorem words_eq_map_spans [BEq α] (sep : α) (l : List α) : words sep l = (spans (· == sep) l).map Prod.snd := by
  unfold words spans
  rw [show (fun tw : Nat × List α => !tw.2.isEmpty) = (fun w : List α => !w.isEmpty) ∘ Prod.snd from rfl,
    ← List.filter_map, List.map_snd_zip (Nat.le_of_eq (pieceStarts_length _ _).symm)]
  rfl

end Words
