import Mathlib.Data.List.Chain
import Mathlib.Data.List.Nodup
import Mathlib.Logic.Function.Basic

/-! # Doubly linked chains

A store gives every pointer a successor `nx` and a predecessor `pv`.  A chain of pointers is
linked when each pointer has the next one as successor and that one has it as predecessor.
The links of a chain are the successors of all its pointers but the last and the predecessors of
all but the first, so writes elsewhere keep it linked (`Linked.frame`).

Taking a nonempty segment out from between its neighbours `a` and `b` is two writes, `a`'s
successor and `b`'s predecessor (`Linked.unlink`); putting a segment from `f` to `l` between
neighbours `a` and `b` is four, in the order `f`'s predecessor, `l`'s successor, `a`'s successor,
`b`'s predecessor (`Linked.link`).  Swapping the two links of every pointer of a chain links its
reverse (`Linked.reverse`); doing so inside `a :: s ++ [b]` and linking `a` and `b` to the other
ends of `s` reverses `s` in place (`Linked.reverse_inner`).
-/

namespace Links
set_option autoImplicit false

variable {P : Type}

/-- Each pointer of `c` has the next one as successor, which has it as predecessor. -/
def Linked (nx pv : P → P) (c : List P) : Prop := c.IsChain (fun p q => nx p = q ∧ pv q = p)

variable {nx pv : P → P}

@[simp] theorem linked_nil : Linked nx pv [] := List.IsChain.nil

@[simp] theorem linked_singleton (a : P) : Linked nx pv [a] := List.isChain_singleton a

theorem linked_cons_cons {a b : P} {c : List P} :
    Linked nx pv (a :: b :: c) ↔ (nx a = b ∧ pv b = a) ∧ Linked nx pv (b :: c) :=
  List.isChain_cons_cons

theorem linked_append {c₁ c₂ : List P} :
    Linked nx pv (c₁ ++ c₂) ↔ Linked nx pv c₁ ∧ Linked nx pv c₂ ∧
      ∀ x ∈ c₁.getLast?, ∀ y ∈ c₂.head?, nx x = y ∧ pv y = x :=
  List.isChain_append

theorem linked_append_cons {c₁ c₂ : List P} {a : P} :
    Linked nx pv (c₁ ++ a :: c₂) ↔ Linked nx pv (c₁ ++ [a]) ∧ Linked nx pv (a :: c₂) := by
  constructor
  · intro h
    rw [← List.singleton_append, ← List.append_assoc] at h
    obtain ⟨h₁, h₂, hj⟩ := linked_append.mp h
    refine ⟨h₁, ?_⟩
    rcases c₂ with _ | ⟨b, c₂⟩
    · exact linked_singleton a
    · rw [linked_cons_cons]
      exact ⟨hj a (by simp) b (by simp), h₂⟩
  · rintro ⟨h₁, h₂⟩
    have h := linked_append.mpr ⟨h₁, (show Linked nx pv c₂ from h₂.tail), ?_⟩
    · rwa [List.append_assoc, List.singleton_append] at h
    intro x hx y hy
    rw [List.getLast?_concat, Option.mem_some_iff] at hx
    subst hx
    rcases c₂ with _ | ⟨b, c₂⟩
    · simp at hy
    · rw [List.head?_cons, Option.mem_some_iff] at hy
      subst hy
      exact (linked_cons_cons.mp h₂).1

theorem Linked.infix {c c₁ : List P} (h : Linked nx pv c) (h' : c₁ <:+: c) : Linked nx pv c₁ :=
  List.IsChain.infix h h'

theorem Linked.step {c : List P} {a b : P} (h : Linked nx pv c) (hab : [a, b] <:+: c) :
    nx a = b ∧ pv b = a := by
  have h₂ : List.IsChain (fun p q => nx p = q ∧ pv q = p) [a, b] := h.infix hab
  have h₃ := List.isChain_pair.mp h₂
  exact h₃

theorem Linked.step_of_append {c₁ c₂ : List P} {a b : P} (h : Linked nx pv (c₁ ++ a :: b :: c₂)) :
    nx a = b ∧ pv b = a :=
  h.step ⟨c₁, c₂, by simp⟩

/-- The links of a chain are the successors of all its pointers but the last and the
predecessors of all but the first. -/
theorem Linked.frame {nx' pv' : P → P} :
    ∀ {c : List P}, Linked nx pv c → (∀ p ∈ c.dropLast, nx' p = nx p) →
      (∀ q ∈ c.tail, pv' q = pv q) → Linked nx' pv' c
  | [], _, _, _ => linked_nil
  | [a], _, _, _ => linked_singleton a
  | a :: b :: c, h, hn, hp => by
    rw [linked_cons_cons] at h ⊢
    refine ⟨⟨?_, ?_⟩, Linked.frame h.2 ?_ ?_⟩
    · rw [hn a (by simp)]
      exact h.1.1
    · rw [hp b (by simp)]
      exact h.1.2
    · intro p hpm
      exact hn p (by rw [List.dropLast_cons_cons]; exact List.mem_cons_of_mem _ hpm)
    · intro q hq
      exact hp q (List.mem_of_mem_tail hq)

theorem Linked.update_nx_of_not_mem [DecidableEq P] {c : List P} (h : Linked nx pv c) {p : P}
    (hp : p ∉ c) (v : P) : Linked (Function.update nx p v) pv c :=
  h.frame (fun _ hq => Function.update_of_ne (ne_of_mem_of_not_mem (List.dropLast_subset c hq) hp) _ _)
    (fun _ _ => rfl)

theorem Linked.update_pv_of_not_mem [DecidableEq P] {c : List P} (h : Linked nx pv c) {p : P}
    (hp : p ∉ c) (v : P) : Linked nx (Function.update pv p v) c :=
  h.frame (fun _ _ => rfl)
    (fun _ hq => Function.update_of_ne (ne_of_mem_of_not_mem (List.mem_of_mem_tail hq) hp) _ _)

theorem Linked.reverse {c : List P} (h : Linked nx pv c) : Linked pv nx c.reverse := by
  unfold Linked at h ⊢
  rw [List.isChain_reverse]
  exact h.imp fun _ _ hpq => ⟨hpq.2, hpq.1⟩

theorem ne_head_of_mem_tail {s : List P} (hnd : s.Nodup) (hs : s ≠ []) {p : P} (hp : p ∈ s.tail) :
    p ≠ s.head hs := by
  obtain ⟨f, t, rfl⟩ := List.exists_cons_of_ne_nil hs
  intro e
  rw [List.head_cons] at e
  rw [List.tail_cons, e] at hp
  exact (List.nodup_cons.mp hnd).1 hp

/-- Reversing the inner part `s` of a chain `a :: s ++ [b]` in place.  Each pointer of `s` but
the first gets its predecessor as successor, and each but the last its successor as predecessor;
`a` and `b` are linked to the last and the first of `s`. -/
theorem Linked.reverse_inner {a b : P} {s : List P} (hs : s ≠ []) (h : Linked nx pv (a :: (s ++ [b])))
    (hnd : s.Nodup) {nx' pv' : P → P}
    (hnx : ∀ p ∈ s, p ≠ s.head hs → nx' p = pv p) (hpv : ∀ p ∈ s, p ≠ s.getLast hs → pv' p = nx p)
    (ha : nx' a = s.getLast hs) (hl : pv' (s.getLast hs) = a)
    (hf : nx' (s.head hs) = b) (hb : pv' b = s.head hs) :
    Linked nx' pv' (a :: (s.reverse ++ [b])) := by
  have hrs : s.reverse ≠ [] := List.reverse_ne_nil_iff.mpr hs
  have hrev : Linked nx' pv' s.reverse := by
    refine (show Linked nx pv s from h.infix ⟨[a], [b], by simp⟩).reverse.frame ?_ ?_
    · intro p hp
      rw [List.dropLast_reverse, List.mem_reverse] at hp
      exact hnx p (List.mem_of_mem_tail hp) (ne_head_of_mem_tail hnd hs hp)
    · intro q hq
      have hne := ne_head_of_mem_tail (List.nodup_reverse.mpr hnd) hrs hq
      rw [List.head_reverse] at hne
      rw [List.tail_reverse, List.mem_reverse] at hq
      exact hpv q (List.dropLast_subset _ hq) hne
  have hfront : Linked nx' pv' ([a] ++ s.reverse) := by
    refine linked_append.mpr ⟨linked_singleton a, hrev, ?_⟩
    intro x hx y hy
    rw [List.getLast?_singleton, Option.mem_some_iff] at hx
    rw [List.head?_reverse, List.getLast?_eq_some_getLast hs, Option.mem_some_iff] at hy
    subst hx hy
    exact ⟨ha, hl⟩
  have hall := linked_append.mpr ⟨hfront, linked_singleton b, ?_⟩
  · simpa using hall
  intro x hx y hy
  rw [List.getLast?_append_of_ne_nil _ hrs, List.getLast?_reverse, List.head?_eq_some_head hs,
    Option.mem_some_iff] at hx
  rw [List.head?_singleton, Option.mem_some_iff] at hy
  subst hx hy
  exact ⟨hf, hb⟩

section Surgery

variable [DecidableEq P]

/-- Taking the segment `s` out from between `a` and `b`: `a` gets `b` as successor and `b` gets
`a` as predecessor.  The rest of the chain is linked around the gap, and the segment keeps its
own links. -/
theorem Linked.unlink {A s B : List P} {a b : P} (h : Linked nx pv (A ++ a :: (s ++ b :: B)))
    (hnd : (A ++ a :: (s ++ b :: B)).Nodup) :
    Linked (Function.update nx a b) (Function.update pv b a) (A ++ a :: b :: B) ∧
      Linked (Function.update nx a b) (Function.update pv b a) s := by
  have hA := (linked_append_cons.mp h).1
  have hsB : Linked nx pv (s ++ b :: B) := (linked_append_cons.mp h).2.tail
  have hs : Linked nx pv s := hsB.infix (List.prefix_append s _).isInfix
  have hB : Linked nx pv (b :: B) := hsB.infix (List.suffix_append s _).isInfix
  rw [List.nodup_append] at hnd
  obtain ⟨-, hnd', hdisj⟩ := hnd
  rw [List.nodup_cons, List.nodup_append, List.nodup_cons] at hnd'
  obtain ⟨ha, -, ⟨hb, -⟩, hsb⟩ := hnd'
  have haA : a ∉ A := fun hm => hdisj a hm a List.mem_cons_self rfl
  have hbA : b ∉ A := fun hm => hdisj b hm b (by simp) rfl
  have has : a ∉ s := fun hm => ha (List.mem_append_left _ hm)
  have hbs : b ∉ s := fun hm => hsb b hm b List.mem_cons_self rfl
  have haB : a ∉ b :: B := fun hm => ha (List.mem_append_right _ hm)
  have hab : a ≠ b := fun e => haB (e ▸ List.mem_cons_self)
  refine ⟨linked_append_cons.mpr ⟨?_, ?_⟩, ?_⟩
  · refine hA.frame (fun p hp => ?_) (fun q hq => ?_)
    · rw [List.dropLast_concat] at hp
      exact Function.update_of_ne (ne_of_mem_of_not_mem hp haA) _ _
    · have hq' : q ∈ A ++ [a] := List.mem_of_mem_tail hq
      refine Function.update_of_ne (fun e => ?_) _ _
      rw [e, List.mem_append, List.mem_singleton] at hq'
      exact hq'.elim hbA (fun e' => hab e'.symm)
  · rw [linked_cons_cons]
    refine ⟨⟨Function.update_self _ _ _, Function.update_self _ _ _⟩, ?_⟩
    exact (hB.update_nx_of_not_mem haB b).frame (fun _ _ => rfl)
      (fun q hq => Function.update_of_ne (ne_of_mem_of_not_mem (show q ∈ B from hq) hb) _ _)
  · exact (hs.update_nx_of_not_mem has b).update_pv_of_not_mem hbs a

/-- Putting the segment `S` from `f` to `l` between the neighbours `a` and `b`, with the writes in
this order: `f`'s predecessor, `l`'s successor, `a`'s successor, `b`'s predecessor. -/
theorem Linked.link {A S B : List P} {a b f l : P} (h : Linked nx pv (A ++ a :: b :: B))
    (hS : Linked nx pv S) (hf : S.head? = some f) (hl : S.getLast? = some l)
    (hnd : (A ++ a :: (S ++ b :: B)).Nodup) :
    Linked (Function.update (Function.update nx l b) a f)
      (Function.update (Function.update pv f a) b l) (A ++ a :: (S ++ b :: B)) := by
  have hA := (linked_append_cons.mp h).1
  have hB : Linked nx pv (b :: B) := (linked_append_cons.mp h).2.tail
  obtain ⟨S₁, rfl⟩ : ∃ S₁, S = f :: S₁ := by
    rcases S with _ | ⟨f', S₁⟩
    · simp at hf
    · rw [List.head?_cons, Option.some_inj] at hf
      exact ⟨S₁, hf ▸ rfl⟩
  obtain ⟨S₂, hS₂⟩ := List.getLast?_eq_some_iff.mp hl
  rw [List.nodup_append] at hnd
  obtain ⟨-, hnd', hdisj⟩ := hnd
  rw [List.nodup_cons, List.nodup_append] at hnd'
  obtain ⟨ha, hSnd, hBnd, hSB⟩ := hnd'
  have hfS₁ : f ∉ S₁ := (List.nodup_cons.mp hSnd).1
  have hlS₂ : l ∉ S₂ := by
    rw [hS₂, List.nodup_append] at hSnd
    exact fun hm => hSnd.2.2 l hm l (List.mem_singleton_self l) rfl
  have hfmem : f ∈ f :: S₁ := List.mem_cons_self
  have hlmem : l ∈ f :: S₁ := by rw [hS₂]; simp
  have hbB : b ∉ B := (List.nodup_cons.mp hBnd).1
  have hnA : ∀ x ∈ f :: S₁ ++ b :: B, x ∉ A ++ [a] := by
    intro x hx hxA
    rw [List.mem_append, List.mem_singleton] at hxA
    rcases hxA with hxA | rfl
    · exact hdisj x hxA x (List.mem_cons_of_mem _ hx) rfl
    · exact ha hx
  have hfb : f ≠ b := hSB f hfmem b List.mem_cons_self
  have hla : l ≠ a := fun e => ha (List.mem_append_left _ (e ▸ hlmem))
  refine linked_append_cons.mpr ⟨?_, ?_⟩
  · refine hA.frame (fun p hp => ?_) (fun q hq => ?_)
    · rw [List.dropLast_concat] at hp
      have hpa : p ≠ a := fun e => hdisj p hp a List.mem_cons_self e
      have hpl : p ≠ l := fun e => hnA l (List.mem_append_left _ hlmem) (e ▸ List.mem_append_left _ hp)
      rw [Function.update_of_ne hpa, Function.update_of_ne hpl]
    · have hq' : q ∈ A ++ [a] := List.mem_of_mem_tail hq
      have hqb : q ≠ b := fun e => hnA b (by simp) (e ▸ hq')
      have hqf : q ≠ f := fun e => hnA f (by simp) (e ▸ hq')
      rw [Function.update_of_ne hqb, Function.update_of_ne hqf]
  · rw [List.cons_append, linked_cons_cons]
    refine ⟨⟨Function.update_self _ _ _, ?_⟩, ?_⟩
    · rw [Function.update_of_ne hfb, Function.update_self]
    rw [← List.cons_append]
    refine linked_append.mpr ⟨?_, ?_, ?_⟩
    · refine hS.frame (fun p hp => ?_) (fun q hq => ?_)
      · have hpl : p ≠ l := by
          rw [hS₂, List.dropLast_concat] at hp
          exact ne_of_mem_of_not_mem hp hlS₂
        have hpa : p ≠ a := fun e => ha (List.mem_append_left _ (e ▸ List.dropLast_subset _ hp))
        rw [Function.update_of_ne hpa, Function.update_of_ne hpl]
      · have hqf : q ≠ f := ne_of_mem_of_not_mem hq hfS₁
        have hqb : q ≠ b := hSB q (List.mem_of_mem_tail hq) b List.mem_cons_self
        rw [Function.update_of_ne hqb, Function.update_of_ne hqf]
    · refine hB.frame (fun p hp => ?_) (fun q hq => ?_)
      · have hp' : p ∈ b :: B := List.dropLast_subset _ hp
        have hpa : p ≠ a := fun e => ha (List.mem_append_right _ (e ▸ hp'))
        have hpl : p ≠ l := fun e => hSB l hlmem p hp' e.symm
        rw [Function.update_of_ne hpa, Function.update_of_ne hpl]
      · have hqb : q ≠ b := ne_of_mem_of_not_mem hq hbB
        have hqf : q ≠ f := fun e => hSB f hfmem q (List.mem_of_mem_tail hq) e.symm
        rw [Function.update_of_ne hqb, Function.update_of_ne hqf]
    · intro x hx y hy
      rw [hl, Option.mem_some_iff] at hx
      rw [List.head?_cons, Option.mem_some_iff] at hy
      subst hx hy
      exact ⟨by rw [Function.update_of_ne hla, Function.update_self], Function.update_self _ _ _⟩

end Surgery

end Links
