import Mathlib.Logic.Function.Basic

/-! # Runs of a labelled step function

A system given by `step : σ → α → Option (σ × List ε)` takes the actions of a schedule one after
another.  A step may fail, and reports the labels of what it completed.  A property of a state
and the labels before it that holds at the start and that every step keeps holds after every
run: this is how a statement about every interleaving is proved from one about one step.
-/

namespace Runs
set_option autoImplicit false

variable {σ α ε : Type}

/-- The state after the actions and the labels of their steps, or `none` once a step fails. -/
def run (step : σ → α → Option (σ × List ε)) (s : σ) : List α → Option (σ × List ε)
  | [] => some (s, [])
  | a :: as =>
    match step s a with
    | none => none
    | some (s', e) => (run step s' as).map (fun r => (r.1, e ++ r.2))

variable {step : σ → α → Option (σ × List ε)}

@[simp] theorem run_nil (s : σ) : run step s [] = some (s, []) := rfl

theorem run_cons_eq_some {s t : σ} {a : α} {as : List α} {es : List ε}
    (h : run step s (a :: as) = some (t, es)) :
    ∃ s' e es', step s a = some (s', e) ∧ run step s' as = some (t, es') ∧ es = e ++ es' := by
  simp only [run] at h
  split at h
  · cases h
  · next s' e hs =>
    obtain ⟨⟨t', es'⟩, hr, heq⟩ := Option.map_eq_some_iff.mp h
    obtain ⟨rfl, rfl⟩ := Prod.mk.inj heq
    exact ⟨s', e, es', hs, hr, rfl⟩

section Invariant

variable (Inv : σ → List ε → Prop)

/-- The invariant rule: a property of a state and the labels before it that every step keeps
holds after every run. -/
theorem run_inv (hstep : ∀ s h a s' e, Inv s h → step s a = some (s', e) → Inv s' (h ++ e))
    {s : σ} {h : List ε} (hs : Inv s h) {as : List α} {t : σ} {es : List ε}
    (hr : run step s as = some (t, es)) : Inv t (h ++ es) := by
  induction as generalizing s h es with
  | nil =>
    simp only [run_nil, Option.some.injEq, Prod.mk.injEq] at hr
    obtain ⟨rfl, rfl⟩ := hr
    simpa using hs
  | cons a as ih =>
    obtain ⟨s', e, es', hstep', hr', rfl⟩ := run_cons_eq_some hr
    rw [← List.append_assoc]
    exact ih (hstep s h a s' e hs hstep') hr'

theorem run_inv_nil (hstep : ∀ s h a s' e, Inv s h → step s a = some (s', e) → Inv s' (h ++ e))
    {s : σ} (hs : Inv s []) {as : List α} {t : σ} {es : List ε}
    (hr : run step s as = some (t, es)) : Inv t es := by
  simpa using run_inv Inv hstep hs hr

end Invariant

end Runs
