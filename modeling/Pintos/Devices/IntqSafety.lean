import Mathlib.Tactic.SplitIfs
import Pintos.Devices.Intq
import Pintos.Foundations.Ring

/-! # The interrupt queue under every interleaving

What `intq.c` keeps across any interleaving of threads and interrupt handlers: the bytes it
holds, read from `tail` round to `head`, are the bytes put and not yet got, in order
(`QueueInv`), and the waiter fields, the lock and the blocked threads agree (`ThreadInv`).  Then
every step goes through but two: an interrupt handler that would have to wait, which its callers
rule out, and a thread that blocked on the lock and gets it after the condition it meant to wait
for has ended, where the `ASSERT` of `wait` fires.
-/

namespace Pintos
set_option autoImplicit false

/-- The field a call waits on. -/
def IntqOp.waiter : IntqOp → Waiter
  | .getc => .not_empty
  | .putc _ => .not_full

/-- Whether a call waiting on `w` has to wait: `intq_getc` on an empty queue, `intq_putc` on a
full one. -/
def Intq.must_wait (q : Intq) : Waiter → Bool
  | .not_empty => intq_empty q
  | .not_full => intq_full q

theorem Intq.must_wait_of_eq {q q' : Intq} (hh : q'.head = q.head) (ht : q'.tail = q.tail) (w : Waiter) :
    q'.must_wait w = q.must_wait w := by
  cases w <;> simp [Intq.must_wait, intq_empty, intq_full, hh, ht]

theorem wait_eq (q : Intq) (w : Waiter) (t : Nat) :
    wait q w t = if q.must_wait w then some (q.set_waiter w (some t)) else none := by
  cases w <;> by_cases he : intq_empty q <;> by_cases hf : intq_full q <;> simp [wait, Intq.must_wait, he, hf]

theorem signal_eq (q : Intq) (w : Waiter) :
    signal q w = if q.must_wait w then none else some (q.set_waiter w none, q.waiter w) := by
  unfold signal
  cases hw : q.waiter w with
  | none =>
    rw [Intq.set_waiter_self q w none hw]
    cases w <;> by_cases he : intq_empty q <;> by_cases hf : intq_full q <;> simp [Intq.must_wait, he, hf]
  | some t =>
    cases w <;> by_cases he : intq_empty q <;> by_cases hf : intq_full q <;> simp [Intq.must_wait, he, hf]

/-! ## The bytes in the queue -/

/-- The bytes put, in order. -/
def puts : List IntqEvent → List UInt8 :=
  List.filterMap fun
    | .put b => some b
    | .got _ => none

/-- The bytes got, in order. -/
def gots : List IntqEvent → List UInt8 :=
  List.filterMap fun
    | .got b => some b
    | .put _ => none

@[simp] theorem puts_append (l l' : List IntqEvent) : puts (l ++ l') = puts l ++ puts l' := List.filterMap_append

@[simp] theorem gots_append (l l' : List IntqEvent) : gots (l ++ l') = gots l ++ gots l' := List.filterMap_append

@[simp] theorem puts_put (b : UInt8) : puts [.put b] = [b] := rfl

@[simp] theorem puts_got (b : UInt8) : puts [.got b] = [] := rfl

@[simp] theorem gots_put (b : UInt8) : gots [.put b] = [] := rfl

@[simp] theorem gots_got (b : UInt8) : gots [.got b] = [b] := rfl

/-- The bytes the queue holds, oldest first: the slots from `tail` round to `head`. -/
def Intq.held (q : Intq) : List UInt8 :=
  Ring.contents INTQ_BUFSIZE q.buf q.tail (Ring.count INTQ_BUFSIZE q.head q.tail)

structure QueueInv (q : Intq) (evs : List IntqEvent) : Prop where
  head_lt : q.head < INTQ_BUFSIZE
  tail_lt : q.tail < INTQ_BUFSIZE
  /-- the bytes put are the bytes got, then the bytes held -/
  fifo : puts evs = gots evs ++ q.held

section Queue

variable {q : Intq} {evs : List IntqEvent}

theorem QueueInv.of_eq {q' : Intq} (hq : QueueInv q evs) (hb : q'.buf = q.buf) (hh : q'.head = q.head)
    (ht : q'.tail = q.tail) : QueueInv q' evs where
  head_lt := hh ▸ hq.head_lt
  tail_lt := ht ▸ hq.tail_lt
  fifo := by rw [hq.fifo, Intq.held, Intq.held, hb, hh, ht]

theorem empty_iff_count (hh : q.head < INTQ_BUFSIZE) (ht : q.tail < INTQ_BUFSIZE) :
    intq_empty q = true ↔ Ring.count INTQ_BUFSIZE q.head q.tail = 0 := by
  rw [Ring.count_eq_zero_iff hh ht]
  simp [intq_empty]

theorem full_iff_count (hh : q.head < INTQ_BUFSIZE) (ht : q.tail < INTQ_BUFSIZE) :
    intq_full q = true ↔ Ring.count INTQ_BUFSIZE q.head q.tail = INTQ_BUFSIZE - 1 := by
  rw [Ring.count_eq_pred_iff hh ht]
  simp [intq_full, next]

theorem Intq.length_held_lt (q : Intq) : q.held.length < INTQ_BUFSIZE := by
  rw [Intq.held, Ring.length_contents]
  exact Ring.count_lt _ (by decide)

theorem QueueInv.empty_iff (hq : QueueInv q evs) : intq_empty q = true ↔ q.held.length = 0 := by
  rw [Intq.held, Ring.length_contents]
  exact empty_iff_count hq.head_lt hq.tail_lt

theorem QueueInv.full_iff (hq : QueueInv q evs) : intq_full q = true ↔ q.held.length = INTQ_BUFSIZE - 1 := by
  rw [Intq.held, Ring.length_contents]
  exact full_iff_count hq.head_lt hq.tail_lt

/-- `intq_getc` past its loop: the byte at `tail` is the oldest, and the queue is no longer
full. -/
theorem QueueInv.getc (hq : QueueInv q evs) (he : intq_empty q = false) :
    QueueInv { q with tail := next q.tail } (evs ++ [.got (q.buf q.tail)]) ∧
      intq_full { q with tail := next q.tail } = false := by
  have hne : q.head ≠ q.tail := by simpa [intq_empty] using he
  have ht' : next q.tail < INTQ_BUFSIZE := Nat.mod_lt _ (by decide)
  have hlt : Ring.count INTQ_BUFSIZE q.head q.tail < INTQ_BUFSIZE := Ring.count_lt _ (by decide)
  have hcount : Ring.count INTQ_BUFSIZE q.head (next q.tail) + 1 = Ring.count INTQ_BUFSIZE q.head q.tail :=
    Ring.count_pop hq.head_lt hq.tail_lt hne
  have hheld : q.held = q.buf q.tail ::
      Ring.contents INTQ_BUFSIZE q.buf (next q.tail) (Ring.count INTQ_BUFSIZE q.head (next q.tail)) := by
    rw [Intq.held, ← hcount, Ring.contents_pop q.buf hq.tail_lt _ (by omega)]
    rfl
  refine ⟨⟨hq.head_lt, ht', ?_⟩, ?_⟩
  · have hheld' : ({ q with tail := next q.tail } : Intq).held =
        Ring.contents INTQ_BUFSIZE q.buf (next q.tail) (Ring.count INTQ_BUFSIZE q.head (next q.tail)) := rfl
    rw [hheld', puts_append, gots_append, hq.fifo, hheld, puts_got, gots_got]
    simp
  · rw [Bool.eq_false_iff, ne_eq, full_iff_count (q := { q with tail := next q.tail }) hq.head_lt ht']
    dsimp only
    omega

/-- `intq_putc` past its loop: the byte goes in after the others, and the queue is no longer
empty. -/
theorem QueueInv.putc (hq : QueueInv q evs) (hf : intq_full q = false) (byte : UInt8) :
    QueueInv { q with buf := Function.update q.buf q.head byte, head := next q.head } (evs ++ [.put byte]) ∧
      intq_empty { q with buf := Function.update q.buf q.head byte, head := next q.head } = false := by
  have hnf : (q.head + 1) % INTQ_BUFSIZE ≠ q.tail := by simpa [intq_full, next] using hf
  have hh' : next q.head < INTQ_BUFSIZE := Nat.mod_lt _ (by decide)
  have hlt : Ring.count INTQ_BUFSIZE q.head q.tail < INTQ_BUFSIZE := Ring.count_lt _ (by decide)
  have hcount : Ring.count INTQ_BUFSIZE (next q.head) q.tail = Ring.count INTQ_BUFSIZE q.head q.tail + 1 :=
    Ring.count_push hq.head_lt hq.tail_lt hnf
  have hpush := Ring.contents_push q.buf hq.tail_lt hlt byte
  rw [Ring.slot_count hq.head_lt hq.tail_lt] at hpush
  refine ⟨⟨hh', hq.tail_lt, ?_⟩, ?_⟩
  · simp [hq.fifo, Intq.held, hcount, hpush]
  · simpa [intq_empty, intq_full] using hf

end Queue

/-! ## The waiters and the lock -/

structure ThreadInv (q : Intq) (pc : Nat → IntqPc) : Prop where
  /-- a thread named in a waiter field is blocked in `wait` on that field -/
  waiter : ∀ w t, q.waiter w = some t → ∃ op, pc t = .cond_wait op ∧ op.waiter = w
  /-- a thread blocked in `wait` is named in the field it waits on -/
  cond_wait : ∀ t op, pc t = .cond_wait op → q.waiter op.waiter = some t
  lock_wait : ∀ t w op, pc t = .lock_wait w op → w = op.waiter
  /-- the lock is held by the thread in `wait`, or woken from it and not yet past `lock_release` -/
  holder : ∀ t, q.lock = some t ↔ ∃ op, pc t = .cond_wait op ∨ pc t = .woken op

section Threads

variable {q : Intq} {pc : Nat → IntqPc}

theorem ThreadInv.of_eq {q' : Intq} (h : ThreadInv q pc) (hl : q'.lock = q.lock)
    (hw : ∀ w, q'.waiter w = q.waiter w) : ThreadInv q' pc where
  waiter w t := by
    rw [hw]
    exact h.waiter w t
  cond_wait t op hpc := by
    rw [hw]
    exact h.cond_wait t op hpc
  lock_wait := h.lock_wait
  holder t := by
    rw [hl]
    exact h.holder t

theorem ThreadInv.eq_holder (h : ThreadInv q pc) {t u : Nat} (hl : q.lock = some u) {op : IntqOp}
    (ht : pc t = .cond_wait op ∨ pc t = .woken op) : t = u := by
  have := (h.holder t).mpr ⟨op, ht⟩
  rw [hl] at this
  exact (Option.some.inj this).symm

theorem ThreadInv.free (h : ThreadInv q pc) (hl : q.lock = none) (t : Nat) (op : IntqOp) :
    pc t ≠ .cond_wait op ∧ pc t ≠ .woken op := by
  constructor <;> intro hpc
  · have := (h.holder t).mpr ⟨op, .inl hpc⟩
    rw [hl] at this
    cases this
  · have := (h.holder t).mpr ⟨op, .inr hpc⟩
    rw [hl] at this
    cases this

theorem ThreadInv.waiter_of_free (h : ThreadInv q pc) (hl : q.lock = none) (w : Waiter) : q.waiter w = none := by
  cases hw : q.waiter w with
  | none => rfl
  | some t =>
    obtain ⟨op, hpc, -⟩ := h.waiter w t hw
    exact absurd hpc (h.free hl t op).1

theorem ThreadInv.wait (h : ThreadInv q pc) (hl : q.lock = none) {t : Nat} {w : Waiter} {op : IntqOp}
    (hw : w = op.waiter) :
    ThreadInv (({ q with lock := some t } : Intq).set_waiter w (some t)) (Function.update pc t (.cond_wait op)) where
  waiter v u hv := by
    simp only [Intq.waiter_set_waiter, Intq.waiter_with_lock] at hv
    split_ifs at hv with hvw
    · cases hv
      exact ⟨op, by simp, hvw ▸ hw.symm⟩
    · rw [h.waiter_of_free hl] at hv
      cases hv
  cond_wait u op' hpc := by
    by_cases hu : u = t
    · subst hu
      simp only [Function.update_self, IntqPc.cond_wait.injEq] at hpc
      subst hpc
      simp [hw]
    · rw [Function.update_of_ne hu] at hpc
      exact absurd hpc (h.free hl u op').1
  lock_wait u w' op' hpc := by
    by_cases hu : u = t
    · subst hu
      simp at hpc
    · rw [Function.update_of_ne hu] at hpc
      exact h.lock_wait u w' op' hpc
  holder u := by
    by_cases hu : u = t
    · subst hu
      simp
    · have hfree := h.free hl u
      simp [Function.update_of_ne hu, Ne.symm hu, hfree]

theorem ThreadInv.block (h : ThreadInv q pc) {t u : Nat} (hl : q.lock = some u) (hu : u ≠ t)
    (ht : pc t = .idle) {w : Waiter} {op : IntqOp} (hw : w = op.waiter) :
    ThreadInv q (Function.update pc t (.lock_wait w op)) where
  waiter v x hv := by
    obtain ⟨op', hpc, hv'⟩ := h.waiter v x hv
    have hx : x ≠ t := by
      rintro rfl
      rw [ht] at hpc
      cases hpc
    exact ⟨op', by rw [Function.update_of_ne hx]; exact hpc, hv'⟩
  cond_wait x op' hpc := by
    have hx : x ≠ t := by
      rintro rfl
      simp at hpc
    rw [Function.update_of_ne hx] at hpc
    exact h.cond_wait x op' hpc
  lock_wait x w' op' hpc := by
    by_cases hx : x = t
    · subst hx
      simp only [Function.update_self, IntqPc.lock_wait.injEq] at hpc
      obtain ⟨rfl, rfl⟩ := hpc
      exact hw
    · rw [Function.update_of_ne hx] at hpc
      exact h.lock_wait x w' op' hpc
  holder x := by
    by_cases hx : x = t
    · subst hx
      simp [hl, hu]
    · rw [h.holder x]
      simp [Function.update_of_ne hx]

theorem ThreadInv.release (h : ThreadInv q pc) {t : Nat} {op : IntqOp} (ht : pc t = .woken op) :
    ThreadInv { q with lock := none } (Function.update pc t .idle) where
  waiter v x hv := by
    rw [Intq.waiter_with_lock] at hv
    obtain ⟨op', hpc, -⟩ := h.waiter v x hv
    have hl : q.lock = some t := (h.holder t).mpr ⟨op, .inr ht⟩
    have hx := h.eq_holder hl (.inl hpc)
    subst hx
    rw [ht] at hpc
    cases hpc
  cond_wait x op' hpc := by
    have hx : x ≠ t := by
      rintro rfl
      simp at hpc
    rw [Function.update_of_ne hx] at hpc
    exact absurd (h.eq_holder ((h.holder t).mpr ⟨op, .inr ht⟩) (.inl hpc)) hx
  lock_wait x w' op' hpc := by
    have hx : x ≠ t := by
      rintro rfl
      simp at hpc
    rw [Function.update_of_ne hx] at hpc
    exact h.lock_wait x w' op' hpc
  holder x := by
    by_cases hx : x = t
    · subst hx
      simp
    · have hl : q.lock = some t := (h.holder t).mpr ⟨op, .inr ht⟩
      simp only [Function.update_of_ne hx, reduceCtorEq, false_iff, not_exists, not_or]
      exact fun op' => ⟨fun hpc => hx (h.eq_holder hl (.inl hpc)), fun hpc => hx (h.eq_holder hl (.inr hpc))⟩

theorem ThreadInv.wake (h : ThreadInv q pc) {w : Waiter} {u : Nat} (hu : q.waiter w = some u) {op : IntqOp}
    (hop : pc u = .cond_wait op) : ThreadInv (q.set_waiter w none) (Function.update pc u (.woken op)) where
  waiter v t hv := by
    simp only [Intq.waiter_set_waiter] at hv
    split_ifs at hv with hvw
    obtain ⟨op', hpc, hv'⟩ := h.waiter v t hv
    have ht : t ≠ u := by
      rintro rfl
      obtain ⟨op'', hpc', hw'⟩ := h.waiter w t hu
      rw [hpc, IntqPc.cond_wait.injEq] at hpc'
      subst hpc'
      exact hvw (hv'.symm.trans hw')
    exact ⟨op', by rw [Function.update_of_ne ht]; exact hpc, hv'⟩
  cond_wait t op' hpc := by
    have ht : t ≠ u := by
      rintro rfl
      simp at hpc
    rw [Function.update_of_ne ht] at hpc
    have hw := h.cond_wait t op' hpc
    simp only [Intq.waiter_set_waiter]
    split_ifs with hvw
    · rw [hvw, hu] at hw
      exact absurd (Option.some.inj hw).symm ht
    · exact hw
  lock_wait t w' op' hpc := by
    have ht : t ≠ u := by
      rintro rfl
      simp at hpc
    rw [Function.update_of_ne ht] at hpc
    exact h.lock_wait t w' op' hpc
  holder t := by
    rw [Intq.lock_set_waiter, h.holder t]
    by_cases ht : t = u
    · subst ht
      simp [hop]
    · simp [Function.update_of_ne ht]

theorem ThreadInv.signal {s : IntqState} (h : ThreadInv s.q s.pc) {w : Waiter} (hw : s.q.must_wait w = false) :
    ∃ s', intq_signal s w = some s' ∧ s'.q = s.q.set_waiter w none ∧ ThreadInv s'.q s'.pc ∧
      ∀ t, s.pc t = .idle → s'.pc t = .idle := by
  cases hu : s.q.waiter w with
  | none =>
    refine ⟨{ s with q := s.q.set_waiter w none }, ?_, rfl, ?_, fun t ht => ht⟩
    · simp [intq_signal, signal_eq, hw, hu]
    · rw [Intq.set_waiter_self _ _ _ hu]
      exact h
  | some u =>
    obtain ⟨op, hpc, -⟩ := h.waiter w u hu
    refine ⟨{ q := s.q.set_waiter w none, pc := Function.update s.pc u (.woken op) }, ?_, rfl, h.wake hu hpc, ?_⟩
    · simp [intq_signal, signal_eq, hw, hu, IntqState.thread_unblock, hpc]
    · intro t ht
      have htu : t ≠ u := by
        rintro rfl
        rw [hpc] at ht
        cases ht
      simp [Function.update_of_ne htu, ht]

end Threads

structure IntqInv (s : IntqState) (evs : List IntqEvent) : Prop where
  queue : QueueInv s.q evs
  threads : ThreadInv s.q s.pc

section Steps

variable {s : IntqState} {evs : List IntqEvent}

theorem IntqInv.acquire_free (hi : IntqInv s evs) (hl : s.q.lock = none) {t : Nat} {w : Waiter} {op : IntqOp}
    (hw : w = op.waiter) (hc : s.q.must_wait w = true) :
    ∃ s', intq_lock_acquire s t w op = some s' ∧ IntqInv s' evs := by
  have hc' : ({ s.q with lock := some t } : Intq).must_wait w = true := by
    rw [Intq.must_wait_of_eq rfl rfl]
    exact hc
  refine ⟨⟨({ s.q with lock := some t } : Intq).set_waiter w (some t), Function.update s.pc t (.cond_wait op)⟩,
    ?_, ?_, hi.threads.wait hl hw⟩
  · simp [intq_lock_acquire, hl, intq_wait, wait_eq, hc']
  · exact hi.queue.of_eq (by simp) (by simp) (by simp)

theorem intq_lock_acquire_fails (hl : s.q.lock = none) {t : Nat} {w : Waiter} {op : IntqOp}
    (hc : s.q.must_wait w = false) : intq_lock_acquire s t w op = none := by
  have hc' : ({ s.q with lock := some t } : Intq).must_wait w = false := by
    rw [Intq.must_wait_of_eq rfl rfl]
    exact hc
  simp [intq_lock_acquire, hl, intq_wait, wait_eq, hc']

/-- `t`, at the loop's test with its condition true, takes the lock and waits, or blocks on the
lock. -/
theorem IntqInv.lock_acquire (hi : IntqInv s evs) {t : Nat} (ht : s.pc t = .idle) {w : Waiter} {op : IntqOp}
    (hw : w = op.waiter) (hc : s.q.must_wait w = true) :
    ∃ s', intq_lock_acquire s t w op = some s' ∧ IntqInv s' evs := by
  cases hl : s.q.lock with
  | none => exact hi.acquire_free hl hw hc
  | some u =>
    have hu : u ≠ t := by
      rintro rfl
      obtain ⟨op', hp | hp⟩ := (hi.threads.holder u).mp hl <;> rw [ht] at hp <;> cases hp
    exact ⟨{ s with pc := Function.update s.pc t (.lock_wait w op) }, by simp [intq_lock_acquire, hl, hu],
      hi.queue, hi.threads.block hl hu ht hw⟩

end Steps

/-! ## `intq_getc` and `intq_putc` -/

/-- What `intq_getc` and `intq_putc` give `intq_loop`: the loop waits on the field of its call
while `cond` holds, and the body, run once it does not, keeps the bytes in order, leaves the lock
and the waiters, and makes the condition it signals true. -/
structure LoopSpec (cond : Intq → Bool) (w : Waiter) (body : Intq → Intq × IntqEvent) (w' : Waiter)
    (op : IntqOp) : Prop where
  cond_eq : ∀ q, cond q = q.must_wait w
  waiter_eq : op.waiter = w
  body_queue : ∀ q evs, QueueInv q evs → cond q = false →
    QueueInv (body q).1 (evs ++ [(body q).2]) ∧ (body q).1.must_wait w' = false
  body_lock : ∀ q, (body q).1.lock = q.lock
  body_waiter : ∀ q v, (body q).1.waiter v = q.waiter v

section Loop

variable {cond : Intq → Bool} {w : Waiter} {body : Intq → Intq × IntqEvent} {w' : Waiter} {op : IntqOp}
  {s : IntqState} {evs : List IntqEvent}

theorem LoopSpec.finish (hl : LoopSpec cond w body w' op) (hi : IntqInv s evs) (hc : cond s.q = false) :
    ∃ s' e, intq_finish body w' s = some (s', e) ∧ IntqInv s' (evs ++ e) ∧
      ∀ t, s.pc t = .idle → s'.pc t = .idle := by
  obtain ⟨hq, hsig⟩ := hl.body_queue s.q evs hi.queue hc
  have hth : ThreadInv (body s.q).1 s.pc := hi.threads.of_eq (hl.body_lock s.q) (hl.body_waiter s.q)
  obtain ⟨s', hs', hq', ht', hidle⟩ := ThreadInv.signal (s := { s with q := (body s.q).1 }) hth hsig
  refine ⟨s', [(body s.q).2], by simp [intq_finish, hs'], ⟨hq.of_eq ?_ ?_ ?_, ht'⟩, hidle⟩ <;> simp [hq']

/-- A thread at the loop's test finishes the call, or takes the lock and waits, or blocks on
the lock. -/
theorem LoopSpec.thread (hl : LoopSpec cond w body w' op) (hi : IntqInv s evs) {t : Nat} (ht : s.pc t = .idle) :
    ∃ s' e, intq_loop cond w body w' op s (some t) = some (s', e) ∧ IntqInv s' (evs ++ e) := by
  cases hc : cond s.q with
  | false =>
    obtain ⟨s', e, hs', hi', hidle⟩ := hl.finish hi hc
    refine ⟨{ s' with pc := Function.update s'.pc t .idle }, e, by simp [intq_loop, hc, hs'], ?_⟩
    have hpc : Function.update s'.pc t .idle = s'.pc := by
      rw [← hidle t ht, Function.update_eq_self]
    rw [hpc]
    exact hi'
  | true =>
    have hmw : s.q.must_wait w = true := by
      rw [← hl.cond_eq]
      exact hc
    obtain ⟨s', hs', hi'⟩ := hi.lock_acquire ht hl.waiter_eq.symm hmw
    exact ⟨s', [], by simp [intq_loop, hc, hs'], by simpa using hi'⟩

theorem LoopSpec.handler (hl : LoopSpec cond w body w' op) (hi : IntqInv s evs)
    (hc : s.q.must_wait op.waiter = false) :
    ∃ s' e, intq_loop cond w body w' op s none = some (s', e) ∧ IntqInv s' (evs ++ e) := by
  have hc' : cond s.q = false := by
    rw [hl.cond_eq, ← hl.waiter_eq]
    exact hc
  obtain ⟨s', e, hs', hi', -⟩ := hl.finish hi hc'
  exact ⟨s', e, by simp [intq_loop, hc', hs'], hi'⟩

theorem LoopSpec.handler_fails (hl : LoopSpec cond w body w' op) (hc : s.q.must_wait op.waiter = true) :
    intq_loop cond w body w' op s none = none := by
  have hc' : cond s.q = true := by
    rw [hl.cond_eq, ← hl.waiter_eq]
    exact hc
  simp [intq_loop, hc']

end Loop

theorem getc_loop_spec :
    LoopSpec intq_empty .not_empty (fun q => ({ q with tail := next q.tail }, .got (q.buf q.tail))) .not_full
      .getc where
  cond_eq _ := rfl
  waiter_eq := rfl
  body_queue _ _ hq he := hq.getc he
  body_lock _ := rfl
  body_waiter _ v := by cases v <;> rfl

theorem putc_loop_spec (byte : UInt8) :
    LoopSpec intq_full .not_full
      (fun q => ({ q with buf := Function.update q.buf q.head byte, head := next q.head }, .put byte))
      .not_empty (.putc byte) where
  cond_eq _ := rfl
  waiter_eq := rfl
  body_queue _ _ hq hf := hq.putc hf byte
  body_lock _ := rfl
  body_waiter _ v := by cases v <;> rfl

section Calls

variable {s : IntqState} {evs : List IntqEvent}

theorem intq_call_thread (hi : IntqInv s evs) {t : Nat} (ht : s.pc t = .idle) (op : IntqOp) :
    ∃ s' e, intq_call s (some t) op = some (s', e) ∧ IntqInv s' (evs ++ e) := by
  cases op with
  | getc => exact getc_loop_spec.thread hi ht
  | putc byte => exact (putc_loop_spec byte).thread hi ht

theorem intq_call_handler (hi : IntqInv s evs) {op : IntqOp} (hc : s.q.must_wait op.waiter = false) :
    ∃ s' e, intq_call s none op = some (s', e) ∧ IntqInv s' (evs ++ e) := by
  cases op with
  | getc => exact getc_loop_spec.handler hi hc
  | putc byte => exact (putc_loop_spec byte).handler hi hc

theorem intq_call_handler_fails {op : IntqOp} (hc : s.q.must_wait op.waiter = true) : intq_call s none op = none := by
  cases op with
  | getc => exact getc_loop_spec.handler_fails hc
  | putc byte => exact (putc_loop_spec byte).handler_fails hc

end Calls

/-! ## Every interleaving -/

/-- The choices the scheduler can make: a thread outside the queue calls it, an interrupt handler
calls it at any time, a thread blocked on the lock runs once the lock is free, and a thread that
`signal` woke runs. -/
def IntqChoice.enabled (s : IntqState) : IntqChoice → Prop
  | .call t _ => s.pc t = .idle
  | .handler _ => True
  | .resume t =>
    match s.pc t with
    | .lock_wait _ _ => s.q.lock = none
    | .woken _ => True
    | _ => False

/-- The choices that fail an `ASSERT`: an interrupt handler that would have to wait, and a
thread that blocked on the lock, takes it, and need not wait any more when it calls `wait`. -/
def IntqChoice.fails (s : IntqState) : IntqChoice → Prop
  | .call _ _ => False
  | .handler op => s.q.must_wait op.waiter = true
  | .resume t =>
    match s.pc t with
    | .lock_wait w _ => s.q.lock = none ∧ s.q.must_wait w = false
    | _ => False

section Interleaving

variable {s : IntqState} {evs : List IntqEvent}

theorem intq_step_enabled {c : IntqChoice} {r : IntqState × List IntqEvent} (h : intq_step s c = some r) :
    c.enabled s := by
  cases c with
  | call t op =>
    simp only [intq_step] at h
    split at h
    · assumption
    · cases h
  | handler op => trivial
  | resume t =>
    simp only [intq_step, intq_resume] at h
    simp only [IntqChoice.enabled]
    cases hpc : s.pc t with
    | lock_wait w op =>
      simp only [hpc] at h
      split at h
      · assumption
      · cases h
    | woken op => trivial
    | idle => simp [hpc] at h
    | cond_wait op => simp [hpc] at h

theorem intq_step_fails {c : IntqChoice} (hf : c.fails s) : intq_step s c = none := by
  cases c with
  | call t op => exact hf.elim
  | handler op => exact intq_call_handler_fails hf
  | resume t =>
    simp only [IntqChoice.fails] at hf
    split at hf
    · next w op hpc =>
      obtain ⟨hl, hc⟩ := hf
      simp [intq_step, intq_resume, hpc, hl, intq_lock_acquire_fails hl hc]
    · exact hf.elim

/-- Progress: every choice the scheduler can make and that fails no `ASSERT` goes through, and
keeps the invariant. -/
theorem intq_step_ok (hi : IntqInv s evs) {c : IntqChoice} (he : c.enabled s) (hf : ¬ c.fails s) :
    ∃ s' e, intq_step s c = some (s', e) ∧ IntqInv s' (evs ++ e) := by
  cases c with
  | call t op =>
    have ht : s.pc t = .idle := he
    obtain ⟨s', e, hs', hi'⟩ := intq_call_thread hi ht op
    exact ⟨s', e, by simp [intq_step, ht, hs'], hi'⟩
  | handler op =>
    have hc : s.q.must_wait op.waiter = false := by simpa [IntqChoice.fails] using hf
    exact intq_call_handler hi hc
  | resume t =>
    simp only [IntqChoice.enabled] at he
    simp only [IntqChoice.fails] at hf
    split at he
    · next w op hpc =>
      rw [hpc] at hf
      have hc : s.q.must_wait w = true := by simpa [he] using hf
      obtain ⟨s', hs', hi'⟩ := hi.acquire_free (t := t) he (hi.threads.lock_wait t w op hpc) hc
      exact ⟨s', [], by simp [intq_step, intq_resume, hpc, he, hs'], by simpa using hi'⟩
    · next op hpc =>
      -- `lock_release` by the holder, then the call again from the loop's test
      have hl : s.q.lock = some t := (hi.threads.holder t).mpr ⟨op, .inr hpc⟩
      have hi₁ : IntqInv { q := { s.q with lock := none }, pc := Function.update s.pc t .idle } evs :=
        ⟨hi.queue.of_eq rfl rfl rfl, hi.threads.release hpc⟩
      obtain ⟨s', e, hs', hi'⟩ := intq_call_thread hi₁ (t := t) (by simp) op
      refine ⟨s', e, ?_, hi'⟩
      simp only [intq_step, intq_resume, hpc, hl, if_true]
      exact hs'
    · exact he.elim

theorem IntqInv.step (hi : IntqInv s evs) {c : IntqChoice} {s' : IntqState} {e : List IntqEvent}
    (h : intq_step s c = some (s', e)) : IntqInv s' (evs ++ e) := by
  have hf : ¬ c.fails s := fun hf => by
    rw [intq_step_fails hf] at h
    cases h
  obtain ⟨s'', e', h', hi'⟩ := intq_step_ok hi (intq_step_enabled h) hf
  rw [h, Option.some.injEq, Prod.mk.injEq] at h'
  obtain ⟨rfl, rfl⟩ := h'
  exact hi'

theorem IntqInv.start (buf : Nat → UInt8) : IntqInv (intq_start buf) [] where
  queue := ⟨by simp [intq_start, intq_init, INTQ_BUFSIZE], by simp [intq_start, intq_init, INTQ_BUFSIZE],
    by simp [Intq.held, intq_start, intq_init, Ring.count, Ring.contents, puts, gots]⟩
  threads :=
    { waiter := fun w t h => by cases w <;> cases h
      cond_wait := fun t op h => by cases h
      lock_wait := fun t w op h => by cases h
      holder := fun t => by simp [intq_start, intq_init] }

theorem intq_run_inv (buf : Nat → UInt8) (cs : List IntqChoice) {s : IntqState} {evs : List IntqEvent}
    (hr : Runs.run intq_step (intq_start buf) cs = some (s, evs)) : IntqInv s evs :=
  Runs.run_inv_nil IntqInv (fun _ _ _ _ _ hi hs => hi.step hs) (IntqInv.start buf) hr

end Interleaving

theorem intq_bounded_fifo (buf : Nat → UInt8) (cs : List IntqChoice) {s : IntqState} {evs : List IntqEvent}
    (hr : Runs.run intq_step (intq_start buf) cs = some (s, evs)) :
    (gots evs).IsPrefix (puts evs) ∧ s.q.held = (puts evs).drop (gots evs).length ∧
      s.q.held.length = (s.q.head + INTQ_BUFSIZE - s.q.tail) % INTQ_BUFSIZE ∧
      s.q.held.length ≤ INTQ_BUFSIZE - 1 ∧
      (intq_empty s.q = true ↔ s.q.held.length = 0) ∧
      (intq_full s.q = true ↔ s.q.held.length = INTQ_BUFSIZE - 1) ∧
      (∀ t op, s.pc t = .cond_wait op → s.q.waiter op.waiter = some t ∧ s.q.lock = some t) ∧
      ∀ c : IntqChoice, c.enabled s → (c.fails s ∧ intq_step s c = none) ∨ ∃ s' e, intq_step s c = some (s', e) := by
  have hi := intq_run_inv buf cs hr
  have hq := hi.queue
  refine ⟨⟨s.q.held, hq.fifo.symm⟩, by rw [hq.fifo, List.drop_left], by simp [Intq.held, Ring.count], ?_,
    hq.empty_iff, hq.full_iff, ?_, ?_⟩
  · have := s.q.length_held_lt
    omega
  · intro t op hpc
    exact ⟨hi.threads.cond_wait t op hpc, (hi.threads.holder t).mpr ⟨op, .inl hpc⟩⟩
  · intro c hc
    by_cases hf : c.fails s
    · exact .inl ⟨hf, intq_step_fails hf⟩
    · obtain ⟨s', e, h, -⟩ := intq_step_ok hi hc hf
      exact .inr ⟨s', e, h⟩

/-- Two threads read while an interrupt handler writes `a` and then `b`: the second reader blocks
on the lock while the first waits; the first is woken, takes its byte and returns; the second
byte comes in before the second reader runs. -/
def two_readers (a b : UInt8) : List IntqChoice :=
  [.call 1 .getc, .call 2 .getc, .handler (.putc a), .resume 1, .handler (.putc b)]

theorem intq_bounded_fifo_two_readers :
    ∃ s evs, Runs.run intq_step (intq_start fun _ => 0) (two_readers 7 8) = some (s, evs) ∧
      (gots evs).IsPrefix (puts evs) := by
  obtain ⟨s, evs, hr⟩ : ∃ s evs, Runs.run intq_step (intq_start fun _ => 0) (two_readers 7 8) = some (s, evs) :=
    ⟨_, _, rfl⟩
  exact ⟨s, evs, hr, (intq_bounded_fifo _ _ hr).1⟩

/-- Whatever the buffer held and whatever bytes come in, the second reader can run, takes the free
lock, and calls `wait` on a queue that is not empty: the `ASSERT` of `wait` fails. -/
theorem intq_wait_assert_fires (buf : Nat → UInt8) (a b : UInt8) :
    ∃ s evs, Runs.run intq_step (intq_start buf) (two_readers a b) = some (s, evs) ∧
      s.pc 2 = .lock_wait .not_empty .getc ∧ s.q.lock = none ∧ intq_empty s.q = false ∧
      wait { s.q with lock := some 2 } .not_empty 2 = none ∧ intq_step s (.resume 2) = none :=
  ⟨_, _, rfl, rfl, rfl, rfl, rfl, rfl⟩

end Pintos
