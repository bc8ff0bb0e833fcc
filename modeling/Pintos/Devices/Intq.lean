import Mathlib.Logic.Function.Basic
import Pintos.Foundations.Runs

/-! # The interrupt queue

`intq.c`: a circular buffer of bytes shared by kernel threads and interrupt handlers, a monitor
whose calls run with interrupts off.  A thread runs without interruption until it blocks, on the
lock that lets one thread wait at a time or in `wait`, so a call is a few atomic steps between
which other threads and interrupt handlers run.  An interrupt handler never blocks: its call is
one step, and it fails the `ASSERT (!intr_context ())` of the loop if it would have to wait.
-/

namespace Pintos
set_option autoImplicit false

/-- Queue buffer size, in bytes. -/
def INTQ_BUFSIZE : Nat := 64

/-- `struct intq`: the holder of its lock, and the waiting threads by number. -/
structure Intq where
  lock : Option Nat
  not_full : Option Nat
  not_empty : Option Nat
  buf : Nat → UInt8
  head : Nat
  tail : Nat

/-- `intq_init (q)`; the buffer keeps what it held. -/
def intq_init (buf : Nat → UInt8) : Intq where
  lock := none
  not_full := none
  not_empty := none
  buf := buf
  head := 0
  tail := 0

def next (pos : Nat) : Nat := (pos + 1) % INTQ_BUFSIZE

def intq_empty (q : Intq) : Bool := q.head == q.tail

def intq_full (q : Intq) : Bool := next q.head == q.tail

/-- The two waiter fields, as `wait` and `signal` take their address. -/
inductive Waiter
  | not_full
  | not_empty
  deriving DecidableEq, Repr

namespace Intq

def waiter (q : Intq) : Waiter → Option Nat
  | .not_full => q.not_full
  | .not_empty => q.not_empty

def set_waiter (q : Intq) : Waiter → Option Nat → Intq
  | .not_full, t => { q with not_full := t }
  | .not_empty, t => { q with not_empty := t }

section Fields

variable (q : Intq) (w : Waiter) (x : Option Nat)

@[simp] theorem waiter_set_waiter (w' : Waiter) :
    (q.set_waiter w x).waiter w' = if w' = w then x else q.waiter w' := by
  cases w <;> cases w' <;> rfl

@[simp] theorem lock_set_waiter : (q.set_waiter w x).lock = q.lock := by cases w <;> rfl

@[simp] theorem buf_set_waiter : (q.set_waiter w x).buf = q.buf := by cases w <;> rfl

@[simp] theorem head_set_waiter : (q.set_waiter w x).head = q.head := by cases w <;> rfl

@[simp] theorem tail_set_waiter : (q.set_waiter w x).tail = q.tail := by cases w <;> rfl

theorem set_waiter_self (h : q.waiter w = x) : q.set_waiter w x = q := by
  cases w <;> (subst h; rfl)

@[simp] theorem waiter_with_lock (l : Option Nat) : ({ q with lock := l } : Intq).waiter w = q.waiter w := by
  cases w <;> rfl

end Fields

end Intq

/-- `wait (q, waiter)` by thread `t` up to its `thread_block`: `none` when its `ASSERT` fails. -/
def wait (q : Intq) (w : Waiter) (t : Nat) : Option Intq :=
  if (w == .not_empty && intq_empty q) || (w == .not_full && intq_full q) then
    some (q.set_waiter w (some t))
  else none

/-- `signal (q, waiter)`: `none` when its `ASSERT` fails, else the thread it unblocks, if any. -/
def signal (q : Intq) (w : Waiter) : Option (Intq × Option Nat) :=
  if (w == .not_empty && !intq_empty q) || (w == .not_full && !intq_full q) then
    match q.waiter w with
    | some t => some (q.set_waiter w none, some t)
    | none => some (q, none)
  else none

/-! ## Threads and interrupt handlers -/

/-- A call of the queue: `intq_getc`, or `intq_putc` of a byte. -/
inductive IntqOp
  | getc
  | putc (byte : UInt8)
  deriving DecidableEq, Repr

/-- Where a thread is in a call, at the points where it blocks. -/
inductive IntqPc
  | idle
  /-- blocked in `lock_acquire`, to `wait` on the field next -/
  | lock_wait (w : Waiter) (op : IntqOp)
  /-- blocked in `wait` -/
  | cond_wait (op : IntqOp)
  /-- unblocked by `signal`, to release the lock next -/
  | woken (op : IntqOp)
  deriving DecidableEq, Repr

structure IntqState where
  q : Intq
  pc : Nat → IntqPc

/-- What a call completed: the byte `intq_putc` wrote or `intq_getc` returned. -/
inductive IntqEvent
  | put (byte : UInt8)
  | got (byte : UInt8)
  deriving DecidableEq, Repr

/-- `thread_unblock (t)` on a thread blocked in a call: `none` when its
`ASSERT (t->status == THREAD_BLOCKED)` fails.  A thread blocked in `wait` goes on to release the
lock; one blocked in `lock_acquire` is back in the loop of `sema_down`, which tests the lock
again. -/
def IntqState.thread_unblock (s : IntqState) (t : Nat) : Option IntqState :=
  match s.pc t with
  | .cond_wait op => some { s with pc := Function.update s.pc t (.woken op) }
  | .lock_wait _ _ => some s
  | _ => none

/-- `wait (q, w)` by `t`, which then blocks. -/
def intq_wait (s : IntqState) (t : Nat) (w : Waiter) (op : IntqOp) : Option IntqState :=
  (wait s.q w t).map fun q => { q, pc := Function.update s.pc t (.cond_wait op) }

/-- `lock_acquire (&q->lock)` by `t` and the `wait` after it: `none` when an `ASSERT` fails.  A
lock held by another thread blocks `t`. -/
def intq_lock_acquire (s : IntqState) (t : Nat) (w : Waiter) (op : IntqOp) : Option IntqState :=
  match s.q.lock with
  | none => intq_wait { s with q := { s.q with lock := some t } } t w op
  | some h => if h = t then none else some { s with pc := Function.update s.pc t (.lock_wait w op) }

/-- `signal (q, w)` and the `thread_unblock` of the thread it wakes. -/
def intq_signal (s : IntqState) (w : Waiter) : Option IntqState :=
  match signal s.q w with
  | none => none
  | some (q, none) => some { s with q }
  | some (q, some t) => IntqState.thread_unblock { s with q } t

/-- The end of a call: `body` moves one byte and `signal` wakes the waiter on `w'`. -/
def intq_finish (body : Intq → Intq × IntqEvent) (w' : Waiter) (s : IntqState) :
    Option (IntqState × List IntqEvent) :=
  (intq_signal { s with q := (body s.q).1 } w').map fun s' => (s', [(body s.q).2])

/-- The loop of `intq_getc` and `intq_putc` from its test, run by thread `t` (`none` for an
interrupt handler) until it blocks or returns: while `cond` holds it takes the lock and waits on
`w`; then the call finishes. -/
def intq_loop (cond : Intq → Bool) (w : Waiter) (body : Intq → Intq × IntqEvent) (w' : Waiter)
    (op : IntqOp) (s : IntqState) : Option Nat → Option (IntqState × List IntqEvent)
  | none => if cond s.q then none else intq_finish body w' s
  | some t =>
    if cond s.q then (intq_lock_acquire s t w op).map fun s => (s, [])
    else (intq_finish body w' s).map fun r => ({ r.1 with pc := Function.update r.1.pc t .idle }, r.2)

def intq_getc (s : IntqState) (t : Option Nat) : Option (IntqState × List IntqEvent) :=
  intq_loop intq_empty .not_empty (fun q => ({ q with tail := next q.tail }, .got (q.buf q.tail)))
    .not_full .getc s t

def intq_putc (s : IntqState) (t : Option Nat) (byte : UInt8) : Option (IntqState × List IntqEvent) :=
  intq_loop intq_full .not_full
    (fun q => ({ q with buf := Function.update q.buf q.head byte, head := next q.head }, .put byte))
    .not_empty (.putc byte) s t

def intq_call (s : IntqState) (t : Option Nat) : IntqOp → Option (IntqState × List IntqEvent)
  | .getc => intq_getc s t
  | .putc byte => intq_putc s t byte

/-- A blocked thread that can run again runs on. -/
def intq_resume (s : IntqState) (t : Nat) : Option (IntqState × List IntqEvent) :=
  match s.pc t with
  | .lock_wait w op =>
    -- the `sema_down` of the lock returns once it is free, and `lock_acquire` goes on
    if s.q.lock = none then (intq_lock_acquire s t w op).map fun s => (s, []) else none
  | .woken op =>
    -- `lock_release`, then the loop's test again
    if s.q.lock = some t then
      intq_call { q := { s.q with lock := none }, pc := Function.update s.pc t .idle } (some t) op
    else none
  | _ => none

/-- A scheduling choice: a thread outside the queue calls it, an interrupt handler calls it, or a
thread inside a call runs on. -/
inductive IntqChoice
  | call (t : Nat) (op : IntqOp)
  | handler (op : IntqOp)
  | resume (t : Nat)
  deriving DecidableEq, Repr

def intq_step (s : IntqState) : IntqChoice → Option (IntqState × List IntqEvent)
  | .call t op => if s.pc t = .idle then intq_call s (some t) op else none
  | .handler op => intq_call s none op
  | .resume t => intq_resume s t

/-- A queue initialised by `intq_init`, and no thread inside a call. -/
def intq_start (buf : Nat → UInt8) : IntqState := { q := intq_init buf, pc := fun _ => .idle }

end Pintos
