import Mathlib.Logic.Function.Basic
import Mathlib.Data.List.Nodup
import Pintos.Foundations.Runs

/-! # Semaphores and locks under every interleaving

`synch.c` as the scheduler sees it: every semaphore operation runs with interrupts off, so it is
one atomic step of one thread, and any thread that is not blocked may take the next step.  A
thread inside a call keeps its place (`Pc`).  In the loop of `sema_down` a woken thread tests the
value again when it next runs, and may block again.  `lock_acquire` and `lock_try_acquire` set the
holder in a step after their down, and `lock_release` clears it in a step before its up, since
interrupts are on in between.
-/

namespace Pintos
set_option autoImplicit false

/-- `struct semaphore`: the waiters by thread, front first. -/
structure Semaphore where
  value : UInt32
  waiters : List Nat

/-- `struct lock` -/
structure Lock where
  holder : Option Nat
  semaphore : Semaphore

/-- A semaphore of the program, or the one inside a lock. -/
inductive Sem
  | plain (k : Nat)
  | lock (l : Nat)
  deriving DecidableEq, Repr

/-- Where a thread is in the calls of `synch.c`. -/
inductive Pc
  | idle
  | sema_down (r : Sem)
  | lock_holder (l : Nat)
  | lock_up (l : Nat)
  deriving DecidableEq, Repr

structure SynchState where
  semas : Nat → Semaphore
  locks : Nat → Lock
  blocked : Nat → Bool
  pc : Nat → Pc

inductive Call
  | sema_down (k : Nat)
  | sema_try_down (k : Nat)
  | sema_up (k : Nat)
  | sema_try_up (k : Nat)
  | lock_acquire (l : Nat)
  | lock_try_acquire (l : Nat)
  | lock_release (l : Nat)
  deriving DecidableEq, Repr

/-- A scheduling choice: a thread outside `synch.c` makes a call, or a thread inside a call
runs its next step. -/
inductive Choice
  | call (t : Nat) (c : Call)
  | resume (t : Nat)
  deriving DecidableEq, Repr

/-- What a step completed: a decrement or an increment of a semaphore, by a thread. -/
inductive Event
  | down (r : Sem) (t : Nat)
  | up (r : Sem) (t : Nat)
  deriving DecidableEq, Repr

/-! ## The operations -/

def sema_init (value : UInt32) : Semaphore := { value, waiters := [] }

def lock_init : Lock := { holder := none, semaphore := sema_init 1 }

/-- One test of the loop of `sema_down` by `t`: leave it with the value decremented, or join
the waiters to block. -/
def sema_down_test (sema : Semaphore) (t : Nat) : Semaphore × Bool :=
  if sema.value = 0 then ({ sema with waiters := sema.waiters ++ [t] }, false)
  else ({ sema with value := sema.value - 1 }, true)

def sema_try_down (sema : Semaphore) : Semaphore × Bool :=
  if sema.value > 0 then ({ sema with value := sema.value - 1 }, true) else (sema, false)

/-- `sema_up (sema)`: the waiter it wakes, popped from the front, and the value incremented. -/
def sema_up (sema : Semaphore) : Semaphore × Option Nat :=
  match sema.waiters with
  | [] => ({ sema with value := sema.value + 1 }, none)
  | t :: rest => ({ value := sema.value + 1, waiters := rest }, some t)

namespace SynchState

def sema (s : SynchState) : Sem → Semaphore
  | .plain k => s.semas k
  | .lock l => (s.locks l).semaphore

def set_sema (s : SynchState) : Sem → Semaphore → SynchState
  | .plain k, x => { s with semas := Function.update s.semas k x }
  | .lock l, x => { s with locks := Function.update s.locks l { s.locks l with semaphore := x } }

def holder (s : SynchState) (l : Nat) : Option Nat := (s.locks l).holder

def set_holder (s : SynchState) (l : Nat) (h : Option Nat) : SynchState :=
  { s with locks := Function.update s.locks l { s.locks l with holder := h } }

def set_blocked (s : SynchState) (t : Nat) (b : Bool) : SynchState :=
  { s with blocked := Function.update s.blocked t b }

def set_pc (s : SynchState) (t : Nat) (p : Pc) : SynchState :=
  { s with pc := Function.update s.pc t p }

section Fields

variable (s : SynchState)

@[simp] theorem sema_set_sema (r r' : Sem) (x : Semaphore) :
    (s.set_sema r x).sema r' = if r' = r then x else s.sema r' := by
  cases r with
  | plain k =>
    cases r' with
    | plain k' => simp [set_sema, sema, Function.update_apply]
    | lock l' => simp [set_sema, sema]
  | lock l =>
    cases r' with
    | plain k' => simp [set_sema, sema]
    | lock l' =>
      by_cases h : l' = l
      · subst h
        simp [set_sema, sema]
      · simp [set_sema, sema, h]

@[simp] theorem holder_set_sema (r : Sem) (x : Semaphore) (l : Nat) : (s.set_sema r x).holder l = s.holder l := by
  cases r with
  | plain k => rfl
  | lock l' =>
    by_cases h : l = l'
    · subst h
      simp [set_sema, holder]
    · simp [set_sema, holder, h]

@[simp] theorem blocked_set_sema (r : Sem) (x : Semaphore) : (s.set_sema r x).blocked = s.blocked := by
  cases r <;> rfl

@[simp] theorem pc_set_sema (r : Sem) (x : Semaphore) : (s.set_sema r x).pc = s.pc := by
  cases r <;> rfl

@[simp] theorem set_sema_self (r : Sem) : s.set_sema r (s.sema r) = s := by
  cases r <;> simp [set_sema, sema]

@[simp] theorem sema_set_holder (l : Nat) (h : Option Nat) (r : Sem) : (s.set_holder l h).sema r = s.sema r := by
  cases r with
  | plain k => rfl
  | lock l' =>
    by_cases hl : l' = l
    · subst hl
      simp [set_holder, sema]
    · simp [set_holder, sema, hl]

@[simp] theorem holder_set_holder (l : Nat) (h : Option Nat) (l' : Nat) :
    (s.set_holder l h).holder l' = if l' = l then h else s.holder l' := by
  by_cases hl : l' = l <;> simp [set_holder, holder, hl]

@[simp] theorem blocked_set_holder (l : Nat) (h : Option Nat) : (s.set_holder l h).blocked = s.blocked := rfl

@[simp] theorem pc_set_holder (l : Nat) (h : Option Nat) : (s.set_holder l h).pc = s.pc := rfl

@[simp] theorem sema_set_blocked (t : Nat) (b : Bool) : (s.set_blocked t b).sema = s.sema := rfl

@[simp] theorem holder_set_blocked (t : Nat) (b : Bool) : (s.set_blocked t b).holder = s.holder := rfl

@[simp] theorem blocked_set_blocked (t : Nat) (b : Bool) (u : Nat) :
    (s.set_blocked t b).blocked u = if u = t then b else s.blocked u := by
  simp [set_blocked, Function.update_apply]

@[simp] theorem pc_set_blocked (t : Nat) (b : Bool) : (s.set_blocked t b).pc = s.pc := rfl

@[simp] theorem sema_set_pc (t : Nat) (p : Pc) : (s.set_pc t p).sema = s.sema := rfl

@[simp] theorem holder_set_pc (t : Nat) (p : Pc) : (s.set_pc t p).holder = s.holder := rfl

@[simp] theorem blocked_set_pc (t : Nat) (p : Pc) : (s.set_pc t p).blocked = s.blocked := rfl

@[simp] theorem pc_set_pc (t : Nat) (p : Pc) (u : Nat) : (s.set_pc t p).pc u = if u = t then p else s.pc u := by
  simp [set_pc, Function.update_apply]

end Fields

end SynchState

/-- `thread_unblock (t)`: `none` when `ASSERT (t->status == THREAD_BLOCKED)` fails. -/
def thread_unblock (s : SynchState) (t : Nat) : Option SynchState :=
  if s.blocked t then some (s.set_blocked t false) else none

/-- Where a thread goes when its down on `r` succeeds: out of `sema_down`, or, for a lock's
semaphore, to the setting of the holder. -/
def after_down : Sem → Pc
  | .plain _ => .idle
  | .lock l => .lock_holder l

/-- `t` runs the test of the loop of `sema_down` on `r`. -/
def down_step (s : SynchState) (t : Nat) (r : Sem) : SynchState × List Event :=
  match sema_down_test (s.sema r) t with
  | (sema, true) => ((s.set_sema r sema).set_pc t (after_down r), [.down r t])
  | (sema, false) => (((s.set_sema r sema).set_blocked t true).set_pc t (.sema_down r), [])

/-- `t` runs `sema_try_down` on `r`. -/
def try_down_step (s : SynchState) (t : Nat) (r : Sem) : SynchState × List Event :=
  match sema_try_down (s.sema r) with
  | (sema, true) => ((s.set_sema r sema).set_pc t (after_down r), [.down r t])
  | (sema, false) => (s.set_sema r sema, [])

/-- `t` runs `sema_up` on `r` and leaves `synch.c`. -/
def up_step (s : SynchState) (t : Nat) (r : Sem) : Option (SynchState × List Event) :=
  match sema_up (s.sema r) with
  | (sema, none) => some ((s.set_sema r sema).set_pc t .idle, [.up r t])
  | (sema, some w) => (thread_unblock (s.set_sema r sema) w).map fun s => (s.set_pc t .idle, [.up r t])

/-- An idle thread `t` makes a call; `none` when one of its `ASSERT`s fails. -/
def call_step (s : SynchState) (t : Nat) : Call → Option (SynchState × List Event)
  | .sema_down k => some (down_step s t (.plain k))
  | .sema_try_down k => some (try_down_step s t (.plain k))
  | .sema_up k => up_step s t (.plain k)
  | .sema_try_up k => if (s.sema (.plain k)).value ≤ 0 then up_step s t (.plain k) else some (s, [])
  | .lock_acquire l => if s.holder l = some t then none else some (down_step s t (.lock l))
  | .lock_try_acquire l => if s.holder l = some t then none else some (try_down_step s t (.lock l))
  | .lock_release l =>
    if s.holder l = some t then some ((s.set_holder l none).set_pc t (.lock_up l), []) else none

/-- A thread inside a call runs its next step. -/
def resume_step (s : SynchState) (t : Nat) : Pc → Option (SynchState × List Event)
  | .idle => none
  | .sema_down r => some (down_step s t r)
  | .lock_holder l => some ((s.set_holder l (some t)).set_pc t .idle, [])
  | .lock_up l => up_step s t (.lock l)

/-- One step of the thread the scheduler picks; a blocked thread cannot run. -/
def synch_step (s : SynchState) : Choice → Option (SynchState × List Event)
  | .call t c => if s.blocked t = false ∧ s.pc t = .idle then call_step s t c else none
  | .resume t => if s.blocked t = false then resume_step s t (s.pc t) else none

/-- Every semaphore initialised by `sema_init` with its value, every lock by `lock_init`, and no
thread inside a call. -/
def synch_init (values : Nat → UInt32) : SynchState where
  semas k := sema_init (values k)
  locks _ := lock_init
  blocked _ := false
  pc _ := .idle

end Pintos
