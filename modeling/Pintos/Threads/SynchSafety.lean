import Pintos.Threads.Synch

/-! # What every interleaving of `synch.c` keeps

`Move` says once what a step of `synch_step` can do, and every invariant is a case analysis
over it.  The waiters of a semaphore are blocked threads in its loop, each once, so the
`thread_unblock` of `sema_up` never fails.  A semaphore's value counts the downs and ups the run
completed, modulo `2 ^ 32`.  The one unit of a lock's semaphore is in the semaphore or owned by
one thread, which takes it, holds the lock and gives it back: each lock refines a four-state
token machine, so at most one thread owns it.
-/

namespace Pintos
set_option autoImplicit false

/-- Where a thread runs `sema_up`: outside `synch.c` for a semaphore of the program, in
`lock_release` for a lock's. -/
def up_pc : Sem → Pc
  | .plain _ => .idle
  | .lock l => .lock_up l

/-- What a step of `synch_step` does. -/
inductive Move : SynchState → SynchState → List Event → Prop
  | down {s : SynchState} {t : Nat} {r : Sem} (hb : s.blocked t = false)
      (hpc : s.pc t = .idle ∨ s.pc t = .sema_down r) (hv : (s.sema r).value ≠ 0) :
      Move s ((s.set_sema r { s.sema r with value := (s.sema r).value - 1 }).set_pc t (after_down r))
        [.down r t]
  | block {s : SynchState} {t : Nat} {r : Sem} (hb : s.blocked t = false)
      (hpc : s.pc t = .idle ∨ s.pc t = .sema_down r) (hv : (s.sema r).value = 0) :
      Move s (((s.set_sema r { s.sema r with waiters := (s.sema r).waiters ++ [t] }).set_blocked t true).set_pc t
        (.sema_down r)) []
  | up {s : SynchState} {t : Nat} {r : Sem} (hb : s.blocked t = false) (hpc : s.pc t = up_pc r)
      (hw : (s.sema r).waiters = []) :
      Move s ((s.set_sema r { value := (s.sema r).value + 1, waiters := [] }).set_pc t .idle) [.up r t]
  | wake {s : SynchState} {t w : Nat} {r : Sem} {rest : List Nat} (hb : s.blocked t = false)
      (hpc : s.pc t = up_pc r) (hw : (s.sema r).waiters = w :: rest) (hbw : s.blocked w = true) :
      Move s (((s.set_sema r { value := (s.sema r).value + 1, waiters := rest }).set_blocked w false).set_pc t
        .idle) [.up r t]
  | take {s : SynchState} {t l : Nat} (hb : s.blocked t = false) (hpc : s.pc t = .lock_holder l) :
      Move s ((s.set_holder l (some t)).set_pc t .idle) []
  | release {s : SynchState} {t l : Nat} (hb : s.blocked t = false) (hpc : s.pc t = .idle)
      (hh : s.holder l = some t) :
      Move s ((s.set_holder l none).set_pc t (.lock_up l)) []
  | stay {s : SynchState} : Move s s []

/-! ## Every step is a `Move` -/

section Steps

variable {s : SynchState} {t : Nat} {r : Sem}

theorem down_step_move (hb : s.blocked t = false) (hpc : s.pc t = .idle ∨ s.pc t = .sema_down r) :
    Move s (down_step s t r).1 (down_step s t r).2 := by
  unfold down_step sema_down_test
  by_cases hv : (s.sema r).value = 0
  · rw [if_pos hv]
    exact Move.block hb hpc hv
  · rw [if_neg hv]
    exact Move.down hb hpc hv

theorem try_down_step_move (hb : s.blocked t = false) (hpc : s.pc t = .idle) :
    Move s (try_down_step s t r).1 (try_down_step s t r).2 := by
  unfold try_down_step sema_try_down
  by_cases hv : (s.sema r).value > 0
  · rw [if_pos hv]
    exact Move.down hb (Or.inl hpc) (fun h => by rw [h] at hv; exact absurd hv (by decide))
  · rw [if_neg hv]
    show Move s (s.set_sema r (s.sema r)) []
    rw [SynchState.set_sema_self]
    exact Move.stay

theorem up_step_move {s' : SynchState} {e : List Event} (hb : s.blocked t = false) (hpc : s.pc t = up_pc r)
    (h : up_step s t r = some (s', e)) : Move s s' e := by
  unfold up_step sema_up at h
  cases hw : (s.sema r).waiters with
  | nil =>
    rw [hw] at h
    obtain ⟨rfl, rfl⟩ := Prod.mk.inj (Option.some.inj h)
    exact Move.up hb hpc hw
  | cons w rest =>
    rw [hw] at h
    dsimp only at h
    unfold thread_unblock at h
    cases hbw : s.blocked w with
    | false => simp [hbw] at h
    | true =>
      simp only [SynchState.blocked_set_sema, hbw, if_true, Option.map_some, Option.some.injEq] at h
      obtain ⟨rfl, rfl⟩ := Prod.mk.inj h
      exact Move.wake hb hpc hw hbw

theorem synch_step_move {a : Choice} {s' : SynchState} {e : List Event} (h : synch_step s a = some (s', e)) :
    Move s s' e := by
  cases a with
  | call t c =>
    simp only [synch_step] at h
    split at h
    next hc =>
      obtain ⟨hb, hpc⟩ := hc
      cases c with
      | sema_down k =>
        have hm := down_step_move (r := .plain k) hb (Or.inl hpc)
        simp only [call_step, Option.some.injEq] at h
        rwa [h] at hm
      | sema_try_down k =>
        have hm := try_down_step_move (r := .plain k) hb hpc
        simp only [call_step, Option.some.injEq] at h
        rwa [h] at hm
      | sema_up k => exact up_step_move (r := .plain k) hb hpc h
      | sema_try_up k =>
        simp only [call_step] at h
        split at h
        · exact up_step_move (r := .plain k) hb hpc h
        · obtain ⟨rfl, rfl⟩ := Prod.mk.inj (Option.some.inj h)
          exact Move.stay
      | lock_acquire l =>
        simp only [call_step] at h
        split at h
        · cases h
        · have hm := down_step_move (r := .lock l) hb (Or.inl hpc)
          rwa [Option.some.inj h] at hm
      | lock_try_acquire l =>
        simp only [call_step] at h
        split at h
        · cases h
        · have hm := try_down_step_move (r := .lock l) hb hpc
          rwa [Option.some.inj h] at hm
      | lock_release l =>
        simp only [call_step] at h
        split at h
        · next hh =>
          obtain ⟨rfl, rfl⟩ := Prod.mk.inj (Option.some.inj h)
          exact Move.release hb hpc hh
        · cases h
    next => cases h
  | resume t =>
    simp only [synch_step] at h
    split at h
    next hb =>
      cases hp : s.pc t with
      | idle =>
        rw [hp] at h
        cases h
      | sema_down r =>
        have hm := down_step_move hb (Or.inr hp)
        rw [hp] at h
        simp only [resume_step, Option.some.injEq] at h
        rwa [h] at hm
      | lock_holder l =>
        rw [hp] at h
        simp only [resume_step, Option.some.injEq] at h
        obtain ⟨rfl, rfl⟩ := Prod.mk.inj h
        exact Move.take hb hp
      | lock_up l =>
        rw [hp] at h
        exact up_step_move (r := .lock l) hb hp h
    next => cases h

end Steps

/-! ## The waiters -/

/-- Every waiter of a semaphore is blocked in its loop, and appears once. -/
structure WaitInv (s : SynchState) : Prop where
  waiting : ∀ r t, t ∈ (s.sema r).waiters → s.blocked t = true ∧ s.pc t = .sema_down r
  nodup : ∀ r, (s.sema r).waiters.Nodup

section Waiters

variable {s : SynchState} (hw : WaitInv s)
include hw

theorem WaitInv.not_mem {t : Nat} (hb : s.blocked t = false) (r : Sem) : t ∉ (s.sema r).waiters := by
  intro ht
  have := (hw.waiting r t ht).1
  rw [hb] at this
  cases this

theorem WaitInv.set_pc {t : Nat} (hb : s.blocked t = false) (p : Pc) : WaitInv (s.set_pc t p) := by
  refine ⟨fun r u hu => ?_, hw.nodup⟩
  have hut : u ≠ t := fun h => hw.not_mem hb r (h ▸ hu)
  simp only [SynchState.sema_set_pc, SynchState.blocked_set_pc, SynchState.pc_set_pc, if_neg hut] at hu ⊢
  exact hw.waiting r u hu

theorem WaitInv.set_holder (l : Nat) (h : Option Nat) : WaitInv (s.set_holder l h) := by
  refine ⟨fun r u hu => ?_, fun r => ?_⟩
  · simp only [SynchState.sema_set_holder, SynchState.blocked_set_holder, SynchState.pc_set_holder] at hu ⊢
    exact hw.waiting r u hu
  · simp only [SynchState.sema_set_holder]
    exact hw.nodup r

theorem WaitInv.set_sema (r : Sem) (x : Semaphore) (hx : x.waiters = (s.sema r).waiters) :
    WaitInv (s.set_sema r x) := by
  have hwait : ∀ r', ((s.set_sema r x).sema r').waiters = (s.sema r').waiters := by
    intro r'
    by_cases hr : r' = r
    · subst hr
      simp [hx]
    · simp [hr]
  refine ⟨fun r' u hu => ?_, fun r' => ?_⟩
  · rw [hwait] at hu
    simpa using hw.waiting r' u hu
  · rw [hwait]
    exact hw.nodup r'

theorem WaitInv.block {t : Nat} {r : Sem} (hb : s.blocked t = false) :
    WaitInv (((s.set_sema r { s.sema r with waiters := (s.sema r).waiters ++ [t] }).set_blocked t true).set_pc t
      (.sema_down r)) := by
  refine ⟨fun r' u hu => ?_, fun r' => ?_⟩
  · simp only [SynchState.sema_set_pc, SynchState.sema_set_blocked, SynchState.sema_set_sema,
      SynchState.blocked_set_pc, SynchState.blocked_set_blocked, SynchState.blocked_set_sema,
      SynchState.pc_set_pc, SynchState.pc_set_blocked, SynchState.pc_set_sema] at hu ⊢
    by_cases hut : u = t
    · subst hut
      split at hu
      · next hr => exact ⟨by simp, by rw [hr]; simp⟩
      · exact absurd hu (hw.not_mem hb r')
    · rw [if_neg hut, if_neg hut]
      split at hu
      · next hr =>
        subst hr
        rcases List.mem_append.mp hu with hu | hu
        · exact hw.waiting r' u hu
        · exact absurd (List.mem_singleton.mp hu) hut
      · exact hw.waiting r' u hu
  · simp only [SynchState.sema_set_pc, SynchState.sema_set_blocked, SynchState.sema_set_sema]
    split
    · next hr =>
      subst hr
      exact List.Nodup.append (hw.nodup r') (List.nodup_singleton t) (by simpa using hw.not_mem hb r')
    · exact hw.nodup r'

theorem WaitInv.wake {r : Sem} {w : Nat} {rest : List Nat} (hwr : (s.sema r).waiters = w :: rest) (v : UInt32) :
    WaitInv ((s.set_sema r { value := v, waiters := rest }).set_blocked w false) := by
  have hnd : (w :: rest).Nodup := hwr ▸ hw.nodup r
  have hpw : s.pc w = .sema_down r := (hw.waiting r w (by rw [hwr]; exact List.mem_cons_self)).2
  refine ⟨fun r' u hu => ?_, fun r' => ?_⟩
  · simp only [SynchState.sema_set_blocked, SynchState.sema_set_sema, SynchState.blocked_set_blocked,
      SynchState.blocked_set_sema, SynchState.pc_set_blocked, SynchState.pc_set_sema] at hu ⊢
    split at hu
    · next hr =>
      subst hr
      have hu' : u ∈ (s.sema r').waiters := by rw [hwr]; exact List.mem_cons_of_mem w hu
      have huw : u ≠ w := fun h => (List.nodup_cons.mp hnd).1 (h ▸ hu)
      rw [if_neg huw]
      exact hw.waiting r' u hu'
    · next hr =>
      have huw : u ≠ w := by
        rintro rfl
        have := (hw.waiting r' u hu).2
        rw [hpw] at this
        exact hr (Pc.sema_down.inj this).symm
      rw [if_neg huw]
      exact hw.waiting r' u hu
  · simp only [SynchState.sema_set_blocked, SynchState.sema_set_sema]
    split
    · exact (List.nodup_cons.mp hnd).2
    · exact hw.nodup r'

end Waiters

theorem Move.wait_inv {s s' : SynchState} {e : List Event} (hm : Move s s' e) (hw : WaitInv s) : WaitInv s' := by
  cases hm with
  | down hb _ _ =>
    refine (hw.set_sema _ _ ?_).set_pc (by simpa using hb) _
    rfl
  | block hb _ _ => exact hw.block hb
  | up hb _ hwr =>
    refine (hw.set_sema _ _ ?_).set_pc (by simpa using hb) _
    exact hwr.symm
  | wake hb _ hwr _ => exact (hw.wake hwr _).set_pc (by simp [hb]) _
  | take hb _ => exact (hw.set_holder _ _).set_pc (by simpa using hb) _
  | release hb _ _ => exact (hw.set_holder _ _).set_pc (by simpa using hb) _
  | stay => exact hw

/-! ## Counting ups and downs -/

def Event.is_down (r : Sem) : Event → Bool
  | .down r' _ => r' == r
  | .up _ _ => false

def Event.is_up (r : Sem) : Event → Bool
  | .down _ _ => false
  | .up r' _ => r' == r

/-- The downs of `r` the events record. -/
def downs (r : Sem) (evs : List Event) : Nat := evs.countP (Event.is_down r)

/-- The ups of `r` the events record. -/
def ups (r : Sem) (evs : List Event) : Nat := evs.countP (Event.is_up r)

section Counting

variable (r : Sem)

@[simp] theorem downs_append (evs e : List Event) : downs r (evs ++ e) = downs r evs + downs r e :=
  List.countP_append

@[simp] theorem ups_append (evs e : List Event) : ups r (evs ++ e) = ups r evs + ups r e :=
  List.countP_append

@[simp] theorem downs_nil : downs r [] = 0 := rfl

@[simp] theorem ups_nil : ups r [] = 0 := rfl

@[simp] theorem downs_down (r' : Sem) (t : Nat) : downs r [.down r' t] = if r' = r then 1 else 0 := by
  by_cases h : r' = r <;> simp [downs, Event.is_down, h]

@[simp] theorem ups_down (r' : Sem) (t : Nat) : ups r [.down r' t] = 0 := by
  simp [ups, Event.is_up]

@[simp] theorem downs_up (r' : Sem) (t : Nat) : downs r [.up r' t] = 0 := by
  simp [downs, Event.is_down]

@[simp] theorem ups_up (r' : Sem) (t : Nat) : ups r [.up r' t] = if r' = r then 1 else 0 := by
  by_cases h : r' = r <;> simp [ups, Event.is_up, h]

end Counting

/-- The value `sema_init` gave a semaphore of `synch_init values`. -/
def init_value (values : Nat → UInt32) : Sem → Nat
  | .plain k => (values k).toNat
  | .lock _ => 1

/-- A semaphore's value is its initial value plus the ups minus the downs, modulo `2 ^ 32`,
and the downs never outrun the initial value and the ups. -/
structure Counts (values : Nat → UInt32) (s : SynchState) (evs : List Event) : Prop where
  within : ∀ r, downs r evs ≤ init_value values r + ups r evs
  value : ∀ r, (s.sema r).value.toNat = (init_value values r + ups r evs - downs r evs) % UInt32.size

theorem count_down {a u d : Nat} {x : UInt32} (hx : x ≠ 0) (hd : d ≤ a + u)
    (hv : x.toNat = (a + u - d) % UInt32.size) :
    d + 1 ≤ a + u ∧ (x - 1).toNat = (a + u - (d + 1)) % UInt32.size := by
  have hx0 : x.toNat ≠ 0 := fun h0 => hx (UInt32.toNat_inj.mp (by simpa using h0))
  have hlt := x.toNat_lt
  rw [UInt32.toNat_sub, UInt32.toNat_one]
  simp only [UInt32.size] at hv hlt ⊢
  omega

theorem count_up {a u d : Nat} {x : UInt32} (hd : d ≤ a + u) (hv : x.toNat = (a + u - d) % UInt32.size) :
    d ≤ a + (u + 1) ∧ (x + 1).toNat = (a + (u + 1) - d) % UInt32.size := by
  rw [UInt32.toNat_add, UInt32.toNat_one]
  simp only [UInt32.size] at hv ⊢
  omega

section CountFrame

variable {values : Nat → UInt32} {s s' : SynchState} {evs : List Event} (hc : Counts values s evs)
include hc

/-- A step that changes the value of `r` alone and records events of `r` alone keeps the counts
once they hold at `r`. -/
theorem Counts.update (r : Sem) (e : List Event) (he : ∀ r', r' ≠ r → downs r' e = 0 ∧ ups r' e = 0)
    (hs : ∀ r', r' ≠ r → (s'.sema r').value = (s.sema r').value)
    (hr : downs r (evs ++ e) ≤ init_value values r + ups r (evs ++ e) ∧
      (s'.sema r).value.toNat = (init_value values r + ups r (evs ++ e) - downs r (evs ++ e)) % UInt32.size) :
    Counts values s' (evs ++ e) := by
  refine ⟨fun r' => ?_, fun r' => ?_⟩
  · by_cases h : r' = r
    · subst h
      exact hr.1
    · simpa [(he r' h).1, (he r' h).2] using hc.within r'
  · by_cases h : r' = r
    · subst h
      exact hr.2
    · simpa [(he r' h).1, (he r' h).2, hs r' h] using hc.value r'

theorem Counts.same (hs : ∀ r, (s'.sema r).value = (s.sema r).value) : Counts values s' (evs ++ []) := by
  rw [List.append_nil]
  exact ⟨hc.within, fun r => by rw [hs r]; exact hc.value r⟩

end CountFrame

theorem Move.counts {values : Nat → UInt32} {s s' : SynchState} {e evs : List Event} (hm : Move s s' e)
    (hc : Counts values s evs) : Counts values s' (evs ++ e) := by
  cases hm with
  | @down t r _ _ hv =>
    obtain ⟨hd, hval⟩ := count_down hv (hc.within r) (hc.value r)
    refine hc.update r _ (fun r' hr => by simp [Ne.symm hr]) (fun r' hr => by simp [hr]) ?_
    simpa using ⟨hd, hval⟩
  | @block t r _ _ _ =>
    refine hc.same (fun r' => ?_)
    by_cases hr : r' = r
    · subst hr
      simp
    · simp [hr]
  | @up t r _ _ _ =>
    obtain ⟨hd, hval⟩ := count_up (hc.within r) (hc.value r)
    refine hc.update r _ (fun r' hr => by simp [Ne.symm hr]) (fun r' hr => by simp [hr]) ?_
    simpa using ⟨hd, hval⟩
  | @wake t w r _ _ _ _ _ =>
    obtain ⟨hd, hval⟩ := count_up (hc.within r) (hc.value r)
    refine hc.update r _ (fun r' hr => by simp [Ne.symm hr]) (fun r' hr => by simp [hr]) ?_
    simpa using ⟨hd, hval⟩
  | take _ _ => exact hc.same (fun _ => by simp)
  | release _ _ _ => exact hc.same (fun _ => by simp)
  | stay => exact hc.same (fun _ => rfl)

/-! ## Locks -/

/-- Where the one unit of a lock's semaphore is: in the semaphore, or with the thread that took
it in `lock_acquire` or `lock_try_acquire`, holds the lock, or gives it back in `lock_release`. -/
inductive Token
  | free
  | taken (t : Nat)
  | held (t : Nat)
  | returning (t : Nat)
  deriving DecidableEq, Repr

def Token.holder : Token → Option Nat
  | .held t => some t
  | _ => none

/-- The thread that owns the unit. -/
def Token.owner : Token → Option Nat
  | .free => none
  | .taken t => some t
  | .held t => some t
  | .returning t => some t

/-- The abstract lock: a thread takes the free unit, becomes the holder, stops being the holder
and gives the unit back. -/
inductive TokenStep : Token → Token → Prop
  | stay (τ : Token) : TokenStep τ τ
  | take (t : Nat) : TokenStep .free (.taken t)
  | hold (t : Nat) : TokenStep (.taken t) (.held t)
  | clear (t : Nat) : TokenStep (.held t) (.returning t)
  | give (t : Nat) : TokenStep (.returning t) .free

/-- Lock `l` of `s` with its unit at `τ`. -/
structure LockAt (s : SynchState) (l : Nat) (τ : Token) : Prop where
  value : (s.sema (.lock l)).value = if τ = .free then 1 else 0
  holder : s.holder l = τ.holder
  taken : ∀ t, s.pc t = .lock_holder l ↔ τ = .taken t
  returning : ∀ t, s.pc t = .lock_up l ↔ τ = .returning t

theorem pc_set_pc_iff {s : SynchState} {t : Nat} {p q : Pc} {P : Nat → Prop} (ht : p = q ↔ P t)
    (ho : ∀ u, u ≠ t → (s.pc u = q ↔ P u)) : ∀ u, (s.set_pc t p).pc u = q ↔ P u := by
  intro u
  by_cases hu : u = t
  · subst hu
    simpa using ht
  · simpa [hu] using ho u hu

/-- Neither in the middle of `lock_acquire` nor of `lock_release` of `l`. -/
def Pc.outside (l : Nat) (p : Pc) : Prop := p ≠ .lock_holder l ∧ p ≠ .lock_up l

theorem Pc.outside_idle (l : Nat) : Pc.idle.outside l := ⟨by simp, by simp⟩

theorem Pc.outside_sema_down (l : Nat) (r : Sem) : (Pc.sema_down r).outside l := ⟨by simp, by simp⟩

theorem Pc.outside_after_down {l : Nat} {r : Sem} (hr : r ≠ .lock l) : (after_down r).outside l := by
  cases r with
  | plain k => exact Pc.outside_idle l
  | lock l' =>
    have hl : l' ≠ l := fun h => hr (h ▸ rfl)
    exact ⟨by simp [after_down, hl], by simp [after_down]⟩

theorem Pc.outside_up_pc {l : Nat} {r : Sem} (hr : r ≠ .lock l) : (up_pc r).outside l := by
  cases r with
  | plain k => exact Pc.outside_idle l
  | lock l' =>
    have hl : l' ≠ l := fun h => hr (h ▸ rfl)
    exact ⟨by simp [up_pc], by simp [up_pc, hl]⟩

section LockFrame

variable {s : SynchState} {l : Nat} {τ : Token} (hl : LockAt s l τ)
include hl

theorem LockAt.set_pc {t : Nat} {p : Pc} (hold : (s.pc t).outside l) (hnew : p.outside l) :
    LockAt (s.set_pc t p) l τ where
  value := hl.value
  holder := hl.holder
  taken := pc_set_pc_iff (iff_of_false hnew.1 (fun h => hold.1 ((hl.taken t).mpr h))) (fun u _ => hl.taken u)
  returning := pc_set_pc_iff (iff_of_false hnew.2 (fun h => hold.2 ((hl.returning t).mpr h)))
    (fun u _ => hl.returning u)

theorem LockAt.set_sema {r : Sem} {x : Semaphore} (hx : r ≠ .lock l ∨ x.value = (s.sema r).value) :
    LockAt (s.set_sema r x) l τ where
  value := by
    rcases hx with hr | hv
    · simpa [Ne.symm hr] using hl.value
    · by_cases hr : Sem.lock l = r
      · subst hr
        simpa [hv] using hl.value
      · simpa [hr] using hl.value
  holder := by simpa using hl.holder
  taken := by simpa using hl.taken
  returning := by simpa using hl.returning

theorem LockAt.set_blocked (t : Nat) (b : Bool) : LockAt (s.set_blocked t b) l τ :=
  ⟨hl.value, hl.holder, hl.taken, hl.returning⟩

theorem LockAt.set_holder {l' : Nat} (hl' : l' ≠ l) (h : Option Nat) : LockAt (s.set_holder l' h) l τ where
  value := by simpa using hl.value
  holder := by simpa [Ne.symm hl'] using hl.holder
  taken := hl.taken
  returning := hl.returning

end LockFrame

section LockMoves

variable {s : SynchState} {l t : Nat}

theorem LockAt.take (hl : LockAt s l .free) :
    LockAt ((s.set_sema (.lock l) { s.sema (.lock l) with value := (s.sema (.lock l)).value - 1 }).set_pc t
      (.lock_holder l)) l (.taken t) where
  value := by simp [hl.value]
  holder := by simpa [Token.holder] using hl.holder
  taken := pc_set_pc_iff (by simp) (fun u hu => by simpa [hl.taken u] using Ne.symm hu)
  returning := pc_set_pc_iff (by simp) (fun u _ => by simpa using hl.returning u)

theorem LockAt.hold (hl : LockAt s l (.taken t)) :
    LockAt ((s.set_holder l (some t)).set_pc t .idle) l (.held t) where
  value := by simpa using hl.value
  holder := by simp [Token.holder]
  taken := pc_set_pc_iff (by simp) (fun u hu => by simpa [hl.taken u] using Ne.symm hu)
  returning := pc_set_pc_iff (by simp) (fun u _ => by simpa using hl.returning u)

theorem LockAt.clear (hl : LockAt s l (.held t)) :
    LockAt ((s.set_holder l none).set_pc t (.lock_up l)) l (.returning t) where
  value := by simpa using hl.value
  holder := by simp [Token.holder]
  taken := pc_set_pc_iff (by simp) (fun u _ => by simpa using hl.taken u)
  returning := pc_set_pc_iff (by simp) (fun u hu => by simpa [hl.returning u] using Ne.symm hu)

theorem LockAt.give (hl : LockAt s l (.returning t)) {s₁ : SynchState}
    (hv : (s₁.sema (.lock l)).value = (s.sema (.lock l)).value + 1) (hh : s₁.holder l = s.holder l)
    (hpc : s₁.pc = s.pc) : LockAt (s₁.set_pc t .idle) l .free where
  value := by simp [hv, hl.value]
  holder := by simpa [hh, Token.holder] using hl.holder
  taken := pc_set_pc_iff (by simp) (fun u _ => by simpa [hpc] using hl.taken u)
  returning := pc_set_pc_iff (by simp) (fun u hu => by simpa [hpc, hl.returning u] using Ne.symm hu)

end LockMoves

theorem Token.eq_held_of_holder {τ : Token} {t : Nat} (h : τ.holder = some t) : τ = .held t := by
  cases τ with
  | held t' => simpa [Token.holder] using h
  | _ => simp [Token.holder] at h

theorem Move.lock_at {s s' : SynchState} {e : List Event} (hm : Move s s' e) {l : Nat} {τ : Token}
    (hl : LockAt s l τ) : ∃ τ', LockAt s' l τ' ∧ TokenStep τ τ' := by
  cases hm with
  | @down t r _ hpc hv =>
    by_cases hr : r = .lock l
    · -- the down of lock `l` finds the unit free and takes it
      subst hr
      have hτ : τ = .free := by
        by_contra hne
        have := hl.value
        rw [if_neg hne] at this
        exact hv this
      subst hτ
      exact ⟨.taken t, hl.take, .take t⟩
    · have hold : ((s.set_sema r { s.sema r with value := (s.sema r).value - 1 }).pc t).outside l := by
        rw [SynchState.pc_set_sema]
        rcases hpc with h | h <;> rw [h]
        · exact Pc.outside_idle l
        · exact Pc.outside_sema_down l r
      exact ⟨τ, (hl.set_sema (Or.inl hr)).set_pc hold (Pc.outside_after_down hr), .stay τ⟩
  | @block t r _ hpc _ =>
    have hold : (((s.set_sema r { s.sema r with waiters := (s.sema r).waiters ++ [t] }).set_blocked t true).pc
        t).outside l := by
      rw [SynchState.pc_set_blocked, SynchState.pc_set_sema]
      rcases hpc with h | h <;> rw [h]
      · exact Pc.outside_idle l
      · exact Pc.outside_sema_down l r
    have hl₁ := hl.set_sema (x := { s.sema r with waiters := (s.sema r).waiters ++ [t] }) (Or.inr rfl)
    exact ⟨τ, (hl₁.set_blocked t true).set_pc hold (Pc.outside_sema_down l r), .stay τ⟩
  | @up t r _ hpc _ =>
    by_cases hr : r = .lock l
    · -- the up of `lock_release` gives the unit of `l` back
      subst hr
      have hτ : τ = .returning t := (hl.returning t).mp hpc
      subst hτ
      exact ⟨.free, hl.give (by simp) (by simp) (by simp), .give t⟩
    · have hold : ((s.set_sema r { value := (s.sema r).value + 1, waiters := [] }).pc t).outside l := by
        rw [SynchState.pc_set_sema, hpc]
        exact Pc.outside_up_pc hr
      exact ⟨τ, (hl.set_sema (Or.inl hr)).set_pc hold (Pc.outside_idle l), .stay τ⟩
  | @wake t w r rest _ hpc _ _ =>
    by_cases hr : r = .lock l
    · subst hr
      have hτ : τ = .returning t := (hl.returning t).mp hpc
      subst hτ
      exact ⟨.free, hl.give (by simp) (by simp) (by simp), .give t⟩
    · have hold : (((s.set_sema r { value := (s.sema r).value + 1, waiters := rest }).set_blocked w false).pc
          t).outside l := by
        rw [SynchState.pc_set_blocked, SynchState.pc_set_sema, hpc]
        exact Pc.outside_up_pc hr
      exact ⟨τ, ((hl.set_sema (Or.inl hr)).set_blocked w false).set_pc hold (Pc.outside_idle l), .stay τ⟩
  | @take t l' _ hpc =>
    by_cases hl' : l' = l
    · -- `t` becomes the holder
      subst hl'
      have hτ : τ = .taken t := (hl.taken t).mp hpc
      subst hτ
      exact ⟨.held t, hl.hold, .hold t⟩
    · have hold : ((s.set_holder l' (some t)).pc t).outside l := by
        rw [SynchState.pc_set_holder, hpc]
        exact ⟨by simp [hl'], by simp⟩
      exact ⟨τ, (hl.set_holder hl' _).set_pc hold (Pc.outside_idle l), .stay τ⟩
  | @release t l' _ hpc hh =>
    by_cases hl' : l' = l
    · -- the holder clears `holder`
      subst hl'
      have hτ : τ = .held t := Token.eq_held_of_holder (hl.holder ▸ hh)
      subst hτ
      exact ⟨.returning t, hl.clear, .clear t⟩
    · have hold : ((s.set_holder l' none).pc t).outside l := by
        rw [SynchState.pc_set_holder, hpc]
        exact Pc.outside_idle l
      exact ⟨τ, (hl.set_holder hl' _).set_pc hold ⟨by simp, by simp [hl']⟩, .stay τ⟩
  | stay => exact ⟨τ, hl, .stay τ⟩

/-- `t` owns lock `l`: it took the unit and has not given it back, so it is between the down of
`lock_acquire` or `lock_try_acquire` and the up of its `lock_release`. -/
def owns (s : SynchState) (l t : Nat) : Prop :=
  s.pc t = .lock_holder l ∨ s.holder l = some t ∨ s.pc t = .lock_up l

section Owners

variable {s : SynchState} {l : Nat} {τ : Token} (hl : LockAt s l τ)
include hl

theorem LockAt.owner_of_owns {t : Nat} (h : owns s l t) : τ.owner = some t := by
  rcases h with h | h | h
  · rw [(hl.taken t).mp h]
    rfl
  · rw [Token.eq_held_of_holder (hl.holder.symm.trans h)]
    rfl
  · rw [(hl.returning t).mp h]
    rfl

theorem LockAt.value_le_one : (s.sema (.lock l)).value ≤ 1 := by
  rw [hl.value]
  split <;> decide

end Owners

/-! ## Every run -/

/-- What every run from `synch_init values` keeps, with the events it recorded. -/
structure SynchInv (values : Nat → UInt32) (s : SynchState) (evs : List Event) : Prop where
  wait : WaitInv s
  counts : Counts values s evs
  locks : ∀ l, ∃ τ, LockAt s l τ

theorem SynchInv.init (values : Nat → UInt32) : SynchInv values (synch_init values) [] where
  wait := ⟨fun r t ht => by cases r <;> simp [synch_init, SynchState.sema, sema_init, lock_init] at ht,
    fun r => by cases r <;> simp [synch_init, SynchState.sema, sema_init, lock_init]⟩
  counts := ⟨fun _ => by simp, fun r => by
    cases r with
    | plain k => simp [synch_init, SynchState.sema, sema_init, init_value, Nat.mod_eq_of_lt (values k).toNat_lt]
    | lock l => rfl⟩
  locks := fun l => ⟨.free, ⟨rfl, rfl, fun t => by simp [synch_init], fun t => by simp [synch_init]⟩⟩

theorem SynchInv.step {values : Nat → UInt32} {s s' : SynchState} {evs e : List Event} {a : Choice}
    (hi : SynchInv values s evs) (h : synch_step s a = some (s', e)) : SynchInv values s' (evs ++ e) := by
  have hm := synch_step_move h
  refine ⟨hm.wait_inv hi.wait, hm.counts hi.counts, fun l => ?_⟩
  obtain ⟨τ, hl⟩ := hi.locks l
  obtain ⟨τ', hl', -⟩ := hm.lock_at hl
  exact ⟨τ', hl'⟩

theorem synch_run_inv (values : Nat → UInt32) {acts : List Choice} {s : SynchState} {evs : List Event}
    (hr : Runs.run synch_step (synch_init values) acts = some (s, evs)) : SynchInv values s evs :=
  Runs.run_inv_nil (SynchInv values) (fun _ _ _ _ _ hi h => hi.step h) (SynchInv.init values) hr

/-! ## Steps that complete a down -/

section Downs

variable {s s' : SynchState} {e : List Event}

theorem Move.down_event (hm : Move s s' e) {r : Sem} {t : Nat} (he : Event.down r t ∈ e) :
    (s.sema r).value ≠ 0 ∧ (s'.sema r).value = (s.sema r).value - 1 := by
  cases hm with
  | down _ _ hv =>
    obtain ⟨rfl, rfl⟩ := Event.down.inj (List.mem_singleton.mp he)
    exact ⟨hv, by simp⟩
  | up _ _ _ => simp at he
  | wake _ _ _ _ => simp at he
  | _ => simp at he

theorem Move.leave_loop (hm : Move s s' e) {r : Sem} {t : Nat} (hin : s.pc t = .sema_down r)
    (hout : s'.pc t ≠ .sema_down r) : e = [.down r t] := by
  cases hm with
  | @down u r' _ hpc _ =>
    by_cases hu : t = u
    · subst hu
      rcases hpc with h | h
      · rw [hin] at h
        cases h
      · rw [hin] at h
        cases h
        rfl
    · exact absurd (by simpa [hu] using hin) hout
  | @block u r' _ hpc _ =>
    by_cases hu : t = u
    · subst hu
      rcases hpc with h | h <;> rw [hin] at h <;> cases h
      exact absurd (by simp) hout
    · exact absurd (by simpa [hu] using hin) hout
  | @up u r' _ hpc _ =>
    by_cases hu : t = u
    · subst hu
      cases r' <;> simp [up_pc, hin] at hpc
    · exact absurd (by simpa [hu] using hin) hout
  | @wake u w r' rest _ hpc _ _ =>
    by_cases hu : t = u
    · subst hu
      cases r' <;> simp [up_pc, hin] at hpc
    · exact absurd (by simpa [hu] using hin) hout
  | @take u l _ hpc =>
    by_cases hu : t = u
    · subst hu
      simp [hin] at hpc
    · exact absurd (by simpa [hu] using hin) hout
  | @release u l _ hpc _ =>
    by_cases hu : t = u
    · subst hu
      simp [hin] at hpc
    · exact absurd (by simpa [hu] using hin) hout
  | stay => exact absurd hin hout

end Downs

/-! ## No failing step -/

/-- The `ASSERT`s a call makes of the lock and the calling thread. -/
def Call.allowed (s : SynchState) (t : Nat) : Call → Prop
  | .lock_acquire l => s.holder l ≠ some t
  | .lock_try_acquire l => s.holder l ≠ some t
  | .lock_release l => s.holder l = some t
  | _ => True

/-- The choices the scheduler can make: a thread that is not blocked makes a call the `ASSERT`s
allow, or goes on with the call it is in. -/
def Choice.enabled (s : SynchState) : Choice → Prop
  | .call t c => s.blocked t = false ∧ s.pc t = .idle ∧ c.allowed s t
  | .resume t => s.blocked t = false ∧ s.pc t ≠ .idle

section Progress

variable {s : SynchState} (hw : WaitInv s)
include hw

theorem up_step_some (t : Nat) (r : Sem) : (up_step s t r).isSome := by
  unfold up_step sema_up
  cases hws : (s.sema r).waiters with
  | nil => simp
  | cons w rest =>
    have hbw : s.blocked w = true := (hw.waiting r w (by simp [hws])).1
    simp [thread_unblock, hbw]

theorem synch_step_progress {a : Choice} (ha : a.enabled s) : (synch_step s a).isSome := by
  cases a with
  | call t c =>
    obtain ⟨hb, hpc, hc⟩ := ha
    simp only [synch_step]
    rw [if_pos ⟨hb, hpc⟩]
    cases c with
    | sema_up k => exact up_step_some hw t _
    | sema_try_up k =>
      simp only [call_step]
      split
      · exact up_step_some hw t _
      · rfl
    | lock_acquire l =>
      simp only [call_step]
      rw [if_neg hc]
      rfl
    | lock_try_acquire l =>
      simp only [call_step]
      rw [if_neg hc]
      rfl
    | lock_release l =>
      simp only [call_step]
      rw [if_pos (show s.holder l = some t from hc)]
      rfl
    | _ => rfl
  | resume t =>
    obtain ⟨hb, hpc⟩ := ha
    simp only [synch_step]
    rw [if_pos hb]
    cases hp : s.pc t with
    | idle => exact absurd hp hpc
    | lock_up l => exact up_step_some hw t _
    | _ => rfl

end Progress

/-- Semaphores and locks over every interleaving: a value is its initial value plus the
completed ups minus the completed downs modulo `2 ^ 32`, and the downs never outrun the initial
value and the ups; a down decrements a positive value and is the only way out of the loop of
`sema_down`; a lock's semaphore is `0` or `1` and at most one thread owns the lock; and every
choice the scheduler can make goes through. -/
theorem sema_lock_interleavings (values : Nat → UInt32) (acts : List Choice) (s : SynchState)
    (evs : List Event) (hr : Runs.run synch_step (synch_init values) acts = some (s, evs)) :
    (∀ r, downs r evs ≤ init_value values r + ups r evs ∧
      (s.sema r).value.toNat = (init_value values r + ups r evs - downs r evs) % UInt32.size) ∧
    (∀ a s' e, synch_step s a = some (s', e) →
      (∀ r t, Event.down r t ∈ e → (s.sema r).value ≠ 0 ∧ (s'.sema r).value = (s.sema r).value - 1) ∧
      ∀ r t, s.pc t = .sema_down r → s'.pc t ≠ .sema_down r → e = [.down r t]) ∧
    (∀ l, (s.sema (.lock l)).value ≤ 1 ∧ ∀ t t', owns s l t → owns s l t' → t = t') ∧
    ∀ a : Choice, a.enabled s → (synch_step s a).isSome := by
  have hi := synch_run_inv values hr
  refine ⟨fun r => ⟨hi.counts.within r, hi.counts.value r⟩, fun a s' e h => ?_, fun l => ?_,
    fun a ha => synch_step_progress hi.wait ha⟩
  · have hm := synch_step_move h
    exact ⟨fun r t he => hm.down_event he, fun r t hin hout => hm.leave_loop hin hout⟩
  · obtain ⟨τ, hl⟩ := hi.locks l
    refine ⟨hl.value_le_one, fun t t' ht ht' => ?_⟩
    have h₁ := hl.owner_of_owns ht
    rw [hl.owner_of_owns ht'] at h₁
    exact (Option.some.inj h₁).symm

/-- Thread `0` takes lock `0`, thread `1` blocks on it, thread `0` releases it and wakes thread
`1`, which tests again and takes it. -/
def handoff : List Choice :=
  [.call 0 (.lock_acquire 0), .resume 0, .call 1 (.lock_acquire 0), .call 0 (.lock_release 0), .resume 0,
    .resume 1, .resume 1]

theorem sema_lock_interleavings_handoff :
    ∃ s evs, Runs.run synch_step (synch_init (fun _ => 0)) handoff = some (s, evs) ∧ s.holder 0 = some 1 ∧
      (s.sema (.lock 0)).value ≤ 1 := by
  obtain ⟨s, evs, hr, hh⟩ : ∃ s evs, Runs.run synch_step (synch_init (fun _ => 0)) handoff = some (s, evs) ∧
      s.holder 0 = some 1 := ⟨_, _, rfl, rfl⟩
  exact ⟨s, evs, hr, hh, ((sema_lock_interleavings _ _ _ _ hr).2.2.1 0).1⟩

/-- `value` is `unsigned` and `sema_up` does not check it: from `UINT_MAX` one up wraps it to `0`. -/
theorem sema_up_wraps :
    ∃ s evs, Runs.run synch_step (synch_init (fun _ => 4294967295)) [.call 0 (.sema_up 0)] = some (s, evs) ∧
      (s.sema (.plain 0)).value.toNat ≠
        init_value (fun _ => 4294967295) (.plain 0) + ups (.plain 0) evs - downs (.plain 0) evs :=
  ⟨_, _, rfl, by decide⟩

end Pintos
