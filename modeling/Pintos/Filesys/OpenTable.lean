import Pintos.Filesys.File

/-! # The open-inode table over whole runs

Callers hold handles on open inodes: a bare reference (returned by `inode_open` or
`inode_reopen`), a `struct file` or a `struct dir`; the open free-map file is one more.  A
`World` is the file-system state with the handles its callers hold, `step` one call of
`inode.c`, `file.c` or `directory.c` on a held handle, `run` a sequence of calls.

`TableInv`: each sector has at most one open inode, each open inode's `open_cnt` is the number
of live handles on it and its `deny_write_cnt` the number of live files on it that deny
writes, and every live handle is on an open inode.  Every call on a held handle returns and
keeps `TableInv` (`step_spec`), so in no run does an `ASSERT` of `inode_deny_write`,
`inode_allow_write` or `inode_close` fire.
-/

namespace Pintos
set_option autoImplicit false
set_option maxHeartbeats 250000
set_option maxRecDepth 120000

inductive Handle where
  | inode (addr : Nat)
  | file (file : File)
  | dir (dir : Dir)

namespace Handle

/-- The block of the inode the handle is on. -/
def target : Handle → Nat
  | inode a => a
  | file f => f.inode
  | dir d => d.inode

/-- The handle is a file on the inode at `addr` that denies writes. -/
def denies (addr : Nat) : Handle → Bool
  | file f => f.deny_write && f.inode == addr
  | _ => false

@[simp] theorem target_inode (a : Nat) : (inode a).target = a := rfl
@[simp] theorem target_file (f : File) : (file f).target = f.inode := rfl
@[simp] theorem target_dir (d : Dir) : (dir d).target = d.inode := rfl
@[simp] theorem denies_inode (addr a : Nat) : (inode a).denies addr = false := rfl
@[simp] theorem denies_file (addr : Nat) (f : File) : (file f).denies addr = (f.deny_write && f.inode == addr) := rfl
@[simp] theorem denies_dir (addr : Nat) (d : Dir) : (dir d).denies addr = false := rfl

theorem target_of_denies {h : Handle} {addr : Nat} (hd : h.denies addr = true) : h.target = addr := by
  cases h <;> simp_all [denies, target]

end Handle

structure World where
  fs : FsState
  handles : List Handle

namespace World

def live (w : World) : List Handle := (w.fs.free_map_file.map Handle.file).toList ++ w.handles

def opens (w : World) (addr : Nat) : Nat := w.live.countP (fun h => h.target == addr)

def denials (w : World) (addr : Nat) : Nat := w.live.countP (Handle.denies addr)

end World

inductive Act where
  | inode_open (sector : Nat)
  | inode_reopen (k : Nat)
  | inode_close (k : Nat)
  | file_open (k : Nat)
  | file_reopen (k : Nat)
  | file_close (k : Nat)
  | file_deny_write (k : Nat)
  | file_allow_write (k : Nat)
  | dir_open (k : Nat)
  | dir_close (k : Nat)

/-- The handles after the reference `k` is handed to `file_open` or `dir_open`: the new handle
in its place, or nothing when the open failed and closed it. -/
def hand_over (handles : List Handle) (k : Nat) : Option Handle → List Handle
  | some h => handles.set k h
  | none => handles.eraseIdx k

/-- One call; `none` is a kernel panic, or a call on a handle the caller does not hold. -/
def step (w : World) : Act → Option World
  | .inode_open sector =>
    let (fs, inode) := inode_open w.fs sector
    some ⟨fs, w.handles ++ (inode.map Handle.inode).toList⟩
  | .inode_reopen k =>
    match w.handles[k]? with
    | some (.inode addr) =>
      let (fs, inode) := inode_reopen w.fs (some addr)
      some ⟨fs, w.handles ++ (inode.map Handle.inode).toList⟩
    | _ => none
  | .inode_close k =>
    match w.handles[k]? with
    | some (.inode addr) => (inode_close w.fs (some addr)).map (fun fs => ⟨fs, w.handles.eraseIdx k⟩)
    | _ => none
  | .file_open k =>
    match w.handles[k]? with
    | some (.inode addr) =>
      (file_open w.fs (some addr)).map (fun r => ⟨r.1, hand_over w.handles k (r.2.map Handle.file)⟩)
    | _ => none
  | .file_reopen k =>
    match w.handles[k]? with
    | some (.file file) =>
      (file_reopen w.fs file).map (fun r => ⟨r.1, w.handles ++ (r.2.map Handle.file).toList⟩)
    | _ => none
  | .file_close k =>
    match w.handles[k]? with
    | some (.file file) => (file_close w.fs (some file)).map (fun fs => ⟨fs, w.handles.eraseIdx k⟩)
    | _ => none
  | .file_deny_write k =>
    match w.handles[k]? with
    | some (.file file) => (file_deny_write w.fs file).map (fun r => ⟨r.1, w.handles.set k (.file r.2)⟩)
    | _ => none
  | .file_allow_write k =>
    match w.handles[k]? with
    | some (.file file) => (file_allow_write w.fs file).map (fun r => ⟨r.1, w.handles.set k (.file r.2)⟩)
    | _ => none
  | .dir_open k =>
    match w.handles[k]? with
    | some (.inode addr) =>
      (dir_open w.fs (some addr)).map (fun r => ⟨r.1, hand_over w.handles k (r.2.map Handle.dir)⟩)
    | _ => none
  | .dir_close k =>
    match w.handles[k]? with
    | some (.dir dir) => (dir_close w.fs (some dir)).map (fun fs => ⟨fs, w.handles.eraseIdx k⟩)
    | _ => none

def run (w : World) : List Act → Option World
  | [] => some w
  | a :: acts => (step w a).bind (fun w => run w acts)

/-- The caller holds the handle the call is made on. -/
def Act.holds (w : World) : Act → Prop
  | .inode_open _ => True
  | .inode_reopen k | .inode_close k | .file_open k | .dir_open k => ∃ addr, w.handles[k]? = some (.inode addr)
  | .file_reopen k | .file_close k | .file_deny_write k | .file_allow_write k =>
    ∃ file, w.handles[k]? = some (.file file)
  | .dir_close k => ∃ dir, w.handles[k]? = some (.dir dir)

structure TableInv (w : World) : Prop where
  addrs_nodup : (w.fs.open_inodes.map Inode.addr).Nodup
  sectors_nodup : (w.fs.open_inodes.map Inode.sector).Nodup
  fresh : ∀ i ∈ w.fs.open_inodes, i.addr < w.fs.heap.calls
  kept : ∀ i ∈ w.fs.open_inodes, i.removed = false
  open_cnt : ∀ i ∈ w.fs.open_inodes, i.open_cnt = w.opens i.addr
  deny_write_cnt : ∀ i ∈ w.fs.open_inodes, i.deny_write_cnt = w.denials i.addr
  targets : ∀ h ∈ w.live, ∃ i ∈ w.fs.open_inodes, i.addr = h.target

/-! ## Counting live handles

Each call adds a handle at the end, drops the `k`-th or replaces it; the free-map file stays.
The counts of the new world follow from those of the old by what the handle contributed. -/

section Counts

variable (w : World) (fs : FsState) (hf : fs.free_map_file = w.fs.free_map_file)

theorem World.mem_live_of_handle {w : World} {k : Nat} {h : Handle} (hk : w.handles[k]? = some h) : h ∈ w.live :=
  List.mem_append_right _ (List.mem_of_getElem? hk)

theorem World.denials_le_opens (addr : Nat) : w.denials addr ≤ w.opens addr :=
  List.countP_mono_left (fun h _ hd => by simp [Handle.target_of_denies hd])

include hf

theorem World.countP_append (h : Handle) (p : Handle → Bool) :
    (⟨fs, w.handles ++ [h]⟩ : World).live.countP p = w.live.countP p + if p h then 1 else 0 := by
  simp only [World.live, hf, List.countP_append, List.countP_singleton]
  omega

theorem World.countP_eraseIdx {k : Nat} {h : Handle} (hk : w.handles[k]? = some h) (p : Handle → Bool) :
    (⟨fs, w.handles.eraseIdx k⟩ : World).live.countP p + (if p h then 1 else 0) = w.live.countP p := by
  have := KeyedList.countP_eraseIdx p hk
  simp only [World.live, hf, List.countP_append]
  omega

theorem World.countP_set {k : Nat} {h : Handle} (hk : w.handles[k]? = some h) (h' : Handle) (p : Handle → Bool) :
    (⟨fs, w.handles.set k h'⟩ : World).live.countP p + (if p h then 1 else 0) =
      w.live.countP p + if p h' then 1 else 0 := by
  have := KeyedList.countP_set p hk h'
  simp only [World.live, hf, List.countP_append]
  omega

theorem World.mem_live_append {h x : Handle} (hx : x ∈ (⟨fs, w.handles ++ [h]⟩ : World).live) :
    x ∈ w.live ∨ x = h := by
  simp only [World.live, hf, ← List.append_assoc, List.mem_append, List.mem_singleton] at hx ⊢
  exact hx

theorem World.mem_live_eraseIdx {k : Nat} {x : Handle} (hx : x ∈ (⟨fs, w.handles.eraseIdx k⟩ : World).live) :
    x ∈ w.live := by
  simp only [World.live, hf, List.mem_append] at hx ⊢
  exact hx.imp id List.mem_of_mem_eraseIdx

theorem World.mem_live_set {k : Nat} {h' x : Handle} (hx : x ∈ (⟨fs, w.handles.set k h'⟩ : World).live) :
    x ∈ w.live ∨ x = h' := by
  simp only [World.live, hf, List.mem_append] at hx ⊢
  rcases hx with hx | hx
  · exact Or.inl (Or.inl hx)
  · rcases List.mem_or_eq_of_mem_set hx with hx | hx
    · exact Or.inl (Or.inr hx)
    · exact Or.inr hx

theorem World.opens_append (h : Handle) (b : Nat) :
    (⟨fs, w.handles ++ [h]⟩ : World).opens b = w.opens b + if h.target = b then 1 else 0 := by
  simpa [World.opens] using World.countP_append w fs hf h (fun x => x.target == b)

theorem World.denials_append (h : Handle) (b : Nat) :
    (⟨fs, w.handles ++ [h]⟩ : World).denials b = w.denials b + if h.denies b then 1 else 0 :=
  World.countP_append w fs hf h (Handle.denies b)

theorem World.opens_eraseIdx {k : Nat} {h : Handle} (hk : w.handles[k]? = some h) (b : Nat) :
    (⟨fs, w.handles.eraseIdx k⟩ : World).opens b + (if h.target = b then 1 else 0) = w.opens b := by
  simpa [World.opens] using World.countP_eraseIdx w fs hf hk (fun x => x.target == b)

theorem World.denials_eraseIdx {k : Nat} {h : Handle} (hk : w.handles[k]? = some h) (b : Nat) :
    (⟨fs, w.handles.eraseIdx k⟩ : World).denials b + (if h.denies b then 1 else 0) = w.denials b :=
  World.countP_eraseIdx w fs hf hk (Handle.denies b)

theorem World.opens_set {k : Nat} {h : Handle} (hk : w.handles[k]? = some h) (h' : Handle)
    (ht : h'.target = h.target) (b : Nat) : (⟨fs, w.handles.set k h'⟩ : World).opens b = w.opens b := by
  have := World.countP_set w fs hf hk h' (fun x => x.target == b)
  simp only [ht] at this
  unfold World.opens
  omega

theorem World.denials_set {k : Nat} {h : Handle} (hk : w.handles[k]? = some h) (h' : Handle) (b : Nat) :
    (⟨fs, w.handles.set k h'⟩ : World).denials b + (if h.denies b then 1 else 0) =
      w.denials b + if h'.denies b then 1 else 0 :=
  World.countP_set w fs hf hk h' (Handle.denies b)

end Counts

/-! ## What each kind of change to the table keeps -/

section Keep

variable {w w' : World}

/-- A change of the table at one inode, by a function that keeps its block, sector and
`removed` flag, with the handles on that inode counted again. -/
theorem TableInv.of_update (hw : TableInv w) (a : Nat) (f : Inode → Inode)
    (hopen : w'.fs.open_inodes = KeyedList.update Inode.addr a f w.fs.open_inodes)
    (hcalls : w.fs.heap.calls ≤ w'.fs.heap.calls)
    (haddr : ∀ i, (f i).addr = i.addr) (hsector : ∀ i, (f i).sector = i.sector)
    (hrem : ∀ i, (f i).removed = i.removed)
    (hopens : ∀ b, b ≠ a → w'.opens b = w.opens b) (hdenials : ∀ b, b ≠ a → w'.denials b = w.denials b)
    (hcnt : ∀ i ∈ w.fs.open_inodes, i.addr = a →
      (f i).open_cnt = w'.opens a ∧ (f i).deny_write_cnt = w'.denials a)
    (htargets : ∀ h ∈ w'.live, h ∈ w.live ∨ h.target = a) (ha : ∃ i ∈ w.fs.open_inodes, i.addr = a) :
    TableInv w' := by
  have hentry : ∀ i ∈ w.fs.open_inodes, ∃ j ∈ w'.fs.open_inodes, j.addr = i.addr := fun i hi =>
    ⟨_, hopen ▸ KeyedList.mem_update_of_mem hi, by split <;> simp [haddr]⟩
  refine ⟨?_, ?_, ?_, ?_, ?_, ?_, fun h hh => ?_⟩
  · rw [hopen, KeyedList.map_update Inode.addr (fun i _ => haddr i)]
    exact hw.addrs_nodup
  · rw [hopen, KeyedList.map_update Inode.sector (fun i _ => hsector i)]
    exact hw.sectors_nodup
  · rw [hopen]
    exact KeyedList.forall_mem_update _ (fun i hi _ => by rw [haddr]; exact Nat.lt_of_lt_of_le (hw.fresh i hi) hcalls)
      (fun i hi _ => Nat.lt_of_lt_of_le (hw.fresh i hi) hcalls)
  · rw [hopen]
    exact KeyedList.forall_mem_update _ (fun i hi _ => by rw [hrem]; exact hw.kept i hi)
      (fun i hi _ => hw.kept i hi)
  · rw [hopen]
    exact KeyedList.forall_mem_update _ (fun i hi hia => by rw [haddr, hia]; exact (hcnt i hi hia).1)
      (fun i hi hia => by rw [hopens _ hia]; exact hw.open_cnt i hi)
  · rw [hopen]
    exact KeyedList.forall_mem_update _ (fun i hi hia => by rw [haddr, hia]; exact (hcnt i hi hia).2)
      (fun i hi hia => by rw [hdenials _ hia]; exact hw.deny_write_cnt i hi)
  · rcases htargets h hh with hold | hta
    · obtain ⟨i, hi, hia⟩ := hw.targets h hold
      obtain ⟨j, hj, hja⟩ := hentry i hi
      exact ⟨j, hj, hja.trans hia⟩
    · obtain ⟨i, hi, hia⟩ := ha
      obtain ⟨j, hj, hja⟩ := hentry i hi
      exact ⟨j, hj, by rw [hja, hia, hta]⟩

theorem TableInv.of_same (hw : TableInv w) (hopen : w'.fs.open_inodes = w.fs.open_inodes)
    (hcalls : w.fs.heap.calls ≤ w'.fs.heap.calls) (hopens : ∀ b, w'.opens b = w.opens b)
    (hdenials : ∀ b, w'.denials b = w.denials b)
    (htargets : ∀ h ∈ w'.live, ∃ h₀ ∈ w.live, h.target = h₀.target) : TableInv w' where
  addrs_nodup := hopen ▸ hw.addrs_nodup
  sectors_nodup := hopen ▸ hw.sectors_nodup
  fresh := fun i hi => Nat.lt_of_lt_of_le (hw.fresh i (hopen ▸ hi)) hcalls
  kept := fun i hi => hw.kept i (hopen ▸ hi)
  open_cnt := fun i hi => (hopens _).symm ▸ hw.open_cnt i (hopen ▸ hi)
  deny_write_cnt := fun i hi => (hdenials _).symm ▸ hw.deny_write_cnt i (hopen ▸ hi)
  targets := fun h hh => by
    obtain ⟨h₀, hh₀, he⟩ := htargets h hh
    rw [hopen, he]
    exact hw.targets h₀ hh₀

theorem TableInv.of_remove (hw : TableInv w) (a : Nat)
    (hopen : w'.fs.open_inodes = w.fs.open_inodes.filter (fun i => i.addr != a))
    (hcalls : w.fs.heap.calls ≤ w'.fs.heap.calls)
    (hopens : ∀ b, b ≠ a → w'.opens b = w.opens b) (hdenials : ∀ b, b ≠ a → w'.denials b = w.denials b)
    (hgone : w'.opens a = 0) (htargets : ∀ h ∈ w'.live, h ∈ w.live) : TableInv w' := by
  have hmem : ∀ i ∈ w'.fs.open_inodes, i ∈ w.fs.open_inodes ∧ i.addr ≠ a := fun i hi => by
    rw [hopen, List.mem_filter] at hi
    exact ⟨hi.1, by simpa using hi.2⟩
  refine ⟨?_, ?_, fun i hi => ?_, fun i hi => hw.kept i (hmem i hi).1, fun i hi => ?_, fun i hi => ?_,
    fun h hh => ?_⟩
  · rw [hopen]
    exact KeyedList.nodup_filter_map hw.addrs_nodup
  · rw [hopen]
    exact KeyedList.nodup_filter_map hw.sectors_nodup
  · exact Nat.lt_of_lt_of_le (hw.fresh i (hmem i hi).1) hcalls
  · rw [hopens _ (hmem i hi).2]
    exact hw.open_cnt i (hmem i hi).1
  · rw [hdenials _ (hmem i hi).2]
    exact hw.deny_write_cnt i (hmem i hi).1
  · have hne : h.target ≠ a := fun he => by
      have hpos : 0 < w'.opens a := List.countP_pos_iff.mpr ⟨h, hh, by simp [he]⟩
      omega
    obtain ⟨i, hi, hia⟩ := hw.targets h (htargets h hh)
    refine ⟨i, ?_, hia⟩
    rw [hopen, List.mem_filter]
    exact ⟨hi, by simpa [hia] using hne⟩

theorem TableInv.of_insert (hw : TableInv w) (i : Inode) (hopen : w'.fs.open_inodes = i :: w.fs.open_inodes)
    (hfresh : i.addr = w.fs.heap.calls) (hcalls : w.fs.heap.calls < w'.fs.heap.calls)
    (hsector : ∀ j ∈ w.fs.open_inodes, j.sector ≠ i.sector) (hrem : i.removed = false)
    (hopens : ∀ b, b ≠ i.addr → w'.opens b = w.opens b) (hdenials : ∀ b, b ≠ i.addr → w'.denials b = w.denials b)
    (hcnt : i.open_cnt = 1) (hcnt' : w'.opens i.addr = w.opens i.addr + 1)
    (hdeny : i.deny_write_cnt = 0) (hdeny' : w'.denials i.addr = w.denials i.addr)
    (htargets : ∀ h ∈ w'.live, h ∈ w.live ∨ h.target = i.addr) : TableInv w' := by
  have hnone : w.opens i.addr = 0 := List.countP_eq_zero.mpr fun h hh he => by
    obtain ⟨j, hj, hja⟩ := hw.targets h hh
    have := hw.fresh j hj
    simp only [beq_iff_eq] at he
    omega
  have hnone' : w.denials i.addr = 0 := by
    have := w.denials_le_opens i.addr
    omega
  have hold : ∀ j ∈ w.fs.open_inodes, j.addr ≠ i.addr := fun j hj he => by
    have := hw.fresh j hj
    omega
  refine ⟨?_, ?_, fun j hj => ?_, fun j hj => ?_, fun j hj => ?_, fun j hj => ?_, fun h hh => ?_⟩
  · rw [hopen, List.map_cons, List.nodup_cons]
    exact ⟨fun hm => by obtain ⟨j, hj, he⟩ := List.mem_map.mp hm; exact hold j hj he, hw.addrs_nodup⟩
  · rw [hopen, List.map_cons, List.nodup_cons]
    exact ⟨fun hm => by obtain ⟨j, hj, he⟩ := List.mem_map.mp hm; exact hsector j hj he, hw.sectors_nodup⟩
  · rw [hopen] at hj
    rcases List.mem_cons.mp hj with rfl | hj
    · omega
    · exact Nat.lt_trans (hw.fresh j hj) hcalls
  · rw [hopen] at hj
    rcases List.mem_cons.mp hj with rfl | hj
    · exact hrem
    · exact hw.kept j hj
  · rw [hopen] at hj
    rcases List.mem_cons.mp hj with rfl | hj
    · omega
    · rw [hopens _ (hold j hj)]
      exact hw.open_cnt j hj
  · rw [hopen] at hj
    rcases List.mem_cons.mp hj with rfl | hj
    · omega
    · rw [hdenials _ (hold j hj)]
      exact hw.deny_write_cnt j hj
  · rw [hopen]
    rcases htargets h hh with hh | he
    · obtain ⟨j, hj, hja⟩ := hw.targets h hh
      exact ⟨j, List.mem_cons_of_mem i hj, hja⟩
    · exact ⟨i, List.mem_cons_self, he.symm⟩

end Keep

/-! ## Each call keeps the invariant -/

section Calls

variable {w : World}

theorem TableInv.malloc (hw : TableInv w) (heap : Heap) (hc : w.fs.heap.calls ≤ heap.calls) :
    TableInv ⟨{ w.fs with heap }, w.handles⟩ :=
  hw.of_same rfl hc (fun _ => rfl) (fun _ => rfl) (fun h hh => ⟨h, hh, rfl⟩)

theorem TableInv.reopen (hw : TableInv w) {i : Inode} (hi : i ∈ w.fs.open_inodes) :
    TableInv ⟨(inode_reopen w.fs (some i.addr)).1, w.handles ++ [.inode i.addr]⟩ := by
  have ho := World.opens_append w (inode_reopen w.fs (some i.addr)).1 rfl (.inode i.addr)
  have hd := World.denials_append w (inode_reopen w.fs (some i.addr)).1 rfl (.inode i.addr)
  refine hw.of_update i.addr (fun j => { j with open_cnt := j.open_cnt + 1 }) rfl (le_refl _)
    (fun _ => rfl) (fun _ => rfl) (fun _ => rfl) (fun b hb => ?_) (fun b _ => ?_) (fun j hj hja => ⟨?_, ?_⟩)
    (fun h hh => (World.mem_live_append w _ rfl hh).imp id (fun he => by rw [he]; rfl)) ⟨i, hi, rfl⟩
  · simp [ho, Ne.symm hb]
  · simp [hd]
  · show j.open_cnt + 1 = _
    rw [hw.open_cnt j hj, hja]
    simp [ho]
  · show j.deny_write_cnt = _
    rw [hw.deny_write_cnt j hj, hja]
    simp [hd]

/-- `inode_close` on the target of handle `k`, which denies nothing, the handle going: it
returns, and drops the inode from the table when the handle was the last on it. -/
theorem TableInv.close (hw : TableInv w) {k : Nat} {h : Handle} (hk : w.handles[k]? = some h)
    (hnd : ∀ b, h.denies b = false) :
    ∃ fs, inode_close w.fs (some h.target) = some fs ∧ fs.free_map_file = w.fs.free_map_file ∧
      fs.heap = w.fs.heap ∧ TableInv ⟨fs, w.handles.eraseIdx k⟩ := by
  obtain ⟨i, hi, hia⟩ := hw.targets h (World.mem_live_of_handle hk)
  have hfound : w.fs.inode_at h.target = some i := (FsState.inode_at_eq_some_iff hw.addrs_nodup).mpr ⟨hi, hia⟩
  have hpos : 0 < w.opens h.target := List.countP_pos_iff.mpr ⟨h, World.mem_live_of_handle hk, by simp⟩
  have hcnt := hw.open_cnt i hi
  have hdeny := hw.deny_write_cnt i hi
  rw [hia] at hcnt hdeny
  have ho : ∀ fs : FsState, fs.free_map_file = w.fs.free_map_file → ∀ b,
      (⟨fs, w.handles.eraseIdx k⟩ : World).opens b + (if h.target = b then 1 else 0) = w.opens b :=
    fun fs hf b => World.opens_eraseIdx w fs hf hk b
  have hd : ∀ fs : FsState, fs.free_map_file = w.fs.free_map_file → ∀ b,
      (⟨fs, w.handles.eraseIdx k⟩ : World).denials b = w.denials b :=
    fun fs hf b => by simpa [hnd b] using World.denials_eraseIdx w fs hf hk b
  by_cases hone : i.open_cnt = 1
  · let fs : FsState := { w.fs with open_inodes := w.fs.open_inodes.filter (fun i => i.addr != h.target) }
    refine ⟨fs, inode_close_last hfound hone (hw.kept i hi), rfl, rfl, ?_⟩
    refine hw.of_remove h.target rfl (le_refl _) (fun b hb => ?_) (fun b _ => hd fs rfl b) ?_
      (fun x hx => World.mem_live_eraseIdx w fs rfl hx)
    · have := ho fs rfl b
      rw [if_neg (Ne.symm hb)] at this
      exact this
    · have := ho fs rfl h.target
      rw [if_pos rfl] at this
      omega
  · let fs : FsState := w.fs.map_inode h.target (fun j => { j with open_cnt := j.open_cnt - 1 })
    refine ⟨fs, inode_close_shared hfound hone, rfl, rfl, ?_⟩
    refine hw.of_update h.target (fun j => { j with open_cnt := j.open_cnt - 1 }) rfl (le_refl _)
      (fun _ => rfl) (fun _ => rfl) (fun _ => rfl) (fun b hb => ?_) (fun b _ => hd fs rfl b)
      (fun j hj hja => ⟨?_, ?_⟩) (fun x hx => Or.inl (World.mem_live_eraseIdx w fs rfl hx)) ⟨i, hi, hia⟩
    · have := ho fs rfl b
      rw [if_neg (Ne.symm hb)] at this
      exact this
    · have := ho fs rfl h.target
      rw [if_pos rfl] at this
      have hj' := hw.open_cnt j hj
      rw [hja] at hj'
      show j.open_cnt - 1 = _
      omega
    · show j.deny_write_cnt = _
      rw [hd fs rfl, ← hja]
      exact hw.deny_write_cnt j hj

/-- Handle `k` passed on as a handle on the same inode that denies the same writes, as
`file_open` and `dir_open` do with the reference they take. -/
theorem TableInv.pass (hw : TableInv w) {k : Nat} {h : Handle} (hk : w.handles[k]? = some h) (h' : Handle)
    (ht : h'.target = h.target) (hd : ∀ b, h'.denies b = h.denies b) (fs : FsState)
    (hopen : fs.open_inodes = w.fs.open_inodes) (hcalls : w.fs.heap.calls ≤ fs.heap.calls)
    (hf : fs.free_map_file = w.fs.free_map_file) : TableInv ⟨fs, w.handles.set k h'⟩ := by
  refine hw.of_same hopen hcalls (fun b => ?_) (fun b => ?_) (fun x hx => ?_)
  · have := World.countP_set w fs hf hk h' (fun x => x.target == b)
    rw [ht] at this
    simp only [World.opens]
    omega
  · have := World.countP_set w fs hf hk h' (Handle.denies b)
    rw [hd] at this
    simp only [World.denials]
    omega
  · rcases World.mem_live_set w fs hf hx with hx | rfl
    · exact ⟨x, hx, rfl⟩
    · exact ⟨h, World.mem_live_of_handle hk, ht⟩

theorem TableInv.deny (hw : TableInv w) {k : Nat} {f : File} (hk : w.handles[k]? = some (.file f))
    (hf : f.deny_write = false) :
    ∃ fs, inode_deny_write w.fs f.inode = some fs ∧ fs.free_map_file = w.fs.free_map_file ∧
      fs.heap = w.fs.heap ∧ TableInv ⟨fs, w.handles.set k (.file { f with deny_write := true })⟩ := by
  obtain ⟨i, hi, hia⟩ := hw.targets _ (World.mem_live_of_handle hk)
  have hfound : w.fs.inode_at f.inode = some i := (FsState.inode_at_eq_some_iff hw.addrs_nodup).mpr ⟨hi, hia⟩
  have hlt : w.denials f.inode + 1 ≤ w.opens f.inode :=
    KeyedList.countP_add_one_le (fun x _ hx => by simp [Handle.target_of_denies hx])
      (World.mem_live_of_handle hk) (by simp [Handle.target]) (by simp [Handle.denies, hf])
  have hle : i.deny_write_cnt + 1 ≤ i.open_cnt := by
    rw [hw.open_cnt i hi, hw.deny_write_cnt i hi, hia]
    exact hlt
  let fs : FsState := w.fs.map_inode f.inode (fun j => { j with deny_write_cnt := j.deny_write_cnt + 1 })
  refine ⟨fs, inode_deny_write_some hfound hle, rfl, rfl, ?_⟩
  have ho := World.opens_set w fs rfl hk (.file { f with deny_write := true }) rfl
  have hd := World.denials_set w fs rfl hk (.file { f with deny_write := true })
  refine hw.of_update f.inode (fun j => { j with deny_write_cnt := j.deny_write_cnt + 1 }) rfl (le_refl _)
    (fun _ => rfl) (fun _ => rfl) (fun _ => rfl) (fun b _ => ho b) (fun b hb => ?_) (fun j hj hja => ⟨?_, ?_⟩)
    (fun x hx => (World.mem_live_set w fs rfl hx).imp id (fun he => by rw [he]; rfl)) ⟨i, hi, hia⟩
  · have := hd b
    simp only [Handle.denies_file, hf, Bool.false_and, Bool.true_and, beq_iff_eq, Ne.symm hb] at this
    simpa using this
  · show j.open_cnt = _
    rw [hw.open_cnt j hj, hja, ho]
  · show j.deny_write_cnt + 1 = _
    rw [hw.deny_write_cnt j hj, hja]
    have := hd f.inode
    simp only [Handle.denies_file, hf, Bool.false_and, Bool.true_and, beq_self_eq_true] at this
    simpa using this.symm

theorem TableInv.allow (hw : TableInv w) {k : Nat} {f : File} (hk : w.handles[k]? = some (.file f))
    (hf : f.deny_write = true) :
    ∃ fs, inode_allow_write w.fs f.inode = some fs ∧ fs.free_map_file = w.fs.free_map_file ∧
      fs.heap = w.fs.heap ∧ TableInv ⟨fs, w.handles.set k (.file { f with deny_write := false })⟩ := by
  obtain ⟨i, hi, hia⟩ := hw.targets _ (World.mem_live_of_handle hk)
  have hfound : w.fs.inode_at f.inode = some i := (FsState.inode_at_eq_some_iff hw.addrs_nodup).mpr ⟨hi, hia⟩
  have hpos : 0 < i.deny_write_cnt := by
    rw [hw.deny_write_cnt i hi, hia]
    exact List.countP_pos_iff.mpr ⟨_, World.mem_live_of_handle hk, by simp [Handle.denies, hf]⟩
  have hle : i.deny_write_cnt ≤ i.open_cnt := by
    rw [hw.open_cnt i hi, hw.deny_write_cnt i hi]
    exact World.denials_le_opens w _
  let fs : FsState := w.fs.map_inode f.inode (fun j => { j with deny_write_cnt := j.deny_write_cnt - 1 })
  refine ⟨fs, inode_allow_write_some hfound hpos hle, rfl, rfl, ?_⟩
  have ho := World.opens_set w fs rfl hk (.file { f with deny_write := false }) rfl
  have hd := World.denials_set w fs rfl hk (.file { f with deny_write := false })
  refine hw.of_update f.inode (fun j => { j with deny_write_cnt := j.deny_write_cnt - 1 }) rfl (le_refl _)
    (fun _ => rfl) (fun _ => rfl) (fun _ => rfl) (fun b _ => ho b) (fun b hb => ?_) (fun j hj hja => ⟨?_, ?_⟩)
    (fun x hx => (World.mem_live_set w fs rfl hx).imp id (fun he => by rw [he]; rfl)) ⟨i, hi, hia⟩
  · have := hd b
    simp only [Handle.denies_file, hf, Bool.false_and, Bool.true_and, beq_iff_eq, Ne.symm hb] at this
    simpa using this
  · show j.open_cnt = _
    rw [hw.open_cnt j hj, hja, ho]
  · show j.deny_write_cnt - 1 = _
    rw [hw.deny_write_cnt j hj, hja]
    have := hd f.inode
    simp only [Handle.denies_file, hf, Bool.false_and, Bool.true_and, beq_self_eq_true] at this
    simp at this
    omega

end Calls

/-! ## Every call on a held handle returns and keeps the invariant -/

section Steps

variable {w : World}

theorem step_inode_open (hw : TableInv w) (sector : Nat) :
    ∃ w', step w (.inode_open sector) = some w' ∧ TableInv w' := by
  cases hfind : w.fs.open_inodes.find? (fun inode => inode.sector == sector) with
  | some i =>
    refine ⟨_, ?_, hw.reopen (List.mem_of_find?_eq_some hfind)⟩
    simp only [step, inode_open_found hfind]
    rfl
  | none =>
    have hsector : ∀ j ∈ w.fs.open_inodes, j.sector ≠ sector := fun j hj he => by
      have := List.find?_eq_none.mp hfind j hj
      simp [he] at this
    cases hok : w.fs.heap.ok w.fs.heap.calls with
    | false =>
      refine ⟨⟨{ w.fs with heap := { w.fs.heap with calls := w.fs.heap.calls + 1 } }, w.handles⟩, ?_,
        hw.malloc _ (Nat.le_succ _)⟩
      simp [step, inode_open_fail hfind hok]
    | true =>
      let i : Inode :=
        { addr := w.fs.heap.calls, sector, open_cnt := 1, removed := false, deny_write_cnt := 0,
          data := InodeDisk.decode (w.fs.disk sector) }
      let fs : FsState :=
        { w.fs with heap := { w.fs.heap with calls := w.fs.heap.calls + 1 }, open_inodes := i :: w.fs.open_inodes }
      have ho := World.opens_append w fs rfl (.inode i.addr)
      have hd := World.denials_append w fs rfl (.inode i.addr)
      refine ⟨⟨fs, w.handles ++ [.inode i.addr]⟩, ?_, ?_⟩
      · simp only [step, inode_open_new hfind hok]
        rfl
      · refine hw.of_insert i rfl rfl (Nat.lt_succ_self _) hsector rfl (fun b hb => ?_) (fun b _ => ?_) rfl ?_ rfl ?_
          (fun h hh => (World.mem_live_append w fs rfl hh).imp id (fun he => by rw [he]; rfl))
        · simp [ho, Ne.symm hb]
        · simp [hd]
        · simp [ho]
        · simp [hd]

theorem step_inode_reopen (hw : TableInv w) {k a : Nat} (hk : w.handles[k]? = some (.inode a)) :
    ∃ w', step w (.inode_reopen k) = some w' ∧ TableInv w' := by
  obtain ⟨i, hi, hia⟩ := hw.targets _ (World.mem_live_of_handle hk)
  simp only [Handle.target_inode] at hia
  subst hia
  exact ⟨_, by simp only [step, hk]; rfl, hw.reopen hi⟩

theorem step_inode_close (hw : TableInv w) {k a : Nat} (hk : w.handles[k]? = some (.inode a)) :
    ∃ w', step w (.inode_close k) = some w' ∧ TableInv w' := by
  obtain ⟨fs, hc, -, -, hinv⟩ := hw.close hk (fun _ => rfl)
  have hc' : inode_close w.fs (some a) = some fs := hc
  exact ⟨_, by simp only [step, hk, hc']; rfl, hinv⟩

/-- `file_open` and `dir_open` on a held reference: the new handle takes its place, or, when
`calloc` fails, the reference is closed. -/
theorem TableInv.open_handle {H : Type} (mk : Nat → H) (wrap : H → Handle) (hwrap : ∀ a, (wrap (mk a)).target = a)
    (hwd : ∀ a b, (wrap (mk a)).denies b = false) (hw : TableInv w) {k a : Nat}
    (hk : w.handles[k]? = some (.inode a)) :
    ∃ r, open_handle mk w.fs (some a) = some r ∧ TableInv ⟨r.1, hand_over w.handles k (r.2.map wrap)⟩ := by
  cases hok : w.fs.heap.ok w.fs.heap.calls with
  | true =>
    refine ⟨_, open_handle_ok mk w.fs a hok, ?_⟩
    exact hw.pass hk (wrap (mk a)) (hwrap a) (fun b => by simp [hwd]) _ rfl (Nat.le_succ _) rfl
  | false =>
    have hw₁ := hw.malloc { w.fs.heap with calls := w.fs.heap.calls + 1 } (Nat.le_succ _)
    obtain ⟨fs, hc, -, -, hinv⟩ := hw₁.close hk (fun _ => rfl)
    have hc' : inode_close { w.fs with heap := { w.fs.heap with calls := w.fs.heap.calls + 1 } } (some a) =
        some fs := hc
    exact ⟨(fs, none), by rw [open_handle_fail mk w.fs a hok, hc']; rfl, hinv⟩

theorem hand_over_last (handles : List Handle) (x : Handle) (h : Option Handle) :
    hand_over (handles ++ [x]) handles.length h = handles ++ h.toList := by
  cases h with
  | some h => simp [hand_over]
  | none => simp [hand_over, List.eraseIdx_append_of_length_le (le_refl _)]

theorem step_file_open (hw : TableInv w) {k a : Nat} (hk : w.handles[k]? = some (.inode a)) :
    ∃ w', step w (.file_open k) = some w' ∧ TableInv w' := by
  obtain ⟨r, hr, hinv⟩ := hw.open_handle (fun inode => ({ inode, pos := 0, deny_write := false } : File))
    Handle.file (fun _ => rfl) (fun _ _ => by simp) hk
  exact ⟨_, by simp only [step, hk, file_open, hr]; rfl, hinv⟩

theorem step_dir_open (hw : TableInv w) {k a : Nat} (hk : w.handles[k]? = some (.inode a)) :
    ∃ w', step w (.dir_open k) = some w' ∧ TableInv w' := by
  obtain ⟨r, hr, hinv⟩ := hw.open_handle (fun inode => ({ inode, pos := 0 } : Dir))
    Handle.dir (fun _ => rfl) (fun _ _ => rfl) hk
  exact ⟨_, by simp only [step, hk, dir_open, hr]; rfl, hinv⟩

theorem step_file_reopen (hw : TableInv w) {k : Nat} {f : File} (hk : w.handles[k]? = some (.file f)) :
    ∃ w', step w (.file_reopen k) = some w' ∧ TableInv w' := by
  obtain ⟨i, hi, hia⟩ := hw.targets _ (World.mem_live_of_handle hk)
  have hw₁ := hw.reopen hi
  have hk₁ : (w.handles ++ [Handle.inode i.addr])[w.handles.length]? = some (.inode i.addr) := by simp
  obtain ⟨r, hr, hinv⟩ := hw₁.open_handle (fun inode => ({ inode, pos := 0, deny_write := false } : File))
    Handle.file (fun _ => rfl) (fun _ _ => by simp) hk₁
  rw [hand_over_last] at hinv
  have hre : file_reopen w.fs f =
      open_handle (fun inode => ({ inode, pos := 0, deny_write := false } : File))
        (inode_reopen w.fs (some i.addr)).1 (some i.addr) := by
    rw [hia]
    rfl
  exact ⟨_, by simp only [step, hk, hre, hr]; rfl, hinv⟩

theorem step_file_close (hw : TableInv w) {k : Nat} {f : File} (hk : w.handles[k]? = some (.file f)) :
    ∃ w', step w (.file_close k) = some w' ∧ TableInv w' := by
  cases hd : f.deny_write with
  | false =>
    obtain ⟨fs, hc, -, -, hinv⟩ := hw.close hk (fun b => by simp [hd])
    have hc' : inode_close w.fs (some f.inode) = some fs := hc
    refine ⟨_, ?_, hinv⟩
    simp only [step, hk, file_close, file_allow_write, hd, Bool.false_eq_true, if_false, hc']
    rfl
  | true =>
    obtain ⟨fs₁, ha, -, -, hw₁⟩ := hw.allow hk hd
    have hlen : k < w.handles.length := (List.getElem?_eq_some_iff.mp hk).1
    have hk₁ : (w.handles.set k (.file { f with deny_write := false }))[k]? =
        some (.file { f with deny_write := false }) := by
      simp [List.getElem?_set_self hlen]
    obtain ⟨fs, hc, -, -, hinv⟩ := hw₁.close hk₁ (fun b => by simp)
    have hc' : inode_close fs₁ (some f.inode) = some fs := hc
    rw [List.eraseIdx_set_eq] at hinv
    refine ⟨_, ?_, hinv⟩
    simp only [step, hk, file_close, file_allow_write, hd, if_true, ha, Option.map_some, hc']

theorem step_file_deny_write (hw : TableInv w) {k : Nat} {f : File} (hk : w.handles[k]? = some (.file f)) :
    ∃ w', step w (.file_deny_write k) = some w' ∧ TableInv w' := by
  cases hd : f.deny_write with
  | false =>
    obtain ⟨fs, hden, -, -, hinv⟩ := hw.deny hk hd
    refine ⟨_, ?_, hinv⟩
    simp only [step, hk, file_deny_write, hd, Bool.not_false, if_true, hden]
    rfl
  | true =>
    -- a second denial by the same file is not counted again
    refine ⟨_, ?_, hw.pass hk (.file f) rfl (fun _ => rfl) w.fs rfl (le_refl _) rfl⟩
    simp only [step, hk, file_deny_write, hd, Bool.not_true, Bool.false_eq_true, if_false]
    rfl

theorem step_file_allow_write (hw : TableInv w) {k : Nat} {f : File} (hk : w.handles[k]? = some (.file f)) :
    ∃ w', step w (.file_allow_write k) = some w' ∧ TableInv w' := by
  cases hd : f.deny_write with
  | false =>
    refine ⟨_, ?_, hw.pass hk (.file f) rfl (fun _ => rfl) w.fs rfl (le_refl _) rfl⟩
    simp only [step, hk, file_allow_write, hd, Bool.false_eq_true, if_false]
    rfl
  | true =>
    obtain ⟨fs, hal, -, -, hinv⟩ := hw.allow hk hd
    refine ⟨_, ?_, hinv⟩
    simp only [step, hk, file_allow_write, hd, if_true, hal]
    rfl

theorem step_dir_close (hw : TableInv w) {k : Nat} {d : Dir} (hk : w.handles[k]? = some (.dir d)) :
    ∃ w', step w (.dir_close k) = some w' ∧ TableInv w' := by
  obtain ⟨fs, hc, -, -, hinv⟩ := hw.close hk (fun _ => rfl)
  have hc' : inode_close w.fs (some d.inode) = some fs := hc
  exact ⟨_, by simp only [step, hk, dir_close, hc']; rfl, hinv⟩

theorem step_spec (hw : TableInv w) (a : Act) (ha : a.holds w) : ∃ w', step w a = some w' ∧ TableInv w' := by
  cases a with
  | inode_open sector => exact step_inode_open hw sector
  | inode_reopen k => obtain ⟨_, hk⟩ := ha; exact step_inode_reopen hw hk
  | inode_close k => obtain ⟨_, hk⟩ := ha; exact step_inode_close hw hk
  | file_open k => obtain ⟨_, hk⟩ := ha; exact step_file_open hw hk
  | file_reopen k => obtain ⟨_, hk⟩ := ha; exact step_file_reopen hw hk
  | file_close k => obtain ⟨_, hk⟩ := ha; exact step_file_close hw hk
  | file_deny_write k => obtain ⟨_, hk⟩ := ha; exact step_file_deny_write hw hk
  | file_allow_write k => obtain ⟨_, hk⟩ := ha; exact step_file_allow_write hw hk
  | dir_open k => obtain ⟨_, hk⟩ := ha; exact step_dir_open hw hk
  | dir_close k => obtain ⟨_, hk⟩ := ha; exact step_dir_close hw hk

theorem Act.holds_of_step {a : Act} {w' : World} (h : step w a = some w') : a.holds w := by
  cases a with
  | inode_open => trivial
  | inode_reopen k | inode_close k | file_open k | dir_open k =>
    simp only [step] at h
    split at h <;> simp_all [Act.holds]
  | file_reopen k | file_close k | file_deny_write k | file_allow_write k =>
    simp only [step] at h
    split at h <;> simp_all [Act.holds]
  | dir_close k =>
    simp only [step] at h
    split at h <;> simp_all [Act.holds]

theorem step_inv (hw : TableInv w) {a : Act} {w' : World} (h : step w a = some w') : TableInv w' := by
  obtain ⟨w'', h', hinv⟩ := step_spec hw a (Act.holds_of_step h)
  rw [h] at h'
  cases h'
  exact hinv

theorem run_inv (hw : TableInv w) {acts : List Act} {w' : World} (h : run w acts = some w') : TableInv w' := by
  induction acts generalizing w with
  | nil =>
    cases h
    exact hw
  | cons a acts ih =>
    simp only [run] at h
    obtain ⟨w₁, h₁, hrest⟩ := Option.bind_eq_some_iff.mp h
    exact ih (step_inv hw h₁) hrest

theorem TableInv.empty (fs : FsState) (hopen : fs.open_inodes = []) (hfile : fs.free_map_file = none) :
    TableInv ⟨fs, []⟩ where
  addrs_nodup := by simp [hopen]
  sectors_nodup := by simp [hopen]
  fresh := by simp [hopen]
  kept := by simp [hopen]
  open_cnt := by simp [hopen]
  deny_write_cnt := by simp [hopen]
  targets := by simp [World.live, hfile]

end Steps

/-! ## Whole runs -/

theorem TableInv.deny_pos_iff {w : World} (hw : TableInv w) {i : Inode} (hi : i ∈ w.fs.open_inodes) :
    0 < i.deny_write_cnt ↔ ∃ h ∈ w.live, h.denies i.addr = true := by
  rw [hw.deny_write_cnt i hi]
  exact List.countP_pos_iff

theorem open_inode_table_invariant (w w' : World) (acts : List Act) (hw : TableInv w)
    (hrun : run w acts = some w') :
    TableInv w' ∧ (∀ a, a.holds w' → ∃ w'', step w' a = some w'') ∧
      ∀ i ∈ w'.fs.open_inodes, i.deny_write_cnt ≤ i.open_cnt ∧
        (0 < i.deny_write_cnt ↔ ∃ h ∈ w'.live, h.denies i.addr = true) ∧
        ∀ heap disk buffer size offset, 0 < i.deny_write_cnt →
          inode_write_at heap disk i buffer size offset = some (heap, disk, 0) := by
  have hw' := run_inv hw hrun
  refine ⟨hw', fun a ha => (step_spec hw' a ha).imp fun _ h => h.1, fun i hi => ⟨?_, hw'.deny_pos_iff hi, ?_⟩⟩
  · rw [hw'.open_cnt i hi, hw'.deny_write_cnt i hi]
    exact w'.denials_le_opens _
  · intro heap disk buffer size offset hpos
    exact inode_write_at_denied heap disk i buffer size offset (Nat.pos_iff_ne_zero.mp hpos)

/-- The root directory's inode opened and a file made on it, then the file denying writes
and reopened, from a device with nothing open. -/
def deny_reopen_world : World :=
  ⟨{ sample_fs with
      heap := { sample_fs.heap with calls := 3 }
      open_inodes :=
        [{ addr := 0, sector := ROOT_DIR_SECTOR, open_cnt := 2, removed := false, deny_write_cnt := 1,
           data := InodeDisk.decode (sample_fs.disk ROOT_DIR_SECTOR) }] },
    [.file { inode := 0, pos := 0, deny_write := true }, .file { inode := 0, pos := 0, deny_write := false }]⟩

theorem open_inode_table_invariant_sample :
    TableInv ⟨sample_fs, []⟩ ∧
      run ⟨sample_fs, []⟩ [.inode_open ROOT_DIR_SECTOR, .file_open 0, .file_deny_write 0, .file_reopen 0] =
        some deny_reopen_world ∧
      TableInv deny_reopen_world ∧ (∀ a, a.holds deny_reopen_world → ∃ w'', step deny_reopen_world a = some w'') ∧
      ∀ i ∈ deny_reopen_world.fs.open_inodes, i.deny_write_cnt ≤ i.open_cnt ∧
        (0 < i.deny_write_cnt ↔ ∃ h ∈ deny_reopen_world.live, h.denies i.addr = true) ∧
        ∀ heap disk buffer size offset, 0 < i.deny_write_cnt →
          inode_write_at heap disk i buffer size offset = some (heap, disk, 0) :=
  have h0 : TableInv ⟨sample_fs, []⟩ := TableInv.empty sample_fs rfl rfl
  have hrun : run ⟨sample_fs, []⟩ [.inode_open ROOT_DIR_SECTOR, .file_open 0, .file_deny_write 0, .file_reopen 0] =
      some deny_reopen_world := rfl
  ⟨h0, hrun, open_inode_table_invariant _ _ _ h0 hrun⟩

/-- The root directory's inode opened and a file made on it; nothing denies writes. -/
def opened_world : World :=
  ⟨{ sample_fs with
      heap := { sample_fs.heap with calls := 2 }
      open_inodes :=
        [{ addr := 0, sector := ROOT_DIR_SECTOR, open_cnt := 1, removed := false, deny_write_cnt := 0,
           data := InodeDisk.decode (sample_fs.disk ROOT_DIR_SECTOR) }] },
    [.file { inode := 0, pos := 0, deny_write := false }]⟩

theorem inode_write_at_zero_without_denial :
    run ⟨sample_fs, []⟩ [.inode_open ROOT_DIR_SECTOR, .file_open 0] = some opened_world ∧
      (∀ h ∈ opened_world.live, ∀ i ∈ opened_world.fs.open_inodes, h.denies i.addr = false) ∧
      ∃ i ∈ opened_world.fs.open_inodes,
        inode_write_at opened_world.fs.heap opened_world.fs.disk i (fun _ => 0) 0 0 =
          some (opened_world.fs.heap, opened_world.fs.disk, 0) := by
  refine ⟨rfl, by decide, _, List.mem_cons_self, ?_⟩
  rw [inode_write_at, write_loop]
  rfl

end Pintos
