import Pintos.Filesys.InodeOpen

/-! # What closing an inode writes

`inode_close` writes the disk only through `free_map_release`, which writes the whole map back
through the free-map file.  While that file keeps away from a set of sectors `P` (its inode
well laid out and none of its sectors in `P`), every release, and so every close, leaves the
sectors of `P` as they were.
-/

namespace Pintos
set_option autoImplicit false
set_option maxHeartbeats 250000
set_option maxRecDepth 120000

/-- The open free-map file is laid out well and has no sector in `P`. -/
def MapApart (s : FsState) (P : Nat → Prop) : Prop :=
  ∀ file mi, s.free_map_file = some file → s.inode_at file.inode = some mi →
    LayoutOk s.disk mi ∧ ∀ x, layout_sector s.disk mi x → ¬ P x

/-! ## Inodes that agree on their `inode_disk` -/

section SameData

variable {i i' : Inode} (h : i'.data = i.data) (d : Disk)
include h

theorem LayoutOk.of_data (hl : LayoutOk d i) : LayoutOk d i' := by
  obtain ⟨⟩ := i
  obtain ⟨⟩ := i'
  subst h
  exact ⟨hl.distinct, hl.not_index⟩

theorem layout_sector_of_data (x : Nat) : layout_sector d i' x ↔ layout_sector d i x := by
  obtain ⟨⟩ := i
  obtain ⟨⟩ := i'
  subst h
  exact Iff.rfl

end SameData

theorem inode_at_map_inode (s : FsState) (a b : Nat) (f : Inode → Inode) (hf : ∀ i, (f i).addr = i.addr) :
    (s.map_inode a f).inode_at b = (s.inode_at b).map (fun i => if i.addr = a then f i else i) := by
  unfold FsState.inode_at FsState.map_inode
  rw [List.find?_map]
  congr 2
  funext i
  by_cases hi : i.addr = a <;> simp [hi, hf]

theorem inode_at_filter (s : FsState) (a b : Nat) :
    ({ s with open_inodes := s.open_inodes.filter (fun i => i.addr != a) } : FsState).inode_at b =
      if b = a then none else s.inode_at b := by
  unfold FsState.inode_at
  rw [List.find?_filter]
  by_cases hb : b = a
  · subst hb
    rw [if_pos rfl, List.find?_eq_none]
    intro i _
    by_cases hi : i.addr = b <;> simp [hi]
  · rw [if_neg hb]
    congr 1
    funext i
    by_cases hi : i.addr = b
    · simp [hi, hb]
    · simp [hi]

/-! ## Keeping away through opens and writes -/

section Apart

variable {P : Nat → Prop} {s : FsState}

theorem MapApart.map_inode (ha : MapApart s P) (a : Nat) (f : Inode → Inode) (hf : ∀ i, (f i).addr = i.addr)
    (hd : ∀ i, (f i).data = i.data) : MapApart (s.map_inode a f) P := by
  intro file mi hfile hmi
  rw [inode_at_map_inode s a file.inode f hf] at hmi
  obtain ⟨mi₀, hmi₀, rfl⟩ := Option.map_eq_some_iff.mp hmi
  obtain ⟨hl, hout⟩ := ha file mi₀ hfile hmi₀
  have hdata : (if mi₀.addr = a then f mi₀ else mi₀).data = mi₀.data := by
    split
    · exact hd mi₀
    · rfl
  exact ⟨LayoutOk.of_data hdata _ hl, fun x hx => hout x ((layout_sector_of_data hdata _ x).mp hx)⟩

theorem MapApart.write (ha : MapApart s P) {inode : Inode} (hP : ∀ y, layout_sector s.disk inode y → P y)
    {heap : Heap} {d' : Disk} {buf : Buffer} {off bw n : Nat} (he : WriteEffect s.disk d' inode buf off bw n) :
    MapApart { s with heap, disk := d' } P := by
  intro file mi hfile hmi
  obtain ⟨hl, hout⟩ := ha file mi hfile hmi
  have hidx : ∀ q t : Nat, (q : Int) < mi.data.length → index_reads s.disk mi q t → d' t = s.disk t :=
    fun q t hq ht => he.frame_layout t (fun hin => hout t ⟨q, hq, Or.inr ht⟩ (hP t hin))
  exact ⟨hl.frame hidx, fun x hx => hout x ((layout_sector_frame _ _ mi x hidx).mp hx)⟩

/-- An open, with `malloc` succeeding, keeps the free-map file away when the file's inode is not
the block the open may allocate. -/
theorem MapApart.inode_open (ha : MapApart s P) (hok : s.heap.ok s.heap.calls = true)
    (hfile : ∀ file, s.free_map_file = some file → file.inode ≠ s.heap.calls) (sector : Nat) :
    MapApart (inode_open s sector).1 P := by
  cases hf : s.open_inodes.find? (fun inode => inode.sector == sector) with
  | some inode =>
    rw [inode_open_found hf]
    exact ha.map_inode _ _ (fun _ => rfl) (fun _ => rfl)
  | none =>
    rw [inode_open_new hf hok]
    intro file mi hf' hmi
    simp only [FsState.inode_at] at hmi
    rw [List.find?_cons_of_neg (by simpa using Ne.symm (hfile file hf'))] at hmi
    exact ha file mi hf' hmi

end Apart

/-! ## Releases -/

/-- What releasing sectors may do: the heap's count of calls moves, the map and the free-map
file's data change, and no sector of `P` does. -/
structure Release (P : Nat → Prop) (s s' : FsState) : Prop where
  inodes : s'.open_inodes = s.open_inodes
  file : s'.free_map_file = s.free_map_file
  heap_ok : s'.heap.ok = s.heap.ok
  frame : ∀ y, P y → s'.disk y = s.disk y
  apart : MapApart s' P

theorem Release.refl {P : Nat → Prop} {s : FsState} (h : MapApart s P) : Release P s s :=
  ⟨rfl, rfl, rfl, fun _ _ => rfl, h⟩

theorem Release.trans {P : Nat → Prop} {s₁ s₂ s₃ : FsState} (h₁ : Release P s₁ s₂) (h₂ : Release P s₂ s₃) :
    Release P s₁ s₃ :=
  ⟨h₂.inodes.trans h₁.inodes, h₂.file.trans h₁.file, h₂.heap_ok.trans h₁.heap_ok,
    fun y hy => (h₂.frame y hy).trans (h₁.frame y hy), h₂.apart⟩

/-- A write of a map through the free-map file: the heap keeps its oracle, and the disk changes
only in the data sectors of the file's inode, whose layout it keeps. -/
theorem bitmap_write_disk {s s' : FsState} {b : Bitmap} {file : File} {ok : Bool}
    (hok : s.heap.ok s.heap.calls = true) (h : bitmap_write s b file = some (s', ok)) :
    ∃ heap disk, s' = { s with heap, disk } ∧ heap.ok = s.heap.ok ∧
      (s.inode_at file.inode = none → disk = s.disk) ∧
      ∀ mi, s.inode_at file.inode = some mi → LayoutOk s.disk mi →
        LayoutOk disk mi ∧ (∀ y, ¬ layout_sector s.disk mi y → disk y = s.disk y) ∧
          ∀ x, layout_sector disk mi x ↔ layout_sector s.disk mi x := by
  simp only [bitmap_write, file_write_at] at h
  cases hmi : s.inode_at file.inode with
  | none =>
    simp only [hmi, Option.map_some, Option.some.injEq, Prod.mk.injEq] at h
    obtain ⟨rfl, -⟩ := h
    exact ⟨s.heap, s.disk, rfl, rfl, fun _ => rfl, fun mi h => by cases h⟩
  | some mi =>
    simp only [hmi, Option.map_map] at h
    obtain ⟨⟨heap, disk, n⟩, hw, hr⟩ := Option.map_eq_some_iff.mp h
    simp only [Function.comp_apply, Prod.mk.injEq] at hr
    obtain ⟨rfl, -⟩ := hr
    refine ⟨heap, disk, rfl, (inode_write_at_heap hw).1, (fun h => by cases h), fun mi' hmi' hl => ?_⟩
    cases hmi'
    by_cases hdeny : mi.deny_write_cnt = 0
    · have heff := inode_write_at_effect hl hdeny hok hw
      exact ⟨heff.layout, heff.frame_layout, fun x => layout_sector_frame _ _ mi x (heff.index_sectors hl)⟩
    · rw [inode_write_at_denied _ _ _ _ _ _ hdeny] at hw
      cases hw
      exact ⟨hl, fun _ _ => rfl, fun _ => Iff.rfl⟩

theorem free_map_release_release {P : Nat → Prop} {s s' : FsState} {x : Nat} (hok : ∀ k, s.heap.ok k = true)
    (ha : MapApart s P) (h : free_map_release s x 1 = some s') : Release P s s' := by
  unfold free_map_release at h
  split at h
  · split at h
    · cases h
    · next free_map _ =>
      cases hfile : s.free_map_file with
      | none => simp [hfile] at h
      | some file =>
        simp only [hfile] at h
        obtain ⟨⟨s₁, ok⟩, hw, rfl⟩ := Option.map_eq_some_iff.mp h
        obtain ⟨heap, disk, rfl, hheap, hnone, hsome⟩ := bitmap_write_disk (by exact hok _) hw
        have hat : ∀ b, ({ s with free_map, free_map_file := some file } : FsState).inode_at b =
            s.inode_at b := fun _ => rfl
        rw [hat] at hnone hsome
        refine ⟨rfl, hfile.symm, hheap, fun y hy => ?_, fun f mi hf hmi => ?_⟩
        · cases hmi : s.inode_at file.inode with
          | none => rw [hnone hmi]
          | some mi =>
            obtain ⟨hl, hout⟩ := ha file mi hfile hmi
            exact (hsome mi hmi hl).2.1 y (fun hl' => hout y hl' hy)
        · dsimp only at hf hmi
          cases hf
          obtain ⟨hl, hout⟩ := ha file mi hfile hmi
          obtain ⟨hl', -, hsec⟩ := hsome mi hmi hl
          exact ⟨hl', fun x hx => hout x ((hsec x).mp hx)⟩
  · cases h

section Loops

variable {P : Nat → Prop}

theorem release_direct_release (data : InodeDisk) (index : Nat) (s : FsState) (i : Nat) {s' : FsState} {i' : Nat}
    (hok : ∀ k, s.heap.ok k = true) (ha : MapApart s P) (h : release_direct data index s i = some (s', i')) :
    Release P s s' := by
  fun_induction release_direct data index s i with
  | case1 s i hc s₁ hrel ih =>
    have h₁ := free_map_release_release hok ha hrel
    exact h₁.trans (ih (by rw [h₁.heap_ok]; exact hok) h₁.apart h)
  | case2 => cases h
  | case3 s i hc =>
    cases h
    exact Release.refl ha

end Loops

/-- A close keeps away from `P`: the sectors of `P` keep their contents and the free-map file
stays away from `P`.  The open list loses the inode, or its count of openers drops. -/
theorem inode_close_frame {P : Nat → Prop} {s s' : FsState} {a : Nat} (hok : ∀ k, s.heap.ok k = true)
    (ha : MapApart s P) (h : inode_close s (some a) = some s') :
    (∀ y, P y → s'.disk y = s.disk y) ∧ MapApart s' P ∧ s'.heap.ok = s.heap.ok ∧
      s'.free_map_file = s.free_map_file ∧
      (s'.open_inodes = s.open_inodes ∨ s'.open_inodes = s.open_inodes.filter (fun i => i.addr != a) ∨
        s'.open_inodes = (s.map_inode a (fun i => { i with open_cnt := i.open_cnt - 1 })).open_inodes) := by
  cases hino : s.inode_at a with
  | none =>
    simp only [inode_close, hino, Option.some.injEq] at h
    subst h
    exact ⟨fun _ _ => rfl, ha, rfl, rfl, Or.inl rfl⟩
  | some ino =>
    by_cases hcnt : ino.open_cnt = 1
    · -- the last opener: off the list, then released if removed
      have ha₀ : MapApart { s with open_inodes := s.open_inodes.filter (fun i => i.addr != a) } P := by
        intro file mi hf hmi
        rw [inode_at_filter] at hmi
        split at hmi
        · cases hmi
        · exact ha file mi hf hmi
      have hrel : Release P { s with open_inodes := s.open_inodes.filter (fun i => i.addr != a) } s' := by
        cases hrem : ino.removed with
        | false =>
          rw [inode_close_last hino hcnt hrem] at h
          cases h
          exact Release.refl ha₀
        | true =>
          simp only [inode_close, hino, if_pos hcnt, hrem, if_true] at h
          split at h
          next s₂ hreleased =>
            have h₂ : Release P { s with open_inodes := s.open_inodes.filter (fun i => i.addr != a) } s₂ := by
              split at hreleased
              next s₁ i hdirect =>
                have h₁ := release_direct_release _ _ { s with open_inodes := s.open_inodes.filter (fun i => i.addr != a) }
                  0 hok ha₀ hdirect
                split at hreleased
                · cases hreleased
                · cases hreleased
                  exact h₁
              next => cases hreleased
            exact h₂.trans (free_map_release_release (by rw [h₂.heap_ok]; exact hok) h₂.apart h)
          next => cases h
      exact ⟨hrel.frame, hrel.apart, hrel.heap_ok, hrel.file, Or.inr (Or.inl hrel.inodes)⟩
    · rw [inode_close_shared hino hcnt] at h
      cases h
      exact ⟨fun _ _ => rfl, ha.map_inode _ _ (fun _ => rfl) (fun _ => rfl), rfl, rfl, Or.inr (Or.inr rfl)⟩

/-! ## Marking an inode removed -/

theorem inode_remove_marks {s : FsState} {a sector : Nat}
    (h : ∀ z ∈ s.open_inodes, z.sector = sector → z.addr = a) :
    ∀ ino ∈ (inode_remove s a).open_inodes, ino.sector = sector → ino.removed = true := by
  rw [inode_remove, FsState.map_inode_open_inodes]
  apply KeyedList.forall_mem_update (fun ino : Inode => ino.sector = sector → ino.removed = true)
  · intro _ _ _ _
    rfl
  · intro y hy hya hys
    exact absurd (h y hy hys) hya

theorem marks_of_close {s : FsState} {l : List Inode} {a sector : Nat}
    (hm : ∀ ino ∈ s.open_inodes, ino.sector = sector → ino.removed = true)
    (hl : l = s.open_inodes ∨ l = s.open_inodes.filter (fun i => i.addr != a) ∨
      l = (s.map_inode a (fun i => { i with open_cnt := i.open_cnt - 1 })).open_inodes) :
    ∀ ino ∈ l, ino.sector = sector → ino.removed = true := by
  rcases hl with rfl | rfl | rfl
  · exact hm
  · exact fun ino hino => hm ino (List.mem_of_mem_filter hino)
  · rw [FsState.map_inode_open_inodes]
    exact KeyedList.forall_mem_update _ (fun y hy _ => hm y hy) (fun y hy _ => hm y hy)

end Pintos
