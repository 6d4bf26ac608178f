import Berk162.HwMemory.Syscall
import Berk162.Filesys.InodeData

/-!
# Transfers — moving bytes to and from the user

A transfer goes to its end if every byte that it moves can be accessed, and else the process ends
within it.  Then a lock is held, or the bounce buffer is still allocated.
-/

namespace Berk162

namespace HwMemory

open Kern

/-- The user byte at `a` can be read, or written. -/
def Can (write : Bool) (k : Kernel) (a : Nat) : Prop :=
  a % WORD < PHYS_BASE →
    if write = true then k.page (pg_no (a % WORD)) = some true else k.page (pg_no (a % WORD)) ≠ none

/-- Nothing has happened but accesses to addresses from `lo` on, of which there are at most `n`. -/
structure Accessed (k k' : Kernel) (lo n : Nat) : Prop where
  page : k'.page = k.page
  locks : k'.locks = k.locks
  console_lock_depth : k'.console_lock_depth = k.console_lock_depth
  blocks : k'.blocks = k.blocks
  fs : k'.fs = k.fs
  open_file : k'.open_file = k.open_file
  touched : ∀ a, a ∈ k'.touched → a ∈ k.touched ∨ (lo ≤ a ∧ a < lo + n)

variable {k k' : Kernel} {a b lo n m : Nat} {w : Bool}

theorem Accessed.refl (k : Kernel) (lo n : Nat) : Accessed k k lo n :=
  ⟨rfl, rfl, rfl, rfl, rfl, rfl, fun _ ha => Or.inl ha⟩

theorem Accessed.mono (h : Accessed k k' lo n) {lo' n' : Nat} (hlo : lo' ≤ lo)
    (hn : lo + n ≤ lo' + n') : Accessed k k' lo' n' :=
  { h with
    touched := fun a ha => (h.touched a ha).imp id fun hin =>
      ⟨hlo.trans hin.1, Nat.lt_of_lt_of_le hin.2 hn⟩ }

theorem Accessed.trans {k'' : Kernel} (h : Accessed k k' lo n) (h' : Accessed k' k'' lo n) :
    Accessed k k'' lo n where
  page := h'.page.trans h.page
  locks := h'.locks.trans h.locks
  console_lock_depth := h'.console_lock_depth.trans h.console_lock_depth
  blocks := h'.blocks.trans h.blocks
  fs := h'.fs.trans h.fs
  open_file := h'.open_file.trans h.open_file
  touched a ha := (h'.touched a ha).elim (h.touched a) Or.inr

theorem Can.congr (h : k'.page = k.page) : Can w k' a ↔ Can w k a := by
  rw [Can, Can, h]

/-- What follows an access: it was possible, or the process has ended. -/
def Reached (w : Bool) (k : Kernel) (lo n : Nat) (k' : Kernel) : Prop :=
  Accessed k k' lo n ∧ ∀ j, j < n → Can w k (lo + j)

def Faulted (w : Bool) (k : Kernel) (lo n : Nat) (e : Stop) (k' : Kernel) : Prop :=
  e = .exited (-1) ∧ Accessed k k' lo n ∧ ∃ j, j < n ∧ ¬ Can w k (lo + j)

theorem after_load (k : Kernel) (a : Nat) : After (load a) k
    (fun b k' => Reached false k a 1 k' ∧ b = k.memory (a % WORD) ∧ k'.memory = k.memory)
    (Faulted false k a 1) := by
  have haccessed : Accessed k { k with touched := a :: k.touched } a 1 := by
    refine ⟨rfl, rfl, rfl, rfl, rfl, rfl, fun c hc => ?_⟩
    rcases List.mem_cons.1 hc with rfl | hc
    · exact Or.inr ⟨Nat.le_refl _, Nat.lt_succ_self _⟩
    · exact Or.inl hc
  by_cases hfault : a % WORD < PHYS_BASE ∧ k.page (pg_no (a % WORD)) = none
  · have hload : load a k = .error (.exited (-1)) { k with touched := a :: k.touched } :=
      if_pos hfault
    rw [after_of_error hload]
    exact ⟨rfl, haccessed, 0, Nat.zero_lt_one, fun hcan => hcan hfault.1 hfault.2⟩
  · have hload : load a k = .ok (k.memory (a % WORD)) { k with touched := a :: k.touched } :=
      if_neg hfault
    rw [after_of_ok hload]
    refine ⟨⟨haccessed, fun j hj hlt => ?_⟩, rfl, rfl⟩
    obtain rfl := Nat.lt_one_iff.1 hj
    exact fun hnone => hfault ⟨hlt, hnone⟩

theorem after_store (k : Kernel) (a : Nat) (c : UInt8) : After (store a c) k
    (fun _ k' => Reached true k a 1 k') (Faulted true k a 1) := by
  have htouched : ∀ c, c ∈ a :: k.touched → c ∈ k.touched ∨ (a ≤ c ∧ c < a + 1) := by
    intro c hc
    rcases List.mem_cons.1 hc with rfl | hc
    · exact Or.inr ⟨Nat.le_refl _, Nat.lt_succ_self _⟩
    · exact Or.inl hc
  by_cases hfault : a % WORD < PHYS_BASE ∧ k.page (pg_no (a % WORD)) ≠ some true
  · have hstore : store a c k = .error (.exited (-1)) { k with touched := a :: k.touched } :=
      if_pos hfault
    rw [after_of_error hstore]
    exact ⟨rfl, ⟨rfl, rfl, rfl, rfl, rfl, rfl, htouched⟩, 0, Nat.zero_lt_one,
      fun hcan => hfault.2 (hcan hfault.1)⟩
  · have hstore : store a c k = .ok () { k with
        touched := a :: k.touched, memory := Function.update k.memory (a % WORD) c } :=
      if_neg hfault
    rw [after_of_ok hstore]
    refine ⟨⟨rfl, rfl, rfl, rfl, rfl, rfl, htouched⟩, fun j hj hlt => ?_⟩
    obtain rfl := Nat.lt_one_iff.1 hj
    exact not_not.1 fun hne => hfault ⟨hlt, hne⟩

/-- Accesses one after the other. -/
theorem Reached.succ {k'' : Kernel} (h : Reached w k lo 1 k') (h' : Reached w k' (lo + 1) n k'') :
    Reached w k lo (n + 1) k'' := by
  refine ⟨(h.1.mono (Nat.le_refl _) (by omega)).trans (h'.1.mono (by omega) (by omega)), ?_⟩
  intro j hj
  obtain _ | j := j
  · exact h.2 0 Nat.zero_lt_one
  · rw [Nat.add_comm j 1, ← Nat.add_assoc]
    exact (Can.congr h.1.page).1 (h'.2 j (Nat.lt_of_succ_lt_succ hj))

theorem Reached.fault_succ {k'' : Kernel} {e : Stop} (h : Reached w k lo 1 k')
    (h' : Faulted w k' (lo + 1) n e k'') : Faulted w k lo (n + 1) e k'' := by
  obtain ⟨rfl, haccessed, j, hj, hcan⟩ := h'
  refine ⟨rfl, (h.1.mono (Nat.le_refl _) (by omega)).trans (haccessed.mono (by omega) (by omega)),
    j + 1, Nat.succ_lt_succ hj, ?_⟩
  rw [Nat.add_comm j 1, ← Nat.add_assoc]
  exact fun hc => hcan ((Can.congr h.1.page).2 hc)

theorem Faulted.first {e : Stop} (h : Faulted w k lo 1 e k') : Faulted w k lo (n + 1) e k' := by
  obtain ⟨rfl, haccessed, j, hj, hcan⟩ := h
  exact ⟨rfl, haccessed.mono (Nat.le_refl _) (by omega), j, by omega, hcan⟩

theorem Reached.zero (k : Kernel) (lo : Nat) : Reached w k lo 0 k :=
  ⟨Accessed.refl k lo 0, fun _ hj => absurd hj (Nat.not_lt_zero _)⟩

theorem after_load_bytes (k : Kernel) (a n : Nat) : After (load_bytes a n) k
    (fun bs k' => Reached false k a n k' ∧ k'.memory = k.memory ∧
      bs = (List.range n).map fun j => k.memory ((a + j) % WORD))
    (Faulted false k a n) := by
  induction n generalizing k a with
  | zero =>
      exact after_pure.2 ⟨Reached.zero k a, rfl, rfl⟩
  | succ n ih =>
      refine after_bind.2 ((after_load k a).mono (fun b t hb => ?_) fun e t he => he.first)
      obtain ⟨hreached, rfl, hmem⟩ := hb
      refine after_bind.2 ((ih t (a + 1)).mono (fun bs u hbs => ?_) fun e u he =>
        hreached.fault_succ he)
      obtain ⟨hrest, hmem', rfl⟩ := hbs
      refine after_pure.2 ⟨hreached.succ hrest, hmem'.trans hmem, ?_⟩
      rw [List.range_succ_eq_map, List.map_cons, List.map_map, hmem]
      refine congrArg (List.cons _) (List.map_congr_left fun j _ => ?_)
      rw [Function.comp, Nat.succ_eq_add_one, Nat.add_comm j 1, ← Nat.add_assoc]

theorem after_store_bytes (k : Kernel) (a : Nat) (bs : Bytes) : After (store_bytes a bs) k
    (fun _ k' => Reached true k a bs.length k') (Faulted true k a bs.length) := by
  induction bs generalizing k a with
  | nil =>
      exact after_pure.2 (Reached.zero k a)
  | cons c bs ih =>
      refine after_bind.2 ((after_store k a c).mono (fun _ t ht => ?_) fun e t he => he.first)
      exact (ih t (a + 1)).mono (fun _ u hu => ht.succ hu) fun e u he => ht.fault_succ he

theorem after_put_chars (k : Kernel) (a n : Nat) : After (put_chars a n) k
    (fun _ k' => Reached false k a n k') (Faulted false k a n) := by
  induction n generalizing k a with
  | zero =>
      exact after_pure.2 (Reached.zero k a)
  | succ n ih =>
      refine after_bind.2 ((after_load k a).mono (fun _ t ht => ?_) fun e t he => he.first)
      exact (ih t (a + 1)).mono (fun _ u hu => ht.1.succ hu) fun e u he => ht.1.fault_succ he

/-! ## Sectors -/

/-- The thread has a lock, or the system call a block. -/
def Holds (k : Kernel) : Prop := k.locks ≠ [] ∨ k.blocks ≠ 0

/-- Bytes have been moved.  On the disk that changes at most the sectors in `X`. -/
structure Moved (X : Set Nat) (k k' : Kernel) (lo n : Nat) : Prop where
  page : k'.page = k.page
  console_lock_depth : k'.console_lock_depth = k.console_lock_depth
  open_file : k'.open_file = k.open_file
  open_inodes : k'.fs.open_inodes = k.fs.open_inodes
  files : k'.fs.files = k.fs.files
  free_map : k'.fs.free_map = k.fs.free_map
  free_map_file : k'.fs.free_map_file = k.fs.free_map_file
  size : k'.fs.fs_device.size = k.fs.fs_device.size
  type : k'.fs.fs_device.type = k.fs.fs_device.type
  sectors : ∀ b, b ∉ X → k'.fs.fs_device.sectors b = k.fs.fs_device.sectors b
  touched : ∀ a, a ∈ k'.touched → a ∈ k.touched ∨ (lo ≤ a ∧ a < lo + n)

variable {X : Set Nat}

theorem Accessed.moved (h : Accessed k k' lo n) : Moved X k k' lo n where
  page := h.page
  console_lock_depth := h.console_lock_depth
  open_file := h.open_file
  open_inodes := congrArg FileSys.open_inodes h.fs
  files := congrArg FileSys.files h.fs
  free_map := congrArg FileSys.free_map h.fs
  free_map_file := congrArg FileSys.free_map_file h.fs
  size := congrArg (fun s : FileSys => s.fs_device.size) h.fs
  type := congrArg (fun s : FileSys => s.fs_device.type) h.fs
  sectors b _ := congrArg (fun s : FileSys => s.fs_device.sectors b) h.fs
  touched := h.touched

theorem Moved.trans {k'' : Kernel} (h : Moved X k k' lo n) (h' : Moved X k' k'' (lo + n) m) :
    Moved X k k'' lo (n + m) where
  page := h'.page.trans h.page
  console_lock_depth := h'.console_lock_depth.trans h.console_lock_depth
  open_file := h'.open_file.trans h.open_file
  open_inodes := h'.open_inodes.trans h.open_inodes
  files := h'.files.trans h.files
  free_map := h'.free_map.trans h.free_map
  free_map_file := h'.free_map_file.trans h.free_map_file
  size := h'.size.trans h.size
  type := h'.type.trans h.type
  sectors b hb := (h'.sectors b hb).trans (h.sectors b hb)
  touched a ha := by
    rcases h'.touched a ha with ha | ha
    · rcases h.touched a ha with ha | ha
      · exact Or.inl ha
      · exact Or.inr (by omega)
    · exact Or.inr (by omega)

theorem Moved.mono (h : Moved X k k' lo n) (hn : n ≤ m) : Moved X k k' lo m :=
  { h with
    touched := fun a ha => (h.touched a ha).imp id fun hin => ⟨hin.1, by omega⟩ }

/-- The locks have no part in it. -/
theorem Moved.of_locks {ls : List KernelLock} (h : Moved X { k with locks := ls } k' lo n) :
    Moved X k k' lo n :=
  ⟨h.page, h.console_lock_depth, h.open_file, h.open_inodes, h.files, h.free_map, h.free_map_file,
    h.size, h.type, h.sectors, h.touched⟩

theorem Moved.set_locks (h : Moved X k k' lo n) (ls : List KernelLock) :
    Moved X k { k' with locks := ls } lo n :=
  ⟨h.page, h.console_lock_depth, h.open_file, h.open_inodes, h.files, h.free_map, h.free_map_file,
    h.size, h.type, h.sectors, h.touched⟩

/-- A sector of `X` is written. -/
theorem Moved.store (h : Moved X k k' lo n) {sec_no : Nat} (hX : sec_no ∈ X) (sector : Sector) :
    Moved X k { k' with fs := k'.fs.setDevice (k'.fs.fs_device.store sec_no sector) } lo n :=
  ⟨h.page, h.console_lock_depth, h.open_file, h.open_inodes, h.files, h.free_map, h.free_map_file,
    h.size, h.type, fun b hb =>
      (Block.store_sectors_of_ne _ _ (ne_of_mem_of_not_mem hX hb).symm).trans (h.sectors b hb),
    h.touched⟩

/-- All of the bytes have been moved, and what was held is. -/
structure Done (X : Set Nat) (w : Bool) (k : Kernel) (lo n : Nat) (k' : Kernel) : Prop where
  moved : Moved X k k' lo n
  mem : k'.fs.mem = k.fs.mem
  locks : k'.locks = k.locks
  blocks : k'.blocks = k.blocks
  can : ∀ j, j < n → Can w k (lo + j)

/-- The process has ended within the transfer. -/
structure Stopped (X : Set Nat) (w : Bool) (k : Kernel) (lo n : Nat) (e : Stop) (k' : Kernel) :
    Prop where
  exited : e = .exited (-1)
  moved : Moved X k k' lo n
  holds : Holds k'
  fault : ∃ j, j < n ∧ ¬ Can w k (lo + j)

/-- The sector can be read and written, and the disk is free. -/
structure SectorReady (X : Set Nat) (k : Kernel) (sec_no : Nat) : Prop where
  mem : sec_no ∈ X
  lt : sec_no < k.fs.fs_device.size
  type : k.fs.fs_device.type ≠ .foreign
  free : KernelLock.channel ∉ k.locks

theorem after_fs {α : Type} {f : FileSys → Option (α × FileSys)} {x : α} {s : FileSys}
    {Q : α → Kernel → Prop} {E : Stop → Kernel → Prop} (h : f k.fs = some (x, s)) :
    After (fs f) k Q E ↔ Q x { k with fs := s } := by
  refine after_of_ok ?_
  unfold Kern.fs
  rw [h]

theorem after_lock_acquire {l : KernelLock} {Q : Unit → Kernel → Prop} {E : Stop → Kernel → Prop}
    (h : l ∉ k.locks) :
    After (lock_acquire l) k Q E ↔ Q () { k with locks := l :: k.locks } :=
  after_of_ok (if_neg h)

theorem after_lock_release {l : KernelLock} {ls : List KernelLock} {Q : Unit → Kernel → Prop}
    {E : Stop → Kernel → Prop} (h : k.locks = l :: ls) :
    After (lock_release l) k Q E ↔ Q () { k with locks := ls } := by
  have hrelease : lock_release l k = .ok () { k with locks := k.locks.erase l } :=
    if_pos (h ▸ List.mem_cons_self)
  rw [after_of_ok hrelease, h, List.erase_cons_head]

theorem after_free {Q : Unit → Kernel → Prop} {E : Stop → Kernel → Prop} :
    After free k Q E ↔ Q () { k with blocks := k.blocks - 1 } := Iff.rfl

theorem after_malloc {Q : Bool → Kernel → Prop} {E : Stop → Kernel → Prop} :
    After malloc k Q E ↔ if k.fs.mem 0 = true then
        Q true { k with fs := k.fs.setMem k.fs.mem.malloc.2, blocks := k.blocks + 1 }
      else Q false { k with fs := k.fs.setMem k.fs.mem.malloc.2 } := by
  have hmalloc : k.fs.malloc = (k.fs.mem 0, k.fs.setMem k.fs.mem.malloc.2) := rfl
  rw [After, Kern.malloc, hmalloc]
  cases hmem : k.fs.mem 0 with
  | false => exact Iff.rfl
  | true => exact Iff.rfl

theorem after_read_sector {sec_no : Nat} {Q : Sector → Kernel → Prop} {E : Stop → Kernel → Prop}
    (h : SectorReady X k sec_no) :
    After (read_sector sec_no) k Q E ↔ Q (k.fs.fs_device.sectors sec_no) k := by
  have hread : (block_read k.fs.fs_device sec_no).map (fun sector => (sector, k.fs)) =
      some (k.fs.fs_device.sectors sec_no, k.fs) := by
    rw [block_read_eq h.lt]
    rfl
  rw [read_sector, after_bind, after_fs hread, after_bind, after_lock_acquire h.free, after_bind,
    after_lock_release rfl, after_pure]

theorem after_write_sector {sec_no : Nat} {sector : Sector} {Q : Unit → Kernel → Prop}
    {E : Stop → Kernel → Prop} (h : SectorReady X k sec_no) :
    After (write_sector sec_no sector) k Q E ↔
      Q () { k with fs := k.fs.setDevice (k.fs.fs_device.store sec_no sector) } := by
  have hwrite : (block_write k.fs.fs_device sec_no sector).map
      (fun dev => ((), k.fs.setDevice dev)) =
      some ((), k.fs.setDevice (k.fs.fs_device.store sec_no sector)) := by
    rw [block_write_eq sector h.lt h.type]
    rfl
  rw [write_sector, after_bind, after_fs hwrite, after_bind]
  have hlock := after_lock_acquire (l := .channel)
    (k := { k with fs := k.fs.setDevice (k.fs.fs_device.store sec_no sector) })
    (Q := fun _ t => After (lock_release .channel) t Q E) (E := E) h.free
  exact hlock.trans (after_lock_release rfl)

/-- A transfer that goes on while the lock of the disk is held. -/
theorem Reached.unlock {l : KernelLock} {ls : List KernelLock}
    (h : Reached w { k with locks := l :: ls } lo n k') (hlocks : k.locks = ls) :
    k'.locks = l :: ls ∧ Done X w k lo n { k' with locks := ls } := by
  obtain ⟨haccessed, hcan⟩ := h
  exact ⟨haccessed.locks, haccessed.moved.of_locks.set_locks ls, congrArg FileSys.mem haccessed.fs,
    hlocks.symm, haccessed.blocks, hcan⟩

theorem Faulted.stopped {e : Stop} (h : Faulted w k lo n e k') (hholds : Holds k) :
    Stopped X w k lo n e k' := by
  obtain ⟨hexit, haccessed, hfault⟩ := h
  refine ⟨hexit, haccessed.moved, ?_, hfault⟩
  rw [Holds, haccessed.locks, haccessed.blocks]
  exact hholds

theorem Stopped.of_locks {ls : List KernelLock} {e : Stop}
    (h : Stopped X w { k with locks := ls } lo n e k') : Stopped X w k lo n e k' :=
  ⟨h.exited, h.moved.of_locks, h.holds, h.fault⟩

theorem after_ide_read {sec_no buffer : Nat} (h : SectorReady X k sec_no) :
    After (ide_read sec_no buffer) k (fun _ k' => Done X true k buffer BLOCK_SECTOR_SIZE k')
      (Stopped X true k buffer BLOCK_SECTOR_SIZE) := by
  have hread : (block_read k.fs.fs_device sec_no).map (fun sector => (sector, k.fs)) =
      some (k.fs.fs_device.sectors sec_no, k.fs) := by
    rw [block_read_eq h.lt]
    rfl
  rw [ide_read, after_bind, after_fs hread, after_bind, after_lock_acquire h.free, after_bind]
  have hstore := after_store_bytes { k with locks := .channel :: k.locks } buffer
    (k.fs.fs_device.sectors sec_no).bytes
  rw [(k.fs.fs_device.sectors sec_no).length_bytes] at hstore
  refine hstore.mono (fun _ t ht => ?_) fun e t ht => ?_
  · obtain ⟨hlocks, hdone⟩ := ht.unlock rfl
    exact (after_lock_release hlocks).2 hdone
  · exact (ht.stopped (Or.inl (List.cons_ne_nil _ _))).of_locks

theorem after_ide_write {sec_no buffer : Nat} (h : SectorReady X k sec_no) :
    After (ide_write sec_no buffer) k (fun _ k' => Done X false k buffer BLOCK_SECTOR_SIZE k')
      (Stopped X false k buffer BLOCK_SECTOR_SIZE) := by
  have hcheck : (block_write k.fs.fs_device sec_no (Sector.ofBytes fun _ => 0)).map
      (fun _ => ((), k.fs)) = some ((), k.fs) := by
    rw [block_write_eq _ h.lt h.type]
    rfl
  rw [ide_write, after_bind, after_fs hcheck, after_bind, after_lock_acquire h.free, after_bind]
  refine (after_load_bytes { k with locks := .channel :: k.locks } buffer BLOCK_SECTOR_SIZE).mono
    (fun bytes t ht => ?_) fun e t ht => ?_
  · obtain ⟨hlocks, hdone⟩ := ht.1.unlock rfl
    have hdev : t.fs.fs_device = k.fs.fs_device := congrArg FileSys.fs_device ht.1.1.fs
    have hwrite : (block_write t.fs.fs_device sec_no
        (Sector.ofBytes fun i => bytes.getD i 0)).map (fun dev => ((), t.fs.setDevice dev)) =
        some ((), t.fs.setDevice (t.fs.fs_device.store sec_no
          (Sector.ofBytes fun i => bytes.getD i 0))) := by
      rw [block_write_eq _ (by rw [hdev]; exact h.lt) (by rw [hdev]; exact h.type)]
      rfl
    rw [after_bind, after_fs hwrite]
    refine (after_lock_release (k := { t with fs := t.fs.setDevice (t.fs.fs_device.store sec_no
      (Sector.ofBytes fun i => bytes.getD i 0)) }) hlocks).2 ?_
    exact ⟨hdone.moved.store h.mem _, hdone.mem, rfl, hdone.blocks, hdone.can⟩
  · exact (ht.stopped (Or.inl (List.cons_ne_nil _ _))).of_locks

theorem Reached.done (h : Reached w k lo n k') : Done X w k lo n k' :=
  ⟨h.1.moved, congrArg FileSys.mem h.1.fs, h.1.locks, h.1.blocks, h.2⟩

theorem Sector.length_piece (sector : Sector) {ofs chunk : Nat}
    (h : ofs + chunk ≤ BLOCK_SECTOR_SIZE) : ((sector.bytes.drop ofs).take chunk).length = chunk := by
  rw [List.length_take, List.length_drop, sector.length_bytes]
  omega

theorem after_read_piece {sec_no ofs chunk buffer : Nat} (h : SectorReady X k sec_no)
    (hchunk : ofs + chunk ≤ BLOCK_SECTOR_SIZE) (hblocks : k.blocks ≠ 0) (hnull : buffer ≠ NULL) :
    After (read_piece sec_no ofs chunk buffer) k (fun _ k' => Done X true k buffer chunk k')
      (Stopped X true k buffer chunk) := by
  rw [read_piece, after_bind, after_read_sector h, memcpy_to, if_neg fun hcopy => hnull hcopy.1]
  have hlen := Sector.length_piece (k.fs.fs_device.sectors sec_no) hchunk
  have hstore := after_store_bytes k buffer
    (((k.fs.fs_device.sectors sec_no).bytes.drop ofs).take chunk)
  rw [hlen] at hstore
  exact hstore.mono (fun _ t ht => ht.done) fun e t ht => ht.stopped (Or.inr hblocks)

theorem after_write_piece {sec_no ofs chunk buffer : Nat} (h : SectorReady X k sec_no)
    (hblocks : k.blocks ≠ 0) (hnull : buffer ≠ NULL) :
    After (write_piece sec_no ofs chunk buffer) k (fun _ k' => Done X false k buffer chunk k')
      (Stopped X false k buffer chunk) := by
  have hrest : ∀ sector : Sector, After (do
      let bytes ← memcpy_from buffer chunk
      write_sector sec_no (sector.memcpy ofs bytes)) k
      (fun _ k' => Done X false k buffer chunk k') (Stopped X false k buffer chunk) := by
    intro sector
    rw [memcpy_from, if_neg fun hcopy => hnull hcopy.1]
    refine after_bind.2 ((after_load_bytes k buffer chunk).mono (fun bytes t ht => ?_)
      fun e t ht => ht.stopped (Or.inr hblocks))
    have hdone : Done X false k buffer chunk t := ht.1.done
    have hready : SectorReady X t sec_no := by
      refine ⟨h.mem, ?_, ?_, ?_⟩
      · rw [hdone.moved.size]
        exact h.lt
      · rw [hdone.moved.type]
        exact h.type
      · rw [hdone.locks]
        exact h.free
    refine (after_write_sector hready).2 ?_
    exact ⟨hdone.moved.store h.mem _, hdone.mem, hdone.locks, hdone.blocks, hdone.can⟩
  rw [write_piece]
  split
  · exact after_bind.2 ((after_read_sector h).2 (hrest _))
  · exact after_bind.2 (after_pure.2 (hrest _))

/-- What a program does that can only panic. -/
abbrev Panics {α : Type} (x : Kern α) (k : Kernel) : Prop :=
  After x k (fun _ _ => False) fun st _ => st = .panic

theorem read_piece_null {sec_no ofs chunk : Nat} (h : SectorReady X k sec_no)
    (hchunk : ofs + chunk ≤ BLOCK_SECTOR_SIZE) (hne : chunk ≠ 0) :
    Panics (read_piece sec_no ofs chunk NULL) k := by
  have hlen := Sector.length_piece (k.fs.fs_device.sectors sec_no) hchunk
  rw [Panics, read_piece, after_bind, after_read_sector h, memcpy_to, if_pos]
  · exact after_throw.2 rfl
  · refine ⟨rfl, fun hnil => hne ?_⟩
    rw [← hlen, hnil, List.length_nil]

theorem write_piece_null {sec_no ofs chunk : Nat} (h : SectorReady X k sec_no) (hne : chunk ≠ 0) :
    Panics (write_piece sec_no ofs chunk NULL) k := by
  have hrest : ∀ sector : Sector, Panics (do
      let bytes ← memcpy_from NULL chunk
      write_sector sec_no (sector.memcpy ofs bytes)) k := by
    intro sector
    rw [memcpy_from, if_pos ⟨rfl, hne⟩]
    exact after_bind.2 (after_throw.2 rfl)
  rw [Panics, write_piece]
  split
  · exact after_bind.2 ((after_read_sector h).2 (hrest _))
  · exact after_bind.2 (after_pure.2 (hrest _))

/-! ## The loops -/

theorem off_t_size_le (size : Nat) : off_t_size size ≤ size := by
  rw [off_t_size]
  split
  · exact Nat.le_refl _
  · exact Nat.zero_le _

/-- A way to move sectors and pieces of them. -/
structure Mover (X : Set Nat) (w : Bool) (whole : Nat → Nat → Kern Unit)
    (piece : Nat → Nat → Nat → Nat → Kern Unit) : Prop where
  null : ∀ k sec_no ofs chunk, SectorReady X k sec_no → ofs + chunk ≤ BLOCK_SECTOR_SIZE →
    chunk ≠ 0 → Panics (piece sec_no ofs chunk NULL) k
  whole : ∀ k sec_no buffer, SectorReady X k sec_no → After (whole sec_no buffer) k
    (fun _ k' => Done X w k buffer BLOCK_SECTOR_SIZE k') (Stopped X w k buffer BLOCK_SECTOR_SIZE)
  piece : ∀ k sec_no ofs chunk buffer, SectorReady X k sec_no → ofs + chunk ≤ BLOCK_SECTOR_SIZE →
    k.blocks ≠ 0 → buffer ≠ NULL → After (piece sec_no ofs chunk buffer) k
      (fun _ k' => Done X w k buffer chunk k') (Stopped X w k buffer chunk)

theorem reader : Mover X true ide_read read_piece where
  whole _ _ _ h := after_ide_read h
  piece _ _ _ _ _ h hchunk hblocks hnull := after_read_piece h hchunk hblocks hnull
  null _ _ _ _ h hchunk hne := read_piece_null h hchunk hne

theorem writer : Mover X false ide_write write_piece where
  whole _ _ _ h := after_ide_write h
  piece _ _ _ _ _ h _ hblocks hnull := after_write_piece h hblocks hnull
  null _ _ _ _ h _ hne := write_piece_null h hne

/-- How many bytes a transfer moves if all of them can be accessed. -/
def to_move (bounce : Bool) (mem : Mallocs) (data : InodeDisk) (size offset : Nat) : Nat :=
  if bounce = true then in_file data size offset
  else moved mem offset (in_file data size offset)

/-- All that was to be moved has been, and the bounce buffer is given back. -/
structure AllMoved (X : Set Nat) (w bounce : Bool) (k : Kernel) (lo n m : Nat) (k' : Kernel) :
    Prop where
  eq : m = n
  moved : Moved X k k' lo n
  locks : k'.locks = k.locks
  blocks : k'.blocks = k.blocks - if bounce = true then 1 else 0
  can : ∀ j, j < n → Can w k (lo + j)

variable {whole : Nat → Nat → Kern Unit} {piece : Nat → Nat → Nat → Nat → Kern Unit}
  {data : InodeDisk} {bounce : Bool} {buffer size offset : Nat}

/-- The sectors of the data. -/
def data_sectors (data : InodeDisk) : Set Nat :=
  {b | data.start ≤ b ∧ b < data.start + bytes_to_sectors data.length}

theorem sectorReady_of_fits (hfits : data.Fits k.fs.fs_device)
    (htype : k.fs.fs_device.type ≠ .foreign) (hfree : KernelLock.channel ∉ k.locks) (hofs : offset < data.length) :
    SectorReady (data_sectors data) k (byte_to_sector data offset) := by
  obtain ⟨hsector, hlt⟩ := hfits.sector_eq hofs
  have hin := div_lt_bytes_to_sectors hfits.length_lt hofs
  rw [hsector]
  exact ⟨⟨Nat.le_add_right _ _, Nat.add_lt_add_left hin _⟩, hlt, htype, hfree⟩

/-- One piece and the rest of the loop. -/
theorem AllMoved.next {chunk rest : Nat} {k'' : Kernel} {bounce' : Bool} (h : Done X w k lo chunk k')
    (h' : AllMoved X w bounce' k' (lo + chunk) rest m k'')
    (hblocks : k.blocks - (if bounce' = true then 1 else 0) =
      k.blocks - if bounce = true then 1 else 0) :
    AllMoved X w bounce k lo (chunk + rest) (chunk + m) k'' := by
  refine ⟨by rw [h'.eq], h.moved.trans h'.moved, h'.locks.trans h.locks, ?_, fun j hj => ?_⟩
  · rw [h'.blocks, h.blocks, hblocks]
  · by_cases hfirst : j < chunk
    · exact h.can j hfirst
    · have hcan := h'.can (j - chunk) (by omega)
      rw [Nat.add_assoc, Nat.add_sub_cancel' (Nat.le_of_not_lt hfirst)] at hcan
      exact (Can.congr h.moved.page).1 hcan

theorem Stopped.next {chunk rest : Nat} {k'' : Kernel} {e : Stop} (h : Done X w k lo chunk k')
    (h' : Stopped X w k' (lo + chunk) rest e k'') : Stopped X w k lo (chunk + rest) e k'' := by
  refine ⟨h'.exited, h.moved.trans h'.moved, h'.holds, ?_⟩
  obtain ⟨j, hj, hcan⟩ := h'.fault
  refine ⟨chunk + j, Nat.add_lt_add_left hj _, fun hc => hcan ?_⟩
  rw [Nat.add_assoc]
  exact (Can.congr h.moved.page).2 hc

theorem Stopped.first {chunk rest : Nat} {e : Stop} (h : Stopped X w k lo chunk e k') :
    Stopped X w k lo (chunk + rest) e k' := by
  obtain ⟨j, hj, hcan⟩ := h.fault
  exact ⟨h.exited, h.moved.mono (Nat.le_add_right _ _), h.holds, j, by omega, hcan⟩

theorem to_move_zero {mem : Mallocs} (h : chunk_size data size offset = 0) :
    to_move bounce mem data size offset = 0 := by
  rw [to_move, in_file_zero h]
  split
  · rfl
  · rw [moved]
    split
    · rfl
    · rw [Nat.zero_div, Nat.zero_mul, ite_self]

theorem to_move_sector {mem : Mallocs} (hofs : offset % BLOCK_SECTOR_SIZE = 0)
    (hchunk : chunk_size data size offset = BLOCK_SECTOR_SIZE) :
    to_move bounce mem data size offset = BLOCK_SECTOR_SIZE +
      to_move bounce mem data (size - BLOCK_SECTOR_SIZE) (offset + BLOCK_SECTOR_SIZE) := by
  have hne : chunk_size data size offset ≠ 0 := by
    rw [hchunk]
    decide
  have hsplit := (chunk_spec hne).2.2
  rw [hchunk] at hsplit
  rw [to_move, to_move, hsplit]
  split
  · rfl
  · exact (moved_sector mem hofs _).1

/-- A new block has no part in a transfer. -/
theorem Moved.of_malloc {mem : Mallocs}
    (h : Moved X { k with fs := k.fs.setMem mem, blocks := b } k' lo n) : Moved X k k' lo n :=
  ⟨h.page, h.console_lock_depth, h.open_file, h.open_inodes, h.files, h.free_map, h.free_map_file,
    h.size, h.type, h.sectors, h.touched⟩

/-- Nothing is moved at all. -/
theorem Moved.none {mem : Mallocs} :
    Moved X k { k with fs := k.fs.setMem mem, blocks := b } lo n :=
  ⟨rfl, rfl, rfl, rfl, rfl, rfl, rfl, rfl, rfl, fun _ _ => rfl, fun _ ha => Or.inl ha⟩

/-- A transfer begins with a whole sector. -/
def BeginsWhole (data : InodeDisk) (size offset : Nat) : Prop :=
  offset % BLOCK_SECTOR_SIZE = 0 ∧ chunk_size data size offset = BLOCK_SECTOR_SIZE

/-- The loop moves all that there is, or stops at a byte that cannot be accessed. -/
theorem after_transfer_loop (hmover : Mover (data_sectors data) w whole piece)
    (hfits : data.Fits k.fs.fs_device) (htype : k.fs.fs_device.type ≠ .foreign)
    (hfree : KernelLock.channel ∉ k.locks) (hbounce : bounce = true → k.blocks ≠ 0)
    (hnull : buffer = NULL → BeginsWhole data size offset) :
    After (transfer_loop whole piece data bounce buffer size offset) k
      (AllMoved (data_sectors data) w bounce k buffer (to_move bounce k.fs.mem data size offset))
      (Stopped (data_sectors data) w k buffer (to_move bounce k.fs.mem data size offset)) := by
  induction hn : size using Nat.strong_induction_on generalizing k bounce buffer size offset with
  | _ n ih =>
      rw [← hn, transfer_loop]
      by_cases hzero : chunk_size data size offset = 0
      · rw [to_move_zero hzero]
        simp only [hzero, if_true]
        cases bounce with
        | true =>
            refine after_bind.2 (after_free.2 (after_pure.2 ?_))
            exact ⟨rfl, Moved.none, rfl, rfl, fun j hj => absurd hj (Nat.not_lt_zero j)⟩
        | false =>
            exact after_pure.2 ⟨rfl, Moved.none, rfl, rfl,
              fun j hj => absurd hj (Nat.not_lt_zero j)⟩
      · have hlt : size - chunk_size data size offset < n := by
          have hle := chunk_size_le data size offset
          omega
        obtain ⟨hofs, hfit, hsplit⟩ := chunk_spec hzero
        -- what is left after some bytes have been moved
        have hrest : ∀ k t bounce, data.Fits k.fs.fs_device → k.fs.fs_device.type ≠ .foreign →
            KernelLock.channel ∉ k.locks → (bounce = true → k.blocks ≠ 0) →
            Done (data_sectors data) w k buffer (chunk_size data size offset) t →
            After (transfer_loop whole piece data bounce
                (buffer + chunk_size data size offset) (size - chunk_size data size offset)
                (offset + chunk_size data size offset)) t
              (AllMoved (data_sectors data) w bounce t (buffer + chunk_size data size offset)
                (to_move bounce k.fs.mem data (size - chunk_size data size offset)
                  (offset + chunk_size data size offset)))
              (Stopped (data_sectors data) w t (buffer + chunk_size data size offset)
                (to_move bounce k.fs.mem data (size - chunk_size data size offset)
                  (offset + chunk_size data size offset))) := by
          intro k t bounce hfits htype hfree hbounce ht
          rw [← ht.mem]
          refine ih _ hlt (hfits.of_size ht.moved.size) ?_ ?_ (fun hb => ?_)
            (fun hnull => absurd (Nat.add_eq_zero_iff.1 hnull).2 hzero) rfl
          · rw [ht.moved.type]
            exact htype
          · rw [ht.locks]
            exact hfree
          · rw [ht.blocks]
            exact hbounce hb
        have hready := sectorReady_of_fits hfits htype hfree hofs
        simp only [hzero, if_false]
        split
        · -- a whole sector
          next hwhole =>
          have hmove := @to_move_sector data bounce size offset k.fs.mem hwhole.1 hwhole.2
          rw [← hwhole.2] at hmove
          rw [hmove]
          have hsector := hmover.whole k _ buffer hready
          rw [← hwhole.2] at hsector
          refine after_bind.2 (hsector.mono (fun _ t ht => ?_) fun e t ht => ht.first)
          refine after_bind.2 ((hrest k t bounce hfits htype hfree hbounce ht).mono
            (fun m u hu => ?_) fun e u hu => Stopped.next ht hu)
          exact after_pure.2 (AllMoved.next ht hu rfl)
        · next hpiece =>
          -- a piece, and the rest with the bounce buffer
          have hbounced : ∀ k : Kernel, data.Fits k.fs.fs_device →
              k.fs.fs_device.type ≠ .foreign → KernelLock.channel ∉ k.locks → k.blocks ≠ 0 →
              After (do
                piece (byte_to_sector data offset) (offset % BLOCK_SECTOR_SIZE)
                  (chunk_size data size offset) buffer
                let n ← transfer_loop whole piece data true (buffer + chunk_size data size offset)
                  (size - chunk_size data size offset) (offset + chunk_size data size offset)
                return chunk_size data size offset + n) k
                (AllMoved (data_sectors data) w true k buffer (in_file data size offset))
                (Stopped (data_sectors data) w k buffer (in_file data size offset)) := by
            intro k hfits htype hfree hblocks
            have hready := sectorReady_of_fits hfits htype hfree hofs
            rw [hsplit]
            refine after_bind.2 ((hmover.piece k _ _ _ buffer hready hfit hblocks fun hb =>
              hpiece (hnull hb)).mono (fun _ t ht => ?_) fun e t ht => ht.first)
            refine after_bind.2 ((hrest k t true hfits htype hfree (fun _ => hblocks) ht).mono
              (fun m u hu => ?_) fun e u hu => Stopped.next ht hu)
            exact after_pure.2 (AllMoved.next ht hu rfl)
          cases bounce with
          | true =>
              exact hbounced k hfits htype hfree (hbounce rfl)
          | false =>
              rw [to_move, if_neg Bool.false_ne_true, (moved_piece hzero hpiece).2]
              refine after_bind.2 (after_malloc.2 ?_)
              split
              · next hmem =>
                rw [if_pos rfl]
                refine (hbounced { k with
                    fs := k.fs.setMem k.fs.mem.malloc.2, blocks := k.blocks + 1 }
                  hfits htype hfree (Nat.succ_ne_zero _)).mono (fun m u hu => ?_) fun e u hu => ?_
                · exact ⟨hu.eq, hu.moved.of_malloc, hu.locks, hu.blocks, hu.can⟩
                · exact ⟨hu.exited, hu.moved.of_malloc, hu.holds, hu.fault⟩
              · next hmem =>
                exact after_pure.2 ⟨rfl, Moved.none, rfl, rfl,
                  fun j hj => absurd hj (Nat.not_lt_zero j)⟩

/-- A piece at the address `NULL` is not moved: without memory for the bounce buffer nothing is, and
with it `memcpy` panics. -/
theorem after_transfer_null (hmover : Mover (data_sectors data) w whole piece)
    (hfits : data.Fits k.fs.fs_device) (htype : k.fs.fs_device.type ≠ .foreign)
    (hfree : KernelLock.channel ∉ k.locks) (hpiece : ¬ BeginsWhole data size offset) :
    After (transfer_loop whole piece data false NULL size offset) k
      (AllMoved (data_sectors data) w false k NULL (to_move false k.fs.mem data size offset))
      fun st _ => st = .panic := by
  rw [transfer_loop]
  by_cases hzero : chunk_size data size offset = 0
  · rw [to_move_zero hzero]
    simp only [hzero, if_true]
    exact after_pure.2 ⟨rfl, Moved.none, rfl, rfl, fun j hj => absurd hj (Nat.not_lt_zero j)⟩
  · obtain ⟨hofs, hfit, -⟩ := chunk_spec hzero
    have hready := sectorReady_of_fits hfits htype hfree hofs
    rw [BeginsWhole] at hpiece
    rw [to_move, if_neg Bool.false_ne_true, (moved_piece hzero hpiece).2]
    simp only [hzero, hpiece, Bool.false_eq_true, if_false]
    refine after_bind.2 (after_malloc.2 ?_)
    split
    · have hpanics := hmover.null { k with
          fs := k.fs.setMem k.fs.mem.malloc.2, blocks := k.blocks + 1 } _ _ _
        ⟨hready.mem, hready.lt, hready.type, hready.free⟩ hfit hzero
      exact after_bind.2 (hpanics.mono (fun _ _ hnot => hnot.elim) fun _ _ hst => hst)
    · exact after_pure.2 ⟨rfl, Moved.none, rfl, rfl, fun j hj => absurd hj (Nat.not_lt_zero j)⟩

end HwMemory

end Berk162
