import Berk162.HwMemory.Handler
import Berk162.Filesys.FsLeaks

/-!
# Process — what a system call does for a process

Between its system calls a process holds nothing of the kernel but its file (`Idle`).  A call that
returns keeps that.  One that does not return holds something exactly if it has met a byte of the
buffer that the process does not have.
-/

namespace Berk162

namespace HwMemory

open Kern

variable {k k' t : Kernel} {X : Set Nat} {lo n f file fd buffer size : Nat} {file' : File}
  {inode : Inode} {e : DirEntry} {w : Bool}

structure Idle (k : Kernel) : Prop where
  fs : Between k.fs
  locks : k.locks = []
  console_lock_depth : k.console_lock_depth = 0
  blocks : k.blocks = 0
  open_file : ∀ f, k.open_file = some f → k.fs.IsHandle f

/-- The sector of the inode of a file. -/
def file_sector (s : FileSys) (file : File) : Option Nat :=
  (s.open_inodes.get file.inode).map Inode.sector

/-- The number of files that are open for the inode in sector `i`. -/
def opens (s : FileSys) (i : Nat) : Nat := s.files.count fun file => file_sector s file = some i

/-- The sector of the inode of the process's file. -/
def Kernel.open_sector (k : Kernel) : Option Nat :=
  (k.open_file.bind k.fs.files.get).bind (file_sector k.fs)

/-- The files that others have open are the same. -/
def Tracks (k k' : Kernel) : Prop := ∀ i,
  opens k'.fs i + (if k.open_sector = some i then 1 else 0) =
    opens k.fs i + if k'.open_sector = some i then 1 else 0

/-- What holds after a system call that has returned. -/
structure Served (k k' : Kernel) : Prop where
  idle : Idle k'
  tracks : Tracks k k'

/-! ## Counting files -/

section

variable {s s' : FileSys} {held : List Nat} {i : Nat}

theorem file_sector_of_same (hinv : FsInv held s) (hsame : SameFiles s s')
    (hf : s.files.get f = some file') : file_sector s' file' = file_sector s file' := by
  obtain ⟨inode, hp⟩ := (hinv.opened.file_open f file' hf).2
  obtain ⟨inode', hp', hsector⟩ := hsame.2.2 f file' inode hf hp
  rw [file_sector, file_sector, hp, hp', Option.map_some, Option.map_some, hsector]

theorem opens_of_same (hinv : FsInv held s) (hsame : SameFiles s s') : opens s' i = opens s i := by
  rw [opens, opens, hsame.1]
  refine Store.count_congr fun f file hf => ?_
  rw [file_sector_of_same hinv hsame hf]

theorem opens_alloc : opens (s.setFiles (s.files.alloc file')) i =
    opens s i + if file_sector s file' = some i then 1 else 0 := by
  refine Store.count_alloc.trans ?_
  simp only [decide_eq_true_iff]
  rfl

theorem opens_erase (hf : s.files.get f = some file') :
    opens (s.setFiles (s.files.erase f)) i + (if file_sector s file' = some i then 1 else 0) =
      opens s i := by
  have herase := Store.count_erase (f := fun file => decide (file_sector s file = some i)) hf
  simp only [decide_eq_true_iff] at herase
  exact herase

theorem opens_set (hf : s.files.get f = some file') (pos : Nat) :
    opens (s.setFiles (s.files.set f { file' with pos := pos })) i = opens s i := by
  have hset := Store.count_set (a := { file' with pos := pos })
    (f := fun file => decide (file_sector s file = some i)) hf
  exact Nat.add_right_cancel hset

end

/-! ## Changes of the file system -/

/-- Data of a file that is not the root directory have been moved. -/
theorem between_of_moved (h : Between k.fs) (hmoved : Moved X k k' lo n)
    (hX : ∀ b, b ∈ X → ∃ i, k.fs.Live i ∧ i ≠ ROOT_DIR_SECTOR ∧ b ∈ data_extent k.fs.fs_device i) :
    Between k'.fs := by
  have hundisturbed : Undisturbed k.fs k'.fs := by
    refine ⟨hmoved.open_inodes, hmoved.files, hmoved.free_map_file, hmoved.size, hmoved.type,
      by rw [hmoved.free_map], fun i hi => hmoved.sectors i fun hmem => ?_,
      fun a ha => hmoved.sectors a fun hmem => ?_, fun i a hi ha => ?_⟩
    · obtain ⟨j, hj, -, hin⟩ := hX i hmem
      by_cases hij : i = j
      · subst hij
        exact h.inv.layout.self i hi hin
      · exact h.inv.layout.apart i j i hi hj hij (Or.inl rfl) (Or.inr hin)
    · obtain ⟨j, hj, hne, hin⟩ := hX a hmem
      exact h.inv.layout.apart j _ a hj k.fs.live_root hne (Or.inr hin) (Or.inr ha)
    · rw [hmoved.free_map]
      exact h.inv.layout.marked i a hi ha
  exact ⟨h.inv.change hundisturbed, h.user.of_same h.inv
    (SameFiles.of_eq hmoved.files hmoved.free_map_file hmoved.open_inodes)⟩

/-! ## Transfers -/

/-- How many bytes a transfer of `size` bytes moves from the position of the open file on. -/
def Kernel.in_open_file (k : Kernel) (size : Nat) : Nat :=
  match k.open_file.bind k.fs.files.get with
  | none => 0
  | some file =>
      match k.fs.open_inodes.get file.inode with
      | none => 0
      | some inode => to_move false k.fs.mem inode.data (off_t_size size) file.pos

/-- The transfer begins with a piece of a sector at the address `NULL`, where `memcpy` panics. -/
def Kernel.CopiesNull (k : Kernel) (buffer size : Nat) : Prop :=
  buffer = NULL ∧ ∃ file inode, k.open_file.bind k.fs.files.get = some file ∧
    k.fs.open_inodes.get file.inode = some inode ∧
    ¬ BeginsWhole inode.data (off_t_size size) file.pos

/-- In a transfer with the open file, the process does not have a byte that is to be moved. -/
def Kernel.Lacks (k : Kernel) (w : Bool) (buffer size : Nat) : Prop :=
  ¬ k.CopiesNull buffer size ∧ ∃ j, j < k.in_open_file size ∧ ¬ Can w k (buffer + j)

/-- The process does not have a byte of the buffer that the kernel moves for the request. -/
def Faults (k : Kernel) : Request → Prop
  | .sys_write fd buffer size =>
      buffer < PHYS_BASE ∧ buffer + size ≤ PHYS_BASE ∧
        ((fd = STDOUT_FILENO ∧ ∃ j, j < size ∧ ¬ Can false k (buffer + j)) ∨
          fd = 2 ∧ k.Lacks false buffer size)
  | .sys_read fd buffer size =>
      buffer < PHYS_BASE ∧ buffer + size ≤ PHYS_BASE ∧ fd = 2 ∧ k.Lacks true buffer size
  | _ => False

theorem in_open_file_eq (hopen : k.open_file = some f) (hf : Handle k.fs f file' inode) (size : Nat) :
    k.in_open_file size = to_move false k.fs.mem inode.data (off_t_size size) file'.pos := by
  rw [Kernel.in_open_file, hopen, Option.bind_some, hf.get_file]
  dsimp only
  rw [hf.get_inode]

theorem in_open_file_none (hnone : k.open_file = none) (size : Nat) : k.in_open_file size = 0 := by
  rw [Kernel.in_open_file, hnone]
  rfl

theorem in_open_file_le (k : Kernel) (size : Nat) : k.in_open_file size ≤ size := by
  unfold Kernel.in_open_file
  cases k.open_file.bind k.fs.files.get with
  | none => exact Nat.zero_le size
  | some file =>
      dsimp only
      cases k.fs.open_inodes.get file.inode with
      | none => exact Nat.zero_le size
      | some inode =>
          have hmoved := moved_le k.fs.mem file.pos (in_file inode.data (off_t_size size) file.pos)
          have hin := Nat.min_le_left (off_t_size size) (inode.data.length - file.pos)
          exact hmoved.trans (hin.trans (off_t_size_le size))

theorem Kernel.Lacks.lt (h : k.Lacks w buffer size) (hle : buffer + size ≤ PHYS_BASE) :
    buffer < PHYS_BASE := by
  obtain ⟨-, j, hj, -⟩ := h
  have hmax := in_open_file_le k size
  omega

theorem not_lacks_of_none (hnone : k.open_file = none) : ¬ k.Lacks w buffer size := by
  rintro ⟨-, j, hj, -⟩
  rw [in_open_file_none hnone] at hj
  exact Nat.not_lt_zero j hj

theorem open_sector_eq (hopen : k.open_file = some f) (hf : Handle k.fs f file' inode) :
    k.open_sector = some inode.sector := by
  rw [Kernel.open_sector, hopen, Option.bind_some, hf.get_file, Option.bind_some, file_sector,
    hf.get_inode, Option.map_some]

theorem Idle.handle (h : Idle k) (hopen : k.open_file = some f) :
    ∃ file inode, Handle k.fs f file inode :=
  (h.open_file f hopen).handle h.fs.inv

/-- All is as before but for data of the open file and its position. -/
theorem Idle.transferred (h : Idle k) (hopen : k.open_file = some f) (hf : Handle k.fs f file' inode)
    {m : Nat} (hall : AllMoved (data_sectors inode.data) w false k lo n m t) (pos : Nat) :
    Served k { t with fs := t.fs.setFiles (t.fs.files.set f { file' with pos := pos }) } := by
  have hlive := FsInv.opened_live hf.get_inode
  have hbetween : Between t.fs := by
    refine between_of_moved h.fs hall.moved fun b hb => ⟨_, hlive, ?_, ?_⟩
    · exact (h.fs.user f file' inode hf.user hf.get_file hf.get_inode).2
    · rw [h.fs.inv.opened.data_eq _ inode hf.get_inode] at hb
      exact mem_data_extent.2 hb
  have hget : t.fs.files.get f = some file' := by
    rw [hall.moved.files]
    exact hf.get_file
  have hopen' : t.open_file = some f := hall.moved.open_file.trans hopen
  have hf' : Handle (t.fs.setFiles (t.fs.files.set f { file' with pos := pos })) f
      { file' with pos := pos } inode := by
    refine ⟨Store.get_set_self hget, ?_, fun hmap => hf.user (hall.moved.free_map_file ▸ hmap)⟩
    rw [← hf.get_inode, ← hall.moved.open_inodes]
    rfl
  refine ⟨⟨⟨hbetween.inv.set_file hget rfl rfl, hbetween.user.set hget pos⟩, ?_, ?_, ?_, ?_⟩,
    fun i => ?_⟩
  · exact hall.locks.trans h.locks
  · exact hall.moved.console_lock_depth.trans h.console_lock_depth
  · exact hall.blocks.trans h.blocks
  · intro g hg
    obtain rfl : f = g := Option.some.inj (hopen'.symm.trans hg)
    exact ⟨hf'.user, _, hf'.get_file⟩
  · have hopens : opens t.fs i = opens k.fs i := by
      rw [opens, opens, hall.moved.files]
      refine Store.count_congr fun g file _ => ?_
      rw [file_sector, file_sector, hall.moved.open_inodes]
    have hsector := open_sector_eq (k := { t with
      fs := t.fs.setFiles (t.fs.files.set f { file' with pos := pos }) }) hopen' hf'
    rw [hsector, open_sector_eq hopen hf, opens_set hget, hopens]

/-- What follows if the process ends.  `F` says that it does not have all of a buffer. -/
def Ended (k : Kernel) (F : Prop) : Stop → Kernel → Prop
  | .panic, _ => ¬ F
  | .exited _, t => t.fs.open_inodes = k.fs.open_inodes ∧ ((t.locks = [] ∧ t.blocks = 0) ↔ ¬ F)

theorem Stopped.ended {F : Prop} {st : Stop} (h : Stopped X w k lo n st t) (hfaults : F) :
    Ended k F st t := by
  obtain ⟨rfl, hmoved, hholds, -⟩ := h
  refine ⟨hmoved.open_inodes, iff_of_false (fun hnone => ?_) (not_not_intro hfaults)⟩
  exact hholds.elim (fun hne => hne hnone.1) fun hne => hne hnone.2

/-- Nothing has happened that the process could have left behind. -/
theorem Accessed.ended {F : Prop} {status : Int} (h : Accessed k t lo n) (hidle : Idle k)
    (hnot : ¬ F) : Ended k F (.exited status) t :=
  ⟨congrArg FileSys.open_inodes h.fs,
    iff_of_true ⟨h.locks.trans hidle.locks, h.blocks.trans hidle.blocks⟩ hnot⟩

/-- How a transfer with the open file is cut short. -/
inductive CutShort (k : Kernel) (w : Bool) (buffer size : Nat) : Stop → Kernel → Prop
  | panic {t : Kernel} : k.CopiesNull buffer size → CutShort k w buffer size .panic t
  | stopped {X : Set Nat} {st : Stop} {t : Kernel} : ¬ k.CopiesNull buffer size →
      Stopped X w k buffer (k.in_open_file size) st t → CutShort k w buffer size st t

theorem CutShort.ended {F : Prop} {st : Stop} (h : CutShort k w buffer size st t)
    (hF : F ↔ k.Lacks w buffer size) : Ended k F st t := by
  cases h with
  | panic hnull => exact fun hfaults => (hF.1 hfaults).1 hnull
  | stopped hnull hst => exact hst.ended (hF.2 ⟨hnull, hst.fault⟩)

/-- The loop of a transfer between the open file and the user. -/
theorem after_open_file_transfer {whole : Nat → Nat → Kern Unit}
    {piece : Nat → Nat → Nat → Nat → Kern Unit} (h : Idle k) (hopen : k.open_file = some f)
    (hf : Handle k.fs f file' inode) (hmover : Mover (data_sectors inode.data) w whole piece)
    (buffer size : Nat) :
    After (transfer_loop whole piece inode.data false buffer (off_t_size size) file'.pos) k
      (AllMoved (data_sectors inode.data) w false k buffer (k.in_open_file size))
      (CutShort k w buffer size) := by
  have hfree : KernelLock.channel ∉ k.locks := by
    rw [h.locks]
    exact List.not_mem_nil
  have hfile : k.open_file.bind k.fs.files.get = some file' := by
    rw [hopen, Option.bind_some, hf.get_file]
  have hfits := h.fs.inv.fits hf.get_inode
  have hmoves := in_open_file_eq hopen hf size
  by_cases hnull : k.CopiesNull buffer size
  · obtain ⟨rfl, file, i, hfile', hinode, hpiece⟩ := id hnull
    obtain rfl := Option.some.inj (hfile.symm.trans hfile')
    obtain rfl := Option.some.inj (hf.get_inode.symm.trans hinode)
    rw [hmoves]
    refine (after_transfer_null hmover hfits h.fs.inv.layout.type_ne hfree hpiece).mono
      (fun _ _ hall => hall) fun st t hst => ?_
    obtain rfl : st = .panic := hst
    exact CutShort.panic hnull
  · have hwhole : buffer = NULL → BeginsWhole inode.data (off_t_size size) file'.pos := fun hb =>
      not_not.1 fun hpiece => hnull ⟨hb, file', inode, hfile, hf.get_inode, hpiece⟩
    have hloop := after_transfer_loop hmover hfits h.fs.inv.layout.type_ne hfree
      (fun hb => absurd hb Bool.false_ne_true) hwhole
    rw [← hmoves] at hloop
    exact hloop.mono (fun _ _ hall => hall) fun _ _ hst => CutShort.stopped hnull hst

theorem after_file_read (h : Idle k) (hopen : k.open_file = some f) (buffer size : Nat) :
    After (file_read f buffer size) k
      (fun _ t => Served k t ∧ ∀ j, j < k.in_open_file size → Can true k (buffer + j))
      (CutShort k true buffer size) := by
  obtain ⟨file, inode, hf⟩ := h.handle hopen
  have hget : (k.fs.files.get f).map (fun file => (file, k.fs)) = some (file, k.fs) := by
    rw [hf.get_file, Option.map_some]
  have hinode : (k.fs.open_inodes.get file.inode).map (fun i => (i, k.fs)) = some (inode, k.fs) := by
    rw [hf.get_inode, Option.map_some]
  refine after_bind.2 ((after_fs hget).2 (after_bind.2 (after_bind.2 ((after_fs hinode).2 ?_))))
  refine (after_open_file_transfer h hopen hf reader buffer size).mono (fun m t hall => ?_)
    fun _ _ hst => hst
  refine after_bind.2 ((after_fs rfl).2 (after_pure.2 ?_))
  exact ⟨h.transferred hopen hf hall _, hall.can⟩

theorem after_file_write (h : Idle k) (hopen : k.open_file = some f) (buffer size : Nat) :
    After (file_write f buffer size) k
      (fun _ t => Served k t ∧ ∀ j, j < k.in_open_file size → Can false k (buffer + j))
      (CutShort k false buffer size) := by
  obtain ⟨file, inode, hf⟩ := h.handle hopen
  have hget : (k.fs.files.get f).map (fun file => (file, k.fs)) = some (file, k.fs) := by
    rw [hf.get_file, Option.map_some]
  have hinode : (k.fs.open_inodes.get file.inode).map (fun i => (i, k.fs)) = some (inode, k.fs) := by
    rw [hf.get_inode, Option.map_some]
  have hdeny := h.fs.inv.opened.no_deny _ inode hf.get_inode
  refine after_bind.2 ((after_fs hget).2 (after_bind.2 (after_bind.2 ((after_fs hinode).2 ?_))))
  rw [if_neg (not_not_intro hdeny)]
  refine (after_open_file_transfer h hopen hf writer buffer size).mono (fun m t hall => ?_)
    fun _ _ hst => hst
  refine after_bind.2 ((after_fs rfl).2 (after_pure.2 ?_))
  exact ⟨h.transferred hopen hf hall _, hall.can⟩

/-! ## The console -/

/-- Nothing of the file system has changed. -/
theorem Idle.moved (h : Idle k) (hmoved : Moved ∅ k t lo n) (hlocks : t.locks = k.locks)
    (hblocks : t.blocks = k.blocks) : Served k t := by
  have hsector : ∀ file, file_sector t.fs file = file_sector k.fs file := fun file => by
    rw [file_sector, file_sector, hmoved.open_inodes]
  refine ⟨⟨between_of_moved h.fs hmoved fun b hb => absurd hb (Set.notMem_empty b),
    hlocks.trans h.locks, hmoved.console_lock_depth.trans h.console_lock_depth,
    hblocks.trans h.blocks, fun f hf => ?_⟩, fun i => ?_⟩
  · rw [FileSys.IsHandle, hmoved.free_map_file, hmoved.files]
    exact h.open_file f (hmoved.open_file.symm.trans hf)
  · have hopens : opens t.fs i = opens k.fs i := by
      rw [opens, opens, hmoved.files]
      refine Store.count_congr fun g file _ => ?_
      rw [hsector]
    have hopen : t.open_sector = k.open_sector := by
      rw [Kernel.open_sector, Kernel.open_sector, hmoved.open_file, hmoved.files]
      exact congrArg _ (funext hsector)
    rw [hopens, hopen]

theorem after_putbuf (h : Idle k) (buffer n : Nat) :
    After (putbuf buffer n) k (fun _ => Done ∅ false k buffer n) (Stopped ∅ false k buffer n) := by
  have hfree : KernelLock.console ∉ k.locks := by
    rw [h.locks]
    exact List.not_mem_nil
  have hacquire : acquire_console k = .ok () { k with locks := .console :: k.locks } :=
    (if_neg hfree).trans (if_neg hfree)
  refine after_bind.2 ((after_of_ok hacquire).2 (after_bind.2 ((after_put_chars _ buffer n).mono
    (fun _ t ht => ?_) fun st t ht => ?_)))
  · obtain ⟨hlocks, hdone⟩ := ht.unlock rfl
    have hdepth : ¬ t.console_lock_depth > 0 := by
      rw [show t.console_lock_depth = 0 from ht.1.console_lock_depth.trans h.console_lock_depth]
      exact Nat.lt_irrefl 0
    have hrelease : release_console t = lock_release .console t := if_neg hdepth
    rw [After, hrelease]
    exact (after_lock_release hlocks).2 hdone
  · exact (ht.stopped (Or.inl (List.cons_ne_nil _ _))).of_locks

/-! ## Opening and closing -/

theorem Served.refl (h : Idle k) : Served k k := ⟨h, fun _ => rfl⟩

theorem Served.trans {k'' : Kernel} (h : Served k k') (h' : Served k' k'') : Served k k'' := by
  refine ⟨h'.idle, fun i => ?_⟩
  have hfirst := h.tracks i
  have hsecond := h'.tracks i
  omega

/-- A process without a file tries to open one. -/
theorem Idle.opened (h : Idle k) {name : CString} (hnone : k.open_file = none)
    (hopen : k.fs.filesys_open name e = some (t.open_file, t.fs)) (hlocks : t.locks = k.locks)
    (hdepth : t.console_lock_depth = k.console_lock_depth) (hblocks : t.blocks = k.blocks) :
    Served k t := by
  obtain ⟨r, s, heq, hspec, hinv⟩ := h.fs.inv.filesys_open name e
  obtain ⟨rfl, rfl⟩ := Prod.mk.inj (Option.some.inj (heq.symm.trans hopen))
  have hidle : (∀ f, t.open_file = some f → t.fs.IsHandle f) → Idle t := fun hhandle =>
    ⟨⟨hinv, h.fs.inv.user_open h.fs.user hspec⟩, hlocks.trans h.locks,
      hdepth.trans h.console_lock_depth, hblocks.trans h.blocks, hhandle⟩
  have hbefore : k.open_sector = none := by
    rw [Kernel.open_sector, hnone, Option.bind_none, Option.bind_none]
  -- no file is opened
  have habsent : SameFiles k.fs t.fs → t.open_file = none → Served k t := by
    intro hsame hfile
    refine ⟨hidle fun f hf => absurd (hfile.symm.trans hf) (Option.some_ne_none f).symm, fun i => ?_⟩
    have hafter : t.open_sector = none := by
      rw [Kernel.open_sector, hfile, Option.bind_none, Option.bind_none]
    rw [hbefore, hafter, opens_of_same h.fs.inv hsame]
  generalize hfile : t.open_file = r at hspec
  cases hspec with
  | absent _ hquiet => exact habsent hquiet.same_files hfile
  | no_memory _ hsame => exact habsent hsame hfile
  | @opened j p u _ inode _ _ hquiet hp _ _ heq' =>
      have hfiles : u.files = k.fs.files := hquiet.same_files.1
      have hfree : t.fs.free_map_file = k.fs.free_map_file := by
        rw [heq']
        exact hquiet.same_files.2.1
      have hnext : k.fs.free_map_file ≠ some k.fs.files.next := by
        obtain ⟨m, file, -, hm, hget, -⟩ := h.fs.inv.map_file.opened
        intro hmap
        obtain rfl := Option.some.inj (hm.symm.trans hmap)
        exact Nat.lt_irrefl _ (Store.get_lt hget)
      have hhandle : Handle t.fs k.fs.files.next ⟨p, 0, false⟩ inode := by
        refine ⟨?_, ?_, hfree ▸ hnext⟩
        · rw [heq', ← hfiles]
          exact Store.get_alloc_self
        · rw [heq']
          exact hp
      refine ⟨hidle fun f hf => ?_, fun i => ?_⟩
      · obtain rfl := Option.some.inj (hfile.symm.trans hf)
        exact ⟨hhandle.user, _, hhandle.get_file⟩
      · have hcount : opens t.fs i =
            opens u i + if file_sector u ⟨p, 0, false⟩ = some i then 1 else 0 := by
          rw [heq']
          exact opens_alloc
        rw [hbefore, open_sector_eq hfile hhandle, hcount, opens_of_same h.fs.inv hquiet.same_files,
          file_sector, hp, Option.map_some]
        rfl

/-- The process opens a file that there is. -/
theorem after_serve_open (h : Idle k) (hnone : k.open_file = none) {a : Nat} {name : CString}
    (hname : UserString k a name) (ha : a ≠ NULL) (hend : a + name.chars.length < PHYS_BASE)
    (hs : k.fs.mem.Ample) (hhas : k.fs.HasName name) (e : DirEntry) :
    After (serve e (.sys_open a)) k (fun _ t => t.open_file ≠ none) fun _ _ => False := by
  obtain ⟨r, s, heq, hspec, -⟩ := h.fs.inv.filesys_open name e
  refine after_bind.2 ((hname.after_validate hend).mono (fun _ t ht => ?_) fun _ _ he => he)
  obtain ⟨hlooked, hfs⟩ := ht
  refine after_bind.2 ((after_syscall_open (hname.looked hlooked)).mono (fun _ u hu => ?_)
    fun st u hu => ?_)
  · refine after_pure.2 ?_
    rcases hu with ⟨hsome, -⟩ | ⟨-, v, -, hopen, -⟩
    · exact absurd (hlooked.open_file.trans hnone) hsome
    · rw [hfs, heq] at hopen
      obtain ⟨rfl, -⟩ := Prod.mk.inj (Option.some.inj hopen)
      generalize u.open_file = file at hspec
      cases hspec with
      | absent hno =>
          obtain ⟨l, hl, hnames⟩ := hhas
          exact absurd hnames (Bool.eq_false_iff.1 (hno hs l hl))
      | no_memory hno => exact absurd hs hno
      | opened => exact Option.some_ne_none _
  · refine hu.cause.elim ha fun hpanic => ?_
    rw [hfs, heq] at hpanic
    exact absurd hpanic (Option.some_ne_none _)

theorem after_syscall_close (h : Idle k) (fd : Nat) :
    After (syscall_close fd) k (fun _ => Served k) fun _ _ => False := by
  refine after_bind.2 (after_open_file.2 ?_)
  cases hopen : k.open_file with
  | none => exact after_pure.2 (Served.refl h)
  | some f =>
      dsimp only
      split
      · obtain ⟨file, inode, hf⟩ := h.handle hopen
        obtain ⟨s, heq, hspec, hinv⟩ := h.fs.inv.file_close hf.get_file hf.user hf.get_inode
        have herase := h.fs.inv.erase_file hf.get_file hf.user
        have hquiet := herase.quiet_close hf.get_inode List.mem_cons_self hspec
        have hclose : (k.fs.file_close f).map (fun s => ((), s)) = some ((), s) := by
          rw [heq, Option.map_some]
        refine after_bind.2 ((after_fs hclose).2 (after_set_open_file.2 ⟨⟨⟨hinv, ?_⟩, h.locks,
          h.console_lock_depth, h.blocks, fun g hg => absurd hg.symm (Option.some_ne_none g)⟩,
          fun i => ?_⟩))
        · exact h.fs.inv.user_close h.fs.user hf hspec
        · have hcount := opens_erase (i := i) hf.get_file
          rw [file_sector, hf.get_inode, Option.map_some] at hcount
          rw [open_sector_eq hopen hf, opens_of_same herase hquiet.same_files, hcount]
          rfl
      · exact after_pure.2 (Served.refl h)

/-! ## A request -/

theorem after_syscall_write (h : Idle k) (hle : buffer + size ≤ PHYS_BASE) (fd : Nat) :
    After (syscall_write fd buffer size) k
      (fun _ t => Served k t ∧ ¬ Faults k (.sys_write fd buffer size))
      (Ended k (Faults k (.sys_write fd buffer size))) := by
  rw [syscall_write]
  split
  · next hfd =>
    refine after_bind.2 ((after_putbuf h buffer size).mono (fun _ t ht => ?_) fun st t ht => ?_)
    · refine after_pure.2 ⟨h.moved ht.moved ht.locks ht.blocks, ?_⟩
      rintro ⟨-, -, ⟨-, j, hj, hnot⟩ | ⟨hfd', -⟩⟩
      · exact hnot (ht.can j hj)
      · exact absurd (hfd.symm.trans hfd') (by decide)
    · obtain ⟨j, hj, hnot⟩ := ht.fault
      exact ht.ended ⟨by omega, hle, Or.inl ⟨hfd, j, hj, hnot⟩⟩
  · next hfd =>
    refine after_bind.2 (after_open_file.2 ?_)
    cases hopen : k.open_file with
    | none =>
        refine after_pure.2 ⟨Served.refl h, ?_⟩
        rintro ⟨-, -, ⟨hfd', -⟩ | ⟨-, hlacks⟩⟩
        · exact hfd hfd'
        · exact not_lacks_of_none hopen hlacks
    | some f =>
        dsimp only
        split
        · next hother =>
          refine after_pure.2 ⟨Served.refl h, ?_⟩
          rintro ⟨-, -, ⟨hfd', -⟩ | ⟨hfd', -⟩⟩
          · exact hfd hfd'
          · exact hother hfd'
        · next htwo =>
          refine after_bind.2 ((after_file_write h hopen buffer size).mono (fun _ t ht => ?_)
            fun st t hst => ?_)
          · refine after_pure.2 ⟨ht.1, ?_⟩
            rintro ⟨-, -, ⟨hfd', -⟩ | ⟨-, -, j, hj, hnot⟩⟩
            · exact hfd hfd'
            · exact hnot (ht.2 j hj)
          · refine hst.ended ⟨fun hfaults => ?_, fun hlacks => ?_⟩
            · exact (hfaults.2.2.resolve_left fun hout => hfd hout.1).2
            · exact ⟨hlacks.lt hle, hle, Or.inr ⟨not_not.1 htwo, hlacks⟩⟩

theorem after_syscall_read (h : Idle k) (hle : buffer + size ≤ PHYS_BASE) (fd : Nat) :
    After (syscall_read fd buffer size) k
      (fun _ t => Served k t ∧ ¬ Faults k (.sys_read fd buffer size))
      (Ended k (Faults k (.sys_read fd buffer size))) := by
  refine after_bind.2 (after_open_file.2 ?_)
  cases hopen : k.open_file with
  | none =>
      exact after_pure.2 ⟨Served.refl h, fun hfaults => not_lacks_of_none hopen hfaults.2.2.2⟩
  | some f =>
      dsimp only
      split
      · next hother =>
        exact after_pure.2 ⟨Served.refl h, fun hfaults => hother hfaults.2.2.1⟩
      · next htwo =>
        refine after_bind.2 ((after_file_read h hopen buffer size).mono (fun _ t ht => ?_)
          fun st t hst => ?_)
        · refine after_pure.2 ⟨ht.1, ?_⟩
          rintro ⟨-, -, -, -, j, hj, hnot⟩
          exact hnot (ht.2 j hj)
        · exact hst.ended ⟨fun hfaults => hfaults.2.2.2, fun hlacks =>
            ⟨hlacks.lt hle, hle, not_not.1 htwo, hlacks⟩⟩

/-- A request is served, or ends the process.  If the process ends within the transfer then something
is held, and else nothing. -/
theorem serve_spec (h : Idle k) (e : DirEntry) (r : Request) :
    After (serve e r) k (fun _ t => Served k t ∧ ¬ Faults k r) (Ended k (Faults k r)) := by
  cases r with
  | sys_exit status =>
      exact after_throw.2 ((Accessed.refl k 0 0).ended h id)
  | sys_open filename =>
      refine after_bind.2 ((after_validate_string k filename).mono (fun _ t ht => ?_)
        fun st t ht => ?_)
      · obtain ⟨haccessed, hmem, name, hname, -⟩ := ht
        have hvalidated := h.moved haccessed.moved haccessed.locks haccessed.blocks
        refine after_bind.2 ((after_syscall_open (hname.looked (haccessed.looked hmem))).mono
          (fun _ u hu => after_pure.2 ⟨hvalidated.trans ?_, id⟩) fun st u hu => ?_)
        · rcases hu with ⟨-, rfl⟩ | ⟨hnone, v, hlooked, hopen, heq⟩
          · exact Served.refl hvalidated.idle
          · have hu : u.locks = v.locks ∧ u.console_lock_depth = v.console_lock_depth ∧
                u.blocks = v.blocks ∧ u.fs = v.fs := by
              rw [heq]
              exact ⟨rfl, rfl, rfl, rfl⟩
            obtain ⟨hlocks, hdepth, hblocks, hfs⟩ := hu
            rw [← hfs] at hopen
            exact hvalidated.idle.opened hnone hopen (hlocks.trans hlooked.locks)
              (hdepth.trans hlooked.console_lock_depth) (hblocks.trans hlooked.blocks)
        · obtain ⟨rfl, -⟩ := hu
          exact id
      · obtain ⟨rfl, haccessed, -⟩ := ht
        exact haccessed.ended h id
  | sys_write fd buffer size =>
      refine after_validated (fun hle => ?_) fun hout => ?_
      · exact after_bind.2 ((after_syscall_write h hle fd).mono (fun _ _ ht => after_pure.2 ht)
          fun _ _ hst => hst)
      · exact (Accessed.refl k 0 0).ended h fun hfaults => hout ⟨hfaults.1, hfaults.2.1⟩
  | sys_read fd buffer size =>
      refine after_validated (fun hle => ?_) fun hout => ?_
      · exact after_bind.2 ((after_syscall_read h hle fd).mono (fun _ _ ht => after_pure.2 ht)
          fun _ _ hst => hst)
      · exact (Accessed.refl k 0 0).ended h fun hfaults => hout ⟨hfaults.1, hfaults.2.1⟩
  | sys_close fd =>
      exact after_bind.2 ((after_syscall_close h fd).mono
        (fun _ t ht => after_pure.2 ⟨ht, id⟩) fun _ _ hst => hst.elim)
  | unimplemented =>
      exact after_pure.2 ⟨Served.refl h, id⟩

end HwMemory

end Berk162
