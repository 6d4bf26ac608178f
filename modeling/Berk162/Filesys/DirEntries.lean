import Berk162.Filesys.FsNames
import Berk162.Filesys.InodeBytes

/-!
# DirEntries — the entries of any open directory

An inode that is open is a directory of as many entries as its data have room for.  A loop over the
entries asks for memory once for each entry it reads and takes a failure for the end of the
directory; `LoopEnd` says where it ends, from the entries and the answers of `malloc` alone.
-/

namespace Berk162

/-- The pattern after `n` calls. -/
def Mallocs.drop (mem : Mallocs) (n : Nat) : Mallocs := fun j => mem (n + j)

theorem Mallocs.drop_zero (mem : Mallocs) : mem.drop 0 = mem := by
  funext j
  exact congrArg mem (Nat.zero_add j)

theorem Mallocs.malloc_drop (mem : Mallocs) (n : Nat) :
    (mem.drop n).malloc = (mem n, mem.drop (n + 1)) := by
  refine Prod.ext rfl ?_
  funext j
  exact congrArg mem (by omega)

/-- How many entries a directory has. -/
def dir_entries (data : InodeDisk) : Nat := data.length / sizeof_dir_entry

/-- The entry number `k` of the directory with these data. -/
def entry_at (dev : Block) (data : InodeDisk) (k : Nat) : DirEntry :=
  DirEntry.ofBytes fun j => dev.byte data.start (k * sizeof_dir_entry + j)

theorem entry_at_sector_lt (dev : Block) (data : InodeDisk) (k : Nat) :
    (entry_at dev data k).inode_sector < WORD := by
  have hlt := le_val_lt
    (window (fun j => dev.byte data.start (k * sizeof_dir_entry + j)) 0 4)
  rw [length_window] at hlt
  exact hlt

/-- The inode at `p` is open, and its data lie on a device that can be written. -/
structure DirOpen (s : FileSys) (p : Nat) (i : Inode) : Prop where
  get : s.open_inodes.get p = some i
  fits : i.data.Fits s.fs_device
  type : s.fs_device.type ≠ .foreign

/-- A loop over `n` entries, for which the calls of `malloc` return `mem`, ends at `k`: because there
is no memory to read entry `k`, or at an entry that `stop` holds of, or behind the last one. -/
structure LoopEnd (entry : Nat → DirEntry) (n : Nat) (mem : Mallocs) (stop : DirEntry → Bool)
    (k : Nat) : Prop where
  le : k ≤ n
  before : ∀ j, j < k → mem j = true ∧ stop (entry j) = false
  here : k < n → mem k = false ∨ stop (entry k) = true

theorem LoopEnd.unique {entry : Nat → DirEntry} {n k l : Nat} {mem : Mallocs}
    {stop : DirEntry → Bool} (hk : LoopEnd entry n mem stop k) (hl : LoopEnd entry n mem stop l) :
    k = l := by
  have hnot : ∀ {a b : Nat}, LoopEnd entry n mem stop a → LoopEnd entry n mem stop b → ¬ a < b := by
    intro a b ha hb hlt
    obtain ⟨hmem, hstop⟩ := hb.before a hlt
    rcases ha.here (Nat.lt_of_lt_of_le hlt hb.le) with h | h
    · rw [hmem] at h
      cases h
    · rw [hstop] at h
      cases h
  exact Nat.le_antisymm (Nat.not_lt.1 (hnot hl hk)) (Nat.not_lt.1 (hnot hk hl))

/-- How often a loop that ends at `k` has called `malloc`.  Behind the last entry there may be a piece
of one, which is read as well. -/
def loop_mallocs (data : InodeDisk) (k : Nat) : Nat :=
  if k = dir_entries data ∧ data.length % sizeof_dir_entry = 0 then k else k + 1

variable {s s' : FileSys} {p k n r : Nat} {i : Inode} {stop : DirEntry → Bool} {e : DirEntry}

namespace DirOpen

theorem set_mem (h : DirOpen s p i) (mem : Mallocs) : DirOpen (s.setMem mem) p i :=
  ⟨h.get, h.fits, h.type⟩

theorem read (h : DirOpen s p i) (size offset : Nat) : s.inode_read_at p size offset =
    some (window (s.fs_device.byte i.data.start) offset
        (moved s.mem offset (in_file i.data size offset)),
      s.setMem (mem_after s.mem offset (in_file i.data size offset))) := by
  simp only [FileSys.inode_read_at, h.get, inode_read_loop_eq h.fits, Option.bind_eq_bind,
    Option.bind_some]
  rfl

/-- One entry is read through a bounce buffer. -/
theorem read_entry (h : DirOpen s p i) (hk : k < dir_entries i.data) :
    s.inode_read_at p sizeof_dir_entry (k * sizeof_dir_entry) =
      some (if s.mem 0 = true then
          window (s.fs_device.byte i.data.start) (k * sizeof_dir_entry) sizeof_dir_entry
        else [], s.setMem s.mem.malloc.2) := by
  have hsize : sizeof_dir_entry = 20 := rfl
  have hblock : BLOCK_SECTOR_SIZE = 512 := rfl
  have hall : in_file i.data sizeof_dir_entry (k * sizeof_dir_entry) = sizeof_dir_entry := by
    rw [dir_entries, hsize] at hk
    rw [in_file, hsize]
    omega
  have hnot : ¬ Whole (k * sizeof_dir_entry) sizeof_dir_entry := by
    simp only [Whole, hsize, hblock]
    omega
  have hzero : sizeof_dir_entry / BLOCK_SECTOR_SIZE * BLOCK_SECTOR_SIZE = 0 := rfl
  rw [h.read, hall, mem_after, if_neg (not_or.2 ⟨by decide, hnot⟩), moved]
  simp only [hnot, false_or, hzero, ite_self]
  by_cases hmem : s.mem 0 = true
  · simp only [hmem, if_true]
  · simp only [hmem]
    rfl

/-- Behind the last entry less than an entry is read. -/
theorem read_last (h : DirOpen s p i) : ∃ bytes : Bytes, bytes.length < sizeof_dir_entry ∧
    s.inode_read_at p sizeof_dir_entry (dir_entries i.data * sizeof_dir_entry) =
      some (bytes, s.setMem (if i.data.length % sizeof_dir_entry = 0 then s.mem
        else s.mem.malloc.2)) := by
  have hsize : sizeof_dir_entry = 20 := rfl
  have hblock : BLOCK_SECTOR_SIZE = 512 := rfl
  have hpiece : in_file i.data sizeof_dir_entry (dir_entries i.data * sizeof_dir_entry) =
      i.data.length % sizeof_dir_entry := by
    rw [in_file, dir_entries, hsize]
    omega
  have hmem : mem_after s.mem (dir_entries i.data * sizeof_dir_entry)
      (i.data.length % sizeof_dir_entry) =
      if i.data.length % sizeof_dir_entry = 0 then s.mem else s.mem.malloc.2 := by
    by_cases hzero : i.data.length % sizeof_dir_entry = 0
    · rw [hzero, mem_after_zero, if_pos rfl]
    · rw [mem_after, if_neg, if_neg hzero]
      simp only [Whole, hsize, hblock] at hzero ⊢
      omega
  have hle := (moves_moved s.mem i.data sizeof_dir_entry (dir_entries i.data * sizeof_dir_entry)).le
  rw [← in_file, hpiece] at hle
  refine ⟨_, ?_, by rw [h.read, hpiece, hmem]⟩
  rw [length_window]
  exact Nat.lt_of_le_of_lt hle (Nat.mod_lt _ (by decide))

end DirOpen

/-- An entry that is read whole is the one in the directory. -/
theorem load_entry_at (e : DirEntry) (dev : Block) (data : InodeDisk) (k : Nat) :
    e.load (window (dev.byte data.start) (k * sizeof_dir_entry) sizeof_dir_entry) =
      entry_at dev data k := by
  refine DirEntry.ofBytes_congr fun j hj => ?_
  rw [overlay_of_mem (Nat.zero_le j) (by rw [length_window]; omega), Nat.sub_zero, getD_window hj]

/-! ## The loops -/

/-- What a loop over the directory returns when it ends at `r`. -/
structure Scanned (s : FileSys) (i : Inode) (stop : DirEntry → Bool) (r : Nat) (e : DirEntry) :
    Prop where
  loop_end : LoopEnd (entry_at s.fs_device i.data) (dir_entries i.data) s.mem stop r
  found : r < dir_entries i.data ∧ s.mem r = true → e = entry_at s.fs_device i.data r

/-- The loop from entry `k` on, `n` entries being left. -/
theorem DirOpen.scan_entries (h : DirOpen s p i) (stop : DirEntry → Bool) (n : Nat) (e : DirEntry)
    (hk : n + k = dir_entries i.data)
    (hbefore : ∀ j, j < k → s.mem j = true ∧ stop (entry_at s.fs_device i.data j) = false) :
    ∃ r e', Scanned s i stop r e' ∧
      FileSys.scan_entries p stop (n + 1) (s.setMem (s.mem.drop k)) (k * sizeof_dir_entry) e =
        some (decide (r < dir_entries i.data ∧ s.mem r = true), e', r * sizeof_dir_entry,
          s.setMem (s.mem.drop (loop_mallocs i.data r))) := by
  have hshort : ∀ bytes : Bytes, bytes.length < sizeof_dir_entry → ¬ bytes.length = sizeof_dir_entry :=
    fun bytes hlt => Nat.ne_of_lt hlt
  induction n generalizing k e with
  | zero =>
      obtain rfl : k = dir_entries i.data := by omega
      obtain ⟨bytes, hlen, hread⟩ := (h.set_mem (s.mem.drop (dir_entries i.data))).read_last
      refine ⟨dir_entries i.data, e.load bytes,
        ⟨⟨Nat.le_refl _, hbefore, fun hlt => absurd hlt (Nat.lt_irrefl _)⟩,
          fun hlt => absurd hlt.1 (Nat.lt_irrefl _)⟩, ?_⟩
      have hmem : (if i.data.length % sizeof_dir_entry = 0 then s.mem.drop (dir_entries i.data)
          else (s.mem.drop (dir_entries i.data)).malloc.2) =
          s.mem.drop (loop_mallocs i.data (dir_entries i.data)) := by
        rw [loop_mallocs, Mallocs.malloc_drop]
        split
        · next hzero =>
          rw [if_pos ⟨rfl, hzero⟩]
        · next hzero =>
          rw [if_neg (fun hand => hzero hand.2)]
      rw [FileSys.setMem_mem, hmem] at hread
      simp only [FileSys.scan_entries, hread, Option.bind_eq_bind, Option.bind_some,
        if_neg (hshort bytes hlen), Nat.lt_irrefl, false_and, decide_false]
      rfl
  | succ n ih =>
      have hlt : k < dir_entries i.data := by omega
      have hread := (h.set_mem (s.mem.drop k)).read_entry hlt
      have hmallocs : loop_mallocs i.data k = k + 1 := by
        rw [loop_mallocs, if_neg (fun hand => Nat.ne_of_lt hlt hand.1)]
      have hmem0 : (s.mem.drop k) 0 = s.mem k := rfl
      rw [FileSys.setMem_mem, Mallocs.malloc_drop, hmem0] at hread
      cases hmem : s.mem k with
      | false =>
          -- no memory: the loop takes this for the end of the directory
          refine ⟨k, e.load [],
            ⟨⟨Nat.le_of_lt hlt, hbefore, fun _ => Or.inl hmem⟩, fun hand => ?_⟩, ?_⟩
          · rw [hmem] at hand
            cases hand.2
          · rw [hmem, if_neg Bool.false_ne_true] at hread
            simp only [FileSys.scan_entries, hread, Option.bind_eq_bind, Option.bind_some,
              if_neg (hshort [] (by decide)), hmem, hmallocs, Bool.false_eq_true, and_false,
              decide_false]
            rfl
      | true =>
          rw [hmem, if_pos rfl] at hread
          have hlen : (window (s.fs_device.byte i.data.start) (k * sizeof_dir_entry)
              sizeof_dir_entry).length = sizeof_dir_entry := length_window
          cases hstop : stop (entry_at s.fs_device i.data k) with
          | true =>
              refine ⟨k, entry_at s.fs_device i.data k,
                ⟨⟨Nat.le_of_lt hlt, hbefore, fun _ => Or.inr hstop⟩, fun _ => rfl⟩, ?_⟩
              simp only [FileSys.scan_entries, hread, Option.bind_eq_bind, Option.bind_some,
                FileSys.setMem_fs_device, if_pos hlen, load_entry_at, hstop, if_true, hmem, hlt,
                hmallocs, and_self, decide_true]
              rfl
          | false =>
              obtain ⟨r, e', hscanned, hscan⟩ := ih (k := k + 1) (entry_at s.fs_device i.data k)
                (by omega) (fun j hj => by
                  rcases Nat.lt_succ_iff_lt_or_eq.1 hj with hj | rfl
                  · exact hbefore j hj
                  · exact ⟨hmem, hstop⟩)
              refine ⟨r, e', hscanned, ?_⟩
              rw [FileSys.scan_entries, hread]
              simp only [Option.bind_eq_bind, Option.bind_some, FileSys.setMem_fs_device, if_pos hlen,
                load_entry_at, hstop, Bool.false_eq_true, if_false]
              rw [Nat.succ_mul] at hscan
              exact hscan

theorem DirOpen.scan_dir (h : DirOpen s p i) (stop : DirEntry → Bool) (e : DirEntry) :
    ∃ r e', Scanned s i stop r e' ∧ s.scan_dir p stop e =
      some (decide (r < dir_entries i.data ∧ s.mem r = true), e', r * sizeof_dir_entry,
        s.setMem (s.mem.drop (loop_mallocs i.data r))) := by
  obtain ⟨r, e', hscanned, hscan⟩ := h.scan_entries (k := 0) stop (dir_entries i.data) e rfl
    (fun j hj => absurd hj (Nat.not_lt_zero j))
  refine ⟨r, e', hscanned, ?_⟩
  rw [Mallocs.drop_zero, Nat.zero_mul] at hscan
  simp only [FileSys.scan_dir, h.get, Option.bind_eq_bind, Option.bind_some]
  exact hscan

theorem DirOpen.lookup (h : DirOpen s p i) (name : CString) (e : DirEntry) :
    ∃ k, LoopEnd (entry_at s.fs_device i.data) (dir_entries i.data) s.mem (FileSys.names name) k ∧
      s.lookup p name e = some
        (if k < dir_entries i.data ∧ s.mem k = true then
          some (entry_at s.fs_device i.data k, k * sizeof_dir_entry) else none,
        s.setMem (s.mem.drop (loop_mallocs i.data k))) := by
  obtain ⟨k, e', hscanned, hscan⟩ := h.scan_dir (FileSys.names name) e
  refine ⟨k, hscanned.loop_end, ?_⟩
  simp only [FileSys.lookup, hscan, Option.bind_eq_bind, Option.bind_some, decide_eq_true_eq]
  split
  · next hfound =>
    rw [hscanned.found hfound]
    rfl
  · rfl

/-! ## Writing an entry -/

/-- All of an entry is written, or nothing of it; behind the last entry less than one. -/
theorem DirOpen.write_entry (h : DirOpen s p i) (e : DirEntry) (hr : r ≤ dir_entries i.data) :
    ∃ n s', s.inode_write_at p e.toBytes (r * sizeof_dir_entry) = some (n, s') ∧
      InodeWritten s s' i e.toBytes (r * sizeof_dir_entry) n ∧
      s'.fs_device.type = s.fs_device.type ∧
      (n = sizeof_dir_entry ↔ r < dir_entries i.data ∧ i.deny_write_cnt = 0 ∧ s.mem 0 = true) ∧
      (r < dir_entries i.data → n ≠ sizeof_dir_entry → n = 0) := by
  have hsize : sizeof_dir_entry = 20 := rfl
  have hblock : BLOCK_SECTOR_SIZE = 512 := rfl
  have hlen := e.length_toBytes
  by_cases hdeny : i.deny_write_cnt = 0
  · have hmoves := moves_moved s.mem i.data e.toBytes.length (r * sizeof_dir_entry)
    refine ⟨_, _, ?_, inodeWritten_patch h.fits hmoves.le (mem_after s.mem (r * sizeof_dir_entry)
      (in_file i.data e.toBytes.length (r * sizeof_dir_entry))), rfl, ?_⟩
    · simp only [FileSys.inode_write_at, h.get, hdeny, ne_eq, not_true_eq_false, if_false,
        inode_write_loop_eq h.fits h.type, Option.bind_eq_bind, Option.bind_some]
      rfl
    · rw [hlen] at hmoves ⊢
      rcases Nat.lt_or_eq_of_le hr with hlt | rfl
      · -- one entry is never a whole number of sectors
        have hall : in_file i.data sizeof_dir_entry (r * sizeof_dir_entry) = sizeof_dir_entry := by
          rw [dir_entries, hsize] at hlt
          rw [in_file, hsize]
          omega
        have hnot : ¬ Whole (r * sizeof_dir_entry) sizeof_dir_entry := by
          simp only [Whole, hsize, hblock]
          omega
        have hzero : sizeof_dir_entry / BLOCK_SECTOR_SIZE * BLOCK_SECTOR_SIZE = 0 := rfl
        rw [hall, moved]
        simp only [hnot, false_or, hzero, ite_self]
        cases hmem : s.mem 0 with
        | false =>
            exact ⟨⟨fun heq => (by cases heq), fun hand => (by cases hand.2.2)⟩, fun _ _ => rfl⟩
        | true =>
            exact ⟨⟨fun _ => ⟨hlt, hdeny, rfl⟩, fun _ => rfl⟩, fun _ hne => absurd rfl hne⟩
      · have hle := hmoves.le
        have hrest : i.data.length - dir_entries i.data * sizeof_dir_entry < sizeof_dir_entry := by
          rw [dir_entries, hsize]
          omega
        refine ⟨⟨fun heq => ?_, fun hand => absurd hand.1 (Nat.lt_irrefl _)⟩,
          fun hlt => absurd hlt (Nat.lt_irrefl _)⟩
        rw [heq] at hle
        omega
  · obtain ⟨n, s', hwrite, hwritten, hzero, _⟩ :=
      inode_write_at_spec h.get h.fits h.type e.toBytes (r * sizeof_dir_entry)
    have hdenied : s.inode_write_at p e.toBytes (r * sizeof_dir_entry) = some (0, s) := by
      simp only [FileSys.inode_write_at, h.get, ne_eq, hdeny, not_false_eq_true, if_true,
        Option.bind_eq_bind, Option.bind_some]
      rfl
    rw [hdenied] at hwrite
    cases hwrite
    refine ⟨0, s, hdenied, hwritten, rfl, ⟨fun heq => (by cases heq), fun hand => ?_⟩, fun _ _ => rfl⟩
    exact absurd hand.2.1 hdeny

/-- The entry is there, and the others are what they were. -/
theorem entry_written (hw : InodeWritten s s' i e.toBytes (r * sizeof_dir_entry) sizeof_dir_entry)
    (he : e.inode_sector < WORD) (l : Nat) :
    entry_at s'.fs_device i.data l = if l = r then e else entry_at s.fs_device i.data l := by
  have hsize : sizeof_dir_entry = 20 := rfl
  have hbyte : ∀ j, s'.fs_device.byte i.data.start (l * sizeof_dir_entry + j) = _ := fun j =>
    hw.byte (l * sizeof_dir_entry + j)
  by_cases hl : l = r
  · subst hl
    rw [if_pos rfl]
    conv_rhs => rw [← DirEntry.ofBytes_toBytes he]
    refine DirEntry.ofBytes_congr fun j hj => ?_
    rw [hbyte, if_pos (by omega), Nat.add_sub_cancel_left]
  · rw [if_neg hl]
    refine DirEntry.ofBytes_congr fun j hj => ?_
    rw [hbyte, if_neg (by rw [hsize] at hj ⊢; omega)]
    rfl

/-- Without a whole entry written, all entries are what they were. -/
theorem entry_unwritten (hw : InodeWritten s s' i e.toBytes (r * sizeof_dir_entry) n)
    (hr : r ≤ dir_entries i.data) (hn : r < dir_entries i.data → n = 0) {l : Nat}
    (hl : l < dir_entries i.data) :
    entry_at s'.fs_device i.data l = entry_at s.fs_device i.data l := by
  have hsize : sizeof_dir_entry = 20 := rfl
  refine DirEntry.ofBytes_congr fun j hj => ?_
  have hbyte : s'.fs_device.byte i.data.start (l * sizeof_dir_entry + j) = _ :=
    hw.byte (l * sizeof_dir_entry + j)
  rw [hbyte, if_neg]
  · rfl
  · rw [hsize] at hj ⊢
    rcases Nat.lt_or_eq_of_le hr with hlt | rfl
    · have hzero := hn hlt
      omega
    · omega

end Berk162
