import Berk162.Filesys.FsOpen

/-!
# FsDir — the root directory, under the invariant

`scanned` is what a loop over the entries finds; it stops early when there is no memory for the
bounce buffer.  `set_entry` is the rule for a change of one entry.
-/

namespace Berk162

namespace DirEntry

theorem length_toBytes (e : DirEntry) : e.toBytes.length = sizeof_dir_entry := by
  simp only [toBytes, List.length_append, length_le_bytes, e.length_name, List.length_cons,
    List.length_nil]
  rfl

/-- What was written is read back. -/
theorem ofBytes_toBytes {e : DirEntry} (h : e.inode_sector < WORD) :
    ofBytes (fun i => e.toBytes.getD i 0) = e := by
  have hlen := e.length_name
  have hmax : NAME_MAX = 14 := rfl
  have hsector : window (fun i => e.toBytes.getD i 0) 0 4 = le_bytes 4 e.inode_sector := by
    have hself := window_getD (le_bytes 4 e.inode_sector) 0
    rw [length_le_bytes] at hself
    conv_rhs => rw [← hself]
    refine window_congr fun i _ hi => ?_
    rw [toBytes, List.append_assoc, List.getD_append _ _ _ _ (by rw [length_le_bytes]; omega)]
  have hname : window (fun i => e.toBytes.getD i 0) 4 (NAME_MAX + 1) = e.name := by
    have hself := window_getD e.name 0
    rw [hlen] at hself
    conv_rhs => rw [← hself]
    refine window_shift fun i hi => ?_
    rw [toBytes, List.append_assoc,
      List.getD_append_right _ _ _ _ (by rw [length_le_bytes]; omega), length_le_bytes,
      Nat.add_sub_cancel_left, List.getD_append _ _ _ _ (by omega), Nat.zero_add]
  have huse : e.toBytes.getD 19 0 = if e.in_use then 1 else 0 := by
    rw [toBytes, List.getD_append_right _ _ _ _
      (by simp only [List.length_append, length_le_bytes, hlen]; omega)]
    simp only [List.length_append, length_le_bytes, hlen, hmax]
    rfl
  cases e with
  | mk inode_sector name length_name in_use =>
      simp only [ofBytes, hsector, hname, huse, DirEntry.mk.injEq, true_and]
      refine ⟨le_val_le_bytes_of_lt h, ?_⟩
      cases in_use <;> rfl

end DirEntry

theorem dir_entry_sector_lt (dev : Block) (k : Nat) : (dir_entry dev k).inode_sector < WORD := by
  have hlt := le_val_lt (window (fun j => data_byte dev ROOT_DIR_SECTOR (k * sizeof_dir_entry + j)) 0 4)
  rw [length_window] at hlt
  exact hlt

/-! ## Reading entries -/

/-- What a loop over the entries from number `k` on finds, `n` of them being left: whether `stop`
holds of an entry, the number at which the loop ends, and the memory then. -/
def scanned (dev : Block) (stop : DirEntry → Bool) : Nat → Nat → Mallocs → Bool × Nat × Mallocs
  | 0, k, mem => (false, k, mem)
  | n + 1, k, mem =>
      if mem 0 then
        if stop (dir_entry dev k) then (true, k, mem.malloc.2)
        else scanned dev stop n (k + 1) mem.malloc.2
      else (false, k, mem.malloc.2)

variable {s s' : FileSys} {held : List Nat} {p k : Nat} {inode : Inode} {stop : DirEntry → Bool}

namespace FsInv

/-- One entry is read through a bounce buffer. -/
theorem read_entry (h : FsInv held s) (hp : s.open_inodes.get p = some inode)
    (hroot : inode.sector = ROOT_DIR_SECTOR) (hk : k < ROOT_ENTRIES) :
    s.inode_read_at p sizeof_dir_entry (k * sizeof_dir_entry) =
      some (if s.mem 0 = true then
          window (data_byte s.fs_device ROOT_DIR_SECTOR) (k * sizeof_dir_entry) sizeof_dir_entry
        else [], s.setMem s.mem.malloc.2) := by
  have hsize : sizeof_dir_entry = 20 := rfl
  have hentries : ROOT_ENTRIES = 16 := rfl
  have hblock : BLOCK_SECTOR_SIZE = 512 := rfl
  have hall : in_file inode.data sizeof_dir_entry (k * sizeof_dir_entry) = sizeof_dir_entry := by
    rw [h.in_file_eq hp, hroot, h.dir.root_length, hsize, hentries]
    omega
  have hnot : ¬ Whole (k * sizeof_dir_entry) sizeof_dir_entry := by
    simp only [Whole, hsize, hblock]
    omega
  rw [h.inode_read_at hp, hall, hroot, mem_after, if_neg (not_or.2 ⟨by decide, hnot⟩), moved]
  simp only [hnot, false_or]
  by_cases hmem : s.mem 0 = true
  · simp only [hmem, if_true]
  · have hzero : sizeof_dir_entry / BLOCK_SECTOR_SIZE * BLOCK_SECTOR_SIZE = 0 := rfl
    simp only [hmem, hzero, ite_self]
    rfl

/-- There is nothing to read behind the last entry. -/
theorem read_end (h : FsInv held s) (hp : s.open_inodes.get p = some inode)
    (hroot : inode.sector = ROOT_DIR_SECTOR) :
    s.inode_read_at p sizeof_dir_entry (ROOT_ENTRIES * sizeof_dir_entry) = some ([], s) := by
  have hnone : in_file inode.data sizeof_dir_entry (ROOT_ENTRIES * sizeof_dir_entry) = 0 := by
    rw [h.in_file_eq hp, hroot, h.dir.root_length, Nat.sub_self, Nat.min_zero]
  rw [h.inode_read_at hp, hnone, moved_zero, mem_after_zero, window_zero]
  rfl

end FsInv

/-- An entry that is read whole is the one in the directory. -/
theorem load_entry (e : DirEntry) (dev : Block) (k : Nat) :
    e.load (window (data_byte dev ROOT_DIR_SECTOR) (k * sizeof_dir_entry) sizeof_dir_entry) =
      dir_entry dev k := by
  refine DirEntry.ofBytes_congr fun j hj => ?_
  rw [overlay_of_mem (Nat.zero_le j) (by rw [length_window]; omega), Nat.sub_zero, getD_window hj]

theorem FsInv.scan_entries (h : FsInv held s) (hp : s.open_inodes.get p = some inode)
    (hroot : inode.sector = ROOT_DIR_SECTOR) (n : Nat) (e : DirEntry) (hk : n + k = ROOT_ENTRIES) :
    ∃ e', FileSys.scan_entries p stop (n + 1) s (k * sizeof_dir_entry) e =
        some ((scanned s.fs_device stop n k s.mem).1, e',
          (scanned s.fs_device stop n k s.mem).2.1 * sizeof_dir_entry,
          s.setMem (scanned s.fs_device stop n k s.mem).2.2) ∧
      ((scanned s.fs_device stop n k s.mem).1 = true →
        e' = dir_entry s.fs_device (scanned s.fs_device stop n k s.mem).2.1) := by
  induction n generalizing s k e with
  | zero =>
      obtain rfl : k = ROOT_ENTRIES := by omega
      refine ⟨e.load [], ?_, fun hfound => by cases hfound⟩
      have hread := h.read_end hp hroot
      have hne : ¬ ([] : Bytes).length = sizeof_dir_entry := by decide
      simp only [FileSys.scan_entries, hread, Option.bind_eq_bind, Option.bind_some, if_neg hne]
      rfl
  | succ n ih =>
      have hread := h.read_entry hp hroot (k := k) (by omega)
      by_cases hmem : s.mem 0 = true
      · have hlen : (window (data_byte s.fs_device ROOT_DIR_SECTOR) (k * sizeof_dir_entry)
            sizeof_dir_entry).length = sizeof_dir_entry := length_window
        rw [if_pos hmem] at hread
        rw [FileSys.scan_entries, hread]
        simp only [Option.bind_eq_bind, Option.bind_some, if_pos hlen, load_entry, scanned, hmem,
          if_true]
        cases hstop : stop (dir_entry s.fs_device k) with
        | true =>
            exact ⟨_, rfl, fun _ => rfl⟩
        | false =>
            have hnext := ih (h.set_mem s.mem.malloc.2) hp (k := k + 1)
              (dir_entry s.fs_device k) (by omega)
            rw [Nat.succ_mul] at hnext
            exact hnext
      · have hne : ¬ ([] : Bytes).length = sizeof_dir_entry := by decide
        rw [if_neg hmem] at hread
        refine ⟨e.load [], ?_, fun hfound => ?_⟩
        · rw [FileSys.scan_entries, hread]
          simp only [Option.bind_eq_bind, Option.bind_some, if_neg hne, scanned, hmem]
          rfl
        · simp only [scanned, hmem, if_false, Bool.false_eq_true] at hfound

/-- What a loop over the whole directory finds. -/
def FileSys.scanned (s : FileSys) (stop : DirEntry → Bool) : Bool × Nat × Mallocs :=
  Berk162.scanned s.fs_device stop ROOT_ENTRIES 0 s.mem

/-- The loop ends at an entry that `stop` holds of, or anywhere up to the end. -/
theorem scanned_spec (dev : Block) (stop : DirEntry → Bool) (n k : Nat) (mem : Mallocs) :
    (scanned dev stop n k mem).2.1 ≤ n + k ∧
      ((scanned dev stop n k mem).1 = true → (scanned dev stop n k mem).2.1 < n + k ∧
        stop (dir_entry dev (scanned dev stop n k mem).2.1) = true) := by
  induction n generalizing k mem with
  | zero =>
      exact ⟨(Nat.zero_add k).ge, fun hfound => by cases hfound⟩
  | succ n ih =>
      rw [scanned]
      split
      · split
        · rename_i hstop
          exact ⟨by simp only; omega, fun _ => ⟨by simp only; omega, hstop⟩⟩
        · have hnext := ih (k + 1) mem.malloc.2
          rw [Nat.add_right_comm, Nat.add_assoc]
          exact hnext
      · exact ⟨by simp only; omega, fun hfound => by cases hfound⟩

/-- With enough memory the loop ends early only at an entry that `stop` holds of. -/
theorem scanned_ample {dev : Block} {stop : DirEntry → Bool} {n k : Nat} {mem : Mallocs}
    (hmem : mem.Ample) : (scanned dev stop n k mem).2.2.Ample ∧
      ((scanned dev stop n k mem).1 = false →
        (scanned dev stop n k mem).2.1 = n + k ∧ ∀ l, k ≤ l → l < n + k → stop (dir_entry dev l) = false) := by
  induction n generalizing k mem with
  | zero =>
      exact ⟨hmem, fun _ => ⟨(Nat.zero_add k).symm, fun l hl hlt => by omega⟩⟩
  | succ n ih =>
      rw [scanned, if_pos (hmem 0)]
      split
      · exact ⟨hmem.tail, fun hfound => by cases hfound⟩
      · rename_i hstop
        rcases ih (k := k + 1) hmem.tail with ⟨hample, hnone⟩
        refine ⟨hample, fun hfound => ?_⟩
        rcases hnone hfound with ⟨hend, hall⟩
        refine ⟨by omega, fun l hl hlt => ?_⟩
        rcases Nat.eq_or_lt_of_le hl with rfl | hgt
        · exact Bool.eq_false_iff.2 hstop
        · exact hall l hgt (by omega)

namespace FileSys

theorem scanned_le (s : FileSys) (stop : DirEntry → Bool) : (s.scanned stop).2.1 ≤ ROOT_ENTRIES :=
  (scanned_spec s.fs_device stop ROOT_ENTRIES 0 s.mem).1

theorem scanned_found (h : (s.scanned stop).1 = true) : (s.scanned stop).2.1 < ROOT_ENTRIES ∧
    stop (dir_entry s.fs_device (s.scanned stop).2.1) = true :=
  (scanned_spec s.fs_device stop ROOT_ENTRIES 0 s.mem).2 h

theorem scanned_none (hmem : s.mem.Ample) (h : (s.scanned stop).1 = false) :
    (s.scanned stop).2.1 = ROOT_ENTRIES ∧
      ∀ l, l < ROOT_ENTRIES → stop (dir_entry s.fs_device l) = false := by
  rcases (@scanned_ample s.fs_device stop ROOT_ENTRIES 0 _ hmem).2 h
    with ⟨hend, hall⟩
  exact ⟨hend, fun l hl => hall l (Nat.zero_le l) hl⟩

end FileSys

theorem Mallocs.Ample.scanned (hmem : s.mem.Ample) (stop : DirEntry → Bool) :
    (s.scanned stop).2.2.Ample :=
  (@scanned_ample s.fs_device stop ROOT_ENTRIES 0 _ hmem).1

namespace FsInv

theorem scan_dir (h : FsInv held s) (hp : s.open_inodes.get p = some inode)
    (hroot : inode.sector = ROOT_DIR_SECTOR) (e : DirEntry) :
    ∃ e', s.scan_dir p stop e = some ((s.scanned stop).1, e',
        (s.scanned stop).2.1 * sizeof_dir_entry, s.setMem (s.scanned stop).2.2) ∧
      ((s.scanned stop).1 = true → e' = dir_entry s.fs_device (s.scanned stop).2.1) := by
  have hpasses : inode.data.length / sizeof_dir_entry = ROOT_ENTRIES := by
    rw [h.opened.data_eq p inode hp, hroot, h.dir.root_length]
    rfl
  rcases @scan_entries _ _ _ 0 _ stop h hp hroot ROOT_ENTRIES e rfl with ⟨e', hscan, hfound⟩
  refine ⟨e', ?_, hfound⟩
  simp only [FileSys.scan_dir, hp, hpasses, Option.bind_eq_bind, Option.bind_some]
  rw [Nat.zero_mul] at hscan
  exact hscan

theorem lookup (h : FsInv held s) (hp : s.open_inodes.get p = some inode)
    (hroot : inode.sector = ROOT_DIR_SECTOR) (name : CString) (e : DirEntry) :
    s.lookup p name e = some
      (if (s.scanned (FileSys.names name)).1 = true then
        some (dir_entry s.fs_device (s.scanned (FileSys.names name)).2.1,
          (s.scanned (FileSys.names name)).2.1 * sizeof_dir_entry)
      else none, s.setMem (s.scanned (FileSys.names name)).2.2) := by
  rcases @scan_dir _ _ _ _ (FileSys.names name) h hp hroot e with ⟨e', hscan, hfound⟩
  simp only [FileSys.lookup, hscan, Option.bind_eq_bind, Option.bind_some]
  cases hcase : (s.scanned (FileSys.names name)).1 with
  | false =>
      simp only [Bool.false_eq_true, if_false]
      rfl
  | true =>
      rw [hfound hcase]
      simp only [if_true]
      rfl

end FsInv

/-! ## Writing an entry -/

/-- The device after an entry has been written. -/
def entry_patch (dev : Block) (k : Nat) (e : DirEntry) : Block :=
  data_patch dev ROOT_DIR_SECTOR (k * sizeof_dir_entry) e.toBytes

section
variable {dev : Block} {e : DirEntry} {a l : Nat} (hdir : DirInv dev)
include hdir

theorem DirInv.length_lt : (disk_inode dev ROOT_DIR_SECTOR).length < OFF_T := by
  rw [hdir.root_length]
  decide

theorem DirInv.entry_fits (hk : k < ROOT_ENTRIES) :
    k * sizeof_dir_entry + e.toBytes.length ≤ (disk_inode dev ROOT_DIR_SECTOR).length := by
  have hle : (k + 1) * sizeof_dir_entry ≤ ROOT_ENTRIES * sizeof_dir_entry :=
    Nat.mul_le_mul_right _ hk
  rw [hdir.root_length, e.length_toBytes, ← Nat.succ_mul]
  exact hle

theorem entry_patch_sectors (hk : k < ROOT_ENTRIES) (ha : a ∉ data_extent dev ROOT_DIR_SECTOR) :
    (entry_patch dev k e).sectors a = dev.sectors a :=
  data_patch_sectors hdir.length_lt (hdir.entry_fits hk) ha

/-- The entry is there, and the others are what they were. -/
theorem dir_entry_patch (hself : ROOT_DIR_SECTOR ∉ data_extent dev ROOT_DIR_SECTOR)
    (he : e.inode_sector < WORD) (hk : k < ROOT_ENTRIES) (l : Nat) :
    dir_entry (entry_patch dev k e) l = if l = k then e else dir_entry dev l := by
  have hbyte := data_byte_patch hdir.length_lt (hdir.entry_fits (e := e) hk) hself
  have hlen := e.length_toBytes
  have hsize : sizeof_dir_entry = 20 := rfl
  by_cases hlk : l = k
  · subst hlk
    rw [if_pos rfl, dir_entry, entry_patch, hbyte]
    conv_rhs => rw [← DirEntry.ofBytes_toBytes he]
    refine DirEntry.ofBytes_congr fun j hj => ?_
    rw [overlay_of_mem (by omega) (by omega), Nat.add_sub_cancel_left]
    rfl
  · rw [if_neg hlk, dir_entry, entry_patch, hbyte]
    refine DirEntry.ofBytes_congr fun j hj => ?_
    rw [hsize] at hlen hj ⊢
    exact overlay_of_not_mem (by omega)

end

namespace FsInv

/-- How much of an entry is written: all of it or nothing. -/
theorem inode_write_entry (h : FsInv held s) (hp : s.open_inodes.get p = some inode)
    (hroot : inode.sector = ROOT_DIR_SECTOR) (hk : k ≤ ROOT_ENTRIES) (e : DirEntry) :
    s.inode_write_at p e.toBytes (k * sizeof_dir_entry) =
      some (if k < ROOT_ENTRIES ∧ s.mem 0 = true then
        (sizeof_dir_entry, (s.setDevice (entry_patch s.fs_device k e)).setMem s.mem.malloc.2)
      else (0, s.setMem (if k < ROOT_ENTRIES then s.mem.malloc.2 else s.mem))) := by
  have hsize : sizeof_dir_entry = 20 := rfl
  have hentries : ROOT_ENTRIES = 16 := rfl
  have hblock : BLOCK_SECTOR_SIZE = 512 := rfl
  have hlen := e.length_toBytes
  have hwrite := h.inode_write_at hp e.toBytes (k * sizeof_dir_entry)
  rw [h.in_file_eq hp, hroot, h.dir.root_length, hlen] at hwrite
  by_cases hlt : k < ROOT_ENTRIES
  · have hall : min sizeof_dir_entry (ROOT_ENTRIES * sizeof_dir_entry - k * sizeof_dir_entry) =
        sizeof_dir_entry := by
      have hlt' : k < 16 := hlt
      rw [hsize, hentries]
      omega
    have hnot : ¬ Whole (k * sizeof_dir_entry) sizeof_dir_entry := by
      simp only [Whole, hsize, hblock]
      omega
    rw [hall, mem_after, if_neg (not_or.2 ⟨by decide, hnot⟩), moved] at hwrite
    simp only [hnot, false_or] at hwrite
    have hzero : sizeof_dir_entry / BLOCK_SECTOR_SIZE * BLOCK_SECTOR_SIZE = 0 := rfl
    rw [hwrite]
    cases hmem : s.mem 0 with
    | true =>
        simp only [hlt, and_self, if_true]
        rw [List.take_of_length_le hlen.le]
        rfl
    | false =>
        simp only [hlt, hzero, ite_self, Bool.false_eq_true, and_false, if_false, List.take_zero,
          if_true]
        rw [data_patch, Block.patch_nil]
        rfl
  · have hnone : min sizeof_dir_entry (ROOT_ENTRIES * sizeof_dir_entry - k * sizeof_dir_entry) =
        0 := by
      obtain rfl : k = ROOT_ENTRIES := by omega
      rw [Nat.sub_self, Nat.min_zero]
    rw [hnone, moved_zero, mem_after_zero] at hwrite
    rw [hwrite]
    simp only [hlt, false_and, if_false, List.take_zero]
    rw [data_patch, Block.patch_nil]
    rfl

end FsInv

end Berk162
