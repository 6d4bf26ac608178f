import Berk162.Filesys.FileSys

/-!
# InodeBytes — an open inode as an array of bytes

`inode_read_at` and `inode_write_at` go through the data sector by sector, with a buffer of their
own for pieces of sectors.  Here they are put together as a caller sees them: the data are an array
of `length` bytes, a read returns a string of it and a write replaces one.
-/

namespace Berk162

variable {s s' : FileSys} {p n : Nat} {inode : Inode} {buffer bytes : Bytes} {size offset : Nat}

/-- The byte number `k` of an open inode. -/
def FileSys.inode_byte (s : FileSys) (inode : Inode) (k : Nat) : UInt8 :=
  s.fs_device.byte inode.data.start k

/-- A transfer of `size` bytes at `offset` moves `n` of them: all that the inode has there, or, if
there is no memory for the bounce buffer, no more than these. -/
structure Moves (mem : Mallocs) (data : InodeDisk) (size offset n : Nat) : Prop where
  le : n ≤ min size (data.length - offset)
  all : Whole offset (min size (data.length - offset)) ∨ mem 0 = true →
    n = min size (data.length - offset)

theorem moves_moved (mem : Mallocs) (data : InodeDisk) (size offset : Nat) :
    Moves mem data size offset (moved mem offset (in_file data size offset)) where
  le := by
    rw [← in_file, moved]
    split
    · exact le_refl _
    · split
      · exact Nat.div_mul_le_self _ _
      · exact Nat.zero_le _
  all h := if_pos h

/-- What a write of `n` bytes of `buffer` leaves. -/
structure InodeWritten (s s' : FileSys) (inode : Inode) (buffer : Bytes) (offset n : Nat) : Prop where
  /-- The bytes in the range are those of the buffer, the others are as they were. -/
  byte : ∀ k, s'.inode_byte inode k =
    if offset ≤ k ∧ k < offset + n then buffer.getD (k - offset) 0 else s.inode_byte inode k
  sectors : ∀ a, a < inode.data.start ∨
    inode.data.start + bytes_to_sectors inode.data.length ≤ a →
      s'.fs_device.sectors a = s.fs_device.sectors a
  size : s'.fs_device.size = s.fs_device.size
  rest : (s'.setDevice s.fs_device).setMem s.mem = s

/-- The device after the first `n` bytes of the buffer are in place. -/
theorem inodeWritten_patch (hfits : inode.data.Fits s.fs_device)
    (hn : n ≤ min buffer.length (inode.data.length - offset)) (mem : Mallocs) :
    InodeWritten s ((s.setDevice (s.fs_device.patch inode.data.start offset (buffer.take n))).setMem mem)
      inode buffer offset n := by
  have hlen : (buffer.take n).length = n := by
    rw [List.length_take]
    omega
  refine ⟨fun k => ?_, fun a ha => ?_, rfl, rfl⟩
  · have hbyte : ((s.setDevice (s.fs_device.patch inode.data.start offset
        (buffer.take n))).setMem mem).inode_byte inode k =
        overlay (s.fs_device.byte inode.data.start) offset (buffer.take n) k :=
      congrFun Block.byte_patch k
    rw [hbyte]
    by_cases hk : offset ≤ k ∧ k < offset + n
    · rw [if_pos hk, overlay_of_mem hk.1 (by rw [hlen]; exact hk.2), List.getD_eq_getElem?_getD,
        List.getD_eq_getElem?_getD, List.getElem?_take_of_lt (by omega)]
      rfl
    · rw [if_neg hk, overlay_of_not_mem (by rw [hlen]; omega)]
      rfl
  · by_cases hzero : n = 0
    · -- nothing is written, wherever the offset is
      subst hzero
      exact congrArg (fun dev : Block => dev.sectors a) Block.patch_nil
    · refine Block.patch_sectors_of_not_mem (le_trans ?_ (le_bytes_to_sectors hfits.length_lt)) ha
      rw [hlen]
      omega

theorem inode_write_at_spec (hp : s.open_inodes.get p = some inode)
    (hfits : inode.data.Fits s.fs_device) (htype : s.fs_device.type ≠ .foreign) (buffer : Bytes)
    (offset : Nat) :
    ∃ n s', s.inode_write_at p buffer offset = some (n, s') ∧ InodeWritten s s' inode buffer offset n ∧
      (inode.deny_write_cnt ≠ 0 → n = 0) ∧
      (inode.deny_write_cnt = 0 → Moves s.mem inode.data buffer.length offset n) := by
  by_cases hdeny : inode.deny_write_cnt = 0
  · have hmoves := moves_moved s.mem inode.data buffer.length offset
    refine ⟨_, _, ?_, inodeWritten_patch hfits hmoves.le (mem_after s.mem offset
      (in_file inode.data buffer.length offset)), absurd hdeny, fun _ => hmoves⟩
    simp only [FileSys.inode_write_at, hp, hdeny, ne_eq, not_true_eq_false, if_false,
      inode_write_loop_eq hfits htype, Option.bind_eq_bind, Option.bind_some]
    rfl
  · refine ⟨0, s, ?_, ⟨fun k => ?_, fun _ _ => rfl, rfl, rfl⟩, fun _ => rfl, fun h => absurd h hdeny⟩
    · simp only [FileSys.inode_write_at, hp, ne_eq, hdeny, not_false_eq_true, if_true,
        Option.bind_eq_bind, Option.bind_some]
      rfl
    · rw [if_neg (by omega)]

theorem inode_read_at_spec (hp : s.open_inodes.get p = some inode)
    (hfits : inode.data.Fits s.fs_device) (size offset : Nat) :
    ∃ bytes mem, s.inode_read_at p size offset = some (bytes, s.setMem mem) ∧
      bytes = window (s.inode_byte inode) offset bytes.length ∧
      Moves s.mem inode.data size offset bytes.length := by
  refine ⟨window (s.inode_byte inode) offset (moved s.mem offset (in_file inode.data size offset)),
    mem_after s.mem offset (in_file inode.data size offset), ?_, ?_, ?_⟩
  · simp only [FileSys.inode_read_at, hp, inode_read_loop_eq hfits, Option.bind_eq_bind,
      Option.bind_some]
    rfl
  · rw [length_window]
  · rw [length_window]
    exact moves_moved s.mem inode.data size offset

/-- `inode_write_at` puts the first `n` bytes of the buffer at `offset` into the array of bytes that
the inode is and changes nothing else, where `n` is what it returns; `inode_read_at` returns the
string that is there.  Both `n` are what the inode has of the range, or less for want of memory,
and a write that is denied writes nothing. -/
theorem inode_flat_array (hp : s.open_inodes.get p = some inode)
    (hfits : inode.data.Fits s.fs_device) (htype : s.fs_device.type ≠ .foreign) (buffer : Bytes)
    (size offset : Nat) :
    (∃ n s', s.inode_write_at p buffer offset = some (n, s') ∧
      InodeWritten s s' inode buffer offset n ∧
      (inode.deny_write_cnt ≠ 0 → n = 0) ∧
      (inode.deny_write_cnt = 0 → Moves s.mem inode.data buffer.length offset n)) ∧
    ∃ bytes mem, s.inode_read_at p size offset = some (bytes, s.setMem mem) ∧
      bytes = window (s.inode_byte inode) offset bytes.length ∧
      Moves s.mem inode.data size offset bytes.length :=
  ⟨inode_write_at_spec hp hfits htype buffer offset, inode_read_at_spec hp hfits size offset⟩

/-- An open inode of 600 bytes, with its data in the sectors 20 and 21. -/
def small_file : FileSys where
  fs_device := ⟨[], .filesys, 64, sixty_four_lt, fun _ => Sector.ofBytes fun _ => 0⟩
  mem := fun _ => true
  open_inodes := Store.empty.alloc ⟨10, 1, false, 0, ⟨20, 600, INODE_MAGIC⟩⟩
  files := Store.empty
  free_map := ⟨64, fun _ => 0⟩
  free_map_file := none

/-- A write of four bytes across the end of the first sector. -/
theorem inode_flat_array_small : ∃ s', small_file.inode_write_at 0 [1, 2, 3, 4] 510 = some (4, s') ∧
    s'.inode_byte ⟨10, 1, false, 0, ⟨20, 600, INODE_MAGIC⟩⟩ 512 = 3 := by
  have hfits : (InodeDisk.mk 20 600 INODE_MAGIC).Fits small_file.fs_device :=
    ⟨by decide, by decide⟩
  have hp : small_file.open_inodes.get 0 =
      some ⟨10, 1, false, 0, ⟨20, 600, INODE_MAGIC⟩⟩ := rfl
  rcases (inode_flat_array hp hfits (by decide) [1, 2, 3, 4] 4 510).1 with
    ⟨n, s', hwrite, hwritten, _, hmoves⟩
  obtain rfl : n = 4 := (hmoves rfl).all (Or.inr rfl)
  exact ⟨s', hwrite, hwritten.byte 512⟩

end Berk162
