import Berk162.Filesys.FsInv

/-!
# FsMap — data transfers and the free map, under the invariant

`data_patch` is the device after a string has been written into the data of an inode.
`AllocSpec` and `ReleaseSpec` say what `free_map_allocate` and `free_map_release` do; both write the
bitmap to its file, which needs memory unless the file ends with a whole sector (`MapWritable`).
-/

namespace Berk162

/-- The device after the string `bs` has been written at `ofs` into the data of inode `i`. -/
def data_patch (dev : Block) (i ofs : Nat) (bs : Bytes) : Block :=
  dev.patch (disk_inode dev i).start ofs bs

variable {dev : Block} {i j a ofs : Nat} {bs : Bytes}

/-- Only sectors of the data are written. -/
theorem data_patch_sectors (hlen : (disk_inode dev i).length < OFF_T)
    (hfit : ofs + bs.length ≤ (disk_inode dev i).length) (ha : a ∉ data_extent dev i) :
    (data_patch dev i ofs bs).sectors a = dev.sectors a := by
  refine Block.patch_sectors_of_not_mem (n := bytes_to_sectors (disk_inode dev i).length)
    (le_trans hfit (le_bytes_to_sectors hlen)) ?_
  rw [mem_data_extent] at ha
  omega

theorem data_byte_patch (hlen : (disk_inode dev i).length < OFF_T)
    (hfit : ofs + bs.length ≤ (disk_inode dev i).length) (hself : i ∉ data_extent dev i) :
    data_byte (data_patch dev i ofs bs) i = overlay (data_byte dev i) ofs bs := by
  have hsame := disk_inode_congr (data_patch_sectors hlen hfit hself)
  funext k
  rw [data_byte, hsame, data_patch, Block.byte_patch]
  rfl

variable {s s' t : FileSys} {held : List Nat} {p n : Nat} {inode : Inode}

/-- The transfer of a string from an open inode. -/
theorem inode_read_at_eq (hp : s.open_inodes.get p = some inode) (hfits : inode.data.Fits s.fs_device)
    (hdata : inode.data = disk_inode s.fs_device i) (size offset : Nat) :
    s.inode_read_at p size offset =
      some (window (data_byte s.fs_device i) offset
          (moved s.mem offset (in_file inode.data size offset)),
        s.setMem (mem_after s.mem offset (in_file inode.data size offset))) := by
  simp only [FileSys.inode_read_at, hp, inode_read_loop_eq hfits, Option.bind_eq_bind,
    Option.bind_some]
  rw [hdata]
  rfl

/-- The transfer of a string to an open inode. -/
theorem inode_write_at_eq (hp : s.open_inodes.get p = some inode) (hfits : inode.data.Fits s.fs_device)
    (hdata : inode.data = disk_inode s.fs_device i) (hdeny : inode.deny_write_cnt = 0)
    (htype : s.fs_device.type ≠ .foreign) (buffer : Bytes) (offset : Nat) :
    s.inode_write_at p buffer offset =
      some (moved s.mem offset (in_file inode.data buffer.length offset),
        (s.setDevice (data_patch s.fs_device i offset
            (buffer.take (moved s.mem offset (in_file inode.data buffer.length offset))))).setMem
          (mem_after s.mem offset (in_file inode.data buffer.length offset))) := by
  simp only [FileSys.inode_write_at, hp, hdeny, ne_eq, not_true_eq_false, if_false,
    inode_write_loop_eq hfits htype, Option.bind_eq_bind, Option.bind_some]
  rw [hdata]
  rfl

namespace FsInv

/-- The data of an open inode lie on the device. -/
theorem fits (h : FsInv held s) (hp : s.open_inodes.get p = some inode) :
    inode.data.Fits s.fs_device := by
  have hlive := opened_live hp
  rw [h.opened.data_eq p inode hp]
  refine ⟨?_, h.layout.length_lt _ hlive⟩
  rw [h.layout.size_eq]
  simpa only [data_extent] using h.layout.inside _ hlive

/-- How much there is to read or to write. -/
theorem in_file_eq (h : FsInv held s) (hp : s.open_inodes.get p = some inode) (size offset : Nat) :
    in_file inode.data size offset =
      min size ((disk_inode s.fs_device inode.sector).length - offset) := by
  rw [in_file, h.opened.data_eq p inode hp]

theorem inode_read_at (h : FsInv held s) (hp : s.open_inodes.get p = some inode) (size offset : Nat) :
    s.inode_read_at p size offset =
      some (window (data_byte s.fs_device inode.sector) offset
          (moved s.mem offset (in_file inode.data size offset)),
        s.setMem (mem_after s.mem offset (in_file inode.data size offset))) :=
  inode_read_at_eq hp (h.fits hp) (h.opened.data_eq p inode hp) size offset

theorem inode_write_at (h : FsInv held s) (hp : s.open_inodes.get p = some inode) (buffer : Bytes)
    (offset : Nat) :
    s.inode_write_at p buffer offset =
      some (moved s.mem offset (in_file inode.data buffer.length offset),
        (s.setDevice (data_patch s.fs_device inode.sector offset
            (buffer.take (moved s.mem offset (in_file inode.data buffer.length offset))))).setMem
          (mem_after s.mem offset (in_file inode.data buffer.length offset))) :=
  inode_write_at_eq hp (h.fits hp) (h.opened.data_eq p inode hp) (h.opened.no_deny p inode hp)
    h.layout.type_ne buffer offset

end FsInv

/-! ## The free map's file -/

/-- The number of bytes of the free map's file. -/
def FileSys.map_size (s : FileSys) : Nat := byte_cnt s.free_map.bit_cnt

/-- A write of the free map to its file does not fail. -/
def FileSys.MapWritable (s : FileSys) : Prop := Whole 0 s.map_size ∨ s.mem 0 = true

/-- The free map's file holds the free map. -/
def FileSys.Synced (s : FileSys) : Prop :=
  window (data_byte s.fs_device FREE_MAP_SECTOR) 0 s.map_size = s.free_map.elems.take s.map_size

/-- What the functions on the free map leave alone. -/
structure MapStep (s s' : FileSys) : Prop where
  open_inodes : s'.open_inodes = s.open_inodes
  files : s'.files = s.files
  free_map_file : s'.free_map_file = s.free_map_file
  size : s'.fs_device.size = s.fs_device.size
  type : s'.fs_device.type = s.fs_device.type
  bit_cnt : s'.free_map.bit_cnt = s.free_map.bit_cnt
  sectors : ∀ a, a ∉ data_extent s.fs_device FREE_MAP_SECTOR →
    s'.fs_device.sectors a = s.fs_device.sectors a
  ample : s.mem.Ample → s'.mem.Ample

theorem MapStep.refl (s : FileSys) : MapStep s s :=
  ⟨rfl, rfl, rfl, rfl, rfl, rfl, fun _ _ => rfl, id⟩

theorem MapStep.trans (h : MapStep s s') (h' : MapStep s' t)
    (hself : FREE_MAP_SECTOR ∉ data_extent s.fs_device FREE_MAP_SECTOR) : MapStep s t where
  open_inodes := h'.open_inodes.trans h.open_inodes
  files := h'.files.trans h.files
  free_map_file := h'.free_map_file.trans h.free_map_file
  size := h'.size.trans h.size
  type := h'.type.trans h.type
  bit_cnt := h'.bit_cnt.trans h.bit_cnt
  sectors a ha := by
    have hsame := data_extent_congr (h.sectors _ hself)
    exact (h'.sectors a (by rwa [hsame])).trans (h.sectors a ha)
  ample hs := h'.ample (h.ample hs)

namespace FsInv

/-- The live inodes and the directory lie outside the free map's file. -/
theorem undisturbed (h : FsInv held s) (hstep : MapStep s s')
    (hmark : ∀ i a, s.Live i → Cell s.fs_device i a → s'.free_map.test a = true) :
    Undisturbed s s' where
  open_inodes := hstep.open_inodes
  files := hstep.files
  free_map_file := hstep.free_map_file
  size := hstep.size
  type := hstep.type
  bit_cnt := hstep.bit_cnt
  inodes i hi := by
    refine hstep.sectors i fun hmem => ?_
    by_cases hzero : i = FREE_MAP_SECTOR
    · subst hzero
      exact h.layout.self _ hi hmem
    · exact h.layout.apart i _ i hi s.live_free_map hzero (Or.inl rfl) (Or.inr hmem)
  root a ha := by
    refine hstep.sectors a fun hmem => ?_
    exact h.layout.apart _ _ a s.live_root s.live_free_map (by decide) (Or.inr ha) (Or.inr hmem)
  marked := hmark

end FsInv

/-- The sizes of a bitmap, as long as rounding them up does not wrap. -/
theorem byte_cnt_eq {n : Nat} (h : n + ELEM_BITS ≤ WORD) :
    elem_cnt n = (n + 31) / 32 ∧ byte_cnt n = 4 * elem_cnt n := by
  have hcnt : elem_cnt n = (n + 32 - 1) / 32 := DIV_ROUND_UP_eq_of_le (by decide) h
  refine ⟨hcnt, size_mul_eq ?_⟩
  simp only [ELEM_BITS, WORD] at h hcnt ⊢
  omega

theorem length_elems {b : Bitmap} (h : b.bit_cnt + ELEM_BITS ≤ WORD) :
    b.elems.length = byte_cnt b.bit_cnt := by
  rw [(byte_cnt_eq h).2, Bitmap.elems, List.length_flatMap]
  simp
  omega

theorem byte_cnt_lt {n : Nat} (h : n + ELEM_BITS ≤ WORD) : byte_cnt n < OFF_T := by
  rcases byte_cnt_eq h with ⟨hcnt, hbytes⟩
  simp only [ELEM_BITS, WORD, OFF_T] at h hcnt ⊢
  omega

theorem moved_zero_eq_iff {mem : Mallocs} {n : Nat} :
    moved mem 0 n = n ↔ Whole 0 n ∨ mem 0 = true := by
  by_cases h : Whole 0 n ∨ mem 0 = true
  · simp only [moved, h, if_true]
  · have hne : n / BLOCK_SECTOR_SIZE * BLOCK_SECTOR_SIZE ≠ n := by
      intro heq
      refine h (Or.inl ⟨rfl, ?_⟩)
      rw [Nat.zero_add, ← heq, Nat.mul_mod_left]
    simpa only [moved, h, if_false, Nat.zero_mod, if_true, iff_false] using hne

theorem moved_le (mem : Mallocs) (offset n : Nat) : moved mem offset n ≤ n := by
  rw [moved]
  split
  · exact le_refl n
  · split
    · exact Nat.div_mul_le_self n _
    · exact Nat.zero_le n

theorem Mallocs.Ample.after {mem : Mallocs} (h : mem.Ample) (offset n : Nat) :
    (mem_after mem offset n).Ample := by
  rw [mem_after]
  split
  · exact h
  · exact h.tail

/-! ## Writing the free map -/

namespace FileSys

instance (s : FileSys) : Decidable s.MapWritable := inferInstanceAs (Decidable (_ ∨ _))

/-- The state after the free map has been written to its file, as far as there is memory. -/
def map_written (s : FileSys) : FileSys :=
  (s.setDevice (data_patch s.fs_device FREE_MAP_SECTOR 0
    (s.free_map.elems.take (moved s.mem 0 s.map_size)))).setMem (mem_after s.mem 0 s.map_size)

end FileSys

namespace MapInv

variable (h : MapInv s)
include h

theorem length_elems : s.free_map.elems.length = s.map_size :=
  Berk162.length_elems h.small

theorem length_lt : (disk_inode s.fs_device FREE_MAP_SECTOR).length < OFF_T := by
  rw [h.length_eq]
  exact byte_cnt_lt h.small

theorem fits : (disk_inode s.fs_device FREE_MAP_SECTOR).Fits s.fs_device := by
  refine ⟨?_, h.length_lt⟩
  rw [h.size_eq]
  simpa only [data_extent] using h.inside

/-- The string that is written fits into the file. -/
theorem map_fit : 0 + (s.free_map.elems.take (moved s.mem 0 s.map_size)).length ≤
    (disk_inode s.fs_device FREE_MAP_SECTOR).length := by
  have hle := moved_le s.mem 0 s.map_size
  rw [h.length_eq, List.length_take, h.length_elems]
  exact le_trans (by omega) hle

theorem bitmap_write {f : Nat} (hf : s.free_map_file = some f) :
    s.bitmap_write s.free_map f = some (decide s.MapWritable, s.map_written) := by
  rcases h.opened with ⟨f', file, inode, hf', hfile, hinode, hdeny, hdata⟩
  obtain rfl : f = f' := Option.some.inj (hf.symm.trans hf')
  have hlen : (s.free_map.elems.take s.map_size).length = s.map_size := by
    rw [List.length_take, h.length_elems, Nat.min_self]
  have hall : in_file inode.data (s.free_map.elems.take s.map_size).length 0 = s.map_size := by
    rw [in_file, hdata, h.length_eq, hlen, Nat.sub_zero, FileSys.map_size, Nat.min_self]
  have htake : (s.free_map.elems.take s.map_size).take (moved s.mem 0 s.map_size) =
      s.free_map.elems.take (moved s.mem 0 s.map_size) := by
    rw [List.take_take, Nat.min_eq_left (moved_le _ _ _)]
  have hwrite := inode_write_at_eq hinode (by rw [hdata]; exact h.fits) hdata hdeny h.type_ne
    (s.free_map.elems.take s.map_size) 0
  rw [hall, htake] at hwrite
  have hbitmap : s.bitmap_write s.free_map f =
      (s.inode_write_at file.inode (s.free_map.elems.take s.map_size) 0).bind fun r =>
        some (decide (r.1 = s.map_size), r.2) := by
    simp only [FileSys.bitmap_write, FileSys.file_write_at, hfile, Option.bind_eq_bind,
      Option.bind_some]
    rfl
  rw [hbitmap, hwrite, Option.bind_some]
  simp only [moved_zero_eq_iff]
  rfl

theorem map_written_step : MapStep s s.map_written where
  open_inodes := rfl
  files := rfl
  free_map_file := rfl
  size := rfl
  type := rfl
  bit_cnt := rfl
  sectors _ ha := data_patch_sectors h.length_lt h.map_fit ha
  ample hs := hs.after _ _

/-- What was written whole is there. -/
theorem map_written_synced (hw : s.MapWritable) : s.map_written.Synced := by
  have hbyte := data_byte_patch h.length_lt h.map_fit h.self
  have hmoved : moved s.mem 0 s.map_size = s.map_size := moved_zero_eq_iff.2 hw
  have hlen : (s.free_map.elems.take s.map_size).length = s.map_size := by
    rw [List.length_take, h.length_elems, Nat.min_self]
  rw [hmoved] at hbyte
  have hself := @window_overlay_self _ (data_byte s.fs_device FREE_MAP_SECTOR) 0
    (s.free_map.elems.take s.map_size) _
  rw [hlen, ← hbyte] at hself
  change window (data_byte (data_patch s.fs_device FREE_MAP_SECTOR 0
    (s.free_map.elems.take (moved s.mem 0 s.map_size))) FREE_MAP_SECTOR) 0 s.map_size = _
  rw [hmoved]
  exact hself

/-- The functions on the free map keep what they need. -/
theorem step (hstep : MapStep s s') : MapInv s' where
  size_eq := by rw [hstep.size, hstep.bit_cnt, h.size_eq]
  type_ne := by
    rw [hstep.type]
    exact h.type_ne
  small := by
    rw [hstep.bit_cnt]
    exact h.small
  opened := by
    rw [hstep.free_map_file, hstep.files, hstep.open_inodes,
      disk_inode_congr (hstep.sectors _ h.self)]
    exact h.opened
  length_eq := by
    rw [disk_inode_congr (hstep.sectors _ h.self), hstep.bit_cnt]
    exact h.length_eq
  inside := by
    rw [data_extent_congr (hstep.sectors _ h.self), hstep.bit_cnt]
    exact h.inside
  self := by
    rw [data_extent_congr (hstep.sectors _ h.self)]
    exact h.self

end MapInv

/-! ## Allocating and releasing -/

/-- What `free_map_allocate` does with a request for `cnt` sectors. -/
inductive AllocSpec (s : FileSys) (cnt : Nat) : Option Nat → FileSys → Prop
  | full : s.free_map.NoRun 0 cnt false → AllocSpec s cnt none s
  | unwritten {idx : Nat} {s' : FileSys} :
      s.free_map.FirstRun 0 cnt false idx → ¬ s.MapWritable → MapStep s s' →
      (∀ j, s'.free_map.test j = s.free_map.test j) → s'.mem = mem_after s.mem 0 s.map_size →
      AllocSpec s cnt none s'
  | done {idx : Nat} {s' : FileSys} :
      s.free_map.FirstRun 0 cnt false idx → s.MapWritable → MapStep s s' →
      (∀ j, s'.free_map.test j = if idx ≤ j ∧ j < idx + cnt then true else s.free_map.test j) →
      s'.mem = mem_after s.mem 0 s.map_size → s'.Synced → AllocSpec s cnt (some idx) s'

/-- What `free_map_release` does. -/
structure ReleaseSpec (s : FileSys) (sector cnt : Nat) (s' : FileSys) : Prop where
  step : MapStep s s'
  test : ∀ j, s'.free_map.test j = if sector ≤ j ∧ j < sector + cnt then false else s.free_map.test j
  mem : s'.mem = mem_after s.mem 0 s.map_size
  synced : s.MapWritable → s'.Synced

theorem MapStep.set_map {b : Bitmap} (hcnt : b.bit_cnt = s.free_map.bit_cnt) :
    MapStep s (s.setMap b) :=
  ⟨rfl, rfl, rfl, rfl, rfl, hcnt, fun _ _ => rfl, id⟩

theorem map_size_setMap {b : Bitmap} (hcnt : b.bit_cnt = s.free_map.bit_cnt) :
    (s.setMap b).map_size = s.map_size := by
  rw [FileSys.map_size, FileSys.map_size, FileSys.setMap_free_map, hcnt]

theorem mapWritable_setMap {b : Bitmap} (hcnt : b.bit_cnt = s.free_map.bit_cnt) :
    (s.setMap b).MapWritable ↔ s.MapWritable := by
  rw [FileSys.MapWritable, FileSys.MapWritable, map_size_setMap hcnt, FileSys.setMap_mem]

theorem mem_setMap {b : Bitmap} (hcnt : b.bit_cnt = s.free_map.bit_cnt) :
    (s.setMap b).map_written.mem = mem_after s.mem 0 s.map_size := by
  rw [← map_size_setMap hcnt]
  rfl

namespace MapInv

/-- The state that `free_map_allocate` leaves: no run was found, or one was found and written, or it
was found, written in part at most, and cleared again in memory. -/
theorem free_map_allocate_cases (h : MapInv s) (cnt : Nat) :
    (s.free_map.NoRun 0 cnt false ∧ s.free_map_allocate cnt = some (none, s)) ∨
      ∃ b idx, s.free_map.FirstRun 0 cnt false idx ∧ b.bit_cnt = s.free_map.bit_cnt ∧
        (∀ j, b.test j = if idx ≤ j ∧ j < idx + cnt then true else s.free_map.test j) ∧
        ((s.MapWritable ∧ s.free_map_allocate cnt = some (some idx, (s.setMap b).map_written)) ∨
          (¬ s.MapWritable ∧ ∃ b', b'.bit_cnt = b.bit_cnt ∧
            (∀ j, b'.test j = s.free_map.test j) ∧
            s.free_map_allocate cnt = some (none, (s.setMap b).map_written.setMap b'))) := by
  have hsmall := h.small
  simp only [ELEM_BITS, WORD] at hsmall
  rcases h.opened with ⟨f, _, _, hf, _⟩
  rcases bitmap_scan_and_flip_spec (b := s.free_map) cnt false (Nat.zero_le _)
      (by simp only [BITMAP_ERROR, WORD]; omega) with
    ⟨b, idx, hflip, hne, hfirst, hcnt, htest⟩ | ⟨hflip, hno⟩
  · have hwrite := (h.step (MapStep.set_map hcnt)).bitmap_write (f := f) hf
    have hwritable := mapWritable_setMap hcnt
    refine Or.inr ⟨b, idx, hfirst, hcnt, htest, ?_⟩
    by_cases hw : s.MapWritable
    · refine Or.inl ⟨hw, ?_⟩
      simp only [FileSys.free_map_allocate, hflip, Option.bind_eq_bind, Option.bind_some, ne_eq, hne,
        not_false_eq_true, if_true, FileSys.setMap_free_map_file, hf, hwrite, hwritable, hw,
        decide_true]
      rfl
    · -- the bits that were set are cleared again
      rcases @bitmap_set_multiple_spec b idx cnt false
          (by rw [hcnt]; exact hfirst.fits) (by simp only [WORD]; omega) with
        ⟨b', hclear, hcnt', htest'⟩
      have hback : ∀ j, b'.test j = s.free_map.test j := by
        intro j
        rw [htest', htest]
        split
        · rename_i hj
          rw [hfirst.run j hj.1 hj.2]
        · rfl
      refine Or.inr ⟨hw, b', hcnt', hback, ?_⟩
      have hmap : (s.setMap b).map_written.free_map = b := rfl
      simp only [FileSys.free_map_allocate, hflip, Option.bind_eq_bind, Option.bind_some, ne_eq, hne,
        not_false_eq_true, if_true, FileSys.setMap_free_map_file, hf, hwrite, hwritable, hw,
        decide_false, Bool.false_eq_true, if_false, hmap, hclear]
      rfl
  · refine Or.inl ⟨hno, ?_⟩
    simp only [FileSys.free_map_allocate, hflip, Option.bind_eq_bind, Option.bind_some, ne_eq,
      not_true_eq_false, if_false]
    rfl

theorem free_map_allocate (h : MapInv s) (cnt : Nat) :
    ∃ r s', s.free_map_allocate cnt = some (r, s') ∧ AllocSpec s cnt r s' := by
  rcases h.free_map_allocate_cases cnt with
    ⟨hno, heq⟩ | ⟨b, idx, hfirst, hcnt, htest, ⟨hw, heq⟩ | ⟨hw, b', hcnt', hback, heq⟩⟩
  · exact ⟨none, s, heq, AllocSpec.full hno⟩
  · have hset := h.step (MapStep.set_map hcnt)
    have hstep : MapStep s (s.setMap b).map_written :=
      (MapStep.set_map hcnt).trans hset.map_written_step h.self
    exact ⟨some idx, _, heq, AllocSpec.done hfirst hw hstep htest (mem_setMap hcnt)
      (hset.map_written_synced ((mapWritable_setMap hcnt).2 hw))⟩
  · have hset := h.step (MapStep.set_map hcnt)
    have hstep : MapStep s (s.setMap b).map_written :=
      (MapStep.set_map hcnt).trans hset.map_written_step h.self
    exact ⟨none, _, heq, AllocSpec.unwritten hfirst hw
      (hstep.trans (MapStep.set_map hcnt') h.self) hback (mem_setMap hcnt)⟩

/-- The state that `free_map_release` leaves when the sectors are marked. -/
theorem free_map_release_eq (h : MapInv s) {sector cnt : Nat}
    (hin : sector + cnt ≤ s.free_map.bit_cnt) (hset : s.free_map.RunAt sector cnt true) :
    ∃ b, b.bit_cnt = s.free_map.bit_cnt ∧
      (∀ j, b.test j = if sector ≤ j ∧ j < sector + cnt then false else s.free_map.test j) ∧
      s.free_map_release sector cnt = some (s.setMap b).map_written := by
  have hsmall := h.small
  simp only [ELEM_BITS, WORD] at hsmall
  have hword : s.free_map.bit_cnt < WORD := by
    simp only [WORD]
    omega
  rcases h.opened with ⟨f, _, _, hf, _⟩
  rcases bitmap_all_spec hin hword with ⟨all, hall, hiff⟩
  rcases bitmap_set_multiple_spec false hin hword with ⟨b, hclear, hcnt, htest⟩
  have hwrite := (h.step (MapStep.set_map hcnt)).bitmap_write (f := f) hf
  refine ⟨b, hcnt, htest, ?_⟩
  simp only [FileSys.free_map_release, hall, hiff.2 hset, ASSERT_pos, hclear, Option.bind_eq_bind,
    Option.bind_some, FileSys.setMap_free_map_file, hf, hwrite]
  rfl

/-- Sectors are released that are marked. -/
theorem free_map_release (h : MapInv s) {sector cnt : Nat}
    (hin : sector + cnt ≤ s.free_map.bit_cnt) (hset : s.free_map.RunAt sector cnt true) :
    ∃ s', s.free_map_release sector cnt = some s' ∧ ReleaseSpec s sector cnt s' := by
  rcases h.free_map_release_eq hin hset with ⟨b, hcnt, htest, heq⟩
  have hinv := h.step (MapStep.set_map hcnt)
  have hstep := (MapStep.set_map hcnt).trans hinv.map_written_step h.self
  refine ⟨_, heq, ⟨hstep, htest, mem_setMap hcnt, fun hw => ?_⟩⟩
  exact hinv.map_written_synced ((mapWritable_setMap hcnt).2 hw)

end MapInv

namespace AllocSpec

variable {cnt : Nat} {r : Option Nat}

theorem step (h : AllocSpec s cnt r s') : MapStep s s' := by
  cases h with
  | full =>
      exact MapStep.refl s
  | unwritten _ _ hstep =>
      exact hstep
  | done _ _ hstep =>
      exact hstep

/-- No mark is lost. -/
theorem mono (h : AllocSpec s cnt r s') (ha : s.free_map.test a = true) :
    s'.free_map.test a = true := by
  cases h with
  | full =>
      exact ha
  | unwritten _ _ _ htest =>
      rw [htest, ha]
  | done _ _ _ htest =>
      rw [htest, ha, ite_self]

end AllocSpec

namespace FsInv

theorem free_map_allocate (h : FsInv held s) (cnt : Nat) :
    ∃ r s', s.free_map_allocate cnt = some (r, s') ∧ AllocSpec s cnt r s' ∧ Undisturbed s s' := by
  rcases h.map_inv.free_map_allocate cnt with ⟨r, s', hs', hspec⟩
  exact ⟨r, s', hs', hspec, h.undisturbed hspec.step fun i a hi ha =>
    hspec.mono (h.layout.marked i a hi ha)⟩

/-- Sectors are released that are marked and that no live inode uses. -/
theorem free_map_release (h : FsInv held s) {sector cnt : Nat}
    (hin : sector + cnt ≤ s.free_map.bit_cnt) (hset : s.free_map.RunAt sector cnt true)
    (hfree : ∀ i a, s.Live i → Cell s.fs_device i a → ¬ (sector ≤ a ∧ a < sector + cnt)) :
    ∃ s', s.free_map_release sector cnt = some s' ∧ ReleaseSpec s sector cnt s' ∧
      Undisturbed s s' := by
  rcases h.map_inv.free_map_release hin hset with ⟨s', hs', hspec⟩
  refine ⟨s', hs', hspec, h.undisturbed hspec.step fun i a hi ha => ?_⟩
  rw [hspec.test, if_neg (hfree i a hi ha)]
  exact h.layout.marked i a hi ha

end FsInv

end Berk162
