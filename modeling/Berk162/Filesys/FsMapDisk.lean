import Berk162.Filesys.FsMap

/-!
# FsMapDisk — the free map on the disk

The file of the free map is a copy of the free map in memory (`MapOnDisk`), and stays one as long as
no allocation of memory fails.
-/

namespace Berk162

/-! ## Bitmaps read from files -/

theorem drop_take_flatMap {α : Type*} (f : Nat → List α) {w n i : Nat} (hw : ∀ j, (f j).length = w)
    (hi : i < n) : (((List.range n).flatMap f).drop (w * i)).take w = f i := by
  have hlen : ∀ m, ((List.range m).flatMap f).length = w * m := by
    intro m
    induction m with
    | zero =>
        simp
    | succ m ih =>
        rw [List.range_succ, List.flatMap_append, List.length_append, ih, List.flatMap_singleton, hw,
          Nat.mul_succ]
  have hsplit : List.range n = List.range i ++ i :: List.range' (i + 1) (n - i - 1) := by
    rw [List.range_eq_range', List.range_eq_range', ← List.range'_succ]
    have happend := @List.range'_append 0 i (n - i - 1 + 1) 1
    rw [Nat.one_mul, Nat.zero_add] at happend
    rw [happend]
    congr 1
    omega
  rw [hsplit, List.flatMap_append, List.drop_left' (hlen i), List.flatMap_cons, List.take_left' (hw i)]

namespace Bitmap

variable {b b' : Bitmap} {bytes : Bytes} {i j : Nat}

@[simp] theorem load_bit_cnt (b : Bitmap) (bytes : Bytes) : (b.load bytes).bit_cnt = b.bit_cnt := by
  cases b with
  | mk n f =>
      exact (rfl : ((Bitmap.mk n f).load bytes).bit_cnt = n)

/-- All elements are stored over. -/
theorem load_bits (hlen : bytes.length = 4 * elem_cnt b.bit_cnt) (hi : i < elem_cnt b.bit_cnt) :
    (b.load bytes).bits i = BitVec.ofNat 32 (le_val ((bytes.drop (4 * i)).take 4)) := by
  have hfit : 4 * i + 4 ≤ bytes.length := by
    rw [hlen, ← Nat.mul_succ]
    exact Nat.mul_le_mul_left 4 hi
  have htake : ((bytes ++ b.elems.drop bytes.length).drop (4 * i)).take 4 =
      (bytes.drop (4 * i)).take 4 := by
    rw [List.drop_append_of_le_length (le_trans (Nat.le_add_right _ 4) hfit),
      List.take_append_of_le_length]
    rw [List.length_drop]
    exact Nat.le_sub_of_add_le (by rwa [Nat.add_comm])
  simp only [load, if_pos hi, htake]

theorem load_elems (hcnt : b'.bit_cnt = b.bit_cnt) (hsmall : b.bit_cnt + ELEM_BITS ≤ WORD)
    (hi : i < elem_cnt b.bit_cnt) : (b'.load b.elems).bits i = b.bits i := by
  have hlen : b.elems.length = 4 * elem_cnt b'.bit_cnt := by
    rw [length_elems hsmall, hcnt, (byte_cnt_eq hsmall).2]
  rw [load_bits hlen (by rw [hcnt]; exact hi), elems,
    drop_take_flatMap _ (fun j => length_le_bytes 4 _) hi, le_val_le_bytes_of_lt (b.bits i).isLt]
  rw [BitVec.ofNat_toNat, BitVec.setWidth_eq]

/-- What is read does not depend on what was in memory. -/
theorem load_congr (hcnt : b'.bit_cnt = b.bit_cnt) (hlen : bytes.length = 4 * elem_cnt b.bit_cnt)
    (hi : i < elem_cnt b.bit_cnt) : (b'.load bytes).bits i = (b.load bytes).bits i := by
  rw [load_bits hlen hi, load_bits (by rw [hcnt]; exact hlen) (by rw [hcnt]; exact hi)]

theorem test_congr (h : b'.bits (j / 32) = b.bits (j / 32)) : b'.test j = b.test j := by
  rw [test_eq_getLsbD, test_eq_getLsbD, h]

theorem div_lt_elem_cnt (hsmall : b.bit_cnt + ELEM_BITS ≤ WORD) (hj : j < b.bit_cnt) :
    j / 32 < elem_cnt b.bit_cnt := by
  rw [(byte_cnt_eq hsmall).1]
  omega

theorem getLsbD_low_mask {n : Nat} (hn : n < 32) (k : Nat) :
    (1#32 <<< n - 1#32).getLsbD k = decide (k < n) := by
  have hpow : (1#32 <<< n - 1#32).toNat = 2 ^ n - 1 := by
    have hlt : 2 ^ n < 2 ^ 32 := Nat.pow_lt_pow_right (by decide) hn
    have hpos : 1 ≤ 2 ^ n := Nat.one_le_two_pow
    simp [BitVec.toNat_sub, Nat.shiftLeft_eq]
    omega
  rw [BitVec.getLsbD, hpow, Nat.testBit_two_pow_sub_one]

/-- Masking the last element leaves the bits of the bitmap alone. -/
theorem test_mask_last (hj : j < b.bit_cnt) (hsmall : b.bit_cnt + ELEM_BITS ≤ WORD) :
    Bitmap.test { b with
      bits := Function.update b.bits (elem_cnt b.bit_cnt - 1)
        (b.bits (elem_cnt b.bit_cnt - 1) &&& last_mask b) } j = b.test j := by
  rw [test_eq_getLsbD, test_eq_getLsbD]
  by_cases hlast : j / 32 = elem_cnt b.bit_cnt - 1
  · have hmask : (last_mask b).getLsbD (j % 32) = true := by
      have hcnt := (byte_cnt_eq hsmall).1
      simp only [last_mask, ELEM_BITS]
      by_cases hzero : b.bit_cnt % 32 = 0
      · simp only [hzero, ne_eq, not_true_eq_false, if_false]
        rw [BitVec.getLsbD_allOnes, decide_eq_true (Nat.mod_lt _ (by decide))]
      · simp only [hzero, ne_eq, not_false_eq_true, if_true]
        rw [getLsbD_low_mask (Nat.mod_lt _ (by decide)), decide_eq_true (by omega)]
    simp only [hlast, Function.update_self, BitVec.getLsbD_and, hmask, Bool.and_true]
  · simp only [Function.update_of_ne hlast]

/-- The bitmap that `bitmap_read` returns when it has read `bytes`. -/
def masked (b : Bitmap) (bytes : Bytes) : Bitmap :=
  let b := b.load bytes
  let last := elem_cnt b.bit_cnt - 1
  { b with bits := Function.update b.bits last (b.bits last &&& last_mask b) }

@[simp] theorem masked_bit_cnt (b : Bitmap) (bytes : Bytes) : (b.masked bytes).bit_cnt = b.bit_cnt := by
  simp only [masked, load_bit_cnt]

theorem test_masked (hj : j < b.bit_cnt) (hsmall : b.bit_cnt + ELEM_BITS ≤ WORD) :
    (b.masked bytes).test j = (b.load bytes).test j := by
  have hcnt := load_bit_cnt b bytes
  exact test_mask_last (by rwa [hcnt]) (by rwa [hcnt])

end Bitmap

variable {s s' : FileSys} {b : Bitmap}

/-! ## The copy on the disk -/

/-- The free map that is on the disk. -/
def disk_map (dev : Block) (b : Bitmap) : Bitmap :=
  b.load (window (data_byte dev FREE_MAP_SECTOR) 0 (byte_cnt b.bit_cnt))

/-- The free map on the disk is the one in memory. -/
def FileSys.MapOnDisk (s : FileSys) : Prop :=
  ∀ j, j < s.free_map.bit_cnt → (disk_map s.fs_device s.free_map).test j = s.free_map.test j

theorem FileSys.Synced.mapOnDisk (h : s.Synced) (hsmall : s.free_map.bit_cnt + ELEM_BITS ≤ WORD) :
    s.MapOnDisk := by
  intro j hj
  have hall : s.free_map.elems.take s.map_size = s.free_map.elems :=
    List.take_of_length_le (length_elems hsmall).le
  rw [FileSys.Synced, hall, FileSys.map_size] at h
  refine Bitmap.test_congr ?_
  rw [disk_map, h]
  exact Bitmap.load_elems rfl hsmall (Bitmap.div_lt_elem_cnt hsmall hj)

theorem disk_map_congr {dev : Block} {b' : Bitmap} {j : Nat} (hcnt : b'.bit_cnt = b.bit_cnt)
    (hsmall : b.bit_cnt + ELEM_BITS ≤ WORD) (hj : j < b.bit_cnt) :
    (disk_map dev b').test j = (disk_map dev b).test j := by
  refine Bitmap.test_congr ?_
  rw [disk_map, disk_map, hcnt]
  exact Bitmap.load_congr hcnt (by rw [length_window, (byte_cnt_eq hsmall).2])
    (Bitmap.div_lt_elem_cnt hsmall hj)

/-- The map on the disk is the same where its file is. -/
theorem disk_map_sectors {dev dev' : Block}
    (hinode : dev'.sectors FREE_MAP_SECTOR = dev.sectors FREE_MAP_SECTOR)
    (hdata : ∀ a, a ∈ data_extent dev FREE_MAP_SECTOR → dev'.sectors a = dev.sectors a)
    (hlen : (disk_inode dev FREE_MAP_SECTOR).length = byte_cnt b.bit_cnt)
    (hlt : byte_cnt b.bit_cnt < OFF_T) : disk_map dev' b = disk_map dev b := by
  have hwindow : window (data_byte dev' FREE_MAP_SECTOR) 0 (byte_cnt b.bit_cnt) =
      window (data_byte dev FREE_MAP_SECTOR) 0 (byte_cnt b.bit_cnt) := by
    refine window_congr fun k _ hk => data_byte_congr hinode hdata (by rwa [hlen]) ?_
    rw [hlen]
    omega
  rw [disk_map, disk_map, hwindow]

/-- A step that changes neither the free map nor its file. -/
theorem FileSys.MapOnDisk.congr (h : s.MapOnDisk) (hm : MapInv s)
    (hkept : ∀ a, Cell s.fs_device FREE_MAP_SECTOR a → s'.fs_device.sectors a = s.fs_device.sectors a)
    (hcnt : s'.free_map.bit_cnt = s.free_map.bit_cnt)
    (htest : ∀ j, s'.free_map.test j = s.free_map.test j) : s'.MapOnDisk := by
  intro j hj
  rw [hcnt] at hj
  have hsectors := disk_map_sectors (hkept _ (Or.inl rfl)) (fun a ha => hkept a (Or.inr ha))
    hm.length_eq (byte_cnt_lt hm.small)
  calc
    (disk_map s'.fs_device s'.free_map).test j = (disk_map s'.fs_device s.free_map).test j :=
      disk_map_congr hcnt hm.small hj
    _ = (disk_map s.fs_device s.free_map).test j := by rw [hsectors]
    _ = s.free_map.test j := h j hj
    _ = s'.free_map.test j := (htest j).symm

/-- An allocation writes the free map, if there is memory. -/
theorem AllocSpec.map_on_disk {cnt : Nat} {r : Option Nat} (h : AllocSpec s cnt r s')
    (hsmall : s.free_map.bit_cnt + ELEM_BITS ≤ WORD) (hs : s.mem.Ample) (hdisk : s.MapOnDisk) :
    s'.MapOnDisk := by
  cases h with
  | full =>
      exact hdisk
  | unwritten _ hw =>
      exact absurd (Or.inr (hs 0)) hw
  | done _ _ hstep _ _ hsynced =>
      refine hsynced.mapOnDisk ?_
      rw [hstep.bit_cnt]
      exact hsmall

theorem ReleaseSpec.map_on_disk {sector cnt : Nat} (h : ReleaseSpec s sector cnt s')
    (hsmall : s.free_map.bit_cnt + ELEM_BITS ≤ WORD) (hs : s.mem.Ample) : s'.MapOnDisk := by
  refine (h.synced (Or.inr (hs 0))).mapOnDisk ?_
  rw [h.step.bit_cnt]
  exact hsmall

end Berk162
