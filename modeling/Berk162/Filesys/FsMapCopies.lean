import Berk162.Filesys.FsMapDisk

/-!
# FsMapCopies — the two copies of the free map when memory runs out

`bitmap_write` hands the free map to the disk sector by sector.  Without memory for a bounce buffer
it stops in front of a last sector that is not whole, when the sectors before it are on the disk
already.  The copies are compared bit by bit: `disk_bit` is a bit of the free map's file.
-/

namespace Berk162

variable {s s' : FileSys} {b b' : Bitmap} {j n w cnt : Nat}

/-! ## Bits of files -/

/-- The bit number `j` of a string of bytes. -/
def byte_bit (f : Nat → UInt8) (j : Nat) : Bool := (f (j / 8)).toNat.testBit (j % 8)

/-- Two bytes are one when their bits are. -/
theorem UInt8.eq_of_testBit {x y : UInt8} (h : ∀ i, i < 8 → x.toNat.testBit i = y.toNat.testBit i) :
    x = y := by
  refine UInt8.toNat_inj.1 (Nat.eq_of_testBit_eq fun i => ?_)
  by_cases hi : i < 8
  · exact h i hi
  · have hpow : 2 ^ 8 ≤ 2 ^ i := Nat.pow_le_pow_right (by decide) (Nat.not_lt.1 hi)
    rw [Nat.testBit_lt_two_pow (lt_of_lt_of_le x.toNat_lt hpow),
      Nat.testBit_lt_two_pow (lt_of_lt_of_le y.toNat_lt hpow)]

/-- Strings of bytes are compared bit by bit. -/
theorem bytes_eq_iff_bits {f g : Nat → UInt8} :
    (∀ k, k < n → f k = g k) ↔ ∀ j, j < 8 * n → byte_bit f j = byte_bit g j := by
  constructor
  · intro h j hj
    rw [byte_bit, byte_bit, h (j / 8) (by omega)]
  · intro h k hk
    refine UInt8.eq_of_testBit fun i hi => ?_
    have hbit := h (8 * k + i) (by omega)
    rwa [byte_bit, byte_bit, show (8 * k + i) / 8 = k by omega,
      show (8 * k + i) % 8 = i by omega] at hbit

theorem testBit_le_bytes {x i : Nat} :
    ∀ {n r : Nat}, r < n → i < 8 → ((le_bytes n x).getD r 0).toNat.testBit i = x.testBit (8 * r + i) := by
  intro n
  induction n generalizing x with
  | zero =>
      intro r hr
      exact absurd hr (Nat.not_lt_zero r)
  | succ n ih =>
      intro r hr hi
      cases r with
      | zero =>
          have hbyte : (UInt8.ofNat x).toNat = x % 2 ^ 8 := by simp
          rw [le_bytes, List.getD_cons_zero, hbyte, Nat.testBit_mod_two_pow, decide_eq_true hi,
            Bool.true_and, Nat.mul_zero, Nat.zero_add]
      | succ r =>
          have hdiv : x / 256 = x >>> 8 := (Nat.shiftRight_eq_div_pow x 8).symm
          rw [le_bytes, List.getD_cons_succ, ih (Nat.lt_of_succ_lt_succ hr) hi, hdiv,
            Nat.testBit_shiftRight]
          congr 1
          omega

/-- The bits of the elements are the bits of the bitmap. -/
theorem byte_bit_elems (hj : j < 32 * elem_cnt b.bit_cnt) :
    byte_bit (fun k => b.elems.getD k 0) j = b.test j := by
  have hdiv : j / 8 = 4 * (j / 32) + j / 8 % 4 := by omega
  have hr : j / 8 % 4 < 4 := Nat.mod_lt _ (by decide)
  -- byte `j / 8` is one of the four of element `j / 32`
  have hword := drop_take_flatMap (fun i => le_bytes 4 (b.bits i).toNat)
    (fun i => length_le_bytes 4 (b.bits i).toNat) (show j / 32 < elem_cnt b.bit_cnt by omega)
  have hbyte : b.elems.getD (j / 8) 0 = (le_bytes 4 (b.bits (j / 32)).toNat).getD (j / 8 % 4) 0 := by
    rw [← hword, List.getD_eq_getElem?_getD, List.getD_eq_getElem?_getD, List.getElem?_take_of_lt hr,
      List.getElem?_drop, ← hdiv]
    rfl
  rw [byte_bit, hbyte, testBit_le_bytes hr (Nat.mod_lt _ (by decide)), Bitmap.test_eq_getLsbD,
    BitVec.getLsbD]
  congr 1
  omega

/-! ## The copy on the disk, bit by bit -/

/-- The bit number `j` of the free map's file. -/
def disk_bit (dev : Block) (j : Nat) : Bool := byte_bit (data_byte dev FREE_MAP_SECTOR) j

/-- The number of bits of the free map's file. -/
def FileSys.map_bits (s : FileSys) : Nat := 8 * s.map_size

namespace MapInv

variable (h : MapInv s)
include h

theorem map_bits_eq : s.map_bits = 32 * elem_cnt s.free_map.bit_cnt := by
  rw [FileSys.map_bits, FileSys.map_size, (byte_cnt_eq h.small).2]
  omega

theorem bit_cnt_le : s.free_map.bit_cnt ≤ s.map_bits := by
  rw [h.map_bits_eq, (byte_cnt_eq h.small).1]
  omega

theorem synced_iff : s.Synced ↔ ∀ j, j < s.map_bits → disk_bit s.fs_device j = s.free_map.test j := by
  have htake : s.free_map.elems.take s.map_size =
      window (fun k => s.free_map.elems.getD k 0) 0 s.map_size := by
    rw [← h.length_elems, window_getD, List.take_of_length_le (le_refl _)]
  have hwindow : s.Synced ↔ ∀ k, k < s.map_size →
      data_byte s.fs_device FREE_MAP_SECTOR k = s.free_map.elems.getD k 0 := by
    rw [FileSys.Synced, htake]
    constructor
    · intro heq k hk
      have hget := congrArg (fun l => l.getD k 0) heq
      simpa only [getD_window hk, Nat.zero_add] using hget
    · intro hall
      exact window_congr fun k _ hk => hall k (by omega)
  rw [hwindow, bytes_eq_iff_bits]
  refine forall_congr' fun j => imp_congr_right fun hj => ?_
  rw [disk_bit, byte_bit_elems (by rwa [← h.map_bits_eq])]

/-- The bits of the file after a write of the free map: those of the free map as far as it came. -/
theorem disk_bit_map_written (hj : j < s.map_bits) :
    disk_bit s.map_written.fs_device j =
      if j < 8 * moved s.mem 0 s.map_size then s.free_map.test j else disk_bit s.fs_device j := by
  have hbyte := data_byte_patch h.length_lt h.map_fit h.self
  have hle := moved_le s.mem 0 s.map_size
  have hlen : (s.free_map.elems.take (moved s.mem 0 s.map_size)).length = moved s.mem 0 s.map_size := by
    rw [List.length_take, h.length_elems, Nat.min_eq_left hle]
  have hdev : s.map_written.fs_device = data_patch s.fs_device FREE_MAP_SECTOR 0
      (s.free_map.elems.take (moved s.mem 0 s.map_size)) := rfl
  rw [disk_bit, hdev, hbyte, byte_bit]
  by_cases hlt : j < 8 * moved s.mem 0 s.map_size
  · have hk : j / 8 < moved s.mem 0 s.map_size := by omega
    rw [if_pos hlt, overlay_of_mem (Nat.zero_le _) (by rw [hlen]; omega), Nat.sub_zero,
      List.getD_eq_getElem?_getD, List.getElem?_take_of_lt hk, ← List.getD_eq_getElem?_getD]
    exact byte_bit_elems (by rwa [← h.map_bits_eq])
  · rw [if_neg hlt, overlay_of_not_mem (Or.inr (by rw [hlen]; omega)), disk_bit, byte_bit]

/-- The copies after the free map `b` has been written over an equal copy of the free map, and `b'`
has taken its place in memory. -/
theorem synced_map_written (hsync : s.Synced) (hcnt : b.bit_cnt = s.free_map.bit_cnt)
    (hcnt' : b'.bit_cnt = b.bit_cnt) :
    ((s.setMap b).map_written.setMap b').Synced ↔ ∀ j, j < s.map_bits →
      (if j < 8 * moved s.mem 0 s.map_size then b.test j else s.free_map.test j) = b'.test j := by
  have hset := h.step (MapStep.set_map hcnt)
  have hstep := (MapStep.set_map (s := s) hcnt).trans hset.map_written_step h.self
  have hlast := h.step (hstep.trans (MapStep.set_map (b := b') hcnt') h.self)
  have hbits : (s.setMap b).map_bits = s.map_bits := by
    rw [FileSys.map_bits, map_size_setMap hcnt, FileSys.map_bits]
  have hbits' : ((s.setMap b).map_written.setMap b').map_bits = s.map_bits := by
    rw [FileSys.map_bits, map_size_setMap hcnt', ← hbits]
    rfl
  have hsame := h.synced_iff.1 hsync
  rw [hlast.synced_iff, hbits']
  refine forall_congr' fun j => imp_congr_right fun hj => ?_
  have hwritten := hset.disk_bit_map_written (by rwa [hbits] : j < (s.setMap b).map_bits)
  rw [map_size_setMap hcnt, FileSys.setMap_mem, FileSys.setMap_free_map, FileSys.setMap_fs_device,
    hsame j hj] at hwritten
  rw [FileSys.setMap_fs_device, hwritten, FileSys.setMap_free_map]

end MapInv

/-! ## What is on the disk when the memory runs out -/

/-- The bits of the free map's file that lie in whole sectors. -/
def FileSys.whole_bits (s : FileSys) : Nat := 8 * (s.map_size / BLOCK_SECTOR_SIZE * BLOCK_SECTOR_SIZE)

/-- The request finds no run, the free map can be written, or the run is empty or lies behind the
whole sectors of the file. -/
def FileSys.AllocKeeps (s : FileSys) (cnt : Nat) : Prop :=
  ∀ idx, s.free_map.FirstRun 0 cnt false idx → s.MapWritable ∨ cnt = 0 ∨ s.whole_bits ≤ idx

/-- The free map can be written, or the sectors released are none or lie in the whole sectors of the
file. -/
def FileSys.ReleaseKeeps (s : FileSys) (sector cnt : Nat) : Prop :=
  s.MapWritable ∨ cnt = 0 ∨ sector + cnt ≤ s.whole_bits

/-- Without memory for a bounce buffer the whole sectors are written. -/
theorem moved_of_not_writable (hw : ¬ s.MapWritable) :
    8 * moved s.mem 0 s.map_size = s.whole_bits := by
  have hnot : ¬ (Whole 0 s.map_size ∨ s.mem 0 = true) := hw
  rw [moved, if_neg hnot, Nat.zero_mod, if_pos rfl, FileSys.whole_bits]

/-- Bitmaps of one length with the same bits are the same bytes in memory. -/
theorem elems_congr (hcnt : b'.bit_cnt = b.bit_cnt) (htest : ∀ j, b'.test j = b.test j) :
    b'.elems = b.elems := by
  have hbits : b'.bits = b.bits := by
    funext i
    refine BitVec.eq_of_getLsbD_eq fun k hk => ?_
    have hbit := htest (32 * i + k)
    rwa [Bitmap.test_eq_getLsbD, Bitmap.test_eq_getLsbD, show (32 * i + k) / 32 = i by omega,
      show (32 * i + k) % 32 = k by omega] at hbit
  rw [Bitmap.elems, Bitmap.elems, hcnt, hbits]

namespace MapInv

variable (h : MapInv s)
include h

/-- An allocation that fails leaves the copy in memory as it was. -/
theorem allocate_none (heq : s.free_map_allocate cnt = some (none, s')) :
    s'.free_map.elems = s.free_map.elems := by
  rcases h.free_map_allocate cnt with ⟨r, t, heq', hspec⟩
  obtain ⟨rfl, rfl⟩ := Prod.mk.inj (Option.some.inj (heq.symm.trans heq'))
  cases hspec with
  | full =>
      rfl
  | unwritten _ _ hstep htest =>
      exact elems_congr hstep.bit_cnt htest

theorem allocate_synced_iff (hsync : s.Synced) {r : Option Nat}
    (heq : s.free_map_allocate cnt = some (r, s')) : s'.Synced ↔ s.AllocKeeps cnt := by
  rcases h.free_map_allocate_cases cnt with
    ⟨hno, heq'⟩ | ⟨b, idx, hfirst, hcnt, htest, ⟨hw, heq'⟩ | ⟨hw, b', hcnt', hback, heq'⟩⟩
  · obtain ⟨rfl, rfl⟩ := Prod.mk.inj (Option.some.inj (heq.symm.trans heq'))
    refine iff_of_true hsync fun idx hfirst => ?_
    exact absurd hfirst.run (hno idx hfirst.ge hfirst.fits)
  · obtain ⟨rfl, rfl⟩ := Prod.mk.inj (Option.some.inj (heq.symm.trans heq'))
    refine iff_of_true ?_ fun idx' _ => Or.inl hw
    exact (h.step (MapStep.set_map hcnt)).map_written_synced ((mapWritable_setMap hcnt).2 hw)
  · obtain ⟨rfl, rfl⟩ := Prod.mk.inj (Option.some.inj (heq.symm.trans heq'))
    rw [h.synced_map_written hsync hcnt hcnt', moved_of_not_writable hw]
    constructor
    · intro hall idx' hfirst'
      obtain rfl := hfirst.unique hfirst'
      by_contra hnot
      obtain ⟨-, hzero, hlt⟩ : ¬ s.MapWritable ∧ cnt ≠ 0 ∧ ¬ s.whole_bits ≤ idx := by
        simpa only [not_or] using hnot
      -- the first bit of the run is set on the disk and cleared in memory
      have hfits := hfirst.fits
      have hfree := hfirst.run idx (le_refl idx) (by omega)
      have hbit := hall idx (by have := h.bit_cnt_le; omega)
      rw [if_pos (Nat.lt_of_not_le hlt), htest, if_pos ⟨le_refl idx, by omega⟩, hback, hfree] at hbit
      cases hbit
    · intro hkeeps j hj
      rw [hback, htest]
      split_ifs with hlt hrun
      · rcases hkeeps idx hfirst with hw' | hzero | hle
        · exact absurd hw' hw
        · omega
        · omega
      · rfl
      · rfl

theorem release_synced_iff (hsync : s.Synced) {sector : Nat}
    (heq : s.free_map_release sector cnt = some s') : s'.Synced ↔ s.ReleaseKeeps sector cnt := by
  have hall : bitmap_all s.free_map sector cnt = some true := by
    cases hr : bitmap_all s.free_map sector cnt with
    | none =>
        simp [FileSys.free_map_release, hr] at heq
    | some r =>
        cases r with
        | false =>
            simp [FileSys.free_map_release, hr] at heq
        | true =>
            rfl
  obtain ⟨hin, hrun⟩ := bitmap_all_true hall
  obtain ⟨b, hcnt, htest, heq'⟩ := h.free_map_release_eq hin hrun
  obtain rfl := Option.some.inj (heq.symm.trans heq')
  by_cases hw : s.MapWritable
  · refine iff_of_true ?_ (Or.inl hw)
    exact (h.step (MapStep.set_map hcnt)).map_written_synced ((mapWritable_setMap hcnt).2 hw)
  · have hcnt' : b.bit_cnt = b.bit_cnt := rfl
    have hiff := h.synced_map_written hsync hcnt hcnt'
    have hself : (s.setMap b).map_written.setMap b = (s.setMap b).map_written := rfl
    rw [hself, moved_of_not_writable hw] at hiff
    rw [hiff]
    constructor
    · intro hall
      by_contra hnot
      obtain ⟨-, hzero, hlt⟩ : ¬ s.MapWritable ∧ cnt ≠ 0 ∧ ¬ sector + cnt ≤ s.whole_bits := by
        simpa only [FileSys.ReleaseKeeps, not_or] using hnot
      -- the last bit of the run is set on the disk and cleared in memory
      have hlast := hrun (sector + cnt - 1) (by omega) (by omega)
      have hbit := hall (sector + cnt - 1) (by have := h.bit_cnt_le; omega)
      rw [if_neg (by omega), htest, if_pos ⟨by omega, by omega⟩, hlast] at hbit
      cases hbit
    · intro hkeeps j hj
      rw [htest]
      split_ifs with hlt hin'
      · rfl
      · rfl
      · rcases hkeeps with hw' | hzero | hle
        · exact absurd hw' hw
        · omega
        · omega
      · rfl

end MapInv

/-- The two copies of the free map, equal before a call, are equal after it exactly when the bits
that the call changes are all written or all left unwritten: the free map can be written, the run
that `free_map_allocate` takes back lies behind the whole sectors of the file, or the run that
`free_map_release` clears lies in them.  A failed allocation leaves the copy in memory as it was. -/
theorem free_map_copies_iff (h : MapInv s) (hsync : s.Synced) :
    (∀ cnt r s', s.free_map_allocate cnt = some (r, s') →
      (s'.Synced ↔ s.AllocKeeps cnt) ∧ (r = none → s'.free_map.elems = s.free_map.elems)) ∧
    ∀ sector cnt s', s.free_map_release sector cnt = some s' →
      (s'.Synced ↔ s.ReleaseKeeps sector cnt) := by
  refine ⟨fun cnt r s' heq => ⟨h.allocate_synced_iff hsync heq, ?_⟩, fun sector cnt s' heq => ?_⟩
  · rintro rfl
    exact h.allocate_none heq
  · exact h.release_synced_iff hsync heq

/-! ## A disk of 4128 sectors -/

/-- The free map of a disk of 4128 sectors that has been formatted: five sectors are in use. -/
def new_map : Bitmap := ⟨4128, fun i => if i = 0 then 31#32 else 0#32⟩

/-- The inode of its file, in the sectors 2 and 3. -/
def new_map_inode : InodeDisk := ⟨2, 516, INODE_MAGIC⟩

def new_disk : Block :=
  Block.patch ⟨[], .filesys, 4128, by decide, fun _ => new_map_inode.toSector⟩ 2 0 new_map.elems

/-- The file of the free map is open, and the memory has run out. -/
def new_file_system : FileSys where
  fs_device := new_disk
  mem := fun _ => false
  open_inodes := Store.empty.alloc ⟨FREE_MAP_SECTOR, 1, false, 0, new_map_inode⟩
  files := Store.empty.alloc ⟨0, 0, false⟩
  free_map := new_map
  free_map_file := some 0

theorem new_disk_inode : disk_inode new_disk FREE_MAP_SECTOR = new_map_inode := by
  have hsector : new_disk.sectors FREE_MAP_SECTOR = new_map_inode.toSector := by
    refine Block.patch_sectors_of_not_mem (n := 2) ?_ (Or.inl (by decide))
    rw [length_elems (by decide)]
    decide
  rw [disk_inode, hsector]
  exact InodeDisk.ofSector_toSector (by decide) (by decide) (by decide)

theorem new_file_system_inv : MapInv new_file_system where
  size_eq := rfl
  type_ne := by decide
  small := by decide
  opened := ⟨0, _, _, rfl, rfl, rfl, rfl, new_disk_inode.symm⟩
  length_eq := by
    have hdisk : new_file_system.fs_device = new_disk := rfl
    rw [hdisk, new_disk_inode]
    decide
  inside := by
    have hdisk : new_file_system.fs_device = new_disk := rfl
    rw [hdisk, data_extent, new_disk_inode]
    decide
  self := by
    have hdisk : new_file_system.fs_device = new_disk := rfl
    rw [hdisk, mem_data_extent, new_disk_inode]
    decide

theorem new_file_system_synced : new_file_system.Synced := by
  have hbyte : data_byte new_disk FREE_MAP_SECTOR =
      overlay (Block.byte ⟨[], .filesys, 4128, by decide, fun _ => new_map_inode.toSector⟩ 2) 0
        new_map.elems := by
    funext k
    rw [data_byte, new_disk_inode]
    exact congrFun Block.byte_patch k
  have hlen : new_map.elems.length = byte_cnt 4128 := length_elems (by decide)
  have hdisk : new_file_system.fs_device = new_disk := rfl
  have hmap : new_file_system.free_map = new_map := rfl
  have hsize : new_file_system.map_size = new_map.elems.length := hlen.symm
  rw [FileSys.Synced, hdisk, hmap, hbyte, hsize, window_overlay_self, List.take_length]

/-- An allocation of a sector fails and leaves the sector marked on the disk. -/
theorem new_file_system_marked : MapInv new_file_system ∧ new_file_system.Synced ∧
    ∃ s', new_file_system.free_map_allocate 1 = some (none, s') ∧ ¬ s'.Synced := by
  refine ⟨new_file_system_inv, new_file_system_synced, ?_⟩
  have hfirst : new_file_system.free_map.FirstRun 0 1 false 5 := by
    refine ⟨Nat.zero_le 5, by decide, fun i hi hi' => ?_, fun k _ hk hrun => ?_⟩
    · obtain rfl : i = 5 := by omega
      decide
    · have hused : ∀ k, k < 5 → new_map.test k = true := by decide
      have hfree := hrun k (le_refl k) (Nat.lt_succ_self k)
      rw [show new_file_system.free_map = new_map from rfl, hused k hk] at hfree
      cases hfree
  have hnot : ¬ new_file_system.AllocKeeps 1 := by
    intro hkeeps
    have hcase := hkeeps 5 hfirst
    revert hcase
    decide
  rcases new_file_system_inv.free_map_allocate 1 with ⟨r, s', heq, hspec⟩
  have hsynced := mt (new_file_system_inv.allocate_synced_iff new_file_system_synced heq).1 hnot
  cases hspec with
  | full hno =>
      exact absurd new_file_system_synced hsynced
  | unwritten =>
      exact ⟨_, heq, hsynced⟩
  | done _ hw =>
      exact absurd hw (by decide)

/-- The theorem at this file system. -/
theorem free_map_copies_iff_new :
    (∀ r s', new_file_system.free_map_allocate 1 = some (r, s') →
      (s'.Synced ↔ new_file_system.AllocKeeps 1)) ∧
    ∀ s', new_file_system.free_map_release 4 1 = some s' →
      (s'.Synced ↔ new_file_system.ReleaseKeeps 4 1) :=
  have hboth := free_map_copies_iff new_file_system_inv new_file_system_synced
  ⟨fun r s' heq => (hboth.1 1 r s' heq).1, hboth.2 4 1⟩

end Berk162
