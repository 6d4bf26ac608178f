import Berk162.Filesys.FsFiles

/-!
# FsFormat — formatting and starting the file system

`DiskInv` is what a disk has to satisfy between `filesys_done` and `filesys_init`.  Formatting
establishes it, and `free_map_open` leads from it to the invariant of the running file system.
-/

namespace Berk162

variable {s s' : FileSys} {f p : Nat} {file : File} {inode : Inode} {b : Bitmap}

/-- The file from which `bitmap_read` reads the free map. -/
structure MapReadable (s : FileSys) (f : Nat) (b : Bitmap) : Prop where
  opened : ∃ file inode, s.files.get f = some file ∧ s.open_inodes.get file.inode = some inode ∧
    inode.data = disk_inode s.fs_device FREE_MAP_SECTOR
  fits : (disk_inode s.fs_device FREE_MAP_SECTOR).Fits s.fs_device
  length_eq : (disk_inode s.fs_device FREE_MAP_SECTOR).length = byte_cnt b.bit_cnt
  pos : 0 < b.bit_cnt

theorem MapReadable.bitmap_read (h : MapReadable s f b) :
    ∃ ok b', s.bitmap_read b f = some (ok, b', s.setMem (mem_after s.mem 0 (byte_cnt b.bit_cnt))) ∧
      (ok = true ↔ Whole 0 (byte_cnt b.bit_cnt) ∨ s.mem 0 = true) ∧
      (ok = true → b' = b.masked (window (data_byte s.fs_device FREE_MAP_SECTOR) 0 (byte_cnt b.bit_cnt))) := by
  rcases h.opened with ⟨file, inode, hf, hp, hdata⟩
  have hall : in_file inode.data (byte_cnt b.bit_cnt) 0 = byte_cnt b.bit_cnt := by
    rw [in_file, hdata, h.length_eq, Nat.sub_zero, Nat.min_self]
  have hread := inode_read_at_eq hp (by rw [hdata]; exact h.fits) hdata (byte_cnt b.bit_cnt) 0
  rw [hall] at hread
  have hbitmap : s.bitmap_read b f = (s.inode_read_at file.inode (byte_cnt b.bit_cnt) 0).bind fun r =>
      some (decide (r.1.length = byte_cnt b.bit_cnt), b.masked r.1, r.2) := by
    have hpos : b.bit_cnt > 0 := h.pos
    simp only [FileSys.bitmap_read, if_pos hpos, FileSys.file_read_at, hf, Option.bind_eq_bind,
      Option.bind_some]
    rfl
  refine ⟨_, _, by rw [hbitmap, hread, Option.bind_some], ?_, fun hok => ?_⟩
  · rw [decide_eq_true_iff, length_window]
    exact moved_zero_eq_iff
  · rw [decide_eq_true_iff, length_window] at hok
    simp only [hok]

/-! ## The disk -/

/-- The inodes in use when no file is open. -/
def OnDisk (dev : Block) (i : Nat) : Prop := i = FREE_MAP_SECTOR ∨ i = ROOT_DIR_SECTOR ∨ Named dev i

/-- What a disk has to satisfy for the file system to be started, `b` being its free map. -/
structure DiskInv (dev : Block) (b : Bitmap) : Prop where
  layout : Layout dev b (OnDisk dev)
  dir : DirInv dev
  length_eq : (disk_inode dev FREE_MAP_SECTOR).length = byte_cnt b.bit_cnt
  map_eq : ∀ j, j < b.bit_cnt → (disk_map dev b).test j = b.test j

theorem Layout.cell_lt {dev : Block} {L : Nat → Prop} {i a : Nat} (h : Layout dev b L) (hi : L i)
    (ha : Cell dev i a) : a < b.bit_cnt := by
  rcases ha with rfl | ha
  · exact h.sector_lt _ hi
  · exact lt_of_lt_of_le ha.2 (h.inside i hi)

/-! ## Starting -/

/-- The state after `free_map_open`. -/
structure Started (s : FileSys) (b : Bitmap) (s' : FileSys) : Prop where
  inv : FsInv [] s'
  fs_device : s'.fs_device = s.fs_device
  bit_cnt : s'.free_map.bit_cnt = b.bit_cnt
  test : ∀ j, j < b.bit_cnt → s'.free_map.test j = b.test j
  map_on_disk : s'.MapOnDisk
  only_map : ∀ f file, s'.files.get f = some file → s'.free_map_file = some f
  ample : s.mem.Ample → s'.mem.Ample

/-- Nothing is open. -/
structure FileSys.Closed (s : FileSys) : Prop where
  inodes : ∀ p, s.open_inodes.get p = none
  files : ∀ f, s.files.get f = none

namespace FileSys

variable (s)

/-- The state in which `free_map_create` and `free_map_open` have opened the free map's file. -/
def map_opened (data : InodeDisk) : FileSys where
  fs_device := s.fs_device
  mem := s.mem.malloc.2.malloc.2
  open_inodes := s.open_inodes.alloc ⟨FREE_MAP_SECTOR, 1, false, 0, data⟩
  files := s.files.alloc ⟨s.open_inodes.next, 0, false⟩
  free_map := s.free_map
  free_map_file := some s.files.next

variable {s}

theorem Closed.find (h : s.Closed) (sector : Nat) :
    (s.open_inodes.cells.find? fun e => decide (e.2.sector = sector)) = none := by
  rw [List.find?_eq_none]
  rintro ⟨p, inode⟩ he
  have hget := Store.get_eq_some_iff.2 he
  rw [h.inodes p] at hget
  cases hget

/-- The free map's file is opened, if there is memory. -/
theorem Closed.open_map (h : s.Closed) (hsize : FREE_MAP_SECTOR < s.fs_device.size) :
    (do
      let (inode, s) ← s.inode_open FREE_MAP_SECTOR
      let (file, s) ← s.file_open inode
      let s := { s with free_map_file := file }
      let file ← file
      return (file, s)) =
    if s.mem 0 = true ∧ s.mem 1 = true then
      some (s.files.next, s.map_opened (disk_inode s.fs_device FREE_MAP_SECTOR))
    else none := by
  cases hmem : s.mem 0 with
  | false =>
      simp only [inode_open, h.find, FsInv.malloc_eq hmem, FsInv.file_open_none, Option.bind_eq_bind,
        Option.bind_some, Option.bind_none, Bool.false_eq_true, false_and, if_false]
  | true =>
      have hread : block_read (s.setMem s.mem.malloc.2).fs_device FREE_MAP_SECTOR =
          some (s.fs_device.sectors FREE_MAP_SECTOR) := block_read_eq hsize
      have hdata : InodeDisk.ofSector (s.fs_device.sectors FREE_MAP_SECTOR) =
          disk_inode s.fs_device FREE_MAP_SECTOR := by rw [disk_inode]
      have hopen : s.inode_open FREE_MAP_SECTOR = some (some s.open_inodes.next,
          (s.setMem s.mem.malloc.2).setInodes (s.open_inodes.alloc
            ⟨FREE_MAP_SECTOR, 1, false, 0, disk_inode s.fs_device FREE_MAP_SECTOR⟩)) := by
        simp only [inode_open, h.find, FsInv.malloc_eq hmem, hread, hdata, Option.bind_eq_bind,
          Option.bind_some]
        rfl
      simp only [hopen, Option.bind_eq_bind, Option.bind_some, true_and]
      set u := (s.setMem s.mem.malloc.2).setInodes (s.open_inodes.alloc
        ⟨FREE_MAP_SECTOR, 1, false, 0, disk_inode s.fs_device FREE_MAP_SECTOR⟩) with hu
      cases hmem' : s.mem 1 with
      | false =>
          have hmem₁ : u.mem 0 = false := hmem'
          have hget : (u.setMem u.mem.malloc.2).open_inodes.get s.open_inodes.next = some
              ⟨FREE_MAP_SECTOR, 1, false, 0, disk_inode s.fs_device FREE_MAP_SECTOR⟩ :=
            Store.get_alloc_self
          have hzero : (1 : Int) - 1 = 0 := rfl
          simp only [file_open, FsInv.malloc_eq hmem₁, inode_close, hget, hzero, if_true,
            Bool.false_eq_true, if_false, Option.bind_eq_bind, Option.bind_some]
          rfl
      | true =>
          have hmem₁ : u.mem 0 = true := hmem'
          simp only [file_open, FsInv.malloc_eq hmem₁, Option.bind_some, if_true]
          rfl

theorem free_map_open_eq (s : FileSys) :
    s.free_map_open =
      ((do
        let (inode, s) ← s.inode_open FREE_MAP_SECTOR
        let (file, s) ← s.file_open inode
        let s := { s with free_map_file := file }
        let file ← file
        return (file, s)) : Option (Nat × FileSys)).bind fun r => do
        let (success, free_map, s) ← r.2.bitmap_read r.2.free_map r.1
        ASSERT (success = true)
        return s.setMap free_map := by
  simp only [free_map_open, Option.bind_eq_bind, Option.bind_assoc, Option.pure_def, Option.bind_some]

end FileSys

section
variable (hc : s.Closed) (hdisk : DiskInv s.fs_device b)
include hc hdisk

/-- The free map's file is the only one that is open. -/
theorem DiskInv.map_opened {mem : Mallocs} {b' : Bitmap} (hcnt : b'.bit_cnt = b.bit_cnt)
    (htest : ∀ j, j < b.bit_cnt → b'.test j = b.test j) :
    FsInv [] (((s.map_opened (disk_inode s.fs_device FREE_MAP_SECTOR)).setMem mem).setMap b') := by
  set u := ((s.map_opened (disk_inode s.fs_device FREE_MAP_SECTOR)).setMem mem).setMap b' with hu
  have hget : ∀ q i, u.open_inodes.get q = some i ↔ q = s.open_inodes.next ∧
      i = ⟨FREE_MAP_SECTOR, 1, false, 0, disk_inode s.fs_device FREE_MAP_SECTOR⟩ := by
    intro q i
    have halloc := @Store.get_alloc_eq_some Inode s.open_inodes q
      ⟨FREE_MAP_SECTOR, 1, false, 0, disk_inode s.fs_device FREE_MAP_SECTOR⟩ i
    rw [hc.inodes q] at halloc
    exact halloc.trans ⟨fun h => h.elim id nofun, Or.inl⟩
  have hfile : ∀ g file, u.files.get g = some file ↔ g = s.files.next ∧
      file = ⟨s.open_inodes.next, 0, false⟩ := by
    intro g file
    have halloc := @Store.get_alloc_eq_some File s.files g
      ⟨s.open_inodes.next, 0, false⟩ file
    rw [hc.files g] at halloc
    exact halloc.trans ⟨fun h => h.elim id nofun, Or.inl⟩
  have hlive : ∀ i, u.Live i → OnDisk s.fs_device i := by
    intro i hi
    rcases hi with hi | hi | hi | ⟨q, inode, hq, rfl⟩
    · exact Or.inl hi
    · exact Or.inr (Or.inl hi)
    · exact Or.inr (Or.inr hi)
    · rw [((hget q inode).1 hq).2]
      exact Or.inl rfl
  refine ⟨?_, hdisk.dir, ?_, ⟨⟨_, _, _, rfl, (hfile _ _).2 ⟨rfl, rfl⟩, (hget _ _).2 ⟨rfl, rfl⟩, rfl⟩, ?_⟩⟩
  · refine (hdisk.layout.change rfl rfl hcnt (fun _ _ => rfl) fun i a hi ha => ?_).mono hlive
    rw [htest a (hdisk.layout.cell_lt hi ha)]
    exact hdisk.layout.marked i a hi ha
  · constructor
    · intro q r i j hq hr _
      rw [((hget q i).1 hq).1, ((hget r j).1 hr).1]
    · intro q i hq
      rw [((hget q i).1 hq).2]
      rfl
    · intro q i hq
      rcases (hget q i).1 hq with ⟨rfl, rfl⟩
      have hnone : (s.files.count fun f => decide (f.inode = s.open_inodes.next)) = 0 :=
        Store.count_eq_zero fun g file hg => by
          rw [hc.files g] at hg
          cases hg
      have hcount : (u.files.count fun f => decide (f.inode = s.open_inodes.next)) = 1 := by
        have halloc := @Store.count_alloc File s.files ⟨s.open_inodes.next, 0, false⟩
          fun f => decide (f.inode = s.open_inodes.next)
        simp only [hnone, decide_true, if_true, Nat.zero_add] at halloc
        exact halloc
      rw [hcount]
      rfl
    · intro q i hq
      rw [((hget q i).1 hq).2]
      exact Int.one_pos
    · intro g file hg
      rw [((hfile g file).1 hg).2]
      exact ⟨rfl, _, (hget _ _).2 ⟨rfl, rfl⟩⟩
    · exact nofun
    · intro q i hq
      rw [((hget q i).1 hq).2]
    · intro q i hq hr
      rw [((hget q i).1 hq).2] at hr
      cases hr
  · exact hdisk.length_eq.trans (by rw [← hcnt]; rfl)

theorem DiskInv.free_map_open (hcnt : s.free_map.bit_cnt = b.bit_cnt) :
    (s.free_map_open = none ∧ ¬ s.mem.Ample) ∨
      ∃ s', s.free_map_open = some s' ∧ Started s b s' := by
  have hsize : FREE_MAP_SECTOR < s.fs_device.size := by
    rw [hdisk.layout.size_eq]
    exact hdisk.layout.sector_lt _ (Or.inl rfl)
  rw [FileSys.free_map_open_eq, hc.open_map hsize]
  by_cases hmem : s.mem 0 = true ∧ s.mem 1 = true
  · rw [if_pos hmem, Option.bind_some]
    set u := s.map_opened (disk_inode s.fs_device FREE_MAP_SECTOR) with hu
    have hsmall : s.free_map.bit_cnt + ELEM_BITS ≤ WORD := by
      have hsmall := hdisk.layout.small
      rwa [← hcnt] at hsmall
    have hreadable : MapReadable u s.files.next u.free_map := by
      refine ⟨⟨_, _, Store.get_alloc_self, Store.get_alloc_self, rfl⟩, ⟨?_, ?_⟩, ?_, ?_⟩
      · have hin := hdisk.layout.inside _ (Or.inl rfl)
        rw [← hdisk.layout.size_eq] at hin
        simp only [data_extent] at hin
        exact hin
      · exact hdisk.layout.length_lt _ (Or.inl rfl)
      · have hlen := hdisk.length_eq
        rw [← hcnt] at hlen
        exact hlen
      · have hpos := hdisk.layout.sector_lt _ (Or.inl rfl)
        rw [← hcnt] at hpos
        exact Nat.zero_lt_of_lt hpos
    rcases hreadable.bitmap_read with ⟨ok, b', hread, hok, hb'⟩
    rw [hread]
    cases ok with
    | false =>
        left
        refine ⟨by simp, fun hs => ?_⟩
        have hbad := hok.2 (Or.inr (hs 2))
        cases hbad
    | true =>
        right
        have hmask : b' = s.free_map.masked
            (window (data_byte s.fs_device FREE_MAP_SECTOR) 0 (byte_cnt s.free_map.bit_cnt)) := hb' rfl
        have htest : ∀ j, j < b.bit_cnt → b'.test j = b.test j := by
          intro j hj
          calc
            b'.test j = (disk_map s.fs_device s.free_map).test j := by
              rw [hmask, disk_map, Bitmap.test_masked (by rwa [hcnt]) hsmall]
            _ = (disk_map s.fs_device b).test j := disk_map_congr hcnt hdisk.layout.small hj
            _ = b.test j := hdisk.map_eq j hj
        have hcnt' : b'.bit_cnt = b.bit_cnt := by
          rw [hmask, Bitmap.masked_bit_cnt, hcnt]
        have hinv := @DiskInv.map_opened _ _ hc hdisk
          (mem_after u.mem 0 (byte_cnt u.free_map.bit_cnt)) _ hcnt' htest
        refine ⟨(u.setMem (mem_after u.mem 0 (byte_cnt u.free_map.bit_cnt))).setMap b', ?_,
          ⟨hinv, ?_, ?_, htest, fun j hj => ?_, fun g file hg => ?_, fun hs => ?_⟩⟩
        · simp only [Option.bind_eq_bind, Option.bind_some, ASSERT_pos]
          rfl
        · rw [FileSys.setMap_fs_device, FileSys.setMem_fs_device]
          rfl
        · rw [FileSys.setMap_free_map]
          exact hcnt'
        · rw [FileSys.setMap_free_map] at hj
          have hj' : j < b.bit_cnt := by rwa [hcnt'] at hj
          rw [FileSys.setMap_free_map, FileSys.setMap_fs_device, FileSys.setMem_fs_device]
          calc
            (disk_map s.fs_device b').test j = (disk_map s.fs_device b).test j :=
              disk_map_congr hcnt' hdisk.layout.small hj'
            _ = b.test j := hdisk.map_eq j hj'
            _ = b'.test j := (htest j hj').symm
        · rcases Store.get_alloc_eq_some.1 hg with ⟨rfl, _⟩ | hg
          · rfl
          · rw [hc.files g] at hg
            cases hg
        · rw [FileSys.setMap_mem, FileSys.setMem_mem]
          exact Mallocs.Ample.after hs.tail.tail _ _
  · left
    rw [if_neg hmem]
    exact ⟨rfl, fun hs => hmem ⟨hs 0, hs 1⟩⟩

end

/-! ## The free map of a new file system -/


/-- A free map in which only the sectors of the two first inodes are marked. -/
structure NewMap (s : FileSys) : Prop where
  size_eq : s.fs_device.size = s.free_map.bit_cnt
  small : s.free_map.bit_cnt + ELEM_BITS ≤ WORD
  marked : s.free_map.test FREE_MAP_SECTOR = true ∧ s.free_map.test ROOT_DIR_SECTOR = true
  free : ∀ j, 2 ≤ j → j < s.free_map.bit_cnt → s.free_map.test j = false
  closed : s.Closed
  no_file : s.free_map_file = none

/-- The device has room for the free map and the root directory. -/
structure Room (dev : Block) : Prop where
  type_ne : dev.type ≠ .foreign
  small : dev.size + ELEM_BITS ≤ WORD
  sectors : 3 + bytes_to_sectors (byte_cnt dev.size) ≤ dev.size

/-- Before the free map has a file, an allocation only marks sectors. -/
theorem free_map_allocate_no_file (hfile : s.free_map_file = none)
    (hsmall : s.free_map.bit_cnt + ELEM_BITS ≤ WORD) (cnt : Nat) :
    (s.free_map_allocate cnt = some (none, s) ∧ s.free_map.NoRun 0 cnt false) ∨
      ∃ idx b, s.free_map_allocate cnt = some (some idx, s.setMap b) ∧
        s.free_map.FirstRun 0 cnt false idx ∧ b.bit_cnt = s.free_map.bit_cnt ∧
        ∀ j, b.test j = if idx ≤ j ∧ j < idx + cnt then true else s.free_map.test j := by
  have herror : s.free_map.bit_cnt < BITMAP_ERROR := by
    simp only [BITMAP_ERROR, ELEM_BITS] at hsmall ⊢
    omega
  rcases bitmap_scan_and_flip_spec (b := s.free_map) cnt false (Nat.zero_le _) herror with
    ⟨b, idx, hflip, hne, hfirst, hcnt, htest⟩ | ⟨hflip, hno⟩
  · right
    refine ⟨idx, b, ?_, hfirst, hcnt, htest⟩
    simp only [FileSys.free_map_allocate, hflip, Option.bind_eq_bind, Option.bind_some, ne_eq, hne,
      not_false_eq_true, if_true, FileSys.setMap_free_map_file, hfile]
    rfl
  · left
    refine ⟨?_, hno⟩
    simp only [FileSys.free_map_allocate, hflip, Option.bind_eq_bind, Option.bind_some, ne_eq,
      not_true_eq_false, if_false]
    rfl

/-- The state in which the first inode has been created. -/
structure FirstInode (s : FileSys) (length : Nat) (s' : FileSys) (idx : Nat) : Prop where
  first : s.free_map.FirstRun 0 (bytes_to_sectors length) false idx
  type_ne : s.fs_device.type ≠ .foreign
  size_pos : FREE_MAP_SECTOR < s.fs_device.size
  fs_device : s'.fs_device = new_inode s.fs_device FREE_MAP_SECTOR idx length
  bit_cnt : s'.free_map.bit_cnt = s.free_map.bit_cnt
  test : ∀ j, s'.free_map.test j =
    if idx ≤ j ∧ j < idx + bytes_to_sectors length then true else s.free_map.test j
  closed : s'.Closed
  mem : s'.mem = s.mem.malloc.2

theorem NewMap.noRun_of_free (h : NewMap s) {n : Nat} (hfit : 2 + n ≤ s.free_map.bit_cnt) :
    ¬ s.free_map.NoRun 0 n false :=
  fun hno => hno 2 (Nat.zero_le 2) hfit fun j hj hj' => h.free j hj (lt_of_lt_of_le hj' hfit)

/-- What `inode_create` does before the free map has a file. -/
theorem NewMap.inode_create (h : NewMap s) (length : Nat) :
    ((∀ s', s.inode_create FREE_MAP_SECTOR length ≠ some (true, s')) ∧
      (s.mem.Ample → s.fs_device.type ≠ .foreign →
        ¬ 2 + bytes_to_sectors length ≤ s.free_map.bit_cnt)) ∨
    ∃ s' idx, s.inode_create FREE_MAP_SECTOR length = some (true, s') ∧
      FirstInode s length s' idx := by
  have hassert : ASSERT ((length : Int) ≥ 0) = some () := ASSERT_pos (Int.natCast_nonneg _)
  cases hmem : s.mem 0 with
  | false =>
      left
      refine ⟨fun s' heq => ?_, fun hs => ?_⟩
      · simp only [FileSys.inode_create, hassert, FsInv.malloc_eq hmem, Option.bind_eq_bind,
          Option.bind_some] at heq
        cases heq
      · rw [hs 0] at hmem
        cases hmem
  | true =>
      rcases free_map_allocate_no_file (s := s.setMem s.mem.malloc.2) h.no_file h.small
          (bytes_to_sectors length) with
        ⟨halloc, hno⟩ | ⟨idx, b, halloc, hfirst, hcnt, htest⟩
      · left
        refine ⟨fun s' heq => ?_, fun _ _ hfit => h.noRun_of_free hfit hno⟩
        simp only [FileSys.inode_create, hassert, FsInv.malloc_eq hmem, Int.toNat_natCast, halloc,
          Option.bind_eq_bind, Option.bind_some] at heq
        cases heq
      · have hcreate : s.inode_create FREE_MAP_SECTOR length =
            ((block_write s.fs_device FREE_MAP_SECTOR (InodeDisk.mk idx length INODE_MAGIC).toSector).bind
              fun dev => FileSys.write_zeros dev idx (bytes_to_sectors length)).bind
                fun dev => some (true, ((s.setMem s.mem.malloc.2).setMap b).setDevice dev) := by
          simp only [FileSys.inode_create, hassert, FsInv.malloc_eq hmem, Int.toNat_natCast, halloc,
            Option.bind_eq_bind, Option.bind_some, Option.bind_assoc]
          rfl
        by_cases hok : s.fs_device.type ≠ .foreign ∧ 0 < s.fs_device.size
        · right
          have hfits : idx + bytes_to_sectors length ≤ s.fs_device.size := by
            rw [h.size_eq]
            exact hfirst.fits
          have hsize : FREE_MAP_SECTOR < s.fs_device.size := hok.2
          refine ⟨((s.setMem s.mem.malloc.2).setMap b).setDevice
            (new_inode s.fs_device FREE_MAP_SECTOR idx length), idx, ?_, hfirst, hok.1, hsize, rfl, hcnt,
            htest, ⟨h.closed.inodes, h.closed.files⟩, rfl⟩
          rw [hcreate, write_new_inode hsize hfits hok.1, Option.bind_some]
        · left
          have hnone : ∀ sector, block_write s.fs_device FREE_MAP_SECTOR sector = none := by
            intro sector
            by_cases hsize : 0 < s.fs_device.size
            · have htype : ¬ s.fs_device.type ≠ .foreign := fun htype => hok ⟨htype, hsize⟩
              simp only [block_write, check_sector_eq_some.2 hsize, ASSERT_neg htype,
                Option.bind_eq_bind, Option.bind_some, Option.bind_none, FREE_MAP_SECTOR]
            · have hcheck : check_sector s.fs_device.size FREE_MAP_SECTOR = none :=
                if_pos (Nat.le_of_not_lt hsize)
              simp only [block_write, hcheck, Option.bind_eq_bind, Option.bind_none]
          refine ⟨fun s' heq => ?_, fun _ htype hfit => hok ⟨htype, ?_⟩⟩
          · rw [hcreate, hnone, Option.bind_none, Option.bind_none] at heq
            cases heq
          · rw [h.size_eq]
            exact lt_of_lt_of_le (by decide) (le_trans (Nat.le_add_right 2 _) hfit)

/-- The state after `free_map_create`. -/
structure MapMade (s s' : FileSys) (idx : Nat) : Prop where
  map_inv : MapInv s'
  pos : 0 < s.free_map.bit_cnt
  extent : data_extent s'.fs_device FREE_MAP_SECTOR =
    ⟨idx, bytes_to_sectors (byte_cnt s.free_map.bit_cnt)⟩
  bit_cnt : s'.free_map.bit_cnt = s.free_map.bit_cnt
  test : ∀ j, s'.free_map.test j =
    if idx ≤ j ∧ j < idx + bytes_to_sectors (byte_cnt s.free_map.bit_cnt) then true
    else s.free_map.test j
  first : s.free_map.FirstRun 0 (bytes_to_sectors (byte_cnt s.free_map.bit_cnt)) false idx
  opened : ∃ s₁ : FileSys, s₁.Closed ∧ s'.free_map_file = some s₁.files.next ∧
    s'.open_inodes = s₁.open_inodes.alloc
      ⟨FREE_MAP_SECTOR, 1, false, 0, disk_inode s'.fs_device FREE_MAP_SECTOR⟩ ∧
    s'.files = s₁.files.alloc ⟨s₁.open_inodes.next, 0, false⟩
  ample : s.mem.Ample → s'.mem.Ample

theorem FirstInode.out {length idx : Nat} (h : FirstInode s length s' idx) {j : Nat}
    (hj : s.free_map.test j = true) : ¬ (idx ≤ j ∧ j < idx + bytes_to_sectors length) := by
  rintro ⟨hle, hlt⟩
  have hfree := h.first.run j hle hlt
  rw [hj] at hfree
  cases hfree

/-- The inode of the free map's file. -/
theorem FirstInode.disk {length idx : Nat} (h : FirstInode s length s' idx) (hn : NewMap s)
    (hlen : length < OFF_T) : disk_inode s'.fs_device FREE_MAP_SECTOR = ⟨idx, length, INODE_MAGIC⟩ := by
  have hfits := h.first.fits
  have hsmall := hn.small
  have hstart : idx < WORD := by
    simp only [ELEM_BITS] at hsmall
    omega
  rw [h.fs_device]
  exact disk_inode_new_inode (h.out hn.marked.1) hstart hlen

theorem FirstInode.map_inv {idx : Nat} (hn : NewMap s)
    (h : FirstInode s (byte_cnt s.free_map.bit_cnt) s' idx) :
    MapInv (s'.map_opened (disk_inode s'.fs_device FREE_MAP_SECTOR)) := by
  have hdisk := h.disk hn (byte_cnt_lt hn.small)
  have hext : data_extent s'.fs_device FREE_MAP_SECTOR =
      ⟨idx, bytes_to_sectors (byte_cnt s.free_map.bit_cnt)⟩ := by
    rw [data_extent, hdisk]
  have hdev : (s'.map_opened (disk_inode s'.fs_device FREE_MAP_SECTOR)).fs_device = s'.fs_device := rfl
  have hmap : (s'.map_opened (disk_inode s'.fs_device FREE_MAP_SECTOR)).free_map = s'.free_map := rfl
  constructor
  · rw [hdev, hmap, h.bit_cnt, h.fs_device]
    exact hn.size_eq
  · rw [hdev, h.fs_device]
    exact h.type_ne
  · rw [hmap, h.bit_cnt]
    exact hn.small
  · exact ⟨_, _, _, rfl, Store.get_alloc_self, Store.get_alloc_self, rfl, rfl⟩
  · rw [hdev, hmap, hdisk, h.bit_cnt]
  · rw [hdev, hmap, hext, h.bit_cnt]
    simpa only using h.first.fits
  · rw [hdev, hext, Extent.mem_def]
    simpa only using h.out hn.marked.1

theorem FileSys.free_map_create_eq (s : FileSys) :
    s.free_map_create =
      (s.inode_create FREE_MAP_SECTOR (byte_cnt s.free_map.bit_cnt)).bind fun r =>
      (ASSERT (r.1 = true)).bind fun _ =>
      ((do
        let (inode, s) ← r.2.inode_open FREE_MAP_SECTOR
        let (file, s) ← s.file_open inode
        let s := { s with free_map_file := file }
        let file ← file
        return (file, s)) : Option (Nat × FileSys)).bind fun q =>
      (q.2.bitmap_write q.2.free_map q.1).bind fun w =>
      (ASSERT (w.1 = true)).bind fun _ => some w.2 := by
  simp only [free_map_create, Option.bind_eq_bind, Option.bind_assoc, Option.pure_def, Option.bind_some]

theorem NewMap.free_map_create (h : NewMap s) :
    (s.free_map_create = none ∧ (s.mem.Ample → ¬ Room s.fs_device)) ∨
      ∃ s' idx, s.free_map_create = some s' ∧ MapMade s s' idx := by
  have hbytes := byte_cnt_lt h.small
  rw [FileSys.free_map_create_eq]
  rcases h.inode_create (byte_cnt s.free_map.bit_cnt) with ⟨hfail, hroom⟩ | ⟨s₁, idx, hcreate, hfirst⟩
  · left
    refine ⟨?_, fun hs hr => hroom hs hr.type_ne ?_⟩
    · cases hcase : s.inode_create FREE_MAP_SECTOR (byte_cnt s.free_map.bit_cnt) with
      | none =>
          rfl
      | some r =>
          have hne : ¬ r.1 = true := fun hr => hfail r.2 (by rw [hcase, ← hr])
          simp only [Option.bind_some, ASSERT_neg hne, Option.bind_none]
    · have hsectors := hr.sectors
      rw [h.size_eq] at hsectors
      exact le_trans (Nat.add_le_add_right (by decide) _) hsectors
  · have hsize : FREE_MAP_SECTOR < s₁.fs_device.size := by
      rw [hfirst.fs_device]
      exact hfirst.size_pos
    have hdisk := hfirst.disk h hbytes
    rw [hcreate, Option.bind_some, ASSERT_pos rfl, Option.bind_some, hfirst.closed.open_map hsize]
    by_cases hmem : s₁.mem 0 = true ∧ s₁.mem 1 = true
    · have hinv := hfirst.map_inv h
      have hwrite := hinv.bitmap_write (f := s₁.files.next) rfl
      rw [if_pos hmem, Option.bind_some, hwrite, Option.bind_some]
      by_cases hw : (s₁.map_opened (disk_inode s₁.fs_device FREE_MAP_SECTOR)).MapWritable
      · right
        have hstep := hinv.map_written_step
        have hpos : 0 < s.free_map.bit_cnt := by
          rw [← h.size_eq]
          exact hfirst.size_pos
        refine ⟨_, idx, by rw [ASSERT_pos (decide_eq_true hw), Option.bind_some], hinv.step hstep, hpos, ?_,
          hstep.bit_cnt.trans hfirst.bit_cnt, hfirst.test, hfirst.first, ⟨s₁, hfirst.closed, rfl, ?_, rfl⟩,
          fun hs => hstep.ample ?_⟩
        · rw [data_extent_congr (hstep.sectors _ hinv.self)]
          exact (by rw [data_extent, hdisk] : data_extent s₁.fs_device FREE_MAP_SECTOR = _)
        · rw [disk_inode_congr (hstep.sectors _ hinv.self)]
          rfl
        · have hs₁ : s₁.mem.Ample := by
            rw [hfirst.mem]
            exact hs.tail
          exact hs₁.tail.tail
      · left
        refine ⟨by rw [ASSERT_neg (by simpa using hw), Option.bind_none], fun hs => absurd ?_ hw⟩
        refine Or.inr ?_
        have hs₁ : s₁.mem.Ample := by
          rw [hfirst.mem]
          exact hs.tail
        exact hs₁ 2
    · left
      rw [if_neg hmem]
      refine ⟨rfl, fun hs => absurd ?_ hmem⟩
      rw [hfirst.mem]
      exact ⟨hs 1, hs 2⟩

/-! ## The root directory of a new file system -/

/-- No entry is in use. -/
def NoNames (dev : Block) : Prop := ∀ k, k < ROOT_ENTRIES → (dir_entry dev k).in_use = false

theorem NoNames.not_named {dev : Block} (h : NoNames dev) (i : Nat) : ¬ Named dev i := by
  rintro ⟨k, hk, huse, _⟩
  rw [h k hk] at huse
  cases huse

/-- The size of the root directory. -/
theorem root_size : size_mul 16 sizeof_dir_entry = ROOT_ENTRIES * sizeof_dir_entry := by decide

theorem root_sectors : bytes_to_sectors (ROOT_ENTRIES * sizeof_dir_entry) = 1 := by
  rw [bytes_to_sectors_eq (by decide)]
  rfl

theorem zero_entry (dev : Block) {start k : Nat} (hout : ¬ (start ≤ ROOT_DIR_SECTOR ∧
      ROOT_DIR_SECTOR < start + bytes_to_sectors (ROOT_ENTRIES * sizeof_dir_entry)))
    (hstart : start < WORD) (hk : k < ROOT_ENTRIES) :
    (dir_entry (new_inode dev ROOT_DIR_SECTOR start (ROOT_ENTRIES * sizeof_dir_entry)) k).in_use =
      false := by
  have hzero : dir_entry (new_inode dev ROOT_DIR_SECTOR start (ROOT_ENTRIES * sizeof_dir_entry)) k =
      DirEntry.ofBytes fun _ => 0 := by
    refine DirEntry.ofBytes_congr fun j hj => data_byte_new_inode hout hstart (by decide) ?_
    have hle : (k + 1) * sizeof_dir_entry ≤ ROOT_ENTRIES * sizeof_dir_entry :=
      Nat.mul_le_mul_right _ hk
    rw [Nat.succ_mul] at hle
    omega
  rw [hzero]
  rfl

/-- Two inodes, the data of each in sectors that were free before. -/
theorem diskInv_of_two {dev : Block} {b : Bitmap} {idx start k : Nat}
    (hsize : dev.size = b.bit_cnt) (htype : dev.type ≠ .foreign)
    (hsmall : b.bit_cnt + ELEM_BITS ≤ WORD) (hnone : NoNames dev)
    (hmap : data_extent dev FREE_MAP_SECTOR = ⟨idx, k⟩)
    (hmaplen : (disk_inode dev FREE_MAP_SECTOR).length = byte_cnt b.bit_cnt)
    (hroot : data_extent dev ROOT_DIR_SECTOR = ⟨start, 1⟩)
    (hrootlen : (disk_inode dev ROOT_DIR_SECTOR).length = ROOT_ENTRIES * sizeof_dir_entry)
    (hidx : 2 ≤ idx) (hfit : idx + k ≤ b.bit_cnt) (hstart : 2 ≤ start) (hfit' : start < b.bit_cnt)
    (hapart : ¬ (idx ≤ start ∧ start < idx + k))
    (hmarked : ∀ j, j < 2 ∨ (idx ≤ j ∧ j < idx + k) ∨ j = start → b.test j = true)
    (hdisk : ∀ j, j < b.bit_cnt → (disk_map dev b).test j = b.test j) : DiskInv dev b := by
  have hcases : ∀ i, OnDisk dev i → i = FREE_MAP_SECTOR ∨ i = ROOT_DIR_SECTOR := by
    intro i hi
    rcases hi with hi | hi | hi
    · exact Or.inl hi
    · exact Or.inr hi
    · exact absurd hi (hnone.not_named i)
  have hcellmap : ∀ a, Cell dev FREE_MAP_SECTOR a ↔ a = 0 ∨ (idx ≤ a ∧ a < idx + k) := by
    intro a
    rw [Cell, hmap, Extent.mem_def, FREE_MAP_SECTOR]
  have hcellroot : ∀ a, Cell dev ROOT_DIR_SECTOR a ↔ a = 1 ∨ a = start := by
    intro a
    rw [Cell, hroot, Extent.mem_def, ROOT_DIR_SECTOR]
    constructor
    · rintro (ha | ha)
      · exact Or.inl ha
      · right
        simp only at ha
        omega
    · rintro (ha | ha)
      · exact Or.inl ha
      · right
        simp only
        omega
  have hdisjoint : ∀ a, Cell dev FREE_MAP_SECTOR a → ¬ Cell dev ROOT_DIR_SECTOR a := by
    intro a ha ha'
    rcases (hcellmap a).1 ha with rfl | ha
    · rcases (hcellroot 0).1 ha' with ha' | ha' <;> omega
    · rcases (hcellroot a).1 ha' with rfl | rfl
      · omega
      · exact hapart ha
  refine ⟨⟨hsize, htype, hsmall, fun i hi => ?_, fun i hi => ?_, fun i hi => ?_, fun i a hi ha => ?_,
    fun i hi => ?_, fun i j a hi hj hij ha ha' => ?_⟩, ⟨hrootlen, fun l m hl _ huse => ?_,
      fun i hi => absurd hi (hnone.not_named i)⟩, hmaplen, hdisk⟩
  · rcases hcases i hi with rfl | rfl
    · rw [hmaplen]
      exact byte_cnt_lt hsmall
    · rw [hrootlen]
      decide
  · rcases hcases i hi with rfl | rfl
    · rw [hmap]
      exact hfit
    · rw [hroot]
      exact hfit'
  · rcases hcases i hi with rfl | rfl
    · rw [FREE_MAP_SECTOR]
      omega
    · rw [ROOT_DIR_SECTOR]
      omega
  · rcases hcases i hi with rfl | rfl
    · rcases (hcellmap a).1 ha with rfl | ha
      · exact hmarked 0 (Or.inl (by decide))
      · exact hmarked a (Or.inr (Or.inl ha))
    · rcases (hcellroot a).1 ha with rfl | rfl
      · exact hmarked 1 (Or.inl (by decide))
      · exact hmarked _ (Or.inr (Or.inr rfl))
  · rcases hcases i hi with rfl | rfl
    · rw [hmap, Extent.mem_def, FREE_MAP_SECTOR]
      simp only
      omega
    · rw [hroot, Extent.mem_def, ROOT_DIR_SECTOR]
      simp only
      omega
  · rcases hcases i hi with rfl | rfl
    · rcases hcases j hj with rfl | rfl
      · exact hij rfl
      · exact hdisjoint a ha ha'
    · rcases hcases j hj with rfl | rfl
      · exact hdisjoint a ha' ha
      · exact hij rfl
  · rw [hnone l hl] at huse
    cases huse

/-- The sectors behind those of a new file system are free. -/
def Bitmap.FreeAbove (b : Bitmap) : Prop :=
  ∀ j, 3 + bytes_to_sectors (byte_cnt b.bit_cnt) ≤ j → j < b.bit_cnt → b.test j = false

/-- The state after the root directory has been created. -/
structure RootMade (s s' : FileSys) : Prop where
  disk_inv : DiskInv s'.fs_device s'.free_map
  no_names : NoNames s'.fs_device
  bit_cnt : s'.free_map.bit_cnt = s.free_map.bit_cnt
  free_above : s'.free_map.FreeAbove
  opened : ∃ s₁ : FileSys, s₁.Closed ∧ s'.free_map_file = some s₁.files.next ∧
    s'.open_inodes = s₁.open_inodes.alloc
      ⟨FREE_MAP_SECTOR, 1, false, 0, disk_inode s'.fs_device FREE_MAP_SECTOR⟩ ∧
    s'.files = s₁.files.alloc ⟨s₁.open_inodes.next, 0, false⟩
  ample : s.mem.Ample → s'.mem.Ample

section
variable {idx : Nat}

/-- The first run of a new free map lies behind the sectors of the two first inodes. -/
theorem MapMade.two_le (hn : NewMap s) (h : MapMade s s' idx) (hk : 0 < bytes_to_sectors
    (byte_cnt s.free_map.bit_cnt)) : 2 ≤ idx := by
  by_contra hlt
  have hfree := h.first.run idx (le_refl idx) (Nat.lt_add_of_pos_right hk)
  have hcase : idx = 0 ∨ idx = 1 := by omega
  rcases hcase with rfl | rfl
  · rw [show s.free_map.test 0 = true from hn.marked.1] at hfree
    cases hfree
  · rw [show s.free_map.test 1 = true from hn.marked.2] at hfree
    cases hfree

theorem MapMade.marked (hn : NewMap s) (h : MapMade s s' idx) {j : Nat} (hj : j < 2) :
    s'.free_map.test j = true := by
  rw [h.test]
  split
  · rfl
  · have hcase : j = 0 ∨ j = 1 := by omega
    rcases hcase with rfl | rfl
    · exact hn.marked.1
    · exact hn.marked.2

/-- The free map's file begins behind the two first inodes. -/
theorem MapMade.le_two (hn : NewMap s) (h : MapMade s s' idx)
    (hfit : 2 + bytes_to_sectors (byte_cnt s.free_map.bit_cnt) ≤ s.free_map.bit_cnt) : idx ≤ 2 := by
  by_contra hgt
  refine h.first.least 2 (Nat.zero_le 2) (by omega) fun j hj hj' => hn.free j hj ?_
  omega

theorem MapMade.free_above (hn : NewMap s) (h : MapMade s s' idx) {start : Nat} {s_a : FileSys}
    (halloc : AllocSpec (s'.setMem s'.mem.malloc.2)
      (bytes_to_sectors (ROOT_ENTRIES * sizeof_dir_entry)) (some start) s_a) :
    s_a.free_map.FreeAbove := by
  intro j hj hlt
  have hcnt : s_a.free_map.bit_cnt = s.free_map.bit_cnt := halloc.step.bit_cnt.trans h.bit_cnt
  rw [hcnt] at hj hlt
  have hidx := h.le_two hn (by omega)
  have hfree : ∀ i, 2 + bytes_to_sectors (byte_cnt s.free_map.bit_cnt) ≤ i → i < s.free_map.bit_cnt →
      s'.free_map.test i = false := by
    intro i hi hi'
    rw [h.test, if_neg (by omega)]
    exact hn.free i (by omega) hi'
  cases halloc with
  | done hrun _ _ htest =>
      -- the directory's entries have the first free sector
      have hstart : start ≤ 2 + bytes_to_sectors (byte_cnt s.free_map.bit_cnt) := by
        by_contra hgt
        refine hrun.least _ (Nat.zero_le _) (Nat.lt_of_not_le hgt) fun i hi hi' => hfree i hi ?_
        rw [root_sectors] at hi'
        omega
      rw [htest, root_sectors, if_neg (by omega)]
      exact hfree j (by omega) hlt

/-- The root directory in the sector that has been allocated for its entries. -/
theorem MapMade.rootMade (hn : NewMap s) (hidx : 2 ≤ idx) (h : MapMade s s' idx) {start : Nat}
    {s_a : FileSys}
    (halloc : AllocSpec (s'.setMem s'.mem.malloc.2)
      (bytes_to_sectors (ROOT_ENTRIES * sizeof_dir_entry)) (some start) s_a) :
    RootMade s (s_a.setDevice
      (new_inode s_a.fs_device ROOT_DIR_SECTOR start (ROOT_ENTRIES * sizeof_dir_entry))) := by
  have hstep := halloc.step
  have hsynced : s_a.Synced := by
    cases halloc with
    | done _ _ _ _ _ hsynced =>
        exact hsynced
  have hcnt : s_a.free_map.bit_cnt = s.free_map.bit_cnt := hstep.bit_cnt.trans h.bit_cnt
  have hsmall : s_a.free_map.bit_cnt + ELEM_BITS ≤ WORD := by
    rw [hcnt]
    exact hn.small
  have hsize : s_a.fs_device.size = s_a.free_map.bit_cnt := by
    rw [hstep.size, hstep.bit_cnt]
    exact h.map_inv.size_eq
  have htype : s_a.fs_device.type ≠ .foreign := by
    rw [hstep.type]
    exact h.map_inv.type_ne
  -- the sector of the entries
  have hfree := halloc.free (le_refl start) (by rw [root_sectors]; exact Nat.lt_succ_self _)
  have hfree' : s'.free_map.test start = false := hfree.1
  have hfits : start < s_a.free_map.bit_cnt := by
    have hle := halloc.fits
    rw [root_sectors, FileSys.setMem_free_map] at hle
    rw [hstep.bit_cnt, FileSys.setMem_free_map]
    exact hle
  have hstart : 2 ≤ start := by
    by_contra hlt
    rw [h.marked hn (by omega)] at hfree'
    cases hfree'
  have hapart : ¬ (idx ≤ start ∧ start < idx + bytes_to_sectors (byte_cnt s.free_map.bit_cnt)) := by
    intro hin
    rw [h.test, if_pos hin] at hfree'
    cases hfree'
  have hword : start < WORD := by
    simp only [ELEM_BITS] at hsmall
    omega
  have hout : ¬ (start ≤ ROOT_DIR_SECTOR ∧ ROOT_DIR_SECTOR < start +
      bytes_to_sectors (ROOT_ENTRIES * sizeof_dir_entry)) := by
    rw [ROOT_DIR_SECTOR]
    omega
  -- the free map's file
  have hzero : s_a.fs_device.sectors FREE_MAP_SECTOR = s'.fs_device.sectors FREE_MAP_SECTOR :=
    hstep.sectors _ h.map_inv.self
  have hext : data_extent s_a.fs_device FREE_MAP_SECTOR =
      ⟨idx, bytes_to_sectors (byte_cnt s.free_map.bit_cnt)⟩ := by
    rw [data_extent_congr hzero]
    exact h.extent
  have hlen : (disk_inode s_a.fs_device FREE_MAP_SECTOR).length = byte_cnt s_a.free_map.bit_cnt := by
    rw [disk_inode_congr hzero, h.map_inv.length_eq, hcnt, h.bit_cnt]
  set dev := new_inode s_a.fs_device ROOT_DIR_SECTOR start (ROOT_ENTRIES * sizeof_dir_entry) with hdev
  have hsame : ∀ a, a ≠ ROOT_DIR_SECTOR → a ≠ start → dev.sectors a = s_a.fs_device.sectors a := by
    intro a ha ha'
    refine new_inode_sectors ha ?_
    rw [root_sectors]
    omega
  have hzero' : dev.sectors FREE_MAP_SECTOR = s_a.fs_device.sectors FREE_MAP_SECTOR :=
    hsame _ (by decide) (by rw [FREE_MAP_SECTOR]; omega)
  have hbytes : ∀ a, a ∈ data_extent s_a.fs_device FREE_MAP_SECTOR →
      dev.sectors a = s_a.fs_device.sectors a := by
    intro a ha
    rw [hext, Extent.mem_def] at ha
    simp only at ha
    refine hsame a ?_ ?_
    · rw [ROOT_DIR_SECTOR]
      omega
    · rintro rfl
      exact hapart ha
  have hmap : disk_map dev s_a.free_map = disk_map s_a.fs_device s_a.free_map :=
    disk_map_sectors hzero' hbytes hlen (byte_cnt_lt hsmall)
  have hroot : disk_inode dev ROOT_DIR_SECTOR =
      ⟨start, ROOT_ENTRIES * sizeof_dir_entry, INODE_MAGIC⟩ :=
    disk_inode_new_inode hout hword (by decide)
  have hnone : NoNames dev := fun k hk => zero_entry s_a.fs_device hout hword hk
  have hdisk : DiskInv dev s_a.free_map := by
    refine diskInv_of_two hsize htype hsmall hnone ?_ ?_ ?_ ?_
      hidx ?_ hstart hfits hapart ?_ ?_
    · rw [data_extent_congr hzero']
      exact hext
    · rw [disk_inode_congr hzero']
      exact hlen
    · rw [data_extent, hroot, root_sectors]
    · rw [hroot]
    · rw [hcnt]
      exact h.first.fits
    · intro j hj
      rcases hj with hj | hj | rfl
      · exact halloc.mono (h.marked hn hj)
      · refine halloc.mono ?_
        rw [FileSys.setMem_free_map, h.test, if_pos hj]
      · exact hfree.2
    · intro j hj
      rw [hmap]
      exact hsynced.mapOnDisk hsmall j hj
  have habove : s_a.free_map.FreeAbove := h.free_above hn halloc
  refine ⟨?_, hnone, hcnt, habove, ?_, fun hs => hstep.ample (h.ample hs).tail⟩
  · rw [FileSys.setDevice_free_map, FileSys.setDevice_fs_device]
    exact hdisk
  · rcases h.opened with ⟨s₁, hclosed, hfile, hinodes, hfiles⟩
    refine ⟨s₁, hclosed, ?_, ?_, ?_⟩
    · rw [FileSys.setDevice_free_map_file, hstep.free_map_file]
      exact hfile
    · rw [FileSys.setDevice_open_inodes, FileSys.setDevice_fs_device, disk_inode_congr (hzero'.trans hzero),
        hstep.open_inodes]
      exact hinodes
    · rw [FileSys.setDevice_files, hstep.files]
      exact hfiles

theorem MapMade.dir_create (hn : NewMap s) (h : MapMade s s' idx) :
    ((∀ t, s'.dir_create ROOT_DIR_SECTOR 16 ≠ some (true, t)) ∧
      (s.mem.Ample → ¬ Room s.fs_device)) ∨
    ∃ t, s'.dir_create ROOT_DIR_SECTOR 16 = some (true, t) ∧ RootMade s t := by
  have hbytes : 0 < byte_cnt s.free_map.bit_cnt := by
    rcases byte_cnt_eq hn.small with ⟨hcnt, hbytes⟩
    have hpos := h.pos
    rw [hbytes, hcnt]
    omega
  have hkpos := bytes_to_sectors_pos (byte_cnt_lt hn.small) hbytes
  have hidx := h.two_le hn hkpos
  have hfits := h.first.fits
  have hroot : ROOT_DIR_SECTOR < s'.free_map.bit_cnt := by
    rw [h.bit_cnt, ROOT_DIR_SECTOR]
    omega
  rw [FileSys.dir_create, root_size]
  rcases h.map_inv.inode_create hroot (ROOT_ENTRIES * sizeof_dir_entry) with ⟨r, t, hcreate, hspec⟩
  rw [hcreate]
  cases r with
  | false =>
      left
      refine ⟨nofun, fun hs hr => ?_⟩
      have hs' := h.ample hs
      refine Bool.noConfusion (hspec.ok.2 ⟨hs' 0, fun hno => ?_, Or.inr (hs' 1)⟩)
      -- the sector behind the free map's file is free
      rw [root_sectors] at hno
      have hsectors := hr.sectors
      rw [hn.size_eq] at hsectors
      have hle := h.le_two hn (by omega)
      refine hno (idx + bytes_to_sectors (byte_cnt s.free_map.bit_cnt)) (Nat.zero_le _) ?_
        fun j hj hj' => ?_
      · rw [h.bit_cnt]
        omega
      · rw [h.test, if_neg (by omega)]
        exact hn.free j (by omega) (by omega)
  | true =>
      right
      refine ⟨t, rfl, ?_⟩
      cases hspec with
      | @created start s_a _ halloc =>
          exact h.rootMade hn hidx halloc

end

/-! ## Formatting -/

/-- The state after `do_format`. -/
structure Formatted (s s' : FileSys) : Prop where
  disk_inv : DiskInv s'.fs_device s'.free_map
  no_names : NoNames s'.fs_device
  bit_cnt : s'.free_map.bit_cnt = s.free_map.bit_cnt
  free_above : s'.free_map.FreeAbove
  closed : s'.Closed
  ample : s.mem.Ample → s'.mem.Ample

/-- Closing the only file that is open. -/
theorem RootMade.free_map_close {t : FileSys} (h : RootMade s t) :
    ∃ s', t.free_map_close = some s' ∧ Formatted s s' := by
  rcases h.opened with ⟨s₁, hclosed, hfile, hinodes, hfiles⟩
  have hget : t.files.get s₁.files.next = some ⟨s₁.open_inodes.next, 0, false⟩ := by
    rw [hfiles]
    exact Store.get_alloc_self
  have hinode : t.open_inodes.get s₁.open_inodes.next =
      some ⟨FREE_MAP_SECTOR, 1, false, 0, disk_inode t.fs_device FREE_MAP_SECTOR⟩ := by
    rw [hinodes]
    exact Store.get_alloc_self
  have hallow : t.file_allow_write s₁.files.next = some t := by
    simp only [FileSys.file_allow_write, hget, Option.bind_eq_bind, Option.bind_some,
      Bool.false_eq_true, if_false]
    rfl
  have hzero : (1 : Int) - 1 = 0 := rfl
  refine ⟨(t.setInodes (t.open_inodes.erase s₁.open_inodes.next)).setFiles
    (t.files.erase s₁.files.next), ?_, h.disk_inv, h.no_names, h.bit_cnt, h.free_above,
    ⟨fun p => ?_, fun f => ?_⟩, h.ample⟩
  · simp only [FileSys.free_map_close, hfile, FileSys.file_close, hallow, hget, FileSys.inode_close,
      hinode, hzero, if_true, Bool.false_eq_true, if_false, Option.bind_eq_bind, Option.bind_some]
    rfl
  · rw [FileSys.setFiles_open_inodes, FileSys.setInodes_open_inodes, hinodes]
    by_cases hp : p = s₁.open_inodes.next
    · rw [hp, Store.get_erase_self]
    · rw [Store.get_erase_of_ne hp, Store.get_alloc_of_ne hp, hclosed.inodes]
  · rw [FileSys.setFiles_files, hfiles]
    by_cases hf : f = s₁.files.next
    · rw [hf, Store.get_erase_self]
    · rw [Store.get_erase_of_ne hf, Store.get_alloc_of_ne hf, hclosed.files]

theorem NewMap.do_format (h : NewMap s) :
    (s.do_format = none ∧ (s.mem.Ample → ¬ Room s.fs_device)) ∨
      ∃ s', s.do_format = some s' ∧ Formatted s s' := by
  rcases h.free_map_create with ⟨hnone, hroom⟩ | ⟨s₁, idx, hcreate, hmade⟩
  · left
    refine ⟨?_, hroom⟩
    simp only [FileSys.do_format, hnone, Option.bind_eq_bind, Option.bind_none]
  · rcases hmade.dir_create h with ⟨hfail, hroom⟩ | ⟨t, hdir, hroot⟩
    · left
      refine ⟨?_, hroom⟩
      simp only [FileSys.do_format, hcreate, Option.bind_eq_bind, Option.bind_some]
      cases hcase : s₁.dir_create ROOT_DIR_SECTOR 16 with
      | none =>
          rfl
      | some r =>
          have hne : ¬ r.1 = true := fun hr => hfail r.2 (by rw [hcase, ← hr])
          simp only [Option.bind_some, ASSERT_neg hne, Option.bind_none]
    · right
      rcases hroot.free_map_close with ⟨s', hclose, hformatted⟩
      refine ⟨s', ?_, hformatted⟩
      simp only [FileSys.do_format, hcreate, hdir, hclose, ASSERT_pos, Option.bind_eq_bind,
        Option.bind_some]

/-! ## Starting the file system -/

/-- A map whose elements take bytes is one that `bitmap_create` counts without overflow. -/
theorem small_of_byte_cnt {n : Nat} (hn : n < WORD) (h : byte_cnt n ≠ 0) : n + ELEM_BITS ≤ WORD := by
  by_contra hlt
  have hzero : elem_cnt n = 0 := by
    simp only [elem_cnt, DIV_ROUND_UP, size_add, size_sub, ELEM_BITS, WORD] at hlt hn ⊢
    omega
  rw [byte_cnt, hzero] at h
  exact h rfl

/-- `bitmap_create`, `bytes` being the size of its elements and `r` what setting them returns. -/
theorem bitmap_create_eq {n bytes : Nat} {mem : Mallocs} {storage : Nat → BitVec 32}
    {r : Option Bitmap} (hbytes : byte_cnt n = bytes) (hr : bitmap_set_all ⟨n, storage⟩ false = r) :
    bitmap_create n mem storage =
      if mem 0 = true then
        if bytes = 0 then (if n = 0 then r else none, mem.malloc.2)
        else (if mem 1 = true ∨ n = 0 then r else none, mem.malloc.2.malloc.2)
      else (none, mem.malloc.2) := by
  delta bitmap_create
  rw [hbytes, hr]
  clear hbytes hr
  by_cases hzero : bytes = 0
  · cases hmem : mem 0 with
    | false =>
        simp only [Mallocs.malloc, hmem, Bool.false_eq_true, if_false]
    | true =>
        by_cases hn : n = 0
        · simp only [Mallocs.malloc, hmem, hzero, hn, if_true, or_true]
        · simp only [Mallocs.malloc, hmem, hzero, hn, if_true, Bool.false_eq_true, or_false, if_false]
  · cases hmem : mem 0 with
    | false =>
        simp only [Mallocs.malloc, hmem, Bool.false_eq_true, if_false]
    | true =>
        simp only [Mallocs.malloc, hmem, hzero, if_true, if_false, Nat.zero_add]
        split
        · rfl
        · rfl

/-- What `bitmap_create` returns. -/
theorem bitmap_create_spec {dev : Block} {mem : Mallocs} {storage : Nat → BitVec 32} :
    (∃ mem', bitmap_create dev.size mem storage = (none, mem') ∧
        (mem.Ample → ¬ dev.size + ELEM_BITS ≤ WORD)) ∨
      ∃ b mem', bitmap_create dev.size mem storage = (some b, mem') ∧ b.bit_cnt = dev.size ∧
        dev.size + ELEM_BITS ≤ WORD ∧ (∀ j, j < dev.size → b.test j = false) ∧
        (mem.Ample → mem'.Ample) := by
  have hlt := dev.size_lt
  rcases bitmap_set_all_spec ⟨dev.size, storage⟩ false hlt with ⟨b, hset, hcnt, htest⟩
  have hfalse : ∀ j, j < dev.size → b.test j = false := fun j hj => by rw [htest, if_pos hj]
  have hbytes : ∃ bytes, byte_cnt dev.size = bytes ∧
      (bytes = 0 → dev.size ≠ 0 → ¬ dev.size + ELEM_BITS ≤ WORD) ∧
      (bytes ≠ 0 ∨ dev.size = 0 → dev.size + ELEM_BITS ≤ WORD) := by
    refine ⟨_, rfl, fun hzero hn hsmall => ?_, ?_⟩
    · rcases byte_cnt_eq hsmall with ⟨hcnt, hbytes⟩
      rw [hbytes, hcnt] at hzero
      omega
    · rintro (hbytes | hzero)
      · exact small_of_byte_cnt hlt hbytes
      · rw [hzero, ELEM_BITS, WORD]
        omega
  rcases hbytes with ⟨bytes, hbytes, hlarge, hsmall⟩
  rw [bitmap_create_eq hbytes hset]
  clear hset hbytes htest
  by_cases hmem : mem 0 = true
  · rw [if_pos hmem]
    by_cases hzero : bytes = 0
    · rw [if_pos hzero]
      by_cases hn : dev.size = 0
      · right
        exact ⟨b, mem.malloc.2, by rw [if_pos hn], hcnt, hsmall (Or.inr hn), hfalse, Mallocs.Ample.tail⟩
      · left
        exact ⟨mem.malloc.2, by rw [if_neg hn], fun _ => hlarge hzero hn⟩
    · rw [if_neg hzero]
      by_cases hmem' : mem 1 = true ∨ dev.size = 0
      · right
        exact ⟨b, mem.malloc.2.malloc.2, by rw [if_pos hmem'], hcnt, hsmall (Or.inl hzero), hfalse,
          fun hs => hs.tail.tail⟩
      · left
        exact ⟨mem.malloc.2.malloc.2, by rw [if_neg hmem'], fun hs => absurd (Or.inl (hs 1)) hmem'⟩
  · left
    exact ⟨mem.malloc.2, by rw [if_neg hmem], fun hs => absurd (hs 0) hmem⟩

/-- The state of a file system that has just been formatted and started. -/
structure FreshSystem (s : FileSys) : Prop where
  inv : FsInv [] s
  no_names : NoNames s.fs_device
  map_on_disk : s.MapOnDisk
  only_map : ∀ f file, s.files.get f = some file → s.free_map_file = some f
  free_above : s.free_map.FreeAbove

/-- The state with which `filesys_init` starts. -/
def boot (dev : Block) (mem : Mallocs) (free_map : Bitmap) : FileSys :=
  ⟨dev, mem, Store.empty, Store.empty, free_map, none⟩

theorem boot_closed (dev : Block) (mem : Mallocs) (free_map : Bitmap) :
    (boot dev mem free_map).Closed :=
  ⟨fun _ => rfl, fun _ => rfl⟩

theorem newMap_boot {dev : Block} (mem : Mallocs) (hcnt : b.bit_cnt = dev.size)
    (hsmall : dev.size + ELEM_BITS ≤ WORD) (hfalse : ∀ j, j < dev.size → b.test j = false) :
    NewMap (boot dev mem (bitmap_mark (bitmap_mark b FREE_MAP_SECTOR) ROOT_DIR_SECTOR)) := by
  have hmark : ∀ j, (bitmap_mark (bitmap_mark b FREE_MAP_SECTOR) ROOT_DIR_SECTOR).test j =
      (decide (j = 1) || (decide (j = 0) || b.test j)) := by
    intro j
    rw [test_mark, test_mark, ROOT_DIR_SECTOR, FREE_MAP_SECTOR]
  have hcnt' : (bitmap_mark (bitmap_mark b FREE_MAP_SECTOR) ROOT_DIR_SECTOR).bit_cnt = dev.size := hcnt
  generalize hmap : bitmap_mark (bitmap_mark b FREE_MAP_SECTOR) ROOT_DIR_SECTOR = map at hmark hcnt' ⊢
  have hcnt₀ : (boot dev mem map).free_map.bit_cnt = dev.size := hcnt'
  constructor
  · exact hcnt₀.symm
  · rw [hcnt₀]
    exact hsmall
  · constructor
    · exact (hmark 0).trans rfl
    · exact (hmark 1).trans rfl
  · intro j hj hlt
    rw [hcnt₀] at hlt
    refine (hmark j).trans ?_
    rw [hfalse j hlt, decide_eq_false (by omega), decide_eq_false (by omega)]
    rfl
  · exact boot_closed dev mem map
  · rfl

theorem filesys_init_eq {dev : Block} {mem mem' : Mallocs} {storage : Nat → BitVec 32}
    {format : Bool} {r : Option Bitmap} (h : bitmap_create dev.size mem storage = (r, mem')) :
    FileSys.filesys_init dev mem storage format = r.bind fun b =>
      (if format then
        (boot dev mem' (bitmap_mark (bitmap_mark b FREE_MAP_SECTOR) ROOT_DIR_SECTOR)).do_format
      else some (boot dev mem' (bitmap_mark (bitmap_mark b FREE_MAP_SECTOR) ROOT_DIR_SECTOR))).bind
        FileSys.free_map_open := by
  delta FileSys.filesys_init
  rw [h]
  cases r with
  | none =>
      rfl
  | some b =>
      cases format with
      | false =>
          rfl
      | true =>
          rfl

/-- Formatting either panics, which it does not where there is memory and room, or leads to a file
system without files. -/
theorem filesys_init_format (dev : Block) (mem : Mallocs) (storage : Nat → BitVec 32) :
    (FileSys.filesys_init dev mem storage true = none ∧ (mem.Ample → ¬ Room dev)) ∨
      ∃ s, FileSys.filesys_init dev mem storage true = some s ∧ FreshSystem s ∧
        s.free_map.bit_cnt = dev.size ∧ (mem.Ample → s.mem.Ample) := by
  rcases @bitmap_create_spec dev mem storage with
    ⟨mem', hcreate, hlarge⟩ | ⟨b, mem', hcreate, hcnt, hsmall, hfalse, hample⟩
  · left
    rw [filesys_init_eq hcreate]
    exact ⟨rfl, fun hs hroom => hlarge hs hroom.small⟩
  · have hnew := newMap_boot mem' hcnt hsmall hfalse
    rw [filesys_init_eq hcreate, Option.bind_some, if_pos rfl]
    have hcnt' : (bitmap_mark (bitmap_mark b FREE_MAP_SECTOR) ROOT_DIR_SECTOR).bit_cnt = dev.size := hcnt
    generalize hmap : bitmap_mark (bitmap_mark b FREE_MAP_SECTOR) ROOT_DIR_SECTOR = map at hnew hcnt' ⊢
    rcases hnew.do_format with ⟨hnone, hroom⟩ | ⟨s₁, hformat, hdone⟩
    · left
      rw [hnone, Option.bind_none]
      exact ⟨rfl, fun hs => hroom (hample hs)⟩
    · rw [hformat, Option.bind_some]
      rcases hdone.disk_inv.free_map_open hdone.closed rfl with ⟨hnone, hno⟩ | ⟨s₂, hopen, hstarted⟩
      · left
        exact ⟨hnone, fun hs => absurd (hdone.ample (hample hs)) hno⟩
      · right
        refine ⟨s₂, hopen, ⟨hstarted.inv, ?_, hstarted.map_on_disk, hstarted.only_map, fun j hj hlt => ?_⟩,
          ?_, fun hs => hstarted.ample (hdone.ample (hample hs))⟩
        · rw [hstarted.fs_device]
          exact hdone.no_names
        · rw [hstarted.bit_cnt] at hj hlt
          rw [hstarted.test j hlt]
          exact hdone.free_above j hj hlt
        · rw [hstarted.bit_cnt, hdone.bit_cnt]
          exact hcnt'

/-- Starting the file system that is on a disk: it panics only for want of memory. -/
theorem filesys_init_start {dev : Block} (hdisk : DiskInv dev b) (mem : Mallocs)
    (storage : Nat → BitVec 32) :
    (FileSys.filesys_init dev mem storage false = none ∧ ¬ mem.Ample) ∨
      ∃ s s', FileSys.filesys_init dev mem storage false = some s' ∧ s.fs_device = dev ∧
        (mem.Ample → s.mem.Ample) ∧ Started s b s' := by
  have hsize := hdisk.layout.size_eq
  rcases @bitmap_create_spec dev mem storage with
    ⟨mem', hcreate, hlarge⟩ | ⟨b', mem', hcreate, hcnt, _, _, hample⟩
  · left
    rw [filesys_init_eq hcreate]
    refine ⟨rfl, fun hs => hlarge hs ?_⟩
    rw [hsize]
    exact hdisk.layout.small
  · rw [filesys_init_eq hcreate, Option.bind_some, if_neg Bool.false_ne_true, Option.bind_some]
    have hcnt' : (bitmap_mark (bitmap_mark b' FREE_MAP_SECTOR) ROOT_DIR_SECTOR).bit_cnt = dev.size := hcnt
    generalize hmap : bitmap_mark (bitmap_mark b' FREE_MAP_SECTOR) ROOT_DIR_SECTOR = map at hcnt' ⊢
    have hdisk' : DiskInv (boot dev mem' map).fs_device b := hdisk
    rcases hdisk'.free_map_open (boot_closed dev mem' map) (hcnt'.trans hsize) with
      ⟨hnone, hno⟩ | ⟨s', hopen, hstarted⟩
    · left
      exact ⟨hnone, fun hs => hno (hample hs)⟩
    · right
      exact ⟨boot dev mem' map, s', hopen, rfl, hample, hstarted⟩

end Berk162
