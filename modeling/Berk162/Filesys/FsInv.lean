import Berk162.Filesys.Filesys
import Berk162.Lib.Extent

/-!
# FsInv — what holds of the file system between its functions

`Layout` is what the disk and the free map have to do with each other, given which inodes are live;
`OpenInv` is what holds of the open inodes, given which of them the running code holds.  `FsInv` is
both, with the directory.

An inode is live as long as it is named or open.  What a live inode uses are its `Cell`s.
-/

namespace Berk162

/-! ## What is on the disk -/

/-- The inode in sector `i`. -/
@[irreducible] def disk_inode (fs_device : Block) (i : Nat) : InodeDisk := InodeDisk.ofSector (fs_device.sectors i)

/-- The sectors of its data. -/
def data_extent (fs_device : Block) (i : Nat) : Extent :=
  ⟨(disk_inode fs_device i).start, bytes_to_sectors (disk_inode fs_device i).length⟩

/-- The sectors that the inode in sector `i` uses. -/
def Cell (fs_device : Block) (i a : Nat) : Prop := a = i ∨ a ∈ data_extent fs_device i

/-- The byte number `k` of its data. -/
def data_byte (fs_device : Block) (i k : Nat) : UInt8 := fs_device.byte (disk_inode fs_device i).start k

/-- The number of entries of the root directory. -/
def ROOT_ENTRIES : Nat := 16

/-- The entry number `k` of the root directory. -/
def dir_entry (fs_device : Block) (k : Nat) : DirEntry :=
  DirEntry.ofBytes fun j => data_byte fs_device ROOT_DIR_SECTOR (k * sizeof_dir_entry + j)

/-- Some entry in use is for the inode in sector `i`. -/
def Named (fs_device : Block) (i : Nat) : Prop :=
  ∃ k < ROOT_ENTRIES, (dir_entry fs_device k).in_use = true ∧ (dir_entry fs_device k).inode_sector = i

/-- The inode in sector `i` is open. -/
def FileSys.Opened (s : FileSys) (i : Nat) : Prop :=
  ∃ p inode, s.open_inodes.get p = some inode ∧ inode.sector = i

/-- An inode that is in use. -/
def FileSys.Live (s : FileSys) (i : Nat) : Prop :=
  i = FREE_MAP_SECTOR ∨ i = ROOT_DIR_SECTOR ∨ Named s.fs_device i ∨ s.Opened i

/-! ## Invariants -/

structure Layout (fs_device : Block) (free_map : Bitmap) (Live : Nat → Prop) : Prop where
  size_eq : fs_device.size = free_map.bit_cnt
  type_ne : fs_device.type ≠ .foreign
  small : free_map.bit_cnt + ELEM_BITS ≤ WORD
  length_lt : ∀ i, Live i → (disk_inode fs_device i).length < OFF_T
  inside : ∀ i, Live i → (data_extent fs_device i).start + (data_extent fs_device i).len ≤
    free_map.bit_cnt
  sector_lt : ∀ i, Live i → i < free_map.bit_cnt
  marked : ∀ i a, Live i → Cell fs_device i a → free_map.test a = true
  self : ∀ i, Live i → i ∉ data_extent fs_device i
  apart : ∀ i j a, Live i → Live j → i ≠ j → Cell fs_device i a → ¬ Cell fs_device j a

structure DirInv (fs_device : Block) : Prop where
  root_length : (disk_inode fs_device ROOT_DIR_SECTOR).length = ROOT_ENTRIES * sizeof_dir_entry
  entry_one : ∀ k l, k < ROOT_ENTRIES → l < ROOT_ENTRIES → (dir_entry fs_device k).in_use = true →
    (dir_entry fs_device l).in_use = true →
    (dir_entry fs_device k).inode_sector = (dir_entry fs_device l).inode_sector → k = l
  named_file : ∀ i, Named fs_device i → i ≠ FREE_MAP_SECTOR ∧ i ≠ ROOT_DIR_SECTOR

/-- `held` are the inodes that the running code holds, each as often as it holds it. -/
structure OpenInv (s : FileSys) (held : List Nat) : Prop where
  sector_one : ∀ p q inode inode', s.open_inodes.get p = some inode →
    s.open_inodes.get q = some inode' → inode.sector = inode'.sector → p = q
  data_eq : ∀ p inode, s.open_inodes.get p = some inode →
    inode.data = disk_inode s.fs_device inode.sector
  count : ∀ p inode, s.open_inodes.get p = some inode →
    inode.open_cnt = (s.files.count fun f => f.inode = p : Nat) + (held.count p : Nat)
  count_pos : ∀ p inode, s.open_inodes.get p = some inode → 0 < inode.open_cnt
  file_open : ∀ f file, s.files.get f = some file →
    file.deny_write = false ∧ ∃ inode, s.open_inodes.get file.inode = some inode
  held_open : ∀ p, p ∈ held → ∃ inode, s.open_inodes.get p = some inode
  no_deny : ∀ p inode, s.open_inodes.get p = some inode → inode.deny_write_cnt = 0
  removed : ∀ p inode, s.open_inodes.get p = some inode → inode.removed = true →
    ¬ Named s.fs_device inode.sector ∧ inode.sector ≠ FREE_MAP_SECTOR ∧
      inode.sector ≠ ROOT_DIR_SECTOR

/-- What the functions on the free map need: its file is open, and on the device. -/
structure MapInv (s : FileSys) : Prop where
  size_eq : s.fs_device.size = s.free_map.bit_cnt
  type_ne : s.fs_device.type ≠ .foreign
  small : s.free_map.bit_cnt + ELEM_BITS ≤ WORD
  opened : ∃ f file inode, s.free_map_file = some f ∧ s.files.get f = some file ∧
    s.open_inodes.get file.inode = some inode ∧ inode.deny_write_cnt = 0 ∧
    inode.data = disk_inode s.fs_device FREE_MAP_SECTOR
  length_eq : (disk_inode s.fs_device FREE_MAP_SECTOR).length = byte_cnt s.free_map.bit_cnt
  inside : (data_extent s.fs_device FREE_MAP_SECTOR).start +
    (data_extent s.fs_device FREE_MAP_SECTOR).len ≤ s.free_map.bit_cnt
  self : FREE_MAP_SECTOR ∉ data_extent s.fs_device FREE_MAP_SECTOR

/-- The free map's file is open. -/
structure MapFile (s : FileSys) : Prop where
  opened : ∃ f file inode, s.free_map_file = some f ∧ s.files.get f = some file ∧
    s.open_inodes.get file.inode = some inode ∧ inode.sector = FREE_MAP_SECTOR
  length_eq : (disk_inode s.fs_device FREE_MAP_SECTOR).length = byte_cnt s.free_map.bit_cnt

structure FsInv (held : List Nat) (s : FileSys) : Prop where
  layout : Layout s.fs_device s.free_map s.Live
  dir : DirInv s.fs_device
  opened : OpenInv s held
  map_file : MapFile s

/-! ## Frame rules -/

theorem DirEntry.ofBytes_congr {f g : Nat → UInt8} (h : ∀ j, j < sizeof_dir_entry → f j = g j) :
    DirEntry.ofBytes f = DirEntry.ofBytes g := by
  have hsize : sizeof_dir_entry = 20 := rfl
  have hmax : NAME_MAX = 14 := rfl
  have hsector : window f 0 4 = window g 0 4 := window_congr fun k _ hk => h k (by omega)
  have hname : window f 4 (NAME_MAX + 1) = window g 4 (NAME_MAX + 1) :=
    window_congr fun k _ hk => h k (by omega)
  simp only [DirEntry.ofBytes, hsector, hname, h 19 (by omega)]

variable {dev dev' : Block} {i a : Nat}

theorem disk_inode_congr (h : dev'.sectors i = dev.sectors i) :
    disk_inode dev' i = disk_inode dev i := by
  rw [disk_inode, disk_inode, h]

theorem data_extent_congr (h : dev'.sectors i = dev.sectors i) :
    data_extent dev' i = data_extent dev i := by
  rw [data_extent, data_extent, disk_inode_congr h]

theorem cell_congr (h : dev'.sectors i = dev.sectors i) : Cell dev' i a ↔ Cell dev i a := by
  rw [Cell, Cell, data_extent_congr h]

theorem mem_data_extent : a ∈ data_extent dev i ↔ (disk_inode dev i).start ≤ a ∧
    a < (disk_inode dev i).start + bytes_to_sectors (disk_inode dev i).length := by
  rw [Extent.mem_def, data_extent]

/-- The data of an inode are not changed if neither it nor one of its sectors is. -/
theorem data_byte_congr (h : dev'.sectors i = dev.sectors i)
    (hdata : ∀ a, a ∈ data_extent dev i → dev'.sectors a = dev.sectors a)
    (hlen : (disk_inode dev i).length < OFF_T) {k : Nat} (hk : k < (disk_inode dev i).length) :
    data_byte dev' i k = data_byte dev i k := by
  have hin : (disk_inode dev i).start + k / BLOCK_SECTOR_SIZE ∈ data_extent dev i := by
    have hlt := div_lt_bytes_to_sectors hlen hk
    exact mem_data_extent.2 ⟨Nat.le_add_right _ _, Nat.add_lt_add_left hlt _⟩
  rw [data_byte, data_byte, disk_inode_congr h, Block.byte, Block.byte, hdata _ hin]

/-- The directory is the same where its inode and its sector are. -/
theorem dir_entry_congr (h : dev'.sectors ROOT_DIR_SECTOR = dev.sectors ROOT_DIR_SECTOR)
    (hdata : ∀ a, a ∈ data_extent dev ROOT_DIR_SECTOR → dev'.sectors a = dev.sectors a)
    (hdir : DirInv dev) {k : Nat} (hk : k < ROOT_ENTRIES) : dir_entry dev' k = dir_entry dev k := by
  have hlen := hdir.root_length
  refine DirEntry.ofBytes_congr fun j hj => data_byte_congr h hdata ?_ ?_
  · rw [hlen]
    decide
  · rw [hlen]
    have hle : (k + 1) * sizeof_dir_entry ≤ ROOT_ENTRIES * sizeof_dir_entry :=
      Nat.mul_le_mul_right _ hk
    rw [Nat.succ_mul] at hle
    omega

/-- What a change of the disk and of the free map has to leave alone. -/
structure Undisturbed (s s' : FileSys) : Prop where
  open_inodes : s'.open_inodes = s.open_inodes
  files : s'.files = s.files
  free_map_file : s'.free_map_file = s.free_map_file
  size : s'.fs_device.size = s.fs_device.size
  type : s'.fs_device.type = s.fs_device.type
  bit_cnt : s'.free_map.bit_cnt = s.free_map.bit_cnt
  inodes : ∀ i, s.Live i → s'.fs_device.sectors i = s.fs_device.sectors i
  root : ∀ a, a ∈ data_extent s.fs_device ROOT_DIR_SECTOR →
    s'.fs_device.sectors a = s.fs_device.sectors a
  marked : ∀ i a, s.Live i → Cell s.fs_device i a → s'.free_map.test a = true

variable {s s' : FileSys} {held : List Nat}

theorem FileSys.live_root (s : FileSys) : s.Live ROOT_DIR_SECTOR := Or.inr (Or.inl rfl)

theorem FileSys.live_free_map (s : FileSys) : s.Live FREE_MAP_SECTOR := Or.inl rfl

theorem Undisturbed.dir_entry (h : Undisturbed s s') (hdir : DirInv s.fs_device) {k : Nat}
    (hk : k < ROOT_ENTRIES) : dir_entry s'.fs_device k = dir_entry s.fs_device k :=
  dir_entry_congr (h.inodes _ s.live_root) h.root hdir hk

theorem Undisturbed.named (h : Undisturbed s s') (hdir : DirInv s.fs_device) (i : Nat) :
    Named s'.fs_device i ↔ Named s.fs_device i := by
  refine exists_congr fun k => and_congr_right fun hk => ?_
  rw [h.dir_entry hdir hk]

theorem Undisturbed.live (h : Undisturbed s s') (hdir : DirInv s.fs_device) (i : Nat) :
    s'.Live i ↔ s.Live i := by
  rw [FileSys.Live, FileSys.Live, h.named hdir, FileSys.Opened, FileSys.Opened, h.open_inodes]

/-- A change that leaves the live inodes alone, and marks what they use. -/
theorem Layout.change {free_map free_map' : Bitmap} {L : Nat → Prop} (h : Layout dev free_map L)
    (hsize : dev'.size = dev.size) (htype : dev'.type = dev.type)
    (hcnt : free_map'.bit_cnt = free_map.bit_cnt)
    (hinode : ∀ i, L i → dev'.sectors i = dev.sectors i)
    (hmark : ∀ i a, L i → Cell dev i a → free_map'.test a = true) : Layout dev' free_map' L where
  size_eq := by rw [hsize, hcnt, h.size_eq]
  type_ne := by
    rw [htype]
    exact h.type_ne
  small := by
    rw [hcnt]
    exact h.small
  length_lt i hi := by
    rw [disk_inode_congr (hinode i hi)]
    exact h.length_lt i hi
  inside i hi := by
    rw [data_extent_congr (hinode i hi), hcnt]
    exact h.inside i hi
  sector_lt i hi := by
    rw [hcnt]
    exact h.sector_lt i hi
  marked i a hi ha := hmark i a hi ((cell_congr (hinode i hi)).1 ha)
  self i hi := by
    rw [data_extent_congr (hinode i hi)]
    exact h.self i hi
  apart i j a hi hj hij hia hja := h.apart i j a hi hj hij ((cell_congr (hinode i hi)).1 hia)
    ((cell_congr (hinode j hj)).1 hja)

theorem Layout.mono {free_map : Bitmap} {L L' : Nat → Prop} (h : Layout dev free_map L)
    (hsub : ∀ i, L' i → L i) : Layout dev free_map L' where
  size_eq := h.size_eq
  type_ne := h.type_ne
  small := h.small
  length_lt i hi := h.length_lt i (hsub i hi)
  inside i hi := h.inside i (hsub i hi)
  sector_lt i hi := h.sector_lt i (hsub i hi)
  marked i a hi := h.marked i a (hsub i hi)
  self i hi := h.self i (hsub i hi)
  apart i j a hi hj := h.apart i j a (hsub i hi) (hsub j hj)

theorem Layout.bit_cnt_lt {free_map : Bitmap} {L : Nat → Prop} (h : Layout dev free_map L) :
    free_map.bit_cnt < WORD := by
  have hsmall := h.small
  simp only [ELEM_BITS] at hsmall
  omega

/-- What holds of the open inodes does not depend on the disk but for their inodes and the names. -/
theorem OpenInv.change (h : OpenInv s held) (hopen : s'.open_inodes = s.open_inodes)
    (hfiles : s'.files = s.files)
    (hinode : ∀ i, s.Opened i → s'.fs_device.sectors i = s.fs_device.sectors i)
    (hnamed : ∀ p inode, s.open_inodes.get p = some inode → inode.removed = true →
      ¬ Named s'.fs_device inode.sector) : OpenInv s' held where
  sector_one := by
    rw [hopen]
    exact h.sector_one
  data_eq p inode hp := by
    rw [hopen] at hp
    rw [disk_inode_congr (hinode _ ⟨p, inode, hp, rfl⟩)]
    exact h.data_eq p inode hp
  count := by
    rw [hopen, hfiles]
    exact h.count
  count_pos := by
    rw [hopen]
    exact h.count_pos
  file_open := by
    rw [hopen, hfiles]
    exact h.file_open
  held_open := by
    rw [hopen]
    exact h.held_open
  no_deny := by
    rw [hopen]
    exact h.no_deny
  removed p inode hp hr := by
    rw [hopen] at hp
    exact ⟨hnamed p inode hp hr, (h.removed p inode hp hr).2⟩

theorem FsInv.opened_live {p : Nat} {inode : Inode} (hp : s.open_inodes.get p = some inode) :
    s.Live inode.sector :=
  Or.inr (Or.inr (Or.inr ⟨p, inode, hp, rfl⟩))

theorem FsInv.map_inv (h : FsInv held s) : MapInv s where
  size_eq := h.layout.size_eq
  type_ne := h.layout.type_ne
  small := h.layout.small
  opened := by
    rcases h.map_file.opened with ⟨f, file, inode, hf, hfile, hp, hsector⟩
    have hdata := h.opened.data_eq _ inode hp
    rw [hsector] at hdata
    exact ⟨f, file, inode, hf, hfile, hp, h.opened.no_deny _ inode hp, hdata⟩
  length_eq := h.map_file.length_eq
  inside := h.layout.inside _ s.live_free_map
  self := h.layout.self _ s.live_free_map

theorem FsInv.change (h : FsInv held s) (hu : Undisturbed s s') : FsInv held s' := by
  refine ⟨?_, ⟨?_, fun k l hk hl => ?_, fun i hi => ?_⟩, ?_, ⟨?_, ?_⟩⟩
  · exact (h.layout.change hu.size hu.type hu.bit_cnt hu.inodes hu.marked).mono
      fun i hi => (hu.live h.dir i).1 hi
  · rw [disk_inode_congr (hu.inodes _ s.live_root)]
    exact h.dir.root_length
  · rw [hu.dir_entry h.dir hk, hu.dir_entry h.dir hl]
    exact h.dir.entry_one k l hk hl
  · exact h.dir.named_file i ((hu.named h.dir i).1 hi)
  · refine h.opened.change hu.open_inodes hu.files (fun i hi => hu.inodes i ?_) fun p inode hp hr => ?_
    · exact Or.inr (Or.inr (Or.inr hi))
    · rw [hu.named h.dir]
      exact (h.opened.removed p inode hp hr).1
  · rw [hu.free_map_file, hu.files, hu.open_inodes]
    exact h.map_file.opened
  · rw [disk_inode_congr (hu.inodes _ s.live_free_map), hu.bit_cnt]
    exact h.map_file.length_eq

end Berk162
