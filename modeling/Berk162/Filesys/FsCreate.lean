import Berk162.Filesys.FsNames

/-!
# FsCreate — `inode_create`, under the invariant

A new inode is written to a sector that has been allocated for it (`Reserved`), and its data to the
sectors that `inode_create` allocates itself.  The result is `Fresh`.
-/

namespace Berk162

/-! ## Writing an inode -/

/-- The device after an inode with data of `length` bytes from sector `start` on has been written to
sector `i`, and zeros to the sectors of its data. -/
def new_inode (dev : Block) (i start length : Nat) : Block :=
  { dev with
    sectors := fun a =>
      if start ≤ a ∧ a < start + bytes_to_sectors length then Sector.ofBytes fun _ => 0
      else if a = i then (InodeDisk.mk start length INODE_MAGIC).toSector
      else dev.sectors a }

theorem write_zeros_eq {dev : Block} {start n : Nat} (hin : start + n ≤ dev.size)
    (htype : dev.type ≠ .foreign) :
    FileSys.write_zeros dev start n = some { dev with
      sectors := fun a =>
        if start ≤ a ∧ a < start + n then Sector.ofBytes fun _ => 0 else dev.sectors a } := by
  induction n generalizing dev start with
  | zero =>
      rw [FileSys.write_zeros]
      refine congrArg some (Eq.symm ?_)
      refine Block.ext_sectors rfl rfl rfl fun a => ?_
      simp only
      rw [if_neg (by omega)]
  | succ n ih =>
      have hwrite := block_write_eq (Sector.ofBytes fun _ => 0) (show start < dev.size by omega) htype
      have hrest := @ih (dev.store start (Sector.ofBytes fun _ => 0)) (start + 1)
        (by rw [Block.store_size]; omega) htype
      simp only [FileSys.write_zeros, hwrite, hrest, Option.bind_eq_bind, Option.bind_some]
      refine congrArg some (Block.ext_sectors rfl rfl rfl fun a => ?_)
      simp only
      by_cases ha : a = start
      · subst ha
        rw [if_neg (by omega), if_pos (by omega), Block.store_sectors_self]
      · rw [Block.store_sectors_of_ne _ _ ha]
        have hiff : (start + 1 ≤ a ∧ a < start + 1 + n) ↔ (start ≤ a ∧ a < start + (n + 1)) := by
          omega
        simp only [hiff]

section
variable {dev : Block} {i a start length : Nat}

theorem new_inode_sectors (ha : a ≠ i)
    (hdata : ¬ (start ≤ a ∧ a < start + bytes_to_sectors length)) :
    (new_inode dev i start length).sectors a = dev.sectors a := by
  simp only [new_inode, if_neg hdata, if_neg ha]

/-- The device after `inode_create` has written. -/
theorem write_new_inode (hi : i < dev.size) (hin : start + bytes_to_sectors length ≤ dev.size)
    (htype : dev.type ≠ .foreign) :
    ((block_write dev i (InodeDisk.mk start length INODE_MAGIC).toSector).bind fun dev' =>
      FileSys.write_zeros dev' start (bytes_to_sectors length)) = some (new_inode dev i start length) := by
  rw [block_write_eq _ hi htype, Option.bind_some, @write_zeros_eq (dev.store i _) _ _
    (by rw [Block.store_size]; exact hin) htype]
  refine congrArg some (Block.ext_sectors rfl rfl rfl fun a => ?_)
  simp only [new_inode]
  split
  · rfl
  · by_cases ha : a = i
    · subst ha
      rw [Block.store_sectors_self, if_pos rfl]
    · rw [Block.store_sectors_of_ne _ _ ha, if_neg ha]

variable (hout : ¬ (start ≤ i ∧ i < start + bytes_to_sectors length)) (hstart : start < WORD)
  (hlen : length < OFF_T)
include hout hstart hlen

theorem disk_inode_new_inode :
    disk_inode (new_inode dev i start length) i = ⟨start, length, INODE_MAGIC⟩ := by
  have hsector : (new_inode dev i start length).sectors i =
      (InodeDisk.mk start length INODE_MAGIC).toSector := by
    simp only [new_inode, if_neg hout, if_true]
  rw [disk_inode, hsector]
  refine InodeDisk.ofSector_toSector hstart (lt_trans hlen (by decide)) ?_
  show INODE_MAGIC < WORD
  decide

theorem data_extent_new_inode :
    data_extent (new_inode dev i start length) i = ⟨start, bytes_to_sectors length⟩ := by
  rw [data_extent, disk_inode_new_inode hout hstart hlen]

theorem data_byte_new_inode {k : Nat} (hk : k < length) :
    data_byte (new_inode dev i start length) i k = 0 := by
  have hlt := div_lt_bytes_to_sectors hlen hk
  have hmod : k % BLOCK_SECTOR_SIZE < BLOCK_SECTOR_SIZE := Nat.mod_lt _ (by decide)
  have hin : start ≤ start + k / BLOCK_SECTOR_SIZE ∧
      start + k / BLOCK_SECTOR_SIZE < start + bytes_to_sectors length :=
    ⟨Nat.le_add_right _ _, Nat.add_lt_add_left hlt _⟩
  rw [data_byte, disk_inode_new_inode hout hstart hlen, Block.byte]
  simp only [new_inode, if_pos hin]
  exact Sector.ofBytes_byte hmod

end

/-! ## Creating an inode -/

variable {s s' : FileSys} {held : List Nat} {p i length : Nat} {r : Bool}

/-- What `inode_create` does. -/
inductive InodeCreateSpec (s : FileSys) (i length : Nat) : Bool → FileSys → Prop
  | no_memory : s.mem 0 = false → InodeCreateSpec s i length false (s.setMem s.mem.malloc.2)
  | no_sectors {s' : FileSys} :
      s.mem 0 = true → AllocSpec (s.setMem s.mem.malloc.2) (bytes_to_sectors length) none s' →
      InodeCreateSpec s i length false s'
  | created {start : Nat} {s₁ : FileSys} :
      s.mem 0 = true → AllocSpec (s.setMem s.mem.malloc.2) (bytes_to_sectors length) (some start) s₁ →
      InodeCreateSpec s i length true (s₁.setDevice (new_inode s₁.fs_device i start length))

/-- The sectors that `free_map_allocate` returns. -/
theorem AllocSpec.fits {cnt start : Nat} (h : AllocSpec s cnt (some start) s') :
    start + cnt ≤ s.free_map.bit_cnt := by
  cases h with
  | done hrun =>
      exact hrun.fits

theorem AllocSpec.free {cnt start a : Nat} (h : AllocSpec s cnt (some start) s') (ha : start ≤ a)
    (ha' : a < start + cnt) : s.free_map.test a = false ∧ s'.free_map.test a = true := by
  cases h with
  | done hrun _ _ htest =>
      refine ⟨hrun.run a ha ha', ?_⟩
      rw [htest, if_pos ⟨ha, ha'⟩]

theorem MapInv.set_mem (h : MapInv s) (mem : Mallocs) : MapInv (s.setMem mem) :=
  ⟨h.size_eq, h.type_ne, h.small, h.opened, h.length_eq, h.inside, h.self⟩

theorem MapInv.inode_create (h : MapInv s) (hi : i < s.free_map.bit_cnt) (length : Nat) :
    ∃ r s', s.inode_create i length = some (r, s') ∧ InodeCreateSpec s i length r s' := by
  have hassert : ASSERT ((length : Int) ≥ 0) = some () := ASSERT_pos (Int.natCast_nonneg length)
  cases hmem : s.mem 0 with
  | false =>
      refine ⟨false, _, ?_, InodeCreateSpec.no_memory hmem⟩
      simp only [FileSys.inode_create, hassert, FsInv.malloc_eq hmem, Option.bind_eq_bind,
        Option.bind_some]
      rfl
  | true =>
      rcases (h.set_mem s.mem.malloc.2).free_map_allocate (bytes_to_sectors length) with
        ⟨start, s₁, halloc, hspec⟩
      cases start with
      | none =>
          refine ⟨false, s₁, ?_, InodeCreateSpec.no_sectors hmem hspec⟩
          simp only [FileSys.inode_create, hassert, FsInv.malloc_eq hmem, Int.toNat_natCast, halloc,
            Option.bind_eq_bind, Option.bind_some]
          rfl
      | some start =>
          have hstep := hspec.step
          have hsize : s₁.fs_device.size = s.free_map.bit_cnt := hstep.size.trans h.size_eq
          have hwrite := @write_new_inode s₁.fs_device i start length
            (by rw [hsize]; exact hi) (by rw [hsize]; exact hspec.fits)
            (by rw [hstep.type]; exact h.type_ne)
          refine ⟨true, _, ?_, InodeCreateSpec.created hmem hspec⟩
          rcases Option.bind_eq_some_iff.1 hwrite with ⟨dev, hfirst, hzeros⟩
          simp only [FileSys.inode_create, hassert, FsInv.malloc_eq hmem, Int.toNat_natCast, halloc,
            hfirst, hzeros, Option.bind_eq_bind, Option.bind_some]
          rfl

/-! ## Reserved sectors -/

/-- A sector that has been allocated, and that no live inode uses. -/
structure Reserved (s : FileSys) (i : Nat) : Prop where
  sector_lt : i < s.free_map.bit_cnt
  marked : s.free_map.test i = true
  apart : ∀ j, s.Live j → ¬ Cell s.fs_device j i

theorem Reserved.ne {j : Nat} (h : Reserved s i) (hj : s.Live j) : j ≠ i := by
  rintro rfl
  exact h.apart j hj (Or.inl rfl)

theorem Reserved.change (h : Reserved s i) (hu : Undisturbed s s') (hdir : DirInv s.fs_device)
    (hmark : s'.free_map.test i = true) : Reserved s' i where
  sector_lt := by
    rw [hu.bit_cnt]
    exact h.sector_lt
  marked := hmark
  apart j hj hcell := by
    have hj' := (hu.live hdir j).1 hj
    exact h.apart j hj' ((cell_congr (hu.inodes j hj')).1 hcell)

theorem Undisturbed.trans {t : FileSys} (h : Undisturbed s s') (h' : Undisturbed s' t)
    (hdir : DirInv s.fs_device) : Undisturbed s t where
  open_inodes := h'.open_inodes.trans h.open_inodes
  files := h'.files.trans h.files
  free_map_file := h'.free_map_file.trans h.free_map_file
  size := h'.size.trans h.size
  type := h'.type.trans h.type
  bit_cnt := h'.bit_cnt.trans h.bit_cnt
  inodes i hi := (h'.inodes i ((h.live hdir i).2 hi)).trans (h.inodes i hi)
  root a ha := by
    refine (h'.root a ?_).trans (h.root a ha)
    rwa [data_extent_congr (h.inodes _ s.live_root)]
  marked i a hi ha :=
    h'.marked i a ((h.live hdir i).2 hi) ((cell_congr (h.inodes i hi)).2 ha)

theorem Undisturbed.of_set_mem {mem : Mallocs} (h : Undisturbed (s.setMem mem) s') :
    Undisturbed s s' :=
  ⟨h.open_inodes, h.files, h.free_map_file, h.size, h.type, h.bit_cnt, h.inodes, h.root, h.marked⟩

namespace FsInv

/-- A sector that has been allocated is reserved. -/
theorem reserved (h : FsInv held s) (hspec : AllocSpec s 1 (some i) s') : Reserved s' i := by
  have hu := h.undisturbed hspec.step fun j a hj ha => hspec.mono (h.layout.marked j a hj ha)
  rcases hspec.free (le_refl i) (Nat.lt_succ_self i) with ⟨hfree, hmark⟩
  refine ⟨?_, hmark, fun j hj hcell => ?_⟩
  · rw [hspec.step.bit_cnt]
    exact hspec.fits
  · have hj' := (hu.live h.dir j).1 hj
    have hmarked := h.layout.marked j i hj' ((cell_congr (hu.inodes j hj')).1 hcell)
    rw [hfree] at hmarked
    cases hmarked

/-- `inode_create` leaves what is live alone, and its inode is fresh. -/
theorem of_inode_create (h : FsInv held s) (hi : Reserved s i) (hlen : length < OFF_T)
    (hspec : InodeCreateSpec s i length r s') :
    Undisturbed s s' ∧ s'.free_map.test i = true ∧ (r = true → Fresh s' i) := by
  have hm := h.set_mem s.mem.malloc.2
  cases hspec with
  | no_memory =>
      exact ⟨⟨rfl, rfl, rfl, rfl, rfl, rfl, fun _ _ => rfl, fun _ _ => rfl, h.layout.marked⟩,
        hi.marked, fun hr => by cases hr⟩
  | no_sectors _ halloc =>
      have hu := hm.undisturbed halloc.step fun j a hj ha => halloc.mono (h.layout.marked j a hj ha)
      exact ⟨hu.of_set_mem, halloc.mono hi.marked, fun hr => by cases hr⟩
  | @created start s₁ _ halloc =>
      have hu := (hm.undisturbed halloc.step fun j a hj ha =>
        halloc.mono (h.layout.marked j a hj ha)).of_set_mem
      have hmark₁ : s₁.free_map.test i = true := halloc.mono hi.marked
      have hi₁ := hi.change hu h.dir hmark₁
      have hinv₁ := h.change hu
      have hfits : start + bytes_to_sectors length ≤ s.free_map.bit_cnt := halloc.fits
      -- sectors that were marked are not among the new ones
      have hnew : ∀ a, s.free_map.test a = true →
          ¬ (start ≤ a ∧ a < start + bytes_to_sectors length) := by
        rintro a hmarked ⟨ha, ha'⟩
        have hfree : s.free_map.test a = false := (halloc.free ha ha').1
        rw [hmarked] at hfree
        cases hfree
      have hout := hnew i hi.marked
      have hword := h.layout.bit_cnt_lt
      have hstart : start < WORD := by omega
      have hu₂ : Undisturbed s₁ (s₁.setDevice (new_inode s₁.fs_device i start length)) := by
        refine ⟨rfl, rfl, rfl, rfl, rfl, rfl, fun j hj => ?_, fun a ha => ?_, hinv₁.layout.marked⟩
        · have hj₀ := (hu.live h.dir j).1 hj
          exact new_inode_sectors (hi₁.ne hj) (hnew j (h.layout.marked j j hj₀ (Or.inl rfl)))
        · have ha₀ : a ∈ data_extent s.fs_device ROOT_DIR_SECTOR := by
            rwa [← data_extent_congr (hu.inodes _ s.live_root)]
          refine new_inode_sectors ?_ (hnew a (h.layout.marked _ a s.live_root (Or.inr ha₀)))
          rintro rfl
          exact hi.apart _ s.live_root (Or.inr ha₀)
      refine ⟨hu.trans hu₂ h.dir, hmark₁, fun _ => ?_⟩
      have hext := @data_extent_new_inode s₁.fs_device _ _ _ hout hstart hlen
      have hcell : ∀ a, Cell (new_inode s₁.fs_device i start length) i a ↔
          a = i ∨ (start ≤ a ∧ a < start + bytes_to_sectors length) := by
        intro a
        rw [Cell, hext, Extent.mem_def]
      constructor
      · rw [FileSys.setDevice_fs_device, disk_inode_new_inode hout hstart hlen]
        exact hlen
      · rw [FileSys.setDevice_fs_device, hext, FileSys.setDevice_free_map, halloc.step.bit_cnt]
        simpa only [FileSys.setMem_free_map] using hfits
      · exact hi₁.sector_lt
      · intro a ha
        rcases (hcell a).1 ha with rfl | ha
        · exact hmark₁
        · exact (halloc.free ha.1 ha.2).2
      · rw [FileSys.setDevice_fs_device, hext, Extent.mem_def]
        simpa only using hout
      · intro j a hj hja hia
        have hj₁ := (hu₂.live hinv₁.dir j).1 hj
        have hj₀ := (hu.live h.dir j).1 hj₁
        have hja₁ := (cell_congr (hu₂.inodes j hj₁)).1 hja
        rcases (hcell a).1 hia with rfl | ha
        · exact hi₁.apart j hj₁ hja₁
        · exact hnew a (h.layout.marked j a hj₀ ((cell_congr (hu.inodes j hj₀)).1 hja₁)) ha

end FsInv

end Berk162
