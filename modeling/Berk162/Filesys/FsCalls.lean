import Berk162.Filesys.FsCreate
import Berk162.Filesys.FsMapDisk

/-!
# FsCalls — the calls of the file system, under the invariant

`Quiet` is a step that changes no name, no file and no open file; most of what a call does besides
its purpose is quiet.  Then one lemma for each call says what it returns, what it changes, and that
it keeps the invariant.
-/

namespace Berk162

variable {s s' t : FileSys} {held : List Nat} {p i j : Nat} {inode : Inode}

/-! ## What is left alone -/

/-- The sectors of an inode are not changed. -/
def Kept (dev dev' : Block) (i : Nat) : Prop := ∀ a, Cell dev i a → dev'.sectors a = dev.sectors a

section
variable {dev dev' dev'' : Block}

theorem Kept.refl (dev : Block) (i : Nat) : Kept dev dev i := fun _ _ => rfl

theorem Kept.self (h : Kept dev dev' i) : dev'.sectors i = dev.sectors i := h i (Or.inl rfl)

theorem Kept.trans (h : Kept dev dev' i) (h' : Kept dev' dev'' i) : Kept dev dev'' i :=
  fun a ha => (h' a ((cell_congr h.self).2 ha)).trans (h a ha)

theorem Kept.disk_inode (h : Kept dev dev' i) : disk_inode dev' i = disk_inode dev i :=
  disk_inode_congr h.self

theorem Kept.data_byte (h : Kept dev dev' i) (hlen : (Berk162.disk_inode dev i).length < OFF_T)
    {k : Nat} (hk : k < (Berk162.disk_inode dev i).length) :
    data_byte dev' i k = data_byte dev i k :=
  data_byte_congr h.self (fun a ha => h a (Or.inr ha)) hlen hk

theorem Kept.dir_entry (h : Kept dev dev' ROOT_DIR_SECTOR) (hdir : DirInv dev) {k : Nat}
    (hk : k < ROOT_ENTRIES) : dir_entry dev' k = dir_entry dev k :=
  dir_entry_congr h.self (fun a ha => h a (Or.inr ha)) hdir hk

end

/-- A step that changes no name, no data of a file and no open file. -/
structure Quiet (s s' : FileSys) : Prop where
  same_files : SameFiles s s'
  kept : ∀ i, s.Live i → i ≠ FREE_MAP_SECTOR → Kept s.fs_device s'.fs_device i
  bit_cnt : s'.free_map.bit_cnt = s.free_map.bit_cnt
  ample : s.mem.Ample → s'.mem.Ample
  map_on_disk : s.mem.Ample → s.MapOnDisk → s'.MapOnDisk

theorem Quiet.trans (h : Quiet s s') (h' : Quiet s' t) (hlive : ∀ i, s.Live i → s'.Live i) :
    Quiet s t where
  same_files := h.same_files.trans h'.same_files
  kept i hi hmap := (h.kept i hi hmap).trans (h'.kept i (hlive i hi) hmap)
  bit_cnt := h'.bit_cnt.trans h.bit_cnt
  ample hs := h'.ample (h.ample hs)
  map_on_disk hs hdisk := h'.map_on_disk (h.ample hs) (h.map_on_disk hs hdisk)

theorem Quiet.of_mem {mem : Mallocs} (h : s.mem.Ample → mem.Ample) : Quiet s (s.setMem mem) :=
  ⟨SameFiles.of_eq rfl rfl rfl, fun _ _ _ => Kept.refl _ _, rfl, h, fun _ => id⟩

theorem Quiet.set_mem (h : Quiet s s') {mem : Mallocs} (hmem : s'.mem.Ample → mem.Ample) :
    Quiet s (s'.setMem mem) :=
  ⟨h.same_files.trans (SameFiles.of_eq rfl rfl rfl), h.kept, h.bit_cnt, fun hs => hmem (h.ample hs),
    h.map_on_disk⟩

theorem FsInv.quiet_map (h : FsInv held s) (hstep : MapStep s s')
    (hdisk : s.mem.Ample → s.MapOnDisk → s'.MapOnDisk) : Quiet s s' where
  same_files := SameFiles.of_eq hstep.files hstep.free_map_file hstep.open_inodes
  kept i hi hmap a ha :=
    hstep.sectors a fun hmem =>
      h.layout.apart i _ a hi s.live_free_map hmap ha (Or.inr hmem)
  bit_cnt := hstep.bit_cnt
  ample := hstep.ample
  map_on_disk := hdisk

theorem FsInv.quiet_alloc {cnt : Nat} {r : Option Nat} (h : FsInv held s)
    (hspec : AllocSpec s cnt r s') : Quiet s s' :=
  h.quiet_map hspec.step fun hs hdisk => hspec.map_on_disk h.layout.small hs hdisk

theorem FsInv.quiet_release {sector cnt : Nat} (h : FsInv held s)
    (hspec : ReleaseSpec s sector cnt s') : Quiet s s' :=
  h.quiet_map hspec.step fun hs _ => hspec.map_on_disk h.layout.small hs

theorem OpenSpec.quiet {sector : Nat} {r : Option Nat} (h : OpenSpec s sector r s') : Quiet s s' where
  same_files := h.same_files
  kept i _ _ := by
    rw [h.fs_device]
    exact Kept.refl _ _
  bit_cnt := by
    cases h with
    | again | no_memory | first =>
        rfl
  ample := h.ample
  map_on_disk := by
    cases h with
    | again | no_memory | first =>
        exact fun _ hdisk => hdisk

theorem OpenSpec.live {sector : Nat} {r : Option Nat} (h : OpenSpec s sector r s') (hi : s.Live i) :
    s'.Live i := by
  rcases hi with hi | hi | hi | ⟨p, inode, hp, hsector⟩
  · exact Or.inl hi
  · exact Or.inr (Or.inl hi)
  · exact Or.inr (Or.inr (Or.inl (by rwa [h.fs_device])))
  · rcases h.get_of_get hp with ⟨inode', hp', hsector'⟩
    exact Or.inr (Or.inr (Or.inr ⟨p, inode', hp', hsector'.trans hsector⟩))

/-- The sectors of an inode that is freed are released. -/
theorem CloseSpec.map_on_disk (h : CloseSpec s p inode s')
    (hsmall : s.free_map.bit_cnt + ELEM_BITS ≤ WORD) (hs : s.mem.Ample) (hdisk : s.MapOnDisk) :
    s'.MapOnDisk := by
  cases h with
  | kept | last =>
      exact hdisk
  | freed _ _ hfirst hsecond =>
      refine hsecond.map_on_disk ?_ (hfirst.step.ample hs)
      rw [hfirst.step.bit_cnt]
      exact hsmall

theorem FsInv.quiet_close (h : FsInv held s) (hp : s.open_inodes.get p = some inode)
    (hheld : p ∈ held) (hspec : CloseSpec s p inode s') : Quiet s s' := by
  rcases hspec.sectors (h.layout.self _ s.live_free_map) with
    ⟨u, hdev, _, _, hbits, hmem, _, hstep⟩
  refine ⟨h.same_files_close hp hheld hspec, fun i hi hne a ha => ?_, ?_, fun hs => ?_,
    fun hs hdisk => hspec.map_on_disk h.layout.small hs hdisk⟩
  · rw [← hdev]
    refine hstep.sectors a fun hmem' => ?_
    rw [hdev] at hmem'
    exact h.layout.apart i _ a hi s.live_free_map hne ha (Or.inr hmem')
  · rw [hstep.bit_cnt, hbits]
  · exact hstep.ample (by rwa [hmem])

/-- An inode that is not removed keeps its sectors when it is closed. -/
theorem CloseSpec.unchanged (h : CloseSpec s p inode s') (hremoved : inode.removed = false) :
    s'.fs_device = s.fs_device ∧ s'.free_map = s.free_map ∧ s'.mem = s.mem := by
  cases h with
  | kept | last =>
      exact ⟨rfl, rfl, rfl⟩
  | freed _ hr =>
      rw [hremoved] at hr
      cases hr

theorem FsInv.not_removed (h : FsInv held s) (hp : s.open_inodes.get p = some inode)
    (hroot : inode.sector = ROOT_DIR_SECTOR) : inode.removed = false :=
  Bool.eq_false_iff.2 fun hr => (h.opened.removed p inode hp hr).2.2 hroot

/-! ## The root directory -/

namespace FileSys

/-- There is memory to open the root directory. -/
def RootOk (s : FileSys) : Prop := s.mem 0 = true ∧ (s.Opened ROOT_DIR_SECTOR ∨ s.mem 1 = true)

open Classical in
/-- The memory after the root directory has been opened. -/
noncomputable def root_mem (s : FileSys) : Mallocs :=
  if s.Opened ROOT_DIR_SECTOR then s.mem.malloc.2 else s.mem.malloc.2.malloc.2

end FileSys

/-- What `dir_open_root` does. -/
structure RootSpec (s : FileSys) (r : Option Nat) (s' : FileSys) : Prop where
  ok : r ≠ none ↔ s.RootOk
  opened : ∀ p, r = some p → ∃ inode, s'.open_inodes.get p = some inode ∧
    inode.sector = ROOT_DIR_SECTOR
  mem : r ≠ none → s'.mem = s.root_mem
  fs_device : s'.fs_device = s.fs_device
  free_map : s'.free_map = s.free_map
  quiet : Quiet s s'
  live : r ≠ none → ∀ i, s.Live i → s'.Live i

namespace FsInv

theorem dir_open_root (h : FsInv held s) :
    ∃ r s', s.dir_open_root = some (r, s') ∧ RootSpec s r s' ∧ FsInv (r.toList ++ held) s' := by
  rcases h.inode_open s.live_root with ⟨r, s₁, hopen, hspec, hinv⟩
  cases r with
  | none =>
      have hdir := dir_open_none s₁
      refine ⟨none, s₁.setMem s₁.mem.malloc.2, ?_, ?_, hinv.set_mem _⟩
      · simp only [FileSys.dir_open_root, hopen, Option.bind_eq_bind, Option.bind_some]
        exact hdir
      · cases hspec with
        | no_memory hnone hmem =>
            refine ⟨⟨fun hne => absurd rfl hne, fun hok => ?_⟩, nofun,
              fun hne => absurd rfl hne, rfl, rfl, Quiet.of_mem fun hs => hs.tail.tail,
              fun hne => absurd rfl hne⟩
            rw [hok.1] at hmem
            cases hmem
  | some p =>
      replace hinv : FsInv (p :: held) s₁ := hinv
      rcases hspec.get with ⟨inode, hp, hroot⟩
      rcases hinv.dir_open hp List.mem_cons_self with ⟨r, s₂, hdir, hcases⟩
      have heq : s.dir_open_root = some (r, s₂) := by
        simp only [FileSys.dir_open_root, hopen, Option.bind_eq_bind, Option.bind_some]
        exact hdir
      have hmap : s₁.free_map = s.free_map := by
        cases hspec with
        | again | first =>
            rfl
      -- where `dir_open` finds the memory it needs
      have hmem : s₁.mem = s.mem ∧ s.Opened ROOT_DIR_SECTOR ∨
          s₁.mem = s.mem.malloc.2 ∧ ¬ s.Opened ROOT_DIR_SECTOR ∧ s.mem 0 = true := by
        cases hspec with
        | again hq hsector =>
            exact Or.inl ⟨rfl, _, _, hq, hsector⟩
        | first hnone hmem =>
            exact Or.inr ⟨rfl, hnone, hmem⟩
      rcases hcases with ⟨hok, rfl, rfl, hinv₂⟩ | ⟨hbad, rfl, hclose, hinv₂⟩
      · refine ⟨some p, _, heq, ⟨⟨fun _ => ?_, fun _ hne => by cases hne⟩, ?_, fun _ => ?_,
          hspec.fs_device, hmap, ?_, fun _ i hi => ?_⟩, hinv₂⟩
        · rcases hmem with ⟨heq₁, hopened⟩ | ⟨heq₁, hnone, hmem₀⟩
          · rw [heq₁] at hok
            exact ⟨hok, Or.inl hopened⟩
          · rw [heq₁] at hok
            exact ⟨hmem₀, Or.inr hok⟩
        · intro q hq
          obtain rfl := Option.some.inj hq
          exact ⟨inode, hp, hroot⟩
        · rcases hmem with ⟨heq₁, hopened⟩ | ⟨heq₁, hnone, _⟩
          · rw [FileSys.root_mem, if_pos hopened, FileSys.setMem_mem, heq₁]
          · rw [FileSys.root_mem, if_neg hnone, FileSys.setMem_mem, heq₁]
        · exact hspec.quiet.trans (Quiet.of_mem fun hs => hs.tail) fun i hi => hspec.live hi
        · exact hspec.live hi
      · have hm := hinv.set_mem s₁.mem.malloc.2
        have hsame := hclose.unchanged (hinv.not_removed hp hroot)
        refine ⟨none, s₂, heq, ⟨⟨fun hne => absurd rfl hne, fun hok => ?_⟩, nofun,
          fun hne => absurd rfl hne, hsame.1.trans hspec.fs_device, hsame.2.1.trans hmap, ?_,
          fun hne => absurd rfl hne⟩, ?_⟩
        · rcases hmem with ⟨heq₁, hopened⟩ | ⟨heq₁, hnone, _⟩
          · rw [heq₁, hok.1] at hbad
            cases hbad
          · rcases hok.2 with hopened | hmem₁
            · exact absurd hopened hnone
            · have hbad' : s.mem 1 = false := by
                rw [heq₁] at hbad
                exact hbad
              rw [hmem₁] at hbad'
              cases hbad'
        · have hquiet := hm.quiet_close hp List.mem_cons_self hclose
          exact (hspec.quiet.trans (Quiet.of_mem fun hs => hs.tail) fun i hi => hspec.live hi).trans
            hquiet fun i hi => hspec.live hi
        · rw [List.erase_cons_head] at hinv₂
          exact hinv₂

end FsInv

/-! ## Creating a file -/

theorem scanned_congr {dev dev' : Block} {stop : DirEntry → Bool} {n k : Nat} (mem : Mallocs)
    (hsame : ∀ l, l < n + k → dir_entry dev' l = dir_entry dev l) :
    scanned dev' stop n k mem = scanned dev stop n k mem := by
  induction n generalizing k mem with
  | zero =>
      rfl
  | succ n ih =>
      rw [scanned, scanned, hsame k (by omega)]
      have hnext := ih (k := k + 1) mem.malloc.2 fun l hl => hsame l (by omega)
      rw [hnext]

/-- Whether the directory takes a name depends on the entries and on the memory. -/
theorem FileSys.AddOk.congr {name : CString} (h : s.AddOk name)
    (hsame : ∀ l, l < ROOT_ENTRIES → dir_entry s'.fs_device l = dir_entry s.fs_device l)
    (hmem : s'.mem = s.mem) : s'.AddOk name := by
  have hscan : ∀ (t t' : FileSys) (stop : DirEntry → Bool), t'.fs_device = s'.fs_device →
      t.fs_device = s.fs_device → t'.mem = t.mem → t'.scanned stop = t.scanned stop := by
    intro t t' stop ht' ht hmem
    rw [FileSys.scanned, FileSys.scanned, ht', ht, hmem]
    exact scanned_congr _ hsame
  have hfirst := hscan s s' (names name) rfl rfl hmem
  have hsecond := hscan (s.setMem (s.scanned (names name)).2.2)
    (s'.setMem (s'.scanned (names name)).2.2) (fun e => !e.in_use) rfl rfl (by rw [hfirst]; rfl)
  refine ⟨h.ne_nil, h.length_le, ?_, ?_, ?_⟩
  · rw [hfirst]
    exact h.absent
  · rw [hsecond]
    exact h.slot
  · rw [hsecond]
    exact h.memory

/-- `inode_create` finds the memory and the sectors for an inode of `size` bytes. -/
structure FileSys.DataOk (s : FileSys) (size : Nat) : Prop where
  memory : s.mem 0 = true
  sectors : ¬ s.free_map.NoRun 0 (bytes_to_sectors size) false
  write : (s.setMem s.mem.malloc.2).MapWritable

/-- The memory after `inode_create`. -/
def FileSys.add_mem (s : FileSys) : Mallocs := mem_after s.mem.malloc.2 0 s.map_size

theorem InodeCreateSpec.ok {size : Nat} {r : Bool} (h : InodeCreateSpec s i size r s') :
    r = true ↔ s.DataOk size := by
  cases h with
  | no_memory hmem =>
      refine ⟨nofun, fun hok => ?_⟩
      rw [hok.memory] at hmem
      cases hmem
  | no_sectors _ halloc =>
      refine ⟨nofun, fun hok => ?_⟩
      cases halloc with
      | full hno =>
          exact absurd hno hok.sectors
      | unwritten _ hw =>
          exact absurd hok.write hw
  | created hmem halloc =>
      refine ⟨fun _ => ?_, fun _ => rfl⟩
      cases halloc with
      | done hrun hw =>
          exact ⟨hmem, fun hno => hno _ hrun.ge hrun.fits hrun.run, hw⟩

/-- What the functions below `filesys_create` do for a sector that has been allocated. -/
theorem FsInv.quiet_inode_create {size : Nat} {r : Bool} (h : FsInv held s) (hi : Reserved s i)
    (hspec : InodeCreateSpec s i size r s') : Quiet s s' := by
  have hm := h.set_mem s.mem.malloc.2
  have hq : Quiet s (s.setMem s.mem.malloc.2) := Quiet.of_mem fun hs => hs.tail
  cases hspec with
  | no_memory =>
      exact hq
  | no_sectors _ halloc =>
      exact hq.trans (hm.quiet_alloc halloc) fun _ hj => hj
  | @created start s₁ _ halloc =>
      have hq₁ := hq.trans (hm.quiet_alloc halloc) fun _ hj => hj
      -- what a live inode uses is not written
      have hnew : ∀ j a, s.Live j → Cell s.fs_device j a →
          (new_inode s₁.fs_device i start size).sectors a = s₁.fs_device.sectors a := by
        intro j a hj ha
        have hmarked : s.free_map.test a = true := h.layout.marked j a hj ha
        refine new_inode_sectors ?_ fun hin => ?_
        · rintro rfl
          exact hi.apart j hj ha
        · have hfree : s.free_map.test a = false := (halloc.free hin.1 hin.2).1
          rw [hmarked] at hfree
          cases hfree
      refine ⟨hq₁.same_files.trans (SameFiles.of_eq rfl rfl rfl),
        fun j hj hne a ha => (hnew j a hj ha).trans (hq₁.kept j hj hne a ha), hq₁.bit_cnt, hq₁.ample,
        fun hs hdisk => ?_⟩
      have hzero : s₁.fs_device.sectors FREE_MAP_SECTOR = s.fs_device.sectors FREE_MAP_SECTOR :=
        halloc.step.sectors _ hm.map_inv.self
      refine (hq₁.map_on_disk hs hdisk).congr (hm.map_inv.step halloc.step) (fun a ha => ?_) rfl
        fun _ => rfl
      exact hnew _ a s.live_free_map ((cell_congr hzero).1 ha)

namespace FileSys

/-- The part of `filesys_create` that has the directory open and a sector for the inode. -/
def create_in (s : FileSys) (dir : Nat) (inode_sector : Nat) (name : CString) (initial_size : Int)
    (e : DirEntry) : Option (Bool × FileSys) := do
  let (created, s) ← s.inode_create inode_sector initial_size
  let (success, s) ← if created then s.dir_add dir name inode_sector e else some (false, s)
  let s ← if !success ∧ inode_sector ≠ 0 then s.free_map_release inode_sector 1 else some s
  return (success, s)

theorem filesys_create_of {name : CString} {initial_size : Int} {e : DirEntry} {s₁ s₂ s₃ s₄ : FileSys}
    {r : Bool} (hroot : s.dir_open_root = some (some p, s₁))
    (halloc : s₁.free_map_allocate 1 = some (some i, s₂))
    (hin : s₂.create_in p i name initial_size e = some (r, s₃))
    (hclose : s₃.inode_close (some p) = some s₄) :
    s.filesys_create name initial_size e = some (r, s₄) := by
  simp only [create_in, Option.bind_eq_bind] at hin
  rcases Option.bind_eq_some_iff.1 hin with ⟨⟨created, t⟩, hcreate, hin⟩
  simp only [filesys_create, hroot, halloc, hcreate, Option.bind_eq_bind, Option.bind_some, dir_close]
  cases created with
  | false =>
      simp only [Bool.false_eq_true, if_false, Option.bind_some, Bool.not_false, true_and] at hin ⊢
      split at hin
      · rename_i hne
        rcases Option.bind_eq_some_iff.1 hin with ⟨u, hrelease, hin⟩
        rcases Prod.mk.inj (Option.some.inj hin) with ⟨rfl, rfl⟩
        simp only [if_pos hne, hrelease, hclose, Option.bind_some]
        rfl
      · rename_i hne
        rcases Prod.mk.inj (Option.some.inj hin) with ⟨rfl, rfl⟩
        simp only [if_neg hne, hclose, Option.bind_some]
        rfl
  | true =>
      simp only [if_true] at hin ⊢
      rcases Option.bind_eq_some_iff.1 hin with ⟨⟨success, u⟩, hadd, hin⟩
      simp only [hadd, Option.bind_some] at hin ⊢
      split at hin
      · rename_i hne
        rcases Option.bind_eq_some_iff.1 hin with ⟨v, hrelease, hin⟩
        rcases Prod.mk.inj (Option.some.inj hin) with ⟨rfl, rfl⟩
        simp only [if_pos hne, hrelease, hclose, Option.bind_some]
        rfl
      · rename_i hne
        rcases Prod.mk.inj (Option.some.inj hin) with ⟨rfl, rfl⟩
        simp only [if_neg hne, hclose, Option.bind_some]
        rfl

end FileSys

/-- A file that has been created. -/
structure Created (s : FileSys) (name : CString) (size i : Nat) (s' : FileSys) : Prop where
  same_files : SameFiles s s'
  bit_cnt : s'.free_map.bit_cnt = s.free_map.bit_cnt
  ample : s.mem.Ample → s'.mem.Ample
  map_on_disk : s.mem.Ample → s.MapOnDisk → s'.MapOnDisk
  kept : ∀ j, s.Live j → j ≠ FREE_MAP_SECTOR → j ≠ ROOT_DIR_SECTOR → Kept s.fs_device s'.fs_device j
  not_live : ¬ s.Live i
  free : ∀ a, a ∈ data_extent s'.fs_device i → s.free_map.test a = false
  ne_nil : name.chars ≠ []
  length_le : name.chars.length ≤ NAME_MAX
  absent : s.mem.Ample → ∀ k, k < ROOT_ENTRIES → FileSys.names name (dir_entry s.fs_device k) = false
  entry : ∃ k e, k < ROOT_ENTRIES ∧ (s.mem.Ample → (dir_entry s.fs_device k).in_use = false) ∧
    e.in_use = true ∧ e.inode_sector = i ∧ e.str = name.chars ∧
    ∀ l, l < ROOT_ENTRIES → dir_entry s'.fs_device l = if l = k then e else dir_entry s.fs_device l
  length : (disk_inode s'.fs_device i).length = size
  zero : ∀ k, k < size → data_byte s'.fs_device i k = 0

/-- What the part of `filesys_create` does that has a sector for the inode. -/
inductive CreateInSpec (s : FileSys) (i : Nat) (name : CString) (size : Nat) : Bool → FileSys → Prop
  | unreached {s' : FileSys} :
      ¬ s.DataOk size → Quiet s s' → Undisturbed s s' →
      (∀ j, s'.free_map.test j = if j = i then false else s.free_map.test j) →
      CreateInSpec s i name size false s'
  | refused {start : Nat} {s' : FileSys} :
      s.DataOk size → ¬ (s.setMem s.add_mem).AddOk name → Quiet s s' → Undisturbed s s' →
      start + bytes_to_sectors size ≤ s.free_map.bit_cnt →
      (∀ j, start ≤ j → j < start + bytes_to_sectors size → s.free_map.test j = false) →
      (∀ j, s'.free_map.test j = if j = i then false
        else if start ≤ j ∧ j < start + bytes_to_sectors size then true else s.free_map.test j) →
      CreateInSpec s i name size false s'
  | added {s' : FileSys} :
      (s.setMem s.add_mem).AddOk name → Created s name size i s' → CreateInSpec s i name size true s'

section
variable {size : Nat} {r : Bool}

theorem InodeCreateSpec.test_of_false (h : InodeCreateSpec s i size false s') (j : Nat) :
    s'.free_map.test j = s.free_map.test j := by
  cases h with
  | no_memory =>
      rfl
  | no_sectors _ halloc =>
      cases halloc with
      | full =>
          rfl
      | unwritten _ _ _ htest =>
          exact htest j

theorem InodeCreateSpec.mem_of_true (h : InodeCreateSpec s i size true s') : s'.mem = s.add_mem := by
  cases h with
  | created _ halloc =>
      cases halloc with
      | done _ _ _ _ hmem =>
          exact hmem

/-- The sectors of a new inode's data. -/
theorem InodeCreateSpec.sectors_of_true (h : InodeCreateSpec s i size true s') :
    ∃ start s₁, start + bytes_to_sectors size ≤ s.free_map.bit_cnt ∧
      (∀ j, start ≤ j → j < start + bytes_to_sectors size → s.free_map.test j = false) ∧
      (∀ j, s'.free_map.test j =
        if start ≤ j ∧ j < start + bytes_to_sectors size then true else s.free_map.test j) ∧
      s'.fs_device = new_inode s₁ i start size := by
  cases h with
  | @created start s₁ _ halloc =>
      refine ⟨start, s₁.fs_device, halloc.fits, fun j hj hj' => (halloc.free hj hj').1, ?_, rfl⟩
      cases halloc with
      | done _ _ _ htest =>
          exact htest

end

namespace FsInv

theorem release_reserved (h : FsInv held s) (hi : Reserved s i) :
    ∃ s', s.free_map_release i 1 = some s' ∧ ReleaseSpec s i 1 s' ∧ Undisturbed s s' := by
  refine h.free_map_release hi.sector_lt (fun a ha ha' => ?_) fun j a hj hja hin => ?_
  · obtain rfl : a = i := by omega
    exact hi.marked
  · obtain rfl : a = i := by omega
    exact hi.apart j hj hja

theorem create_in (h : FsInv held s) (hp : s.open_inodes.get p = some inode)
    (hroot : inode.sector = ROOT_DIR_SECTOR) (hi : Reserved s i) (name : CString) {size : Nat}
    (hsize : size < OFF_T) (e : DirEntry) :
    ∃ r s', s.create_in p i name size e = some (r, s') ∧ CreateInSpec s i name size r s' ∧
      FsInv held s' ∧ s'.open_inodes = s.open_inodes := by
  rcases h.map_inv.inode_create hi.sector_lt size with ⟨r, s₁, hcreate, hspec⟩
  rcases h.of_inode_create hi hsize hspec with ⟨hu, hmark, hfresh⟩
  have hinv₁ := h.change hu
  have hq := h.quiet_inode_create hi hspec
  have hi₁ := hi.change hu h.dir hmark
  have hne : i ≠ 0 := (hi.ne s.live_free_map).symm
  have hlive : ∀ j, s.Live j → s₁.Live j := fun j => (hu.live h.dir j).2
  have hone : ∀ j, (i ≤ j ∧ j < i + 1) ↔ j = i := fun j => by omega
  cases r with
  | false =>
      -- the sector of the inode is released
      rcases hinv₁.release_reserved hi₁ with ⟨s₂, hrelease, hspec₂, hu₂⟩
      refine ⟨false, s₂, ?_, CreateInSpec.unreached ?_ ?_ (hu.trans hu₂ h.dir) fun j => ?_,
        hinv₁.change hu₂, hu₂.open_inodes.trans hu.open_inodes⟩
      · have hcond : (!false) = true ∧ i ≠ 0 := ⟨rfl, hne⟩
        simp only [FileSys.create_in, hcreate, Bool.false_eq_true, if_false, Option.bind_eq_bind,
          Option.bind_some, if_pos hcond, hrelease]
        rfl
      · exact fun hok => by cases hspec.ok.2 hok
      · exact hq.trans (hinv₁.quiet_release hspec₂) hlive
      · rw [hspec₂.test, hspec.test_of_false]
        simp only [hone]
  | true =>
      have hp₁ : s₁.open_inodes.get p = some inode := by rwa [hu.open_inodes]
      rcases hinv₁.dir_add hp₁ hroot name i e with ⟨r, s₂, hadd, hspec₂⟩
      have hsame : ∀ l, l < ROOT_ENTRIES → dir_entry s₁.fs_device l = dir_entry s.fs_device l :=
        fun l hl => hu.dir_entry h.dir hl
      have hmem₁ : s₁.mem = (s.setMem s.add_mem).mem := by
        rw [FileSys.setMem_mem]
        exact hspec.mem_of_true
      have hsame' : ∀ l, l < ROOT_ENTRIES →
          dir_entry s₁.fs_device l = dir_entry (s.setMem s.add_mem).fs_device l := by
        intro l hl
        rw [FileSys.setMem_fs_device]
        exact hsame l hl
      rcases hspec.sectors_of_true with ⟨start, dev, hfits, hfree, htest, hdev⟩
      cases hspec₂ with
      | @refused mem hno hample =>
          -- only the sector of the inode is released
          rcases (hinv₁.set_mem mem).release_reserved ⟨hi₁.sector_lt, hi₁.marked, hi₁.apart⟩ with
            ⟨s₃, hrelease, hspec₃, hu₃⟩
          refine ⟨false, s₃, ?_, CreateInSpec.refused (hspec.ok.1 rfl) (fun hok => hno ?_) ?_
            (hu.trans hu₃.of_set_mem h.dir) hfits hfree fun j => ?_, (hinv₁.set_mem mem).change hu₃,
            hu₃.open_inodes.trans hu.open_inodes⟩
          · have hcond : (!false) = true ∧ i ≠ 0 := ⟨rfl, hne⟩
            simp only [FileSys.create_in, hcreate, if_true, hadd, Option.bind_eq_bind,
              Option.bind_some, if_pos hcond, hrelease]
            rfl
          · exact FileSys.AddOk.congr hok hsame' hmem₁
          · exact (hq.trans (Quiet.of_mem hample) hlive).trans
              ((hinv₁.set_mem mem).quiet_release hspec₃) hlive
          · rw [hspec₃.test, FileSys.setMem_free_map, htest]
            simp only [hone]
      | @added k e' mem hok hk huse hsector hstr hunused =>
          have hf := hfresh rfl
          have hlt : e'.inode_sector < WORD := by
            rw [hsector]
            have hword := h.layout.bit_cnt_lt
            have hsectorlt := hi.sector_lt
            omega
          have hset := hinv₁.set_entry (k := k) (e := e') hk hlt fun _ => by rwa [hsector]
          have hself₁ := hinv₁.layout.self _ s₁.live_root
          have hentry := dir_entry_patch (e := e') hinv₁.dir hself₁ hlt hk
          -- the data of other inodes lie outside the directory
          have hpatch : ∀ j, (∀ a, Cell s₁.fs_device j a → a ∉ data_extent s₁.fs_device ROOT_DIR_SECTOR) →
              Kept s₁.fs_device (entry_patch s₁.fs_device k e') j :=
            fun j hj a ha => entry_patch_sectors hinv₁.dir hk (hj a ha)
          have hkept_i := hpatch i fun a ha hmem =>
            hf.apart _ a s₁.live_root (Or.inr hmem) ha
          have hout : ¬ (start ≤ i ∧ i < start + bytes_to_sectors size) := by
            intro hin
            have hunmarked := hfree i hin.1 hin.2
            rw [hi.marked] at hunmarked
            cases hunmarked
          have hstart : start < WORD := by
            have hword := h.layout.bit_cnt_lt
            omega
          have hdisk : disk_inode s₁.fs_device i = ⟨start, size, INODE_MAGIC⟩ := by
            rw [hdev, disk_inode_new_inode hout hstart hsize]
          refine ⟨true, _, ?_, CreateInSpec.added (FileSys.AddOk.congr hok
            (fun l hl => (hsame' l hl).symm) hmem₁.symm) ?_, hset.set_mem mem, hu.open_inodes⟩
          · have hcond : ¬ ((!true) = true ∧ i ≠ 0) := fun hand => by cases hand.1
            simp only [FileSys.create_in, hcreate, if_true, hadd, Option.bind_eq_bind,
              Option.bind_some, if_neg hcond]
            rfl
          · constructor
            · exact hq.same_files.trans (SameFiles.of_eq rfl rfl rfl)
            · exact hq.bit_cnt
            · exact fun hs => (hunused (hq.ample hs)).2
            · intro hs hdisk
              refine (hq.map_on_disk hs hdisk).congr hinv₁.map_inv (hpatch _ fun a ha hmem => ?_) rfl
                fun _ => rfl
              exact hinv₁.layout.apart _ _ a s₁.live_free_map s₁.live_root (by decide) ha (Or.inr hmem)
            · intro j hj hmap hrootne
              refine (hq.kept j hj hmap).trans (hpatch j fun a ha hmem => ?_)
              exact hinv₁.layout.apart j _ a (hlive j hj) s₁.live_root hrootne ha (Or.inr hmem)
            · exact fun hj => hi.apart i hj (Or.inl rfl)
            · intro a ha
              have hext : data_extent (entry_patch s₁.fs_device k e') i =
                  ⟨start, bytes_to_sectors size⟩ := by
                rw [data_extent, hkept_i.disk_inode, hdisk]
              rw [FileSys.setMem_fs_device, FileSys.setDevice_fs_device, hext, Extent.mem_def] at ha
              simp only at ha
              exact hfree a ha.1 ha.2
            · exact hok.ne_nil
            · exact hok.length_le
            · intro hs l hl
              have hnone := (FileSys.scanned_none (hq.ample hs) hok.absent).2 l hl
              rwa [hsame l hl] at hnone
            · refine ⟨k, e', hk, fun hs => ?_, huse, hsector, hstr, fun l hl => ?_⟩
              · rw [← hsame k hk]
                exact (hunused (hq.ample hs)).1
              · rw [FileSys.setMem_fs_device, FileSys.setDevice_fs_device, hentry, hsame l hl]
            · rw [FileSys.setMem_fs_device, FileSys.setDevice_fs_device, hkept_i.disk_inode, hdisk]
            · intro b hb
              rw [FileSys.setMem_fs_device, FileSys.setDevice_fs_device,
                hkept_i.data_byte hf.length_lt (by rw [hdisk]; exact hb), hdev]
              exact data_byte_new_inode hout hstart hsize hb

end FsInv

/-! ### The whole call -/

namespace FileSys

/-- The memory when `filesys_create` calls `inode_create`. -/
noncomputable def inode_mem (s : FileSys) : Mallocs := mem_after s.root_mem 0 s.map_size

/-- The memory when it calls `dir_add`. -/
noncomputable def dir_mem (s : FileSys) : Mallocs := mem_after s.inode_mem.malloc.2 0 s.map_size

/-- What `inode_create` is called with, for sector `i`. -/
noncomputable def at_inode (s : FileSys) (i : Nat) : FileSys :=
  (s.setMem s.inode_mem).setMap (bitmap_mark s.free_map i)

/-- There are memory and sectors for all that `filesys_create` does before it calls `dir_add`. -/
structure ReachesAdd (s : FileSys) (size : Nat) : Prop where
  root : s.RootOk
  write : Whole 0 s.map_size ∨ s.root_mem 0 = true
  data : ∃ i, s.free_map.FirstRun 0 1 false i ∧ (s.at_inode i).DataOk size

/-- The data of a new inode are allocated, and the directory does not take the name. -/
def Leaks (s : FileSys) (name : CString) (size : Nat) : Prop :=
  0 < size ∧ s.ReachesAdd size ∧ ¬ (s.setMem s.dir_mem).AddOk name

end FileSys

/-- What `filesys_create` does. -/
inductive CreateSpec (s : FileSys) (name : CString) (size : Nat) : Bool → FileSys → Prop
  | failed {s' : FileSys} :
      ¬ s.Leaks name size → Quiet s s' → (∀ j, s'.free_map.test j = s.free_map.test j) →
      CreateSpec s name size false s'
  | leaked {start : Nat} {s' : FileSys} :
      s.Leaks name size → Quiet s s' →
      (∀ j, start ≤ j → j < start + bytes_to_sectors size → s.free_map.test j = false) →
      (∀ j, s'.free_map.test j =
        if start ≤ j ∧ j < start + bytes_to_sectors size then true else s.free_map.test j) →
      CreateSpec s name size false s'
  | created {i : Nat} {s' : FileSys} :
      ¬ s.Leaks name size → s.free_map.test i = false → Created s name size i s' →
      CreateSpec s name size true s'

theorem Created.of_steps {name : CString} {size : Nat} {s₁ s₂ s₃ : FileSys} (hq : Quiet s s₁)
    (hlive : ∀ j, s.Live j → s₁.Live j)
    (hbits : ∀ a, s.free_map.test a = true → s₁.free_map.test a = true) (hdir : DirInv s.fs_device)
    (h : Created s₁ name size i s₂) (hq' : SameFiles s₂ s₃) (hdev : s₃.fs_device = s₂.fs_device)
    (hmap : s₃.free_map = s₂.free_map) (hmem : s₃.mem = s₂.mem) : Created s name size i s₃ := by
  have hsame : ∀ l, l < ROOT_ENTRIES → dir_entry s₁.fs_device l = dir_entry s.fs_device l :=
    fun l hl => (hq.kept _ s.live_root (by decide)).dir_entry hdir hl
  constructor
  · exact (hq.same_files.trans h.same_files).trans hq'
  · rw [hmap]
    exact h.bit_cnt.trans hq.bit_cnt
  · rw [hmem]
    exact fun hs => h.ample (hq.ample hs)
  · intro hs hdisk
    rw [FileSys.MapOnDisk, hdev, hmap]
    exact h.map_on_disk (hq.ample hs) (hq.map_on_disk hs hdisk)
  · intro j hj hmapne hrootne
    rw [hdev]
    exact (hq.kept j hj hmapne).trans (h.kept j (hlive j hj) hmapne hrootne)
  · exact fun hi => h.not_live (hlive i hi)
  · intro a ha
    rw [hdev] at ha
    exact Bool.eq_false_iff.2 fun hset => Bool.eq_false_iff.1 (h.free a ha) (hbits a hset)
  · exact h.ne_nil
  · exact h.length_le
  · intro hs k hk
    have hnone := h.absent (hq.ample hs) k hk
    rwa [hsame k hk] at hnone
  · rcases h.entry with ⟨k, e, hk, hunused, huse, hsector, hstr, hentry⟩
    refine ⟨k, e, hk, fun hs => ?_, huse, hsector, hstr, fun l hl => ?_⟩
    · rw [← hsame k hk]
      exact hunused (hq.ample hs)
    · rw [hdev, hentry l hl, hsame l hl]
  · rw [hdev]
    exact h.length
  · intro k hk
    rw [hdev]
    exact h.zero k hk

namespace FsInv

/-- The root directory is closed. -/
theorem close_root (h : FsInv held s) (hheld : p ∈ held) (hp : s.open_inodes.get p = some inode)
    (hroot : inode.sector = ROOT_DIR_SECTOR) :
    ∃ s', s.inode_close (some p) = some s' ∧ FsInv (held.erase p) s' ∧ Quiet s s' ∧
      CloseSpec s p inode s' ∧ s'.fs_device = s.fs_device ∧ s'.free_map = s.free_map ∧
      s'.mem = s.mem := by
  rcases h.inode_close hp hheld with ⟨s', hclose, hspec, hinv⟩
  exact ⟨s', hclose, hinv, h.quiet_close hp hheld hspec, hspec,
    hspec.unchanged (h.not_removed hp hroot)⟩

end FsInv

theorem FileSys.DataOk.congr {size : Nat} (h : s.DataOk size)
    (hcnt : s'.free_map.bit_cnt = s.free_map.bit_cnt)
    (htest : ∀ j, s'.free_map.test j = s.free_map.test j) (hmem : s'.mem = s.mem) :
    s'.DataOk size := by
  refine ⟨by rw [hmem]; exact h.memory, fun hno => h.sectors fun k hk hfit hrun => ?_, ?_⟩
  · refine hno k hk (by rw [hcnt]; exact hfit) fun j hj hj' => ?_
    rw [htest]
    exact hrun j hj hj'
  · have hsize : (s'.setMem s'.mem.malloc.2).map_size = (s.setMem s.mem.malloc.2).map_size := by
      rw [FileSys.map_size, FileSys.map_size, FileSys.setMem_free_map, FileSys.setMem_free_map, hcnt]
    have hw := h.write
    rw [FileSys.MapWritable, FileSys.setMem_mem] at hw ⊢
    rw [hsize, hmem]
    exact hw

/-- What `filesys_create` has done when it calls `inode_create`. -/
structure AtInode (s : FileSys) (i : Nat) (s₂ : FileSys) : Prop where
  root : s.RootOk
  write : Whole 0 s.map_size ∨ s.root_mem 0 = true
  first : s.free_map.FirstRun 0 1 false i
  bit_cnt : s₂.free_map.bit_cnt = s.free_map.bit_cnt
  test : ∀ j, s₂.free_map.test j = if j = i then true else s.free_map.test j
  mem : s₂.mem = s.inode_mem
  entry : ∀ l, l < ROOT_ENTRIES → dir_entry s₂.fs_device l = dir_entry s.fs_device l

namespace AtInode

variable {size : Nat} {name : CString} (h : AtInode s i t)
include h

theorem map_size : t.map_size = s.map_size := by
  rw [FileSys.map_size, FileSys.map_size, h.bit_cnt]

theorem dataOk_iff : t.DataOk size ↔ (s.at_inode i).DataOk size := by
  have hcnt : (s.at_inode i).free_map.bit_cnt = t.free_map.bit_cnt := by
    rw [FileSys.at_inode, FileSys.setMap_free_map, h.bit_cnt, bitmap_mark]
  have htest : ∀ j, (s.at_inode i).free_map.test j = t.free_map.test j := by
    intro j
    rw [h.test, FileSys.at_inode, FileSys.setMap_free_map, test_mark]
    by_cases hj : j = i
    · simp [hj]
    · simp [hj]
  have hmem : (s.at_inode i).mem = t.mem := by
    rw [h.mem, FileSys.at_inode, FileSys.setMap_mem, FileSys.setMem_mem]
  exact ⟨fun hok => hok.congr hcnt htest hmem,
    fun hok => hok.congr hcnt.symm (fun j => (htest j).symm) hmem.symm⟩

theorem reaches_iff : s.ReachesAdd size ↔ t.DataOk size := by
  rw [h.dataOk_iff]
  constructor
  · rintro ⟨_, _, j, hfirst, hok⟩
    rwa [hfirst.unique h.first] at hok
  · exact fun hok => ⟨h.root, h.write, i, h.first, hok⟩

theorem addOk_iff : (t.setMem t.add_mem).AddOk name ↔ (s.setMem s.dir_mem).AddOk name := by
  have hmem : (t.setMem t.add_mem).mem = (s.setMem s.dir_mem).mem := by
    rw [FileSys.setMem_mem, FileSys.setMem_mem, FileSys.add_mem, FileSys.dir_mem, h.map_size, h.mem]
  have hentry : ∀ l, l < ROOT_ENTRIES → dir_entry (t.setMem t.add_mem).fs_device l =
      dir_entry (s.setMem s.dir_mem).fs_device l := by
    intro l hl
    rw [FileSys.setMem_fs_device, FileSys.setMem_fs_device]
    exact h.entry l hl
  exact ⟨fun hok => FileSys.AddOk.congr hok (fun l hl => (hentry l hl).symm) hmem.symm,
    fun hok => FileSys.AddOk.congr hok hentry hmem⟩

end AtInode

namespace FsInv

/-- What there is when a sector for the inode has been allocated. -/
theorem at_inode (h : FsInv held s) {s₁ s₂ : FileSys} (hroot : RootSpec s (some p) s₁)
    (halloc : AllocSpec s₁ 1 (some i) s₂) (hquiet : Quiet s s₂) : AtInode s i s₂ := by
  have hmem₁ : s₁.mem = s.root_mem := hroot.mem (Option.some_ne_none p)
  have hsize₁ : s₁.map_size = s.map_size := by
    rw [FileSys.map_size, FileSys.map_size, hroot.free_map]
  have hentry : ∀ l, l < ROOT_ENTRIES → dir_entry s₂.fs_device l = dir_entry s.fs_device l :=
    fun l hl => (hquiet.kept _ s.live_root (by decide)).dir_entry h.dir hl
  have hone : ∀ j, (i ≤ j ∧ j < i + 1) ↔ j = i := fun j => by omega
  cases halloc with
  | done hfirst hw _ htest hmem =>
      rw [hroot.free_map] at hfirst htest
      rw [FileSys.MapWritable, hsize₁, hmem₁] at hw
      rw [hsize₁, hmem₁] at hmem
      refine ⟨hroot.ok.1 (Option.some_ne_none p), hw, hfirst, hquiet.bit_cnt, fun j => ?_, hmem,
        hentry⟩
      rw [htest]
      simp only [hone]

/-- The sector for the inode is allocated if there is one and the free map can be written. -/
theorem allocates {s₁ s₂ : FileSys} {size : Nat} (hroot : RootSpec s (some p) s₁)
    (hreaches : s.ReachesAdd size) : ¬ AllocSpec s₁ 1 none s₂ := by
  have hsize₁ : s₁.map_size = s.map_size := by
    rw [FileSys.map_size, FileSys.map_size, hroot.free_map]
  intro halloc
  rcases hreaches.data with ⟨k, hfirst, _⟩
  cases halloc with
  | full hno =>
      rw [hroot.free_map] at hno
      exact hno k hfirst.ge hfirst.fits hfirst.run
  | unwritten _ hw =>
      refine hw ?_
      rw [FileSys.MapWritable, hsize₁, hroot.mem (Option.some_ne_none p)]
      exact hreaches.write

theorem filesys_create (h : FsInv held s) (name : CString) {size : Nat} (hsize : size < OFF_T)
    (e : DirEntry) : ∃ r s', s.filesys_create name size e = some (r, s') ∧
      CreateSpec s name size r s' ∧ FsInv held s' := by
  rcases h.dir_open_root with ⟨dir, s₁, hroot, hspec₁, hinv₁⟩
  cases dir with
  | none =>
      refine ⟨false, s₁, ?_, CreateSpec.failed (fun hleak => ?_) hspec₁.quiet fun j => ?_, hinv₁⟩
      · simp only [FileSys.filesys_create, hroot, Option.bind_eq_bind, Option.bind_some]
        rfl
      · exact hspec₁.ok.2 hleak.2.1.root rfl
      · rw [hspec₁.free_map]
  | some p =>
      replace hinv₁ : FsInv (p :: held) s₁ := hinv₁
      have hlive₁ := hspec₁.live (Option.some_ne_none p)
      rcases hspec₁.opened p rfl with ⟨inode, hp, hsector⟩
      rcases hinv₁.free_map_allocate 1 with ⟨i, s₂, halloc, hspec₂, hu₂⟩
      have hinv₂ := hinv₁.change hu₂
      have hp₂ : s₂.open_inodes.get p = some inode := by rwa [hu₂.open_inodes]
      have hq₂ := hspec₁.quiet.trans (hinv₁.quiet_alloc hspec₂) hlive₁
      have hlive₂ : ∀ j, s.Live j → s₂.Live j := fun j hj => (hu₂.live hinv₁.dir j).2 (hlive₁ j hj)
      cases i with
      | none =>
          -- there is no sector for the inode, or the free map is not written
          rcases hinv₂.close_root List.mem_cons_self hp₂ hsector with
            ⟨s₃, hclose, hinv₃, hq₃, _, _, hmap₃, _⟩
          rw [List.erase_cons_head] at hinv₃
          refine ⟨false, s₃, ?_, CreateSpec.failed (fun hleak => ?_) (hq₂.trans hq₃ hlive₂)
            fun j => ?_, hinv₃⟩
          · simp only [FileSys.filesys_create, hroot, halloc, FileSys.dir_close, hclose,
              Option.bind_eq_bind, Option.bind_some]
            rfl
          · exact allocates hspec₁ hleak.2.1 hspec₂
          · rw [hmap₃, ← hspec₁.free_map]
            cases hspec₂ with
            | full =>
                rfl
            | unwritten _ _ _ htest =>
                exact htest j
      | some i =>
          have hres := hinv₁.reserved hspec₂
          rcases hinv₂.create_in hp₂ hsector hres name hsize e with
            ⟨r, s₃, hcreate, hspec₃, hinv₃, hopen₃⟩
          have hp₃ : s₃.open_inodes.get p = some inode := by rwa [hopen₃]
          rcases hinv₃.close_root List.mem_cons_self hp₃ hsector with
            ⟨s₄, hclose, hinv₄, hq₄, _, hdev₄, hmap₄, hmem₄⟩
          rw [List.erase_cons_head] at hinv₄
          have hat := h.at_inode hspec₁ hspec₂ hq₂
          have hfree : s.free_map.test i = false :=
            hat.first.run i (le_refl i) (Nat.lt_succ_self i)
          refine ⟨r, s₄, FileSys.filesys_create_of hroot halloc hcreate hclose, ?_, hinv₄⟩
          cases hspec₃ with
          | unreached hno hq hu htest =>
              refine CreateSpec.failed (fun hleak => hno (hat.reaches_iff.1 hleak.2.1)) ?_ fun j => ?_
              · exact (hq₂.trans hq hlive₂).trans hq₄ fun j hj =>
                  (hu.live hinv₂.dir j).2 (hlive₂ j hj)
              · rw [hmap₄, htest, hat.test]
                by_cases hj : j = i
                · rw [if_pos hj, hj, hfree]
                · rw [if_neg hj, if_neg hj]
          | @refused start _ hok hno hq hu hfits hrun htest =>
              have hquiet : Quiet s s₄ := (hq₂.trans hq hlive₂).trans hq₄ fun j hj =>
                (hu.live hinv₂.dir j).2 (hlive₂ j hj)
              have hne : ¬ (start ≤ i ∧ i < start + bytes_to_sectors size) := by
                intro hin
                have hset := hrun i hin.1 hin.2
                rw [hres.marked] at hset
                cases hset
              have hrun' : ∀ j, start ≤ j → j < start + bytes_to_sectors size →
                  s.free_map.test j = false := by
                intro j hj hj'
                have hunset := hrun j hj hj'
                rw [hat.test] at hunset
                split at hunset
                · cases hunset
                · exact hunset
              have htest' : ∀ j, s₄.free_map.test j =
                  if start ≤ j ∧ j < start + bytes_to_sectors size then true
                  else s.free_map.test j := by
                intro j
                rw [hmap₄, htest, hat.test]
                by_cases hj : j = i
                · rw [if_pos hj, hj, if_neg hne, hfree]
                · rw [if_neg hj, if_neg hj]
              by_cases hzero : size = 0
              · -- a file of no bytes has no sectors that could be lost
                refine CreateSpec.failed (fun hleak => ?_) hquiet fun j => ?_
                · have hpos := hleak.1
                  omega
                · rw [htest', hzero, bytes_to_sectors_zero, if_neg (by omega)]
              · refine CreateSpec.leaked ⟨Nat.pos_of_ne_zero hzero, hat.reaches_iff.2 hok, ?_⟩ hquiet
                  hrun' htest'
                rwa [← hat.addOk_iff]
          | added hok hcreated =>
              refine CreateSpec.created (fun hleak => hleak.2.2 (hat.addOk_iff.1 hok)) hfree ?_
              refine Created.of_steps hq₂ hlive₂ (fun a ha => ?_) h.dir hcreated hq₄.same_files hdev₄
                hmap₄ hmem₄
              rw [hat.test, ha, ite_self]

/-- When a file is created. -/
theorem filesys_create_true (h : FsInv held s) {name : CString} {size : Nat} (hsize : size < OFF_T)
    (hreaches : s.ReachesAdd size) (hok : (s.setMem s.dir_mem).AddOk name) (e : DirEntry) :
    ∃ i s', s.filesys_create name size e = some (true, s') ∧ Created s name size i s' := by
  rcases h.filesys_create name hsize e with ⟨r, s', hcreate, hspec, _⟩
  cases hspec with
  | leaked hleak => exact absurd hok hleak.2.2
  | created _ _ hcreated => exact ⟨_, s', hcreate, hcreated⟩
  | failed =>
      rcases h.dir_open_root with ⟨dir, s₁, hroot, hspec₁, hinv₁⟩
      cases dir with
      | none => exact absurd rfl (hspec₁.ok.2 hreaches.root)
      | some p =>
          replace hinv₁ : FsInv (p :: held) s₁ := hinv₁
          rcases hspec₁.opened p rfl with ⟨inode, hp, hsector⟩
          rcases hinv₁.free_map_allocate 1 with ⟨i, s₂, halloc, hspec₂, hu₂⟩
          cases i with
          | none => exact absurd hspec₂ (allocates hspec₁ hreaches)
          | some i =>
              have hinv₂ := hinv₁.change hu₂
              have hp₂ : s₂.open_inodes.get p = some inode := by rwa [hu₂.open_inodes]
              have hlive₁ := hspec₁.live (Option.some_ne_none p)
              have hat := h.at_inode hspec₁ hspec₂
                (hspec₁.quiet.trans (hinv₁.quiet_alloc hspec₂) hlive₁)
              rcases hinv₂.create_in hp₂ hsector (hinv₁.reserved hspec₂) name hsize e with
                ⟨r, s₃, hin, hspec₃, hinv₃, hopen₃⟩
              have hp₃ : s₃.open_inodes.get p = some inode := by rwa [hopen₃]
              rcases hinv₃.close_root List.mem_cons_self hp₃ hsector with ⟨s₄, hclose, _⟩
              have hdone := FileSys.filesys_create_of hroot halloc hin hclose
              cases hspec₃ with
              | unreached hno => exact absurd (hat.reaches_iff.1 hreaches) hno
              | refused _ hno => exact absurd (hat.addOk_iff.2 hok) hno
              | added => cases hcreate.symm.trans hdone

end FsInv

end Berk162
