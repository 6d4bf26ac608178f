import Berk162.Filesys.FsCalls

/-!
# FsFiles — opening, removing, reading and writing files, under the invariant

The calls on a file are made through a handle that `filesys_open` or `file_reopen` has returned, so
its inode is neither the free map's nor the root directory's (`UserFiles`).
-/

namespace Berk162

variable {s s' t : FileSys} {held : List Nat} {p f i : Nat} {inode : Inode} {file : File}

/-! ## Opening a file -/

theorem Mallocs.Ample.rootOk (h : s.mem.Ample) : s.RootOk := ⟨h 0, Or.inr (h 1)⟩

/-- What `filesys_open` does. -/
inductive FileOpenSpec (s : FileSys) (name : CString) : Option Nat → FileSys → Prop
  | absent {s' : FileSys} :
      (s.mem.Ample → ∀ k, k < ROOT_ENTRIES → FileSys.names name (dir_entry s.fs_device k) = false) →
      Quiet s s' → FileOpenSpec s name none s'
  | no_memory {s' : FileSys} : ¬ s.mem.Ample → SameFiles s s' → FileOpenSpec s name none s'
  | opened {k p : Nat} {t s' : FileSys} {inode : Inode} :
      k < ROOT_ENTRIES → FileSys.names name (dir_entry s.fs_device k) = true → Quiet s t →
      t.open_inodes.get p = some inode → inode.sector = (dir_entry s.fs_device k).inode_sector →
      (s.mem.Ample → s'.mem.Ample) →
      s' = (t.setMem s'.mem).setFiles (t.files.alloc ⟨p, 0, false⟩) →
      FileOpenSpec s name (some s.files.next) s'

namespace FsInv

theorem filesys_open (h : FsInv held s) (name : CString) (e : DirEntry) :
    ∃ r s', s.filesys_open name e = some (r, s') ∧ FileOpenSpec s name r s' ∧ FsInv held s' := by
  rcases h.dir_open_root with ⟨dir, s₁, hroot, hspec₁, hinv₁⟩
  cases dir with
  | none =>
      have hbad : ¬ s.mem.Ample := fun hs => hspec₁.ok.2 hs.rootOk rfl
      refine ⟨none, s₁.setMem s₁.mem.malloc.2, ?_, FileOpenSpec.no_memory hbad ?_, hinv₁.set_mem _⟩
      · simp only [FileSys.filesys_open, hroot, FileSys.dir_close, FileSys.inode_close,
          file_open_none, Option.bind_eq_bind, Option.bind_some]
      · exact hspec₁.quiet.same_files.trans (SameFiles.of_eq rfl rfl rfl)
  | some p =>
      replace hinv₁ : FsInv (p :: held) s₁ := hinv₁
      have hlive₁ := hspec₁.live (Option.some_ne_none p)
      rcases hspec₁.opened p rfl with ⟨inode, hp, hsector⟩
      rcases hinv₁.dir_lookup hp hsector name e with ⟨r, s₂, hlookup, hspec₂, hinv₂⟩
      have hentry : ∀ l, dir_entry s₁.fs_device l = dir_entry s.fs_device l := fun l => by
        rw [hspec₁.fs_device]
      cases r with
      | none =>
          have hq₂ : Quiet s₁ s₂ := by
            cases hspec₂ with
            | absent _ hample =>
                exact Quiet.of_mem hample
            | found _ _ hample hopen =>
                exact (Quiet.of_mem hample).trans hopen.quiet fun _ hj => hj
          have hlive₂ : ∀ j, s₁.Live j → s₂.Live j := by
            cases hspec₂ with
            | absent =>
                exact fun _ hj => hj
            | found _ _ _ hopen =>
                exact fun _ hj => hopen.live hj
          have hp₂ : ∃ inode', s₂.open_inodes.get p = some inode' ∧
              inode'.sector = ROOT_DIR_SECTOR := by
            cases hspec₂ with
            | absent =>
                exact ⟨inode, hp, hsector⟩
            | @found k mem _ _ _ _ _ hopen =>
                rcases hopen.get_of_get (s := s₁.setMem mem) hp with ⟨inode', hp', hsame⟩
                exact ⟨inode', hp', hsame.trans hsector⟩
          rcases hp₂ with ⟨inode', hp', hsector'⟩
          replace hinv₂ : FsInv (p :: held) s₂ := hinv₂
          rcases hinv₂.close_root List.mem_cons_self hp' hsector' with
            ⟨s₃, hclose, hinv₃, hq₃, _⟩
          rw [List.erase_cons_head] at hinv₃
          refine ⟨none, s₃.setMem s₃.mem.malloc.2, ?_, FileOpenSpec.absent (fun hs k hk => ?_) ?_,
            hinv₃.set_mem _⟩
          · simp only [FileSys.filesys_open, hroot, hlookup, FileSys.dir_close, hclose,
              file_open_none, Option.bind_eq_bind, Option.bind_some]
          · have hs₁ := hspec₁.quiet.ample hs
            cases hspec₂ with
            | absent hnone =>
                have hall := (FileSys.scanned_none hs₁ hnone).2 k hk
                rwa [hentry] at hall
            | found _ _ hample hopen =>
                exact absurd (hample hs₁) hopen.not_ample
          · exact ((hspec₁.quiet.trans hq₂ hlive₁).trans hq₃ fun j hj =>
              hlive₂ j (hlive₁ j hj)).set_mem fun hs => hs.tail
      | some q =>
          cases hspec₂ with
          | @found k mem _ _ hk hname hample hopen =>
              rcases hopen.get with ⟨inode₂, hq, hsector₂⟩
              rcases hopen.get_of_get (s := s₁.setMem mem) hp with ⟨dir, hp₂, hdir⟩
              have hnamed := (named_sector hk hname).1
              rw [hentry] at hname hsector₂
              -- the directory is not one of its own files
              have hpq : q ≠ p := by
                rintro rfl
                obtain rfl : dir = inode₂ := Option.some.inj (hp₂.symm.trans hq)
                refine (hinv₁.dir.named_file _ hnamed).2 ?_
                rw [hentry, ← hsector₂, hdir, hsector]
              have hlive₂ : ∀ j, s.Live j → s₂.Live j := fun j hj =>
                hopen.live (s := s₁.setMem mem) (hlive₁ j hj)
              have hq₂ : Quiet s s₂ :=
                (hspec₁.quiet.set_mem hample).trans hopen.quiet hlive₁
              replace hinv₂ : FsInv (q :: p :: held) s₂ := hinv₂
              rcases hinv₂.close_root (List.mem_cons_of_mem _ List.mem_cons_self) hp₂
                (hdir.trans hsector) with ⟨s₃, hclose, hinv₃, hq₃, hcspec, _⟩
              rw [List.erase_cons_tail (by simpa using hpq), List.erase_cons_head] at hinv₃
              have hq' : s₃.open_inodes.get q = some inode₂ := (hcspec.get_of_ne hpq).trans hq
              have hquiet : Quiet s s₃ := hq₂.trans hq₃ hlive₂
              have heq : s.filesys_open name e = s₃.file_open (some q) := by
                simp only [FileSys.filesys_open, hroot, hlookup, FileSys.dir_close, hclose,
                  Option.bind_eq_bind, Option.bind_some]
              rcases hinv₃.file_open hq' List.mem_cons_self with ⟨r, s', hfile, hinv', hcases⟩
              rw [List.erase_cons_head] at hinv'
              refine ⟨r, s', heq.trans hfile, ?_, hinv'⟩
              rcases hcases with ⟨_, rfl, rfl⟩ | ⟨hbad, rfl, hclose'⟩
              · rw [hquiet.same_files.1]
                refine FileOpenSpec.opened hk hname hquiet hq' hsector₂
                  (fun hs => (hquiet.ample hs).tail) ?_
                rw [hquiet.same_files.1]
                rfl
              · refine FileOpenSpec.no_memory (fun hs => ?_) ?_
                · rw [hquiet.ample hs 0] at hbad
                  cases hbad
                · exact (hquiet.set_mem fun hs => hs.tail).same_files.trans
                    ((hinv₃.set_mem s₃.mem.malloc.2).quiet_close hq' List.mem_cons_self hclose').same_files

end FsInv

/-! ## Removing a file -/

/-- A file that has been removed. -/
structure Removed (s : FileSys) (k : Nat) (s' : FileSys) : Prop where
  same_files : SameFiles s s'
  bit_cnt : s'.free_map.bit_cnt = s.free_map.bit_cnt
  ample : s.mem.Ample → s'.mem.Ample
  map_on_disk : s.mem.Ample → s.MapOnDisk → s'.MapOnDisk
  kept : ∀ j, s.Live j → j ≠ FREE_MAP_SECTOR → j ≠ ROOT_DIR_SECTOR → Kept s.fs_device s'.fs_device j
  entry : ∀ l, l < ROOT_ENTRIES → dir_entry s'.fs_device l =
    if l = k then (dir_entry s.fs_device k).unused else dir_entry s.fs_device l

/-- What `filesys_remove` does. -/
inductive FileRemoveSpec (s : FileSys) (name : CString) : Bool → FileSys → Prop
  | absent {s' : FileSys} :
      (s.mem.Ample → ∀ k, k < ROOT_ENTRIES → FileSys.names name (dir_entry s.fs_device k) = false) →
      Quiet s s' → FileRemoveSpec s name false s'
  | no_memory {s' : FileSys} : ¬ s.mem.Ample → SameFiles s s' → FileRemoveSpec s name false s'
  | removed {k : Nat} {s' : FileSys} :
      k < ROOT_ENTRIES → FileSys.names name (dir_entry s.fs_device k) = true → Removed s k s' →
      FileRemoveSpec s name true s'

/-- What `dir_remove` does to the disk and the files. -/
theorem FsInv.removed_of_spec {name : CString} {k q : Nat} {mem mem' : Mallocs} {s₁ : FileSys}
    (h : FsInv held s) (hk : k < ROOT_ENTRIES)
    (hname : FileSys.names name (dir_entry s.fs_device k) = true)
    (hmem : s.mem.Ample → mem.Ample ∧ mem'.Ample)
    (hopen : OpenSpec (s.setMem mem) (dir_entry s.fs_device k).inode_sector (some q) s₁)
    (hq : s₁.open_inodes.get q = some inode)
    (hclose : CloseSpec ((((s₁.setDevice (entry_patch s.fs_device k
          (dir_entry s.fs_device k).unused)).setMem mem').setInodes
            (s₁.open_inodes.set q { inode with removed := true })))
        q { inode with removed := true } s') : Removed s k s' := by
  rcases named_sector hk hname with ⟨hnamed, huse, _⟩
  rcases h.dir.named_file _ hnamed with ⟨hmapne, hrootne⟩
  have hinv₁ : FsInv (q :: held) s₁ :=
    (h.set_mem mem).of_openSpec (Or.inr (Or.inr (Or.inl hnamed))) hopen
  have hdev : s₁.fs_device = s.fs_device := hopen.fs_device
  have hunused := (hinv₁.set_entry (k := k) (e := (dir_entry s.fs_device k).unused) hk
    (dir_entry_sector_lt _ _) fun hused => by cases hused).set_mem mem'
  rw [hdev] at hunused
  have hsector : inode.sector = (dir_entry s.fs_device k).inode_sector := by
    rcases hopen.get with ⟨inode', hq', hsector⟩
    obtain rfl : inode = inode' := Option.some.inj (hq.symm.trans hq')
    exact hsector
  have hgone := h.not_named_of_unused hk huse
  have hremoved := hunused.set_removed hq (by rw [hsector]; exact hgone)
    (by rw [hsector]; exact hmapne) (by rw [hsector]; exact hrootne)
  have hquiet := hremoved.quiet_close (Store.get_set_self hq) List.mem_cons_self hclose
  have hself := h.layout.self _ s.live_root
  -- the data of the directory are all that is written before the inode is closed
  have hpatch : ∀ j, s.Live j → j ≠ ROOT_DIR_SECTOR → Kept s.fs_device
      (entry_patch s.fs_device k (dir_entry s.fs_device k).unused) j := by
    intro j hj hne a ha
    refine entry_patch_sectors h.dir hk fun hmem' => ?_
    exact h.layout.apart j _ a hj s.live_root hne ha (Or.inr hmem')
  have hentry := dir_entry_patch (e := (dir_entry s.fs_device k).unused) h.dir hself
    (dir_entry_sector_lt _ _) hk
  -- an inode that has lost its name is still open
  have hlive : ∀ j, s.Live j → ((((s₁.setDevice (entry_patch s.fs_device k
      (dir_entry s.fs_device k).unused)).setMem mem').setInodes
        (s₁.open_inodes.set q { inode with removed := true }))).Live j := by
    intro j hj
    rcases hj with hj | hj | ⟨l, hl, huse', hsector'⟩ | ⟨p, i, hp, hsector'⟩
    · exact Or.inl hj
    · exact Or.inr (Or.inl hj)
    · by_cases hlk : l = k
      · subst hlk
        exact Or.inr (Or.inr (Or.inr ⟨q, _, Store.get_set_self hq, hsector.trans hsector'⟩))
      · refine Or.inr (Or.inr (Or.inl ⟨l, hl, ?_⟩))
        rw [FileSys.setInodes_fs_device, FileSys.setMem_fs_device, FileSys.setDevice_fs_device,
          hentry, if_neg hlk]
        exact ⟨huse', hsector'⟩
    · rcases hopen.get_of_get (s := s.setMem mem) hp with ⟨i', hp', hsame⟩
      refine Or.inr (Or.inr (Or.inr ?_))
      by_cases hpq : p = q
      · subst hpq
        obtain rfl : inode = i' := Option.some.inj (hq.symm.trans hp')
        exact ⟨p, _, Store.get_set_self hq, hsame.trans hsector'⟩
      · exact ⟨p, i', (Store.get_set_of_ne hpq).trans hp', hsame.trans hsector'⟩
  constructor
  · have hfirst : SameFiles s s₁ :=
      (@SameFiles.of_eq s (s.setMem mem) rfl rfl rfl).trans hopen.same_files
    refine (hfirst.trans ?_).trans hquiet.same_files
    refine ⟨rfl, rfl, fun f file i _ hi => ?_⟩
    by_cases hfq : file.inode = q
    · rw [hfq] at hi ⊢
      obtain rfl : inode = i := Option.some.inj (hq.symm.trans hi)
      exact ⟨_, Store.get_set_self hq, rfl⟩
    · exact ⟨i, (Store.get_set_of_ne hfq).trans hi, rfl⟩
  · exact hquiet.bit_cnt.trans hopen.quiet.bit_cnt
  · exact fun hs => hquiet.ample (hmem hs).2
  · intro hs hdisk
    have hpatched : ((((s₁.setDevice (entry_patch s.fs_device k
        (dir_entry s.fs_device k).unused)).setMem mem').setInodes
          (s₁.open_inodes.set q { inode with removed := true }))).MapOnDisk := by
      refine hdisk.congr h.map_inv (hpatch _ s.live_free_map (by decide)) hopen.quiet.bit_cnt fun j => ?_
      rw [FileSys.setInodes_free_map, FileSys.setMem_free_map, FileSys.setDevice_free_map, hopen.free_map,
        FileSys.setMem_free_map]
    exact hquiet.map_on_disk (hmem hs).2 hpatched
  · intro j hj hne hne'
    exact (hpatch j hj hne').trans (hquiet.kept j (hlive j hj) hne)
  · intro l hl
    rw [(hquiet.kept _ (FileSys.live_root _) (by decide)).dir_entry hremoved.dir hl]
    exact hentry l

namespace FsInv

theorem filesys_remove (h : FsInv held s) (name : CString) (e : DirEntry) :
    ∃ r s', s.filesys_remove name e = some (r, s') ∧ FileRemoveSpec s name r s' ∧ FsInv held s' := by
  rcases h.dir_open_root with ⟨dir, s₁, hroot, hspec₁, hinv₁⟩
  cases dir with
  | none =>
      have hbad : ¬ s.mem.Ample := fun hs => hspec₁.ok.2 hs.rootOk rfl
      refine ⟨false, s₁, ?_, FileRemoveSpec.no_memory hbad hspec₁.quiet.same_files, hinv₁⟩
      simp only [FileSys.filesys_remove, hroot, FileSys.dir_close, FileSys.inode_close,
        Option.bind_eq_bind, Option.bind_some]
      rfl
  | some p =>
      replace hinv₁ : FsInv (p :: held) s₁ := hinv₁
      have hlive₁ := hspec₁.live (Option.some_ne_none p)
      rcases hspec₁.opened p rfl with ⟨inode, hp, hsector⟩
      rcases hinv₁.dir_remove hp hsector name e with ⟨r, s₂, hremove, hspec₂, hinv₂, dir, hp₂, hdir⟩
      rcases hinv₂.close_root List.mem_cons_self hp₂ hdir with
        ⟨s₃, hclose, hinv₃, hq₃, _, hdev₃, hmap₃, hmem₃⟩
      rw [List.erase_cons_head] at hinv₃
      have hentry : ∀ l, dir_entry s₁.fs_device l = dir_entry s.fs_device l := fun l => by
        rw [hspec₁.fs_device]
      refine ⟨r, s₃, ?_, ?_, hinv₃⟩
      · simp only [FileSys.filesys_remove, hroot, hremove, FileSys.dir_close, hclose,
          Option.bind_eq_bind, Option.bind_some]
        rfl
      · cases hspec₂ with
        | absent hnone hample =>
            refine FileRemoveSpec.absent (fun hs k hk => ?_) ?_
            · have hall := (FileSys.scanned_none (hspec₁.quiet.ample hs) hnone).2 k hk
              rwa [hentry] at hall
            · exact (hspec₁.quiet.set_mem hample).trans hq₃ hlive₁
        | no_memory hbad hsame =>
            exact FileRemoveSpec.no_memory (fun hs => hbad (hspec₁.quiet.ample hs))
              ((hspec₁.quiet.same_files.trans hsame).trans hq₃.same_files)
        | @removed k q mem mem' s₄ _ inode₁ hk hname hample hopen hq hcspec =>
            have hremoved := hinv₁.removed_of_spec hk hname hample hopen hq hcspec
            rw [hentry] at hname
            refine FileRemoveSpec.removed hk hname ?_
            constructor
            · exact (hspec₁.quiet.same_files.trans hremoved.same_files).trans hq₃.same_files
            · rw [hmap₃]
              exact hremoved.bit_cnt.trans hspec₁.quiet.bit_cnt
            · rw [hmem₃]
              exact fun hs => hremoved.ample (hspec₁.quiet.ample hs)
            · intro hs hdisk
              rw [FileSys.MapOnDisk, hdev₃, hmap₃]
              exact hremoved.map_on_disk (hspec₁.quiet.ample hs) (hspec₁.quiet.map_on_disk hs hdisk)
            · intro j hj hmapne hrootne
              rw [hdev₃, ← hspec₁.fs_device]
              exact hremoved.kept j (hlive₁ j hj) hmapne hrootne
            · intro l hl
              rw [hdev₃, ← hspec₁.fs_device]
              exact hremoved.entry l hl

end FsInv

/-! ## Handles -/

/-- The handles that callers have are not on the free map or on the root directory. -/
def UserFiles (s : FileSys) : Prop :=
  ∀ f file inode, s.free_map_file ≠ some f → s.files.get f = some file →
    s.open_inodes.get file.inode = some inode →
      inode.sector ≠ FREE_MAP_SECTOR ∧ inode.sector ≠ ROOT_DIR_SECTOR

theorem UserFiles.of_same (h : UserFiles s) (hinv : FsInv held s) (hsame : SameFiles s s') :
    UserFiles s' := by
  intro f file inode hmap hf hp
  rw [hsame.2.1] at hmap
  rw [hsame.1] at hf
  rcases (hinv.opened.file_open f file hf).2 with ⟨inode₀, hp₀⟩
  rcases hsame.2.2 f file inode₀ hf hp₀ with ⟨inode', hp', hsector⟩
  obtain rfl : inode = inode' := Option.some.inj (hp.symm.trans hp')
  rw [hsector]
  exact h f file inode₀ hmap hf hp₀

/-- A file is opened on an inode that a caller may have. -/
theorem UserFiles.alloc (h : UserFiles s) (hp : s.open_inodes.get p = some inode)
    (hsector : inode.sector ≠ FREE_MAP_SECTOR ∧ inode.sector ≠ ROOT_DIR_SECTOR) (pos : Nat) :
    UserFiles (s.setFiles (s.files.alloc ⟨p, pos, false⟩)) := by
  intro f file inode' hmap hf hp'
  rcases Store.get_alloc_eq_some.1 hf with ⟨_, rfl⟩ | hf
  · obtain rfl : inode = inode' := Option.some.inj (hp.symm.trans hp')
    exact hsector
  · exact h f file inode' hmap hf hp'

/-- The position of a file changes. -/
theorem UserFiles.set (h : UserFiles s) (hf : s.files.get f = some file) (pos : Nat) :
    UserFiles (s.setFiles (s.files.set f { file with pos := pos })) := by
  intro g file' inode hmap hg hp
  by_cases hgf : g = f
  · subst hgf
    obtain rfl := Option.some.inj ((Store.get_set_self hf).symm.trans hg)
    exact h g file inode hmap hf hp
  · exact h g file' inode hmap ((Store.get_set_of_ne hgf).symm.trans hg) hp

/-- A file is closed. -/
theorem UserFiles.erase (h : UserFiles s) (f : Nat) : UserFiles (s.setFiles (s.files.erase f)) :=
  fun g file inode hmap hg hp => h g file inode hmap (Store.get_erase_eq_some.1 hg).2 hp

/-- An open file of a caller, with its inode. -/
structure Handle (s : FileSys) (f : Nat) (file : File) (inode : Inode) : Prop where
  get_file : s.files.get f = some file
  get_inode : s.open_inodes.get file.inode = some inode
  user : s.free_map_file ≠ some f

theorem FsInv.handle (h : FsInv held s) (hf : s.files.get f = some file)
    (hmap : s.free_map_file ≠ some f) : ∃ inode, Handle s f file inode := by
  rcases (h.opened.file_open f file hf).2 with ⟨inode, hp⟩
  exact ⟨inode, hf, hp, hmap⟩

/-! ## Reading and writing -/

namespace FsInv

/-- The data of a caller's file change. -/
theorem write_data (h : FsInv held s) (huser : UserFiles s) (hf : Handle s f file inode) {ofs : Nat}
    {bs : Bytes} (hfit : ofs + bs.length ≤ (disk_inode s.fs_device inode.sector).length) :
    FsInv held (s.setDevice (data_patch s.fs_device inode.sector ofs bs)) ∧
      ∀ j, s.Live j → j ≠ inode.sector →
        Kept s.fs_device (data_patch s.fs_device inode.sector ofs bs) j := by
  have hlive := opened_live hf.get_inode
  have hlen := h.layout.length_lt _ hlive
  have hne := huser f file inode hf.user hf.get_file hf.get_inode
  have hkept : ∀ j, s.Live j → j ≠ inode.sector →
      Kept s.fs_device (data_patch s.fs_device inode.sector ofs bs) j := by
    intro j hj hji a ha
    refine data_patch_sectors hlen hfit fun hmem => ?_
    exact h.layout.apart j _ a hj hlive hji ha (Or.inr hmem)
  refine ⟨h.change ⟨rfl, rfl, rfl, rfl, rfl, rfl, fun j hj => ?_, fun a ha => ?_, h.layout.marked⟩,
    hkept⟩
  · by_cases hji : j = inode.sector
    · subst hji
      exact data_patch_sectors hlen hfit (h.layout.self _ hlive)
    · exact (hkept j hj hji).self
  · exact hkept _ s.live_root (Ne.symm hne.2) a (Or.inr ha)

theorem file_read (h : FsInv held s) (hf : Handle s f file inode) (size : Nat) :
    s.file_read f size =
      some (window (data_byte s.fs_device inode.sector) file.pos
          (moved s.mem file.pos (in_file inode.data size file.pos)),
        (s.setMem (mem_after s.mem file.pos (in_file inode.data size file.pos))).setFiles
          (s.files.set f { file with
            pos := file.pos + moved s.mem file.pos (in_file inode.data size file.pos) })) := by
  simp only [FileSys.file_read, hf.get_file, h.inode_read_at hf.get_inode, Option.bind_eq_bind,
    Option.bind_some, length_window]
  rfl

theorem file_write (h : FsInv held s) (hf : Handle s f file inode) (buffer : Bytes) :
    s.file_write f buffer =
      some (moved s.mem file.pos (in_file inode.data buffer.length file.pos),
        ((s.setDevice (data_patch s.fs_device inode.sector file.pos
            (buffer.take (moved s.mem file.pos (in_file inode.data buffer.length file.pos))))).setMem
          (mem_after s.mem file.pos (in_file inode.data buffer.length file.pos))).setFiles
            (s.files.set f { file with
              pos := file.pos + moved s.mem file.pos (in_file inode.data buffer.length file.pos) })) := by
  simp only [FileSys.file_write, hf.get_file, h.inode_write_at hf.get_inode, Option.bind_eq_bind,
    Option.bind_some]
  rfl

/-- What is written fits into the file. -/
theorem write_fits (h : FsInv held s) (hp : s.open_inodes.get p = some inode) (buffer : Bytes)
    (ofs : Nat) :
    (buffer.take (moved s.mem ofs (in_file inode.data buffer.length ofs))).length = 0 ∨
      ofs + (buffer.take (moved s.mem ofs (in_file inode.data buffer.length ofs))).length ≤
        (disk_inode s.fs_device inode.sector).length := by
  have hle := moved_le s.mem ofs (in_file inode.data buffer.length ofs)
  rw [h.in_file_eq hp] at hle ⊢
  rw [List.length_take]
  omega

/-- A write keeps the invariant. -/
theorem written (h : FsInv held s) (huser : UserFiles s) (hf : Handle s f file inode) (buffer : Bytes) :
    FsInv held (s.setDevice (data_patch s.fs_device inode.sector file.pos
        (buffer.take (moved s.mem file.pos (in_file inode.data buffer.length file.pos))))) ∧
      ∀ j, s.Live j → j ≠ inode.sector → Kept s.fs_device (data_patch s.fs_device inode.sector file.pos
        (buffer.take (moved s.mem file.pos (in_file inode.data buffer.length file.pos)))) j := by
  rcases h.write_fits hf.get_inode buffer file.pos with hzero | hfit
  · rw [List.length_eq_zero_iff.1 hzero, data_patch, Block.patch_nil]
    exact ⟨h, fun j _ _ => Kept.refl _ _⟩
  · exact h.write_data huser hf hfit

theorem file_read_inv (h : FsInv held s) (huser : UserFiles s) (hf : Handle s f file inode)
    (size : Nat) :
    ∃ bs s', s.file_read f size = some (bs, s') ∧ FsInv held s' ∧ UserFiles s' :=
  ⟨_, _, h.file_read hf size, (h.set_mem _).set_file hf.get_file rfl rfl,
    huser.set hf.get_file _⟩

theorem file_write_inv (h : FsInv held s) (huser : UserFiles s) (hf : Handle s f file inode)
    (buffer : Bytes) :
    ∃ n s', s.file_write f buffer = some (n, s') ∧ FsInv held s' ∧ UserFiles s' :=
  ⟨_, _, h.file_write hf buffer,
    ((h.written huser hf buffer).1.set_mem _).set_file hf.get_file rfl rfl, huser.set hf.get_file _⟩

/-! ## Seeking, reopening and closing -/

theorem file_seek (hf : Handle s f file inode) (pos : Nat) :
    s.file_seek f pos = some (s.setFiles (s.files.set f { file with pos := pos })) := by
  have hassert : ASSERT ((pos : Int) ≥ 0) = some () := ASSERT_pos (Int.natCast_nonneg pos)
  simp only [FileSys.file_seek, hf.get_file, hassert, Option.bind_eq_bind, Option.bind_some,
    Int.toNat_natCast]
  rfl

end FsInv

/-- What `file_reopen` does. -/
inductive ReopenSpec (s : FileSys) (file : File) : Option Nat → FileSys → Prop
  | no_memory {s' : FileSys} :
      ¬ s.mem.Ample → SameFiles s s' → ReopenSpec s file none s'
  | opened {t s' : FileSys} {inode inode' : Inode} :
      Quiet s t → s.open_inodes.get file.inode = some inode →
      t.open_inodes.get file.inode = some inode' → inode'.sector = inode.sector →
      (s.mem.Ample → s'.mem.Ample) →
      s' = (t.setMem s'.mem).setFiles (t.files.alloc ⟨file.inode, 0, false⟩) →
      ReopenSpec s file (some s.files.next) s'

namespace FsInv

theorem file_reopen (h : FsInv held s) (hf : Handle s f file inode) :
    ∃ r s', s.file_reopen f = some (r, s') ∧ ReopenSpec s file r s' ∧ FsInv held s' := by
  have hspec : OpenSpec s inode.sector (some file.inode) _ := OpenSpec.again hf.get_inode rfl
  have hinv := h.reopen hf.get_inode
  rcases hspec.get with ⟨inode', hp', hsector'⟩
  have hself := Store.get_set_self (a := { inode with open_cnt := inode.open_cnt + 1 }) hf.get_inode
  rcases hinv.file_open hself List.mem_cons_self with ⟨r, s', hopen, hinv', hcases⟩
  rw [List.erase_cons_head] at hinv'
  have heq : s.file_reopen f = (s.setInodes (s.open_inodes.set file.inode
      { inode with open_cnt := inode.open_cnt + 1 })).file_open (some file.inode) := by
    simp only [FileSys.file_reopen, hf.get_file, inode_reopen hf.get_inode, Option.bind_eq_bind,
      Option.bind_some]
  refine ⟨r, s', heq.trans hopen, ?_, hinv'⟩
  rcases hcases with ⟨_, rfl, rfl⟩ | ⟨hbad, rfl, hclose⟩
  · exact ReopenSpec.opened hspec.quiet hf.get_inode hself rfl (fun hs => hs.tail) rfl
  · refine ReopenSpec.no_memory (fun hs => ?_) ?_
    · have hgood := hs 0
      rw [show s.mem 0 = false from hbad] at hgood
      cases hgood
    · exact (hspec.quiet.set_mem fun hs => hs.tail).same_files.trans
        ((hinv.set_mem s.mem.malloc.2).quiet_close hself List.mem_cons_self hclose).same_files

end FsInv

end Berk162
