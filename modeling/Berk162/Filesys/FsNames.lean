import Berk162.Filesys.FsDir

/-!
# FsNames — adding, removing and looking up names, under the invariant

`Fresh s i` says that the inode in sector `i` could be given a name.  `set_entry` is the rule for a
change of one entry of the directory; `dir_add` may put its entry over another one that is in use,
since a loop that has no memory ends like one that has found what it looked for.
-/

namespace Berk162

/-- An inode that no live inode shares a sector with. -/
structure Fresh (s : FileSys) (i : Nat) : Prop where
  length_lt : (disk_inode s.fs_device i).length < OFF_T
  inside : (data_extent s.fs_device i).start + (data_extent s.fs_device i).len ≤ s.free_map.bit_cnt
  sector_lt : i < s.free_map.bit_cnt
  marked : ∀ a, Cell s.fs_device i a → s.free_map.test a = true
  self : i ∉ data_extent s.fs_device i
  apart : ∀ j a, s.Live j → Cell s.fs_device j a → ¬ Cell s.fs_device i a

variable {s s' : FileSys} {held : List Nat} {p k i : Nat} {inode : Inode} {e : DirEntry}

theorem Fresh.not_live (h : Fresh s i) : ¬ s.Live i :=
  fun hi => h.apart i i hi (Or.inl rfl) (Or.inl rfl)

/-- A fresh inode becomes a live one. -/
theorem Layout.insert {P : Nat → Prop} (h : Layout s.fs_device s.free_map s.Live)
    (hfresh : ∀ i, P i → Fresh s i) (hone : ∀ i j, P i → P j → i = j) :
    Layout s.fs_device s.free_map fun i => s.Live i ∨ P i where
  size_eq := h.size_eq
  type_ne := h.type_ne
  small := h.small
  length_lt i hi := hi.elim (h.length_lt i) fun hp => (hfresh i hp).length_lt
  inside i hi := hi.elim (h.inside i) fun hp => (hfresh i hp).inside
  sector_lt i hi := hi.elim (h.sector_lt i) fun hp => (hfresh i hp).sector_lt
  marked i a hi := hi.elim (h.marked i a) fun hp => (hfresh i hp).marked a
  self i hi := hi.elim (h.self i) fun hp => (hfresh i hp).self
  apart i j a hi hj hij hia hja := by
    rcases hi with hi | hi
    · rcases hj with hj | hj
      · exact h.apart i j a hi hj hij hia hja
      · exact (hfresh j hj).apart i a hi hia hja
    · rcases hj with hj | hj
      · exact (hfresh i hi).apart j a hj hja hia
      · exact hij (hone i j hi hj)

/-! ## Changing an entry -/

section
variable (h : FsInv held s)
include h

theorem FsInv.not_mem_root (hi : s.Live i) : i ∉ data_extent s.fs_device ROOT_DIR_SECTOR := by
  intro hmem
  by_cases hroot : i = ROOT_DIR_SECTOR
  · subst hroot
    exact h.layout.self _ hi hmem
  · exact h.layout.apart i _ i hi s.live_root hroot (Or.inl rfl) (Or.inr hmem)

/-- Who is named after an entry has been changed. -/
theorem FsInv.named_entry_patch (hk : k < ROOT_ENTRIES) (he : e.inode_sector < WORD)
    (hi : Named (entry_patch s.fs_device k e) i) :
    Named s.fs_device i ∨ (e.in_use = true ∧ i = e.inode_sector) := by
  rcases hi with ⟨l, hl, huse, hsector⟩
  have hentry := dir_entry_patch h.dir (h.layout.self _ s.live_root) he hk l
  by_cases hlk : l = k
  · rw [hentry, if_pos hlk] at huse hsector
    exact Or.inr ⟨huse, hsector.symm⟩
  · rw [hentry, if_neg hlk] at huse hsector
    exact Or.inl ⟨l, hl, huse, hsector⟩

theorem FsInv.live_entry_patch (hk : k < ROOT_ENTRIES) (he : e.inode_sector < WORD)
    (hi : (s.setDevice (entry_patch s.fs_device k e)).Live i) :
    s.Live i ∨ (e.in_use = true ∧ i = e.inode_sector) := by
  rcases hi with hi | hi | hi | hi
  · exact Or.inl (Or.inl hi)
  · exact Or.inl (Or.inr (Or.inl hi))
  · exact (h.named_entry_patch hk he hi).imp_left fun hn => Or.inr (Or.inr (Or.inl hn))
  · exact Or.inl (Or.inr (Or.inr (Or.inr hi)))

/-- An entry changes: the new one is not in use, or it names a fresh inode. -/
theorem FsInv.set_entry (hk : k < ROOT_ENTRIES) (he : e.inode_sector < WORD)
    (hfresh : e.in_use = true → Fresh s e.inode_sector) :
    FsInv held (s.setDevice (entry_patch s.fs_device k e)) := by
  have hself := h.layout.self _ s.live_root
  have hentry := dir_entry_patch h.dir hself he hk
  have hfresh' : ∀ i, (e.in_use = true ∧ i = e.inode_sector) → Fresh s i := by
    rintro i ⟨huse, rfl⟩
    exact hfresh huse
  -- only the data of the root directory change
  have hsectors : ∀ i, (s.Live i ∨ (e.in_use = true ∧ i = e.inode_sector)) →
      (entry_patch s.fs_device k e).sectors i = s.fs_device.sectors i := by
    intro i hi
    refine entry_patch_sectors h.dir hk ?_
    rcases hi with hi | hi
    · exact h.not_mem_root hi
    · exact fun hmem => (hfresh' i hi).apart _ i s.live_root (Or.inr hmem) (Or.inl rfl)
  have hroot := disk_inode_congr (hsectors _ (Or.inl s.live_root))
  refine ⟨?_, ⟨?_, fun l m hl hm => ?_, fun i hi => ?_⟩, ?_, ⟨h.map_file.opened, ?_⟩⟩
  · have hlayout := h.layout.insert hfresh' (fun i j hi hj => hi.2.trans hj.2.symm)
    exact (@Layout.change _ (entry_patch s.fs_device k e) _ _ _ hlayout rfl rfl rfl hsectors
      hlayout.marked).mono fun i hi => h.live_entry_patch hk he hi
  · rw [FileSys.setDevice_fs_device, hroot]
    exact h.dir.root_length
  · -- a fresh inode is not the one of another entry
    have hone : ∀ m, m < ROOT_ENTRIES → e.in_use = true →
        (dir_entry s.fs_device m).in_use = true →
        (dir_entry s.fs_device m).inode_sector ≠ e.inode_sector := by
      intro m hm huse huse' heq
      exact (hfresh huse).not_live (Or.inr (Or.inr (Or.inl ⟨m, hm, huse', heq⟩)))
    rw [FileSys.setDevice_fs_device, hentry l, hentry m]
    by_cases hlk : l = k
    · by_cases hmk : m = k
      · intro _ _ _
        rw [hlk, hmk]
      · rw [if_pos hlk, if_neg hmk]
        intro huse huse' heq
        exact absurd heq.symm (hone m hm huse huse')
    · by_cases hmk : m = k
      · rw [if_neg hlk, if_pos hmk]
        intro huse' huse heq
        exact absurd heq (hone l hl huse huse')
      · rw [if_neg hlk, if_neg hmk]
        exact h.dir.entry_one l m hl hm
  · rcases h.named_entry_patch hk he hi with hi | hi
    · exact h.dir.named_file i hi
    · have hnot := (hfresh' i hi).not_live
      exact ⟨fun hzero => hnot (Or.inl hzero), fun hone => hnot (Or.inr (Or.inl hone))⟩
  · refine h.opened.change rfl rfl (fun i hi => hsectors i (Or.inl (Or.inr (Or.inr (Or.inr hi)))))
      fun q i hq hr hnamed => ?_
    rcases h.named_entry_patch hk he hnamed with hn | hn
    · exact (h.opened.removed q i hq hr).1 hn
    · exact (hfresh' _ hn).not_live (FsInv.opened_live hq)
  · rw [FileSys.setDevice_fs_device, disk_inode_congr (hsectors _ (Or.inl s.live_free_map))]
    exact h.map_file.length_eq

end

/-! ## Adding a name -/

/-- A string that fits is copied whole. -/
theorem DirEntry.str_fill (e : DirEntry) (name : CString) (i : Nat)
    (hlen : name.chars.length ≤ NAME_MAX) : (e.fill name.chars i).str = name.chars := by
  have hname := e.length_name
  have hmin : min name.chars.length (e.name.length - 1) = name.chars.length := by omega
  have hcopy : strlcpy e.name name.chars = name.chars ++ 0 :: e.name.drop (name.chars.length + 1) := by
    simp only [strlcpy, hmin, List.take_length]
    refine List.take_of_length_le ?_
    simp only [List.length_append, List.length_cons, List.length_drop]
    omega
  change c_chars (strlcpy e.name name.chars) = name.chars
  rw [hcopy, c_chars, List.takeWhile_append_of_pos]
  · simp
  · intro c hc
    refine decide_eq_true fun hzero => name.no_null ?_
    rwa [hzero] at hc

namespace FileSys

/-- The directory takes the name: it is one that a file may have, a search does not find it, and a
search for an entry that is not in use ends at one of the entries, with memory left to write it. -/
structure AddOk (s : FileSys) (name : CString) : Prop where
  ne_nil : name.chars ≠ []
  length_le : name.chars.length ≤ NAME_MAX
  absent : (s.scanned (names name)).1 = false
  slot : ((s.setMem (s.scanned (names name)).2.2).scanned fun e => !e.in_use).2.1 < ROOT_ENTRIES
  memory : ((s.setMem (s.scanned (names name)).2.2).scanned fun e => !e.in_use).2.2 0 = true

end FileSys

/-- What `dir_add` does. -/
inductive AddSpec (s : FileSys) (name : CString) (i : Nat) : Bool → FileSys → Prop
  | refused {mem : Mallocs} :
      ¬ s.AddOk name → (s.mem.Ample → mem.Ample) → AddSpec s name i false (s.setMem mem)
  | added {k : Nat} {e : DirEntry} {mem : Mallocs} :
      s.AddOk name → k < ROOT_ENTRIES → e.in_use = true → e.inode_sector = i →
      e.str = name.chars → (s.mem.Ample → (dir_entry s.fs_device k).in_use = false ∧ mem.Ample) →
      AddSpec s name i true ((s.setDevice (entry_patch s.fs_device k e)).setMem mem)

namespace FsInv

theorem dir_add (h : FsInv held s) (hp : s.open_inodes.get p = some inode)
    (hroot : inode.sector = ROOT_DIR_SECTOR) (name : CString) (i : Nat) (e : DirEntry) :
    ∃ r s', s.dir_add p name i e = some (r, s') ∧ AddSpec s name i r s' := by
  by_cases hbad : name.chars = [] ∨ name.chars.length > NAME_MAX
  · refine ⟨false, s, ?_, @AddSpec.refused _ _ _ s.mem (fun hok => ?_) id⟩
    · simp only [FileSys.dir_add, if_pos hbad]
      rfl
    · exact hbad.elim hok.ne_nil fun hlen => absurd hok.length_le (Nat.not_le.2 hlen)
  · have hlookup := h.lookup hp hroot name e
    cases hfound : (s.scanned (FileSys.names name)).1 with
    | true =>
        refine ⟨false, s.setMem (s.scanned (FileSys.names name)).2.2, ?_,
          AddSpec.refused (fun hok => ?_) fun hs => hs.scanned _⟩
        · simp only [FileSys.dir_add, if_neg hbad, hlookup, hfound, if_true, Option.bind_eq_bind,
            Option.bind_some]
          rfl
        · rw [hok.absent] at hfound
          cases hfound
    | false =>
        -- the second loop looks for an entry that is not in use
        have ht := h.set_mem (s.scanned (FileSys.names name)).2.2
        set t := s.setMem (s.scanned (FileSys.names name)).2.2 with htdef
        rcases @FsInv.scan_dir _ _ _ _ (fun e => !e.in_use) ht hp hroot e with ⟨e', hscan, _⟩
        have hwrite := (ht.set_mem (t.scanned fun e => !e.in_use).2.2).inode_write_entry hp hroot
          (t.scanned_le fun e => !e.in_use) (e'.fill name.chars i)
        have hadd : s.dir_add p name i e =
            ((t.setMem (t.scanned fun e => !e.in_use).2.2).inode_write_at p
              (e'.fill name.chars i).toBytes
              ((t.scanned fun e => !e.in_use).2.1 * sizeof_dir_entry)).bind fun r =>
                some (decide (r.1 = sizeof_dir_entry), r.2) := by
          simp only [FileSys.dir_add, if_neg hbad, hlookup, hfound, Bool.false_eq_true, if_false,
            Option.bind_eq_bind, Option.bind_some, hscan]
          rfl
        rw [hadd, hwrite, Option.bind_some]
        simp only [FileSys.setMem_mem]
        by_cases hslot : (t.scanned fun e => !e.in_use).2.1 < ROOT_ENTRIES ∧
            (t.scanned fun e => !e.in_use).2.2 0 = true
        · simp only [if_pos hslot]
          refine ⟨true, _, rfl, AddSpec.added
            ⟨fun hnil => hbad (Or.inl hnil), Nat.le_of_not_lt fun hlt => hbad (Or.inr hlt), hfound,
              hslot.1, hslot.2⟩ hslot.1 rfl rfl ?_ fun hs => ?_⟩
          · exact e'.str_fill name i (Nat.le_of_not_lt fun hlt => hbad (Or.inr hlt))
          · have ht' : t.mem.Ample := hs.scanned _
            refine ⟨?_, (ht'.scanned _).tail⟩
            cases hstop : (t.scanned fun e => !e.in_use).1 with
            | false =>
                exact absurd (FileSys.scanned_none ht' hstop).1 (Nat.ne_of_lt hslot.1)
            | true =>
                exact Bool.not_eq_true' _ ▸ (FileSys.scanned_found hstop).2
        · simp only [if_neg hslot]
          refine ⟨false, _, rfl, AddSpec.refused (fun hok => hslot ⟨hok.slot, hok.memory⟩) fun hs => ?_⟩
          have ht' : t.mem.Ample := hs.scanned _
          split
          · exact (ht'.scanned _).tail
          · exact ht'.scanned _

end FsInv

/-! ## Looking a name up -/

theorem FsInv.named_sector {name : CString} (hk : k < ROOT_ENTRIES)
    (hname : FileSys.names name (dir_entry s.fs_device k) = true) :
    Named s.fs_device (dir_entry s.fs_device k).inode_sector ∧
      (dir_entry s.fs_device k).in_use = true ∧ (dir_entry s.fs_device k).str = name.chars := by
  rw [FileSys.names, Bool.and_eq_true, beq_iff_eq] at hname
  exact ⟨⟨k, hk, hname.1, rfl⟩, hname.1, hname.2.symm⟩

/-- What `dir_lookup` does. -/
inductive LookupSpec (s : FileSys) (name : CString) : Option Nat → FileSys → Prop
  | absent {mem : Mallocs} :
      (s.scanned (FileSys.names name)).1 = false → (s.mem.Ample → mem.Ample) →
      LookupSpec s name none (s.setMem mem)
  | found {k : Nat} {mem : Mallocs} {r : Option Nat} {s' : FileSys} :
      k < ROOT_ENTRIES → FileSys.names name (dir_entry s.fs_device k) = true →
      (s.mem.Ample → mem.Ample) →
      OpenSpec (s.setMem mem) (dir_entry s.fs_device k).inode_sector r s' →
      LookupSpec s name r s'

namespace FsInv

theorem dir_lookup (h : FsInv held s) (hp : s.open_inodes.get p = some inode)
    (hroot : inode.sector = ROOT_DIR_SECTOR) (name : CString) (e : DirEntry) :
    ∃ r s', s.dir_lookup p name e = some (r, s') ∧ LookupSpec s name r s' ∧
      FsInv (r.toList ++ held) s' := by
  have hlookup := h.lookup hp hroot name e
  have hmem := h.set_mem (s.scanned (FileSys.names name)).2.2
  cases hfound : (s.scanned (FileSys.names name)).1 with
  | false =>
      refine ⟨none, _, ?_, LookupSpec.absent hfound fun hs => hs.scanned _, hmem⟩
      simp only [FileSys.dir_lookup, hlookup, hfound, Bool.false_eq_true, if_false,
        Option.bind_eq_bind, Option.bind_some]
      rfl
  | true =>
      rcases FileSys.scanned_found hfound with ⟨hk, hname⟩
      rcases hmem.inode_open (Or.inr (Or.inr (Or.inl (named_sector hk hname).1))) with
        ⟨r, s', hopen, hspec, hinv⟩
      refine ⟨r, s', ?_, LookupSpec.found hk hname (fun hs => hs.scanned _) hspec, hinv⟩
      simp only [FileSys.dir_lookup, hlookup, hfound, if_true, Option.bind_eq_bind, Option.bind_some]
      exact hopen

end FsInv

/-! ## What is left alone -/

/-- The open files have the inodes they had. -/
def SameFiles (s s' : FileSys) : Prop :=
  s'.files = s.files ∧ s'.free_map_file = s.free_map_file ∧
    ∀ f file inode, s.files.get f = some file → s.open_inodes.get file.inode = some inode →
      ∃ inode', s'.open_inodes.get file.inode = some inode' ∧ inode'.sector = inode.sector

theorem SameFiles.of_eq (hfiles : s'.files = s.files) (hmap : s'.free_map_file = s.free_map_file)
    (hopen : s'.open_inodes = s.open_inodes) : SameFiles s s' :=
  ⟨hfiles, hmap, fun _ _ inode _ hp => ⟨inode, by rwa [hopen], rfl⟩⟩

theorem SameFiles.trans (h : SameFiles s s') (h' : SameFiles s' t) : SameFiles s t := by
  refine ⟨h'.1.trans h.1, h'.2.1.trans h.2.1, fun f file inode hf hp => ?_⟩
  rcases h.2.2 f file inode hf hp with ⟨inode', hp', hsector⟩
  rcases h'.2.2 f file inode' (by rwa [h.1]) hp' with ⟨inode'', hp'', hsector'⟩
  exact ⟨inode'', hp'', hsector'.trans hsector⟩

theorem OpenSpec.fs_device {sector : Nat} {r : Option Nat} (h : OpenSpec s sector r s') :
    s'.fs_device = s.fs_device := by
  cases h with
  | again | no_memory | first =>
      rfl

theorem OpenSpec.free_map {sector : Nat} {r : Option Nat} (h : OpenSpec s sector r s') :
    s'.free_map = s.free_map := by
  cases h with
  | again | no_memory | first =>
      rfl

theorem OpenSpec.ample {sector : Nat} {r : Option Nat} (h : OpenSpec s sector r s')
    (hs : s.mem.Ample) : s'.mem.Ample := by
  cases h with
  | again =>
      exact hs
  | no_memory | first =>
      exact hs.tail

theorem OpenSpec.not_ample {sector : Nat} (h : OpenSpec s sector none s') : ¬ s.mem.Ample := by
  cases h with
  | no_memory _ hmem =>
      intro hs
      rw [hs 0] at hmem
      cases hmem

/-- The inode that is opened. -/
theorem OpenSpec.get {sector : Nat} (h : OpenSpec s sector (some p) s') :
    ∃ inode, s'.open_inodes.get p = some inode ∧ inode.sector = sector := by
  cases h with
  | again hp hsector =>
      exact ⟨_, Store.get_set_self hp, hsector⟩
  | first =>
      exact ⟨_, Store.get_alloc_self, rfl⟩

/-- The inodes that were open still are. -/
theorem OpenSpec.get_of_get {sector : Nat} {r : Option Nat} (h : OpenSpec s sector r s')
    (hp : s.open_inodes.get p = some inode) :
    ∃ inode', s'.open_inodes.get p = some inode' ∧ inode'.sector = inode.sector := by
  cases h with
  | no_memory =>
      exact ⟨inode, hp, rfl⟩
  | first =>
      exact ⟨inode, Store.get_alloc_eq_some.2 (Or.inr hp), rfl⟩
  | @again q inode₀ hq hsector =>
      by_cases hpq : p = q
      · subst hpq
        obtain rfl : inode₀ = inode := Option.some.inj (hq.symm.trans hp)
        exact ⟨_, Store.get_set_self hq, rfl⟩
      · exact ⟨inode, (Store.get_set_of_ne hpq).trans hp, rfl⟩

/-- The other inodes that are open. -/
theorem CloseSpec.get_of_ne {q : Nat} (h : CloseSpec s q inode s') (hne : p ≠ q) :
    s'.open_inodes.get p = s.open_inodes.get p := by
  cases h with
  | kept =>
      exact Store.get_set_of_ne hne
  | last =>
      exact Store.get_erase_of_ne hne
  | freed _ _ hfirst hsecond =>
      rw [hsecond.step.open_inodes, hfirst.step.open_inodes]
      exact Store.get_erase_of_ne hne

theorem OpenSpec.same_files {sector : Nat} {r : Option Nat} (h : OpenSpec s sector r s') :
    SameFiles s s' := by
  have hget : ∀ p inode, s.open_inodes.get p = some inode →
      ∃ inode', s'.open_inodes.get p = some inode' ∧ inode'.sector = inode.sector :=
    fun p inode hp => h.get_of_get hp
  cases h with
  | again | no_memory | first =>
      exact ⟨rfl, rfl, fun f file inode _ hp => hget _ _ hp⟩

/-- What closing does to the disk. -/
theorem CloseSpec.sectors (h : CloseSpec s p inode s')
    (hself : FREE_MAP_SECTOR ∉ data_extent s.fs_device FREE_MAP_SECTOR) :
    ∃ u, u.fs_device = s.fs_device ∧ u.files = s.files ∧ u.free_map_file = s.free_map_file ∧
      u.free_map = s.free_map ∧ u.mem = s.mem ∧
      (u.open_inodes = s.open_inodes.set p { inode with open_cnt := inode.open_cnt - 1 } ∨
        inode.open_cnt = 1 ∧ u.open_inodes = s.open_inodes.erase p) ∧ MapStep u s' := by
  cases h with
  | kept =>
      exact ⟨s.setInodes (s.open_inodes.set p { inode with open_cnt := inode.open_cnt - 1 }), rfl, rfl,
        rfl, rfl, rfl, Or.inl rfl, MapStep.refl _⟩
  | last hone =>
      exact ⟨s.setInodes (s.open_inodes.erase p), rfl, rfl, rfl, rfl, rfl, Or.inr ⟨hone, rfl⟩,
        MapStep.refl _⟩
  | freed hone _ hfirst hsecond =>
      exact ⟨s.setInodes (s.open_inodes.erase p), rfl, rfl, rfl, rfl, rfl, Or.inr ⟨hone, rfl⟩,
        hfirst.step.trans hsecond.step hself⟩

theorem FsInv.same_files_close (h : FsInv held s) (hp : s.open_inodes.get p = some inode)
    (hheld : p ∈ held) (hspec : CloseSpec s p inode s') : SameFiles s s' := by
  rcases hspec.sectors (h.layout.self _ s.live_free_map) with
    ⟨u, _, hfiles, hmap, _, _, hopen, hstep⟩
  refine ⟨hstep.files.trans hfiles, hstep.free_map_file.trans hmap, fun f file i hf hi => ?_⟩
  rw [hstep.open_inodes]
  rcases hopen with hopen | ⟨hone, hopen⟩
  · rw [hopen]
    by_cases hq : file.inode = p
    · rw [hq] at hi ⊢
      obtain rfl : inode = i := Option.some.inj (hp.symm.trans hi)
      exact ⟨_, Store.get_set_self hp, rfl⟩
    · exact ⟨i, (Store.get_set_of_ne hq).trans hi, rfl⟩
  · rw [hopen]
    have hne := (h.opened.erase hp hheld hone).1 f file hf
    exact ⟨i, Store.get_erase_eq_some.2 ⟨hne, hi⟩, rfl⟩

/-! ## Removing a name -/

/-- The entry with `in_use` cleared. -/
@[simps] def DirEntry.unused (e : DirEntry) : DirEntry := { e with in_use := false }

/-- What `dir_remove` does. -/
inductive RemoveSpec (s : FileSys) (name : CString) : Bool → FileSys → Prop
  | absent {mem : Mallocs} :
      (s.scanned (FileSys.names name)).1 = false → (s.mem.Ample → mem.Ample) →
      RemoveSpec s name false (s.setMem mem)
  | no_memory {s' : FileSys} : ¬ s.mem.Ample → SameFiles s s' → RemoveSpec s name false s'
  | removed {k q : Nat} {mem mem' : Mallocs} {s₁ s' : FileSys} {inode : Inode} :
      k < ROOT_ENTRIES → FileSys.names name (dir_entry s.fs_device k) = true →
      (s.mem.Ample → mem.Ample ∧ mem'.Ample) →
      OpenSpec (s.setMem mem) (dir_entry s.fs_device k).inode_sector (some q) s₁ →
      s₁.open_inodes.get q = some inode →
      CloseSpec ((((s₁.setDevice (entry_patch s.fs_device k
          (dir_entry s.fs_device k).unused)).setMem mem').setInodes
            (s₁.open_inodes.set q { inode with removed := true })))
        q { inode with removed := true } s' →
      RemoveSpec s name true s'

namespace FsInv

/-- An inode that is not named any more is marked as removed. -/
theorem set_removed (h : FsInv held s) (hp : s.open_inodes.get p = some inode)
    (hnamed : ¬ Named s.fs_device inode.sector) (hmap : inode.sector ≠ FREE_MAP_SECTOR)
    (hroot : inode.sector ≠ ROOT_DIR_SECTOR) :
    FsInv held (s.setInodes (s.open_inodes.set p { inode with removed := true })) :=
  h.set_inode hp rfl (h.opened.set hp rfl rfl rfl (fun _ => ⟨hnamed, hmap, hroot⟩)
    (h.opened.count p inode hp) (h.opened.count_pos p inode hp) fun _ _ => rfl)

/-- The entry of an inode that is not in use any more. -/
theorem not_named_of_unused (h : FsInv held s) (hk : k < ROOT_ENTRIES)
    (huse : (dir_entry s.fs_device k).in_use = true) :
    ¬ Named (entry_patch s.fs_device k (dir_entry s.fs_device k).unused)
      (dir_entry s.fs_device k).inode_sector := by
  rintro ⟨l, hl, huse', hsector⟩
  have hentry := dir_entry_patch (e := (dir_entry s.fs_device k).unused) h.dir
    (h.layout.self _ s.live_root) (dir_entry_sector_lt _ _) hk l
  rw [hentry] at huse' hsector
  by_cases hlk : l = k
  · rw [if_pos hlk] at huse'
    cases huse'
  · rw [if_neg hlk] at huse' hsector
    exact hlk (h.dir.entry_one l k hl hk huse' huse hsector)

theorem dir_remove (h : FsInv held s) (hp : s.open_inodes.get p = some inode)
    (hroot : inode.sector = ROOT_DIR_SECTOR) (name : CString) (e : DirEntry) :
    ∃ r s', s.dir_remove p name e = some (r, s') ∧ RemoveSpec s name r s' ∧ FsInv held s' ∧
      ∃ inode', s'.open_inodes.get p = some inode' ∧ inode'.sector = ROOT_DIR_SECTOR := by
  have hlookup := h.lookup hp hroot name e
  have hmem := h.set_mem (s.scanned (FileSys.names name)).2.2
  cases hfound : (s.scanned (FileSys.names name)).1 with
  | false =>
      refine ⟨false, _, ?_, RemoveSpec.absent hfound fun hs => hs.scanned _, hmem, inode, hp, hroot⟩
      simp only [FileSys.dir_remove, hlookup, hfound, Bool.false_eq_true, if_false,
        Option.bind_eq_bind, Option.bind_some]
      rfl
  | true =>
      rcases FileSys.scanned_found hfound with ⟨hk, hname⟩
      rcases named_sector hk hname with ⟨hnamed, huse, _⟩
      rcases hmem.inode_open (Or.inr (Or.inr (Or.inl hnamed))) with ⟨r, s₁, hopen, hspec, hinv⟩
      have hdev : s₁.fs_device = s.fs_device := hspec.fs_device
      rcases hspec.get_of_get (s := s.setMem (s.scanned (FileSys.names name)).2.2) hp with
        ⟨dir, hp₁, hdir⟩
      cases r with
      | none =>
          refine ⟨false, s₁, ?_, RemoveSpec.no_memory (fun hs => ?_) hspec.same_files, hinv, dir, hp₁,
            hdir.trans hroot⟩
          · simp only [FileSys.dir_remove, hlookup, hfound, if_true, Option.bind_eq_bind,
              Option.bind_some, hopen]
            rfl
          · exact hspec.not_ample (hs.scanned _)
      | some q =>
          replace hinv : FsInv (q :: held) s₁ := hinv
          rcases hspec.get with ⟨inode₁, hq, hsector⟩
          rcases h.dir.named_file _ hnamed with ⟨hmapne, hrootne⟩
          have hpq : p ≠ q := by
            rintro rfl
            obtain rfl : dir = inode₁ := Option.some.inj (hp₁.symm.trans hq)
            exact hrootne (hsector.symm.trans (hdir.trans hroot))
          have hwrite := hinv.inode_write_entry hp₁ (hdir.trans hroot)
            (s.scanned_le (FileSys.names name))
            (dir_entry s.fs_device (s.scanned (FileSys.names name)).2.1).unused
          have hremove : s.dir_remove p name e =
              (s₁.inode_write_at p (dir_entry s.fs_device
                (s.scanned (FileSys.names name)).2.1).unused.toBytes
                ((s.scanned (FileSys.names name)).2.1 * sizeof_dir_entry)).bind fun n =>
              if n.1 ≠ sizeof_dir_entry then
                (n.2.inode_close (some q)).bind fun t => some (false, t)
              else
                (n.2.inode_remove q).bind fun t =>
                  (t.inode_close (some q)).bind fun t => some (true, t) := by
            simp only [FileSys.dir_remove, hlookup, hfound, if_true, Option.bind_eq_bind,
              Option.bind_some, hopen]
            rfl
          rw [hremove, hwrite, Option.bind_some, hdev]
          by_cases hmem₁ : s₁.mem 0 = true
          · -- the entry is erased; the inode goes with its last holder
            have hunused := (hinv.set_entry (k := (s.scanned (FileSys.names name)).2.1)
              (e := (dir_entry s.fs_device (s.scanned (FileSys.names name)).2.1).unused) hk
              (dir_entry_sector_lt _ _) fun hused => by cases hused).set_mem s₁.mem.malloc.2
            rw [hdev] at hunused
            have hgone := h.not_named_of_unused hk huse
            have hremoved := hunused.set_removed hq (by rw [hsector]; exact hgone)
              (by rw [hsector]; exact hmapne) (by rw [hsector]; exact hrootne)
            rcases hremoved.inode_close (Store.get_set_self hq) List.mem_cons_self with
              ⟨s', hclose, hcspec, hinv'⟩
            rw [List.erase_cons_head] at hinv'
            refine ⟨true, s', ?_, RemoveSpec.removed hk hname
              (fun hs => ⟨hs.scanned _, (hspec.ample (hs.scanned _)).tail⟩) hspec hq hcspec, hinv',
              dir, ?_, hdir.trans hroot⟩
            rotate_left
            · rw [hcspec.get_of_ne hpq]
              exact (Store.get_set_of_ne hpq).trans hp₁
            simp only [if_pos (And.intro hk hmem₁), ne_eq, not_true_eq_false, if_false,
              FileSys.inode_remove, FileSys.setMem_open_inodes, FileSys.setDevice_open_inodes, hq,
              Option.bind_eq_bind, Option.bind_some]
            exact congrArg (fun o => Option.bind o _) hclose
          · have hne : ¬ ((s.scanned (FileSys.names name)).2.1 < ROOT_ENTRIES ∧ s₁.mem 0 = true) :=
              fun hand => hmem₁ hand.2
            have hkept := hinv.set_mem (if (s.scanned (FileSys.names name)).2.1 < ROOT_ENTRIES then
              s₁.mem.malloc.2 else s₁.mem)
            rcases hkept.inode_close hq List.mem_cons_self with ⟨s', hclose, hcspec, hinv'⟩
            rw [List.erase_cons_head] at hinv'
            have hsame : SameFiles s s' :=
              (@SameFiles.trans _ s₁ _ hspec.same_files (SameFiles.of_eq rfl rfl rfl)).trans
                (hkept.same_files_close hq List.mem_cons_self hcspec)
            refine ⟨false, s', ?_, RemoveSpec.no_memory (fun hs => ?_) hsame, hinv',
              dir, (hcspec.get_of_ne hpq).trans hp₁, hdir.trans hroot⟩
            · have hzero : (0 : Nat) ≠ sizeof_dir_entry := by decide
              simp only [if_neg hne, if_pos hzero, hclose, Option.bind_some]
            · exact hmem₁ (hspec.ample (hs.scanned _) 0)

end FsInv

end Berk162
