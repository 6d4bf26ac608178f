import Berk162.Filesys.FileMap

/-!
# FsRefines — the file system refines the file map

`Represents` says which file map a state of the file system stands for; a file number is the sector
of the inode.  Each call of the file system is a step of the file map, as long as no allocation of
memory fails.  What a disk stands for is the same after the file system has been stopped and started
again.
-/

namespace Berk162

variable {s s' t : FileSys} {m : FileMap} {p f i : Nat} {inode : Inode} {file : File}
  {name : CString} {e : DirEntry}

/-! ## What a state stands for -/

/-- The bytes of the file whose inode is in sector `i`. -/
def contents (dev : Block) (i : Nat) : Bytes :=
  window (data_byte dev i) 0 (disk_inode dev i).length

/-- Handle `f` is on the inode in sector `i`, at position `pos`. -/
def FileSys.HandleAt (s : FileSys) (f i pos : Nat) : Prop :=
  ∃ file inode, Handle s f file inode ∧ inode.sector = i ∧ file.pos = pos

/-- The inode in sector `i` has a name or a handle. -/
def FileSys.InUse (s : FileSys) (i : Nat) : Prop :=
  Named s.fs_device i ∨ ∃ f pos, s.HandleAt f i pos

structure Represents (s : FileSys) (m : FileMap) : Prop where
  names : ∀ name i, m.names.lookup name = some i ↔ ∃ k < ROOT_ENTRIES,
    FileSys.names name (dir_entry s.fs_device k) = true ∧ (dir_entry s.fs_device k).inode_sector = i
  handles : ∀ f i pos, m.handles.lookup f = some (i, pos) ↔ s.HandleAt f i pos
  data : ∀ i, s.InUse i → m.data i = contents s.fs_device i

/-- What every state satisfies that a run leads to in which no allocation of memory fails. -/
structure Stable (s : FileSys) : Prop extends Between s where
  ample : s.mem.Ample
  map_on_disk : s.MapOnDisk
  distinct : ∀ name k l, k < ROOT_ENTRIES → l < ROOT_ENTRIES →
    FileSys.names name (dir_entry s.fs_device k) = true →
    FileSys.names name (dir_entry s.fs_device l) = true → k = l

structure Refines (s : FileSys) (m : FileMap) : Prop where
  stable : Stable s
  represents : Represents s m

theorem FileSys.HandleAt.isHandle {pos : Nat} (h : s.HandleAt f i pos) : s.IsHandle f := by
  rcases h with ⟨file, _, hf, _⟩
  exact ⟨hf.user, file, hf.get_file⟩

theorem Between.inUse_live (h : Between s) (hi : s.InUse i) :
    s.Live i ∧ i ≠ FREE_MAP_SECTOR ∧ i ≠ ROOT_DIR_SECTOR := by
  rcases hi with hi | ⟨f, pos, file, inode, hf, rfl, _⟩
  · exact ⟨Or.inr (Or.inr (Or.inl hi)), h.inv.dir.named_file i hi⟩
  · exact ⟨FsInv.opened_live hf.get_inode, h.user f file inode hf.user hf.get_file hf.get_inode⟩

theorem Between.contents_congr (h : Between s) (hi : s.InUse i)
    (hkept : Kept s.fs_device s'.fs_device i) : contents s'.fs_device i = contents s.fs_device i := by
  have hlen := h.inv.layout.length_lt i (h.inUse_live hi).1
  rw [contents, contents, hkept.disk_inode]
  exact window_congr fun k _ hk => hkept.data_byte hlen (by omega)

theorem SameFiles.handleAt {held : List Nat} (h : SameFiles s s') (hinv : FsInv held s) {pos : Nat} :
    s'.HandleAt f i pos ↔ s.HandleAt f i pos := by
  constructor
  · rintro ⟨file, inode, hf, hsector, hpos⟩
    have hget : s.files.get f = some file := by
      rw [← h.1]
      exact hf.get_file
    rcases (hinv.opened.file_open f file hget).2 with ⟨inode₀, hp₀⟩
    rcases h.2.2 f file inode₀ hget hp₀ with ⟨inode', hp', hsame⟩
    obtain rfl : inode = inode' := Option.some.inj (hf.get_inode.symm.trans hp')
    refine ⟨file, inode₀, ⟨hget, hp₀, ?_⟩, hsame.symm.trans hsector, hpos⟩
    rw [← h.2.1]
    exact hf.user
  · rintro ⟨file, inode, hf, hsector, hpos⟩
    rcases h.2.2 f file inode hf.get_file hf.get_inode with ⟨inode', hp', hsame⟩
    refine ⟨file, inode', ⟨?_, hp', ?_⟩, hsame.trans hsector, hpos⟩
    · rw [h.1]
      exact hf.get_file
    · rw [h.2.1]
      exact hf.user

/-! ## Changes -/

/-- Names, handles and data stay the same. -/
theorem Refines.change (h : Refines s m) (hs' : Between s')
    (hentry : ∀ k, k < ROOT_ENTRIES → dir_entry s'.fs_device k = dir_entry s.fs_device k)
    (hhandle : ∀ f i pos, s'.HandleAt f i pos ↔ s.HandleAt f i pos)
    (hkept : ∀ i, s.InUse i → Kept s.fs_device s'.fs_device i) (hample : s'.mem.Ample)
    (hdisk : s'.MapOnDisk) : Refines s' m := by
  have hnamed : ∀ i, Named s'.fs_device i ↔ Named s.fs_device i := fun i => by
    refine exists_congr fun k => and_congr_right fun hk => ?_
    rw [hentry k hk]
  have hinuse : ∀ i, s'.InUse i → s.InUse i := fun i hi =>
    hi.imp (hnamed i).1 fun hi => hi.imp fun f hi => hi.imp fun pos => (hhandle f i pos).1
  refine ⟨⟨hs', hample, hdisk, fun name k l hk hl => ?_⟩, fun name i => ?_, fun f i pos => ?_, fun i hi => ?_⟩
  · rw [hentry k hk, hentry l hl]
    exact h.stable.distinct name k l hk hl
  · rw [h.represents.names]
    refine exists_congr fun k => and_congr_right fun hk => ?_
    rw [hentry k hk]
  · rw [h.represents.handles, hhandle]
  · rw [h.represents.data i (hinuse i hi),
      h.stable.toBetween.contents_congr (hinuse i hi) (hkept i (hinuse i hi))]

theorem Refines.of_quiet (h : Refines s m) (hquiet : Quiet s s') (hs' : Between s') : Refines s' m := by
  have hinv := h.stable.inv
  refine h.change hs' (fun k hk => ?_) (fun f i pos => hquiet.same_files.handleAt hinv)
    (fun i hi => ?_) (hquiet.ample h.stable.ample)
    (hquiet.map_on_disk h.stable.ample h.stable.map_on_disk)
  · exact (hquiet.kept _ s.live_root (by decide)).dir_entry hinv.dir hk
  · have hlive := h.stable.toBetween.inUse_live hi
    exact hquiet.kept i hlive.1 hlive.2.1

/-! ## Creating and removing names -/

theorem CString.eq_of_names {name' : CString} {e : DirEntry} (h : FileSys.names name e = true)
    (h' : FileSys.names name' e = true) : name = name' := by
  have heq : name.chars = name'.chars := (FileSys.names_iff.1 h).2.trans (FileSys.names_iff.1 h').2.symm
  cases name with
  | mk chars no_null =>
      cases name' with
      | mk chars' no_null' =>
          simp only at heq
          subst heq
          rfl

theorem Represents.lookup_none (h : Represents s m)
    (hnone : ∀ k, k < ROOT_ENTRIES → FileSys.names name (dir_entry s.fs_device k) = false) :
    m.names.lookup name = none := by
  cases hlookup : m.names.lookup name with
  | none =>
      rfl
  | some i =>
      rcases (h.names name i).1 hlookup with ⟨k, hk, hname, _⟩
      rw [hnone k hk] at hname
      cases hname

/-- An inode that is not live is not used in the file map. -/
theorem Refines.unused (h : Refines s m) (hi : ¬ s.Live i) : m.Unused i where
  names name hlookup := by
    rcases (h.represents.names name i).1 hlookup with ⟨k, hk, hname, hsector⟩
    exact hi (Or.inr (Or.inr (Or.inl ⟨k, hk, (FileSys.names_iff.1 hname).1, hsector⟩)))
  handles f pos hlookup :=
    hi (h.stable.toBetween.inUse_live (Or.inr ⟨f, pos, (h.represents.handles f i pos).1 hlookup⟩)).1

theorem Refines.created (h : Refines s m) (hs' : Between s') {size : Nat}
    (hc : Created s name size i s') :
    ∃ m', FileMap.Step m (FsCall.create name size e, FsResult.success true) m' ∧ Refines s' m' := by
  have hinv := h.stable.inv
  have hb := h.stable.toBetween
  have habsent := hc.absent h.stable.ample
  have hlookup := h.represents.lookup_none habsent
  rcases hc.entry with ⟨k, e', hk, hunused, huse, hsector, hstr, hentry⟩
  have hname' : FileSys.names name e' = true := FileSys.names_iff.2 ⟨huse, hstr.symm⟩
  -- a name of the new directory is the new one, or one of an old entry
  have hnew : ∀ n l, l < ROOT_ENTRIES → FileSys.names n (dir_entry s'.fs_device l) = true →
      (l = k ∧ n = name) ∨ (l ≠ k ∧ n ≠ name ∧ dir_entry s'.fs_device l = dir_entry s.fs_device l) := by
    intro n l hl hn
    rw [hentry l hl] at hn ⊢
    by_cases hlk : l = k
    · rw [if_pos hlk] at hn
      exact Or.inl ⟨hlk, CString.eq_of_names hn hname'⟩
    · rw [if_neg hlk] at hn ⊢
      refine Or.inr ⟨hlk, ?_, rfl⟩
      rintro rfl
      rw [habsent l hl] at hn
      cases hn
  have hinuse : ∀ j, s'.InUse j → j = i ∨ s.InUse j := by
    intro j hj
    rcases hj with ⟨l, hl, hused, hj⟩ | ⟨f, pos, hf⟩
    · rw [hentry l hl] at hused hj
      by_cases hlk : l = k
      · rw [if_pos hlk] at hj
        exact Or.inl (hj.symm.trans hsector)
      · rw [if_neg hlk] at hused hj
        exact Or.inr (Or.inl ⟨l, hl, hused, hj⟩)
    · exact Or.inr (Or.inr ⟨f, pos, (hc.same_files.handleAt hinv).1 hf⟩)
  have hdata : ∀ j, s'.InUse j →
      Function.update m.data i (List.replicate size 0) j = contents s'.fs_device j := by
    intro j hj
    rcases hinuse j hj with rfl | hj
    · rw [Function.update_self, contents, hc.length]
      refine List.ext_getElem (by simp) fun l hl hl' => ?_
      rw [getElem_window, List.getElem_replicate, Nat.zero_add, hc.zero l (by simpa using hl)]
    · have hlive := hb.inUse_live hj
      have hne : j ≠ i := by
        rintro rfl
        exact hc.not_live hlive.1
      rw [Function.update_of_ne hne, h.represents.data j hj]
      exact (hb.contents_congr hj (hc.kept j hlive.1 hlive.2.1 hlive.2.2)).symm
  refine ⟨_, FileMap.Step.created hc.ne_nil hc.length_le hlookup (h.unused hc.not_live),
    ⟨hs', hc.ample h.stable.ample, hc.map_on_disk h.stable.ample h.stable.map_on_disk, ?_⟩,
    fun n j => ⟨fun hn => ?_, ?_⟩, fun f j pos => ?_, hdata⟩
  · intro n l l' hl hl' hn hn'
    rcases hnew n l hl hn with ⟨rfl, rfl⟩ | ⟨hlk, hne, hsame⟩
    · rcases hnew _ l' hl' hn' with ⟨rfl, _⟩ | ⟨_, hne, _⟩
      · rfl
      · exact absurd rfl hne
    · rcases hnew n l' hl' hn' with ⟨rfl, rfl⟩ | ⟨_, _, hsame'⟩
      · exact absurd rfl hne
      · rw [hsame] at hn
        rw [hsame'] at hn'
        exact h.stable.distinct n l l' hl hl' hn hn'
  · by_cases hne : n = name
    · subst hne
      rw [Finmap.lookup_insert] at hn
      obtain rfl := Option.some.inj hn
      refine ⟨k, hk, ?_⟩
      rw [hentry k hk, if_pos rfl]
      exact ⟨hname', hsector⟩
    · rw [Finmap.lookup_insert_of_ne _ hne] at hn
      rcases (h.represents.names n j).1 hn with ⟨l, hl, hname, hj⟩
      have hlk : l ≠ k := by
        rintro rfl
        rw [(FileSys.names_iff.1 hname).1] at hunused
        cases hunused h.stable.ample
      refine ⟨l, hl, ?_⟩
      rw [hentry l hl, if_neg hlk]
      exact ⟨hname, hj⟩
  · rintro ⟨l, hl, hn, hj⟩
    rcases hnew n l hl hn with ⟨rfl, rfl⟩ | ⟨hlk, hne, hsame⟩
    · rw [Finmap.lookup_insert, ← hj, hentry l hl, if_pos rfl, hsector]
    · rw [Finmap.lookup_insert_of_ne _ hne]
      rw [hsame] at hn hj
      exact (h.represents.names n j).2 ⟨l, hl, hn, hj⟩
  · exact (h.represents.handles f j pos).trans (hc.same_files.handleAt hinv).symm

theorem Refines.removed (h : Refines s m) (hs' : Between s') {k : Nat} (hk : k < ROOT_ENTRIES)
    (hname : FileSys.names name (dir_entry s.fs_device k) = true) (hr : Removed s k s') :
    ∃ m', FileMap.Step m (FsCall.remove name e, FsResult.success true) m' ∧ Refines s' m' := by
  have hinv := h.stable.inv
  have hb := h.stable.toBetween
  have hold : ∀ n l, l < ROOT_ENTRIES → FileSys.names n (dir_entry s'.fs_device l) = true →
      l ≠ k ∧ dir_entry s'.fs_device l = dir_entry s.fs_device l := by
    intro n l hl hn
    rw [hr.entry l hl] at hn ⊢
    by_cases hlk : l = k
    · rw [if_pos hlk] at hn
      cases (FileSys.names_iff.1 hn).1
    · rw [if_neg hlk]
      exact ⟨hlk, rfl⟩
  have hinuse : ∀ j, s'.InUse j → s.InUse j := by
    intro j hj
    rcases hj with ⟨l, hl, hused, hj⟩ | ⟨f, pos, hf⟩
    · rw [hr.entry l hl] at hused hj
      by_cases hlk : l = k
      · rw [if_pos hlk] at hused
        cases hused
      · rw [if_neg hlk] at hused hj
        exact Or.inl ⟨l, hl, hused, hj⟩
    · exact Or.inr ⟨f, pos, (hr.same_files.handleAt hinv).1 hf⟩
  have hlookup := (h.represents.names name _).2 ⟨k, hk, hname, rfl⟩
  refine ⟨_, FileMap.Step.removed hlookup,
    ⟨hs', hr.ample h.stable.ample, hr.map_on_disk h.stable.ample h.stable.map_on_disk, ?_⟩,
    fun n j => ⟨fun hn => ?_, ?_⟩, fun f j pos => ?_, fun j hj => ?_⟩
  · intro n l l' hl hl' hn hn'
    rw [(hold n l hl hn).2] at hn
    rw [(hold n l' hl' hn').2] at hn'
    exact h.stable.distinct n l l' hl hl' hn hn'
  · by_cases hne : n = name
    · subst hne
      rw [Finmap.lookup_erase] at hn
      cases hn
    · rw [Finmap.lookup_erase_ne hne] at hn
      rcases (h.represents.names n j).1 hn with ⟨l, hl, hname', hj⟩
      have hlk : l ≠ k := by
        rintro rfl
        exact hne (CString.eq_of_names hname' hname)
      refine ⟨l, hl, ?_⟩
      rw [hr.entry l hl, if_neg hlk]
      exact ⟨hname', hj⟩
  · rintro ⟨l, hl, hn, hj⟩
    rcases hold n l hl hn with ⟨hlk, hsame⟩
    rw [hsame] at hn hj
    -- the name that is removed was in one entry only
    have hne : n ≠ name := by
      rintro rfl
      exact hlk (h.stable.distinct n l k hl hk hn hname)
    rw [Finmap.lookup_erase_ne hne]
    exact (h.represents.names n j).2 ⟨l, hl, hn, hj⟩
  · exact (h.represents.handles f j pos).trans (hr.same_files.handleAt hinv).symm
  · have hlive := hb.inUse_live (hinuse j hj)
    exact (h.represents.data j (hinuse j hj)).trans
      (hb.contents_congr (hinuse j hj) (hr.kept j hlive.1 hlive.2.1 hlive.2.2)).symm

/-! ## Handles -/

/-- Handle `f` is set; names stay the same. -/
theorem Refines.set_handle (h : Refines s m) (hs' : Between s') {q : Nat} {data : Nat → Bytes}
    (hi : s.InUse i)
    (hentry : ∀ k, k < ROOT_ENTRIES → dir_entry s'.fs_device k = dir_entry s.fs_device k)
    (hhandle : ∀ g j pos, s'.HandleAt g j pos ↔
      (g = f ∧ j = i ∧ pos = q) ∨ (g ≠ f ∧ s.HandleAt g j pos))
    (hdata : ∀ j, s.InUse j → data j = contents s'.fs_device j) (hample : s'.mem.Ample)
    (hdisk : s'.MapOnDisk) :
    Refines s' { m with data := data, handles := m.handles.insert f (i, q) } := by
  have hnamed : ∀ j, Named s'.fs_device j → Named s.fs_device j := by
    rintro j ⟨k, hk, hj⟩
    rw [hentry k hk] at hj
    exact ⟨k, hk, hj⟩
  have hinuse : ∀ j, s'.InUse j → s.InUse j := by
    intro j hj
    rcases hj with hj | ⟨g, pos, hj⟩
    · exact Or.inl (hnamed j hj)
    · rcases (hhandle g j pos).1 hj with ⟨_, rfl, _⟩ | ⟨_, hj⟩
      · exact hi
      · exact Or.inr ⟨g, pos, hj⟩
  refine ⟨⟨hs', hample, hdisk, fun name k l hk hl => ?_⟩, fun name j => ?_, fun g j pos => ?_,
    fun j hj => hdata j (hinuse j hj)⟩
  · rw [hentry k hk, hentry l hl]
    exact h.stable.distinct name k l hk hl
  · refine (h.represents.names name j).trans (exists_congr fun k => and_congr_right fun hk => ?_)
    rw [hentry k hk]
  · rw [hhandle]
    by_cases hg : g = f
    · subst hg
      rw [Finmap.lookup_insert, Option.some.injEq, Prod.mk.injEq]
      constructor
      · rintro ⟨rfl, rfl⟩
        exact Or.inl ⟨rfl, rfl, rfl⟩
      · rintro (⟨_, rfl, rfl⟩ | ⟨hne, _⟩)
        · exact ⟨rfl, rfl⟩
        · exact absurd rfl hne
    · rw [Finmap.lookup_insert_of_ne _ hg, h.represents.handles]
      exact ⟨fun hj => Or.inr ⟨hg, hj⟩, fun hj => hj.elim (fun hf => absurd hf.1 hg) And.right⟩

/-- The handle of a file that has been opened. -/
theorem Handle.at_alloc {mem : Mallocs} {g j pos : Nat} (hp : t.open_inodes.get p = some inode)
    (hmap : t.free_map_file ≠ some t.files.next) :
    ((t.setMem mem).setFiles (t.files.alloc ⟨p, 0, false⟩)).HandleAt g j pos ↔
      (g = t.files.next ∧ j = inode.sector ∧ pos = 0) ∨ (g ≠ t.files.next ∧ t.HandleAt g j pos) := by
  constructor
  · rintro ⟨file, inode', hf, rfl, rfl⟩
    have hget : (t.files.alloc ⟨p, 0, false⟩).get g = some file := hf.get_file
    by_cases hg : g = t.files.next
    · rw [hg, Store.get_alloc_self] at hget
      obtain rfl := Option.some.inj hget
      obtain rfl : inode = inode' := Option.some.inj (hp.symm.trans hf.get_inode)
      exact Or.inl ⟨hg, rfl, rfl⟩
    · rw [Store.get_alloc_of_ne hg] at hget
      exact Or.inr ⟨hg, file, inode', ⟨hget, hf.get_inode, hf.user⟩, rfl, rfl⟩
  · rintro (⟨rfl, rfl, rfl⟩ | ⟨hg, file, inode', hf, rfl, rfl⟩)
    · exact ⟨_, inode, ⟨Store.get_alloc_self, hp, hmap⟩, rfl, rfl⟩
    · exact ⟨file, inode', ⟨(Store.get_alloc_of_ne hg).trans hf.get_file, hf.get_inode, hf.user⟩, rfl, rfl⟩

/-- The position of a handle has changed. -/
theorem Handle.at_set {g j pos q : Nat} (hf : Handle s f file inode)
    (hfiles : t.files = s.files.set f { file with pos := q }) (hopen : t.open_inodes = s.open_inodes)
    (hmap : t.free_map_file = s.free_map_file) :
    t.HandleAt g j pos ↔ (g = f ∧ j = inode.sector ∧ pos = q) ∨ (g ≠ f ∧ s.HandleAt g j pos) := by
  constructor
  · rintro ⟨file', inode', hg, rfl, rfl⟩
    have hget := hg.get_file
    have hinode := hg.get_inode
    have huser := hg.user
    rw [hfiles] at hget
    rw [hopen] at hinode
    rw [hmap] at huser
    by_cases hgf : g = f
    · rw [hgf, Store.get_set_self hf.get_file] at hget
      obtain rfl := Option.some.inj hget
      obtain rfl : inode = inode' := Option.some.inj (hf.get_inode.symm.trans hinode)
      exact Or.inl ⟨hgf, rfl, rfl⟩
    · rw [Store.get_set_of_ne hgf] at hget
      exact Or.inr ⟨hgf, file', inode', ⟨hget, hinode, huser⟩, rfl, rfl⟩
  · rintro (⟨rfl, rfl, rfl⟩ | ⟨hgf, file', inode', hg, rfl, rfl⟩)
    · refine ⟨{ file with pos := pos }, inode, ⟨?_, ?_, ?_⟩, rfl, rfl⟩
      · rw [hfiles]
        exact Store.get_set_self hf.get_file
      · rw [hopen]
        exact hf.get_inode
      · rw [hmap]
        exact hf.user
    · refine ⟨file', inode', ⟨?_, ?_, ?_⟩, rfl, rfl⟩
      · rw [hfiles, Store.get_set_of_ne hgf]
        exact hg.get_file
      · rw [hopen]
        exact hg.get_inode
      · rw [hmap]
        exact hg.user

theorem FsInv.map_file_ne_next (h : FsInv [] s) : s.free_map_file ≠ some s.files.next := by
  rcases h.map_file.opened with ⟨f, file, _, hf, hfile, _⟩
  rw [hf]
  intro heq
  have hlt := Store.get_lt hfile
  rw [Option.some.inj heq] at hlt
  exact lt_irrefl _ hlt

/-- A file is opened in a state that differs quietly from the one before the call. -/
theorem Refines.alloc (h : Refines s m) (hs' : Between s') (hquiet : Quiet s t)
    (hp : t.open_inodes.get p = some inode) (hsector : inode.sector = i) (hi : s.InUse i)
    (hample : s.mem.Ample → s'.mem.Ample)
    (heq : s' = (t.setMem s'.mem).setFiles (t.files.alloc ⟨p, 0, false⟩)) :
    Refines s' { m with handles := m.handles.insert s.files.next (i, 0) } := by
  have hinv := h.stable.inv
  have hsame := hquiet.same_files
  have hdev : s'.fs_device = t.fs_device := by
    rw [heq]
    rfl
  have hmap : s'.free_map = t.free_map := by
    rw [heq]
    rfl
  refine h.set_handle hs' hi (fun k hk => ?_) (fun g j pos => ?_) (fun j hj => ?_)
    (hample h.stable.ample) ?_
  · rw [hdev]
    exact (hquiet.kept _ s.live_root (by decide)).dir_entry hinv.dir hk
  · have hne : t.free_map_file ≠ some t.files.next := by
      rw [hsame.1, hsame.2.1]
      exact hinv.map_file_ne_next
    rw [heq, Handle.at_alloc hp hne, hsame.1, hsector, hsame.handleAt hinv]
  · have hlive := h.stable.toBetween.inUse_live hj
    rw [h.represents.data j hj, hdev]
    exact (h.stable.toBetween.contents_congr hj (hquiet.kept j hlive.1 hlive.2.1)).symm
  · rw [FileSys.MapOnDisk, hdev, hmap]
    exact hquiet.map_on_disk h.stable.ample h.stable.map_on_disk

theorem Refines.lookup_next (h : Refines s m) : m.handles.lookup s.files.next = none := by
  cases hlookup : m.handles.lookup s.files.next with
  | none =>
      rfl
  | some x =>
      rcases (h.represents.handles _ x.1 x.2).1 hlookup with ⟨file, _, hf, _⟩
      have hget := hf.get_file
      rw [Store.get_next] at hget
      cases hget

theorem Refines.opened (h : Refines s m) (hs' : Between s') {r : Option Nat}
    (hspec : FileOpenSpec s name r s') :
    ∃ m', FileMap.Step m (FsCall.openFile name e, FsResult.file r) m' ∧ Refines s' m' := by
  cases hspec with
  | absent hnone hquiet =>
      exact ⟨m, FileMap.Step.not_opened (h.represents.lookup_none (hnone h.stable.ample)),
        h.of_quiet hquiet hs'⟩
  | no_memory hbad =>
      exact absurd h.stable.ample hbad
  | @opened k p t _ inode hk hname hquiet hp hsector hample heq =>
      have hlookup := (h.represents.names name _).2 ⟨k, hk, hname, rfl⟩
      exact ⟨_, FileMap.Step.opened hlookup h.lookup_next,
        h.alloc hs' hquiet hp hsector (Or.inl (FsInv.named_sector hk hname).1) hample heq⟩

theorem Refines.reopened (h : Refines s m) (hs' : Between s') (hf : Handle s f file inode)
    {r : Option Nat} (hspec : ReopenSpec s file r s') :
    ∃ m', FileMap.Step m (FsCall.reopen f, FsResult.file r) m' ∧ Refines s' m' := by
  have hat : s.HandleAt f inode.sector file.pos := ⟨file, inode, hf, rfl, rfl⟩
  cases hspec with
  | no_memory hbad =>
      exact absurd h.stable.ample hbad
  | @opened t _ inode₀ inode' hquiet hp hp' hsector hample heq =>
      obtain rfl : inode = inode₀ := Option.some.inj (hf.get_inode.symm.trans hp)
      exact ⟨_, FileMap.Step.reopened ((h.represents.handles _ _ _).2 hat) h.lookup_next,
        h.alloc hs' hquiet hp' hsector (Or.inr ⟨f, _, hat⟩) hample heq⟩

theorem Handle.at_erase {g j pos : Nat} :
    (s.setFiles (s.files.erase f)).HandleAt g j pos ↔ g ≠ f ∧ s.HandleAt g j pos := by
  constructor
  · rintro ⟨file, inode, hg, hsector, hpos⟩
    rcases Store.get_erase_eq_some.1 hg.get_file with ⟨hgf, hget⟩
    exact ⟨hgf, file, inode, ⟨hget, hg.get_inode, hg.user⟩, hsector, hpos⟩
  · rintro ⟨hgf, file, inode, hg, hsector, hpos⟩
    exact ⟨file, inode, ⟨Store.get_erase_eq_some.2 ⟨hgf, hg.get_file⟩, hg.get_inode, hg.user⟩, hsector,
      hpos⟩

theorem Refines.closed (h : Refines s m) (hs' : Between s') (hf : Handle s f file inode)
    (hspec : CloseSpec (s.setFiles (s.files.erase f)) file.inode inode s') :
    ∃ m', FileMap.Step m (FsCall.close f, FsResult.done) m' ∧ Refines s' m' := by
  have hinv := h.stable.inv
  have hb := h.stable.toBetween
  have herase := hinv.erase_file hf.get_file hf.user
  have hquiet := herase.quiet_close hf.get_inode List.mem_cons_self hspec
  have hhandle : ∀ g j pos, s'.HandleAt g j pos ↔ g ≠ f ∧ s.HandleAt g j pos := fun g j pos =>
    (hquiet.same_files.handleAt herase).trans Handle.at_erase
  have hentry : ∀ k, k < ROOT_ENTRIES → dir_entry s'.fs_device k = dir_entry s.fs_device k :=
    fun k hk => (hquiet.kept _ (FileSys.live_root _) (by decide)).dir_entry hinv.dir hk
  have hinuse : ∀ j, s'.InUse j → s.InUse j := by
    intro j hj
    rcases hj with ⟨k, hk, hj⟩ | ⟨g, pos, hj⟩
    · rw [hentry k hk] at hj
      exact Or.inl ⟨k, hk, hj⟩
    · exact Or.inr ⟨g, pos, ((hhandle g j pos).1 hj).2⟩
  refine ⟨_, FileMap.Step.closed ((h.represents.handles _ _ _).2 ⟨file, inode, hf, rfl, rfl⟩),
    ⟨hs', hquiet.ample h.stable.ample, hquiet.map_on_disk h.stable.ample h.stable.map_on_disk,
      fun name k l hk hl => ?_⟩, fun name j => ?_, fun g j pos => ?_, fun j hj => ?_⟩
  · rw [hentry k hk, hentry l hl]
    exact h.stable.distinct name k l hk hl
  · refine (h.represents.names name j).trans (exists_congr fun k => and_congr_right fun hk => ?_)
    rw [hentry k hk]
  · rw [hhandle]
    by_cases hgf : g = f
    · rw [hgf, Finmap.lookup_erase]
      exact ⟨nofun, fun hne => absurd rfl hne.1⟩
    · rw [Finmap.lookup_erase_ne hgf, h.represents.handles]
      exact ⟨fun hj => ⟨hgf, hj⟩, And.right⟩
  · have hlive := hb.inUse_live (hinuse j hj)
    exact (h.represents.data j (hinuse j hj)).trans
      (hb.contents_congr (hinuse j hj) (hquiet.kept j hlive.1 hlive.2.1)).symm

/-! ## Reading and writing -/

/-- A part of a window. -/
theorem drop_take_window {α : Type*} (g : Nat → α) (n pos size : Nat) :
    ((window g 0 n).drop pos).take size = window g pos (min size (n - pos)) := by
  rcases Nat.le_total pos n with hle | hle
  · rw [drop_window hle, Nat.zero_add]
    rcases Nat.le_total size (n - pos) with hsize | hsize
    · rw [take_window hsize, Nat.min_eq_left hsize]
    · rw [Nat.min_eq_right hsize, List.take_of_length_le (by rw [length_window]; exact hsize)]
  · have hnone : (window g 0 n).drop pos = [] :=
      List.drop_of_length_le (by rw [length_window]; exact hle)
    rw [hnone, Nat.sub_eq_zero_of_le hle, Nat.min_zero, window_zero, List.take_nil]

theorem window_overlay_eq {g : Nat → UInt8} {n pos : Nat} {bs : Bytes} (hfit : pos + bs.length ≤ n) :
    window (overlay g pos bs) 0 n = overwrite (window g 0 n) pos bs := by
  rcases Nat.exists_eq_add_of_le hfit with ⟨r, rfl⟩
  calc
    window (overlay g pos bs) 0 (pos + bs.length + r) =
        window (overlay g pos bs) 0 pos ++ window (overlay g pos bs) (0 + pos) bs.length ++
          window (overlay g pos bs) (0 + (pos + bs.length)) r := by
      rw [window_add, window_add]
    _ = window g 0 pos ++ bs ++ window g (0 + (pos + bs.length)) r := by
      rw [Nat.zero_add, Nat.zero_add, window_overlay_self, window_overlay_of_disjoint (by omega),
        window_overlay_of_disjoint (by omega)]
    _ = overwrite (window g 0 (pos + bs.length + r)) pos bs := by
      rw [overwrite, take_window (by omega), drop_window (by omega), Nat.add_sub_cancel_left]

theorem overwrite_nil (data : Bytes) (pos : Nat) : overwrite data pos [] = data := by
  rw [overwrite, List.append_nil, List.length_nil, Nat.add_zero, List.take_append_drop]

/-- What is in a file after a write to it. -/
theorem contents_patch {dev : Block} {pos : Nat} {bs : Bytes} (hlen : (disk_inode dev i).length < OFF_T)
    (hself : i ∉ data_extent dev i)
    (hfit : bs.length = 0 ∨ pos + bs.length ≤ (disk_inode dev i).length) :
    contents (data_patch dev i pos bs) i = overwrite (contents dev i) pos bs := by
  rcases hfit with hzero | hfit
  · rw [List.length_eq_zero_iff.1 hzero, overwrite_nil, data_patch, Block.patch_nil]
  · rw [contents, contents, data_byte_patch hlen hfit hself,
      disk_inode_congr (data_patch_sectors hlen hfit hself), window_overlay_eq hfit]

theorem moved_ample (hs : s.mem.Ample) (ofs n : Nat) : moved s.mem ofs n = n := by
  rw [moved, if_pos (Or.inr (hs 0))]

theorem Refines.read (h : Refines s m) (hf : Handle s f file inode) {size : Nat} {bs : Bytes}
    (hread : s.file_read f size = some (bs, s')) (hs' : Between s') :
    ∃ m', FileMap.Step m (FsCall.read f size, FsResult.bytes bs) m' ∧ Refines s' m' := by
  have hinv := h.stable.inv
  have hat : s.HandleAt f inode.sector file.pos := ⟨file, inode, hf, rfl, rfl⟩
  have hin := hinv.in_file_eq hf.get_inode size file.pos
  rw [hinv.file_read hf, moved_ample h.stable.ample, hin] at hread
  rcases Prod.mk.inj (Option.some.inj hread) with ⟨rfl, rfl⟩
  have hbytes : window (data_byte s.fs_device inode.sector) file.pos
      (min size ((disk_inode s.fs_device inode.sector).length - file.pos)) =
      ((m.data inode.sector).drop file.pos).take size := by
    rw [h.represents.data _ (Or.inr ⟨f, _, hat⟩), contents, drop_take_window]
  refine ⟨_, FileMap.Step.read ((h.represents.handles _ _ _).2 hat) hbytes, ?_⟩
  rw [length_window]
  refine h.set_handle hs' (Or.inr ⟨f, _, hat⟩) (fun _ _ => rfl)
    (fun g j pos => hf.at_set rfl rfl rfl) (fun j hj => h.represents.data j hj) ?_ h.stable.map_on_disk
  rw [FileSys.setFiles_mem, FileSys.setMem_mem]
  exact Mallocs.Ample.after h.stable.ample _ _

theorem Refines.write (h : Refines s m) (hf : Handle s f file inode) {buffer : Bytes} {n : Nat}
    (hwrite : s.file_write f buffer = some (n, s')) (hs' : Between s') :
    ∃ m', FileMap.Step m (FsCall.write f buffer, FsResult.count n) m' ∧ Refines s' m' := by
  have hinv := h.stable.inv
  have hb := h.stable.toBetween
  have hat : s.HandleAt f inode.sector file.pos := ⟨file, inode, hf, rfl, rfl⟩
  have huse : s.InUse inode.sector := Or.inr ⟨f, _, hat⟩
  have hlive := hb.inUse_live huse
  have hlen := hinv.layout.length_lt _ hlive.1
  have hself := hinv.layout.self _ hlive.1
  have hin := hinv.in_file_eq hf.get_inode buffer.length file.pos
  have hfits := hinv.write_fits hf.get_inode buffer file.pos
  have hkept := (hinv.written h.stable.user hf buffer).2
  rw [moved_ample h.stable.ample, hin] at hfits hkept
  rw [hinv.file_write hf, moved_ample h.stable.ample, hin] at hwrite
  rcases Prod.mk.inj (Option.some.inj hwrite) with ⟨rfl, rfl⟩
  have hdata := h.represents.data _ huse
  have hcount : min buffer.length ((disk_inode s.fs_device inode.sector).length - file.pos) =
      min buffer.length ((m.data inode.sector).length - file.pos) := by
    rw [hdata, contents, length_window]
  refine ⟨_, FileMap.Step.write ((h.represents.handles _ _ _).2 hat) hcount, ?_⟩
  refine h.set_handle hs' huse (fun k hk => ?_) (fun g j pos => hf.at_set rfl rfl rfl)
    (fun j hj => ?_) ?_ ?_
  · exact (hkept _ s.live_root (Ne.symm hlive.2.2)).dir_entry hinv.dir hk
  · by_cases hj' : j = inode.sector
    · subst hj'
      rw [Function.update_self, hdata]
      exact (contents_patch hlen hself hfits).symm
    · rw [Function.update_of_ne hj', h.represents.data j hj]
      exact (hb.contents_congr hj (hkept j (hb.inUse_live hj).1 hj')).symm
  · rw [FileSys.setFiles_mem, FileSys.setMem_mem]
    exact Mallocs.Ample.after h.stable.ample _ _
  · exact h.stable.map_on_disk.congr hinv.map_inv (hkept _ s.live_free_map (Ne.symm hlive.2.1)) rfl
      fun _ => rfl

theorem Refines.seek (h : Refines s m) (hf : Handle s f file inode) {new_pos : Nat}
    (hseek : s.file_seek f new_pos = some s') (hs' : Between s') :
    ∃ m', FileMap.Step m (FsCall.seek f new_pos, FsResult.done) m' ∧ Refines s' m' := by
  have hat : s.HandleAt f inode.sector file.pos := ⟨file, inode, hf, rfl, rfl⟩
  rw [FsInv.file_seek hf] at hseek
  obtain rfl := Option.some.inj hseek
  exact ⟨_, FileMap.Step.seek ((h.represents.handles _ _ _).2 hat),
    h.set_handle hs' (Or.inr ⟨f, _, hat⟩) (fun _ _ => rfl) (fun g j pos => hf.at_set rfl rfl rfl)
      (fun j hj => h.represents.data j hj) h.stable.ample h.stable.map_on_disk⟩

/-! ## Runs -/

theorem Refines.call (h : Refines s m) {c : FsCall} {r : FsResult} (hc : c.Allowed s)
    (hrun : c.run s = some (r, t)) : ∃ m', FileMap.Step m (c, r) m' ∧ Refines t m' := by
  have hb := h.stable.toBetween
  have hs' : Between t := by
    rcases hb.call hc with ⟨r', s', heq, hs'⟩ | ⟨_, _, _, _, _, hnone, _⟩
    · rw [hrun] at heq
      rcases Prod.mk.inj (Option.some.inj heq) with ⟨_, rfl⟩
      exact hs'
    · rw [hrun] at hnone
      cases hnone
  cases c with
  | create name size e =>
      rcases lt_or_ge size 0 with hneg | hpos
      · rcases hb.inv.filesys_create_negative name hneg e with ⟨hnone, _⟩ | ⟨s', heq, hquiet, _⟩
        · rw [FsCall.run, hnone, Option.map_none] at hrun
          cases hrun
        · rw [FsCall.run, heq, Option.map_some] at hrun
          rcases Prod.mk.inj (Option.some.inj hrun) with ⟨rfl, rfl⟩
          exact ⟨m, FileMap.Step.not_created, h.of_quiet hquiet hs'⟩
      · lift size to Nat using hpos
        have hlt : (size : Int) < OFF_T := hc
        rcases hb.inv.filesys_create name (by exact_mod_cast hlt) e with ⟨ok, s', heq, hspec, _⟩
        rw [FsCall.run, heq, Option.map_some] at hrun
        rcases Prod.mk.inj (Option.some.inj hrun) with ⟨rfl, rfl⟩
        cases hspec with
        | failed _ hquiet | leaked _ hquiet =>
            exact ⟨m, FileMap.Step.not_created, h.of_quiet hquiet hs'⟩
        | created _ _ hcreated =>
            exact h.created hs' hcreated
  | openFile name e =>
      rcases hb.inv.filesys_open name e with ⟨f, s', heq, hspec, _⟩
      rw [FsCall.run, heq, Option.map_some] at hrun
      rcases Prod.mk.inj (Option.some.inj hrun) with ⟨rfl, rfl⟩
      exact h.opened hs' hspec
  | remove name e =>
      rcases hb.inv.filesys_remove name e with ⟨ok, s', heq, hspec, _⟩
      rw [FsCall.run, heq, Option.map_some] at hrun
      rcases Prod.mk.inj (Option.some.inj hrun) with ⟨rfl, rfl⟩
      cases hspec with
      | absent hnone hquiet =>
          exact ⟨m, FileMap.Step.not_removed (h.represents.lookup_none (hnone h.stable.ample)),
            h.of_quiet hquiet hs'⟩
      | no_memory hbad =>
          exact absurd h.stable.ample hbad
      | removed hk hname hremoved =>
          exact h.removed hs' hk hname hremoved
  | reopen f =>
      rcases FileSys.IsHandle.handle hc hb.inv with ⟨file, inode, hf⟩
      rcases hb.inv.file_reopen hf with ⟨g, s', heq, hspec, _⟩
      rw [FsCall.run, heq, Option.map_some] at hrun
      rcases Prod.mk.inj (Option.some.inj hrun) with ⟨rfl, rfl⟩
      exact h.reopened hs' hf hspec
  | close f =>
      rcases FileSys.IsHandle.handle hc hb.inv with ⟨file, inode, hf⟩
      rcases hb.inv.file_close hf.get_file hf.user hf.get_inode with ⟨s', heq, hspec, _⟩
      rw [FsCall.run, heq, Option.map_some] at hrun
      rcases Prod.mk.inj (Option.some.inj hrun) with ⟨rfl, rfl⟩
      exact h.closed hs' hf hspec
  | read f size =>
      rcases FileSys.IsHandle.handle hc hb.inv with ⟨file, inode, hf⟩
      rcases Option.map_eq_some_iff.1 hrun with ⟨⟨bs, s'⟩, heq, hpair⟩
      rcases Prod.mk.inj hpair with ⟨rfl, rfl⟩
      exact h.read hf heq hs'
  | write f buffer =>
      rcases FileSys.IsHandle.handle hc hb.inv with ⟨file, inode, hf⟩
      rcases Option.map_eq_some_iff.1 hrun with ⟨⟨n, s'⟩, heq, hpair⟩
      rcases Prod.mk.inj hpair with ⟨rfl, rfl⟩
      exact h.write hf heq hs'
  | seek f new_pos =>
      rcases FileSys.IsHandle.handle hc hb.inv with ⟨file, inode, hf⟩
      rcases Option.map_eq_some_iff.1 hrun with ⟨s', heq, hpair⟩
      rcases Prod.mk.inj hpair with ⟨rfl, rfl⟩
      exact h.seek hf heq hs'

/-- The runs in which no allocation of memory fails. -/
def ampleRuns : System FileSys (FsCall × FsResult) where
  init s := ∃ dev mem storage, mem.Ample ∧ FileSys.filesys_init dev mem storage true = some s
  step := fsRuns.step

/-- A new file system stands for the file map without names and handles. -/
theorem FreshSystem.refines (h : FreshSystem s) (hs : s.mem.Ample) :
    Refines s ⟨∅, fun _ => [], ∅⟩ := by
  have hunused : ∀ name k, k < ROOT_ENTRIES →
      ¬ FileSys.names name (dir_entry s.fs_device k) = true := by
    intro name k hk hname
    have huse := (FileSys.names_iff.1 hname).1
    rw [h.no_names k hk] at huse
    cases huse
  have hhandle : ∀ f i pos, ¬ s.HandleAt f i pos := by
    rintro f i pos ⟨file, _, hf, _⟩
    exact hf.user (h.only_map f file hf.get_file)
  refine ⟨⟨h.between, hs, h.map_on_disk, fun name k l hk _ hname => absurd hname (hunused name k hk)⟩,
    fun name i => ?_, fun f i pos => ?_, fun i hi => ?_⟩
  · rw [Finmap.lookup_empty]
    exact ⟨nofun, fun ⟨k, hk, hname, _⟩ => absurd hname (hunused name k hk)⟩
  · rw [Finmap.lookup_empty]
    exact ⟨nofun, fun hf => absurd hf (hhandle f i pos)⟩
  · rcases hi with hi | ⟨f, pos, hf⟩
    · exact absurd hi (h.no_names.not_named i)
    · exact absurd hf (hhandle f i pos)

/-- Every step of the file system is a step of the file map. -/
theorem ampleRuns_simulates : ampleRuns.Simulates FileMap.runs Refines where
  init s hinit := by
    rcases hinit with ⟨dev, mem, storage, hmem, heq⟩
    rcases filesys_init_format dev mem storage with ⟨hnone, _⟩ | ⟨s', heq', hfresh, _, hample⟩
    · rw [hnone] at heq
      cases heq
    · obtain rfl := Option.some.inj (heq'.symm.trans heq)
      exact ⟨_, ⟨rfl, rfl⟩, hfresh.refines (hample hmem)⟩
  step _ _ _ _ h hstep := h.call hstep.1 hstep.2

/-! ## Stopping and starting -/

/-- The disk is one that the file system can be started from. -/
theorem Stable.disk_inv (h : Stable s) : DiskInv s.fs_device s.free_map := by
  refine ⟨h.inv.layout.mono fun i hi => ?_, h.inv.dir, h.inv.map_file.length_eq, h.map_on_disk⟩
  rcases hi with hi | hi | hi
  · exact Or.inl hi
  · exact Or.inr (Or.inl hi)
  · exact Or.inr (Or.inr (Or.inl hi))

/-- `filesys_done` only closes the free map's file. -/
theorem Between.filesys_done (h : Between s) :
    ∃ s', s.filesys_done = some s' ∧ s'.fs_device = s.fs_device := by
  rcases h.inv.map_file.opened with ⟨f, file, inode, hmap, hf, hp, hsector⟩
  have hremoved : inode.removed = false :=
    Bool.eq_false_iff.2 fun hr => (h.inv.opened.removed _ inode hp hr).2.1 hsector
  have hallow : s.file_allow_write f = some s := by
    simp only [FileSys.file_allow_write, hf, (h.inv.opened.file_open f file hf).1, Bool.false_eq_true,
      if_false, Option.bind_eq_bind, Option.bind_some]
    rfl
  by_cases hlast : inode.open_cnt - 1 = 0
  · refine ⟨(s.setInodes (s.open_inodes.erase file.inode)).setFiles (s.files.erase f), ?_, rfl⟩
    simp only [FileSys.filesys_done, FileSys.free_map_close, hmap, FileSys.file_close, hallow, hf,
      FileSys.inode_close, hp, hlast, hremoved, if_true, Bool.false_eq_true, if_false,
      Option.bind_eq_bind, Option.bind_some]
    rfl
  · refine ⟨(s.setInodes (s.open_inodes.set file.inode
      { inode with open_cnt := inode.open_cnt - 1 })).setFiles (s.files.erase f), ?_, rfl⟩
    simp only [FileSys.filesys_done, FileSys.free_map_close, hmap, FileSys.file_close, hallow, hf,
      FileSys.inode_close, hp, hlast, if_false, Option.bind_eq_bind, Option.bind_some]
    rfl

/-- After the file system has been stopped and started, it stands for the same file map, and the
same sectors are marked. -/
theorem Refines.restart (h : Refines s m) (hclosed : m.handles = ∅) {mem : Mallocs}
    {storage : Nat → BitVec 32} (hmem : mem.Ample) :
    ∃ s₁ s₂, s.filesys_done = some s₁ ∧
      FileSys.filesys_init s₁.fs_device mem storage false = some s₂ ∧ Refines s₂ m ∧
      s₂.free_map.bit_cnt = s.free_map.bit_cnt ∧
      ∀ j, j < s.free_map.bit_cnt → s₂.free_map.test j = s.free_map.test j := by
  rcases h.stable.toBetween.filesys_done with ⟨s₁, hdone, hdev⟩
  have hdisk : DiskInv s₁.fs_device s.free_map := by
    rw [hdev]
    exact h.stable.disk_inv
  rcases filesys_init_start hdisk mem storage with ⟨_, hbad⟩ | ⟨s₀, s₂, hinit, hdev₀, hample, hstarted⟩
  · exact absurd hmem hbad
  have hsame : s₂.fs_device = s.fs_device := hstarted.fs_device.trans (hdev₀.trans hdev)
  have hhandle : ∀ f i pos, ¬ s₂.HandleAt f i pos := by
    rintro f i pos ⟨file, _, hf, _⟩
    exact hf.user (hstarted.only_map f file hf.get_file)
  have hb : Between s₂ :=
    ⟨hstarted.inv, fun f file _ hmap hf _ => absurd (hstarted.only_map f file hf) hmap⟩
  refine ⟨s₁, s₂, hdone, hinit, ⟨⟨hb, hstarted.ample (hample hmem), hstarted.map_on_disk, ?_⟩,
    fun name i => ?_, fun f i pos => ?_, fun i hi => ?_⟩, hstarted.bit_cnt, hstarted.test⟩
  · rw [hsame]
    exact h.stable.distinct
  · rw [hsame]
    exact h.represents.names name i
  · rw [hclosed, Finmap.lookup_empty]
    exact ⟨nofun, fun hf => absurd hf (hhandle f i pos)⟩
  · rw [hsame]
    refine h.represents.data i ?_
    rcases hi with hi | ⟨f, pos, hf⟩
    · rw [hsame] at hi
      exact Or.inl hi
    · exact absurd hf (hhandle f i pos)

end Berk162
