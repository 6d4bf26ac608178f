import Berk162.Filesys.FsRuns

/-!
# FsLeaks — what a failing `filesys_create` leaves behind

When `dir_add` does not take the name, `filesys_create` releases the sector of the new inode but not
the sectors that `inode_create` allocated for its data.  `Leaks` says from the state before the call
when this happens.
-/

namespace Berk162

variable {s s' t : FileSys} {name : CString} {size : Nat} {e : DirEntry}
  {ls : List (FsCall × FsResult)}

/-- Some entry in use has the name. -/
def FileSys.HasName (s : FileSys) (name : CString) : Prop :=
  ∃ k < ROOT_ENTRIES, FileSys.names name (dir_entry s.fs_device k) = true

/-- The free map has the bits it had, and the same names are in use. -/
structure Unchanged (s s' : FileSys) : Prop where
  test : ∀ j, s'.free_map.test j = s.free_map.test j
  names : ∀ name, s'.HasName name ↔ s.HasName name

theorem Unchanged.refl (s : FileSys) : Unchanged s s := ⟨fun _ => rfl, fun _ => Iff.rfl⟩

theorem Unchanged.trans (h : Unchanged s s') (h' : Unchanged s' t) : Unchanged s t :=
  ⟨fun j => (h'.test j).trans (h.test j), fun name => (h'.names name).trans (h.names name)⟩

theorem Quiet.names (h : Quiet s s') (hs : Between s) (name : CString) :
    s'.HasName name ↔ s.HasName name := by
  refine exists_congr fun k => and_congr_right fun hk => ?_
  rw [(h.kept _ s.live_root (by decide)).dir_entry hs.inv.dir hk]

/-! ## One call -/

/-- What a call that fails does to the free map and the names. -/
theorem Between.create_failed (h : Between s) (hsize : size < OFF_T)
    (hcreate : s.filesys_create name size e = some (false, s')) :
    (∀ j, s.free_map.test j = true → s'.free_map.test j = true) ∧
      (∀ name, s'.HasName name ↔ s.HasName name) ∧
      ((∀ j, s'.free_map.test j = s.free_map.test j) ↔ ¬ s.Leaks name size) := by
  rcases h.inv.filesys_create name hsize e with ⟨r, t, heq, hspec, _⟩
  rw [hcreate] at heq
  rcases Prod.mk.inj (Option.some.inj heq) with ⟨rfl, rfl⟩
  cases hspec with
  | failed hno hquiet htest =>
      exact ⟨fun j hj => by rw [htest, hj], hquiet.names h, fun _ => hno, fun _ => htest⟩
  | @leaked start _ hleak hquiet hfree htest =>
      refine ⟨fun j hj => ?_, hquiet.names h, fun hsame => ?_, fun hno => absurd hleak hno⟩
      · rw [htest, hj, ite_self]
      · -- the first sector of the data was free and is not any more
        have hpos := bytes_to_sectors_pos hsize hleak.1
        have hfirst := hsame start
        rw [htest, if_pos ⟨le_refl start, by omega⟩, hfree start (le_refl start) (by omega)] at hfirst
        cases hfirst

theorem Between.create_failed_iff (h : Between s) (hsize : size < OFF_T)
    (hcreate : s.filesys_create name size e = some (false, s')) :
    Unchanged s s' ↔ ¬ s.Leaks name size := by
  rcases h.create_failed hsize hcreate with ⟨_, hnames, hiff⟩
  exact ⟨fun hsame => hiff.1 hsame.test, fun hno => ⟨hiff.2 hno, hnames⟩⟩

/-! ## Runs of failing calls -/

/-- A call of `filesys_create` with a size that is not negative returns false. -/
def FailedCreate (_ : FileSys) (l : FsCall × FsResult) : Prop :=
  ∃ name e, ∃ size : Nat, l = (FsCall.create name size e, FsResult.success false)

/-- It does so in a state in which no sectors are lost. -/
def CleanFailure (s : FileSys) (l : FsCall × FsResult) : Prop :=
  ∃ name e, ∃ size : Nat, l = (FsCall.create name size e, FsResult.success false) ∧
    ¬ s.Leaks name size

theorem step_of_create {ok : Bool} (hsize : size < OFF_T)
    (hcreate : s.filesys_create name size e = some (ok, t)) :
    fsRuns.step s (FsCall.create name size e, FsResult.success ok) t := by
  have hallowed : (FsCall.create name size e).Allowed s := Int.ofNat_lt.2 hsize
  have hrun : (FsCall.create name size e).run s = some (FsResult.success ok, t) := by
    rw [FsCall.run, hcreate, Option.map_some]
  exact ⟨hallowed, hrun⟩

/-- The call of a step. -/
theorem step_create {l : FsCall × FsResult} (hstep : fsRuns.step s l t)
    (hl : l = (FsCall.create name size e, FsResult.success false)) :
    size < OFF_T ∧ s.filesys_create name size e = some (false, t) := by
  rcases hstep with ⟨hallowed, hrun⟩
  subst hl
  have hlt : (size : Int) < OFF_T := hallowed
  refine ⟨by exact_mod_cast hlt, ?_⟩
  cases hcreate : s.filesys_create name size e with
  | none =>
      simp only [FsCall.run, hcreate, Option.map_none] at hrun
      cases hrun
  | some r =>
      simp only [FsCall.run, hcreate, Option.map_some, Option.some.injEq, Prod.mk.injEq,
        FsResult.success.injEq] at hrun
      rw [← hrun.1, ← hrun.2]

theorem failed_run (h : fsRuns.Reachable s) (hrun : (fsRuns.restrict FailedCreate).Exec s ls t) :
    fsRuns.Reachable t ∧ (∀ j, s.free_map.test j = true → t.free_map.test j = true) ∧
      ((∀ j, t.free_map.test j = s.free_map.test j) → (fsRuns.restrict CleanFailure).Exec s ls t) := by
  induction hrun with
  | nil =>
      exact ⟨h, fun _ hj => hj, fun _ => System.Exec.nil _⟩
  | @snoc t u ls l _ hstep ih =>
      rcases ih with ⟨hreach, hmono, hclean⟩
      rcases hstep with ⟨hstep, name, e, size, hl⟩
      rcases step_create hstep hl with ⟨hsize, hcreate⟩
      rcases (fsRuns_between hreach).create_failed hsize hcreate with ⟨hmono', _, hiff⟩
      refine ⟨System.Reachable.step hreach hstep, fun j hj => hmono' j (hmono j hj), fun hsame => ?_⟩
      -- bits are only set, so they are the same in between
      have hfirst : ∀ j, t.free_map.test j = s.free_map.test j := by
        intro j
        cases hj : s.free_map.test j with
        | true =>
            exact hmono j hj
        | false =>
            rw [← hsame j] at hj
            exact Bool.eq_false_iff.2 fun hset => Bool.eq_false_iff.1 hj (hmono' j hset)
      have hlast : ∀ j, u.free_map.test j = t.free_map.test j := fun j => by rw [hsame, hfirst]
      exact System.Exec.snoc (hclean hfirst) ⟨hstep, name, e, size, hl, hiff.1 hlast⟩

theorem clean_run (h : fsRuns.Reachable s) (hrun : (fsRuns.restrict CleanFailure).Exec s ls t) :
    fsRuns.Reachable t ∧ Unchanged s t := by
  induction hrun with
  | nil =>
      exact ⟨h, Unchanged.refl _⟩
  | snoc _ hstep ih =>
      rcases ih with ⟨hreach, hsame⟩
      rcases hstep with ⟨hstep, name, e, size, hl, hno⟩
      rcases step_create hstep hl with ⟨hsize, hcreate⟩
      exact ⟨System.Reachable.step hreach hstep,
        hsame.trans (((fsRuns_between hreach).create_failed_iff hsize hcreate).2 hno)⟩

/-! ## A name that is too short -/

theorem Mallocs.Ample.root_mem (hs : s.mem.Ample) : s.root_mem.Ample := by
  rw [FileSys.root_mem]
  split
  · exact hs.tail
  · exact hs.tail.tail

theorem Mallocs.Ample.inode_mem (hs : s.mem.Ample) : s.inode_mem.Ample :=
  Mallocs.Ample.after hs.root_mem 0 _

theorem Mallocs.Ample.dir_mem (hs : s.mem.Ample) : s.dir_mem.Ample :=
  Mallocs.Ample.after hs.inode_mem.tail 0 _

/-- A sector for an inode is free and, apart from it, so are sectors in a row for `size` bytes. -/
def FileSys.HasRoom (s : FileSys) (size : Nat) : Prop :=
  ∃ i start, s.free_map.FirstRun 0 1 false i ∧
    start + bytes_to_sectors size ≤ s.free_map.bit_cnt ∧
    ∀ j, start ≤ j → j < start + bytes_to_sectors size → j ≠ i ∧ s.free_map.test j = false

/-- With memory and with room, `filesys_create` comes to the directory. -/
theorem FileSys.HasRoom.reaches (h : s.HasRoom size) (hs : s.mem.Ample) : s.ReachesAdd size := by
  have hinode := hs.inode_mem
  rcases h with ⟨i, start, hfirst, hfits, hrun⟩
  have hmem : (s.at_inode i).mem = s.inode_mem := by
    rw [FileSys.at_inode, FileSys.setMap_mem, FileSys.setMem_mem]
  have hcnt : (s.at_inode i).free_map.bit_cnt = s.free_map.bit_cnt := by
    rw [FileSys.at_inode, FileSys.setMap_free_map, bitmap_mark]
  refine ⟨hs.rootOk, Or.inr (hs.root_mem 0), i, hfirst, ?_, fun hno => ?_, ?_⟩
  · rw [hmem]
    exact hinode 0
  · refine hno start (Nat.zero_le _) (le_of_le_of_eq hfits hcnt.symm) fun j hj hj' => ?_
    rw [FileSys.at_inode, FileSys.setMap_free_map, test_mark, decide_eq_false (hrun j hj hj').1,
      Bool.false_or]
    exact (hrun j hj hj').2
  · rw [FileSys.MapWritable, FileSys.setMem_mem, hmem]
    exact Or.inr (hinode.tail 0)

/-- The sector for an inode comes no later than any free one. -/
theorem Between.first_free (h : Between s) {k : Nat} (hk : k < s.free_map.bit_cnt)
    (hfree : s.free_map.test k = false) : ∃ i, i ≤ k ∧ s.free_map.FirstRun 0 1 false i := by
  have hone : s.free_map.RunAt k 1 false := by
    intro j hj hj'
    obtain rfl : j = k := by omega
    exact hfree
  rcases @bitmap_scan_spec s.free_map 0 1 false (Nat.zero_le _) h.inv.layout.bit_cnt_lt with
    ⟨i, _, hfirst⟩ | ⟨_, hno⟩
  · exact ⟨i, Nat.le_of_not_lt fun hlt => hfirst.least k (Nat.zero_le k) hlt hone, hfirst⟩
  · exact absurd hone (hno k (Nat.zero_le k) hk)

/-- Two free sectors are room for a file of 512 bytes. -/
theorem Between.hasRoom_of_free (h : Between s) {j : Nat} (hj : j + 1 < s.free_map.bit_cnt)
    (hfree : s.free_map.test j = false) (hfree' : s.free_map.test (j + 1) = false) :
    s.HasRoom 512 := by
  have hsectors : bytes_to_sectors 512 = 1 := bytes_to_sectors_eq (by decide)
  rcases h.first_free (by omega) hfree with ⟨i, hle, hfirst⟩
  refine ⟨i, j + 1, hfirst, by rw [hsectors]; exact hj, fun l hl hl' => ?_⟩
  obtain rfl : l = j + 1 := by omega
  exact ⟨by omega, hfree'⟩

/-- With memory and two free sectors, sectors are lost to a file that cannot get its name. -/
theorem Between.leaks_of_free (h : Between s) (hs : s.mem.Ample) (hname : name.chars = []) {j : Nat}
    (hj : j + 1 < s.free_map.bit_cnt) (hfree : s.free_map.test j = false)
    (hfree' : s.free_map.test (j + 1) = false) : s.Leaks name 512 :=
  ⟨by decide, (h.hasRoom_of_free hj hfree hfree').reaches hs, fun hok => hok.ne_nil hname⟩

theorem NoNames.scan_absent (h : NoNames s.fs_device) (name : CString) :
    (s.scanned (FileSys.names name)).1 = false := by
  by_contra hfound
  rcases FileSys.scanned_found (Bool.eq_true_of_not_eq_false hfound) with ⟨hlt, hnames⟩
  rw [FileSys.names, h _ hlt, Bool.false_and] at hnames
  cases hnames

theorem NoNames.scan_slot (h : NoNames s.fs_device) (hs : s.mem.Ample) :
    (s.scanned fun e => !e.in_use).2.1 < ROOT_ENTRIES := by
  have hpos : 0 < ROOT_ENTRIES := by decide
  have hfree := h 0 hpos
  have hfound : (s.scanned fun e => !e.in_use).1 = true := by
    by_contra hfull
    have hused := (FileSys.scanned_none hs (Bool.eq_false_of_not_eq_true hfull)).2 0 hpos
    rw [hfree] at hused
    exact absurd hused (by decide)
  exact (FileSys.scanned_found hfound).1

/-- A new disk of 64 sectors has most of them free. -/
theorem FreshSystem.free (h : FreshSystem s) (hcnt : s.free_map.bit_cnt = 64) {j : Nat} (hj : 4 ≤ j)
    (hlt : j < 64) : s.free_map.test j = false := by
  have hused : 3 + bytes_to_sectors (byte_cnt 64) = 4 := by decide
  refine h.free_above j ?_ (by rwa [hcnt])
  rw [hcnt, hused]
  exact hj

/-- An empty directory takes any name that a file may have. -/
theorem NoNames.addOk (h : NoNames s.fs_device) (hs : s.mem.Ample) (hne : name.chars ≠ [])
    (hlen : name.chars.length ≤ NAME_MAX) : s.AddOk name := by
  have hscanned := hs.scanned (FileSys.names name)
  have hslot : ∀ mem : Mallocs, mem.Ample →
      ((s.setMem mem).scanned fun e => !e.in_use).2.1 < ROOT_ENTRIES ∧
        ((s.setMem mem).scanned fun e => !e.in_use).2.2 0 = true := fun mem hmem =>
    ⟨NoNames.scan_slot (s := s.setMem mem) h hmem,
      Mallocs.Ample.scanned (s := s.setMem mem) hmem _ 0⟩
  rcases hslot _ hscanned with ⟨hlt, hmemory⟩
  exact ⟨hne, hlen, h.scan_absent name, hlt, hmemory⟩

theorem no_null_nil : (0 : UInt8) ∉ [] := List.not_mem_nil

def empty_name : CString := ⟨[], no_null_nil⟩

/-- A file without a name is not created. -/
theorem Between.create_nameless (h : Between s) (hsize : size < OFF_T) (e : DirEntry) :
    ∃ t, s.filesys_create empty_name size e = some (false, t) ∧ Quiet s t := by
  rcases h.inv.filesys_create empty_name hsize e with ⟨r, t, hcreate, hspec, _⟩
  cases hspec with
  | failed _ hquiet | leaked _ hquiet => exact ⟨t, hcreate, hquiet⟩
  | created _ _ hcreated => exact absurd rfl hcreated.ne_nil

/-- A new disk that has got a file. -/
theorem blank_disk_create (hne : name.chars ≠ []) (hlen : name.chars.length ≤ NAME_MAX) :
    ∃ s, fsRuns.Reachable s ∧ s.mem.Ample ∧ s.HasName name := by
  rcases blank_disk_format with ⟨s, heq, hfresh, hcnt, hample⟩
  have hreach : fsRuns.Reachable s := System.Reachable.init ⟨_, _, _, heq⟩
  have hroom : s.HasRoom 512 := hfresh.between.hasRoom_of_free (j := 10) (by rw [hcnt]; decide)
    (hfresh.free hcnt (by decide) (by decide)) (hfresh.free hcnt (by decide) (by decide))
  have hok : ∀ mem : Mallocs, mem.Ample → (s.setMem mem).AddOk name := fun mem hmem =>
    NoNames.addOk (s := s.setMem mem) hfresh.no_names hmem hne hlen
  have hsize : 512 < OFF_T := by decide
  rcases hfresh.inv.filesys_create_true hsize (hroom.reaches hample) (hok _ hample.dir_mem)
    (DirEntry.ofBytes fun _ => 0) with ⟨i, t, hcreate, hcreated⟩
  refine ⟨t, System.Reachable.step hreach (step_of_create hsize hcreate), hcreated.ample hample, ?_⟩
  · rcases hcreated.entry with ⟨k, e, hk, -, huse, -, hstr, hentry⟩
    refine ⟨k, hk, ?_⟩
    rw [hentry k hk, if_pos rfl]
    exact FileSys.names_iff.2 ⟨huse, hstr.symm⟩

/-! ## Calls that fail -/

/-- A call of `filesys_create` that fails leaves the free map and the names as they were if and only
if it does not lose sectors; and so does a run of such calls if and only if none of them does. -/
theorem failed_creates_unchanged_iff (h : fsRuns.Reachable s) :
    (∀ (name : CString) (size : Nat) (e : DirEntry) (s' : FileSys), size < OFF_T →
      s.filesys_create name size e = some (false, s') → (Unchanged s s' ↔ ¬ s.Leaks name size)) ∧
    ∀ (ls : List (FsCall × FsResult)) (t : FileSys), (fsRuns.restrict FailedCreate).Exec s ls t →
      (Unchanged s t ↔ (fsRuns.restrict CleanFailure).Exec s ls t) :=
  ⟨fun _ _ _ _ hsize hcreate => (fsRuns_between h).create_failed_iff hsize hcreate,
    fun _ _ hrun => ⟨fun hsame => (failed_run h hrun).2.2 hsame.test, fun hclean => (clean_run h hclean).2⟩⟩

/-- On a new disk: a file of no bytes without a name leaves nothing behind, and then one of 512
bytes does. -/
theorem failed_creates_unchanged_iff_blank_disk : ∃ (s t u : FileSys) (e : DirEntry),
    FileSys.filesys_init blank_disk unlimited (fun _ => 0) true = some s ∧
    (fsRuns.restrict FailedCreate).Exec s
      [(FsCall.create empty_name (0 : Nat) e, FsResult.success false)] t ∧ Unchanged s t ∧
    (fsRuns.restrict FailedCreate).Exec t
      [(FsCall.create empty_name (512 : Nat) e, FsResult.success false)] u ∧ ¬ Unchanged t u := by
  rcases blank_disk_format with ⟨s, heq, hfresh, hcnt, hample⟩
  have hreach : fsRuns.Reachable s := System.Reachable.init ⟨_, _, _, heq⟩
  -- the variable on the stack is a zero
  let e := DirEntry.ofBytes fun _ => 0
  have hzero : 0 < OFF_T := by decide
  have hsize : 512 < OFF_T := by decide
  rcases hfresh.between.create_nameless hzero e with ⟨t, hcreate, hquiet⟩
  have hstep := step_of_create hzero hcreate
  have hclean : (fsRuns.restrict CleanFailure).Exec s _ t :=
    System.Exec.single ⟨hstep, _, _, _, rfl, fun hleak => absurd hleak.1 (Nat.lt_irrefl 0)⟩
  have hfailed : (fsRuns.restrict FailedCreate).Exec s _ t :=
    System.Exec.single ⟨hstep, _, _, _, rfl⟩
  have hsame := ((failed_creates_unchanged_iff hreach).2 _ t hfailed).2 hclean
  have hreach' := System.Reachable.step hreach hstep
  have ht := fsRuns_between hreach'
  have hfree : ∀ j, 4 ≤ j → j < 64 → t.free_map.test j = false := fun j hj hj' =>
    (hsame.test j).trans (hfresh.free hcnt hj hj')
  have hleak : t.Leaks empty_name 512 := ht.leaks_of_free (hquiet.ample hample) rfl (j := 10)
    (by rw [hquiet.bit_cnt, hcnt]; decide) (hfree 10 (by decide) (by decide))
    (hfree 11 (by decide) (by decide))
  rcases ht.create_nameless hsize e with ⟨u, hcreate', _⟩
  refine ⟨s, t, u, e, heq, hfailed, hsame,
    System.Exec.single ⟨step_of_create hsize hcreate', _, _, _, rfl⟩, fun hsame' => ?_⟩
  exact ((failed_creates_unchanged_iff hreach').1 _ _ e u hsize hcreate').1 hsame' hleak

/-- On a new disk, a file of 512 bytes without a name takes a sector that is not given back. -/
theorem nameless_create_leaks :
    ¬ ∀ (s : FileSys) (name : CString) (size : Nat) (e : DirEntry) (s' : FileSys), fsRuns.Reachable s →
      size < OFF_T → s.filesys_create name size e = some (false, s') → Unchanged s s' := by
  intro hall
  rcases blank_disk_format with ⟨s, heq, hfresh, hcnt, hample⟩
  have hreach : fsRuns.Reachable s := System.Reachable.init ⟨_, _, _, heq⟩
  have hs := hfresh.between
  have hleak : s.Leaks empty_name 512 := hs.leaks_of_free hample rfl (j := 10) (by rw [hcnt]; decide)
    (hfresh.free hcnt (by decide) (by decide)) (hfresh.free hcnt (by decide) (by decide))
  -- the variable on the stack is a zero
  let e := DirEntry.ofBytes fun _ => 0
  have hsize : 512 < OFF_T := by decide
  rcases hs.create_nameless hsize e with ⟨s', hcreate, _⟩
  exact (hs.create_failed_iff hsize hcreate).1 (hall s _ _ e s' hreach hsize hcreate) hleak

end Berk162
