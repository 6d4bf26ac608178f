import Berk162.Filesys.DirCalls
import Berk162.Lib.Transition

/-!
# DirMemory — a directory while memory runs out

Any calls of `dir_add` and `dir_remove` on one directory, with any answers of `malloc`.  They keep the
names apart and the other entries as they are as long as no `dir_add` is misled by a read that is
short for want of memory: it may miss the name and add it again, or take an entry in use for the end
of the directory and write over it.  `MemoryLasts` is when it is not; `dir_remove` never is.
-/

namespace Berk162

variable {s s' : FileSys} {p k : Nat} {data : InodeDisk} {name : CString}

/-- The entries in use have names that files may have, each its own. -/
structure DistinctNames (s : FileSys) (data : InodeDisk) : Prop where
  valid : ∀ k, k < dir_entries data → (entry_at s.fs_device data k).in_use = true →
    (entry_at s.fs_device data k).str ≠ [] ∧ (entry_at s.fs_device data k).str.length ≤ NAME_MAX
  distinct : ∀ k l, k < dir_entries data → l < dir_entries data →
    (entry_at s.fs_device data k).in_use = true → (entry_at s.fs_device data l).in_use = true →
    (entry_at s.fs_device data k).str = (entry_at s.fs_device data l).str → k = l

/-- A call, with what its variable `e` holds before. -/
inductive DirCall
  | add (name : CString) (inode_sector : UInt32) (e : DirEntry)
  | remove (name : CString) (e : DirEntry)

namespace DirCall

def run (p : Nat) (s : FileSys) : DirCall → Option (Bool × FileSys)
  | .add name inode_sector e => s.dir_add p name inode_sector.toNat e
  | .remove name e => s.dir_remove p name e

/-- What a call that returns `ok` has to do to the entries. -/
def Effect (data : InodeDisk) (s s' : FileSys) (ok : Bool) (c : DirCall) : Prop :=
  if ok = true then
    ∃ r, r < dir_entries data ∧
      (∀ l, l < dir_entries data → l ≠ r →
        entry_at s'.fs_device data l = entry_at s.fs_device data l) ∧
      match c with
      | .add name inode_sector _ =>
          (entry_at s.fs_device data r).in_use = false ∧
            (entry_at s'.fs_device data r).in_use = true ∧
            (entry_at s'.fs_device data r).str = name.chars ∧
            (entry_at s'.fs_device data r).inode_sector = inode_sector.toNat
      | .remove name _ =>
          FileSys.names name (entry_at s.fs_device data r) = true ∧
            entry_at s'.fs_device data r = { entry_at s.fs_device data r with in_use := false }
  else SameEntries data s s'

/-- If `dir_add` is going to write entry `r`, memory has not run out while it came to an entry of that
name, and its search for a slot has not been cut short at an entry in use. -/
def MemoryLasts (p : Nat) (s : FileSys) : DirCall → Prop
  | .add name _ _ => ∀ i r, s.open_inodes.get p = some i → AddsAt s i name r →
      (∀ m, m < dir_entries i.data →
        FileSys.names name (entry_at s.fs_device i.data m) = true → ∀ j, j ≤ m → s.mem j = true) ∧
      (entry_at s.fs_device i.data r).in_use = false
  | .remove _ _ => True

end DirCall

/-- The runs of calls on the directory that is open at `p`, with the answers they get. -/
def directory (p : Nat) (data : InodeDisk) : System FileSys (DirCall × Bool) where
  init s := DirReady s [] p data ∧ DistinctNames s data
  step s l s' := l.1.run p s = some (l.2, s')

/-- The names stay apart, and the call does what its answer says. -/
def Intact (data : InodeDisk) (s : FileSys) (l : DirCall × Bool) (s' : FileSys) : Prop :=
  DistinctNames s' data ∧ l.1.Effect data s s' l.2

/-- An entry is replaced by one not in use, or by one with a name that no other entry has. -/
theorem DistinctNames.replace {r : Nat} {e : DirEntry} (h : DistinctNames s data)
    (hentry : ∀ l, l < dir_entries data → entry_at s'.fs_device data l =
      if l = r then e else entry_at s.fs_device data l)
    (hvalid : e.in_use = true → e.str ≠ [] ∧ e.str.length ≤ NAME_MAX)
    (hnew : e.in_use = true → ∀ l, l < dir_entries data → l ≠ r →
      (entry_at s.fs_device data l).in_use = true → (entry_at s.fs_device data l).str ≠ e.str) :
    DistinctNames s' data := by
  refine ⟨fun k hk => ?_, fun k l hk hl => ?_⟩
  · rw [hentry k hk]
    split
    · exact hvalid
    · exact h.valid k hk
  · rw [hentry k hk, hentry l hl]
    by_cases hkr : k = r
    · by_cases hlr : l = r
      · exact fun _ _ _ => hkr.trans hlr.symm
      · rw [if_pos hkr, if_neg hlr]
        intro hke hle heq
        exact absurd heq.symm (hnew hke l hl hlr hle)
    · by_cases hlr : l = r
      · rw [if_neg hkr, if_pos hlr]
        intro hke hle heq
        exact absurd heq (hnew hle k hk hkr hke)
      · rw [if_neg hkr, if_neg hlr]
        exact h.distinct k l hk hl

theorem DistinctNames.same (h : DistinctNames s data) (hsame : SameEntries data s s') :
    DistinctNames s' data := by
  refine ⟨fun k hk => ?_, fun k l hk hl => ?_⟩
  · rw [hsame k hk]
    exact h.valid k hk
  · rw [hsame k hk, hsame l hl]
    exact h.distinct k l hk hl

namespace AddsAt

variable {i : Inode} {r r' m : Nat}

theorem unique (h : AddsAt s i name r) (h' : AddsAt s i name r') : r = r' := by
  obtain ⟨k, hk, _, hr, _⟩ := h.mallocs
  obtain ⟨k', hk', _, hr', _⟩ := h'.mallocs
  obtain rfl := hk.unique hk'
  exact hr.unique hr'

/-- If `dir_add` writes although the name is there, its check has not come so far. -/
theorem cut_short (h : AddsAt s i name r) (hm : m < dir_entries i.data)
    (hnames : FileSys.names name (entry_at s.fs_device i.data m) = true) :
    ∃ j, j ≤ m ∧ s.mem j = false := by
  obtain ⟨k, hk, hnot, _⟩ := h.mallocs
  have hle : k ≤ m := by
    by_contra hlt
    have hstop := (hk.before m (Nat.lt_of_not_le hlt)).2
    rw [hnames] at hstop
    cases hstop
  refine ⟨k, hle, ?_⟩
  exact Bool.eq_false_iff.2 fun hmem => hnot ⟨Nat.lt_of_le_of_lt hle hm, hmem⟩

end AddsAt

/-- Where no call of `malloc` fails, memory lasts. -/
theorem DirCall.memory_lasts (c : DirCall) (hmem : s.mem.Ample) : c.MemoryLasts p s := by
  cases c with
  | add name inode_sector e =>
      intro i r _ hadds
      obtain ⟨k, _, _, hr, _⟩ := hadds.mallocs
      refine ⟨fun m _ _ j _ => hmem j, ?_⟩
      -- the search has ended at an entry that is free
      have hstop := (hr.here hadds.slot).resolve_left fun hnone => by
        rw [Mallocs.drop, hmem] at hnone
        cases hnone
      rwa [Bool.not_eq_true'] at hstop
  | remove name e =>
      trivial

/-! ## One call -/

section
variable {i : Inode} {r : Nat} {e' : DirEntry} {inode_sector : UInt32} {e : DirEntry} {ok : Bool}

/-- After `dir_add` has written entry `r`, all is well if and only if the name was not there and the
entry was not in use. -/
theorem intact_added_iff (h : DistinctNames s data) (hr : r < dir_entries data)
    (hname : name.chars ≠ [] ∧ name.chars.length ≤ NAME_MAX) (hstr : e'.str = name.chars)
    (hsector : e'.inode_sector = inode_sector.toNat) (hin_use : e'.in_use = true)
    (hentry : ∀ l, entry_at s'.fs_device data l =
      if l = r then e' else entry_at s.fs_device data l) :
    Intact data s (.add name inode_sector e, true) s' ↔
      (∀ m, m < dir_entries data → FileSys.names name (entry_at s.fs_device data m) = false) ∧
        (entry_at s.fs_device data r).in_use = false := by
  have hwritten : entry_at s'.fs_device data r = e' := (hentry r).trans (if_pos rfl)
  have hothers : ∀ l, l ≠ r → entry_at s'.fs_device data l = entry_at s.fs_device data l :=
    fun l hl => (hentry l).trans (if_neg hl)
  constructor
  · rintro ⟨hdistinct, heffect⟩
    rw [DirCall.Effect, if_pos rfl] at heffect
    obtain ⟨r', hr', _, hfree, hused, _⟩ := heffect
    -- the entry that was free and is in use now is the one that was written
    have hr'r : r' = r := by
      by_contra hne
      rw [hothers r' hne, hfree] at hused
      cases hused
    subst hr'r
    refine ⟨fun m hm => Bool.eq_false_iff.2 fun hnames => ?_, hfree⟩
    obtain ⟨huse, hmstr⟩ := FileSys.names_iff.1 hnames
    by_cases hmr : m = r'
    · rw [hmr, hfree] at huse
      cases huse
    · refine hmr (hdistinct.distinct m r' hm hr' ?_ hused ?_)
      · rw [hothers m hmr]
        exact huse
      · rw [hothers m hmr, hwritten, ← hmstr, hstr]
  · rintro ⟨habsent, hfree⟩
    refine ⟨h.replace (fun l _ => hentry l) (fun _ => hstr ▸ hname) fun _ l hl _ huse heq => ?_, ?_⟩
    · have hnames := FileSys.names_iff.2 ⟨huse, (heq.trans hstr).symm⟩
      rw [habsent l hl] at hnames
      cases hnames
    · rw [DirCall.Effect, if_pos rfl]
      refine ⟨r, hr, fun l _ hl => hothers l hl, hfree, ?_⟩
      rw [hwritten]
      exact ⟨hin_use, hstr, hsector⟩

theorem intact_of_same {c : DirCall} (h : DistinctNames s data) (hsame : SameEntries data s s') :
    Intact data s (c, false) s' := by
  refine ⟨h.same hsame, ?_⟩
  rw [DirCall.Effect, if_neg Bool.false_ne_true]
  exact hsame

theorem add_intact_iff (hready : DirReady s [] p data) (h : DistinctNames s data)
    (hrun : s.dir_add p name inode_sector.toNat e = some (ok, s')) :
    DirReady s' [] p data ∧ (Intact data s (.add name inode_sector e, ok) s' ↔
      (DirCall.add name inode_sector e).MemoryLasts p s) := by
  obtain ⟨i, hdir, rfl⟩ := hready.dir_open
  obtain ⟨ok', s'', hrun', hsame, hcases⟩ := dir_add_spec hdir name inode_sector.toNat_lt e
  obtain ⟨rfl, rfl⟩ := Prod.mk.inj (Option.some.inj (hrun'.symm.trans hrun))
  refine ⟨hready.same_open hsame, ?_⟩
  obtain ⟨rfl, r, e', hadds, hstr, hsector, hin_use, hentry⟩ | ⟨rfl, hnone, hsame⟩ := hcases
  · rw [intact_added_iff h hadds.slot ⟨hadds.ne_nil, hadds.length_le⟩ hstr hsector hin_use hentry]
    constructor
    · rintro ⟨habsent, hfree⟩ j r' hj hadds'
      obtain rfl := Option.some.inj (hdir.get.symm.trans hj)
      obtain rfl := hadds.unique hadds'
      refine ⟨fun m hm hnames => ?_, hfree⟩
      rw [habsent m hm] at hnames
      cases hnames
    · intro hlasts
      obtain ⟨hcheck, hfree⟩ := hlasts i r hdir.get hadds
      refine ⟨fun m hm => Bool.eq_false_iff.2 fun hnames => ?_, hfree⟩
      obtain ⟨j, hj, hmem⟩ := hadds.cut_short hm hnames
      rw [hcheck m hm hnames j hj] at hmem
      cases hmem
  · refine iff_of_true (intact_of_same h hsame) fun j r hj hadds => ?_
    obtain rfl := Option.some.inj (hdir.get.symm.trans hj)
    exact absurd hadds (hnone r)

theorem remove_intact (hready : DirReady s [] p data) (h : DistinctNames s data)
    (hrun : s.dir_remove p name e = some (ok, s')) :
    DirReady s' [] p data ∧ Intact data s (.remove name e, ok) s' := by
  obtain ⟨hready', hcases⟩ := hready.dir_remove_spec hrun
  refine ⟨hready', ?_⟩
  obtain ⟨rfl, r, hr, hnames, hentry⟩ | ⟨rfl, hsame⟩ := hcases
  · -- the new entry is not in use, so that there is nothing to say about its name
    refine ⟨h.replace hentry (fun huse => absurd huse Bool.false_ne_true)
      (fun huse => absurd huse Bool.false_ne_true), ?_⟩
    rw [DirCall.Effect, if_pos rfl]
    refine ⟨r, hr, fun l hl hne => (hentry l hl).trans (if_neg hne), hnames, ?_⟩
    exact (hentry r hr).trans (if_pos rfl)
  · exact intact_of_same h hsame

end

/-! ## Runs -/

/-- In a run from a directory with names apart each call does what its answer says, and keeps the names
apart, if and only if memory lasts for each `dir_add` of the run. -/
theorem dir_runs_intact_iff {ls : List (DirCall × Bool)} (h : (directory p data).init s) :
    ((directory p data).only (Intact data)).Exec s ls s' ↔
      ((directory p data).restrict fun s l => l.1.MemoryLasts p s).Exec s ls s' := by
  refine System.Exec.only_iff_restrict (I := (directory p data).init) ?_ h
  rintro t ⟨c, ok⟩ t' ⟨hready, hdistinct⟩ hstep
  cases c with
  | add name inode_sector e =>
      obtain ⟨hready', hiff⟩ := add_intact_iff hready hdistinct hstep
      exact ⟨hiff, fun hintact => ⟨hready', hintact.1⟩⟩
  | remove name e =>
      obtain ⟨hready', hintact⟩ := remove_intact hready hdistinct hstep
      exact ⟨iff_of_true hintact trivial, fun _ => ⟨hready', hintact.1⟩⟩

/-! ## A directory of two entries -/

/-- The entry of a file `a`. -/
def entry_a : DirEntry := ⟨5, 97 :: List.replicate NAME_MAX 0, rfl, true⟩

/-- A disk on which every sector begins with that entry. -/
def device_a : Block :=
  ⟨[], .filesys, 64, sixty_four_lt, fun _ => Sector.ofBytes fun k => entry_a.toBytes.getD k 0⟩

def two_entries : InodeDisk := ⟨20, 40, INODE_MAGIC⟩

/-- The directory of the file `a` and a free entry, open at 0. -/
def dir_a (mem : Mallocs) : FileSys where
  fs_device := device_a
  mem := mem
  open_inodes := Store.empty.alloc ⟨10, 1, false, 0, two_entries⟩
  files := Store.empty
  free_map := ⟨64, fun _ => 0⟩
  free_map_file := none

theorem dir_a_init (mem : Mallocs) : (directory 0 two_entries).init (dir_a mem) := by
  have h0 : entry_at device_a two_entries 0 = entry_a := by decide +kernel
  have h1 : (entry_at device_a two_entries 1).in_use = false := by decide +kernel
  have hzero : ∀ k, k < dir_entries two_entries →
      (entry_at device_a two_entries k).in_use = true → k = 0 := by
    intro k hk huse
    obtain rfl | rfl : k = 0 ∨ k = 1 := Nat.le_one_iff_eq_zero_or_eq_one.1 (Nat.le_of_lt_succ hk)
    · rfl
    · rw [h1] at huse
      cases huse
  have hfits : two_entries.Fits device_a := ⟨by decide, by decide⟩
  have htype : device_a.type ≠ .foreign := by decide
  refine ⟨⟨⟨_, rfl, rfl, by decide⟩, hfits, htype,
      fun f hf => absurd hf.symm (Option.some_ne_none f)⟩,
    fun k hk huse => ?_, fun k l hk hl hku hlu _ => (hzero k hk hku).trans (hzero l hl hlu).symm⟩
  obtain rfl := hzero k hk huse
  change (entry_at device_a two_entries 0).str ≠ [] ∧
    (entry_at device_a two_entries 0).str.length ≤ NAME_MAX
  rw [h0]
  decide

/-- With memory enough a file `b` is added. -/
theorem dir_runs_intact_added : ∃ s', ((directory 0 two_entries).only (Intact two_entries)).Exec
    (dir_a fun _ => true) [(.add ⟨[98], by decide⟩ 6 entry_a, true)] s' := by
  have hrun : (DirCall.run 0 (dir_a fun _ => true) (.add ⟨[98], by decide⟩ 6 entry_a)).map Prod.fst =
      some true := by decide +kernel
  obtain ⟨⟨ok, s'⟩, hcall, rfl⟩ := Option.map_eq_some_iff.1 hrun
  refine ⟨s', (dir_runs_intact_iff (dir_a_init _)).2 (System.Exec.single ⟨hcall, ?_⟩)⟩
  exact (DirCall.add _ _ _).memory_lasts fun _ => rfl

/-- The one call of `malloc` that fails is the first, which is for the entry of `a` in the check:
`dir_add` adds another `a` and returns true. -/
theorem short_read_doubles_name : (directory 0 two_entries).init (dir_a fun n => n != 0) ∧
    ∃ s', (directory 0 two_entries).Exec (dir_a fun n => n != 0)
      [(.add ⟨[97], by decide⟩ 6 entry_a, true)] s' ∧ ¬ DistinctNames s' two_entries := by
  have hrun : (DirCall.run 0 (dir_a fun n => n != 0) (.add ⟨[97], by decide⟩ 6 entry_a)).map
      (fun x => (x.1, [0, 1].map fun k => ((entry_at x.2.fs_device two_entries k).in_use,
        (entry_at x.2.fs_device two_entries k).str))) =
      some (true, [(true, [97]), (true, [97])]) := by decide +kernel
  obtain ⟨⟨ok, s'⟩, hcall, hentries⟩ := Option.map_eq_some_iff.1 hrun
  obtain ⟨rfl, hentries⟩ := Prod.mk.inj hentries
  simp only [List.map_cons, List.map_nil, List.cons.injEq, Prod.mk.injEq, and_true] at hentries
  obtain ⟨⟨huse0, hstr0⟩, huse1, hstr1⟩ := hentries
  refine ⟨dir_a_init _, s', System.Exec.single hcall, fun hdistinct => ?_⟩
  have heq := hdistinct.distinct 0 1 (by decide) (by decide) huse0 huse1 (hstr0.trans hstr1.symm)
  cases heq

end Berk162
