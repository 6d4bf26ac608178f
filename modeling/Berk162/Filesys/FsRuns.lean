import Berk162.Filesys.FsFormat
import Berk162.Lib.Transition

/-!
# FsRuns — runs of the file system

The file system as a transition system, whose steps are the calls that the rest of the kernel makes.
A file that has been returned to a caller is a handle until the caller closes it.

`FsInv` holds in every state that is reached; what it says of names, files and sectors is stated as
`Consistent`.
-/

namespace Berk162

/-! ## Calls -/

/-- The calls of the file system.  `e` is what is on the stack where the call has its entry. -/
inductive FsCall
  | create (name : CString) (initial_size : Int) (e : DirEntry)
  | openFile (name : CString) (e : DirEntry)
  | remove (name : CString) (e : DirEntry)
  | reopen (file : Nat)
  | close (file : Nat)
  | read (file size : Nat)
  | write (file : Nat) (buffer : Bytes)
  | seek (file new_pos : Nat)

/-- What a call returns. -/
inductive FsResult
  | done
  | success (ok : Bool)
  | file (file : Option Nat)
  | bytes (bytes : Bytes)
  | count (n : Nat)
  deriving DecidableEq

/-- A file that was returned to a caller, and that has not been closed. -/
def FileSys.IsHandle (s : FileSys) (f : Nat) : Prop :=
  s.free_map_file ≠ some f ∧ ∃ file, s.files.get f = some file

namespace FsCall

/-- The calls that can be made: a size is an `off_t`, and a file is a handle. -/
def Allowed (s : FileSys) : FsCall → Prop
  | create _ initial_size _ => initial_size < OFF_T
  | openFile _ _ => True
  | remove _ _ => True
  | reopen f => s.IsHandle f
  | close f => s.IsHandle f
  | read f _ => s.IsHandle f
  | write f _ => s.IsHandle f
  | seek f _ => s.IsHandle f

/-- The result of a call, and the state after it. -/
def run (s : FileSys) : FsCall → Option (FsResult × FileSys)
  | create name initial_size e =>
      (s.filesys_create name initial_size e).map fun r => (FsResult.success r.1, r.2)
  | openFile name e => (s.filesys_open name e).map fun r => (FsResult.file r.1, r.2)
  | remove name e => (s.filesys_remove name e).map fun r => (FsResult.success r.1, r.2)
  | reopen f => (s.file_reopen f).map fun r => (FsResult.file r.1, r.2)
  | close f => (s.file_close f).map fun s => (FsResult.done, s)
  | read f size => (s.file_read f size).map fun r => (FsResult.bytes r.1, r.2)
  | write f buffer => (s.file_write f buffer).map fun r => (FsResult.count r.1, r.2)
  | seek f new_pos => (s.file_seek f new_pos).map fun s => (FsResult.done, s)

end FsCall

/-- The file system from when it has been formatted, whatever the memory and the device are. -/
def fsRuns : System FileSys (FsCall × FsResult) where
  init s := ∃ dev mem storage, FileSys.filesys_init dev mem storage true = some s
  step s l t := l.1.Allowed s ∧ l.1.run s = some (l.2, t)

/-! ## One call -/

variable {s s' t : FileSys} {held : List Nat} {p f i : Nat} {inode : Inode} {file : File}
  {name : CString} {e : DirEntry}

theorem FileSys.IsHandle.handle (h : s.IsHandle f) (hinv : FsInv held s) :
    ∃ file inode, Handle s f file inode := by
  rcases h with ⟨hmap, file, hf⟩
  rcases hinv.handle hf hmap with ⟨inode, hhandle⟩
  exact ⟨file, inode, hhandle⟩

/-- `inode_create` has been reached, and its assertion about the length has failed. -/
def FileSys.LengthPanic (s : FileSys) (initial_size : Int) : Prop :=
  ∃ dir s₁ i s₂, s.dir_open_root = some (some dir, s₁) ∧
    s₁.free_map_allocate 1 = some (some i, s₂) ∧ s₂.inode_create i initial_size = none

namespace FsInv

/-- No file of a negative size is created. -/
theorem filesys_create_negative (h : FsInv held s) (name : CString) {size : Int} (hsize : size < 0)
    (e : DirEntry) :
    (s.filesys_create name size e = none ∧ s.LengthPanic size) ∨
      ∃ s', s.filesys_create name size e = some (false, s') ∧ Quiet s s' ∧ FsInv held s' := by
  rcases h.dir_open_root with ⟨dir, s₁, hroot, hspec₁, hinv₁⟩
  cases dir with
  | none =>
      right
      refine ⟨s₁, ?_, hspec₁.quiet, hinv₁⟩
      simp only [FileSys.filesys_create, hroot, Option.bind_eq_bind, Option.bind_some]
      rfl
  | some p =>
      replace hinv₁ : FsInv (p :: held) s₁ := hinv₁
      have hlive₁ := hspec₁.live (Option.some_ne_none p)
      rcases hspec₁.opened p rfl with ⟨inode, hp, hsector⟩
      rcases hinv₁.free_map_allocate 1 with ⟨i, s₂, halloc, hspec₂, hu₂⟩
      have hinv₂ := hinv₁.change hu₂
      have hp₂ : s₂.open_inodes.get p = some inode := by rwa [hu₂.open_inodes]
      have hq₂ := hspec₁.quiet.trans (hinv₁.quiet_alloc hspec₂) hlive₁
      cases i with
      | none =>
          right
          rcases hinv₂.close_root List.mem_cons_self hp₂ hsector with ⟨s₃, hclose, hinv₃, hq₃, _⟩
          rw [List.erase_cons_head] at hinv₃
          refine ⟨s₃, ?_, hq₂.trans hq₃ fun j hj => (hu₂.live hinv₁.dir j).2 (hlive₁ j hj), hinv₃⟩
          simp only [FileSys.filesys_create, hroot, halloc, FileSys.dir_close, hclose,
            Option.bind_eq_bind, Option.bind_some]
          rfl
      | some i =>
          left
          have hassert : ASSERT (size ≥ 0) = none := ASSERT_neg (Int.not_le.2 hsize)
          have hpanic : s₂.inode_create i size = none := by
            simp only [FileSys.inode_create, hassert, Option.bind_eq_bind, Option.bind_none]
          refine ⟨?_, p, s₁, i, s₂, hroot, halloc, hpanic⟩
          simp only [FileSys.filesys_create, hroot, halloc, hpanic, Option.bind_eq_bind,
            Option.bind_some, Option.bind_none]

/-- A file that has been closed. -/
theorem user_close (h : FsInv held s) (huser : UserFiles s) (hf : Handle s f file inode)
    (hspec : CloseSpec (s.setFiles (s.files.erase f)) file.inode inode s') : UserFiles s' := by
  have herase := h.erase_file hf.get_file hf.user
  have hquiet := herase.quiet_close hf.get_inode List.mem_cons_self hspec
  exact (huser.erase f).of_same herase hquiet.same_files

/-- A file that has been opened. -/
theorem user_open (h : FsInv held s) (huser : UserFiles s) {r : Option Nat}
    (hspec : FileOpenSpec s name r s') : UserFiles s' := by
  cases hspec with
  | absent _ hquiet =>
      exact huser.of_same h hquiet.same_files
  | no_memory _ hsame =>
      exact huser.of_same h hsame
  | @opened k p t _ inode hk hname hquiet hp hsector _ heq =>
      have hfile := h.dir.named_file _ (named_sector hk hname).1
      rw [← hsector] at hfile
      rw [heq]
      exact UserFiles.alloc (s := t.setMem s'.mem) (huser.of_same h hquiet.same_files) hp hfile 0

theorem user_reopen (h : FsInv held s) (huser : UserFiles s) (hf : Handle s f file inode)
    {r : Option Nat} (hspec : ReopenSpec s file r s') : UserFiles s' := by
  cases hspec with
  | no_memory _ hsame =>
      exact huser.of_same h hsame
  | @opened t _ inode₀ inode' hquiet hp hp' hsector _ heq =>
      obtain rfl : inode = inode₀ := Option.some.inj (hf.get_inode.symm.trans hp)
      have hfile := huser f file inode hf.user hf.get_file hf.get_inode
      rw [← hsector] at hfile
      rw [heq]
      exact UserFiles.alloc (s := t.setMem s'.mem) (huser.of_same h hquiet.same_files) hp' hfile 0

end FsInv

/-- What every state satisfies that a call leaves behind. -/
structure Between (s : FileSys) : Prop where
  inv : FsInv [] s
  user : UserFiles s

/-- A call keeps the invariant.  It panics only where a file of a negative size is created. -/
theorem Between.call (h : Between s) {c : FsCall} (hc : c.Allowed s) :
    (∃ r s', c.run s = some (r, s') ∧ Between s') ∨
      ∃ name size e, c = FsCall.create name size e ∧ size < 0 ∧ c.run s = none ∧
        s.LengthPanic size := by
  rcases h with ⟨hinv, huser⟩
  cases c with
  | create name size e =>
      rcases lt_or_ge size 0 with hneg | hpos
      · rcases hinv.filesys_create_negative name hneg e with ⟨hnone, hpanic⟩ | ⟨s', heq, hquiet, hinv'⟩
        · right
          exact ⟨name, size, e, rfl, hneg, by rw [FsCall.run, hnone, Option.map_none], hpanic⟩
        · left
          exact ⟨_, s', by rw [FsCall.run, heq, Option.map_some], hinv',
            huser.of_same hinv hquiet.same_files⟩
      · left
        lift size to Nat using hpos
        have hlt : (size : Int) < OFF_T := hc
        have hsize : size < OFF_T := by exact_mod_cast hlt
        rcases hinv.filesys_create name hsize e with ⟨r, s', heq, hspec, hinv'⟩
        refine ⟨_, s', by rw [FsCall.run, heq, Option.map_some], hinv', ?_⟩
        cases hspec with
        | failed _ hquiet | leaked _ hquiet =>
            exact huser.of_same hinv hquiet.same_files
        | created _ _ hcreated =>
            exact huser.of_same hinv hcreated.same_files
  | openFile name e =>
      rcases hinv.filesys_open name e with ⟨r, s', heq, hspec, hinv'⟩
      exact Or.inl ⟨_, s', by rw [FsCall.run, heq, Option.map_some], hinv', hinv.user_open huser hspec⟩
  | remove name e =>
      rcases hinv.filesys_remove name e with ⟨r, s', heq, hspec, hinv'⟩
      refine Or.inl ⟨_, s', by rw [FsCall.run, heq, Option.map_some], hinv', ?_⟩
      cases hspec with
      | absent _ hquiet =>
          exact huser.of_same hinv hquiet.same_files
      | no_memory _ hsame =>
          exact huser.of_same hinv hsame
      | removed _ _ hremoved =>
          exact huser.of_same hinv hremoved.same_files
  | reopen f =>
      rcases FileSys.IsHandle.handle hc hinv with ⟨file, inode, hf⟩
      rcases hinv.file_reopen hf with ⟨r, s', heq, hspec, hinv'⟩
      exact Or.inl ⟨_, s', by rw [FsCall.run, heq, Option.map_some], hinv',
        hinv.user_reopen huser hf hspec⟩
  | close f =>
      rcases FileSys.IsHandle.handle hc hinv with ⟨file, inode, hf⟩
      rcases hinv.file_close hf.get_file hf.user hf.get_inode with ⟨s', heq, hspec, hinv'⟩
      exact Or.inl ⟨_, s', by rw [FsCall.run, heq, Option.map_some], hinv',
        hinv.user_close huser hf hspec⟩
  | read f size =>
      rcases FileSys.IsHandle.handle hc hinv with ⟨file, inode, hf⟩
      rcases hinv.file_read_inv huser hf size with ⟨bs, s', heq, hinv', huser'⟩
      exact Or.inl ⟨_, s', by rw [FsCall.run, heq, Option.map_some], hinv', huser'⟩
  | write f buffer =>
      rcases FileSys.IsHandle.handle hc hinv with ⟨file, inode, hf⟩
      rcases hinv.file_write_inv huser hf buffer with ⟨n, s', heq, hinv', huser'⟩
      exact Or.inl ⟨_, s', by rw [FsCall.run, heq, Option.map_some], hinv', huser'⟩
  | seek f new_pos =>
      rcases FileSys.IsHandle.handle hc hinv with ⟨file, inode, hf⟩
      have hinv' := @FsInv.set_file _ _ hinv _ _ { file with pos := new_pos } hf.get_file rfl rfl
      exact Or.inl ⟨_, _, by rw [FsCall.run, FsInv.file_seek hf new_pos, Option.map_some], hinv',
        huser.set hf.get_file new_pos⟩

/-! ## Runs -/

theorem FreshSystem.between (h : FreshSystem s) : Between s :=
  ⟨h.inv, fun f file _ hmap hf _ => absurd (h.only_map f file hf) hmap⟩

theorem between_of_format {dev : Block} {mem : Mallocs} {storage : Nat → BitVec 32}
    (h : FileSys.filesys_init dev mem storage true = some s) : FreshSystem s := by
  rcases filesys_init_format dev mem storage with ⟨hnone, _⟩ | ⟨s', heq, hfresh, _⟩
  · rw [hnone] at h
    cases h
  · obtain rfl := Option.some.inj (heq.symm.trans h)
    exact hfresh

theorem fsRuns_between (h : fsRuns.Reachable s) : Between s := by
  refine h.invariant (fun s hinit => ?_) fun s l t hs hstep => ?_
  · rcases hinit with ⟨dev, mem, storage, heq⟩
    exact (between_of_format heq).between
  · rcases hs.call hstep.1 with ⟨r, s', heq, hs'⟩ | ⟨_, _, _, _, _, hnone, _⟩
    · rw [hstep.2] at heq
      rcases Prod.mk.inj (Option.some.inj heq) with ⟨_, rfl⟩
      exact hs'
    · rw [hstep.2] at hnone
      cases hnone

/-- The names, the files and the sectors of a state fit together. -/
structure FileSys.Consistent (s : FileSys) : Prop where
  /-- What different inodes in use have on the disk is disjoint. -/
  apart : ∀ i j a, s.Live i → s.Live j → i ≠ j → Cell s.fs_device i a → ¬ Cell s.fs_device j a
  self : ∀ i, s.Live i → i ∉ data_extent s.fs_device i
  entry_one : ∀ k l, k < ROOT_ENTRIES → l < ROOT_ENTRIES → (dir_entry s.fs_device k).in_use = true →
    (dir_entry s.fs_device l).in_use = true →
    (dir_entry s.fs_device k).inode_sector = (dir_entry s.fs_device l).inode_sector → k = l
  named_file : ∀ i, Named s.fs_device i → i ≠ FREE_MAP_SECTOR ∧ i ≠ ROOT_DIR_SECTOR
  marked : ∀ i a, s.Live i → Cell s.fs_device i a → s.free_map.test a = true
  sector_one : ∀ p q inode inode', s.open_inodes.get p = some inode →
    s.open_inodes.get q = some inode' → inode.sector = inode'.sector → p = q
  open_cnt : ∀ p inode, s.open_inodes.get p = some inode →
    inode.open_cnt = (s.files.count fun f => f.inode = p : Nat)

theorem Between.consistent (h : Between s) : s.Consistent where
  apart := h.inv.layout.apart
  self := h.inv.layout.self
  entry_one := h.inv.dir.entry_one
  named_file := h.inv.dir.named_file
  marked := h.inv.layout.marked
  sector_one := h.inv.opened.sector_one
  open_cnt p inode hp := by
    rw [h.inv.opened.count p inode hp]
    simp

/-- The file that a call creates uses no sector that a file in use has. -/
theorem Between.create_fresh (h : Between s) {size : Int}
    (hcreate : s.filesys_create name size e = some (true, t)) (hsize : size < OFF_T) :
    ∃ k, k < ROOT_ENTRIES ∧ FileSys.names name (dir_entry t.fs_device k) = true ∧
      ∀ j a, s.Live j → Cell s.fs_device j a →
        ¬ Cell t.fs_device (dir_entry t.fs_device k).inode_sector a := by
  rcases lt_or_ge size 0 with hneg | hpos
  · rcases h.inv.filesys_create_negative name hneg e with ⟨hnone, _⟩ | ⟨s', heq, _⟩
    · rw [hnone] at hcreate
      cases hcreate
    · rw [heq] at hcreate
      cases hcreate
  · lift size to Nat using hpos
    rcases h.inv.filesys_create name (by exact_mod_cast hsize) e with ⟨r, s', heq, hspec, _⟩
    rw [heq] at hcreate
    rcases Prod.mk.inj (Option.some.inj hcreate) with ⟨rfl, rfl⟩
    cases hspec with
    | created _ hfree hcreated =>
        rcases hcreated.entry with ⟨k, e', hk, _, huse, hsector, hstr, hentry⟩
        refine ⟨k, hk, ?_, fun j a hj ha ha' => ?_⟩
        · rw [hentry k hk, if_pos rfl, FileSys.names, huse, hstr]
          simp
        · have hmarked := h.inv.layout.marked j a hj ha
          rw [hentry k hk, if_pos rfl, hsector] at ha'
          rcases ha' with rfl | ha'
          · rw [hfree] at hmarked
            cases hmarked
          · rw [hcreated.free a ha'] at hmarked
            cases hmarked

/-- A blank disk of 64 sectors. -/
def blank_disk : Block where
  name := ['h', 'd', 'b', '1']
  type := .filesys
  size := 64
  size_lt := sixty_four_lt
  sectors := fun _ => Sector.ofBytes fun _ => 0

theorem blank_disk_room : Room blank_disk := ⟨nofun, by decide, by decide⟩

/-- Memory that never runs out. -/
def unlimited : Mallocs := fun _ => true

theorem blank_disk_format : ∃ s, FileSys.filesys_init blank_disk unlimited (fun _ => 0) true = some s ∧
    FreshSystem s ∧ s.free_map.bit_cnt = 64 ∧ s.mem.Ample := by
  rcases filesys_init_format blank_disk unlimited fun _ => 0 with ⟨_, hroom⟩ | ⟨s, heq, hfresh, hcnt, hample⟩
  · exact absurd blank_disk_room (hroom fun _ => rfl)
  · exact ⟨s, heq, hfresh, hcnt, hample fun _ => rfl⟩

end Berk162
