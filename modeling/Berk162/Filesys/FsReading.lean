import Berk162.Filesys.FsRefines

/-!
# FsReading — reading a file that is open

`Reading s f pos data rest`: the handle `f` is at position `pos` of a file that consists of `data`, and
`rest` are the other open files.  While nobody writes, a caller of `file_length`, `file_seek`,
`file_read` and `file_close` needs to know no more of the file system than this.
-/

namespace Berk162

variable {s s' t : FileSys} {f pos : Nat} {data : Bytes} {rest : Nat → Option File} {name : CString}
  {e : DirEntry}

structure Reading (s : FileSys) (f pos : Nat) (data : Bytes) (rest : Nat → Option File) : Prop where
  between : Between s
  others : ∀ g, g ≠ f → s.files.get g = rest g
  handle : ∃ file inode, Handle s f file inode ∧ file.pos = pos ∧
    contents s.fs_device inode.sector = data

/-- The file of this name consists of `data`. -/
def FileSys.HasFile (s : FileSys) (name : CString) (data : Bytes) : Prop :=
  ∃ k < ROOT_ENTRIES, FileSys.names name (dir_entry s.fs_device k) = true ∧
    contents s.fs_device (dir_entry s.fs_device k).inode_sector = data

theorem contents_length (dev : Block) (i : Nat) :
    (contents dev i).length = (disk_inode dev i).length :=
  length_window

theorem Between.length_lt (h : Between s) (hfile : s.HasFile name data) : data.length < OFF_T := by
  rcases hfile with ⟨k, hk, hname, rfl⟩
  rw [contents_length]
  exact h.inv.layout.length_lt _ (Or.inr (Or.inr (Or.inl (FsInv.named_sector hk hname).1)))

namespace Reading

theorem length_lt (h : Reading s f pos data rest) : data.length < OFF_T := by
  rcases h.handle with ⟨file, inode, hf, _, rfl⟩
  rw [contents_length]
  exact h.between.inv.layout.length_lt _ (FsInv.opened_live hf.get_inode)

theorem file_length (h : Reading s f pos data rest) : s.file_length f = some (data.length : Int) := by
  have hlt := h.length_lt
  rw [OFF_T] at hlt
  rcases h.handle with ⟨file, inode, hf, _, rfl⟩
  have hdata := h.between.inv.opened.data_eq _ inode hf.get_inode
  rw [contents_length] at hlt ⊢
  rw [FileSys.file_length, hf.get_file]
  simp only [Option.bind_eq_bind, Option.bind_some, hf.get_inode, hdata]
  rw [int32_eq (by omega) (by omega)]
  rfl

theorem file_seek (h : Reading s f pos data rest) (new_pos : Int) (hpos : 0 ≤ new_pos) :
    ∃ s', s.file_seek f new_pos = some s' ∧ Reading s' f new_pos.toNat data rest := by
  rcases h.handle with ⟨file, inode, hf, _, hdata⟩
  lift new_pos to Nat using hpos
  have hinv := @FsInv.set_file _ _ h.between.inv _ _ { file with pos := new_pos } hf.get_file rfl rfl
  refine ⟨_, FsInv.file_seek hf new_pos, ⟨hinv, h.between.user.set hf.get_file new_pos⟩,
    fun g hg => (Store.get_set_of_ne hg).trans (h.others g hg), ?_⟩
  exact ⟨_, inode, ⟨Store.get_set_self hf.get_file, hf.get_inode, hf.user⟩, rfl, hdata⟩

/-- A part of what is asked for is read. -/
theorem file_read (h : Reading s f pos data rest) (size : Nat) :
    ∃ n s', n ≤ size ∧ (n = 0 ∨ pos + n ≤ data.length) ∧
      s.file_read f size = some ((data.drop pos).take n, s') ∧ Reading s' f (pos + n) data rest := by
  rcases h.handle with ⟨file, inode, hf, rfl, hdata⟩
  have hin := h.between.inv.in_file_eq hf.get_inode size file.pos
  have hle := moved_le s.mem file.pos (in_file inode.data size file.pos)
  have hread := h.between.inv.file_read hf size
  generalize moved s.mem file.pos (in_file inode.data size file.pos) = n at hle hread
  have hlen : data.length = (disk_inode s.fs_device inode.sector).length := by
    rw [← hdata, contents_length]
  have hn : n ≤ size := by omega
  have hend : n = 0 ∨ file.pos + n ≤ data.length := by omega
  have hbytes : window (data_byte s.fs_device inode.sector) file.pos n =
      (data.drop file.pos).take n := by
    rcases hend with rfl | hend
    · rw [window_zero, List.take_zero]
    · rw [← hdata, contents, drop_window (by omega), take_window (by omega), Nat.zero_add]
  rw [hbytes] at hread
  have hinv := @FsInv.set_file _ _ h.between.inv _ _ { file with pos := file.pos + n } hf.get_file
    rfl rfl
  refine ⟨n, _, hn, hend, hread, ⟨FsInv.set_mem hinv _, h.between.user.set hf.get_file _⟩,
    fun g hg => (Store.get_set_of_ne hg).trans (h.others g hg), ?_⟩
  exact ⟨_, inode, ⟨Store.get_set_self hf.get_file, hf.get_inode, hf.user⟩, rfl, hdata⟩

/-- After `file_close` only the other files are open. -/
theorem file_close (h : Reading s f pos data rest) :
    ∃ s', s.file_close f = some s' ∧ Between s' ∧
      ∀ g, s'.files.get g = if g = f then none else rest g := by
  rcases h.handle with ⟨file, inode, hf, _, _⟩
  rcases h.between.inv.file_close hf.get_file hf.user hf.get_inode with ⟨s', heq, hspec, hinv⟩
  have herase := h.between.inv.erase_file hf.get_file hf.user
  have hquiet := herase.quiet_close hf.get_inode List.mem_cons_self hspec
  refine ⟨s', heq, ⟨hinv, h.between.inv.user_close h.between.user hf hspec⟩, fun g => ?_⟩
  rw [hquiet.same_files.1]
  split_ifs with hg
  · rw [hg]
    exact Store.get_erase_self
  · exact (Store.get_erase_of_ne hg).trans (h.others g hg)

end Reading

/-- Opening a file by its name. -/
theorem Between.filesys_open (h : Between s) (name : CString) (e : DirEntry) :
    (∃ s', s.filesys_open name e = some (none, s') ∧ Between s' ∧ s'.files = s.files) ∨
      ∃ s' f data, s.filesys_open name e = some (some f, s') ∧ s.HasFile name data ∧
        s.files.get f = none ∧ Reading s' f 0 data s.files.get := by
  rcases h.inv.filesys_open name e with ⟨r, s', heq, hspec, hinv⟩
  have hb : Between s' := ⟨hinv, h.inv.user_open h.user hspec⟩
  cases hspec with
  | absent _ hquiet =>
      exact Or.inl ⟨s', heq, hb, hquiet.same_files.1⟩
  | no_memory _ hsame =>
      exact Or.inl ⟨s', heq, hb, hsame.1⟩
  | @opened k p t _ inode hk hname hquiet hp hsector _ hs' =>
      have hnamed := (FsInv.named_sector hk hname).1
      have hfiles := hquiet.same_files.1
      have hkept := hquiet.kept _ (Or.inr (Or.inr (Or.inl hnamed))) (h.inv.dir.named_file _ hnamed).1
      have hsame := h.contents_congr (Or.inl hnamed) hkept
      have hget : s'.files.get s.files.next = some ⟨p, 0, false⟩ := by
        rw [hs', ← hfiles]
        exact Store.get_alloc_self
      have hinode : s'.open_inodes.get p = some inode := by
        rw [hs']
        exact hp
      have hdev : s'.fs_device = t.fs_device := by
        rw [hs']
        rfl
      have huser : s'.free_map_file ≠ some s.files.next := by
        have hmap : s'.free_map_file = s.free_map_file := by
          rw [hs']
          exact hquiet.same_files.2.1
        rw [hmap]
        exact h.inv.map_file_ne_next
      have hothers : ∀ g, g ≠ s.files.next → s'.files.get g = s.files.get g := by
        intro g hg
        rw [← hfiles] at hg ⊢
        rw [hs']
        exact Store.get_alloc_of_ne hg
      refine Or.inr ⟨s', _, _, heq, ⟨k, hk, hname, rfl⟩, Store.get_next, hb, hothers, ?_⟩
      refine ⟨_, inode, ⟨hget, hinode, huser⟩, rfl, ?_⟩
      rw [hdev, hsector, hsame]

end Berk162
