import Berk162.Filesys.FsReading

/-!
# FsFileCalls — the calls of the file system on the file map

Where the file map knows the name, the file or the handle that a call is about, the rules here say
what the call returns and which file map it leaves behind.  Opening, writing and closing leave the
free map alone.
-/

namespace Berk162

variable {s t : FileSys} {m : FileMap} {name : CString} {e : DirEntry} {f i pos : Nat}
  {data : Bytes} {held : List Nat} {file : File} {inode : Inode}

namespace FileMap

/-- The file with this name consists of `data`. -/
def HasFile (m : FileMap) (name : CString) (data : Bytes) : Prop :=
  ∃ i, m.names.lookup name = some i ∧ m.data i = data

/-- The handle is at position `pos` of a file that has the number `i`. -/
def setHandle (m : FileMap) (f i pos : Nat) : FileMap :=
  { m with handles := m.handles.insert f (i, pos) }

/-- A new name, for a file that consists of `data`. -/
def put (m : FileMap) (name : CString) (i : Nat) (data : Bytes) : FileMap :=
  { m with names := m.names.insert name i, data := Function.update m.data i data }

@[simp] theorem lookup_setHandle (m : FileMap) (f i pos : Nat) :
    (m.setHandle f i pos).handles.lookup f = some (i, pos) :=
  Finmap.lookup_insert _

theorem setHandle_setHandle (m : FileMap) (f i pos j pos' : Nat) :
    (m.setHandle f i pos).setHandle f j pos' = m.setHandle f j pos' := by
  simp only [setHandle, Finmap.insert_insert]

theorem setHandle_self (hf : m.handles.lookup f = some (i, pos)) : m.setHandle f i pos = m := by
  have hsame : m.handles.insert f (i, pos) = m.handles := by
    refine Finmap.ext_lookup fun g => ?_
    by_cases hg : g = f
    · rw [hg, Finmap.lookup_insert, hf]
    · rw [Finmap.lookup_insert_of_ne _ hg]
  rw [setHandle, hsame]

/-- A handle that is closed leaves no trace. -/
theorem erase_setHandle (hf : m.handles.lookup f = none) :
    { m with handles := (m.handles.insert f (i, pos)).erase f } = m := by
  have hback : (m.handles.insert f (i, pos)).erase f = m.handles := by
    refine Finmap.ext_lookup fun g => ?_
    by_cases hg : g = f
    · rw [hg, Finmap.lookup_erase, hf]
    · rw [Finmap.lookup_erase_ne hg, Finmap.lookup_insert_of_ne _ hg]
  rw [hback]

/-- The names after a new one. -/
theorem hasFile_put (hi : m.Unused i) (n : CString) (d : Bytes) :
    (m.put name i data).HasFile n d ↔ (n = name ∧ d = data) ∨ (n ≠ name ∧ m.HasFile n d) := by
  by_cases hn : n = name
  · subst hn
    constructor
    · rintro ⟨j, hj, rfl⟩
      obtain rfl : i = j := Option.some.inj ((Finmap.lookup_insert _).symm.trans hj)
      exact Or.inl ⟨rfl, Function.update_self _ _ _⟩
    · rintro (⟨_, rfl⟩ | ⟨hne, _⟩)
      · exact ⟨i, Finmap.lookup_insert _, Function.update_self _ _ _⟩
      · exact absurd rfl hne
  · have hsame : ∀ j, (m.put name i data).names.lookup n = some j ↔ m.names.lookup n = some j :=
      fun j => by rw [put, Finmap.lookup_insert_of_ne _ hn]
    have hdata : ∀ j, m.names.lookup n = some j → (m.put name i data).data j = m.data j := by
      intro j hj
      refine Function.update_of_ne ?_ _ _
      rintro rfl
      exact hi.names n hj
    constructor
    · rintro ⟨j, hj, rfl⟩
      have hj' := (hsame j).1 hj
      exact Or.inr ⟨hn, j, hj', (hdata j hj').symm⟩
    · rintro (⟨heq, _⟩ | ⟨_, j, hj, rfl⟩)
      · exact absurd heq hn
      · exact ⟨j, (hsame j).2 hj, hdata j hj⟩

end FileMap

/-! ## What leaves the free map alone -/

namespace FsInv

theorem filesys_open_free_map (h : FsInv held s)
    (hopen : s.filesys_open name e = some (some f, t)) : t.free_map = s.free_map := by
  rcases h.dir_open_root with ⟨dir, s₁, hroot, hspec₁, hinv₁⟩
  cases dir with
  | none =>
      simp only [FileSys.filesys_open, hroot, FileSys.dir_close, FileSys.inode_close,
        file_open_none, Option.bind_eq_bind, Option.bind_some] at hopen
      cases hopen
  | some p =>
      replace hinv₁ : FsInv (p :: held) s₁ := hinv₁
      rcases hspec₁.opened p rfl with ⟨inode, hp, hsector⟩
      rcases hinv₁.dir_lookup hp hsector name e with ⟨r, s₂, hlookup, hspec₂, hinv₂⟩
      have hmap₂ : s₂.free_map = s₁.free_map := by
        cases hspec₂ with
        | absent =>
            rfl
        | found _ _ _ hfound =>
            exact hfound.free_map
      -- the directory is still open
      have hp₂ : ∃ inode', s₂.open_inodes.get p = some inode' ∧
          inode'.sector = ROOT_DIR_SECTOR := by
        cases hspec₂ with
        | absent =>
            exact ⟨inode, hp, hsector⟩
        | @found k mem _ _ _ _ _ hfound =>
            rcases hfound.get_of_get (s := s₁.setMem mem) hp with ⟨inode', hp', hsame⟩
            exact ⟨inode', hp', hsame.trans hsector⟩
      rcases hp₂ with ⟨inode', hp', hsector'⟩
      rcases hinv₂.close_root (List.mem_append_right _ List.mem_cons_self) hp' hsector' with
        ⟨s₃, hclose, hinv₃, _, _, _, hmap₃, _⟩
      have heq : s.filesys_open name e = s₃.file_open r := by
        simp only [FileSys.filesys_open, hroot, hlookup, FileSys.dir_close, hclose,
          Option.bind_eq_bind, Option.bind_some]
      have hmap : s₃.free_map = s.free_map := hmap₃.trans (hmap₂.trans hspec₁.free_map)
      rw [heq] at hopen
      cases r with
      | none =>
          rw [file_open_none] at hopen
          cases hopen
      | some q =>
          cases hmem : s₃.mem 0 with
          | true =>
              simp only [FileSys.file_open, malloc_eq hmem] at hopen
              rcases Prod.mk.inj (Option.some.inj hopen) with ⟨_, rfl⟩
              exact hmap
          | false =>
              simp only [FileSys.file_open, malloc_eq hmem] at hopen
              rcases Option.bind_eq_some_iff.1 hopen with ⟨_, _, hpair⟩
              cases hpair

theorem file_write_free_map (h : FsInv held s) (hf : Handle s f file inode) {buffer : Bytes}
    {n : Nat} (hwrite : s.file_write f buffer = some (n, t)) : t.free_map = s.free_map := by
  rw [h.file_write hf] at hwrite
  rcases Prod.mk.inj (Option.some.inj hwrite) with ⟨_, rfl⟩
  rfl

/-- An inode that has a name keeps its sectors when a handle is closed. -/
theorem file_close_free_map (h : FsInv held s) (hf : Handle s f file inode)
    (hnamed : Named s.fs_device inode.sector) (hclose : s.file_close f = some t) :
    t.free_map = s.free_map := by
  rcases h.file_close hf.get_file hf.user hf.get_inode with ⟨u, heq, hspec, _⟩
  rw [hclose] at heq
  obtain rfl := Option.some.inj heq
  have hremoved : inode.removed = false :=
    Bool.eq_false_iff.2 fun hr => (h.opened.removed _ inode hf.get_inode hr).1 hnamed
  exact (hspec.unchanged hremoved).2.1

end FsInv

/-! ## What a call returns -/

namespace Refines

/-- A call that may be made is one of the file map. -/
theorem run (h : Refines s m) {c : FsCall} (hc : c.Allowed s)
    (hsize : ∀ name size e, c = FsCall.create name size e → 0 ≤ size) :
    ∃ r t m', c.run s = some (r, t) ∧ FileMap.Step m (c, r) m' ∧ Refines t m' := by
  rcases h.stable.toBetween.call hc with ⟨r, t, hrun, _⟩ | ⟨name, size, e, hcreate, hneg, _⟩
  · rcases h.call hc hrun with ⟨m', hstep, ht⟩
    exact ⟨r, t, m', hrun, hstep, ht⟩
  · exact absurd (hsize name size e hcreate) (Int.not_le.2 hneg)

theorem isHandle (h : Refines s m) (hf : m.handles.lookup f = some (i, pos)) : s.IsHandle f :=
  ((h.represents.handles f i pos).1 hf).isHandle

theorem filesys_open (h : Refines s m) (hi : m.names.lookup name = some i) (e : DirEntry) :
    ∃ f t, s.filesys_open name e = some (some f, t) ∧ m.handles.lookup f = none ∧
      Refines t (m.setHandle f i 0) ∧ t.free_map = s.free_map := by
  rcases h.run (c := FsCall.openFile name e) trivial (fun _ _ _ heq => by cases heq) with
    ⟨r, t, m', hrun, hstep, ht⟩
  rcases Option.map_eq_some_iff.1 hrun with ⟨⟨f, u⟩, hopen, hpair⟩
  rcases Prod.mk.inj hpair with ⟨rfl, rfl⟩
  cases hstep with
  | opened hi' hf =>
      obtain rfl := Option.some.inj (hi.symm.trans hi')
      exact ⟨_, _, hopen, hf, ht, h.stable.inv.filesys_open_free_map hopen⟩
  | not_opened hnone =>
      rw [hi] at hnone
      cases hnone

theorem file_read (h : Refines s m) (hf : m.handles.lookup f = some (i, pos)) (size : Nat) :
    ∃ t, s.file_read f size = some (((m.data i).drop pos).take size, t) ∧
      Refines t (m.setHandle f i (pos + (((m.data i).drop pos).take size).length)) := by
  rcases h.run (c := FsCall.read f size) (h.isHandle hf) (fun _ _ _ heq => by cases heq) with
    ⟨r, t, m', hrun, hstep, ht⟩
  rcases Option.map_eq_some_iff.1 hrun with ⟨⟨bs, u⟩, hread, hpair⟩
  rcases Prod.mk.inj hpair with ⟨rfl, rfl⟩
  cases hstep with
  | read hf' hbs =>
      obtain ⟨rfl, rfl⟩ := Prod.mk.inj (Option.some.inj (hf.symm.trans hf'))
      subst hbs
      exact ⟨_, hread, ht⟩

theorem file_write (h : Refines s m) (hf : m.handles.lookup f = some (i, pos)) (buffer : Bytes)
    (hfits : pos + buffer.length ≤ (m.data i).length) :
    ∃ t, s.file_write f buffer = some (buffer.length, t) ∧
      Refines t { m.setHandle f i (pos + buffer.length) with
        data := Function.update m.data i (overwrite (m.data i) pos buffer) } ∧
      t.free_map = s.free_map := by
  rcases (h.represents.handles f i pos).1 hf with ⟨_, _, hfile, _⟩
  rcases h.run (c := FsCall.write f buffer) (h.isHandle hf) (fun _ _ _ heq => by cases heq) with
    ⟨r, t, m', hrun, hstep, ht⟩
  rcases Option.map_eq_some_iff.1 hrun with ⟨⟨n, u⟩, hwrite, hpair⟩
  rcases Prod.mk.inj hpair with ⟨rfl, rfl⟩
  cases hstep with
  | write hf' hn =>
      obtain ⟨rfl, rfl⟩ := Prod.mk.inj (Option.some.inj (hf.symm.trans hf'))
      obtain rfl : n = buffer.length := hn.trans (Nat.min_eq_left (by omega))
      rw [List.take_length] at ht
      exact ⟨_, hwrite, ht, h.stable.inv.file_write_free_map hfile hwrite⟩

theorem file_seek (h : Refines s m) (hf : m.handles.lookup f = some (i, pos)) (new_pos : Nat) :
    ∃ t, s.file_seek f new_pos = some t ∧ Refines t (m.setHandle f i new_pos) := by
  rcases h.run (c := FsCall.seek f new_pos) (h.isHandle hf) (fun _ _ _ heq => by cases heq) with
    ⟨r, t, m', hrun, hstep, ht⟩
  rcases Option.map_eq_some_iff.1 hrun with ⟨u, hseek, hpair⟩
  rcases Prod.mk.inj hpair with ⟨rfl, rfl⟩
  cases hstep with
  | seek hf' =>
      obtain ⟨rfl, rfl⟩ := Prod.mk.inj (Option.some.inj (hf.symm.trans hf'))
      exact ⟨_, hseek, ht⟩

theorem filesys_remove (h : Refines s m) (hi : m.names.lookup name = some i) (e : DirEntry) :
    ∃ t, s.filesys_remove name e = some (true, t) ∧
      Refines t { m with names := m.names.erase name } := by
  rcases h.run (c := FsCall.remove name e) trivial (fun _ _ _ heq => by cases heq) with
    ⟨r, t, m', hrun, hstep, ht⟩
  rcases Option.map_eq_some_iff.1 hrun with ⟨⟨ok, u⟩, hremove, hpair⟩
  rcases Prod.mk.inj hpair with ⟨rfl, rfl⟩
  cases hstep with
  | removed => exact ⟨_, hremove, ht⟩
  | not_removed hnone =>
      rw [hi] at hnone
      cases hnone

theorem filesys_open_none (h : Refines s m) (hnone : m.names.lookup name = none) (e : DirEntry) :
    ∃ t, s.filesys_open name e = some (none, t) ∧ Refines t m := by
  rcases h.run (c := FsCall.openFile name e) trivial (fun _ _ _ heq => by cases heq) with
    ⟨r, t, m', hrun, hstep, ht⟩
  rcases Option.map_eq_some_iff.1 hrun with ⟨⟨f, u⟩, hopen, hpair⟩
  rcases Prod.mk.inj hpair with ⟨rfl, rfl⟩
  cases hstep with
  | opened hi =>
      rw [hnone] at hi
      cases hi
  | not_opened => exact ⟨_, hopen, ht⟩

/-- Closing a handle that is not one of `m`. -/
theorem file_close (h : Refines s (m.setHandle f i pos)) (hnew : m.handles.lookup f = none) :
    ∃ t, s.file_close f = some t ∧ Refines t m := by
  have hf := m.lookup_setHandle f i pos
  rcases h.run (c := FsCall.close f) (h.isHandle hf) (fun _ _ _ heq => by cases heq) with
    ⟨r, t, m', hrun, hstep, ht⟩
  rcases Option.map_eq_some_iff.1 hrun with ⟨u, hclose, hpair⟩
  rcases Prod.mk.inj hpair with ⟨rfl, rfl⟩
  cases hstep with
  | closed =>
      have hback : ({ m.setHandle f i pos with handles := (m.setHandle f i pos).handles.erase f } :
          FileMap) = m := FileMap.erase_setHandle hnew
      rw [hback] at ht
      exact ⟨_, hclose, ht⟩

/-- Closing a file that has a name. -/
theorem file_close_free_map (h : Refines s (m.setHandle f i pos))
    (hi : m.names.lookup name = some i) (hclose : s.file_close f = some t) :
    t.free_map = s.free_map := by
  rcases (h.represents.handles f i pos).1 (m.lookup_setHandle f i pos) with
    ⟨file, inode, hfile, rfl, _⟩
  rcases (h.represents.names name _).1 hi with ⟨k, hk, hname, hsector⟩
  refine h.stable.inv.file_close_free_map hfile ?_ hclose
  exact ⟨k, hk, (FileSys.names_iff.1 hname).1, hsector⟩

theorem file_length (h : Refines s m) (hf : m.handles.lookup f = some (i, pos)) :
    s.file_length f = some ((m.data i).length : Int) ∧ (m.data i).length < OFF_T := by
  have hat := (h.represents.handles f i pos).1 hf
  have hdata := h.represents.data i (Or.inr ⟨f, pos, hat⟩)
  rcases hat with ⟨file, inode, hfile, rfl, hpos⟩
  have hread : Reading s f pos (m.data inode.sector) s.files.get :=
    ⟨h.stable.toBetween, fun _ _ => rfl, file, inode, hfile, hpos, hdata.symm⟩
  exact ⟨hread.file_length, hread.length_lt⟩

theorem hasFile_iff (h : Refines s m) : m.HasFile name data ↔ s.HasFile name data := by
  constructor
  · rintro ⟨i, hi, rfl⟩
    rcases (h.represents.names name i).1 hi with ⟨k, hk, hname, rfl⟩
    exact ⟨k, hk, hname, (h.represents.data _ (Or.inl (FsInv.named_sector hk hname).1)).symm⟩
  · rintro ⟨k, hk, hname, rfl⟩
    exact ⟨_, (h.represents.names name _).2 ⟨k, hk, hname, rfl⟩,
      h.represents.data _ (Or.inl (FsInv.named_sector hk hname).1)⟩

end Refines

end Berk162
