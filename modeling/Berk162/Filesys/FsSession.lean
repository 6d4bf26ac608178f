import Berk162.Filesys.FsRoom

/-!
# FsSession — what the file system promises over whole runs

The states of `fsRuns` are consistent whatever memory there is, and with memory they refine a file
map.  A session is a run of both: a file is created, opened and written, and loses its name; its
bytes are read through the handle that is left, which is closed last.
-/

namespace Berk162

variable {s t : FileSys} {m : FileMap} {name : CString} {text : Bytes} {i : Nat}
  {ls : List (FsCall × FsResult)}

/-! ## A session -/

/-- The calls of a session on a file that there is, and what they return. -/
def session (name : CString) (text : Bytes) (e : DirEntry) (f : Nat) : List (FsCall × FsResult) :=
  [(.openFile name e, .file (some f)), (.write f text, .count text.length), (.seek f 0, .done),
    (.remove name e, .success true), (.openFile name e, .file none),
    (.read f text.length, .bytes text), (.close f, .done)]

theorem FsCall.step {c : FsCall} {r : FsResult} (hc : c.Allowed s)
    (hrun : c.run s = some (r, t)) : ampleRuns.step s (c, r) t :=
  ⟨hc, hrun⟩

theorem overwrite_take {data : Bytes} : (overwrite data 0 text).take text.length = text := by
  rw [overwrite, List.take_zero, List.nil_append, List.take_left]

theorem Refines.session (h : Refines s m) (hi : m.names.lookup name = some i)
    (hclosed : m.handles = ∅) (text : Bytes) (htext : text.length ≤ (m.data i).length)
    (e : DirEntry) :
    ∃ f t m', ampleRuns.Exec s (session name text e f) t ∧ Refines t m' ∧ m'.handles = ∅ := by
  rcases h.filesys_open hi e with ⟨f, t₁, hopen, hf, h₁, _⟩
  have hf₁ := m.lookup_setHandle f i 0
  rcases h₁.file_write hf₁ text (by rwa [Nat.zero_add]) with ⟨t₂, hwrite, h₂, _⟩
  rw [Nat.zero_add, FileMap.setHandle_setHandle] at h₂
  have hf₂ := m.lookup_setHandle f i text.length
  rcases h₂.file_seek hf₂ 0 with ⟨t₃, hseek, h₃⟩
  rcases h₃.filesys_remove hi e with ⟨t₄, hremove, h₄⟩
  rcases h₄.filesys_open_none (Finmap.lookup_erase _ _) e with ⟨t₅, hnone, h₅⟩
  -- the file has no name, and one handle
  let m' : FileMap :=
    { m with
      names := m.names.erase name
      data := Function.update m.data i (overwrite (m.data i) 0 text) }
  have hmap : Refines t₅ (m'.setHandle f i 0) := by
    simp only [FileMap.setHandle, Finmap.insert_insert] at h₅
    exact h₅
  have hdata : (((m'.setHandle f i 0).data i).drop 0).take text.length = text := by
    have hwritten : (m'.setHandle f i 0).data i = overwrite (m.data i) 0 text :=
      Function.update_self _ _ _
    rw [hwritten, List.drop_zero, overwrite_take]
  rcases hmap.file_read (m'.lookup_setHandle f i 0) text.length with ⟨t₆, hread, h₆⟩
  rw [hdata] at hread h₆
  rw [FileMap.setHandle_setHandle] at h₆
  rcases h₆.file_close hf with ⟨t₇, hclose, h₇⟩
  have e₁ := (System.Exec.nil s).snoc (FsCall.step (c := .openFile name e) trivial
    (congrArg (Option.map _) hopen))
  have e₂ := e₁.snoc (FsCall.step (c := .write f text) (h₁.isHandle hf₁)
    (congrArg (Option.map _) hwrite))
  have e₃ := e₂.snoc (FsCall.step (c := .seek f 0) (h₂.isHandle hf₂)
    (congrArg (Option.map _) hseek))
  have e₄ := e₃.snoc (FsCall.step (c := .remove name e) trivial
    (congrArg (Option.map _) hremove))
  have e₅ := e₄.snoc (FsCall.step (c := .openFile name e) trivial
    (congrArg (Option.map _) hnone))
  have e₆ := e₅.snoc (FsCall.step (c := .read f text.length)
    (hmap.isHandle (m'.lookup_setHandle f i 0)) (congrArg (Option.map _) hread))
  have e₇ := e₆.snoc (FsCall.step (c := .close f)
    (h₆.isHandle (m'.lookup_setHandle f i _)) (congrArg (Option.map _) hclose))
  exact ⟨f, t₇, m', e₇, h₇, hclosed⟩

/-- A run in which no allocation fails is a run. -/
theorem System.Exec.of_ample (h : ampleRuns.Exec s ls t) : fsRuns.Exec s ls t := by
  induction h with
  | nil => exact System.Exec.nil _
  | snoc _ hstep ih => exact ih.snoc hstep

/-- A state stands for one map of handles. -/
theorem Represents.handles_eq {m' : FileMap} (h : Represents s m) (h' : Represents s m') :
    m.handles = m'.handles := by
  refine Finmap.ext_lookup fun f => Option.ext fun ⟨i, pos⟩ => ?_
  rw [h.handles, h'.handles]

/-- A session on a file of 512 bytes, which is made on a new disk. -/
theorem new_disk_session (hne : name.chars ≠ []) (hlen : name.chars.length ≤ NAME_MAX)
    (htext : text.length ≤ 512) (e : DirEntry) : ∃ s f t m,
      FileSys.filesys_init blank_disk unlimited (fun _ => 0) true = some s ∧
      ampleRuns.Exec s ((.create name (512 : Nat) e, .success true) :: session name text e f) t ∧
      Refines t m ∧ m.handles = ∅ := by
  rcases blank_disk_format with ⟨s, heq, hfresh, hcnt, hample⟩
  have hsectors : bytes_to_sectors 512 = 1 := bytes_to_sectors_eq (by decide)
  have hfree : s.FreeFrom 4 := fun j hj hlt => hfresh.free hcnt hj (by rwa [← hcnt])
  have hsize : 512 < OFF_T := by decide
  rcases (hfresh.refines hample).create_free name 512 e hfree (by rw [hcnt, hsectors]; decide)
    hsize hne hlen (Finmap.lookup_empty _) (by decide) with ⟨i, u, hcreate, _, hu, _⟩
  have hdata : (FileMap.put ⟨∅, fun _ => [], ∅⟩ name i (List.replicate 512 0)).data i =
      List.replicate 512 0 := Function.update_self _ _ _
  rcases hu.session (Finmap.lookup_insert _) rfl text
    (by rw [hdata, List.length_replicate]; exact htext) e with ⟨f, t, m, hexec, ht, hclosed⟩
  have hfirst : ampleRuns.Exec s [_] u := System.Exec.single (step_of_create hsize hcreate)
  exact ⟨s, f, t, m, heq, hfirst.append hexec, ht, hclosed⟩

def short_name : CString := ⟨[110, 101, 119], by decide⟩

/-! ## Whatever memory there is -/

/-- In every state that the file system reaches from a new disk, names, files and sectors fit
together.  No call panics but one that creates a file of a negative size, in `inode_create`; and a
new file has no sector of a file that is in use. -/
theorem fsRuns_consistent (h : fsRuns.Reachable s) :
    s.Consistent ∧
      (∀ c : FsCall, c.Allowed s → c.run s = none →
        ∃ name size e, c = FsCall.create name size e ∧ size < 0 ∧ s.LengthPanic size) ∧
      ∀ (name : CString) (size : Int) (e : DirEntry) (t : FileSys), size < OFF_T →
        s.filesys_create name size e = some (true, t) →
          ∃ k, k < ROOT_ENTRIES ∧ FileSys.names name (dir_entry t.fs_device k) = true ∧
            ∀ j a, s.Live j → Cell s.fs_device j a →
              ¬ Cell t.fs_device (dir_entry t.fs_device k).inode_sector a := by
  have hs := fsRuns_between h
  refine ⟨hs.consistent, fun c hc hnone => ?_, fun name size e t hsize hcreate =>
    hs.create_fresh hcreate hsize⟩
  rcases hs.call hc with ⟨r, s', heq, _⟩ | ⟨name, size, e, hcall, hneg, _, hpanic⟩
  · rw [hnone] at heq
    cases heq
  · exact ⟨name, size, e, hcall, hneg, hpanic⟩

/-- After a session on a new disk. -/
theorem fsRuns_consistent_blank_disk : ∃ s e f t,
    FileSys.filesys_init blank_disk unlimited (fun _ => 0) true = some s ∧
    fsRuns.Exec s ((.create short_name (512 : Nat) e, .success true) ::
      session short_name [104, 105] e f) t ∧ t.Consistent := by
  rcases @new_disk_session short_name [104, 105] (by decide) (by decide) (by decide)
    (DirEntry.ofBytes fun _ => 0) with ⟨s, f, t, _, heq, hexec, _⟩
  have hexec' := hexec.of_ample
  have hreach : fsRuns.Reachable s := System.Reachable.init ⟨_, _, _, heq⟩
  exact ⟨s, _, f, t, heq, hexec', (fsRuns_consistent (hreach.exec hexec')).1⟩

/-! ## With memory -/

/-- Every run in which no allocation of memory fails is a run of a file map, with the same results,
and no call panics but those with a negative size.  A file that may be created is.  Where all
handles are closed, the file system stands for the same file map and marks the same sectors after it
has been stopped and started. -/
theorem filesys_refines_file_map {ls : List (FsCall × FsResult)} (hinit : ampleRuns.init s)
    (hrun : ampleRuns.Exec s ls t) :
    ∃ m m', FileMap.runs.init m ∧ FileMap.runs.Exec m ls m' ∧ Represents t m' ∧
      (∀ c : FsCall, c.Allowed t → (∀ name size e, c = FsCall.create name size e → 0 ≤ size) →
        ∃ r u, c.run t = some (r, u)) ∧
      (∀ (name : CString) (size : Nat) (e : DirEntry), size < OFF_T →
        ∃ ok u, t.filesys_create name size e = some (ok, u) ∧
          (ok = true ↔ CreateFits t m' name size)) ∧
      (m'.handles = ∅ → ∀ (mem : Mallocs) (storage : Nat → BitVec 32), mem.Ample →
        ∃ s₁ s₂, t.filesys_done = some s₁ ∧
          FileSys.filesys_init s₁.fs_device mem storage false = some s₂ ∧ Represents s₂ m' ∧
          s₂.free_map.bit_cnt = t.free_map.bit_cnt ∧
          ∀ j, j < t.free_map.bit_cnt → s₂.free_map.test j = t.free_map.test j) := by
  rcases ampleRuns_simulates.init s hinit with ⟨m, hm, href⟩
  rcases ampleRuns_simulates.exec hrun href with ⟨m', hexec, href'⟩
  refine ⟨m, m', hm, hexec, href'.represents, fun c hc hpos => ?_,
    fun name _ e hsize => href'.create_iff name hsize e, fun hclosed mem storage hmem => ?_⟩
  · rcases href'.stable.toBetween.call hc with ⟨r, u, heq, _⟩ | ⟨name, size, e, hcall, hneg, _⟩
    · exact ⟨r, u, heq⟩
    · exact absurd (hpos name size e hcall) (Int.not_le.2 hneg)
  · rcases @Refines.restart _ _ href' hclosed _ storage hmem with
      ⟨s₁, s₂, hdone, hstart, href₂, hcnt, htest⟩
    exact ⟨s₁, s₂, hdone, hstart, href₂.represents, hcnt, htest⟩

/-- After a session on a new disk, and after the file system has been started again. -/
theorem filesys_refines_file_map_blank_disk : ∃ s e f t m m' s₁ s₂,
    FileSys.filesys_init blank_disk unlimited (fun _ => 0) true = some s ∧
    ampleRuns.Exec s ((.create short_name (512 : Nat) e, .success true) ::
      session short_name [104, 105] e f) t ∧
    FileMap.runs.init m ∧ FileMap.runs.Exec m
      ((.create short_name (512 : Nat) e, .success true) ::
        session short_name [104, 105] e f) m' ∧ Represents t m' ∧
    t.filesys_done = some s₁ ∧
    FileSys.filesys_init s₁.fs_device unlimited (fun _ => 0) false = some s₂ ∧
    Represents s₂ m' := by
  rcases @new_disk_session short_name [104, 105] (by decide) (by decide) (by decide)
    (DirEntry.ofBytes fun _ => 0) with ⟨s, f, t, m₀, heq, hexec, href, hclosed⟩
  have hinit : ampleRuns.init s := ⟨_, _, _, fun _ => rfl, heq⟩
  rcases filesys_refines_file_map hinit hexec with
    ⟨m, m', hm, hmap, hrep, _, _, hrestart⟩
  have hclosed' : m'.handles = ∅ := hrep.handles_eq href.represents ▸ hclosed
  rcases hrestart hclosed' unlimited (fun _ => 0) (fun _ => rfl) with
    ⟨s₁, s₂, hdone, hstart, hrep₂, _⟩
  exact ⟨s, _, f, t, m, m', s₁, s₂, heq, hexec, hm, hmap, hrep, hdone, hstart, hrep₂⟩

end Berk162
