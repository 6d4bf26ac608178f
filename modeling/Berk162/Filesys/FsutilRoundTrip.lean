import Berk162.Filesys.FsutilExtract

/-!
# FsutilRoundTrip — archives of any files

`fsutil_append` on each of some files, which are only known by their names and their data, and after
a reboot `fsutil_extract`.  Both need memory and a scratch device that may be written, and where no
file has been appended `fsutil_extract` takes whatever is on the device for an archive.
-/

namespace Berk162

variable {s : FileSys} {m : FileMap} {files : List (CString × Bytes)}

/-- An archive can hold files that have the names and the data. -/
theorem exists_archive_files (hnames : ∀ x ∈ files, stripped x.1 = x.1)
    (hlength : ∀ x ∈ files, x.1.chars.length ≤ 99) (hdata : ∀ x ∈ files, x.2.length ≤ INT_MAX) :
    ∃ xs : List ArchiveFile, xs.map (fun x => (x.file_name, x.data)) = files := by
  induction files with
  | nil => exact ⟨[], rfl⟩
  | cons x files ih =>
      rcases ih (fun y hy => hnames y (List.mem_cons_of_mem x hy))
        (fun y hy => hlength y (List.mem_cons_of_mem x hy))
        (fun y hy => hdata y (List.mem_cons_of_mem x hy)) with ⟨xs, rfl⟩
      have hx : x ∈ x :: xs.map fun x => (x.file_name, x.data) := List.mem_cons_self
      exact ⟨⟨x.1, x.2, hnames x hx, hlength x hx, hdata x hx⟩ :: xs, rfl⟩

/-- The sectors of an archive with the files. -/
def files_in_archive (files : List (CString × Bytes)) : Nat :=
  (files.map fun x => 1 + data_sectors x.2.length).sum

/-- The sectors of the files in a file system, with their inodes. -/
def files_in_file_system (files : List (CString × Bytes)) : Nat :=
  (files.map fun x => 1 + bytes_to_sectors x.2.length).sum

theorem files_in_archive_map (xs : List ArchiveFile) :
    files_in_archive (xs.map fun x => (x.file_name, x.data)) = archive_sectors xs := by
  rw [files_in_archive, List.map_map]
  rfl

theorem files_in_file_system_map (xs : List ArchiveFile) :
    files_in_file_system (xs.map fun x => (x.file_name, x.data)) = file_sectors xs := by
  rw [files_in_file_system, List.map_map]
  rfl

/-- What becomes of files on their way through an archive, and of what a header says. -/
structure ArchivesRoundTrip (floats : FloatConversions) (memory : BitVec 32 → UInt8) : Prop where
  files : ∀ (files : List (CString × Bytes)) (s t : FileSys) (dst dev : Block) (mem : Mallocs)
    (storage : Nat → BitVec 32) (stack stack' : Nat → DirEntry),
    ampleRuns.Reachable s → (∀ x ∈ files, s.HasFile x.1 x.2) → (files.map Prod.fst).Nodup →
    (∀ x ∈ files, x.1.chars.length ≤ NAME_MAX) → (∀ x ∈ files, stripped x.1 = x.1) →
    dst.type ≠ .foreign → files_in_archive files + 2 ≤ dst.size → files ≠ [] ∨ EndsAt dst 0 →
    mem.Ample → FileSys.filesys_init dev mem storage true = some t →
    files.length ≤ ROOT_ENTRIES →
    3 + bytes_to_sectors (byte_cnt t.free_map.bit_cnt) + files_in_file_system files ≤
      t.free_map.bit_cnt →
    ∃ u v, fsutil_append_all floats memory stack (files.map Prod.fst) ⟨s, some dst, 0, 0⟩ = .ok u ∧
      fsutil_extract stack' ⟨t, u.scratch, 0, 0⟩ = .ok v ∧
      ∀ name data, v.fs.HasFile name data ↔ (name, data) ∈ files
  header : ∀ (file_name : CString) (type : UstarType) (size : BitVec 32),
    (stripped file_name).chars.length ≤ 99 → 0 ≤ size.toInt →
    type = .USTAR_REGULAR ∨ type = .USTAR_DIRECTORY →
    ∃ h, ustar_make_header floats memory file_name type size = some (.ok h) ∧
      ustar_parse_header h = .ok ⟨some (stripped file_name), type,
        if type = .USTAR_REGULAR then size.toNat else 0⟩

/-- Files that are appended one after the other to an archive on the scratch device, and extracted
after a reboot into a new file system, are there with their names and their data, and no others are,
provided that there are memory and room, and that there are files or an archive without files; and a
header is parsed to what it has been made of. -/
theorem archives_round_trip (floats : FloatConversions) (memory : BitVec 32 → UInt8) :
    ArchivesRoundTrip floats memory where
  files files s t dst dev mem storage stack stack' hs hfiles hdistinct hlength hstripped htype hdst
      hne hmem hinit hentries hspace := by
    -- a file of the file system has no more bytes than an archive can hold
    have hdata : ∀ x ∈ files, x.2.length ≤ INT_MAX := by
      intro x hx
      rcases ampleRuns_refines hs with ⟨m, href⟩
      have hlt : x.2.length < OFF_T := href.stable.toBetween.length_lt (hfiles x hx)
      rw [OFF_T] at hlt
      rw [INT_MAX]
      omega
    have hname : ∀ x ∈ files, x.1.chars.length ≤ 99 := fun x hx =>
      Nat.le_trans (hlength x hx) (by decide)
    rcases exists_archive_files hstripped hname hdata with ⟨xs, rfl⟩
    have hfst : (xs.map fun x => (x.file_name, x.data)).map Prod.fst =
        xs.map ArchiveFile.file_name := List.map_map
    have hmem_map : ∀ x ∈ xs, (x.file_name, x.data) ∈ xs.map fun x => (x.file_name, x.data) :=
      fun x hx => List.mem_map_of_mem hx
    rw [files_in_archive_map] at hdst
    rw [files_in_file_system_map] at hspace
    rw [hfst] at hdistinct ⊢
    rw [List.length_map] at hentries
    have hne' : xs ≠ [] ∨ EndsAt dst 0 := hne.imp_left fun h hnil => h (by rw [hnil]; rfl)
    rcases append_then_extract floats memory stack stack' xs dst hs
      (fun x hx => hfiles _ (hmem_map x hx)) hdistinct (fun x hx => hlength _ (hmem_map x hx)) htype
      hdst hne' hmem hinit hentries hspace with ⟨u, v, _, happend, _, hextract, hnames, _⟩
    refine ⟨u, v, happend, hextract, fun name data => ?_⟩
    rw [hnames, List.mem_map]
    simp only [Prod.mk.injEq]
  header file_name type size hlen hsize htype := by
    rcases ustar_make_header_eq floats memory size htype hlen with ⟨h, hmake, hd⟩
    have hlarge : ¬ (type = .USTAR_REGULAR ∧ size.toNat > INT_MAX) := by
      have hint := BitVec.toInt_eq_toNat_cond size
      rw [INT_MAX]
      split at hint <;> omega
    refine ⟨h, hmake, ?_⟩
    rw [hd.parse htype, if_neg hlarge, stripped_stripped]

def unused_stack (_ : Nat) : DirEntry := DirEntry.ofBytes fun _ => 0

/-- A file of 512 zeros, and the header of a directory. -/
theorem archives_round_trip_letter :
    (∃ s t u v, s.HasFile letter_name (List.replicate 512 0) ∧
      FileSys.filesys_init blank_disk unlimited (fun _ => 0) true = some t ∧
      fsutil_append_all no_doubles (fun _ => 0) unused_stack [letter_name]
        ⟨s, some scratch_disk, 0, 0⟩ = .ok u ∧
      fsutil_extract unused_stack ⟨t, u.scratch, 0, 0⟩ = .ok v ∧
      ∀ name data, v.fs.HasFile name data ↔ (name, data) ∈ [(letter_name, List.replicate 512 0)]) ∧
    ∃ h, ustar_make_header no_doubles (fun _ => 0) letter_name .USTAR_DIRECTORY 7 = some (.ok h) ∧
      ustar_parse_header h = .ok ⟨some (stripped letter_name), .USTAR_DIRECTORY, 0⟩ := by
  constructor
  · rcases letter_file_system with ⟨s, hs, hfile⟩
    rcases blank_disk_format with ⟨t, heq, _, hcnt, _⟩
    rcases (archives_round_trip no_doubles fun _ => 0).files
        ([letter_file].map fun x => (x.file_name, x.data)) s t scratch_disk blank_disk unlimited
        (fun _ => 0) unused_stack unused_stack hs (fun x hx => List.mem_singleton.1 hx ▸ hfile)
        (List.nodup_singleton _) (fun x hx => List.mem_singleton.1 hx ▸ by decide)
        (fun x hx => List.mem_singleton.1 hx ▸ letter_file.stripped_name) (by decide)
        (by rw [files_in_archive_map]; exact letter_file_fits) (Or.inl (List.cons_ne_nil _ _))
        (fun _ => rfl) heq (by decide)
        (by rw [files_in_file_system_map]; exact letter_file_room hcnt) with
      ⟨u, v, happend, hextract, hfiles⟩
    exact ⟨s, t, u, v, hfile, heq, happend, hextract, hfiles⟩
  · exact (archives_round_trip no_doubles fun _ => 0).header letter_name .USTAR_DIRECTORY 7
      (by decide) (by decide) (Or.inr rfl)

/-! ## Without memory, without files, and on a foreign device -/

/-- A file system with an empty file that has used up its memory. -/
def starved : Option FileSys := do
  let s ← FileSys.filesys_init blank_disk (fun i => decide (i < 34)) (fun _ => 0) true
  let (_, s) ← (FsCall.create letter_name 0 (DirEntry.ofBytes fun _ => 0)).run s
  return s

theorem starved_reachable (h : starved = some s) : fsRuns.Reachable s := by
  rw [starved] at h
  rcases Option.bind_eq_some_iff.1 h with ⟨s₀, hinit, h⟩
  rcases Option.bind_eq_some_iff.1 h with ⟨⟨r, s₁⟩, hcreate, h⟩
  cases h
  have h₀ : fsRuns.Reachable s₀ := System.Reachable.init ⟨_, _, _, hinit⟩
  have hsize : (0 : Int) < OFF_T := by decide
  have hstep : fsRuns.step s₀ (FsCall.create letter_name 0 (DirEntry.ofBytes fun _ => 0), r) s :=
    ⟨hsize, hcreate⟩
  exact System.Reachable.step h₀ hstep

theorem starved_file : ∃ s, starved = some s ∧ s.HasFile letter_name [] ∧ s.mem 0 = false := by
  have hrun : (starved.map fun s => decide (s.mem 0 = false) &&
      FileSys.names letter_name (dir_entry s.fs_device 0) &&
        decide ((disk_inode s.fs_device (dir_entry s.fs_device 0).inode_sector).length = 0)) =
      some true := by
    decide +kernel
  rcases Option.map_eq_some_iff.1 hrun with ⟨s, hs, hgood⟩
  simp only [Bool.and_eq_true, decide_eq_true_eq] at hgood
  obtain ⟨⟨hmem, hname⟩, hlen⟩ := hgood
  refine ⟨s, hs, ⟨0, by decide, hname, ?_⟩, hmem⟩
  exact List.length_eq_zero_iff.1 ((contents_length _ _).trans hlen)

/-- A scratch device of 64 sectors that is not empty. -/
def used_disk : Block :=
  { blank_disk with type := .scratch, sectors := fun _ => Sector.ofBytes fun _ => 255 }

theorem used_disk_header :
    ustar_parse_header (used_disk.sectors 0).byte = .error (text "not a ustar archive") := by
  decide +kernel

theorem extract_used_disk (h : Refines s m) (stack : Nat → DirEntry) :
    fsutil_extract stack ⟨s, some used_disk, 0, 0⟩ =
      .error (.bad_ustar_header 0 (text "not a ustar archive")) := by
  rcases h.malloc with ⟨s₁, hheader, h₁, _⟩
  rcases h₁.malloc with ⟨s₂, hdata, _, _⟩
  have htrue : ¬ (true = false ∨ true = false) := by decide
  have hbad : extract_header used_disk 0 =
      .error (.bad_ustar_header 0 (text "not a ustar archive")) := by
    rw [extract_header, block_read_eq (by decide), call_some, ok_bind, used_disk_header]
    rfl
  simp only [fsutil_extract, hheader, hdata, if_neg htrue]
  rw [extract_loop, hbad]
  rfl

/-- A device of 64 sectors of another operating system. -/
def foreign_disk : Block := { blank_disk with type := .foreign }

theorem append_foreign_disk (floats : FloatConversions) (memory : BitVec 32 → UInt8)
    (x : ArchiveFile) (stack : Nat → DirEntry) (h : Refines s m)
    (hfile : m.HasFile x.file_name x.data) :
    fsutil_append floats memory stack x.file_name ⟨s, some foreign_disk, 0, 0⟩ =
      .error .called := by
  rcases h.malloc with ⟨s₁, hmalloc, h₁, _⟩
  rcases hfile with ⟨i, hi, hdata⟩
  rcases h₁.filesys_open hi (stack 0) with ⟨src, s₂, hopen, _, h₂, _⟩
  have hlength := (h₂.file_length (m.lookup_setHandle src i 0)).1
  have hdata₂ : (m.setHandle src i 0).data i = x.data := hdata
  rw [hdata₂] at hlength
  rcases @ArchiveFile.header floats memory x with ⟨hd, hmake, _⟩
  have hforeign : block_write foreign_disk 0 (Sector.ofBytes hd) = none := by
    rw [block_write, check_sector_eq_some.2 (by decide), ASSERT_neg (by decide)]
    rfl
  have htrue : ¬ (true = false) := by decide
  simp only [fsutil_append, hmalloc, if_neg htrue, hopen, call_some, ok_bind, hlength, append_file,
    hmake, hforeign]
  rfl

/-- A file is not appended without memory, nor to a device of another operating system; and where
nothing has been appended, what is on the device is not an archive. -/
theorem archives_round_trip_fails :
    (∃ s, fsRuns.Reachable s ∧ s.HasFile letter_name [] ∧
      fsutil_append_all no_doubles (fun _ => 0) unused_stack [letter_name]
        ⟨s, some scratch_disk, 0, 0⟩ = .error .couldnt_allocate_buffers) ∧
    (∃ s, FileSys.filesys_init blank_disk unlimited (fun _ => 0) true = some s ∧
      fsutil_append_all no_doubles (fun _ => 0) unused_stack [] ⟨s, some used_disk, 0, 0⟩ =
        .ok ⟨s, some used_disk, 0, 0⟩ ∧
      fsutil_extract unused_stack ⟨s, some used_disk, 0, 0⟩ =
        .error (.bad_ustar_header 0 (text "not a ustar archive"))) ∧
    ∃ s, ampleRuns.Reachable s ∧ s.HasFile letter_name (List.replicate 512 0) ∧
      fsutil_append_all no_doubles (fun _ => 0) unused_stack [letter_name]
        ⟨s, some foreign_disk, 0, 0⟩ = .error .called := by
  refine ⟨?_, ?_, ?_⟩
  · rcases starved_file with ⟨s, hs, hfile, hmem⟩
    refine ⟨s, starved_reachable hs, hfile, ?_⟩
    rw [fsutil_append_all, List.foldlM_cons, fsutil_append, FsInv.malloc_eq hmem]
    rfl
  · rcases blank_disk_format with ⟨s, heq, hfresh, _, hample⟩
    exact ⟨s, heq, rfl, extract_used_disk (hfresh.refines hample) unused_stack⟩
  · rcases letter_file_system with ⟨s, hs, hfile⟩
    rcases ampleRuns_refines hs with ⟨m, href⟩
    refine ⟨s, hs, hfile, ?_⟩
    have happend := append_foreign_disk no_doubles (fun _ => 0) letter_file unused_stack href
      (href.hasFile_iff.2 hfile)
    rw [fsutil_append_all, List.foldlM_cons, show letter_name = letter_file.file_name from rfl,
      happend]
    rfl

end Berk162
