import Berk162.Userprog.LoadImage

/-!
# LoadRuns — loading an executable on a machine that is running

The page allocator and the page directories are in any state that a run leads to in which the process
has no directory yet, and so is the file system with the executable.
-/

namespace Berk162

section

variable {init_ram_pages user_page_limit text_start text_end rounds : Nat} {r : PagedirRun}
  {fs : FileSys}

/-- `load_spec` on a running machine. -/
theorem load_reachable (hlo : 256 ≤ init_ram_pages) (hhi : init_ram_pages < 2 ^ 18)
    (hr : (pagedirSystem init_ram_pages user_page_limit text_start text_end).Reachable r)
    (hpd : r.pd = NULL) (hfs : fsRuns.Reachable fs) (hrounds : 2 ^ 20 ≤ rounds) (pagedir : Nat)
    (name : CString) (e : DirEntry) :
    ∃ kern s' result,
      (⟨init_ram_pages, r.init_page_dir, pagedir, r.alloc, fs⟩ : Loader).load rounds name e =
        some (s', result) ∧ Between s'.fs ∧ (∀ f, s'.fs.files.get f = fs.files.get f) ∧
      LoadSpec ⟨init_ram_pages, r.init_page_dir, pagedir, r.alloc, fs⟩ r.kernel kern r.others name
        s' result := by
  rcases pagedir_reachable_inv hlo hhi hr with ⟨pt, kern, h⟩
  have hmap : r.map = fun _ => none := funext (h.empty hpd).2
  have hrun : r = ⟨r.alloc, r.init_page_dir, r.kernel, NULL, fun _ => none, r.others⟩ := by
    rw [← hpd, ← hmap]
  rw [hrun] at h
  rcases load_spec (s := ⟨init_ram_pages, r.init_page_dir, pagedir, r.alloc, fs⟩) h
    (fsRuns_between hfs) hrounds name e with ⟨s', result, hload, _, hbetween, hfiles, hspec⟩
  exact ⟨kern, s', result, hload, hbetween, hfiles, hspec⟩

/-- No executable makes `load` panic or run for ever, and for no program header that passes
`validate_segment` does a computation wrap. -/
theorem load_never_panics (hlo : 256 ≤ init_ram_pages) (hhi : init_ram_pages < 2 ^ 18)
    (hr : (pagedirSystem init_ram_pages user_page_limit text_start text_end).Reachable r)
    (hpd : r.pd = NULL) (hfs : fsRuns.Reachable fs) (hrounds : 2 ^ 20 ≤ rounds) (pagedir : Nat)
    (name : CString) (e : DirEntry) :
    (∃ s' result,
      (⟨init_ram_pages, r.init_page_dir, pagedir, r.alloc, fs⟩ : Loader).load rounds name e =
        some (s', result)) ∧
      ∀ (s : Loader) (file pos : Nat) (data : Bytes) (rest : Nat → Option File) (bytes : Bytes),
        Reading s.fs file pos data rest →
        s.validate_segment (Elf32_Phdr.ofBytes bytes) file = some true →
        (Elf32_Phdr.ofBytes bytes).Exact := by
  rcases load_reachable hlo hhi hr hpd hfs hrounds pagedir name e with ⟨_, s', result, hload, _⟩
  refine ⟨⟨s', result, hload⟩, fun s file pos data rest bytes hreading hvalid => ?_⟩
  rcases validate_segment_spec (s := s) hreading (Elf32_Phdr.words_ofBytes bytes) with
    ⟨ok, hok, hiff⟩
  rw [hvalid, Option.some.injEq] at hok
  exact (hiff.1 hok.symm).exact hreading.length_lt

/-- After a successful `load` the process has the memory that the headers of the file prescribe. -/
theorem load_builds_image (hlo : 256 ≤ init_ram_pages) (hhi : init_ram_pages < 2 ^ 18)
    (hr : (pagedirSystem init_ram_pages user_page_limit text_start text_end).Reachable r)
    (hpd : r.pd = NULL) (hfs : fsRuns.Reachable fs) (hrounds : 2 ^ 20 ≤ rounds) {pagedir : Nat}
    {name : CString} {e : DirEntry} {s' : Loader} {eip esp : Nat}
    (hload : (⟨init_ram_pages, r.init_page_dir, pagedir, r.alloc, fs⟩ : Loader).load rounds name e =
      some (s', some (eip, esp))) :
    ∃ data, fs.HasFile name data ∧ Prescribed s' data eip esp := by
  rcases load_reachable hlo hhi hr hpd hfs hrounds pagedir name e with
    ⟨kern, s₁, result, hcall, _, _, hspec⟩
  rw [hload, Option.some.injEq, Prod.mk.injEq] at hcall
  rcases hcall with ⟨rfl, rfl⟩
  cases hspec with
  | loaded hshows hfile himage =>
      exact ⟨_, hfile, hshows.prescribed himage ((fsRuns_between hfs).length_lt hfile)⟩

end

/-! ## A small program -/

/-- An executable with one segment, which holds the headers and some zeros. -/
def small_program : Bytes :=
  ELF_IDENT ++ List.replicate 9 0 ++ le_bytes 2 2 ++ le_bytes 2 3 ++ le_bytes 4 1 ++
    le_bytes 4 0x08048054 ++ le_bytes 4 52 ++ le_bytes 4 0 ++ le_bytes 4 0 ++ le_bytes 2 52 ++
    le_bytes 2 32 ++ le_bytes 2 1 ++ List.replicate 6 0 ++ le_bytes 4 PT_LOAD ++ le_bytes 4 0 ++
    le_bytes 4 0x08048000 ++ le_bytes 4 0x08048000 ++ le_bytes 4 84 ++ le_bytes 4 5000 ++
    le_bytes 4 PF_W ++ le_bytes 4 4096

def program_name : CString := ⟨[97], by decide⟩

def unused_entry : DirEntry := DirEntry.ofBytes fun _ => 0

/-- A new file system with a file of 84 zeros. -/
def zeros_disk : Option FileSys := do
  let s ← FileSys.filesys_init blank_disk unlimited (fun _ => 0) true
  let (_, s) ← (FsCall.create program_name 84 unused_entry).run s
  return s

/-- The same file system with the program in the file. -/
def program_disk : Option FileSys := do
  let s ← zeros_disk
  let (r, s) ← (FsCall.openFile program_name unused_entry).run s
  if r = FsResult.file (some 2) then
    let (_, s) ← (FsCall.write 2 small_program).run s
    return s
  else none

theorem zeros_disk_reachable {fs : FileSys} (h : zeros_disk = some fs) : fsRuns.Reachable fs := by
  rw [zeros_disk] at h
  rcases Option.bind_eq_some_iff.1 h with ⟨s₀, hinit, h⟩
  rcases Option.bind_eq_some_iff.1 h with ⟨⟨r₁, s₁⟩, hcreate, h⟩
  cases h
  have h₀ : fsRuns.Reachable s₀ := System.Reachable.init ⟨_, _, _, hinit⟩
  have hsize : (84 : Int) < OFF_T := by decide
  have hstep₁ : fsRuns.step s₀ (FsCall.create program_name 84 unused_entry, r₁) fs :=
    ⟨hsize, hcreate⟩
  exact System.Reachable.step h₀ hstep₁

theorem program_disk_reachable {fs : FileSys} (h : program_disk = some fs) :
    fsRuns.Reachable fs := by
  rw [program_disk] at h
  rcases Option.bind_eq_some_iff.1 h with ⟨s₁, hcreate, h⟩
  rcases Option.bind_eq_some_iff.1 h with ⟨⟨r₂, s₂⟩, hopen, h⟩
  have h₁ := zeros_disk_reachable hcreate
  have hstep₂ : fsRuns.step s₁ (FsCall.openFile program_name unused_entry, r₂) s₂ :=
    ⟨trivial, hopen⟩
  have h₂ := System.Reachable.step h₁ hstep₂
  by_cases hfile : r₂ = FsResult.file (some 2)
  · dsimp only at h
    rw [if_pos hfile] at h
    rcases Option.bind_eq_some_iff.1 h with ⟨⟨r₃, s₃⟩, hwrite, h⟩
    cases h
    -- the file that was opened is a handle
    have hhandle : s₂.IsHandle 2 := by
      rw [hfile, FsCall.run] at hopen
      rcases Option.map_eq_some_iff.1 hopen with ⟨⟨f, t⟩, hcall, hpair⟩
      rw [Prod.mk.injEq, FsResult.file.injEq] at hpair
      rcases hpair with ⟨rfl, rfl⟩
      rcases (fsRuns_between h₁).filesys_open program_name unused_entry with
        ⟨_, hnone, _⟩ | ⟨t', f, _, hsome, _, _, hreading⟩
      · rw [hnone] at hcall
        cases hcall
      · rw [hsome, Option.some.injEq, Prod.mk.injEq, Option.some.injEq] at hcall
        rcases hcall with ⟨rfl, rfl⟩
        rcases hreading.handle with ⟨file, _, hf, _⟩
        exact ⟨hf.user, file, hf.get_file⟩
    have hstep₃ : fsRuns.step s₂ (FsCall.write 2 small_program, r₃) s₃ := ⟨hhandle, hwrite⟩
    exact System.Reachable.step h₂ hstep₃
  · dsimp only at h
    rw [if_neg hfile] at h
    cases h

set_option maxRecDepth 100000 in
/-- The program is loaded on a machine with 272 pages of memory. -/
theorem small_program_loads :
    ∃ r fs s', (pagedirSystem 272 (WORD - 1) 0xc0020000 0xc0030000).Reachable r ∧ r.pd = NULL ∧
      fsRuns.Reachable fs ∧ (⟨272, r.init_page_dir, NULL, r.alloc, fs⟩ : Loader).load (2 ^ 20)
        program_name unused_entry = some (s', some (0x08048054, PHYS_BASE)) := by
  have hrun : (program_disk.bind fun fs =>
      (palloc_init 272 (WORD - 1) (fun _ _ => 0) fun _ => 0).bind fun p =>
        (paging_init 272 0xc0020000 0xc0030000 p).bind fun r =>
          ((⟨272, r.2, NULL, r.1, fs⟩ : Loader).load (2 ^ 20) program_name unused_entry).map
            Prod.snd) = some (some (0x08048054, PHYS_BASE)) := by
    decide +kernel
  rcases Option.bind_eq_some_iff.1 hrun with ⟨fs, hfs, hrun⟩
  rcases Option.bind_eq_some_iff.1 hrun with ⟨p, hp, hrun⟩
  rcases Option.bind_eq_some_iff.1 hrun with ⟨⟨a, init_page_dir⟩, hpaging, hrun⟩
  rcases Option.map_eq_some_iff.1 hrun with ⟨⟨s', result⟩, hload, hresult⟩
  obtain rfl : result = some (0x08048054, PHYS_BASE) := hresult
  have hboot : (pagedirSystem 272 (WORD - 1) 0xc0020000 0xc0030000).Reachable
      ⟨a, init_page_dir, fun i => word_at a.mem (init_page_dir + 4 * i), NULL, fun _ => none, []⟩ :=
    System.Reachable.init ⟨rfl, fun _ => rfl, rfl, fun _ => rfl, _, _, p, hp, hpaging⟩
  exact ⟨_, fs, s', hboot, rfl, program_disk_reachable hfs, hload⟩

theorem load_never_panics_small_program :
    ∃ r fs, (pagedirSystem 272 (WORD - 1) 0xc0020000 0xc0030000).Reachable r ∧
      ∃ s' result, (⟨272, r.init_page_dir, NULL, r.alloc, fs⟩ : Loader).load (2 ^ 20)
        program_name unused_entry = some (s', result) := by
  rcases small_program_loads with ⟨r, fs, _, hr, hpd, hfs, _⟩
  exact ⟨r, fs, hr, (load_never_panics (by omega) (by omega) hr hpd hfs (Nat.le_refl _) NULL
    program_name unused_entry).1⟩

theorem load_builds_image_small_program :
    ∃ (fs : FileSys) (s' : Loader) (data : Bytes), fs.HasFile program_name data ∧
      Prescribed s' data 0x08048054 PHYS_BASE := by
  rcases small_program_loads with ⟨r, fs, s', hr, hpd, hfs, hload⟩
  rcases load_builds_image (by omega) (by omega) hr hpd hfs (Nat.le_refl _) hload with
    ⟨data, hfile, hprescribed⟩
  exact ⟨fs, s', data, hfile, hprescribed⟩

end Berk162
