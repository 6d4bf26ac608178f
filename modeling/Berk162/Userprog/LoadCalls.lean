import Berk162.Userprog.LoadSegment

/-!
# LoadCalls — `load` never panics, and what it leaves behind

Each function of the loader returns, whatever the file contains.  Where it succeeds, the memory of
the process has become what the program headers ask for.
-/

namespace Berk162

/-! ## What an executable asks for -/

/-- The executable header at the beginning of a file. -/
def executable_header (data : Bytes) : Elf32_Ehdr :=
  Elf32_Ehdr.ofBytes (data.take sizeof_Elf32_Ehdr)

/-- The `n` program headers that begin at `ofs`. -/
def program_headers (data : Bytes) : Nat → Nat → List Elf32_Phdr
  | _, 0 => []
  | ofs, n + 1 =>
      Elf32_Phdr.ofBytes ((data.drop ofs).take sizeof_Elf32_Phdr) ::
        program_headers data (ofs + sizeof_Elf32_Phdr) n

/-- The headers of loadable segments. -/
def segments (phdrs : List Elf32_Phdr) : List Elf32_Phdr :=
  phdrs.filter fun phdr => phdr.p_type = PT_LOAD

/-- The loadable segments of an executable. -/
def executable_segments (data : Bytes) : List Elf32_Phdr :=
  segments (program_headers data (executable_header data).e_phoff (executable_header data).e_phnum)

/-- The page below `PHYS_BASE`. -/
def stack_page : Nat := size_sub PHYS_BASE PGSIZE

theorem stack_page_eq : stack_page = 3221221376 := rfl

/-- A page of zeros. -/
def zero_page : PageImage := ⟨true, window (fun _ => 0) 0 PGSIZE⟩

/-- The header is valid, and the part of the segment that is not zero lies in the file. -/
structure Elf32_Phdr.InFile (data : Bytes) (phdr : Elf32_Phdr) : Prop where
  valid : phdr.Valid data.length
  bytes : phdr.file_page + phdr.read_bytes ≤ data.length ∨ phdr.read_bytes = 0

/-- `space'` is `space` with the segments `phdrs`. -/
structure SegmentsLoaded (data : Bytes) (space space' : UserSpace) (phdrs : List Elf32_Phdr) :
    Prop where
  in_file : ∀ phdr ∈ phdrs, phdr.InFile data
  extends_all : ExtendsAll space space' Elf32_Phdr.Covers (Elf32_Phdr.page data) phdrs

/-- `space` consists of the segments of `data` and of the stack. -/
structure ImageLoaded (data : Bytes) (space : UserSpace) : Prop where
  verified : (executable_header data).Verified
  image : ∃ space₀, SegmentsLoaded data (fun _ => none) space₀ (executable_segments data) ∧
    Extends space₀ space (fun p => p = stack_page) fun _ => zero_page

section

variable {s : Loader} {kernel : Nat → BitVec 32} {kern others : List Group} {space : UserSpace}
  {file pos upage rounds : Nat} {data : Bytes} {rest : Nat → Option File}

namespace SegmentsLoaded

theorem nil (data : Bytes) (space : UserSpace) : SegmentsLoaded data space space [] :=
  ⟨nofun, ExtendsAll.nil⟩

theorem single {space' : UserSpace} {phdr : Elf32_Phdr} (h : phdr.InFile data)
    (hext : Extends space space' phdr.Covers (phdr.page data)) :
    SegmentsLoaded data space space' [phdr] where
  in_file := List.forall_mem_singleton.2 h
  extends_all := ExtendsAll.single hext

/-- What is loaded for one header comes before what is loaded for the others. -/
theorem cons {space₁ space₂ : UserSpace} {phdr : Elf32_Phdr} {phdrs : List Elf32_Phdr}
    (h : SegmentsLoaded data space space₁ (segments [phdr]))
    (hrest : SegmentsLoaded data space₁ space₂ (segments phdrs)) :
    SegmentsLoaded data space space₂ (segments (phdr :: phdrs)) := by
  have hsplit : segments (phdr :: phdrs) = segments [phdr] ++ segments phdrs :=
    List.filter_append [phdr] phdrs
  rw [hsplit]
  exact ⟨List.forall_mem_append.2 ⟨h.in_file, hrest.in_file⟩,
    h.extends_all.append hrest.extends_all⟩

end SegmentsLoaded

namespace Loader.Shows

theorem load_phdr (h : s.Shows kernel kern others space) (hr : Reading s.fs file pos data rest)
    {phdr : Elf32_Phdr} (hw : phdr.Words) (hrounds : 2 ^ 20 ≤ rounds) :
    ∃ s' success, s.load_phdr rounds file phdr = some (s', success) ∧ s.Same s' ∧
      (∃ pos', Reading s'.fs file pos' data rest) ∧
      ∃ space', s'.Shows kernel kern others space' ∧
        (success = true → SegmentsLoaded data space space' (segments [phdr])) := by
  rw [Loader.load_phdr]
  by_cases hbad : phdr.p_type = PT_DYNAMIC ∨ phdr.p_type = PT_INTERP ∨ phdr.p_type = PT_SHLIB
  · exact ⟨s, false, if_pos hbad, Loader.Same.refl s, ⟨pos, hr⟩, space, h, nofun⟩
  rw [if_neg hbad]
  by_cases hload : phdr.p_type = PT_LOAD
  · rw [if_pos hload]
    have hseg : segments [phdr] = [phdr] := List.filter_cons_of_pos (by simpa using hload)
    rcases validate_segment_spec (s := s) hr hw with ⟨ok, hok, hvalid⟩
    rw [hok, hseg]
    simp only [Option.bind_eq_bind, Option.bind_some]
    cases ok with
    | false =>
        exact ⟨s, false, if_neg Bool.false_ne_true, Loader.Same.refl s, ⟨pos, hr⟩, space, h, nofun⟩
    | true =>
        have hv := hvalid.1 rfl
        rcases h.load_segment hr hv hrounds with
          ⟨s', success, hcall, hsame, hreading, space', hshows, hdone⟩
        refine ⟨s', success, ?_, hsame, hreading, space', hshows, fun hs => ?_⟩
        · rw [if_pos rfl, hcall]
        · rcases hdone hs with ⟨hbytes, hext⟩
          exact SegmentsLoaded.single ⟨hv, hbytes⟩ hext
  · have hseg : segments [phdr] = [] := List.filter_cons_of_neg (by simpa using hload)
    rw [if_neg hload, hseg]
    exact ⟨s, true, rfl, Loader.Same.refl s, ⟨pos, hr⟩, space, h,
      fun _ => SegmentsLoaded.nil data space⟩

/-- The loop over the program headers. -/
theorem load_phdrs (n : Nat) (file_ofs : Int) {s : Loader} {space : UserSpace} {pos : Nat}
    (h : s.Shows kernel kern others space) (hr : Reading s.fs file pos data rest)
    (hrounds : 2 ^ 20 ≤ rounds) :
    ∃ s' success, Loader.load_phdrs rounds file n s file_ofs = some (s', success) ∧ s.Same s' ∧
      (∃ pos', Reading s'.fs file pos' data rest) ∧
      ∃ space', s'.Shows kernel kern others space' ∧
        (success = true → (n = 0 ∨ 0 ≤ file_ofs) ∧
          SegmentsLoaded data space space' (segments (program_headers data file_ofs.toNat n))) := by
  induction n generalizing s space pos file_ofs with
  | zero =>
      exact ⟨s, true, rfl, Loader.Same.refl s, ⟨pos, hr⟩, space, h,
        fun _ => ⟨Or.inl rfl, SegmentsLoaded.nil data space⟩⟩
  | succ n ih =>
      rw [Loader.load_phdrs, hr.file_length]
      simp only [Option.bind_eq_bind, Option.bind_some]
      by_cases hout : file_ofs < 0 ∨ file_ofs > (data.length : Int)
      · exact ⟨s, false, if_pos hout, Loader.Same.refl s, ⟨pos, hr⟩, space, h, nofun⟩
      rw [if_neg hout]
      have hpos : 0 ≤ file_ofs := by omega
      rcases hr.file_seek file_ofs hpos with ⟨fs₁, hseek, hr₁⟩
      lift file_ofs to Nat using hpos with ofs
      rw [Int.toNat_natCast] at hr₁
      rcases hr₁.file_read sizeof_Elf32_Phdr with ⟨m, fs₂, hm, hend, hread, hr₂⟩
      have hlen : ((data.drop ofs).take m).length = m := by
        rw [List.length_take, List.length_drop]
        omega
      rw [hseek, Option.bind_some, hread, Option.bind_some]
      simp only
      rw [hlen]
      by_cases hshort : m ≠ sizeof_Elf32_Phdr
      · refine ⟨s.setFs fs₂, false, if_pos hshort, ⟨rfl, rfl, rfl⟩, ⟨_, hr₂⟩, space, h.setFs fs₂,
          nofun⟩
      rw [if_neg hshort]
      rw [not_not] at hshort
      subst hshort
      set phdr := Elf32_Phdr.ofBytes ((data.drop ofs).take sizeof_Elf32_Phdr) with hphdr
      have hwords : phdr.Words := Elf32_Phdr.words_ofBytes _
      rcases (h.setFs fs₂).load_phdr hr₂ hwords hrounds with
        ⟨s₁, success, hcall, hsame, ⟨pos₁, hr₃⟩, space₁, hshows, hdone⟩
      have hsame' : s.Same s₁ := ⟨hsame.1, hsame.2, hsame.3⟩
      rw [hcall, Option.bind_some]
      cases success with
      | false =>
          exact ⟨s₁, false, if_neg Bool.false_ne_true, hsame', ⟨pos₁, hr₃⟩, space₁, hshows, nofun⟩
      | true =>
          have hnext : int32 ((ofs : Int) + sizeof_Elf32_Phdr) =
              ((ofs + sizeof_Elf32_Phdr : Nat) : Int) := by
            have hlt := hr.length_lt
            have hsize : sizeof_Elf32_Phdr = 32 := rfl
            rw [OFF_T] at hlt
            rw [hsize] at hend ⊢
            rw [int32_eq (by omega) (by omega)]
            rfl
          rcases ih (ofs + sizeof_Elf32_Phdr : Nat) hshows hr₃ with
            ⟨s', success, hcall', hsame'', hreading, space', hshows', hdone'⟩
          refine ⟨s', success, ?_, hsame'.trans hsame'', hreading, space', hshows', fun hs => ?_⟩
          · rw [if_pos rfl, hnext]
            exact hcall'
          · refine ⟨Or.inr (Int.natCast_nonneg ofs), ?_⟩
            rw [Int.toNat_natCast] at hdone' ⊢
            exact (hdone rfl).cons (hdone' hs).2

theorem setup_stack (h : s.Shows kernel kern others space) :
    ∃ s' esp, s.setup_stack = some (s', esp) ∧ s.Same s' ∧ s'.fs = s.fs ∧
      ∃ space', s'.Shows kernel kern others space' ∧ ∀ a, esp = some a → a = PHYS_BASE ∧
        Extends space space' (fun p => p = stack_page) fun _ => zero_page := by
  rw [Loader.setup_stack]
  rcases h.get_page (PAL_USER ||| PAL_ZERO) rfl rfl with
    hcall | ⟨a, page, hcall, hnull, hgot, hzero⟩
  · refine ⟨s.setAlloc s.alloc, none, ?_, ⟨rfl, rfl, rfl⟩, rfl, space, h, nofun⟩
    rw [hcall]
    rfl
  · have hbytes : window (s.setAlloc a).alloc.mem page PGSIZE = window (fun _ => 0) 0 PGSIZE :=
      window_shift fun k hk => hzero (by decide) _ ⟨Nat.le_add_right _ _, Nat.add_lt_add_left hk _⟩
    have hofs : pg_ofs stack_page = 0 := rfl
    have hu : is_user_vaddr stack_page := by decide
    rcases hgot.install_or_free hofs hu true hbytes with
      ⟨s', success, hinstall, hsame, hfs, hfail, hdone⟩
    rw [hcall]
    simp only [Option.bind_eq_bind, Option.bind_some]
    rw [if_pos hnull]
    rw [stack_page] at hinstall
    rw [hinstall, Option.bind_some]
    have hsame' : s.Same s' := ⟨hsame.1, hsame.2, hsame.3⟩
    cases success with
    | false =>
        exact ⟨s', none, rfl, hsame', hfs, space, hfail rfl, nofun⟩
    | true =>
        rcases hdone rfl with ⟨hfree, hshows⟩
        refine ⟨s', some PHYS_BASE, rfl, hsame', hfs, _, hshows, fun b hb => ?_⟩
        exact ⟨(Option.some.inj hb).symm, @Extends.update _ _ space (fun _ => zero_page) _ _ hfree⟩

/-- `load` between opening and closing the file. -/
theorem load_file (h : s.Shows kernel kern others fun _ => none)
    (hr : Reading s.fs file 0 data rest) (hrounds : 2 ^ 20 ≤ rounds) :
    ∃ s' result, s.load_file rounds file = some (s', result) ∧ s.Same s' ∧
      (∃ pos', Reading s'.fs file pos' data rest) ∧
      ∃ space', s'.Shows kernel kern others space' ∧ ∀ r, result = some r →
        r = ((executable_header data).e_entry, PHYS_BASE) ∧ ImageLoaded data space' := by
  rw [Loader.load_file]
  rcases hr.file_read sizeof_Elf32_Ehdr with ⟨m, fs, hm, hend, hread, hr₁⟩
  have hlen : ((data.drop 0).take m).length = m := by
    rw [List.length_take, List.length_drop]
    omega
  rw [hread, Option.bind_eq_bind, Option.bind_some]
  simp only
  rw [hlen, List.drop_zero]
  by_cases hbad : m ≠ sizeof_Elf32_Ehdr ∨ ¬ (Elf32_Ehdr.ofBytes (data.take m)).Verified
  · exact ⟨s.setFs fs, none, if_pos hbad, ⟨rfl, rfl, rfl⟩, ⟨_, hr₁⟩, _, h.setFs fs, nofun⟩
  rw [if_neg hbad]
  rw [not_or, not_not, not_not] at hbad
  rcases hbad with ⟨rfl, hverified⟩
  have hheader : Elf32_Ehdr.ofBytes (data.take sizeof_Elf32_Ehdr) = executable_header data := rfl
  rw [hheader] at hverified ⊢
  set ehdr := executable_header data with hehdr
  rcases (h.setFs fs).load_phdrs ehdr.e_phnum (int32 ehdr.e_phoff) hr₁ hrounds with
    ⟨s₁, success, hcall, hsame, ⟨pos₁, hr₂⟩, space₁, hshows, hdone⟩
  have hsame' : s.Same s₁ := ⟨hsame.1, hsame.2, hsame.3⟩
  rw [hcall, Option.bind_eq_bind, Option.bind_some]
  cases success with
  | false =>
      exact ⟨s₁, none, if_neg Bool.false_ne_true, hsame', ⟨pos₁, hr₂⟩, space₁, hshows, nofun⟩
  | true =>
      rcases hdone rfl with ⟨hpos, hloaded⟩
      -- an offset that passes the check is not negative
      have hphoff : program_headers data (int32 ehdr.e_phoff).toNat ehdr.e_phnum =
          program_headers data ehdr.e_phoff ehdr.e_phnum := by
        rcases hpos with hzero | hpos
        · have hnil : ∀ ofs, program_headers data ofs 0 = [] := fun _ => rfl
          rw [hzero, hnil, hnil]
        · have hlt : ehdr.e_phoff < WORD := elf_field_lt _ _
          have hint : (int32 ehdr.e_phoff).toNat = ehdr.e_phoff := by
            rw [int32] at hpos ⊢
            rw [WORD_eq] at hlt
            omega
          rw [hint]
      rw [hphoff] at hloaded
      rcases hshows.setup_stack with ⟨s', esp, hstack, hsame₂, hfs, space', hshows', hstackp⟩
      refine ⟨s', esp.map fun esp => (ehdr.e_entry, esp), ?_, hsame'.trans hsame₂,
        ⟨pos₁, by rw [hfs]; exact hr₂⟩, space', hshows', fun r hres => ?_⟩
      · rw [if_pos rfl, hstack]
        rfl
      · rcases Option.map_eq_some_iff.1 hres with ⟨a, ha, rfl⟩
        rcases hstackp a ha with ⟨rfl, hext⟩
        exact ⟨rfl, hverified, space₁, hloaded, hext⟩

end Loader.Shows

/-! ## `load` -/

/-- What `load` leaves behind: no directory, or one with part of the segments, or one with the whole
image. -/
inductive LoadSpec (s : Loader) (kernel : Nat → BitVec 32) (kern others : List Group)
    (name : CString) : Loader → Option (Nat × Nat) → Prop
  | no_directory : pagedir_create s.alloc s.init_page_dir = some (s.alloc, NULL) →
      LoadSpec s kernel kern others name (s.setPagedir NULL) none
  | failed {s' : Loader} {space : UserSpace} : s'.Shows kernel kern others space →
      LoadSpec s kernel kern others name s' none
  | loaded {s' : Loader} {space : UserSpace} {data : Bytes} : s'.Shows kernel kern others space →
      s.fs.HasFile name data → ImageLoaded data space →
      LoadSpec s kernel kern others name s' (some ((executable_header data).e_entry, PHYS_BASE))

theorem Loader.load_no_directory (s : Loader)
    (hnull : pagedir_create s.alloc s.init_page_dir = some (s.alloc, NULL)) (name : CString)
    (e : DirEntry) : s.load rounds name e = some (s.setPagedir NULL, none) := by
  rw [Loader.load, hnull]
  rfl

/-- `load` returns.  It closes the file that it opens. -/
theorem load_spec {pt : Nat → Option Nat}
    (h : PagedirInvAt (ram_end s.init_ram_pages)
      ⟨s.alloc, s.init_page_dir, kernel, NULL, fun _ => none, others⟩ pt kern)
    (hfs : Between s.fs) (hrounds : 2 ^ 20 ≤ rounds) (name : CString) (e : DirEntry) :
    ∃ s' result, s.load rounds name e = some (s', result) ∧
      s'.init_ram_pages = s.init_ram_pages ∧ Between s'.fs ∧
      (∀ f, s'.fs.files.get f = s.fs.files.get f) ∧
      LoadSpec s kernel kern others name s' result := by
  rcases h.create_cases rfl with hnull | ⟨a, pd, hcall, hnull, hinv⟩
  · exact ⟨s.setPagedir NULL, none, s.load_no_directory hnull name e, rfl, hfs, fun _ => rfl,
      LoadSpec.no_directory hnull⟩
  · set t : Loader := (s.setAlloc a).setPagedir pd with ht
    have hshows : t.Shows kernel kern others fun _ => none :=
      ⟨_, _, ⟨hinv, hnull, fun _ _ hm => absurd hm.symm (Option.some_ne_none _)⟩, rfl⟩
    have hload : s.load rounds name e = (t.fs.filesys_open name e).bind fun r =>
        r.1.elim (some (t.setFs r.2, none)) fun file =>
          ((t.setFs r.2).load_file rounds file).bind fun r =>
            (r.1.fs.file_close file).bind fun fs => some (r.1.setFs fs, r.2) := by
      dsimp only at hcall
      rw [Loader.load, hcall]
      simp only [Option.bind_eq_bind, Option.bind_some]
      rw [if_neg hnull]
      refine congrArg (Option.bind _) (funext fun r => ?_)
      cases r.1 <;> rfl
    rw [hload]
    rcases hfs.filesys_open name e with
      ⟨fs, hopen, hfs', hfiles⟩ | ⟨fs, file, data, hopen, hfile, hfresh, hr⟩
    · refine ⟨t.setFs fs, none, ?_, rfl, hfs', fun f => ?_, LoadSpec.failed (hshows.setFs fs)⟩
      · rw [ht, Loader.setPagedir_fs, Loader.setAlloc_fs, hopen]
        rfl
      · exact congrArg (fun st => Store.get st f) hfiles
    · rcases (hshows.setFs fs).load_file hr hrounds with
        ⟨s₁, result, hrun, hsame, ⟨pos, hr₁⟩, space, hshows₁, hdone⟩
      rcases hr₁.file_close with ⟨fs₂, hclose, hfs₂, hfiles⟩
      refine ⟨s₁.setFs fs₂, result, ?_, hsame.init_ram_pages, hfs₂, fun f => ?_, ?_⟩
      · rw [ht, Loader.setPagedir_fs, Loader.setAlloc_fs, hopen, Option.bind_some]
        dsimp only [Option.elim]
        rw [hrun, Option.bind_some, hclose]
        rfl
      · rw [Loader.setFs_fs, hfiles]
        split_ifs with hf
        · rw [hf, hfresh]
        · rfl
      · cases result with
        | none =>
            exact LoadSpec.failed (hshows₁.setFs fs₂)
        | some r =>
            rcases hdone r rfl with ⟨rfl, himage⟩
            exact LoadSpec.loaded (hshows₁.setFs fs₂) hfile himage

end

end Berk162
