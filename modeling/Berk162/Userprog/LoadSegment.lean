import Berk162.Filesys.FsReading
import Berk162.Userprog.UserSpace

/-!
# LoadSegment — program headers that pass `validate_segment`, and loading one of them

`Valid` is what `validate_segment` checks, in exact arithmetic.  It is enough for every assertion of
`load_segment` to hold and for no computation of `load` to wrap.
-/

namespace Berk162

theorem ROUND_UP_eq {x step : Nat} (hstep : 0 < step) (h : x + step < WORD) :
    ROUND_UP x step = (x + step - 1) / step * step := by
  have hle : (x + step - 1) / step * step ≤ x + step - 1 := Nat.div_mul_le_self _ _
  rw [ROUND_UP, DIV_ROUND_UP_eq hstep h, size_mul_eq (by omega)]

theorem pg_ofs_round_down (va : Nat) : pg_ofs (pg_round_down va) = 0 := by
  rw [pg_ofs, pg_round_down, pg_ofs, PGSIZE_eq]
  omega

theorem elf_field_lt (bytes : Bytes) (ofs : Nat) : elf_field bytes ofs 4 < WORD := by
  have hlt := le_val_lt ((bytes.drop ofs).take 4)
  have hlen : ((bytes.drop ofs).take 4).length ≤ 4 := List.length_take_le _ _
  calc
    elf_field bytes ofs 4 < 256 ^ ((bytes.drop ofs).take 4).length := hlt
    _ ≤ 256 ^ 4 := Nat.pow_le_pow_right (by decide) hlen
    _ = WORD := rfl

/-! ## Program headers -/

namespace Elf32_Phdr

/-- The fields are words. -/
structure Words (phdr : Elf32_Phdr) : Prop where
  p_offset : phdr.p_offset < WORD
  p_vaddr : phdr.p_vaddr < WORD
  p_filesz : phdr.p_filesz < WORD
  p_memsz : phdr.p_memsz < WORD

theorem words_ofBytes (bytes : Bytes) : (ofBytes bytes).Words :=
  ⟨elf_field_lt _ _, elf_field_lt _ _, elf_field_lt _ _, elf_field_lt _ _⟩

/-- The header describes a segment of a file of `length` bytes. -/
structure Valid (phdr : Elf32_Phdr) (length : Nat) : Prop where
  same_ofs : pg_ofs phdr.p_offset = pg_ofs phdr.p_vaddr
  offset_le : phdr.p_offset ≤ length
  filesz_le : phdr.p_filesz ≤ phdr.p_memsz
  memsz_pos : 0 < phdr.p_memsz
  vaddr_ge : PGSIZE ≤ phdr.p_vaddr
  end_lt : phdr.p_vaddr + phdr.p_memsz < PHYS_BASE

/-- The number of pages that the segment takes up. -/
def page_cnt (phdr : Elf32_Phdr) : Nat :=
  (phdr.page_offset + phdr.p_memsz + PGSIZE - 1) / PGSIZE

/-- No computation on the header's fields wraps. -/
structure Exact (phdr : Elf32_Phdr) : Prop where
  read : size_add phdr.page_offset phdr.p_filesz = phdr.page_offset + phdr.p_filesz
  mem : size_add phdr.page_offset phdr.p_memsz = phdr.page_offset + phdr.p_memsz
  round : phdr.page_offset + phdr.p_memsz + PGSIZE < WORD ∧
    ROUND_UP (phdr.page_offset + phdr.p_memsz) PGSIZE = phdr.page_cnt * PGSIZE
  zero : phdr.read_bytes ≤ phdr.page_cnt * PGSIZE
  file_page : int32 phdr.file_page = phdr.file_page ∧ phdr.file_page ≤ phdr.p_offset
  mem_page : phdr.mem_page + phdr.page_offset = phdr.p_vaddr

namespace Valid

variable {phdr : Elf32_Phdr} {length : Nat}

theorem exact (h : phdr.Valid length) (hlength : length < OFF_T) : phdr.Exact := by
  have hend := h.end_lt
  have hfilesz := h.filesz_le
  have hoffset := h.offset_le
  have hpage : phdr.page_offset ≤ phdr.p_vaddr := Nat.mod_le _ _
  have hpage' : phdr.page_offset < 4096 := Nat.mod_lt _ (by decide)
  rw [PHYS_BASE_eq] at hend
  rw [OFF_T] at hlength
  have hread : size_add phdr.page_offset phdr.p_filesz = phdr.page_offset + phdr.p_filesz :=
    size_add_eq (by rw [WORD_eq]; omega)
  have hfile : phdr.file_page ≤ phdr.p_offset := Nat.sub_le _ _
  refine ⟨hread, size_add_eq (by rw [WORD_eq]; omega), ?_, ?_, ⟨?_, hfile⟩, ?_⟩
  · have hlt : phdr.page_offset + phdr.p_memsz + PGSIZE < WORD := by
      rw [PGSIZE_eq, WORD_eq]
      omega
    exact ⟨hlt, ROUND_UP_eq (by decide) hlt⟩
  · rw [read_bytes, page_cnt, PGSIZE_eq]
    split_ifs
    · rw [hread]
      omega
    · exact Nat.zero_le _
  · exact int32_eq (by omega) (by omega)
  · exact Nat.sub_add_cancel hpage

theorem zero_bytes_eq (h : phdr.Valid length) (hlength : length < OFF_T) :
    phdr.zero_bytes = phdr.page_cnt * PGSIZE - phdr.read_bytes := by
  have hex := h.exact hlength
  have hlt : phdr.page_cnt * PGSIZE < WORD := by
    have hround := hex.round.1
    rw [page_cnt, PGSIZE_eq] at *
    omega
  rw [zero_bytes, hex.mem, hex.round.2]
  split_ifs with hpos
  · exact size_sub_eq hex.zero hlt
  · rw [read_bytes, if_neg hpos, Nat.sub_zero]

/-- The pages of the segment are user memory. -/
theorem pages_end (h : phdr.Valid length) :
    phdr.mem_page + phdr.page_cnt * PGSIZE ≤ PHYS_BASE := by
  have hend := h.end_lt
  rw [mem_page, pg_round_down, page_cnt, page_offset, pg_ofs, PGSIZE_eq]
  rw [PHYS_BASE_eq] at hend ⊢
  omega

end Valid

end Elf32_Phdr

/-! ## The contents of a segment -/

/-- The byte `k` of a segment that consists of `read_bytes` bytes of `data` from `ofs` on and is
zero after them. -/
def segment_byte (data : Bytes) (ofs read_bytes k : Nat) : UInt8 :=
  if k < read_bytes then data.getD (ofs + k) 0 else 0

/-- The page at `p` of a segment that begins at `upage`. -/
def segment_page (data : Bytes) (ofs read_bytes upage : Nat) (writable : Bool) (p : Nat) :
    PageImage :=
  ⟨writable, window (segment_byte data ofs read_bytes) (p - upage) PGSIZE⟩

/-- The `n` pages from `upage` on. -/
def PageRange (upage n p : Nat) : Prop :=
  pg_ofs p = 0 ∧ upage ≤ p ∧ p < upage + n * PGSIZE

theorem page_range_succ {upage n p : Nat} (hofs : pg_ofs upage = 0) :
    PageRange upage (n + 1) p ↔ p = upage ∨ PageRange (upage + PGSIZE) n p := by
  rw [PageRange, PageRange]
  rw [pg_ofs, PGSIZE_eq] at hofs ⊢
  omega

/-- A page that has been read and filled up with zeros. -/
theorem window_read_page {mem : Memory} {data : Bytes} {pos n kpage : Nat} (hn : n ≤ PGSIZE)
    (hend : pos + n ≤ data.length ∨ n = 0) :
    window (memset (overlay mem kpage ((data.drop pos).take n)) (kpage + n) 0 (PGSIZE - n)) kpage
      PGSIZE = window (segment_byte data pos n) 0 PGSIZE := by
  have hlen : ((data.drop pos).take n).length = n := by
    rw [List.length_take, List.length_drop]
    omega
  refine window_shift fun k hk => ?_
  rw [Nat.zero_add, segment_byte]
  by_cases hkn : k < n
  · rw [if_pos hkn, memset_of_not_mem (by omega), overlay_of_mem (by omega) (by omega),
      Nat.add_sub_cancel_left, List.getD_eq_getElem _ _ (by omega),
      List.getD_eq_getElem _ _ (by omega), List.getElem_take, List.getElem_drop]
  · rw [if_neg hkn, memset_of_mem (by omega)]

/-- What the first page contains. -/
theorem segment_page_first {data : Bytes} {ofs read_bytes upage : Nat} {writable : Bool} :
    segment_page data ofs (min read_bytes PGSIZE) upage writable upage =
      segment_page data ofs read_bytes upage writable upage := by
  rw [segment_page, segment_page, Nat.sub_self]
  refine congrArg (PageImage.mk writable) (window_congr fun k _ hk => ?_)
  rw [segment_byte, segment_byte]
  by_cases hlt : k < read_bytes
  · rw [if_pos hlt, if_pos (by omega)]
  · rw [if_neg hlt, if_neg (by omega)]

/-- After the first page the segment goes on at the next one. -/
theorem segment_page_next {data : Bytes} {ofs read_bytes upage p : Nat} {writable : Bool}
    (hp : upage + PGSIZE ≤ p) :
    segment_page data (ofs + min read_bytes PGSIZE) (read_bytes - min read_bytes PGSIZE)
      (upage + PGSIZE) writable p = segment_page data ofs read_bytes upage writable p := by
  rw [segment_page, segment_page]
  refine congrArg (PageImage.mk writable) (window_shift fun k _ => ?_)
  rw [PGSIZE_eq] at hp ⊢
  rw [segment_byte, segment_byte]
  by_cases hk : p - upage + k < read_bytes
  · have hmin : min read_bytes 4096 = 4096 := by omega
    rw [hmin, if_pos hk, if_pos (by omega)]
    exact congrArg (data.getD · 0) (by omega)
  · rw [if_neg hk, if_neg (by omega)]

/-! ## `load_page` -/

section

variable {s : Loader} {kernel : Nat → BitVec 32} {kern others : List Group} {space : UserSpace}
  {file pos upage : Nat} {data : Bytes} {rest : Nat → Option File} {writable : Bool}

namespace Loader.Shows

/-- One round of the loop either maps a page of the segment or gives back what it got. -/
theorem load_page (h : s.Shows kernel kern others space) (hr : Reading s.fs file pos data rest)
    (hofs : pg_ofs upage = 0) (hu : is_user_vaddr upage) {n : Nat} (hn : n ≤ PGSIZE)
    (writable : Bool) :
    ∃ s' success, s.load_page file upage n (PGSIZE - n) writable = some (s', success) ∧
      s.Same s' ∧
      (success = false →
        s'.Shows kernel kern others space ∧ ∃ pos', Reading s'.fs file pos' data rest) ∧
      (success = true → space upage = none ∧ (pos + n ≤ data.length ∨ n = 0) ∧
        Reading s'.fs file (pos + n) data rest ∧ s'.Shows kernel kern others
          (Function.update space upage (some (segment_page data pos n upage writable upage)))) := by
  rcases h.get_page PAL_USER rfl rfl with hcall | ⟨a, page, hcall, hnull, hgot, _⟩
  · refine ⟨s.setAlloc s.alloc, false, ?_, ⟨rfl, rfl, rfl⟩, fun _ => ⟨h, pos, hr⟩, nofun⟩
    rw [Loader.load_page, hcall]
    rfl
  · rcases hr.file_read n with ⟨m, fs, hm, hend, hread, hr'⟩
    set bytes := (data.drop pos).take m with hbytes
    have hlen : bytes.length = m := by
      rw [hbytes, List.length_take, List.length_drop]
      omega
    have hfit : page + n < WORD := by
      have hpage : page + PGSIZE < WORD := hgot.page_fits List.mem_cons_self
      omega
    -- what has been read is stored in the page
    set t : Loader := ((s.setAlloc a).setFs fs).setMem (overlay a.mem page bytes) with ht
    have hshows : t.Shows kernel kern (user_group page :: others) space := by
      refine (hgot.setFs fs).write List.mem_cons_self fun q hq => ?_
      rw [mem_page_bytes] at hq
      rw [PGSIZE_eq] at hn
      exact overlay_of_not_mem (by omega)
    have hload : s.load_page file upage n (PGSIZE - n) writable =
        if bytes.length ≠ n then
          (palloc_free_page t.alloc page).bind fun alloc => some (t.setAlloc alloc, false)
        else
          (t.setMem (memset t.alloc.mem (size_add page n) 0 (PGSIZE - n))).install_or_free upage
            page writable := by
      rw [Loader.load_page, hcall]
      simp only [Option.bind_eq_bind, Option.bind_some]
      rw [if_neg hnull]
      simp only [Loader.setAlloc_fs, hread, Option.bind_some]
      rfl
    rw [hload]
    by_cases hshort : bytes.length ≠ n
    · rcases hshows.free_page with ⟨a', ha', hfreed⟩
      refine ⟨t.setAlloc a', false, ?_, ⟨rfl, rfl, rfl⟩, fun _ => ⟨hfreed, _, hr'⟩, nofun⟩
      rw [if_pos hshort, ha']
      rfl
    · have hmn : m = n := by rw [← hlen]; exact not_not.1 hshort
      subst hmn
      rw [if_neg hshort, size_add_eq hfit]
      have hfilled : (t.setMem (memset t.alloc.mem (page + m) 0 (PGSIZE - m))).Shows kernel kern
          (user_group page :: others) space := by
        refine hshows.write List.mem_cons_self fun q hq => ?_
        rw [mem_page_bytes] at hq
        rw [PGSIZE_eq] at hn ⊢
        exact memset_of_not_mem (by omega)
      have hpage : window (t.setMem (memset t.alloc.mem (page + m) 0 (PGSIZE - m))).alloc.mem page
          PGSIZE = window (segment_byte data pos m) 0 PGSIZE :=
        window_read_page hn (by omega)
      rcases hfilled.install_or_free hofs hu writable hpage with
        ⟨s', success, hinstall, hsame, hfs, hfail, hdone⟩
      refine ⟨s', success, hinstall, ⟨hsame.1, hsame.2, hsame.3⟩,
        fun hs => ⟨hfail hs, pos + m, ?_⟩, fun hs => ⟨(hdone hs).1, by omega, ?_, ?_⟩⟩
      · rw [hfs]
        exact hr'
      · rw [hfs]
        exact hr'
      · rw [segment_page, Nat.sub_self]
        exact (hdone hs).2

/-- The loop maps all pages of the segment or fails on the way. -/
theorem load_pages (writable : Bool) (n : Nat) {s : Loader} {space : UserSpace}
    {pos upage read_bytes zero_bytes : Nat}
    (h : s.Shows kernel kern others space) (hr : Reading s.fs file pos data rest) {rounds : Nat}
    (hrounds : n < rounds) (hofs : pg_ofs upage = 0) (hend : upage + n * PGSIZE ≤ PHYS_BASE)
    (hsum : read_bytes + zero_bytes = n * PGSIZE) :
    ∃ s' success, Loader.load_pages file writable rounds s upage read_bytes zero_bytes =
        some (s', success) ∧
      s.Same s' ∧ (∃ pos', Reading s'.fs file pos' data rest) ∧
      ∃ space', s'.Shows kernel kern others space' ∧
        (success = true → (pos + read_bytes ≤ data.length ∨ read_bytes = 0) ∧
          Extends space space' (PageRange upage n)
            (segment_page data pos read_bytes upage writable)) := by
  induction n generalizing s space pos upage read_bytes zero_bytes rounds with
  | zero =>
      rcases Nat.exists_eq_add_of_lt hrounds with ⟨r, rfl⟩
      have hnone : ¬ (read_bytes > 0 ∨ zero_bytes > 0) := by omega
      refine ⟨s, true, ?_, Loader.Same.refl s, ⟨pos, hr⟩, space, h, fun _ => ⟨Or.inr (by omega), ?_⟩⟩
      · rw [Nat.zero_add, Loader.load_pages, if_neg hnone]
        rfl
      · refine Extends.of_empty fun p hp => ?_
        have hlt := hp.2.2
        have hge := hp.2.1
        omega
  | succ n ih =>
      rcases Nat.exists_eq_add_of_lt hrounds with ⟨r, rfl⟩
      rw [PGSIZE_eq] at hsum
      rw [PGSIZE_eq, PHYS_BASE_eq] at hend
      have hmore : read_bytes > 0 ∨ zero_bytes > 0 := by omega
      have hu : is_user_vaddr upage := by
        rw [is_user_vaddr, PHYS_BASE_eq]
        omega
      have hmin : (if read_bytes < PGSIZE then read_bytes else PGSIZE) = min read_bytes PGSIZE := by
        split_ifs <;> omega
      have hle : min read_bytes PGSIZE ≤ PGSIZE := Nat.min_le_right _ _
      rcases h.load_page hr hofs hu hle writable with
        ⟨s₁, ok, hpage, hsame, hfail, hdone⟩
      have hstep : Loader.load_pages file writable (n + 1 + r + 1) s upage read_bytes zero_bytes =
          if ok = true then
            Loader.load_pages file writable (n + 1 + r) s₁ (upage + PGSIZE)
              (read_bytes - min read_bytes PGSIZE)
              (zero_bytes - (PGSIZE - min read_bytes PGSIZE))
          else some (s₁, false) := by
        rw [Loader.load_pages, if_pos hmore]
        simp only [hmin]
        rw [size_sub_eq hle (by decide), hpage, size_add_eq (by rw [PGSIZE_eq, WORD_eq]; omega),
          size_sub_eq (Nat.min_le_left _ _) (by rw [WORD_eq]; omega),
          size_sub_eq (by rw [PGSIZE_eq]; omega) (by rw [WORD_eq]; omega)]
        rfl
      rw [hstep]
      cases ok with
      | false =>
          rcases hfail rfl with ⟨hshows, hreading⟩
          exact ⟨s₁, false, if_neg Bool.false_ne_true, hsame, hreading, space, hshows,
            fun hs => absurd hs Bool.false_ne_true⟩
      | true =>
          rcases hdone rfl with ⟨hfree, hfile, hreading, hshows⟩
          have hofs' : pg_ofs (upage + PGSIZE) = 0 := by
            rw [pg_ofs, Nat.add_mod_right]
            exact hofs
          have hend' : upage + PGSIZE + n * PGSIZE ≤ PHYS_BASE := by
            rw [PGSIZE_eq, PHYS_BASE_eq]
            omega
          have hsum' : read_bytes - min read_bytes PGSIZE +
              (zero_bytes - (PGSIZE - min read_bytes PGSIZE)) = n * PGSIZE := by
            rw [PGSIZE_eq]
            omega
          have hrounds' : n < n + 1 + r := by omega
          rcases ih hshows hreading hrounds' hofs' hend' hsum' with
            ⟨s', success, hcall, hsame', hreading', space', hshows', hext⟩
          refine ⟨s', success, ?_, hsame.trans hsame', hreading', space', hshows', fun hs => ?_⟩
          · rw [if_pos rfl]
            exact hcall
          · rcases hext hs with ⟨hfile', hext'⟩
            rw [PGSIZE_eq] at hfile hfile'
            have hfirst := @Extends.update _ _ space
              (segment_page data pos read_bytes upage writable) _ upage
              hfree
            rw [← segment_page_first] at hfirst
            refine ⟨by omega, ?_⟩
            refine (hfirst.trans (hext'.congr (fun _ => Iff.rfl) fun p hp => ?_)).congr
              (fun p => page_range_succ hofs) fun _ _ => rfl
            exact (segment_page_next hp.2.1).symm

end Loader.Shows

/-! ## `validate_segment` and `load_segment` -/

/-- `validate_segment` checks what `Valid` says. -/
theorem validate_segment_spec (hr : Reading s.fs file pos data rest) {phdr : Elf32_Phdr}
    (hw : phdr.Words) :
    ∃ ok, s.validate_segment phdr file = some ok ∧ (ok = true ↔ phdr.Valid data.length) := by
  have hno : false = true → phdr.Valid data.length := fun h => absurd h Bool.false_ne_true
  have hlen := hr.length_lt
  rw [OFF_T] at hlen
  have hsize : to_size (data.length : Int) = data.length := to_size_eq (by omega) (by omega)
  rw [Loader.validate_segment, hr.file_length]
  simp only [Option.bind_eq_bind, Option.bind_some, hsize]
  -- one check after the other
  by_cases h₁ : pg_ofs phdr.p_offset ≠ pg_ofs phdr.p_vaddr
  · exact ⟨false, if_pos h₁, hno, fun h => absurd h.same_ofs h₁⟩
  rw [if_neg h₁]
  by_cases h₂ : phdr.p_offset > data.length
  · exact ⟨false, if_pos h₂, hno, fun h => absurd h.offset_le (Nat.not_le.2 h₂)⟩
  rw [if_neg h₂]
  by_cases h₃ : phdr.p_memsz < phdr.p_filesz
  · exact ⟨false, if_pos h₃, hno, fun h => absurd h.filesz_le (Nat.not_le.2 h₃)⟩
  rw [if_neg h₃]
  by_cases h₄ : phdr.p_memsz = 0
  · exact ⟨false, if_pos h₄, hno, fun h => absurd h.memsz_pos (Nat.not_lt.2 (Nat.le_of_eq h₄))⟩
  rw [if_neg h₄]
  by_cases h₅ : ¬ is_user_vaddr phdr.p_vaddr
  · refine ⟨false, if_pos h₅, hno, fun h => absurd ?_ h₅⟩
    exact Nat.lt_of_le_of_lt (Nat.le_add_right _ _) h.end_lt
  rw [if_neg h₅]
  rw [not_not, is_user_vaddr] at h₅
  -- the sum does not wrap if it is not below its first operand
  have hsum : phdr.Valid data.length →
      size_add phdr.p_vaddr phdr.p_memsz = phdr.p_vaddr + phdr.p_memsz := by
    intro h
    have hend := h.end_lt
    rw [PHYS_BASE_eq] at hend
    exact size_add_eq (by rw [WORD_eq]; omega)
  by_cases h₆ : ¬ is_user_vaddr (size_add phdr.p_vaddr phdr.p_memsz)
  · refine ⟨false, if_pos h₆, hno, fun h => absurd ?_ h₆⟩
    rw [hsum h]
    exact h.end_lt
  rw [if_neg h₆]
  rw [not_not, is_user_vaddr] at h₆
  by_cases h₇ : size_add phdr.p_vaddr phdr.p_memsz < phdr.p_vaddr
  · refine ⟨false, if_pos h₇, hno, fun h => absurd h₇ ?_⟩
    rw [hsum h]
    exact Nat.not_lt.2 (Nat.le_add_right _ _)
  rw [if_neg h₇]
  by_cases h₈ : phdr.p_vaddr < PGSIZE
  · exact ⟨false, if_pos h₈, hno, fun h => absurd h.vaddr_ge (Nat.not_le.2 h₈)⟩
  refine ⟨true, if_neg h₈, fun _ => ⟨not_not.1 h₁, by omega, by omega, by omega, by omega, ?_⟩,
    fun _ => rfl⟩
  have hmemsz := hw.p_memsz
  rw [size_add] at h₆ h₇
  rw [PHYS_BASE_eq] at h₅ h₆ ⊢
  rw [WORD_eq] at hmemsz h₆ h₇
  omega

namespace Elf32_Phdr

/-- The pages of the segment. -/
def Covers (phdr : Elf32_Phdr) (p : Nat) : Prop := PageRange phdr.mem_page phdr.page_cnt p

/-- The page at `p` of the segment in the file `data`. -/
def page (data : Bytes) (phdr : Elf32_Phdr) (p : Nat) : PageImage :=
  segment_page data phdr.file_page phdr.read_bytes phdr.mem_page phdr.writable p

end Elf32_Phdr

namespace Loader.Shows

/-- The assertions of `load_segment` hold for a valid header. -/
theorem load_segment (h : s.Shows kernel kern others space) (hr : Reading s.fs file pos data rest)
    {phdr : Elf32_Phdr} (hvalid : phdr.Valid data.length) {rounds : Nat} (hrounds : 2 ^ 20 ≤ rounds) :
    ∃ s' success, s.load_segment rounds file (int32 phdr.file_page) phdr.mem_page phdr.read_bytes
        phdr.zero_bytes phdr.writable = some (s', success) ∧
      s.Same s' ∧ (∃ pos', Reading s'.fs file pos' data rest) ∧
      ∃ space', s'.Shows kernel kern others space' ∧
        (success = true →
          (phdr.file_page + phdr.read_bytes ≤ data.length ∨ phdr.read_bytes = 0) ∧
          Extends space space' phdr.Covers (phdr.page data)) := by
  have hex := hvalid.exact hr.length_lt
  have hzero := hvalid.zero_bytes_eq hr.length_lt
  have hend := hvalid.pages_end
  have hsum : phdr.read_bytes + phdr.zero_bytes = phdr.page_cnt * PGSIZE := by
    rw [hzero]
    exact Nat.add_sub_cancel' hex.zero
  have hcnt : phdr.page_cnt < rounds := by
    rw [PGSIZE_eq, PHYS_BASE_eq] at hend
    omega
  have hsize : size_add phdr.read_bytes phdr.zero_bytes = phdr.page_cnt * PGSIZE := by
    rw [size_add, hsum]
    refine Nat.mod_eq_of_lt ?_
    rw [PHYS_BASE_eq] at hend
    rw [WORD_eq]
    omega
  have hmul : size_add phdr.read_bytes phdr.zero_bytes % PGSIZE = 0 := by
    rw [hsize]
    exact Nat.mul_mod_left _ _
  have hmem : pg_ofs phdr.mem_page = 0 := pg_ofs_round_down phdr.p_vaddr
  have hofs : Int.tmod (phdr.file_page : Int) PGSIZE = 0 := by
    have hpage : phdr.file_page % PGSIZE = 0 := pg_ofs_round_down phdr.p_offset
    rw [Int.tmod_eq_emod_of_nonneg (Int.natCast_nonneg _)]
    exact_mod_cast hpage
  rcases hr.file_seek phdr.file_page (Int.natCast_nonneg _) with ⟨fs, hseek, hr'⟩
  rw [Int.toNat_natCast] at hr'
  rcases (h.setFs fs).load_pages phdr.writable phdr.page_cnt hr' hcnt hmem hend
    hsum with ⟨s', success, hcall, hsame, hreading, hspace⟩
  refine ⟨s', success, ?_, ⟨hsame.1, hsame.2, hsame.3⟩, hreading, hspace⟩
  rw [Loader.load_segment, hex.file_page.1, ASSERT_pos hmul, ASSERT_pos hmem,
    ASSERT_pos hofs]
  simp only [Option.bind_eq_bind, Option.bind_some, hseek]
  exact hcall

end Loader.Shows

end

end Berk162
