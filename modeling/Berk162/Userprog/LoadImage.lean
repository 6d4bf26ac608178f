import Berk162.Userprog.LoadCalls

/-!
# LoadImage — after a successful `load` the process has the memory that its executable prescribes

`user_byte` and `user_writable` are what the process finds at an address: they go through the page
directory and the page tables as the processor does.
-/

namespace Berk162

namespace Loader

/-- The byte at `va`, if a page is mapped there. -/
def user_byte (s : Loader) (va : Nat) : Option UInt8 := do
  let kaddr ← pagedir_get_page s.alloc s.pagedir va
  if kaddr = NULL then none else some (s.alloc.mem kaddr)

/-- Whether the process may write at `va`, if a page is mapped there. -/
def user_writable (s : Loader) (va : Nat) : Option Bool := do
  let (alloc, pte) ← lookup_page s.alloc s.pagedir va false
  if pte ≠ NULL ∧ word_at alloc.mem pte &&& PTE_P ≠ 0 then some (flag (word_at alloc.mem pte) PTE_W)
  else none

end Loader

section

variable {s : Loader} {kernel : Nat → BitVec 32} {kern others : List Group} {space : UserSpace}
  {va : Nat} {data : Bytes} {phdr : Elf32_Phdr}

namespace Loader.Shows

theorem user_byte (h : s.Shows kernel kern others space) (hu : is_user_vaddr va) :
    s.user_byte va = (space (pg_round_down va)).map fun i => i.bytes.getD (pg_ofs va) 0 := by
  rcases h with ⟨pt, map, hat, rfl⟩
  have hget := (hat.inv.dir hat.pagedir_ne).pagedir_get_page (hat.inv.apart hat.pagedir_ne)
    (hat.inv.frame_page hat.pagedir_ne) hu
  dsimp only [Loader.run] at hget
  rw [Loader.user_byte, hget, user_space]
  simp only [Option.bind_eq_bind, Option.bind_some]
  cases hm : map (pg_round_down va) with
  | none =>
      rfl
  | some m =>
      have hne : m.frame.pages + pg_ofs va ≠ NULL := by
        have hframe := (hat.inv.frame_page hat.pagedir_ne _ m hm).ne_null
        rw [NULL] at hframe ⊢
        omega
      have hofs : pg_ofs va < PGSIZE := Nat.mod_lt _ (by decide)
      rw [Option.map_some, Option.map_some, getD_window hofs]
      exact if_neg hne

theorem user_writable (h : s.Shows kernel kern others space) (hu : is_user_vaddr va) :
    s.user_writable va = (space (pg_round_down va)).map PageImage.writable := by
  rcases h with ⟨pt, map, hat, rfl⟩
  have hdir := hat.inv.dir hat.pagedir_ne
  have hlookup := hdir.lookup (hat.inv.apart hat.pagedir_ne) hu
    (Or.inl (Eq.refl false))
  dsimp only [Loader.run] at hdir hlookup
  rw [Loader.user_writable, hlookup, user_space]
  simp only [Option.bind_eq_bind, Option.bind_some, Option.map_map]
  cases ht : pt (pd_no va) with
  | none =>
      rw [pte_ptr_none ht, hdir.map_none hu ht]
      exact if_neg fun hc => hc.1 rfl
  | some t =>
      have hne := pte_ptr_ne_null (hat.inv.apart hat.pagedir_ne) hu ht
      have he := hdir.entry hu ht
      cases hm : map (pg_round_down va) with
      | none =>
          rw [hm] at he
          have hnot : ¬ word_at s.alloc.mem (pte_ptr pt va) &&& PTE_P ≠ 0 := of_decide_eq_false he
          exact if_neg fun hc => hnot hc.2
      | some m =>
          rw [hm] at he
          rw [if_pos ⟨hne, flag_eq_true.1 he.present⟩, he.writable]
          rfl

end Loader.Shows

/-! ## What the headers prescribe -/

/-- The page at `p` has a byte of the segment. -/
def Elf32_Phdr.Touches (phdr : Elf32_Phdr) (p : Nat) : Prop :=
  ∃ i, i < phdr.p_memsz ∧ pg_round_down (phdr.p_vaddr + i) = p

/-- The pages that are mapped for a segment are those that have a byte of it. -/
theorem Elf32_Phdr.Valid.covers_iff {length : Nat} (h : phdr.Valid length) (p : Nat) :
    phdr.Covers p ↔ phdr.Touches p := by
  have hpos := h.memsz_pos
  rw [Covers, PageRange, Touches, mem_page, page_cnt, page_offset]
  simp only [pg_round_down, pg_ofs, PGSIZE_eq]
  constructor
  · rintro ⟨hal, hlo, hhi⟩
    refine ⟨max p phdr.p_vaddr - phdr.p_vaddr, by omega, by omega⟩
  · rintro ⟨i, hi, rfl⟩
    refine ⟨by omega, by omega, by omega⟩

/-- The memory of the process and the registers are those that the executable `data` prescribes. -/
structure Prescribed (s : Loader) (data : Bytes) (eip esp : Nat) : Prop where
  file_bytes : ∀ phdr ∈ executable_segments data, ∀ i, i < phdr.p_filesz →
    ∃ b, data[phdr.p_offset + i]? = some b ∧ s.user_byte (phdr.p_vaddr + i) = some b
  zero_bytes : ∀ phdr ∈ executable_segments data, ∀ i, phdr.p_filesz ≤ i → i < phdr.p_memsz →
    s.user_byte (phdr.p_vaddr + i) = some 0
  writable : ∀ phdr ∈ executable_segments data, ∀ va, phdr.Touches (pg_round_down va) →
    s.user_writable va = some phdr.writable
  range : ∀ va, is_user_vaddr va → s.user_byte va ≠ none → PGSIZE ≤ va
  apart : (executable_segments data).Pairwise fun phdr phdr' =>
    ∀ p, phdr.Touches p → ¬ phdr'.Touches p
  stack : ∀ va, stack_page ≤ va → is_user_vaddr va →
    s.user_byte va = some 0 ∧ s.user_writable va = some true
  only : ∀ va, is_user_vaddr va → s.user_byte va ≠ none →
    stack_page ≤ va ∨ ∃ phdr ∈ executable_segments data, phdr.Touches (pg_round_down va)
  eip_eq : eip = (executable_header data).e_entry
  esp_eq : esp = PHYS_BASE

namespace ImageLoaded

/-- The segments are where they belong, and they are apart from the stack. -/
theorem at_segment (h : ImageLoaded data space) (hphdr : phdr ∈ executable_segments data)
    {p : Nat} (hp : phdr.Covers p) : space p = some (phdr.page data p) := by
  rcases h.image with ⟨space₀, hsegments, hstack⟩
  have hmapped := hsegments.extends_all.mapped phdr hphdr p hp
  have hne : p ≠ stack_page := by
    rintro rfl
    rw [hstack.free _ rfl] at hmapped
    cases hmapped
  rw [hstack.other p hne]
  exact hmapped

theorem at_stack (h : ImageLoaded data space) : space stack_page = some zero_page := by
  rcases h.image with ⟨_, _, hstack⟩
  exact hstack.mapped _ rfl

/-- Nothing else is mapped. -/
theorem cases (h : ImageLoaded data space) {p : Nat} (hp : space p ≠ none) :
    p = stack_page ∨ ∃ phdr ∈ executable_segments data, phdr.Covers p := by
  rcases h.image with ⟨space₀, hsegments, hstack⟩
  by_contra hno
  rw [not_or, not_exists] at hno
  refine hp ((hstack.other p hno.1).trans (hsegments.extends_all.other p fun phdr hphdr hc => ?_))
  exact hno.2 phdr ⟨hphdr, hc⟩

theorem in_file (h : ImageLoaded data space) (hphdr : phdr ∈ executable_segments data) :
    phdr.InFile data := by
  rcases h.image with ⟨_, hsegments, _⟩
  exact hsegments.in_file phdr hphdr

/-- A byte of a segment. -/
theorem segment_byte_at (h : ImageLoaded data space) (hphdr : phdr ∈ executable_segments data)
    {i : Nat} (hi : i < phdr.p_memsz) :
    ((space (pg_round_down (phdr.p_vaddr + i))).map fun image =>
        image.bytes.getD (pg_ofs (phdr.p_vaddr + i)) 0) =
      some (segment_byte data phdr.file_page phdr.read_bytes (phdr.page_offset + i)) := by
  have hvalid := (h.in_file hphdr).valid
  have hcovers := (hvalid.covers_iff _).2 ⟨i, hi, rfl⟩
  have hofs : pg_ofs (phdr.p_vaddr + i) < PGSIZE := Nat.mod_lt _ (by decide)
  rw [h.at_segment hphdr hcovers, Option.map_some, Elf32_Phdr.page, segment_page, getD_window hofs]
  refine congrArg (fun k => some (segment_byte data phdr.file_page phdr.read_bytes k)) ?_
  simp only [Elf32_Phdr.mem_page, Elf32_Phdr.page_offset, pg_round_down, pg_ofs, PGSIZE_eq]
  omega

end ImageLoaded

/-- A byte below the end of a segment is user memory. -/
theorem Elf32_Phdr.Valid.is_user {length i : Nat} (h : phdr.Valid length) (hi : i < phdr.p_memsz) :
    is_user_vaddr (phdr.p_vaddr + i) :=
  Nat.lt_trans (Nat.add_lt_add_left hi _) h.end_lt

theorem Loader.Shows.prescribed (h : s.Shows kernel kern others space)
    (himage : ImageLoaded data space) (hlength : data.length < OFF_T) :
    Prescribed s data (executable_header data).e_entry PHYS_BASE := by
  have hround : ∀ va, stack_page ≤ va → is_user_vaddr va → pg_round_down va = stack_page := by
    intro va hlo hhi
    rw [is_user_vaddr, PHYS_BASE_eq] at hhi
    rw [stack_page_eq] at hlo ⊢
    rw [pg_round_down, pg_ofs, PGSIZE_eq]
    omega
  have hmapped : ∀ va, is_user_vaddr va → s.user_byte va ≠ none → space (pg_round_down va) ≠ none := by
    intro va hu hbyte hnone
    rw [h.user_byte hu, hnone] at hbyte
    exact hbyte rfl
  refine ⟨fun phdr hphdr i hi => ?_, fun phdr hphdr i hlo hhi => ?_, fun phdr hphdr va hva => ?_,
    fun va hu hbyte => ?_, ?_, fun va hlo hhi => ?_, fun va hu hbyte => ?_, rfl, rfl⟩
  · -- bytes of the file
    rcases himage.in_file hphdr with ⟨hvalid, hfile⟩
    have hmem : i < phdr.p_memsz := Nat.lt_of_lt_of_le hi hvalid.filesz_le
    have hread : phdr.read_bytes = phdr.page_offset + phdr.p_filesz := by
      rw [Elf32_Phdr.read_bytes, if_pos (by omega), (hvalid.exact hlength).read]
    have hofs : phdr.file_page + phdr.page_offset = phdr.p_offset := by
      rw [Elf32_Phdr.page_offset, ← hvalid.same_ofs]
      exact Nat.sub_add_cancel (Nat.mod_le _ _)
    have hlt : phdr.p_offset + i < data.length := by omega
    refine ⟨data[phdr.p_offset + i], List.getElem?_eq_getElem hlt, ?_⟩
    rw [h.user_byte (hvalid.is_user hmem), himage.segment_byte_at hphdr hmem, segment_byte,
      if_pos (by omega), ← Nat.add_assoc, hofs, List.getD_eq_getElem _ _ hlt]
  · -- zeros
    rcases himage.in_file hphdr with ⟨hvalid, _⟩
    have hread : phdr.read_bytes ≤ phdr.page_offset + i := by
      rw [Elf32_Phdr.read_bytes]
      split_ifs
      · rw [(hvalid.exact hlength).read]
        omega
      · exact Nat.zero_le _
    rw [h.user_byte (hvalid.is_user hhi), himage.segment_byte_at hphdr hhi, segment_byte,
      if_neg (Nat.not_lt.2 hread)]
  · have hvalid := (himage.in_file hphdr).valid
    have hcovers := (hvalid.covers_iff _).2 hva
    have hu : is_user_vaddr va := by
      have hend := hvalid.pages_end
      have hlt := hcovers.2.2
      rw [pg_round_down, pg_ofs, PGSIZE_eq] at hlt
      rw [PHYS_BASE_eq, PGSIZE_eq] at hend
      rw [is_user_vaddr, PHYS_BASE_eq]
      omega
    rw [h.user_writable hu, himage.at_segment hphdr hcovers]
    rfl
  · rcases himage.cases (hmapped va hu hbyte) with hstack | ⟨phdr, hphdr, hcovers⟩
    · rw [stack_page_eq, pg_round_down, pg_ofs, PGSIZE_eq] at hstack
      rw [PGSIZE_eq]
      omega
    · have hge := (himage.in_file hphdr).valid.vaddr_ge
      have hlo := hcovers.2.1
      rw [Elf32_Phdr.mem_page, pg_round_down, pg_round_down, pg_ofs, pg_ofs] at hlo
      rw [PGSIZE_eq] at hge hlo ⊢
      omega
  · rcases himage.image with ⟨_, hsegments, _⟩
    refine hsegments.extends_all.apart.imp_of_mem fun {phdr phdr'} hphdr hphdr' hapart p hp => ?_
    rw [← (himage.in_file hphdr).valid.covers_iff] at hp
    rw [← (himage.in_file hphdr').valid.covers_iff]
    exact hapart p hp
  · have hofs : pg_ofs va < PGSIZE := Nat.mod_lt _ (by decide)
    rw [h.user_byte hhi, h.user_writable hhi, hround va hlo hhi, himage.at_stack, Option.map_some,
      Option.map_some, zero_page, getD_window hofs]
    exact ⟨rfl, rfl⟩
  · rcases himage.cases (hmapped va hu hbyte) with hstack | ⟨phdr, hphdr, hcovers⟩
    · left
      rw [← hstack]
      exact Nat.sub_le _ _
    · exact Or.inr ⟨phdr, hphdr, ((himage.in_file hphdr).valid.covers_iff _).1 hcovers⟩

end

end Berk162
