import Berk162.Userprog.PagedirCalls

/-!
# PagingInit — the directory that `paging_init` leaves behind

Physical memory is mapped from `PHYS_BASE` on, so the loop stores no entry in the user half of the
directory: every process starts with an empty one.
-/

namespace Berk162

section

variable {ram : Nat} {s p : Palloc} {pd pt page n text_start text_end : Nat} {live : List Group}

/-- What holds before each round of the loop. -/
structure PagingInv (ram : Nat) (s : Palloc) (pd pt : Nat) (tables live : List Group) : Prop where
  pages : PallocInv ram ⟨s, tables ++ page_group pd :: live⟩
  table : pt = NULL ∨ page_group pt ∈ tables
  user_half : ∀ i, i < 768 → word_at s.mem (pd + 4 * i) = 0

/-- A page that is fresh from the allocator, all zero. -/
theorem get_zero_page (h : PallocInv ram ⟨s, live⟩)
    (hcall : palloc_get_page s (PAL_ASSERT ||| PAL_ZERO) = some (p, page)) :
    PallocInv ram ⟨p, page_group page :: live⟩ ∧ (∀ q ∈ page_bytes page, p.mem q = 0) ∧
      ∀ q, q ∉ page_bytes page → p.mem q = s.mem q := by
  rw [palloc_get_page] at hcall
  rcases h.get_cases (PAL_ASSERT ||| PAL_ZERO) (Nat.le_refl 1) with
    ⟨_, p', page', hcall', hnull, hinv⟩ | ⟨_, hcall'⟩
  · rw [hcall', Option.some.injEq, Prod.mk.injEq] at hcall
    rcases hcall with ⟨rfl, rfl⟩
    have hgroup : (⟨page', 1, flags_pool (PAL_ASSERT ||| PAL_ZERO)⟩ : Group) = page_group page' :=
      rfl
    have hbytes : page_bytes page' = ⟨page', PGSIZE * 1⟩ := by
      rw [page_bytes, Nat.mul_one]
    rw [hgroup] at hinv
    rw [hbytes]
    exact ⟨hinv, fun q hq => palloc_get_multiple_mem_zero hcall' hnull (by decide) (by decide) hq,
      fun q hq => palloc_get_multiple_mem_of_not_mem hcall' hq⟩
  · rw [hcall', if_pos (by decide)] at hcall
    cases hcall

namespace PagingInv

variable {tables : List Group} {e : BitVec 32} {k : Nat}

/-- Storing an entry in a page table. -/
theorem put_pte (h : PagingInv ram s pd pt tables live) (hk : k < 1024) :
    PagingInv ram (s.withMem (put_word s.mem (pt + 4 * k) e)) pd pt tables live := by
  refine ⟨h.pages.withMem _, h.table, fun i hi => ?_⟩
  have hpd : page_group pd ∈ tables ++ page_group pd :: live :=
    List.mem_append_right _ List.mem_cons_self
  have hdis : Extent.Disjoint (page_bytes pd) (page_bytes pt) := by
    rcases h.table with hnull | htable
    · -- a null pointer is below the kernel's memory
      have hge := (h.pages.kernel_page hpd).ge
      have hgroup : (page_group pd).pages = pd := rfl
      rw [hgroup, PHYS_BASE_eq] at hge
      rw [hnull, NULL]
      refine (Extent.disjoint_of_le ?_).symm
      simp only [page_bytes]
      rw [PGSIZE_eq]
      omega
    · rw [← page_group_bytes, ← page_group_bytes]
      refine h.pages.disjoint hpd (List.mem_append_left _ htable) ?_
      intro heq
      exact (List.nodup_append.1 h.pages.nodup).2.2 _ htable _ List.mem_cons_self heq.symm
  have hword : word_at (put_word s.mem (pt + 4 * k) e) (pd + 4 * i) = word_at s.mem (pd + 4 * i) :=
    word_of_other_page hdis hk (by omega)
  exact hword.trans (h.user_half i hi)

/-- A page table is added in the kernel's half. -/
theorem put_pde (h : PagingInv ram s pd pt tables live) {t : Nat} (hlo : 768 ≤ k) (hhi : k < 1024)
    (hcall : palloc_get_page s (PAL_ASSERT ||| PAL_ZERO) = some (p, t)) :
    PagingInv ram (p.withMem (put_word p.mem (pd + 4 * k) e)) pd t (page_group t :: tables)
      live := by
  rcases get_zero_page h.pages hcall with ⟨hinv, _, hkeep⟩
  refine ⟨hinv.withMem _, Or.inr List.mem_cons_self, fun i hi => ?_⟩
  have hout : ∀ q ∈ page_bytes pd, p.mem q = s.mem q := by
    intro q hq
    rw [← page_group_bytes] at hq
    have hfresh := hinv.apart (List.mem_append_right _ List.mem_cons_self) hq
    rw [page_group_bytes] at hfresh
    exact hkeep q hfresh
  calc
    word_at (put_word p.mem (pd + 4 * k) e) (pd + 4 * i) = word_at p.mem (pd + 4 * i) :=
      word_of_same_page (by omega)
    _ = word_at s.mem (pd + 4 * i) := word_of_page hout (by omega)
    _ = 0 := h.user_half i hi

/-- Physical page `page` is mapped in the kernel's half. -/
theorem vaddr_eq (hpage : page < 2 ^ 18) :
    ptov (size_mul page PGSIZE) = some (page * 4096 + PHYS_BASE) := by
  have hmul : size_mul page PGSIZE = page * 4096 := size_mul_eq (by rw [PGSIZE_eq, WORD_eq]; omega)
  rw [hmul]
  exact ptov_eq (by rw [PHYS_BASE_eq, WORD_eq]; omega)

theorem loop (n page : Nat) (hn : page + n ≤ 2 ^ 18) {s : Palloc} {pt : Nat} {tables : List Group}
    (h : PagingInv ram s pd pt tables live)
    (hcall : paging_init_from text_start text_end pd page n pt s = some p) :
    ∃ pt' tables', PagingInv ram p pd pt' tables' live := by
  induction n generalizing page s pt tables with
  | zero =>
      cases hcall
      exact ⟨pt, tables, h⟩
  | succ n ih =>
      have hno : pd_no (page * 4096 + PHYS_BASE) = 768 + page / 1024 := by
        rw [pd_no_eq, PHYS_BASE_eq]
        omega
      rw [paging_init_from, vaddr_eq (by omega)] at hcall
      simp only [Option.bind_eq_bind, Option.bind_some] at hcall
      by_cases hzero : word_at s.mem (pd + 4 * pd_no (page * 4096 + PHYS_BASE)) = 0
      · rw [if_pos hzero] at hcall
        rcases Option.bind_eq_some_iff.1 hcall with ⟨⟨p', t⟩, hget, hcall⟩
        rcases Option.bind_eq_some_iff.1 hcall with ⟨e, _, hcall⟩
        rcases Option.bind_eq_some_iff.1 hcall with ⟨_, _, hcall⟩
        have hlo : 768 ≤ pd_no (page * 4096 + PHYS_BASE) := by omega
        have hhi : pd_no (page * 4096 + PHYS_BASE) < 1024 := by omega
        have hinv := h.put_pde (e := e) hlo hhi hget
        exact ih (page + 1) (by omega) (hinv.put_pte (pt_no_lt _)) hcall
      · rw [if_neg hzero] at hcall
        rcases Option.bind_eq_some_iff.1 hcall with ⟨_, _, hcall⟩
        exact ih (page + 1) (by omega) (h.put_pte (pt_no_lt _)) hcall

end PagingInv

/-- `paging_init` holds its pages, and the user half of `init_page_dir` is empty. -/
theorem paging_init_spec {init_ram_pages : Nat} (hhi : init_ram_pages < 2 ^ 18)
    (h : PallocInv ram ⟨s, live⟩)
    (hcall : paging_init init_ram_pages text_start text_end s = some (p, pd)) :
    ∃ kern, PallocInv ram ⟨p, kern ++ live⟩ ∧ page_group pd ∈ kern ∧
      ∀ i, i < 768 → word_at p.mem (pd + 4 * i) = 0 := by
  rw [paging_init] at hcall
  rcases Option.bind_eq_some_iff.1 hcall with ⟨⟨s₀, pd₀⟩, hget, hcall⟩
  rcases Option.bind_eq_some_iff.1 hcall with ⟨s₁, hloop, hcall⟩
  cases hcall
  rcases get_zero_page h hget with ⟨hinv, hzero, _⟩
  have hstart : PagingInv ram s₀ pd NULL [] live :=
    ⟨hinv, Or.inl rfl, fun i hi => word_of_page_zero hzero (by omega)⟩
  rcases PagingInv.loop init_ram_pages 0 (by omega) hstart hloop with ⟨pt, tables, hend⟩
  refine ⟨tables ++ [page_group pd], ?_, List.mem_append_right _ (List.mem_singleton.2 rfl),
    hend.user_half⟩
  rw [List.append_assoc]
  exact hend.pages

end

end Berk162
