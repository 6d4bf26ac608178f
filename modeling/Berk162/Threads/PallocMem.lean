import Berk162.Threads.PallocRuns

/-!
# PallocMem — what the page allocator does to the contents of memory

A call writes only to the pages that it hands out or takes back, so every group that stays live
keeps its contents.  `free_pages` frees pages one after the other.
-/

namespace Berk162

theorem memcpy_of_mem {m : Memory} {dst src size k : Nat} (hk : k < size) :
    memcpy m dst src size (dst + k) = m (src + k) := by
  rw [memcpy, if_pos ⟨Nat.le_add_right dst k, by omega⟩, Nat.add_sub_cancel_left]

theorem memcpy_of_not_mem {m : Memory} {dst src size q : Nat}
    (hq : q ∉ (⟨dst, size⟩ : Extent)) : memcpy m dst src size q = m q :=
  if_neg hq

/-! ## The bytes that each function writes -/

/-- New pages are cleared if the caller asks for it. -/
theorem palloc_get_multiple_mem_eq {s p : Palloc} {flags page_cnt a : Nat}
    (h : palloc_get_multiple s flags page_cnt = some (p, a)) :
    p.mem = if a ≠ NULL ∧ flags &&& PAL_ZERO ≠ 0 then memset s.mem a 0 (size_mul PGSIZE page_cnt)
      else s.mem := by
  rw [palloc_get_multiple] at h
  by_cases hzero : page_cnt = 0
  · rw [if_pos hzero] at h
    cases h
    rw [if_neg fun hc => hc.1 rfl]
  · rw [if_neg hzero] at h
    rcases Option.bind_eq_some_iff.1 h with ⟨⟨used_map, page_idx⟩, _, h⟩
    have hmem : (s.setPool (flags_pool flags) ((s.pool (flags_pool flags)).withMap used_map)).mem =
        s.mem := s.mem_setPool _ _
    simp only at h
    generalize s.setPool (flags_pool flags) ((s.pool (flags_pool flags)).withMap used_map) = t
      at h hmem
    generalize (if page_idx ≠ BITMAP_ERROR then
      size_add (t.pool (flags_pool flags)).base (size_mul PGSIZE page_idx) else NULL) = pages at h
    by_cases hnull : pages ≠ NULL
    · rw [if_pos hnull] at h
      by_cases hclear : flags &&& PAL_ZERO ≠ 0
      · rw [if_pos hclear] at h
        cases h
        rw [if_pos ⟨hnull, hclear⟩, ← hmem]
        rfl
      · rw [if_neg hclear] at h
        cases h
        rw [if_neg fun hc => hclear hc.2, hmem]
    · rw [if_neg hnull] at h
      by_cases hassert : flags &&& PAL_ASSERT ≠ 0
      · rw [if_pos hassert] at h
        cases h
      · rw [if_neg hassert] at h
        cases h
        rw [if_neg fun hc => hnull hc.1, hmem]

/-- Pages that are not asked to be zero are not written. -/
theorem palloc_get_multiple_mem {s p : Palloc} {page_cnt a : Nat}
    (h : palloc_get_multiple s 0 page_cnt = some (p, a)) : p.mem = s.mem := by
  rw [palloc_get_multiple_mem_eq h, if_neg fun hc => hc.2 (Nat.zero_and _)]

theorem palloc_get_multiple_mem_of_not_mem {s p : Palloc} {flags page_cnt a : Nat}
    (h : palloc_get_multiple s flags page_cnt = some (p, a)) {q : Nat}
    (hq : q ∉ (⟨a, PGSIZE * page_cnt⟩ : Extent)) : p.mem q = s.mem q := by
  have hle : size_mul PGSIZE page_cnt ≤ PGSIZE * page_cnt := Nat.mod_le _ _
  have hout : ¬ (a ≤ q ∧ q < a + PGSIZE * page_cnt) := hq
  rw [palloc_get_multiple_mem_eq h]
  split_ifs
  · exact memset_of_not_mem (by omega)
  · rfl

theorem palloc_get_multiple_mem_zero {s p : Palloc} {flags page_cnt a : Nat}
    (h : palloc_get_multiple s flags page_cnt = some (p, a)) (hnull : a ≠ NULL)
    (hflag : flags &&& PAL_ZERO ≠ 0) (hcnt : PGSIZE * page_cnt < WORD) {q : Nat}
    (hq : q ∈ (⟨a, PGSIZE * page_cnt⟩ : Extent)) : p.mem q = 0 := by
  rw [palloc_get_multiple_mem_eq h, if_pos ⟨hnull, hflag⟩, size_mul_eq hcnt]
  exact memset_of_mem hq

/-- Freed pages are filled, and nothing else is. -/
theorem palloc_free_multiple_mem {s p : Palloc} {pages page_cnt : Nat}
    (h : palloc_free_multiple s pages page_cnt = some p) {q : Nat}
    (hq : q ∉ (⟨pages, PGSIZE * page_cnt⟩ : Extent)) : p.mem q = s.mem q := by
  rw [palloc_free_multiple] at h
  rcases Option.bind_eq_some_iff.1 h with ⟨_, _, h⟩
  by_cases hnone : pages = NULL ∨ page_cnt = 0
  · rw [if_pos hnone] at h
    cases h
    rfl
  · rw [if_neg hnone] at h
    rcases Option.bind_eq_some_iff.1 h with ⟨id, _, h⟩
    rcases Option.bind_eq_some_iff.1 h with ⟨all, _, h⟩
    rcases Option.bind_eq_some_iff.1 h with ⟨_, _, h⟩
    rcases Option.bind_eq_some_iff.1 h with ⟨used_map, _, h⟩
    cases h
    have hle : size_mul PGSIZE page_cnt ≤ PGSIZE * page_cnt := Nat.mod_le _ _
    have hout : ¬ (pages ≤ q ∧ q < pages + PGSIZE * page_cnt) := hq
    rw [Palloc.mem_setPool]
    exact memset_of_not_mem (by omega)

/-! ## What stays live -/

/-- What other users of the page allocator do leaves the groups `gs` alone. -/
theorem PallocInv.frame {ram : Nat} {gs others others' : List Group} {p p' : Palloc}
    {c : PallocCall} (h : PallocInv ram ⟨p, gs ++ others⟩)
    (hstep : PallocStep ⟨p, others⟩ c ⟨p', others'⟩) : PallocInv ram ⟨p', gs ++ others'⟩ := by
  cases hstep with
  | get_group hpos hcall hnull =>
      exact (h.get_group hpos hcall hnull).perm List.perm_middle.symm
  | get_null hpos hcall =>
      have hsame : p' = p := palloc_get_multiple_null h.wf hpos hcall
      rw [hsame]
      exact h
  | free hg hcall =>
      rename_i g
      have hmem : g ∈ gs ++ others := List.mem_append_right _ hg
      refine (h.free hmem hcall).perm ?_
      refine List.Perm.cons_inv (a := g) ?_
      calc
        List.Perm (g :: (gs ++ others).erase g) (gs ++ others) := (List.perm_cons_erase hmem).symm
        List.Perm _ (gs ++ g :: others.erase g) := (List.perm_cons_erase hg).append_left gs
        List.Perm _ (g :: (gs ++ others.erase g)) := List.perm_middle

namespace PallocInv

variable {ram : Nat} {s : Palloc} {live : List Group} {g g' : Group}

/-- Two groups that are live at the same time have no byte in common. -/
theorem apart (h : PallocInv ram ⟨s, g :: live⟩) (hg : g' ∈ live) {q : Nat} (hq : q ∈ g'.bytes) :
    q ∉ g.bytes := by
  have hdis := h.bytes_disjoint
  rw [List.map_cons, List.pairwise_cons] at hdis
  exact (hdis.1 _ (List.mem_map_of_mem hg)).symm q hq

/-- What other users of the page allocator do leaves the contents of the groups `gs` alone. -/
theorem frame_mem {gs others others' : List Group} {p p' : Palloc} {c : PallocCall}
    (h : PallocInv ram ⟨p, gs ++ others⟩) (hstep : PallocStep ⟨p, others⟩ c ⟨p', others'⟩)
    (hg : g ∈ gs) {q : Nat} (hq : q ∈ g.bytes) : p'.mem q = p.mem q := by
  cases hstep with
  | get_group hpos hcall hnull =>
      have hfresh := (h.get_group hpos hcall hnull).apart (List.mem_append_left _ hg) hq
      exact palloc_get_multiple_mem_of_not_mem hcall hfresh
  | get_null hpos hcall =>
      have hsame : p' = p := palloc_get_multiple_null h.wf hpos hcall
      rw [hsame]
  | free hf hcall =>
      rename_i f
      -- the group that is freed first
      have hperm : (gs ++ others).Perm (f :: (gs ++ others.erase f)) :=
        ((List.perm_cons_erase hf).append_left gs).trans List.perm_middle
      have hother := (h.perm hperm).apart (List.mem_append_left _ hg) hq
      exact palloc_free_multiple_mem hcall hother

end PallocInv

/-! ## Freeing pages one after the other -/

def free_pages (s : Palloc) (pages : List Nat) : Option Palloc := pages.foldlM palloc_free_page s

theorem free_pages_nil (s : Palloc) : free_pages s [] = some s := rfl

theorem free_pages_cons (s : Palloc) (page : Nat) (pages : List Nat) :
    free_pages s (page :: pages) = (palloc_free_page s page).bind fun p => free_pages p pages := rfl

theorem free_pages_append (s : Palloc) (pages pages' : List Nat) :
    free_pages s (pages ++ pages') = (free_pages s pages).bind fun p => free_pages p pages' :=
  List.foldlM_append

namespace PallocInv

variable {ram : Nat} {s : Palloc} {gs live : List Group} {g : Group}

theorem free_page (h : PallocInv ram ⟨s, g :: live⟩) (hone : g.page_cnt = 1) :
    ∃ p, palloc_free_page s g.pages = some p ∧ PallocInv ram ⟨p, live⟩ ∧
      ∀ g' ∈ live, ∀ q ∈ g'.bytes, p.mem q = s.mem q := by
  have hmem : g ∈ (⟨s, g :: live⟩ : PallocRun).live := List.mem_cons_self
  rcases h.good.free_ok g hmem with ⟨p, hp⟩
  have hfree := h.free hmem hp
  simp only [List.erase_cons_head] at hfree
  refine ⟨p, ?_, hfree, fun g' hg' q hq => palloc_free_multiple_mem hp (h.apart hg' hq)⟩
  rw [palloc_free_page, ← hone]
  exact hp

/-- All of `gs` are freed, and what stays live keeps its contents. -/
theorem free_pages (h : PallocInv ram ⟨s, gs ++ live⟩) (hone : ∀ g ∈ gs, g.page_cnt = 1) :
    ∃ p, free_pages s (gs.map Group.pages) = some p ∧ PallocInv ram ⟨p, live⟩ ∧
      ∀ g' ∈ live, ∀ q ∈ g'.bytes, p.mem q = s.mem q := by
  induction gs generalizing s with
  | nil => exact ⟨s, rfl, h, fun _ _ _ _ => rfl⟩
  | cons g gs ih =>
      rcases h.free_page (hone g List.mem_cons_self) with ⟨p, hp, hinv, hmem⟩
      rcases ih hinv fun g' hg' => hone g' (List.mem_cons_of_mem _ hg') with
        ⟨p', hp', hinv', hmem'⟩
      refine ⟨p', ?_, hinv', fun g' hg' q hq => ?_⟩
      · rw [List.map_cons, free_pages_cons, hp, Option.bind_some, hp']
      · calc
          p'.mem q = p.mem q := hmem' g' hg' q hq
          _ = s.mem q := hmem g' (List.mem_append_right _ hg') q hq

end PallocInv

end Berk162
