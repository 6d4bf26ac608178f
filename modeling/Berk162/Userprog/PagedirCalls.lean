import Berk162.Userprog.PagedirInv

/-!
# PagedirCalls — the pages that a page directory holds, and the calls that get and free them

A directory holds its own page, the pages of its page tables and the frames that it maps.
`dir_groups` lists them in the order in which `pagedir_destroy` frees them.
-/

namespace Berk162

/-- One of the lists that are joined gets one more element. -/
theorem perm_flatMap_cons {ι α : Type} {l : List ι} (hl : l.Nodup) {i : ι} (hi : i ∈ l)
    {f g : ι → List α} {x : α} (hsame : ∀ k ∈ l, k ≠ i → g k = f k)
    (hat : (g i).Perm (x :: f i)) : (l.flatMap g).Perm (x :: l.flatMap f) := by
  induction l with
  | nil => cases hi
  | cons k l ih =>
      rcases List.nodup_cons.1 hl with ⟨hk, hl⟩
      rw [List.flatMap_cons, List.flatMap_cons]
      by_cases hki : k = i
      · subst hki
        have hrest : l.flatMap g = l.flatMap f := by
          refine List.flatMap_congr fun k' hk' => hsame k' (List.mem_cons_of_mem _ hk') ?_
          rintro rfl
          exact hk hk'
        rw [hrest]
        exact hat.append_right _
      · have hil : i ∈ l := (List.mem_cons.1 hi).resolve_left (Ne.symm hki)
        have hrest := ih hl hil fun k' hk' => hsame k' (List.mem_cons_of_mem _ hk')
        rw [hsame k List.mem_cons_self hki]
        exact (hrest.append_left (f k)).trans List.perm_middle

/-! ## What a directory holds -/

/-- A page of the kernel pool. -/
def page_group (page : Nat) : Group := ⟨page, 1, .kernel⟩

/-- The frame mapped at a page. -/
def frame_at (map : UserMap) (i j : Nat) : List Group :=
  ((map (page_at i j)).map Mapping.frame).toList

def table_at (pt : Nat → Option Nat) (i : Nat) : List Group := ((pt i).map page_group).toList

/-- What the directory entry `i` holds. -/
def held_at (pt : Nat → Option Nat) (map : UserMap) (i : Nat) : List Group :=
  (List.range 1024).flatMap (frame_at map i) ++ table_at pt i

/-- What a directory holds; there is none if `pd` is null. -/
def dir_groups (pd : Nat) (pt : Nat → Option Nat) (map : UserMap) : List Group :=
  (List.range 768).flatMap (held_at pt map) ++ if pd = NULL then [] else [page_group pd]

section

variable {pd i j t : Nat} {pt : Nat → Option Nat} {map : UserMap} {m : Mapping} {g : Group}

theorem mem_dir_groups : g ∈ dir_groups pd pt map ↔
    (∃ i j m, i < 768 ∧ j < 1024 ∧ map (page_at i j) = some m ∧ m.frame = g) ∨
      (∃ i t, i < 768 ∧ pt i = some t ∧ page_group t = g) ∨ pd ≠ NULL ∧ page_group pd = g := by
  have hpd : g ∈ (if pd = NULL then [] else [page_group pd]) ↔ pd ≠ NULL ∧ page_group pd = g := by
    by_cases h : pd = NULL
    · simp [h]
    · simp [h, eq_comm]
  simp only [dir_groups, held_at, frame_at, table_at, List.mem_append, List.mem_flatMap,
    List.mem_range, Option.mem_toList, Option.map_eq_some_iff, hpd]
  constructor
  · rintro (⟨i, hi, ⟨j, hj, m, hm, rfl⟩ | ⟨t, ht, rfl⟩⟩ | h)
    · exact Or.inl ⟨i, j, m, hi, hj, hm, rfl⟩
    · exact Or.inr (Or.inl ⟨i, t, hi, ht, rfl⟩)
    · exact Or.inr (Or.inr h)
  · rintro (⟨i, j, m, hi, hj, hm, rfl⟩ | ⟨i, t, hi, ht, rfl⟩ | h)
    · exact Or.inl ⟨i, hi, Or.inl ⟨j, hj, m, hm, rfl⟩⟩
    · exact Or.inl ⟨i, hi, Or.inr ⟨t, ht, rfl⟩⟩
    · exact Or.inr h

/-- A page is mapped that was not. -/
theorem dir_groups_map (hi : i < 768) (hj : j < 1024) (hnone : map (page_at i j) = none) :
    (dir_groups pd pt (Function.update map (page_at i j) (some m))).Perm
      (m.frame :: dir_groups pd pt map) := by
  have hframe : ∀ k l, l < 1024 → (k ≠ i ∨ l ≠ j) →
      frame_at (Function.update map (page_at i j) (some m)) k l = frame_at map k l := by
    intro k l hl hne
    have hpage : page_at k l ≠ page_at i j := by
      intro heq
      rcases page_at_injective hl hj heq with ⟨rfl, rfl⟩
      exact hne.elim (fun h => h rfl) (fun h => h rfl)
    rw [frame_at, frame_at, Function.update_of_ne hpage]
  rw [dir_groups, dir_groups, ← List.cons_append]
  refine List.Perm.append_right _ (perm_flatMap_cons List.nodup_range (List.mem_range.2 hi) ?_ ?_)
  · intro k _ hk
    have hrow : (List.range 1024).flatMap
        (frame_at (Function.update map (page_at i j) (some m)) k) =
        (List.range 1024).flatMap (frame_at map k) :=
      List.flatMap_congr fun l hl => hframe k l (List.mem_range.1 hl) (Or.inl hk)
    rw [held_at, held_at, hrow]
  · -- in the row of the page, one list gets the new frame
    rw [held_at, held_at, ← List.cons_append]
    refine List.Perm.append_right _ (perm_flatMap_cons List.nodup_range (List.mem_range.2 hj) ?_ ?_)
    · exact fun l hl hne => hframe i l (List.mem_range.1 hl) (Or.inr hne)
    · rw [frame_at, frame_at, Function.update_self, hnone]
      exact List.Perm.refl _

/-- A page is no longer mapped. -/
theorem dir_groups_unmap (hi : i < 768) (hj : j < 1024) (hm : map (page_at i j) = some m) :
    (dir_groups pd pt map).Perm
      (m.frame :: dir_groups pd pt (Function.update map (page_at i j) none)) := by
  have hnone : Function.update map (page_at i j) none (page_at i j) = none :=
    Function.update_self _ _ _
  have hperm := @dir_groups_map pd i j pt _ m hi hj hnone
  rwa [Function.update_idem, ← hm, Function.update_eq_self] at hperm

/-- A page table is added. -/
theorem dir_groups_table (hi : i < 768) (hnone : pt i = none) :
    (dir_groups pd (Function.update pt i (some t)) map).Perm
      (page_group t :: dir_groups pd pt map) := by
  rw [dir_groups, dir_groups, ← List.cons_append]
  refine List.Perm.append_right _ (perm_flatMap_cons List.nodup_range (List.mem_range.2 hi) ?_ ?_)
  · intro k _ hk
    rw [held_at, held_at, table_at, table_at, Function.update_of_ne hk]
  · rw [held_at, held_at, table_at, table_at, Function.update_self, hnone]
    simp only [Option.map_some, Option.toList_some, Option.map_none, Option.toList_none,
      List.append_nil]
    exact List.perm_append_singleton _ _

/-- Only the frames of the map matter. -/
theorem dir_groups_congr {map' : UserMap}
    (h : ∀ p, (map' p).map Mapping.frame = (map p).map Mapping.frame) :
    dir_groups pd pt map' = dir_groups pd pt map := by
  have hframe : ∀ k, frame_at map' k = frame_at map k := fun k => funext fun l => by
    rw [frame_at, frame_at, h]
  have hheld : held_at pt map' = held_at pt map := funext fun k => by
    rw [held_at, held_at, hframe]
  rw [dir_groups, dir_groups, hheld]

end

/-! ## What the page allocator says about them -/

instance : Std.Symm fun g g' : Group => Extent.Disjoint g.bytes g'.bytes :=
  ⟨fun _ _ hd => hd.symm⟩

instance (pt : Nat → Option Nat) (map : UserMap) :
    Std.Symm (Function.onFun List.Disjoint (held_at pt map)) :=
  ⟨fun _ _ hd => hd.symm⟩

namespace PallocInv

variable {ram : Nat} {s : Palloc} {live : List Group} {g g' : Group}

/-- The first page of a group lies in the kernel's memory and ends before the last address. -/
theorem page_bounds (h : PallocInv ram ⟨s, live⟩) (hg : g ∈ live) :
    PHYS_BASE ≤ g.pages ∧ g.pages + PGSIZE < WORD := by
  have hin := h.in_pool hg
  have hpos := (h.inside g hg).pos
  have hbase := h.wf.base_pos g.pool
  have hend := h.wf.end_le g.pool
  have hram := h.wf.ram_lt
  simp only at hin hbase hend
  rw [PGSIZE_eq] at hin hend ⊢
  exact ⟨by omega, by omega⟩

theorem kernel_page (h : PallocInv ram ⟨s, live⟩) (hg : g ∈ live) : KernelPage g.pages := by
  have hbounds := h.page_bounds hg
  exact ⟨(h.inside g hg).aligned, hbounds.1, by omega⟩

theorem disjoint (h : PallocInv ram ⟨s, live⟩) (hg : g ∈ live) (hg' : g' ∈ live) (hne : g ≠ g') :
    Extent.Disjoint g.bytes g'.bytes := by
  have hdis := List.pairwise_map.1 h.bytes_disjoint
  exact hdis.forall hg hg' hne

theorem nodup (h : PallocInv ram ⟨s, live⟩) : live.Nodup := by
  have hdis := List.pairwise_map.1 h.bytes_disjoint
  refine hdis.imp_of_mem fun {g g'} hg _ hd => ?_
  rintro rfl
  have hpos := (h.inside g hg).pos
  have hstart : g.bytes.start ∈ g.bytes := by
    refine Extent.start_mem ?_
    simp only [Group.bytes]
    rw [PGSIZE_eq]
    omega
  exact hd _ hstart hstart

end PallocInv

theorem page_group_bytes (page : Nat) : (page_group page).bytes = page_bytes page := by
  rw [Group.bytes, page_group, page_bytes, Nat.mul_one]

section

variable {ram : Nat} {s : Palloc} {pd : Nat} {pt : Nat → Option Nat} {map : UserMap}
  {live : List Group}

theorem table_mem {i t : Nat} (hi : i < 768) (ht : pt i = some t) :
    page_group t ∈ dir_groups pd pt map :=
  mem_dir_groups.2 (Or.inr (Or.inl ⟨i, t, hi, ht, rfl⟩))

theorem pd_mem (hpd : pd ≠ NULL) : page_group pd ∈ dir_groups pd pt map :=
  mem_dir_groups.2 (Or.inr (Or.inr ⟨hpd, rfl⟩))

theorem apart_of_inv (h : PallocInv ram ⟨s, dir_groups pd pt map ++ live⟩) (hpd : pd ≠ NULL) :
    TablesApart pd pt := by
  have hnodup := (List.nodup_append.1 h.nodup).1
  rw [dir_groups, if_neg hpd] at hnodup
  rcases List.nodup_append.1 hnodup with ⟨hheld, _, hlast⟩
  have hmem : ∀ i t, i < 768 → pt i = some t → page_group t ∈ held_at pt map i := by
    intro i t hi ht
    rw [held_at, table_at, ht]
    exact List.mem_append_right _ (List.mem_singleton.2 rfl)
  have hin : ∀ i t, i < 768 → pt i = some t → page_group t ∈ dir_groups pd pt map ++ live :=
    fun i t hi ht => List.mem_append_left _ (table_mem hi ht)
  have hpin : page_group pd ∈ dir_groups pd pt map ++ live := List.mem_append_left _ (pd_mem hpd)
  refine ⟨h.kernel_page hpin, fun i t hi ht => h.kernel_page (hin i t hi ht), ?_, ?_⟩
  · intro i t hi ht
    rw [← page_group_bytes, ← page_group_bytes]
    refine h.disjoint hpin (hin i t hi ht) ?_
    -- the page of the directory comes after everything that its entries hold
    intro heq
    have hflat : page_group t ∈ (List.range 768).flatMap (held_at pt map) :=
      List.mem_flatMap.2 ⟨i, List.mem_range.2 hi, hmem i t hi ht⟩
    exact hlast _ hflat _ (List.mem_singleton.2 rfl) heq.symm
  · intro i i' t t' hi hi' ht ht' hne
    rw [← page_group_bytes, ← page_group_bytes]
    refine h.disjoint (hin i t hi ht) (hin i' t' hi' ht') ?_
    intro heq
    have hpair := (List.nodup_flatMap.1 hheld).2
    have hdis := hpair.forall (List.mem_range.2 hi) (List.mem_range.2 hi') hne
    exact hdis (hmem i t hi ht) (heq ▸ hmem i' t' hi' ht')

/-- A group that is neither the page of the directory nor that of a page table. -/
theorem outside_of_ne (h : PallocInv ram ⟨s, dir_groups pd pt map ++ live⟩) (hpd : pd ≠ NULL)
    {g : Group} (hg : g ∈ dir_groups pd pt map ++ live)
    (hne : ∀ page, page_group page ∈ dir_groups pd pt map → g ≠ page_group page) {q : Nat}
    (hq : q ∈ g.bytes) : Outside pd pt q := by
  have hout : ∀ page, page_group page ∈ dir_groups pd pt map → q ∉ page_bytes page := by
    intro page hpage
    rw [← page_group_bytes]
    exact h.disjoint hg (List.mem_append_left _ hpage) (hne page hpage) q hq
  exact ⟨hout pd (pd_mem hpd), fun i t hi ht => hout t (table_mem hi ht)⟩

/-- What others hold lies outside of the directory and its page tables. -/
theorem outside_of_live (h : PallocInv ram ⟨s, dir_groups pd pt map ++ live⟩) (hpd : pd ≠ NULL)
    {g : Group} (hg : g ∈ live) {q : Nat} (hq : q ∈ g.bytes) : Outside pd pt q := by
  refine outside_of_ne h hpd (List.mem_append_right _ hg) (fun page hpage heq => ?_) hq
  exact (List.nodup_append.1 h.nodup).2.2 _ hpage g hg heq.symm

/-- So does every page of the user pool. -/
theorem outside_of_user (h : PallocInv ram ⟨s, dir_groups pd pt map ++ live⟩) (hpd : pd ≠ NULL)
    {g : Group} (hg : g ∈ dir_groups pd pt map ++ live) (hpool : g.pool = .user) {q : Nat}
    (hq : q ∈ g.bytes) : Outside pd pt q := by
  refine outside_of_ne h hpd hg (fun page _ heq => ?_) hq
  rw [heq] at hpool
  cases hpool

end

/-! ## `pagedir_set_page` -/

section

variable {ram : Nat} {s : Palloc} {pd : Nat} {pt : Nat → Option Nat} {map : UserMap}
  {kernel : Nat → BitVec 32} {live : List Group} {va : Nat}

/-- A page table is there, or is made, or there is no page for it. -/
theorem lookup_create (h : PallocInv ram ⟨s, dir_groups pd pt map ++ live⟩) (hpd : pd ≠ NULL)
    (hd : IsDir s.mem pd pt map kernel) (hu : is_user_vaddr va) :
    (pt (pd_no va) = none ∧ palloc_get_page s PAL_ZERO = some (s, NULL) ∧
        lookup_page s pd va true = some (s, NULL)) ∨
      ∃ s' pt' t, lookup_page s pd va true = some (s', pte_ptr pt' va) ∧
        pt' (pd_no va) = some t ∧ PallocInv ram ⟨s', dir_groups pd pt' map ++ live⟩ ∧
        IsDir s'.mem pd pt' map kernel ∧ ∀ q, Outside pd pt' q → s'.mem q = s.mem q := by
  have ha := apart_of_inv h hpd
  have hi := pd_no_lt hu
  cases ht : pt (pd_no va) with
  | some t =>
      exact Or.inr ⟨s, pt, t, hd.lookup ha hu (Or.inr ⟨t, ht⟩), ht, h, hd, fun _ _ => rfl⟩
  | none =>
      have hzero := hd.pde _ hi
      rw [ht, DirEntryOf] at hzero
      have hlookup : lookup_page s pd va true = (palloc_get_page s PAL_ZERO).bind fun r =>
          if r.2 = NULL then some (r.1, NULL)
          else (pde_create r.2).bind fun e =>
            (pde_get_pt (word_at (put_word r.1.mem (pd + 4 * pd_no va) e)
              (pd + 4 * pd_no va))).bind fun t =>
                some (r.1.withMem (put_word r.1.mem (pd + 4 * pd_no va) e), t + 4 * pt_no va) := by
        rw [lookup_page, ASSERT_pos hpd, ASSERT_pos (Or.inr hu)]
        simp only [Option.bind_eq_bind, Option.bind_some]
        rw [if_pos hzero, if_pos trivial]
        rfl
      have hget : palloc_get_page s PAL_ZERO = palloc_get_multiple s PAL_ZERO 1 := rfl
      rw [hlookup, hget]
      rcases h.get_cases PAL_ZERO (Nat.le_refl 1) with
        ⟨_, p, t, hcall, hnull, hinv⟩ | ⟨_, hcall⟩
      · refine Or.inr ?_
        set pt' := Function.update pt (pd_no va) (some t) with hpt'
        have hself : pt' (pd_no va) = some t := Function.update_self _ _ _
        have hperm := @dir_groups_table pd _ t pt map hi ht
        have hgroup : (⟨t, 1, flags_pool PAL_ZERO⟩ : Group) = page_group t := rfl
        have hinv' : PallocInv ram ⟨p, dir_groups pd pt' map ++ live⟩ := by
          rw [hgroup, ← List.cons_append] at hinv
          exact hinv.perm (hperm.symm.append_right live)
        have ha' := apart_of_inv hinv' hpd
        have hkeep : ∀ q, q ∉ page_bytes t → p.mem q = s.mem q := by
          intro q hq
          rw [page_bytes, ← Nat.mul_one PGSIZE] at hq
          exact palloc_get_multiple_mem_of_not_mem hcall hq
        have hclear : ∀ q ∈ page_bytes t, p.mem q = 0 := by
          intro q hq
          rw [page_bytes, ← Nat.mul_one PGSIZE] at hq
          exact palloc_get_multiple_mem_zero hcall hnull (by decide) (by decide) hq
        have hdir : IsDir p.mem pd pt map kernel := by
          refine hd.congr (fun q hq => hkeep q (ha'.pd_table _ t hi hself q hq)) ?_
          intro i t₀ hi₀ ht₀ q hq
          have hne : i ≠ pd_no va := by
            rintro rfl
            rw [ht] at ht₀
            cases ht₀
          have ht₁ : pt' i = some t₀ := by rw [hpt', Function.update_of_ne hne, ht₀]
          exact hkeep q (ha'.tables i _ t₀ t hi₀ hi ht₁ hself hne q hq)
        rcases (ha'.table_page _ t hi hself).pde_create_spec with ⟨e, he, hpde⟩
        refine ⟨p.withMem (put_word p.mem (pd + 4 * pd_no va) e), pt', t, ?_, hself,
          hinv'.withMem _, hdir.put_pde hi ht hpde hclear ha', ?_⟩
        · rw [hcall, Option.bind_some]
          simp only [if_neg hnull]
          rw [he, Option.bind_some, word_at_put_word, hpde.table, Option.bind_some,
            pte_ptr_some hself]
        · intro q hq
          calc
            put_word p.mem (pd + 4 * pd_no va) e q = p.mem q :=
              put_word_of_page (by omega) hq.1
            _ = s.mem q := hkeep q (hq.2 _ t hi hself)
      · rw [if_neg (by decide)] at hcall
        rw [hcall, Option.bind_some]
        exact Or.inl ⟨rfl, rfl, if_pos rfl⟩

theorem pg_round_down_of_aligned (h : pg_ofs va = 0) : pg_round_down va = va := by
  rw [pg_round_down, h, Nat.sub_zero]

theorem page_at_of_aligned (h : pg_ofs va = 0) : page_at (pd_no va) (pt_no va) = va := by
  rw [page_at_no, pg_round_down_of_aligned h]

/-- Frames lie in RAM, so they pass the assertion of `pagedir_set_page`. -/
theorem frame_in_ram {init_ram_pages : Nat} (h : PallocInv (ram_end init_ram_pages) ⟨s, live⟩)
    {g : Group} (hg : g ∈ live) : (g.pages - PHYS_BASE) / 2 ^ PTSHIFT < init_ram_pages := by
  have hin := h.good.in_ram g hg
  have hpos := (h.inside g hg).pos
  have hge := (h.kernel_page hg).ge
  rw [ram_end, PGSIZE_eq] at hin
  have hshift : 2 ^ PTSHIFT = 4096 := rfl
  rw [hshift]
  omega

/-- `pagedir_set_page` after its assertions. -/
theorem pagedir_set_page_eq {init_ram_pages init_page_dir kpage p : Nat} {writable : Bool}
    (hofs : pg_ofs va = 0) (hkofs : pg_ofs kpage = 0) (hu : is_user_vaddr va)
    (hp : vtop kpage = some p) (hram : p / 2 ^ PTSHIFT < init_ram_pages)
    (hinit : pd ≠ init_page_dir) :
    pagedir_set_page init_ram_pages init_page_dir s pd va kpage writable =
      (lookup_page s pd va true).bind fun r =>
        if r.2 ≠ NULL then
          (ASSERT (word_at r.1.mem r.2 &&& PTE_P = 0)).bind fun _ =>
            (pte_create_user kpage writable).bind fun e =>
              some (r.1.withMem (put_word r.1.mem r.2 e), true)
        else some (r.1, false) := by
  rw [pagedir_set_page, ASSERT_pos hofs, ASSERT_pos hkofs, ASSERT_pos hu, hp]
  simp only [Option.bind_eq_bind, Option.bind_some]
  rw [ASSERT_pos hram, ASSERT_pos hinit]
  rfl

/-- Mapping a page either succeeds, or there is neither a page table nor a page for one, and nothing
changes. -/
theorem pagedir_set_page_spec {init_ram_pages init_page_dir : Nat}
    (h : PallocInv (ram_end init_ram_pages) ⟨s, dir_groups pd pt map ++ live⟩) (hpd : pd ≠ NULL)
    (hinit : pd ≠ init_page_dir) (hd : IsDir s.mem pd pt map kernel) (hofs : pg_ofs va = 0)
    (hu : is_user_vaddr va) (hnone : map va = none) {frame : Group} (hf : frame ∈ live)
    (writable : Bool) :
    (word_at s.mem (pd + 4 * pd_no va) = 0 ∧ palloc_get_page s PAL_ZERO = some (s, NULL) ∧
        pagedir_set_page init_ram_pages init_page_dir s pd va frame.pages writable =
          some (s, false)) ∨
      ∃ s' pt', pagedir_set_page init_ram_pages init_page_dir s pd va frame.pages writable =
          some (s', true) ∧
        PallocInv (ram_end init_ram_pages) ⟨s', dir_groups pd pt'
          (Function.update map va (some ⟨frame, writable, false, false⟩)) ++ live.erase frame⟩ ∧
        IsDir s'.mem pd pt' (Function.update map va (some ⟨frame, writable, false, false⟩)) kernel ∧
        (∀ q, Outside pd pt' q → s'.mem q = s.mem q) ∧
        ∀ g ∈ live, ∀ q ∈ g.bytes, Outside pd pt' q := by
  have hfl : frame ∈ dir_groups pd pt map ++ live := List.mem_append_right _ hf
  have hpage := h.kernel_page hfl
  have hround := pg_round_down_of_aligned hofs
  have hat := page_at_of_aligned hofs
  rw [pagedir_set_page_eq hofs hpage.aligned hu hpage.vtop_eq (frame_in_ram h hfl) hinit]
  rcases lookup_create h hpd hd hu with
    ⟨ht, hget, hcall⟩ | ⟨s', pt', t, hcall, ht, hinv, hdir, hkeep⟩
  · have hzero := hd.pde _ (pd_no_lt hu)
    rw [ht, DirEntryOf] at hzero
    rw [hcall, Option.bind_some]
    exact Or.inl ⟨hzero, hget, if_neg (not_not.2 rfl)⟩
  · have ha := apart_of_inv hinv hpd
    have hentry := hdir.entry hu ht
    rw [hround, hnone] at hentry
    rcases hpage.pte_create_user_spec writable with ⟨e, he, hpte⟩
    have hchanged := hdir.changed ha hu ht (m := some ⟨frame, writable, false, false⟩) hpte
    rw [hround] at hchanged
    refine Or.inr ⟨s'.withMem (put_word s'.mem (pte_ptr pt' va) e), pt', ?_, ?_, hchanged.dir, ?_,
      fun g hg q hq => outside_of_live hinv hpd hg hq⟩
    · rw [hcall, Option.bind_some]
      simp only [pte_ptr_ne_null ha hu ht, ne_eq, not_false_eq_true, if_true]
      rw [ASSERT_pos (of_decide_eq_false hentry |> not_not.1), Option.bind_some, he,
        Option.bind_some]
    · -- the frame changes hands
      rw [← hat] at hnone
      have hmap := @dir_groups_map pd _ _ pt' map ⟨frame, writable, false, false⟩ (pd_no_lt hu)
        (pt_no_lt va) hnone
      rw [hat] at hmap
      refine (hinv.withMem _).perm ?_
      calc
        List.Perm (dir_groups pd pt' map ++ live)
            (dir_groups pd pt' map ++ frame :: live.erase frame) :=
          (List.perm_cons_erase hf).append_left _
        List.Perm _ (frame :: (dir_groups pd pt' map ++ live.erase frame)) := List.perm_middle
        List.Perm _ _ := by
          rw [← List.cons_append]
          exact hmap.symm.append_right _
    · exact fun q hq => (hchanged.frame q hq).trans (hkeep q hq)

end

/-! ## `pagedir_create` -/

section

variable {ram : Nat} {s : Palloc} {pd init_page_dir : Nat} {kernel : Nat → BitVec 32}
  {live : List Group}

/-- A new directory has the kernel's entries and maps no user page. -/
theorem pagedir_create_spec (h : PallocInv ram ⟨s, live⟩)
    (hinit : page_group init_page_dir ∈ live)
    (huser : ∀ i, i < 768 → word_at s.mem (init_page_dir + 4 * i) = 0)
    (hkernel : ∀ i, 768 ≤ i → i < 1024 → word_at s.mem (init_page_dir + 4 * i) = kernel i) :
    pagedir_create s init_page_dir = some (s, NULL) ∨
      ∃ s' pd, pagedir_create s init_page_dir = some (s', pd) ∧ pd ≠ NULL ∧ pd ≠ init_page_dir ∧
        PallocInv ram ⟨s', page_group pd :: live⟩ ∧
        IsDir s'.mem pd (fun _ => none) (fun _ => none) kernel ∧
        ∀ g ∈ live, ∀ q ∈ g.bytes, s'.mem q = s.mem q := by
  have hcreate : pagedir_create s init_page_dir = (palloc_get_page s 0).bind fun r =>
      if r.2 ≠ NULL then some (r.1.withMem (memcpy r.1.mem r.2 init_page_dir PGSIZE), r.2)
      else some (r.1, r.2) := rfl
  rw [hcreate, palloc_get_page]
  rcases h.get_cases 0 (Nat.le_refl 1) with ⟨_, p, pd, hcall, hnull, hinv⟩ | ⟨_, hcall⟩
  · have hgroup : (⟨pd, 1, flags_pool 0⟩ : Group) = page_group pd := rfl
    rw [hgroup] at hinv
    have hmem := palloc_get_multiple_mem hcall
    have hne : pd ≠ init_page_dir := by
      rintro rfl
      exact (List.nodup_cons.1 hinv.nodup).1 hinit
    -- each word of the new directory is a word of the kernel's
    have hword : ∀ i, i < 1024 → word_at (memcpy p.mem pd init_page_dir PGSIZE) (pd + 4 * i) =
        word_at s.mem (init_page_dir + 4 * i) := by
      intro i hi
      refine word_at_shift fun k hk => ?_
      rw [Nat.add_assoc, Nat.add_assoc, memcpy_of_mem (by rw [PGSIZE_eq]; omega), hmem]
    refine Or.inr ⟨p.withMem (memcpy p.mem pd init_page_dir PGSIZE), pd, ?_, hnull, hne,
      hinv.withMem _, ⟨?_, ?_, ?_, ?_, ?_⟩, ?_⟩
    · rw [hcall, Option.bind_some]
      exact if_pos hnull
    · intro i hi
      exact (hword i (by omega)).trans (huser i hi)
    · rintro i _ t ht
      cases ht
    · exact fun _ _ _ _ _ => rfl
    · exact fun _ hp => absurd rfl hp
    · intro i hlo hhi
      exact (hword i hhi).trans (hkernel i hlo hhi)
    · intro g hg q hq
      have hout := hinv.apart hg hq
      rw [page_group_bytes] at hout
      calc
        memcpy p.mem pd init_page_dir PGSIZE q = p.mem q := memcpy_of_not_mem hout
        _ = s.mem q := by rw [hmem]
  · rw [hcall, if_neg (by decide), Option.bind_some]
    exact Or.inl (if_neg (not_not.2 rfl))

end

/-! ## `pagedir_destroy` -/

section

variable {ram : Nat} {s : Palloc} {pd : Nat} {pt : Nat → Option Nat} {map : UserMap}
  {kernel : Nat → BitVec 32} {live : List Group}

/-- A page that stays live keeps its words. -/
theorem word_of_live {s p : Palloc} {page k : Nat}
    (hkeep : ∀ g ∈ live, ∀ q ∈ g.bytes, p.mem q = s.mem q) (hpage : page_group page ∈ live)
    (hk : k < 1024) : word_at p.mem (page + 4 * k) = word_at s.mem (page + 4 * k) := by
  refine word_of_page (fun q hq => hkeep _ hpage q ?_) hk
  rwa [page_group_bytes]

/-- The inner loop frees the frames of one page table in their order. -/
theorem destroy_ptes_eq {t i : Nat} (hone : ∀ p m, map p = some m → m.frame.page_cnt = 1)
    (ht : page_group t ∈ live) (n j : Nat) (hj : j + n ≤ 1024)
    (h : PallocInv ram ⟨s, (List.range' j n).flatMap (frame_at map i) ++ live⟩)
    (hentry : ∀ k, k < 1024 → EntryOf (word_at s.mem (t + 4 * k)) (map (page_at i k))) :
    destroy_ptes t j n s =
      free_pages s (((List.range' j n).flatMap (frame_at map i)).map Group.pages) := by
  induction n generalizing j s with
  | zero => rfl
  | succ n ih =>
      rw [List.range'_succ, List.flatMap_cons] at h ⊢
      have he := hentry j (by omega)
      cases hm : map (page_at i j) with
      | none =>
          have hframe : frame_at map i j = [] := by
            rw [frame_at, hm]
            rfl
          rw [hm] at he
          have hnot : ¬ word_at s.mem (t + 4 * j) &&& PTE_P ≠ 0 := of_decide_eq_false he
          rw [hframe, List.nil_append] at h ⊢
          rw [destroy_ptes, if_neg hnot]
          exact ih (j + 1) (by omega) h hentry
      | some m =>
          have hframe : frame_at map i j = [m.frame] := by
            rw [frame_at, hm]
            rfl
          rw [hm] at he
          rw [hframe, List.singleton_append] at h ⊢
          rw [List.cons_append] at h
          rcases h.free_page (hone _ m hm) with ⟨p, hp, hinv, hkeep⟩
          have htl : page_group t ∈ (List.range' (j + 1) n).flatMap (frame_at map i) ++ live :=
            List.mem_append_right _ ht
          have hnext := ih (j + 1) (by omega) hinv fun k hk => by
            rw [word_of_live hkeep htl hk]
            exact hentry k hk
          rw [destroy_ptes, if_pos (flag_eq_true.1 he.present), he.page, List.map_cons,
            free_pages_cons, hp, Option.bind_some, ← hnext]
          simp only [Option.bind_eq_bind, Option.bind_some, hp]

theorem held_at_none {i : Nat} (ht : pt i = none) (hm : ∀ j, j < 1024 → map (page_at i j) = none) :
    held_at pt map i = [] := by
  have hframes : (List.range 1024).flatMap (frame_at map i) = [] := by
    rw [List.flatMap_eq_nil_iff]
    intro j hj
    rw [frame_at, hm j (List.mem_range.1 hj)]
    rfl
  rw [held_at, hframes, table_at, ht]
  rfl

/-- The outer loop frees what each entry of the directory holds. -/
theorem destroy_pdes_eq (hone : ∀ p m, map p = some m → m.frame.page_cnt = 1)
    (hpd : page_group pd ∈ live) (hunmapped : ∀ i, i < 768 → pt i = none → ∀ j, j < 1024 →
      map (page_at i j) = none) (n i : Nat) (hi : i + n ≤ 768)
    (h : PallocInv ram ⟨s, (List.range' i n).flatMap (held_at pt map) ++ live⟩)
    (hpde : ∀ k, i ≤ k → k < i + n → DirEntryOf (word_at s.mem (pd + 4 * k)) (pt k))
    (hpte : ∀ k, i ≤ k → k < i + n → ∀ t, pt k = some t → ∀ j, j < 1024 →
      EntryOf (word_at s.mem (t + 4 * j)) (map (page_at k j))) :
    destroy_pdes pd i n s =
      free_pages s (((List.range' i n).flatMap (held_at pt map)).map Group.pages) := by
  induction n generalizing i s with
  | zero => rfl
  | succ n ih =>
      rw [List.range'_succ, List.flatMap_cons] at h ⊢
      have he := hpde i (Nat.le_refl i) (by omega)
      cases ht : pt i with
      | none =>
          have hzero : ¬ word_at s.mem (pd + 4 * i) &&& PTE_P ≠ 0 := by
            rw [ht, DirEntryOf] at he
            rw [he]
            decide
          rw [held_at_none ht (hunmapped i (by omega) ht), List.nil_append] at h ⊢
          rw [destroy_pdes, if_neg hzero]
          exact ih (i + 1) (by omega) h (fun k hlo hhi => hpde k (by omega) (by omega))
            (fun k hlo hhi => hpte k (by omega) (by omega))
      | some t =>
          rw [ht, DirEntryOf] at he
          set frames := (List.range 1024).flatMap (frame_at map i) with hframes
          set rest := (List.range' (i + 1) n).flatMap (held_at pt map) with hrest
          have hheld : held_at pt map i = frames ++ [page_group t] := by
            rw [held_at, table_at, ht]
            rfl
          have hlist : held_at pt map i ++ rest ++ live =
              frames ++ (page_group t :: (rest ++ live)) := by
            rw [hheld]
            simp only [List.append_assoc, List.cons_append, List.nil_append]
          rw [hlist] at h
          have hframes1 : ∀ g ∈ frames, g.page_cnt = 1 := by
            intro g hg
            rcases List.mem_flatMap.1 hg with ⟨j, _, hg⟩
            rw [frame_at, Option.mem_toList, Option.map_eq_some_iff] at hg
            rcases hg with ⟨m, hm, rfl⟩
            exact hone _ m hm
          have hloop : destroy_ptes t 0 (PGSIZE / 4) s = free_pages s (frames.map Group.pages) := by
            have hrange : frames = (List.range' 0 1024).flatMap (frame_at map i) := by
              rw [hframes, List.range_eq_range']
            rw [hrange] at h ⊢
            exact destroy_ptes_eq hone List.mem_cons_self 1024 0 (by omega) h
              (hpte i (Nat.le_refl i) (by omega) t ht)
          rcases h.free_pages hframes1 with ⟨p, hp, hinv, hkeep⟩
          rcases hinv.free_page rfl with ⟨p', hp', hinv', hkeep'⟩
          -- the rest of the directory is not touched by what was freed
          have hsame : ∀ g ∈ rest ++ live, ∀ q ∈ g.bytes, p'.mem q = s.mem q := by
            intro g hg q hq
            exact (hkeep' g hg q hq).trans (hkeep g (List.mem_cons_of_mem _ hg) q hq)
          have hnext := ih (i + 1) (by omega) hinv'
            (fun k hlo hhi => by
              rw [word_of_live hsame (List.mem_append_right _ hpd) (by omega)]
              exact hpde k (by omega) (by omega))
            (fun k hlo hhi t' ht' j hj => by
              have hin : page_group t' ∈ rest := by
                refine List.mem_flatMap.2 ⟨k, List.mem_range'_1.2 ⟨hlo, hhi⟩, ?_⟩
                rw [held_at, table_at, ht']
                exact List.mem_append_right _ (List.mem_singleton.2 rfl)
              rw [word_of_live hsame (List.mem_append_left _ hin) hj]
              exact hpte k (by omega) (by omega) t' ht' j hj)
          rw [destroy_pdes, if_pos (flag_eq_true.1 he.present), he.table]
          simp only [Option.bind_eq_bind, Option.bind_some]
          rw [hloop, hp, Option.bind_some, hheld, List.map_append, List.map_append,
            free_pages_append, free_pages_append, hp, Option.bind_some]
          have hp'' : palloc_free_page p t = some p' := hp'
          rw [hp'', Option.bind_some, List.map_singleton, free_pages_cons]
          have hname : (page_group t).pages = t := rfl
          rw [hname, hp'', Option.bind_some, free_pages_nil, Option.bind_some]
          exact hnext

/-- `pagedir_destroy` frees what the directory holds, page after page. -/
theorem pagedir_destroy_eq {init_page_dir : Nat}
    (h : PallocInv ram ⟨s, dir_groups pd pt map ++ live⟩) (hpd : pd ≠ NULL)
    (hinit : pd ≠ init_page_dir) (hd : IsDir s.mem pd pt map kernel)
    (hone : ∀ p m, map p = some m → m.frame.page_cnt = 1) :
    pagedir_destroy s init_page_dir pd =
      free_pages s ((dir_groups pd pt map).map Group.pages) := by
  have hlist : dir_groups pd pt map =
      (List.range' 0 768).flatMap (held_at pt map) ++ [page_group pd] := by
    rw [dir_groups, if_neg hpd, List.range_eq_range']
  rw [hlist, List.append_assoc] at h
  have hheld1 : ∀ g ∈ (List.range' 0 768).flatMap (held_at pt map), g.page_cnt = 1 := by
    intro g hg
    have hmem : g ∈ dir_groups pd pt map := by
      rw [hlist]
      exact List.mem_append_left _ hg
    rcases mem_dir_groups.1 hmem with ⟨_, _, m, _, _, hm, rfl⟩ | ⟨_, _, _, _, rfl⟩ | ⟨_, rfl⟩
    · exact hone _ m hm
    · rfl
    · rfl
  have hloop : destroy_pdes pd 0 768 s =
      free_pages s (((List.range' 0 768).flatMap (held_at pt map)).map Group.pages) :=
    destroy_pdes_eq hone List.mem_cons_self hd.unmapped 768 0 (by omega) h
      (fun k _ hk => hd.pde k (by omega)) (fun k _ hk => hd.pte k (by omega))
  rcases h.free_pages hheld1 with ⟨p, hp, _, _⟩
  have hno : pd_no PHYS_BASE = 768 := rfl
  rw [pagedir_destroy, if_neg hpd, ASSERT_pos hinit, hno, hlist, List.map_append,
    free_pages_append]
  simp only [Option.bind_eq_bind, Option.bind_some]
  rw [hloop, hp, Option.bind_some, Option.bind_some, List.map_singleton, free_pages_cons]
  have hname : (page_group pd).pages = pd := rfl
  rw [hname]
  cases hfree : palloc_free_page p pd <;> rfl

end

end Berk162
