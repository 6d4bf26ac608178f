import Berk162.Threads.MallocSteps

/-!
# MallocCalls — one call of `malloc` or `free` on a good heap

For each function: which of its outcomes is possible, `HeapCore` for the blocks and arenas after
it, and that the arenas it does not touch keep their header.
-/

namespace Berk162

/-! ## What a call leaves alone -/

/-- The arena at `a` has the same owner and the same pages in both heaps. -/
def Heap.Keeps (h h' : Heap) (a : Nat) : Prop :=
  (h'.arenas a).desc = (h.arenas a).desc ∧ (h'.arenas a).pages = (h.arenas a).pages

theorem Heap.Keeps.trans {h h' h'' : Heap} {a : Nat} (h1 : h.Keeps h' a) (h2 : h'.Keeps h'' a) :
    h.Keeps h'' a :=
  ⟨h2.1.trans h1.1, h2.2.trans h1.2⟩

theorem Heap.keeps_of_eq {h h' : Heap} {a : Nat} (he : h'.arenas a = h.arenas a) :
    h.Keeps h' a := by
  unfold Heap.Keeps
  rw [he]
  exact ⟨rfl, rfl⟩

/-- The bytes that a block of the arena at `a` has room for. -/
def Heap.room (h : Heap) (a : Nat) : Nat :=
  match (h.arenas a).desc with
  | some i => ((h.descs.map Desc.shape)[i]?).elim 0 Prod.fst
  | none => PGSIZE * (h.arenas a).pages - sizeof_arena

theorem Heap.room_of_keeps {h h' : Heap} {a : Nat} (hk : h.Keeps h' a)
    (hshape : h'.descs.map Desc.shape = h.descs.map Desc.shape) : h'.room a = h.room a := by
  unfold Heap.room
  rw [hk.1, hk.2, hshape]

namespace HeapCore

variable {ram : Nat} {h : Heap} {live as : List Nat} {others : List Group}

theorem room_small (_ : HeapCore ram h live as others) {a i : Nat} {d : Desc}
    (hdesc : (h.arenas a).desc = some i) (hd : h.descs[i]? = some d) :
    h.room a = d.block_size := by
  simp [Heap.room, hdesc, hd, Desc.shape]

/-- Blocks of an arena whose owner did not change are the same blocks. -/
theorem isBlock_of_keeps (hc : HeapCore ram h live as others) {h' : Heap} {live' as' : List Nat}
    {others' : List Group} (hc' : HeapCore ram h' live' as' others') {a : Nat} (hk : h.Keeps h' a)
    (x : Nat) : h'.IsBlock a x ↔ h.IsBlock a x := by
  have hshape : h'.descs.map Desc.shape = h.descs.map Desc.shape := hc'.shape.trans hc.shape.symm
  have hdir : ∀ g g' : Heap, g'.descs.map Desc.shape = g.descs.map Desc.shape →
      (g'.arenas a).desc = (g.arenas a).desc → g.IsBlock a x → g'.IsBlock a x := by
    intro g g' hs hdesc hx
    unfold Heap.IsBlock at hx ⊢
    rw [hdesc]
    cases hg : (g.arenas a).desc with
    | none =>
        simpa only [hg] using hx
    | some i =>
        simp only [hg] at hx
        rcases hx with ⟨d, idx, hd, hidx, hx⟩
        have hi : (g'.descs.map Desc.shape)[i]? = some d.shape := by
          rw [hs, List.getElem?_map, hd, Option.map_some]
        rw [List.getElem?_map, Option.map_eq_some_iff] at hi
        rcases hi with ⟨d', hd', hsh⟩
        simp only [Desc.shape, Prod.mk.injEq] at hsh
        exact ⟨d', idx, hd', hsh.2.symm ▸ hidx, hsh.1.symm ▸ hx⟩
  exact ⟨hdir h' h hshape.symm hk.1.symm, hdir h h' hshape hk.1⟩

/-- An arena lies in RAM. -/
theorem end_lt (hc : HeapCore ram h live as others) {a : Nat} (ha : a ∈ as) :
    a + PGSIZE * (h.arenas a).pages < WORD := by
  have hin := hc.pages.in_pool (List.mem_append_left others (List.mem_map_of_mem ha))
  have hend := hc.pages.wf.end_le .kernel
  have hram := hc.pages.wf.ram_lt
  simp only [Heap.arenaGroup] at hin hend
  omega

theorem pages_pos (hc : HeapCore ram h live as others) {a : Nat} (ha : a ∈ as) :
    1 ≤ (h.arenas a).pages :=
  (hc.inside ha).pos

/-- A block with its room lies in its arena, after the header. -/
theorem block_inside (hc : HeapCore ram h live as others) {a x : Nat} (ha : a ∈ as)
    (hx : h.IsBlock a x) :
    a + sizeof_arena ≤ x ∧ x + h.room a ≤ a + PGSIZE * (h.arenas a).pages := by
  cases hdesc : (h.arenas a).desc with
  | none =>
      have hpos := hc.pages_pos ha
      simp only [Heap.IsBlock, hdesc] at hx
      simp only [Heap.room, hdesc, hx]
      rw [PGSIZE_eq, sizeof_arena] at *
      omega
  | some i =>
      simp only [Heap.IsBlock, hdesc] at hx
      rcases hx with ⟨d, idx, hd, hidx, rfl⟩
      have hend := block_end_le (hc.fits hd) hidx
      have hpages : (h.arenas a).pages = 1 := by
        simp only [Arena.pages, hdesc]
      rw [hc.room_small hdesc hd, block_at, hpages]
      omega

/-- The code's `block_size` is the room of the block's arena. -/
theorem block_size_eq (hc : HeapCore ram h live as others) {a x : Nat} (ha : a ∈ as)
    (hx : h.IsBlock a x) : block_size h x = some (h.room a) := by
  have hend := hc.end_lt ha
  have hpos := hc.pages_pos ha
  rw [block_size, hc.block_to_arena_eq ha hx, Option.bind_eq_bind, Option.bind_some]
  cases hdesc : (h.arenas a).desc with
  | none =>
      simp only [Heap.IsBlock, hdesc] at hx
      simp only [Arena.pages, hdesc] at hend hpos
      subst hx
      have hsub : sizeof_arena ≤ PGSIZE * (h.arenas a).free_cnt := by
        rw [PGSIZE_eq, sizeof_arena]
        omega
      simp only [pg_ofs_big (hc.aligned ha), Heap.room, hdesc, Arena.pages]
      rw [size_mul_eq (by omega), size_sub_eq hsub (by omega)]
      rfl
  | some i =>
      rcases hc.desc_lt a ha i hdesc with ⟨d, hd⟩
      rw [hc.room_small hdesc hd]
      simp [hd]

/-- The bytes of a block are bytes of its arena. -/
theorem block_bytes (hc : HeapCore ram h live as others) {a x : Nat} (ha : a ∈ as)
    (hx : h.IsBlock a x) (q : Nat) (hq : q ∈ (⟨x, h.room a⟩ : Extent)) :
    q ∈ (h.arenaGroup a).bytes := by
  have hin := hc.block_inside ha hx
  rw [Extent.mem_def] at hq ⊢
  simp only [Heap.arenaGroup, Group.bytes] at hq ⊢
  omega

/-- Different arenas do not overlap. -/
theorem arenas_disjoint (hc : HeapCore ram h live as others) {a a' : Nat} (ha : a ∈ as)
    (ha' : a' ∈ as) (hne : a ≠ a') :
    Extent.Disjoint (h.arenaGroup a).bytes (h.arenaGroup a').bytes := by
  have hmem : ∀ b ∈ as, (h.arenaGroup b).bytes ∈
      (as.map h.arenaGroup ++ others).map Group.bytes := by
    intro b hb
    exact List.mem_map_of_mem (List.mem_append_left _ (List.mem_map_of_mem hb))
  refine hc.pages.bytes_disjoint.forall (hmem a ha) (hmem a' ha') ?_
  intro heq
  exact hne (congrArg Extent.start heq)

/-- Different blocks do not overlap. -/
theorem blocks_disjoint (hc : HeapCore ram h live as others) {a a' x x' : Nat} (ha : a ∈ as)
    (ha' : a' ∈ as) (hx : h.IsBlock a x) (hx' : h.IsBlock a' x') (hne : x ≠ x') :
    Extent.Disjoint ⟨x, h.room a⟩ ⟨x', h.room a'⟩ := by
  by_cases haa : a = a'
  · subst haa
    cases hdesc : (h.arenas a).desc with
    | none =>
        simp only [Heap.IsBlock, hdesc] at hx hx'
        exact absurd (hx.trans hx'.symm) hne
    | some i =>
        simp only [Heap.IsBlock, hdesc] at hx hx'
        rcases hx with ⟨d, j, hd, _, rfl⟩
        rcases hx' with ⟨d', k, hd', _, rfl⟩
        rw [hd, Option.some.injEq] at hd'
        subst hd'
        rw [hc.room_small hdesc hd]
        -- the block with the smaller index ends where the next one starts, or before
        rcases Nat.lt_trichotomy j k with hjk | rfl | hkj
        · refine Extent.disjoint_of_le ?_
          have hmul : (j + 1) * d.block_size ≤ k * d.block_size := Nat.mul_le_mul_right _ hjk
          rw [Nat.add_mul, Nat.one_mul] at hmul
          simp only [block_at]
          omega
        · exact absurd rfl hne
        · refine (Extent.disjoint_of_le ?_).symm
          have hmul : (k + 1) * d.block_size ≤ j * d.block_size := Nat.mul_le_mul_right _ hkj
          rw [Nat.add_mul, Nat.one_mul] at hmul
          simp only [block_at]
          omega
  · -- blocks of different arenas lie in different page groups
    exact (hc.arenas_disjoint ha ha' haa).mono (hc.block_bytes ha hx) (hc.block_bytes ha' hx')

theorem cnt_lt (hc : HeapCore ram h live as others) {a i : Nat} {d : Desc} (ha : a ∈ as)
    (hdesc : (h.arenas a).desc = some i) (hd : h.descs[i]? = some d) :
    (h.arenas a).free_cnt + 1 < WORD := by
  have hcnt := hc.free_cnt a ha i d hdesc hd
  have hle : (freeBlocks d a live).card ≤ d.blocks_per_arena := card_freeBlocks_le
  have hfits := (hc.fits hd).fits
  have hpos := (hc.fits hd).size_pos
  have hmul : d.blocks_per_arena ≤ d.blocks_per_arena * d.block_size := Nat.le_mul_of_pos_right _ hpos
  rw [PGSIZE_eq] at hfits
  rw [WORD_eq]
  omega

/-! ## `malloc` -/

/-- `pop_block` hands out the first block of the free list. -/
theorem pop_block_spec (hc : HeapCore ram h live as others) {i b : Nat} {d : Desc} {l : List Nat}
    (hd : h.descs[i]? = some d) (hl : d.free_list = b :: l) :
    ∃ h' a, pop_block h i = some (h', b) ∧ a ∈ as ∧ (h.arenas a).desc = some i ∧ h.IsBlock a b ∧
      HeapCore ram h' (b :: live) as others ∧ ∀ a', h.Keeps h' a' := by
  have hmem : b ∈ d.free_list := by
    rw [hl]
    exact List.mem_cons_self
  rcases (hc.mem_free i d hd b).1 hmem with ⟨a, ha, hdesc, hb, hnot⟩
  have hblock := hb
  simp only [Heap.IsBlock, hdesc] at hblock
  rcases hblock with ⟨d', idx, hd', hidx, hx⟩
  rw [hd, Option.some.injEq] at hd'
  subst hd'
  have hcnt := hc.free_cnt a ha i d hdesc hd
  have hcard := card_freeBlocks_cons (hc.fits hd) hidx hx hnot
  have hlt := hc.cnt_lt ha hdesc hd
  have hsub : size_sub (h.arenas a).free_cnt 1 = (freeBlocks d a (b :: live)).card := by
    rw [size_sub_eq (by omega) (by omega), hcnt, hcard]
    omega
  have hnodup := hc.free_nodup i d hd
  rw [hl, List.nodup_cons] at hnodup
  have hto : block_to_arena (h.setFreeList i l) b = some a := by
    refine block_to_arena_small (hc.round_down ha hb) (hc.arena_pos ha) (hc.magic a ha) hdesc
      (Heap.setFreeList_self h hd l) ?_
    rw [hx]
    exact size_sub_ofs_block (hc.aligned ha) (hc.fits hd) hidx
  refine ⟨(h.setFreeList i l).setArena a ⟨(h.arenas a).magic, (h.arenas a).desc,
    size_sub (h.arenas a).free_cnt 1⟩, a, ?_, ha, hdesc, hb, ?_, ?_⟩
  · rw [pop_block, hd, Option.bind_eq_bind, Option.bind_some]
    simp only [hl, hto, Option.bind_eq_bind, Option.bind_some, Heap.setFreeList_arenas,
      Option.pure_def]
  · refine hc.change ha hdesc hd hb (List.nodup_cons.2 ⟨hnot, hc.live_nodup⟩) ?_ hnodup.2 ?_ hsub
    · intro x hx
      rw [List.mem_cons, or_iff_right hx]
    · intro x
      rw [hl, List.mem_cons]
      constructor
      · intro hxl
        refine Or.inl ⟨Or.inr hxl, ?_⟩
        rintro rfl
        exact hnodup.1 hxl
      · rintro (⟨hx | hx, hne⟩ | ⟨_, hnot'⟩)
        · exact absurd hx hne
        · exact hx
        · exact absurd List.mem_cons_self hnot'
  · intro a'
    by_cases haa : a' = a
    · subst haa
      simp [Heap.Keeps, Arena.pages, hdesc]
    · exact Heap.keeps_of_eq (by rw [Heap.setArena_of_ne _ _ haa, Heap.setFreeList_arenas])

/-- A new arena for descriptor `i`, if the kernel pool has a page left. -/
theorem new_arena_spec (hc : HeapCore ram h live as others) {i : Nat} {d : Desc}
    (hd : h.descs[i]? = some d) (hempty : d.free_list = []) :
    (¬ h.palloc.HasRun .kernel 1 ∧ new_arena h i d = some (h, false)) ∨
      (h.palloc.HasRun .kernel 1 ∧ ∃ h' a b l d', new_arena h i d = some (h', true) ∧
        HeapCore ram h' live (a :: as) others ∧ h'.descs[i]? = some d' ∧
        d'.free_list = b :: l ∧ ∀ a' ∈ as, h.Keeps h' a') := by
  rcases hc.pages.get_cases 0 (Nat.le_refl 1) with ⟨hrun, p, a, hcall, hnull, hinv⟩ | ⟨hno, hcall⟩
  · refine Or.inr ⟨hrun, ?_⟩
    have hcore := hc.add_arena hd hempty hinv
    have hfits := hc.fits hd
    set h₁ := (h.setPalloc p).setArena a ⟨ARENA_MAGIC, some i, d.blocks_per_arena⟩ with hh₁
    set l := (List.range d.blocks_per_arena).map (block_at a d.block_size) with hl
    -- the blocks are pushed with the arena's header in place and the free list still empty
    have hblocks : ∀ j, j < d.blocks_per_arena →
        arena_to_block h₁ a j = some (block_at a d.block_size j) := by
      intro j hj
      have hd₁ : h₁.descs[i]? = some d := by simpa [hh₁] using hd
      have hself : h₁.arenas a = ⟨ARENA_MAGIC, some i, d.blocks_per_arena⟩ := by simp [hh₁]
      simp [arena_to_block, hself, hd₁, hnull, hj, block_at]
    have hpush : push_blocks h₁ a 0 d.blocks_per_arena d.free_list = some l := by
      rw [push_blocks_eq hblocks d.blocks_per_arena 0 _ (by omega), hempty, List.nil_append, hl,
        List.range_eq_range']
    have hlist : ∃ b l', l = b :: l' := by
      refine List.exists_cons_of_ne_nil ?_
      rw [hl, ne_eq, List.map_eq_nil_iff, List.range_eq_nil]
      exact Nat.pos_iff_ne_zero.1 hfits.blocks_pos
    rcases hlist with ⟨b, l', hbl⟩
    refine ⟨h₁.setFreeList i l, a, b, l', { d with free_list := l }, ?_, hcore,
      Heap.setFreeList_self _ (by simpa [hh₁] using hd) l, hbl, ?_⟩
    · have hget : palloc_get_page h.palloc 0 = some (p, a) := by
        rw [palloc_get_page, hcall]
      rw [new_arena, hget, Option.bind_eq_bind, Option.bind_some]
      simp only [if_neg hnull]
      rw [← hh₁, hpush, Option.bind_eq_bind, Option.bind_some, Option.pure_def]
    · intro a' ha'
      have hne : a' ≠ a := fun he => fresh hinv (he ▸ ha')
      exact Heap.keeps_of_eq (by
        rw [Heap.setFreeList_arenas, hh₁, Heap.setArena_of_ne _ _ hne, Heap.setPalloc_arenas])
  · refine Or.inl ⟨hno, ?_⟩
    have hget : palloc_get_page h.palloc 0 = some (h.palloc, NULL) := by
      rw [palloc_get_page, hcall, if_neg (by decide)]
    rw [new_arena, hget, Option.bind_eq_bind, Option.bind_some]
    simp only [if_true, Option.pure_def, Heap.setPalloc_self]

end HeapCore

/-- The number of pages that `malloc` asks for when `size` is too big for every descriptor. -/
def big_pages (size : Nat) : Nat := DIV_ROUND_UP (size_add size sizeof_arena) PGSIZE

/-- The descriptor that `malloc` picks for `size`. -/
def Heap.descFor (h : Heap) (size : Nat) : Option Nat :=
  h.descs.findIdx? fun d => decide (d.block_size ≥ size)

/-- What `malloc` needs to be able to serve a request: a free block of the right size, or free
pages in the kernel pool. -/
def Heap.CanServe (h : Heap) (size : Nat) : Prop :=
  size ≠ 0 ∧
    match h.descFor size with
    | some i => (∃ d, h.descs[i]? = some d ∧ d.free_list ≠ []) ∨ h.palloc.HasRun .kernel 1
    | none => 1 ≤ big_pages size ∧ h.palloc.HasRun .kernel (big_pages size)

/-- `malloc` has served a request for `size` bytes with the block `x` of the arena at `a`. -/
structure Served (ram : Nat) (h : Heap) (live as : List Nat) (others : List Group) (size : Nat)
    (h' : Heap) (x a : Nat) (as' : List Nat) : Prop where
  core : HeapCore ram h' (x :: live) as' others
  mem : a ∈ as'
  block : h'.IsBlock a x
  sub : ∀ a' ∈ as, a' ∈ as'
  old : ∀ a' ∈ as', a' = a ∨ a' ∈ as
  keeps : ∀ a' ∈ as, h.Keeps h' a'
  small : ∀ i, h.descFor size = some i → size ≤ h'.room a
  big : h.descFor size = none → h'.room a = PGSIZE * big_pages size - sizeof_arena

namespace HeapCore

variable {ram : Nat} {h : Heap} {live as : List Nat} {others : List Group}

/-- The descriptor picked for a request has blocks that are big enough. -/
theorem descFor_some (_ : HeapCore ram h live as others) {size i : Nat}
    (hi : h.descFor size = some i) : ∃ d, h.descs[i]? = some d ∧ size ≤ d.block_size := by
  rcases List.findIdx?_eq_some_iff_getElem.1 hi with ⟨hlt, hp, _⟩
  exact ⟨h.descs[i], List.getElem?_eq_getElem hlt, by simpa using hp⟩

/-- The descriptors differ only in their free lists, so the choice depends on the size alone. -/
theorem descFor_isNone (hc : HeapCore ram h live as others) (size : Nat) :
    h.descFor size = none ↔ 1024 < size := by
  have hall : (∀ d ∈ h.descs, d.block_size < size) ↔ ∀ s ∈ desc_shapes, s.1 < size := by
    rw [← hc.shape, List.forall_mem_map]
    rfl
  rw [Heap.descFor, List.findIdx?_eq_none_iff]
  simp only [ge_iff_le, decide_eq_false_iff_not, not_le]
  rw [hall]
  simp only [desc_shapes, List.mem_cons, List.not_mem_nil, or_false, forall_eq_or_imp, forall_eq]
  omega

/-- `malloc` serves a request with a block popped from the free list of descriptor `i`, from an
arena it had or from the one it has just added. -/
theorem served_of_pop (hc : HeapCore ram h live as others) {size i : Nat} {d : Desc}
    (hd : h.descs[i]? = some d) (hle : size ≤ d.block_size) (hfor : h.descFor size = some i)
    {h₁ : Heap} {as₁ : List Nat} (hc₁ : HeapCore ram h₁ live as₁ others)
    (hsub : ∀ a ∈ as, a ∈ as₁) (hkeep₁ : ∀ a ∈ as, h.Keeps h₁ a)
    (hnew : as₁ = as ∨ ∃ a₁, as₁ = a₁ :: as ∧ d.free_list = []) {b : Nat} {d₁ : Desc}
    {l : List Nat} (hd₁ : h₁.descs[i]? = some d₁) (hl : d₁.free_list = b :: l) :
    ∃ h' x a as', pop_block h₁ i = some (h', x) ∧ Served ram h live as others size h' x a as' := by
  rcases hc₁.pop_block_spec hd₁ hl with ⟨h', a, hpop, ha, hdesc, hb, hcore, hkeep⟩
  have hnot : b ∉ live := (List.nodup_cons.1 hcore.live_nodup).1
  refine ⟨h', b, a, as₁, hpop, hcore, ha, (hc₁.isBlock_of_keeps hcore (hkeep a) b).2 hb, hsub, ?_,
    fun a' ha' => (hkeep₁ a' ha').trans (hkeep a'), ?_, ?_⟩
  · intro a' ha'
    rcases hnew with rfl | ⟨a₁, rfl, hempty⟩
    · exact Or.inr ha'
    · -- the old arenas had no free block left, so `b` comes from the new one
      rcases List.mem_cons.1 ha with rfl | haold
      · exact List.mem_cons.1 ha'
      · have hmem : b ∈ d.free_list := by
          rw [hc.mem_free i d hd]
          exact ⟨a, haold, (hkeep₁ a haold).1 ▸ hdesc,
            (hc.isBlock_of_keeps hc₁ (hkeep₁ a haold) b).1 hb, hnot⟩
        rw [hempty] at hmem
        cases hmem
  · intro i' hi'
    rw [hfor, Option.some.injEq] at hi'
    subst hi'
    have hshape : h'.descs.map Desc.shape = h.descs.map Desc.shape :=
      hcore.shape.trans hc.shape.symm
    simp only [Heap.room, (hkeep a).1, hdesc, hshape, List.getElem?_map, hd, Option.map_some,
      Option.elim_some, Desc.shape]
    exact hle
  · intro hnone
    rw [hfor] at hnone
    cases hnone

theorem malloc_big_spec (hc : HeapCore ram h live as others) {size : Nat} (hsize : size ≠ 0)
    (hd : h.descFor size = none) :
    (¬ h.CanServe size ∧ malloc h size = some (h, NULL)) ∨
      (h.CanServe size ∧ ∃ h' x a as', malloc h size = some (h', x) ∧
        Served ram h live as others size h' x a as') := by
  have hmalloc : malloc h size = malloc_big h size := by
    have hfind : h.descs.findIdx? (fun d => decide (d.block_size ≥ size)) = none := hd
    rw [malloc, if_neg hsize, hfind]
  have hserve : h.CanServe size ↔ 1 ≤ big_pages size ∧ h.palloc.HasRun .kernel (big_pages size) := by
    rw [Heap.CanServe, hd]
    simp only [ne_eq, hsize, not_false_eq_true, true_and]
  have hbig : malloc_big h size =
      (palloc_get_multiple h.palloc 0 (big_pages size)).bind fun r =>
        if r.2 = NULL then some (h.setPalloc r.1, NULL)
        else some ((h.setPalloc r.1).setArena r.2 ⟨ARENA_MAGIC, none, big_pages size⟩,
          r.2 + sizeof_arena) := rfl
  rw [hmalloc, hserve, hbig]
  by_cases hpos : 1 ≤ big_pages size
  · rcases hc.pages.get_cases 0 hpos with ⟨hrun, p, a, hcall, hnull, hinv⟩ | ⟨hno, hcall⟩
    · refine Or.inr ⟨⟨hpos, hrun⟩, ?_⟩
      set h' := (h.setPalloc p).setArena a ⟨ARENA_MAGIC, none, big_pages size⟩ with hh'
      have hnew : h'.arenas a = ⟨ARENA_MAGIC, none, big_pages size⟩ := by simp [hh']
      refine ⟨h', a + sizeof_arena, a, a :: as, ?_, ?_⟩
      · rw [hcall, Option.bind_some]
        simp only [if_neg hnull]
        rw [← hh']
      · refine ⟨hc.add_big hinv, List.mem_cons_self, ?_, ?_, ?_, ?_, ?_, ?_⟩
        · simp only [Heap.IsBlock, hnew]
        · exact fun a' ha' => List.mem_cons_of_mem _ ha'
        · exact fun a' ha' => List.mem_cons.1 ha'
        · intro a' ha'
          have hne : a' ≠ a := fun he => fresh hinv (he ▸ ha')
          exact Heap.keeps_of_eq (by rw [hh', Heap.setArena_of_ne _ _ hne, Heap.setPalloc_arenas])
        · intro i hi
          rw [hd] at hi
          cases hi
        · intro _
          simp only [Heap.room, hnew, Arena.pages]
    · refine Or.inl ⟨fun hs => hno hs.2, ?_⟩
      rw [hcall, if_neg (by decide), Option.bind_some]
      simp only [if_true, Heap.setPalloc_self]
  · refine Or.inl ⟨fun hs => hpos hs.1, ?_⟩
    have hzero : big_pages size = 0 := by omega
    have hcall : palloc_get_multiple h.palloc 0 0 = some (h.palloc, NULL) := by
      rw [palloc_get_multiple]
      rfl
    rw [hzero, hcall, Option.bind_some]
    simp only [if_true, Heap.setPalloc_self]

theorem malloc_small_spec (hc : HeapCore ram h live as others) {size i : Nat} (hsize : size ≠ 0)
    (hd : h.descFor size = some i) :
    (¬ h.CanServe size ∧ malloc h size = some (h, NULL)) ∨
      (h.CanServe size ∧ ∃ h' x a as', malloc h size = some (h', x) ∧
        Served ram h live as others size h' x a as') := by
  rcases hc.descFor_some hd with ⟨d, hdi, hle⟩
  have hmalloc : malloc h size = if d.free_list = [] then
      (new_arena h i d).bind fun r => if r.2 then pop_block r.1 i else some (r.1, NULL)
      else pop_block h i := by
    have hfind : h.descs.findIdx? (fun d => decide (d.block_size ≥ size)) = some i := hd
    rw [malloc, if_neg hsize, hfind]
    simp only [hdi, Option.bind_eq_bind, Option.bind_some]
    rfl
  have hserve : h.CanServe size ↔ d.free_list ≠ [] ∨ h.palloc.HasRun .kernel 1 := by
    rw [Heap.CanServe, hd]
    simp only [hdi, Option.some.injEq, exists_eq_left', ne_eq, hsize, not_false_eq_true, true_and]
  rw [hmalloc, hserve]
  by_cases hempty : d.free_list = []
  · rw [if_pos hempty]
    rcases hc.new_arena_spec hdi hempty with ⟨hno, hcall⟩ |
      ⟨hrun, h₁, a₁, b, l, d', hcall, hcore, hd', hl, hkeep⟩
    · refine Or.inl ⟨fun hs => hs.elim (fun hne => hne hempty) hno, ?_⟩
      rw [hcall, Option.bind_some]
      rfl
    · refine Or.inr ⟨Or.inr hrun, ?_⟩
      rw [hcall, Option.bind_some]
      exact hc.served_of_pop hdi hle hd hcore (fun a' ha' => List.mem_cons_of_mem _ ha') hkeep
        (Or.inr ⟨a₁, rfl, hempty⟩) hd' hl
  · rw [if_neg hempty]
    refine Or.inr ⟨Or.inl hempty, ?_⟩
    rcases List.exists_cons_of_ne_nil hempty with ⟨b, l, hl⟩
    exact hc.served_of_pop hdi hle hd hc (fun a' ha' => ha') (fun a' _ => ⟨rfl, rfl⟩)
      (Or.inl rfl) hdi hl

/-- `malloc` on a good heap never panics: it serves the request if it can, and otherwise changes
nothing. -/
theorem malloc_spec (hc : HeapCore ram h live as others) (size : Nat) :
    (¬ h.CanServe size ∧ malloc h size = some (h, NULL)) ∨
      (h.CanServe size ∧ ∃ h' x a as', malloc h size = some (h', x) ∧
        Served ram h live as others size h' x a as') := by
  by_cases hsize : size = 0
  · refine Or.inl ⟨fun hs => hs.1 hsize, ?_⟩
    rw [malloc, if_pos hsize]
  · cases hd : h.descFor size with
    | none =>
        exact hc.malloc_big_spec hsize hd
    | some i =>
        exact hc.malloc_small_spec hsize hd

end HeapCore

/-! ## `free` -/

/-- `free` has taken the block `x` back. -/
structure Freed (ram : Nat) (h : Heap) (live as : List Nat) (others : List Group) (x : Nat)
    (h' : Heap) (as' : List Nat) : Prop where
  core : HeapCore ram h' (live.erase x) as' others
  keeps : ∀ a ∈ as', a ∈ as ∧ h.Keeps h' a
  shared : (∃ y ∈ live, y ≠ x ∧ pg_round_down y = pg_round_down x) →
    as' = as ∧ ∃ mem, h'.palloc = h.palloc.withMem mem
  last : (∀ y ∈ live, y ≠ x → pg_round_down y ≠ pg_round_down x) →
    as' = as.erase (pg_round_down x) ∧ ∃ mem, palloc_free_multiple (h.palloc.withMem mem)
      (pg_round_down x) (h.arenas (pg_round_down x)).pages = some h'.palloc

namespace HeapCore

variable {ram : Nat} {h : Heap} {live as : List Nat} {others : List Group}

/-- The pages of an arena can be freed. -/
theorem free_pages (hc : HeapCore ram h live as others) {a : Nat} (ha : a ∈ as) :
    ∃ p, palloc_free_multiple h.palloc a (h.arenas a).pages = some p ∧
      PallocInv ram ⟨p, (as.map h.arenaGroup ++ others).erase (h.arenaGroup a)⟩ := by
  have hmem : h.arenaGroup a ∈ as.map h.arenaGroup ++ others :=
    List.mem_append_left _ (List.mem_map_of_mem ha)
  rcases hc.pages.good.free_ok _ hmem with ⟨p, hp⟩
  exact ⟨p, hp, hc.pages.free hmem hp⟩

/-- Blocks of small arenas, by index. -/
theorem isBlock_small (_ : HeapCore ram h live as others) {a i : Nat} {d : Desc}
    (hdesc : (h.arenas a).desc = some i) (hd : h.descs[i]? = some d) (x : Nat) :
    h.IsBlock a x ↔ ∃ idx, idx < d.blocks_per_arena ∧ x = block_at a d.block_size idx := by
  simp only [Heap.IsBlock, hdesc, hd, Option.some.injEq, exists_and_left, exists_eq_left']

/-- Taking back one block of the arena leaves one free block more. -/
theorem card_freeBlocks_erase (hc : HeapCore ram h live as others) {a i b : Nat} {d : Desc}
    (ha : a ∈ as) (hdesc : (h.arenas a).desc = some i) (hd : h.descs[i]? = some d)
    (hb : h.IsBlock a b) (hlive : b ∈ live) :
    size_add (h.arenas a).free_cnt 1 = (freeBlocks d a (live.erase b)).card := by
  rcases (hc.isBlock_small hdesc hd b).1 hb with ⟨idx, hidx, hx⟩
  have hnot : b ∉ live.erase b := fun hm => (hc.live_nodup.mem_erase_iff.1 hm).1 rfl
  have hsame : freeBlocks d a (b :: live.erase b) = freeBlocks d a live :=
    freeBlocks_congr fun j _ => (List.perm_cons_erase hlive).symm.mem_iff
  calc
    size_add (h.arenas a).free_cnt 1
        = (h.arenas a).free_cnt + 1 := size_add_eq (hc.cnt_lt ha hdesc hd)
    _ = (freeBlocks d a live).card + 1 := by rw [hc.free_cnt a ha i d hdesc hd]
    _ = (freeBlocks d a (b :: live.erase b)).card + 1 := by rw [hsame]
    _ = (freeBlocks d a (live.erase b)).card :=
          (card_freeBlocks_cons (hc.fits hd) hidx hx hnot).symm

/-- All blocks of the arena are free after `b` exactly if `b` was the last live one. -/
theorem last_iff (hc : HeapCore ram h live as others) {a i b : Nat} {d : Desc} (ha : a ∈ as)
    (hdesc : (h.arenas a).desc = some i) (hd : h.descs[i]? = some d) (hb : h.IsBlock a b) :
    (freeBlocks d a (live.erase b)).card = d.blocks_per_arena ↔
      ∀ y ∈ live, y ≠ b → pg_round_down y ≠ pg_round_down b := by
  rw [card_freeBlocks_eq_iff, hc.round_down ha hb]
  constructor
  · rintro hall y hy hne hround
    rcases hc.live_block y hy with ⟨a', ha', hblk⟩
    have haa : a' = a := (hc.round_down ha' hblk).symm.trans hround
    subst haa
    rcases (hc.isBlock_small hdesc hd y).1 hblk with ⟨idx, hidx, rfl⟩
    exact hall idx hidx (hc.live_nodup.mem_erase_iff.2 ⟨hne, hy⟩)
  · intro hlast j hj hm
    rcases hc.live_nodup.mem_erase_iff.1 hm with ⟨hne, hy⟩
    exact hlast _ hy hne (pg_round_down_block (hc.aligned ha) (hc.fits hd) hj)

/-- `free` of a block that shares its arena with other live blocks. -/
theorem give_back (hc : HeapCore ram h live as others) {a i b : Nat} {d : Desc} (ha : a ∈ as)
    (hdesc : (h.arenas a).desc = some i) (hd : h.descs[i]? = some d) (hb : h.IsBlock a b)
    (hlive : b ∈ live) :
    HeapCore ram ((h.setFreeList i (b :: d.free_list)).setArena a
        ⟨(h.arenas a).magic, (h.arenas a).desc, size_add (h.arenas a).free_cnt 1⟩)
      (live.erase b) as others := by
  have hnot : b ∉ live.erase b := fun hm => (hc.live_nodup.mem_erase_iff.1 hm).1 rfl
  have hfree : b ∉ d.free_list := by
    intro hm
    rcases (hc.mem_free i d hd b).1 hm with ⟨_, _, _, _, hn⟩
    exact hn hlive
  refine hc.change ha hdesc hd hb (hc.live_nodup.erase b) ?_
    (List.nodup_cons.2 ⟨hfree, hc.free_nodup i d hd⟩) ?_
    (hc.card_freeBlocks_erase ha hdesc hd hb hlive)
  · intro x hx
    rw [hc.live_nodup.mem_erase_iff, and_iff_right hx]
  · intro x
    rw [List.mem_cons]
    constructor
    · rintro (rfl | hx)
      · exact Or.inr ⟨rfl, hnot⟩
      · refine Or.inl ⟨hx, ?_⟩
        rintro rfl
        exact hfree hx
    · rintro (⟨hx, _⟩ | ⟨hx, _⟩)
      · exact Or.inr hx
      · exact Or.inl hx

/-- `free` of the last live block of an arena: the siblings leave the free list and nothing else
does, and the arena is gone. -/
theorem give_up (hc : HeapCore ram h live as others) {a i b : Nat} {d : Desc} (ha : a ∈ as)
    (hdesc : (h.arenas a).desc = some i) (hd : h.descs[i]? = some d) (hb : h.IsBlock a b)
    (hlast : ∀ j, j < d.blocks_per_arena → block_at a d.block_size j ∉ live.erase b)
    {p : Palloc} {r : Arena} {l : List Nat}
    (hpages : PallocInv ram ⟨p, (as.map h.arenaGroup ++ others).erase (h.arenaGroup a)⟩)
    (hnodup : l.Nodup) (hmem : ∀ x, x ∈ l ↔ x ∈ b :: d.free_list ∧
      ∀ j, 0 ≤ j → j < 0 + d.blocks_per_arena → x ≠ block_at a d.block_size j) :
    HeapCore ram (((h.setPalloc p).setArena a r).setFreeList i l) (live.erase b) (as.erase a)
      others := by
  have hblock := hc.isBlock_small hdesc hd
  refine hc.drop_arena ha hpages ?_ ?_ ?_ (hc.live_nodup.erase b) ?_
  · intro a' hne
    rw [Heap.setFreeList_arenas, Heap.setArena_of_ne _ _ hne, Heap.setPalloc_arenas]
  · rw [Heap.setFreeList_shape, Heap.setArena_descs, Heap.setPalloc_descs]
  · intro j d' hd'
    rw [Heap.setFreeList_getElem?, Heap.setArena_descs, Heap.setPalloc_descs] at hd'
    rcases Option.map_eq_some_iff.1 hd' with ⟨d₀, hd₀, rfl⟩
    refine ⟨d₀, hd₀, ?_⟩
    by_cases hij : i = j
    · subst hij
      rw [hd, Option.some.injEq] at hd₀
      subst hd₀
      simp only [if_true]
      refine ⟨rfl, hnodup, fun x => ?_⟩
      rw [hmem x, hblock x, List.mem_cons]
      constructor
      · rintro ⟨hx | hx, hall⟩
        · rcases (hblock b).1 hb with ⟨idx, hidx, hidx'⟩
          exact absurd (hx.trans hidx') (hall idx (Nat.zero_le _) (by omega))
        · refine ⟨hx, ?_⟩
          rintro ⟨idx, hidx, hx'⟩
          exact hall idx (Nat.zero_le _) (by omega) hx'
      · rintro ⟨hx, hnot⟩
        exact ⟨Or.inr hx, fun j _ hj hx' => hnot ⟨j, by omega, hx'⟩⟩
    · simp only [hij, if_false]
      refine ⟨trivial, hc.free_nodup j d₀ hd₀, fun x => ?_⟩
      refine ⟨fun hx => ⟨hx, fun hxa => ?_⟩, fun hx => hx.1⟩
      -- a block on another descriptor's list is in another arena
      rcases (hc.mem_free j d₀ hd₀ x).1 hx with ⟨a', ha', hj, hxa', _⟩
      have haa := hc.block_unique ha' ha hxa' hxa
      subst haa
      rw [hdesc, Option.some.injEq] at hj
      exact hij hj
  · intro x
    rw [hc.live_nodup.mem_erase_iff, hblock x]
    constructor
    · rintro ⟨hne, hx⟩
      refine ⟨hx, ?_⟩
      rintro ⟨idx, hidx, rfl⟩
      exact hlast idx hidx (hc.live_nodup.mem_erase_iff.2 ⟨hne, hx⟩)
    · rintro ⟨hx, hnot⟩
      refine ⟨?_, hx⟩
      rintro rfl
      exact hnot ((hblock x).1 hb)

/-- `free_normal` with its header update written out. -/
theorem free_normal_eq {h₁ : Heap} {a b i n : Nat} {d : Desc} (hd : h.descs[i]? = some d)
    (hn : n = size_add (h.arenas a).free_cnt 1)
    (h₁_eq : h₁ = (h.setMem (memset h.mem b 0xcc d.block_size)).setArena a
      ⟨(h.arenas a).magic, (h.arenas a).desc, n⟩) :
    free_normal h b a i =
      if n ≥ d.blocks_per_arena then
        (ASSERT (n = d.blocks_per_arena)).bind fun _ =>
          (remove_blocks h₁ a 0 d.blocks_per_arena (b :: d.free_list)).bind fun l =>
            (palloc_free_page h₁.palloc a).bind fun p =>
              some (((h₁.setPalloc p).setArena a arena_cc).setFreeList i l)
      else
        some (h₁.setFreeList i (b :: d.free_list)) := by
  subst h₁_eq hn
  rw [free_normal, hd, Option.bind_eq_bind, Option.bind_some]
  simp only [Option.bind_eq_bind, Option.pure_def, Heap.setMem_arenas, Heap.setArena_self]

theorem free_normal_spec (hc : HeapCore ram h live as others) {a b i : Nat} (ha : a ∈ as)
    (hdesc : (h.arenas a).desc = some i) (hb : h.IsBlock a b) (hlive : b ∈ live) :
    ∃ h' as', free_normal h b a i = some h' ∧ Freed ram h live as others b h' as' := by
  rcases hc.desc_lt a ha i hdesc with ⟨d, hd⟩
  have hcard := hc.card_freeBlocks_erase ha hdesc hd hb hlive
  have hround := hc.round_down ha hb
  have hlast := hc.last_iff ha hdesc hd hb
  generalize hn : size_add (h.arenas a).free_cnt 1 = n at hcard
  generalize hm : memset h.mem b 0xcc d.block_size = mem
  have hcm := hc.setMem mem
  set h₁ := (h.setMem mem).setArena a ⟨(h.arenas a).magic, (h.arenas a).desc, n⟩ with hh₁
  have hset : h₁ = (h.setMem (memset h.mem b 0xcc d.block_size)).setArena a
      ⟨(h.arenas a).magic, (h.arenas a).desc, n⟩ := by
    rw [hm]
  rw [free_normal_eq hd hn.symm hset]
  have hle : (freeBlocks d a (live.erase b)).card ≤ d.blocks_per_arena := card_freeBlocks_le
  by_cases hfull : n ≥ d.blocks_per_arena
  · -- `b` was the last live block of the arena
    have hall : (freeBlocks d a (live.erase b)).card = d.blocks_per_arena := by omega
    have hnone := card_freeBlocks_eq_iff.1 hall
    have hfree : ∀ j, j < d.blocks_per_arena → block_at a d.block_size j ∈ b :: d.free_list := by
      intro j hj
      by_cases hjb : block_at a d.block_size j = b
      · rw [hjb]
        exact List.mem_cons_self
      · refine List.mem_cons_of_mem _ ((hc.mem_free i d hd _).2 ⟨a, ha, hdesc, ?_, fun hl => ?_⟩)
        · exact (hc.isBlock_small hdesc hd _).2 ⟨j, hj, rfl⟩
        · exact hnone j hj (hc.live_nodup.mem_erase_iff.2 ⟨hjb, hl⟩)
    have hnodup : (b :: d.free_list).Nodup := by
      refine List.nodup_cons.2 ⟨fun hbl => ?_, hc.free_nodup i d hd⟩
      rcases (hc.mem_free i d hd b).1 hbl with ⟨_, _, _, _, hn'⟩
      exact hn' hlive
    have harena : ∀ j, j < d.blocks_per_arena →
        arena_to_block h₁ a j = some (block_at a d.block_size j) := by
      intro j hj
      have hself : h₁.arenas a = ⟨(h.arenas a).magic, (h.arenas a).desc, n⟩ := by simp [hh₁]
      have hd₁ : h₁.descs[i]? = some d := by simpa [hh₁] using hd
      simp [arena_to_block, hself, hd₁, hdesc, hc.arena_pos ha, hc.magic a ha, hj, block_at]
    rcases remove_blocks_spec harena (fun j k hjk => block_at_injective (hc.fits hd) hjk)
      d.blocks_per_arena 0 (b :: d.free_list) (by omega) hnodup (fun j _ hj => hfree j (by omega))
      with ⟨l, hrem, hlnodup, hlmem⟩
    have hpages : (h.arenas a).pages = 1 := by
      simp only [Arena.pages, hdesc]
    rcases hcm.free_pages ha with ⟨p, hp, hinv⟩
    have hpage : palloc_free_page h₁.palloc a = some p := by
      rw [Heap.setMem_arenas, hpages] at hp
      rw [palloc_free_page, hh₁, Heap.setArena_palloc]
      exact hp
    rw [if_pos hfull, ASSERT_pos (by omega), Option.bind_some, hrem, Option.bind_some, hpage,
      Option.bind_some]
    refine ⟨_, as.erase a, rfl, ?_, ?_, ?_, ?_⟩
    · have hcore := hcm.give_up ha hdesc hd hb hnone (r := arena_cc) hinv hlnodup hlmem
      have heq : (h₁.setPalloc p).setArena a arena_cc =
          ((h.setMem mem).setPalloc p).setArena a arena_cc := by
        simp only [hh₁, Heap.setArena, Heap.setPalloc, Heap.setMem, Function.update_idem]
      rw [heq]
      exact hcore
    · intro a' ha'
      rcases hc.arenas_nodup.mem_erase_iff.1 ha' with ⟨hne, ha'⟩
      refine ⟨ha', Heap.keeps_of_eq ?_⟩
      rw [Heap.setFreeList_arenas, Heap.setArena_of_ne _ _ hne, Heap.setPalloc_arenas, hh₁,
        Heap.setArena_of_ne _ _ hne, Heap.setMem_arenas]
    · rintro ⟨y, hy, hne, hy'⟩
      exact absurd hy' (hlast.1 hall y hy hne)
    · intro _
      rw [hround]
      refine ⟨rfl, mem, ?_⟩
      simpa using hp
  · -- the arena still has a live block
    have hnot : (freeBlocks d a (live.erase b)).card ≠ d.blocks_per_arena := by omega
    rw [if_neg hfull]
    refine ⟨_, as, rfl, ?_, ?_, ?_, ?_⟩
    · have hcore := hcm.give_back ha hdesc hd hb hlive
      rw [Heap.setMem_arenas, hn] at hcore
      exact hcore
    · intro a' ha'
      refine ⟨ha', ?_⟩
      by_cases haa : a' = a
      · subst haa
        simp [Heap.Keeps, hh₁, Arena.pages, hdesc]
      · refine Heap.keeps_of_eq ?_
        rw [Heap.setFreeList_arenas, hh₁, Heap.setArena_of_ne _ _ haa, Heap.setMem_arenas]
    · exact fun _ => ⟨rfl, mem, by simp [hh₁]⟩
    · exact fun hl => absurd (hlast.2 hl) hnot

theorem free_big_spec (hc : HeapCore ram h live as others) {a : Nat} (ha : a ∈ as)
    (hdesc : (h.arenas a).desc = none) :
    ∃ p, palloc_free_multiple h.palloc a (h.arenas a).free_cnt = some p ∧
      Freed ram h live as others (a + sizeof_arena) ((h.setPalloc p).setArena a arena_cc)
        (as.erase a) := by
  rcases hc.free_pages ha with ⟨p, hp, hinv⟩
  have hpages : (h.arenas a).pages = (h.arenas a).free_cnt := by
    simp only [Arena.pages, hdesc]
  have hblock : ∀ x, h.IsBlock a x ↔ x = a + sizeof_arena := by
    intro x
    simp only [Heap.IsBlock, hdesc]
  have hround := hc.round_down ha ((hblock _).2 rfl)
  have hkeep : ∀ a', a' ≠ a → ((h.setPalloc p).setArena a arena_cc).arenas a' = h.arenas a' := by
    intro a' hne
    rw [Heap.setArena_of_ne _ _ hne, Heap.setPalloc_arenas]
  refine ⟨p, hpages ▸ hp, ?_, ?_, ?_, ?_⟩
  · refine hc.drop_arena ha hinv hkeep ?_ ?_ (hc.live_nodup.erase _) ?_
    · rw [Heap.setArena_descs, Heap.setPalloc_descs]
    · intro j d' hd'
      rw [Heap.setArena_descs, Heap.setPalloc_descs] at hd'
      refine ⟨d', hd', rfl, hc.free_nodup j d' hd', fun x => ⟨fun hx => ⟨hx, fun hxa => ?_⟩,
        fun hx => hx.1⟩⟩
      -- blocks on free lists are not live, the block of a big arena is
      rcases (hc.mem_free j d' hd' x).1 hx with ⟨_, _, _, _, hnot⟩
      rw [hblock] at hxa
      subst hxa
      exact hnot (hc.big_live a ha hdesc)
    · intro x
      rw [hc.live_nodup.mem_erase_iff, hblock, and_comm]
  · intro a' ha'
    rcases hc.arenas_nodup.mem_erase_iff.1 ha' with ⟨hne, ha'⟩
    exact ⟨ha', Heap.keeps_of_eq (hkeep a' hne)⟩
  · rintro ⟨y, hy, hne, hy'⟩
    rcases hc.live_block y hy with ⟨a', ha', hb⟩
    have haa : a' = a := (hc.round_down ha' hb).symm.trans (hy'.trans hround)
    subst haa
    exact absurd ((hblock y).1 hb) hne
  · intro _
    rw [hround]
    exact ⟨rfl, h.palloc.mem, by simpa using hp⟩

/-- `free` of a live block never panics. -/
theorem free_spec (hc : HeapCore ram h live as others) {x : Nat} (hx : x ∈ live) :
    ∃ h' as', free h x = some h' ∧ Freed ram h live as others x h' as' := by
  rcases hc.live_block x hx with ⟨a, ha, hb⟩
  have hfree : free h x = match (h.arenas a).desc with
      | some i => free_normal h x a i
      | none => (palloc_free_multiple h.palloc a (h.arenas a).free_cnt).bind fun pa =>
          some ((h.setPalloc pa).setArena a arena_cc) := by
    rw [free, if_pos (hc.block_ne_null ha hb), hc.block_to_arena_eq ha hb, Option.bind_eq_bind,
      Option.bind_some]
    rfl
  rw [hfree]
  cases hdesc : (h.arenas a).desc with
  | some i =>
      exact hc.free_normal_spec ha hdesc hb hx
  | none =>
      rcases hc.free_big_spec ha hdesc with ⟨p, hp, hfreed⟩
      simp only [Heap.IsBlock, hdesc] at hb
      subst hb
      exact ⟨_, _, by rw [hp, Option.bind_some], hfreed⟩

end HeapCore

end Berk162
