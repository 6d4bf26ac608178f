import Berk162.Threads.MallocInv

/-!
# MallocSteps — each function of `malloc.c` keeps the invariant

One lemma for each part of `malloc` and `free`: what it returns, and `HeapCore` for the blocks and
arenas after it.  None of them panics on a good heap.
-/

namespace Berk162

namespace HeapCore

variable {ram : Nat} {h : Heap} {live as : List Nat} {others : List Group}

/-! ## A new arena -/

/-- A group that the page allocator has just handed out is not an arena in use. -/
theorem fresh {p : Palloc} {a n : Nat} (hpages : PallocInv ram
      ⟨p, ⟨a, n, .kernel⟩ :: (as.map h.arenaGroup ++ others)⟩) : a ∉ as := by
  intro ha
  have hnew : (⟨a, n, .kernel⟩ : Group).Inside p := hpages.inside _ List.mem_cons_self
  have hold : (h.arenaGroup a).Inside p :=
    hpages.inside _ (List.mem_cons_of_mem _ (List.mem_append_left _ (List.mem_map_of_mem ha)))
  have hdis := (List.pairwise_cons.1 hpages.owns.disjoint).1 (h.arenaGroup a).extent
    (List.mem_map_of_mem (List.mem_append_left _ (List.mem_map_of_mem ha)))
  exact hdis _ (Extent.start_mem (e := Group.extent ⟨a, n, .kernel⟩) hnew.pos)
    (Extent.start_mem (e := (h.arenaGroup a).extent) hold.pos)

theorem push_blocks_eq {a N bs : Nat}
    (harena : ∀ j, j < N → arena_to_block h a j = some (block_at a bs j)) (n : Nat) :
    ∀ i l, i + n ≤ N →
      push_blocks h a i n l = some (l ++ (List.range' i n).map (block_at a bs)) := by
  induction n with
  | zero =>
      intro i l _
      simp [push_blocks]
  | succ n ih =>
      intro i l hle
      rw [push_blocks, harena i (by omega), Option.bind_eq_bind, Option.bind_some,
        ih (i + 1) _ (by omega), List.range'_succ, List.map_cons, List.append_assoc,
        List.singleton_append]

/-- A page that becomes an arena of descriptor `i`, whose free list was empty. -/
theorem add_arena (hc : HeapCore ram h live as others) {i : Nat} {d : Desc}
    (hd : h.descs[i]? = some d) (hempty : d.free_list = []) {p : Palloc} {a : Nat}
    (hpages : PallocInv ram ⟨p, ⟨a, 1, .kernel⟩ :: (as.map h.arenaGroup ++ others)⟩) :
    HeapCore ram
      (((h.setPalloc p).setArena a ⟨ARENA_MAGIC, some i, d.blocks_per_arena⟩).setFreeList i
        ((List.range d.blocks_per_arena).map (block_at a d.block_size)))
      live (a :: as) others := by
  have hfresh := fresh hpages
  have hfits := hc.fits hd
  set r : Arena := ⟨ARENA_MAGIC, some i, d.blocks_per_arena⟩ with hr
  set l := (List.range d.blocks_per_arena).map (block_at a d.block_size) with hl
  set h' := ((h.setPalloc p).setArena a r).setFreeList i l with hh'
  have hnew : h'.arenas a = r := by simp [hh']
  have hold : ∀ a' ∈ as, h'.arenas a' = h.arenas a' := by
    intro a' ha'
    have hne : a' ≠ a := fun he => hfresh (he ▸ ha')
    simp [hh', Heap.setArena_of_ne _ _ hne]
  have hal : a % PGSIZE = 0 := (hpages.inside _ List.mem_cons_self).aligned
  have hdesc : ∀ j : Nat, ∀ d' : Desc, h'.descs[j]? = some d' →
      ∃ d₀, h.descs[j]? = some d₀ ∧ d' = if i = j then { d₀ with free_list := l } else d₀ := by
    intro j d' hd'
    rw [hh', Heap.setFreeList_getElem?] at hd'
    rcases Option.map_eq_some_iff.1 hd' with ⟨d₀, hd₀, rfl⟩
    exact ⟨d₀, by simpa using hd₀, rfl⟩
  have hblk_old : ∀ a' ∈ as, ∀ x, h'.IsBlock a' x ↔ h.IsBlock a' x := by
    intro a' ha' x
    have hne : a' ≠ a := fun he => hfresh (he ▸ ha')
    have hdesc' : (((h.setPalloc p).setArena a r).arenas a').desc = (h.arenas a').desc := by
      rw [Heap.setArena_of_ne _ _ hne, Heap.setPalloc_arenas]
    rw [hh', Heap.isBlock_setFreeList]
    exact Heap.isBlock_of_desc_eq (by simp) hdesc' x
  have hblk_new : ∀ x, h'.IsBlock a x ↔ x ∈ l := by
    intro x
    rw [hh', Heap.isBlock_setFreeList]
    simp only [Heap.IsBlock, Heap.setArena_self, hr, Heap.setArena_descs, Heap.setPalloc_descs]
    rw [hl, List.mem_map]
    constructor
    · rintro ⟨d', idx, hd', hidx, rfl⟩
      rw [hd, Option.some.injEq] at hd'
      subst hd'
      exact ⟨idx, List.mem_range.2 hidx, rfl⟩
    · rintro ⟨idx, hidx, rfl⟩
      exact ⟨d, idx, hd, List.mem_range.1 hidx, rfl⟩
  -- no live block lies in the new arena: live blocks lie in the old ones
  have hlive : ∀ x ∈ l, x ∉ live := by
    intro x hx hx'
    rcases hc.live_block x hx' with ⟨a', ha', hb⟩
    have hround := hc.round_down ha' hb
    rw [hl, List.mem_map] at hx
    rcases hx with ⟨idx, hidx, rfl⟩
    rw [pg_round_down_block hal hfits (List.mem_range.1 hidx)] at hround
    exact hfresh (hround ▸ ha')
  have hnodup : l.Nodup := by
    rw [hl]
    refine List.Nodup.map_on ?_ List.nodup_range
    intro j _ j' _ heq
    exact block_at_injective hfits heq
  refine ⟨?_, List.nodup_cons.2 ⟨hfresh, hc.arenas_nodup⟩, ?_, ?_, ?_, hc.live_nodup, ?_, ?_, ?_,
    ?_, ?_⟩
  · have hgroups : (a :: as).map h'.arenaGroup ++ others =
        ⟨a, 1, .kernel⟩ :: (as.map h.arenaGroup ++ others) := by
      have hmap : as.map h'.arenaGroup = as.map h.arenaGroup := by
        refine List.map_congr_left fun a' ha' => ?_
        simp only [Heap.arenaGroup, hold a' ha']
      rw [List.map_cons, hmap]
      simp only [Heap.arenaGroup, hnew, hr, Arena.pages, List.cons_append]
    rw [hgroups]
    exact hpages
  · rw [hh', Heap.setFreeList_shape]
    exact hc.shape
  · intro a' ha'
    rcases List.mem_cons.1 ha' with rfl | ha'
    · rw [hnew]
    · rw [hold a' ha']
      exact hc.magic a' ha'
  · intro a' ha' j hj
    rcases List.mem_cons.1 ha' with rfl | ha'
    · rw [hnew] at hj
      cases hj
      exact ⟨_, Heap.setFreeList_self _ hd l⟩
    · rw [hold a' ha'] at hj
      rcases hc.desc_lt a' ha' j hj with ⟨d₀, hd₀⟩
      exact ⟨_, by rw [hh', Heap.setFreeList_getElem?]; exact Option.map_eq_some_iff.2 ⟨d₀, hd₀, rfl⟩⟩
  · intro x hx
    rcases hc.live_block x hx with ⟨a', ha', hb⟩
    exact ⟨a', List.mem_cons_of_mem _ ha', (hblk_old a' ha' x).2 hb⟩
  · intro a' ha' hnone
    rcases List.mem_cons.1 ha' with rfl | ha'
    · rw [hnew] at hnone
      cases hnone
    · rw [hold a' ha'] at hnone
      exact hc.big_live a' ha' hnone
  · intro j d' hd'
    rcases hdesc j d' hd' with ⟨d₀, hd₀, rfl⟩
    by_cases hij : i = j
    · simpa [hij] using hnodup
    · simpa [hij] using hc.free_nodup j d₀ hd₀
  · intro j d' hd' x
    rcases hdesc j d' hd' with ⟨d₀, hd₀, rfl⟩
    have hold_iff : (∃ a' ∈ as, (h'.arenas a').desc = some j ∧ h'.IsBlock a' x ∧ x ∉ live) ↔
        x ∈ d₀.free_list := by
      rw [hc.mem_free j d₀ hd₀]
      constructor
      · rintro ⟨a', ha', h1, h2, h3⟩
        exact ⟨a', ha', hold a' ha' ▸ h1, (hblk_old a' ha' x).1 h2, h3⟩
      · rintro ⟨a', ha', h1, h2, h3⟩
        exact ⟨a', ha', (hold a' ha').symm ▸ h1, (hblk_old a' ha' x).2 h2, h3⟩
    have hsplit : (∃ a' ∈ a :: as, (h'.arenas a').desc = some j ∧ h'.IsBlock a' x ∧ x ∉ live) ↔
        (i = j ∧ x ∈ l) ∨ x ∈ d₀.free_list := by
      rw [← hold_iff]
      constructor
      · rintro ⟨a', ha', h1, h2, h3⟩
        rcases List.mem_cons.1 ha' with rfl | ha'
        · rw [hnew] at h1
          exact Or.inl ⟨Option.some.inj h1, (hblk_new x).1 h2⟩
        · exact Or.inr ⟨a', ha', h1, h2, h3⟩
      · rintro (⟨rfl, hx⟩ | ⟨a', ha', h1, h2, h3⟩)
        · exact ⟨a, List.mem_cons_self, by rw [hnew], (hblk_new x).2 hx, hlive x hx⟩
        · exact ⟨a', List.mem_cons_of_mem _ ha', h1, h2, h3⟩
    rw [hsplit]
    by_cases hij : i = j
    · subst hij
      rw [hd, Option.some.injEq] at hd₀
      subst hd₀
      simp [hempty]
    · simp [hij]
  · intro a' ha' j d' hj hd'
    rcases hdesc j d' hd' with ⟨d₀, hd₀, rfl⟩
    have hsame : freeBlocks (if i = j then { d₀ with free_list := l } else d₀) a' live =
        freeBlocks d₀ a' live := by
      split_ifs <;> rfl
    rw [hsame]
    rcases List.mem_cons.1 ha' with rfl | ha'
    · rw [hnew] at hj ⊢
      cases hj
      rw [hd, Option.some.injEq] at hd₀
      subst hd₀
      refine (card_freeBlocks_eq_iff.2 fun k hk => ?_).symm
      apply hlive
      rw [hl, List.mem_map]
      exact ⟨k, List.mem_range.2 hk, rfl⟩
    · rw [hold a' ha'] at hj ⊢
      exact hc.free_cnt a' ha' j d₀ hj hd₀

/-- Pages of their own for a request that is too big for every descriptor. -/
theorem add_big (hc : HeapCore ram h live as others) {p : Palloc} {a n : Nat}
    (hpages : PallocInv ram ⟨p, ⟨a, n, .kernel⟩ :: (as.map h.arenaGroup ++ others)⟩) :
    HeapCore ram ((h.setPalloc p).setArena a ⟨ARENA_MAGIC, none, n⟩)
      ((a + sizeof_arena) :: live) (a :: as) others := by
  have hfresh := fresh hpages
  set h' := (h.setPalloc p).setArena a ⟨ARENA_MAGIC, none, n⟩ with hh'
  have hnew : h'.arenas a = ⟨ARENA_MAGIC, none, n⟩ := by simp [hh']
  have hdescs : h'.descs = h.descs := by simp [hh']
  have hold : ∀ a' ∈ as, h'.arenas a' = h.arenas a' := by
    intro a' ha'
    have hne : a' ≠ a := fun he => hfresh (he ▸ ha')
    simp [hh', Heap.setArena_of_ne _ _ hne]
  have hal : a % PGSIZE = 0 := (hpages.inside _ List.mem_cons_self).aligned
  have hblk : ∀ a' ∈ as, ∀ x, h'.IsBlock a' x ↔ h.IsBlock a' x := by
    intro a' ha' x
    exact Heap.isBlock_of_desc_eq hdescs (by rw [hold a' ha']) x
  -- the new block lies in no old arena
  have hother : ∀ a' ∈ as, ∀ x, h.IsBlock a' x → x ≠ a + sizeof_arena := by
    rintro a' ha' x hx rfl
    have hround := hc.round_down ha' hx
    rw [pg_round_down_big hal] at hround
    exact hfresh (hround ▸ ha')
  refine ⟨?_, List.nodup_cons.2 ⟨hfresh, hc.arenas_nodup⟩, ?_, ?_, ?_, ?_, ?_, ?_, ?_, ?_, ?_⟩
  · have hgroups : (a :: as).map h'.arenaGroup ++ others =
        ⟨a, n, .kernel⟩ :: (as.map h.arenaGroup ++ others) := by
      have hmap : as.map h'.arenaGroup = as.map h.arenaGroup := by
        refine List.map_congr_left fun a' ha' => ?_
        simp only [Heap.arenaGroup, hold a' ha']
      rw [List.map_cons, hmap]
      simp only [Heap.arenaGroup, hnew, Arena.pages, List.cons_append]
    rw [hgroups]
    exact hpages
  · rw [hdescs]
    exact hc.shape
  · intro a' ha'
    rcases List.mem_cons.1 ha' with rfl | ha'
    · rw [hnew]
    · rw [hold a' ha']
      exact hc.magic a' ha'
  · intro a' ha' j hj
    rw [hdescs]
    rcases List.mem_cons.1 ha' with rfl | ha'
    · rw [hnew] at hj
      cases hj
    · rw [hold a' ha'] at hj
      exact hc.desc_lt a' ha' j hj
  · refine List.nodup_cons.2 ⟨fun hm => ?_, hc.live_nodup⟩
    rcases hc.live_block _ hm with ⟨a', ha', hb⟩
    exact hother a' ha' _ hb rfl
  · intro x hx
    rcases List.mem_cons.1 hx with rfl | hx
    · refine ⟨a, List.mem_cons_self, ?_⟩
      simp only [Heap.IsBlock, hnew]
    · rcases hc.live_block x hx with ⟨a', ha', hb⟩
      exact ⟨a', List.mem_cons_of_mem _ ha', (hblk a' ha' x).2 hb⟩
  · intro a' ha' hnone
    rcases List.mem_cons.1 ha' with rfl | ha'
    · exact List.mem_cons_self
    · rw [hold a' ha'] at hnone
      exact List.mem_cons_of_mem _ (hc.big_live a' ha' hnone)
  · intro j d hd
    rw [hdescs] at hd
    exact hc.free_nodup j d hd
  · intro j d hd x
    rw [hdescs] at hd
    rw [hc.mem_free j d hd]
    constructor
    · rintro ⟨a', ha', h1, h2, h3⟩
      refine ⟨a', List.mem_cons_of_mem _ ha', (hold a' ha').symm ▸ h1, (hblk a' ha' x).2 h2, ?_⟩
      rw [List.mem_cons, not_or]
      exact ⟨hother a' ha' x h2, h3⟩
    · rintro ⟨a', ha', h1, h2, h3⟩
      rcases List.mem_cons.1 ha' with rfl | ha'
      · rw [hnew] at h1
        cases h1
      · exact ⟨a', ha', hold a' ha' ▸ h1, (hblk a' ha' x).1 h2,
          fun hm => h3 (List.mem_cons_of_mem _ hm)⟩
  · intro a' ha' j d hj hd
    rw [hdescs] at hd
    rcases List.mem_cons.1 ha' with rfl | ha'
    · rw [hnew] at hj
      cases hj
    · rw [hold a' ha'] at hj ⊢
      rw [hc.free_cnt a' ha' j d hj hd]
      congr 1
      refine freeBlocks_congr fun k hk => ?_
      have hblock : h.IsBlock a' (block_at a' d.block_size k) := by
        simp only [Heap.IsBlock, hj]
        exact ⟨d, k, hd, hk, rfl⟩
      rw [List.mem_cons, or_iff_right (hother a' ha' _ hblock)]

/-! ## A block changes hands -/

theorem setMem (hc : HeapCore ram h live as others) (mem : Memory) :
    HeapCore ram (h.setMem mem) live as others := by
  refine ⟨hc.pages.withMem mem, hc.arenas_nodup, hc.shape, hc.magic, hc.desc_lt, hc.live_nodup,
    ?_, hc.big_live, hc.free_nodup, ?_, hc.free_cnt⟩
  · exact hc.live_block
  · exact hc.mem_free

/-- Block `b` of a small arena goes from the free list to its caller, or back. -/
theorem change (hc : HeapCore ram h live as others) {a b i n : Nat} {d : Desc}
    {l live' : List Nat} (ha : a ∈ as) (hdesc : (h.arenas a).desc = some i)
    (hd : h.descs[i]? = some d) (hb : h.IsBlock a b) (hlive' : live'.Nodup)
    (hother : ∀ x, x ≠ b → (x ∈ live' ↔ x ∈ live)) (hnodup : l.Nodup)
    (hmem : ∀ x, x ∈ l ↔ (x ∈ d.free_list ∧ x ≠ b) ∨ (x = b ∧ b ∉ live'))
    (hn : n = (freeBlocks d a live').card) :
    HeapCore ram ((h.setFreeList i l).setArena a ⟨(h.arenas a).magic, (h.arenas a).desc, n⟩)
      live' as others := by
  set h' := (h.setFreeList i l).setArena a ⟨(h.arenas a).magic, (h.arenas a).desc, n⟩ with hh'
  have hnew : h'.arenas a = ⟨(h.arenas a).magic, (h.arenas a).desc, n⟩ := by simp [hh']
  have hold : ∀ a', a' ≠ a → h'.arenas a' = h.arenas a' := by
    intro a' hne
    rw [hh', Heap.setArena_of_ne _ _ hne, Heap.setFreeList_arenas]
  have hdesc' : ∀ a', (h'.arenas a').desc = (h.arenas a').desc := by
    intro a'
    by_cases hne : a' = a
    · rw [hne, hnew]
    · rw [hold a' hne]
  have hmagic : ∀ a', (h'.arenas a').magic = (h.arenas a').magic := by
    intro a'
    by_cases hne : a' = a
    · rw [hne, hnew]
    · rw [hold a' hne]
  have hdescs : ∀ (j : Nat) (d' : Desc), h'.descs[j]? = some d' → ∃ d₀, h.descs[j]? = some d₀ ∧
      d' = if i = j then { d₀ with free_list := l } else d₀ := by
    intro j d' hd'
    rw [hh', Heap.setArena_descs, Heap.setFreeList_getElem?] at hd'
    rcases Option.map_eq_some_iff.1 hd' with ⟨d₀, hd₀, rfl⟩
    exact ⟨d₀, hd₀, rfl⟩
  have hblk : ∀ a' x, h'.IsBlock a' x ↔ h.IsBlock a' x := by
    intro a' x
    rw [Heap.isBlock_of_desc_eq (h := h.setFreeList i l) (by simp [hh']) (hdesc' a'),
      Heap.isBlock_setFreeList]
  -- only arena `a` has `b` as a block
  have hne : ∀ a' ∈ as, a' ≠ a → ∀ x, h.IsBlock a' x → x ≠ b := by
    rintro a' ha' hne x hx rfl
    exact hne (hc.block_unique ha' ha hx hb)
  refine ⟨?_, hc.arenas_nodup, ?_, ?_, ?_, hlive', ?_, ?_, ?_, ?_, ?_⟩
  · have hgroups : as.map h'.arenaGroup = as.map h.arenaGroup := by
      refine List.map_congr_left fun a' _ => ?_
      by_cases hne : a' = a
      · subst hne
        simp only [Heap.arenaGroup, hnew, Arena.pages, hdesc]
      · simp only [Heap.arenaGroup, hold a' hne]
    rw [hgroups]
    exact hc.pages
  · rw [hh', Heap.setArena_descs, Heap.setFreeList_shape]
    exact hc.shape
  · intro a' ha'
    rw [hmagic]
    exact hc.magic a' ha'
  · intro a' ha' j hj
    rw [hdesc'] at hj
    rcases hc.desc_lt a' ha' j hj with ⟨d₀, hd₀⟩
    exact ⟨_, by
      rw [hh', Heap.setArena_descs, Heap.setFreeList_getElem?]
      exact Option.map_eq_some_iff.2 ⟨d₀, hd₀, rfl⟩⟩
  · intro x hx
    by_cases hxb : x = b
    · subst hxb
      exact ⟨a, ha, (hblk a x).2 hb⟩
    · rcases hc.live_block x ((hother x hxb).1 hx) with ⟨a', ha', hb'⟩
      exact ⟨a', ha', (hblk a' x).2 hb'⟩
  · intro a' ha' hnone
    rw [hdesc'] at hnone
    have haa : a' ≠ a := by
      rintro rfl
      rw [hdesc] at hnone
      cases hnone
    have hbig : h.IsBlock a' (a' + sizeof_arena) := by
      simp only [Heap.IsBlock, hnone]
    exact (hother _ (hne a' ha' haa _ hbig)).2 (hc.big_live a' ha' hnone)
  · intro j d' hd'
    rcases hdescs j d' hd' with ⟨d₀, hd₀, rfl⟩
    by_cases hij : i = j
    · simpa [hij] using hnodup
    · simpa [hij] using hc.free_nodup j d₀ hd₀
  · intro j d' hd' x
    rcases hdescs j d' hd' with ⟨d₀, hd₀, rfl⟩
    simp only [hdesc', hblk]
    by_cases hij : i = j
    · subst hij
      rw [hd, Option.some.injEq] at hd₀
      subst hd₀
      simp only [if_true]
      rw [hmem x, hc.mem_free i d hd]
      constructor
      · rintro (⟨⟨a', ha', h1, h2, h3⟩, hxb⟩ | ⟨rfl, hnot⟩)
        · exact ⟨a', ha', h1, h2, fun hm => h3 ((hother x hxb).1 hm)⟩
        · exact ⟨a, ha, hdesc, hb, hnot⟩
      · rintro ⟨a', ha', h1, h2, h3⟩
        by_cases hxb : x = b
        · exact Or.inr ⟨hxb, hxb ▸ h3⟩
        · exact Or.inl ⟨⟨a', ha', h1, h2, fun hm => h3 ((hother x hxb).2 hm)⟩, hxb⟩
    · simp only [hij, if_false]
      rw [hc.mem_free j d₀ hd₀]
      have hblock : ∀ a' ∈ as, (h.arenas a').desc = some j → h.IsBlock a' x → x ≠ b := by
        intro a' ha' hj hx
        refine hne a' ha' ?_ x hx
        rintro rfl
        rw [hdesc, Option.some.injEq] at hj
        exact hij hj
      constructor
      · rintro ⟨a', ha', h1, h2, h3⟩
        exact ⟨a', ha', h1, h2, fun hm => h3 ((hother x (hblock a' ha' h1 h2)).1 hm)⟩
      · rintro ⟨a', ha', h1, h2, h3⟩
        exact ⟨a', ha', h1, h2, fun hm => h3 ((hother x (hblock a' ha' h1 h2)).2 hm)⟩
  · intro a' ha' j d' hj hd'
    rw [hdesc'] at hj
    rcases hdescs j d' hd' with ⟨d₀, hd₀, rfl⟩
    have hsame : freeBlocks (if i = j then { d₀ with free_list := l } else d₀) a' live' =
        freeBlocks d₀ a' live' := by
      split_ifs <;> rfl
    rw [hsame]
    by_cases haa : a' = a
    · subst haa
      rw [hdesc, Option.some.injEq] at hj
      subst hj
      rw [hd, Option.some.injEq] at hd₀
      subst hd₀
      rw [hnew]
      exact hn
    · rw [hold a' haa, hc.free_cnt a' ha' j d₀ hj hd₀]
      congr 1
      refine freeBlocks_congr fun k hk => ?_
      have hblock : h.IsBlock a' (block_at a' d₀.block_size k) := by
        simp only [Heap.IsBlock, hj]
        exact ⟨d₀, k, hd₀, hk, rfl⟩
      exact (hother _ (hne a' ha' haa _ hblock)).symm

/-! ## An arena goes back to the page allocator -/

/-- The arena at `a` is given up once none of its blocks is live; its blocks leave the free lists. -/
theorem drop_arena (hc : HeapCore ram h live as others) {a : Nat} (ha : a ∈ as) {h' : Heap}
    {live' : List Nat} (hpages : PallocInv ram
      ⟨h'.palloc, (as.map h.arenaGroup ++ others).erase (h.arenaGroup a)⟩)
    (hold : ∀ a', a' ≠ a → h'.arenas a' = h.arenas a')
    (hshape : h'.descs.map Desc.shape = h.descs.map Desc.shape)
    (hdescs : ∀ (j : Nat) (d' : Desc), h'.descs[j]? = some d' →
      ∃ d, h.descs[j]? = some d ∧ d'.shape = d.shape ∧ d'.free_list.Nodup ∧
        ∀ x, x ∈ d'.free_list ↔ x ∈ d.free_list ∧ ¬ h.IsBlock a x)
    (hlive' : live'.Nodup) (hmem : ∀ x, x ∈ live' ↔ x ∈ live ∧ ¬ h.IsBlock a x) :
    HeapCore ram h' live' (as.erase a) others := by
  have hin : ∀ a', a' ∈ as.erase a ↔ a' ≠ a ∧ a' ∈ as := fun a' => hc.arenas_nodup.mem_erase_iff
  have hsub : ∀ a' ∈ as.erase a, a' ∈ as ∧ h'.arenas a' = h.arenas a' := by
    intro a' ha'
    exact ⟨((hin a').1 ha').2, hold a' ((hin a').1 ha').1⟩
  have hdescs_up : ∀ (j : Nat) (d : Desc), h.descs[j]? = some d →
      ∃ d', h'.descs[j]? = some d' ∧ d'.shape = d.shape := by
    intro j d hd
    have hj : (h'.descs.map Desc.shape)[j]? = some d.shape := by
      rw [hshape, List.getElem?_map, hd, Option.map_some]
    rw [List.getElem?_map, Option.map_eq_some_iff] at hj
    exact hj
  have hblk : ∀ a' ∈ as.erase a, ∀ x, h'.IsBlock a' x ↔ h.IsBlock a' x := by
    intro a' ha' x
    have heq := (hsub a' ha').2
    unfold Heap.IsBlock
    rw [heq]
    cases hdesc : (h.arenas a').desc with
    | none =>
        exact Iff.rfl
    | some i =>
        constructor
        · rintro ⟨d', idx, hd', hidx, hx⟩
          rcases hdescs i d' hd' with ⟨d, hd, hs, -⟩
          simp only [Desc.shape, Prod.mk.injEq] at hs
          exact ⟨d, idx, hd, hs.2 ▸ hidx, hs.1 ▸ hx⟩
        · rintro ⟨d, idx, hd, hidx, hx⟩
          rcases hdescs_up i d hd with ⟨d', hd', hs⟩
          simp only [Desc.shape, Prod.mk.injEq] at hs
          exact ⟨d', idx, hd', hs.2.symm ▸ hidx, hs.1.symm ▸ hx⟩
  -- a block of another arena is not a block of `a`
  have hapart : ∀ a' ∈ as.erase a, ∀ x, h.IsBlock a' x → ¬ h.IsBlock a x := by
    intro a' ha' x hx hx'
    exact ((hin a').1 ha').1 (hc.block_unique (hsub a' ha').1 ha hx hx')
  refine ⟨?_, hc.arenas_nodup.erase a, ?_, ?_, ?_, hlive', ?_, ?_, ?_, ?_, ?_⟩
  · have hgroups : (as.map h.arenaGroup ++ others).erase (h.arenaGroup a) =
        (as.erase a).map h'.arenaGroup ++ others := by
      have hmap : (as.erase a).map h'.arenaGroup = (as.erase a).map h.arenaGroup := by
        refine List.map_congr_left fun a' ha' => ?_
        simp only [Heap.arenaGroup, (hsub a' ha').2]
      have hinj : Function.Injective h.arenaGroup := by
        intro x y hxy
        exact congrArg Group.pages hxy
      rw [List.erase_append_left _ (List.mem_map_of_mem ha), hmap, List.map_erase hinj]
    rw [← hgroups]
    exact hpages
  · rw [hshape]
    exact hc.shape
  · intro a' ha'
    rw [(hsub a' ha').2]
    exact hc.magic a' (hsub a' ha').1
  · intro a' ha' i hi
    rw [(hsub a' ha').2] at hi
    rcases hc.desc_lt a' (hsub a' ha').1 i hi with ⟨d, hd⟩
    rcases hdescs_up i d hd with ⟨d', hd', _⟩
    exact ⟨d', hd'⟩
  · intro x hx
    rcases (hmem x).1 hx with ⟨hx, hnot⟩
    rcases hc.live_block x hx with ⟨a', ha', hb⟩
    have hne : a' ≠ a := fun he => hnot (he ▸ hb)
    have hkeep := (hin a').2 ⟨hne, ha'⟩
    exact ⟨a', hkeep, (hblk a' hkeep x).2 hb⟩
  · intro a' ha' hnone
    rw [(hsub a' ha').2] at hnone
    refine (hmem _).2 ⟨hc.big_live a' (hsub a' ha').1 hnone, hapart a' ha' _ ?_⟩
    simp only [Heap.IsBlock, hnone]
  · intro j d' hd'
    rcases hdescs j d' hd' with ⟨d, _, _, hnodup, _⟩
    exact hnodup
  · intro j d' hd' x
    rcases hdescs j d' hd' with ⟨d, hd, _, _, hx⟩
    rw [hx, hc.mem_free j d hd]
    constructor
    · rintro ⟨⟨a', ha', h1, h2, h3⟩, hnot⟩
      have hne : a' ≠ a := fun he => hnot (he ▸ h2)
      have hkeep := (hin a').2 ⟨hne, ha'⟩
      exact ⟨a', hkeep, by rw [(hsub a' hkeep).2, h1], (hblk a' hkeep x).2 h2,
        fun hm => h3 ((hmem x).1 hm).1⟩
    · rintro ⟨a', ha', h1, h2, h3⟩
      rw [(hsub a' ha').2] at h1
      have hb := (hblk a' ha' x).1 h2
      have hnot := hapart a' ha' x hb
      exact ⟨⟨a', (hsub a' ha').1, h1, hb, fun hm => h3 ((hmem x).2 ⟨hm, hnot⟩)⟩, hnot⟩
  · intro a' ha' j d' hj hd'
    rcases hdescs j d' hd' with ⟨d, hd, hs, _, _⟩
    simp only [Desc.shape, Prod.mk.injEq] at hs
    rw [(hsub a' ha').2] at hj ⊢
    rw [hc.free_cnt a' (hsub a' ha').1 j d hj hd]
    have hsame : freeBlocks d' a' live' = freeBlocks d a' live' := by
      simp only [freeBlocks, hs.1, hs.2]
    rw [hsame]
    congr 1
    refine freeBlocks_congr fun k hk => ?_
    have hblock : h.IsBlock a' (block_at a' d.block_size k) := by
      simp only [Heap.IsBlock, hj]
      exact ⟨d, k, hd, hk, rfl⟩
    rw [hmem, and_iff_left (hapart a' ha' _ hblock)]

end HeapCore

/-- The loop of `free` takes exactly the blocks of the arena off the free list. -/
theorem remove_blocks_spec {h : Heap} {a N bs : Nat}
    (harena : ∀ j, j < N → arena_to_block h a j = some (block_at a bs j))
    (hinj : ∀ j k, block_at a bs j = block_at a bs k → j = k) (n : Nat) :
    ∀ i l, i + n ≤ N → l.Nodup → (∀ j, i ≤ j → j < i + n → block_at a bs j ∈ l) →
      ∃ l', remove_blocks h a i n l = some l' ∧ l'.Nodup ∧
        ∀ x, x ∈ l' ↔ x ∈ l ∧ ∀ j, i ≤ j → j < i + n → x ≠ block_at a bs j := by
  induction n with
  | zero =>
      intro i l _ hl _
      refine ⟨l, rfl, hl, fun x => ?_⟩
      constructor
      · intro hx
        exact ⟨hx, fun j h1 h2 => absurd h2 (by omega)⟩
      · exact fun hx => hx.1
  | succ n ih =>
      intro i l hle hl hmem
      have hi : block_at a bs i ∈ l := hmem i (le_refl i) (by omega)
      have hrest : ∀ j, i + 1 ≤ j → j < i + 1 + n → block_at a bs j ∈ l.erase (block_at a bs i) := by
        intro j h1 h2
        refine hl.mem_erase_iff.2 ⟨fun heq => ?_, hmem j (by omega) (by omega)⟩
        have := hinj j i heq
        omega
      rcases ih (i + 1) (l.erase (block_at a bs i)) (by omega) (hl.erase _) hrest with
        ⟨l', hrun, hnodup, hiff⟩
      refine ⟨l', ?_, hnodup, fun x => ?_⟩
      · rw [remove_blocks, harena i (by omega), Option.bind_eq_bind, Option.bind_some, list_remove,
          ASSERT_pos hi]
        simpa using hrun
      · rw [hiff, hl.mem_erase_iff]
        constructor
        · rintro ⟨⟨hne, hx⟩, hall⟩
          refine ⟨hx, fun j h1 h2 => ?_⟩
          by_cases hji : j = i
          · rw [hji]
            exact hne
          · exact hall j (by omega) (by omega)
        · rintro ⟨hx, hall⟩
          exact ⟨⟨hall i (le_refl i) (by omega), hx⟩, fun j h1 h2 => hall j (by omega) (by omega)⟩

end Berk162
