import Berk162.Threads.PallocMem

/-!
# PallocCount — which pages are in use, and how many are free
-/

namespace Berk162

instance (p : Pool) (n : Nat) : Decidable (p.Used n) :=
  inferInstanceAs (Decidable
    ((pg_no p.base ≤ n ∧ n < pg_no p.base + p.used_map.bit_cnt) ∧ _ = true))

theorem Palloc.used_def (s : Palloc) (n : Nat) :
    s.Used n ↔ s.kernel_pool.Used n ∨ s.user_pool.Used n := by
  constructor
  · rintro ⟨id, h⟩
    cases id with
    | kernel => exact Or.inl h
    | user => exact Or.inr h
  · rintro (h | h)
    · exact ⟨.kernel, h⟩
    · exact ⟨.user, h⟩

instance (s : Palloc) (n : Nat) : Decidable (s.Used n) := decidable_of_iff' _ (s.used_def n)

/-- The number of free pages of a pool. -/
def Palloc.free_cnt (s : Palloc) (id : PoolId) : Nat :=
  ((Finset.range (s.pool id).used_map.bit_cnt).filter
    fun k => (s.pool id).used_map.test k = false).card

theorem Palloc.hasRun_one (s : Palloc) (id : PoolId) : s.HasRun id 1 ↔ 0 < s.free_cnt id := by
  rw [Palloc.free_cnt, Finset.card_pos]
  constructor
  · rintro ⟨k, hk, hrun⟩
    refine ⟨k, Finset.mem_filter.2 ⟨Finset.mem_range.2 hk, ?_⟩⟩
    exact hrun k (Nat.le_refl k) (Nat.lt_succ_self k)
  · rintro ⟨k, hk⟩
    rcases Finset.mem_filter.1 hk with ⟨hlt, hfree⟩
    refine ⟨k, Finset.mem_range.1 hlt, fun i hle hi => ?_⟩
    obtain rfl : i = k := by omega
    exact hfree

/-- A page that is taken is one free page less. -/
theorem palloc_get_page_free_cnt {s p : Palloc} {ram flags a : Nat} (hwf : s.Wf ram)
    (hcall : palloc_get_page s flags = some (p, a)) (hnull : a ≠ NULL) :
    s.free_cnt (flags_pool flags) = p.free_cnt (flags_pool flags) + 1 := by
  rw [palloc_get_page] at hcall
  rcases palloc_get_multiple_spec hwf flags (Nat.le_refl 1) rfl with
    ⟨m, idx, mem, hfirst, hm, htest, hres⟩ | ⟨_, hres⟩
  · rw [hres, Option.some.injEq, Prod.mk.injEq] at hcall
    rcases hcall with ⟨rfl, _⟩
    have hmem : idx ∈ (Finset.range (s.pool (flags_pool flags)).used_map.bit_cnt).filter
        fun k => (s.pool (flags_pool flags)).used_map.test k = false :=
      Finset.mem_filter.2 ⟨Finset.mem_range.2 hfirst.fits,
        hfirst.run idx (Nat.le_refl idx) (Nat.lt_succ_self idx)⟩
    rw [Palloc.free_cnt, Palloc.free_cnt, ← Finset.card_erase_add_one hmem]
    refine congrArg (fun f => Finset.card f + 1) ?_
    ext k
    rw [Palloc.pool_withMem, Palloc.pool_setPool_self, Pool.withMap_used_map, hm]
    simp only [Finset.mem_erase, Finset.mem_filter, Finset.mem_range, htest]
    by_cases hk : k = idx
    · rw [if_pos (by omega)]
      simp [hk]
    · rw [if_neg (by omega)]
      simp [hk]
  · rw [hres] at hcall
    split_ifs at hcall
    rw [Option.some.injEq, Prod.mk.injEq] at hcall
    exact absurd hcall.2.symm hnull

namespace PallocInv

variable {ram : Nat} {s p : Palloc} {live : List Group} {g : Group}

/-- The pages in use are those of the live groups. -/
theorem used_iff (h : PallocInv ram ⟨s, live⟩) (n : Nat) :
    s.Used n ↔ ∃ g ∈ live, n ∈ g.extent := by
  constructor
  · intro hn
    rcases h.tight n hn with ⟨e, he, hne⟩
    rcases List.mem_map.1 he with ⟨g, hg, rfl⟩
    exact ⟨g, hg, hne⟩
  · rintro ⟨g, hg, hn⟩
    exact h.used_of_mem hg n hn

/-- Two groups of a live list share no page. -/
theorem extents_apart {gs : List Group} (h : PallocInv ram ⟨s, gs ++ live⟩) (hg : g ∈ gs)
    {g' : Group} (hg' : g' ∈ live) {n : Nat} (hn : n ∈ g.extent) : n ∉ g'.extent := by
  have hdis := h.owns.disjoint
  rw [List.map_append, List.pairwise_append] at hdis
  exact hdis.2.2 _ (List.mem_map_of_mem hg) _ (List.mem_map_of_mem hg') n hn

theorem used_tail (h : PallocInv ram ⟨s, g :: live⟩) (h' : PallocInv ram ⟨p, live⟩) (n : Nat) :
    p.Used n ↔ s.Used n ∧ n ∉ g.extent := by
  rw [h'.used_iff, h.used_iff]
  constructor
  · rintro ⟨g', hg', hn⟩
    refine ⟨⟨g', List.mem_cons_of_mem _ hg', hn⟩, fun hng => ?_⟩
    exact @extents_apart ram s live g [g] h (List.mem_singleton.2 rfl) g' hg' n hng hn
  · rintro ⟨⟨g', hg', hn⟩, hng⟩
    rcases List.mem_cons.1 hg' with rfl | hg'
    · exact absurd hn hng
    · exact ⟨g', hg', hn⟩

end PallocInv

end Berk162
