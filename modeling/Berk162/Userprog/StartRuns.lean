import Berk162.Userprog.LoadRuns
import Berk162.Userprog.StartCleanup

/-!
# StartRuns — starting a process on a machine that has just been booted

`paging_init` is a run of the allocators: it gets pages and writes to them.
-/

namespace Berk162

section

variable {init_ram_pages user_page_limit text_start text_end pd pt flags page : Nat} {h : Heap}
  {p : Palloc} {live : List LiveBlock} {others : List Group}

/-- The states of the allocators that runs lead to. -/
def HeapReachable (init_ram_pages user_page_limit : Nat) (h : Heap) (live : List LiveBlock)
    (others : List Group) : Prop :=
  (heapSystem init_ram_pages user_page_limit HeapCall.Typed).Reachable ⟨h, live, others⟩

namespace HeapReachable

theorem get_page (hr : HeapReachable init_ram_pages user_page_limit h live others)
    (hcall : palloc_get_page h.palloc flags = some (p, page)) (hnull : page ≠ NULL) :
    HeapReachable init_ram_pages user_page_limit (h.setPalloc p) live
      (⟨page, 1, flags_pool flags⟩ :: others) :=
  System.Reachable.step (l := .pages (.get flags 1)) hr
    ⟨trivial, HeapStep.pages (PallocStep.get_group (Nat.le_refl 1) hcall hnull)⟩

theorem write (hr : HeapReachable init_ram_pages user_page_limit h live others) (mem : Memory) :
    HeapReachable init_ram_pages user_page_limit (h.setMem mem) live others :=
  System.Reachable.step (l := .write mem) hr ⟨trivial, HeapStep.write⟩

/-- Page tables that are added, or not, as `paging_init` goes. -/
theorem get_table (hr : HeapReachable init_ram_pages user_page_limit h live others)
    (hcall : palloc_get_page h.palloc flags = some (p, page)) :
    ∃ gs, HeapReachable init_ram_pages user_page_limit (h.setPalloc p) live (gs ++ others) := by
  by_cases hnull : page = NULL
  · subst hnull
    exact ⟨[], System.Reachable.step (l := .pages (.get flags 1)) hr
      ⟨trivial, HeapStep.pages (PallocStep.get_null (Nat.le_refl 1) hcall)⟩⟩
  · exact ⟨[⟨page, 1, flags_pool flags⟩], hr.get_page hcall hnull⟩

theorem paging_loop (n page : Nat) {h : Heap} {pt : Nat} {others : List Group}
    (hr : HeapReachable init_ram_pages user_page_limit h live others)
    (hcall : paging_init_from text_start text_end pd page n pt h.palloc = some p) :
    ∃ gs, HeapReachable init_ram_pages user_page_limit (h.setPalloc p) live (gs ++ others) := by
  induction n generalizing page h pt others with
  | zero =>
      cases hcall
      exact ⟨[], hr⟩
  | succ n ih =>
      rw [paging_init_from] at hcall
      rcases Option.bind_eq_some_iff.1 hcall with ⟨vaddr, _, hcall⟩
      simp only [Option.bind_eq_bind, Option.bind_some] at hcall
      by_cases hzero : word_at h.palloc.mem (pd + 4 * pd_no vaddr) = 0
      · rw [if_pos hzero] at hcall
        rcases Option.bind_eq_some_iff.1 hcall with ⟨⟨p', t⟩, hget, hcall⟩
        rcases Option.bind_eq_some_iff.1 hcall with ⟨e, _, hcall⟩
        rcases Option.bind_eq_some_iff.1 hcall with ⟨e', _, hcall⟩
        rcases hr.get_table hget with ⟨gs, hr₁⟩
        rcases ih (page + 1) ((hr₁.write _).write _) hcall with ⟨gs', hr₂⟩
        exact ⟨gs' ++ gs, by rw [List.append_assoc]; exact hr₂⟩
      · rw [if_neg hzero] at hcall
        rcases Option.bind_eq_some_iff.1 hcall with ⟨e', _, hcall⟩
        have hr₁ := hr.write (put_word h.palloc.mem (pt + 4 * pt_no vaddr) e')
        rcases ih (page + 1) hr₁ hcall with ⟨gs, hr₂⟩
        exact ⟨gs, hr₂⟩

/-- `paging_init` leads to a state in which the page of `init_page_dir` is in use. -/
theorem paging_init (hr : HeapReachable init_ram_pages user_page_limit h live others)
    (hcall : paging_init init_ram_pages text_start text_end h.palloc = some (p, pd))
    (hnull : pd ≠ NULL) :
    ∃ gs, HeapReachable init_ram_pages user_page_limit (h.setPalloc p) live
      (gs ++ page_group pd :: others) := by
  rw [Berk162.paging_init] at hcall
  rcases Option.bind_eq_some_iff.1 hcall with ⟨⟨p₀, pd₀⟩, hget, hcall⟩
  rcases Option.bind_eq_some_iff.1 hcall with ⟨p₁, hloop, hcall⟩
  cases hcall
  exact (hr.get_page hget hnull).paging_loop init_ram_pages 0 hloop

end HeapReachable

end

/-! ## A file that is no executable -/

/-- A machine with 272 pages of memory, a page for the command and a page for the thread. -/
def small_start : Option (StartState × Nat × Nat) := do
  let fs ← zeros_disk
  let h ← boot_heap 272
  let (p, init_page_dir) ← paging_init 272 0xc0020000 0xc0030000 h.palloc
  let (p, file_name) ← palloc_get_page p 0
  let (p, t) ← palloc_get_page p PAL_ZERO
  return (⟨272, init_page_dir, h.setPalloc p, fs⟩, t, file_name)

section

variable {s : StartState} {t file_name : Nat}

/-- Getting a page leaves the pages of `gs` in use, with their contents. -/
theorem get_page_frame {ram flags page : Nat} {p p' : Palloc} {gs others : List Group}
    (h : PallocInv ram ⟨p, gs ++ others⟩) (hcall : palloc_get_page p flags = some (p', page))
    (hnull : page ≠ NULL) :
    PallocInv ram ⟨p', gs ++ ⟨page, 1, flags_pool flags⟩ :: others⟩ ∧
      ∀ g ∈ gs, ∀ q ∈ g.bytes, p'.mem q = p.mem q := by
  have hstep : PallocStep ⟨p, others⟩ (.get flags 1) ⟨p', ⟨page, 1, flags_pool flags⟩ :: others⟩ :=
    PallocStep.get_group (Nat.le_refl 1) hcall hnull
  exact ⟨h.frame hstep, fun _ hg _ hq => h.frame_mem hstep hg hq⟩

theorem small_start_ready (h : small_start = some (s, t, file_name))
    (hinit : s.init_page_dir ≠ NULL) (ht : t ≠ NULL) (hname : file_name ≠ NULL)
    (hne : t ≠ file_name) :
    s.init_ram_pages = 272 ∧ ∃ others, s.Ready (WORD - 1) [] others t file_name := by
  rw [small_start] at h
  rcases Option.bind_eq_some_iff.1 h with ⟨fs, hfs, h⟩
  rcases Option.bind_eq_some_iff.1 h with ⟨heap, hboot, h⟩
  rcases Option.bind_eq_some_iff.1 h with ⟨⟨p₁, init_page_dir⟩, hpaging, h⟩
  rcases Option.bind_eq_some_iff.1 h with ⟨⟨p₂, page₂⟩, hget₂, h⟩
  rcases Option.bind_eq_some_iff.1 h with ⟨⟨p₃, page₃⟩, hget₃, h⟩
  cases h
  have hstart : PallocInv (ram_end 272) ⟨heap.palloc, []⟩ := by
    rcases Option.bind_eq_some_iff.1 hboot with ⟨p, hp, hmalloc⟩
    rw [malloc_init] at hmalloc
    rcases Option.bind_eq_some_iff.1 hmalloc with ⟨descs, _, hmalloc⟩
    cases hmalloc
    have hreach : (pallocSystem 272 (WORD - 1)).Reachable ⟨p, []⟩ :=
      System.Reachable.init ⟨rfl, _, _, hp⟩
    exact palloc_reachable_inv (by omega) (by omega) hreach
  rcases paging_init_spec (by omega) hstart hpaging with ⟨kern, hinv₁, hdir, huser⟩
  rcases get_page_frame hinv₁ hget₂ hname with ⟨hinv₂, hkeep₂⟩
  rcases get_page_frame hinv₂ hget₃ ht with ⟨_, hkeep₃⟩
  have hr : HeapReachable 272 (WORD - 1) heap [] [] := boot_heap_reachable _ hboot
  rcases hr.paging_init hpaging hinit with ⟨gs, hr₁⟩
  refine ⟨rfl, _, ((hr₁.get_page hget₂ hname).get_page hget₃ ht), zeros_disk_reachable hfs, ?_, ?_,
    List.mem_cons_self, List.mem_cons_of_mem _ List.mem_cons_self, hne⟩
  · exact List.mem_cons_of_mem _ (List.mem_cons_of_mem _
      (List.mem_append_right _ List.mem_cons_self))
  · intro i hi
    have hkeep : ∀ q ∈ page_bytes init_page_dir, p₃.mem q = p₁.mem q := by
      intro q hq
      rw [← page_group_bytes] at hq
      calc
        p₃.mem q = p₂.mem q := hkeep₃ _ hdir q hq
        _ = p₁.mem q := hkeep₂ _ hdir q hq
    exact (word_of_page hkeep (by omega)).trans (huser i hi)

end

set_option maxRecDepth 100000 in
/-- The page of the directory, number 786694, is not given back. -/
theorem small_start_fails :
    ∃ (s s' : StartState) (others : List Group) (t file_name : Nat), s.init_ram_pages = 272 ∧
      s.Ready (WORD - 1) [] others t file_name ∧ s.heap.CanServe sizeof_process ∧
      s.start_process (2 ^ 20) t file_name program_name unused_entry = some (s', none) ∧
      ¬ s.heap.palloc.Used 786694 ∧ s'.heap.palloc.Used 786694 := by
  have hrun : (small_start.bind fun x => (malloc x.1.heap sizeof_process).bind fun m =>
      (x.1.start_process (2 ^ 20) x.2.1 x.2.2 program_name unused_entry).map fun r =>
        (decide (m.2 ≠ NULL ∧ x.1.init_page_dir ≠ NULL ∧ x.2.1 ≠ NULL ∧ x.2.2 ≠ NULL ∧
          x.2.1 ≠ x.2.2 ∧ ¬ x.1.heap.palloc.Used 786694 ∧ r.1.heap.palloc.Used 786694), r.2)) =
      some (true, none) := by
    decide +kernel
  rcases Option.bind_eq_some_iff.1 hrun with ⟨⟨s, t, file_name⟩, hstart, hrun⟩
  rcases Option.bind_eq_some_iff.1 hrun with ⟨⟨h, x⟩, hmalloc, hrun⟩
  rcases Option.map_eq_some_iff.1 hrun with ⟨⟨s', result⟩, hcall, hresult⟩
  rw [Prod.mk.injEq] at hresult
  rcases hresult with ⟨hdec, hnone⟩
  rcases of_decide_eq_true hdec with ⟨hx, hinit, ht, hname, hne, hbefore, hafter⟩
  dsimp only at hnone hcall hmalloc hx
  subst hnone
  rcases small_start_ready hstart hinit ht hname hne with ⟨hram, others, hready⟩
  refine ⟨s, s', others, t, file_name, hram, hready, ?_, hcall, hbefore, hafter⟩
  have hinv : HeapInv False (ram_end 272) ⟨s.heap, [], others⟩ :=
    heap_reachable_inv (by omega) (by omega) (fun _ _ hf => hf.elim) (hram ▸ hready.heap)
  rcases hinv with ⟨as, hi⟩
  rcases hi.core.malloc_spec sizeof_process with ⟨_, hfull⟩ | ⟨hcan, _⟩
  · rw [hmalloc, Option.some.injEq, Prod.mk.injEq] at hfull
    exact absurd hfull.2 hx
  · exact hcan

/-- A file of 84 zeros has no executable header: the directory stays in use. -/
theorem start_process_keeps_directory :
    ∃ (s s' : StartState) (others : List Group) (t file_name : Nat), s.init_ram_pages = 272 ∧
      s.Ready (WORD - 1) [] others t file_name ∧ s.heap.CanServe sizeof_process ∧
      s.start_process (2 ^ 20) t file_name program_name unused_entry = some (s', none) ∧
      ¬ s.CleanedUp s' [t, file_name] := by
  rcases small_start_fails with
    ⟨s, s', others, t, file_name, hram, hready, hcan, hcall, hbefore, hafter⟩
  refine ⟨s, s', others, t, file_name, hram, hready, hcan, hcall, fun hclean => ?_⟩
  exact hbefore ((hclean.pools _).1 hafter).1

theorem start_process_cleans_up_iff_zeros :
    ∃ (s s' : StartState) (t file_name : Nat),
      s.start_process (2 ^ 20) t file_name program_name unused_entry = some (s', none) ∧
      (s.CleanedUp s' [t, file_name] ↔
        s.heap.palloc.free_cnt .kernel ≤ s.heap.process_pages) := by
  rcases small_start_fails with ⟨s, s', others, t, file_name, hram, hready, hcan, hcall, _⟩
  exact ⟨s, s', t, file_name, hcall, StartState.start_process_cleans_up_iff (by omega) (by omega)
    hready (Nat.le_refl _) hcan hcall⟩

end Berk162
