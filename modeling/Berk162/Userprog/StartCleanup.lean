import Berk162.Threads.MallocRuns
import Berk162.Threads.PallocCount
import Berk162.Userprog.LoadCalls
import Berk162.Userprog.StartProcess

/-!
# StartCleanup — what a process that cannot be loaded leaves behind

The block of the process, the page with the command and the thread's own page are given back, and
the executable is closed.  The directory of the process is not destroyed: if there is one, it stays
in use, with its tables and frames.
-/

namespace Berk162

/-! ## The block of the process -/

/-- The number of pages that `malloc` takes for the block of a process: one if there is no free
block of its size. -/
def Heap.process_pages (h : Heap) : Nat :=
  match (h.descFor sizeof_process).bind fun i => h.descs[i]? with
  | some d => if d.free_list = [] then 1 else 0
  | none => 0

section

variable {h h' : Heap} {d : Desc} {size i x : Nat}

theorem pop_block_palloc (hcall : pop_block h i = some (h', x)) : h'.palloc = h.palloc := by
  rw [pop_block] at hcall
  rcases Option.bind_eq_some_iff.1 hcall with ⟨d, _, hcall⟩
  cases hl : d.free_list with
  | nil =>
      simp only [hl] at hcall
      cases hcall
  | cons b l =>
      simp only [hl] at hcall
      rcases Option.bind_eq_some_iff.1 hcall with ⟨a, _, hcall⟩
      cases hcall
      rfl

theorem new_arena_palloc {ok : Bool} (hcall : new_arena h i d = some (h', ok)) (hok : ok = true) :
    ∃ a, a ≠ NULL ∧ palloc_get_page h.palloc 0 = some (h'.palloc, a) := by
  rw [new_arena] at hcall
  rcases Option.bind_eq_some_iff.1 hcall with ⟨⟨p, a⟩, hget, hcall⟩
  dsimp only at hcall
  by_cases hnull : a = NULL
  · rw [if_pos hnull] at hcall
    cases hcall
    cases hok
  · rw [if_neg hnull] at hcall
    rcases Option.bind_eq_some_iff.1 hcall with ⟨l, _, hcall⟩
    cases hcall
    exact ⟨a, hnull, hget⟩

/-- A request for a block of descriptor `i` takes a page only if there is no free block. -/
theorem malloc_palloc (hfor : h.descFor size = some i) (hd : h.descs[i]? = some d)
    (hcall : malloc h size = some (h', x)) (hx : x ≠ NULL) :
    if d.free_list = [] then ∃ a, a ≠ NULL ∧ palloc_get_page h.palloc 0 = some (h'.palloc, a)
    else h'.palloc = h.palloc := by
  have hfind : h.descs.findIdx? (fun d => decide (d.block_size ≥ size)) = some i := hfor
  rw [malloc] at hcall
  by_cases hsize : size = 0
  · rw [if_pos hsize, Option.some.injEq, Prod.mk.injEq] at hcall
    exact absurd hcall.2.symm hx
  rw [if_neg hsize, hfind] at hcall
  simp only [hd, Option.bind_eq_bind, Option.bind_some] at hcall
  split_ifs at hcall ⊢ with hempty
  · rcases Option.bind_eq_some_iff.1 hcall with ⟨⟨h₁, ok⟩, harena, hcall⟩
    cases ok with
    | false =>
        cases hcall
        exact absurd rfl hx
    | true =>
        rw [pop_block_palloc hcall]
        exact new_arena_palloc harena rfl
  · exact pop_block_palloc hcall

end

section

variable {ram : Nat} {h h' : Heap} {live as : List Nat} {others : List Group} {x : Nat}

/-- The block of a process costs `process_pages` pages, and leaves memory as it is. -/
theorem HeapCore.malloc_process (hc : HeapCore ram h live as others)
    (hcall : malloc h sizeof_process = some (h', x)) (hx : x ≠ NULL) :
    h.palloc.free_cnt .kernel = h'.palloc.free_cnt .kernel + h.process_pages ∧
      h'.mem = h.mem := by
  have hsmall : h.descFor sizeof_process ≠ none := by
    rw [ne_eq, hc.descFor_isNone]
    decide
  rcases Option.ne_none_iff_exists'.1 hsmall with ⟨i, hfor⟩
  rcases hc.descFor_some hfor with ⟨d, hd, _⟩
  have hpages : h.process_pages = if d.free_list = [] then 1 else 0 := by
    rw [Heap.process_pages, hfor, Option.bind_some, hd]
  have hpalloc := malloc_palloc hfor hd hcall hx
  rw [hpages]
  split_ifs at hpalloc ⊢ with hempty
  · rcases hpalloc with ⟨a, hnull, hget⟩
    have hpool : flags_pool 0 = .kernel := rfl
    have hcnt := palloc_get_page_free_cnt hc.pages.wf hget hnull
    rw [hpool] at hcnt
    rw [palloc_get_page] at hget
    have hmem : h'.palloc.mem = h.palloc.mem := palloc_get_multiple_mem hget
    exact ⟨hcnt, hmem⟩
  · exact ⟨by rw [hpalloc, Nat.add_zero], congrArg Palloc.mem hpalloc⟩

end

/-- After a block has come and gone, the arenas are those of before. -/
theorem HeapInvAt.arenas_restored {small : Prop} {ram : Nat} {r : HeapRun} {as as₁ as₂ : List Nat}
    {size x a : Nat} {h₁ h₂ : Heap} {p : Palloc} {others : List Group}
    (hi : HeapInvAt small ram r as)
    (hs : Served ram r.heap (r.live.map LiveBlock.addr) as r.others size h₁ x a as₁)
    (hf : Freed ram (h₁.setPalloc p) (x :: r.live.map LiveBlock.addr) as₁ others x h₂ as₂)
    (g : Group) : g ∈ as₂.map h₂.arenaGroup ↔ g ∈ as.map r.heap.arenaGroup := by
  have hround := hs.core.round_down hs.mem hs.block
  have hmem : ∀ a', a' ∈ as₂ ↔ a' ∈ as := by
    intro a'
    by_cases hshared : ∃ b ∈ r.live, pg_round_down b.addr = a
    · -- the block comes from an arena that was there before, and it stays
      rcases hshared with ⟨b, hb, hba⟩
      have haddr : b.addr ∈ r.live.map LiveBlock.addr := List.mem_map_of_mem hb
      have hne : b.addr ≠ x := by
        rintro rfl
        exact (List.nodup_cons.1 hs.core.live_nodup).1 haddr
      have hold : a ∈ as := by
        rcases hi.core.live_block _ haddr with ⟨c, hc, hblock⟩
        have hca := hi.core.round_down hc hblock
        rw [hba] at hca
        rwa [hca]
      have hsame : as₂ = as₁ :=
        (hf.shared ⟨b.addr, List.mem_cons_of_mem _ haddr, hne, hba.trans hround.symm⟩).1
      rw [hsame]
      refine ⟨fun ha' => ?_, hs.sub a'⟩
      rcases hs.old a' ha' with rfl | ha'
      · exact hold
      · exact ha'
    · -- the arena is new, and the block was the only one
      have hfresh : a ∉ as := fun ha => hshared (hi.used a ha)
      have hlast : ∀ y ∈ x :: r.live.map LiveBlock.addr, y ≠ x →
          pg_round_down y ≠ pg_round_down x := by
        intro y hy hne heq
        rcases List.mem_map.1 ((List.mem_cons.1 hy).resolve_left hne) with ⟨b, hb, rfl⟩
        exact hshared ⟨b, hb, heq.trans hround⟩
      rw [(hf.last hlast).1, hs.core.arenas_nodup.mem_erase_iff, hround]
      constructor
      · rintro ⟨hne, ha'⟩
        exact (hs.old a' ha').resolve_left hne
      · intro ha'
        exact ⟨fun heq => hfresh (heq ▸ ha'), hs.sub a' ha'⟩
  have hgroup : ∀ a' ∈ as₂, h₂.arenaGroup a' = r.heap.arenaGroup a' := by
    intro a' ha'
    have hkeep₂ := (hf.keeps a' ha').2
    have hkeep₁ := hs.keeps a' ((hmem a').1 ha')
    rw [Heap.arenaGroup, Heap.arenaGroup]
    rw [hkeep₂.2, Heap.setPalloc_arenas, hkeep₁.2]
  simp only [List.mem_map]
  constructor
  · rintro ⟨a', ha', rfl⟩
    exact ⟨a', (hmem a').1 ha', (hgroup a' ha').symm⟩
  · rintro ⟨a', ha', rfl⟩
    exact ⟨a', (hmem a').2 ha', hgroup a' ((hmem a').2 ha')⟩

/-! ## The directory -/

theorem pagedir_create_null_iff {ram : Nat} {p : Palloc} {live : List Group}
    (h : PallocInv ram ⟨p, live⟩) (init_page_dir : Nat) :
    pagedir_create p init_page_dir = some (p, NULL) ↔ ¬ p.HasRun .kernel 1 := by
  have hpool : flags_pool 0 = .kernel := rfl
  rw [pagedir_create, palloc_get_page]
  rcases h.get_cases 0 (Nat.le_refl 1) with ⟨hrun, a, page, hcall, hnull, _⟩ | ⟨hno, hcall⟩
  · refine iff_of_false (fun hc => ?_) (not_not.2 hrun)
    rw [hcall, Option.bind_eq_bind, Option.bind_some] at hc
    simp only [if_pos hnull] at hc
    cases hc
    exact hnull rfl
  · refine iff_of_true ?_ hno
    rw [hcall, if_neg (by decide)]
    rfl

section

variable {s : Loader} {rounds : Nat} {live : List Group}

/-- After `load` the directory that it has created is in use, with all it holds. -/
theorem Loader.load_holds (hpages : PallocInv (ram_end s.init_ram_pages) ⟨s.alloc, live⟩)
    (hinit : page_group s.init_page_dir ∈ live)
    (huser : ∀ i, i < 768 → word_at s.alloc.mem (s.init_page_dir + 4 * i) = 0)
    (hfs : Between s.fs) (hrounds : 2 ^ 20 ≤ rounds) (name : CString) (e : DirEntry) :
    ∃ s' result held, s.load rounds name e = some (s', result) ∧
      (∀ f, s'.fs.files.get f = s.fs.files.get f) ∧
      PallocInv (ram_end s.init_ram_pages) ⟨s'.alloc, held ++ live⟩ ∧
      (result = none → (held = [] ↔ ¬ s.alloc.HasRun .kernel 1)) := by
  have hempty := @dir_groups_empty NULL (fun _ => none) (fun _ => none) (fun _ => rfl) fun _ => rfl
  rw [if_pos rfl] at hempty
  have hinv : PagedirInvAt (ram_end s.init_ram_pages)
      ⟨s.alloc, s.init_page_dir, fun i => word_at s.alloc.mem (s.init_page_dir + 4 * i), NULL,
        fun _ => none, []⟩ (fun _ => none) live := by
    refine ⟨?_, hinit, ⟨huser, fun _ _ _ => rfl⟩, fun hne => absurd rfl hne,
      fun _ => ⟨fun _ => rfl, fun _ => rfl⟩, fun _ _ hm => absurd hm.symm (Option.some_ne_none _)⟩
    rw [hempty, List.nil_append, List.append_nil]
    exact hpages
  rcases load_spec hinv hfs hrounds name e with
    ⟨s', result, hload, hram, _, hfiles, hspec⟩
  cases hspec with
  | no_directory hnull =>
      exact ⟨_, _, [], hload, hfiles, hpages,
        fun _ => iff_of_true rfl ((pagedir_create_null_iff hpages _).1 hnull)⟩
  | failed hshows =>
      rcases hshows with ⟨pt, map, hat, _⟩
      have hheld : dir_groups s'.pagedir pt map ≠ [] := List.ne_nil_of_mem (pd_mem hat.pagedir_ne)
      have hpages' := hat.inv.pages
      dsimp only [Loader.run] at hpages'
      rw [List.append_nil, hram] at hpages'
      refine ⟨_, _, _, hload, hfiles, hpages', fun _ => iff_of_false hheld fun hno => ?_⟩
      -- without a page there would be no directory
      rw [s.load_no_directory ((pagedir_create_null_iff hpages _).2 hno), Option.some.injEq,
        Prod.mk.injEq] at hload
      exact hat.pagedir_ne (congrArg Loader.pagedir hload.1).symm
  | loaded hshows _ _ =>
      rcases hshows with ⟨pt, map, hat, _⟩
      have hpages' := hat.inv.pages
      dsimp only [Loader.run] at hpages'
      rw [List.append_nil, hram] at hpages'
      exact ⟨_, _, _, hload, hfiles, hpages', fun hnone => absurd hnone (Option.some_ne_none _)⟩

end

/-! ## `start_process` -/

/-- A thread at `t` may run `start_process` with the command in the page `file_name`: the allocators
and the file system are in states that runs lead to, and the directory of the kernel has an empty
user half. -/
structure StartState.Ready (s : StartState) (user_page_limit : Nat) (live : List LiveBlock)
    (others : List Group) (t file_name : Nat) : Prop where
  heap : (heapSystem s.init_ram_pages user_page_limit HeapCall.Typed).Reachable
    ⟨s.heap, live, others⟩
  fs : fsRuns.Reachable s.fs
  init_page_dir : page_group s.init_page_dir ∈ others
  user_half : ∀ i, i < 768 → word_at s.heap.mem (s.init_page_dir + 4 * i) = 0
  thread_page : page_group t ∈ others
  name_page : page_group file_name ∈ others
  apart : t ≠ file_name

theorem mem_page_group {page n : Nat} : n ∈ (page_group page).extent ↔ n = pg_no page := by
  rw [Extent.mem_def]
  simp only [Group.extent, page_group]
  omega

theorem page_group_injective {page page' : Nat} (h : page_group page = page_group page') :
    page = page' :=
  congrArg Group.pages h

namespace StartState

variable {s s₁ s₂ s₃ s₄ : StartState} {ram rounds t file_name page x : Nat} {name : CString}
  {e : DirEntry} {h₁ h₂ : Heap} {groups : List Group}

theorem free_page_spec (h : PallocInv ram ⟨s.heap.palloc, groups⟩)
    (hpage : page_group page ∈ groups) :
    ∃ s', s.free_page page = some s' ∧
      PallocInv ram ⟨s'.heap.palloc, groups.erase (page_group page)⟩ ∧ s'.fs = s.fs ∧
      ∀ n, s'.heap.palloc.Used n ↔ s.heap.palloc.Used n ∧ n ≠ pg_no page := by
  have hfirst := h.perm (List.perm_cons_erase hpage)
  rcases hfirst.free_page rfl with ⟨p, hp, hinv, _⟩
  refine ⟨s.setHeap (s.heap.setPalloc p), ?_, hinv, rfl, fun n => ?_⟩
  · have hcall : palloc_free_page s.heap.palloc page = some p := hp
    rw [free_page, hcall]
    rfl
  · refine (hfirst.used_tail hinv n).trans (and_congr_right fun _ => ?_)
    rw [mem_page_group]

/-- The two pages that a thread gives back when it exits. -/
theorem free_pages_spec (h : PallocInv ram ⟨s.heap.palloc, groups⟩)
    (hname : page_group file_name ∈ groups) (ht : page_group t ∈ groups) (hne : t ≠ file_name) :
    ∃ s₁ s₂, s.free_page file_name = some s₁ ∧ s₁.thread_exit t = some s₂ ∧ s₂.fs = s.fs ∧
      ∀ n, s₂.heap.palloc.Used n ↔ s.heap.palloc.Used n ∧ n ≠ pg_no file_name ∧ n ≠ pg_no t := by
  rcases free_page_spec h hname with ⟨s₁, hs₁, hinv, hfs₁, hused₁⟩
  have ht' : page_group t ∈ groups.erase (page_group file_name) :=
    (List.mem_erase_of_ne fun heq => hne (page_group_injective heq)).2 ht
  rcases free_page_spec hinv ht' with ⟨s₂, hs₂, _, hfs₂, hused₂⟩
  refine ⟨s₁, s₂, hs₁, hs₂, hfs₂.trans hfs₁, fun n => ?_⟩
  rw [hused₂, hused₁, and_assoc]

/-! ### The ways through `start_process` -/

theorem start_process_no_block (hmalloc : malloc s.heap sizeof_process = some (h₁, NULL))
    (hname : (s.setHeap h₁).free_page file_name = some s₁)
    (hexit : s₁.thread_exit t = some s₂) :
    s.start_process rounds t file_name name e = some (s₂, none) := by
  rw [start_process, hmalloc]
  simp only [Option.bind_eq_bind, Option.bind_some, ne_eq, not_true_eq_false, and_false, if_false,
    hname, hexit]
  rfl

theorem start_process_fails (hmalloc : malloc s.heap sizeof_process = some (h₁, x))
    (hx : x ≠ NULL) (hload : (s.setHeap h₁).load rounds name e = some (s₁, none))
    (hfree : free s₁.heap x = some h₂) (hname : (s₁.setHeap h₂).free_page file_name = some s₂)
    (hexit : s₂.thread_exit t = some s₃) :
    s.start_process rounds t file_name name e = some (s₃, none) := by
  rw [start_process, hmalloc]
  simp only [Option.bind_eq_bind, Option.bind_some, ne_eq, hx, not_false_eq_true, and_true, if_true,
    hload, hfree, hname, hexit]
  rfl

theorem start_process_runs {regs : Nat × Nat}
    (hmalloc : malloc s.heap sizeof_process = some (h₁, x)) (hx : x ≠ NULL)
    (hload : (s.setHeap h₁).load rounds name e = some (s₁, some regs))
    (hname : s₁.free_page file_name = some s₂) :
    s.start_process rounds t file_name name e = some (s₂, some regs) := by
  rw [start_process, hmalloc]
  simp only [Option.bind_eq_bind, Option.bind_some, ne_eq, hx, not_false_eq_true, and_true, if_true,
    hload, reduceCtorEq, if_false, hname]
  rfl

/-! ### What stays in use -/

/-- After `start_process` has given up, the pages of `leaked` are still in use. -/
structure Leaves (s s' : StartState) (t file_name : Nat) (leaked : List Group) : Prop where
  used : ∀ n, s'.heap.palloc.Used n ↔
    (s.heap.palloc.Used n ∨ ∃ g ∈ leaked, n ∈ g.extent) ∧ n ≠ pg_no file_name ∧ n ≠ pg_no t
  fresh : ∀ g ∈ leaked, ∀ n ∈ g.extent, ¬ s.heap.palloc.Used n
  pos : ∀ g ∈ leaked, 1 ≤ g.page_cnt
  files : ∀ f, s'.fs.files.get f = s.fs.files.get f

variable {user_page_limit : Nat} {live : List LiveBlock} {others : List Group}

/-- `start_process` returns.  When the executable cannot be loaded, nothing is left behind exactly
if there is no page for a directory. -/
theorem start_process_spec (hlo : 256 ≤ s.init_ram_pages) (hhi : s.init_ram_pages < 2 ^ 18)
    (h : s.Ready user_page_limit live others t file_name) (hrounds : 2 ^ 20 ≤ rounds)
    (name : CString) (e : DirEntry) :
    ∃ s' result, s.start_process rounds t file_name name e = some (s', result) ∧
      (s.heap.CanServe sizeof_process → result = none → ∃ leaked, s.Leaves s' t file_name leaked ∧
        (leaked = [] ↔ s.heap.palloc.free_cnt .kernel ≤ s.heap.process_pages)) := by
  have hinv : HeapInv False (ram_end s.init_ram_pages) ⟨s.heap, live, others⟩ :=
    heap_reachable_inv hlo hhi (fun _ _ hf => hf.elim) h.heap
  rcases hinv with ⟨as, hi⟩
  rcases hi.core.malloc_spec sizeof_process with
    ⟨hno, hmalloc⟩ | ⟨_, h₁, x, a, as₁, hmalloc, hs⟩
  · rcases @free_pages_spec (s.setHeap s.heap) _ t file_name _ hi.core.pages
      (List.mem_append_right _ h.name_page) (List.mem_append_right _ h.thread_page) h.apart with
      ⟨s₁, s₂, hname, hexit, _⟩
    exact ⟨s₂, none, start_process_no_block hmalloc hname hexit, fun hcan => absurd hcan hno⟩
  have hx := hs.core.block_ne_null hs.mem hs.block
  rcases hi.core.malloc_process hmalloc hx with ⟨hcost, hmem⟩
  dsimp only at hmalloc hs hcost hmem
  have huser : ∀ i, i < 768 → word_at h₁.mem (s.init_page_dir + 4 * i) = 0 := by
    rw [hmem]
    exact h.user_half
  rcases @Loader.load_holds (s.setHeap h₁).loader rounds _ hs.core.pages
    (List.mem_append_right _ h.init_page_dir) huser (fsRuns_between h.fs) hrounds name e with
    ⟨l, result, held, hload, hfiles, hheld, hnone⟩
  have hstart : (s.setHeap h₁).load rounds name e =
      some (⟨s.init_ram_pages, s.init_page_dir, h₁.setPalloc l.alloc, l.fs⟩, result) := by
    rw [load, hload]
    rfl
  cases result with
  | some regs =>
      rcases @free_page_spec ⟨s.init_ram_pages, s.init_page_dir, h₁.setPalloc l.alloc, l.fs⟩ _ _ _
        hheld (List.mem_append_right _ (List.mem_append_right _ h.name_page)) with ⟨s₂, hname, _⟩
      exact ⟨s₂, some regs, start_process_runs hmalloc hx hstart hname,
        fun _ hn => absurd hn (Option.some_ne_none _)⟩
  | none =>
      -- the block is freed while what the directory holds is still in use
      have hcore := hs.core.setPalloc (hheld.perm (List.perm_append_comm_assoc _ _ _))
      rcases hcore.free_spec List.mem_cons_self with ⟨h₂, as₂, hfree, hf⟩
      have hpages := hf.core.pages
      have hmem_others : ∀ {g}, g ∈ others → g ∈ as₂.map h₂.arenaGroup ++ (held ++ others) :=
        fun hg => List.mem_append_right _ (List.mem_append_right _ hg)
      rcases @free_pages_spec ⟨s.init_ram_pages, s.init_page_dir, h₂, l.fs⟩ _ t file_name _ hpages
        (hmem_others h.name_page) (hmem_others h.thread_page) h.apart with
        ⟨s₂, s₃, hname, hexit, hfs, hused⟩
      have harenas := hi.arenas_restored hs hf
      have hbefore : ∀ n, s.heap.palloc.Used n ↔
          ∃ g ∈ as₂.map h₂.arenaGroup ++ others, n ∈ g.extent := by
        intro n
        rw [hi.core.pages.used_iff]
        simp only [List.mem_append, harenas]
      have hfirst := hpages.perm (List.perm_append_comm_assoc _ _ _)
      refine ⟨s₃, none, start_process_fails hmalloc hx hstart hfree hname hexit,
        fun _ _ => ⟨held, ⟨fun n => ?_, fun g hg n hn hused => ?_, fun g hg => ?_, fun f => ?_⟩, ?_⟩⟩
      · rw [hused n, hfirst.used_iff, hbefore n]
        refine and_congr_left fun _ => ?_
        simp only [List.mem_append, or_and_right, exists_or]
        exact or_comm
      · rcases (hbefore n).1 hused with ⟨g', hg', hn'⟩
        exact hfirst.extents_apart hg hg' hn hn'
      · exact (hfirst.inside g (List.mem_append_left _ hg)).pos
      · rw [hfs]
        exact hfiles f
      · rw [hnone rfl, loader_alloc, setHeap_heap, Palloc.hasRun_one]
        omega

/-- The pools hold the pages of before without those of `freed`, and the open files are those of
before. -/
structure CleanedUp (s s' : StartState) (freed : List Nat) : Prop where
  pools : ∀ n, s'.heap.palloc.Used n ↔ s.heap.palloc.Used n ∧ n ∉ freed.map pg_no
  files : ∀ f, s'.fs.files.get f = s.fs.files.get f

theorem Leaves.cleanedUp_iff {leaked : List Group} (h : s.Leaves s₁ t file_name leaked)
    (ht : s.heap.palloc.Used (pg_no t)) (hname : s.heap.palloc.Used (pg_no file_name)) :
    s.CleanedUp s₁ [t, file_name] ↔ leaked = [] := by
  constructor
  · intro hclean
    by_contra hne
    rcases List.exists_mem_of_ne_nil _ hne with ⟨g, hg⟩
    have hn : pg_no g.pages ∈ g.extent := Extent.start_mem (h.pos g hg)
    have hfresh := h.fresh g hg _ hn
    have hafter : s₁.heap.palloc.Used (pg_no g.pages) :=
      (h.used _).2 ⟨Or.inr ⟨g, hg, hn⟩, fun heq => hfresh (heq ▸ hname),
        fun heq => hfresh (heq ▸ ht)⟩
    exact hfresh ((hclean.pools _).1 hafter).1
  · rintro rfl
    refine ⟨fun n => ?_, h.files⟩
    rw [h.used n]
    simp only [List.not_mem_nil, false_and, exists_false, or_false, List.map_cons, List.map_nil,
      List.mem_cons, not_or]
    exact and_congr_right fun _ => and_comm

/-- When the executable cannot be loaded, what `start_process` has allocated is given back exactly
if the kernel pool has no page left for a directory once the block of the process is there. -/
theorem start_process_cleans_up_iff (hlo : 256 ≤ s.init_ram_pages)
    (hhi : s.init_ram_pages < 2 ^ 18) (h : s.Ready user_page_limit live others t file_name)
    (hrounds : 2 ^ 20 ≤ rounds) (hcan : s.heap.CanServe sizeof_process) {s' : StartState}
    (hfails : s.start_process rounds t file_name name e = some (s', none)) :
    s.CleanedUp s' [t, file_name] ↔
      s.heap.palloc.free_cnt .kernel ≤ s.heap.process_pages := by
  rcases start_process_spec hlo hhi h hrounds name e with ⟨s₁, result, hcall, hleaves⟩
  rw [hfails, Option.some.injEq, Prod.mk.injEq] at hcall
  rcases hcall with ⟨rfl, rfl⟩
  rcases hleaves hcan rfl with ⟨leaked, hleaves, hiff⟩
  have hinv : HeapInv False (ram_end s.init_ram_pages) ⟨s.heap, live, others⟩ :=
    heap_reachable_inv hlo hhi (fun _ _ hf => hf.elim) h.heap
  rcases hinv with ⟨as, hi⟩
  have hlive : ∀ {page}, page_group page ∈ others → s.heap.palloc.Used (pg_no page) :=
    fun hpage => hi.core.pages.used_of_mem (List.mem_append_right _ hpage) _ (mem_page_group.2 rfl)
  rw [hleaves.cleanedUp_iff (hlive h.thread_page) (hlive h.name_page), hiff]

end StartState

end Berk162
