import Berk162.Userprog.StartRuns
import Berk162.Userprog.UserMode

/-!
# ProcessExit — what is left of a process that has run

A process that `start_process` has started runs user code, and exits or is killed: `process_exit`
destroys its directory, frees its control block and ends the thread.  User code cannot have touched
what was in use before; so afterwards the pools hold what they held before, but for the pages of the
thread and of the command.
-/

namespace Berk162

namespace StartState

/-- `process_exit` in the thread `t` with the control block `pcb`, whose `pagedir` is `pd`. -/
def process_exit (s : StartState) (t pcb pd : Nat) : Option StartState := do
  let alloc ←
    if pd ≠ NULL then pagedir_destroy s.heap.palloc s.init_page_dir pd else some s.heap.palloc
  let heap ← free (s.heap.setPalloc alloc) pcb
  (s.setHeap heap).thread_exit t

/-- What user code that runs with the directory `pd` makes of the state. -/
def AfterUser (s : StartState) (pd : Nat) (s' : StartState) : Prop :=
  ∃ a, UserRun pd s.heap.palloc a ∧ s' = s.setHeap (s.heap.setPalloc a)

end StartState

section

variable {s s' : Loader} {rounds : Nat} {kern others : List Group} {name : CString} {e : DirEntry}
  {regs : Nat × Nat}

/-- After a `load` that succeeds the process has its directory, and the executable is closed. -/
theorem Loader.load_shows (hpages : PallocInv (ram_end s.init_ram_pages) ⟨s.alloc, kern ++ others⟩)
    (hinit : page_group s.init_page_dir ∈ kern)
    (huser : ∀ i, i < 768 → word_at s.alloc.mem (s.init_page_dir + 4 * i) = 0)
    (hfs : Between s.fs) (hrounds : 2 ^ 20 ≤ rounds)
    (hload : s.load rounds name e = some (s', some regs)) :
    s'.init_ram_pages = s.init_ram_pages ∧ (∀ f, s'.fs.files.get f = s.fs.files.get f) ∧
      ∃ kernel space, s'.Shows kernel kern others space := by
  have hempty := @dir_groups_empty NULL (fun _ => none) (fun _ => none) (fun _ => rfl) fun _ => rfl
  rw [if_pos rfl] at hempty
  have hinv : PagedirInvAt (ram_end s.init_ram_pages)
      ⟨s.alloc, s.init_page_dir, fun i => word_at s.alloc.mem (s.init_page_dir + 4 * i), NULL,
        fun _ => none, others⟩ (fun _ => none) kern := by
    refine ⟨?_, hinit, ⟨huser, fun _ _ _ => rfl⟩, fun hne => absurd rfl hne,
      fun _ => ⟨fun _ => rfl, fun _ => rfl⟩, fun _ _ hm => absurd hm.symm (Option.some_ne_none _)⟩
    rw [hempty, List.nil_append]
    exact hpages
  rcases load_spec hinv hfs hrounds name e with ⟨s₁, result, hcall, hram, _, hfiles, hspec⟩
  rw [hload, Option.some.injEq, Prod.mk.injEq] at hcall
  rcases hcall with ⟨rfl, rfl⟩
  cases hspec with
  | loaded hshows _ _ =>
      exact ⟨hram, hfiles, _, _, hshows⟩

end

namespace StartState

variable {s s₁ s₂ : StartState} {user_page_limit rounds t file_name : Nat} {live : List LiveBlock}
  {others : List Group} {name : CString} {e : DirEntry} {regs : Nat × Nat}

/-- How a `start_process` that succeeds goes: the block of the process, its directory and memory,
and the page of the command freed. -/
theorem start_process_inv
    (hstart : s.start_process rounds t file_name name e = some (s₁, some regs)) :
    ∃ h₁ pcb l, malloc s.heap sizeof_process = some (h₁, pcb) ∧ pcb ≠ NULL ∧
      (s.setHeap h₁).loader.load rounds name e = some (l, some regs) ∧
      (⟨s.init_ram_pages, s.init_page_dir, h₁.setPalloc l.alloc, l.fs⟩ : StartState).free_page
        file_name = some s₁ := by
  rw [start_process] at hstart
  rcases Option.bind_eq_some_iff.1 hstart with ⟨⟨h₁, pcb⟩, hmalloc, hstart⟩
  dsimp only at hstart
  by_cases hpcb : pcb ≠ NULL
  · rw [if_pos hpcb] at hstart
    rcases Option.bind_eq_some_iff.1 hstart with ⟨⟨s', result⟩, hload, hstart⟩
    dsimp only at hstart
    cases result with
    | none =>
        -- a thread that has failed has no registers
        rw [if_pos ⟨rfl, hpcb⟩] at hstart
        rcases Option.bind_eq_some_iff.1 hstart with ⟨_, _, hstart⟩
        rcases Option.bind_eq_some_iff.1 hstart with ⟨_, _, hstart⟩
        rcases Option.bind_eq_some_iff.1 hstart with ⟨_, _, hstart⟩
        rcases Option.bind_eq_some_iff.1 hstart with ⟨_, _, hstart⟩
        cases hstart
    | some r =>
        simp only [reduceCtorEq, false_and, if_false, Option.bind_eq_bind,
          Option.bind_some] at hstart
        rcases Option.bind_eq_some_iff.1 hstart with ⟨s₂, hname, hstart⟩
        cases hstart
        rw [StartState.load] at hload
        rcases Option.bind_eq_some_iff.1 hload with ⟨⟨l, r⟩, hcall, hload⟩
        cases hload
        exact ⟨h₁, pcb, l, hmalloc, hpcb, hcall, hname⟩
  · rw [if_neg hpcb] at hstart
    rcases Option.bind_eq_some_iff.1 hstart with ⟨⟨s', result⟩, hnone, hstart⟩
    cases hnone
    rw [if_neg fun hnull => hpcb hnull.2] at hstart
    rcases Option.bind_eq_some_iff.1 hstart with ⟨_, _, hstart⟩
    rcases Option.bind_eq_some_iff.1 hstart with ⟨_, _, hstart⟩
    rcases Option.bind_eq_some_iff.1 hstart with ⟨_, _, hstart⟩
    cases hstart

/-- A byte of a page that is in use is in one of the groups. -/
theorem mem_bytes_of_used {ram q : Nat} {p : Palloc} {groups : List Group}
    (h : PallocInv ram ⟨p, groups⟩) (hused : p.Used (pg_no q)) :
    ∃ g ∈ groups, q ∈ g.bytes ∧ pg_no q ∈ g.extent := by
  rcases (h.used_iff _).1 hused with ⟨g, hg, hin⟩
  refine ⟨g, hg, ?_, hin⟩
  have hal := (h.inside g hg).aligned
  rw [Extent.mem_def] at hin ⊢
  simp only [Group.extent, Group.bytes, pg_no, PGSIZE_eq] at hin hal ⊢
  omega

/-- After `load` the page of the command is freed; the process has its directory and memory. -/
theorem load_then_free {h₁ : Heap} {l : Loader} {groups : List Group}
    (hpages : PallocInv (ram_end s.init_ram_pages) ⟨h₁.palloc, groups⟩)
    (hinit : page_group s.init_page_dir ∈ groups) (hcmd : page_group file_name ∈ groups)
    (hapart : file_name ≠ s.init_page_dir)
    (huser : ∀ i, i < 768 → word_at h₁.mem (s.init_page_dir + 4 * i) = 0) (hfs : Between s.fs)
    (hrounds : 2 ^ 20 ≤ rounds)
    (hload : (s.setHeap h₁).loader.load rounds name e = some (l, some regs))
    (hname : StartState.free_page ⟨s.init_ram_pages, s.init_page_dir, h₁.setPalloc l.alloc, l.fs⟩
      file_name = some s₁) :
    ∃ p kernel rest pt map, s₁ = ⟨s.init_ram_pages, s.init_page_dir, h₁.setPalloc p, l.fs⟩ ∧
      (∀ f, l.fs.files.get f = s.fs.files.get f) ∧
      ([page_group s.init_page_dir] ++ rest).Perm (groups.erase (page_group file_name)) ∧
      l.init_ram_pages = s.init_ram_pages ∧ l.init_page_dir = s.init_page_dir ∧
      LoaderAt (l.setAlloc p) kernel [page_group s.init_page_dir] rest pt map := by
  have hne : page_group s.init_page_dir ≠ page_group file_name := fun heq =>
    hapart (page_group_injective heq).symm
  have hinit' : page_group s.init_page_dir ∈ groups.erase (page_group file_name) :=
    (List.mem_erase_of_ne hne).2 hinit
  set rest := (groups.erase (page_group file_name)).erase (page_group s.init_page_dir) with hrest
  have hperm : ([page_group s.init_page_dir] ++ rest).Perm (groups.erase (page_group file_name)) :=
    (List.perm_cons_erase hinit').symm
  have hgroups : groups.Perm ([page_group s.init_page_dir] ++ (page_group file_name :: rest)) := by
    calc
      List.Perm groups (page_group file_name :: groups.erase (page_group file_name)) :=
        List.perm_cons_erase hcmd
      List.Perm _ (page_group file_name :: ([page_group s.init_page_dir] ++ rest)) :=
        hperm.symm.cons _
      List.Perm _ ([page_group s.init_page_dir] ++ (page_group file_name :: rest)) :=
        List.perm_middle.symm
  rcases Loader.load_shows (s := (s.setHeap h₁).loader) (hpages.perm hgroups)
    (List.mem_singleton.2 rfl) huser hfs hrounds hload with
    ⟨hram, hfiles, kernel, space, pt, map, hat, _⟩
  rw [free_page] at hname
  rcases Option.bind_eq_some_iff.1 hname with ⟨p, hfree, hs₁⟩
  cases hs₁
  have hdir : l.init_page_dir = s.init_page_dir :=
    page_group_injective (List.mem_singleton.1 hat.inv.init)
  have hstep : PallocStep ⟨l.alloc, page_group file_name :: rest⟩ (.free (page_group file_name))
      ⟨p, (page_group file_name :: rest).erase (page_group file_name)⟩ :=
    PallocStep.free List.mem_cons_self hfree
  have hat' := (hat.pages_step hstep).1
  rw [List.erase_cons_head] at hat'
  exact ⟨p, kernel, rest, pt, map, rfl, hfiles, hperm, hram, hdir, hat'⟩

/-- The page of a block that has been served is one of its arena. -/
theorem mem_arena_of_served {ram size x a q : Nat} {h h₁ : Heap} {addrs as as₁ : List Nat}
    {gs : List Group} (hs : Served ram h addrs as gs size h₁ x a as₁) (hsize : NoWrap size)
    (hpos : 0 < size) (hq : pg_no q = pg_no x) : q ∈ (h₁.arenaGroup a).bytes := by
  rcases hs.core.block_inside hs.mem hs.block with ⟨hlo, hhi⟩
  have hroom := hs.room_ge hsize
  have hal := hs.core.aligned hs.mem
  rw [Extent.mem_def]
  simp only [Heap.arenaGroup, Group.bytes, pg_no, PGSIZE_eq] at hq hal hhi ⊢
  omega

/-- Erasing from the second of two lists. -/
theorem perm_erase_append {g : Group} {gs others : List Group} (h : g ∈ others) :
    ((gs ++ others).erase g).Perm (gs ++ others.erase g) := by
  have hsplit : (gs ++ others).Perm (g :: (gs ++ others.erase g)) :=
    ((List.perm_cons_erase h).append_left gs).trans List.perm_middle
  have herase := hsplit.erase g
  rwa [List.erase_cons_head] at herase

/-- The live blocks of `s'` are those that `s` has, each as big as before. -/
structure SameBlocks (s s' : StartState) (live : List LiveBlock) (others : List Group) : Prop where
  inv : HeapInv False (ram_end s.init_ram_pages) ⟨s'.heap, live, others⟩
  block_size : ∀ b ∈ live, block_size s'.heap b.addr = block_size s.heap b.addr

/-- After a block has come and gone, a block of before is as big as it was. -/
theorem block_size_restored {ram size x a : Nat} {r : HeapRun} {as as₁ as₂ : List Nat}
    {h₁ h₂ h₃ : Heap} {p : Palloc} {gs gs' : List Group} (hi : HeapInvAt False ram r as)
    (hs : Served ram r.heap (r.live.map LiveBlock.addr) as r.others size h₁ x a as₁)
    (hf : Freed ram (h₁.setPalloc p) (x :: r.live.map LiveBlock.addr) as₁ gs x h₂ as₂)
    (hi₃ : HeapInvAt False ram ⟨h₃, r.live, gs'⟩ as₂)
    (hsame : ∀ a, h₃.room a = h₂.room a) {b : LiveBlock} (hb : b ∈ r.live) :
    block_size h₃ b.addr = block_size r.heap b.addr := by
  rcases hi.live_at hb with ⟨ha, hblock⟩
  rcases hi₃.live_at hb with ⟨ha₂, hblock₃⟩
  have hshape₁ := hs.core.shape.trans hi.core.shape.symm
  have hshape₂ : h₂.descs.map Desc.shape = (h₁.setPalloc p).descs.map Desc.shape :=
    hf.core.shape.trans hs.core.shape.symm
  have hroom₁ := Heap.room_of_keeps (hs.keeps _ ha) hshape₁
  have hroom₂ := Heap.room_of_keeps (hf.keeps _ ha₂).2 hshape₂
  have hroom : h₃.room (pg_round_down b.addr) = r.heap.room (pg_round_down b.addr) :=
    (hsame _).trans (hroom₂.trans hroom₁)
  rw [hi.core.block_size_eq ha hblock, hi₃.core.block_size_eq ha₂ hblock₃, hroom]

/-- What the exit of a process leaves once its directory is gone: the block of the process and the
page of the thread are given back. -/
theorem exit_spec (fs : FileSys) {as as₁ : List Nat} {h₁ : Heap} {c : Palloc} {pcb a size pd : Nat}
    (hi : HeapInvAt False (ram_end s.init_ram_pages) ⟨s.heap, live, others⟩ as)
    (hs : Served (ram_end s.init_ram_pages) s.heap (live.map LiveBlock.addr) as others size h₁ pcb a
      as₁)
    (hname : page_group file_name ∈ others) (ht : page_group t ∈ others) (hne : t ≠ file_name)
    (hpages : PallocInv (ram_end s.init_ram_pages)
      ⟨c, (as₁.map h₁.arenaGroup ++ others).erase (page_group file_name)⟩) (hpd : pd ≠ NULL)
    {b : Palloc} (hdestroy : pagedir_destroy b s.init_page_dir pd = some c) :
    ∃ s', (⟨s.init_ram_pages, s.init_page_dir, h₁.setPalloc b, fs⟩ : StartState).process_exit t pcb
        pd = some s' ∧ s'.fs = fs ∧ (∀ n, s'.heap.palloc.Used n ↔
          s.heap.palloc.Used n ∧ n ≠ pg_no file_name ∧ n ≠ pg_no t) ∧
        s.SameBlocks s' live ((others.erase (page_group file_name)).erase (page_group t)) := by
  have hnull := hs.core.block_ne_null hs.mem hs.block
  have hgain : gain pcb size live = ⟨pcb, size⟩ :: live := if_neg hnull
  have hserve : HeapInvAt False (ram_end s.init_ram_pages)
      ⟨h₁, ⟨pcb, size⟩ :: live, others⟩ as₁ := by
    rw [← hgain]
    exact hi.serve hs fun hf => hf.elim
  have hpool := hserve.setPalloc (hpages.perm (perm_erase_append hname))
  rcases hpool.core.free_spec List.mem_cons_self with ⟨h₂, as₂, hfree, hf⟩
  have hfreed := hpool.freed hf
  have hlose : lose pcb (⟨pcb, size⟩ :: live) = live := List.eraseP_cons_of_pos (by simp)
  rw [hlose] at hfreed
  have hthread : page_group t ∈ others.erase (page_group file_name) :=
    (List.mem_erase_of_ne fun heq => hne (page_group_injective heq)).2 ht
  have ht' : page_group t ∈ as₂.map h₂.arenaGroup ++ others.erase (page_group file_name) :=
    List.mem_append_right _ hthread
  rcases @free_page_spec ⟨s.init_ram_pages, s.init_page_dir, h₂, fs⟩ _ _ _ hfreed.core.pages ht'
    with ⟨s', hexit, hinv', hfs, hused⟩
  obtain ⟨p, rfl⟩ : ∃ p, s' = ⟨s.init_ram_pages, s.init_page_dir, h₂.setPalloc p, fs⟩ := by
    rcases Option.bind_eq_some_iff.1 hexit with ⟨p, _, heq⟩
    exact ⟨p, (Option.some.inj heq).symm⟩
  have hlast := hfreed.setPalloc (hinv'.perm (perm_erase_append hthread))
  refine ⟨_, ?_, hfs, fun n => ?_, ⟨as₂, hlast⟩, fun b hb =>
    block_size_restored hi hs hf hlast (fun _ => rfl) hb⟩
  · rw [process_exit, if_pos hpd]
    dsimp only [Heap.setPalloc_palloc]
    rw [hdestroy]
    exact Option.bind_eq_some_iff.2 ⟨c, rfl, Option.bind_eq_some_iff.2 ⟨h₂, hfree, hexit⟩⟩
  · rw [hused n, hfreed.core.pages.used_iff, ← and_assoc]
    refine and_congr_left fun _ => ?_
    -- the arenas are those of before, and the page of the command is apart from all else
    have hbefore := hi.core.pages.perm (((List.perm_cons_erase hname).append_left
      (as.map s.heap.arenaGroup)).trans List.perm_middle)
    rw [hbefore.used_iff]
    simp only [List.mem_append, List.mem_cons, hi.arenas_restored hs hf]
    constructor
    · rintro ⟨g, hg, hn⟩
      refine ⟨⟨g, Or.inr hg, hn⟩, fun heq => ?_⟩
      have hfirst : page_group file_name ∈ [page_group file_name] := List.mem_singleton.2 rfl
      exact PallocInv.extents_apart hbefore hfirst (List.mem_append.2 hg) (mem_page_group.2 heq) hn
    · rintro ⟨⟨g, hg, hn⟩, hne⟩
      rcases hg with rfl | hg
      · exact absurd (mem_page_group.1 hn) hne
      · exact ⟨g, hg, hn⟩

/-- User code leaves the memory that was in use before the process and the page of its control block
alone, and when the process has ended, by `exit` or killed, the pools hold what they held before it
was started, but for the pages of the thread and of the command, and so do the blocks.  The
executable is closed. -/
theorem process_leaves_no_trace (hlo : 256 ≤ s.init_ram_pages) (hhi : s.init_ram_pages < 2 ^ 18)
    (h : s.Ready user_page_limit live others t file_name) (hapart : file_name ≠ s.init_page_dir)
    (hrounds : 2 ^ 20 ≤ rounds)
    (hstart : s.start_process rounds t file_name name e = some (s₁, some regs)) :
    ∃ h₁ pcb l, malloc s.heap sizeof_process = some (h₁, pcb) ∧
      (s.setHeap h₁).loader.load rounds name e = some (l, some regs) ∧
      ∀ s₂, s₁.AfterUser l.pagedir s₂ →
        (∀ q, s.heap.palloc.Used (pg_no q) ∧ pg_no q ≠ pg_no file_name ∨ pg_no q = pg_no pcb →
          s₂.heap.mem q = s₁.heap.mem q) ∧
        ∃ s₃, s₂.process_exit t pcb l.pagedir = some s₃ ∧ s.CleanedUp s₃ [t, file_name] ∧
          s.SameBlocks s₃ live ((others.erase (page_group file_name)).erase (page_group t)) := by
  rcases start_process_inv hstart with ⟨h₁, pcb, l, hmalloc, hpcb, hload, hname⟩
  refine ⟨h₁, pcb, l, hmalloc, hload, ?_⟩
  have hinv : HeapInv False (ram_end s.init_ram_pages) ⟨s.heap, live, others⟩ :=
    heap_reachable_inv hlo hhi (fun _ _ hf => hf.elim) h.heap
  rcases hinv with ⟨as, hi⟩
  rcases hi.core.malloc_spec sizeof_process with
    ⟨_, hfull⟩ | ⟨_, h₁', x, a, as₁, hmalloc', hs⟩
  · rw [hmalloc, Option.some.injEq, Prod.mk.injEq] at hfull
    exact absurd hfull.2 hpcb
  dsimp only at hmalloc' hs
  rw [hmalloc, Option.some.injEq, Prod.mk.injEq] at hmalloc'
  rcases hmalloc' with ⟨rfl, rfl⟩
  rcases hi.core.malloc_process hmalloc hpcb with ⟨_, hmem⟩
  dsimp only at hmem
  have huser : ∀ i, i < 768 → word_at h₁.mem (s.init_page_dir + 4 * i) = 0 := by
    rw [hmem]
    exact h.user_half
  rcases load_then_free hs.core.pages (List.mem_append_right _ h.init_page_dir)
    (List.mem_append_right _ h.name_page) hapart huser (fsRuns_between h.fs) hrounds hload
    hname with ⟨p, kernel, rest, pt, map, rfl, hfiles, hperm, hram, hdir, hat⟩
  rintro s₂ ⟨b, hrun, rfl⟩
  rcases hat.user_run hrun with ⟨⟨map', hat', _⟩, hkept, _, _⟩
  -- the groups of before are still there
  have hold : ∀ g ∈ as.map s.heap.arenaGroup ++ others, g ∈ as₁.map h₁.arenaGroup ++ others := by
    intro g hg
    rcases List.mem_append.1 hg with hg | hg
    · rcases List.mem_map.1 hg with ⟨a', ha', rfl⟩
      refine List.mem_append_left _ (List.mem_map.2 ⟨a', hs.sub a' ha', ?_⟩)
      rw [Heap.arenaGroup, Heap.arenaGroup, (hs.keeps a' ha').2]
    · exact List.mem_append_right _ hg
  have hkeeps : ∀ g ∈ as₁.map h₁.arenaGroup ++ others, g ≠ page_group file_name → ∀ q ∈ g.bytes,
      b.mem q = p.mem q := fun g hg hne q hq =>
    hkept g (hperm.mem_iff.2 ((List.mem_erase_of_ne hne).2 hg)) q hq
  refine ⟨fun q hq => ?_, ?_⟩
  · rcases hq with ⟨hq, hne⟩ | hq
    · rcases mem_bytes_of_used hi.core.pages hq with ⟨g, hg, hgq, hgn⟩
      refine hkeeps g (hold g hg) ?_ q hgq
      rintro rfl
      exact hne (mem_page_group.1 hgn)
    · have harena : h₁.arenaGroup a ∈ as₁.map h₁.arenaGroup := List.mem_map_of_mem hs.mem
      refine hkeeps _ (List.mem_append_left _ harena) (fun heq => ?_) q
        (mem_arena_of_served hs (by rw [NoWrap]; decide) (by decide) hq)
      exact (List.nodup_append.1 hs.core.pages.nodup).2.2 _ harena _ h.name_page heq
  · rcases hat'.inv.destroy hat'.pagedir_ne with ⟨c, hdestroy, _, hinv, _⟩
    have hpages := hinv.pages
    rw [dir_groups_empty NULL (fun _ => rfl) fun _ => rfl, if_pos rfl, List.nil_append] at hpages
    have hpools : PallocInv (ram_end s.init_ram_pages)
        ⟨c, (as₁.map h₁.arenaGroup ++ others).erase (page_group file_name)⟩ := by
      rw [← hram]
      exact hpages.perm hperm
    have hgone : pagedir_destroy b s.init_page_dir l.pagedir = some c := by
      rw [← hdir]
      exact hdestroy
    rcases exit_spec (t := t) l.fs hi hs h.name_page h.thread_page h.apart hpools
      hat'.pagedir_ne hgone with ⟨s₃, hexit, hfs, hused, hblocks⟩
    refine ⟨s₃, hexit, ⟨fun n => ?_, fun f => ?_⟩, hblocks⟩
    · rw [hused n]
      simp only [List.map_cons, List.map_nil, List.mem_cons, List.not_mem_nil, or_false, not_or]
      exact and_congr_right fun _ => and_comm
    · rw [hfs]
      exact hfiles f

end StartState

/-! ## A small program -/

/-- A machine with 288 pages of memory and the small program on its disk. -/
def program_start : Option (StartState × Nat × Nat) := do
  let fs ← program_disk
  let h ← boot_heap 288
  let (p, init_page_dir) ← paging_init 288 0xc0020000 0xc0030000 h.palloc
  let (p, file_name) ← palloc_get_page p 0
  let (p, t) ← palloc_get_page p PAL_ZERO
  return (⟨288, init_page_dir, h.setPalloc p, fs⟩, t, file_name)

theorem program_start_ready {s : StartState} {t file_name : Nat}
    (h : program_start = some (s, t, file_name)) (hinit : s.init_page_dir ≠ NULL) (ht : t ≠ NULL)
    (hname : file_name ≠ NULL) (hne : t ≠ file_name) :
    s.init_ram_pages = 288 ∧ ∃ others, s.Ready (WORD - 1) [] others t file_name := by
  rw [program_start] at h
  rcases Option.bind_eq_some_iff.1 h with ⟨fs, hfs, h⟩
  rcases Option.bind_eq_some_iff.1 h with ⟨heap, hboot, h⟩
  rcases Option.bind_eq_some_iff.1 h with ⟨⟨p₁, init_page_dir⟩, hpaging, h⟩
  rcases Option.bind_eq_some_iff.1 h with ⟨⟨p₂, page₂⟩, hget₂, h⟩
  rcases Option.bind_eq_some_iff.1 h with ⟨⟨p₃, page₃⟩, hget₃, h⟩
  cases h
  have hboot' : HeapReachable 288 (WORD - 1) heap [] [] := boot_heap_reachable _ hboot
  have hinv : HeapInv False (ram_end 288) ⟨heap, [], []⟩ :=
    heap_reachable_inv (by omega) (by omega) (fun _ _ hf => hf.elim) hboot'
  rcases hinv with ⟨as, hi⟩
  obtain rfl : as = [] := List.eq_nil_iff_forall_not_mem.2 fun a ha => by
    rcases hi.used a ha with ⟨b, hb, _⟩
    exact absurd hb List.not_mem_nil
  rcases paging_init_spec (by omega) hi.core.pages hpaging with ⟨kern, hinv₁, hdir, huser⟩
  rcases get_page_frame hinv₁ hget₂ hname with ⟨hinv₂, hkeep₂⟩
  rcases get_page_frame hinv₂ hget₃ ht with ⟨_, hkeep₃⟩
  rcases hboot'.paging_init hpaging hinit with ⟨gs, hr₁⟩
  refine ⟨rfl, _, (hr₁.get_page hget₂ hname).get_page hget₃ ht, program_disk_reachable hfs, ?_, ?_,
    List.mem_cons_self, List.mem_cons_of_mem _ List.mem_cons_self, hne⟩
  · exact List.mem_cons_of_mem _ (List.mem_cons_of_mem _
      (List.mem_append_right _ List.mem_cons_self))
  · intro i hi
    refine (word_of_page (fun q hq => ?_) (by omega)).trans (huser i hi)
    rw [← page_group_bytes] at hq
    calc
      p₃.mem q = p₂.mem q := hkeep₃ _ hdir q hq
      _ = p₁.mem q := hkeep₂ _ hdir q hq

set_option maxRecDepth 100000 in
/-- The small program on this machine. -/
theorem process_leaves_no_trace_small :
    ∃ (s s₁ : StartState) (others : List Group) (t file_name : Nat),
      s.start_process (2 ^ 20) t file_name program_name unused_entry =
        some (s₁, some (0x08048054, PHYS_BASE)) ∧
      ∃ h₁ pcb l, malloc s.heap sizeof_process = some (h₁, pcb) ∧
        (s.setHeap h₁).loader.load (2 ^ 20) program_name unused_entry =
          some (l, some (0x08048054, PHYS_BASE)) ∧
        ∀ s₂, s₁.AfterUser l.pagedir s₂ →
          (∀ q, s.heap.palloc.Used (pg_no q) ∧ pg_no q ≠ pg_no file_name ∨ pg_no q = pg_no pcb →
            s₂.heap.mem q = s₁.heap.mem q) ∧
          ∃ s₃, s₂.process_exit t pcb l.pagedir = some s₃ ∧ s.CleanedUp s₃ [t, file_name] ∧
            s.SameBlocks s₃ [] ((others.erase (page_group file_name)).erase (page_group t)) := by
  have hrun : (program_start.bind fun x =>
      (x.1.start_process (2 ^ 20) x.2.1 x.2.2 program_name unused_entry).map fun r =>
        (decide (x.1.init_page_dir ≠ NULL ∧ x.2.1 ≠ NULL ∧ x.2.2 ≠ NULL ∧ x.2.1 ≠ x.2.2 ∧
          x.2.2 ≠ x.1.init_page_dir), r.2)) = some (true, some (0x08048054, PHYS_BASE)) := by
    decide +kernel
  rcases Option.bind_eq_some_iff.1 hrun with ⟨⟨s, t, file_name⟩, hstart, hrun⟩
  rcases Option.map_eq_some_iff.1 hrun with ⟨⟨s₁, result⟩, hcall, hresult⟩
  rw [Prod.mk.injEq] at hresult
  rcases hresult with ⟨hdec, hregs⟩
  rcases of_decide_eq_true hdec with ⟨hinit, ht, hname, hne, hapart⟩
  dsimp only at hregs hcall
  subst hregs
  rcases program_start_ready hstart hinit ht hname hne with ⟨hram, others, hready⟩
  exact ⟨s, s₁, others, t, file_name, hcall, StartState.process_leaves_no_trace (hram ▸ by decide)
    (hram ▸ by decide) hready hapart (Nat.le_refl _) hcall⟩

end Berk162
