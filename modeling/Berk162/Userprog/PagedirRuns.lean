import Berk162.Lib.Transition
import Berk162.Userprog.PagingInit

/-!
# PagedirRuns — a page directory refines a map, over whole runs

A run starts from `palloc_init` and `paging_init`.  A process creates a directory, calls the
functions of `pagedir.c` on user pages in any order and destroys the directory; a frame that is
mapped is given to the directory, and the one of a page that is cleared is given back.  In between,
others get and free pages, and anyone writes to memory, but not to the kernel's directory, the
process's directory and its page tables.
-/

namespace Berk162

/-! ## Runs -/

/-- The page allocator, the kernel's directory with the words of its upper half, and the directory
of the process (null if there is none) with what it maps.  `others` are the groups of pages that
neither directory holds. -/
structure PagedirRun where
  alloc : Palloc
  init_page_dir : Nat
  kernel : Nat → BitVec 32
  pd : Nat
  map : UserMap
  others : List Group

inductive PagedirCall
  | create
  | set_page (upage : Nat) (frame : Group) (writable : Bool)
  | clear_page (upage : Nat)
  | set_dirty (vpage : Nat) (dirty : Bool)
  | set_accessed (vpage : Nat) (accessed : Bool)
  | destroy
  | pages (c : PallocCall)
  | write (mem : Memory)

/-- The map after a flag of the page of `vpage` was set. -/
def UserMap.modify (map : UserMap) (vpage : Nat) (f : Mapping → Mapping) : UserMap :=
  Function.update map (pg_round_down vpage) ((map (pg_round_down vpage)).map f)

/-- A byte of the directories and page tables. -/
def PagedirRun.Guarded (s : PagedirRun) (q : Nat) : Prop :=
  q ∈ page_bytes s.init_page_dir ∨ s.pd ≠ NULL ∧ (q ∈ page_bytes s.pd ∨
    ∃ i t, i < 768 ∧ pde_get_pt (word_at s.alloc.mem (s.pd + 4 * i)) = some t ∧ q ∈ page_bytes t)

inductive PagedirStep (init_ram_pages : Nat) : PagedirRun → PagedirCall → PagedirRun → Prop
  | create {s : PagedirRun} {a : Palloc} {pd : Nat} :
      s.pd = NULL → pagedir_create s.alloc s.init_page_dir = some (a, pd) →
      PagedirStep init_ram_pages s .create
        ⟨a, s.init_page_dir, s.kernel, pd, fun _ => none, s.others⟩
  | set_page {s : PagedirRun} {upage : Nat} {frame : Group} {writable : Bool} {a : Palloc} :
      s.pd ≠ NULL → pg_ofs upage = 0 → is_user_vaddr upage → s.map upage = none →
      frame ∈ s.others → frame.page_cnt = 1 →
      pagedir_set_page init_ram_pages s.init_page_dir s.alloc s.pd upage frame.pages writable =
        some (a, true) →
      PagedirStep init_ram_pages s (.set_page upage frame writable)
        ⟨a, s.init_page_dir, s.kernel, s.pd,
          Function.update s.map upage (some ⟨frame, writable, false, false⟩), s.others.erase frame⟩
  | set_page_fails {s : PagedirRun} {upage : Nat} {frame : Group} {writable : Bool} {a : Palloc} :
      s.pd ≠ NULL → pg_ofs upage = 0 → is_user_vaddr upage → s.map upage = none →
      frame ∈ s.others → frame.page_cnt = 1 →
      pagedir_set_page init_ram_pages s.init_page_dir s.alloc s.pd upage frame.pages writable =
        some (a, false) →
      PagedirStep init_ram_pages s (.set_page upage frame writable)
        ⟨a, s.init_page_dir, s.kernel, s.pd, s.map, s.others⟩
  | clear_page {s : PagedirRun} {upage : Nat} {a : Palloc} :
      s.pd ≠ NULL → pg_ofs upage = 0 → is_user_vaddr upage →
      pagedir_clear_page s.alloc s.pd upage = some a →
      PagedirStep init_ram_pages s (.clear_page upage)
        ⟨a, s.init_page_dir, s.kernel, s.pd, Function.update s.map upage none,
          ((s.map upage).map Mapping.frame).toList ++ s.others⟩
  | set_dirty {s : PagedirRun} {vpage : Nat} {dirty : Bool} {a : Palloc} :
      s.pd ≠ NULL → is_user_vaddr vpage → pagedir_set_dirty s.alloc s.pd vpage dirty = some a →
      PagedirStep init_ram_pages s (.set_dirty vpage dirty)
        ⟨a, s.init_page_dir, s.kernel, s.pd, s.map.modify vpage (Mapping.setDirty dirty), s.others⟩
  | set_accessed {s : PagedirRun} {vpage : Nat} {accessed : Bool} {a : Palloc} :
      s.pd ≠ NULL → is_user_vaddr vpage →
      pagedir_set_accessed s.alloc s.pd vpage accessed = some a →
      PagedirStep init_ram_pages s (.set_accessed vpage accessed)
        ⟨a, s.init_page_dir, s.kernel, s.pd, s.map.modify vpage (Mapping.setAccessed accessed),
          s.others⟩
  | destroy {s : PagedirRun} {a : Palloc} :
      s.pd ≠ NULL → pagedir_destroy s.alloc s.init_page_dir s.pd = some a →
      PagedirStep init_ram_pages s .destroy
        ⟨a, s.init_page_dir, s.kernel, NULL, fun _ => none, s.others⟩
  | pages {s : PagedirRun} {c : PallocCall} {a : Palloc} {others : List Group} :
      PallocStep ⟨s.alloc, s.others⟩ c ⟨a, others⟩ →
      PagedirStep init_ram_pages s (.pages c)
        ⟨a, s.init_page_dir, s.kernel, s.pd, s.map, others⟩
  | write {s : PagedirRun} {mem : Memory} :
      (∀ q, s.Guarded q → mem q = s.alloc.mem q) →
      PagedirStep init_ram_pages s (.write mem)
        ⟨s.alloc.withMem mem, s.init_page_dir, s.kernel, s.pd, s.map, s.others⟩

/-- The runs on a machine with `init_ram_pages` pages of RAM, whose kernel text lies between
`text_start` and `text_end`. -/
def pagedirSystem (init_ram_pages user_page_limit text_start text_end : Nat) :
    System PagedirRun PagedirCall where
  init s := s.pd = NULL ∧ (∀ p, s.map p = none) ∧ s.others = [] ∧
    (∀ i, s.kernel i = word_at s.alloc.mem (s.init_page_dir + 4 * i)) ∧
    ∃ storage mem p, palloc_init init_ram_pages user_page_limit storage mem = some p ∧
      paging_init init_ram_pages text_start text_end p = some (s.alloc, s.init_page_dir)
  step := PagedirStep init_ram_pages

/-! ## The invariant -/

/-- The words of the kernel's directory: none in the user half. -/
structure KernelDir (mem : Memory) (init_page_dir : Nat) (kernel : Nat → BitVec 32) : Prop where
  user_half : ∀ i, i < 768 → word_at mem (init_page_dir + 4 * i) = 0
  kernel_half : ∀ i, 768 ≤ i → i < 1024 → word_at mem (init_page_dir + 4 * i) = kernel i

theorem KernelDir.congr {mem mem' : Memory} {init_page_dir : Nat} {kernel : Nat → BitVec 32}
    (h : KernelDir mem init_page_dir kernel)
    (hkeep : ∀ q ∈ page_bytes init_page_dir, mem' q = mem q) :
    KernelDir mem' init_page_dir kernel where
  user_half i hi := (word_of_page hkeep (by omega)).trans (h.user_half i hi)
  kernel_half i hlo hhi := (word_of_page hkeep hhi).trans (h.kernel_half i hlo hhi)

/-- `pt` are the page tables, `kern` the pages of `paging_init`. -/
structure PagedirInvAt (ram : Nat) (s : PagedirRun) (pt : Nat → Option Nat) (kern : List Group) :
    Prop where
  pages : PallocInv ram ⟨s.alloc, dir_groups s.pd pt s.map ++ (kern ++ s.others)⟩
  init : page_group s.init_page_dir ∈ kern
  kernel : KernelDir s.alloc.mem s.init_page_dir s.kernel
  dir : s.pd ≠ NULL → IsDir s.alloc.mem s.pd pt s.map s.kernel
  empty : s.pd = NULL → (∀ i, pt i = none) ∧ ∀ p, s.map p = none
  one : ∀ p m, s.map p = some m → m.frame.page_cnt = 1

def PagedirInv (ram : Nat) (s : PagedirRun) : Prop := ∃ pt kern, PagedirInvAt ram s pt kern

theorem dir_groups_empty (pd : Nat) {pt : Nat → Option Nat} {map : UserMap}
    (hpt : ∀ i, pt i = none) (hm : ∀ p, map p = none) :
    dir_groups pd pt map = if pd = NULL then [] else [page_group pd] := by
  have hheld : (List.range 768).flatMap (held_at pt map) = [] := by
    rw [List.flatMap_eq_nil_iff]
    intro i _
    exact held_at_none (hpt i) fun j _ => hm (page_at i j)
  rw [dir_groups, hheld, List.nil_append]

namespace PagedirInvAt

variable {ram : Nat} {s : PagedirRun} {pt : Nat → Option Nat} {kern : List Group}

theorem init_mem (h : PagedirInvAt ram s pt kern) :
    page_group s.init_page_dir ∈ kern ++ s.others :=
  List.mem_append_left _ h.init

theorem pd_ne_init (h : PagedirInvAt ram s pt kern) (hpd : s.pd ≠ NULL) :
    s.pd ≠ s.init_page_dir := by
  intro heq
  have hmem := @pd_mem s.pd pt s.map hpd
  exact (List.nodup_append.1 h.pages.nodup).2.2 _ hmem _ h.init_mem (congrArg page_group heq)

theorem apart (h : PagedirInvAt ram s pt kern) (hpd : s.pd ≠ NULL) : TablesApart s.pd pt :=
  apart_of_inv h.pages hpd

/-- The kernel's directory keeps its words when all that others hold keeps its contents. -/
theorem kernel_of_live (h : PagedirInvAt ram s pt kern) {mem : Memory}
    (hkeep : ∀ g ∈ kern ++ s.others, ∀ q ∈ g.bytes, mem q = s.alloc.mem q) :
    KernelDir mem s.init_page_dir s.kernel := by
  refine h.kernel.congr fun q hq => hkeep _ h.init_mem q ?_
  rwa [page_group_bytes]

theorem kernel_of_changed (h : PagedirInvAt ram s pt kern) (hpd : s.pd ≠ NULL) {map' : UserMap}
    {a : Palloc} (hc : Changed s.alloc s.pd pt map' s.kernel a) :
    KernelDir a.mem s.init_page_dir s.kernel :=
  h.kernel_of_live fun _ hg q hq => hc.frame q (outside_of_live h.pages hpd hg hq)

/-! ### Each step -/

theorem create_cases (h : PagedirInvAt ram s pt kern) (hpd : s.pd = NULL) :
    pagedir_create s.alloc s.init_page_dir = some (s.alloc, NULL) ∨
      ∃ a pd, pagedir_create s.alloc s.init_page_dir = some (a, pd) ∧ pd ≠ NULL ∧
        PagedirInvAt ram ⟨a, s.init_page_dir, s.kernel, pd, fun _ => none, s.others⟩
          (fun _ => none) kern := by
  rcases h.empty hpd with ⟨hpt, hmap⟩
  have hpages := h.pages
  rw [dir_groups_empty s.pd hpt hmap, if_pos hpd, List.nil_append] at hpages
  rcases pagedir_create_spec hpages h.init_mem h.kernel.user_half h.kernel.kernel_half with
    hnull | ⟨a, pd, hcall, hnull, hne, hinv, hdir, hkeep⟩
  · exact Or.inl hnull
  · refine Or.inr ⟨a, pd, hcall, hnull, ?_, h.init, h.kernel_of_live hkeep, fun _ => hdir,
      fun hn => absurd hn hnull, fun p m hm => ?_⟩
    · rw [dir_groups_empty pd (fun _ => rfl) fun _ => rfl, if_neg hnull]
      exact hinv
    · cases hm

theorem create (h : PagedirInvAt ram s pt kern) (hpd : s.pd = NULL) {a : Palloc} {pd : Nat}
    (hcall : pagedir_create s.alloc s.init_page_dir = some (a, pd)) :
    PagedirInvAt ram ⟨a, s.init_page_dir, s.kernel, pd, fun _ => none, s.others⟩
      (fun _ => none) kern := by
  rcases h.create_cases hpd with hnull | ⟨a', pd', hcall', _, hinv⟩
  · rw [hnull, Option.some.injEq, Prod.mk.injEq] at hcall
    rcases hcall with ⟨rfl, rfl⟩
    rcases h.empty hpd with ⟨hpt, hmap⟩
    have hpages := h.pages
    rw [dir_groups_empty s.pd hpt hmap, if_pos hpd] at hpages
    refine ⟨?_, h.init, h.kernel, fun hne => absurd rfl hne, fun _ => ⟨fun _ => rfl, fun _ => rfl⟩,
      fun p m hm => ?_⟩
    · rw [dir_groups_empty NULL (fun _ => rfl) fun _ => rfl, if_pos rfl]
      exact hpages
    · cases hm
  · rw [hcall', Option.some.injEq, Prod.mk.injEq] at hcall
    rcases hcall with ⟨rfl, rfl⟩
    exact hinv

theorem set_page {init_ram_pages : Nat} (h : PagedirInvAt (ram_end init_ram_pages) s pt kern)
    (hpd : s.pd ≠ NULL) {upage : Nat} (hofs : pg_ofs upage = 0) (hu : is_user_vaddr upage)
    (hnone : s.map upage = none) {frame : Group} (hf : frame ∈ s.others)
    (hone : frame.page_cnt = 1) (writable : Bool) :
    (word_at s.alloc.mem (s.pd + 4 * pd_no upage) = 0 ∧
        palloc_get_page s.alloc PAL_ZERO = some (s.alloc, NULL) ∧
        pagedir_set_page init_ram_pages s.init_page_dir s.alloc s.pd upage frame.pages writable =
          some (s.alloc, false)) ∨
      ∃ a pt', pagedir_set_page init_ram_pages s.init_page_dir s.alloc s.pd upage frame.pages
          writable = some (a, true) ∧
        PagedirInvAt (ram_end init_ram_pages) ⟨a, s.init_page_dir, s.kernel, s.pd,
          Function.update s.map upage (some ⟨frame, writable, false, false⟩),
          s.others.erase frame⟩ pt' kern ∧
        ∀ q, Outside s.pd pt' q → a.mem q = s.alloc.mem q := by
  have hlive : frame ∈ kern ++ s.others := List.mem_append_right _ hf
  have hkern : frame ∉ kern := by
    intro hmem
    have hnodup := (List.nodup_append.1 h.pages.nodup).2.1
    exact (List.nodup_append.1 hnodup).2.2 _ hmem _ hf rfl
  rcases pagedir_set_page_spec h.pages hpd (h.pd_ne_init hpd) (h.dir hpd) hofs hu hnone hlive
    writable with hcall | ⟨a, pt', hcall, hinv, hdir, hkeep, hout⟩
  · exact Or.inl hcall
  · refine Or.inr ⟨a, pt', hcall, ⟨?_, h.init, ?_, fun _ => hdir, fun hn => absurd hn hpd,
      fun p m hm => ?_⟩, hkeep⟩
    · rw [List.erase_append_right _ hkern] at hinv
      exact hinv
    · exact h.kernel_of_live fun g hg q hq => hkeep q (hout g hg q hq)
    · dsimp only at hm
      by_cases hp : p = upage
      · subst hp
        rw [Function.update_self, Option.some.injEq] at hm
        subst hm
        exact hone
      · rw [Function.update_of_ne hp] at hm
        exact h.one p m hm

theorem clear_page (h : PagedirInvAt ram s pt kern) (hpd : s.pd ≠ NULL) {upage : Nat}
    (hofs : pg_ofs upage = 0) (hu : is_user_vaddr upage) :
    ∃ a, pagedir_clear_page s.alloc s.pd upage = some a ∧
      PagedirInvAt ram ⟨a, s.init_page_dir, s.kernel, s.pd, Function.update s.map upage none,
        ((s.map upage).map Mapping.frame).toList ++ s.others⟩ pt kern := by
  rcases (h.dir hpd).pagedir_clear_page (h.apart hpd) hofs hu with ⟨a, hcall, hchanged⟩
  refine ⟨a, hcall, ?_, h.init, h.kernel_of_changed hpd hchanged, fun _ => hchanged.dir,
    fun hn => absurd hn hpd, fun p m hm => ?_⟩
  · have hpages := h.pages.withMem a.mem
    rw [← hchanged.alloc] at hpages
    cases hm : s.map upage with
    | none =>
        rw [← hm, Function.update_eq_self, hm]
        exact hpages
    | some m =>
        -- the frame changes hands
        have hat := page_at_of_aligned hofs
        have hm' : s.map (page_at (pd_no upage) (pt_no upage)) = some m := by rw [hat, hm]
        have hperm := @dir_groups_unmap s.pd _ _ pt s.map m (pd_no_lt hu) (pt_no_lt upage) hm'
        rw [hat] at hperm
        refine hpages.perm ?_
        calc
          List.Perm (dir_groups s.pd pt s.map ++ (kern ++ s.others))
              (m.frame :: (dir_groups s.pd pt (Function.update s.map upage none) ++
                (kern ++ s.others))) := by
            rw [← List.cons_append]
            exact hperm.append_right _
          List.Perm _ (dir_groups s.pd pt (Function.update s.map upage none) ++
              (m.frame :: (kern ++ s.others))) := List.perm_middle.symm
          List.Perm _ (dir_groups s.pd pt (Function.update s.map upage none) ++
              (kern ++ (m.frame :: s.others))) := List.perm_middle.symm.append_left _
  · dsimp only at hm
    by_cases hp : p = upage
    · subst hp
      rw [Function.update_self] at hm
      cases hm
    · rw [Function.update_of_ne hp] at hm
      exact h.one p m hm

theorem set_flag (h : PagedirInvAt ram s pt kern) (hpd : s.pd ≠ NULL) {vpage : Nat}
    (hu : is_user_vaddr vpage) {f : BitVec 32} {set : Bool → Mapping → Mapping} (hf : FlagOf f set)
    (value : Bool) :
    ∃ a, pagedir_set f s.alloc s.pd vpage value = some a ∧
      PagedirInvAt ram ⟨a, s.init_page_dir, s.kernel, s.pd, s.map.modify vpage (set value),
        s.others⟩ pt kern := by
  rcases (h.dir hpd).pagedir_set (h.apart hpd) hu hf value with ⟨a, hcall, hchanged⟩
  have hframe : ∀ p, (s.map.modify vpage (set value) p).map Mapping.frame =
      (s.map p).map Mapping.frame := by
    intro p
    rw [UserMap.modify]
    by_cases hp : p = pg_round_down vpage
    · subst hp
      rw [Function.update_self, Option.map_map]
      exact congrArg (fun g => (s.map (pg_round_down vpage)).map g) (funext (hf.frame value))
    · rw [Function.update_of_ne hp]
  refine ⟨a, hcall, ?_, h.init, h.kernel_of_changed hpd hchanged, fun _ => hchanged.dir,
    fun hn => absurd hn hpd, fun p m hm => ?_⟩
  · have hpages := h.pages.withMem a.mem
    rw [← hchanged.alloc, ← dir_groups_congr hframe] at hpages
    exact hpages
  · have hold := hframe p
    dsimp only at hm
    rw [hm, Option.map_some] at hold
    rcases Option.map_eq_some_iff.1 hold.symm with ⟨m', hm', hsame⟩
    rw [← hsame]
    exact h.one p m' hm'

/-- `pagedir_destroy` leaves the pages of others live, and their contents as they are. -/
theorem destroy (h : PagedirInvAt ram s pt kern) (hpd : s.pd ≠ NULL) :
    ∃ a, pagedir_destroy s.alloc s.init_page_dir s.pd = some a ∧
      free_pages s.alloc ((dir_groups s.pd pt s.map).map Group.pages) = some a ∧
      PagedirInvAt ram ⟨a, s.init_page_dir, s.kernel, NULL, fun _ => none, s.others⟩
        (fun _ => none) kern ∧
      ∀ g ∈ kern ++ s.others, ∀ q ∈ g.bytes, a.mem q = s.alloc.mem q := by
  have hone : ∀ g ∈ dir_groups s.pd pt s.map, g.page_cnt = 1 := by
    intro g hg
    rcases mem_dir_groups.1 hg with ⟨_, _, m, _, _, hm, rfl⟩ | ⟨_, _, _, _, rfl⟩ | ⟨_, rfl⟩
    · exact h.one _ m hm
    · rfl
    · rfl
  rcases h.pages.free_pages hone with ⟨a, ha, hinv, hkeep⟩
  refine ⟨a, ?_, ha, ⟨?_, h.init, h.kernel_of_live hkeep, fun hn => absurd rfl hn,
    fun _ => ⟨fun _ => rfl, fun _ => rfl⟩, fun p m hm => ?_⟩, hkeep⟩
  · rw [pagedir_destroy_eq h.pages hpd (h.pd_ne_init hpd) (h.dir hpd) h.one, ha]
  · rw [dir_groups_empty NULL (fun _ => rfl) fun _ => rfl, if_pos rfl]
    exact hinv
  · cases hm

/-- What others do with pages of their own. -/
theorem pages_step (h : PagedirInvAt ram s pt kern) {c : PallocCall} {a : Palloc}
    {others : List Group} (hstep : PallocStep ⟨s.alloc, s.others⟩ c ⟨a, others⟩) :
    PagedirInvAt ram ⟨a, s.init_page_dir, s.kernel, s.pd, s.map, others⟩ pt kern := by
  have hpages := h.pages
  rw [← List.append_assoc] at hpages
  have hkeep : ∀ g ∈ dir_groups s.pd pt s.map ++ kern, ∀ q ∈ g.bytes, a.mem q = s.alloc.mem q :=
    fun g hg q hq => hpages.frame_mem hstep hg hq
  have hpage : ∀ page, page_group page ∈ dir_groups s.pd pt s.map ++ kern →
      ∀ q ∈ page_bytes page, a.mem q = s.alloc.mem q := by
    intro page hmem q hq
    refine hkeep _ hmem q ?_
    rwa [page_group_bytes]
  refine ⟨?_, h.init, h.kernel.congr (hpage _ (List.mem_append_right _ h.init)), fun hpd => ?_,
    h.empty, h.one⟩
  · have hframe := hpages.frame hstep
    rw [List.append_assoc] at hframe
    exact hframe
  · exact (h.dir hpd).congr (hpage _ (List.mem_append_left _ (pd_mem hpd)))
      fun i t hi ht => hpage t (List.mem_append_left _ (table_mem hi ht))

theorem write (h : PagedirInvAt ram s pt kern) {mem : Memory}
    (hkeep : ∀ q, s.Guarded q → mem q = s.alloc.mem q) :
    PagedirInvAt ram ⟨s.alloc.withMem mem, s.init_page_dir, s.kernel, s.pd, s.map, s.others⟩
      pt kern := by
  refine ⟨h.pages.withMem mem, h.init, h.kernel.congr fun q hq => hkeep q (Or.inl hq),
    fun hpd => ?_, h.empty, h.one⟩
  refine (h.dir hpd).congr (fun q hq => hkeep q (Or.inr ⟨hpd, Or.inl hq⟩)) ?_
  intro i t hi ht q hq
  have hpde := (h.dir hpd).pde i hi
  rw [ht, DirEntryOf] at hpde
  exact hkeep q (Or.inr ⟨hpd, Or.inr ⟨i, t, hi, hpde.table, hq⟩⟩)

end PagedirInvAt

theorem PagedirInv.step {init_ram_pages : Nat} {s t : PagedirRun} {c : PagedirCall}
    (h : PagedirInv (ram_end init_ram_pages) s) (hstep : PagedirStep init_ram_pages s c t) :
    PagedirInv (ram_end init_ram_pages) t := by
  rcases h with ⟨pt, kern, h⟩
  cases hstep with
  | create hpd hcall => exact ⟨_, kern, h.create hpd hcall⟩
  | set_page hpd hofs hu hnone hf hone hcall =>
      rcases h.set_page hpd hofs hu hnone hf hone _ with
        ⟨_, _, hcall'⟩ | ⟨a, pt', hcall', hinv, _⟩
      · rw [hcall', Option.some.injEq, Prod.mk.injEq] at hcall
        cases hcall.2
      · rw [hcall', Option.some.injEq, Prod.mk.injEq] at hcall
        rcases hcall with ⟨rfl, _⟩
        exact ⟨pt', kern, hinv⟩
  | set_page_fails hpd hofs hu hnone hf hone hcall =>
      rcases h.set_page hpd hofs hu hnone hf hone _ with
        ⟨_, _, hcall'⟩ | ⟨a, pt', hcall', hinv, _⟩
      · rw [hcall', Option.some.injEq, Prod.mk.injEq] at hcall
        rcases hcall with ⟨rfl, _⟩
        exact ⟨pt, kern, h⟩
      · rw [hcall', Option.some.injEq, Prod.mk.injEq] at hcall
        cases hcall.2
  | clear_page hpd hofs hu hcall =>
      rcases h.clear_page hpd hofs hu with ⟨a, hcall', hinv⟩
      rw [hcall', Option.some.injEq] at hcall
      subst hcall
      exact ⟨pt, kern, hinv⟩
  | set_dirty hpd hu hcall =>
      rcases h.set_flag hpd hu flagOf_dirty _ with ⟨a, hcall', hinv⟩
      rw [pagedir_set_dirty, hcall', Option.some.injEq] at hcall
      subst hcall
      exact ⟨pt, kern, hinv⟩
  | set_accessed hpd hu hcall =>
      rcases h.set_flag hpd hu flagOf_accessed _ with ⟨a, hcall', hinv⟩
      rw [pagedir_set_accessed, hcall', Option.some.injEq] at hcall
      subst hcall
      exact ⟨pt, kern, hinv⟩
  | destroy hpd hcall =>
      rcases h.destroy hpd with ⟨a, hcall', _, hinv, _⟩
      rw [hcall', Option.some.injEq] at hcall
      subst hcall
      exact ⟨_, kern, hinv⟩
  | pages hpages => exact ⟨pt, kern, h.pages_step hpages⟩
  | write hkeep => exact ⟨pt, kern, h.write hkeep⟩

theorem PagedirInv.init {init_ram_pages user_page_limit text_start text_end : Nat}
    (hlo : 256 ≤ init_ram_pages) (hhi : init_ram_pages < 2 ^ 18) {s : PagedirRun}
    (hs : (pagedirSystem init_ram_pages user_page_limit text_start text_end).init s) :
    PagedirInv (ram_end init_ram_pages) s := by
  rcases hs with ⟨hpd, hmap, hothers, hkernel, storage, mem, p, hp, hpaging⟩
  have hpages : PallocInv (ram_end init_ram_pages) ⟨p, []⟩ := by
    have hreach : (pallocSystem init_ram_pages user_page_limit).Reachable ⟨p, []⟩ :=
      System.Reachable.init ⟨rfl, storage, mem, hp⟩
    exact palloc_reachable_inv hlo hhi hreach
  rcases paging_init_spec hhi hpages hpaging with ⟨kern, hinv, hinit, huser⟩
  refine ⟨fun _ => none, kern, ?_, hinit, ⟨huser, fun i _ _ => (hkernel i).symm⟩,
    fun hne => absurd hpd hne, fun _ => ⟨fun _ => rfl, hmap⟩, fun q m hm => ?_⟩
  · rw [dir_groups_empty s.pd (fun _ => rfl) hmap, if_pos hpd, hothers, List.nil_append]
    exact hinv
  · rw [hmap q] at hm
    cases hm

theorem pagedir_reachable_inv {init_ram_pages user_page_limit text_start text_end : Nat}
    (hlo : 256 ≤ init_ram_pages) (hhi : init_ram_pages < 2 ^ 18) {s : PagedirRun}
    (hs : (pagedirSystem init_ram_pages user_page_limit text_start text_end).Reachable s) :
    PagedirInv (ram_end init_ram_pages) s :=
  System.Reachable.invariant (fun _ h0 => PagedirInv.init hlo hhi h0)
    (fun _ _ _ hi hst => hi.step hst) hs

/-! ## What callers rely on -/

/-- A page table of the directory. -/
def PagedirRun.IsTable (s : PagedirRun) (t : Nat) : Prop :=
  ∃ i, i < 768 ∧ pde_get_pt (word_at s.alloc.mem (s.pd + 4 * i)) = some t

/-- The directory of the process as its callers see it.  `set_page` fails only where the page has
no page table and there is no page for one. -/
structure PagedirGood (init_ram_pages : Nat) (s : PagedirRun) : Prop where
  get_page : ∀ uaddr, is_user_vaddr uaddr →
    pagedir_get_page s.alloc s.pd uaddr = some (match s.map (pg_round_down uaddr) with
      | some m => m.frame.pages + pg_ofs uaddr
      | none => NULL)
  is_dirty : ∀ vpage m, is_user_vaddr vpage → s.map (pg_round_down vpage) = some m →
    pagedir_is_dirty s.alloc s.pd vpage = some m.dirty
  is_accessed : ∀ vpage m, is_user_vaddr vpage → s.map (pg_round_down vpage) = some m →
    pagedir_is_accessed s.alloc s.pd vpage = some m.accessed
  entry : ∀ vpage m, is_user_vaddr vpage → s.map (pg_round_down vpage) = some m →
    ∃ pte, lookup_page s.alloc s.pd vpage false = some (s.alloc, pte) ∧
      IsPte (word_at s.alloc.mem pte) m.frame.pages m.writable m.accessed m.dirty
  kernel_half : ∀ i, 768 ≤ i → i < 1024 → word_at s.alloc.mem (s.pd + 4 * i) = s.kernel i
  set_page : ∀ upage frame writable, pg_ofs upage = 0 → is_user_vaddr upage →
    s.map upage = none → frame ∈ s.others → frame.page_cnt = 1 →
    (∃ a, pagedir_set_page init_ram_pages s.init_page_dir s.alloc s.pd upage frame.pages writable =
      some (a, true)) ∨
    (word_at s.alloc.mem (s.pd + 4 * pd_no upage) = 0 ∧
      palloc_get_page s.alloc PAL_ZERO = some (s.alloc, NULL) ∧
      pagedir_set_page init_ram_pages s.init_page_dir s.alloc s.pd upage frame.pages writable =
        some (s.alloc, false))
  clear_page : ∀ upage, pg_ofs upage = 0 → is_user_vaddr upage →
    (pagedir_clear_page s.alloc s.pd upage).isSome
  set_dirty : ∀ vpage dirty, is_user_vaddr vpage →
    (pagedir_set_dirty s.alloc s.pd vpage dirty).isSome
  set_accessed : ∀ vpage accessed, is_user_vaddr vpage →
    (pagedir_set_accessed s.alloc s.pd vpage accessed).isSome
  destroy : ∃ gs kern a, pagedir_destroy s.alloc s.init_page_dir s.pd = some a ∧
    free_pages s.alloc (gs.map Group.pages) = some a ∧ (gs.map Group.pages).Nodup ∧
    (∀ x, x ∈ gs.map Group.pages ↔
      (∃ p m, s.map p = some m ∧ m.frame.pages = x) ∨ s.IsTable x ∨ x = s.pd) ∧
    page_group s.init_page_dir ∈ kern ∧
    PallocGood (ram_end init_ram_pages) ⟨s.alloc, gs ++ (kern ++ s.others)⟩ ∧
    PallocGood (ram_end init_ram_pages) ⟨a, kern ++ s.others⟩ ∧
    ∀ g ∈ kern ++ s.others, ∀ q ∈ g.bytes, a.mem q = s.alloc.mem q

namespace PagedirInvAt

variable {init_ram_pages : Nat} {s : PagedirRun} {pt : Nat → Option Nat} {kern : List Group}

theorem table_iff (h : PagedirInvAt (ram_end init_ram_pages) s pt kern) (hpd : s.pd ≠ NULL)
    (t : Nat) : s.IsTable t ↔ ∃ i, i < 768 ∧ pt i = some t := by
  constructor
  · rintro ⟨i, hi, hget⟩
    have hpde := (h.dir hpd).pde i hi
    cases ht : pt i with
    | none =>
        rw [ht, DirEntryOf] at hpde
        rw [hpde, pde_get_pt, ASSERT_neg (by decide)] at hget
        cases hget
    | some t' =>
        rw [ht, DirEntryOf] at hpde
        rw [hpde.table] at hget
        exact ⟨i, hi, ht.trans hget⟩
  · rintro ⟨i, hi, ht⟩
    have hpde := (h.dir hpd).pde i hi
    rw [ht, DirEntryOf] at hpde
    exact ⟨i, hi, hpde.table⟩

/-- The groups that a directory holds start at different pages. -/
theorem pages_nodup (h : PagedirInvAt (ram_end init_ram_pages) s pt kern) :
    ((dir_groups s.pd pt s.map).map Group.pages).Nodup := by
  rw [List.nodup_map_iff_inj_on (List.nodup_append.1 h.pages.nodup).1]
  intro g hg g' hg' heq
  by_contra hne
  have hmem : ∀ g ∈ dir_groups s.pd pt s.map, g ∈ dir_groups s.pd pt s.map ++ (kern ++ s.others) :=
    fun g hg => List.mem_append_left _ hg
  have hstart : ∀ g ∈ dir_groups s.pd pt s.map, g.pages ∈ g.bytes := by
    intro g hg
    have hpos := (h.pages.inside g (hmem g hg)).pos
    refine Extent.start_mem (e := g.bytes) ?_
    simp only [Group.bytes]
    rw [PGSIZE_eq]
    omega
  have hdis := h.pages.disjoint (hmem g hg) (hmem g' hg') hne
  exact hdis g.pages (hstart g hg) (heq ▸ hstart g' hg')

theorem mem_pages (h : PagedirInvAt (ram_end init_ram_pages) s pt kern) (hpd : s.pd ≠ NULL)
    (x : Nat) : x ∈ (dir_groups s.pd pt s.map).map Group.pages ↔
      (∃ p m, s.map p = some m ∧ m.frame.pages = x) ∨ s.IsTable x ∨ x = s.pd := by
  rw [List.mem_map, h.table_iff hpd]
  constructor
  · rintro ⟨g, hg, rfl⟩
    rcases mem_dir_groups.1 hg with ⟨i, j, m, _, _, hm, rfl⟩ | ⟨i, t, hi, ht, rfl⟩ | ⟨_, rfl⟩
    · exact Or.inl ⟨_, m, hm, rfl⟩
    · exact Or.inr (Or.inl ⟨i, hi, ht⟩)
    · exact Or.inr (Or.inr rfl)
  · rintro (⟨p, m, hm, rfl⟩ | ⟨i, hi, ht⟩ | rfl)
    · rcases (h.dir hpd).user p (by simp [hm]) with ⟨i, j, hi, hj, rfl⟩
      exact ⟨m.frame, mem_dir_groups.2 (Or.inl ⟨i, j, m, hi, hj, hm, rfl⟩), rfl⟩
    · exact ⟨page_group x, table_mem hi ht, rfl⟩
    · exact ⟨page_group s.pd, pd_mem hpd, rfl⟩

theorem frame_page (h : PagedirInvAt (ram_end init_ram_pages) s pt kern) (hpd : s.pd ≠ NULL) :
    ∀ p m, s.map p = some m → KernelPage m.frame.pages := by
  intro p m hm
  rcases (h.dir hpd).user p (by simp [hm]) with ⟨i, j, hi, hj, rfl⟩
  exact h.pages.kernel_page (List.mem_append_left _
    (mem_dir_groups.2 (Or.inl ⟨i, j, m, hi, hj, hm, rfl⟩)))

theorem good (h : PagedirInvAt (ram_end init_ram_pages) s pt kern) (hpd : s.pd ≠ NULL) :
    PagedirGood init_ram_pages s where
  get_page uaddr hu := (h.dir hpd).pagedir_get_page (h.apart hpd) (h.frame_page hpd) hu
  is_dirty vpage m hu hm := by
    rcases (h.dir hpd).pagedir_is (h.apart hpd) (f := PTE_D) hu hm with ⟨hcall, hpte⟩
    rw [pagedir_is_dirty, hcall, hpte.dirty]
  is_accessed vpage m hu hm := by
    rcases (h.dir hpd).pagedir_is (h.apart hpd) (f := PTE_A) hu hm with ⟨hcall, hpte⟩
    rw [pagedir_is_accessed, hcall, hpte.accessed]
  entry vpage m hu hm := by
    rcases (h.dir hpd).pagedir_is (h.apart hpd) (f := PTE_P) hu hm with ⟨_, hpte⟩
    exact ⟨_, (h.dir hpd).lookup (h.apart hpd) hu (Or.inl rfl), hpte⟩
  kernel_half := (h.dir hpd).kernel_half
  set_page upage frame writable hofs hu hnone hf hone := by
    rcases h.set_page hpd hofs hu hnone hf hone writable with hfail | ⟨a, _, hcall, _⟩
    · exact Or.inr hfail
    · exact Or.inl ⟨a, hcall⟩
  clear_page upage hofs hu := by
    rcases h.clear_page hpd hofs hu with ⟨a, hcall, _⟩
    rw [hcall]
    rfl
  set_dirty vpage dirty hu := by
    rcases h.set_flag hpd hu flagOf_dirty dirty with ⟨a, hcall, _⟩
    rw [pagedir_set_dirty, hcall]
    rfl
  set_accessed vpage accessed hu := by
    rcases h.set_flag hpd hu flagOf_accessed accessed with ⟨a, hcall, _⟩
    rw [pagedir_set_accessed, hcall]
    rfl
  destroy := by
    rcases h.destroy hpd with ⟨a, hcall, hfree, hinv, hkeep⟩
    have hpages := hinv.pages
    rw [dir_groups_empty NULL (fun _ => rfl) fun _ => rfl, if_pos rfl, List.nil_append] at hpages
    exact ⟨dir_groups s.pd pt s.map, kern, a, hcall, hfree, h.pages_nodup, h.mem_pages hpd,
      h.init, h.pages.good, hpages.good, hkeep⟩

end PagedirInvAt

/-- In every state of every run a page directory answers as the map of user pages that the calls
make up, keeps the kernel's entries, and gives back exactly what it holds.  A call changes the map
at its own page only, so no other page's entry changes. -/
theorem pagedir_refines_map {init_ram_pages user_page_limit text_start text_end : Nat}
    (hlo : 256 ≤ init_ram_pages) (hhi : init_ram_pages < 2 ^ 18) {s : PagedirRun}
    (hs : (pagedirSystem init_ram_pages user_page_limit text_start text_end).Reachable s)
    (hpd : s.pd ≠ NULL) : PagedirGood init_ram_pages s := by
  rcases pagedir_reachable_inv hlo hhi hs with ⟨pt, kern, h⟩
  exact h.good hpd

set_option maxRecDepth 100000 in
/-- On a machine with seven kernel pages after `paging_init`, a process maps a frame at 0x08048000,
marks the page as written and asks about an address in it. -/
theorem pagedir_refines_map_272 :
    ∃ (s : PagedirRun) (frame : Group),
      (pagedirSystem 272 (WORD - 1) 0xc0020000 0xc0030000).Reachable s ∧ s.pd ≠ NULL ∧
        PagedirGood 272 s ∧ s.map 0x08048000 = some ⟨frame, true, false, true⟩ ∧
        pagedir_get_page s.alloc s.pd 0x08048123 = some (frame.pages + 0x123) ∧
        pagedir_is_dirty s.alloc s.pd 0x08048123 = some true ∧
        pagedir_is_accessed s.alloc s.pd 0x08048123 = some false := by
  have hrun : ((palloc_init 272 (WORD - 1) (fun _ _ => 0) fun _ => 0).bind fun p =>
      (paging_init 272 0xc0020000 0xc0030000 p).bind fun r =>
        (pagedir_create r.1 r.2).bind fun d =>
          (palloc_get_multiple d.1 PAL_USER 1).bind fun g =>
            (pagedir_set_page 272 r.2 g.1 d.2 0x08048000 g.2 true).bind fun m =>
              (pagedir_set_dirty m.1 d.2 0x08048000 true).map fun _ =>
                decide (d.2 ≠ NULL) && decide (g.2 ≠ NULL) && m.2) = some true := by
    decide +kernel
  rcases Option.bind_eq_some_iff.1 hrun with ⟨p, hp, hrun⟩
  rcases Option.bind_eq_some_iff.1 hrun with ⟨⟨a, init_page_dir⟩, hpaging, hrun⟩
  rcases Option.bind_eq_some_iff.1 hrun with ⟨⟨a₁, pd⟩, hcreate, hrun⟩
  rcases Option.bind_eq_some_iff.1 hrun with ⟨⟨a₂, page⟩, hget, hrun⟩
  rcases Option.bind_eq_some_iff.1 hrun with ⟨⟨a₃, ok⟩, hset, hrun⟩
  rcases Option.map_eq_some_iff.1 hrun with ⟨a₄, hdirty, hgood⟩
  simp only [Bool.and_eq_true, decide_eq_true_eq] at hgood
  obtain ⟨⟨hpd, hpage⟩, rfl⟩ := hgood
  have hboot : (pagedirSystem 272 (WORD - 1) 0xc0020000 0xc0030000).Reachable
      ⟨a, init_page_dir, fun i => word_at a.mem (init_page_dir + 4 * i), NULL, fun _ => none, []⟩ :=
    System.Reachable.init ⟨rfl, fun _ => rfl, rfl, fun _ => rfl, _, _, p, hp, hpaging⟩
  have h₁ := System.Reachable.step hboot (PagedirStep.create rfl hcreate)
  have h₂ := System.Reachable.step h₁
    (PagedirStep.pages (PallocStep.get_group (by decide) hget hpage))
  have h₃ := System.Reachable.step h₂ (PagedirStep.set_page hpd (by decide) (by decide) rfl
    List.mem_cons_self rfl hset)
  have h₄ := System.Reachable.step h₃ (PagedirStep.set_dirty hpd (by decide) hdirty)
  have hrefines := pagedir_refines_map (by omega) (by omega) h₄ hpd
  exact ⟨_, _, h₄, hpd, hrefines, rfl, hrefines.get_page 0x08048123 (by decide),
    hrefines.is_dirty 0x08048123 ⟨⟨page, 1, .user⟩, true, false, true⟩ (by decide) rfl,
    hrefines.is_accessed 0x08048123 ⟨⟨page, 1, .user⟩, true, false, true⟩ (by decide) rfl⟩

end Berk162
