import Berk162.Lib.Extends
import Berk162.Userprog.Load
import Berk162.Userprog.PagedirRuns

/-!
# UserSpace — what a process has in its memory while it is loaded

A `UserSpace` says what is mapped at each page of user memory and what the process may do with it.
`Shows` connects it to the page directory, the page tables and the frames.  Each function that the
loader calls either leaves the space as it is or maps one more page.
-/

namespace Berk162

/-- A page of user memory: whether the process may write to it, and what it contains. -/
structure PageImage where
  writable : Bool
  bytes : Bytes
  deriving DecidableEq

abbrev UserSpace := Nat → Option PageImage

/-- The space of a map whose frames have the contents `mem`. -/
def user_space (mem : Memory) (map : UserMap) : UserSpace := fun p =>
  (map p).map fun m => ⟨m.writable, window mem m.frame.pages PGSIZE⟩

theorem user_space_congr {mem mem' : Memory} {map : UserMap}
    (h : ∀ p m, map p = some m → ∀ q ∈ page_bytes m.frame.pages, mem' q = mem q) :
    user_space mem' map = user_space mem map := by
  funext p
  cases hm : map p with
  | none =>
      simp only [user_space, hm, Option.map_none]
  | some m =>
      have hwindow : window mem' m.frame.pages PGSIZE = window mem m.frame.pages PGSIZE :=
        window_congr fun k hlo hhi => h p m hm k ⟨hlo, hhi⟩
      rw [user_space, user_space, hm, Option.map_some, Option.map_some, hwindow]

theorem user_space_update (mem : Memory) (map : UserMap) (p : Nat) (m : Mapping) :
    user_space mem (Function.update map p (some m)) =
      Function.update (user_space mem map) p
        (some ⟨m.writable, window mem m.frame.pages PGSIZE⟩) := by
  funext q
  by_cases hq : q = p
  · subst hq
    rw [user_space, Function.update_self, Function.update_self]
    rfl
  · rw [Function.update_of_ne hq, user_space, user_space, Function.update_of_ne hq]

theorem user_space_eq_none {mem : Memory} {map : UserMap} {p : Nat} :
    user_space mem map p = none ↔ map p = none :=
  Option.map_eq_none_iff

/-! ## The state of the loader -/

/-- A page of the user pool. -/
def user_group (page : Nat) : Group := ⟨page, 1, .user⟩

theorem user_group_bytes (page : Nat) : (user_group page).bytes = page_bytes page := by
  rw [Group.bytes, user_group, page_bytes, Nat.mul_one]

/-- The directory of the loader's process, and who has which pages. -/
def Loader.run (s : Loader) (kernel : Nat → BitVec 32) (map : UserMap) (others : List Group) :
    PagedirRun :=
  ⟨s.alloc, s.init_page_dir, kernel, s.pagedir, map, others⟩

/-- `others` are the pages of others and those that the loader has not mapped yet; `kern` are the
pages of `paging_init`. -/
structure LoaderAt (s : Loader) (kernel : Nat → BitVec 32) (kern others : List Group)
    (pt : Nat → Option Nat) (map : UserMap) : Prop where
  inv : PagedirInvAt (ram_end s.init_ram_pages) (s.run kernel map others) pt kern
  pagedir_ne : s.pagedir ≠ NULL
  user : ∀ p m, map p = some m → m.frame.pool = .user

/-- The loader's process has the memory `space`. -/
def Loader.Shows (s : Loader) (kernel : Nat → BitVec 32) (kern others : List Group)
    (space : UserSpace) : Prop :=
  ∃ pt map, LoaderAt s kernel kern others pt map ∧ user_space s.alloc.mem map = space

/-- Two states of one loader. -/
structure Loader.Same (s s' : Loader) : Prop where
  init_ram_pages : s'.init_ram_pages = s.init_ram_pages
  init_page_dir : s'.init_page_dir = s.init_page_dir
  pagedir : s'.pagedir = s.pagedir

theorem Loader.Same.refl (s : Loader) : s.Same s := ⟨rfl, rfl, rfl⟩

theorem Loader.Same.trans {s t u : Loader} (h : s.Same t) (h' : t.Same u) : s.Same u :=
  ⟨h'.init_ram_pages.trans h.init_ram_pages, h'.init_page_dir.trans h.init_page_dir,
    h'.pagedir.trans h.pagedir⟩

section

variable {s s' : Loader} {kernel : Nat → BitVec 32} {kern others : List Group}
  {pt : Nat → Option Nat} {map : UserMap} {space : UserSpace} {page upage : Nat}

namespace LoaderAt

theorem frame_mem (h : LoaderAt s kernel kern others pt map) {p : Nat} {m : Mapping}
    (hm : map p = some m) : m.frame ∈ dir_groups s.pagedir pt map := by
  rcases (h.inv.dir h.pagedir_ne).user p (by
    dsimp only [Loader.run]
    rw [hm]
    exact Option.some_ne_none m) with ⟨i, j, hi, hj, rfl⟩
  exact mem_dir_groups.2 (Or.inl ⟨i, j, m, hi, hj, hm, rfl⟩)

theorem frame_bytes (h : LoaderAt s kernel kern others pt map) {p : Nat} {m : Mapping}
    (hm : map p = some m) : m.frame.bytes = page_bytes m.frame.pages := by
  rw [Group.bytes, h.inv.one p m hm, Nat.mul_one]
  rfl

/-- The frames that are mapped lie outside of the directory and its page tables. -/
theorem frame_outside (h : LoaderAt s kernel kern others pt map) {p : Nat} {m : Mapping}
    (hm : map p = some m) {q : Nat} (hq : q ∈ page_bytes m.frame.pages) :
    Outside s.pagedir pt q := by
  rw [← h.frame_bytes hm] at hq
  exact outside_of_user h.inv.pages h.pagedir_ne (List.mem_append_left _ (h.frame_mem hm))
    (h.user p m hm) hq

/-- A frame that is mapped and a page that is not have no byte in common. -/
theorem frame_apart (h : LoaderAt s kernel kern others pt map) {g : Group} (hg : g ∈ others)
    {p : Nat} {m : Mapping} (hm : map p = some m) {q : Nat}
    (hq : q ∈ page_bytes m.frame.pages) : q ∉ g.bytes := by
  have hframe := h.frame_mem hm
  have hlive : g ∈ kern ++ others := List.mem_append_right _ hg
  rw [← h.frame_bytes hm] at hq
  refine h.inv.pages.disjoint (List.mem_append_left _ hframe) (List.mem_append_right _ hlive) ?_ q hq
  intro heq
  exact (List.nodup_append.1 h.inv.pages.nodup).2.2 _ hframe g hlive heq

/-- A step of the page allocator. -/
theorem pages_step (h : LoaderAt s kernel kern others pt map) {c : PallocCall} {a : Palloc}
    {others' : List Group} (hstep : PallocStep ⟨s.alloc, others⟩ c ⟨a, others'⟩) :
    LoaderAt (s.setAlloc a) kernel kern others' pt map ∧
      user_space a.mem map = user_space s.alloc.mem map := by
  have hpages := h.inv.pages
  rw [← List.append_assoc] at hpages
  refine ⟨⟨h.inv.pages_step hstep, h.pagedir_ne, h.user⟩, user_space_congr fun p m hm q hq => ?_⟩
  rw [← h.frame_bytes hm] at hq
  exact hpages.frame_mem hstep (List.mem_append_left _ (h.frame_mem hm)) hq

/-- A frame that is not mapped yet is written. -/
theorem write (h : LoaderAt s kernel kern others pt map) {mem : Memory}
    (hpage : user_group page ∈ others) (hkeep : ∀ q, q ∉ page_bytes page → mem q = s.alloc.mem q) :
    LoaderAt (s.setMem mem) kernel kern others pt map ∧
      user_space mem map = user_space s.alloc.mem map := by
  have hlive : user_group page ∈ kern ++ others := List.mem_append_right _ hpage
  have hbytes := user_group_bytes page
  have hguarded : ∀ q, (s.run kernel map others).Guarded q → mem q = s.alloc.mem q := by
    intro q hq
    refine hkeep q fun hin => ?_
    rw [← hbytes] at hin
    rcases hq with hq | ⟨_, hq⟩
    · -- the directory of the kernel
      rw [← page_group_bytes] at hq
      have hinit := h.inv.init_mem
      have hne : page_group s.init_page_dir ≠ user_group page := by
        intro heq
        cases congrArg Group.pool heq
      exact h.inv.pages.disjoint (List.mem_append_right _ hinit) (List.mem_append_right _ hlive) hne
        q hq hin
    · have hout := outside_of_live h.inv.pages h.pagedir_ne hlive hin
      rcases hq with hq | ⟨i, t, hi, ht, hq⟩
      · exact hout.1 hq
      · rcases (h.inv.table_iff h.pagedir_ne t).1 ⟨i, hi, ht⟩ with ⟨i', hi', ht'⟩
        exact hout.2 i' t hi' ht' hq
  refine ⟨⟨h.inv.write hguarded, h.pagedir_ne, h.user⟩, user_space_congr fun p m hm q hq => ?_⟩
  refine hkeep q ?_
  rw [← hbytes]
  exact h.frame_apart hpage hm hq

end LoaderAt

namespace Loader.Shows

/-- The state of the file system does not matter. -/
theorem setFs (h : s.Shows kernel kern others space) (fs : FileSys) :
    (s.setFs fs).Shows kernel kern others space := by
  rcases h with ⟨pt, map, hat, hspace⟩
  exact ⟨pt, map, ⟨hat.inv, hat.pagedir_ne, hat.user⟩, hspace⟩

theorem pages_step (h : s.Shows kernel kern others space) {c : PallocCall} {a : Palloc}
    {others' : List Group} (hstep : PallocStep ⟨s.alloc, others⟩ c ⟨a, others'⟩) :
    (s.setAlloc a).Shows kernel kern others' space := by
  rcases h with ⟨pt, map, hat, rfl⟩
  rcases hat.pages_step hstep with ⟨hat', hsame⟩
  exact ⟨pt, map, hat', hsame⟩

theorem write (h : s.Shows kernel kern others space) {mem : Memory}
    (hpage : user_group page ∈ others) (hkeep : ∀ q, q ∉ page_bytes page → mem q = s.alloc.mem q) :
    (s.setMem mem).Shows kernel kern others space := by
  rcases h with ⟨pt, map, hat, rfl⟩
  rcases hat.write hpage hkeep with ⟨hat', hsame⟩
  exact ⟨pt, map, hat', hsame⟩

/-- A page of the user pool is got, or there is none. -/
theorem get_page (h : s.Shows kernel kern others space) (flags : Nat)
    (huser : flags_pool flags = .user) (hassert : flags &&& PAL_ASSERT = 0) :
    palloc_get_page s.alloc flags = some (s.alloc, NULL) ∨
      ∃ a page, palloc_get_page s.alloc flags = some (a, page) ∧ page ≠ NULL ∧
        (s.setAlloc a).Shows kernel kern (user_group page :: others) space ∧
        (flags &&& PAL_ZERO ≠ 0 → ∀ q ∈ page_bytes page, a.mem q = 0) := by
  have hinv : ∃ live, PallocInv (ram_end s.init_ram_pages) ⟨s.alloc, live⟩ := by
    rcases h with ⟨_, _, hat, _⟩
    exact ⟨_, hat.inv.pages⟩
  rcases hinv with ⟨live, hinv⟩
  rw [palloc_get_page]
  rcases hinv.get_cases flags (Nat.le_refl 1) with ⟨_, a, page, hcall, hnull, _⟩ | ⟨_, hcall⟩
  · have hstep : PallocStep ⟨s.alloc, others⟩ (.get flags 1) ⟨a, user_group page :: others⟩ := by
      have hget := @PallocStep.get_group ⟨s.alloc, others⟩ flags 1 a page (Nat.le_refl 1) hcall hnull
      rw [huser] at hget
      exact hget
    refine Or.inr ⟨a, page, hcall, hnull, h.pages_step hstep, fun hzero q hq => ?_⟩
    rw [page_bytes, ← Nat.mul_one PGSIZE] at hq
    exact palloc_get_multiple_mem_zero hcall hnull hzero (by decide) hq
  · rw [hcall, if_neg (not_not.2 hassert)]
    exact Or.inl rfl

/-- A page does not reach the end of the address space. -/
theorem page_fits (h : s.Shows kernel kern others space) {g : Group} (hg : g ∈ others) :
    g.pages + PGSIZE < WORD := by
  rcases h with ⟨_, _, hat, _⟩
  have hlive := List.mem_append_right kern hg
  exact (hat.inv.pages.page_bounds (List.mem_append_right _ hlive)).2

/-- A page that was not mapped is freed. -/
theorem free_page (h : s.Shows kernel kern (user_group page :: others) space) :
    ∃ a, palloc_free_page s.alloc page = some a ∧
      (s.setAlloc a).Shows kernel kern others space := by
  have hmem : user_group page ∈ user_group page :: others := List.mem_cons_self
  have hfree : ∃ a, palloc_free_page s.alloc page = some a := by
    rcases h with ⟨_, _, hat, _⟩
    exact hat.inv.pages.good.free_ok (user_group page)
      (List.mem_append_right _ (List.mem_append_right _ hmem))
  rcases hfree with ⟨a, ha⟩
  have hstep := @PallocStep.free ⟨s.alloc, user_group page :: others⟩ _ a hmem ha
  have hshows := h.pages_step hstep
  rw [List.erase_cons_head] at hshows
  exact ⟨a, ha, hshows⟩

/-- A page is installed, if nothing is mapped at `upage` and there is memory for a page table. -/
theorem install_page (h : s.Shows kernel kern (user_group page :: others) space)
    (hofs : pg_ofs upage = 0) (hu : is_user_vaddr upage) (writable : Bool) :
    s.install_page upage page writable = some (s, false) ∨
      ∃ s', s.install_page upage page writable = some (s', true) ∧ s.Same s' ∧ s'.fs = s.fs ∧
        space upage = none ∧
        s'.Shows kernel kern others (Function.update space upage
          (some ⟨writable, window s.alloc.mem page PGSIZE⟩)) := by
  rcases h with ⟨pt, map, hat, rfl⟩
  have hget := (hat.inv.dir hat.pagedir_ne).pagedir_get_page (hat.inv.apart hat.pagedir_ne)
    (hat.inv.frame_page hat.pagedir_ne) hu
  dsimp only [Loader.run] at hget
  rw [pg_round_down_of_aligned hofs] at hget
  rw [Loader.install_page, hget]
  simp only [Option.bind_eq_bind, Option.bind_some]
  cases hm : map upage with
  | some m =>
      have hne : m.frame.pages + pg_ofs upage ≠ NULL := by
        have hframe := (hat.inv.frame_page hat.pagedir_ne upage m hm).ne_null
        rw [NULL] at hframe ⊢
        omega
      exact Or.inl (if_neg hne)
  | none =>
      rw [if_pos rfl]
      have hmem : user_group page ∈ user_group page :: others := List.mem_cons_self
      rcases hat.inv.set_page hat.pagedir_ne hofs hu hm hmem rfl writable with
        ⟨_, _, hcall⟩ | ⟨a, pt', hcall, hinv, hkeep⟩
      · left
        dsimp only [Loader.run, user_group] at hcall
        rw [hcall]
        rfl
      · right
        dsimp only [Loader.run, user_group] at hcall
        rw [hcall]
        set m : Mapping := ⟨user_group page, writable, false, false⟩ with hmapping
        have hat' : LoaderAt (s.setAlloc a) kernel kern others pt'
            (Function.update map upage (some m)) := by
          refine ⟨?_, hat.pagedir_ne, fun p m' hm' => ?_⟩
          · have herase := hinv
            dsimp only [Loader.run] at herase
            rw [List.erase_cons_head] at herase
            exact herase
          · by_cases hp : p = upage
            · subst hp
              rw [Function.update_self, Option.some.injEq] at hm'
              rw [← hm']
              rfl
            · rw [Function.update_of_ne hp] at hm'
              exact hat.user p m' hm'
        refine ⟨s.setAlloc a, rfl, ⟨rfl, rfl, rfl⟩, rfl, user_space_eq_none.2 hm, pt', _, hat', ?_⟩
        -- what is written to page tables does not change a frame
        have hsame : user_space a.mem (Function.update map upage (some m)) =
            user_space s.alloc.mem (Function.update map upage (some m)) :=
          user_space_congr fun p m' hm' q hq => hkeep q (hat'.frame_outside hm' hq)
        rw [Loader.setAlloc_alloc, hsame, user_space_update]
        rfl

/-- `install_or_free` on a page that has the contents `bytes`. -/
theorem install_or_free (h : s.Shows kernel kern (user_group page :: others) space)
    (hofs : pg_ofs upage = 0) (hu : is_user_vaddr upage) (writable : Bool) {bytes : Bytes}
    (hbytes : window s.alloc.mem page PGSIZE = bytes) :
    ∃ s' success, s.install_or_free upage page writable = some (s', success) ∧ s.Same s' ∧
      s'.fs = s.fs ∧
      (success = false → s'.Shows kernel kern others space) ∧
      (success = true → space upage = none ∧ s'.Shows kernel kern others
        (Function.update space upage (some ⟨writable, bytes⟩))) := by
  rcases h.install_page hofs hu writable with hcall | ⟨s', hcall, hsame, hfs, hfree, hshows⟩
  · rcases h.free_page with ⟨a, ha, hshows⟩
    refine ⟨s.setAlloc a, false, ?_, ⟨rfl, rfl, rfl⟩, rfl, fun _ => hshows, nofun⟩
    rw [Loader.install_or_free, hcall]
    simp only [Option.bind_eq_bind, Option.bind_some, Bool.false_eq_true, if_false, ha]
    rfl
  · rw [hbytes] at hshows
    refine ⟨s', true, ?_, hsame, hfs, nofun, fun _ => ⟨hfree, hshows⟩⟩
    rw [Loader.install_or_free, hcall]
    rfl

end Loader.Shows

end

end Berk162
