import Berk162.Lib.Extent
import Berk162.Lib.Transition
import Berk162.Threads.Palloc

/-!
# PallocRuns — what holds of the page allocator over whole runs

A run starts from `palloc_init` and makes `palloc_get_multiple` and `palloc_free_multiple` calls in
any order; it frees only groups that it was given.  The invariant `PallocInv` says that the used
bits of both pools are exactly the pages of the groups handed out and not yet freed.
-/

namespace Berk162

/-! ## Runs -/

/-- A group of pages as its owner knows it. -/
structure Group where
  pages : Nat
  page_cnt : Nat
  pool : PoolId
  deriving DecidableEq, Repr

/-- The page numbers of the group. -/
def Group.extent (g : Group) : Extent := ⟨pg_no g.pages, g.page_cnt⟩

/-- The addresses of the group. -/
def Group.bytes (g : Group) : Extent := ⟨g.pages, PGSIZE * g.page_cnt⟩

/-- The allocator and the groups that are live. -/
structure PallocRun where
  alloc : Palloc
  live : List Group

inductive PallocCall
  | get (flags page_cnt : Nat)
  | free (g : Group)

inductive PallocStep : PallocRun → PallocCall → PallocRun → Prop
  | get_group {s : PallocRun} {flags page_cnt : Nat} {a : Palloc} {pages : Nat} :
      1 ≤ page_cnt → palloc_get_multiple s.alloc flags page_cnt = some (a, pages) →
      pages ≠ NULL →
      PallocStep s (.get flags page_cnt) ⟨a, ⟨pages, page_cnt, flags_pool flags⟩ :: s.live⟩
  | get_null {s : PallocRun} {flags page_cnt : Nat} {a : Palloc} :
      1 ≤ page_cnt → palloc_get_multiple s.alloc flags page_cnt = some (a, NULL) →
      PallocStep s (.get flags page_cnt) ⟨a, s.live⟩
  | free {s : PallocRun} {g : Group} {a : Palloc} :
      g ∈ s.live → palloc_free_multiple s.alloc g.pages g.page_cnt = some a →
      PallocStep s (.free g) ⟨a, s.live.erase g⟩

/-- The runs on a machine with `init_ram_pages` pages of RAM. -/
def pallocSystem (init_ram_pages user_page_limit : Nat) : System PallocRun PallocCall where
  init s := s.live = [] ∧ ∃ storage mem,
    palloc_init init_ram_pages user_page_limit storage mem = some s.alloc
  step := PallocStep

/-- The address just past the end of RAM. -/
def ram_end (init_ram_pages : Nat) : Nat := PHYS_BASE + PGSIZE * init_ram_pages

/-! ## The shape of the pools

Where the pools and their bitmaps lie never changes after `palloc_init`. -/

/-- The pool occupies the addresses from `lo` to `hi`: first its bitmap, then its pages. -/
structure Pool.Wf (p : Pool) (lo hi : Nat) : Prop where
  map_at : p.used_map_at = lo
  map_fits : lo + bitmap_buf_size p.used_map.bit_cnt ≤ p.base
  aligned : p.base % PGSIZE = 0
  hi_eq : p.base + PGSIZE * p.used_map.bit_cnt = hi

structure Palloc.Wf (s : Palloc) (ram : Nat) : Prop where
  kernel : s.kernel_pool.Wf (PHYS_BASE + 1024 * 1024) s.user_pool.used_map_at
  user : s.user_pool.Wf s.user_pool.used_map_at ram
  ram_lt : ram < WORD

/-- `n` is the number of one of the pool's pages. -/
def Pool.Covers (p : Pool) (n : Nat) : Prop :=
  pg_no p.base ≤ n ∧ n < pg_no p.base + p.used_map.bit_cnt

/-- The pool's bitmap marks page number `n`. -/
def Pool.Used (p : Pool) (n : Nat) : Prop :=
  p.Covers n ∧ p.used_map.test (n - pg_no p.base) = true

def Palloc.Used (s : Palloc) (n : Nat) : Prop := ∃ id, (s.pool id).Used n

/-- The group lies inside the pages of its pool. -/
structure Group.Inside (s : Palloc) (g : Group) : Prop where
  aligned : g.pages % PGSIZE = 0
  pos : 1 ≤ g.page_cnt
  ge : pg_no (s.pool g.pool).base ≤ pg_no g.pages
  le : pg_no g.pages + g.page_cnt ≤
    pg_no (s.pool g.pool).base + (s.pool g.pool).used_map.bit_cnt

/-- The invariant of the page allocator. -/
structure PallocInv (ram : Nat) (s : PallocRun) : Prop where
  wf : s.alloc.Wf ram
  inside : ∀ g ∈ s.live, g.Inside s.alloc
  owns : Owns s.alloc.Used (s.live.map Group.extent)
  tight : Tight s.alloc.Used (s.live.map Group.extent)

/-! ### Consequences of the shape -/

namespace Palloc.Wf

variable {s : Palloc} {ram : Nat}

/-- The kernel pool ends before the user pool's bitmap, which comes before the user pool. -/
theorem pools_ordered (h : s.Wf ram) :
    s.kernel_pool.base + PGSIZE * s.kernel_pool.used_map.bit_cnt ≤ s.user_pool.base := by
  have hk := h.kernel.hi_eq
  have hu := h.user.map_fits
  omega

theorem base_pos (h : s.Wf ram) (id : PoolId) : PHYS_BASE ≤ (s.pool id).base := by
  have hk := h.kernel.map_fits
  have ho := h.pools_ordered
  cases id <;> simp only [Palloc.pool] <;> omega

theorem aligned (h : s.Wf ram) (id : PoolId) : (s.pool id).base % PGSIZE = 0 := by
  cases id
  · exact h.kernel.aligned
  · exact h.user.aligned

theorem end_le (h : s.Wf ram) (id : PoolId) :
    (s.pool id).base + PGSIZE * (s.pool id).used_map.bit_cnt ≤ ram := by
  have ho := h.pools_ordered
  have hu := h.user.hi_eq
  cases id <;> simp only [Palloc.pool] <;> omega

theorem bit_cnt_lt (h : s.Wf ram) (id : PoolId) : (s.pool id).used_map.bit_cnt < 2 ^ 20 := by
  have he := h.end_le id
  have hb := h.base_pos id
  have hr := h.ram_lt
  rw [PGSIZE_eq] at he
  rw [PHYS_BASE_eq] at hb
  rw [WORD_eq] at hr
  omega

/-- A page number belongs to at most one pool. -/
theorem covers_unique (h : s.Wf ram) {id id' : PoolId} {n : Nat}
    (hc : (s.pool id).Covers n) (hc' : (s.pool id').Covers n) : id = id' := by
  have ho := h.pools_ordered
  simp only [Pool.Covers, pg_no] at hc hc'
  rw [PGSIZE_eq] at ho hc hc'
  have hk := h.kernel.aligned
  rw [PGSIZE_eq] at hk
  cases id <;> cases id' <;> simp only [Palloc.pool] at hc hc' <;> first | rfl | omega

/-- Replacing a pool's bitmap by one of the same length keeps the shape. -/
theorem setPool (h : s.Wf ram) (id : PoolId) {m : Bitmap}
    (hm : m.bit_cnt = (s.pool id).used_map.bit_cnt) :
    (s.setPool id ((s.pool id).withMap m)).Wf ram := by
  cases id with
  | kernel =>
      refine ⟨⟨h.kernel.map_at, ?_, h.kernel.aligned, ?_⟩, h.user, h.ram_lt⟩
      · simpa [Palloc.setPool, Palloc.pool, hm] using h.kernel.map_fits
      · simpa [Palloc.setPool, Palloc.pool, hm] using h.kernel.hi_eq
  | user =>
      refine ⟨h.kernel, ⟨h.user.map_at, ?_, h.user.aligned, ?_⟩, h.ram_lt⟩
      · simpa [Palloc.setPool, Palloc.pool, hm] using h.user.map_fits
      · simpa [Palloc.setPool, Palloc.pool, hm] using h.user.hi_eq

end Palloc.Wf

/-! ## One call

`Used` changes by exactly the group that the call flips. -/

section

variable {s : Palloc} {ram : Nat} {id : PoolId} {m : Bitmap} {idx cnt : Nat}

/-- The page numbers of the `cnt` pages from index `idx` of the pool. -/
def Pool.run (p : Pool) (idx cnt : Nat) : Extent := ⟨pg_no p.base + idx, cnt⟩

theorem covers_of_mem_run (hfit : idx + cnt ≤ (s.pool id).used_map.bit_cnt) {n : Nat}
    (hn : n ∈ (s.pool id).run idx cnt) : (s.pool id).Covers n := by
  rw [Extent.mem_def] at hn
  simp only [Pool.run] at hn
  constructor <;> omega

theorem used_setPool_true (hm : m.bit_cnt = (s.pool id).used_map.bit_cnt)
    (hfit : idx + cnt ≤ (s.pool id).used_map.bit_cnt)
    (htest : ∀ j, m.test j =
      if idx ≤ j ∧ j < idx + cnt then true else (s.pool id).used_map.test j) (n : Nat) :
    (s.setPool id ((s.pool id).withMap m)).Used n ↔
      s.Used n ∨ n ∈ (s.pool id).run idx cnt := by
  constructor
  · rintro ⟨id', hcov, hbit⟩
    by_cases hid : id' = id
    · subst hid
      simp only [Palloc.pool_setPool_self, Pool.Covers, Pool.withMap_used_map, Pool.withMap_base,
        hm] at hcov hbit
      rw [htest] at hbit
      split_ifs at hbit with hin
      · right
        rw [Extent.mem_def]
        simp only [Pool.run]
        omega
      · exact Or.inl ⟨id', hcov, hbit⟩
    · rw [Palloc.pool_setPool_of_ne _ _ hid] at hcov hbit
      exact Or.inl ⟨id', hcov, hbit⟩
  · rintro (⟨id', hcov, hbit⟩ | hn)
    · refine ⟨id', ?_⟩
      by_cases hid : id' = id
      · subst hid
        refine ⟨by simpa [Pool.Covers, hm] using hcov, ?_⟩
        simp only [Palloc.pool_setPool_self, Pool.withMap_used_map, Pool.withMap_base]
        rw [htest, hbit, ite_self]
      · rw [Palloc.pool_setPool_of_ne _ _ hid]
        exact ⟨hcov, hbit⟩
    · have hcov := covers_of_mem_run hfit hn
      rw [Extent.mem_def] at hn
      simp only [Pool.run] at hn
      refine ⟨id, by simpa [Pool.Covers, hm] using hcov, ?_⟩
      simp only [Palloc.pool_setPool_self, Pool.withMap_used_map, Pool.withMap_base]
      rw [htest, if_pos (by omega)]

theorem used_setPool_false (hwf : s.Wf ram) (hm : m.bit_cnt = (s.pool id).used_map.bit_cnt)
    (hfit : idx + cnt ≤ (s.pool id).used_map.bit_cnt)
    (htest : ∀ j, m.test j =
      if idx ≤ j ∧ j < idx + cnt then false else (s.pool id).used_map.test j) (n : Nat) :
    (s.setPool id ((s.pool id).withMap m)).Used n ↔
      s.Used n ∧ n ∉ (s.pool id).run idx cnt := by
  constructor
  · rintro ⟨id', hcov, hbit⟩
    by_cases hid : id' = id
    · subst hid
      simp only [Palloc.pool_setPool_self, Pool.Covers, Pool.withMap_used_map, Pool.withMap_base,
        hm] at hcov hbit
      rw [htest] at hbit
      split_ifs at hbit with hin
      refine ⟨⟨id', hcov, hbit⟩, fun hn => hin ?_⟩
      rw [Extent.mem_def] at hn
      simp only [Pool.run] at hn
      omega
    · rw [Palloc.pool_setPool_of_ne _ _ hid] at hcov hbit
      -- a page of one pool is never inside a run of the other
      exact ⟨⟨id', hcov, hbit⟩, fun hn =>
        hid (hwf.covers_unique hcov (covers_of_mem_run hfit hn))⟩
  · rintro ⟨⟨id', hcov, hbit⟩, hn⟩
    refine ⟨id', ?_⟩
    by_cases hid : id' = id
    · subst hid
      refine ⟨by simpa [Pool.Covers, hm] using hcov, ?_⟩
      simp only [Palloc.pool_setPool_self, Pool.withMap_used_map, Pool.withMap_base]
      rw [htest, if_neg, hbit]
      intro hin
      apply hn
      rw [Extent.mem_def]
      simp only [Pool.run, Pool.Covers] at hcov ⊢
      omega
    · rw [Palloc.pool_setPool_of_ne _ _ hid]
      exact ⟨hcov, hbit⟩

end

/-- The address of page `idx` of a pool, and its page number. -/
theorem pg_no_page {base idx : Nat} (hb : base % PGSIZE = 0) :
    pg_no (base + PGSIZE * idx) = pg_no base + idx := by
  simp only [pg_no]
  rw [PGSIZE_eq] at hb ⊢
  omega

theorem eq_of_pg_no {base va : Nat} (hb : base % PGSIZE = 0) (hv : va % PGSIZE = 0)
    (hle : pg_no base ≤ pg_no va) : va = base + PGSIZE * (pg_no va - pg_no base) := by
  simp only [pg_no] at hle ⊢
  rw [PGSIZE_eq] at hb hv hle ⊢
  omega

/-- What a call of `palloc_get_multiple` does: it takes the first run of free pages, or, when there
is none, changes nothing (and panics if `PAL_ASSERT` is set). -/
theorem palloc_get_multiple_spec {s : Palloc} {ram : Nat} (hwf : s.Wf ram) (flags : Nat)
    {page_cnt : Nat} (hpos : 1 ≤ page_cnt) {p : Pool} (hp : s.pool (flags_pool flags) = p) :
    (∃ m idx mem, p.used_map.FirstRun 0 page_cnt false idx ∧
        m.bit_cnt = p.used_map.bit_cnt ∧
        (∀ j, m.test j = if idx ≤ j ∧ j < idx + page_cnt then true else p.used_map.test j) ∧
        palloc_get_multiple s flags page_cnt =
          some ((s.setPool (flags_pool flags) (p.withMap m)).withMem mem, p.base + PGSIZE * idx)) ∨
      (p.used_map.NoRun 0 page_cnt false ∧
        palloc_get_multiple s flags page_cnt =
          if flags &&& PAL_ASSERT ≠ 0 then none else some (s, NULL)) := by
  have hcnt := hwf.bit_cnt_lt (flags_pool flags)
  have hend := hwf.end_le (flags_pool flags)
  have hbase := hwf.base_pos (flags_pool flags)
  have hram := hwf.ram_lt
  rw [hp] at hcnt hend hbase
  rw [PHYS_BASE_eq] at hbase
  rw [PGSIZE_eq] at hend
  rw [WORD_eq] at hram
  have hne0 : page_cnt ≠ 0 := by omega
  have hbase0 : p.base ≠ 0 := by omega
  have herr : p.used_map.bit_cnt < BITMAP_ERROR := by
    simp only [BITMAP_ERROR, WORD_eq]
    omega
  rcases bitmap_scan_and_flip_spec page_cnt false (Nat.zero_le _) herr with
    ⟨m, idx, hflip, hidx, hfirst, hm, htest⟩ | ⟨hflip, hno⟩
  · left
    have hfits := hfirst.fits
    have hmul : size_mul PGSIZE idx = PGSIZE * idx := by
      apply size_mul_eq
      rw [PGSIZE_eq, WORD_eq]
      omega
    have hadd : size_add p.base (PGSIZE * idx) = p.base + PGSIZE * idx := by
      apply size_add_eq
      rw [PGSIZE_eq, WORD_eq]
      omega
    by_cases hzero : flags &&& PAL_ZERO = 0
    · refine ⟨m, idx, s.mem, hfirst, hm, htest, ?_⟩
      simp [palloc_get_multiple, hne0, hp, hflip, hidx, hmul, hadd, hbase0, hzero, NULL]
      cases flags_pool flags <;> rfl
    · refine ⟨m, idx, memset s.mem (p.base + PGSIZE * idx) 0 (size_mul PGSIZE page_cnt), hfirst,
        hm, htest, ?_⟩
      simp [palloc_get_multiple, hne0, hp, hflip, hidx, hmul, hadd, hbase0, hzero, NULL]
  · right
    refine ⟨hno, ?_⟩
    have hsame : s.setPool (flags_pool flags) (p.withMap p.used_map) = s := by
      rw [← hp]
      exact s.setPool_pool _
    simp [palloc_get_multiple, hne0, hp, hflip, hsame, NULL]

theorem page_from_pool_iff {s : Palloc} {ram : Nat} (hwf : s.Wf ram) (id : PoolId) (page : Nat) :
    page_from_pool (s.pool id) page = true ↔ (s.pool id).Covers (pg_no page) := by
  have hcnt := hwf.bit_cnt_lt id
  have hend := hwf.end_le id
  have hram := hwf.ram_lt
  have hadd : size_add (pg_no (s.pool id).base) (s.pool id).used_map.bit_cnt =
      pg_no (s.pool id).base + (s.pool id).used_map.bit_cnt := by
    apply size_add_eq
    simp only [pg_no]
    rw [PGSIZE_eq] at hend ⊢
    rw [WORD_eq] at hram ⊢
    omega
  simp [page_from_pool, hadd, Pool.Covers]

/-- `palloc_free_multiple` finds the pool that a page lies in. -/
theorem page_pool_eq {s : Palloc} {ram : Nat} (hwf : s.Wf ram) {id : PoolId} {page : Nat}
    (hcov : (s.pool id).Covers (pg_no page)) : page_pool s page = some id := by
  have hfrom := (page_from_pool_iff hwf id page).2 hcov
  cases id with
  | kernel =>
      simp only [Palloc.pool] at hfrom
      simp [page_pool, hfrom]
  | user =>
      have hnot : page_from_pool s.kernel_pool page = false := by
        by_contra hk
        rw [Bool.not_eq_false] at hk
        have := hwf.covers_unique ((page_from_pool_iff hwf .kernel page).1 hk) hcov
        cases this
      simp only [Palloc.pool] at hfrom
      simp [page_pool, hnot, hfrom]

theorem Group.Inside.covers {s : Palloc} {g : Group} (h : g.Inside s) {n : Nat}
    (hn : n ∈ g.extent) : (s.pool g.pool).Covers n := by
  have hge := h.ge
  have hle := h.le
  rw [Extent.mem_def] at hn
  simp only [Group.extent] at hn
  constructor <;> omega

theorem Group.Inside.extent_eq {s : Palloc} {g : Group} (h : g.Inside s) :
    g.extent = (s.pool g.pool).run (pg_no g.pages - pg_no (s.pool g.pool).base) g.page_cnt := by
  have hge := h.ge
  simp only [Group.extent, Pool.run, Extent.mk.injEq, and_true]
  omega

/-- Freeing a group whose pages are all marked clears exactly those pages and never panics. -/
theorem palloc_free_multiple_spec {s : Palloc} {ram : Nat} (hwf : s.Wf ram) {g : Group}
    (hin : g.Inside s) (hused : ∀ n ∈ g.extent, s.Used n) :
    ∃ m mem, m.bit_cnt = (s.pool g.pool).used_map.bit_cnt ∧
      (∀ j, m.test j =
        if pg_no g.pages - pg_no (s.pool g.pool).base ≤ j ∧
            j < pg_no g.pages - pg_no (s.pool g.pool).base + g.page_cnt
        then false else (s.pool g.pool).used_map.test j) ∧
      palloc_free_multiple s g.pages g.page_cnt =
        some ((s.setPool g.pool ((s.pool g.pool).withMap m)).withMem mem) := by
  have hcnt := hwf.bit_cnt_lt g.pool
  have hend := hwf.end_le g.pool
  have hbase := hwf.base_pos g.pool
  have hram := hwf.ram_lt
  have hge := hin.ge
  have hle := hin.le
  have hpos := hin.pos
  have hword : (s.pool g.pool).used_map.bit_cnt < WORD := by
    rw [WORD_eq]
    omega
  have hmem0 : pg_no g.pages ∈ g.extent := by
    rw [Extent.mem_def]
    simp only [Group.extent]
    omega
  have hcov : (s.pool g.pool).Covers (pg_no g.pages) := hin.covers hmem0
  have hsub : size_sub (pg_no g.pages) (pg_no (s.pool g.pool).base) =
      pg_no g.pages - pg_no (s.pool g.pool).base := by
    apply size_sub_eq hge
    have hlt := hcov.2
    simp only [pg_no] at hlt ⊢
    rw [PGSIZE_eq] at hend hlt ⊢
    rw [WORD_eq] at hram ⊢
    omega
  have hfit : pg_no g.pages - pg_no (s.pool g.pool).base + g.page_cnt ≤
      (s.pool g.pool).used_map.bit_cnt := by omega
  have hrun : (s.pool g.pool).used_map.RunAt
      (pg_no g.pages - pg_no (s.pool g.pool).base) g.page_cnt true := by
    intro i hi hi'
    have hmem : pg_no (s.pool g.pool).base + i ∈ g.extent := by
      rw [Extent.mem_def]
      simp only [Group.extent]
      omega
    rcases hused _ hmem with ⟨id, hc, hbit⟩
    have hid := hwf.covers_unique hc (hin.covers hmem)
    subst hid
    simpa using hbit
  rcases bitmap_all_spec hfit hword with ⟨r, hall, hr⟩
  have hr' : r = true := hr.2 hrun
  subst hr'
  rcases bitmap_set_multiple_spec false hfit hword with ⟨m, hset, hm, htest⟩
  refine ⟨m, memset s.mem g.pages 0xcc (size_mul PGSIZE g.page_cnt), hm, htest, ?_⟩
  have hofs : pg_ofs g.pages = 0 := hin.aligned
  have hnull : g.pages ≠ 0 := by
    intro h0
    simp only [pg_no, h0, Nat.zero_div] at hge
    rw [PHYS_BASE_eq] at hbase
    rw [PGSIZE_eq] at hge
    omega
  have hpc : g.page_cnt ≠ 0 := by omega
  have hguard : ¬ (g.pages = NULL ∨ g.page_cnt = 0) := not_or.2 ⟨hnull, hpc⟩
  unfold palloc_free_multiple
  rw [ASSERT_pos hofs, Option.bind_eq_bind, Option.bind_some, if_neg hguard,
    page_pool_eq hwf hcov, Option.bind_eq_bind, Option.bind_some]
  simp only [hsub, hall, hset, Option.bind_eq_bind, Option.bind_some]
  rw [Palloc.setPool_withMem]
  rfl

/-! ## The invariant -/

theorem Palloc.used_withMem (s : Palloc) (mem : Memory) (n : Nat) :
    (s.withMem mem).Used n ↔ s.Used n := by
  constructor <;> rintro ⟨id, h⟩ <;> refine ⟨id, ?_⟩ <;> cases id <;> exact h

theorem Palloc.Wf.withMem {s : Palloc} {ram : Nat} (h : s.Wf ram) (mem : Memory) :
    (s.withMem mem).Wf ram :=
  ⟨h.kernel, h.user, h.ram_lt⟩

/-- A group keeps its place when the bitmap of a pool changes. -/
theorem Group.Inside.setPool {s : Palloc} {g : Group} (h : g.Inside s) (id : PoolId) {m : Bitmap}
    (hm : m.bit_cnt = (s.pool id).used_map.bit_cnt) (mem : Memory) :
    g.Inside ((s.setPool id ((s.pool id).withMap m)).withMem mem) := by
  refine ⟨h.aligned, h.pos, ?_, ?_⟩ <;> rw [Palloc.pool_withMem] <;> by_cases hid : g.pool = id
  · subst hid
    simpa using h.ge
  · rw [Palloc.pool_setPool_of_ne _ _ hid]
    exact h.ge
  · subst hid
    simpa [hm] using h.le
  · rw [Palloc.pool_setPool_of_ne _ _ hid]
    exact h.le

theorem PallocInv.perm {ram : Nat} {a : Palloc} {live live' : List Group}
    (h : PallocInv ram ⟨a, live⟩) (hp : live.Perm live') : PallocInv ram ⟨a, live'⟩ :=
  ⟨h.wf, fun g hg => h.inside g (hp.mem_iff.2 hg), h.owns.perm (hp.map _), h.tight.perm (hp.map _)⟩

/-- The contents of memory do not matter to the allocator. -/
theorem PallocInv.withMem {ram : Nat} {a : Palloc} {live : List Group}
    (h : PallocInv ram ⟨a, live⟩) (mem : Memory) : PallocInv ram ⟨a.withMem mem, live⟩ := by
  refine ⟨h.wf.withMem mem, fun g hg => ?_, ?_, ?_⟩
  · have hin := h.inside g hg
    exact ⟨hin.aligned, hin.pos, by simpa using hin.ge, by simpa using hin.le⟩
  · exact h.owns.congr fun n => (a.used_withMem mem n).symm
  · exact h.tight.congr fun n => (a.used_withMem mem n).symm

theorem PallocInv.get_group {ram : Nat} {s : PallocRun} (h : PallocInv ram s) {flags page_cnt : Nat}
    {a : Palloc} {pages : Nat} (hpos : 1 ≤ page_cnt)
    (hcall : palloc_get_multiple s.alloc flags page_cnt = some (a, pages)) (hnull : pages ≠ NULL) :
    PallocInv ram ⟨a, ⟨pages, page_cnt, flags_pool flags⟩ :: s.live⟩ := by
  rcases palloc_get_multiple_spec h.wf flags hpos rfl with
    ⟨m, idx, mem, hfirst, hm, htest, hres⟩ | ⟨_, hres⟩
  · rw [hres, Option.some.injEq, Prod.mk.injEq] at hcall
    rcases hcall with ⟨rfl, rfl⟩
    have hal := h.wf.aligned (flags_pool flags)
    have hfits := hfirst.fits
    have hext : Group.extent ⟨(s.alloc.pool (flags_pool flags)).base + PGSIZE * idx, page_cnt,
        flags_pool flags⟩ = (s.alloc.pool (flags_pool flags)).run idx page_cnt := by
      simp only [Group.extent, Pool.run, pg_no_page hal]
    have hfree : ∀ n ∈ (s.alloc.pool (flags_pool flags)).run idx page_cnt, ¬ s.alloc.Used n := by
      rintro n hn ⟨id, hc, hbit⟩
      have hid := h.wf.covers_unique hc (covers_of_mem_run hfits hn)
      subst hid
      rw [Extent.mem_def] at hn
      simp only [Pool.run] at hn
      rw [hfirst.run _ (by omega) (by omega)] at hbit
      cases hbit
    have hused : ∀ n, (s.alloc.Used n ∨ n ∈ (s.alloc.pool (flags_pool flags)).run idx page_cnt) ↔
        ((s.alloc.setPool (flags_pool flags)
          ((s.alloc.pool (flags_pool flags)).withMap m)).withMem mem).Used n := by
      intro n
      rw [Palloc.used_withMem, used_setPool_true hm hfits htest]
    have hnew : Group.Inside s.alloc ⟨(s.alloc.pool (flags_pool flags)).base + PGSIZE * idx,
        page_cnt, flags_pool flags⟩ := by
      refine ⟨?_, hpos, ?_, ?_⟩
      · show ((s.alloc.pool (flags_pool flags)).base + PGSIZE * idx) % PGSIZE = 0
        rw [Nat.add_mul_mod_self_left, hal]
      · show pg_no (s.alloc.pool (flags_pool flags)).base ≤ pg_no (_ + PGSIZE * idx)
        rw [pg_no_page hal]
        omega
      · show pg_no (_ + PGSIZE * idx) + page_cnt ≤
          pg_no (s.alloc.pool (flags_pool flags)).base +
            (s.alloc.pool (flags_pool flags)).used_map.bit_cnt
        rw [pg_no_page hal]
        omega
    refine ⟨(h.wf.setPool _ hm).withMem mem, ?_, ?_, ?_⟩
    · intro g hg
      rcases List.mem_cons.1 hg with rfl | hg
      · exact hnew.setPool _ hm mem
      · exact (h.inside g hg).setPool _ hm mem
    · rw [List.map_cons, hext]
      exact (h.owns.cons hfree).congr hused
    · rw [List.map_cons, hext]
      exact h.tight.cons.congr hused
  · rw [hres] at hcall
    split_ifs at hcall
    rw [Option.some.injEq, Prod.mk.injEq] at hcall
    exact absurd hcall.2.symm hnull

/-- A call of `palloc_get_multiple` that returns a null pointer changes nothing. -/
theorem palloc_get_multiple_null {s a : Palloc} {ram : Nat} (hwf : s.Wf ram)
    {flags page_cnt : Nat} (hpos : 1 ≤ page_cnt)
    (hcall : palloc_get_multiple s flags page_cnt = some (a, NULL)) : a = s := by
  rcases palloc_get_multiple_spec hwf flags hpos rfl with
    ⟨m, idx, mem, _, _, _, hres⟩ | ⟨_, hres⟩
  · rw [hres, Option.some.injEq, Prod.mk.injEq] at hcall
    have hbase := hwf.base_pos (flags_pool flags)
    rw [PHYS_BASE_eq] at hbase
    have hzero : (s.pool (flags_pool flags)).base + PGSIZE * idx = 0 := hcall.2
    omega
  · rw [hres] at hcall
    split_ifs at hcall
    rw [Option.some.injEq, Prod.mk.injEq] at hcall
    exact hcall.1.symm

/-- The pool has `page_cnt` free pages in a row. -/
def Palloc.HasRun (s : Palloc) (id : PoolId) (page_cnt : Nat) : Prop :=
  ∃ k, k + page_cnt ≤ (s.pool id).used_map.bit_cnt ∧ (s.pool id).used_map.RunAt k page_cnt false

/-- One call of `palloc_get_multiple` on a good allocator: a new group, or nothing changes. -/
theorem PallocInv.get_cases {ram : Nat} {s : PallocRun} (h : PallocInv ram s) (flags : Nat)
    {page_cnt : Nat} (hpos : 1 ≤ page_cnt) :
    (s.alloc.HasRun (flags_pool flags) page_cnt ∧
      ∃ a pages, palloc_get_multiple s.alloc flags page_cnt = some (a, pages) ∧ pages ≠ NULL ∧
        PallocInv ram ⟨a, ⟨pages, page_cnt, flags_pool flags⟩ :: s.live⟩) ∨
      (¬ s.alloc.HasRun (flags_pool flags) page_cnt ∧
        palloc_get_multiple s.alloc flags page_cnt =
          if flags &&& PAL_ASSERT ≠ 0 then none else some (s.alloc, NULL)) := by
  rcases palloc_get_multiple_spec h.wf flags hpos rfl with
    ⟨m, idx, mem, hfirst, _, _, hres⟩ | ⟨hno, hres⟩
  · have hbase := h.wf.base_pos (flags_pool flags)
    rw [PHYS_BASE_eq] at hbase
    have hnull : (s.alloc.pool (flags_pool flags)).base + PGSIZE * idx ≠ NULL := by
      simp only [NULL]
      omega
    exact Or.inl ⟨⟨idx, hfirst.fits, hfirst.run⟩, _, _, hres, hnull, h.get_group hpos hres hnull⟩
  · refine Or.inr ⟨?_, hres⟩
    rintro ⟨k, hk, hrun⟩
    exact hno k (Nat.zero_le k) hk hrun

theorem PallocInv.used_of_mem {ram : Nat} {s : PallocRun} (h : PallocInv ram s) {g : Group}
    (hg : g ∈ s.live) : ∀ n ∈ g.extent, s.alloc.Used n :=
  h.owns.marked _ (List.mem_map_of_mem hg)

theorem PallocInv.free {ram : Nat} {s : PallocRun} (h : PallocInv ram s) {g : Group}
    {a : Palloc} (hg : g ∈ s.live)
    (hcall : palloc_free_multiple s.alloc g.pages g.page_cnt = some a) :
    PallocInv ram ⟨a, s.live.erase g⟩ := by
  have hin := h.inside g hg
  rcases palloc_free_multiple_spec h.wf hin (h.used_of_mem hg) with ⟨m, mem, hm, htest, hres⟩
  rw [hres, Option.some.injEq] at hcall
  subst hcall
  have hge := hin.ge
  have hle := hin.le
  have hfit : pg_no g.pages - pg_no (s.alloc.pool g.pool).base + g.page_cnt ≤
      (s.alloc.pool g.pool).used_map.bit_cnt := by omega
  have hused : ∀ n, (s.alloc.Used n ∧ n ∉ g.extent) ↔
      ((s.alloc.setPool g.pool ((s.alloc.pool g.pool).withMap m)).withMem mem).Used n := by
    intro n
    rw [Palloc.used_withMem, used_setPool_false h.wf hm hfit htest, hin.extent_eq]
  have hperm : (s.live.map Group.extent).Perm
      (g.extent :: (s.live.erase g).map Group.extent) :=
    (List.perm_cons_erase hg).map Group.extent
  refine ⟨(h.wf.setPool _ hm).withMem mem, ?_, ?_, ?_⟩
  · intro g' hg'
    exact (h.inside g' (List.mem_of_mem_erase hg')).setPool _ hm mem
  · exact (h.owns.perm hperm).tail.congr hused
  · exact (h.tight.perm hperm).tail.congr hused

theorem PallocInv.step {ram : Nat} {s t : PallocRun} {c : PallocCall} (h : PallocInv ram s)
    (hstep : PallocStep s c t) : PallocInv ram t := by
  cases hstep with
  | get_group hpos hcall hnull =>
      exact h.get_group hpos hcall hnull
  | get_null hpos hcall =>
      have hsame := palloc_get_multiple_null h.wf hpos hcall
      subst hsame
      exact h
  | free hg hcall =>
      exact h.free hg hcall

/-! ## Initialization -/

/-- `init_pool` puts the bitmap at the start of the pool and leaves every page free. -/
theorem init_pool_spec {base page_cnt : Nat} {storage : Nat → BitVec 32} {p : Pool}
    (hal : base % PGSIZE = 0) (hend : base + PGSIZE * page_cnt < WORD) (hbase : PHYS_BASE ≤ base)
    (hinit : init_pool base page_cnt storage = some p) :
    p.Wf base (base + PGSIZE * page_cnt) ∧
      ∀ i, i < p.used_map.bit_cnt → p.used_map.test i = false := by
  have hcnt : page_cnt < 2 ^ 20 := by
    rw [PGSIZE_eq, WORD_eq] at hend
    rw [PHYS_BASE_eq] at hbase
    omega
  have hbuf : ∀ n, n ≤ page_cnt → bitmap_buf_size n = 8 + 4 * ((n + 31) / 32) := by
    intro n hn
    have helem : elem_cnt n = (n + 31) / 32 := by
      rw [elem_cnt, ELEM_BITS, DIV_ROUND_UP_eq (by omega) (by rw [WORD_eq]; omega)]
      omega
    have hbyte : byte_cnt n = 4 * ((n + 31) / 32) := by
      rw [byte_cnt, helem, size_mul_eq (by rw [WORD_eq]; omega)]
    rw [bitmap_buf_size, hbyte, sizeof_bitmap, size_add_eq (by rw [WORD_eq]; omega)]
  have hround : DIV_ROUND_UP (bitmap_buf_size page_cnt) PGSIZE =
      (bitmap_buf_size page_cnt + 4095) / 4096 := by
    have hb := hbuf page_cnt (le_refl _)
    rw [PGSIZE_eq, DIV_ROUND_UP_eq (by omega) (by rw [WORD_eq]; omega)]
    omega
  unfold init_pool at hinit
  simp only [hround] at hinit
  split_ifs at hinit with hgt
  set bm := (bitmap_buf_size page_cnt + 4095) / 4096 with hbm
  have hmul : size_mul bm PGSIZE = bm * PGSIZE := by
    apply size_mul_eq
    rw [PGSIZE_eq, WORD_eq]
    omega
  have hsum : size_add base (bm * PGSIZE) = base + bm * PGSIZE := by
    apply size_add_eq
    rw [PGSIZE_eq, WORD_eq] at hend ⊢
    omega
  have hsmall := hbuf (page_cnt - bm) (Nat.sub_le _ _)
  have hlarge := hbuf page_cnt (le_refl _)
  simp only [bitmap_create_in_buf, hmul, hsum, Option.bind_eq_bind, Option.bind_eq_some_iff,
    ASSERT_eq_some, Option.pure_def, Option.some.injEq] at hinit
  rcases hinit with ⟨m, ⟨_, hroom, hall⟩, rfl⟩
  rcases bitmap_set_all_spec { bit_cnt := page_cnt - bm, bits := storage } false
    (show page_cnt - bm < WORD by rw [WORD_eq]; omega) with ⟨m', hset, hm', htest⟩
  rw [hall, Option.some.injEq] at hset
  subst hset
  refine ⟨⟨rfl, ?_, ?_, ?_⟩, ?_⟩
  · show base + bitmap_buf_size m.bit_cnt ≤ base + bm * PGSIZE
    rw [hm']
    exact Nat.add_le_add_left hroom base
  · show (base + bm * PGSIZE) % PGSIZE = 0
    rw [Nat.add_mul_mod_self_right, hal]
  · show base + bm * PGSIZE + PGSIZE * m.bit_cnt = base + PGSIZE * page_cnt
    rw [hm', PGSIZE_eq]
    show base + bm * 4096 + 4096 * (page_cnt - bm) = base + 4096 * page_cnt
    omega
  · intro i hi
    rw [htest]
    rw [hm'] at hi
    exact if_pos hi

/-- `init_pools` divides the memory between the pools, with every page free. -/
theorem init_pools_spec {free_start free_pages user_page_limit : Nat}
    {storage : PoolId → Nat → BitVec 32} {mem : Memory} {s : Palloc}
    (hstart : free_start = PHYS_BASE + 1024 * 1024)
    (hend : free_start + PGSIZE * free_pages < WORD)
    (hinit : init_pools free_start free_pages user_page_limit storage mem = some s) :
    s.Wf (free_start + PGSIZE * free_pages) ∧ ∀ n, ¬ s.Used n := by
  unfold init_pools at hinit
  -- how many pages the user pool gets does not matter, only that they are there
  have hle : (if free_pages / 2 > user_page_limit then user_page_limit else free_pages / 2) ≤
      free_pages := by
    split_ifs <;> omega
  generalize (if free_pages / 2 > user_page_limit then user_page_limit else free_pages / 2) =
    user_pages at hinit hle
  have hkernel : size_sub free_pages user_pages = free_pages - user_pages := by
    apply size_sub_eq hle
    rw [PGSIZE_eq] at hend
    omega
  have hkmul : size_mul (free_pages - user_pages) PGSIZE = (free_pages - user_pages) * PGSIZE := by
    apply size_mul_eq
    rw [PGSIZE_eq] at hend ⊢
    omega
  have hubase : size_add free_start ((free_pages - user_pages) * PGSIZE) =
      free_start + (free_pages - user_pages) * PGSIZE := by
    apply size_add_eq
    rw [PGSIZE_eq] at hend ⊢
    omega
  simp only [hkernel, hkmul, hubase, Option.bind_eq_bind, Option.bind_eq_some_iff,
    Option.pure_def, Option.some.injEq] at hinit
  rcases hinit with ⟨kp, hkp, up, hup, rfl⟩
  have hal : free_start % PGSIZE = 0 := by
    rw [hstart, PHYS_BASE_eq, PGSIZE_eq]
  have hbase : PHYS_BASE ≤ free_start := by
    rw [hstart]
    exact Nat.le_add_right _ _
  have hsum : free_start + (free_pages - user_pages) * PGSIZE + PGSIZE * user_pages =
      free_start + PGSIZE * free_pages := by
    rw [PGSIZE_eq]
    omega
  rcases init_pool_spec hal (by rw [PGSIZE_eq] at hend ⊢; omega) hbase hkp with ⟨hkwf, hkfree⟩
  rcases init_pool_spec (by rw [Nat.add_mul_mod_self_right, hal]) (by rw [hsum]; exact hend)
    (by omega) hup with ⟨huwf, hufree⟩
  constructor
  · refine ⟨?_, ?_, hend⟩
    · rw [← hstart]
      show kp.Wf free_start up.used_map_at
      rw [huwf.map_at, Nat.mul_comm _ PGSIZE]
      exact hkwf
    · show up.Wf up.used_map_at _
      rw [huwf.map_at, ← hsum]
      exact huwf
  · rintro n ⟨id, hcov, hbit⟩
    have hcov1 := hcov.1
    have hcov2 := hcov.2
    cases id with
    | kernel =>
        simp only [Palloc.pool] at hbit hcov1 hcov2
        rw [hkfree _ (by omega)] at hbit
        cases hbit
    | user =>
        simp only [Palloc.pool] at hbit hcov1 hcov2
        rw [hufree _ (by omega)] at hbit
        cases hbit

/-- `palloc_init` establishes the shape, with every page free.  The bounds on `init_ram_pages` are
those of a machine whose RAM reaches past 1 MB and fits the kernel's window above `PHYS_BASE`. -/
theorem palloc_init_spec {init_ram_pages user_page_limit : Nat}
    {storage : PoolId → Nat → BitVec 32} {mem : Memory} {s : Palloc}
    (hlo : 256 ≤ init_ram_pages) (hhi : init_ram_pages < 2 ^ 18)
    (hinit : palloc_init init_ram_pages user_page_limit storage mem = some s) :
    s.Wf (ram_end init_ram_pages) ∧ ∀ n, ¬ s.Used n := by
  have hstart : ptov (1024 * 1024) = some (1024 * 1024 + PHYS_BASE) := by
    apply ptov_eq
    rw [PHYS_BASE_eq, WORD_eq]
    omega
  have hbytes : size_mul init_ram_pages PGSIZE = init_ram_pages * PGSIZE := by
    apply size_mul_eq
    rw [PGSIZE_eq, WORD_eq]
    omega
  have hend : ptov (init_ram_pages * PGSIZE) = some (init_ram_pages * PGSIZE + PHYS_BASE) := by
    apply ptov_eq
    rw [PGSIZE_eq, PHYS_BASE_eq, WORD_eq]
    omega
  have hfree : to_size (Int.tdiv (int32 (((init_ram_pages * PGSIZE + PHYS_BASE : Nat) : Int) -
      ((1024 * 1024 + PHYS_BASE : Nat) : Int))) PGSIZE) = init_ram_pages - 256 := by
    have hdiff : ((init_ram_pages * PGSIZE + PHYS_BASE : Nat) : Int) -
        ((1024 * 1024 + PHYS_BASE : Nat) : Int) = ((init_ram_pages - 256 : Nat) : Int) * PGSIZE := by
      rw [PGSIZE_eq]
      omega
    rw [hdiff, int32_eq (by rw [PGSIZE_eq]; omega) (by rw [PGSIZE_eq]; omega),
      Int.mul_tdiv_cancel _ (by rw [PGSIZE_eq]; omega), to_size_eq (by omega) (by omega),
      Int.toNat_natCast]
  rw [palloc_init, hstart, Option.bind_eq_bind, Option.bind_some, hbytes, hend,
    Option.bind_some, hfree] at hinit
  have htop : 1024 * 1024 + PHYS_BASE + PGSIZE * (init_ram_pages - 256) =
      ram_end init_ram_pages := by
    rw [ram_end, PGSIZE_eq]
    omega
  rw [← htop]
  refine init_pools_spec (Nat.add_comm _ _) ?_ hinit
  rw [htop, ram_end, PHYS_BASE_eq, PGSIZE_eq, WORD_eq]
  omega

/-- The bounds that `palloc_init_spec` asks for hold of what `start.S` computes. -/
theorem start_ram_pages_bounds (bios_kb : Nat) :
    256 ≤ start_ram_pages bios_kb ∧ start_ram_pages bios_kb < 2 ^ 18 := by
  unfold start_ram_pages
  omega

theorem palloc_reachable_inv {init_ram_pages user_page_limit : Nat} (hlo : 256 ≤ init_ram_pages)
    (hhi : init_ram_pages < 2 ^ 18) {s : PallocRun}
    (hs : (pallocSystem init_ram_pages user_page_limit).Reachable s) :
    PallocInv (ram_end init_ram_pages) s := by
  refine hs.invariant ?_ (fun _ _ _ h hstep => h.step hstep)
  rintro ⟨a, live⟩ ⟨hlive, storage, mem, hinit⟩
  rcases palloc_init_spec hlo hhi hinit with ⟨hwf, hfree⟩
  simp only at hlive
  subst hlive
  exact ⟨hwf, by simp, Owns.nil, fun n hn => absurd hn (hfree n)⟩

/-! ## What callers rely on -/

/-- Where the pool's bitmap is stored. -/
def Pool.mapBytes (p : Pool) : Extent := ⟨p.used_map_at, bitmap_buf_size p.used_map.bit_cnt⟩

/-- The page allocator as its callers see it, on a machine whose RAM ends at `ram`. -/
structure PallocGood (ram : Nat) (s : PallocRun) : Prop where
  disjoint : (s.live.map Group.bytes).Pairwise Extent.Disjoint
  in_pool : ∀ g ∈ s.live, (s.alloc.pool g.pool).base ≤ g.pages ∧
    g.pages + PGSIZE * g.page_cnt ≤
      (s.alloc.pool g.pool).base + PGSIZE * (s.alloc.pool g.pool).used_map.bit_cnt
  in_ram : ∀ g ∈ s.live, g.pages + PGSIZE * g.page_cnt ≤ ram
  clear_of_maps : ∀ g ∈ s.live, ∀ id, Extent.Disjoint g.bytes (s.alloc.pool id).mapBytes
  marks : ∀ id i, i < (s.alloc.pool id).used_map.bit_cnt →
    ((s.alloc.pool id).used_map.test i = true ↔
      ∃ g ∈ s.live, g.pool = id ∧ (s.alloc.pool id).base + PGSIZE * i ∈ g.bytes)
  get_iff : ∀ flags page_cnt, 1 ≤ page_cnt →
    ((∃ a pages, palloc_get_multiple s.alloc flags page_cnt = some (a, pages) ∧ pages ≠ NULL) ↔
      s.alloc.HasRun (flags_pool flags) page_cnt)
  get_fails : ∀ flags page_cnt, 1 ≤ page_cnt → flags &&& PAL_ASSERT = 0 →
    ¬ s.alloc.HasRun (flags_pool flags) page_cnt →
    palloc_get_multiple s.alloc flags page_cnt = some (s.alloc, NULL)
  free_pool : ∀ g ∈ s.live, page_pool s.alloc g.pages = some g.pool
  free_ok : ∀ g ∈ s.live, ∃ a, palloc_free_multiple s.alloc g.pages g.page_cnt = some a

namespace PallocInv

variable {ram : Nat} {s : PallocRun}

/-- The address of a group, from the start of its pool. -/
theorem pages_eq (h : PallocInv ram s) {g : Group} (hg : g ∈ s.live) :
    g.pages = (s.alloc.pool g.pool).base +
      PGSIZE * (pg_no g.pages - pg_no (s.alloc.pool g.pool).base) :=
  eq_of_pg_no (h.wf.aligned _) (h.inside g hg).aligned (h.inside g hg).ge

theorem bytes_disjoint (h : PallocInv ram s) :
    (s.live.map Group.bytes).Pairwise Extent.Disjoint := by
  rw [List.pairwise_map]
  have hpages := List.pairwise_map.1 h.owns.disjoint
  refine hpages.imp_of_mem fun {g g'} hg hg' hd a ha ha' => ?_
  -- an address shared by the groups lies in a page shared by them
  have hal := (h.inside g hg).aligned
  have hal' := (h.inside g' hg').aligned
  rw [Extent.mem_def] at ha ha'
  simp only [Group.bytes] at ha ha'
  apply hd (pg_no a)
  · rw [Extent.mem_def]
    simp only [Group.extent, pg_no]
    rw [PGSIZE_eq] at *
    omega
  · rw [Extent.mem_def]
    simp only [Group.extent, pg_no]
    rw [PGSIZE_eq] at *
    omega

theorem in_pool (h : PallocInv ram s) {g : Group} (hg : g ∈ s.live) :
    (s.alloc.pool g.pool).base ≤ g.pages ∧
      g.pages + PGSIZE * g.page_cnt ≤
        (s.alloc.pool g.pool).base + PGSIZE * (s.alloc.pool g.pool).used_map.bit_cnt := by
  have heq := h.pages_eq hg
  have hge := (h.inside g hg).ge
  have hle := (h.inside g hg).le
  rw [PGSIZE_eq] at *
  omega

/-- No group overlaps a bitmap: a pool's bitmap lies before its pages, and the user pool's bitmap
after the pages of the kernel pool. -/
theorem clear_of_maps (h : PallocInv ram s) {g : Group} (hg : g ∈ s.live) (id : PoolId) :
    Extent.Disjoint g.bytes (s.alloc.pool id).mapBytes := by
  rcases h.in_pool hg with ⟨hlo, hhi⟩
  have hkat := h.wf.kernel.map_at
  have hkfits := h.wf.kernel.map_fits
  have hkend := h.wf.kernel.hi_eq
  have hufits := h.wf.user.map_fits
  have hsep : g.bytes.start + g.bytes.len ≤ (s.alloc.pool id).mapBytes.start ∨
      (s.alloc.pool id).mapBytes.start + (s.alloc.pool id).mapBytes.len ≤ g.bytes.start := by
    simp only [Group.bytes, Pool.mapBytes]
    cases hp : g.pool <;> rw [hp] at hlo hhi <;> cases id <;> simp only [Palloc.pool] at * <;> omega
  rcases hsep with hsep | hsep
  · exact Extent.disjoint_of_le hsep
  · exact (Extent.disjoint_of_le hsep).symm

theorem marks (h : PallocInv ram s) (id : PoolId) {i : Nat}
    (hi : i < (s.alloc.pool id).used_map.bit_cnt) :
    (s.alloc.pool id).used_map.test i = true ↔
      ∃ g ∈ s.live, g.pool = id ∧ (s.alloc.pool id).base + PGSIZE * i ∈ g.bytes := by
  have hal := h.wf.aligned id
  have hcov : (s.alloc.pool id).Covers (pg_no (s.alloc.pool id).base + i) := by
    constructor <;> omega
  -- page `i` lies in a group's pages exactly if its address lies in the group's bytes
  have hmem : ∀ g ∈ s.live, pg_no (s.alloc.pool id).base + i ∈ g.extent ↔
      (s.alloc.pool id).base + PGSIZE * i ∈ g.bytes := by
    intro g hg
    have halg := (h.inside g hg).aligned
    rw [Extent.mem_def, Extent.mem_def]
    simp only [Group.extent, Group.bytes, pg_no]
    rw [PGSIZE_eq] at *
    omega
  constructor
  · intro hbit
    have hused : s.alloc.Used (pg_no (s.alloc.pool id).base + i) := by
      refine ⟨id, hcov, ?_⟩
      rw [Nat.add_sub_cancel_left]
      exact hbit
    rcases h.tight _ hused with ⟨e, he, hie⟩
    rcases List.mem_map.1 he with ⟨g, hg, rfl⟩
    exact ⟨g, hg, h.wf.covers_unique ((h.inside g hg).covers hie) hcov, (hmem g hg).1 hie⟩
  · rintro ⟨g, hg, rfl, hbytes⟩
    rcases h.used_of_mem hg _ ((hmem g hg).2 hbytes) with ⟨id', hcov', hbit⟩
    have hid := h.wf.covers_unique hcov' hcov
    subst hid
    rwa [Nat.add_sub_cancel_left] at hbit

theorem get_iff (h : PallocInv ram s) (flags : Nat) {page_cnt : Nat} (hpos : 1 ≤ page_cnt) :
    (∃ a pages, palloc_get_multiple s.alloc flags page_cnt = some (a, pages) ∧ pages ≠ NULL) ↔
      s.alloc.HasRun (flags_pool flags) page_cnt := by
  rcases h.get_cases flags hpos with ⟨hrun, a, pages, hcall, hnull, _⟩ | ⟨hno, hres⟩
  · exact iff_of_true ⟨a, pages, hcall, hnull⟩ hrun
  · refine iff_of_false ?_ hno
    rintro ⟨a, pages, hcall, hnull⟩
    rw [hres] at hcall
    split_ifs at hcall
    rw [Option.some.injEq, Prod.mk.injEq] at hcall
    exact hnull hcall.2.symm

theorem get_fails (h : PallocInv ram s) {flags page_cnt : Nat} (hpos : 1 ≤ page_cnt)
    (hflag : flags &&& PAL_ASSERT = 0) (hno : ¬ s.alloc.HasRun (flags_pool flags) page_cnt) :
    palloc_get_multiple s.alloc flags page_cnt = some (s.alloc, NULL) := by
  rcases h.get_cases flags hpos with ⟨hrun, _⟩ | ⟨_, hres⟩
  · exact absurd hrun hno
  · rw [hres, if_neg (not_not.2 hflag)]

theorem good (h : PallocInv ram s) : PallocGood ram s where
  disjoint := h.bytes_disjoint
  in_pool := fun _ hg => h.in_pool hg
  in_ram := fun g hg => (h.in_pool hg).2.trans (h.wf.end_le g.pool)
  clear_of_maps := fun _ hg => h.clear_of_maps hg
  marks := fun id _ hi => h.marks id hi
  get_iff := fun flags _ hpos => h.get_iff flags hpos
  get_fails := fun _ _ hpos hflag hno => h.get_fails hpos hflag hno
  free_pool := fun g hg => by
    have hin := h.inside g hg
    exact page_pool_eq h.wf (hin.covers (Extent.start_mem (e := g.extent) hin.pos))
  free_ok := fun g hg => by
    rcases palloc_free_multiple_spec h.wf (h.inside g hg) (h.used_of_mem hg) with
      ⟨m, mem, _, _, hres⟩
    exact ⟨_, hres⟩

end PallocInv

/-- In every state of every run the page allocator keeps its promises, on every machine whose RAM
`palloc_init` accepts. -/
theorem palloc_runs_good {init_ram_pages user_page_limit : Nat} (hlo : 256 ≤ init_ram_pages)
    (hhi : init_ram_pages < 2 ^ 18) {s : PallocRun}
    (hs : (pallocSystem init_ram_pages user_page_limit).Reachable s) :
    PallocGood (ram_end init_ram_pages) s :=
  (palloc_reachable_inv hlo hhi hs).good

/-- On a machine with 260 pages of RAM, which has two pages in each pool, a page of either pool is
got, and that of the kernel is freed. -/
theorem palloc_runs_good_260 :
    ∃ s g, (pallocSystem 260 (WORD - 1)).Reachable s ∧ s.live = [g] ∧ g.pool = .user ∧
      PallocGood (ram_end 260) s := by
  have hrun : ((palloc_init 260 (WORD - 1) (fun _ _ => 0) fun _ => 0).bind fun a =>
      (palloc_get_multiple a 0 1).bind fun x => (palloc_get_multiple x.1 PAL_USER 1).bind fun y =>
        (palloc_free_multiple y.1 x.2 1).map fun _ => decide (x.2 ≠ NULL ∧ y.2 ≠ NULL)) =
      some true := by
    decide +kernel
  rcases Option.bind_eq_some_iff.1 hrun with ⟨a, ha, hrun⟩
  rcases Option.bind_eq_some_iff.1 hrun with ⟨⟨b, page⟩, hget, hrun⟩
  rcases Option.bind_eq_some_iff.1 hrun with ⟨⟨c, page'⟩, hget', hrun⟩
  rcases Option.map_eq_some_iff.1 hrun with ⟨d, hfree, hnull⟩
  rcases of_decide_eq_true hnull with ⟨hpage, hpage'⟩
  have h₀ : (pallocSystem 260 (WORD - 1)).Reachable ⟨a, []⟩ :=
    System.Reachable.init ⟨rfl, _, _, ha⟩
  have h₁ := h₀.step (PallocStep.get_group (Nat.le_refl 1) hget hpage)
  have h₂ := h₁.step (PallocStep.get_group (Nat.le_refl 1) hget' hpage')
  have hlive : (⟨page, 1, flags_pool 0⟩ : Group) ∈
      [⟨page', 1, flags_pool PAL_USER⟩, ⟨page, 1, flags_pool 0⟩] :=
    List.mem_cons_of_mem _ List.mem_cons_self
  have h₃ := h₂.step (PallocStep.free hlive hfree)
  have hpools : flags_pool PAL_USER ≠ flags_pool 0 := by decide
  have hne : (⟨page', 1, flags_pool PAL_USER⟩ : Group) ≠ ⟨page, 1, flags_pool 0⟩ := fun heq =>
    hpools (congrArg Group.pool heq)
  refine ⟨_, ⟨page', 1, flags_pool PAL_USER⟩, h₃, ?_, rfl,
    palloc_runs_good (by omega) (by omega) h₃⟩
  rw [List.erase_cons_tail (by simpa using hne), List.erase_cons_head]

end Berk162
