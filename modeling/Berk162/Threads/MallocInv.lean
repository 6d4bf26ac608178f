import Berk162.Threads.Malloc
import Berk162.Threads.PallocRuns

/-!
# MallocInv — the invariant of the block allocator

`HeapCore` ties the three structures of `malloc.c` together: the free lists of the descriptors, the
headers of the arenas, and the blocks that callers hold.  It names the arenas explicitly, because
inside `malloc` there is a moment when a new arena has no live block yet.  Between calls every arena
has one, which is what `HeapInv` adds.
-/

namespace Berk162

/-! ## Geometry of an arena -/

/-- The address of block `idx` of an arena. -/
def block_at (a bs idx : Nat) : Nat := a + sizeof_arena + idx * bs

/-- What a descriptor fixes once and for all. -/
def Desc.shape (d : Desc) : Nat × Nat := (d.block_size, d.blocks_per_arena)

/-- The descriptors that `malloc_init` sets up. -/
def desc_shapes : List (Nat × Nat) :=
  [(16, 255), (32, 127), (64, 63), (128, 31), (256, 15), (512, 7), (1024, 3)]

/-- The blocks of an arena of this descriptor fit its page. -/
structure Desc.Fits (d : Desc) : Prop where
  size_pos : 0 < d.block_size
  blocks_pos : 0 < d.blocks_per_arena
  fits : sizeof_arena + d.blocks_per_arena * d.block_size ≤ PGSIZE

theorem malloc_init_descs :
    malloc_init_from 10 16 = some (desc_shapes.map fun s => ⟨s.1, s.2, []⟩) := by
  decide

theorem Desc.fits_of_shape {d : Desc} (h : d.shape ∈ desc_shapes) : d.Fits := by
  have hall : ∀ s ∈ desc_shapes, 0 < s.1 ∧ 0 < s.2 ∧ sizeof_arena + s.2 * s.1 ≤ PGSIZE := by
    decide
  rcases hall _ h with ⟨h1, h2, h3⟩
  exact ⟨h1, h2, h3⟩

section

variable {d : Desc} {a idx idx' : Nat}

theorem block_end_le (hd : d.Fits) (hidx : idx < d.blocks_per_arena) :
    sizeof_arena + idx * d.block_size + d.block_size ≤ PGSIZE := by
  have hmul : (idx + 1) * d.block_size ≤ d.blocks_per_arena * d.block_size :=
    Nat.mul_le_mul_right _ hidx
  have hfits := hd.fits
  rw [Nat.add_mul, Nat.one_mul] at hmul
  omega

theorem pg_ofs_block (ha : a % PGSIZE = 0) (hd : d.Fits) (hidx : idx < d.blocks_per_arena) :
    pg_ofs (block_at a d.block_size idx) = sizeof_arena + idx * d.block_size := by
  have hend := block_end_le hd hidx
  have hpos := hd.size_pos
  rw [pg_ofs, block_at, Nat.add_assoc, Nat.add_mod, ha, Nat.zero_add, Nat.mod_mod]
  exact Nat.mod_eq_of_lt (by omega)

theorem pg_round_down_block (ha : a % PGSIZE = 0) (hd : d.Fits)
    (hidx : idx < d.blocks_per_arena) :
    pg_round_down (block_at a d.block_size idx) = a := by
  rw [pg_round_down, pg_ofs_block ha hd hidx, block_at]
  omega

theorem block_at_injective (hd : d.Fits)
    (h : block_at a d.block_size idx = block_at a d.block_size idx') : idx = idx' := by
  have hpos := hd.size_pos
  simp only [block_at] at h
  exact Nat.eq_of_mul_eq_mul_right hpos (by omega)

theorem pg_round_down_big (ha : a % PGSIZE = 0) : pg_round_down (a + sizeof_arena) = a := by
  simp only [pg_round_down, pg_ofs, sizeof_arena]
  rw [PGSIZE_eq] at *
  omega

theorem pg_ofs_big (ha : a % PGSIZE = 0) : pg_ofs (a + sizeof_arena) = sizeof_arena := by
  simp only [pg_ofs, sizeof_arena]
  rw [PGSIZE_eq] at *
  omega

/-- A block's offset in its page, without the header, is a multiple of the block size. -/
theorem size_sub_ofs_block (ha : a % PGSIZE = 0) (hd : d.Fits) (hidx : idx < d.blocks_per_arena) :
    size_sub (pg_ofs (block_at a d.block_size idx)) sizeof_arena % d.block_size = 0 := by
  have hend := block_end_le hd hidx
  have hofs : size_sub (pg_ofs (block_at a d.block_size idx)) sizeof_arena =
      idx * d.block_size := by
    rw [pg_ofs_block ha hd hidx, size_sub_eq (Nat.le_add_right _ _)]
    · omega
    · rw [PGSIZE_eq] at hend
      rw [WORD_eq]
      omega
  rw [hofs, Nat.mul_mod_left]

end

/-- `block_to_arena` for a block of a small arena. -/
theorem block_to_arena_small {h : Heap} {a x i : Nat} {d : Desc} (hround : pg_round_down x = a)
    (hnull : a ≠ NULL) (hmagic : (h.arenas a).magic = ARENA_MAGIC)
    (hdesc : (h.arenas a).desc = some i) (hd : h.descs[i]? = some d)
    (hofs : size_sub (pg_ofs x) sizeof_arena % d.block_size = 0) :
    block_to_arena h x = some a := by
  unfold block_to_arena
  rw [hround]
  simp only [ASSERT_pos hnull, ASSERT_pos hmagic, hdesc, Option.bind_eq_bind, Option.bind_some]
  rw [hd, Option.bind_some, ASSERT_pos hofs, Option.bind_some, Option.pure_def]

/-! ## The invariant -/

/-- The number of pages of an arena. -/
def Arena.pages (a : Arena) : Nat :=
  match a.desc with
  | some _ => 1
  | none => a.free_cnt

/-- The pages of the arena at `a`, which come from the kernel pool. -/
def Heap.arenaGroup (h : Heap) (a : Nat) : Group := ⟨a, (h.arenas a).pages, .kernel⟩

/-- `x` is a block of the arena at `a`. -/
def Heap.IsBlock (h : Heap) (a x : Nat) : Prop :=
  match (h.arenas a).desc with
  | some i => ∃ d idx, h.descs[i]? = some d ∧ idx < d.blocks_per_arena ∧
      x = block_at a d.block_size idx
  | none => x = a + sizeof_arena

/-- The indices of the blocks of the arena at `a` that are not live. -/
def freeBlocks (d : Desc) (a : Nat) (live : List Nat) : Finset Nat :=
  (Finset.range d.blocks_per_arena).filter fun idx => block_at a d.block_size idx ∉ live

/-- The invariant of the block allocator: `live` are the blocks that callers hold, `as` the arenas,
`others` the pages held by other users of the page allocator. -/
structure HeapCore (ram : Nat) (h : Heap) (live as : List Nat) (others : List Group) : Prop where
  pages : PallocInv ram ⟨h.palloc, as.map h.arenaGroup ++ others⟩
  arenas_nodup : as.Nodup
  shape : h.descs.map Desc.shape = desc_shapes
  magic : ∀ a ∈ as, (h.arenas a).magic = ARENA_MAGIC
  desc_lt : ∀ a ∈ as, ∀ i, (h.arenas a).desc = some i → ∃ d, h.descs[i]? = some d
  live_nodup : live.Nodup
  live_block : ∀ x ∈ live, ∃ a ∈ as, h.IsBlock a x
  big_live : ∀ a ∈ as, (h.arenas a).desc = none → a + sizeof_arena ∈ live
  free_nodup : ∀ (i : Nat) (d : Desc), h.descs[i]? = some d → d.free_list.Nodup
  mem_free : ∀ (i : Nat) (d : Desc), h.descs[i]? = some d → ∀ x, x ∈ d.free_list ↔
    ∃ a ∈ as, (h.arenas a).desc = some i ∧ h.IsBlock a x ∧ x ∉ live
  free_cnt : ∀ a ∈ as, ∀ (i : Nat) (d : Desc), (h.arenas a).desc = some i → h.descs[i]? = some d →
    (h.arenas a).free_cnt = (freeBlocks d a live).card

namespace HeapCore

variable {ram : Nat} {h : Heap} {live as : List Nat} {others : List Group}

theorem fits (hc : HeapCore ram h live as others) {i : Nat} {d : Desc}
    (hd : h.descs[i]? = some d) : d.Fits := by
  apply Desc.fits_of_shape
  rw [← hc.shape]
  exact List.mem_map_of_mem (List.mem_of_getElem? hd)

theorem inside (hc : HeapCore ram h live as others) {a : Nat} (ha : a ∈ as) :
    (h.arenaGroup a).Inside h.palloc :=
  hc.pages.inside _ (List.mem_append_left _ (List.mem_map_of_mem ha))

theorem aligned (hc : HeapCore ram h live as others) {a : Nat} (ha : a ∈ as) :
    a % PGSIZE = 0 :=
  (hc.inside ha).aligned

theorem arena_pos (hc : HeapCore ram h live as others) {a : Nat} (ha : a ∈ as) : a ≠ NULL := by
  have hge := (hc.inside ha).ge
  have hbase : PHYS_BASE ≤ (h.palloc.pool .kernel).base := hc.pages.wf.base_pos .kernel
  rintro rfl
  simp only [Heap.arenaGroup, NULL, pg_no, Nat.zero_div] at hge
  rw [PHYS_BASE_eq] at hbase
  rw [PGSIZE_eq] at hge
  omega

/-- A block's arena is the one its address is rounded down to. -/
theorem round_down (hc : HeapCore ram h live as others) {a x : Nat} (ha : a ∈ as)
    (hx : h.IsBlock a x) : pg_round_down x = a := by
  unfold Heap.IsBlock at hx
  split at hx
  · rcases hx with ⟨d, idx, hd, hidx, rfl⟩
    exact pg_round_down_block (hc.aligned ha) (hc.fits hd) hidx
  · subst hx
    exact pg_round_down_big (hc.aligned ha)

theorem block_unique (hc : HeapCore ram h live as others) {a a' x : Nat} (ha : a ∈ as)
    (ha' : a' ∈ as) (hx : h.IsBlock a x) (hx' : h.IsBlock a' x) : a = a' :=
  (hc.round_down ha hx).symm.trans (hc.round_down ha' hx')

theorem block_ne_null (hc : HeapCore ram h live as others) {a x : Nat} (ha : a ∈ as)
    (hx : h.IsBlock a x) : x ≠ NULL := by
  rintro rfl
  have hround := hc.round_down ha hx
  simp only [pg_round_down, NULL, Nat.zero_sub] at hround
  exact hc.arena_pos ha hround.symm

/-- The assertions of `block_to_arena` hold for every block of an arena. -/
theorem block_to_arena_eq (hc : HeapCore ram h live as others) {a x : Nat} (ha : a ∈ as)
    (hx : h.IsBlock a x) : block_to_arena h x = some a := by
  have hround := hc.round_down ha hx
  have hnull := hc.arena_pos ha
  have hmagic := hc.magic a ha
  have hal := hc.aligned ha
  cases hdesc : (h.arenas a).desc with
  | none =>
      simp only [Heap.IsBlock, hdesc] at hx
      subst hx
      simp [block_to_arena, hround, hnull, hmagic, hdesc, pg_ofs_big hal]
  | some i =>
      simp only [Heap.IsBlock, hdesc] at hx
      rcases hx with ⟨d, idx, hd, hidx, rfl⟩
      exact block_to_arena_small hround hnull hmagic hdesc hd
        (size_sub_ofs_block hal (hc.fits hd) hidx)

end HeapCore

/-! ## Effects of the updates -/

namespace Heap

variable (h : Heap)

@[simp] theorem setPalloc_descs (p : Palloc) : (h.setPalloc p).descs = h.descs := rfl

@[simp] theorem setPalloc_arenas (p : Palloc) : (h.setPalloc p).arenas = h.arenas := rfl

@[simp] theorem setPalloc_self : h.setPalloc h.palloc = h := rfl

@[simp] theorem setPalloc_palloc (p : Palloc) : (h.setPalloc p).palloc = p := rfl

@[simp] theorem setArena_descs (a : Nat) (r : Arena) : (h.setArena a r).descs = h.descs := rfl

@[simp] theorem setArena_palloc (a : Nat) (r : Arena) : (h.setArena a r).palloc = h.palloc := rfl

@[simp] theorem setArena_self (a : Nat) (r : Arena) : (h.setArena a r).arenas a = r := by
  simp [setArena]

theorem setArena_of_ne {a a' : Nat} (r : Arena) (hne : a' ≠ a) :
    (h.setArena a r).arenas a' = h.arenas a' := by
  simp [setArena, hne]

@[simp] theorem setFreeList_arenas (i : Nat) (l : List Nat) :
    (h.setFreeList i l).arenas = h.arenas := rfl

@[simp] theorem setFreeList_palloc (i : Nat) (l : List Nat) :
    (h.setFreeList i l).palloc = h.palloc := rfl

@[simp] theorem setMem_descs (mem : Memory) : (h.setMem mem).descs = h.descs := rfl

@[simp] theorem setMem_arenas (mem : Memory) : (h.setMem mem).arenas = h.arenas := rfl

@[simp] theorem setMem_palloc (mem : Memory) : (h.setMem mem).palloc = h.palloc.withMem mem := rfl

theorem setFreeList_getElem? (i j : Nat) (l : List Nat) :
    (h.setFreeList i l).descs[j]? =
      (h.descs[j]?).map fun d => if i = j then { d with free_list := l } else d := by
  simp only [setFreeList, List.getElem?_modify]
  by_cases hij : i = j <;> simp [hij]

/-- A descriptor after its own free list was replaced. -/
theorem setFreeList_self {i : Nat} {d : Desc} (hd : h.descs[i]? = some d) (l : List Nat) :
    (h.setFreeList i l).descs[i]? = some { d with free_list := l } := by
  simp [setFreeList_getElem?, hd]

theorem setFreeList_shape (i : Nat) (l : List Nat) :
    (h.setFreeList i l).descs.map Desc.shape = h.descs.map Desc.shape := by
  apply List.ext_getElem?
  intro j
  rw [List.getElem?_map, List.getElem?_map, setFreeList_getElem?]
  cases h.descs[j]? with
  | none =>
      rfl
  | some d =>
      by_cases hij : i = j <;> simp [hij, Desc.shape]

/-- Which addresses are blocks does not depend on the free lists. -/
theorem isBlock_setFreeList (i : Nat) (l : List Nat) (a x : Nat) :
    (h.setFreeList i l).IsBlock a x ↔ h.IsBlock a x := by
  unfold IsBlock
  rw [setFreeList_arenas]
  cases (h.arenas a).desc with
  | none =>
      exact Iff.rfl
  | some j =>
      simp only [setFreeList_getElem?]
      constructor
      · rintro ⟨d', idx, hd', hidx, hx⟩
        rcases Option.map_eq_some_iff.1 hd' with ⟨d, hd, rfl⟩
        refine ⟨d, idx, hd, ?_, ?_⟩
        · split_ifs at hidx <;> exact hidx
        · split_ifs at hx <;> exact hx
      · rintro ⟨d, idx, hd, hidx, hx⟩
        refine ⟨_, idx, Option.map_eq_some_iff.2 ⟨d, hd, rfl⟩, ?_, ?_⟩
        · split_ifs <;> exact hidx
        · split_ifs <;> exact hx

theorem isBlock_of_desc_eq {h h' : Heap} {a : Nat} (hdescs : h'.descs = h.descs)
    (hdesc : (h'.arenas a).desc = (h.arenas a).desc) (x : Nat) :
    h'.IsBlock a x ↔ h.IsBlock a x := by
  unfold IsBlock
  rw [hdesc, hdescs]

end Heap

/-! ## Counting free blocks -/

section

variable {d : Desc} {a idx x : Nat} {live live' : List Nat}

theorem mem_freeBlocks :
    idx ∈ freeBlocks d a live ↔
      idx < d.blocks_per_arena ∧ block_at a d.block_size idx ∉ live := by
  simp [freeBlocks]

theorem freeBlocks_congr (h : ∀ j, j < d.blocks_per_arena →
    (block_at a d.block_size j ∈ live ↔ block_at a d.block_size j ∈ live')) :
    freeBlocks d a live = freeBlocks d a live' := by
  ext j
  rw [mem_freeBlocks, mem_freeBlocks]
  constructor
  · rintro ⟨hj, hn⟩
    exact ⟨hj, fun hm => hn ((h j hj).2 hm)⟩
  · rintro ⟨hj, hn⟩
    exact ⟨hj, fun hm => hn ((h j hj).1 hm)⟩

/-- Handing out one block of the arena leaves one free block less. -/
theorem card_freeBlocks_cons (hd : d.Fits) (hidx : idx < d.blocks_per_arena)
    (hx : x = block_at a d.block_size idx) (hnot : x ∉ live) :
    (freeBlocks d a live).card = (freeBlocks d a (x :: live)).card + 1 := by
  have herase : freeBlocks d a (x :: live) = (freeBlocks d a live).erase idx := by
    ext j
    rw [Finset.mem_erase, mem_freeBlocks, mem_freeBlocks, List.mem_cons, not_or, hx]
    constructor
    · rintro ⟨hj, hne, hn⟩
      exact ⟨fun hji => hne (by rw [hji]), hj, hn⟩
    · rintro ⟨hne, hj, hn⟩
      exact ⟨hj, fun heq => hne (block_at_injective hd heq), hn⟩
  have hmem : idx ∈ freeBlocks d a live := mem_freeBlocks.2 ⟨hidx, hx ▸ hnot⟩
  rw [herase, Finset.card_erase_add_one hmem]

theorem card_freeBlocks_le : (freeBlocks d a live).card ≤ d.blocks_per_arena := by
  calc
    (freeBlocks d a live).card ≤ (Finset.range d.blocks_per_arena).card :=
      Finset.card_filter_le _ _
    _ = d.blocks_per_arena := Finset.card_range _

/-- All blocks are free exactly if the count says so. -/
theorem card_freeBlocks_eq_iff :
    (freeBlocks d a live).card = d.blocks_per_arena ↔
      ∀ j, j < d.blocks_per_arena → block_at a d.block_size j ∉ live := by
  constructor
  · intro hcard j hj
    have hall : freeBlocks d a live = Finset.range d.blocks_per_arena := by
      apply Finset.eq_of_subset_of_card_le (Finset.filter_subset _ _)
      show (Finset.range d.blocks_per_arena).card ≤ (freeBlocks d a live).card
      rw [hcard, Finset.card_range]
    have hmem : j ∈ freeBlocks d a live := by
      rw [hall]
      exact Finset.mem_range.2 hj
    exact (mem_freeBlocks.1 hmem).2
  · intro hall
    have hrange : freeBlocks d a live = Finset.range d.blocks_per_arena := by
      ext j
      rw [mem_freeBlocks, Finset.mem_range]
      exact ⟨fun h => h.1, fun h => ⟨h, hall j h⟩⟩
    rw [hrange, Finset.card_range]

end

end Berk162
