import Berk162.LibKernel.Bitmap
import Berk162.Threads.Vaddr

/-!
# Palloc — the page allocator, `threads/palloc.c`

System memory is divided into the kernel pool and the user pool.  Each pool keeps its bitmap of
used pages at its own start and hands out the pages after it.

The functions are those of the source.  `none` is a kernel panic: a failed `ASSERT`, a `PANIC` or
`NOT_REACHED`.  The pool locks are left out; a call runs to its end before the next one.
-/

namespace Berk162

/-- `struct pool`.  `used_map` is the bitmap that the pointer `used_map_at` points to. -/
structure Pool where
  used_map_at : Nat
  used_map : Bitmap
  base : Nat

/-- Which of the two pools. -/
inductive PoolId
  | kernel
  | user
  deriving DecidableEq, Repr

/-- The two pools and the contents of memory. -/
structure Palloc where
  kernel_pool : Pool
  user_pool : Pool
  mem : Memory

/-- The pool with its bitmap's contents replaced. -/
def Pool.withMap (p : Pool) (used_map : Bitmap) : Pool := { p with used_map := used_map }

@[simp] theorem Pool.withMap_used_map (p : Pool) (m : Bitmap) : (p.withMap m).used_map = m := rfl

@[simp] theorem Pool.withMap_base (p : Pool) (m : Bitmap) : (p.withMap m).base = p.base := rfl

@[simp] theorem Pool.withMap_used_map_at (p : Pool) (m : Bitmap) :
    (p.withMap m).used_map_at = p.used_map_at := rfl

namespace Palloc

def withMem (s : Palloc) (mem : Memory) : Palloc := { s with mem := mem }

def pool (s : Palloc) : PoolId → Pool
  | .kernel => s.kernel_pool
  | .user => s.user_pool

def setPool (s : Palloc) (id : PoolId) (p : Pool) : Palloc :=
  match id with
  | .kernel => { s with kernel_pool := p }
  | .user => { s with user_pool := p }

@[simp] theorem pool_setPool_self (s : Palloc) (id : PoolId) (p : Pool) :
    (s.setPool id p).pool id = p := by
  cases id <;> rfl

theorem pool_setPool_of_ne (s : Palloc) {id id' : PoolId} (p : Pool) (h : id' ≠ id) :
    (s.setPool id p).pool id' = s.pool id' := by
  cases id <;> cases id' <;> first | rfl | exact absurd rfl h

@[simp] theorem pool_withMem (s : Palloc) (mem : Memory) (id : PoolId) :
    (s.withMem mem).pool id = s.pool id := by
  cases id <;> rfl

@[simp] theorem mem_withMem (s : Palloc) (mem : Memory) : (s.withMem mem).mem = mem := rfl

@[simp] theorem mem_setPool (s : Palloc) (id : PoolId) (p : Pool) :
    (s.setPool id p).mem = s.mem := by
  cases id <;> rfl

theorem setPool_withMem (s : Palloc) (mem : Memory) (id : PoolId) (p : Pool) :
    (s.withMem mem).setPool id p = (s.setPool id p).withMem mem := by
  cases id <;> rfl

@[simp] theorem setPool_pool (s : Palloc) (id : PoolId) : s.setPool id (s.pool id) = s := by
  cases id <;> rfl

@[simp] theorem withMem_mem (s : Palloc) : s.withMem s.mem = s := rfl

end Palloc

/-! ## `enum palloc_flags` -/

def PAL_ASSERT : Nat := 1
def PAL_ZERO : Nat := 2
def PAL_USER : Nat := 4

/-- `flags & PAL_USER ? &user_pool : &kernel_pool` -/
def flags_pool (flags : Nat) : PoolId := if flags &&& PAL_USER ≠ 0 then .user else .kernel

/-! ## Initialization -/

/-- `init_pool`: the pool at `base` with `page_cnt` pages, its bitmap included.  `storage` is what
memory held where the bitmap comes to lie. -/
def init_pool (base page_cnt : Nat) (storage : Nat → BitVec 32) : Option Pool := do
  let bm_pages := DIV_ROUND_UP (bitmap_buf_size page_cnt) PGSIZE
  if bm_pages > page_cnt then
    none
  else
    let page_cnt := page_cnt - bm_pages
    let used_map ← bitmap_create_in_buf page_cnt (size_mul bm_pages PGSIZE) storage
    return { used_map_at := base, used_map := used_map,
             base := size_add base (size_mul bm_pages PGSIZE) }

/-- The second half of `palloc_init`: `free_pages` pages of memory from `free_start` on are divided
between the pools. -/
def init_pools (free_start free_pages user_page_limit : Nat)
    (storage : PoolId → Nat → BitVec 32) (mem : Memory) : Option Palloc := do
  let user_pages := if free_pages / 2 > user_page_limit then user_page_limit else free_pages / 2
  let kernel_pages := size_sub free_pages user_pages
  let kernel_pool ← init_pool free_start kernel_pages (storage .kernel)
  let user_pool ← init_pool (size_add free_start (size_mul kernel_pages PGSIZE)) user_pages
    (storage .user)
  return { kernel_pool := kernel_pool, user_pool := user_pool, mem := mem }

def palloc_init (init_ram_pages user_page_limit : Nat) (storage : PoolId → Nat → BitVec 32)
    (mem : Memory) : Option Palloc := do
  let free_start ← ptov (1024 * 1024)
  let free_end ← ptov (size_mul init_ram_pages PGSIZE)
  -- the difference of two pointers is a signed `ptrdiff_t`
  let free_pages := to_size (Int.tdiv (int32 ((free_end : Int) - free_start)) PGSIZE)
  init_pools free_start free_pages user_page_limit storage mem

/-- `start.S` computes `init_ram_pages` from the kilobytes above 1 MB that the BIOS reports in a
16-bit register. -/
def start_ram_pages (bios_kb : Nat) : Nat := min (bios_kb + 1024) 0x10000 / 4

/-! ## Allocation and release -/

/-- `palloc_get_multiple`; the second component is the pointer it returns. -/
def palloc_get_multiple (s : Palloc) (flags page_cnt : Nat) : Option (Palloc × Nat) := do
  let id := flags_pool flags
  if page_cnt = 0 then
    return (s, NULL)
  else
    let (used_map, page_idx) ← bitmap_scan_and_flip (s.pool id).used_map 0 page_cnt false
    let s := s.setPool id ((s.pool id).withMap used_map)
    let pages :=
      if page_idx ≠ BITMAP_ERROR then size_add (s.pool id).base (size_mul PGSIZE page_idx)
      else NULL
    if pages ≠ NULL then
      if flags &&& PAL_ZERO ≠ 0 then
        return (s.withMem (memset s.mem pages 0 (size_mul PGSIZE page_cnt)), pages)
      else
        return (s, pages)
    else if flags &&& PAL_ASSERT ≠ 0 then
      none
    else
      return (s, pages)

def palloc_get_page (s : Palloc) (flags : Nat) : Option (Palloc × Nat) :=
  palloc_get_multiple s flags 1

def page_from_pool (pool : Pool) (page : Nat) : Bool :=
  let page_no := pg_no page
  let start_page := pg_no pool.base
  let end_page := size_add start_page pool.used_map.bit_cnt
  decide (page_no ≥ start_page ∧ page_no < end_page)

/-- The pool that `palloc_free_multiple` selects for `page`. -/
def page_pool (s : Palloc) (page : Nat) : Option PoolId :=
  if page_from_pool s.kernel_pool page then some .kernel
  else if page_from_pool s.user_pool page then some .user
  else none

def palloc_free_multiple (s : Palloc) (pages page_cnt : Nat) : Option Palloc := do
  ASSERT (pg_ofs pages = 0)
  if pages = NULL ∨ page_cnt = 0 then
    return s
  else
    let id ← page_pool s pages
    let pool := s.pool id
    let page_idx := size_sub (pg_no pages) (pg_no pool.base)
    let s := s.withMem (memset s.mem pages 0xcc (size_mul PGSIZE page_cnt))
    let all ← bitmap_all pool.used_map page_idx page_cnt
    ASSERT (all = true)
    let used_map ← bitmap_set_multiple pool.used_map page_idx page_cnt false
    return s.setPool id (pool.withMap used_map)

def palloc_free_page (s : Palloc) (page : Nat) : Option Palloc := palloc_free_multiple s page 1

end Berk162
