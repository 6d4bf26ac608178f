import Berk162.Threads.Palloc

/-!
# Malloc — the block allocator, `threads/malloc.c`

A request is rounded up to the block size of a descriptor.  A descriptor keeps a list of free
blocks, which come from arenas: one page each, divided into blocks after a header.  A request too
big for every descriptor gets pages of its own.

An arena's header is kept in `Heap.arenas`, apart from the byte contents of memory, and a free list
is the list of the addresses of its blocks; `none` is a kernel panic.  `list_remove` panics when
the element is not in the list, which is more than the `is_interior` test of the source asks for.

So no write to memory reaches a header or a free list.  That is as in the source while every write
stays inside its block.  A `calloc` or `realloc` whose size has wrapped around writes past the end
of its block, and may overwrite headers and list elements there that are kept here: of what follows
such a call the model says nothing about the source.
-/

namespace Berk162

/-- `struct desc`. -/
structure Desc where
  block_size : Nat
  blocks_per_arena : Nat
  free_list : List Nat
  deriving DecidableEq, Repr

def ARENA_MAGIC : Nat := 0x9a548eed

/-- `struct arena`.  The field `desc` is an index into `descs`, or `none` for a null pointer. -/
structure Arena where
  magic : Nat
  desc : Option Nat
  free_cnt : Nat
  deriving DecidableEq, Repr

/-- `sizeof (struct arena)`. -/
def sizeof_arena : Nat := 12

/-- What a header reads as after `palloc_free_multiple` has filled its page with `0xcc`. -/
def arena_cc : Arena := ⟨0xcccccccc, some 0xcccccccc, 0xcccccccc⟩

/-- The state of the block allocator and of the page allocator below it. -/
structure Heap where
  palloc : Palloc
  descs : List Desc
  arenas : Nat → Arena

namespace Heap

def setPalloc (h : Heap) (p : Palloc) : Heap := { h with palloc := p }

def setArena (h : Heap) (a : Nat) (arena : Arena) : Heap :=
  { h with arenas := Function.update h.arenas a arena }

/-- Replaces the free list of descriptor `i`. -/
def setFreeList (h : Heap) (i : Nat) (l : List Nat) : Heap :=
  { h with descs := h.descs.modify i (fun d => { d with free_list := l }) }

def setMem (h : Heap) (mem : Memory) : Heap := { h with palloc := h.palloc.withMem mem }

def mem (h : Heap) : Memory := h.palloc.mem

end Heap

/-! ## Initialization -/

/-- The loop of `malloc_init`; `room` is the number of elements of `descs` not yet in use. -/
def malloc_init_from : Nat → Nat → Option (List Desc)
  | 0, block_size => do
      ASSERT (¬ block_size < PGSIZE / 2)
      return []
  | room + 1, block_size =>
      if block_size < PGSIZE / 2 then do
        let rest ← malloc_init_from room (block_size * 2)
        return ⟨block_size, (PGSIZE - sizeof_arena) / block_size, []⟩ :: rest
      else
        return []

def malloc_init (p : Palloc) (arenas : Nat → Arena) : Option Heap := do
  let descs ← malloc_init_from 10 16
  return { palloc := p, descs := descs, arenas := arenas }

/-! ## Blocks and arenas -/

/-- `block_to_arena`; the address of the arena. -/
def block_to_arena (h : Heap) (b : Nat) : Option Nat := do
  let a := pg_round_down b
  ASSERT (a ≠ NULL)
  ASSERT ((h.arenas a).magic = ARENA_MAGIC)
  match (h.arenas a).desc with
  | some i =>
      let d ← h.descs[i]?
      ASSERT (size_sub (pg_ofs b) sizeof_arena % d.block_size = 0)
      return a
  | none =>
      ASSERT (pg_ofs b = sizeof_arena)
      return a

def arena_to_block (h : Heap) (a idx : Nat) : Option Nat := do
  ASSERT (a ≠ NULL)
  ASSERT ((h.arenas a).magic = ARENA_MAGIC)
  let i ← (h.arenas a).desc
  let d ← h.descs[i]?
  ASSERT (idx < d.blocks_per_arena)
  return a + sizeof_arena + idx * d.block_size

/-! ## `malloc` -/

/-- The loop of `malloc` that adds the blocks `i, i + 1, ..` of arena `a` to the free list. -/
def push_blocks (h : Heap) (a : Nat) : Nat → Nat → List Nat → Option (List Nat)
  | _, 0, l => some l
  | i, n + 1, l => do
      let b ← arena_to_block h a i
      push_blocks h a (i + 1) n (l ++ [b])

/-- The big-block half of `malloc`: `size` is too big for any descriptor. -/
def malloc_big (h : Heap) (size : Nat) : Option (Heap × Nat) := do
  let page_cnt := DIV_ROUND_UP (size_add size sizeof_arena) PGSIZE
  let (p, a) ← palloc_get_multiple h.palloc 0 page_cnt
  if a = NULL then
    return (h.setPalloc p, NULL)
  else
    return ((h.setPalloc p).setArena a ⟨ARENA_MAGIC, none, page_cnt⟩, a + sizeof_arena)

/-- Allocates an arena for descriptor `i` and adds its blocks to the free list; `false` if no page
is available. -/
def new_arena (h : Heap) (i : Nat) (d : Desc) : Option (Heap × Bool) := do
  let (p, a) ← palloc_get_page h.palloc 0
  if a = NULL then
    return (h.setPalloc p, false)
  else
    let h := (h.setPalloc p).setArena a ⟨ARENA_MAGIC, some i, d.blocks_per_arena⟩
    let l ← push_blocks h a 0 d.blocks_per_arena d.free_list
    return (h.setFreeList i l, true)

/-- The last part of `malloc`: gets a block from the free list of descriptor `i`. -/
def pop_block (h : Heap) (i : Nat) : Option (Heap × Nat) := do
  let d ← h.descs[i]?
  match d.free_list with
  | [] => none
  | b :: l =>
      let h := h.setFreeList i l
      let a ← block_to_arena h b
      let arena := h.arenas a
      return (h.setArena a { arena with free_cnt := size_sub arena.free_cnt 1 }, b)

def malloc (h : Heap) (size : Nat) : Option (Heap × Nat) :=
  if size = 0 then
    some (h, NULL)
  else
    match h.descs.findIdx? (fun d => decide (d.block_size ≥ size)) with
    | none => malloc_big h size
    | some i => do
        let d ← h.descs[i]?
        if d.free_list = [] then
          let (h, ok) ← new_arena h i d
          if ok then
            pop_block h i
          else
            return (h, NULL)
        else
          pop_block h i

def calloc (h : Heap) (a b : Nat) : Option (Heap × Nat) := do
  let size := size_mul a b
  if size < a ∨ size < b then
    return (h, NULL)
  else
    let (h, p) ← malloc h size
    if p ≠ NULL then
      return (h.setMem (memset h.mem p 0 size), p)
    else
      return (h, p)

/-! ## `free` and `realloc` -/

/-- `block_size`: the number of bytes allocated for a block. -/
def block_size (h : Heap) (block : Nat) : Option Nat := do
  let a ← block_to_arena h block
  match (h.arenas a).desc with
  | some i =>
      let d ← h.descs[i]?
      return d.block_size
  | none => return size_sub (size_mul PGSIZE (h.arenas a).free_cnt) (pg_ofs block)

/-- `list_remove` on a free list. -/
def list_remove (l : List Nat) (b : Nat) : Option (List Nat) := do
  ASSERT (b ∈ l)
  return l.erase b

/-- The loop of `free` that takes the blocks `i, i + 1, ..` of arena `a` off the free list. -/
def remove_blocks (h : Heap) (a : Nat) : Nat → Nat → List Nat → Option (List Nat)
  | _, 0, l => some l
  | i, n + 1, l => do
      let b ← arena_to_block h a i
      let l ← list_remove l b
      remove_blocks h a (i + 1) n l

/-- The part of `free` for a normal block: `b` goes back to descriptor `i`. -/
def free_normal (h : Heap) (b a i : Nat) : Option Heap := do
  let d ← h.descs[i]?
  let h := h.setMem (memset h.mem b 0xcc d.block_size)
  let l := b :: d.free_list
  let arena := h.arenas a
  let h := h.setArena a { arena with free_cnt := size_add arena.free_cnt 1 }
  if (h.arenas a).free_cnt ≥ d.blocks_per_arena then
    ASSERT ((h.arenas a).free_cnt = d.blocks_per_arena)
    let l ← remove_blocks h a 0 d.blocks_per_arena l
    let p ← palloc_free_page h.palloc a
    return ((h.setPalloc p).setArena a arena_cc).setFreeList i l
  else
    return h.setFreeList i l

def free (h : Heap) (p : Nat) : Option Heap := do
  if p ≠ NULL then
    let a ← block_to_arena h p
    match (h.arenas a).desc with
    | some i => free_normal h p a i
    | none =>
        let pa ← palloc_free_multiple h.palloc a (h.arenas a).free_cnt
        return (h.setPalloc pa).setArena a arena_cc
  else
    return h

def realloc (h : Heap) (old_block new_size : Nat) : Option (Heap × Nat) := do
  if new_size = 0 then
    let h ← free h old_block
    return (h, NULL)
  else
    let (h, new_block) ← malloc h new_size
    if old_block ≠ NULL ∧ new_block ≠ NULL then
      let old_size ← block_size h old_block
      let min_size := if new_size < old_size then new_size else old_size
      let h := h.setMem (memcpy h.mem new_block old_block min_size)
      let h ← free h old_block
      return (h, new_block)
    else
      return (h, new_block)

end Berk162
