import Berk162.Threads.Palloc
import Berk162.Threads.Pte

/-!
# Pagedir — page directories, `userprog/pagedir.c`, and `paging_init` of `threads/init.c`

A page directory and its page tables are pages of the kernel pool; an entry is a word of memory.
`none` is a kernel panic.  The processor's copies of entries, which `invalidate_pagedir` clears, are
left out.
-/

namespace Berk162

/-! ## The directory of the kernel -/

/-- The loop of `paging_init`, from physical page `page` on.  The kernel's text starts at
`text_start` and ends before `text_end`; `pt` is the page table in use. -/
def paging_init_from (text_start text_end pd : Nat) :
    Nat → Nat → Nat → Palloc → Option Palloc
  | _, 0, _, s => some s
  | page, n + 1, pt, s => do
      let vaddr ← ptov (size_mul page PGSIZE)
      let pde := pd + 4 * pd_no vaddr
      let in_kernel_text := decide (text_start ≤ vaddr ∧ vaddr < text_end)
      let (s, pt) ←
        if word_at s.mem pde = 0 then do
          let (s, pt) ← palloc_get_page s (PAL_ASSERT ||| PAL_ZERO)
          let e ← pde_create pt
          some (s.withMem (put_word s.mem pde e), pt)
        else
          some (s, pt)
      let e ← pte_create_kernel vaddr (!in_kernel_text)
      paging_init_from text_start text_end pd (page + 1) n pt
        (s.withMem (put_word s.mem (pt + 4 * pt_no vaddr) e))

/-- `paging_init`; the second component is `init_page_dir`. -/
def paging_init (init_ram_pages text_start text_end : Nat) (s : Palloc) :
    Option (Palloc × Nat) := do
  let (s, pd) ← palloc_get_page s (PAL_ASSERT ||| PAL_ZERO)
  let s ← paging_init_from text_start text_end pd 0 init_ram_pages NULL s
  return (s, pd)

/-! ## Directories of processes -/

def pagedir_create (s : Palloc) (init_page_dir : Nat) : Option (Palloc × Nat) := do
  let (s, pd) ← palloc_get_page s 0
  if pd ≠ NULL then
    return (s.withMem (memcpy s.mem pd init_page_dir PGSIZE), pd)
  else
    return (s, pd)

/-- The inner loop of `pagedir_destroy`: the entries `j, j + 1, ..` of page table `pt`. -/
def destroy_ptes (pt : Nat) : Nat → Nat → Palloc → Option Palloc
  | _, 0, s => some s
  | j, n + 1, s => do
      let pte := word_at s.mem (pt + 4 * j)
      let s ←
        if pte &&& PTE_P ≠ 0 then do
          let page ← pte_get_page pte
          palloc_free_page s page
        else
          some s
      destroy_ptes pt (j + 1) n s

/-- The outer loop: the entries `i, i + 1, ..` of page directory `pd`. -/
def destroy_pdes (pd : Nat) : Nat → Nat → Palloc → Option Palloc
  | _, 0, s => some s
  | i, n + 1, s => do
      let pde := word_at s.mem (pd + 4 * i)
      let s ←
        if pde &&& PTE_P ≠ 0 then do
          let pt ← pde_get_pt pde
          let s ← destroy_ptes pt 0 (PGSIZE / 4) s
          palloc_free_page s pt
        else
          some s
      destroy_pdes pd (i + 1) n s

def pagedir_destroy (s : Palloc) (init_page_dir pd : Nat) : Option Palloc :=
  if pd = NULL then
    some s
  else do
    ASSERT (pd ≠ init_page_dir)
    let s ← destroy_pdes pd 0 (pd_no PHYS_BASE) s
    palloc_free_page s pd

/-- `lookup_page`; the second component is the pointer it returns. -/
def lookup_page (s : Palloc) (pd vaddr : Nat) (create : Bool) : Option (Palloc × Nat) := do
  ASSERT (pd ≠ NULL)
  ASSERT (create = false ∨ is_user_vaddr vaddr)
  let pde := pd + 4 * pd_no vaddr
  if word_at s.mem pde = 0 then
    if create then
      let (s, pt) ← palloc_get_page s PAL_ZERO
      if pt = NULL then
        return (s, NULL)
      else
        let e ← pde_create pt
        let s := s.withMem (put_word s.mem pde e)
        let pt ← pde_get_pt (word_at s.mem pde)
        return (s, pt + 4 * pt_no vaddr)
    else
      return (s, NULL)
  else
    let pt ← pde_get_pt (word_at s.mem pde)
    return (s, pt + 4 * pt_no vaddr)

def pagedir_set_page (init_ram_pages init_page_dir : Nat) (s : Palloc) (pd upage kpage : Nat)
    (writable : Bool) : Option (Palloc × Bool) := do
  ASSERT (pg_ofs upage = 0)
  ASSERT (pg_ofs kpage = 0)
  ASSERT (is_user_vaddr upage)
  let p ← vtop kpage
  ASSERT (p / 2 ^ PTSHIFT < init_ram_pages)
  ASSERT (pd ≠ init_page_dir)
  let (s, pte) ← lookup_page s pd upage true
  if pte ≠ NULL then
    ASSERT (word_at s.mem pte &&& PTE_P = 0)
    let e ← pte_create_user kpage writable
    return (s.withMem (put_word s.mem pte e), true)
  else
    return (s, false)

def pagedir_get_page (s : Palloc) (pd uaddr : Nat) : Option Nat := do
  ASSERT (is_user_vaddr uaddr)
  let (s, pte) ← lookup_page s pd uaddr false
  if pte ≠ NULL ∧ word_at s.mem pte &&& PTE_P ≠ 0 then
    let page ← pte_get_page (word_at s.mem pte)
    return size_add page (pg_ofs uaddr)
  else
    return NULL

def pagedir_clear_page (s : Palloc) (pd upage : Nat) : Option Palloc := do
  ASSERT (pg_ofs upage = 0)
  ASSERT (is_user_vaddr upage)
  let (s, pte) ← lookup_page s pd upage false
  if pte ≠ NULL ∧ word_at s.mem pte &&& PTE_P ≠ 0 then
    return s.withMem (put_word s.mem pte (word_at s.mem pte &&& ~~~PTE_P))
  else
    return s

/-- `pagedir_is_dirty` and `pagedir_is_accessed`, for the flag `f`. -/
def pagedir_is (f : BitVec 32) (s : Palloc) (pd vpage : Nat) : Option Bool := do
  let (s, pte) ← lookup_page s pd vpage false
  return decide (pte ≠ NULL ∧ word_at s.mem pte &&& f ≠ 0)

/-- `pagedir_set_dirty` and `pagedir_set_accessed`, for the flag `f`. -/
def pagedir_set (f : BitVec 32) (s : Palloc) (pd vpage : Nat) (value : Bool) : Option Palloc := do
  let (s, pte) ← lookup_page s pd vpage false
  if pte ≠ NULL then
    if value then
      return s.withMem (put_word s.mem pte (word_at s.mem pte ||| f))
    else
      return s.withMem (put_word s.mem pte (word_at s.mem pte &&& ~~~f))
  else
    return s

def pagedir_is_dirty : Palloc → Nat → Nat → Option Bool := pagedir_is PTE_D

def pagedir_set_dirty : Palloc → Nat → Nat → Bool → Option Palloc := pagedir_set PTE_D

def pagedir_is_accessed : Palloc → Nat → Nat → Option Bool := pagedir_is PTE_A

def pagedir_set_accessed : Palloc → Nat → Nat → Bool → Option Palloc := pagedir_set PTE_A

end Berk162
