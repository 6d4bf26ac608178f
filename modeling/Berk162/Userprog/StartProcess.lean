import Berk162.Threads.Malloc
import Berk162.Userprog.Load

/-!
# StartProcess — a thread that becomes a process, `start_process` of `userprog/process.c`

The process control block is a block from `malloc`; its `pagedir` is the one of the `Loader`, and its
other fields are left out, with the interrupt frame and the semaphore.  A thread that fails exits,
and `thread_switch_tail` frees its page.

`none` is a kernel panic, or a loop of `load_segment` that has run out of rounds.
-/

namespace Berk162

/-- `sizeof (struct process)`. -/
def sizeof_process : Nat := 24

/-- The globals of the kernel that `start_process` uses. -/
structure StartState where
  init_ram_pages : Nat
  init_page_dir : Nat
  heap : Heap
  fs : FileSys

namespace StartState

@[simps] def setHeap (s : StartState) (heap : Heap) : StartState := { s with heap := heap }

/-- The loader of a process whose `pagedir` is null. -/
@[simps] def loader (s : StartState) : Loader where
  init_ram_pages := s.init_ram_pages
  init_page_dir := s.init_page_dir
  pagedir := NULL
  alloc := s.heap.palloc
  fs := s.fs

def load (rounds : Nat) (s : StartState) (file_name : CString) (e : DirEntry) :
    Option (StartState × Option (Nat × Nat)) := do
  let (l, result) ← s.loader.load rounds file_name e
  return (⟨s.init_ram_pages, s.init_page_dir, s.heap.setPalloc l.alloc, l.fs⟩, result)

def free_page (s : StartState) (page : Nat) : Option StartState := do
  let alloc ← palloc_free_page s.heap.palloc page
  return s.setHeap (s.heap.setPalloc alloc)

/-- `thread_exit`, and what `thread_switch_tail` does for the thread that is dying. -/
def thread_exit (s : StartState) (t : Nat) : Option StartState := s.free_page t

/-- `start_process` in the thread `t`, with `name` in the page `file_name`.  The second component is
`*eip` and `*esp` of the process, or `none` when the thread has exited. -/
def start_process (rounds : Nat) (s : StartState) (t file_name : Nat) (name : CString)
    (e : DirEntry) : Option (StartState × Option (Nat × Nat)) := do
  let (heap, new_pcb) ← malloc s.heap sizeof_process
  let s := s.setHeap heap
  let (s, result) ← if new_pcb ≠ NULL then s.load rounds name e else some (s, none)
  let s ←
    if result = none ∧ new_pcb ≠ NULL then do
      let heap ← free s.heap new_pcb
      some (s.setHeap heap)
    else
      some s
  let s ← s.free_page file_name
  match result with
  | none =>
      let s ← s.thread_exit t
      return (s, none)
  | some regs => return (s, some regs)

end StartState

end Berk162
