import Berk162.Lib.Transition
import Mathlib.Logic.Function.Basic

/-!
# ProcessLife — page directories and process control blocks from `start_process` to `process_exit`

Which page directory the CPU uses is decided in `process_activate`, which every switch to a thread
calls, and by the thread itself in `load` and `process_exit`.  A timer interrupt may switch to
another thread between any two statements, so a step is one statement of the thread that runs, or
a switch.  `none` is an access to a block that is not allocated, or a second release.
-/

namespace Berk162

/-- The statement that a thread comes to next. -/
inductive ProcessPc (B D : Type)
  | userprog_init
  /-- A kernel thread, or the initial one after `userprog_init`. -/
  | kernel
  /-- `start_process`, at its `malloc`. -/
  | start_process
  /-- At `new_pcb->pagedir = NULL`. -/
  | set_pagedir (new_pcb : B)
  /-- At `t->pcb = new_pcb`. -/
  | set_pcb (new_pcb : B)
  /-- `load`, at `t->pcb->pagedir = pagedir_create ()`. -/
  | pagedir_create
  /-- `load`, in `process_activate`: about to read `t->pcb->pagedir`. -/
  | process_activate
  /-- About to load `%cr3`. -/
  | pagedir_activate (pd : Option D)
  | tss_update
  /-- The rest of `load`. -/
  | load
  /-- User code and the system calls it makes. -/
  | user
  | process_exit
  /-- At `cur->pcb->pagedir = NULL`. -/
  | clear_pagedir (pd : D)
  /-- At `pagedir_activate (NULL)`. -/
  | deactivate (pd : D)
  /-- At `pagedir_destroy (pd)`. -/
  | pagedir_destroy (pd : D)
  /-- At `pcb_to_free = cur->pcb; cur->pcb = NULL`, also where `load` has failed. -/
  | clear_pcb
  /-- At `free (pcb_to_free)`. -/
  | free_pcb (pcb_to_free : B)
  /-- At `sema_up (&temporary)`, and in `thread_exit` up to its `intr_disable`. -/
  | thread_exit
  /-- In `schedule` with the status `THREAD_DYING`; interrupts are off. -/
  | dying
  deriving DecidableEq, Repr

/-- Threads `T`, process control blocks `B` and page directories `D`. -/
structure Processes (T B D : Type) where
  pcb : T → Option B
  /-- The `pagedir` members of the blocks that are allocated. -/
  pagedir : B → Option (Option D)
  /-- The page directories that are allocated. -/
  live : D → Bool
  /-- The page directory in `%cr3`; `none` is `init_page_dir`. -/
  cr3 : Option D
  /-- The thread to whose kernel stack `tss->esp0` points. -/
  esp0 : T
  current : T
  /-- Where the threads are, as far as there are threads. -/
  pc : T → Option (ProcessPc B D)

/-- What is not decided by the state: what `malloc` returns and what is in the block, what
`pagedir_create` returns, and whether the rest of `load` succeeds, user code goes on, or a thread
that exits is still in `sema_up`. -/
structure ProcessChoice (B D : Type) where
  block : Option B
  garbage : Option D
  dir : Option D
  ok : Bool

inductive ProcessEvent (T B D : Type)
  /-- `schedule` chooses thread `t`. -/
  | switch (t : T)
  /-- `thread_create`, for `start_process` or for another function. -/
  | create (t : T) (process : Bool)
  /-- The next statement of the thread that runs. -/
  | statement (c : ProcessChoice B D)

variable {T B D : Type} [DecidableEq T] [DecidableEq B] [DecidableEq D]

namespace Processes

variable (s : Processes T B D)

/-- The thread that runs comes to `pc`. -/
def goto (pc : ProcessPc B D) : Processes T B D :=
  { s with pc := Function.update s.pc s.current (some pc) }

/-- The page directory that `process_activate` finds for thread `t`. -/
def active_pagedir (t : T) : Option (Option D) :=
  match s.pcb t with
  | none => some none
  | some b => s.pagedir b

/-- Writing `t->pcb->pagedir`. -/
def set_pagedir (pd : Option D) : Option (Processes T B D) :=
  (s.pcb s.current).bind fun b =>
    if s.pagedir b = none then none
    else some { s with pagedir := Function.update s.pagedir b (some pd) }

/-- `thread_switch_tail`: interrupts are off, and `process_activate` is the first thing done. -/
def switch (t : T) : Option (Processes T B D) :=
  (s.active_pagedir t).map fun pd => { s with current := t, cr3 := pd, esp0 := t }

def create (t : T) (process : Bool) : Processes T B D :=
  { s with
    pcb := Function.update s.pcb t none
    pc := Function.update s.pc t (some (if process then .start_process else .kernel)) }

/-- `pagedir_create`. -/
def pagedir_create (dir : Option D) : Processes T B D :=
  match dir with
  | none => s
  | some d => { s with live := Function.update s.live d true }

def statement (c : ProcessChoice B D) : ProcessPc B D → Option (Processes T B D)
  | .userprog_init =>
      match c.block with
      | none => none
      | some b => some ({ s with
          pagedir := Function.update s.pagedir b (some none)
          pcb := Function.update s.pcb s.current (some b) }.goto .kernel)
  | .kernel => some s
  | .start_process =>
      match c.block with
      | none => some (s.goto .thread_exit)
      | some b => some ({ s with
          pagedir := Function.update s.pagedir b (some c.garbage) }.goto (.set_pagedir b))
  | .set_pagedir b =>
      if s.pagedir b = none then none
      else some ({ s with pagedir := Function.update s.pagedir b (some none) }.goto (.set_pcb b))
  | .set_pcb b =>
      some ({ s with pcb := Function.update s.pcb s.current (some b) }.goto .pagedir_create)
  | .pagedir_create =>
      ((s.pagedir_create c.dir).set_pagedir c.dir).map fun s =>
        s.goto (if c.dir = none then .clear_pcb else .process_activate)
  | .process_activate =>
      (s.active_pagedir s.current).map fun pd => s.goto (.pagedir_activate pd)
  | .pagedir_activate pd => some ({ s with cr3 := pd }.goto .tss_update)
  | .tss_update => some ({ s with esp0 := s.current }.goto .load)
  | .load => some (s.goto (if c.ok then .user else .clear_pcb))
  | .user => some (s.goto (if c.ok then .user else .process_exit))
  | .process_exit =>
      match s.pcb s.current with
      | none => some (s.goto .thread_exit)
      | some b => (s.pagedir b).map fun pd =>
          match pd with
          | none => s.goto .clear_pcb
          | some pd => s.goto (.clear_pagedir pd)
  | .clear_pagedir pd => (s.set_pagedir none).map fun s => s.goto (.deactivate pd)
  | .deactivate pd => some ({ s with cr3 := none }.goto (.pagedir_destroy pd))
  | .pagedir_destroy pd =>
      if s.live pd then some ({ s with live := Function.update s.live pd false }.goto .clear_pcb)
      else none
  | .clear_pcb =>
      (s.pcb s.current).map fun b =>
        { s with pcb := Function.update s.pcb s.current none }.goto (.free_pcb b)
  | .free_pcb b =>
      if s.pagedir b = none then none
      else some ({ s with pagedir := Function.update s.pagedir b none }.goto .thread_exit)
  | .thread_exit => some (s.goto (if c.ok then .thread_exit else .dying))
  | .dying => some s

end Processes

/-! ## Runs -/

/-- What the scheduler and the allocators see to: a dying thread does not run again; a new thread gets
a page that no thread is on, where a dying thread is gone once another one runs; what `malloc` and
`pagedir_create` return is not in use; and the `calloc` of `userprog_init` succeeds, which is
asserted there. -/
def process_enabled (s : Processes T B D) : ProcessEvent T B D → Prop
  | .switch t => ∃ pc, s.pc t = some pc ∧ pc ≠ .dying
  | .create t _ => s.pc t = none ∨ (s.pc t = some .dying ∧ t ≠ s.current)
  | .statement c => (∀ b, c.block = some b → s.pagedir b = none) ∧
      (∀ d, c.dir = some d → s.live d = false) ∧
      (s.pc s.current = some .userprog_init → c.block ≠ none)

def process_section (s : Processes T B D) : ProcessEvent T B D → Option (Processes T B D)
  | .switch t => s.switch t
  | .create t process => some (s.create t process)
  | .statement c => (s.pc s.current).bind fun pc => s.statement c pc

/-- The runs from `userprog_init`, where there is the initial thread only. -/
def processSystem (T B D : Type) [DecidableEq T] [DecidableEq B] [DecidableEq D] :
    System (Processes T B D) (ProcessEvent T B D) where
  init s := (∀ t, s.pcb t = none) ∧ s.cr3 = none ∧ s.esp0 = s.current ∧
    s.pc = Function.update (fun _ => none) s.current (some .userprog_init)
  step s e s' := process_enabled s e ∧ process_section s e = some s'

end Berk162
