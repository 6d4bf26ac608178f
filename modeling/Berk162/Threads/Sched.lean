import Berk162.Lib.Transition
import Berk162.Threads.Synch

/-!
# Sched — the thread scheduler of `threads/thread.c`

A thread is the page that its `struct thread` starts.  A step is one section with interrupts off,
up to where they come back on or another thread runs; that thread then goes on with a step of its
own.  `none` is a failed `ASSERT`.  A section returns the pages that it freed.

The policy is the FIFO policy.
-/

namespace Berk162

/-- `enum thread_status`. -/
inductive ThreadStatus
  | running
  | ready
  | blocked
  | dying
  deriving DecidableEq, Repr

/-- Number of timer ticks to give each thread. -/
def TIME_SLICE : Nat := 4

/-- The scheduler's state, with pages `P` and semaphores `X`. -/
structure Sched (P X : Type) where
  /-- The status of the thread on a page, if there is one. -/
  status : P → Option ThreadStatus
  fifo_ready_list : List P
  all_list : List P
  idle_thread : Option P
  initial_thread : P
  /-- The thread on whose stack the CPU is. -/
  running_thread : P
  thread_ticks : Nat
  sema : X → Semaphore P

variable {P X : Type} [DecidableEq P]

namespace Sched

variable (s : Sched P X)

def setStatus (p : P) (st : Option ThreadStatus) : Sched P X :=
  { s with status := Function.update s.status p st }

/-- `thread_enqueue`. -/
def thread_enqueue (p : P) : Sched P X := { s with fifo_ready_list := s.fifo_ready_list ++ [p] }

/-- `thread_unblock`. -/
def thread_unblock (p : P) : Option (Sched P X) :=
  if s.status p = some .blocked then some ((s.thread_enqueue p).setStatus p (some .ready)) else none

/-- `next_thread_to_run`, that is `thread_schedule_fifo`. -/
def next_thread_to_run : Option P × Sched P X :=
  match s.fifo_ready_list with
  | p :: ps => (some p, { s with fifo_ready_list := ps })
  | [] => (s.idle_thread, s)

/-- `thread_switch_tail`, on the stack of the new thread. -/
def thread_switch_tail (prev : Option P) : Option (Sched P X × List P) :=
  let s := { s.setStatus s.running_thread (some .running) with thread_ticks := 0 }
  match prev with
  | none => some (s, [])
  | some p =>
      if s.status p = some .dying ∧ p ≠ s.initial_thread then
        if p = s.running_thread then none else some (s.setStatus p none, [p])
      else some (s, [])

/-- `schedule`.  A page without a thread fails `is_thread`. -/
def schedule : Option (Sched P X × List P) :=
  let cur := s.running_thread
  match s.next_thread_to_run with
  | (none, _) => none
  | (some next, s) =>
      if s.status cur = some .running ∨ s.status next = none then none
      else if cur ≠ next then { s with running_thread := next }.thread_switch_tail (some cur)
      else s.thread_switch_tail none

/-- `thread_block`. -/
def thread_block : Option (Sched P X × List P) :=
  (s.setStatus s.running_thread (some .blocked)).schedule

/-- `thread_yield`. -/
def thread_yield : Option (Sched P X × List P) :=
  let cur := s.running_thread
  let s := if s.idle_thread ≠ some cur then s.thread_enqueue cur else s
  (s.setStatus cur (some .ready)).schedule

/-- `thread_exit`. -/
def thread_exit : Option (Sched P X × List P) :=
  let cur := s.running_thread
  { s.setStatus cur (some .dying) with all_list := s.all_list.erase cur }.schedule

/-- `thread_create` up to the end of `init_thread`, with the page that `palloc_get_page` gave. -/
def init_thread (p : P) : Sched P X :=
  { s.setStatus p (some .blocked) with all_list := s.all_list ++ [p] }

/-- The end of `thread_tick`, and the yield on return from the interrupt. -/
def thread_tick : Option (Sched P X × List P) :=
  let s := { s with thread_ticks := s.thread_ticks + 1 }
  if s.thread_ticks ≥ TIME_SLICE then s.thread_yield else some (s, [])

variable [DecidableEq X]

def setSema (x : X) (sema : Semaphore P) : Sched P X :=
  { s with sema := Function.update s.sema x sema }

/-- A pass of the loop of `sema_down`. -/
def sema_down_pass (x : X) : Option (Sched P X × List P) :=
  match sema_down (s.sema x) s.running_thread with
  | (sema, true) => some (s.setSema x sema, [])
  | (sema, false) => (s.setSema x sema).thread_block

/-- `sema_up`. -/
def sema_up_call (x : X) : Option (Sched P X × List P) :=
  let s' := s.setSema x (sema_up (s.sema x)).1
  match (sema_up (s.sema x)).2 with
  | none => some (s', [])
  | some p => (s'.thread_unblock p).map fun s => (s, [])

end Sched

/-! ## Runs -/

inductive SchedEvent (P X : Type)
  | create (p : P)
  | unblock (p : P)
  | block
  | yield
  | exit
  | sema_down (x : X)
  | sema_up (x : X)
  | tick
  /-- The first statement of `idle`. -/
  | idle

/-- What the callers see to: a new thread gets a page that no thread is on; whoever calls
`thread_unblock` has a thread that blocked itself and is on no semaphore's list; the idle thread
neither ends nor waits on a semaphore; and there is one idle thread. -/
def sched_enabled (s : Sched P X) : SchedEvent P X → Prop
  | .create p => s.status p = none
  | .unblock p => s.status p = some .blocked ∧ ∀ x, p ∉ (s.sema x).waiters
  | .exit => s.idle_thread ≠ some s.running_thread
  | .sema_down _ => s.idle_thread ≠ some s.running_thread
  | .idle => s.idle_thread = none
  | _ => True

variable [DecidableEq X]

def sched_section (s : Sched P X) : SchedEvent P X → Option (Sched P X × List P)
  | .create p => some (s.init_thread p, [])
  | .unblock p => (s.thread_unblock p).map fun s => (s, [])
  | .block => s.thread_block
  | .yield => s.thread_yield
  | .exit => s.thread_exit
  | .sema_down x => s.sema_down_pass x
  | .sema_up x => s.sema_up_call x
  | .tick => s.thread_tick
  | .idle => some ({ s with idle_thread := some s.running_thread }, [])

/-- The runs of the scheduler from the end of `thread_init`.  A label says what was called and
which pages were freed. -/
def schedSystem (P X : Type) [DecidableEq P] [DecidableEq X] :
    System (Sched P X) (SchedEvent P X × List P) where
  init s := s.fifo_ready_list = [] ∧ s.all_list = [s.initial_thread] ∧ s.idle_thread = none ∧
    s.running_thread = s.initial_thread ∧ (∀ x, (s.sema x).waiters = []) ∧
    s.status = Function.update (fun _ => none) s.initial_thread (some .running)
  step s l s' := sched_enabled s l.1 ∧ sched_section s l.1 = some (s', l.2)

end Berk162
