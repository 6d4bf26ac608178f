import Berk162.Lib.RingBuffer
import Berk162.Threads.Synch

/-!
# Intq — the interrupt queue of `devices/intq.c`

The functions run with interrupts off, so nothing else runs between two points where the calling
thread blocks.  Each definition below is one such section; `none` is a failed `ASSERT`.  `Place`
says for every thread where in these functions it sleeps.
-/

namespace Berk162

/-- Queue buffer size, in bytes. -/
abbrev INTQ_BUFSIZE : Nat := 64

instance : NeZero INTQ_BUFSIZE := ⟨by decide⟩

/-- `struct intq`. -/
structure Intq (T : Type) extends RingBuffer UInt8 INTQ_BUFSIZE where
  lock : Lock T
  not_full : Option T
  not_empty : Option T

/-- The two members of `struct intq` that a thread can wait in. -/
inductive Waiter
  | not_full
  | not_empty
  deriving DecidableEq, Repr

def Waiter.other : Waiter → Waiter
  | .not_full => .not_empty
  | .not_empty => .not_full

/-- Where a thread is in `intq_getc` (waiter `not_empty`) or `intq_putc` (waiter `not_full`). -/
inductive Place
  /-- In neither of them, or running. -/
  | out
  /-- Blocked in `lock_acquire`. -/
  | locking (w : Waiter)
  /-- Unblocked in `lock_acquire`, yet to run. -/
  | lock_woken (w : Waiter)
  /-- Blocked in `wait`. -/
  | waiting (w : Waiter)
  /-- Unblocked in `wait`, yet to run. -/
  | wait_woken (w : Waiter)
  deriving DecidableEq, Repr

/-- A queue and where the threads are in its functions. -/
structure IntqState (T : Type) where
  q : Intq T
  place : T → Place

variable {T : Type}

namespace Intq

/-- `intq_init`. -/
def init : Intq T where
  buf := fun _ => 0
  head := 0
  tail := 0
  lock := lock_init
  not_full := none
  not_empty := none

def waiter (q : Intq T) : Waiter → Option T
  | .not_full => q.not_full
  | .not_empty => q.not_empty

def setWaiter (q : Intq T) (t : Option T) : Waiter → Intq T
  | .not_full => { q with not_full := t }
  | .not_empty => { q with not_empty := t }

/-- The condition that a thread in `w` waits for. -/
def met (q : Intq T) : Waiter → Bool
  | .not_full => !q.isFull
  | .not_empty => !q.isEmpty

def setRing (q : Intq T) (r : RingBuffer UInt8 INTQ_BUFSIZE) : Intq T :=
  { q with toRingBuffer := r }

def setLock (q : Intq T) (l : Lock T) : Intq T := { q with lock := l }

end Intq

variable [DecidableEq T]

namespace IntqState

def setQ (s : IntqState T) (q : Intq T) : IntqState T := { s with q := q }

def setPlace (s : IntqState T) (t : T) (p : Place) : IntqState T :=
  { s with place := Function.update s.place t p }

/-- `thread_block` by `t`. -/
def thread_block (s : IntqState T) (t : T) (p : Place) : IntqState T := s.setPlace t p

/-- `thread_unblock`, which asserts that the thread is blocked. -/
def thread_unblock (s : IntqState T) (t : T) : Option (IntqState T) :=
  match s.place t with
  | .locking w => some (s.setPlace t (.lock_woken w))
  | .waiting w => some (s.setPlace t (.wait_woken w))
  | _ => none

/-- `wait`. -/
def wait (s : IntqState T) (w : Waiter) (t : T) : Option (IntqState T) :=
  if s.q.met w then none
  else some ((s.setQ (s.q.setWaiter (some t) w)).thread_block t (.waiting w))

/-- `signal`. -/
def signal (s : IntqState T) (w : Waiter) : Option (IntqState T) :=
  if s.q.met w then
    match s.q.waiter w with
    | none => some s
    | some t => (s.thread_unblock t).map fun s => s.setQ (s.q.setWaiter none w)
  else none

/-- `lock_acquire` of the queue's lock from the loop test of `sema_down` on, and the `wait` that
follows it. -/
def lock_wait (s : IntqState T) (w : Waiter) (t : T) : Option (IntqState T) :=
  match sema_down s.q.lock.semaphore t with
  | (sema, false) =>
      some ((s.setQ (s.q.setLock ⟨s.q.lock.holder, sema⟩)).thread_block t (.locking w))
  | (sema, true) => (s.setQ (s.q.setLock ⟨some t, sema⟩)).wait w t

/-- `lock_release` of the queue's lock by `t`. -/
def lock_release (s : IntqState T) (t : T) : Option (IntqState T) :=
  if s.q.lock.holder = some t then
    let s' := s.setQ (s.q.setLock ⟨none, (sema_up s.q.lock.semaphore).1⟩)
    match (sema_up s.q.lock.semaphore).2 with
    | none => some s'
    | some u => s'.thread_unblock u
  else none

/-- The `while` loop of `intq_getc` and `intq_putc`, from its test to the block in its body.  The
flag tells whether the loop is left.  Without a thread it runs in an interrupt handler. -/
def await (s : IntqState T) (w : Waiter) (t : Option T) : Option (IntqState T × Bool) :=
  if s.q.met w then some (s, true)
  else
    match t with
    | none => none
    | some t =>
        if s.q.lock.holder = some t then none
        else (s.lock_wait w t).map fun s => (s, false)

/-- `intq_getc` up to its end or a block; the byte is there at its end. -/
def intq_getc (s : IntqState T) (t : Option T) : Option (IntqState T × Option UInt8) := do
  let (s, ready) ← s.await .not_empty t
  if ready then
    let byte := s.q.buf s.q.tail
    let s ← (s.setQ (s.q.setRing s.q.get)).signal .not_full
    return (s, some byte)
  else
    return (s, none)

/-- `intq_putc` up to its end or a block; the flag tells whether it is at its end. -/
def intq_putc (s : IntqState T) (t : Option T) (byte : UInt8) : Option (IntqState T × Bool) := do
  let (s, ready) ← s.await .not_full t
  if ready then
    let s ← (s.setQ (s.q.setRing (s.q.put byte))).signal .not_empty
    return (s, true)
  else
    return (s, false)

/-- What `t` does when it runs again after its block in `lock_acquire`. -/
def resume_lock (s : IntqState T) (w : Waiter) (t : T) : Option (IntqState T) :=
  (s.setPlace t .out).lock_wait w t

/-- What `t` does when it runs again after its block in `wait`, up to the loop test. -/
def resume_wait (s : IntqState T) (t : T) : Option (IntqState T) :=
  (s.setPlace t .out).lock_release t

end IntqState

end Berk162
