import Mathlib.Tactic

/-!
# Synch — semaphores and locks of `threads/synch.c`

Each definition is what its function does with interrupts off, up to where they come back on or the
thread blocks.  Blocking and unblocking change the state of a thread, which is not part of a
semaphore: `sema_down` says whether its thread blocks and `sema_up` says which thread it unblocks.
-/

namespace Berk162

/-- `struct semaphore`. -/
structure Semaphore (T : Type) where
  value : Nat
  waiters : List T
  deriving DecidableEq, Repr

variable {T : Type}

/-- `sema_init`. -/
def sema_init (value : Nat) : Semaphore T := ⟨value, []⟩

/-- One pass of the `while` loop of `sema_down` by the thread `t`.  The flag tells whether the loop
is left, with the unit taken; otherwise `t` has to block. -/
def sema_down (sema : Semaphore T) (t : T) : Semaphore T × Bool :=
  if sema.value = 0 then ({ sema with waiters := sema.waiters ++ [t] }, false)
  else ({ sema with value := sema.value - 1 }, true)

/-- `sema_try_down`. -/
def sema_try_down (sema : Semaphore T) : Semaphore T × Bool :=
  if sema.value > 0 then ({ sema with value := sema.value - 1 }, true) else (sema, false)

/-- `sema_up`, with the thread that it unblocks.  `value` is an `unsigned`. -/
def sema_up (sema : Semaphore T) : Semaphore T × Option T :=
  (⟨(sema.value + 1) % 2 ^ 32, sema.waiters.tail⟩, sema.waiters.head?)

@[simp] theorem sema_init_value (v : Nat) : (sema_init v : Semaphore T).value = v := rfl

@[simp] theorem sema_init_waiters (v : Nat) : (sema_init v : Semaphore T).waiters = [] := rfl

theorem sema_down_zero {sema : Semaphore T} (t : T) (h : sema.value = 0) :
    sema_down sema t = (⟨0, sema.waiters ++ [t]⟩, false) := by
  simp [sema_down, h]

theorem sema_down_succ {sema : Semaphore T} {v : Nat} (t : T) (h : sema.value = v + 1) :
    sema_down sema t = (⟨v, sema.waiters⟩, true) := by
  simp [sema_down, h]

/-- `struct lock`. -/
structure Lock (T : Type) where
  holder : Option T
  semaphore : Semaphore T
  deriving DecidableEq, Repr

/-- `lock_init`. -/
def lock_init : Lock T := ⟨none, sema_init 1⟩

end Berk162
