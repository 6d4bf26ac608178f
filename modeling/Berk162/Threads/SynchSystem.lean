import Berk162.Lib.Transition
import Berk162.Threads.Synch

/-!
# SynchSystem — threads in semaphores, locks and condition variables

Any number of threads call the functions of `threads/synch.c` on any number of semaphores, locks
and conditions.  A step is one section with interrupts off, or one access to shared memory outside
of these: setting or clearing `holder`, or a change of a condition's list.  Interrupt handlers call
`sema_up` and `sema_try_down`.  Each condition goes with one lock, which its callers hold.

A step is labelled with what it did to a semaphore.
-/

namespace Berk162

/-- The semaphores: free ones, those inside locks, and the one that a thread in `cond_wait` has on
its stack. -/
inductive SemaId (T S L : Type)
  | sema (x : S)
  | lock (l : L)
  | waiter (t : T)
  deriving DecidableEq

/-- What a thread is in `sema_down` for. -/
inductive Goal (S L C : Type)
  /-- A call of its own. -/
  | sema (x : S)
  /-- `lock_acquire`. -/
  | lock (l : L)
  /-- `cond_wait`, on its own semaphore. -/
  | cond (c : C)
  deriving DecidableEq

/-- Where a thread is. -/
inductive Pc (T S L C : Type)
  /-- In none of the functions. -/
  | outside
  /-- In `sema_down`, before the loop. -/
  | test (g : Goal S L C)
  /-- In `sema_down`, blocked. -/
  | asleep (g : Goal S L C)
  /-- In `sema_down`, unblocked but yet to test again. -/
  | woken (g : Goal S L C)
  /-- In `lock_acquire` or `lock_try_acquire`, with the unit, before it sets `holder`. -/
  | got (l : L)
  /-- In `lock_release`, after it cleared `holder`; inside `cond_wait` if there is a condition. -/
  | releasing (l : L) (c : Option C)
  /-- In `cond_wait`, on the list, before `lock_release`. -/
  | published (c : C)
  /-- In `cond_signal`, with the waiter `u` off the list; `all` if inside `cond_broadcast`. -/
  | signalling (c : C) (u : T) (all : Bool)
  /-- At the loop test of `cond_broadcast`. -/
  | broadcasting (c : C)
  deriving DecidableEq

/-- What a step did to a semaphore; `who` says which thread did it, if a thread did. -/
inductive Act (T S L : Type)
  | tau
  | init (x : SemaId T S L) (value : Nat)
  | up (x : SemaId T S L) (who : Option T)
  | down (x : SemaId T S L) (who : Option T)
  deriving DecidableEq

structure SynchState (T S L C : Type) where
  sema : SemaId T S L → Semaphore T
  holder : L → Option T
  waiters : C → List T
  pc : T → Pc T S L C

variable {T S L C : Type}

def Goal.target (t : T) : Goal S L C → SemaId T S L
  | .sema x => .sema x
  | .lock l => .lock l
  | .cond _ => .waiter t

/-- Where `sema_down` returns to.  `lockOf` gives the lock of a condition. -/
def Goal.after (lockOf : C → L) : Goal S L C → Pc T S L C
  | .sema _ => .outside
  | .lock l => .got l
  | .cond c => .test (.lock (lockOf c))

variable [DecidableEq T] [DecidableEq S] [DecidableEq L] [DecidableEq C]

namespace SynchState

variable (s : SynchState T S L C)

@[simps] def setPc (t : T) (p : Pc T S L C) : SynchState T S L C :=
  { s with pc := Function.update s.pc t p }

@[simps] def setSema (x : SemaId T S L) (sema : Semaphore T) : SynchState T S L C :=
  { s with sema := Function.update s.sema x sema }

@[simps] def setHolder (l : L) (t : Option T) : SynchState T S L C :=
  { s with holder := Function.update s.holder l t }

@[simps] def setWaiters (c : C) (ts : List T) : SynchState T S L C :=
  { s with waiters := Function.update s.waiters c ts }

/-- `thread_unblock`.  Its assertion that the thread is blocked is part of the invariant. -/
def unblock : Option T → SynchState T S L C
  | none => s
  | some u =>
      match s.pc u with
      | .asleep g => s.setPc u (.woken g)
      | _ => s

/-- `sema_up` on `x`. -/
def up (x : SemaId T S L) : SynchState T S L C :=
  let r := sema_up (s.sema x)
  (s.setSema x r.1).unblock r.2

/-- A pass of the loop of `sema_down` by `t`. -/
def down (lockOf : C → L) (t : T) (g : Goal S L C) : SynchState T S L C :=
  let r := sema_down (s.sema (g.target t)) t
  (s.setSema (g.target t) r.1).setPc t (if r.2 then g.after lockOf else .asleep g)

/-- `cond_signal` up to its `sema_up`. -/
def signal (t : T) (c : C) (all : Bool) : SynchState T S L C :=
  match s.waiters c with
  | [] => s.setPc t .outside
  | u :: us => (s.setWaiters c us).setPc t (.signalling c u all)

end SynchState

/-- One step.  The guards are what the functions assert and what their callers must see to. -/
inductive SynchStep (lockOf : C → L) :
    SynchState T S L C → Act T S L → SynchState T S L C → Prop
  /-- A thread calls `sema_down`. -/
  | sema_down {s : SynchState T S L C} {t : T} (x : S) : s.pc t = .outside →
      SynchStep lockOf s .tau (s.setPc t (.test (.sema x)))
  /-- A thread in `sema_down` takes a unit. -/
  | take {s : SynchState T S L C} {t : T} {g : Goal S L C} :
      s.pc t = .test g ∨ s.pc t = .woken g → (s.sema (g.target t)).value ≠ 0 →
      SynchStep lockOf s (.down (g.target t) (some t)) (s.down lockOf t g)
  /-- A thread in `sema_down` finds no unit and blocks. -/
  | block {s : SynchState T S L C} {t : T} {g : Goal S L C} :
      s.pc t = .test g ∨ s.pc t = .woken g → (s.sema (g.target t)).value = 0 →
      SynchStep lockOf s .tau (s.down lockOf t g)
  /-- `sema_up` by a thread or an interrupt handler, with less than 2^32 units outstanding. -/
  | sema_up {s : SynchState T S L C} (x : S) : (s.sema (.sema x)).value + 1 < 2 ^ 32 →
      SynchStep lockOf s (.up (.sema x) none) (s.up (.sema x))
  /-- `sema_try_down` that succeeds, by a thread or an interrupt handler.  One that fails changes
  nothing. -/
  | sema_try_down {s : SynchState T S L C} (x : S) :
      (sema_try_down (s.sema (.sema x))).2 = true →
      SynchStep lockOf s (.down (.sema x) none)
        (s.setSema (.sema x) (sema_try_down (s.sema (.sema x))).1)
  | lock_acquire {s : SynchState T S L C} {t : T} (l : L) : s.pc t = .outside →
      s.holder l ≠ some t → SynchStep lockOf s .tau (s.setPc t (.test (.lock l)))
  /-- `lock_try_acquire` that succeeds. -/
  | lock_try_acquire {s : SynchState T S L C} {t : T} (l : L) : s.pc t = .outside →
      s.holder l ≠ some t → (sema_try_down (s.sema (.lock l))).2 = true →
      SynchStep lockOf s (.down (.lock l) (some t))
        ((s.setSema (.lock l) (sema_try_down (s.sema (.lock l))).1).setPc t (.got l))
  | set_holder {s : SynchState T S L C} {t : T} {l : L} : s.pc t = .got l →
      SynchStep lockOf s .tau ((s.setHolder l (some t)).setPc t .outside)
  | lock_release {s : SynchState T S L C} {t : T} (l : L) : s.pc t = .outside →
      s.holder l = some t →
      SynchStep lockOf s .tau ((s.setHolder l none).setPc t (.releasing l none))
  | release_up {s : SynchState T S L C} {t : T} {l : L} {c : Option C} :
      s.pc t = .releasing l c →
      SynchStep lockOf s (.up (.lock l) (some t))
        ((s.up (.lock l)).setPc t (c.elim .outside fun c => .test (.cond c)))
  /-- `cond_wait`: the waiter, which nobody else can reach before, goes on the list. -/
  | cond_wait {s : SynchState T S L C} {t : T} (c : C) : s.pc t = .outside →
      s.holder (lockOf c) = some t →
      SynchStep lockOf s (.init (.waiter t) 0)
        (((s.setSema (.waiter t) (sema_init 0)).setWaiters c (s.waiters c ++ [t])).setPc t
          (.published c))
  | wait_release {s : SynchState T S L C} {t : T} {c : C} : s.pc t = .published c →
      SynchStep lockOf s .tau
        ((s.setHolder (lockOf c) none).setPc t (.releasing (lockOf c) (some c)))
  | cond_signal {s : SynchState T S L C} {t : T} (c : C) : s.pc t = .outside →
      s.holder (lockOf c) = some t → SynchStep lockOf s .tau (s.signal t c false)
  | cond_broadcast {s : SynchState T S L C} {t : T} (c : C) : s.pc t = .outside →
      s.holder (lockOf c) = some t → SynchStep lockOf s .tau (s.setPc t (.broadcasting c))
  | broadcast_loop {s : SynchState T S L C} {t : T} {c : C} : s.pc t = .broadcasting c →
      SynchStep lockOf s .tau (s.signal t c true)
  | signal_up {s : SynchState T S L C} {t u : T} {c : C} {all : Bool} :
      s.pc t = .signalling c u all →
      SynchStep lockOf s (.up (.waiter u) (some t))
        ((s.up (.waiter u)).setPc t (if all then .broadcasting c else .outside))

/-- The runs of the threads `T` with semaphores that start with the values `v`. -/
def synchSystem (lockOf : C → L) (v : S → Nat) :
    System (SynchState T S L C) (Act T S L) where
  init s := (∀ x, s.sema (.sema x) = sema_init (v x)) ∧ (∀ l, s.sema (.lock l) = sema_init 1) ∧
    (∀ t, s.sema (.waiter t) = sema_init 0) ∧ (∀ l, s.holder l = none) ∧
    (∀ c, s.waiters c = []) ∧ ∀ t, s.pc t = .outside
  step := SynchStep lockOf

end Berk162
