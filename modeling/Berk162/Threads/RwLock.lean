import Berk162.Lib.Tally
import Berk162.Lib.Transition

/-!
# RwLock — the readers-writers lock of `threads/synch.c`

`rw_lock_acquire` and `rw_lock_release` do everything with the guard lock held and give it up only
inside `cond_wait`.  So a run of the lock is a sequence of sections: from the guard's acquisition
to its release, or from or to a `cond_wait`.  `RwSystem` takes one section as one step; the parties
may take their steps in any order.

A party makes matched calls, as a reader or as a writer.  It stands for one acquisition and its
release, so a thread that acquires the lock as a reader a second time is a second party.
-/

namespace Berk162

/-- Where a party is.  `reader` tells its role in the calls. -/
inductive Phase
  /-- The party holds nothing and is in no call. -/
  | out
  /-- In `rw_lock_acquire`, not yet past its acquisition of the guard. -/
  | acquire (reader : Bool)
  /-- In `cond_wait`, on the list of waiters. -/
  | asleep (reader : Bool)
  /-- In `cond_wait`, taken off the list but not yet back with the guard. -/
  | signalled (reader : Bool)
  /-- Past `rw_lock_acquire`. -/
  | active (reader : Bool)
  /-- In `rw_lock_release`, not yet past its acquisition of the guard. -/
  | release (reader : Bool)
  deriving DecidableEq, Repr

/-- `struct rw_lock`, without the guard. -/
structure RwLock (T : Type) where
  read : List T
  write : List T
  AR : Int
  WR : Int
  AW : Int
  WW : Int

/-- The lock and where its parties are. -/
structure RwState (T : Type) where
  lock : RwLock T
  phase : T → Phase

variable {T : Type}

namespace RwLock

/-- `rw_lock_init`. -/
def init : RwLock T := ⟨[], [], 0, 0, 0, 0⟩

/-! `rw_lock->AR++` and the like. -/

@[simps] def addAR (l : RwLock T) (k : Int) : RwLock T := { l with AR := l.AR + k }

@[simps] def addWR (l : RwLock T) (k : Int) : RwLock T := { l with WR := l.WR + k }

@[simps] def addAW (l : RwLock T) (k : Int) : RwLock T := { l with AW := l.AW + k }

@[simps] def addWW (l : RwLock T) (k : Int) : RwLock T := { l with WW := l.WW + k }

/-- The condition that parties of this role wait on. -/
def cond (l : RwLock T) (reader : Bool) : List T := if reader then l.read else l.write

def setCond (l : RwLock T) (reader : Bool) (ts : List T) : RwLock T :=
  if reader then { l with read := ts } else { l with write := ts }

variable (l : RwLock T) (reader : Bool) (ts : List T)

@[simp] theorem setCond_AR : (l.setCond reader ts).AR = l.AR := by cases reader <;> rfl

@[simp] theorem setCond_WR : (l.setCond reader ts).WR = l.WR := by cases reader <;> rfl

@[simp] theorem setCond_AW : (l.setCond reader ts).AW = l.AW := by cases reader <;> rfl

@[simp] theorem setCond_WW : (l.setCond reader ts).WW = l.WW := by cases reader <;> rfl

@[simp] theorem cond_setCond_self : (l.setCond reader ts).cond reader = ts := by
  cases reader <;> rfl

theorem cond_setCond_of_ne {r : Bool} (h : r ≠ reader) :
    (l.setCond reader ts).cond r = l.cond r := by
  cases r <;> cases reader <;> first | rfl | exact absurd rfl h

end RwLock

namespace RwState

def setLock (s : RwState T) (l : RwLock T) : RwState T := { s with lock := l }

def setPhase [DecidableEq T] (s : RwState T) (t : T) (p : Phase) : RwState T :=
  { s with phase := Function.update s.phase t p }

@[simp] theorem setLock_lock (s : RwState T) (l : RwLock T) : (s.setLock l).lock = l := rfl

@[simp] theorem setLock_phase (s : RwState T) (l : RwLock T) : (s.setLock l).phase = s.phase := rfl

variable [DecidableEq T]

@[simp] theorem setPhase_lock (s : RwState T) (t : T) (p : Phase) :
    (s.setPhase t p).lock = s.lock := rfl

@[simp] theorem setPhase_self (s : RwState T) (t : T) (p : Phase) :
    (s.setPhase t p).phase t = p := by
  simp [setPhase]

theorem setPhase_of_ne (s : RwState T) {t u : T} (p : Phase) (h : u ≠ t) :
    (s.setPhase t p).phase u = s.phase u := by
  simp [setPhase, h]

end RwState

variable [DecidableEq T]

/-! ## Condition variables -/

/-- `cond_wait` by `t`, up to where it sleeps. -/
def cond_wait (s : RwState T) (reader : Bool) (t : T) : RwState T :=
  (s.setLock (s.lock.setCond reader (s.lock.cond reader ++ [t]))).setPhase t (.asleep reader)

/-- `cond_signal`. -/
def cond_signal (s : RwState T) (reader : Bool) : RwState T :=
  match s.lock.cond reader with
  | [] => s
  | t :: ts => (s.setLock (s.lock.setCond reader ts)).setPhase t (.signalled reader)

/-- The loop of `cond_broadcast`; the list counts the waiters it has yet to signal. -/
def broadcast_loop (reader : Bool) : List T → RwState T → RwState T
  | [], s => s
  | _ :: ts, s => broadcast_loop reader ts (cond_signal s reader)

/-- `cond_broadcast`. -/
def cond_broadcast (s : RwState T) (reader : Bool) : RwState T :=
  broadcast_loop reader (s.lock.cond reader) s

/-! ## The sections -/

/-- The `while` test of `rw_lock_acquire` and what follows it: into `cond_wait`, or past the loop
to the end of the function. -/
def acquire_test (s : RwState T) (t : T) (reader : Bool) : RwState T :=
  if reader then
    if s.lock.AW + s.lock.WW > 0 then
      cond_wait (s.setLock (s.lock.addWR 1)) true t
    else
      (s.setLock (s.lock.addAR 1)).setPhase t (.active true)
  else
    if s.lock.AR + s.lock.AW > 0 then
      cond_wait (s.setLock (s.lock.addWW 1)) false t
    else
      (s.setLock (s.lock.addAW 1)).setPhase t (.active false)

/-- `rw_lock_acquire` after `cond_wait` has returned. -/
def acquire_resume (s : RwState T) (t : T) (reader : Bool) : RwState T :=
  if reader then acquire_test (s.setLock (s.lock.addWR (-1))) t true
  else acquire_test (s.setLock (s.lock.addWW (-1))) t false

/-- `rw_lock_release`, under the guard. -/
def release_section (s : RwState T) (reader : Bool) : RwState T :=
  if reader then
    let s := s.setLock (s.lock.addAR (-1))
    if s.lock.AR = 0 ∧ s.lock.WW > 0 then cond_signal s false else s
  else
    let s := s.setLock (s.lock.addAW (-1))
    if s.lock.WW > 0 then cond_signal s false
    else if s.lock.WR > 0 then cond_broadcast s true
    else s

/-! ## Runs -/

inductive RwEvent
  | call_acquire (reader : Bool)
  | acquire
  | resume
  | call_release
  | release

inductive RwStep : RwState T → T × RwEvent → RwState T → Prop
  | call_acquire {s : RwState T} {t : T} {reader : Bool} :
      s.phase t = .out → RwStep s (t, .call_acquire reader) (s.setPhase t (.acquire reader))
  | acquire {s : RwState T} {t : T} {reader : Bool} :
      s.phase t = .acquire reader → RwStep s (t, .acquire) (acquire_test s t reader)
  | resume {s : RwState T} {t : T} {reader : Bool} :
      s.phase t = .signalled reader → RwStep s (t, .resume) (acquire_resume s t reader)
  | call_release {s : RwState T} {t : T} {reader : Bool} :
      s.phase t = .active reader → RwStep s (t, .call_release) (s.setPhase t (.release reader))
  | release {s : RwState T} {t : T} {reader : Bool} :
      s.phase t = .release reader →
      RwStep s (t, .release) ((release_section s reader).setPhase t .out)

/-- The runs of one readers-writers lock used by the parties `T`. -/
def rwSystem (T : Type) [DecidableEq T] : System (RwState T) (T × RwEvent) where
  init s := s.lock = RwLock.init ∧ ∀ t, s.phase t = .out
  step := RwStep

end Berk162
