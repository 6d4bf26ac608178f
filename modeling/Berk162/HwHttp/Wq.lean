import Berk162.Lib.Transition
import Mathlib.Tactic

/-!
# Wq — the work queue of `hw-http/wq.c`

The functions hold the mutex from their first to their last statement and give it up only inside
`pthread_cond_wait`.  So a run of the queue is a sequence of sections: from where a thread gets the
mutex to where it gives it up.  `wqSystem` takes one section as one step; the threads may take
their steps in any order, and one that sleeps may wake up for no reason.

The list is that of `utlist.h`: `DL_APPEND` puts an item at its end and `DL_DELETE` takes the first
one off.  Allocation succeeds.
-/

namespace Berk162

/-- `wq_t`, less the mutex and the condition variable.  An item of the list is the socket in it.
`size` is an `int` in the source: `WqGood.int` says when it is one here. -/
structure Wq where
  size : Int
  head : List Int
  deriving DecidableEq, Repr

/-- Where a thread is. -/
inductive WqPlace
  /-- In neither of the functions, or at the start of one. -/
  | out
  /-- In `wq_pop`, asleep in `pthread_cond_wait`. -/
  | asleep
  /-- In `wq_pop`, awake but without the mutex yet. -/
  | woken
  deriving DecidableEq, Repr

/-- The queue and where the threads are. -/
structure WqState (T : Type) where
  wq : Wq
  place : T → WqPlace

/-- What a step did. -/
inductive WqLabel (T : Type)
  /-- A call of `wq_push`. -/
  | push (t : T) (client_socket_fd : Int)
  /-- The end of a call of `wq_pop`. -/
  | pop (t : T) (client_socket_fd : Int)
  /-- `t` goes to sleep in `wq_pop`. -/
  | sleep (t : T)
  /-- `t` wakes up for no reason. -/
  | wake (t : T)
  /-- `t` uses the null pointer that is the head of an empty list. -/
  | crash (t : T)

/-- `wq_init`. -/
def wq_init {T : Type} : WqState T := ⟨⟨0, []⟩, fun _ => .out⟩

namespace WqState

variable {T : Type}

def setWq (s : WqState T) (wq : Wq) : WqState T := { s with wq := wq }

/-- `pthread_cond_broadcast`. -/
def broadcast (s : WqState T) : WqState T :=
  { s with place := fun t => if s.place t = .asleep then .woken else s.place t }

/-- A broadcast leaves nobody asleep. -/
theorem broadcast_place (s : WqState T) (t : T) : s.broadcast.place t ≠ .asleep := by
  by_cases h : s.place t = .asleep <;> simp [broadcast, h]

/-- `wq_push`. -/
def wq_push (s : WqState T) (client_socket_fd : Int) : WqState T :=
  (s.setWq ⟨s.wq.size + 1, s.wq.head ++ [client_socket_fd]⟩).broadcast

variable [DecidableEq T]

def setPlace (s : WqState T) (t : T) (p : WqPlace) : WqState T :=
  { s with place := Function.update s.place t p }

/-- `wq_pop` with the mutex held, from the test of its loop on: the thread falls asleep, or takes
the socket at the head.  `none` is the use of a null `wq->head`. -/
def wq_pop (s : WqState T) (t : T) : Option (WqState T × Option Int) :=
  if s.wq.size = 0 then some (s.setPlace t .asleep, none)
  else
    match s.wq.head with
    | [] => none
    | client_socket_fd :: rest =>
        some ((s.setWq ⟨s.wq.size - 1, rest⟩).setPlace t .out, some client_socket_fd)

end WqState

variable {T : Type} [DecidableEq T]

/-- One step.  A thread that calls `wq_pop`, or wakes up in it, tests `size` with the mutex held. -/
inductive WqStep : Option (WqState T) → WqLabel T → Option (WqState T) → Prop
  | push {s : WqState T} {t : T} (fd : Int) : s.place t = .out →
      WqStep (some s) (.push t fd) (some (s.wq_push fd))
  | pop {s s' : WqState T} {t : T} {fd : Int} : s.place t ≠ .asleep →
      s.wq_pop t = some (s', some fd) → WqStep (some s) (.pop t fd) (some s')
  | sleep {s s' : WqState T} {t : T} : s.place t ≠ .asleep →
      s.wq_pop t = some (s', none) → WqStep (some s) (.sleep t) (some s')
  | crash {s : WqState T} {t : T} : s.place t ≠ .asleep →
      s.wq_pop t = none → WqStep (some s) (.crash t) none
  | wake {s : WqState T} {t : T} : s.place t = .asleep →
      WqStep (some s) (.wake t) (some (s.setPlace t .woken))

/-- The runs of a queue that the threads `T` share. -/
def wqSystem (T : Type) [DecidableEq T] : System (Option (WqState T)) (WqLabel T) where
  init o := o = some wq_init
  step := WqStep

/-! ## The history -/

/-- The socket that a step pushed. -/
def WqLabel.pushed : WqLabel T → Option Int
  | .push _ fd => some fd
  | _ => none

/-- The socket that a step popped. -/
def WqLabel.popped : WqLabel T → Option Int
  | .pop _ fd => some fd
  | _ => none

/-- The sockets pushed in a run, in the order of the pushes. -/
def pushes (ls : List (WqLabel T)) : List Int := ls.filterMap WqLabel.pushed

/-- The sockets popped in a run, in the order of the pops. -/
def pops (ls : List (WqLabel T)) : List Int := ls.filterMap WqLabel.popped

omit [DecidableEq T] in
theorem pushes_snoc (ls : List (WqLabel T)) (l : WqLabel T) :
    pushes (ls ++ [l]) = pushes ls ++ l.pushed.toList := by
  rw [pushes, pushes, List.filterMap_append]
  cases h : l.pushed <;> simp [h]

omit [DecidableEq T] in
theorem pops_snoc (ls : List (WqLabel T)) (l : WqLabel T) :
    pops (ls ++ [l]) = pops ls ++ l.popped.toList := by
  rw [pops, pops, List.filterMap_append]
  cases h : l.popped <;> simp [h]

/-! ## The invariant -/

/-- `size` is exact, and nobody sleeps while there is a socket to take. -/
structure WqInv (s : WqState T) : Prop where
  size : s.wq.size = s.wq.head.length
  asleep : ∀ t, s.place t = .asleep → s.wq.head = []

namespace WqInv

variable {s : WqState T} {t : T}

omit [DecidableEq T] in
theorem init : WqInv (wq_init : WqState T) := ⟨rfl, fun _ _ => rfl⟩

omit [DecidableEq T] in
theorem size_eq_zero_iff (h : WqInv s) : s.wq.size = 0 ↔ s.wq.head = [] := by
  rw [h.size, Int.natCast_eq_zero, List.length_eq_zero_iff]

omit [DecidableEq T] in
/-- A push wakes everybody up. -/
theorem wq_push (h : WqInv s) (fd : Int) : WqInv (s.wq_push fd) where
  size := by
    have hsize := h.size
    simp only [WqState.wq_push, WqState.broadcast, WqState.setWq, List.length_append,
      List.length_singleton]
    omega
  asleep u hu := absurd hu ((s.setWq _).broadcast_place u)

/-- A thread that wakes up for no reason tests `size` again, so its place is all that changes. -/
theorem wake (h : WqInv s) (t : T) : WqInv (s.setPlace t .woken) where
  size := h.size
  asleep u hu := by
    by_cases hut : u = t
    · subst hut
      simp [WqState.setPlace] at hu
    · exact h.asleep u (by simpa [WqState.setPlace, hut] using hu)

/-- On an empty queue `wq_pop` falls asleep. -/
theorem wq_pop_empty (h : WqInv s) (hempty : s.wq.head = []) (t : T) :
    s.wq_pop t = some (s.setPlace t .asleep, none) ∧ WqInv (s.setPlace t .asleep) := by
  refine ⟨?_, h.size, fun _ _ => hempty⟩
  rw [WqState.wq_pop, if_pos (h.size_eq_zero_iff.2 hempty)]

/-- On a queue that is not empty `wq_pop` takes the socket at the head. -/
theorem wq_pop_head (h : WqInv s) {fd : Int} {rest : List Int} (hhead : s.wq.head = fd :: rest)
    (t : T) :
    s.wq_pop t = some ((s.setWq ⟨s.wq.size - 1, rest⟩).setPlace t .out, some fd) ∧
      WqInv ((s.setWq ⟨s.wq.size - 1, rest⟩).setPlace t .out) := by
  have hne : ¬ s.wq.size = 0 := by
    rw [h.size_eq_zero_iff, hhead]
    exact List.cons_ne_nil fd rest
  refine ⟨?_, ?_, fun u hu => ?_⟩
  · rw [WqState.wq_pop, if_neg hne, hhead]
  · have hsize := h.size
    rw [hhead, List.length_cons] at hsize
    simp only [WqState.setPlace, WqState.setWq]
    omega
  · -- nobody slept, since there was a socket
    by_cases hut : u = t
    · subst hut
      simp [WqState.setPlace] at hu
    · have hasleep : s.place u = .asleep := by
        simpa [WqState.setPlace, WqState.setWq, hut] using hu
      have hnil := h.asleep u hasleep
      rw [hhead] at hnil
      cases hnil

end WqInv

/-! ## Runs -/

/-- The queue after the steps `ls`: what was pushed has been popped, in the order of the pushes, or
is still queued; `size` is the number of queued sockets; and while there is one, every thread in
`wq_pop` is awake, and whoever gets the mutex next takes it.  As long as fewer than 2^31 sockets are
queued, no `size++` or `size--` leaves the range of an `int`. -/
structure WqGood (ls : List (WqLabel T)) (s : WqState T) : Prop where
  fifo : pops ls ++ s.wq.head = pushes ls
  size : s.wq.size = s.wq.head.length
  int : s.wq.head.length < 2 ^ 31 → 0 ≤ s.wq.size ∧ s.wq.size < 2 ^ 31
  awake : s.wq.head ≠ [] → ∀ t, s.place t ≠ .asleep
  takes : ∀ fd rest, s.wq.head = fd :: rest → ∀ t, ∃ s', s.wq_pop t = some (s', some fd) ∧
    s'.wq.head = rest

theorem WqInv.good {ls : List (WqLabel T)} {s : WqState T} (h : WqInv s)
    (hfifo : pops ls ++ s.wq.head = pushes ls) : WqGood ls s where
  fifo := hfifo
  size := h.size
  int hfew := by
    rw [h.size]
    exact ⟨Int.natCast_nonneg _, by exact_mod_cast hfew⟩
  awake hne t ht := hne (h.asleep t ht)
  takes _ _ hhead t := ⟨_, (h.wq_pop_head hhead t).1, rfl⟩

/-- A step keeps the invariant, and what was pushed in it is at the end of the queue and what was
popped was at its head. -/
theorem WqInv.step {s : WqState T} {l : WqLabel T} {o : Option (WqState T)} (h : WqInv s)
    (hstep : WqStep (some s) l o) :
    ∃ s', o = some s' ∧ WqInv s' ∧ l.popped.toList ++ s'.wq.head = s.wq.head ++ l.pushed.toList := by
  cases hstep with
  | push fd _ =>
      exact ⟨_, rfl, h.wq_push fd, rfl⟩
  | wake _ =>
      exact ⟨_, rfl, h.wake _, (List.append_nil _).symm⟩
  | @pop _ s' t fd _ hpop =>
      cases hhead : s.wq.head with
      | nil =>
          rw [(h.wq_pop_empty hhead t).1] at hpop
          cases hpop
      | cons fd' rest =>
          rcases h.wq_pop_head hhead t with ⟨htake, hinv⟩
          rw [htake] at hpop
          cases hpop
          exact ⟨_, rfl, hinv, (List.append_nil _).symm⟩
  | @sleep _ s' t _ hpop =>
      cases hhead : s.wq.head with
      | nil =>
          rcases h.wq_pop_empty hhead t with ⟨hsleep, hinv⟩
          rw [hsleep] at hpop
          cases hpop
          exact ⟨_, rfl, hinv, hhead⟩
      | cons fd' rest =>
          rw [(h.wq_pop_head hhead t).1] at hpop
          cases hpop
  | @crash _ t _ hpop =>
      cases hhead : s.wq.head with
      | nil =>
          rw [(h.wq_pop_empty hhead t).1] at hpop
          cases hpop
      | cons fd' rest =>
          rw [(h.wq_pop_head hhead t).1] at hpop
          cases hpop

/-- In every run the queue hands each socket on once and in order, no thread uses a null head, and
no thread sleeps while a socket is queued. -/
theorem wq_runs_good {ls : List (WqLabel T)} {o : Option (WqState T)}
    (hrun : (wqSystem T).Exec (some wq_init) ls o) : ∃ s, o = some s ∧ WqGood ls s := by
  suffices hinv : ∃ s, o = some s ∧ WqInv s ∧ pops ls ++ s.wq.head = pushes ls by
    rcases hinv with ⟨s, hs, hinv, hfifo⟩
    exact ⟨s, hs, hinv.good hfifo⟩
  induction hrun with
  | nil =>
      exact ⟨_, rfl, WqInv.init, rfl⟩
  | @snoc _ u ls l _ hstep ih =>
      rcases ih with ⟨s, rfl, hinv, hfifo⟩
      rcases hinv.step hstep with ⟨s', rfl, hinv', hmoved⟩
      refine ⟨s', rfl, hinv', ?_⟩
      calc
        pops (ls ++ [l]) ++ s'.wq.head = pops ls ++ (l.popped.toList ++ s'.wq.head) := by
          rw [pops_snoc, List.append_assoc]
        _ = pops ls ++ s.wq.head ++ l.pushed.toList := by
          rw [hmoved, List.append_assoc]
        _ = pushes (ls ++ [l]) := by
          rw [hfifo, pushes_snoc]

/-- Two poppers sleep, one socket comes: the first to get the mutex takes it. -/
theorem wq_runs_good_two : ∃ s : WqState (Fin 3), s.wq.head = [] ∧
    WqGood [.sleep 0, .sleep 1, .push 2 7, .pop 1 7, .sleep 0] s := by
  have h0 := System.Exec.nil (M := wqSystem (Fin 3)) (some wq_init)
  have h1 := h0.snoc (l := WqLabel.sleep (0 : Fin 3)) (WqStep.sleep (by decide) rfl)
  have h2 := h1.snoc (l := WqLabel.sleep (1 : Fin 3)) (WqStep.sleep (by decide) rfl)
  have h3 := h2.snoc (l := WqLabel.push (2 : Fin 3) 7) (WqStep.push 7 (by decide))
  have h4 := h3.snoc (l := WqLabel.pop (1 : Fin 3) 7) (WqStep.pop (by decide) rfl)
  have h5 := h4.snoc (l := WqLabel.sleep (0 : Fin 3)) (WqStep.sleep (by decide) rfl)
  rcases wq_runs_good h5 with ⟨s, hs, hgood⟩
  cases hs
  exact ⟨_, rfl, hgood⟩

end Berk162
