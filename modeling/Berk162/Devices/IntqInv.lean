import Berk162.Devices.Intq

/-!
# IntqInv — an interrupt queue whose threads wait on one side

`Places` is what holds between two sections: the registered threads are those blocked in `wait`,
the thread inside `wait` is the one that holds the lock, and the lock's semaphore has the threads
blocked there.

A queue between threads and interrupt handlers has its threads on one side: they call `intq_getc`,
or they call `intq_putc`.  `Monitor w` adds to `Places` that only members and places of the side `w`
are in use, and that the registered thread is blocked for a condition that is not met.
-/

namespace Berk162

/-- The side of the queue on which the thread is. -/
def Place.side : Place → Option Waiter
  | .out => none
  | .locking w => some w
  | .lock_woken w => some w
  | .waiting w => some w
  | .wait_woken w => some w

/-- The thread is inside `wait`, or about to return from it. -/
def Place.inWait : Place → Bool
  | .waiting _ => true
  | .wait_woken _ => true
  | _ => false

variable {T : Type}

structure Monitor (w : Waiter) (s : IntqState T) : Prop where
  other : s.q.waiter w.other = none
  side : ∀ t w', (s.place t).side = some w' → w' = w
  registered : ∀ t, s.q.waiter w = some t ↔ s.place t = .waiting w
  unmet : ∀ t, s.q.waiter w = some t → s.q.met w = false
  inside : ∀ t, (s.place t).inWait = true ↔ s.q.lock.holder = some t
  unit : s.q.lock.semaphore.value = if s.q.lock.holder = none then 1 else 0
  queued : ∀ t, t ∈ s.q.lock.semaphore.waiters ↔ s.place t = .locking w
  nodup : s.q.lock.semaphore.waiters.Nodup

/-! ## What the updates leave alone -/

section

variable (q : Intq T) (t : Option T) (w w' : Waiter) (l : Lock T)
variable (r : RingBuffer UInt8 INTQ_BUFSIZE)

@[simp] theorem Waiter.other_ne : w.other ≠ w := by cases w <;> decide

@[simp] theorem Waiter.other_other : w.other.other = w := by cases w <;> rfl

variable {w w'} in
theorem Waiter.eq_other (h : w' ≠ w) : w' = w.other := by
  cases w <;> cases w' <;> first | rfl | exact absurd rfl h

namespace Intq

@[simp] theorem setWaiter_waiter : (q.setWaiter t w).waiter w = t := by cases w <;> rfl

@[simp] theorem setWaiter_other : (q.setWaiter t w).waiter w.other = q.waiter w.other := by
  cases w <;> rfl

@[simp] theorem setWaiter_ring : (q.setWaiter t w).toRingBuffer = q.toRingBuffer := by
  cases w <;> rfl

@[simp] theorem setWaiter_lock : (q.setWaiter t w).lock = q.lock := by cases w <;> rfl

@[simp] theorem setWaiter_met : (q.setWaiter t w).met w' = q.met w' := by
  cases w <;> cases w' <;> rfl

@[simp] theorem setLock_waiter : (q.setLock l).waiter w = q.waiter w := by cases w <;> rfl

@[simp] theorem setLock_met : (q.setLock l).met w = q.met w := by cases w <;> rfl

@[simp] theorem setLock_lock : (q.setLock l).lock = l := rfl

@[simp] theorem setLock_ring : (q.setLock l).toRingBuffer = q.toRingBuffer := rfl

@[simp] theorem setRing_waiter : (q.setRing r).waiter w = q.waiter w := by cases w <;> rfl

@[simp] theorem setRing_lock : (q.setRing r).lock = q.lock := rfl

@[simp] theorem setRing_ring : (q.setRing r).toRingBuffer = r := rfl

/-- Whether a condition is met depends on the ring alone. -/
theorem met_congr {q q' : Intq T} (h : q.toRingBuffer = q'.toRingBuffer) (w : Waiter) :
    q.met w = q'.met w := by
  cases w <;> simp [met, h]

end Intq

namespace IntqState

variable (s : IntqState T) (u : T) (p : Place)

@[simp] theorem setQ_q : (s.setQ q).q = q := rfl

@[simp] theorem setQ_place : (s.setQ q).place = s.place := rfl

variable [DecidableEq T]

@[simp] theorem setPlace_q : (s.setPlace u p).q = s.q := rfl

@[simp] theorem setPlace_place : (s.setPlace u p).place = Function.update s.place u p := rfl

end IntqState

end

/-! ## The threads and the lock -/

structure Places (s : IntqState T) : Prop where
  registered : ∀ t w, s.q.waiter w = some t ↔ s.place t = .waiting w
  inside : ∀ t, (s.place t).inWait = true ↔ s.q.lock.holder = some t
  unit : s.q.lock.semaphore.value = if s.q.lock.holder = none then 1 else 0
  queued : ∀ t, t ∈ s.q.lock.semaphore.waiters ↔ ∃ w, s.place t = .locking w
  nodup : s.q.lock.semaphore.waiters.Nodup

variable {w : Waiter} {s : IntqState T} {t : T}

namespace Places

theorem not_holder (h : Places s) (ht : s.place t = .out) : s.q.lock.holder ≠ some t := by
  intro hholder
  have hin := (h.inside t).2 hholder
  rw [ht] at hin
  cases hin

/-- The lock's semaphore is a flag. -/
theorem unit_cases (h : Places s) :
    (s.q.lock.semaphore.value = 1 ∧ s.q.lock.holder = none) ∨
      (s.q.lock.semaphore.value = 0 ∧ ∃ t, s.q.lock.holder = some t) := by
  have hunit := h.unit
  cases hholder : s.q.lock.holder with
  | none =>
      rw [hholder, if_pos rfl] at hunit
      exact Or.inl ⟨hunit, rfl⟩
  | some t =>
      rw [hholder, if_neg (by simp)] at hunit
      exact Or.inr ⟨hunit, t, rfl⟩

theorem setRing (h : Places s) (r : RingBuffer UInt8 INTQ_BUFSIZE) :
    Places (s.setQ (s.q.setRing r)) where
  registered := by simpa using h.registered
  inside := h.inside
  unit := h.unit
  queued := h.queued
  nodup := h.nodup

end Places

/-- The threads are on one side. -/
theorem Monitor.places (h : Monitor w s) : Places s where
  registered t w' := by
    by_cases hw : w' = w
    · subst hw
      exact h.registered t
    · have hother : w' = w.other := Waiter.eq_other hw
      have hnone : s.q.waiter w' = none := by rw [hother, h.other]
      refine iff_of_false ?_ fun ht => hw (h.side t w' (by rw [ht]; rfl))
      rw [hnone]
      simp
  inside := h.inside
  unit := h.unit
  queued t := by
    rw [h.queued]
    refine ⟨fun ht => ⟨w, ht⟩, ?_⟩
    rintro ⟨w', ht⟩
    obtain rfl := h.side t w' (by rw [ht]; rfl)
    exact ht
  nodup := h.nodup

theorem Places.monitor (h : Places s) (hside : ∀ t w', (s.place t).side = some w' → w' = w)
    (hunmet : ∀ t, s.q.waiter w = some t → s.q.met w = false) : Monitor w s where
  other := by
    cases hw : s.q.waiter w.other with
    | none =>
        rfl
    | some t =>
        have ht := (h.registered t _).1 hw
        exact absurd (hside t _ (by rw [ht]; rfl)) (Waiter.other_ne w)
  side := hside
  registered t := h.registered t w
  unmet := hunmet
  inside := h.inside
  unit := h.unit
  queued t := by
    rw [h.queued]
    refine ⟨?_, fun ht => ⟨w, ht⟩⟩
    rintro ⟨w', ht⟩
    obtain rfl := hside t w' (by rw [ht]; rfl)
    exact ht
  nodup := h.nodup

theorem Monitor.setRing (h : Monitor w s) {r : RingBuffer UInt8 INTQ_BUFSIZE}
    (hr : ∀ t, s.q.waiter w = some t → (s.q.setRing r).met w = false) :
    Monitor w (s.setQ (s.q.setRing r)) :=
  (h.places.setRing r).monitor h.side fun t ht => hr t (by simpa using ht)

variable [DecidableEq T]

namespace IntqState

/-- `t` has the lock, waits in `w` and has left `v` units on the semaphore. -/
def enter (s : IntqState T) (w : Waiter) (t : T) : IntqState T :=
  (s.setQ ((s.q.setLock ⟨some t, ⟨0, s.q.lock.semaphore.waiters⟩⟩).setWaiter (some t) w)).setPlace t
    (.waiting w)

/-- `t` is at the end of the list of those who wait for the lock. -/
def queue (s : IntqState T) (w : Waiter) (t : T) : IntqState T :=
  (s.setQ (s.q.setLock ⟨s.q.lock.holder, ⟨0, s.q.lock.semaphore.waiters ++ [t]⟩⟩)).setPlace t
    (.locking w)

theorem lock_wait_queue (h : s.q.lock.semaphore.value = 0) :
    s.lock_wait w t = some (s.queue w t) := by
  rw [lock_wait, sema_down_zero t h]
  rfl

theorem lock_wait_enter (h : s.q.lock.semaphore.value = 1) :
    s.lock_wait w t = if s.q.met w then none else some (s.enter w t) := by
  rw [lock_wait, sema_down_succ t h]
  simp only [wait, setQ_q, Intq.setLock_met]
  rfl

/-- The places of the threads other than the one that moves. -/
theorem side_of_ne {s' : IntqState T} {u : T} {p : Place} (hut : u ≠ t)
    (hplace : s'.place = Function.update s.place t p) : (s'.place u).side = (s.place u).side := by
  rw [hplace, Function.update_of_ne hut]

end IntqState

namespace Places

theorem queue (h : Places s) (ht : s.place t = .out) (hv : s.q.lock.semaphore.value = 0) (w : Waiter) :
    Places (s.queue w t) where
  registered u w' := by
    by_cases hut : u = t
    · subst hut
      simp [IntqState.queue, h.registered, ht]
    · simp [IntqState.queue, hut, h.registered]
  inside u := by
    by_cases hut : u = t
    · subst hut
      simp [IntqState.queue, Place.inWait, h.not_holder ht]
    · simp [IntqState.queue, hut, h.inside]
  unit := by
    calc
      (s.queue w t).q.lock.semaphore.value = s.q.lock.semaphore.value := hv.symm
      _ = _ := h.unit
  queued u := by
    by_cases hut : u = t
    · subst hut
      simp [IntqState.queue]
    · simp [IntqState.queue, hut, h.queued]
  nodup := by
    have hnot : t ∉ s.q.lock.semaphore.waiters := by
      rw [h.queued, ht]
      simp
    simpa [IntqState.queue, List.nodup_append, h.nodup] using fun a ha => ne_of_mem_of_not_mem ha hnot

theorem enter (h : Places s) (ht : s.place t = .out) (hv : s.q.lock.semaphore.value = 1)
    (w : Waiter) : Places (s.enter w t) := by
  have hfree : s.q.lock.holder = none := by
    rcases h.unit_cases with ⟨_, hfree⟩ | ⟨hzero, _⟩
    · exact hfree
    · omega
  -- the lock is free, so nobody is inside `wait`
  have hout : ∀ u, (s.place u).inWait = false := by
    intro u
    rw [← Bool.not_eq_true, h.inside, hfree]
    simp
  have hnotwaiting : ∀ u w', s.place u ≠ .waiting w' := by
    intro u w' hu
    have hin := hout u
    rw [hu] at hin
    cases hin
  have hnone : ∀ w', s.q.waiter w' = none := by
    intro w'
    refine Option.eq_none_iff_forall_not_mem.2 fun u hu => ?_
    exact hnotwaiting u w' ((h.registered u w').1 hu)
  constructor
  · intro u w'
    by_cases hw : w' = w
    · subst hw
      by_cases hut : u = t
      · subst hut
        simp [IntqState.enter]
      · simp [IntqState.enter, hut, hnotwaiting, Ne.symm hut]
    · have hother : w' = w.other := Waiter.eq_other hw
      subst hother
      by_cases hut : u = t
      · subst hut
        simpa [IntqState.enter, hnone] using fun heq : w = w.other => hw heq.symm
      · simp [IntqState.enter, hut, hnotwaiting, hnone]
  · intro u
    by_cases hut : u = t
    · subst hut
      simp [IntqState.enter, Place.inWait]
    · simp [IntqState.enter, hut, hout, Ne.symm hut]
  · simp [IntqState.enter]
  · intro u
    by_cases hut : u = t
    · subst hut
      simp [IntqState.enter, h.queued, ht]
    · simp [IntqState.enter, hut, h.queued]
  · simpa [IntqState.enter] using h.nodup

/-- A thread unblocked on the lock is nowhere on record. -/
theorem out_of_lock_woken (h : Places s) (ht : s.place t = .lock_woken w) :
    Places (s.setPlace t .out) where
  registered u w' := by
    by_cases hut : u = t
    · subst hut
      simp [h.registered, ht]
    · simp [hut, h.registered]
  inside u := by
    by_cases hut : u = t
    · subst hut
      simp [← h.inside, ht, Place.inWait]
    · simp [hut, h.inside]
  unit := h.unit
  queued u := by
    by_cases hut : u = t
    · subst hut
      simp [h.queued, ht]
    · simp [hut, h.queued]
  nodup := h.nodup

/-- Unblocking the registered thread takes it off the record. -/
theorem unblock (h : Places s) (ht : s.q.waiter w = some t) :
    Places ((s.setPlace t (.wait_woken w)).setQ (s.q.setWaiter none w)) where
  registered u w' := by
    have hwaiting := (h.registered t w).1 ht
    by_cases hw : w' = w
    · subst hw
      by_cases hut : u = t
      · subst hut
        simp
      · have hu : s.place u ≠ .waiting w' := by
          intro hu
          have heq := (h.registered u w').2 hu
          rw [ht] at heq
          exact hut (Option.some.inj heq).symm
        simp [hut, hu]
    · have hother : w' = w.other := Waiter.eq_other hw
      subst hother
      by_cases hut : u = t
      · subst hut
        simp [h.registered, hwaiting, Ne.symm hw]
      · simp [hut, h.registered]
  inside u := by
    by_cases hut : u = t
    · subst hut
      simp [← h.inside, (h.registered u w).1 ht, Place.inWait]
    · simp [hut, h.inside]
  unit := by simpa using h.unit
  queued u := by
    by_cases hut : u = t
    · subst hut
      simp [h.queued, (h.registered u w).1 ht]
    · simp [hut, h.queued]
  nodup := by simpa using h.nodup

/-- The head of the list of those who wait for the lock is unblocked. -/
theorem pop (h : Places s) {us : List T} (hus : s.q.lock.semaphore.waiters = t :: us)
    (ht : s.place t = .locking w) :
    Places ((s.setQ (s.q.setLock ⟨s.q.lock.holder, ⟨s.q.lock.semaphore.value, us⟩⟩)).setPlace t
      (.lock_woken w)) := by
  have hnodup := h.nodup
  rw [hus, List.nodup_cons] at hnodup
  constructor
  · intro u w'
    by_cases hut : u = t
    · subst hut
      simp [h.registered, ht]
    · simp [hut, h.registered]
  · intro u
    by_cases hut : u = t
    · subst hut
      simp [← h.inside, ht, Place.inWait]
    · simp [hut, h.inside]
  · exact h.unit
  · intro u
    by_cases hut : u = t
    · subst hut
      simpa using hnodup.1
    · have hu := h.queued u
      rw [hus] at hu
      simpa [hut] using hu
  · exact hnodup.2

/-- The thread that returns from `wait` gives the lock up. -/
theorem leave (h : Places s) (ht : s.place t = .wait_woken w) :
    Places ((s.setPlace t .out).setQ
      (s.q.setLock ⟨none, ⟨1, s.q.lock.semaphore.waiters⟩⟩)) := by
  have hholder : s.q.lock.holder = some t := by
    rw [← h.inside, ht]
    rfl
  constructor
  · intro u w'
    by_cases hut : u = t
    · subst hut
      simp [h.registered, ht]
    · simp [hut, h.registered]
  · intro u
    by_cases hut : u = t
    · subst hut
      simp [Place.inWait]
    · -- only the holder was inside
      have hu : ¬ (s.place u).inWait = true := by
        rw [h.inside, hholder]
        exact fun heq => hut (Option.some.inj heq).symm
      simpa [hut] using hu
  · rfl
  · intro u
    by_cases hut : u = t
    · subst hut
      simp [h.queued, ht]
    · simp [hut, h.queued]
  · exact h.nodup

end Places

/-! ## One side -/

namespace Monitor

omit [DecidableEq T] in
theorem not_holder (h : Monitor w s) (ht : s.place t = .out) : s.q.lock.holder ≠ some t :=
  h.places.not_holder ht

omit [DecidableEq T] in
/-- The lock's semaphore is a flag. -/
theorem unit_cases (h : Monitor w s) :
    (s.q.lock.semaphore.value = 1 ∧ s.q.lock.holder = none) ∨
      (s.q.lock.semaphore.value = 0 ∧ ∃ t, s.q.lock.holder = some t) :=
  h.places.unit_cases

/-- A thread moves to a place of the side `w`, or out. -/
theorem side_update (h : Monitor w s) {s' : IntqState T} {p : Place}
    (hplace : s'.place = Function.update s.place t p) (hp : ∀ w', p.side = some w' → w' = w) (u : T)
    (w' : Waiter) (hu : (s'.place u).side = some w') : w' = w := by
  by_cases hut : u = t
  · subst hut
    rw [hplace, Function.update_self] at hu
    exact hp w' hu
  · rw [IntqState.side_of_ne hut hplace] at hu
    exact h.side u w' hu

theorem queue (h : Monitor w s) (ht : s.place t = .out) (hv : s.q.lock.semaphore.value = 0) :
    Monitor w (s.queue w t) := by
  refine (h.places.queue ht hv w).monitor (h.side_update rfl ?_) fun u hu => ?_
  · rintro w' ⟨⟩
    rfl
  · simp only [IntqState.queue, IntqState.setPlace_q, IntqState.setQ_q, Intq.setLock_waiter,
      Intq.setLock_met] at hu ⊢
    exact h.unmet u hu

theorem enter (h : Monitor w s) (ht : s.place t = .out) (hv : s.q.lock.semaphore.value = 1)
    (hmet : s.q.met w = false) : Monitor w (s.enter w t) := by
  refine (h.places.enter ht hv w).monitor (h.side_update rfl ?_) fun u _ => ?_
  · rintro w' ⟨⟩
    rfl
  · simpa [IntqState.enter] using hmet

/-- A thread unblocked on the lock is nowhere on record. -/
theorem out_of_lock_woken (h : Monitor w s) (ht : s.place t = .lock_woken w) :
    Monitor w (s.setPlace t .out) := by
  refine (h.places.out_of_lock_woken ht).monitor (h.side_update rfl ?_) h.unmet
  rintro w' ⟨⟩

end Monitor

/-! ## The functions -/

/-- The places after `t` has returned from `wait`: the first of the threads that wait for the lock,
if there is one, has been unblocked. -/
def Released (s s' : IntqState T) (t : T) : Prop :=
  (s.q.lock.semaphore.waiters = [] ∧ s'.place = Function.update s.place t .out) ∨
    ∃ u w us, s.q.lock.semaphore.waiters = u :: us ∧ s.place u = .locking w ∧ u ≠ t ∧
      s'.place = Function.update (Function.update s.place t .out) u (.lock_woken w)

namespace Released

variable {s' : IntqState T} {u : T}

theorem side (h : Released s s' t) (hu : (s'.place u).side = some w) :
    (s.place u).side = some w := by
  rcases h with ⟨_, hplace⟩ | ⟨v, w', _, _, hv, _, hplace⟩
  · by_cases hut : u = t
    · subst hut
      rw [hplace, Function.update_self] at hu
      cases hu
    · rwa [hplace, Function.update_of_ne hut] at hu
  · by_cases huv : u = v
    · subst huv
      rw [hplace, Function.update_self] at hu
      rw [hv]
      exact hu
    · rw [hplace, Function.update_of_ne huv] at hu
      by_cases hut : u = t
      · subst hut
        rw [Function.update_self] at hu
        cases hu
      · rwa [Function.update_of_ne hut] at hu

/-- Nobody has fallen asleep. -/
theorem blocked (h : Released s s' t) {p : Place} (hu : s'.place u = p) (hp : ∀ w, p ≠ .lock_woken w)
    (hout : p ≠ .out) : s.place u = p := by
  rcases h with ⟨_, hplace⟩ | ⟨v, w', _, _, _, _, hplace⟩
  · by_cases hut : u = t
    · subst hut
      rw [hplace, Function.update_self] at hu
      exact absurd hu.symm hout
    · rwa [hplace, Function.update_of_ne hut] at hu
  · by_cases huv : u = v
    · subst huv
      rw [hplace, Function.update_self] at hu
      exact absurd hu.symm (hp w')
    · rw [hplace, Function.update_of_ne huv] at hu
      by_cases hut : u = t
      · subst hut
        rw [Function.update_self] at hu
        exact absurd hu.symm hout
      · rwa [Function.update_of_ne hut] at hu

end Released

/-- A thread unblocked in `wait` gets to the loop test with the lock released. -/
theorem Places.resume_wait (h : Places s) (ht : s.place t = .wait_woken w) :
    ∃ s', s.resume_wait t = some s' ∧ Places s' ∧ s'.place t = .out ∧
      s'.q.toRingBuffer = s.q.toRingBuffer ∧ s'.q.lock.semaphore.value = 1 ∧ Released s s' t := by
  have hholder : s.q.lock.holder = some t := by
    rw [← h.inside, ht]
    rfl
  have hzero : s.q.lock.semaphore.value = 0 := by
    have hunit := h.unit
    rwa [hholder, if_neg (by simp)] at hunit
  have hleave := h.leave ht
  cases hws : s.q.lock.semaphore.waiters with
  | nil =>
      rw [hws] at hleave
      refine ⟨_, ?_, hleave, by simp, by simp, rfl, Or.inl ⟨hws, rfl⟩⟩
      simp [IntqState.resume_wait, IntqState.lock_release, hholder, sema_up, hws, hzero]
  | cons u us =>
      obtain ⟨w', hu⟩ := (h.queued u).1 (by rw [hws]; exact List.mem_cons_self)
      have hut : u ≠ t := by
        rintro rfl
        rw [ht] at hu
        cases hu
      refine ⟨_, ?_, hleave.pop hws (by simpa [hut] using hu), by simp [Ne.symm hut], by simp, rfl,
        Or.inr ⟨u, w', us, hws, hu, hut, rfl⟩⟩
      simp [IntqState.resume_wait, IntqState.lock_release, hholder, sema_up, hws, hzero,
        IntqState.thread_unblock, hut, hu]
      rfl

/-- The ring has changed so that the condition `w` is met, and the thread that waits for it is
unblocked. -/
theorem Places.signal (h : Places s) {r : RingBuffer UInt8 INTQ_BUFSIZE}
    (hmet : (s.q.setRing r).met w = true) :
    ∃ s', (s.setQ (s.q.setRing r)).signal w = some s' ∧ Places s' ∧ s'.q.toRingBuffer = r ∧
      s'.q.waiter w = none ∧ s'.q.lock = s.q.lock ∧
      ∀ u, s'.place u = s.place u ∨ (s.place u = .waiting w ∧ s'.place u = .wait_woken w) := by
  cases hw : s.q.waiter w with
  | none =>
      refine ⟨s.setQ (s.q.setRing r), ?_, h.setRing r, rfl, by simpa using hw, by simp,
        fun u => Or.inl rfl⟩
      simp [IntqState.signal, hmet, hw]
  | some t =>
      have ht := (h.registered t w).1 hw
      have hcomm : (s.q.setWaiter none w).setRing r = (s.q.setRing r).setWaiter none w := by
        cases w <;> rfl
      have hplaces := (h.unblock hw).setRing r
      rw [IntqState.setQ_q, hcomm] at hplaces
      refine ⟨_, ?_, hplaces, by simp, by simp, by simp, fun u => ?_⟩
      · simp [IntqState.signal, hmet, hw, IntqState.thread_unblock, ht]
        rfl
      · by_cases hut : u = t
        · subst hut
          exact Or.inr ⟨ht, by simp⟩
        · exact Or.inl (by simp [hut])

namespace Monitor

/-- The loop of `intq_getc` and `intq_putc` with its condition met. -/
theorem await_met (hmet : s.q.met w = true) (t : Option T) : s.await w t = some (s, true) := by
  simp [IntqState.await, hmet]

/-- The loop with its condition not met: a thread that comes to it blocks and no assertion fails. -/
theorem await_unmet (h : Monitor w s) (ht : s.place t = .out) (hmet : s.q.met w = false) :
    ∃ s', s.await w (some t) = some (s', false) ∧ Monitor w s' ∧
      s'.q.toRingBuffer = s.q.toRingBuffer ∧
      (s.q.lock.semaphore.value = 1 → s' = s.enter w t) := by
  have hholder := h.not_holder ht
  rcases h.unit_cases with ⟨hone, _⟩ | ⟨hzero, _⟩
  · refine ⟨s.enter w t, ?_, h.enter ht hone hmet, ?_, fun _ => rfl⟩
    · simp [IntqState.await, hmet, hholder, IntqState.lock_wait_enter hone]
    · simp [IntqState.enter]
  · refine ⟨s.queue w t, ?_, h.queue ht hzero, rfl, fun hone => ?_⟩
    · simp [IntqState.await, hmet, hholder, IntqState.lock_wait_queue hzero]
    · omega

/-- A thread unblocked on the lock fails the assertion of `wait` if it gets the lock and the
condition is met by then. -/
theorem resume_lock (h : Monitor w s) (ht : s.place t = .lock_woken w) :
    (s.resume_lock w t = none ∧ s.q.lock.semaphore.value ≠ 0 ∧ s.q.met w = true) ∨
      ((s.q.lock.semaphore.value ≠ 0 → s.q.met w = false) ∧ ∃ s', s.resume_lock w t = some s' ∧
        Monitor w s') := by
  have hout := h.out_of_lock_woken ht
  have htout : (s.setPlace t .out).place t = .out := by simp
  rcases h.unit_cases with ⟨hone, _⟩ | ⟨hzero, _⟩
  · have hrun : s.resume_lock w t =
        if s.q.met w then none else some ((s.setPlace t .out).enter w t) :=
      IntqState.lock_wait_enter (s := s.setPlace t .out) hone
    cases hmet : s.q.met w with
    | true =>
        left
        refine ⟨?_, by omega, rfl⟩
        rw [hrun, hmet, if_pos rfl]
    | false =>
        right
        refine ⟨fun _ => rfl, _, ?_, hout.enter htout hone hmet⟩
        rw [hrun, hmet, if_neg Bool.false_ne_true]
  · right
    exact ⟨fun hne => absurd hzero hne, _, IntqState.lock_wait_queue (s := s.setPlace t .out) hzero,
      hout.queue htout hzero⟩

/-- A thread unblocked in `wait` gets to the loop test with the lock released. -/
theorem resume_wait (h : Monitor w s) (ht : s.place t = .wait_woken w) :
    ∃ s', s.resume_wait t = some s' ∧ Monitor w s' ∧ s'.place t = .out ∧
      s'.q.toRingBuffer = s.q.toRingBuffer ∧ s'.q.lock.semaphore.value = 1 ∧
      (s.q.lock.semaphore.waiters = [] → s'.place = Function.update s.place t .out) := by
  obtain ⟨s', hs', hplaces, hout, hring, hvalue, hmoved⟩ := h.places.resume_wait ht
  refine ⟨s', hs', hplaces.monitor (fun u w' hu => ?_) (fun u hu => ?_), hout, hring, hvalue, fun hnil => ?_⟩
  · exact h.side u w' (hmoved.side hu)
  · have hwaiting := hmoved.blocked ((hplaces.registered u w).1 hu) (by simp) (by simp)
    rw [Intq.met_congr hring]
    exact h.unmet u ((h.registered u).2 hwaiting)
  · rcases hmoved with ⟨_, hplace⟩ | ⟨u, _, us, hws, _⟩
    · exact hplace
    · rw [hnil] at hws
      cases hws

/-- An interrupt handler changes the ring so that the condition is met, and signals it. -/
theorem signal_waiter (h : Monitor w s) {r : RingBuffer UInt8 INTQ_BUFSIZE}
    (hmet : (s.q.setRing r).met w = true) :
    ∃ s', (s.setQ (s.q.setRing r)).signal w = some s' ∧ Monitor w s' ∧ s'.q.toRingBuffer = r ∧
      s'.q.waiter w = none ∧
      ∀ u, s'.place u = s.place u ∨ (s.place u = .waiting w ∧ s'.place u = .wait_woken w) := by
  obtain ⟨s', hs', hplaces, hring, hnone, -, hmoved⟩ := h.places.signal hmet
  refine ⟨s', hs', hplaces.monitor (fun u w' hu => ?_) (fun u hu => ?_), hring, hnone, hmoved⟩
  · rcases hmoved u with hsame | ⟨hwaiting, hwoken⟩
    · exact h.side u w' (by rwa [hsame] at hu)
    · rw [hwoken] at hu
      exact h.side u w' (by rw [hwaiting]; exact hu)
  · rw [hnone] at hu
    cases hu

/-- A thread on the side `w` whose condition was met changes the ring and signals the other side,
where nobody waits. -/
theorem signal_other (h : Monitor w s) {r : RingBuffer UInt8 INTQ_BUFSIZE}
    (hmet : s.q.met w = true) (hother : (s.q.setRing r).met w.other = true) :
    (s.setQ (s.q.setRing r)).signal w.other = some (s.setQ (s.q.setRing r)) ∧
      Monitor w (s.setQ (s.q.setRing r)) := by
  constructor
  · simp [IntqState.signal, hother, h.other]
  · refine h.setRing fun t ht => ?_
    rw [h.unmet t ht] at hmet
    cases hmet

end Monitor

/-! ## One thread at a time -/

/-- Nobody is at the queue's lock. -/
def Solo (s : IntqState T) : Prop := ∀ u, s.place u = .out ∨ (s.place u).inWait = true

namespace Monitor

omit [DecidableEq T] in
theorem value_of_out (h : Monitor w s) (hout : ∀ u, s.place u = .out) :
    s.q.lock.semaphore.value = 1 := by
  rcases h.unit_cases with ⟨hone, _⟩ | ⟨_, t, hholder⟩
  · exact hone
  · exact absurd hholder (h.not_holder (hout t))

theorem await_solo (h : Monitor w s) (hout : ∀ u, s.place u = .out) (hmet : s.q.met w = false)
    (t : T) : ∃ s', s.await w (some t) = some (s', false) ∧ Monitor w s' ∧ Solo s' ∧
      s'.q.toRingBuffer = s.q.toRingBuffer := by
  rcases h.await_unmet (hout t) hmet with ⟨s', hs', hmon, hring, henter⟩
  refine ⟨s', hs', hmon, ?_, hring⟩
  rw [henter (h.value_of_out hout)]
  intro u
  by_cases hut : u = t
  · subst hut
    exact Or.inr (by simp [IntqState.enter, Place.inWait])
  · exact Or.inl (by simp [IntqState.enter, hut, hout u])

theorem resume_wait_solo (h : Monitor w s) (hsolo : Solo s) (ht : s.place t = .wait_woken w) :
    ∃ s', s.resume_wait t = some s' ∧ Monitor w s' ∧ (∀ u, s'.place u = .out) ∧
      s'.q.toRingBuffer = s.q.toRingBuffer := by
  have hin : ∀ u, (s.place u).inWait = true → u = t := by
    intro u hu
    have htin : (s.place t).inWait = true := by
      rw [ht]
      rfl
    have heq : some u = some t := ((h.inside u).1 hu).symm.trans ((h.inside t).1 htin)
    exact Option.some.inj heq
  have hnil : s.q.lock.semaphore.waiters = [] := by
    refine List.eq_nil_iff_forall_not_mem.2 fun u hu => ?_
    have hlock := (h.queued u).1 hu
    rcases hsolo u with hout | hwait
    · rw [hout] at hlock
      cases hlock
    · rw [hlock] at hwait
      cases hwait
  rcases h.resume_wait ht with ⟨s', hs', hmon, _, hring, _, hplace⟩
  refine ⟨s', hs', hmon, fun u => ?_, hring⟩
  rw [hplace hnil]
  by_cases hut : u = t
  · subst hut
    simp
  · rcases hsolo u with hout | hwait
    · simp [hut, hout]
    · exact absurd (hin u hwait) hut

end Monitor

end Berk162
