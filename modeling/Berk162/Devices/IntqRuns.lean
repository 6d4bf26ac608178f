import Berk162.Devices.IntqInv
import Berk162.Lib.Transition

/-!
# IntqRuns — an interrupt queue between one reader and one writer

One thread at a time is in `intq_getc` and one in `intq_putc`; interrupt handlers call them when
they need not wait.  A step is what one of them does with interrupts off, up to the end of the call
or to the next block.

A thread that finds the queue's lock taken by the other side sleeps for the lock, not for its
condition.  `Duplex` is what holds as long as the condition of such a thread lasts until it runs
again.
-/

namespace Berk162

variable {T : Type} [DecidableEq T]

/-! ## Runs -/

/-- The queue with the byte of the `intq_putc` in which a thread is, the bytes given to the calls of
`intq_putc` that have returned and the bytes that `intq_getc` has returned. -/
structure IntqRun (T : Type) where
  queue : IntqState T
  byte : T → UInt8
  given : List UInt8
  returned : List UInt8

/-- What happens next; without a thread it is an interrupt handler that calls. -/
inductive IntqEvent (T : Type)
  | getc (t : Option T)
  | putc (t : Option T) (byte : UInt8)
  /-- A thread unblocked in `lock_acquire` runs. -/
  | resume_lock (w : Waiter) (t : T)
  /-- A thread unblocked in `wait` runs. -/
  | resume_getc (t : T)
  | resume_putc (t : T)

namespace IntqRun

def setQueue (r : IntqRun T) (queue : IntqState T) : IntqRun T := { r with queue := queue }

/-- `intq_getc`. -/
def getc (r : IntqRun T) (t : Option T) : Option (IntqRun T) := do
  let (queue, byte) ← r.queue.intq_getc t
  return { r with queue := queue, returned := r.returned ++ byte.toList }

/-- `intq_putc`. -/
def putc (r : IntqRun T) (t : Option T) (byte : UInt8) : Option (IntqRun T) := do
  let (queue, done) ← r.queue.intq_putc t byte
  return { r with queue := queue, given := if done then r.given ++ [byte] else r.given }

/-- The thread keeps its byte while it sleeps. -/
def keep (r : IntqRun T) (t : T) (byte : UInt8) : IntqRun T :=
  { r with byte := Function.update r.byte t byte }

/-- `intq_init`. -/
def init (byte : T → UInt8) : IntqRun T := ⟨⟨Intq.init, fun _ => .out⟩, byte, [], []⟩

end IntqRun

/-- No thread is in `intq_getc`, or in `intq_putc`. -/
def SideFree (s : IntqState T) (w : Waiter) : Prop := ∀ u, (s.place u).side ≠ some w

/-- A thread is where the step takes it from, alone on its side when it calls; an interrupt handler
need not wait. -/
def intq_enabled (r : IntqRun T) : IntqEvent T → Prop
  | .getc none => r.queue.q.isEmpty = false
  | .getc (some t) => r.queue.place t = .out ∧ SideFree r.queue .not_empty
  | .putc none _ => r.queue.q.isFull = false
  | .putc (some t) _ => r.queue.place t = .out ∧ SideFree r.queue .not_full
  | .resume_lock w t => r.queue.place t = .lock_woken w
  | .resume_getc t => r.queue.place t = .wait_woken .not_empty
  | .resume_putc t => r.queue.place t = .wait_woken .not_full

def intq_section (r : IntqRun T) : IntqEvent T → Option (IntqRun T)
  | .getc t => r.getc t
  | .putc none byte => r.putc none byte
  | .putc (some t) byte => (r.keep t byte).putc (some t) byte
  | .resume_lock w t => (r.queue.resume_lock w t).map r.setQueue
  | .resume_getc t => (r.queue.resume_wait t).bind fun queue => (r.setQueue queue).getc (some t)
  | .resume_putc t =>
      (r.queue.resume_wait t).bind fun queue => (r.setQueue queue).putc (some t) (r.byte t)

/-- The runs of an interrupt queue.  The state after a failed assertion is `none`. -/
def intqSystem (T : Type) [DecidableEq T] : System (Option (IntqRun T)) (IntqEvent T) where
  init o := ∃ byte, o = some (IntqRun.init byte)
  step o e o' := ∃ r, o = some r ∧ intq_enabled r e ∧ o' = intq_section r e

theorem intq_step {r : IntqRun T} {o : Option (IntqRun T)} {e : IntqEvent T} (he : intq_enabled r e)
    (ho : intq_section r e = o) : (intqSystem T).step (some r) e o :=
  ⟨r, rfl, he, ho.symm⟩

/-- A bounded queue: what was given comes back in order, as far as it is not in the buffer, which
holds fewer bytes than it has cells; `intq_empty` and `intq_full` tell the two extremes; and a
thread is blocked only while its condition is not met. -/
structure BoundedFifo (r : IntqRun T) : Prop where
  fifo : r.given = r.returned ++ r.queue.q.contents
  bound : r.queue.q.contents.length ≤ INTQ_BUFSIZE - 1
  empty : r.queue.q.isEmpty = true ↔ r.queue.q.contents = []
  full : r.queue.q.isFull = true ↔ r.queue.q.contents.length = INTQ_BUFSIZE - 1
  blocked : ∀ t w, r.queue.place t = .locking w ∨ r.queue.place t = .waiting w →
    r.queue.q.met w = false

/-- No assertion has failed, and the queue is a bounded queue. -/
def IntqGood (o : Option (IntqRun T)) : Prop := ∃ r, o = some r ∧ BoundedFifo r

/-- A thread that slept on the queue's lock runs while its condition is still not met, and an
interrupt handler does not end the condition of a thread that sleeps there. -/
def lock_in_time : Option (IntqRun T) → IntqEvent T → Prop
  | some r, .resume_lock w _ => r.queue.q.met w = false
  | some r, .getc none => ∀ u, r.queue.place u ≠ .locking .not_full
  | some r, .putc none _ => ∀ u, r.queue.place u ≠ .locking .not_empty
  | _, _ => True

/-! ## The queue between two sections -/

structure Duplex (s : IntqState T) : Prop where
  places : Places s
  single : ∀ t u w, (s.place t).side = some w → (s.place u).side = some w → t = u
  held : ∀ t w, s.place t = .locking w → s.q.lock.holder ≠ none
  blocked : ∀ t w, s.place t = .locking w ∨ s.place t = .waiting w → s.q.met w = false

namespace Duplex

variable {s s' : IntqState T} {t : T} {w : Waiter}

omit [DecidableEq T] in
/-- Who sleeps on the lock sleeps for the other side. -/
theorem not_locking (h : Duplex s) (hfree : SideFree s w) (u : T) : s.place u ≠ .locking w.other := by
  intro hu
  obtain ⟨v, hv⟩ := Option.ne_none_iff_exists'.1 (h.held u _ hu)
  have hin := (h.places.inside v).2 hv
  have huv : u ≠ v := by
    rintro rfl
    rw [hu] at hin
    cases hin
  -- the holder would be on the free side
  obtain ⟨w', hside⟩ : ∃ w', (s.place v).side = some w' := by
    cases hp : s.place v with
    | out =>
        rw [hp] at hin
        cases hin
    | locking w' =>
        exact ⟨w', rfl⟩
    | lock_woken w' =>
        exact ⟨w', rfl⟩
    | waiting w' =>
        exact ⟨w', rfl⟩
    | wait_woken w' =>
        exact ⟨w', rfl⟩
  by_cases hw : w' = w
  · exact hfree v (by rw [hside, hw])
  · obtain rfl := Waiter.eq_other hw
    exact huv (h.single u v _ (by rw [hu]; rfl) hside)

/-- One thread moves to the side `w`, where nobody was. -/
theorem single_update (h : Duplex s) (hfree : SideFree s w) {p : Place} (hp : p.side = some w)
    (hplace : s'.place = Function.update s.place t p) (u v : T) (w' : Waiter)
    (hu : (s'.place u).side = some w') (hv : (s'.place v).side = some w') : u = v := by
  rw [hplace] at hu hv
  by_cases hut : u = t
  · subst hut
    rw [Function.update_self, hp] at hu
    obtain rfl := Option.some.inj hu
    by_contra hvu
    rw [Function.update_of_ne (Ne.symm hvu)] at hv
    exact hfree v hv
  · rw [Function.update_of_ne hut] at hu
    by_cases hvt : v = t
    · subst hvt
      rw [Function.update_self, hp] at hv
      obtain rfl := Option.some.inj hv
      exact absurd hu (hfree u)
    · rw [Function.update_of_ne hvt] at hv
      exact h.single u v w' hu hv

theorem enter (h : Duplex s) (ht : s.place t = .out) (hfree : SideFree s w)
    (hv : s.q.lock.semaphore.value = 1) (hmet : s.q.met w = false) : Duplex (s.enter w t) where
  places := h.places.enter ht hv w
  single := h.single_update hfree rfl rfl
  held u w' _ := by simp [IntqState.enter]
  blocked u w' hu := by
    have hring : (s.enter w t).q.toRingBuffer = s.q.toRingBuffer := by simp [IntqState.enter]
    rw [Intq.met_congr hring]
    by_cases hut : u = t
    · subst hut
      simp only [IntqState.enter, IntqState.setPlace_place, Function.update_self] at hu
      rcases hu with ⟨⟨⟩⟩ | ⟨⟨⟩⟩
      exact hmet
    · simp only [IntqState.enter, IntqState.setPlace_place, Function.update_of_ne hut] at hu
      exact h.blocked u w' hu

theorem queue (h : Duplex s) (ht : s.place t = .out) (hfree : SideFree s w)
    (hv : s.q.lock.semaphore.value = 0) (hmet : s.q.met w = false) : Duplex (s.queue w t) where
  places := h.places.queue ht hv w
  single := h.single_update hfree rfl rfl
  held u w' _ := by
    rcases h.places.unit_cases with ⟨hone, _⟩ | ⟨_, v, hholder⟩
    · omega
    · simp [IntqState.queue, hholder]
  blocked u w' hu := by
    have hring : (s.queue w t).q.toRingBuffer = s.q.toRingBuffer := rfl
    rw [Intq.met_congr hring]
    by_cases hut : u = t
    · subst hut
      simp only [IntqState.queue, IntqState.setPlace_place, Function.update_self] at hu
      rcases hu with ⟨⟨⟩⟩ | ⟨⟨⟩⟩
      exact hmet
    · simp only [IntqState.queue, IntqState.setPlace_place, Function.update_of_ne hut] at hu
      exact h.blocked u w' hu

/-- A thread that comes to the loop test and finds its condition not met blocks. -/
theorem await_unmet (h : Duplex s) (ht : s.place t = .out) (hfree : SideFree s w)
    (hmet : s.q.met w = false) :
    ∃ s', s.await w (some t) = some (s', false) ∧ Duplex s' ∧
      s'.q.toRingBuffer = s.q.toRingBuffer := by
  have hholder := h.places.not_holder ht
  rcases h.places.unit_cases with ⟨hone, _⟩ | ⟨hzero, _⟩
  · refine ⟨s.enter w t, ?_, h.enter ht hfree hone hmet, by simp [IntqState.enter]⟩
    simp [IntqState.await, hmet, hholder, IntqState.lock_wait_enter hone]
  · refine ⟨s.queue w t, ?_, h.queue ht hfree hzero hmet, rfl⟩
    simp [IntqState.await, hmet, hholder, IntqState.lock_wait_queue hzero]

/-- The ring changes, its condition `w` having been met, so that the condition of the other side is
met, and a thread that waits for it is unblocked. -/
theorem signal (h : Duplex s) {r : RingBuffer UInt8 INTQ_BUFSIZE} (hmet : s.q.met w = true)
    (hother : (s.q.setRing r).met w.other = true) (hlock : ∀ u, s.place u ≠ .locking w.other) :
    ∃ s', (s.setQ (s.q.setRing r)).signal w.other = some s' ∧ Duplex s' ∧ s'.q.toRingBuffer = r := by
  obtain ⟨s', hs', hplaces, hring, hnone, hlocked, hmoved⟩ := h.places.signal hother
  have hside : ∀ u w', (s'.place u).side = some w' → (s.place u).side = some w' := by
    intro u w' hu
    rcases hmoved u with hsame | ⟨hwaiting, hwoken⟩
    · rwa [hsame] at hu
    · rw [hwoken] at hu
      rw [hwaiting]
      exact hu
  refine ⟨s', hs', ⟨hplaces, ?_, ?_, ?_⟩, hring⟩
  · intro u v w' hu hv
    exact h.single u v w' (hside u w' hu) (hside v w' hv)
  · intro u w' hu
    rw [hlocked]
    rcases hmoved u with hsame | ⟨_, hwoken⟩
    · exact h.held u w' (hsame ▸ hu)
    · rw [hwoken] at hu
      cases hu
  · intro u w' hu
    -- nobody is blocked on either side
    have hsame : s.place u = .locking w' ∨ s.place u = .waiting w' := by
      rcases hmoved u with hsame | ⟨_, hwoken⟩
      · rwa [hsame] at hu
      · rw [hwoken] at hu
        rcases hu with ⟨⟨⟩⟩ | ⟨⟨⟩⟩
    by_cases hw : w' = w
    · subst hw
      rw [h.blocked u w' hsame] at hmet
      cases hmet
    · obtain rfl := Waiter.eq_other hw
      rcases hu with hu | hu
      · rcases hsame with hsame | hsame
        · exact absurd hsame (hlock u)
        · have hreg := (h.places.registered u _).2 hsame
          rcases hmoved u with heq | ⟨_, hwoken⟩
          · rw [heq, hsame] at hu
            cases hu
          · rw [hwoken] at hu
            cases hu
      · have hreg := (hplaces.registered u _).2 hu
        rw [hnone] at hreg
        cases hreg

/-- A thread that returns from `wait` gives the lock to the other side's thread if that sleeps on it,
and is at its loop test. -/
theorem release (h : Duplex s) (ht : s.place t = .wait_woken w) :
    ∃ s', s.resume_wait t = some s' ∧ Duplex s' ∧ s'.place t = .out ∧ SideFree s' w ∧
      s'.q.toRingBuffer = s.q.toRingBuffer := by
  obtain ⟨s', hs', hplaces, hout, hring, -, hmoved⟩ := h.places.resume_wait ht
  have hfree : SideFree s' w := by
    intro u hu
    obtain rfl := h.single u t w (hmoved.side hu) (by rw [ht]; rfl)
    rw [hout] at hu
    cases hu
  -- at most one thread was asleep on the lock, and it is not any more
  have hlock : ∀ u w', s'.place u ≠ .locking w' := by
    intro u w' hu
    have hold := hmoved.blocked hu (by simp) (by simp)
    have hqueued := (h.places.queued u).2 ⟨w', hold⟩
    rcases hmoved with ⟨hnil, _⟩ | ⟨v, w'', us, hws, hv, hvt, hplace⟩
    · rw [hnil] at hqueued
      cases hqueued
    · have hne : ∀ {x : T} {p : Waiter}, s.place x = .locking p → p = w.other := by
        intro x p hx
        refine Waiter.eq_other fun hpw => ?_
        have hxt := h.single x t w (by rw [hx, hpw]; rfl) (by rw [ht]; rfl)
        rw [hxt, ht] at hx
        cases hx
      obtain rfl : u = v := h.single u v w.other (by rw [hold, hne hold]; rfl) (by rw [hv, hne hv]; rfl)
      rw [hplace, Function.update_self] at hu
      cases hu
  refine ⟨s', hs', ⟨hplaces, ?_, fun u w' hu => absurd hu (hlock u w'), ?_⟩, hout, hfree, hring⟩
  · intro u v w' hu hv
    exact h.single u v w' (hmoved.side hu) (hmoved.side hv)
  · intro u w' hu
    rw [Intq.met_congr hring]
    rcases hu with hu | hu
    · exact absurd hu (hlock u w')
    · exact h.blocked u w' (Or.inr (hmoved.blocked hu (by simp) (by simp)))

theorem out_of_lock_woken (h : Duplex s) (ht : s.place t = .lock_woken w) :
    Duplex (s.setPlace t .out) ∧ SideFree (s.setPlace t .out) w := by
  have hsame : ∀ u w', ((s.setPlace t .out).place u).side = some w' → u ≠ t ∧
      (s.place u).side = some w' := by
    intro u w' hu
    have hut : u ≠ t := by
      rintro rfl
      rw [IntqState.setPlace_place, Function.update_self] at hu
      cases hu
    exact ⟨hut, by rwa [IntqState.setPlace_place, Function.update_of_ne hut] at hu⟩
  have hplace : ∀ u p, p ≠ .out → (s.setPlace t .out).place u = p → s.place u = p := by
    intro u p hp hu
    by_cases hut : u = t
    · subst hut
      rw [IntqState.setPlace_place, Function.update_self] at hu
      exact absurd hu.symm hp
    · rwa [IntqState.setPlace_place, Function.update_of_ne hut] at hu
  refine ⟨⟨h.places.out_of_lock_woken ht, ?_, ?_, ?_⟩, ?_⟩
  · intro u v w' hu hv
    exact h.single u v w' (hsame u w' hu).2 (hsame v w' hv).2
  · intro u w' hu
    exact h.held u w' (hplace u _ (by simp) hu)
  · intro u w' hu
    exact h.blocked u w' (hu.imp (hplace u _ (by simp)) (hplace u _ (by simp)))
  · intro u hu
    obtain ⟨hut, hside⟩ := hsame u w hu
    exact hut (h.single u t w hside (by rw [ht]; rfl))

/-- A thread unblocked on the lock either takes it and waits, or sleeps on it again. -/
theorem relock (h : Duplex s) (ht : s.place t = .lock_woken w) (hmet : s.q.met w = false) :
    ∃ s', s.resume_lock w t = some s' ∧ Duplex s' ∧ s'.q.toRingBuffer = s.q.toRingBuffer := by
  obtain ⟨hout, hfree⟩ := h.out_of_lock_woken ht
  have htout : (s.setPlace t .out).place t = .out := by simp
  rcases h.places.unit_cases with ⟨hone, _⟩ | ⟨hzero, _⟩
  · refine ⟨_, ?_, hout.enter htout hfree hone hmet, by simp [IntqState.enter]⟩
    have henter := IntqState.lock_wait_enter (s := s.setPlace t .out) (w := w) (t := t) hone
    rw [IntqState.setPlace_q, hmet, if_neg Bool.false_ne_true] at henter
    exact henter
  · exact ⟨_, IntqState.lock_wait_queue (s := s.setPlace t .out) hzero,
      hout.queue htout hfree hzero hmet, rfl⟩

/-- With its condition met it fails the assertion of `wait`, or sleeps on. -/
theorem relock_late (h : Duplex s) (hmet : s.q.met w = true) :
    s.resume_lock w t = none ∨ ∃ s', s.resume_lock w t = some s' ∧ s'.place t = .locking w ∧
      s'.q.toRingBuffer = s.q.toRingBuffer := by
  rcases h.places.unit_cases with ⟨hone, _⟩ | ⟨hzero, _⟩
  · have henter := IntqState.lock_wait_enter (s := s.setPlace t .out) (w := w) (t := t) hone
    rw [IntqState.setPlace_q, hmet, if_pos rfl] at henter
    exact Or.inl henter
  · exact Or.inr ⟨_, IntqState.lock_wait_queue (s := s.setPlace t .out) hzero,
      by simp [IntqState.queue], rfl⟩

end Duplex

/-! ## The two functions -/

section

variable {s : IntqState T} {t : T} {r r' : IntqRun T} {byte : UInt8}

/-- The queue between two sections of a run. -/
structure IntqInv (r : IntqRun T) : Prop where
  duplex : Duplex r.queue
  fifo : r.given = r.returned ++ r.queue.q.contents

omit [DecidableEq T] in
theorem IntqInv.good (h : IntqInv r) : BoundedFifo r where
  fifo := h.fifo
  bound := Nat.le_sub_one_of_lt (RingBuffer.length_contents_lt _)
  empty := RingBuffer.isEmpty_iff_contents
  full := RingBuffer.isFull_iff_length
  blocked := h.duplex.blocked

/-- The end of `intq_getc`. -/
theorem getc_ready (h : IntqInv r) (hready : r.queue.q.isEmpty = false)
    (hlock : ∀ u, r.queue.place u ≠ .locking .not_full) (t : Option T) :
    ∃ r', r.getc t = some r' ∧ IntqInv r' := by
  have hmet : r.queue.q.met .not_empty = true := by simp [Intq.met, hready]
  have hroom : (r.queue.q.setRing r.queue.q.get).met .not_full = true := by
    have hfull := RingBuffer.isFull_get hready
    simp [Intq.met, hfull]
  obtain ⟨s', hs', hduplex, hring⟩ := h.duplex.signal hmet hroom hlock
  refine ⟨{ r with queue := s', returned := r.returned ++ [r.queue.q.buf r.queue.q.tail] }, ?_,
    hduplex, ?_⟩
  · have hsignal : (r.queue.setQ (r.queue.q.setRing r.queue.q.get)).signal .not_full = some s' := hs'
    simp [IntqRun.getc, IntqState.intq_getc, IntqState.await, hmet, hsignal]
  · rw [h.fifo, hring, RingBuffer.contents_get hready, List.append_assoc]
    rfl

/-- The end of `intq_putc`. -/
theorem putc_ready (h : IntqInv r) (hroom : r.queue.q.isFull = false)
    (hlock : ∀ u, r.queue.place u ≠ .locking .not_empty) (t : Option T) (byte : UInt8) :
    ∃ r', r.putc t byte = some r' ∧ IntqInv r' := by
  have hmet : r.queue.q.met .not_full = true := by simp [Intq.met, hroom]
  have hready : (r.queue.q.setRing (r.queue.q.put byte)).met .not_empty = true := by
    have hempty := RingBuffer.isEmpty_put byte hroom
    simp [Intq.met, hempty]
  obtain ⟨s', hs', hduplex, hring⟩ := h.duplex.signal hmet hready hlock
  refine ⟨{ r with queue := s', given := r.given ++ [byte] }, ?_, hduplex, ?_⟩
  · have hsignal : (r.queue.setQ (r.queue.q.setRing (r.queue.q.put byte))).signal .not_empty =
      some s' := hs'
    simp [IntqRun.putc, IntqState.intq_putc, IntqState.await, hmet, hsignal]
  · rw [h.fifo, hring, RingBuffer.contents_put byte hroom, List.append_assoc]

/-- A thread in `intq_getc` comes to its loop test. -/
theorem getc_thread (h : IntqInv r) (ht : r.queue.place t = .out)
    (hfree : SideFree r.queue .not_empty) : ∃ r', r.getc (some t) = some r' ∧ IntqInv r' := by
  cases hempty : r.queue.q.isEmpty with
  | false =>
      exact getc_ready h hempty (h.duplex.not_locking hfree) (some t)
  | true =>
      have hmet : r.queue.q.met .not_empty = false := by simp [Intq.met, hempty]
      obtain ⟨s', hs', hduplex, hring⟩ := h.duplex.await_unmet ht hfree hmet
      refine ⟨{ r with queue := s', returned := r.returned ++ [] }, ?_, hduplex, ?_⟩
      · simp [IntqRun.getc, IntqState.intq_getc, hs']
      · rw [List.append_nil, h.fifo, hring]

/-- A thread in `intq_putc` comes to its loop test. -/
theorem putc_thread (h : IntqInv r) (ht : r.queue.place t = .out)
    (hfree : SideFree r.queue .not_full) (byte : UInt8) :
    ∃ r', r.putc (some t) byte = some r' ∧ IntqInv r' := by
  cases hfull : r.queue.q.isFull with
  | false =>
      exact putc_ready h hfull (h.duplex.not_locking hfree) (some t) byte
  | true =>
      have hmet : r.queue.q.met .not_full = false := by simp [Intq.met, hfull]
      obtain ⟨s', hs', hduplex, hring⟩ := h.duplex.await_unmet ht hfree hmet
      refine ⟨{ r with queue := s' }, ?_, hduplex, ?_⟩
      · simp [IntqRun.putc, IntqState.intq_putc, hs']
      · rw [h.fifo, hring]

omit [DecidableEq T] in
theorem IntqInv.setQueue (h : IntqInv r) (hduplex : Duplex s)
    (hring : s.q.toRingBuffer = r.queue.q.toRingBuffer) : IntqInv (r.setQueue s) where
  duplex := hduplex
  fifo := by
    rw [IntqRun.setQueue, hring]
    exact h.fifo

omit [DecidableEq T] in
/-- A thread is blocked though its condition is met. -/
theorem not_good_of_blocked {u : T} {w : Waiter} (hplace : r.queue.place u = .locking w)
    (hmet : r.queue.q.met w = true) : ¬ IntqGood (some r) := by
  rintro ⟨r', hr, hgood⟩
  cases hr
  rw [hgood.blocked u w (Or.inl hplace)] at hmet
  cases hmet

/-- An interrupt handler that reads while a thread sleeps on the lock to write. -/
theorem getc_late (h : IntqInv r) (hready : r.queue.q.isEmpty = false) {u : T}
    (hu : r.queue.place u = .locking .not_full) : ¬ IntqGood (r.getc none) := by
  have hmet : r.queue.q.met .not_empty = true := by simp [Intq.met, hready]
  have hroom : (r.queue.q.setRing r.queue.q.get).met .not_full = true := by
    have hfull := RingBuffer.isFull_get hready
    simp [Intq.met, hfull]
  obtain ⟨s', hs', -, hring, -, -, hmoved⟩ := h.duplex.places.signal hroom
  have hget : r.getc none =
      some { r with queue := s', returned := r.returned ++ [r.queue.q.buf r.queue.q.tail] } := by
    simp [IntqRun.getc, IntqState.intq_getc, IntqState.await, hmet, hs']
  rw [hget]
  refine not_good_of_blocked (u := u) (w := .not_full) ?_ ?_
  · rcases hmoved u with hsame | ⟨hwaiting, _⟩
    · exact hsame.trans hu
    · rw [hu] at hwaiting
      cases hwaiting
  · rw [← hroom]
    exact Intq.met_congr hring _

/-- An interrupt handler that writes while a thread sleeps on the lock to read. -/
theorem putc_late (h : IntqInv r) (hroom : r.queue.q.isFull = false) {u : T}
    (hu : r.queue.place u = .locking .not_empty) (byte : UInt8) : ¬ IntqGood (r.putc none byte) := by
  have hmet : r.queue.q.met .not_full = true := by simp [Intq.met, hroom]
  have hready : (r.queue.q.setRing (r.queue.q.put byte)).met .not_empty = true := by
    have hempty := RingBuffer.isEmpty_put byte hroom
    simp [Intq.met, hempty]
  obtain ⟨s', hs', -, hring, -, -, hmoved⟩ := h.duplex.places.signal hready
  have hput : r.putc none byte = some { r with queue := s', given := r.given ++ [byte] } := by
    simp [IntqRun.putc, IntqState.intq_putc, IntqState.await, hmet, hs']
  rw [hput]
  refine not_good_of_blocked (u := u) (w := .not_empty) ?_ ?_
  · rcases hmoved u with hsame | ⟨hwaiting, _⟩
    · exact hsame.trans hu
    · rw [hu] at hwaiting
      cases hwaiting
  · rw [← hready]
    exact Intq.met_congr hring _

/-- One section keeps the queue in order if and only if it meets the condition. -/
theorem intq_section_spec (h : IntqInv r) {e : IntqEvent T} (he : intq_enabled r e) :
    (lock_in_time (some r) e ∧ ∃ r', intq_section r e = some r' ∧ IntqInv r') ∨
      (¬ lock_in_time (some r) e ∧ ¬ IntqGood (intq_section r e)) := by
  cases e with
  | getc t =>
      cases t with
      | none =>
          by_cases hlock : ∀ u, r.queue.place u ≠ .locking .not_full
          · exact Or.inl ⟨hlock, getc_ready h he hlock none⟩
          · obtain ⟨u, hu⟩ := not_forall_not.1 hlock
            exact Or.inr ⟨hlock, getc_late h he hu⟩
      | some t =>
          exact Or.inl ⟨trivial, getc_thread h he.1 he.2⟩
  | putc t byte =>
      cases t with
      | none =>
          by_cases hlock : ∀ u, r.queue.place u ≠ .locking .not_empty
          · exact Or.inl ⟨hlock, putc_ready h he hlock none byte⟩
          · obtain ⟨u, hu⟩ := not_forall_not.1 hlock
            exact Or.inr ⟨hlock, putc_late h he hu byte⟩
      | some t =>
          have hkeep : IntqInv (r.keep t byte) := ⟨h.duplex, h.fifo⟩
          exact Or.inl ⟨trivial, putc_thread hkeep he.1 he.2 byte⟩
  | resume_lock w t =>
      cases hmet : r.queue.q.met w with
      | false =>
          obtain ⟨s', hs', hduplex, hring⟩ := h.duplex.relock he hmet
          refine Or.inl ⟨hmet, r.setQueue s', ?_, h.setQueue hduplex hring⟩
          rw [intq_section, hs', Option.map_some]
      | true =>
          refine Or.inr ⟨fun hin => ?_, ?_⟩
          · rw [lock_in_time, hmet] at hin
            cases hin
          · rcases h.duplex.relock_late (t := t) hmet with hnone | ⟨s', hs', hplace, hring⟩
            · rw [intq_section, hnone]
              rintro ⟨r', hr, _⟩
              cases hr
            · rw [intq_section, hs', Option.map_some]
              refine not_good_of_blocked hplace ?_
              rw [← hmet]
              exact Intq.met_congr hring w
  | resume_getc t =>
      obtain ⟨s', hs', hduplex, hout, hfree, hring⟩ := h.duplex.release he
      obtain ⟨r', hr', hinv⟩ := getc_thread (h.setQueue hduplex hring) hout hfree
      refine Or.inl ⟨trivial, r', ?_, hinv⟩
      rw [intq_section, hs', Option.bind_some, hr']
  | resume_putc t =>
      obtain ⟨s', hs', hduplex, hout, hfree, hring⟩ := h.duplex.release he
      obtain ⟨r', hr', hinv⟩ := putc_thread (h.setQueue hduplex hring) hout hfree (r.byte t)
      refine Or.inl ⟨trivial, r', ?_, hinv⟩
      rw [intq_section, hs', Option.bind_some, hr']

end

/-! ## Runs -/

omit [DecidableEq T] in
theorem intqInv_init (byte : T → UInt8) : IntqInv (IntqRun.init byte) := by
  have hnone : ∀ w, (Intq.init : Intq T).waiter w = none := by
    intro w
    cases w <;> rfl
  refine ⟨⟨⟨?_, ?_, rfl, ?_, List.nodup_nil⟩, ?_, ?_, ?_⟩, rfl⟩
  · intro t w
    simp [IntqRun.init, hnone]
  · intro t
    simp [IntqRun.init, Intq.init, Place.inWait, lock_init]
  · intro t
    simp [IntqRun.init, Intq.init, lock_init]
  · rintro t u w ⟨⟩
  · rintro t w ⟨⟩
  · rintro t w (⟨⟨⟩⟩ | ⟨⟨⟩⟩)

/-- All states of a run are those of a bounded queue if and only if at each of its steps no thread
that slept on the queue's lock runs with its condition met, and no interrupt handler ends the
condition of a thread that sleeps there. -/
theorem intq_runs_good_iff {byte : T → UInt8} {o : Option (IntqRun T)} {es : List (IntqEvent T)} :
    ((intqSystem T).within IntqGood).Exec (some (IntqRun.init byte)) es o ↔
      ((intqSystem T).restrict lock_in_time).Exec (some (IntqRun.init byte)) es o := by
  have hstep : ∀ o e o', (∃ r, o = some r ∧ IntqInv r) → (intqSystem T).step o e o' →
      (lock_in_time o e ∧ ∃ r, o' = some r ∧ IntqInv r) ∨ (¬ lock_in_time o e ∧ ¬ IntqGood o') := by
    rintro _ e o' ⟨r, rfl, hinv⟩ ⟨r₁, hr₁, he, rfl⟩
    cases hr₁
    exact intq_section_spec hinv he
  have hgood : ∀ o : Option (IntqRun T), (∃ r, o = some r ∧ IntqInv r) → IntqGood o := by
    rintro _ ⟨r, rfl, hinv⟩
    exact ⟨r, rfl, hinv.good⟩
  exact System.Exec.within_iff_restrict hstep hgood ⟨_, rfl, intqInv_init byte⟩

/-! ## A reader that wakes up late -/

section

variable {r : IntqRun (Fin 2)}

/-- A write while nobody is registered to read. -/
theorem putc_eq (hroom : r.queue.q.isFull = false) (hnone : r.queue.q.not_empty = none)
    (t : Option (Fin 2)) (byte : UInt8) :
    r.putc t byte = some ⟨r.queue.setQ (r.queue.q.setRing (r.queue.q.put byte)), r.byte,
      r.given ++ [byte], r.returned⟩ := by
  have hmet : r.queue.q.met .not_full = true := by simp [Intq.met, hroom]
  have hready : (r.queue.q.setRing (r.queue.q.put byte)).met .not_empty = true := by
    have hempty := RingBuffer.isEmpty_put byte hroom
    simp [Intq.met, hempty]
  have hwaiter : r.queue.q.waiter .not_empty = none := hnone
  simp [IntqRun.putc, IntqState.intq_putc, IntqState.await, hmet, IntqState.signal, hready, hwaiter]

/-- The threads of the run below: 0 has been unblocked in `wait` with the lock in its hands, and 1
is in neither function. -/
structure ReaderWoken (r : IntqRun (Fin 2)) : Prop where
  reader : r.queue.place 0 = .wait_woken .not_empty
  writer : r.queue.place 1 = .out
  not_empty : r.queue.q.not_empty = none
  not_full : r.queue.q.not_full = none
  lock : r.queue.q.lock = ⟨some 0, ⟨0, []⟩⟩

theorem ReaderWoken.side_free (h : ReaderWoken r) : SideFree r.queue .not_full := by
  intro u hu
  have hcases : u = 0 ∨ u = 1 := by omega
  rcases hcases with rfl | rfl
  · rw [h.reader] at hu
    cases hu
  · rw [h.writer] at hu
    cases hu

/-- The writer writes while there is room, before the reader runs. -/
theorem ReaderWoken.fill (h : ReaderWoken r) (n : Nat)
    (hroom : r.queue.q.contents.length + n ≤ INTQ_BUFSIZE - 1) :
    ∃ es r', (intqSystem (Fin 2)).Exec (some r) es (some r') ∧ ReaderWoken r' ∧
      r'.queue.q.contents.length = r.queue.q.contents.length + n := by
  induction n with
  | zero =>
      exact ⟨[], r, System.Exec.nil _, h, rfl⟩
  | succ n ih =>
      obtain ⟨es, r₁, hrun, h₁, hlen⟩ := ih (by omega)
      have hfull : r₁.queue.q.isFull = false := by
        rw [← Bool.not_eq_true, RingBuffer.isFull_iff_length]
        omega
      have hput := putc_eq (r := r₁.keep 1 0) hfull h₁.not_empty (some 1) 0
      refine ⟨_, _, hrun.snoc (intq_step (e := .putc (some 1) 0) ⟨h₁.writer, h₁.side_free⟩ hput),
        ⟨h₁.reader, h₁.writer, h₁.not_empty, h₁.not_full, h₁.lock⟩, ?_⟩
      have hcontents := RingBuffer.contents_put (0 : UInt8) hfull
      change (r₁.queue.q.put 0).contents.length = _
      rw [hcontents, List.length_append, hlen]
      rfl

/-- The writer falls asleep on the lock when the queue is full, the reader gives it the lock and
takes a byte, and the assertion in the writer's `wait` fails. -/
theorem ReaderWoken.fails (h : ReaderWoken r) (hfull : r.queue.q.isFull = true) :
    ∃ es, (intqSystem (Fin 2)).Exec (some r) es none := by
  have hready : r.queue.q.isEmpty = false := RingBuffer.isEmpty_of_isFull (by decide) hfull
  have hmet : r.queue.q.met .not_full = false := by simp [Intq.met, hfull]
  have hroom : (r.queue.q.setRing r.queue.q.get).met .not_full = true := by
    have hget := RingBuffer.isFull_get hready
    simp [Intq.met, hget]
  -- the writer sleeps on the lock
  let r₁ : IntqRun (Fin 2) := (r.keep 1 0).setQueue (r.queue.queue .not_full 1)
  have hput : intq_section r (.putc (some 1) 0) = some r₁ := by
    have hzero : r.queue.q.lock.semaphore.value = 0 := by rw [h.lock]
    have hwait := IntqState.lock_wait_queue (w := .not_full) (t := (1 : Fin 2)) hzero
    have hholder : r.queue.q.lock.holder ≠ some 1 := by
      rw [h.lock]
      decide
    simp [intq_section, IntqRun.putc, IntqRun.keep, IntqState.intq_putc, IntqState.await, hmet,
      hholder, hwait]
    rfl
  -- the reader gives it the lock and takes a byte
  let s₂ : IntqState (Fin 2) := ((r₁.queue.setPlace 0 .out).setQ
    (r₁.queue.q.setLock ⟨none, ⟨1, []⟩⟩)).setPlace 1 (.lock_woken .not_full)
  let r₂ : IntqRun (Fin 2) := { r₁ with
    queue := s₂.setQ (s₂.q.setRing s₂.q.get)
    returned := r₁.returned ++ [s₂.q.buf s₂.q.tail] }
  have hget : intq_section r₁ (.resume_getc 0) = some r₂ := by
    have hrelease : r₁.queue.resume_wait 0 = some s₂ := by
      have hlock : r₁.queue.q.lock = ⟨some 0, ⟨0, [1]⟩⟩ := by
        change (⟨r.queue.q.lock.holder, ⟨0, r.queue.q.lock.semaphore.waiters ++ [1]⟩⟩ : Lock (Fin 2)) = _
        rw [h.lock]
        rfl
      have hplace : r₁.queue.place 1 = .locking .not_full := by
        simp [r₁, IntqRun.setQueue, IntqState.queue]
      simp [IntqState.resume_wait, IntqState.lock_release, hlock, sema_up, IntqState.thread_unblock,
        hplace]
      rfl
    have hmet₂ : s₂.q.met .not_empty = true := by
      have hsame : s₂.q.met .not_empty = r.queue.q.met .not_empty := Intq.met_congr rfl _
      rw [hsame]
      simp [Intq.met, hready]
    have hroom₂ : (s₂.q.setRing s₂.q.get).met .not_full = true := by
      rw [← hroom]
      exact Intq.met_congr rfl _
    have hwaiter : s₂.q.waiter .not_full = none := h.not_full
    simp [intq_section, hrelease, IntqRun.getc, IntqRun.setQueue, IntqState.intq_getc, IntqState.await,
      hmet₂, IntqState.signal, hroom₂, hwaiter]
    rfl
  -- the writer gets the lock with room in the queue
  have hlast : intq_section r₂ (.resume_lock .not_full 1) = none := by
    have hone : (r₂.queue.setPlace 1 .out).q.lock.semaphore.value = 1 := rfl
    have henter := IntqState.lock_wait_enter (w := .not_full) (t := (1 : Fin 2)) hone
    have hmet₂ : (r₂.queue.setPlace 1 .out).q.met .not_full = true := by
      rw [← hroom]
      exact Intq.met_congr rfl _
    rw [hmet₂, if_pos rfl] at henter
    change ((r₂.queue.setPlace 1 .out).lock_wait .not_full 1).map r₂.setQueue = none
    rw [henter]
    rfl
  have hwoken : r₁.queue.place 0 = .wait_woken .not_empty := by
    change Function.update r.queue.place 1 (.locking .not_full) 0 = _
    rw [Function.update_of_ne (by decide), h.reader]
  have hunlocked : r₂.queue.place 1 = .lock_woken .not_full := by simp [r₂, s₂]
  have h1 := System.Exec.single (intq_step (e := .putc (some 1) 0) ⟨h.writer, h.side_free⟩ hput)
  have h2 := h1.snoc (intq_step (e := .resume_getc 0) hwoken hget)
  exact ⟨_, h2.snoc (intq_step (e := .resume_lock .not_full 1) hunlocked hlast)⟩

/-- A reader waits for a byte.  Before it runs again, the writer fills the queue and falls asleep on
the queue's lock, which the reader still holds.  When the writer gets the lock, the queue is not
full any more, and the assertion in `wait` fails. -/
theorem late_writer_asserts : ∃ es,
    (intqSystem (Fin 2)).Exec (some (IntqRun.init fun _ => 0)) es none ∧
      ¬ IntqGood (none : Option (IntqRun (Fin 2))) := by
  have hstart : ∃ es r, (intqSystem (Fin 2)).Exec (some (IntqRun.init fun _ => 0)) es (some r) ∧
      ReaderWoken r ∧ r.queue.q.contents.length = 1 := by
    have h0 := System.Exec.nil (M := intqSystem (Fin 2)) (some (IntqRun.init fun _ => 0))
    have h1 := h0.snoc (l := IntqEvent.getc (some (0 : Fin 2)))
      (intq_step ⟨rfl, by rintro u ⟨⟩⟩ rfl)
    have h2 := h1.snoc (l := IntqEvent.putc (some (1 : Fin 2)) (65 : UInt8))
      (intq_step ⟨rfl, by unfold SideFree; decide⟩ rfl)
    exact ⟨_, _, h2, ⟨rfl, rfl, rfl, rfl, rfl⟩, rfl⟩
  obtain ⟨es, r, hrun, hwoken, hone⟩ := hstart
  obtain ⟨es', r', hfill, hwoken', hlen⟩ := hwoken.fill (INTQ_BUFSIZE - 2) (by rw [hone]; decide)
  have hfull : r'.queue.q.isFull = true := by
    rw [RingBuffer.isFull_iff_length, hlen, hone]
    rfl
  obtain ⟨es'', hfails⟩ := hwoken'.fails hfull
  refine ⟨_, (hrun.append hfill).append hfails, ?_⟩
  rintro ⟨r'', hr'', _⟩
  cases hr''

end

end Berk162
