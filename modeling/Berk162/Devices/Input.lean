import Berk162.Devices.IntqInv
import Berk162.Lib.Transition

/-!
# Input — readers of the input buffer of `devices/input.c`

Any number of threads call `input_getc`; interrupt handlers that found the buffer not full call
`input_putc`.  A step is what one of them does with interrupts off: from the call, or from where
the thread runs again after a block, up to the end or to the next block.  The state after a failed
assertion is `none`, and no step leaves it.
-/

namespace Berk162

variable {T : Type} [DecidableEq T]

/-! ## The functions -/

/-- `input_init`. -/
def input_init : IntqState T := ⟨Intq.init, fun _ => .out⟩

/-- `input_putc`, as far as the buffer goes. -/
def input_putc (s : IntqState T) (key : UInt8) : Option (IntqState T) :=
  if s.q.isFull then none else (s.intq_putc none key).map Prod.fst

/-- `input_getc`, as far as the buffer goes, with the key if it gets to its end. -/
def input_getc (s : IntqState T) (t : T) : Option (IntqState T × Option UInt8) :=
  s.intq_getc (some t)

/-- `input_getc` from where its thread runs again after its block in `wait`. -/
def input_getc_resume (s : IntqState T) (t : T) : Option (IntqState T × Option UInt8) := do
  let s ← s.resume_wait t
  input_getc s t

/-! ## Runs -/

inductive InputEvent (T : Type)
  | getc (t : T)
  | resume_lock (t : T)
  | resume_wait (t : T)
  | putc (key : UInt8)

/-- A thread is where the step takes it from; an interrupt handler has checked `input_full`. -/
def input_enabled (s : IntqState T) : InputEvent T → Prop
  | .getc t => s.place t = .out
  | .resume_lock t => s.place t = .lock_woken .not_empty
  | .resume_wait t => s.place t = .wait_woken .not_empty
  | .putc _ => s.q.isFull = false

def input_section (s : IntqState T) : InputEvent T → Option (IntqState T)
  | .getc t => (input_getc s t).map Prod.fst
  | .resume_lock t => s.resume_lock .not_empty t
  | .resume_wait t => (input_getc_resume s t).map Prod.fst
  | .putc key => input_putc s key

/-- The runs of the input buffer with the threads `T` as its readers. -/
def inputSystem (T : Type) [DecidableEq T] : System (Option (IntqState T)) (InputEvent T) where
  init o := o = some input_init
  step o e o' := ∃ s, o = some s ∧ input_enabled s e ∧ o' = input_section s e

/-! ## One section -/

variable {s : IntqState T} {t : T}

theorem input_step {o : Option (IntqState T)} {e : InputEvent T} (he : input_enabled s e)
    (ho : input_section s e = o) : (inputSystem T).step (some s) e o :=
  ⟨s, rfl, he, ho.symm⟩

/-- The last part of `input_getc`: the buffer is not empty. -/
theorem input_getc_ready (h : Monitor .not_empty s) (hready : s.q.isEmpty = false) :
    input_getc s t = some (s.setQ (s.q.setRing s.q.get), some (s.q.buf s.q.tail)) ∧
      Monitor .not_empty (s.setQ (s.q.setRing s.q.get)) := by
  have hmet : s.q.met .not_empty = true := by simp [Intq.met, hready]
  have hroom : (s.q.setRing s.q.get).met .not_full = true := by
    have hfull := RingBuffer.isFull_get hready
    simp [Intq.met, hfull]
  have hsignal := h.signal_other hmet hroom
  refine ⟨?_, hsignal.2⟩
  have hsig : (s.setQ (s.q.setRing s.q.get)).signal .not_full =
      some (s.setQ (s.q.setRing s.q.get)) := hsignal.1
  simp [input_getc, IntqState.intq_getc, Monitor.await_met hmet, hsig]

theorem input_getc_spec (h : Monitor .not_empty s) (ht : s.place t = .out) :
    ∃ r, input_getc s t = some r ∧ Monitor .not_empty r.1 := by
  cases hempty : s.q.isEmpty with
  | false =>
      exact ⟨_, input_getc_ready h hempty⟩
  | true =>
      have hmet : s.q.met .not_empty = false := by simp [Intq.met, hempty]
      rcases h.await_unmet ht hmet with ⟨s', hs', hmon, _⟩
      refine ⟨(s', none), ?_, hmon⟩
      rw [input_getc, IntqState.intq_getc, hs']
      rfl

theorem input_getc_resume_spec (h : Monitor .not_empty s) (ht : s.place t = .wait_woken .not_empty) :
    ∃ r, input_getc_resume s t = some r ∧ Monitor .not_empty r.1 := by
  rcases h.resume_wait ht with ⟨s', hs', hmon, hout, _⟩
  rcases input_getc_spec hmon hout with ⟨r, hr, hmon'⟩
  refine ⟨r, ?_, hmon'⟩
  rw [input_getc_resume, hs']
  exact hr

theorem input_putc_spec (h : Monitor .not_empty s) (key : UInt8) (hroom : s.q.isFull = false) :
    ∃ s', input_putc s key = some s' ∧ Monitor .not_empty s' ∧
      s'.q.toRingBuffer = s.q.put key ∧
      ∀ u, s'.place u = s.place u ∨
        (s.place u = .waiting .not_empty ∧ s'.place u = .wait_woken .not_empty) := by
  have hmet : s.q.met .not_full = true := by simp [Intq.met, hroom]
  have hready : (s.q.setRing (s.q.put key)).met .not_empty = true := by
    have hempty := RingBuffer.isEmpty_put key hroom
    simp [Intq.met, hempty]
  rcases h.signal_waiter hready with ⟨s', hs', hmon, hring, _, hplace⟩
  refine ⟨s', ?_, hmon, hring, hplace⟩
  simp [input_putc, hroom, IntqState.intq_putc, Monitor.await_met hmet, hs']

/-! ## Runs of any number of readers -/

/-- The state is not that of a failed assertion; whoever is blocked in `wait` is the registered
thread, so that no registration has been written over; and nobody is registered while the buffer
holds a byte. -/
def InputSafe (o : Option (IntqState T)) : Prop :=
  ∃ s, o = some s ∧ (∀ t, s.place t = .waiting .not_empty → s.q.not_empty = some t) ∧
    ∀ t, s.q.not_empty = some t → s.q.isEmpty = true

/-- A reader that slept on the queue's lock gets the lock only while the queue is empty. -/
def lock_fresh : Option (IntqState T) → InputEvent T → Prop
  | some s, .resume_lock _ => s.q.lock.semaphore.value ≠ 0 → s.q.isEmpty = true
  | _, _ => True

/-- One section keeps the monitor if and only if it meets the condition; otherwise the assertion
of `wait` fails. -/
theorem input_section_spec (h : Monitor .not_empty s) {e : InputEvent T} (he : input_enabled s e) :
    (lock_fresh (some s) e ∧ ∃ s', input_section s e = some s' ∧ Monitor .not_empty s') ∨
      (¬ lock_fresh (some s) e ∧ input_section s e = none) := by
  cases e with
  | getc t =>
      rcases input_getc_spec h he with ⟨r, hr, hmon⟩
      exact Or.inl ⟨trivial, r.1, by rw [input_section, hr]; rfl, hmon⟩
  | resume_lock t =>
      rcases h.resume_lock he with ⟨hnone, hvalue, hmet⟩ | ⟨hfresh, s', hs', hmon⟩
      · refine Or.inr ⟨fun hf => ?_, hnone⟩
        have hempty := hf hvalue
        simp [Intq.met, hempty] at hmet
      · refine Or.inl ⟨fun hvalue => ?_, s', hs', hmon⟩
        simpa [Intq.met] using hfresh hvalue
  | resume_wait t =>
      rcases input_getc_resume_spec h he with ⟨r, hr, hmon⟩
      exact Or.inl ⟨trivial, r.1, by rw [input_section, hr]; rfl, hmon⟩
  | putc key =>
      rcases input_putc_spec h key he with ⟨s', hs', hmon, _⟩
      exact Or.inl ⟨trivial, s', hs', hmon⟩

/-- The state is not that of a failed assertion and its monitor is in order. -/
def InputGood (o : Option (IntqState T)) : Prop := ∃ s, o = some s ∧ Monitor .not_empty s

omit [DecidableEq T] in
theorem inputGood_init : InputGood (some (input_init : IntqState T)) := by
  refine ⟨input_init, rfl, rfl, ?_, ?_, ?_, ?_, rfl, ?_, List.nodup_nil⟩
  · intro t w' hw
    cases hw
  · intro t
    simp [input_init, Intq.init, Intq.waiter]
  · intro t ht
    cases ht
  · intro t
    simp [input_init, Intq.init, Place.inWait, lock_init]
  · intro t
    simp [input_init, Intq.init, lock_init]

omit [DecidableEq T] in
theorem InputGood.safe {o : Option (IntqState T)} (h : InputGood o) : InputSafe o := by
  rcases h with ⟨s, rfl, hmon⟩
  refine ⟨s, rfl, fun t ht => (hmon.registered t).2 ht, fun t ht => ?_⟩
  simpa [Intq.met] using hmon.unmet t ht

theorem InputGood.step {o o' : Option (IntqState T)} {e : InputEvent T} (h : InputGood o)
    (hstep : (inputSystem T).step o e o') :
    (lock_fresh o e ∧ InputGood o') ∨ (¬ lock_fresh o e ∧ o' = none) := by
  rcases h with ⟨s, rfl, hmon⟩
  rcases hstep with ⟨s', hs', he, rfl⟩
  cases hs'
  rcases input_section_spec hmon he with ⟨hfresh, s', hsec, hmon'⟩ | hfail
  · exact Or.inl ⟨hfresh, s', hsec, hmon'⟩
  · exact Or.inr hfail

/-- A run ends in a safe state if and only if at each of its steps no reader that slept on the
queue's lock gets the lock while the queue holds a byte. -/
theorem input_runs_safe_iff {o : Option (IntqState T)} {es : List (InputEvent T)}
    (hrun : (inputSystem T).Exec (some input_init) es o) :
    InputSafe o ↔ ((inputSystem T).restrict lock_fresh).Exec (some input_init) es o := by
  have hdead : ∀ o e o', o = none → ¬ (inputSystem T).step o e o' := by
    rintro _ e o' rfl ⟨s, hs, _⟩
    cases hs
  have hdisj : ∀ o : Option (IntqState T), InputGood o → ¬ o = none := by
    rintro o ⟨s, rfl, _⟩ hnone
    cases hnone
  rcases hrun.good_iff_restrict (B := fun o => o = none)
    (fun _ _ _ hi hst => hi.step hst) hdead hdisj inputGood_init with ⟨hcases, hiff⟩
  rw [← hiff]
  refine ⟨fun hsafe => ?_, InputGood.safe⟩
  rcases hcases with hgood | hnone
  · exact hgood
  · rcases hsafe with ⟨s, hs, _⟩
    rw [hnone] at hs
    cases hs

/-- Two readers and one byte: the first waits, is woken and takes the byte. -/
theorem input_runs_safe_iff_two : ∃ o : Option (IntqState (Fin 2)),
    (inputSystem (Fin 2)).Exec (some input_init) [.getc 0, .putc 65, .resume_wait 0] o ∧
      InputSafe o := by
  have h0 := System.Exec.nil (M := (inputSystem (Fin 2)).restrict lock_fresh) (some input_init)
  have h1 := h0.snoc (l := InputEvent.getc (0 : Fin 2)) ⟨input_step rfl rfl, trivial⟩
  have h2 := h1.snoc (l := InputEvent.putc (65 : UInt8)) ⟨input_step rfl rfl, trivial⟩
  have h3 := h2.snoc (l := InputEvent.resume_wait (0 : Fin 2)) ⟨input_step rfl rfl, trivial⟩
  have hrun := h3.of_restrict
  exact ⟨_, hrun, (input_runs_safe_iff hrun).2 h3⟩

/-- Two readers and two bytes: the second reader sleeps on the lock until the first, woken for the
first byte, gives it up; by the time it gets the lock the second byte is there. -/
theorem stale_reader_asserts : ∃ es, (inputSystem (Fin 2)).Exec (some input_init) es none ∧
    ¬ InputSafe (none : Option (IntqState (Fin 2))) := by
  have h0 := System.Exec.nil (M := inputSystem (Fin 2)) (some input_init)
  have h1 := h0.snoc (l := InputEvent.getc (0 : Fin 2)) (input_step rfl rfl)
  have h2 := h1.snoc (l := InputEvent.getc (1 : Fin 2)) (input_step rfl rfl)
  have h3 := h2.snoc (l := InputEvent.putc (65 : UInt8)) (input_step rfl rfl)
  have h4 := h3.snoc (l := InputEvent.resume_wait (0 : Fin 2)) (input_step rfl rfl)
  have h5 := h4.snoc (l := InputEvent.putc (66 : UInt8)) (input_step rfl rfl)
  have h6 := h5.snoc (l := InputEvent.resume_lock (1 : Fin 2)) (input_step rfl rfl)
  refine ⟨_, h6, ?_⟩
  rintro ⟨s, hs, _⟩
  cases hs

end Berk162
