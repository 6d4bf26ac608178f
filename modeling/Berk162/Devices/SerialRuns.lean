import Berk162.Devices.Serial

/-!
# SerialRuns — the serial port never stalls and loses no byte

Both queues have their threads on one side, one at a time.  The invariant adds to the monitors of
the two queues what the interrupt enable register says about them, and that the bytes written to
the port followed by those still in `txq` are the bytes that `serial_putc` has put there.  Inside a
section the register may be out of date; `SerialCore` is what holds there.  `Puts` follows what a
section adds to the bytes of `serial_putc`.
-/

namespace Berk162

variable {T : Type}

/-- The queues, and the bytes on their way. -/
structure SerialCore (s : SerialState T) : Prop where
  tx : Monitor .not_full s.txq
  tx_solo : Solo s.txq
  rx : Monitor .not_empty s.buffer
  rx_solo : Solo s.buffer
  bytes : s.thr ++ s.txq.q.contents = s.enqueued

/-- The interrupt enable register asks for what the queues need. -/
structure IerMatched (s : SerialState T) : Prop where
  xmit : s.txq.q.isEmpty = false → s.ier &&& IER_XMIT ≠ 0
  recv : s.ier &&& IER_RECV ≠ 0 ↔ s.buffer.q.isFull = false

structure SerialInv (s : SerialState T) : Prop extends SerialCore s, IerMatched s

variable {s : SerialState T} {t : T}

/-! ## The register -/

theorem write_ier_matched (s : SerialState T) : IerMatched s.write_ier := by
  constructor
  · intro hready
    have hq : s.txq.q.isEmpty = false := hready
    cases hfull : s.input_full <;> simp only [SerialState.write_ier, hq, hfull] <;> decide
  · change s.write_ier.ier &&& IER_RECV ≠ 0 ↔ s.input_full = false
    cases hempty : s.txq.q.isEmpty <;> cases hfull : s.input_full <;>
      simp only [SerialState.write_ier, hempty, hfull] <;> decide

theorem SerialCore.write_ier (h : SerialCore s) : SerialInv s.write_ier where
  toSerialCore := ⟨h.tx, h.tx_solo, h.rx, h.rx_solo, h.bytes⟩
  toIerMatched := write_ier_matched s

/-- The register stays matched while the rings do not change. -/
theorem IerMatched.congr {s' : SerialState T} (h : IerMatched s) (hier : s'.ier = s.ier)
    (htx : s'.txq.q.toRingBuffer = s.txq.q.toRingBuffer)
    (hrx : s'.buffer.q.toRingBuffer = s.buffer.q.toRingBuffer) : IerMatched s' := by
  constructor
  · rw [htx, hier]
    exact h.xmit
  · rw [hrx, hier]
    exact h.recv

/-! ## Output -/

variable [DecidableEq T]

theorem transmit_spec (h : SerialCore s) (hready : s.txq.q.isEmpty = false) (t : Option T) :
    ∃ s', s.transmit t = some s' ∧ SerialCore s' ∧ s'.txq.q.toRingBuffer = s.txq.q.get ∧
      s'.buffer = s.buffer ∧ s'.ier = s.ier := by
  have hmet : s.txq.q.met .not_empty = true := by simp [Intq.met, hready]
  have hroom : (s.txq.q.setRing s.txq.q.get).met .not_full = true := by
    have hfull := RingBuffer.isFull_get hready
    simp [Intq.met, hfull]
  rcases h.tx.signal_waiter hroom with ⟨q, hq, hmon, hring, _, hplace⟩
  have hget : s.txq.intq_getc t = some (q, some (s.txq.q.buf s.txq.q.tail)) := by
    simp [IntqState.intq_getc, Monitor.await_met hmet, hq]
  refine ⟨(s.setTxq q).out_thr (s.txq.q.buf s.txq.q.tail), ?_, ⟨hmon, ?_, h.rx, h.rx_solo, ?_⟩,
    hring, rfl, rfl⟩
  · simp [SerialState.transmit, hget]
  · intro u
    rcases hplace u with hsame | ⟨_, hwoken⟩
    · change q.place u = .out ∨ (q.place u).inWait = true
      rw [hsame]
      exact h.tx_solo u
    · exact Or.inr (by simp [SerialState.setTxq, SerialState.out_thr, hwoken, Place.inWait])
  · -- the byte moves from the front of the queue to the end of what was sent
    have hcontents := RingBuffer.contents_get hready
    calc s.thr ++ [s.txq.q.buf s.txq.q.tail] ++ q.q.contents
        = s.thr ++ (s.txq.q.buf s.txq.q.tail :: s.txq.q.get.contents) := by
          rw [hring, List.append_assoc, List.singleton_append]
      _ = s.thr ++ s.txq.q.contents := by rw [hcontents]
      _ = s.enqueued := h.bytes

/-- There is room in `txq`: the byte is put there and the register written. -/
theorem putc_queue_ready (h : SerialCore s) (hroom : s.txq.q.isFull = false) (t : Option T)
    (byte : UInt8) : ∃ s', s.putc_queue t byte = some s' ∧ SerialInv s' := by
  have hmet : s.txq.q.met .not_full = true := by simp [Intq.met, hroom]
  have hready : (s.txq.q.setRing (s.txq.q.put byte)).met .not_empty = true := by
    have hempty := RingBuffer.isEmpty_put byte hroom
    simp [Intq.met, hempty]
  rcases h.tx.signal_other hmet hready with ⟨hsignal, hmon⟩
  have hput : s.txq.intq_putc t byte =
      some (s.txq.setQ (s.txq.q.setRing (s.txq.q.put byte)), true) := by
    have hsig : (s.txq.setQ (s.txq.q.setRing (s.txq.q.put byte))).signal .not_empty =
        some (s.txq.setQ (s.txq.q.setRing (s.txq.q.put byte))) := hsignal
    simp [IntqState.intq_putc, Monitor.await_met hmet, hsig]
  refine ⟨_, ?_, SerialCore.write_ier (s := (s.setTxq
    (s.txq.setQ (s.txq.q.setRing (s.txq.q.put byte)))).enqueue byte)
    ⟨hmon, h.tx_solo, h.rx, h.rx_solo, ?_⟩⟩
  · simp [SerialState.putc_queue, hput]
  · have hcontents := RingBuffer.contents_put byte hroom
    calc s.thr ++ (s.txq.q.put byte).contents
        = s.thr ++ s.txq.q.contents ++ [byte] := by rw [hcontents, List.append_assoc]
      _ = s.enqueued ++ [byte] := by rw [h.bytes]

/-- A thread that is alone in `serial_putc` puts its byte in `txq`, or sleeps with the queues as
they were. -/
theorem putc_queue_thread (h : SerialInv s) (hout : ∀ u, s.txq.place u = .out) (t : T)
    (byte : UInt8) : ∃ s', s.putc_queue (some t) byte = some s' ∧ SerialInv s' := by
  cases hfull : s.txq.q.isFull with
  | false =>
      exact putc_queue_ready h.toSerialCore hfull (some t) byte
  | true =>
      have hmet : s.txq.q.met .not_full = false := by simp [Intq.met, hfull]
      rcases h.tx.await_solo hout hmet t with ⟨q, hq, hmon, hsolo, hring⟩
      refine ⟨s.setTxq q, ?_, ⟨⟨hmon, hsolo, h.rx, h.rx_solo, ?_⟩, ?_⟩⟩
      · simp [SerialState.putc_queue, IntqState.intq_putc, hq]
      · have hbytes := h.bytes
        rwa [← hring] at hbytes
      · exact h.toIerMatched.congr rfl hring rfl

/-- With interrupts off before, `serial_putc` makes room by polling and never sleeps. -/
theorem serial_putc_off (h : SerialCore s) (t : Option T) (byte : UInt8) :
    ∃ s', s.serial_putc t true byte = some s' ∧ SerialInv s' := by
  cases hfull : s.txq.q.isFull with
  | false =>
      rcases putc_queue_ready h hfull t byte with ⟨s', hs', hinv⟩
      exact ⟨s', by simp [SerialState.serial_putc, hfull, hs'], hinv⟩
  | true =>
      have hready := RingBuffer.isEmpty_of_isFull (by decide) hfull
      rcases transmit_spec h hready t with ⟨s₁, hs₁, hcore, hring, _⟩
      have hroom : s₁.txq.q.isFull = false := by
        rw [hring]
        exact RingBuffer.isFull_get hready
      rcases putc_queue_ready hcore hroom t byte with ⟨s', hs', hinv⟩
      exact ⟨s', by simp [SerialState.serial_putc, hfull, hs₁, hs'], hinv⟩

theorem thread_putc_spec (h : SerialInv s) (hout : ∀ u, s.txq.place u = .out) (t : T) (off : Bool)
    (byte : UInt8) : ∃ s', s.thread_putc t off byte = some s' ∧ SerialInv s' := by
  have hinv : SerialInv { s with byte := Function.update s.byte t byte } :=
    ⟨⟨h.tx, h.tx_solo, h.rx, h.rx_solo, h.bytes⟩, h.toIerMatched.congr rfl rfl rfl⟩
  cases off with
  | true =>
      exact serial_putc_off hinv.toSerialCore (some t) byte
  | false =>
      rcases putc_queue_thread hinv hout t byte with ⟨s', hs', hinv'⟩
      exact ⟨s', by simpa [SerialState.thread_putc, SerialState.serial_putc] using hs', hinv'⟩

theorem serial_putc_resume_spec (h : SerialInv s) (ht : s.txq.place t = .wait_woken .not_full) :
    ∃ s', s.serial_putc_resume t = some s' ∧ SerialInv s' := by
  rcases h.tx.resume_wait_solo h.tx_solo ht with ⟨q, hq, hmon, hout, hring⟩
  have hinv : SerialInv (s.setTxq q) := by
    refine ⟨⟨hmon, fun u => Or.inl (hout u), h.rx, h.rx_solo, ?_⟩,
      h.toIerMatched.congr rfl hring rfl⟩
    have hbytes := h.bytes
    rwa [← hring] at hbytes
  rcases putc_queue_thread hinv hout t (s.byte t) with ⟨s', hs', hinv'⟩
  exact ⟨s', by simp [SerialState.serial_putc_resume, hq, hs'], hinv'⟩

/-! ## Input -/

omit [DecidableEq T] in
/-- The input buffer may be replaced as long as its monitor is in order. -/
theorem SerialCore.setBuffer (h : SerialCore s) {b : IntqState T} (hmon : Monitor .not_empty b)
    (hsolo : Solo b) : SerialCore (s.setBuffer b) :=
  ⟨h.tx, h.tx_solo, hmon, hsolo, h.bytes⟩

/-- A thread that is alone in `input_getc` takes a key, or sleeps with the queues as they were. -/
theorem input_getc_solo {b : IntqState T} (h : Monitor .not_empty b)
    (hout : ∀ u, b.place u = .out) (t : T) :
    ∃ b' key, input_getc b t = some (b', key) ∧ Monitor .not_empty b' ∧ Solo b' ∧
      (key = none → b'.q.toRingBuffer = b.q.toRingBuffer) := by
  cases hempty : b.q.isEmpty with
  | false =>
      rcases input_getc_ready (t := t) h hempty with ⟨hget, hmon⟩
      refine ⟨_, _, hget, hmon, fun u => Or.inl (hout u), fun hnone => ?_⟩
      cases hnone
  | true =>
      have hmet : b.q.met .not_empty = false := by simp [Intq.met, hempty]
      rcases h.await_solo hout hmet t with ⟨b', hb', hmon, hsolo, hring⟩
      refine ⟨b', none, ?_, hmon, hsolo, fun _ => hring⟩
      simp [input_getc, IntqState.intq_getc, hb']

omit [DecidableEq T] in
theorem input_notify_spec (h : SerialInv s) {b : IntqState T} {key : Option UInt8}
    (hmon : Monitor .not_empty b) (hsolo : Solo b)
    (hring : key = none → b.q.toRingBuffer = s.buffer.q.toRingBuffer) :
    ∃ s', s.input_notify (some (b, key)) = some s' ∧ SerialInv s' := by
  have hcore := h.toSerialCore.setBuffer hmon hsolo
  cases key with
  | none =>
      exact ⟨s.setBuffer b, rfl, hcore, h.toIerMatched.congr rfl rfl (hring rfl)⟩
  | some key =>
      exact ⟨_, rfl, hcore.write_ier⟩

theorem getc_spec (h : SerialInv s) (hout : ∀ u, s.buffer.place u = .out) (t : T) :
    ∃ s', s.input_notify (input_getc s.buffer t) = some s' ∧ SerialInv s' := by
  rcases input_getc_solo h.rx hout t with ⟨b, key, hget, hmon, hsolo, hring⟩
  rw [hget]
  exact input_notify_spec h hmon hsolo hring

theorem getc_resume_spec (h : SerialInv s) (ht : s.buffer.place t = .wait_woken .not_empty) :
    ∃ s', s.input_notify (input_getc_resume s.buffer t) = some s' ∧ SerialInv s' := by
  rcases h.rx.resume_wait_solo h.rx_solo ht with ⟨b₁, hb₁, hmon₁, hout, hring₁⟩
  rcases input_getc_solo hmon₁ hout t with ⟨b, key, hget, hmon, hsolo, hring⟩
  have hresume : input_getc_resume s.buffer t = some (b, key) := by
    rw [input_getc_resume, hb₁]
    exact hget
  rw [hresume]
  exact input_notify_spec h hmon hsolo fun hnone => (hring hnone).trans hring₁

theorem putc_notify_spec (h : SerialCore s) (key : UInt8) (hroom : s.input_full = false) :
    ∃ s', s.putc_notify key = some s' ∧ SerialInv s' := by
  rcases input_putc_spec h.rx key hroom with ⟨b, hb, hmon, _, hplace⟩
  have hsolo : Solo b := by
    intro u
    rcases hplace u with hsame | ⟨_, hwoken⟩
    · rw [hsame]
      exact h.rx_solo u
    · exact Or.inr (by rw [hwoken]; rfl)
  exact ⟨_, by rw [SerialState.putc_notify, hb]; rfl, (h.setBuffer hmon hsolo).write_ier⟩

/-! ## The interrupt handler -/

theorem receive_loop_spec (keys : List UInt8) : ∀ {s : SerialState T}, SerialCore s →
    ∃ s', SerialState.receive_loop keys s = some s' ∧ SerialCore s' := by
  induction keys with
  | nil =>
      exact fun {s} h => ⟨s, rfl, h⟩
  | cons key keys ih =>
      intro s h
      cases hfull : s.input_full with
      | true =>
          exact ⟨s, by simp [SerialState.receive_loop, hfull], h⟩
      | false =>
          rcases putc_notify_spec h key hfull with ⟨s₁, hs₁, hinv⟩
          rcases ih hinv.toSerialCore with ⟨s', hs', hcore⟩
          exact ⟨s', by simp [SerialState.receive_loop, hfull, hs₁, hs'], hcore⟩

theorem transmit_loop_spec (n : Nat) : ∀ {s : SerialState T}, SerialCore s →
    ∃ s', SerialState.transmit_loop n s = some s' ∧ SerialCore s' ∧
      (s'.buffer = s.buffer ∧ s'.ier = s.ier) ∧
      (s.txq.q.contents.length ≤ n → s'.txq.q.isEmpty = true) := by
  induction n with
  | zero =>
      refine fun {s} h => ⟨s, rfl, h, ⟨rfl, rfl⟩, fun hlen => ?_⟩
      exact RingBuffer.isEmpty_iff_contents.2 (List.length_eq_zero_iff.1 (Nat.le_zero.1 hlen))
  | succ n ih =>
      intro s h
      cases hempty : s.txq.q.isEmpty with
      | true =>
          exact ⟨s, by simp [SerialState.transmit_loop, hempty], h, ⟨rfl, rfl⟩, fun _ => hempty⟩
      | false =>
          rcases transmit_spec h hempty none with ⟨s₁, hs₁, hcore, hring, hbuf, hier⟩
          rcases ih hcore with ⟨s', hs', hcore', ⟨hbuf', hier'⟩, hlen⟩
          refine ⟨s', ?_, hcore', ⟨hbuf'.trans hbuf, hier'.trans hier⟩, fun hle => hlen ?_⟩
          · simp [SerialState.transmit_loop, hempty, hs₁, hs']
          · rw [RingBuffer.contents_get hempty, List.length_cons] at hle
            rw [hring]
            exact Nat.le_of_succ_le_succ hle

theorem serial_interrupt_spec (h : SerialCore s) (keys : List UInt8) (ready : Nat) :
    ∃ s', s.serial_interrupt keys ready = some s' ∧ SerialInv s' := by
  rcases receive_loop_spec keys h with ⟨s₁, hs₁, hcore₁⟩
  rcases transmit_loop_spec ready hcore₁ with ⟨s₂, hs₂, hcore₂, _⟩
  exact ⟨_, by simp [SerialState.serial_interrupt, hs₁, hs₂], hcore₂.write_ier⟩

/-- `serial_flush` does not write the register, but it leaves nothing to transmit. -/
theorem serial_flush_spec (h : SerialInv s) : ∃ s', s.serial_flush = some s' ∧ SerialInv s' := by
  rcases transmit_loop_spec INTQ_BUFSIZE h.toSerialCore with ⟨s', hs', hcore, ⟨hbuf, hier⟩, hlen⟩
  have hempty := hlen (Nat.le_of_lt (RingBuffer.length_contents_lt s.txq.q.toRingBuffer))
  refine ⟨s', hs', hcore, fun hready => ?_, ?_⟩
  · rw [hempty] at hready
    cases hready
  · rw [hier, hbuf]
    exact h.recv

/-! ## Runs -/

omit [DecidableEq T] in
/-- A thread that sleeps alone is never unblocked on the queue's lock. -/
theorem Solo.not_lock_woken {q : IntqState T} (h : Solo q) {w : Waiter}
    (ht : q.place t = .lock_woken w) : False := by
  rcases h t with hout | hwait
  · rw [hout] at ht
    cases ht
  · rw [ht] at hwait
    cases hwait

/-- One section: no assertion fails, and the register is matched at its end. -/
theorem serial_section_spec (h : SerialInv s) {e : SerialEvent T} (he : serial_enabled s e) :
    ∃ s', serial_section s e = some s' ∧ SerialInv s' := by
  cases e with
  | putc t off byte =>
      exact thread_putc_spec h he.1 t off byte
  | putc_lock t =>
      exact absurd (h.tx_solo.not_lock_woken he) id
  | putc_resume t =>
      exact serial_putc_resume_spec h he
  | putc_interrupt byte =>
      exact serial_putc_off h.toSerialCore none byte
  | getc t =>
      exact getc_spec h he.1 t
  | getc_lock t =>
      exact absurd (h.rx_solo.not_lock_woken he) id
  | getc_resume t =>
      exact getc_resume_spec h he
  | key key =>
      exact putc_notify_spec h.toSerialCore key he
  | notify =>
      exact ⟨_, rfl, h.toSerialCore.write_ier⟩
  | interrupt keys ready =>
      exact serial_interrupt_spec h.toSerialCore keys ready
  | flush =>
      exact serial_flush_spec h

omit [DecidableEq T] in
theorem intq_idle_monitor (w : Waiter) (r : RingBuffer UInt8 INTQ_BUFSIZE) :
    Monitor w (intq_idle r : IntqState T) := by
  have hnone : ∀ w, (intq_idle r : IntqState T).q.waiter w = none := by
    intro w
    cases w <;> rfl
  constructor
  · exact hnone _
  · intro t w' hw
    cases hw
  · intro t
    rw [hnone]
    simp [intq_idle]
  · intro t ht
    rw [hnone] at ht
    cases ht
  · intro t
    simp [intq_idle, Intq.setRing, Intq.init, Place.inWait, lock_init]
  · rfl
  · intro t
    simp [intq_idle, Intq.setRing, Intq.init, lock_init]
  · exact List.nodup_nil

theorem SerialInv.init {o : Option (SerialState T)} (h0 : (serialSystem T).init o) :
    ∃ s, o = some s ∧ SerialInv s := by
  rcases h0 with ⟨r, byte, ier, rfl⟩
  refine ⟨_, rfl, SerialCore.write_ier ⟨intq_idle_monitor _ _, fun _ => Or.inl rfl,
    intq_idle_monitor _ r, fun _ => Or.inl rfl, rfl⟩⟩

theorem serial_reachable_inv {o : Option (SerialState T)} (h : (serialSystem T).Reachable o) :
    ∃ s, o = some s ∧ SerialInv s := by
  refine h.invariant (I := fun o => ∃ s, o = some s ∧ SerialInv s)
    (fun _ h0 => SerialInv.init h0) ?_
  rintro _ e _ ⟨s, rfl, hinv⟩ ⟨s', hs', he, rfl⟩
  cases hs'
  exact serial_section_spec hinv he

/-! ## What a step puts in `txq` -/

/-- The bytes that a step puts in `txq`: that of its `serial_putc`, unless the thread has gone to
sleep there. -/
def SerialEvent.put (s s' : SerialState T) : SerialEvent T → List UInt8
  | .putc t _ byte => if s'.txq.place t = .out then [byte] else []
  | .putc_resume t => if s'.txq.place t = .out then [s.byte t] else []
  | .putc_interrupt byte => [byte]
  | _ => []

/-- The bytes of the calls of `serial_putc` after a step. -/
def SerialEvent.bytes (s : SerialState T) : SerialEvent T → T → UInt8
  | .putc t _ byte => Function.update s.byte t byte
  | _ => s.byte

/-- The bytes `l` have been put in `txq`. -/
structure Puts (s s' : SerialState T) (l : List UInt8) : Prop where
  enqueued : s'.enqueued = s.enqueued ++ l
  byte : s'.byte = s.byte

omit [DecidableEq T] in
theorem Puts.nothing {s s' : SerialState T} (henqueued : s'.enqueued = s.enqueued)
    (hbyte : s'.byte = s.byte) : Puts s s' [] :=
  ⟨henqueued.trans (List.append_nil _).symm, hbyte⟩

omit [DecidableEq T] in
theorem Puts.trans {s₁ s₂ s₃ : SerialState T} {l : List UInt8} (h₁ : Puts s₁ s₂ [])
    (h₂ : Puts s₂ s₃ l) : Puts s₁ s₃ l :=
  ⟨by rw [h₂.enqueued, h₁.enqueued, List.append_nil], h₂.byte.trans h₁.byte⟩

namespace IntqState

variable {q q' : IntqState T}

theorem thread_unblock_out {u : T} (h : q.thread_unblock u = some q') (ht : q.place t = .out) :
    q'.place t = .out := by
  have hne : q.place u ≠ .out → t ≠ u := fun hu heq => hu (heq ▸ ht)
  rw [thread_unblock] at h
  cases hu : q.place u <;> rw [hu] at h hne <;> cases h
  · exact (Function.update_of_ne (hne Place.noConfusion) _ _).trans ht
  · exact (Function.update_of_ne (hne Place.noConfusion) _ _).trans ht

theorem signal_out {w : Waiter} (h : q.signal w = some q') (ht : q.place t = .out) :
    q'.place t = .out := by
  rw [signal] at h
  split at h
  · split at h
    · cases h
      exact ht
    · rcases Option.map_eq_some_iff.1 h with ⟨q₁, hq₁, rfl⟩
      exact (thread_unblock_out hq₁ ht :)
  · cases h

theorem lock_release_out {u : T} (h : q.lock_release u = some q') (ht : q.place t = .out) :
    q'.place t = .out := by
  rw [lock_release] at h
  split at h
  · dsimp only at h
    split at h
    · cases h
      exact ht
    · exact thread_unblock_out h ht
  · cases h

theorem lock_wait_sleeps {w : Waiter} (h : q.lock_wait w t = some q') : q'.place t ≠ .out := by
  have hsleep : ∀ (q₁ : IntqState T) {p : Place}, p ≠ .out →
      (q₁.thread_block t p).place t ≠ .out := by
    intro q₁ p hp heq
    have hself : (q₁.thread_block t p).place t = p := Function.update_self ..
    exact hp (hself.symm.trans heq)
  rw [lock_wait] at h
  split at h
  · cases h
    exact hsleep _ Place.noConfusion
  · rw [wait] at h
    split at h
    · cases h
    · cases h
      exact hsleep _ Place.noConfusion

/-- A writer is at the end of `intq_putc` exactly when it does not sleep there. -/
theorem intq_putc_place {byte : UInt8} {done : Bool} (ht : q.place t = .out)
    (h : q.intq_putc (some t) byte = some (q', done)) : done = true ↔ q'.place t = .out := by
  rcases Option.bind_eq_some_iff.1 h with ⟨⟨q₁, ready⟩, hawait, hrest⟩
  rw [await] at hawait
  split at hawait
  · cases hawait
    rcases Option.bind_eq_some_iff.1 hrest with ⟨q₂, hsignal, hq₂⟩
    cases hq₂
    exact iff_of_true rfl (signal_out hsignal ht)
  · split at hawait
    · cases hawait
    · rcases Option.map_eq_some_iff.1 hawait with ⟨q₂, hwait, heq⟩
      cases heq
      cases hrest
      exact iff_of_false (by decide) (lock_wait_sleeps hwait)

/-- An interrupt handler does not sleep in `intq_putc`. -/
theorem intq_putc_done {byte : UInt8} {done : Bool}
    (h : q.intq_putc none byte = some (q', done)) : done = true := by
  rcases Option.bind_eq_some_iff.1 h with ⟨⟨q₁, ready⟩, hawait, hrest⟩
  rw [await] at hawait
  split at hawait
  · cases hawait
    rcases Option.bind_eq_some_iff.1 hrest with ⟨q₂, _, hq₂⟩
    cases hq₂
    rfl
  · cases hawait

/-- Taking a byte leaves the threads outside the queue there. -/
theorem intq_getc_out {u : Option T} {byte : Option UInt8} (hready : q.q.isEmpty = false)
    (ht : q.place t = .out) (h : q.intq_getc u = some (q', byte)) : q'.place t = .out := by
  have hmet : q.q.met .not_empty = true := by simp [Intq.met, hready]
  have hawait : q.await .not_empty u = some (q, true) := by rw [await.eq_def, if_pos hmet]
  rw [intq_getc, hawait] at h
  have htake := (Option.bind_some ..).symm.trans h
  rcases Option.bind_eq_some_iff.1 htake with ⟨q₁, hsignal, hq₁⟩
  cases hq₁
  exact (signal_out hsignal ht :)

end IntqState

namespace SerialState

variable {s' : SerialState T}

theorem transmit_puts {u : Option T} (h : s.transmit u = some s') : Puts s s' [] := by
  rcases Option.bind_eq_some_iff.1 h with ⟨⟨q, byte⟩, _, hrest⟩
  cases byte <;> cases hrest <;> exact Puts.nothing rfl rfl

theorem putc_queue_puts {u : Option T} {byte : UInt8} (h : s.putc_queue u byte = some s') :
    ∃ done, s.txq.intq_putc u byte = some (s'.txq, done) ∧
      Puts s s' (if done then [byte] else []) := by
  rcases Option.bind_eq_some_iff.1 h with ⟨⟨q, done⟩, hputc, hrest⟩
  cases done <;> cases hrest
  · exact ⟨false, hputc, Puts.nothing rfl rfl⟩
  · exact ⟨true, hputc, rfl, rfl⟩

/-- A thread outside `txq` puts its byte there, or sleeps. -/
theorem putc_queue_thread_puts {byte : UInt8} (ht : s.txq.place t = .out)
    (h : s.putc_queue (some t) byte = some s') :
    Puts s s' (if s'.txq.place t = .out then [byte] else []) := by
  rcases putc_queue_puts h with ⟨done, hputc, hputs⟩
  have hplace := IntqState.intq_putc_place ht hputc
  cases done with
  | false =>
      rwa [if_neg fun hout => Bool.noConfusion (hplace.2 hout)]
  | true =>
      rwa [if_pos (hplace.1 rfl)]

/-- Polling first, when interrupts were off and the queue full, changes neither of them. -/
theorem serial_putc_polls {u : Option T} {off : Bool} {byte : UInt8}
    (h : s.serial_putc u off byte = some s') :
    ∃ s₁, s₁.putc_queue u byte = some s' ∧ Puts s s₁ [] ∧
      ∀ t, s.txq.place t = .out → s₁.txq.place t = .out := by
  rw [serial_putc] at h
  split at h
  case isTrue hfull =>
    have hready := RingBuffer.isEmpty_of_isFull (by decide) (Bool.and_eq_true_iff.1 hfull).2
    rcases Option.bind_eq_some_iff.1 h with ⟨s₁, hpoll, hqueue⟩
    refine ⟨s₁, hqueue, transmit_puts hpoll, fun t ht => ?_⟩
    rcases Option.bind_eq_some_iff.1 hpoll with ⟨⟨q, sent⟩, hgetc, hrest⟩
    have hq : q.place t = .out := IntqState.intq_getc_out hready ht hgetc
    cases sent <;> cases hrest <;> exact hq
  case isFalse =>
    exact ⟨s, h, Puts.nothing rfl rfl, fun _ ht => ht⟩

theorem serial_putc_puts {off : Bool} {byte : UInt8} (ht : s.txq.place t = .out)
    (h : s.serial_putc (some t) off byte = some s') :
    Puts s s' (if s'.txq.place t = .out then [byte] else []) := by
  rcases serial_putc_polls h with ⟨s₁, hqueue, hpoll, hout⟩
  exact hpoll.trans (putc_queue_thread_puts (hout t ht) hqueue)

theorem serial_putc_interrupt_puts {off : Bool} {byte : UInt8}
    (h : s.serial_putc none off byte = some s') : Puts s s' [byte] := by
  rcases serial_putc_polls h with ⟨s₁, hqueue, hpoll, _⟩
  rcases putc_queue_puts hqueue with ⟨done, hputc, hputs⟩
  rw [IntqState.intq_putc_done hputc] at hputs
  exact hpoll.trans hputs

theorem serial_putc_resume_puts (h : s.serial_putc_resume t = some s') :
    Puts s s' (if s'.txq.place t = .out then [s.byte t] else []) := by
  rcases Option.bind_eq_some_iff.1 h with ⟨q, hresume, hqueue⟩
  have hself : (s.txq.setPlace t .out).place t = .out := Function.update_self ..
  have hout : q.place t = .out := IntqState.lock_release_out hresume hself
  have hputs : Puts (s.setTxq q) s' (if s'.txq.place t = .out then [s.byte t] else []) :=
    putc_queue_thread_puts hout hqueue
  exact ⟨hputs.enqueued, hputs.byte⟩

omit [DecidableEq T] in
theorem input_notify_puts {r : Option (IntqState T × Option UInt8)}
    (h : s.input_notify r = some s') : Puts s s' [] := by
  rcases Option.bind_eq_some_iff.1 h with ⟨⟨b, key⟩, _, hrest⟩
  cases key <;> cases hrest <;> exact Puts.nothing rfl rfl

theorem putc_notify_puts {key : UInt8} (h : s.putc_notify key = some s') : Puts s s' [] := by
  rcases Option.map_eq_some_iff.1 h with ⟨b, _, rfl⟩
  exact Puts.nothing rfl rfl

theorem receive_loop_puts (keys : List UInt8) : ∀ {s s' : SerialState T},
    receive_loop keys s = some s' → Puts s s' [] := by
  induction keys with
  | nil =>
      intro s s' h
      cases h
      exact Puts.nothing rfl rfl
  | cons key keys ih =>
      intro s s' h
      rw [receive_loop] at h
      split at h
      · cases h
        exact Puts.nothing rfl rfl
      · rcases Option.bind_eq_some_iff.1 h with ⟨s₁, hputc, hrest⟩
        exact (putc_notify_puts hputc).trans (ih hrest)

theorem transmit_loop_puts (n : Nat) : ∀ {s s' : SerialState T},
    transmit_loop n s = some s' → Puts s s' [] := by
  induction n with
  | zero =>
      intro s s' h
      cases h
      exact Puts.nothing rfl rfl
  | succ n ih =>
      intro s s' h
      rw [transmit_loop] at h
      split at h
      · cases h
        exact Puts.nothing rfl rfl
      · rcases Option.bind_eq_some_iff.1 h with ⟨s₁, hsend, hrest⟩
        exact (transmit_puts hsend).trans (ih hrest)

theorem serial_interrupt_puts {keys : List UInt8} {ready : Nat}
    (h : s.serial_interrupt keys ready = some s') : Puts s s' [] := by
  rcases Option.bind_eq_some_iff.1 h with ⟨s₁, hreceive, hrest⟩
  rcases Option.bind_eq_some_iff.1 hrest with ⟨s₂, htransmit, hs₂⟩
  cases hs₂
  have hputs := (receive_loop_puts keys hreceive).trans (transmit_loop_puts ready htransmit)
  exact ⟨hputs.enqueued, hputs.byte⟩

end SerialState

/-- One section: `enqueued` grows by what the section puts in `txq`, and nothing else changes it. -/
theorem serial_section_puts {s' : SerialState T} {e : SerialEvent T} (he : serial_enabled s e)
    (h : serial_section s e = some s') :
    s'.enqueued = s.enqueued ++ e.put s s' ∧ s'.byte = e.bytes s := by
  have hkeeps : Puts s s' [] → s'.enqueued = s.enqueued ++ [] ∧ s'.byte = s.byte :=
    fun hputs => ⟨hputs.enqueued, hputs.byte⟩
  cases e with
  | putc t off byte =>
      have hputs := SerialState.serial_putc_puts (s := { s with
        byte := Function.update s.byte t byte }) (he.1 t) h
      exact ⟨hputs.enqueued, hputs.byte⟩
  | putc_lock t =>
      rcases Option.map_eq_some_iff.1 h with ⟨q, _, rfl⟩
      exact hkeeps (Puts.nothing rfl rfl)
  | putc_resume t =>
      have hputs := SerialState.serial_putc_resume_puts h
      exact ⟨hputs.enqueued, hputs.byte⟩
  | putc_interrupt byte =>
      have hputs := SerialState.serial_putc_interrupt_puts h
      exact ⟨hputs.enqueued, hputs.byte⟩
  | getc t =>
      exact hkeeps (SerialState.input_notify_puts h)
  | getc_lock t =>
      rcases Option.map_eq_some_iff.1 h with ⟨b, _, rfl⟩
      exact hkeeps (Puts.nothing rfl rfl)
  | getc_resume t =>
      exact hkeeps (SerialState.input_notify_puts h)
  | key key =>
      exact hkeeps (SerialState.putc_notify_puts h)
  | notify =>
      cases h
      exact hkeeps (Puts.nothing rfl rfl)
  | interrupt keys ready =>
      exact hkeeps (SerialState.serial_interrupt_puts h)
  | flush =>
      exact hkeeps (SerialState.transmit_loop_puts INTQ_BUFSIZE h)

/-- In every state of every run: no assertion has failed; whenever `txq` holds a byte the transmit
interrupt is enabled, and the receive interrupt is enabled exactly when the input buffer is not
full; what was written to the port, followed by what is in `txq`, is what `serial_putc` has
enqueued; and each step enqueues the byte of the `serial_putc` that comes to its end in it, and
nothing else. -/
theorem serial_runs_good {o : Option (SerialState T)} (h : (serialSystem T).Reachable o) :
    ∃ s, o = some s ∧
      (s.txq.q.isEmpty = false → s.ier &&& IER_XMIT ≠ 0) ∧
      (s.ier &&& IER_RECV ≠ 0 ↔ s.buffer.q.isFull = false) ∧
      s.thr ++ s.txq.q.contents = s.enqueued ∧
      ∀ e o', (serialSystem T).step (some s) e o' → ∃ s', o' = some s' ∧
        s'.enqueued = s.enqueued ++ e.put s s' ∧ s'.byte = e.bytes s := by
  rcases serial_reachable_inv h with ⟨s, hs, hinv⟩
  refine ⟨s, hs, hinv.xmit, hinv.recv, hinv.bytes, ?_⟩
  rintro e _ ⟨s₁, hs₁, he, rfl⟩
  cases hs₁
  rcases serial_section_spec hinv he with ⟨s', hs', _⟩
  exact ⟨s', hs', serial_section_puts he hs'⟩

theorem serial_step {s s' : SerialState T} {e : SerialEvent T} (he : serial_enabled s e)
    (hs : serial_section s e = some s') : (serialSystem T).step (some s) e (some s') :=
  ⟨s, rfl, he, hs.symm⟩

/-- A thread puts a byte, another waits for a key, and both are served by one interrupt. -/
theorem serial_runs_good_two : ∃ s : SerialState (Fin 2),
    (serialSystem (Fin 2)).Reachable (some s) ∧ s.thr = [65] ∧
      s.thr ++ s.txq.q.contents = s.enqueued := by
  have h0 : (serialSystem (Fin 2)).Reachable (some (SerialState.write_ier
      ⟨input_init, intq_idle ⟨fun _ => 0, 0, 0⟩, 0, [], [], fun _ => 0⟩)) :=
    System.Reachable.init (M := serialSystem (Fin 2)) ⟨_, _, _, rfl⟩
  have h1 := h0.step (l := SerialEvent.putc (0 : Fin 2) false 65)
    (serial_step ⟨fun _ => rfl, rfl⟩ rfl)
  have h2 := h1.step (l := SerialEvent.getc (1 : Fin 2)) (serial_step ⟨fun _ => rfl, rfl⟩ rfl)
  have h3 := h2.step (l := SerialEvent.interrupt (T := Fin 2) [66] 1) (serial_step trivial rfl)
  rcases serial_runs_good h3 with ⟨s, hs, _, _, hbytes, _⟩
  refine ⟨s, hs ▸ h3, ?_, hbytes⟩
  rw [← Option.some.inj hs]
  rfl

end Berk162
