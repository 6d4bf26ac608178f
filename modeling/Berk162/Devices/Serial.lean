import Berk162.Devices.Input

/-!
# Serial — interrupt-driven serial output and input of `devices/serial.c`

The port is in mode `QUEUE`.  `txq` holds the bytes to be transmitted; its writers are threads in
`serial_putc`, its readers interrupt handlers.  The input buffer holds the bytes received; its
reader is a thread in `input_getc`, its writers interrupt handlers.  A step is what a thread or an
interrupt handler does with interrupts off; what the port answers is part of the step's label.
-/

namespace Berk162

/-- Transmit and receive interrupt enable. -/
def IER_RECV : UInt8 := 0x01

def IER_XMIT : UInt8 := 0x02

/-- The two queues and the port. -/
structure SerialState (T : Type) where
  txq : IntqState T
  buffer : IntqState T
  /-- The last value written to the interrupt enable register. -/
  ier : UInt8
  /-- What has been written to the transmitter holding register. -/
  thr : List UInt8
  /-- The bytes that `serial_putc` has put in `txq`. -/
  enqueued : List UInt8
  /-- The byte of the `serial_putc` in which a thread sleeps. -/
  byte : T → UInt8

variable {T : Type} [DecidableEq T]

namespace SerialState

variable (s : SerialState T)

/-- `input_full`. -/
def input_full : Bool := s.buffer.q.isFull

def setTxq (q : IntqState T) : SerialState T := { s with txq := q }

def setBuffer (b : IntqState T) : SerialState T := { s with buffer := b }

/-- `outb (THR_REG, byte)`. -/
def out_thr (byte : UInt8) : SerialState T := { s with thr := s.thr ++ [byte] }

/-- The byte is in `txq`. -/
def enqueue (byte : UInt8) : SerialState T := { s with enqueued := s.enqueued ++ [byte] }

/-- `write_ier`. -/
def write_ier : SerialState T :=
  let ier := 0
  let ier := if !s.txq.q.isEmpty then ier ||| IER_XMIT else ier
  let ier := if !s.input_full then ier ||| IER_RECV else ier
  { s with ier := ier }

/-- `serial_notify`. -/
def serial_notify : SerialState T := s.write_ier

/-- The oldest byte of `txq` goes to the port: `outb (THR_REG, intq_getc (&txq))`, or
`putc_poll (intq_getc (&txq))`, which waits for the port first. -/
def transmit (t : Option T) : Option (SerialState T) := do
  let (q, byte) ← s.txq.intq_getc t
  match byte with
  | some byte => return (s.setTxq q).out_thr byte
  | none => return s.setTxq q

/-- The last part of `serial_putc`: `intq_putc (&txq, byte)` and what follows it. -/
def putc_queue (t : Option T) (byte : UInt8) : Option (SerialState T) := do
  let (q, done) ← s.txq.intq_putc t byte
  if done then return ((s.setTxq q).enqueue byte).write_ier
  else return s.setTxq q

/-- `serial_putc` by a thread or, without one, by an interrupt handler; `off` tells whether
interrupts were off before. -/
def serial_putc (t : Option T) (off : Bool) (byte : UInt8) : Option (SerialState T) := do
  let s ← if off && s.txq.q.isFull then s.transmit t else some s
  s.putc_queue t byte

/-- The call of `serial_putc` by the thread `t`, which keeps its byte if it has to sleep. -/
def thread_putc (t : T) (off : Bool) (byte : UInt8) : Option (SerialState T) :=
  { s with byte := Function.update s.byte t byte }.serial_putc (some t) off byte

/-- `serial_putc` from where its thread runs again after its block in `wait`. -/
def serial_putc_resume (t : T) : Option (SerialState T) := do
  let q ← s.txq.resume_wait t
  (s.setTxq q).putc_queue (some t) (s.byte t)

/-- `input_getc` with its `serial_notify`. -/
def input_notify (r : Option (IntqState T × Option UInt8)) : Option (SerialState T) := do
  let (b, key) ← r
  match key with
  | some _ => return (s.setBuffer b).serial_notify
  | none => return s.setBuffer b

/-- `input_putc` with its `serial_notify`. -/
def putc_notify (key : UInt8) : Option (SerialState T) :=
  (input_putc s.buffer key).map fun b => (s.setBuffer b).serial_notify

/-- The first loop of `serial_interrupt`; the list has the bytes that the port has received. -/
def receive_loop : List UInt8 → SerialState T → Option (SerialState T)
  | [], s => some s
  | key :: keys, s =>
      if s.input_full then some s else (s.putc_notify key).bind (receive_loop keys)

/-- The second loop of `serial_interrupt`; the number says how often in a row the port is ready to
accept a byte. -/
def transmit_loop : Nat → SerialState T → Option (SerialState T)
  | 0, s => some s
  | n + 1, s =>
      if s.txq.q.isEmpty then some s else (s.transmit none).bind (transmit_loop n)

/-- `serial_interrupt`. -/
def serial_interrupt (keys : List UInt8) (ready : Nat) : Option (SerialState T) := do
  let s ← receive_loop keys s
  let s ← transmit_loop ready s
  return s.write_ier

/-- `serial_flush`: `putc_poll` waits until the port is ready. -/
def serial_flush : Option (SerialState T) := transmit_loop INTQ_BUFSIZE s

end SerialState

/-! ## Runs -/

inductive SerialEvent (T : Type)
  | putc (t : T) (off : Bool) (byte : UInt8)
  | putc_lock (t : T)
  | putc_resume (t : T)
  | putc_interrupt (byte : UInt8)
  | getc (t : T)
  | getc_lock (t : T)
  | getc_resume (t : T)
  | key (key : UInt8)
  | notify
  | interrupt (keys : List UInt8) (ready : Nat)
  | flush

/-- A thread is where the step takes it from, one thread at a time is in `serial_putc` and one in
`input_getc`, and the keyboard's handler has checked `input_full`. -/
def serial_enabled (s : SerialState T) : SerialEvent T → Prop
  | .putc t _ _ => (∀ u, s.txq.place u = .out) ∧ s.buffer.place t = .out
  | .putc_lock t => s.txq.place t = .lock_woken .not_full
  | .putc_resume t => s.txq.place t = .wait_woken .not_full
  | .putc_interrupt _ => True
  | .getc t => (∀ u, s.buffer.place u = .out) ∧ s.txq.place t = .out
  | .getc_lock t => s.buffer.place t = .lock_woken .not_empty
  | .getc_resume t => s.buffer.place t = .wait_woken .not_empty
  | .key _ => s.input_full = false
  | .notify => True
  | .interrupt _ _ => True
  | .flush => True

def serial_section (s : SerialState T) : SerialEvent T → Option (SerialState T)
  | .putc t off byte => s.thread_putc t off byte
  | .putc_lock t => (s.txq.resume_lock .not_full t).map s.setTxq
  | .putc_resume t => s.serial_putc_resume t
  | .putc_interrupt byte => s.serial_putc none true byte
  | .getc t => s.input_notify (input_getc s.buffer t)
  | .getc_lock t => (s.buffer.resume_lock .not_empty t).map s.setBuffer
  | .getc_resume t => s.input_notify (input_getc_resume s.buffer t)
  | .key key => s.putc_notify key
  | .notify => some s.serial_notify
  | .interrupt keys ready => s.serial_interrupt keys ready
  | .flush => s.serial_flush

/-- A queue that nobody uses. -/
def intq_idle (r : RingBuffer UInt8 INTQ_BUFSIZE) : IntqState T :=
  ⟨Intq.init.setRing r, fun _ => .out⟩

/-- The runs of the port from the end of `serial_init_queue`: keys may have come in before. -/
def serialSystem (T : Type) [DecidableEq T] : System (Option (SerialState T)) (SerialEvent T) where
  init o := ∃ r byte ier, o = some
    (SerialState.write_ier ⟨⟨Intq.init, fun _ => .out⟩, intq_idle r, ier, [], [], byte⟩)
  step o e o' := ∃ s, o = some s ∧ serial_enabled s e ∧ o' = serial_section s e

end Berk162
