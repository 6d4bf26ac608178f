import Berk162.Devices.Kbd

/-!
# KbdRuns — what is typed is what is read

The interrupts of the keyboard and of the serial port, and any number of threads in `input_getc`,
come in any order.  `Typing` says what a keyboard is for: it looks at the keys that have gone down
and up so far, and at nothing else.  Every run of the driver with the input buffer agrees with it.
-/

namespace Berk162

open Kbd KbdState

/-! ## The keyboard -/

/-- A key goes down or up. -/
structure KeyEvent where
  code : UInt32
  release : Bool

/-- What the two bytes of the data register say. -/
def key_event (data data' : UInt8) : KeyEvent where
  code := read_scancode data data' &&& ~~~0x80
  release := decide (read_scancode data data' &&& 0x80 ≠ 0)

section

variable (es : List KeyEvent)

/-- A key is down if it went down last. -/
def held (code : UInt32) : Bool :=
  (es.filter fun e => e.code = code).getLast?.any fun e => !e.release

def shift_held : Bool := held es 0x2a || held es 0x36

def alt_held : Bool := held es 0x38 || held es 0xe038

def ctrl_held : Bool := held es 0x1d || held es 0xe01d

/-- Caps Lock is on after an odd number of presses. -/
def caps_on : Bool := decide ((es.countP fun e => e.code = 0x3a && !e.release) % 2 = 1)

/-- The character that stands on a key. -/
def legend (code : UInt32) : Option UInt8 :=
  (map_key invariant_keymap code).orElse fun _ =>
    map_key (if shift_held es then shifted_keymap else unshifted_keymap) code

/-- The byte for the character of a pressed key.  A letter stays a capital under one of Shift and
Caps Lock, Ctrl goes before both, and Alt adds the high bit. -/
def typed_byte (c : UInt8) : UInt8 :=
  let letter : Bool := 65 ≤ c && c ≤ 90
  let low := if ctrl_held es && (0x40 ≤ c && c < 0x60) then c - 0x40
    else if letter && !(shift_held es ^^ caps_on es) then c + 32
    else c
  if alt_held es then low + 0x80 else low

end

/-- The keys so far, the bytes that have gone into the input buffer, how many of these came from
the keyboard, and how many have been read. -/
structure Typing where
  keys : List KeyEvent
  text : Bytes
  key_cnt : Nat
  read : Nat
  rebooted : Bool

namespace Typing

def start : Typing := ⟨[], [], 0, 0, false⟩

/-- The buffer takes one byte less than it has cells. -/
def room (y : Typing) : Bool := decide (y.text.length - y.read < INTQ_BUFSIZE - 1)

def press (y : Typing) (c : UInt8) : Typing :=
  if c = 0x7f && ctrl_held y.keys && alt_held y.keys then { y with rebooted := true }
  else if y.room then
    { y with text := y.text ++ [typed_byte y.keys c], key_cnt := y.key_cnt + 1 }
  else y

def key (y : Typing) (e : KeyEvent) : Typing :=
  let y' := match legend y.keys e.code with
    | some c => if e.release then y else y.press c
    | none => y
  { y' with keys := y.keys ++ [e] }

end Typing

/-! ## Runs -/

variable {T : Type}

/-- The serial port gives its bytes to the buffer by `putc`. -/
inductive KbdEvent (T : Type)
  | key (data data' : UInt8)
  | input (e : InputEvent T)

/-- The bytes that a section of the input buffer adds. -/
def InputEvent.added : InputEvent T → Bytes
  | .putc byte => [byte]
  | _ => []

/-- With the byte that `input_getc` returns in the step. -/
abbrev KbdLabel (T : Type) := KbdEvent T × Option UInt8

namespace Typing

def step (y : Typing) : KbdLabel T → Typing
  | (.key data data', _) => y.key (key_event data data')
  | (.input e, byte) =>
      { y with text := y.text ++ e.added, read := y.read + byte.toList.length }

def run (ls : List (KbdLabel T)) : Typing := ls.foldl step start

@[simp] theorem run_nil : run ([] : List (KbdLabel T)) = start := rfl

@[simp] theorem run_append (ls : List (KbdLabel T)) (l : KbdLabel T) :
    run (ls ++ [l]) = (run ls).step l := by
  rw [run, List.foldl_append]
  rfl

end Typing

/-- The bytes that the calls of `input_getc` have returned. -/
def bytes_read (ls : List (KbdLabel T)) : Bytes := ls.filterMap Prod.snd

/-! ## The history of a key -/

section

variable (es : List KeyEvent) (e : KeyEvent)

theorem held_concat (code : UInt32) :
    held (es ++ [e]) code = if e.code = code then !e.release else held es code := by
  by_cases hcode : e.code = code
  · simp [held, hcode]
  · simp [held, hcode]

theorem caps_on_concat :
    caps_on (es ++ [e]) = (caps_on es ^^ (e.code = 0x3a && !e.release)) := by
  rw [caps_on, caps_on, List.countP_append]
  cases hpress : (decide (e.code = 0x3a) && !e.release) with
  | false =>
      simp [hpress]
  | true =>
      rw [List.countP_cons, hpress]
      rcases Nat.mod_two_eq_zero_or_one (es.countP fun e => e.code = 0x3a && !e.release) with
        heven | hodd
      · simp [Nat.add_mod, heven]
      · simp [Nat.add_mod, hodd]

/-- No shift key, nor Caps Lock, has a character. -/
theorem legend_shift_key : ∀ key ∈ shift_keys, legend es key.1 = none ∧ key.1 ≠ 0x3a := by
  have hmaps : ∀ key ∈ shift_keys, map_key invariant_keymap key.1 = none ∧
      map_key shifted_keymap key.1 = none ∧ map_key unshifted_keymap key.1 = none ∧
      key.1 ≠ 0x3a := by
    decide
  intro key hkey
  rcases hmaps key hkey with ⟨hinv, hshift, hunshift, hne⟩
  refine ⟨?_, hne⟩
  rw [legend, hinv]
  cases shift_held es
  · exact hunshift
  · exact hshift

/-- Each entry of the table has a scancode and a variable of its own. -/
theorem shift_keys_inj : ∀ key ∈ shift_keys, ∀ key' ∈ shift_keys,
    (key.1 = key'.1 ↔ key.2 = key'.2) := by
  decide

theorem legend_caps_lock : legend es 0x3a = none := by
  have hmaps : map_key invariant_keymap 0x3a = none ∧ map_key shifted_keymap 0x3a = none ∧
      map_key unshifted_keymap 0x3a = none := by
    decide
  rw [legend, hmaps.1]
  cases shift_held es
  · exact hmaps.2.2
  · exact hmaps.2.1

end

/-! ## The driver's variables -/

/-- The driver and the buffer stand where the typing so far puts them. -/
structure Agrees (s : KbdState T) (y : Typing) (bytes : Bytes) : Prop where
  state_var : ∀ key ∈ shift_keys, s.state_var key.2 = held y.keys key.1
  caps_lock : s.caps_lock = caps_on y.keys
  key_cnt : s.key_cnt = y.key_cnt
  read : y.read = bytes.length
  text : bytes ++ s.buffer.q.contents = y.text

variable {s s' : KbdState T} {y : Typing} {bytes : Bytes}

namespace Agrees

theorem shift (h : Agrees s y bytes) :
    (s.state_var .left_shift || s.state_var .right_shift) = shift_held y.keys := by
  rw [h.state_var (0x2a, .left_shift) (by decide), h.state_var (0x36, .right_shift) (by decide)]
  rfl

theorem alt (h : Agrees s y bytes) :
    (s.state_var .left_alt || s.state_var .right_alt) = alt_held y.keys := by
  rw [h.state_var (0x38, .left_alt) (by decide), h.state_var (0xe038, .right_alt) (by decide)]
  rfl

theorem ctrl (h : Agrees s y bytes) :
    (s.state_var .left_ctrl || s.state_var .right_ctrl) = ctrl_held y.keys := by
  rw [h.state_var (0x1d, .left_ctrl) (by decide), h.state_var (0xe01d, .right_ctrl) (by decide)]
  rfl

theorem room (h : Agrees s y bytes) : y.room = !s.buffer.q.isFull := by
  have hlen : y.text.length - y.read = s.buffer.q.contents.length := by
    rw [← h.text, h.read, List.length_append]
    omega
  have hlt := RingBuffer.length_contents_lt s.buffer.q.toRingBuffer
  have hfull := RingBuffer.isFull_iff_length (r := s.buffer.q.toRingBuffer)
  rw [Typing.room, hlen]
  cases hf : s.buffer.q.isFull with
  | true =>
      rw [hfull.1 hf]
      rfl
  | false =>
      have hne : s.buffer.q.contents.length ≠ INTQ_BUFSIZE - 1 := fun heq => by
        rw [hfull.2 heq] at hf
        cases hf
      simp only [Bool.not_false, decide_eq_true_eq]
      omega

end Agrees

/-- What one key changes. -/
theorem Agrees.concat (h : Agrees s y bytes) {e : KeyEvent} {y' : Typing}
    (hkeys : y'.keys = y.keys ++ [e])
    (hvars : ∀ key ∈ shift_keys, s'.state_var key.2 =
      if e.code = key.1 then !e.release else s.state_var key.2)
    (hlock : s'.caps_lock = (s.caps_lock ^^ (e.code = 0x3a && !e.release)))
    (hcnt : s'.key_cnt = y'.key_cnt) (hread : y'.read = y.read)
    (htext : bytes ++ s'.buffer.q.contents = y'.text) : Agrees s' y' bytes where
  state_var := by
    intro key hkey
    rw [hvars key hkey, hkeys, held_concat, h.state_var key hkey]
  caps_lock := by
    rw [hlock, hkeys, caps_on_concat, h.caps_lock]
  key_cnt := hcnt
  read := hread.trans h.read
  text := htext

/-! ## The machine -/

variable [DecidableEq T]

/-- The byte that a section of `input_getc` ends with. -/
def input_returns (s : IntqState T) : InputEvent T → Option UInt8
  | .getc t => (input_getc s t).bind Prod.snd
  | .resume_wait t => (input_getc_resume s t).bind Prod.snd
  | _ => none

namespace KbdState

/-- All keys are up. -/
def init : KbdState T := ⟨fun _ => false, false, 0, input_init⟩

def enabled (s : KbdState T) : KbdEvent T → Prop
  | .key _ _ => True
  | .input e => input_enabled s.buffer e

def section_of (s : KbdState T) : KbdEvent T → Option (KbdOutcome T)
  | .key data data' => s.keyboard_interrupt data data'
  | .input e => (input_section s.buffer e).map fun b => .running { s with buffer := b }

def returns (s : KbdState T) : KbdEvent T → Option UInt8
  | .key _ _ => none
  | .input e => input_returns s.buffer e

end KbdState

/-- `none` is a failed assertion; neither it nor a reboot is left. -/
def kbdSystem (T : Type) [DecidableEq T] : System (Option (KbdOutcome T)) (KbdLabel T) where
  init o := o = some (.running KbdState.init)
  step o l o' := ∃ s, o = some (.running s) ∧ s.enabled l.1 ∧ l.2 = s.returns l.1 ∧
    o' = s.section_of l.1

theorem kbd_step {s : KbdState T} {e : KbdEvent T} {byte : Option UInt8}
    {o : Option (KbdOutcome T)} (he : s.enabled e) (hbyte : s.returns e = byte)
    (ho : s.section_of e = o) : (kbdSystem T).step (some (.running s)) (e, byte) o :=
  ⟨s, rfl, he, hbyte.symm, ho.symm⟩

/-! ## The input buffer -/

variable {b b' : IntqState T} {t : T}

theorem input_getc_contents (h : Monitor .not_empty b) (ht : b.place t = .out)
    {r : IntqState T × Option UInt8} (hr : input_getc b t = some r) :
    r.2.toList ++ r.1.q.contents = b.q.contents := by
  cases hempty : b.q.isEmpty with
  | false =>
      rw [(input_getc_ready h hempty).1] at hr
      cases hr
      exact (RingBuffer.contents_get hempty).symm
  | true =>
      have hmet : b.q.met .not_empty = false := by simp [Intq.met, hempty]
      rcases h.await_unmet ht hmet with ⟨b', hb', _, hring, _⟩
      rw [input_getc, IntqState.intq_getc, hb'] at hr
      cases hr
      exact congrArg RingBuffer.contents hring

theorem input_getc_resume_contents (h : Monitor .not_empty b)
    (ht : b.place t = .wait_woken .not_empty) {r : IntqState T × Option UInt8}
    (hr : input_getc_resume b t = some r) : r.2.toList ++ r.1.q.contents = b.q.contents := by
  rcases h.resume_wait ht with ⟨b', hb', hmon, hout, hring, _⟩
  rw [input_getc_resume, hb'] at hr
  rw [input_getc_contents hmon hout hr, hring]

theorem resume_lock_contents (h : Monitor .not_empty b)
    (hb : b.resume_lock .not_empty t = some b') : b'.q.contents = b.q.contents := by
  rcases h.unit_cases with ⟨hone, _⟩ | ⟨hzero, _⟩
  · have hrun : b.resume_lock .not_empty t =
        if b.q.met .not_empty then none else some ((b.setPlace t .out).enter .not_empty t) :=
      IntqState.lock_wait_enter (s := b.setPlace t .out) hone
    rw [hrun] at hb
    split at hb
    · cases hb
    · cases hb
      simp [IntqState.enter]
  · have hrun : b.resume_lock .not_empty t = some ((b.setPlace t .out).queue .not_empty t) :=
      IntqState.lock_wait_queue (s := b.setPlace t .out) hzero
    rw [hrun] at hb
    cases hb
    rfl

/-- What is read leaves the buffer at the front, and what is added joins it at the end. -/
theorem input_section_contents (h : Monitor .not_empty b) {e : InputEvent T}
    (he : input_enabled b e) (hb : input_section b e = some b') :
    (input_returns b e).toList ++ b'.q.contents = b.q.contents ++ e.added := by
  cases e with
  | getc t =>
      rcases input_getc_spec h he with ⟨r, hr, _⟩
      rw [input_section, hr] at hb
      cases hb
      rw [input_returns, hr]
      exact (input_getc_contents h he hr).trans (List.append_nil _).symm
  | resume_lock t =>
      exact (resume_lock_contents h hb).trans (List.append_nil _).symm
  | resume_wait t =>
      rcases input_getc_resume_spec h he with ⟨r, hr, _⟩
      rw [input_section, hr] at hb
      cases hb
      rw [input_returns, hr]
      exact (input_getc_resume_contents h he hr).trans (List.append_nil _).symm
  | putc key =>
      rcases input_putc_spec h key he with ⟨b₁, hb₁, _, hring, _⟩
      rw [input_section, hb₁] at hb
      cases hb
      rw [hring]
      exact RingBuffer.contents_put key he

/-! ## One interrupt -/

/-- The two ways to write the byte of a character. -/
theorem typed_byte_eq (es : List KeyEvent) (c : UInt8) :
    (let low := if ctrl_held es && (0x40 ≤ c && c < 0x60) then c - 0x40
      else if shift_held es = caps_on es then tolower c
      else c
    if alt_held es then low + 0x80 else low) = typed_byte es c := by
  have hlower : c - 65 + 97 = c + 32 := by
    rw [UInt8.sub_eq_add_neg, UInt8.add_assoc]
    rfl
  rw [typed_byte, tolower, hlower]
  cases shift_held es <;> cases caps_on es <;> simp

/-- The driver's two ways to take a key in the words of the history. -/
theorem keyboard_interrupt_char (h : Agrees s y bytes) {data data' : UInt8} {c : UInt8}
    (hcode : (key_event data data').code ≠ 0x3a)
    (hc : legend y.keys (key_event data data').code = some c) :
    s.keyboard_interrupt data data' =
      if (key_event data data').release then some (.running s)
      else if c = 0x7f && ctrl_held y.keys && alt_held y.keys then some .rebooted
      else if s.buffer.q.isFull then some (.running s)
      else (input_putc s.buffer (typed_byte y.keys c)).map fun buffer =>
        .running { s with buffer := buffer, key_cnt := s.key_cnt + 1 } := by
  rw [← typed_byte_eq, ← h.shift, ← h.alt, ← h.ctrl, ← h.caps_lock]
  rw [legend, ← h.shift] at hc
  have hne : ¬ read_scancode data data' &&& ~~~0x80 = 0x3a := hcode
  have hmap : ((map_key invariant_keymap (read_scancode data data' &&& ~~~0x80)).orElse fun _ =>
      map_key (if s.state_var .left_shift || s.state_var .right_shift then shifted_keymap
        else unshifted_keymap) (read_scancode data data' &&& ~~~0x80)) = some c := hc
  simp only [keyboard_interrupt, if_neg hne, hmap, Option.map_eq_bind]
  rfl

/-- A key without a character. -/
theorem keyboard_interrupt_silent (h : Agrees s y bytes) {data data' : UInt8}
    (hcode : (key_event data data').code ≠ 0x3a)
    (hc : legend y.keys (key_event data data').code = none) :
    (∃ key ∈ shift_keys, key.1 = (key_event data data').code ∧ s.keyboard_interrupt data data' =
      some (.running (s.setVar key.2 !(key_event data data').release))) ∨
    ((∀ key ∈ shift_keys, key.1 ≠ (key_event data data').code) ∧
      s.keyboard_interrupt data data' = some (.running s)) := by
  rw [legend, ← h.shift] at hc
  have hne : ¬ read_scancode data data' &&& ~~~0x80 = 0x3a := hcode
  have hmap : ((map_key invariant_keymap (read_scancode data data' &&& ~~~0x80)).orElse fun _ =>
      map_key (if s.state_var .left_shift || s.state_var .right_shift then shifted_keymap
        else unshifted_keymap) (read_scancode data data' &&& ~~~0x80)) = none := hc
  cases hfind : shift_keys.find? fun key => key.1 = read_scancode data data' &&& ~~~0x80 with
  | some key =>
      refine Or.inl ⟨key, List.mem_of_find?_eq_some hfind, ?_, ?_⟩
      · have hkey := List.find?_some hfind
        exact of_decide_eq_true hkey
      · simp only [keyboard_interrupt, if_neg hne, hmap, hfind]
        rfl
  | none =>
      refine Or.inr ⟨fun key hkey => ?_, ?_⟩
      · exact of_decide_eq_false (Bool.not_eq_true _ ▸ List.find?_eq_none.1 hfind key hkey)
      · simp only [keyboard_interrupt, if_neg hne, hmap, hfind]

theorem keyboard_interrupt_caps {data data' : UInt8}
    (hcode : (key_event data data').code = 0x3a) :
    s.keyboard_interrupt data data' = some (.running
      (if (key_event data data').release then s else { s with caps_lock := !s.caps_lock })) := by
  have heq : read_scancode data data' &&& ~~~0x80 = 0x3a := hcode
  simp only [keyboard_interrupt, if_pos heq]
  rfl

/-- What an interrupt comes to is what the key does. -/
def KeyDone (y : Typing) (bytes : Bytes) (e : KeyEvent) (o : Option (KbdOutcome T)) : Prop :=
  ((y.key e).rebooted = true ∧ o = some .rebooted) ∨
    ((y.key e).rebooted = false ∧ ∃ s', o = some (.running s') ∧
      Monitor .not_empty s'.buffer ∧ Agrees s' (y.key e) bytes)

theorem keyDone_caps (h : Agrees s y bytes) (hmon : Monitor .not_empty s.buffer)
    (hy : y.rebooted = false) {data data' : UInt8}
    (hcode : (key_event data data').code = 0x3a) :
    KeyDone y bytes (key_event data data') (s.keyboard_interrupt data data') := by
  rw [keyboard_interrupt_caps hcode]
  generalize key_event data data' = e at hcode ⊢
  have hkey : y.key e = { y with keys := y.keys ++ [e] } := by
    rw [Typing.key, hcode, legend_caps_lock]
  rw [KeyDone, hkey]
  refine Or.inr ⟨hy, _, rfl, ?_, ?_⟩
  · cases e.release <;> exact hmon
  · refine h.concat rfl (fun key hmem => ?_) ?_ ?_ rfl ?_
    · have hne : e.code ≠ key.1 := fun heq =>
        (legend_shift_key y.keys key hmem).2 (heq.symm.trans hcode)
      rw [if_neg hne]
      cases e.release <;> rfl
    · cases hrel : e.release <;> simp [hcode]
    · cases e.release <;> exact h.key_cnt
    · cases e.release <;> exact h.text

theorem keyDone_silent (h : Agrees s y bytes) (hmon : Monitor .not_empty s.buffer)
    (hy : y.rebooted = false) {data data' : UInt8}
    (hcode : (key_event data data').code ≠ 0x3a)
    (hc : legend y.keys (key_event data data').code = none) :
    KeyDone y bytes (key_event data data') (s.keyboard_interrupt data data') := by
  have hcases := keyboard_interrupt_silent h hcode hc
  generalize key_event data data' = e at hcode hc hcases ⊢
  have hkey : y.key e = { y with keys := y.keys ++ [e] } := by
    rw [Typing.key, hc]
  rw [KeyDone, hkey]
  rcases hcases with ⟨key, hmem, heq, hrun⟩ | ⟨hno, hrun⟩
  · refine Or.inr ⟨hy, _, hrun, hmon, h.concat rfl (fun key' hmem' => ?_) ?_ h.key_cnt rfl h.text⟩
    · rw [setVar_state_var, ← heq]
      by_cases hsame : key.1 = key'.1
      · rw [if_pos hsame, (shift_keys_inj key hmem key' hmem').1 hsame, Function.update_self]
      · have hne : key'.2 ≠ key.2 := fun hvar =>
          hsame ((shift_keys_inj key hmem key' hmem').2 hvar.symm)
        rw [if_neg hsame, Function.update_of_ne hne]
    · simp [KbdState.setVar, hcode]
  · refine Or.inr ⟨hy, _, hrun, hmon, h.concat rfl (fun key hmem => ?_) ?_ h.key_cnt rfl h.text⟩
    · rw [if_neg (hno key hmem).symm]
    · simp [hcode]

theorem keyDone_char (h : Agrees s y bytes) (hmon : Monitor .not_empty s.buffer)
    (hy : y.rebooted = false) {data data' : UInt8} {c : UInt8}
    (hcode : (key_event data data').code ≠ 0x3a)
    (hc : legend y.keys (key_event data data').code = some c) :
    KeyDone y bytes (key_event data data') (s.keyboard_interrupt data data') := by
  rw [keyboard_interrupt_char h hcode hc]
  generalize key_event data data' = e at hcode hc ⊢
  have hvars : ∀ key ∈ shift_keys, s.state_var key.2 =
      if e.code = key.1 then !e.release else s.state_var key.2 := by
    intro key hmem
    have hne : e.code ≠ key.1 := fun heq => by
      rw [heq, (legend_shift_key y.keys key hmem).1] at hc
      cases hc
    rw [if_neg hne]
  have hlock : s.caps_lock = (s.caps_lock ^^ (e.code = 0x3a && !e.release)) := by
    simp [hcode]
  rw [KeyDone, Typing.key, hc]
  cases hrel : e.release with
  | true =>
      exact Or.inr ⟨hy, s, rfl, hmon, h.concat rfl hvars hlock h.key_cnt rfl h.text⟩
  | false =>
      simp only [Bool.false_eq_true, if_false, Typing.press, h.room]
      by_cases hboot : (c = 0x7f && ctrl_held y.keys && alt_held y.keys) = true
      · rw [if_pos hboot, if_pos hboot]
        exact Or.inl ⟨rfl, rfl⟩
      · rw [if_neg hboot, if_neg hboot]
        cases hfull : s.buffer.q.isFull with
        | true =>
            exact Or.inr ⟨hy, s, rfl, hmon, h.concat rfl hvars hlock h.key_cnt rfl h.text⟩
        | false =>
            rcases input_putc_spec hmon (typed_byte y.keys c) hfull with
              ⟨buffer, hputc, hmon', hring, _⟩
            refine Or.inr ⟨hy, { s with buffer := buffer, key_cnt := s.key_cnt + 1 }, ?_, hmon',
              h.concat rfl hvars hlock (congrArg (· + 1) h.key_cnt) rfl ?_⟩
            · rw [hputc]
              rfl
            · change bytes ++ buffer.q.contents = y.text ++ [typed_byte y.keys c]
              rw [hring, RingBuffer.contents_put _ hfull, ← List.append_assoc, h.text]

/-- One interrupt.  The assertions of `input_putc` hold. -/
theorem keyboard_interrupt_spec (h : Agrees s y bytes) (hmon : Monitor .not_empty s.buffer)
    (hy : y.rebooted = false) (data data' : UInt8) :
    KeyDone y bytes (key_event data data') (s.keyboard_interrupt data data') := by
  by_cases hcode : (key_event data data').code = 0x3a
  · exact keyDone_caps h hmon hy hcode
  · cases hc : legend y.keys (key_event data data').code with
    | none =>
        exact keyDone_silent h hmon hy hcode hc
    | some c =>
        exact keyDone_char h hmon hy hcode hc

/-! ## Runs -/

/-- What a run has come to. -/
structure KbdGood (ls : List (KbdLabel T)) (s : KbdState T) : Prop where
  alive : (Typing.run ls).rebooted = false
  monitor : Monitor .not_empty s.buffer
  agrees : Agrees s (Typing.run ls) (bytes_read ls)

omit [DecidableEq T] in
theorem kbdGood_init : KbdGood [] (KbdState.init : KbdState T) where
  alive := rfl
  monitor := by
    rcases inputGood_init (T := T) with ⟨b, hb, hmon⟩
    cases hb
    exact hmon
  agrees := ⟨fun _ _ => rfl, rfl, rfl, rfl, rfl⟩

/-- A section of a reader or of the serial port. -/
theorem KbdGood.input {ls : List (KbdLabel T)} (h : KbdGood ls s) {e : InputEvent T}
    {b' : IntqState T} (he : input_enabled s.buffer e) (hb : input_section s.buffer e = some b')
    (hmon : Monitor .not_empty b') :
    KbdGood (ls ++ [(.input e, input_returns s.buffer e)]) { s with buffer := b' } := by
  have hcontents := input_section_contents h.monitor he hb
  have hbytes : bytes_read (ls ++ [(.input e, input_returns s.buffer e)]) =
      bytes_read ls ++ (input_returns s.buffer e).toList := by
    rw [bytes_read, List.filterMap_append]
    cases input_returns s.buffer e <;> rfl
  have htext : bytes_read ls ++ (input_returns s.buffer e).toList ++ b'.q.contents =
      (Typing.run ls).text ++ e.added := by
    rw [List.append_assoc, hcontents, ← List.append_assoc, h.agrees.text]
  refine ⟨?_, hmon, ?_⟩
  · rw [Typing.run_append]
    exact h.alive
  · rw [Typing.run_append, hbytes]
    refine ⟨h.agrees.state_var, h.agrees.caps_lock, h.agrees.key_cnt, ?_, htext⟩
    rw [List.length_append, ← h.agrees.read]
    rfl

/-- A run is good, or has ended in a reboot, or in the assertion that a reader fails when it gets
the queue's lock too late. -/
theorem kbd_exec_cases {ls : List (KbdLabel T)} {o : Option (KbdOutcome T)}
    (hrun : (kbdSystem T).Exec (some (.running KbdState.init)) ls o) :
    (∃ s, o = some (.running s) ∧ KbdGood ls s) ∨
      (o = some .rebooted ∧ (Typing.run ls).rebooted = true) ∨
      (o = none ∧ (Typing.run ls).rebooted = false ∧
        ∃ ls' t, ls = ls' ++ [(.input (.resume_lock t), none)]) := by
  generalize hstart : (some (.running KbdState.init) : Option (KbdOutcome T)) = o₀ at hrun
  induction hrun with
  | nil =>
      exact Or.inl ⟨_, hstart.symm, kbdGood_init⟩
  | @snoc o₁ o₂ ls l _ hstep ih =>
      rcases hstep with ⟨s, rfl, henabled, hreturns, rfl⟩
      rcases ih with ⟨s', hs', hgood⟩ | ⟨hdead, _⟩ | ⟨hdead, _⟩
      · cases hs'
        rcases l with ⟨e, byte⟩
        obtain rfl : byte = s.returns e := hreturns
        cases e with
        | key data data' =>
            rcases keyboard_interrupt_spec hgood.agrees hgood.monitor hgood.alive data data' with
              ⟨hboot, ho⟩ | ⟨halive, s', ho, hmon, hagrees⟩
            · exact Or.inr (Or.inl ⟨ho, by rw [Typing.run_append]; exact hboot⟩)
            · have hbytes : bytes_read (ls ++ [((.key data data' : KbdEvent T), none)]) =
                  bytes_read ls := by
                rw [bytes_read, List.filterMap_append]
                exact List.append_nil _
              refine Or.inl ⟨s', ho, ?_, hmon, ?_⟩
              · rw [Typing.run_append]
                exact halive
              · change Agrees s' _ (bytes_read (ls ++ [((.key data data' : KbdEvent T), none)]))
                rw [hbytes, Typing.run_append]
                exact hagrees
        | input e =>
            rcases input_section_spec hgood.monitor henabled with
              ⟨_, b', hb', hmon⟩ | ⟨hfresh, hnone⟩
            · refine Or.inl ⟨{ s with buffer := b' }, ?_, hgood.input henabled hb' hmon⟩
              rw [KbdState.section_of, hb']
              rfl
            · right; right
              refine ⟨?_, ?_, ls, ?_⟩
              · rw [KbdState.section_of, hnone]
                rfl
              · rw [Typing.run_append]
                exact hgood.alive
              · cases e with
                | resume_lock t =>
                    exact ⟨t, rfl⟩
                | getc t =>
                    exact absurd trivial hfresh
                | resume_wait t =>
                    exact absurd trivial hfresh
                | putc key =>
                    exact absurd trivial hfresh
      · cases hdead
      · cases hdead

/-- In every run the driver's variables are what the keys so far say, and the bytes that
`input_getc` has returned, with those in the buffer behind them, are the text that was typed: none
is lost, doubled or out of order but the characters that found no room. -/
theorem kbd_runs {ls : List (KbdLabel T)} {o : Option (KbdOutcome T)}
    (hrun : (kbdSystem T).Exec (some (.running KbdState.init)) ls o) :
    (∀ s, o = some (.running s) → (Typing.run ls).rebooted = false ∧
      (∀ key ∈ shift_keys, s.state_var key.2 = held (Typing.run ls).keys key.1) ∧
      s.caps_lock = caps_on (Typing.run ls).keys ∧ s.key_cnt = (Typing.run ls).key_cnt ∧
      bytes_read ls ++ s.buffer.q.contents = (Typing.run ls).text) ∧
    (o = some .rebooted ↔ (Typing.run ls).rebooted = true) ∧
    (o = none → ∃ ls' t, ls = ls' ++ [(.input (.resume_lock t), none)]) := by
  rcases kbd_exec_cases hrun with ⟨s, rfl, hgood⟩ | ⟨rfl, hboot⟩ | ⟨rfl, halive, hlast⟩
  · refine ⟨?_, ⟨?_, fun h => ?_⟩, ?_⟩
    · rintro s' hs'
      cases hs'
      exact ⟨hgood.alive, hgood.agrees.state_var, hgood.agrees.caps_lock, hgood.agrees.key_cnt,
        hgood.agrees.text⟩
    · rintro ⟨⟩
    · rw [hgood.alive] at h
      cases h
    · rintro ⟨⟩
  · refine ⟨?_, ⟨fun _ => hboot, fun _ => rfl⟩, ?_⟩
    · rintro s' ⟨⟩
    · rintro ⟨⟩
  · refine ⟨?_, ⟨?_, fun h => ?_⟩, fun _ => hlast⟩
    · rintro s' ⟨⟩
    · rintro ⟨⟩
    · rw [halive] at h
      cases h

/-- A reader waits, Shift goes down, the A key goes down, and the reader gets its letter. -/
theorem kbd_runs_capital : ∃ (ls : List (KbdLabel (Fin 1))) (s : KbdState (Fin 1)),
    (kbdSystem (Fin 1)).Exec (some (.running KbdState.init)) ls (some (.running s)) ∧
      s.state_var .left_shift = true ∧ bytes_read ls ++ s.buffer.q.contents = [65] := by
  have h0 := System.Exec.nil (M := kbdSystem (Fin 1)) (some (.running KbdState.init))
  have h1 := h0.snoc (kbd_step (e := .input (.getc 0)) rfl rfl rfl)
  have h2 := h1.snoc (kbd_step (e := .key 0x2a 0) trivial rfl rfl)
  have h3 := h2.snoc (kbd_step (e := .key 0x1e 0) trivial rfl rfl)
  have h4 := h3.snoc (kbd_step (e := .input (.resume_wait 0)) rfl rfl rfl)
  have hgood := (kbd_runs h4).1 _ rfl
  refine ⟨_, _, h4, ?_, ?_⟩
  · exact (hgood.2.1 (0x2a, .left_shift) (by decide)).trans (by decide)
  · exact hgood.2.2.2.2.trans (by decide)

end Berk162
