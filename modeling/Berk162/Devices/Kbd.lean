import Berk162.Devices.Input
import Berk162.Lib.CText

/-!
# Kbd — the keyboard driver of `devices/kbd.c`

`keyboard_interrupt` keeps six shift states and the Caps Lock state, turns a pressed key into a
character and gives the character to the input buffer.  An interrupt gets the two bytes that the
data register has for it; the second one counts only behind the prefix `0xe0`.
-/

namespace Berk162

namespace Kbd

/-! ## Keymaps -/

/-- Maps a set of contiguous scancodes into characters. -/
structure Keymap where
  first_scancode : UInt8
  chars : Bytes

/-- Keys that produce the same characters regardless of whether the Shift keys are down. -/
def invariant_keymap : List Keymap :=
  [⟨0x01, text "\x1b"⟩, ⟨0x0e, text "\x08"⟩, ⟨0x0f, text "\tQWERTYUIOP"⟩, ⟨0x1c, text "\r"⟩,
    ⟨0x1e, text "ASDFGHJKL"⟩, ⟨0x2c, text "ZXCVBNM"⟩, ⟨0x37, text "*"⟩, ⟨0x39, text " "⟩,
    ⟨0x53, text "\x7f"⟩]

/-- Characters for keys pressed without Shift, for those keys where it matters. -/
def unshifted_keymap : List Keymap :=
  [⟨0x02, text "1234567890-="⟩, ⟨0x1a, text "[]"⟩, ⟨0x27, text ";'`"⟩, ⟨0x2b, text "\\"⟩,
    ⟨0x33, text ",./"⟩]

/-- Characters for keys pressed with Shift, for those keys where it matters. -/
def shifted_keymap : List Keymap :=
  [⟨0x02, text "!@#$%^&*()_+"⟩, ⟨0x1a, text "\x7b\x7d"⟩, ⟨0x27, text ":\"~"⟩, ⟨0x2b, text "|"⟩,
    ⟨0x33, text "<>?"⟩]

/-- The list ends where the array has its null entry. -/
def map_key : List Keymap → UInt32 → Option UInt8
  | [], _ => none
  | k :: ks, scancode =>
      if k.first_scancode.toNat ≤ scancode.toNat ∧
          scancode.toNat < k.first_scancode.toNat + k.chars.length then
        k.chars[scancode.toNat - k.first_scancode.toNat]?
      else map_key ks scancode

/-- `tolower` of `lib/ctype.h`. -/
def tolower (c : UInt8) : UInt8 := if 65 ≤ c && c ≤ 90 then c - 65 + 97 else c

/-! ## The driver -/

/-- The variables that `shift_keys` points to. -/
inductive ShiftVar
  | left_shift
  | right_shift
  | left_alt
  | right_alt
  | left_ctrl
  | right_ctrl
  deriving DecidableEq, Repr

def shift_keys : List (UInt32 × ShiftVar) :=
  [(0x2a, .left_shift), (0x36, .right_shift), (0x38, .left_alt), (0xe038, .right_alt),
    (0x1d, .left_ctrl), (0xe01d, .right_ctrl)]

end Kbd

open Kbd

/-- The variables of the driver, with the input buffer.  `key_cnt` is an `int64_t`, which no number
of keys makes overflow. -/
structure KbdState (T : Type) where
  state_var : ShiftVar → Bool
  caps_lock : Bool
  key_cnt : Nat
  buffer : IntqState T

/-- `shutdown_reboot` does not return. -/
inductive KbdOutcome (T : Type)
  | running (s : KbdState T)
  | rebooted

variable {T : Type}

namespace KbdState

def setVar (s : KbdState T) (v : ShiftVar) (b : Bool) : KbdState T :=
  { s with state_var := Function.update s.state_var v b }

@[simp] theorem setVar_state_var (s : KbdState T) (v : ShiftVar) (b : Bool) :
    (s.setVar v b).state_var = Function.update s.state_var v b := rfl

/-- `inb (DATA_REG)`, once or twice. -/
def read_scancode (data data' : UInt8) : UInt32 :=
  let code := data.toUInt32
  if code = 0xe0 then (code <<< 8) ||| data'.toUInt32 else code

variable [DecidableEq T]

/-- `none` is a failed assertion in `input_putc`. -/
def keyboard_interrupt (s : KbdState T) (data data' : UInt8) : Option (KbdOutcome T) :=
  let shift := s.state_var .left_shift || s.state_var .right_shift
  let alt := s.state_var .left_alt || s.state_var .right_alt
  let ctrl := s.state_var .left_ctrl || s.state_var .right_ctrl
  let code := read_scancode data data'
  let release := decide (code &&& 0x80 ≠ 0)
  let code := code &&& ~~~0x80
  if code = 0x3a then
    some (.running (if release then s else { s with caps_lock := !s.caps_lock }))
  else
    match (map_key invariant_keymap code).orElse fun _ =>
        map_key (if shift then shifted_keymap else unshifted_keymap) code with
    | some c =>
        if release then some (.running s)
        else if c = 0x7f && ctrl && alt then some .rebooted
        else
          let c := if ctrl && (0x40 ≤ c && c < 0x60) then c - 0x40
            else if shift = s.caps_lock then tolower c
            else c
          let c := if alt then c + 0x80 else c
          if s.buffer.q.isFull then some (.running s)
          else do
            let buffer ← input_putc s.buffer c
            return .running { s with buffer := buffer, key_cnt := s.key_cnt + 1 }
    | none =>
        match shift_keys.find? fun key => key.1 = code with
        | some key => some (.running (s.setVar key.2 !release))
        | none => some (.running s)

end KbdState

end Berk162
