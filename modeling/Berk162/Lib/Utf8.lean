import Berk162.Lib.Bytes
import Mathlib.Data.List.DropRight

/-!
# Utf8 — strings of bytes as characters

`from_utf8` goes through a string of bytes and keeps the characters that are complete, and of one
that is not what its next bytes have to be.  It fails at the first byte that cannot follow.

We provide:

* `from_utf8_append_ascii` — bytes below 128 are characters of their own;
* `from_utf8_error_ascii` — an error in front of such a byte does not depend on what follows;
* `from_utf8_concat_high` — no other byte is a character by itself;
* `split_whitespace` and `trim`, with `split_whitespace_append`.
-/

namespace Berk162

/-- The values that a byte after the first one of a character may have. -/
structure TailRange where
  lo : UInt8
  hi : UInt8
  high : 0x80 ≤ lo

/-- Any of them. -/
def TailRange.any : TailRange := ⟨0x80, 0xBF, by decide⟩

/-- What the first byte of a character says of it: its bits, and what the bytes after it may be.
Characters that are longer than they have to be, surrogates and numbers above 0x10FFFF are ruled
out by the second byte. -/
def first_byte (b : UInt8) : Option (Nat × List TailRange) :=
  if b < 0x80 then some (b.toNat, [])
  else if b < 0xC2 then none
  else if b < 0xE0 then some (b.toNat % 32, [.any])
  else if b = 0xE0 then some (b.toNat % 16, [⟨0xA0, 0xBF, by decide⟩, .any])
  else if b = 0xED then some (b.toNat % 16, [⟨0x80, 0x9F, by decide⟩, .any])
  else if b < 0xF0 then some (b.toNat % 16, [.any, .any])
  else if b = 0xF0 then some (b.toNat % 8, [⟨0x90, 0xBF, by decide⟩, .any, .any])
  else if b < 0xF4 then some (b.toNat % 8, [.any, .any, .any])
  else if b = 0xF4 then some (b.toNat % 8, [⟨0x80, 0x8F, by decide⟩, .any, .any])
  else none

/-- A byte that is no character by itself needs others after it. -/
theorem first_byte_high {b : UInt8} {code : Nat} {need : List TailRange} (hb : 0x80 ≤ b)
    (h : first_byte b = some (code, need)) : need ≠ [] := by
  rw [first_byte, if_neg (UInt8.not_lt.2 hb)] at h
  repeat' split at h
  all_goals cases h
  all_goals exact List.cons_ne_nil _ _

/-- A string that is not UTF-8: the first `valid_up_to` bytes are.  There `error_len` bytes are in
error, or, without `error_len`, the string ends within a character. -/
structure Utf8Error where
  valid_up_to : Nat
  error_len : Option Nat
  deriving DecidableEq, Repr

/-- Between two bytes: the complete characters and how many bytes they have, and of the next
character its bits, how many bytes it has so far and what the others have to be. -/
structure Utf8State where
  chars : List Char
  valid_up_to : Nat
  code : Nat
  seen : Nat
  need : List TailRange

namespace Utf8State

def start : Utf8State := ⟨[], 0, 0, 0, []⟩

/-- The state after one more byte of the character. -/
def close (s : Utf8State) : Utf8State :=
  if s.need = [] then ⟨s.chars ++ [Char.ofNat s.code], s.valid_up_to + s.seen, 0, 0, []⟩ else s

def step (s : Utf8State) (b : UInt8) : Except Utf8Error Utf8State :=
  match s.need with
  | [] =>
      match first_byte b with
      | none => .error ⟨s.valid_up_to, some 1⟩
      | some (code, need) => .ok { s with code := code, seen := 1, need := need }.close
  | range :: need =>
      if range.lo ≤ b ∧ b ≤ range.hi then
        .ok { s with code := s.code * 64 + b.toNat % 64, seen := s.seen + 1, need := need }.close
      else .error ⟨s.valid_up_to, some s.seen⟩

def finish (s : Utf8State) : Except Utf8Error (List Char) :=
  if s.need = [] then .ok s.chars else .error ⟨s.valid_up_to, none⟩

end Utf8State

/-- `str::from_utf8`. -/
def from_utf8 (bs : Bytes) : Except Utf8Error (List Char) := do
  let s ← bs.foldlM Utf8State.step Utf8State.start
  s.finish

/-- The character of a byte below 128. -/
def ascii_char (b : UInt8) : Char := Char.ofNat b.toNat

section
variable {s t : Utf8State} {b : UInt8} {bs l : Bytes} {cs : List Char} {e : Utf8Error}

theorem Utf8State.step_ascii (hs : s.need = []) (hb : b < 0x80) :
    s.step b = .ok ⟨s.chars ++ [ascii_char b], s.valid_up_to + 1, 0, 0, []⟩ := by
  simp only [Utf8State.step, hs, first_byte, if_pos hb, Utf8State.close, if_true]
  rfl

/-- A byte below 128 ends no character that has begun. -/
theorem Utf8State.step_ascii_error (hs : s.need ≠ []) (hb : b < 0x80) :
    ∃ e, s.step b = .error e := by
  cases hneed : s.need with
  | nil =>
      exact absurd hneed hs
  | cons range need =>
      have hrange : ¬ (range.lo ≤ b ∧ b ≤ range.hi) := fun hin =>
        UInt8.not_lt.2 (UInt8.le_trans range.high hin.1) hb
      refine ⟨⟨s.valid_up_to, some s.seen⟩, ?_⟩
      simp only [Utf8State.step, hneed, if_neg hrange]

theorem Utf8State.foldlM_ascii (hs : s.need = []) (hbs : ∀ b, b ∈ bs → b < 0x80) :
    ∃ t, bs.foldlM Utf8State.step s = .ok t ∧ t.need = [] ∧
      t.chars = s.chars ++ bs.map ascii_char := by
  induction bs generalizing s with
  | nil =>
      exact ⟨s, rfl, hs, (List.append_nil _).symm⟩
  | cons b bs ih =>
      obtain ⟨hb, hrest⟩ := List.forall_mem_cons.1 hbs
      obtain ⟨t, hrun, hneed, hchars⟩ :=
        ih (s := ⟨s.chars ++ [ascii_char b], s.valid_up_to + 1, 0, 0, []⟩) rfl hrest
      refine ⟨t, ?_, hneed, ?_⟩
      · rw [List.foldlM_cons, Utf8State.step_ascii hs hb]
        exact hrun
      · rw [hchars, List.append_assoc]
        rfl

/-- A string that is UTF-8 leaves no character begun. -/
theorem from_utf8_eq_ok_iff : from_utf8 bs = .ok cs ↔
    ∃ s, bs.foldlM Utf8State.step Utf8State.start = .ok s ∧ s.need = [] ∧ s.chars = cs := by
  rw [from_utf8]
  cases hrun : bs.foldlM Utf8State.step Utf8State.start with
  | error e =>
      refine ⟨fun h => ?_, fun ⟨s, h, _⟩ => ?_⟩
      · cases h
      · cases h
  | ok s =>
      change s.finish = .ok cs ↔ _
      rw [Utf8State.finish]
      by_cases hneed : s.need = []
      · rw [if_pos hneed]
        constructor
        · intro h
          cases h
          exact ⟨s, rfl, hneed, rfl⟩
        · rintro ⟨t, ht, _, rfl⟩
          cases ht
          rfl
      · rw [if_neg hneed]
        constructor
        · intro h
          cases h
        · rintro ⟨t, ht, hnone, _⟩
          cases ht
          exact absurd hnone hneed

theorem from_utf8_append_ascii (h : from_utf8 l = .ok cs) (hbs : ∀ b, b ∈ bs → b < 0x80) :
    from_utf8 (l ++ bs) = .ok (cs ++ bs.map ascii_char) := by
  obtain ⟨s, hrun, hneed, rfl⟩ := from_utf8_eq_ok_iff.1 h
  obtain ⟨t, hrest, hdone, hchars⟩ := Utf8State.foldlM_ascii hneed hbs
  refine from_utf8_eq_ok_iff.2 ⟨t, ?_, hdone, hchars⟩
  rw [List.foldlM_append, hrun]
  exact hrest

/-- What follows a byte below 128 has no part in an error in front of it. -/
theorem from_utf8_error_ascii (h : from_utf8 l = .error e) (hb : b < 0x80) :
    ∃ e, ∀ bs, from_utf8 (l ++ b :: bs) = .error e := by
  have hrun : ∃ e, ∀ bs, (l ++ b :: bs).foldlM Utf8State.step Utf8State.start = .error e := by
    cases hl : l.foldlM Utf8State.step Utf8State.start with
    | error e =>
        refine ⟨e, fun bs => ?_⟩
        rw [List.foldlM_append, hl]
        rfl
    | ok s =>
        -- the string has ended within a character
        have hneed : s.need ≠ [] := by
          intro hneed
          rw [from_utf8_eq_ok_iff.2 ⟨s, hl, hneed, rfl⟩] at h
          cases h
        obtain ⟨e, hstep⟩ := Utf8State.step_ascii_error hneed hb
        refine ⟨e, fun bs => ?_⟩
        rw [List.foldlM_append, hl]
        change (s.step b >>= fun t => bs.foldlM Utf8State.step t) = _
        rw [hstep]
        rfl
  obtain ⟨e, hrun⟩ := hrun
  refine ⟨e, fun bs => ?_⟩
  rw [from_utf8, hrun]
  rfl

theorem from_utf8_concat_high (h : from_utf8 l = .ok cs) (hb : 0x80 ≤ b) :
    ∃ e, from_utf8 (l ++ [b]) = .error e := by
  obtain ⟨s, hrun, hneed, _⟩ := from_utf8_eq_ok_iff.1 h
  have hone : (l ++ [b]).foldlM Utf8State.step Utf8State.start = s.step b := by
    rw [List.foldlM_append, hrun]
    change (s.step b >>= pure) = _
    exact bind_pure _
  rw [from_utf8, hone, Utf8State.step]
  simp only [hneed]
  cases hfirst : first_byte b with
  | none =>
      exact ⟨_, rfl⟩
  | some first =>
      obtain ⟨code, need⟩ := first
      have hmore := first_byte_high hb hfirst
      refine ⟨⟨s.valid_up_to, none⟩, ?_⟩
      simp only [Utf8State.close, if_neg hmore]
      change Utf8State.finish _ = _
      exact if_neg hmore

end

/-! ## Words -/

/-- `char::is_whitespace`. -/
def is_whitespace (c : Char) : Bool :=
  let n := c.toNat
  (9 ≤ n && n ≤ 13) || n == 0x20 || n == 0x85 || n == 0xA0 || n == 0x1680 ||
    (0x2000 ≤ n && n ≤ 0x200A) || n == 0x2028 || n == 0x2029 || n == 0x202F || n == 0x205F ||
    n == 0x3000

/-- `str::trim`. -/
def trim (cs : List Char) : List Char := (cs.dropWhile is_whitespace).rdropWhile is_whitespace

/-- `str::split_whitespace`. -/
def split_whitespace (cs : List Char) : List (List Char) :=
  (cs.splitOnP is_whitespace).filter fun word => word ≠ []

section
variable {c : Char} {cs cs' : List Char}

theorem split_whitespace_append (hc : is_whitespace c = true) :
    split_whitespace (cs ++ c :: cs') = split_whitespace cs ++ split_whitespace cs' := by
  rw [split_whitespace, List.splitOnP_append_cons _ _ hc, List.filter_append]
  rfl

theorem length_words_cons_le {p q : List Char} {ps qs : List (List Char)} (hne : p ≠ [] → q ≠ [])
    (hle : (ps.filter fun word => word ≠ []).length ≤ (qs.filter fun word => word ≠ []).length) :
    ((p :: ps).filter fun word => word ≠ []).length ≤
      ((q :: qs).filter fun word => word ≠ []).length := by
  rw [List.filter_cons, List.filter_cons]
  by_cases hp : p = []
  · have hdrop : ¬ decide (p ≠ []) = true := fun h => (of_decide_eq_true h : p ≠ []) hp
    rw [if_neg hdrop]
    split
    · exact hle.trans (Nat.le_succ _)
    · exact hle
  · rw [if_pos (decide_eq_true hp), if_pos (decide_eq_true (hne hp))]
    exact Nat.succ_le_succ hle

/-- A string that goes on has no fewer words; the last one may get longer. -/
theorem length_split_whitespace_le (cs cs' : List Char) :
    (split_whitespace cs).length ≤ (split_whitespace (cs ++ cs')).length := by
  -- the first piece by itself: it may be empty only if it was
  have hpieces : ∀ cs : List Char, ∃ p ps q qs, cs.splitOnP is_whitespace = p :: ps ∧
      (cs ++ cs').splitOnP is_whitespace = q :: qs ∧ (p ≠ [] → q ≠ []) ∧
      (ps.filter fun word => word ≠ []).length ≤ (qs.filter fun word => word ≠ []).length := by
    intro cs
    induction cs with
    | nil =>
        obtain ⟨q, qs, hq⟩ := List.exists_cons_of_ne_nil
          (List.splitOnP_ne_nil is_whitespace ([] ++ cs'))
        exact ⟨[], [], q, qs, rfl, hq, fun hne => absurd rfl hne, Nat.zero_le _⟩
    | cons c cs ih =>
        obtain ⟨p, ps, q, qs, hp, hq, hne, hle⟩ := ih
        rw [List.cons_append, List.splitOnP_cons_eq_if_modifyHead,
          List.splitOnP_cons_eq_if_modifyHead, hp, hq]
        by_cases hc : is_whitespace c = true
        · rw [if_pos hc, if_pos hc]
          exact ⟨[], p :: ps, [], q :: qs, rfl, rfl, id, length_words_cons_le hne hle⟩
        · rw [if_neg hc, if_neg hc]
          exact ⟨c :: p, ps, c :: q, qs, rfl, rfl, fun _ => List.cons_ne_nil _ _, hle⟩
  obtain ⟨p, ps, q, qs, hp, hq, hne, hle⟩ := hpieces cs
  rw [split_whitespace, split_whitespace, hp, hq]
  exact length_words_cons_le hne hle

theorem split_whitespace_nil : split_whitespace [] = [] := rfl

theorem split_whitespace_trim : split_whitespace (trim cs) = split_whitespace cs := by
  have hfront : split_whitespace (cs.dropWhile is_whitespace) = split_whitespace cs := by
    induction cs with
    | nil =>
        rfl
    | cons c cs ih =>
        rw [List.dropWhile_cons]
        split
        · next hc =>
          rw [ih]
          exact (@split_whitespace_append c [] cs hc).symm
        · rfl
  rw [trim, ← hfront]
  induction cs.dropWhile is_whitespace using List.reverseRecOn with
  | nil =>
      rfl
  | append_singleton cs c ih =>
      by_cases hc : is_whitespace c = true
      · rw [List.rdropWhile_concat_pos _ _ _ hc, ih, split_whitespace_append hc,
          split_whitespace_nil, List.append_nil]
      · rw [List.rdropWhile_concat_neg _ _ _ hc]

end

end Berk162
