import Berk162.Lib.CText
import Mathlib.Data.List.GetD

/-!
# Tokenizer — `tokenize` of the shell, `hw-shell/tokenizer.c`

`token` is an array of 4096 bytes and `n` says how many of them belong to the word that is being
read.  The index `i` of the loop is an `unsigned int`, the length of the line a `size_t` of 64 bits.
-/

namespace Berk162

namespace HwShell

inductive Mode
  | MODE_NORMAL
  | MODE_SQUOTE
  | MODE_DQUOTE
  deriving DecidableEq

/-- Why `tokenize` does not return: it writes behind `token`, it calls `abort`, or the passes that
it was given are used up. -/
inductive TokenizeStop
  | overrun
  | abort
  | out_of_fuel
  deriving DecidableEq

def n_max : Nat := 4096

/-- The local variables of `tokenize`; of `token` the first `n` bytes. -/
structure Scanner where
  mode : Mode
  token : Bytes
  tokens : List Bytes
  deriving DecidableEq

/-- `token[n++] = c`. -/
def put (s : Scanner) (c : UInt8) : Except TokenizeStop Scanner :=
  if s.token.length < n_max then .ok { s with token := s.token ++ [c] } else .error .overrun

/-- `copy_word`, which writes a null behind the word, and `vector_push`. -/
def push_word (s : Scanner) : Except TokenizeStop Scanner :=
  if s.token.length < n_max then
    .ok { s with token := [], tokens := s.tokens ++ [c_chars s.token] }
  else .error .overrun

/-- A backslash, and whether the character behind it has been taken. -/
def escape (next : Option UInt8) (s : Scanner) : Except TokenizeStop (Scanner × Bool) :=
  match next with
  | some c => (·, true) <$> put s c
  | none => .ok (s, false)

/-- What a pass does with the character `c`; `next` is the one behind it, if there is one. -/
def body (c : UInt8) (next : Option UInt8) (s : Scanner) : Except TokenizeStop (Scanner × Bool) :=
  match s.mode with
  | .MODE_NORMAL =>
      if c = 39 then .ok ({ s with mode := .MODE_SQUOTE }, false)
      else if c = 34 then .ok ({ s with mode := .MODE_DQUOTE }, false)
      else if c = 92 then escape next s
      else if isspace c then
        if s.token.length > 0 then (·, false) <$> push_word s else .ok (s, false)
      else (·, false) <$> put s c
  | .MODE_SQUOTE =>
      if c = 39 then .ok ({ s with mode := .MODE_NORMAL }, false)
      else if c = 92 then escape next s
      else (·, false) <$> put s c
  | .MODE_DQUOTE =>
      if c = 34 then .ok ({ s with mode := .MODE_NORMAL }, false)
      else if c = 92 then escape next s
      else (·, false) <$> put s c

def pass (c : UInt8) (next : Option UInt8) (s : Scanner) :
    Except TokenizeStop (Scanner × Bool) := do
  let (s, taken) ← body c next s
  if s.token.length + 1 ≥ n_max then .error .abort else .ok (s, taken)

/-- `line[i + 1]`, if `i + 1` is in the line. -/
def next_char (line : Bytes) (i : Nat) : Option UInt8 :=
  let j := (i + 1) % 2 ^ 32
  if j < line.length then some (line.getD j 0) else none

def tokenize_loop (line : Bytes) : Nat → Nat → Scanner → Except TokenizeStop Scanner
  | 0, _, _ => .error .out_of_fuel
  | fuel + 1, i, s =>
      if i < line.length then do
        let (s, taken) ← pass (line.getD i 0) (next_char line i) s
        tokenize_loop line fuel ((i + if taken then 2 else 1) % 2 ^ 32) s
      else .ok s

/-- The end of `tokenize`: a word may have ended with the line. -/
def finish (s : Scanner) : Except TokenizeStop (List Bytes) :=
  if s.token.length > 0 then Scanner.tokens <$> push_word s else .ok s.tokens

def tokenize (fuel : Nat) (line : CString) : Except TokenizeStop (List Bytes) := do
  finish (← tokenize_loop line.chars fuel 0 ⟨.MODE_NORMAL, [], []⟩)

variable {c d : UInt8} {next : Option UInt8} {m : Mode} {token w t rest : Bytes}
  {tokens : List Bytes} {s s' : Scanner}

/-! ## The buffer -/

/-- The invariant of the loop: there is room for a character and a null. -/
def Scanner.Room (s : Scanner) : Prop := s.token.length + 1 < n_max

theorem put_eq (h : s.Room) : put s c = .ok { s with token := s.token ++ [c] } :=
  if_pos (Nat.lt_of_succ_lt h)

theorem push_word_eq (h : s.Room) :
    push_word s = .ok { s with token := [], tokens := s.tokens ++ [c_chars s.token] } :=
  if_pos (Nat.lt_of_succ_lt h)

theorem exists_body (h : s.Room) : ∃ r, body c next s = .ok r := by
  have hput : ∃ r, (·, false) <$> put s c = .ok r := ⟨_, by rw [put_eq h]; rfl⟩
  have hescape : ∃ r, escape next s = .ok r := by
    cases next with
    | none => exact ⟨_, rfl⟩
    | some d => exact ⟨_, by rw [escape, put_eq h]; rfl⟩
  have hpush : ∃ r, (·, false) <$> push_word s = .ok r := ⟨_, by rw [push_word_eq h]; rfl⟩
  rw [body]
  cases s.mode with
  | MODE_NORMAL =>
      simp only
      split_ifs
      · exact ⟨_, rfl⟩
      · exact ⟨_, rfl⟩
      · exact hescape
      · exact hpush
      · exact ⟨_, rfl⟩
      · exact hput
  | MODE_SQUOTE =>
      simp only
      split_ifs
      · exact ⟨_, rfl⟩
      · exact hescape
      · exact hput
  | MODE_DQUOTE =>
      simp only
      split_ifs
      · exact ⟨_, rfl⟩
      · exact hescape
      · exact hput

theorem pass_cases (h : s.Room) :
    pass c next s = .error .abort ∨ ∃ s' taken, pass c next s = .ok (s', taken) ∧ s'.Room := by
  obtain ⟨⟨s', taken⟩, hbody⟩ : ∃ r, body c next s = .ok r := exists_body h
  rw [pass, hbody]
  by_cases hfull : s'.token.length + 1 ≥ n_max
  · exact Or.inl (if_pos hfull)
  · exact Or.inr ⟨s', taken, if_neg hfull, Nat.lt_of_not_le hfull⟩

theorem tokenize_loop_pass {line : Bytes} {fuel i : Nat} {taken : Bool} (hi : i < line.length)
    (h : pass (line.getD i 0) (next_char line i) s = .ok (s', taken)) :
    tokenize_loop line (fuel + 1) i s =
      tokenize_loop line fuel ((i + if taken then 2 else 1) % 2 ^ 32) s' := by
  rw [tokenize_loop, if_pos hi, h]
  rfl

theorem tokenize_loop_room {line : Bytes} {fuel i : Nat} (h : s.Room) :
    tokenize_loop line fuel i s ≠ .error .overrun ∧
      ∀ s', tokenize_loop line fuel i s = .ok s' → s'.Room := by
  induction fuel generalizing i s with
  | zero => exact ⟨by rw [tokenize_loop]; decide, fun s' h => by cases h⟩
  | succ fuel ih =>
      by_cases hi : i < line.length
      · have hcases := @pass_cases (line.getD i 0) (next_char line i) s h
        rcases hcases with habort | ⟨s₁, taken, hpass, hroom⟩
        · rw [tokenize_loop, if_pos hi, habort]
          exact ⟨fun h => (by cases h), fun s' h => by cases h⟩
        · rw [tokenize_loop_pass hi hpass]
          exact ih hroom
      · rw [tokenize_loop, if_neg hi]
        refine ⟨fun h => (by cases h), fun s' hs' => ?_⟩
        cases hs'
        exact h

theorem tokenize_inside (fuel : Nat) (line : CString) : tokenize fuel line ≠ .error .overrun := by
  have hstart : Scanner.Room ⟨.MODE_NORMAL, [], []⟩ := by
    rw [Scanner.Room]
    decide
  obtain ⟨hloop, hroom⟩ := @tokenize_loop_room _ line.chars fuel 0 hstart
  rw [tokenize]
  cases hend : tokenize_loop line.chars fuel 0 ⟨.MODE_NORMAL, [], []⟩ with
  | error e =>
      rintro h
      cases h
      exact hloop hend
  | ok s =>
      change finish s ≠ _
      rw [finish, push_word_eq (hroom s hend)]
      split
      · exact fun h => by cases h
      · exact fun h => by cases h

/-! ## Passes over a piece of the line -/

/-- The passes that take the scanner from `s` to `s'` and what is left of the line from `t` to
`rest`. -/
inductive Scans : Bytes → Scanner → Bytes → Scanner → Prop
  | done {t : Bytes} {s : Scanner} : Scans t s t s
  | one {c : UInt8} {t rest : Bytes} {s s₁ s' : Scanner} :
      (∀ next, pass c next s = .ok (s₁, false)) → Scans t s₁ rest s' → Scans (c :: t) s rest s'
  | two {c d : UInt8} {t rest : Bytes} {s s₁ s' : Scanner} :
      pass c (some d) s = .ok (s₁, true) → Scans t s₁ rest s' → Scans (c :: d :: t) s rest s'

theorem Scans.trans {t' : Bytes} {s₁ : Scanner} (h : Scans t s t' s₁) (h' : Scans t' s₁ rest s') :
    Scans t s rest s' := by
  induction h with
  | done => exact h'
  | one hpass _ ih => exact .one hpass (ih h')
  | two hpass _ ih => exact .two hpass (ih h')

theorem next_char_eq {l : Bytes} {i : Nat} (hlen : l.length < 2 ^ 32)
    (h : l.drop i = c :: d :: t) : next_char l i = some d := by
  have hd : l[i + 1]? = some d := by
    rw [← List.getElem?_drop, h]
    rfl
  obtain ⟨hi, hget⟩ := List.getElem?_eq_some_iff.1 hd
  have hmod : (i + 1) % 2 ^ 32 = i + 1 := Nat.mod_eq_of_lt (Nat.lt_trans hi hlen)
  rw [next_char, hmod]
  simp only [if_pos hi]
  rw [List.getD_eq_getElem _ _ hi, hget]

/-- The loop makes the passes if the index can reach the end of the line. -/
theorem tokenize_loop_eq {l : Bytes} {fuel i : Nat} (hlen : l.length < 2 ^ 32)
    (h : Scans (l.drop i) s [] s') (hf : l.length - i < fuel) (hi : i ≤ l.length) :
    tokenize_loop l fuel i s = .ok s' := by
  generalize ht : l.drop i = t at h
  generalize hr : ([] : Bytes) = r at h
  induction h generalizing i fuel with
  | done =>
      subst hr
      rw [List.drop_eq_nil_iff] at ht
      obtain ⟨fuel, rfl⟩ := Nat.exists_eq_add_of_lt hf
      rw [tokenize_loop, if_neg (Nat.not_lt.2 ht)]
  | @one c t rest s s₁ s' hpass _ ih =>
      have hc : l[i]? = some c := by
        rw [← Nat.add_zero i, ← List.getElem?_drop, ht]
        rfl
      obtain ⟨hlt, hget⟩ := List.getElem?_eq_some_iff.1 hc
      obtain ⟨fuel, rfl⟩ := Nat.exists_eq_succ_of_ne_zero (show fuel ≠ 0 by omega)
      have hdrop : l.drop (i + 1) = t := by
        rw [← List.drop_drop, ht, List.drop_succ_cons, List.drop_zero]
      rw [tokenize_loop_pass hlt (by rw [List.getD_eq_getElem _ _ hlt, hget]; exact hpass _)]
      simp only [Bool.false_eq_true, if_false]
      rw [Nat.mod_eq_of_lt (by omega)]
      exact ih (by omega) hlt hdrop hr
  | @two c d t rest s s₁ s' hpass _ ih =>
      have hc : l[i]? = some c := by
        rw [← Nat.add_zero i, ← List.getElem?_drop, ht]
        rfl
      have hd : l[i + 1]? = some d := by
        rw [← List.getElem?_drop, ht]
        rfl
      obtain ⟨hlt, hget⟩ := List.getElem?_eq_some_iff.1 hc
      obtain ⟨hlt', _⟩ := List.getElem?_eq_some_iff.1 hd
      obtain ⟨fuel, rfl⟩ := Nat.exists_eq_succ_of_ne_zero (show fuel ≠ 0 by omega)
      have hdrop : l.drop (i + 2) = t := by
        rw [← List.drop_drop, ht, List.drop_succ_cons, List.drop_succ_cons, List.drop_zero]
      have hpass' : pass (l.getD i 0) (next_char l i) s = .ok (s₁, true) := by
        rw [List.getD_eq_getElem _ _ hlt, hget, next_char_eq hlen ht]
        exact hpass
      rw [tokenize_loop_pass hlt hpass', if_pos rfl, Nat.mod_eq_of_lt (by omega)]
      exact ih (by omega) hlt' hdrop hr

/-! ## Renderings -/

/-- A character that may stand for itself between words. -/
def Bare (c : UInt8) : Prop := c ≠ 39 ∧ c ≠ 34 ∧ c ≠ 92 ∧ isspace c = false

/-- `t` is a rendering of the word `w`, which is read from the mode `m` on and ends outside of
quotes. -/
inductive Renders : Mode → Bytes → Bytes → Prop
  | done : Renders .MODE_NORMAL [] []
  | bare {c : UInt8} {w t : Bytes} : Bare c → Renders .MODE_NORMAL w t →
      Renders .MODE_NORMAL (c :: w) (c :: t)
  | escaped {m : Mode} {c : UInt8} {w t : Bytes} : Renders m w t → Renders m (c :: w) (92 :: c :: t)
  | open_squote {w t : Bytes} : Renders .MODE_SQUOTE w t → Renders .MODE_NORMAL w (39 :: t)
  | in_squote {c : UInt8} {w t : Bytes} : c ≠ 39 → c ≠ 92 → Renders .MODE_SQUOTE w t →
      Renders .MODE_SQUOTE (c :: w) (c :: t)
  | close_squote {w t : Bytes} : Renders .MODE_NORMAL w t → Renders .MODE_SQUOTE w (39 :: t)
  | open_dquote {w t : Bytes} : Renders .MODE_DQUOTE w t → Renders .MODE_NORMAL w (34 :: t)
  | in_dquote {c : UInt8} {w t : Bytes} : c ≠ 34 → c ≠ 92 → Renders .MODE_DQUOTE w t →
      Renders .MODE_DQUOTE (c :: w) (c :: t)
  | close_dquote {w t : Bytes} : Renders .MODE_NORMAL w t → Renders .MODE_DQUOTE w (34 :: t)

def Spaces (t : Bytes) : Prop := ∀ c ∈ t, isspace c = true

/-- Words with whitespace between them, and perhaps around them. -/
inductive RendersLine : List Bytes → Bytes → Prop
  | none {t : Bytes} : Spaces t → RendersLine [] t
  | last {before w t after : Bytes} : Spaces before → Renders .MODE_NORMAL w t → Spaces after →
      RendersLine [w] (before ++ (t ++ after))
  | more {before w t between w' rest : Bytes} {words : List Bytes} : Spaces before →
      Renders .MODE_NORMAL w t → Spaces between → between ≠ [] → RendersLine (w' :: words) rest →
      RendersLine (w :: w' :: words) (before ++ (t ++ (between ++ rest)))

/-- A word that the shell can take. -/
structure Word (w : Bytes) : Prop where
  nonempty : w ≠ []
  no_null : 0 ∉ w
  short : w.length < 4095

theorem pass_eq {taken : Bool} (h : body c next s = .ok (s', taken)) (hroom : s'.Room) :
    pass c next s = .ok (s', taken) := by
  rw [pass, h]
  exact if_neg (Nat.not_le.2 hroom)

theorem room_of_lt (h : token.length < 4095) : Scanner.Room ⟨m, token, tokens⟩ :=
  Nat.succ_lt_succ h

/-- A pass that puts its character into the token. -/
theorem Scans.put (hbody : ∀ next, body c next ⟨m, token, tokens⟩ =
      (·, false) <$> HwShell.put ⟨m, token, tokens⟩ c) (hshort : token.length + 1 < 4095)
    (h : Scans t ⟨m, token ++ [c], tokens⟩ rest s') :
    Scans (c :: t) ⟨m, token, tokens⟩ rest s' := by
  have hlen : (token ++ [c]).length < 4095 := by
    rw [List.length_append, List.length_singleton]
    exact hshort
  refine .one (fun next => pass_eq ?_ (room_of_lt hlen)) h
  rw [hbody, put_eq (room_of_lt (Nat.lt_of_succ_lt hshort))]
  rfl

/-- A pass that puts the character behind a backslash into the token. -/
theorem Scans.put_next (hshort : token.length + 1 < 4095)
    (h : Scans t ⟨m, token ++ [c], tokens⟩ rest s') :
    Scans (92 :: c :: t) ⟨m, token, tokens⟩ rest s' := by
  have hlen : (token ++ [c]).length < 4095 := by
    rw [List.length_append, List.length_singleton]
    exact hshort
  have hescape : escape (some c) ⟨m, token, tokens⟩ = .ok (⟨m, token ++ [c], tokens⟩, true) := by
    rw [escape, put_eq (room_of_lt (Nat.lt_of_succ_lt hshort))]
    rfl
  refine .two (pass_eq ?_ (room_of_lt hlen)) h
  cases m <;> exact hescape

/-- A pass that leaves the token as it is. -/
theorem Scans.skip {m' : Mode} (hbody : ∀ next, body c next ⟨m, token, tokens⟩ =
      .ok (⟨m', token, tokens⟩, false)) (hshort : token.length < 4095)
    (h : Scans t ⟨m', token, tokens⟩ rest s') : Scans (c :: t) ⟨m, token, tokens⟩ rest s' :=
  .one (fun next => pass_eq (hbody next) (room_of_lt hshort)) h

/-- What the passes over the rendering of a word do. -/
theorem Renders.scans (h : Renders m w t) (hshort : token.length + w.length < 4095) :
    Scans (t ++ rest) ⟨m, token, tokens⟩ rest ⟨.MODE_NORMAL, token ++ w, tokens⟩ := by
  have hcons {c : UInt8} {w token : Bytes} (h : token.length + (c :: w).length < 4095) :
      token.length + 1 < 4095 ∧ (token ++ [c]).length + w.length < 4095 := by
    rw [List.length_cons] at h
    rw [List.length_append, List.length_singleton]
    omega
  induction h generalizing token with
  | done =>
      rw [List.append_nil]
      exact .done
  | @bare c w t hc _ ih =>
      rw [List.append_cons token]
      refine .put (fun next => ?_) (hcons hshort).1 (ih (hcons hshort).2)
      simp only [body, if_neg hc.1, if_neg hc.2.1, if_neg hc.2.2.1, hc.2.2.2]
      exact if_neg Bool.false_ne_true
  | @escaped m c w t _ ih =>
      rw [List.append_cons token]
      exact .put_next (hcons hshort).1 (ih (hcons hshort).2)
  | open_squote _ ih => exact .skip (fun _ => rfl) (by omega) (ih hshort)
  | @in_squote c w t hquote hslash _ ih =>
      rw [List.append_cons token]
      refine .put (fun next => ?_) (hcons hshort).1 (ih (hcons hshort).2)
      simp only [body, if_neg hquote, if_neg hslash]
  | close_squote _ ih => exact .skip (fun _ => rfl) (by omega) (ih hshort)
  | open_dquote _ ih => exact .skip (fun _ => rfl) (by omega) (ih hshort)
  | @in_dquote c w t hquote hslash _ ih =>
      rw [List.append_cons token]
      refine .put (fun next => ?_) (hcons hshort).1 (ih (hcons hshort).2)
      simp only [body, if_neg hquote, if_neg hslash]
  | close_dquote _ ih => exact .skip (fun _ => rfl) (by omega) (ih hshort)

/-- What a whitespace character is not. -/
theorem body_space (hc : isspace c = true) (next : Option UInt8) (s : Scanner)
    (hm : s.mode = .MODE_NORMAL) :
    body c next s = if s.token.length > 0 then (·, false) <$> push_word s else .ok (s, false) := by
  have hne {d : UInt8} (hd : isspace d = false) : c ≠ d := by
    rintro rfl
    rw [hd] at hc
    cases hc
  rw [body, hm]
  simp only [if_neg (hne (show isspace 39 = false by decide)),
    if_neg (hne (show isspace 34 = false by decide)),
    if_neg (hne (show isspace 92 = false by decide)), hc, if_true]

theorem Spaces.scans (h : Spaces t) :
    Scans (t ++ rest) ⟨.MODE_NORMAL, [], tokens⟩ rest ⟨.MODE_NORMAL, [], tokens⟩ := by
  induction t with
  | nil => exact .done
  | cons c t ih =>
      have hbody (next : Option UInt8) := body_space (h c List.mem_cons_self) next
        ⟨.MODE_NORMAL, [], tokens⟩ rfl
      exact .skip hbody (by decide) (ih fun d hd => h d (List.mem_cons_of_mem c hd))

theorem Spaces.scans_word (h : Spaces t) (hne : t ≠ []) (hw : Word w) :
    Scans (t ++ rest) ⟨.MODE_NORMAL, w, tokens⟩ rest ⟨.MODE_NORMAL, [], tokens ++ [w]⟩ := by
  cases t with
  | nil => exact absurd rfl hne
  | cons c t =>
      have hrest : Spaces t := fun d hd => h d (List.mem_cons_of_mem c hd)
      refine .one (fun next => pass_eq ?_ (room_of_lt (by decide))) hrest.scans
      have hchars : c_chars w = w := cstr_of_no_null hw.no_null
      rw [body_space (h c List.mem_cons_self) next _ rfl, push_word_eq (room_of_lt hw.short),
        if_pos (List.length_pos_iff.2 hw.nonempty), hchars]
      rfl

theorem RendersLine.scans {words : List Bytes} (h : RendersLine words t)
    (hwords : ∀ w ∈ words, Word w) :
    ∃ s', Scans t ⟨.MODE_NORMAL, [], tokens⟩ [] s' ∧ finish s' = .ok (tokens ++ words) := by
  induction h generalizing tokens with
  | @none t ht =>
      refine ⟨⟨.MODE_NORMAL, [], tokens⟩, ?_, by rw [List.append_nil]; rfl⟩
      simpa using @Spaces.scans t [] tokens ht
  | @last before w t after hbefore ht hafter =>
      have hw := hwords w List.mem_cons_self
      have hread : Scans (before ++ (t ++ after)) ⟨.MODE_NORMAL, [], tokens⟩ after
          ⟨.MODE_NORMAL, w, tokens⟩ :=
        hbefore.scans.trans (ht.scans (by rw [List.length_nil, Nat.zero_add]; exact hw.short))
      by_cases hnil : after = []
      · subst hnil
        refine ⟨_, hread, ?_⟩
        have hchars : c_chars w = w := cstr_of_no_null hw.no_null
        rw [finish, if_pos (List.length_pos_iff.2 hw.nonempty), push_word_eq (room_of_lt hw.short),
          hchars]
        rfl
      · refine ⟨⟨.MODE_NORMAL, [], tokens ++ [w]⟩, hread.trans ?_, rfl⟩
        simpa using @Spaces.scans_word w after [] tokens hafter hnil hw
  | @more before w t between w' rest words hbefore ht hbetween hne _ ih =>
      have hw := hwords w List.mem_cons_self
      obtain ⟨s', hscans, hfinish⟩ := @ih (tokens ++ [w])
        fun v hv => hwords v (List.mem_cons_of_mem w hv)
      have hshort : ([] : Bytes).length + w.length < 4095 := by
        rw [List.length_nil, Nat.zero_add]
        exact hw.short
      have hread := (ht.scans hshort).trans ((hbetween.scans_word hne hw).trans hscans)
      refine ⟨s', hbefore.scans.trans hread, ?_⟩
      rw [hfinish, List.append_assoc]
      rfl

/-! ## The call -/

/-- An index that wraps around in front of the end of the line never reaches it. -/
theorem tokenize_loop_endless {l : Bytes} {fuel i : Nat} (hlen : 2 ^ 32 ≤ l.length)
    (hi : i < 2 ^ 32) : tokenize_loop l fuel i s ≠ .ok s' := by
  induction fuel generalizing i s with
  | zero => exact fun h => by cases h
  | succ fuel ih =>
      rw [tokenize_loop, if_pos (Nat.lt_of_lt_of_le hi hlen)]
      cases hpass : pass (l.getD i 0) (next_char l i) s with
      | error e => exact fun h => by cases h
      | ok r => exact ih (Nat.mod_lt _ (by decide))

theorem tokenize_endless {line : CString} (hlen : 2 ^ 32 ≤ line.chars.length) (fuel : Nat)
    (words : List Bytes) : tokenize fuel line ≠ .ok words := by
  intro h
  rw [tokenize] at h
  cases hend : tokenize_loop line.chars fuel 0 ⟨.MODE_NORMAL, [], []⟩ with
  | error e =>
      rw [hend] at h
      cases h
  | ok s => exact tokenize_loop_endless hlen (by decide) hend

/-- The words come back from every line that is short enough for its index; no line is too long for
the buffer. -/
theorem tokenize_iff {words : List Bytes} {line : CString} (hwords : ∀ w ∈ words, Word w)
    (hline : RendersLine words line.chars) :
    ((∃ fuel, tokenize fuel line = .ok words) ↔ line.chars.length < 2 ^ 32) ∧
      ∀ fuel line', tokenize fuel line' ≠ .error .overrun := by
  refine ⟨⟨fun ⟨fuel, h⟩ => ?_, fun hlen => ?_⟩, tokenize_inside⟩
  · by_contra hlong
    exact tokenize_endless (Nat.le_of_not_lt hlong) fuel words h
  · obtain ⟨s', hscans, hfinish⟩ := @RendersLine.scans _ [] words hline hwords
    have hloop : tokenize_loop line.chars (line.chars.length + 1) 0 ⟨.MODE_NORMAL, [], []⟩ =
        .ok s' := by
      refine tokenize_loop_eq hlen ?_ (Nat.lt_succ_self _) (Nat.zero_le _)
      rw [List.drop_zero]
      exact hscans
    refine ⟨line.chars.length + 1, ?_⟩
    rw [tokenize, hloop]
    exact hfinish

/-- `a'b'\" "c"`: one word in three pieces, and one in quotes. -/
theorem tokenize_iff_text :
    ((∃ fuel, tokenize fuel ⟨[97, 39, 98, 39, 92, 34, 32, 34, 99, 34], by decide⟩ =
        .ok [[97, 98, 34], [99]]) ↔
      ([97, 39, 98, 39, 92, 34, 32, 34, 99, 34] : Bytes).length < 2 ^ 32) ∧
      ∀ fuel line', tokenize fuel line' ≠ .error .overrun := by
  refine @tokenize_iff [[97, 98, 34], [99]] ⟨[97, 39, 98, 39, 92, 34, 32, 34, 99, 34], by decide⟩
    (fun w hw => ?_) ?_
  · simp only [List.mem_cons, List.not_mem_nil, or_false] at hw
    rcases hw with rfl | rfl
    · exact ⟨by decide, by decide, by decide⟩
    · exact ⟨by decide, by decide, by decide⟩
  · have ha : Bare 97 := ⟨by decide, by decide, by decide, by decide⟩
    have hnone : Spaces [] := fun c hc => by cases hc
    have hblank : Spaces [32] := fun c hc => by
      rw [List.mem_singleton.1 hc]
      decide
    have hfirst : Renders .MODE_NORMAL [97, 98, 34] [97, 39, 98, 39, 92, 34] :=
      .bare ha (.open_squote (.in_squote (by decide) (by decide) (.close_squote (.escaped .done))))
    have hsecond : Renders .MODE_NORMAL [99] [34, 99, 34] :=
      .open_dquote (.in_dquote (by decide) (by decide) (.close_dquote .done))
    exact .more hnone hfirst hblank (by decide) (.last hnone hsecond hnone)

/-- A line of blanks, which has no words. -/
def blanks (n : Nat) : CString :=
  ⟨List.replicate n 32, fun h => absurd (List.eq_of_mem_replicate h) (by decide)⟩

theorem length_blanks (n : Nat) : (blanks n).chars.length = n := List.length_replicate

theorem rendersLine_blanks (n : Nat) : RendersLine [] (blanks n).chars := by
  refine .none fun c hc => ?_
  rw [List.eq_of_mem_replicate hc]
  decide

theorem tokenize_blanks : RendersLine [] (blanks (2 ^ 32)).chars ∧
    ¬ ∃ fuel, tokenize fuel (blanks (2 ^ 32)) = .ok [] :=
  ⟨rendersLine_blanks _, fun ⟨fuel, h⟩ => tokenize_endless (length_blanks _).ge fuel [] h⟩

end HwShell

end Berk162
