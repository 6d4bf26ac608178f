import Berk162.LibC.Strtok

/-!
# Ustar — `lib/ustar.c`, taking dangerous prefixes from a file name

The name is an object of memory with its terminating null.  The functions of `lib/string.c` that are
called here read it byte by byte, and a read behind the null has no value.  The literals that it is
compared with are arrays of their own.

`strip` says what is taken away, `strip_antisocial_prefixes_eq` that the code takes just that.
-/

namespace Berk162

variable {mem : Nat → UInt8} {s : CString} {a pos fuel : Nat}

/-! ## The string functions -/

/-- The array of a literal, with its null. -/
def literal (s : String) : Bytes := text s ++ [0]

/-- The loop of `memcmp`; `b` is what is left of the second block. -/
def Object.memcmp_from (o : Object) (mem : Nat → UInt8) : Nat → Bytes → Nat → Option Int
  | _, _, 0 => some 0
  | a, b, size + 1 => do
      let x ← o.load mem a
      let y ← b.head?
      if x ≠ y then return if x > y then 1 else -1
      else o.memcmp_from mem (size_add a 1) b.tail size

def Object.memcmp (o : Object) (mem : Nat → UInt8) (a : Nat) (b : Bytes) (size : Nat) :
    Option Int := do
  ASSERT (a ≠ 0 ∨ size = 0)
  o.memcmp_from mem a b size

/-- The loop of `strchr`, for as many characters as `fuel` is.  A null pointer is 0. -/
def Object.strchr_from (o : Object) (mem : Nat → UInt8) (c : UInt8) : Nat → Nat → Option Nat
  | 0, _ => none
  | fuel + 1, string => do
      let x ← o.load mem string
      if x = c then return string
      else if x = 0 then return 0
      else o.strchr_from mem c fuel (size_add string 1)

def Object.strchr (o : Object) (fuel : Nat) (mem : Nat → UInt8) (string : Nat) (c : UInt8) :
    Option Nat := do
  ASSERT (string ≠ 0)
  o.strchr_from mem c fuel string

/-- The loop of `strcmp`; `b` is what is left of the second string. -/
def Object.strcmp_from (o : Object) (mem : Nat → UInt8) : Nat → Bytes → Option Int
  | _, [] => none
  | a, y :: b => do
      let x ← o.load mem a
      if x ≠ 0 ∧ x = y then o.strcmp_from mem (size_add a 1) b
      else return if x < y then -1 else if x > y then 1 else 0

def Object.strcmp (o : Object) (mem : Nat → UInt8) (a : Nat) (b : Bytes) : Option Int := do
  ASSERT (a ≠ 0)
  o.strcmp_from mem a b

/-! ## Stripping -/

/-- What `strip_antisocial_prefixes` returns: the literal `"."`, or a pointer into its argument. -/
inductive Stripped
  | dot
  | file_name (p : Nat)
  deriving DecidableEq, Repr

/-- The condition of the loop. -/
def Object.antisocial (o : Object) (mem : Nat → UInt8) (file_name : Nat) : Option Bool := do
  if (← o.load mem file_name) = 47 then return true
  else if (← o.memcmp mem file_name (literal "./") 2) = 0 then return true
  else return (← o.memcmp mem file_name (literal "../") 3) = 0

/-- The loop, for as many rounds as `fuel` is. -/
def Object.strip_loop (o : Object) (mem : Nat → UInt8) : Nat → Nat → Option Nat
  | 0, _ => none
  | fuel + 1, file_name => do
      if ← o.antisocial mem file_name then
        let slash ← o.strchr (fuel + 1) mem file_name 47
        o.strip_loop mem fuel (size_add slash 1)
      else return file_name

def Object.strip_antisocial_prefixes (o : Object) (fuel : Nat) (mem : Nat → UInt8)
    (file_name : Nat) : Option Stripped := do
  let file_name ← o.strip_loop mem fuel file_name
  if (← o.load mem file_name) = 0 then return .dot
  else if (← o.strcmp mem file_name (literal "..")) = 0 then return .dot
  else return .file_name file_name

/-! ## What it takes away -/

/-- A name that begins with one of the prefixes. -/
def Antisocial (l : Bytes) : Prop := text "/" <+: l ∨ text "./" <+: l ∨ text "../" <+: l

instance (l : Bytes) : Decidable (Antisocial l) := inferInstanceAs (Decidable (_ ∨ _ ∨ _))

/-- The name without the prefixes that it begins with. -/
def strip : Bytes → Bytes
  | 47 :: l => strip l
  | 46 :: 47 :: l => strip l
  | 46 :: 46 :: 47 :: l => strip l
  | l => l

theorem text_slash : text "/" = [47] := by decide

theorem text_dot_slash : text "./" = [46, 47] := by decide

theorem text_dot_dot_slash : text "../" = [46, 46, 47] := by decide

theorem strip_of_not_antisocial {l : Bytes} (h : ¬ Antisocial l) : strip l = l := by
  rw [Antisocial, text_slash, text_dot_slash, text_dot_dot_slash] at h
  fun_cases strip l with
  | case1 l => exact absurd (.inl (by simp)) h
  | case2 l => exact absurd (.inr (.inl (by simp))) h
  | case3 l => exact absurd (.inr (.inr (by simp))) h
  | case4 => rfl

theorem not_antisocial_of {l : Bytes} (h₁ : ∀ t, l = 47 :: t → False)
    (h₂ : ∀ t, l = 46 :: 47 :: t → False) (h₃ : ∀ t, l = 46 :: 46 :: 47 :: t → False) :
    ¬ Antisocial l := by
  rw [Antisocial, text_slash, text_dot_slash, text_dot_dot_slash]
  rintro (⟨t, rfl⟩ | ⟨t, rfl⟩ | ⟨t, rfl⟩)
  · exact h₁ t rfl
  · exact h₂ t rfl
  · exact h₃ t rfl

theorem not_antisocial_strip (l : Bytes) : ¬ Antisocial (strip l) := by
  fun_induction strip l with
  | case1 l ih => exact ih
  | case2 l ih => exact ih
  | case3 l ih => exact ih
  | case4 l h₁ h₂ h₃ => exact not_antisocial_of h₁ h₂ h₃

theorem strip_suffix (l : Bytes) : strip l <:+ l := by
  fun_induction strip l with
  | case1 l ih => exact ih.trans (List.suffix_append [47] l)
  | case2 l ih => exact ih.trans (List.suffix_append [46, 47] l)
  | case3 l ih => exact ih.trans (List.suffix_append [46, 46, 47] l)
  | case4 l => exact List.suffix_rfl

/-! ## Reading the name -/

/-- The name `s` in memory, at an address from which its bytes do not wrap. -/
structure CString.At (s : CString) (mem : Nat → UInt8) (a : Nat) : Prop where
  chars : Unread mem s a 0
  nonnull : 0 < a
  fits : a + s.chars.length < WORD

namespace CString.At

variable {c : UInt8} {l : Bytes}

/-- The reads of the character at `pos`, and where the next one is. -/
theorem load_cons (h : s.At mem a) (hl : s.chars.drop pos = c :: l) :
    (s.object a).load mem (a + pos) = some c ∧ size_add (a + pos) 1 = a + (pos + 1) ∧
      s.chars.drop (pos + 1) = l ∧ pos < s.chars.length ∧ c ≠ 0 := by
  have hlt : pos < s.chars.length := by
    have hlen := congrArg List.length hl
    rw [List.length_drop, List.length_cons] at hlen
    omega
  have hfits := h.fits
  rw [List.drop_eq_getElem_cons hlt] at hl
  obtain ⟨hc, hdrop⟩ := List.cons.inj hl
  have hchar : s.char pos = c := by rw [CString.char, List.getD_eq_getElem _ _ hlt, hc]
  refine ⟨?_, size_add_eq (by omega), hdrop, hlt, ?_⟩
  · rw [h.chars.load (Nat.zero_le _) hlt.le, hchar]
  · rw [← hchar]
    exact s.char_ne_zero hlt

theorem load_nil (h : s.At mem a) (hpos : pos ≤ s.chars.length) (hl : s.chars.drop pos = []) :
    (s.object a).load mem (a + pos) = some 0 := by
  have hlen : pos = s.chars.length := Nat.le_antisymm hpos (List.drop_eq_nil_iff.1 hl)
  rw [h.chars.load (Nat.zero_le _) hpos, hlen, CString.char_length]

/-- Comparing with `p` stops at the first difference, and the null is one. -/
theorem memcmp_from (h : s.At mem a) (p t : Bytes) (hp : 0 ∉ p) (hpos : pos ≤ s.chars.length) :
    ∃ r, (s.object a).memcmp_from mem (a + pos) (p ++ t) p.length = some r ∧
      (r = 0 ↔ p <+: s.chars.drop pos) := by
  induction p generalizing pos with
  | nil => exact ⟨0, rfl, by simp⟩
  | cons y p ih =>
      rw [List.mem_cons, not_or] at hp
      rw [List.length_cons, Object.memcmp_from]
      cases hl : s.chars.drop pos with
      | nil =>
          rw [h.load_nil hpos hl]
          refine ⟨_, if_pos hp.1, ?_⟩
          split <;> simp
      | cons c l =>
          obtain ⟨hload, hnext, hdrop, hlt, -⟩ := h.load_cons hl
          obtain ⟨r, heq, hr⟩ := ih hp.2 (Nat.succ_le_of_lt hlt)
          rw [hload]
          by_cases hc : c = y
          · refine ⟨r, ?_, ?_⟩
            · rw [← heq, ← hnext]
              exact if_neg (not_not.2 hc)
            · rw [hr, hdrop, hc, List.prefix_cons_inj]
          · refine ⟨_, if_pos hc, ?_⟩
            have hne : ¬ y :: p <+: c :: l := fun hpre =>
              hc (List.cons_prefix_cons.1 hpre).1.symm
            split <;> simp [hne]

/-- The first `c` is behind the characters `q`. -/
theorem strchr_from (h : s.At mem a) {q : Bytes} (hc : c ∉ q) (hf : q.length < fuel)
    (hl : s.chars.drop pos = q ++ c :: l) :
    (s.object a).strchr_from mem c fuel (a + pos) = some (a + (pos + q.length)) := by
  induction q generalizing pos fuel with
  | nil =>
      obtain ⟨fuel, rfl⟩ := Nat.exists_eq_succ_of_ne_zero (show fuel ≠ 0 by omega)
      obtain ⟨hload, -⟩ := h.load_cons hl
      rw [Object.strchr_from, hload]
      exact if_pos rfl
  | cons x q ih =>
      obtain ⟨fuel, rfl⟩ := Nat.exists_eq_succ_of_ne_zero (show fuel ≠ 0 by omega)
      rw [List.mem_cons, not_or] at hc
      rw [List.length_cons] at hf ⊢
      obtain ⟨hload, hnext, hdrop, -, hx⟩ := h.load_cons hl
      have hrest := ih hc.2 (Nat.lt_of_succ_lt_succ hf) hdrop
      rw [Object.strchr_from, hload, Option.bind_eq_bind, Option.bind_some, if_neg (Ne.symm hc.1),
        if_neg hx, hnext, hrest, Nat.add_right_comm, Nat.add_assoc]

theorem sign_ne_zero {x y : UInt8} (h : x ≠ y) :
    (if x < y then (-1 : Int) else if x > y then 1 else 0) ≠ 0 := by
  split
  · decide
  · rename_i hlt
    split
    · decide
    · rename_i hgt
      exact absurd (UInt8.le_antisymm (UInt8.not_lt.1 hgt) (UInt8.not_lt.1 hlt)) h

/-- Comparing with the whole of `p` goes on to its null, or to the first difference. -/
theorem strcmp_from (h : s.At mem a) (p : Bytes) (hp : 0 ∉ p) (hpos : pos ≤ s.chars.length) :
    ∃ r, (s.object a).strcmp_from mem (a + pos) (p ++ [0]) = some r ∧
      (r = 0 ↔ s.chars.drop pos = p) := by
  induction p generalizing pos with
  | nil =>
      rw [List.nil_append, Object.strcmp_from]
      cases hl : s.chars.drop pos with
      | nil =>
          rw [h.load_nil hpos hl]
          exact ⟨0, rfl, by simp⟩
      | cons c l =>
          obtain ⟨hload, -, -, -, hc⟩ := h.load_cons hl
          rw [hload]
          refine ⟨_, if_neg (fun heq => heq.1 heq.2), ?_⟩
          exact ⟨fun hzero => absurd hzero (sign_ne_zero hc), fun hnil => absurd hnil (by simp)⟩
  | cons y p ih =>
      rw [List.mem_cons, not_or] at hp
      rw [List.cons_append, Object.strcmp_from]
      cases hl : s.chars.drop pos with
      | nil =>
          rw [h.load_nil hpos hl]
          have hstop : ¬ ((0 : UInt8) ≠ 0 ∧ 0 = y) := fun heq => heq.1 rfl
          rw [Option.bind_eq_bind, Option.bind_some, if_neg hstop]
          exact ⟨_, rfl, fun hzero => absurd hzero (sign_ne_zero hp.1),
            fun hnil => absurd hnil (by simp)⟩
      | cons c l =>
          obtain ⟨hload, hnext, hdrop, hlt, hc⟩ := h.load_cons hl
          obtain ⟨r, heq, hr⟩ := ih hp.2 (Nat.succ_le_of_lt hlt)
          rw [hload]
          by_cases hcy : c = y
          · refine ⟨r, ?_, ?_⟩
            · rw [← heq, ← hnext]
              exact if_pos ⟨hc, hcy⟩
            · rw [hr, hdrop, hcy, List.cons.injEq, and_iff_right rfl]
          · refine ⟨_, if_neg (fun heq => hcy heq.2), ?_⟩
            exact ⟨fun hzero => absurd hzero (sign_ne_zero hcy),
              fun heq => absurd (List.cons.inj heq).1 hcy⟩

/-! ## The loop -/

/-- The test of the loop reads no further than the first difference from each prefix. -/
theorem antisocial (h : s.At mem a) (hpos : pos ≤ s.chars.length) :
    (s.object a).antisocial mem (a + pos) = some (decide (Antisocial (s.chars.drop pos))) := by
  have ha : a + pos ≠ 0 := by
    have hnonnull := h.nonnull
    omega
  obtain ⟨r, heq, hr⟩ := h.memcmp_from (text "./") [0] (by decide) hpos
  obtain ⟨r', heq', hr'⟩ := h.memcmp_from (text "../") [0] (by decide) hpos
  have hfirst : ∃ x, (s.object a).load mem (a + pos) = some x ∧
      (x = 47 ↔ text "/" <+: s.chars.drop pos) := by
    rw [text_slash]
    cases hl : s.chars.drop pos with
    | nil => exact ⟨0, h.load_nil hpos hl, by simp⟩
    | cons c l =>
        obtain ⟨hload, -⟩ := h.load_cons hl
        exact ⟨c, hload, by simp [List.cons_prefix_cons, eq_comm]⟩
  obtain ⟨x, hload, hx⟩ := hfirst
  have hcmp : (s.object a).memcmp mem (a + pos) (literal "./") 2 = some r := by
    rw [Object.memcmp, ASSERT_pos (.inl ha)]
    exact heq
  have hcmp' : (s.object a).memcmp mem (a + pos) (literal "../") 3 = some r' := by
    rw [Object.memcmp, ASSERT_pos (.inl ha)]
    exact heq'
  have hiff : Antisocial (s.chars.drop pos) ↔ x = 47 ∨ r = 0 ∨ r' = 0 :=
    (or_congr hx (or_congr hr hr')).symm
  have hdec : decide (Antisocial (s.chars.drop pos)) = decide (x = 47 ∨ r = 0 ∨ r' = 0) :=
    decide_eq_decide.2 hiff
  rw [Object.antisocial, hload, hcmp, hcmp', hdec]
  simp only [Option.bind_eq_bind, Option.bind_some]
  by_cases hslash : x = 47
  · simp [hslash]
  · by_cases hdot : r = 0
    · simp [hslash, hdot]
    · simp [hslash, hdot]

/-- A round that takes away `q` and the slash behind it. -/
theorem strip_loop_step (h : s.At mem a) {q : Bytes} (hq : 47 ∉ q) (hf : q.length < fuel + 1)
    (hl : s.chars.drop pos = q ++ 47 :: l) (hbad : Antisocial (s.chars.drop pos)) :
    (s.object a).strip_loop mem (fuel + 1) (a + pos) =
        (s.object a).strip_loop mem fuel (a + (pos + (q.length + 1))) ∧
      s.chars.drop (pos + (q.length + 1)) = l ∧ pos + (q.length + 1) ≤ s.chars.length := by
  have hlen := congrArg List.length hl
  rw [List.length_drop, List.length_append, List.length_cons] at hlen
  have hfits := h.fits
  have hnonnull := h.nonnull
  have hslash := h.strchr_from hq hf hl
  refine ⟨?_, ?_, by omega⟩
  · rw [Object.strip_loop, h.antisocial (by omega), decide_eq_true hbad]
    simp only [Option.bind_eq_bind, Option.bind_some, if_true]
    rw [Object.strchr, ASSERT_pos (show a + pos ≠ 0 by omega), Option.bind_eq_bind,
      Option.bind_some, hslash, Option.bind_some, size_add_eq (by omega)]
    rfl
  · rw [← List.drop_drop, hl, ← Nat.add_comm 1, ← List.drop_drop]
    simp

/-- The loop ends at what `strip` leaves. -/
theorem strip_loop (h : s.At mem a) (hpos : pos ≤ s.chars.length)
    (hf : s.chars.length - pos < fuel) :
    ∃ k, pos ≤ k ∧ k ≤ s.chars.length ∧ s.chars.drop k = strip (s.chars.drop pos) ∧
      (s.object a).strip_loop mem fuel (a + pos) = some (a + k) := by
  -- one round for each prefix that `strip` takes away
  have hround : ∀ {q l : Bytes} {pos fuel : Nat}, 47 ∉ q → Antisocial (q ++ 47 :: l) →
      s.chars.drop pos = q ++ 47 :: l → s.chars.length - pos < fuel →
      (∀ {pos fuel}, s.chars.drop pos = l → pos ≤ s.chars.length → s.chars.length - pos < fuel →
        ∃ k, pos ≤ k ∧ k ≤ s.chars.length ∧ s.chars.drop k = strip l ∧
          (s.object a).strip_loop mem fuel (a + pos) = some (a + k)) →
      ∃ k, pos ≤ k ∧ k ≤ s.chars.length ∧ s.chars.drop k = strip l ∧
        (s.object a).strip_loop mem fuel (a + pos) = some (a + k) := by
    intro q l pos fuel hq hbad hl hf ih
    obtain ⟨fuel, rfl⟩ := Nat.exists_eq_succ_of_ne_zero (show fuel ≠ 0 by omega)
    have hlen := congrArg List.length hl
    rw [List.length_drop, List.length_append, List.length_cons] at hlen
    have hfuel : q.length < fuel + 1 := by omega
    have hleft : s.chars.length - (pos + (q.length + 1)) < fuel := by omega
    obtain ⟨hstep, hdrop, hle⟩ := h.strip_loop_step hq hfuel hl (hl ▸ hbad)
    obtain ⟨k, hk, hkl, hstrip, heq⟩ := ih hdrop hle hleft
    exact ⟨k, by omega, hkl, hstrip, hstep.trans heq⟩
  generalize hl : s.chars.drop pos = l
  fun_induction strip l generalizing pos fuel with
  | case1 l ih =>
      have hbad : Antisocial ([] ++ 47 :: l) := .inl ⟨l, rfl⟩
      exact hround (by decide) hbad hl hf fun hl hpos hf => ih hpos hf hl
  | case2 l ih =>
      have hbad : Antisocial ([46] ++ 47 :: l) := .inr (.inl ⟨l, rfl⟩)
      exact hround (by decide) hbad hl hf fun hl hpos hf => ih hpos hf hl
  | case3 l ih =>
      have hbad : Antisocial ([46, 46] ++ 47 :: l) := .inr (.inr ⟨l, rfl⟩)
      exact hround (by decide) hbad hl hf fun hl hpos hf => ih hpos hf hl
  | case4 l h₁ h₂ h₃ =>
      have hgood : ¬ Antisocial (s.chars.drop pos) := hl ▸ not_antisocial_of h₁ h₂ h₃
      obtain ⟨fuel, rfl⟩ := Nat.exists_eq_succ_of_ne_zero (show fuel ≠ 0 by omega)
      refine ⟨pos, Nat.le_refl _, hpos, hl, ?_⟩
      rw [Object.strip_loop, h.antisocial hpos, decide_eq_false hgood]
      rfl

end CString.At

/-! ## The call -/

/-- The name that a result is for, after a call on `s` at `a`. -/
def Stripped.chars (s : CString) (a : Nat) : Stripped → Bytes
  | .dot => text "."
  | .file_name p => s.chars.drop (p - a)

/-- A name that stays in the directory that it is looked up in, as far as its beginning tells. -/
structure SafeName (l : Bytes) : Prop where
  nonempty : l ≠ []
  stays : ¬ Antisocial l
  not_parent : l ≠ text ".."

/-- What the call returns, by what `strip` leaves. -/
theorem strip_antisocial_prefixes_eq (h : s.At mem a) (hf : s.chars.length < fuel) :
    ∃ k, k ≤ s.chars.length ∧ s.chars.drop k = strip s.chars ∧
      (s.object a).strip_antisocial_prefixes fuel mem a =
        some (if strip s.chars = [] ∨ strip s.chars = text ".." then .dot
          else .file_name (a + k)) := by
  obtain ⟨k, -, hk, hstrip, hloop⟩ := h.strip_loop (Nat.zero_le _) hf
  rw [Nat.add_zero] at hloop
  rw [List.drop_zero] at hstrip
  obtain ⟨r, heq, hr⟩ := h.strcmp_from (text "..") (by decide) hk
  have hnonnull := h.nonnull
  have hcmp : (s.object a).strcmp mem (a + k) (literal "..") = some r := by
    rw [Object.strcmp, ASSERT_pos (show a + k ≠ 0 by omega)]
    exact heq
  refine ⟨k, hk, hstrip, ?_⟩
  rw [Object.strip_antisocial_prefixes, hloop, ← hstrip]
  simp only [Option.bind_eq_bind, Option.bind_some, hcmp]
  cases hl : s.chars.drop k with
  | nil =>
      rw [h.load_nil hk hl]
      rfl
  | cons c l =>
      obtain ⟨hload, -, -, -, hc⟩ := h.load_cons hl
      rw [hl] at hr
      rw [hload, Option.bind_some, if_neg hc]
      by_cases hzero : r = 0
      · rw [if_pos hzero, if_pos (.inr (hr.1 hzero))]
        rfl
      · rw [if_neg hzero, if_neg (not_or.2 ⟨List.cons_ne_nil c l, fun h => hzero (hr.2 h)⟩)]
        rfl

theorem strip_antisocial_prefixes_of_safe (h : s.At mem a) (hf : s.chars.length < fuel)
    (hsafe : SafeName s.chars) :
    (s.object a).strip_antisocial_prefixes fuel mem a = some (.file_name a) := by
  obtain ⟨k, hk, hdrop, heq⟩ := strip_antisocial_prefixes_eq h hf
  rw [strip_of_not_antisocial hsafe.stays] at hdrop heq
  have hzero : k = 0 := by
    have hlen := congrArg List.length hdrop
    have hpos := List.length_pos_of_ne_nil hsafe.nonempty
    rw [List.length_drop] at hlen
    omega
  rw [heq, if_neg (not_or.2 ⟨hsafe.nonempty, hsafe.not_parent⟩), hzero, Nat.add_zero]

theorem safeName_dot : SafeName (text ".") := ⟨by decide, by decide, by decide⟩

/-- On every name in memory the call returns, and no read is past the null.  The result is `"."` or
the safe end of the name.  Of a name with none of the forms nothing is taken, only the empty name is
made `"."`.  Calling it on a result gives that result back. -/
theorem strip_antisocial_prefixes_safe (h : s.At mem a) (hf : s.chars.length < fuel) :
    ∃ r, (s.object a).strip_antisocial_prefixes fuel mem a = some r ∧
      (r = .dot ∨ ∃ k ≤ s.chars.length, r = .file_name (a + k) ∧ SafeName (s.chars.drop k)) ∧
      (¬ Antisocial s.chars → s.chars ≠ text ".." →
        r = .file_name a ∨ s.chars = [] ∧ r = .dot) ∧
      ∀ t : CString, t.chars = r.chars s a → ∀ mem' a' fuel', t.At mem' a' →
        t.chars.length < fuel' →
        (t.object a').strip_antisocial_prefixes fuel' mem' a' = some (.file_name a') := by
  obtain ⟨k, hk, hdrop, heq⟩ := strip_antisocial_prefixes_eq h hf
  have hresult : ∀ t : CString, SafeName t.chars → ∀ mem' a' fuel', t.At mem' a' →
      t.chars.length < fuel' →
      (t.object a').strip_antisocial_prefixes fuel' mem' a' = some (.file_name a') :=
    fun t hsafe mem' a' fuel' ht hf' => strip_antisocial_prefixes_of_safe ht hf' hsafe
  have hplain : ¬ Antisocial s.chars → s.chars ≠ text ".." → s.chars ≠ [] →
      (s.object a).strip_antisocial_prefixes fuel mem a = some (.file_name a) :=
    fun hstays hparent hne => strip_antisocial_prefixes_of_safe h hf ⟨hne, hstays, hparent⟩
  by_cases hnone : strip s.chars = [] ∨ strip s.chars = text ".."
  · rw [if_pos hnone] at heq
    refine ⟨.dot, heq, .inl rfl, fun hstays hparent => .inr ⟨?_, rfl⟩, fun t ht => ?_⟩
    · by_contra hne
      rw [hplain hstays hparent hne] at heq
      cases heq
    · exact hresult t (ht ▸ safeName_dot)
  · rw [if_neg hnone] at heq
    have hsafe : SafeName (s.chars.drop k) := by
      rw [hdrop]
      exact ⟨fun hnil => hnone (.inl hnil), not_antisocial_strip _, fun hpar => hnone (.inr hpar)⟩
    refine ⟨.file_name (a + k), heq, .inr ⟨k, hk, rfl, hsafe⟩, fun hstays hparent => .inl ?_,
      fun t ht => ?_⟩
    · by_cases hne : s.chars = []
      · rw [hne, List.drop_nil] at hsafe
        exact absurd rfl hsafe.nonempty
      · rw [hplain hstays hparent hne] at heq
        exact (Option.some.inj heq).symm
    · rw [Stripped.chars, Nat.add_sub_cancel_left] at ht
      exact hresult t (ht ▸ hsafe)

/-- A name with every prefix in front of it. -/
def climbing_name : CString := ⟨text "/.././/etc", by decide⟩

theorem climbing_name_at : climbing_name.At (fun p => climbing_name.char (p - 0x1000)) 0x1000 where
  chars := ⟨Nat.zero_le _, fun i _ _ => by rw [Nat.add_sub_cancel_left]⟩
  nonnull := by decide
  fits := by decide

theorem strip_antisocial_prefixes_safe_etc :
    let mem := fun p => climbing_name.char (p - 0x1000)
    ∃ r, (climbing_name.object 0x1000).strip_antisocial_prefixes 11 mem 0x1000 = some r ∧
      (r = .dot ∨ ∃ k ≤ climbing_name.chars.length,
        r = .file_name (0x1000 + k) ∧ SafeName (climbing_name.chars.drop k)) ∧
      (¬ Antisocial climbing_name.chars → climbing_name.chars ≠ text ".." →
        r = .file_name 0x1000 ∨ climbing_name.chars = [] ∧ r = .dot) ∧
      ∀ t : CString, t.chars = r.chars climbing_name 0x1000 → ∀ mem' a' fuel', t.At mem' a' →
        t.chars.length < fuel' →
        (t.object a').strip_antisocial_prefixes fuel' mem' a' = some (.file_name a') :=
  strip_antisocial_prefixes_safe climbing_name_at (by decide)

/-- The call on it. -/
example : (climbing_name.object 0x1000).strip_antisocial_prefixes 11
    (fun p => climbing_name.char (p - 0x1000)) 0x1000 = some (.file_name 0x1007) := by
  decide

end Berk162
